import PropertyIndex.Batch.Run
import PropertyIndex.Settings.Reader

/-!
# Loading settings

* `Settings.load`: the settings of a file, or the initial ones where no file is given.
-/

namespace PropertyIndex.Settings

variable {m : Type → Type} [Monad m] [Storage m]

/-- The settings of a file, or the initial ones where no file is given. -/
def load : Option String → Run m Settings
  | none => return initial
  | some path => do
    let text ← Run.attempt (.settingsRead path) (Storage.readText path)
    match read? text with
    | some settings => return settings
    | none => throw (.settingsParse path)

end PropertyIndex.Settings
