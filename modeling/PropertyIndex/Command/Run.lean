import PropertyIndex.Batch.ReportText
import PropertyIndex.Command.Arguments
import PropertyIndex.Settings.Load
import PropertyIndex.Text.Wildcard

/-!
# Carrying out commands

* `Reply`: what a command prints and how it ends.
* `Command.run`: the run of a command, which gives the text that it prints.
* `execute`: the reply to a list of arguments.
-/

namespace PropertyIndex

open Text

/-- What a command prints, with its exit status and, where it failed, the reason. -/
structure Reply where
  status : Nat
  output : String
  error : Option String
  deriving DecidableEq, Repr

/-- Whether a pair is asked for by a pattern for its name. -/
def FilePair.isWanted (pattern : Option String) (pair : FilePair) : Bool :=
  match pattern with
  | some pattern => matchesPattern pair.name.toList pattern.toList
  | none => true

/-- The text of a report in a format. -/
def Report.textIn (report : Report) : ReportFormat → String
  | .human => report.toPlainText
  | .json => report.toJsonText
  | .markdown => report.toMarkdown

variable {m : Type → Type} [Monad m] [Storage m]

/-- The text that a command prints. -/
def Command.run : Command → Run m String
  | .index contract spec outputDirectory settings print => do
    let settings := (← Settings.load settings).withOverrides none outputDirectory none
    let pair := FilePair.ofPaths contract spec
    if print then
      return artifact (← pair.index) ++ "\n"
    else
      let summary ← pair.process settings.outputDirectory
      return summary.name ++ ": " ++ toString summary.records ++ " records, " ++
        toString summary.properties ++ " properties -> " ++ summary.output ++ "\n"
  | .batch inputDirectory outputDirectory jobs settings name format => do
    let settings := (← Settings.load settings).withOverrides inputDirectory outputDirectory jobs
    let report ← runBatch settings.inputDirectory settings.outputDirectory settings.workers
      (FilePair.isWanted name)
    return report.textIn format
  | .normalize file => do
    let text ← readInput file
    return String.ofList (Text.normalize text.toList) ++ "\n"

/-- The reply to a list of arguments.  Arguments that are not in order end with status two, and a
run that fails ends with status one and prints nothing. -/
def execute (arguments : List String) : Noting m Reply :=
  match Request.ofArguments? arguments with
  | none => return ⟨2, "", some "usage: index CONTRACT SPEC | batch | normalize FILE"⟩
  | some request => do
    match ← request.command.run.run with
    | .ok output => return ⟨0, output, none⟩
    | .error failure => return ⟨1, "", some failure.message⟩

end PropertyIndex
