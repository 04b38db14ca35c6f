import PropertyIndex.Contract.Declaration
import PropertyIndex.Source.Mask
import PropertyIndex.Text.NameSet

/-!
# State variables of a contract

* `stateVariables`: the names that the declarations of a contract source introduce, read on its
  masked copy.
-/

namespace PropertyIndex.Contract

open Text Source

/-- The state variables of a contract source. -/
def stateVariables (source : String) : NameSet :=
  let shown := shownText (mask source.toList)
  NameSet.ofList (([plain?, valued?, mapping?].flatMap fun shape =>
    declarationsIn shape shown).map String.ofList)

end PropertyIndex.Contract
