import PropertyIndex.Contract.FunctionTable
import PropertyIndex.Text.Identifier
import PropertyIndex.Text.Lowercase
import PropertyIndex.Text.NameSet
import PropertyIndex.Text.Occurrence

/-!
# Linkage of properties and functions

A property is linked to the contract functions that it exercises.  The evidence is a declared
method with the bare name of a function, or a place in the text, letter case aside, where the name
of a function stands in front of a call.

* `Linkage`: the functions, or one of two answers when there are none.
* `Linkage.text`, `Linkage.ofText`: the form in which a linkage is stored.
* `linkedNames`, `linkage`: the linkage of a property.
-/

namespace PropertyIndex

open Text Contract

/-- The functions that a property is linked to. -/
inductive Linkage where
  /-- The property concerns the contract as a whole. -/
  | all
  /-- Nothing is known about what the property exercises. -/
  | unknown
  /-- The functions of these names. -/
  | functions (names : List String)
  deriving DecidableEq, Repr

namespace Linkage

/-- The linked names. -/
def names : Linkage → List String
  | functions names => names
  | _ => []

/-- Whether a linkage names no functions at all. -/
def isSentinel : Linkage → Bool
  | functions _ => false
  | _ => true

/-- The text by which a linkage is stored. -/
def text : Linkage → String
  | all => "ALL"
  | unknown => "UNKNOWN"
  | functions names => joinWith "/" names

/-- The linkage that a text stores.  Names come back as a set. -/
def ofText (text : String) : Linkage :=
  if text = "ALL" then all
  else if text = "UNKNOWN" || text = "" then unknown
  else functions (NameSet.ofList ((pieces '/' text.toList).map String.ofList)).toList

end Linkage

/-- Whether a site is a call: no name character in front, and an opening parenthesis or the sign
of a call with options behind. -/
def isCallSite (site : Site) : Bool :=
  !site.left.head?.any isNameChar && site.right.head?.any fun c => c == '(' || c == '@'

/-- Whether a text calls a name. -/
def invokes (text name : List Char) : Bool :=
  (sitesOf name text).any isCallSite

/-- The functions for which a property with the given text and methods gives evidence. -/
def linkedNames (body : String) (methods : List String) (table : FunctionTable) : NameSet :=
  let lowered := lowercase body.toList
  let declared := (methods.map bareName).filter table.contains
  let called := table.names.filter fun name => invokes lowered (lowercase name.toList)
  NameSet.ofList (declared ++ called)

/-- The linkage of a property with the given text and methods.  Without evidence, a property that
speaks of an invariant concerns the whole contract. -/
def linkage (body : String) (methods : List String) (table : FunctionTable) : Linkage :=
  match (linkedNames body methods table).toList with
  | [] => if contains "invariant".toList (lowercase body.toList) then .all else .unknown
  | names => .functions names

end PropertyIndex
