/-!
# JSON values

* `Literal`: what a string literal denotes.
* `Json`: a value.
* `Json.text`, `Json.natural`: values that a program writes.
-/

namespace PropertyIndex

/-- What a string literal denotes.  A literal that escapes one half of a surrogate pair without
the other denotes no text. -/
abbrev Literal := Option String

/-- A JSON value.  A number is kept as it is spelled. -/
inductive Json where
  | null
  | bool (value : Bool)
  | number (spelling : String)
  | string (literal : Literal)
  | array (items : List Json)
  | object (members : List (Literal × Json))

namespace Json

/-- A text as a value. -/
def text (s : String) : Json :=
  string (some s)

/-- A natural number as a value. -/
def natural (n : Nat) : Json :=
  number (toString n)

/-- A list of texts as a value. -/
def texts (list : List String) : Json :=
  array (list.map text)

/-- An object whose keys are texts. -/
def record (members : List (String × Json)) : Json :=
  object (members.map fun (key, value) => (some key, value))

end Json

end PropertyIndex
