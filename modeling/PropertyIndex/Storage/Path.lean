import PropertyIndex.Text.Line

/-!
# Paths

A path is a text whose parts are separated by slashes.  Empty parts, and parts that are a single
dot, mean nothing, except that a leading dot counts as a part.

* `fileName?`, `stem?`: the last part, and what it is without its ending.
* `splitName`: a name cut at its last dot.
* `parent?`: the path without its last part, as it is written.
* `join`: a path inside another one.
-/

namespace PropertyIndex.Path

open Text

/-- The parts of a path from the last one on, without those at its end that mean nothing.  The
first part always stays. -/
def significant : List (List Char) → List (List Char)
  | [] => []
  | [first] => [first]
  | part :: parts => if part.isEmpty || part == ['.'] then significant parts else part :: parts

/-- The parts of a path from the last one on. -/
def partsFromEnd (path : String) : List (List Char) :=
  significant (pieces '/' path.toList).reverse

/-- The last part of a path, if it is the name of a file or a directory. -/
def fileName? (path : String) : Option String :=
  let isName (part : List Char) : Bool :=
    !part.isEmpty && part != ['.'] && part != ['.', '.']
  match partsFromEnd path with
  | part :: _ => if isName part then some (String.ofList part) else none
  | [] => none

/-- A name cut at its last dot.  A dot at the beginning does not count. -/
def splitName (name : String) : String × Option String :=
  let chars := name.toList
  let after := (chars.reverse.takeWhile fun c => c != '.').reverse
  let before := (chars.take (chars.length - after.length)).dropLast
  if before.isEmpty then (name, none) else (String.ofList before, some (String.ofList after))

/-- The name of a file without its ending. -/
def stem? (path : String) : Option String :=
  (fileName? path).map fun name => (splitName name).1

/-- The path without its last part. -/
def parent? (path : String) : Option String :=
  match partsFromEnd path with
  | [] => none
  | [first] => if first.isEmpty then none else some ""
  | _ :: parts =>
    match significant parts with
    | [[]] => some "/"
    | parts => some (joinWith "/" (parts.reverse.map String.ofList))

/-- A path inside another one.  A path that begins with a slash stands for itself. -/
def join (base path : String) : String :=
  if path.toList.head? == some '/' then path
  else if base.isEmpty || base.toList.getLast? == some '/' then base ++ path
  else base ++ "/" ++ path

end PropertyIndex.Path
