import PropertyIndex.Json.Value

/-!
# Reading typed data from JSON values

* `text?`, `natural?`, `bool?`, `texts?`, `word?`: values of single types.
* `fields?`: the fields of a record, which may be an object or an array in field order.
* `depth`, `isExact`: how deep a value is nested, and whether each of its literals and numbers
  stands for a text or a number.
-/

namespace PropertyIndex.Json

/-- A text. -/
def text? : Json → Option String
  | string literal => literal
  | _ => none

/-- A truth value. -/
def bool? : Json → Option Bool
  | bool b => some b
  | _ => none

/-- A natural number below `2 ^ 64`, spelled without sign, fraction or exponent. -/
def natural? : Json → Option Nat
  | number spelling =>
    if spelling.toList.all Char.isDigit then
      let n := Nat.ofDigitChars 10 spelling.toList 0
      if n < UInt64.size then some n else none
    else none
  | _ => none

/-- A list of texts. -/
def texts? : Json → Option (List String)
  | array items => items.mapM text?
  | _ => none

/-- A word of a fixed vocabulary, either as a text or as the only key of an object that says
nothing about it. -/
def word? : Json → Option String
  | string literal => literal
  | object [(key, null)] => key
  | _ => none

/-- The values of a key in an object. -/
def valuesOf (name : String) (members : List (Literal × Json)) : List Json :=
  (members.filter fun member => member.1 == some name).map Prod.snd

/-- The fields of the given names, where a field may be missing in an object but may not come up
twice.  Other members are passed over.  An array has to hold all fields in order. -/
def fields? (names : List String) : Json → Option (List (Option Json))
  | object members =>
    if members.all fun member => member.1.isSome then
      names.mapM fun name =>
        match valuesOf name members with
        | [] => some none
        | [value] => some (some value)
        | _ => none
    else none
  | array items => if items.length == names.length then some (items.map some) else none
  | _ => none

/-! ## Exact values -/

/-- The exponent that a number is spelled with, zero if there is none. -/
def exponentOf : List Char → Int
  | _ :: '-' :: digits => -(Nat.ofDigitChars 10 digits 0 : Nat)
  | _ :: '+' :: digits => (Nat.ofDigitChars 10 digits 0 : Nat)
  | _ :: digits => (Nat.ofDigitChars 10 digits 0 : Nat)
  | [] => 0

/-- The least magnitude that rounds to more than the largest finite number of binary floating
point with 64 bits. -/
def overflowBound : Nat := Nat.pow 2 1024 - Nat.pow 2 970

/-- Whether the magnitude of a number stays below the bound.  The count of its digits decides
outside the decade in which the bound lies. -/
def isFinite (spelling : String) : Bool :=
  let unsigned := match spelling.toList with
    | '-' :: digits => digits
    | digits => digits
  let behind := unsigned.dropWhile Char.isDigit
  let fraction := match behind with
    | '.' :: digits => digits.takeWhile Char.isDigit
    | _ => []
  let digits := (unsigned.takeWhile Char.isDigit ++ fraction).dropWhile fun c => c == '0'
  let scale := exponentOf (behind.dropWhile fun c => c == '.' || c.isDigit) - fraction.length
  let decade := scale + digits.length
  let significand := Nat.ofDigitChars 10 digits 0
  digits.isEmpty || decade ≤ 308 ||
    (decade == 309 &&
      significand * Nat.pow 10 scale.toNat < overflowBound * Nat.pow 10 (-scale).toNat)

mutual

/-- How many containers are nested in a value. -/
def depth : Json → Nat
  | array items => depthOfItems items + 1
  | object members => depthOfMembers members + 1
  | _ => 0

/-- How many containers are nested in the deepest of several items. -/
def depthOfItems : List Json → Nat
  | [] => 0
  | item :: items => max (depth item) (depthOfItems items)

/-- How many containers are nested in the deepest value of several members. -/
def depthOfMembers : List (Literal × Json) → Nat
  | [] => 0
  | (_, value) :: members => max (depth value) (depthOfMembers members)

end

mutual

/-- Whether each literal of a value denotes a text and each of its numbers is finite. -/
def isExact : Json → Bool
  | number spelling => isFinite spelling
  | string literal => literal.isSome
  | array items => areExactItems items
  | object members => areExactMembers members
  | _ => true

/-- Whether all items are exact. -/
def areExactItems : List Json → Bool
  | [] => true
  | item :: items => isExact item && areExactItems items

/-- Whether all keys and values are exact. -/
def areExactMembers : List (Literal × Json) → Bool
  | [] => true
  | (key, value) :: members => key.isSome && isExact value && areExactMembers members

end

end PropertyIndex.Json
