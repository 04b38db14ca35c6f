import PropertyIndex.Json.Token

/-!
# Reading JSON

A value is put together from tokens.  The reading keeps the containers that are still open on a
stack, so it goes through the tokens once and ends with them.

* `Frame`: an open container.
* `Reading`: what has been read and what may come next.
* `Reading.step`: the effect of one token.
* `read?`: the value of a text.
-/

namespace PropertyIndex.Json

/-- An open container with what it holds so far, the latest first. -/
inductive Frame where
  /-- An array that waits for an item. -/
  | array (items : List Json)
  /-- An object that waits for the value of a key. -/
  | object (members : List (Literal × Json)) (key : Literal)

/-- What may come next, with the open containers, the innermost first. -/
inductive Reading where
  /-- A value. -/
  | needValue (stack : List Frame)
  /-- The first item of an array or its end. -/
  | firstItem (stack : List Frame)
  /-- The first key of an object or its end. -/
  | firstKey (stack : List Frame)
  /-- A further key of an object. -/
  | key (stack : List Frame) (members : List (Literal × Json))
  /-- The colon behind a key. -/
  | colon (stack : List Frame) (members : List (Literal × Json)) (key : Literal)
  /-- What may follow a value: another one in the innermost container, or the end of that. -/
  | finished (stack : List Frame) (value : Json)

namespace Reading

/-- The effect of a token where a value has to come. -/
def startValue (stack : List Frame) : Token → Option Reading
  | .openArray => some (firstItem stack)
  | .openObject => some (firstKey stack)
  | .null => some (finished stack .null)
  | .bool b => some (finished stack (.bool b))
  | .number spelling => some (finished stack (.number spelling))
  | .string literal => some (finished stack (.string literal))
  | _ => none

/-- The effect of a token behind a value. -/
def continueWith (value : Json) : List Frame → Token → Option Reading
  | .array items :: stack, .comma => some (needValue (.array (value :: items) :: stack))
  | .array items :: stack, .closeArray =>
    some (finished stack (.array (value :: items).reverse))
  | .object members name :: stack, .comma => some (key stack ((name, value) :: members))
  | .object members name :: stack, .closeObject =>
    some (finished stack (.object ((name, value) :: members).reverse))
  | _, _ => none

/-- The effect of a token. -/
def step : Reading → Token → Option Reading
  | needValue stack, token => startValue stack token
  | firstItem stack, .closeArray => some (finished stack (.array []))
  | firstItem stack, token => startValue (.array [] :: stack) token
  | firstKey stack, .closeObject => some (finished stack (.object []))
  | firstKey stack, .string name => some (colon stack [] name)
  | firstKey _, _ => none
  | key stack members, .string name => some (colon stack members name)
  | key _ _, _ => none
  | colon stack members name, .colon => some (needValue (.object members name :: stack))
  | colon _ _ _, _ => none
  | finished stack value, token => continueWith value stack token

/-- The value of a reading that has come to its end. -/
def result? : Reading → Option Json
  | finished [] value => some value
  | _ => none

end Reading

/-- The value that a list of tokens spells. -/
def ofTokens? (list : List Token) : Option Json :=
  (list.foldlM Reading.step (.needValue [])).bind Reading.result?

/-- The value of a text. -/
def read? (text : List Char) : Option Json :=
  (tokens text).bind ofTokens?

end PropertyIndex.Json
