import PropertyIndex.Source.Mask

/-!
# Masking the bytes of a text

The masked copy of a text may also be made byte by byte, without looking at characters: each byte
of a comment or of the inside of a string literal gives way to a space, unless it is a line feed.
All the signs that the reading looks for are single bytes.

* `maskBytesFrom`, `maskBytes`: the masked copy of bytes.
* `maskedText`: the text that has the masked bytes.
-/

namespace PropertyIndex.Source

/-- What a byte shows that is not code: a line feed stays, and any other byte gives a space. -/
def blankByte (b : UInt8) : UInt8 :=
  if b == 0x0A then b else 0x20

/-- The masked copy of bytes that begin inside a region.  Behind a backslash in a string literal one
byte is passed over, whichever it is; if it begins a longer character, the rest of the character
follows as a part of the literal. -/
def maskBytesFrom : Region → List UInt8 → List UInt8
  | _, [] => []
  | .code, 0x2F :: 0x2F :: bytes => 0x20 :: 0x20 :: maskBytesFrom .lineComment bytes
  | .code, 0x2F :: 0x2A :: bytes => 0x20 :: 0x20 :: maskBytesFrom .blockComment bytes
  | .code, b :: bytes =>
    b :: maskBytesFrom
      (if b == 0x22 then .literal '"' else if b == 0x27 then .literal '\'' else .code) bytes
  | .literal quote, b :: bytes =>
    if b == quote.toUInt8 || b == 0x0A then b :: maskBytesFrom .code bytes
    else 0x20 :: maskBytesFrom (if b == 0x5C then .escaped quote else .literal quote) bytes
  | .escaped quote, b :: bytes => blankByte b :: maskBytesFrom (.literal quote) bytes
  | .lineComment, b :: bytes =>
    if b == 0x0A then b :: maskBytesFrom .code bytes
    else 0x20 :: maskBytesFrom .lineComment bytes
  | .blockComment, 0x2A :: 0x2F :: bytes => 0x20 :: 0x20 :: maskBytesFrom .code bytes
  | .blockComment, b :: bytes => blankByte b :: maskBytesFrom .blockComment bytes

/-- The masked copy of the bytes of a source text. -/
def maskBytes (bytes : List UInt8) : List UInt8 :=
  maskBytesFrom .code bytes

/-- The text that has the masked bytes, or the text itself if these make up no text. -/
def maskedText (text : String) : String :=
  (String.fromUTF8? (maskBytes text.toUTF8.data.toList).toByteArray).getD text

end PropertyIndex.Source
