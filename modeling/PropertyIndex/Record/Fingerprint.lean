import PropertyIndex.Digest.Sha256
import PropertyIndex.Json.Printer
import PropertyIndex.Spec.Property

/-!
# Fingerprints of properties

The identity of a property is the digest of a canonical text that holds all that defines it.  The
full digest is stored with the record, and its first digits end the record's identifier.

* `Property.canonical`: what the canonical text holds.
* `shortDigest`: the first digits of a digest.
* `Property.fingerprint`: the digest of a property.
-/

namespace PropertyIndex.Spec

/-- The first eight digits of a digest. -/
def shortDigest (digest : String) : String :=
  String.ofList (digest.toList.take 8)

namespace Property

/-- What defines a property, as a value. -/
def canonical (property : Property) : Json :=
  .record
    [("name", .text property.name), ("block_type", .text property.kind.label),
     ("start_line", .natural property.startLine), ("end_line", .natural property.endLine),
     ("content", .texts property.lines), ("methods_in_block", .texts property.methods)]

/-- The digest of a property in hexadecimal digits. -/
def fingerprint (property : Property) : String :=
  let bytes := (String.ofList property.canonical.compact).toUTF8.data.toList
  String.ofList (Digest.hex (Digest.sha256 bytes))

end Property

end PropertyIndex.Spec
