import SchemaDepot.Digest.Sha256

/-! # Checksums

* `Checksum.ofText`: the checksum of a text.
* `Checksum.combine`: one checksum over a row of them.
* `Checksum.verify`: whether a text has a checksum. -/

namespace SchemaDepot

/-- The bytes of a text. -/
def textBytes (s : String) : List UInt8 := s.toUTF8.toList

/-- A checksum in hexadecimal. It may be any text, since checksums also come from outside. -/
structure Checksum where
  hex : String
deriving DecidableEq

namespace Checksum

/-- The checksum of a row of bytes. -/
def ofBytes (bytes : List UInt8) : Checksum := ⟨Sha256.hex bytes⟩

/-- The checksum of a text. -/
def ofText (s : String) : Checksum := ofBytes (textBytes s)

/-- The checksum of the checksums' own texts, with a comma between neighbours. -/
def combine (parts : List Checksum) : Checksum := ofText (",".intercalate (parts.map hex))

/-- The text has this checksum. -/
def verify (c : Checksum) (s : String) : Bool := ofText s == c

end Checksum

end SchemaDepot
