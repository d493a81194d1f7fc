import SchemaDepot.Text.Glyphless

/-! # Quoted texts

A text or a character between quotes, on one line and in printable characters only.

* `escape`: how one character is written between quotes of a kind.
* `quoted`, `quotedChar`: a text between double quotes, a character between single ones. -/

namespace SchemaDepot.Text

/-- The hexadecimal digits of `n`, in lower case and without leading zeros. -/
def hexDigits (n : Nat) : List Char := Nat.toDigits 16 n

/-- How `c` is written between two `quote`s: the quote, the backslash and five controls behind a
backslash, a character without a glyph as its code point, any other as itself. -/
def escape (quote c : Char) : List Char :=
  if c = '\x00' then ['\\', '0']
  else if c = '\t' then ['\\', 't']
  else if c = '\r' then ['\\', 'r']
  else if c = '\n' then ['\\', 'n']
  else if c = '\\' then ['\\', '\\']
  else if c = quote then ['\\', quote]
  else if isGlyphless c then ['\\', 'u', '{'] ++ hexDigits c.toNat ++ ['}']
  else [c]

/-- `s` between double quotes. -/
def quoted (s : String) : String :=
  String.ofList ('"' :: s.toList.flatMap (escape '"') ++ ['"'])

/-- `c` between single quotes. -/
def quotedChar (c : Char) : String := String.ofList ('\'' :: escape '\'' c ++ ['\''])

end SchemaDepot.Text
