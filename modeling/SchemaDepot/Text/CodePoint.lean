/-! # Code points

* `charOf?`: the character with a code point.
* `hexValue?`, `hexNumber?`: what hexadecimal digits stand for.
* `codePoint?`: the character that hexadecimal digits spell. -/

namespace SchemaDepot.Text

/-- The character with a code point, if there is one. -/
def charOf? (n : Nat) : Option Char :=
  if h : n.isValidChar then some (Char.ofNatAux n h) else none

/-- The value of a hexadecimal digit. -/
def hexValue? (c : Char) : Option Nat :=
  if c.isDigit then some (c.toNat - '0'.toNat)
  else if 'a' ≤ c && c ≤ 'f' then some (c.toNat - 'a'.toNat + 10)
  else if 'A' ≤ c && c ≤ 'F' then some (c.toNat - 'A'.toNat + 10)
  else none

/-- The number that a row of hexadecimal digits stands for, to a base that holds them all. -/
def hexNumber? (base : Nat) (ds : List Char) : Option Nat := do
  let values ← ds.mapM hexValue?
  if values.all (· < base) then some (values.foldl (fun n d => n * base + d) 0) else none

/-- The character whose code point `count` hexadecimal digits in front are, and the text after
them. -/
def codePoint? (count : Nat) (cs : List Char) : Option (Char × List Char) := do
  let digits := cs.take count
  if digits.length ≠ count then none
  else return (← charOf? (← hexNumber? 16 digits), cs.drop count)

end SchemaDepot.Text
