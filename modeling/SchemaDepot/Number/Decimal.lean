/-! # Decimal numbers in texts

* `natural?`, `signed?`, `integer?`: whole numbers in decimal digits.
* `Decimal.read`: numbers with a point and an exponent. -/

namespace SchemaDepot.Number

/-- The number that a row of digits denotes. -/
def ofDigits (ds : List Char) : Nat := ds.foldl (fun n d => n * 10 + (d.toNat - '0'.toNat)) 0

/-- The number that a text of digits alone denotes. -/
def digits? (cs : List Char) : Option Nat :=
  if cs.isEmpty || !cs.all Char.isDigit then none else some (ofDigits cs)

/-- A sign in front, if there is one, and the text after it. -/
def splitSign : List Char → Bool × List Char
  | '-' :: cs => (true, cs)
  | '+' :: cs => (false, cs)
  | cs => (false, cs)

/-- The natural number below `bound` that a text denotes; a plus may stand before it. -/
def natural? (bound : Nat) (cs : List Char) : Option Nat := do
  let n ← digits? (match cs with
    | '+' :: rest => rest
    | _ => cs)
  if n < bound then some n else none

/-- The integer that a text denotes; a sign may stand before it. -/
def signed? (cs : List Char) : Option Int := do
  let (negative, cs) := splitSign cs
  let n ← digits? cs
  return if negative then -n else n

/-- `i` fits into 64 bits with a sign. -/
def fits (i : Int) : Bool := -(Nat.pow 2 63 : Int) ≤ i && i < (Nat.pow 2 63 : Int)

/-- The integer of 64 bits that a text denotes. -/
def integer? (cs : List Char) : Option Int := (signed? cs).filter fits

/-- A decimal number: `digits` times the power of ten of `exponent`, negative or not. -/
structure Decimal where
  negative : Bool
  digits : Nat
  exponent : Int
deriving DecidableEq

namespace Decimal

/-- The exponent that a text denotes: none, or an `e` and an integer. -/
def exponent? : List Char → Option Int
  | [] => some 0
  | c :: cs => if c = 'e' || c = 'E' then signed? cs else none

/-- The number that a text without a sign denotes: digits, of which a point may stand before,
between or behind some, and an exponent. -/
def unsigned? (negative : Bool) (cs : List Char) : Option Decimal := do
  let whole := cs.takeWhile Char.isDigit
  let (places, rest) := match cs.dropWhile Char.isDigit with
    | '.' :: cs => (cs.takeWhile Char.isDigit, cs.dropWhile Char.isDigit)
    | cs => ([], cs)
  let digits ← digits? (whole ++ places)
  let exponent ← exponent? rest
  return ⟨negative, digits, exponent - places.length⟩

/-- The number that a text denotes. -/
def read? (cs : List Char) : Option Decimal :=
  let (negative, cs) := splitSign cs
  unsigned? negative cs

end Decimal

end SchemaDepot.Number
