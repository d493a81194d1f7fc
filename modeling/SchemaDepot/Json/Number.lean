import SchemaDepot.Json.Basic
import SchemaDepot.Number.Binary64

/-! # Numbers of JSON documents

Of the digits of a number, those count that make a number below `2 ^ 64` together; the ones left out
before the point still shift it. The double next to that number is multiplied with a power of ten,
or divided by one, and rounded once more. So the double of a literal is near its number, but there
may be a nearer one.

* `Json.Literal`: the parts of a literal.
* `Json.double?`: the double of a literal, unless it is too great. -/

namespace SchemaDepot.Json

open Number

/-- A literal: its sign, its digits before and behind the point, and its exponent. -/
structure Literal where
  negative : Bool
  whole : List Char
  places : List Char
  exponent : Int

namespace Literal

/-- The parts of a literal. -/
def ofChars (cs : List Char) : Literal :=
  let (negative, cs) := splitSign cs
  let (places, rest) := match cs.dropWhile Char.isDigit with
    | '.' :: cs => (cs.takeWhile Char.isDigit, cs.dropWhile Char.isDigit)
    | cs => ([], cs)
  ⟨negative, cs.takeWhile Char.isDigit, places, (signed? rest.tail).getD 0⟩

/-- Digits behind a number, as many as leave it below `2 ^ 64`, and the digits left out. -/
def gather (n : Nat) : List Char → Nat × List Char
  | [] => (n, [])
  | d :: ds =>
    let next := n * 10 + ofDigits [d]
    if next < Nat.pow 2 64 then gather next ds else (n, d :: ds)

/-- The number of the digits that count, and the power of ten it is multiplied with. -/
def scaled (l : Literal) : Nat × Int :=
  let (n, outBefore) := gather 0 l.whole
  let (n, outBehind) := gather n l.places
  (n, l.exponent + outBefore.length - (l.places.length - outBehind.length))

end Literal

/-- The greatest exponent of a power of ten that is a double. -/
def maxPower : Nat := 308

/-- The double next to a power of ten. -/
def powerOfTen (n : Nat) : Binary64 := .ofDecimal ⟨false, 1, n⟩

/-- A double times the power of ten of `power`, in steps of powers that are doubles, unless it is
too great. -/
def scale? (f : Binary64) (power : Int) : Option Binary64 :=
  if 0 ≤ power then
    if power ≤ maxPower then
      match f.mul (powerOfTen power.toNat) with
      | .infinite _ => none
      | g => some g
    else if f.isZero then some f
    else none
  else if -maxPower ≤ power then some (f.div (powerOfTen (-power).toNat))
  else if f.isZero then some f
  else scale? (f.div (powerOfTen maxPower)) (power + maxPower)
termination_by (-power).toNat
decreasing_by simp only [maxPower] at *; omega

/-- The double of a literal, unless it is too great. -/
def double? (literal : String) : Option Binary64 := do
  let l := Literal.ofChars literal.toList
  let (n, power) := l.scaled
  let f ← scale? (.ofNat n) power
  return if l.negative then f.neg else f

end SchemaDepot.Json
