import SchemaDepot.Number.Decimal

/-! # Numbers of double precision

* `Binary64`: zero or a power of two times a significand of 53 bits, an infinity, or no number.
* `Binary64.ofDecimal`: the double next to a decimal number; of two, the even one.
* `Binary64.mul`, `Binary64.div`: the doubles next to a product and a quotient.
* `Binary64.rounded`: the natural number next to a double. -/

namespace SchemaDepot.Number

/-- A number of double precision. The finite ones are `significand` times the power of two of
`exponent`, with a significand below `2 ^ 53` that is at least `2 ^ 52` unless the exponent is the
least, `-1074`. -/
inductive Binary64 where
  | finite (negative : Bool) (significand : Nat) (exponent : Int)
  | infinite (negative : Bool)
  | notANumber
deriving DecidableEq

/-- The natural number next to `num / den`; of two, the even one. -/
def roundHalfEven (num den : Nat) : Nat :=
  let q := num / den
  let twice := 2 * (num % den)
  if twice < den || (twice = den && q % 2 = 0) then q else q + 1

/-- `n` times a power of `base`, as a fraction. -/
def scale (base n : Nat) (exponent : Int) : Nat × Nat :=
  if 0 ≤ exponent then (n * Nat.pow base exponent.toNat, 1)
  else (n, Nat.pow base (-exponent).toNat)

namespace Binary64

/-- Zero. -/
def zero (negative : Bool) : Binary64 := finite negative 0 (-1074)

/-- The exponent of the double next to `num / den`, which is not zero: the one with which the
significand has 53 bits, or the least. -/
def exponentOf (num den : Nat) : Int :=
  let guess : Int := (num.log2 : Int) - den.log2
  -- the power of two of `guess` is at most twice the number
  let (a, b) := scale 2 den guess
  let top := if num * b < a then guess - 1 else guess
  max (top - 52) (-1074)

/-- The double next to `num / den`. -/
def ofFraction (negative : Bool) (num den : Nat) : Binary64 :=
  if num = 0 then zero negative
  else
    let exponent := exponentOf num den
    let (a, b) := scale 2 den exponent
    let significand := roundHalfEven (num * b) a
    let (significand, exponent) :=
      if significand = Nat.pow 2 53 then (Nat.pow 2 52, exponent + 1) else (significand, exponent)
    if 971 < exponent then infinite negative else finite negative significand exponent

/-- The double next to a decimal number. -/
def ofDecimal (d : Decimal) : Binary64 :=
  let point := d.exponent + (Nat.toDigits 10 d.digits).length
  if d.digits = 0 || point < -330 then zero d.negative
  else if 310 < point then infinite d.negative
  else
    let (num, den) := scale 10 d.digits d.exponent
    ofFraction d.negative num den

/-- A decimal number with a sign, an infinity or no number, as a text denotes it; the words for the
latter may be in any case. -/
def read? (cs : List Char) : Option Binary64 :=
  let (negative, word) := splitSign cs
  match String.ofList (word.map Char.toLower) with
  | "inf" | "infinity" => some (infinite negative)
  | "nan" => some notANumber
  | _ => (Decimal.read? cs).map ofDecimal

/-- The double is zero, with either sign. -/
def isZero : Binary64 → Bool
  | finite _ significand _ => significand = 0
  | _ => false

/-- The double next to a natural number. -/
def ofNat (n : Nat) : Binary64 := ofFraction false n 1

/-- The double with the other sign. -/
def neg : Binary64 → Binary64
  | finite negative significand exponent => finite (!negative) significand exponent
  | infinite negative => infinite (!negative)
  | notANumber => notANumber

/-- The double next to a product. -/
def mul : Binary64 → Binary64 → Binary64
  | finite n s e, finite m t g =>
    let (num, den) := scale 2 (s * t) (e + g)
    ofFraction (n != m) num den
  | finite n s _, infinite m | infinite m, finite n s _ =>
    if s = 0 then notANumber else infinite (n != m)
  | infinite n, infinite m => infinite (n != m)
  | _, _ => notANumber

/-- The double next to a quotient. -/
def div : Binary64 → Binary64 → Binary64
  | finite n s e, finite m t g =>
    if t = 0 then if s = 0 then notANumber else infinite (n != m)
    else
      let (num, den) := scale 2 s (e - g)
      ofFraction (n != m) num (den * t)
  | finite n _ _, infinite m => zero (n != m)
  | infinite n, finite m _ _ => infinite (n != m)
  | _, _ => notANumber

/-- The natural number next to a double, a half going up; the nearest one in `0 … most` if the
double lies outside, and zero if it is no number. -/
def rounded (most : Nat) : Binary64 → Nat
  | finite false significand exponent =>
    let (num, den) := scale 2 significand exponent
    min most ((2 * num + den) / (2 * den))
  | infinite false => most
  | _ => 0

end Binary64

end SchemaDepot.Number
