import SchemaDepot.Number.Binary64

/-! # The shortest decimal text of a double

Of the decimal numbers that round to a double, those with the fewest digits are taken, and of these
the nearest. It is written without an exponent.

* `Binary64.shortest`: the digits and the power of ten.
* `Binary64.text`: the text. -/

namespace SchemaDepot.Number.Binary64

/-- What rounds to a positive double, in units of `2 ^ (exponent - 2)`: from `low` to `high`, these
included or not. -/
structure Range where
  low : Nat
  middle : Nat
  high : Nat
  isClosed : Bool
  exponent : Int

/-- The range of a double. Below a power of two, neighbours are closer. -/
def range (significand : Nat) (exponent : Int) : Range where
  low := 4 * significand - if significand = Nat.pow 2 52 && -1074 < exponent then 1 else 2
  middle := 4 * significand
  high := 4 * significand + 2
  isClosed := significand % 2 = 0
  exponent := exponent - 2

/-- `n` times the power of ten of `power` lies in the range. -/
def Range.contains (r : Range) (n : Nat) (power : Int) : Bool :=
  let (a, b) := scale 10 n power
  let (c, d) := scale 2 1 r.exponent
  -- compares `a / b` with multiples of `c / d`
  let value := a * d
  let unit := b * c
  if r.isClosed then r.low * unit ≤ value && value ≤ r.high * unit
  else r.low * unit < value && value < r.high * unit

/-- The number in the middle of the range, as a fraction. -/
def Range.center (r : Range) : Nat × Nat :=
  let (c, d) := scale 2 1 r.exponent
  (r.middle * c, d)

/-- The multiple of the power of ten of `power` that rounds to the double, the nearest if there are
two. -/
def Range.pick? (r : Range) (power : Int) : Option Nat :=
  let (num, den) := r.center
  let (a, b) := scale 10 den power
  let below := num * b / a
  let remainder := 2 * (num * b % a)
  match r.contains below power, r.contains (below + 1) power with
  | true, true => some (if remainder < a then below else below + 1)
  | true, false => some below
  | false, true => some (below + 1)
  | false, false => none

/-- How many digits stand before the point of the number in the middle; negative, if zeros stand
after it. -/
def Range.pointOf (r : Range) : Int :=
  let (num, den) := r.center
  let guess : Int := (Nat.toDigits 10 num).length - (Nat.toDigits 10 den).length
  let (a, b) := scale 10 den guess
  if a ≤ num * b then guess + 1 else guess

/-- The multiple with the fewest digits, of which `digits` were tried already, and its power. -/
def Range.search (r : Range) (point : Int) : Nat → Nat → Nat × Int
  | 0, _ => (0, 0)
  | rounds + 1, digits =>
    let power := point - digits
    match r.pick? power with
    | some n => (n, power)
    | none => search r point rounds (digits + 1)

/-- The digits and the power of ten of the shortest decimal number that rounds to a positive
double. -/
def shortest (significand : Nat) (exponent : Int) : Nat × Int :=
  let r := range significand exponent
  r.search r.pointOf 18 1

/-- `n` times the power of ten of `power`, without an exponent and without zeros at the end of the
places. -/
def positional (n : Nat) (power : Int) : String :=
  let digits := Nat.toDigits 10 n
  if 0 ≤ power then String.ofList (digits ++ List.replicate power.toNat '0')
  else
    let places := (-power).toNat
    let padded := List.replicate (places + 1 - digits.length) '0' ++ digits
    let whole := padded.take (padded.length - places)
    let fraction := ((padded.drop (padded.length - places)).reverse.dropWhile (· == '0')).reverse
    String.ofList (if fraction.isEmpty then whole else whole ++ '.' :: fraction)

/-- The text of a double. -/
def text : Binary64 → String
  | finite negative significand exponent =>
    let body :=
      if significand = 0 then "0"
      else
        let (n, power) := shortest significand exponent
        positional n power
    if negative then "-" ++ body else body
  | infinite negative => if negative then "-inf" else "inf"
  | notANumber => "NaN"

end SchemaDepot.Number.Binary64
