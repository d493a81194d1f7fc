/-! # Durations as text

A duration is written in the largest of the units s, ms and µs of which it holds at least one, with
as many decimal places as it needs. -/

namespace SchemaDepot.Text

/-- The last `width` digits of `n`, without zeros at the end. -/
def decimalPlaces (width n : Nat) : List Char :=
  let digits := Nat.toDigits 10 n
  let padded := List.replicate (width - digits.length) '0' ++ digits
  (padded.reverse.dropWhile (· == '0')).reverse

/-- `n` units of which `10 ^ width` make the unit to be written. -/
def inUnit (width : Nat) (unit : String) (n : Nat) : String :=
  let one := Nat.pow 10 width
  let places := decimalPlaces width (n % one)
  toString (n / one) ++ (if places.isEmpty then "" else "." ++ String.ofList places) ++ unit

/-- A duration in microseconds as text. -/
def duration (micros : Nat) : String :=
  if 1000000 ≤ micros then inUnit 6 "s" micros
  else if 1000 ≤ micros then inUnit 3 "ms" micros
  else if 0 < micros then inUnit 0 "µs" micros
  else "0ns"

end SchemaDepot.Text
