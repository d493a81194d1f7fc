import SchemaDepot.Toml.Moment
import SchemaDepot.Toml.Quoted

/-! # Values that nest nothing

* `number?`: the integer or float in front; underscores may stand between digits.
* `scalar?`: the text, moment, number or truth value in front. -/

namespace SchemaDepot.Toml

open Number

/-- The digits in front, of a kind, with single underscores between some of them. -/
def digitGroups? (p : Char → Bool) : List Char → Option (List Char × List Char)
  | [] => some ([], [])
  | c :: cs =>
    if p c then (digitGroups? p cs).map fun (ds, rest) => (c :: ds, rest)
    else if c = '_' then
      if (cs.head?).any p then digitGroups? p cs else none
    else some ([], c :: cs)

/-- One digit of a kind or more in front, with single underscores between some of them. -/
def digits? (p : Char → Bool) (cs : List Char) : Option (List Char × List Char) :=
  if (cs.head?).any p then digitGroups? p cs else none

/-- The digits of a whole number in front; after a zero there are no more. -/
def wholeDigits? (cs : List Char) : Option (List Char × List Char) :=
  match cs with
  | '0' :: rest => some (['0'], rest)
  | cs => digits? Char.isDigit cs

/-- The sign in front, if there is one. -/
def sign : List Char → List Char × List Char
  | '+' :: cs => (['+'], cs)
  | '-' :: cs => (['-'], cs)
  | cs => ([], cs)

/-- The point and places in front, if there are any. -/
def places? : List Char → Option (List Char × List Char)
  | '.' :: cs => (digits? Char.isDigit cs).map fun (ds, rest) => ('.' :: ds, rest)
  | cs => some ([], cs)

/-- The exponent in front, if there is one. -/
def exponent? : List Char → Option (List Char × List Char)
  | c :: cs =>
    if c = 'e' || c = 'E' then
      let (s, cs) := sign cs
      (digits? Char.isDigit cs).map fun (ds, rest) => ('e' :: s ++ ds, rest)
    else some ([], c :: cs)
  | [] => some ([], [])

/-- The double of a text, unless it is too great. -/
def float? (literal : List Char) : Option Binary64 := do
  let f := Binary64.ofDecimal (← Decimal.read? literal)
  if f = .infinite false then none else some f

/-- The integer or float of decimal digits in front. -/
def decimal? (cs : List Char) : Option (Value × List Char) := do
  let (s, cs) := sign cs
  let (whole, cs) ← wholeDigits? cs
  let (places, cs) ← places? cs
  let (exponent, cs) ← exponent? cs
  if places.isEmpty && exponent.isEmpty then return (.integer (← integer? (s ++ whole)), cs)
  else return (.float (← float? (s ++ whole ++ places ++ exponent)), cs)

/-- The integer in front, of digits to a base that is a power of two. -/
def based? (base : Nat) (cs : List Char) : Option (Value × List Char) := do
  let isDigit (c : Char) : Bool := (Text.hexValue? c).any (· < base)
  let (ds, cs) ← digits? isDigit cs
  let n ← Text.hexNumber? base ds
  if n < Nat.pow 2 63 then some (.integer n, cs) else none

/-- The word for a float that is not finite in front, behind a sign or none. -/
def special? (cs : List Char) : Option (Value × List Char) :=
  let (s, cs) := sign cs
  match cs with
  | 'i' :: 'n' :: 'f' :: cs => some (.float (.infinite (s = ['-'])), cs)
  | 'n' :: 'a' :: 'n' :: cs => some (.float .notANumber, cs)
  | _ => none

/-- The number in front. -/
def number? (cs : List Char) : Option (Value × List Char) :=
  match cs with
  | '0' :: 'x' :: cs => based? 16 cs
  | '0' :: 'o' :: cs => based? 8 cs
  | '0' :: 'b' :: cs => based? 2 cs
  | cs => (special? cs).or (decimal? cs)

/-- The value in front that nests nothing. -/
def scalar? (cs : List Char) : Option (Value × List Char) :=
  match cs with
  | 't' :: 'r' :: 'u' :: 'e' :: cs => some (.boolean true, cs)
  | 'f' :: 'a' :: 'l' :: 's' :: 'e' :: cs => some (.boolean false, cs)
  | '"' :: _ | '\'' :: _ => (Quoted.decode? cs).map fun (s, rest) => (.text s, rest)
  | cs => ((Moment.read? cs).map fun (m, rest) => (.moment m, rest)).or (number? cs)

end SchemaDepot.Toml
