import SchemaDepot.Toml.Basic

/-! # Days and times

* `Moment.read?`: the day, time or both in front of a text.
* `Moment.ofText?`: the moment that a text denotes as a whole.
* `Moment.text`: a moment as text. -/

namespace SchemaDepot.Toml

open Number (ofDigits)

/-! ### Reading -/

/-- The number of `count` digits in front, if it lies in `least … most`. -/
def fixed? (count least most : Nat) (cs : List Char) : Option (Nat × List Char) :=
  let digits := cs.take count
  let n := ofDigits digits
  if digits.length = count && digits.all Char.isDigit && least ≤ n && n ≤ most then
    some (n, cs.drop count)
  else none

/-- The text after a character in front. -/
def expect? (c : Char) : List Char → Option (List Char)
  | d :: cs => if d = c then some cs else none
  | [] => none

/-- The year has a day more. -/
def isLeap (year : Nat) : Bool := year % 4 = 0 && (year % 100 ≠ 0 || year % 400 = 0)

/-- How many days a month has. -/
def daysOf (year month : Nat) : Nat :=
  if month = 2 then if isLeap year then 29 else 28
  else if month = 4 || month = 6 || month = 9 || month = 11 then 30
  else 31

/-- The day in front. -/
def Date.read? (cs : List Char) : Option (Date × List Char) := do
  let (year, cs) ← fixed? 4 0 9999 cs
  let (month, cs) ← fixed? 2 1 12 (← expect? '-' cs)
  let (day, cs) ← fixed? 2 1 (daysOf year month) (← expect? '-' cs)
  return (⟨year, month, day⟩, cs)

/-- The nanoseconds in front; places after the ninth are left out. -/
def nanoseconds? : List Char → Option (Nat × List Char)
  | '.' :: cs =>
    let digits := cs.takeWhile Char.isDigit
    if digits.isEmpty then none
    else
      let places := digits.take 9
      some (ofDigits places * Nat.pow 10 (9 - places.length), cs.dropWhile Char.isDigit)
  | cs => some (0, cs)

/-- The time in front, whose hour is `most` at most. A minute may have a sixty-first second. -/
def Time.read? (most : Nat) (cs : List Char) : Option (Time × List Char) := do
  let (hour, cs) ← fixed? 2 0 most cs
  let (minute, cs) ← fixed? 2 0 59 (← expect? ':' cs)
  let (second, cs) ← fixed? 2 0 60 (← expect? ':' cs)
  let (nanosecond, cs) ← nanoseconds? cs
  return (⟨hour, minute, second, nanosecond⟩, cs)

/-- The hours and minutes of an offset in front, these being `mostHours` and `mostMinutes` at
most. -/
def distance? (mostHours mostMinutes : Nat) (cs : List Char) : Option (Nat × List Char) := do
  let (hours, cs) ← fixed? 2 0 mostHours cs
  let (minutes, cs) ← fixed? 2 0 mostMinutes (← expect? ':' cs)
  return (hours * 60 + minutes, cs)

/-- The offset in front, if there is one, with `distance` for its hours and minutes; nothing, if one
starts there and is malformed. -/
def Offset.read? (distance : List Char → Option (Nat × List Char)) :
    List Char → Option (Option Offset × List Char)
  | 'Z' :: cs => some (some .universal, cs)
  | 'z' :: cs => some (some .universal, cs)
  | '+' :: cs => (distance cs).map fun (n, rest) => (some (.minutes n), rest)
  | '-' :: cs => (distance cs).map fun (n, rest) => (some (.minutes (-n)), rest)
  | cs => some (none, cs)

/-- The time and the offset behind a day, if there are any. -/
def Moment.afterDate (date : Date) (cs : List Char) : Option (Moment × List Char) :=
  match cs with
  | [] => some ({ date := some date }, [])
  | c :: rest =>
    if c = 'T' || c = 't' || c = ' ' then
      match Time.read? 23 rest with
      | none => some ({ date := some date }, cs)
      | some (time, rest) => do
        let (offset, rest) ← Offset.read? (distance? 23 59) rest
        return ({ date := some date, time := some time, offset }, rest)
    else some ({ date := some date }, cs)

/-- The day, the time or both in front. -/
def Moment.read? (cs : List Char) : Option (Moment × List Char) :=
  match Date.read? cs with
  | some (date, rest) => Moment.afterDate date rest
  | none => (Time.read? 23 cs).map fun (time, rest) => ({ time := some time }, rest)

/-- The hours and minutes of an offset in front, together a day at most. -/
def distanceInDay? (cs : List Char) : Option (Nat × List Char) :=
  (distance? 99 99 cs).filter fun (minutes, _) => minutes ≤ 24 * 60

/-- The moment in front where no other text follows it. Here an hour may be the 24th, and the
minutes of an offset may be more than an hour. -/
def Moment.lone? (cs : List Char) : Option (Moment × List Char) :=
  match Date.read? cs with
  | none => (Time.read? 24 cs).map fun (time, rest) => ({ time := some time }, rest)
  | some (date, c :: rest) =>
    if c = 'T' || c = 't' || c = ' ' then do
      let (time, rest) ← Time.read? 24 rest
      let (offset, rest) ← Offset.read? distanceInDay? rest
      return ({ date := some date, time := some time, offset }, rest)
    else none
  | some (date, []) => some ({ date := some date }, [])

/-- The moment that a text denotes as a whole. -/
def Moment.ofText? (text : String) : Option Moment := do
  let (moment, rest) ← Moment.lone? text.toList
  if rest.isEmpty then some moment else none

/-! ### Writing -/

/-- `n` in decimal digits, with zeros before them up to a width. -/
def padded (width n : Nat) : List Char :=
  let digits := Nat.toDigits 10 n
  List.replicate (width - digits.length) '0' ++ digits

/-- A day as text. -/
def Date.chars (d : Date) : List Char :=
  padded 4 d.year ++ '-' :: padded 2 d.month ++ '-' :: padded 2 d.day

/-- A time as text, with as many places as are needed. -/
def Time.chars (t : Time) : List Char :=
  let places := ((padded 9 t.nanosecond).reverse.dropWhile (· == '0')).reverse
  padded 2 t.hour ++ ':' :: padded 2 t.minute ++ ':' :: padded 2 t.second ++
    if places.isEmpty then [] else '.' :: places

/-- An offset as text. -/
def Offset.chars : Offset → List Char
  | universal => ['Z']
  | minutes m =>
    (if m < 0 then '-' else '+') :: padded 2 (m.natAbs / 60) ++ ':' :: padded 2 (m.natAbs % 60)

/-- A moment as text. -/
def Moment.text (m : Moment) : String :=
  let date := (m.date.map Date.chars).getD []
  let time := (m.time.map Time.chars).getD []
  let between := if m.date.isSome && m.time.isSome then ['T'] else []
  String.ofList (date ++ between ++ time ++ (m.offset.map Offset.chars).getD [])

end SchemaDepot.Toml
