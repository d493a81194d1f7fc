import SchemaDepot.Text.Lines

/-! # Semantic versions

Three numbers, perhaps with identifiers of a prerelease and of a build behind them.

* `Semver.read?`: the semantic version that a text writes.
* `Semver.compare`: the order of precedence, ties being broken by the build. -/

namespace SchemaDepot

/-- A semantic version. -/
structure Semver where
  major : Nat
  minor : Nat
  patch : Nat
  pre : List String
  build : List String
deriving DecidableEq

namespace Semver

/-! ### Reading -/

/-- The greatest number of a version, and one more. -/
def numberBound : Nat := Nat.pow 2 64

/-- The number at the front of a text, without leading zeros, and the text after it. -/
def number (cs : List Char) : Option (Nat × List Char) :=
  let digits := cs.takeWhile Char.isDigit
  let value := digits.foldl (fun n d => n * 10 + (d.toNat - '0'.toNat)) 0
  if digits.isEmpty || (digits.head? == some '0' && digits.length != 1) || numberBound ≤ value then
    none
  else some (value, cs.dropWhile Char.isDigit)

/-- The text after a dot. -/
def afterDot : List Char → Option (List Char)
  | '.' :: cs => some cs
  | _ => none

/-- The characters of identifiers and the dots between them. -/
def isIdentifierPart (c : Char) : Bool := c.isAlphanum || c == '-' || c == '.'

/-- The identifier consists of digits. -/
def isNumeric (s : String) : Bool := s.toList.all Char.isDigit

/-- An identifier of digits that has a zero before others. -/
def hasLeadingZero (s : String) : Bool :=
  isNumeric s && s.toList.head? == some '0' && s.length != 1

/-- The identifiers that a text writes, with dots between them; none of them is empty. -/
def identifiers (cs : List Char) : Option (List String) :=
  let pieces := (Text.splitAt '.' cs).map String.ofList
  if pieces.any String.isEmpty then none else some pieces

/-- The identifiers of a build, which are all that is left of a text. -/
def readBuild : List Char → Option (List String)
  | [] => some []
  | '+' :: cs => if cs.all isIdentifierPart then identifiers cs else none
  | _ => none

/-- The identifiers of a prerelease, and the text after them. -/
def readPre : List Char → Option (List String × List Char)
  | '-' :: cs => do
    let pieces ← identifiers (cs.takeWhile isIdentifierPart)
    if pieces.any hasLeadingZero then none else some (pieces, cs.dropWhile isIdentifierPart)
  | cs => some ([], cs)

/-- The semantic version that a text writes. -/
def read? (s : String) : Option Semver := do
  let (major, cs) ← number s.toList
  let (minor, cs) ← number (← afterDot cs)
  let (patch, cs) ← number (← afterDot cs)
  let (pre, cs) ← readPre cs
  let build ← readBuild cs
  return ⟨major, minor, patch, pre, build⟩

/-! ### Order -/

/-- The order of rows: by the first items that differ; a row comes before its continuations. -/
def compareRows (compareItems : String → String → Ordering) :
    List String → List String → Ordering
  | [], [] => .eq
  | [], _ :: _ => .lt
  | _ :: _, [] => .gt
  | a :: as, b :: bs => (compareItems a b).then (compareRows compareItems as bs)

/-- The order of identifiers: those of digits first and by `compareNumeric`, others by their
characters. -/
def compareIdentifiers (compareNumeric : String → String → Ordering) (a b : String) : Ordering :=
  match isNumeric a, isNumeric b with
  | true, true => compareNumeric a b
  | true, false => .lt
  | false, true => .gt
  | false, false => compare a b

/-- The order of digits without leading zeros: by value. -/
def compareDigits (a b : String) : Ordering := (compare a.length b.length).then (compare a b)

/-- The digits without leading zeros. -/
def significant (s : String) : String := String.ofList (s.toList.dropWhile (· == '0'))

/-- The order of digits with leading zeros: by value, then by length. -/
def comparePadded (a b : String) : Ordering :=
  (compareDigits (significant a) (significant b)).then (compare a.length b.length)

/-- The order of prereleases: a release comes after all of them. -/
def comparePre : List String → List String → Ordering
  | [], [] => .eq
  | [], _ :: _ => .gt
  | _ :: _, [] => .lt
  | a, b => compareRows (compareIdentifiers compareDigits) a b

/-- The order of semantic versions. -/
def compare (a b : Semver) : Ordering :=
  (Ord.compare a.major b.major).then <| (Ord.compare a.minor b.minor).then <|
    (Ord.compare a.patch b.patch).then <| (comparePre a.pre b.pre).then <|
      compareRows (compareIdentifiers comparePadded) a.build b.build

end Semver

end SchemaDepot
