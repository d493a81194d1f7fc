/-! # Blank characters

The characters of the Unicode property `White_Space`, and trimming by them.

* `isBlank`: membership in the property.
* `trim`, `trimEnd`: a text without the blanks around it, or without those at its end. -/

namespace SchemaDepot.Text

/-- `c` has the Unicode property `White_Space`. -/
def isBlank (c : Char) : Bool :=
  let n := c.toNat
  (9 ≤ n && n ≤ 13) || n == 0x20 || n == 0x85 || n == 0xA0 || n == 0x1680 ||
    (0x2000 ≤ n && n ≤ 0x200A) || n == 0x2028 || n == 0x2029 || n == 0x202F || n == 0x205F ||
    n == 0x3000

/-- `xs` without those at its end that satisfy `p`. -/
def dropEndWhile {α : Type} (p : α → Bool) (xs : List α) : List α :=
  (xs.reverse.dropWhile p).reverse

/-- `cs` without the blanks at its end. -/
def trimEndChars (cs : List Char) : List Char := dropEndWhile isBlank cs

/-- `cs` without the blanks around it. -/
def trimChars (cs : List Char) : List Char := trimEndChars (cs.dropWhile isBlank)

/-- The text without the blanks around it. -/
def trim (s : String) : String := String.ofList (trimChars s.toList)

/-- The text holds no character that is not blank. -/
def isBlankText (s : String) : Bool := s.toList.all isBlank

end SchemaDepot.Text
