/-! # Lines

* `splitAt`: the pieces of a text between the occurrences of a character.
* `joinWith`: the inverse. -/

namespace SchemaDepot.Text

/-- The pieces of `cs` between the occurrences of `sep`; one more than there are occurrences. -/
def splitAt (sep : Char) : List Char → List (List Char)
  | [] => [[]]
  | c :: cs =>
    if c = sep then [] :: splitAt sep cs
    else
      match splitAt sep cs with
      | [] => [[c]]
      | piece :: pieces => (c :: piece) :: pieces

/-- The pieces, with `sep` between neighbours. -/
def joinWith (sep : Char) : List (List Char) → List Char
  | [] => []
  | [piece] => piece
  | piece :: pieces => piece ++ sep :: joinWith sep pieces

/-- The pieces of a text between the occurrences of `sep`. -/
def split (sep : Char) (s : String) : List String := (splitAt sep s.toList).map String.ofList

theorem splitAt_ne_nil (sep : Char) (cs : List Char) : splitAt sep cs ≠ [] := by
  cases cs with
  | nil => simp [splitAt]
  | cons c cs =>
    simp only [splitAt]
    split
    · simp
    · split <;> simp

theorem joinWith_splitAt (sep : Char) (cs : List Char) : joinWith sep (splitAt sep cs) = cs := by
  induction cs with
  | nil => rfl
  | cons c cs ih =>
    simp only [splitAt]
    split
    · rename_i h
      cases hs : splitAt sep cs with
      | nil => exact absurd hs (splitAt_ne_nil _ _)
      | cons => rw [hs] at ih; simp [joinWith, ih, h]
    · split
      · rename_i hs
        exact absurd hs (splitAt_ne_nil _ _)
      · rename_i piece pieces hs
        rw [hs] at ih
        rw [← ih]
        cases pieces <;> simp [joinWith]

end SchemaDepot.Text
