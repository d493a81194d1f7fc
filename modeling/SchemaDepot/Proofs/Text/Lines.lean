import Mathlib.Data.List.Basic
import Mathlib.Tactic.SplitIfs
import SchemaDepot.Text.Lines

/-! # Pieces of a text

A text is cut at the occurrences of a character, and put together again with it. Pieces without the
character are the ones that their text is cut into.

* `Text.splitAt_append`: a text with one occurrence more is cut there.
* `Text.notMem_of_mem_splitAt`: the character is in no piece.
* `Text.splitAt_joinWith`: cutting undoes putting together; `Text.split_intercalate`: this for
  texts. -/

namespace SchemaDepot.Text

variable {sep : Char} {as bs : List Char}

theorem splitAt_append (as bs : List Char) :
    splitAt sep (as ++ sep :: bs) = splitAt sep as ++ splitAt sep bs := by
  induction as with
  | nil => simp [splitAt]
  | cons a as ih =>
    rw [List.cons_append, splitAt, splitAt, ih]
    split_ifs
    · rfl
    · cases hs : splitAt sep as with
      | nil => exact absurd hs (splitAt_ne_nil sep as)
      | cons piece pieces => rfl

theorem splitAt_append_of_notMem (h : sep ∉ as) (bs : List Char) :
    splitAt sep (as ++ bs) = (as ++ (splitAt sep bs).headD []) :: (splitAt sep bs).tail := by
  induction as with
  | nil =>
    cases hs : splitAt sep bs with
    | nil => exact absurd hs (splitAt_ne_nil sep bs)
    | cons piece pieces => simp [hs]
  | cons a as ih =>
    rw [List.mem_cons, not_or] at h
    rw [List.cons_append, splitAt, if_neg (Ne.symm h.1), ih h.2]
    rfl

theorem splitAt_of_notMem (h : sep ∉ as) : splitAt sep as = [as] := by
  have alone := splitAt_append_of_notMem h []
  rwa [List.append_nil, splitAt, List.headD_cons, List.append_nil] at alone

theorem notMem_of_mem_splitAt {piece : List Char} (h : piece ∈ splitAt sep as) : sep ∉ piece := by
  induction as generalizing piece with
  | nil =>
    rw [List.mem_singleton.1 h]
    exact List.not_mem_nil
  | cons a as ih =>
    rw [splitAt] at h
    split_ifs at h with same
    · rcases List.mem_cons.1 h with rfl | h
      · exact List.not_mem_nil
      · exact ih h
    · cases hs : splitAt sep as with
      | nil => exact absurd hs (splitAt_ne_nil sep as)
      | cons first pieces =>
        rw [hs] at h ih
        rcases List.mem_cons.1 h with rfl | h
        · exact List.not_mem_cons_of_ne_of_not_mem (Ne.symm same) (ih List.mem_cons_self)
        · exact ih (List.mem_cons_of_mem _ h)

/-- A text that does not end in a separator ends as its last piece does. -/
theorem exists_getLast?_splitAt {c : Char} {cs : List Char} (h : cs.getLast? = some c)
    (other : c ≠ sep) : ∃ piece, (splitAt sep cs).getLast? = some piece ∧ c ∈ piece := by
  obtain ⟨before, rfl⟩ := List.getLast?_eq_some_iff.1 h
  clear h
  induction before with
  | nil =>
    rw [List.nil_append, splitAt, if_neg other]
    exact ⟨[c], rfl, List.mem_singleton_self c⟩
  | cons d before ih =>
    obtain ⟨piece, last, member⟩ := ih
    rw [List.cons_append, splitAt]
    split
    · exact ⟨piece, by rw [List.getLast?_cons, last]; rfl, member⟩
    · cases hs : splitAt sep (before ++ [c]) with
      | nil => exact absurd hs (splitAt_ne_nil sep _)
      | cons first pieces =>
        rw [hs] at last
        cases pieces with
        | nil =>
          obtain rfl := Option.some.inj last
          exact ⟨d :: first, rfl, List.mem_cons_of_mem d member⟩
        | cons next pieces => exact ⟨piece, last, member⟩

/-! ### Pieces put together -/

theorem joinWith_cons (sep : Char) (piece : List Char) (pieces : List (List Char)) :
    joinWith sep (piece :: pieces) = piece ++ pieces.flatMap (sep :: ·) := by
  induction pieces generalizing piece with
  | nil => simp [joinWith]
  | cons p pieces ih =>
    rw [joinWith, ih]
    · simp
    · exact List.cons_ne_nil p pieces

theorem joinWith_concat (sep : Char) {pieces : List (List Char)} (filled : pieces ≠ [])
    (last : List Char) : joinWith sep (pieces ++ [last]) = joinWith sep pieces ++ sep :: last := by
  obtain ⟨piece, pieces, rfl⟩ := List.exists_cons_of_ne_nil filled
  simp [joinWith_cons]

/-- **Cutting undoes putting together**, if the pieces do not have the character in them. -/
theorem splitAt_joinWith {pieces : List (List Char)} (filled : pieces ≠ [])
    (without : ∀ p ∈ pieces, sep ∉ p) : splitAt sep (joinWith sep pieces) = pieces := by
  induction pieces with
  | nil => exact absurd rfl filled
  | cons p pieces ih =>
    obtain ⟨first, others⟩ := List.forall_mem_cons.1 without
    cases pieces with
    | nil => exact splitAt_of_notMem first
    | cons q pieces =>
      rw [joinWith, splitAt_append, splitAt_of_notMem first, ih (List.cons_ne_nil _ _) others]
      · rfl
      · exact List.cons_ne_nil q pieces

theorem toList_intercalate (sep : Char) (parts : List String) :
    ((String.singleton sep).intercalate parts).toList = joinWith sep (parts.map String.toList) := by
  rw [String.toList_intercalate]
  induction parts with
  | nil => rfl
  | cons p parts ih =>
    cases parts with
    | nil => simp [joinWith]
    | cons q parts =>
      rw [List.map_cons, List.map_cons, List.intercalate_cons_cons, ← List.map_cons, ih]
      simp [joinWith]

theorem intercalate_concat (sep : Char) {parts : List String} (filled : parts ≠ [])
    (last : String) :
    (String.singleton sep).intercalate (parts ++ [last]) =
      (String.singleton sep).intercalate parts ++ String.singleton sep ++ last := by
  rw [← String.toList_inj, toList_intercalate, List.map_append, List.map_singleton,
    joinWith_concat sep (mt List.map_eq_nil_iff.1 filled), ← toList_intercalate]
  simp

theorem intercalate_split (sep : Char) (s : String) :
    (String.singleton sep).intercalate (split sep s) = s := by
  rw [← String.toList_inj, toList_intercalate, split, List.map_map]
  exact (congrArg (joinWith sep) ((List.map_congr_left fun p _ => String.toList_ofList).trans
    (List.map_id _))).trans (joinWith_splitAt sep s.toList)

theorem split_intercalate (sep : Char) {parts : List String} (filled : parts ≠ [])
    (without : ∀ p ∈ parts, sep ∉ p.toList) :
    split sep ((String.singleton sep).intercalate parts) = parts := by
  rw [split, toList_intercalate, splitAt_joinWith (mt List.map_eq_nil_iff.1 filled)
    (List.forall_mem_map.2 without), List.map_map]
  exact (List.map_congr_left fun p _ => String.ofList_toList).trans (List.map_id parts)

end SchemaDepot.Text
