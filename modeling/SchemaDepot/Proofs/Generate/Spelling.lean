import SchemaDepot.Proofs.Generate.Paths
import SchemaDepot.Proofs.Generate.Sources

/-! # What is left of names in generated code

Both customs move the capitals and the underscores of a word and leave the rest as it is. So a name
in generated code shows its words up to these, and what it begins with shows what they begin with.

* `Naming.folded`: what is left of a name; `folded_pascalCase`, `folded_snakeCase`,
  `folded_joined`.
* `all_pascalCase`, `all_snakeCase`: no other characters come in.
* `head_joined`, `head_snakeCase`: what a name begins with. -/

namespace SchemaDepot

open Lexeme (isWordPart isWordStart)

namespace Naming

/-! ### Letters

What becomes of a letter in either case, by the bounds of its code point. Batteries has the like for
`Char.isUpper` and `Char.isLower`, but no small part of Mathlib imports it. -/

section Letters
variable {c : Char}

theorem isAlpha_eq (c : Char) : c.isAlpha = (isUpper c || isLower c) :=
  congrArg (· || isLower c) (Bool.decide_and _ _)

/-- No letter is both. -/
theorem isUpper_and_isLower (c : Char) : (isUpper c && isLower c) = false := by
  rw [← Bool.not_eq_true, Bool.and_eq_true, isUpper_iff, isLower_iff]
  omega

theorem toLower_eq_self (h : isUpper c = false) : c.toLower = c := by
  refine dif_neg fun between => ?_
  rw [isUpper_iff.2 between] at h
  cases h

theorem toUpper_eq_self (h : isLower c = false) : c.toUpper = c := by
  refine dif_neg fun between => ?_
  rw [isLower_iff.2 between] at h
  cases h

theorem toNat_toUpper (h : isLower c) : c.toUpper.val.toNat = c.val.toNat - 32 := by
  have bounds := isLower_iff.1 h
  have between : 'a'.val ≤ c.val ∧ c.val ≤ 'z'.val := bounds
  have moved : c.toUpper.val = c.val + ('A'.val - 'a'.val) := by
    unfold Char.toUpper
    rw [dif_pos between]
  have back : ('A'.val - 'a'.val).toNat = 2 ^ 32 - 32 := rfl
  rw [moved, UInt32.toNat_add, back]
  omega

theorem isUpper_toLower (c : Char) : isUpper c.toLower = false := by
  cases capital : isUpper c with
  | true =>
    have bounds := isUpper_iff.1 capital
    rw [← Bool.not_eq_true, isUpper_iff, toNat_toLower capital]
    omega
  | false => rw [toLower_eq_self capital, capital]

theorem isUpper_toUpper (c : Char) : isUpper c.toUpper = c.isAlpha := by
  rw [isAlpha_eq]
  cases small : isLower c with
  | true =>
    have bounds := isLower_iff.1 small
    rw [Bool.or_true, isUpper_iff, toNat_toUpper small]
    omega
  | false => rw [toUpper_eq_self small, Bool.or_false]

/-- Both forms of a letter have the same form in lower case. -/
theorem toLower_toUpper (c : Char) : c.toUpper.toLower = c.toLower := by
  cases small : isLower c with
  | true =>
    have bounds := isLower_iff.1 small
    have capital : isUpper c.toUpper := by rw [isUpper_toUpper, isAlpha_eq, small, Bool.or_true]
    have none : isUpper c = false := by
      simpa only [small, Bool.and_true] using isUpper_and_isLower c
    refine Char.toNat_inj.1 ?_
    show c.toUpper.toLower.val.toNat = c.toLower.val.toNat
    rw [toNat_toLower capital, toNat_toUpper small, toLower_eq_self none]
    omega
  | false => rw [toUpper_eq_self small]

/-- A letter stays a letter in any case, and other characters stay what they are. -/
theorem isAlpha_or_fixed (c : Char) : (c.isAlpha = true ∧ c.toUpper.isAlpha = true ∧
    c.toLower.isAlpha = true) ∨ (c.isAlpha = false ∧ c.toUpper = c ∧ c.toLower = c) := by
  cases letter : c.isAlpha with
  | true =>
    refine .inl ⟨rfl, ?_, ?_⟩
    · rw [isAlpha_eq, isUpper_toUpper, letter, Bool.true_or]
    · cases capital : isUpper c with
      | true => rw [isAlpha_eq, isLower_toLower capital, Bool.or_true]
      | false => rw [toLower_eq_self capital, letter]
  | false =>
    rw [isAlpha_eq, Bool.or_eq_false_iff] at letter
    exact .inr ⟨rfl, toUpper_eq_self letter.2, toLower_eq_self letter.1⟩

theorem isWordPart_of_isAlpha (h : c.isAlpha = true) : isWordPart c = true := by
  rw [isWordPart, Char.isAlphanum, h]
  rfl

end Letters

theorem isWordPart_toUpper (c : Char) : isWordPart c.toUpper = isWordPart c := by
  rcases isAlpha_or_fixed c with ⟨h, up, -⟩ | ⟨-, up, -⟩
  · rw [isWordPart_of_isAlpha h, isWordPart_of_isAlpha up]
  · rw [up]

theorem isWordPart_toLower (c : Char) : isWordPart c.toLower = isWordPart c := by
  rcases isAlpha_or_fixed c with ⟨h, -, low⟩ | ⟨-, -, low⟩
  · rw [isWordPart_of_isAlpha h, isWordPart_of_isAlpha low]
  · rw [low]

theorem underscore_of_alpha {c : Char} (h : c.isAlpha = true) : (c != '_') = true := by
  rw [bne_iff_ne]
  rintro rfl
  cases h

/-- Characters without underscores, in small letters. -/
def folded (cs : List Char) : List Char := (cs.filter (· != '_')).map Char.toLower

theorem folded_append (cs ds : List Char) : folded (cs ++ ds) = folded cs ++ folded ds := by
  rw [folded, List.filter_append, List.map_append]
  rfl

theorem folded_flatMap {α : Type} (f : α → List Char) (xs : List α) :
    folded (xs.flatMap f) = xs.flatMap fun x => folded (f x) := by
  induction xs with
  | nil => rfl
  | cons x xs ih => rw [List.flatMap_cons, folded_append, ih, List.flatMap_cons]

theorem folded_letter {c : Char} (h : c.isAlpha = true) : folded [c] = [c.toLower] := by
  rw [folded, List.filter_singleton, underscore_of_alpha h]
  rfl

theorem folded_toUpper (c : Char) : folded [c.toUpper] = folded [c] := by
  rcases isAlpha_or_fixed c with ⟨h, up, -⟩ | ⟨-, up, -⟩
  · rw [folded_letter h, folded_letter up, toLower_toUpper]
  · rw [up]

theorem folded_toLower (c : Char) : folded [c.toLower] = folded [c] := by
  rcases isAlpha_or_fixed c with ⟨h, -, low⟩ | ⟨-, -, low⟩
  · rw [folded_letter h, folded_letter low, toLower_eq_self (isUpper_toLower c)]
  · rw [low]

theorem folded_map_toLower (cs : List Char) : folded (cs.map Char.toLower) = folded cs := by
  rw [← List.flatMap_singleton' cs, folded_flatMap, List.map_flatMap, folded_flatMap]
  exact congrArg (List.flatMap · cs) (funext folded_toLower)

/-! ### Pascal case -/

theorem isWordPart_separator {c : Char} (h : isWordPart c = true) :
    (if isSeparator c then '_' else c) = c := by
  split
  · next separator =>
    simp only [isSeparator, Bool.or_eq_true, beq_iff_eq] at separator
    rcases separator with ((rfl | rfl) | rfl) | rfl <;> first | rfl | cases h
  · rfl

/-- In a word only underscores stand between words. -/
theorem words_of_all {cs : List Char} (h : cs.all isWordPart = true) :
    words cs = Text.splitAt '_' cs := by
  rw [words]
  refine congrArg (Text.splitAt '_') ((List.map_congr_left fun c hc => ?_).trans (List.map_id cs))
  exact isWordPart_separator (List.all_eq_true.1 h c hc)

theorem flatten_splitAt (sep : Char) (cs : List Char) :
    (Text.splitAt sep cs).flatten = cs.filter (· != sep) := by
  induction cs with
  | nil => rfl
  | cons c cs ih =>
    rw [Text.splitAt]
    by_cases hc : c = sep
    · rw [if_pos hc, List.flatten_cons, ih, List.nil_append,
        List.filter_cons_of_neg (by simp [hc])]
    · rw [if_neg hc, List.filter_cons_of_pos (by simp [hc]), ← ih]
      split <;> simp_all

theorem folded_capitalize (word : List Char) : folded (capitalize word) = folded word := by
  cases word with
  | nil => rfl
  | cons c cs =>
    have rest : folded (if (c :: cs).all (!isLower ·) then cs.map Char.toLower else cs) =
        folded cs := by
      split
      · exact folded_map_toLower cs
      · rfl
    rw [capitalize, ← List.singleton_append, folded_append, folded_toUpper, rest, ← folded_append]
    rfl

theorem head?_capitalize (word : List Char) :
    (capitalize word).head? = word.head?.map Char.toUpper := by
  cases word <;> rfl

theorem all_capitalize {word : List Char} (h : word.all isWordPart = true) :
    (capitalize word).all isWordPart = true := by
  cases word with
  | nil => rfl
  | cons c cs =>
    rw [List.all_cons, Bool.and_eq_true] at h
    rw [capitalize, List.all_cons, isWordPart_toUpper, h.1, Bool.true_and]
    split
    · rw [List.all_map, Function.comp_def]
      simpa only [isWordPart_toLower] using h.2
    · exact h.2

theorem head?_flatMap_capitalize (pieces : List (List Char)) :
    (pieces.flatMap capitalize).head? = pieces.flatten.head?.map Char.toUpper := by
  induction pieces with
  | nil => rfl
  | cons piece pieces ih =>
    rw [List.flatMap_cons, List.head?_append, head?_capitalize, ih, List.flatten_cons,
      List.head?_append, Option.map_or]

theorem toList_pascalCase (s : String) :
    (pascalCase s).toList = (words s.toList).flatMap capitalize := String.toList_ofList

/-- **Pascal case keeps the letters and digits of a word.** -/
theorem folded_pascalCase {s : String} (h : IsWord s) :
    folded (pascalCase s).toList = folded s.toList := by
  rw [toList_pascalCase, words_of_all h.all, folded_flatMap]
  simp only [folded_capitalize]
  rw [← folded_flatMap, List.flatMap_id', flatten_splitAt, folded, List.filter_filter]
  simp only [Bool.and_self]
  rfl

theorem all_pascalCase {s : String} (h : IsWord s) :
    (pascalCase s).toList.all isWordPart = true := by
  rw [toList_pascalCase, words_of_all h.all, List.all_flatMap, List.all_eq_true]
  intro piece hpiece
  refine all_capitalize (List.all_eq_true.2 fun c hc => ?_)
  have inside : c ∈ (Text.splitAt '_' s.toList).flatten := List.mem_flatten_of_mem hpiece hc
  rw [flatten_splitAt] at inside
  exact List.all_eq_true.1 h.all c (List.mem_of_mem_filter inside)

/-! ### Snake case -/

section Snake
variable {cs : List Char} (small : Bool)

theorem ne_separator {c : Char} (h : isWordPart c = true) :
    (c == '-' || c == ' ' || c == '.') = false := by
  by_contra separator
  simp only [Bool.not_eq_false, Bool.or_eq_true, beq_iff_eq] at separator
  rcases separator with (rfl | rfl) | rfl <;> cases h

/-- In a word only capitals change, and only before them underscores come in. -/
theorem snakeChars_cons {c : Char} (h : isWordPart c = true) : snakeChars small (c :: cs) =
    (if isUpper c && small then ['_'] else []) ++
      c.toLower :: snakeChars (isLower c || c.isDigit) cs := by
  rw [snakeChars, ne_separator h]
  cases upper : isUpper c with
  | true =>
    have bounds := isUpper_iff.1 upper
    have noLower : isLower c = false := by
      simpa only [upper, Bool.true_and] using isUpper_and_isLower c
    have noDigit : c.isDigit = false := by
      rw [← Bool.not_eq_true, Char.isDigit, Bool.and_eq_true, decide_eq_true_eq, decide_eq_true_eq]
      rintro ⟨-, small⟩
      have : c.val.toNat ≤ 57 := small
      omega
    rw [noLower, noDigit]
    rfl
  | false =>
    rw [toLower_eq_self upper]
    rfl

variable (h : cs.all isWordPart = true)
include h

theorem folded_snakeChars : folded (snakeChars small cs) = folded cs := by
  induction cs generalizing small with
  | nil => rfl
  | cons c cs ih =>
    rw [List.all_cons, Bool.and_eq_true] at h
    have mark : folded (if isUpper c && small then ['_'] else []) = [] := by split <;> rfl
    rw [snakeChars_cons small h.1, folded_append, mark, List.nil_append,
      ← List.singleton_append, folded_append, folded_toLower, ih _ h.2, ← folded_append]
    rfl

theorem all_snakeChars : (snakeChars small cs).all isWordPart = true := by
  induction cs generalizing small with
  | nil => rfl
  | cons c cs ih =>
    rw [List.all_cons, Bool.and_eq_true] at h
    rw [snakeChars_cons small h.1, List.all_append, List.all_cons, isWordPart_toLower, h.1,
      ih _ h.2]
    split <;> rfl

theorem isUpper_snakeChars : ∀ c ∈ snakeChars small cs, isUpper c = false := by
  induction cs generalizing small with
  | nil => nofun
  | cons c cs ih =>
    rw [List.all_cons, Bool.and_eq_true] at h
    rw [snakeChars_cons small h.1, List.forall_mem_append, List.forall_mem_cons]
    refine ⟨?_, isUpper_toLower c, ih _ h.2⟩
    split
    · exact List.forall_mem_singleton.2 rfl
    · nofun

theorem length_le_snakeChars : cs.length ≤ (snakeChars small cs).length := by
  induction cs generalizing small with
  | nil => exact Nat.zero_le _
  | cons c cs ih =>
    rw [List.all_cons, Bool.and_eq_true] at h
    have below := ih (isLower c || c.isDigit) h.2
    rw [snakeChars_cons small h.1, List.length_append, List.length_cons, List.length_cons]
    omega

end Snake

section Word
variable {s : String} (h : IsWord s)
include h

/-- **Snake case keeps the letters and digits of a word.** -/
theorem folded_snakeCase : folded (snakeCase s).toList = folded s.toList := by
  rw [snakeCase, String.toList_ofList, folded_snakeChars _ h.all]

/-- Snake case begins with what the word begins with, in lower case. -/
theorem exists_snakeCase : ∃ c cs ds, s.toList = c :: cs ∧ isWordStart c = true ∧
    (snakeCase s).toList = c.toLower :: ds ∧ (ds = [] → cs = []) := by
  obtain ⟨c, cs, hs, start, rest⟩ := h
  refine ⟨c, cs, snakeChars (isLower c || c.isDigit) cs, hs, start, ?_, fun none => ?_⟩
  · rw [snakeCase, String.toList_ofList, hs,
      snakeChars_cons false (isWordPart_of_isWordStart start), Bool.and_false]
    rfl
  · have longer := length_le_snakeChars (isLower c || c.isDigit) rest
    rw [none] at longer
    exact List.eq_nil_of_length_eq_zero (Nat.le_zero.1 longer)

theorem all_snakeCase : (snakeCase s).toList.all isWordPart = true := by
  rw [snakeCase, String.toList_ofList]
  exact all_snakeChars _ h.all

/-- Only an underscore alone gives one alone. -/
theorem snakeCase_eq_underscore : snakeCase s = "_" ↔ s = "_" := by
  refine ⟨fun alone => ?_, by rintro rfl; rfl⟩
  obtain ⟨c, cs, ds, hs, -, hd, none⟩ := exists_snakeCase h
  rw [alone] at hd
  obtain ⟨low, rfl⟩ := List.cons.inj (show ['_'] = c.toLower :: ds from hd)
  rw [none rfl] at hs
  rcases isAlpha_or_fixed c with ⟨-, -, alpha⟩ | ⟨-, -, fixed⟩
  · rw [← low] at alpha
    cases alpha
  · rw [← String.toList_inj, hs, ← fixed, ← low]
    rfl

end Word

end Naming

namespace Code

open Naming

/-! ### Whole names -/

/-- The characters of names one after the other, but for the underscores. -/
def characters (path : List String) : List Char := (path.flatMap String.toList).filter (· != '_')

theorem joined_singleton (w : String) : joined [w] = pascalCase w := String.empty_append

theorem toList_joined (path : List String) :
    (joined path).toList = path.flatMap fun w => (pascalCase w).toList := by
  rw [joined, String.toList_join, List.flatMap_map]

section Path
variable {path : List String} (h : ∀ w ∈ path, IsWord w)
include h

/-- **A whole name keeps the letters and digits of its parts.** -/
theorem folded_joined : folded (joined path).toList = path.flatMap fun w => folded w.toList := by
  rw [toList_joined, folded_flatMap]
  exact List.flatMap_congr fun w hw => folded_pascalCase (h w hw)

theorem all_joined : (joined path).toList.all isWordPart = true := by
  rw [toList_joined, List.all_flatMap, List.all_eq_true]
  exact fun w hw => all_pascalCase (h w hw)

/-- **A whole name begins with the first character of its parts**, in upper case. -/
theorem head?_joined : (joined path).toList.head? = (characters path).head?.map Char.toUpper := by
  have pieces : (joined path).toList =
      (path.flatMap fun w => Text.splitAt '_' w.toList).flatMap capitalize := by
    rw [toList_joined, List.flatMap_assoc]
    refine List.flatMap_congr fun w hw => ?_
    rw [toList_pascalCase, words_of_all (h w hw).all]
  have flat : (path.flatMap fun w => Text.splitAt '_' w.toList).flatten = characters path := by
    rw [← List.flatMap_id, List.flatMap_assoc, characters, List.filter_flatMap]
    refine List.flatMap_congr fun w _ => ?_
    rw [List.flatMap_id, flatten_splitAt]
  rw [pieces, head?_flatMap_capitalize, flat]

end Path

/-! ### Names of values -/

theorem hash_notMem {cs : List Char} (h : cs.all isWordPart = true) : '#' ∉ cs := fun hash =>
  absurd (List.all_eq_true.1 h _ hash) (by decide)

/-- Without marks, the name of a value is a name in snake case. -/
theorem withoutRawMarks_valueName {w : String} (h : IsWord w) :
    withoutRawMarks (valueName w) = snakeCase w := by
  rw [valueName, withoutRawMarks_escapeKeyword, withoutRawMarks,
    dropRawMarks_eq_self (hash_notMem (all_snakeCase h)), String.ofList_toList]

/-- **A member's name keeps the letters and digits of the word it is made from.** -/
theorem folded_memberName (kind : SourceKind) {w : String} (h : IsWord w) :
    folded (withoutRawMarks (kind.memberName w)).toList = folded w.toList := by
  have value : folded (withoutRawMarks (valueName w)).toList = folded w.toList := by
    rw [withoutRawMarks_valueName h, folded_snakeCase h]
  have type : folded (withoutRawMarks (pascalCase w)).toList = folded w.toList := by
    rw [withoutRawMarks, dropRawMarks_eq_self (hash_notMem (all_pascalCase h)),
      String.ofList_toList, folded_pascalCase h]
  cases kind with
  | message | service => exact value
  | enumeration | choice => exact type

end Code

end SchemaDepot
