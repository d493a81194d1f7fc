import SchemaDepot.Proofs.Token.Slices

/-! # Literals that are quoted and read again

A quoted text is made for readers, and its escapes are not those of schemas. A character that is
spelled by its code point cannot be read again, and of a NUL the digits behind it become a part.

* `Text.Written`: how characters are written between double quotes.
* `Text.reread`: what is read of them; `Lexeme.literalBody_escaped`.
* `Text.Requotable`: the texts that stay the same; `Text.reread_eq_iff`.
* `Token.scan_kept`: tokens that are kept as text, with blanks between them, and scanned again. -/

namespace SchemaDepot

namespace Text

open Lexeme (isOctalDigit simpleEscape)

/-! ### Characters between double quotes -/

/-- The characters that have an escape of their own between double quotes. -/
def escapable : List Char := ['\x00', '\t', '\r', '\n', '\\', '"']

/-- Between double quotes the character is spelled by its code point. -/
def isSpelled (c : Char) : Bool := isGlyphless c && !escapable.contains c

/-- The characters as they are written between double quotes. -/
def escaped (cs : List Char) : List Char := cs.flatMap (escape '"')

/-- How a character is written between double quotes. -/
inductive Written : Char → List Char → Prop
  | zero : Written '\x00' ['\\', '0']
  | named {c e : Char} (unspelled : isSpelled c = false) (filled : c ≠ '\x00')
      (denotes : simpleEscape e = some c) : Written c ['\\', e]
  | spelled {c : Char} {digits : List Char} (spelled : isSpelled c = true) :
      Written c ('\\' :: 'u' :: '\x7b' :: digits)
  | itself {c : Char} (unspelled : isSpelled c = false) (filled : c ≠ '\x00')
      (quote : c ≠ '"') (line : c ≠ '\n') (backslash : c ≠ '\\') : Written c [c]

theorem escape_written (c : Char) : Written c (escape '"' c) := by
  have named (e : Char) (he : simpleEscape e = some c)
      (hc : escapable.contains c = true) (filled : c ≠ '\x00') : Written c ['\\', e] :=
    .named (by rw [isSpelled, hc, Bool.not_true, Bool.and_false]) filled he
  unfold escape
  split_ifs with zero tab ret line backslash quote glyphless
  · subst zero
    exact .zero
  · subst tab
    exact named 't' rfl (by decide) zero
  · subst ret
    exact named 'r' rfl (by decide) zero
  · subst line
    exact named 'n' rfl (by decide) zero
  · subst backslash
    exact named '\\' rfl (by decide) zero
  · subst quote
    exact named '"' rfl (by decide) zero
  · exact .spelled (by
      simp [isSpelled, escapable, glyphless, zero, tab, ret, line, backslash, quote])
  · exact .itself (by simp [isSpelled, glyphless]) zero quote line backslash

/-- An octal digit at the front was one before. -/
theorem head_escaped {cs rest : List Char} : ∀ c ∈ (escaped cs ++ '"' :: rest).head?,
    isOctalDigit c = true → c ∈ cs.head? := by
  cases cs with
  | nil =>
    rintro c hc digit
    cases hc
    exact absurd digit (by decide)
  | cons d cs =>
    intro c hc digit
    have written := escape_written d
    rw [escaped, List.flatMap_cons] at hc
    generalize escape '"' d = s at written hc
    cases written <;> cases hc
    · exact absurd digit (by decide)
    · exact absurd digit (by decide)
    · exact absurd digit (by decide)
    · rfl

theorem exists_of_isOctalDigit {c : Char} (h : isOctalDigit c = true) :
    ∃ n < 8, c = Char.ofNat (48 + n) := by
  obtain ⟨low, high⟩ : 48 ≤ c.toNat ∧ c.toNat ≤ 55 := by
    simpa [isOctalDigit, Char.le_def, UInt32.le_iff_toNat_le] using h
  exact ⟨c.toNat - 48, by omega, by rw [Nat.add_sub_cancel' low, Char.ofNat_toNat]⟩

/-- Octal digits are written as themselves. -/
theorem escaped_append_of_octal {digits : List Char} (h : ∀ c ∈ digits, isOctalDigit c = true)
    (cs : List Char) : escaped (digits ++ cs) = digits ++ escaped cs := by
  have one : ∀ n < 8, escape '"' (Char.ofNat (48 + n)) = [Char.ofNat (48 + n)] := by decide
  induction digits with
  | nil => rfl
  | cons d digits ih =>
    obtain ⟨first, others⟩ := List.forall_mem_cons.1 h
    obtain ⟨n, hn, rfl⟩ := exists_of_isOctalDigit first
    have := ih others
    rw [escaped] at this ⊢
    rw [List.cons_append, List.flatMap_cons, one n hn, this]
    rfl

/-! ### What is read of them -/

/-- The character that at most two octal digits behind a zero denote. -/
def octal (digits : List Char) : Char := ((hexNumber? 8 digits).bind charOf?).getD '\x00'

/-- The octal digits that become a part of a NUL before them. -/
def swallowed (cs : List Char) : List Char := (cs.take 2).takeWhile isOctalDigit

theorem swallowed_append (cs : List Char) :
    swallowed cs ++ cs.drop (swallowed cs).length = cs :=
  List.prefix_iff_eq_append.1 ((List.takeWhile_prefix _).trans (List.take_prefix 2 cs))

theorem isOctalDigit_of_mem_swallowed {cs : List Char} : ∀ c ∈ swallowed cs,
    isOctalDigit c = true := fun _ hc => List.mem_takeWhile_imp hc

theorem swallowed_eq_nil_iff {cs : List Char} :
    swallowed cs = [] ↔ ∀ c ∈ cs.head?, isOctalDigit c = false := by
  cases cs with
  | nil => exact iff_of_true rfl nofun
  | cons c cs => simp [swallowed]

/-- No digits, one or two stand for a character. -/
theorem octal_swallowed (cs : List Char) :
    (hexNumber? 8 ('0' :: swallowed cs)).bind charOf? = some (octal (swallowed cs)) := by
  have short : (swallowed cs).length ≤ 2 := by
    have := (List.takeWhile_prefix (p := isOctalDigit) (l := cs.take 2)).length_le
    rw [List.length_take] at this
    exact this.trans (Nat.min_le_left 2 _)
  have digits (c : Char) (hc : c ∈ swallowed cs) :=
    exists_of_isOctalDigit (isOctalDigit_of_mem_swallowed c hc)
  have one : ∀ m < 8, (hexNumber? 8 ['0', Char.ofNat (48 + m)]).bind charOf? =
      some (octal [Char.ofNat (48 + m)]) := by decide
  have two : ∀ m < 8, ∀ n < 8,
      (hexNumber? 8 ['0', Char.ofNat (48 + m), Char.ofNat (48 + n)]).bind charOf? =
        some (octal [Char.ofNat (48 + m), Char.ofNat (48 + n)]) := by decide
  match h : swallowed cs with
  | [] => decide
  | [a] =>
    obtain ⟨m, hm, rfl⟩ := digits a (by simp [h])
    exact one m hm
  | [a, b] =>
    obtain ⟨m, hm, rfl⟩ := digits a (by simp [h])
    obtain ⟨n, hn, rfl⟩ := digits b (by simp [h])
    exact two m hm n hn
  | _ :: _ :: _ :: _ => simp [h] at short

/-- What is read of characters that were written between double quotes, if they can be read. -/
def reread : List Char → List Char
  | [] => []
  | c :: cs =>
    if c = '\x00' then octal (swallowed cs) :: reread (cs.drop (swallowed cs).length)
    else c :: reread cs
termination_by cs => cs.length

/-- The text is read as it was before it was written between double quotes: nothing in it is spelled
by its code point, and no octal digit stands behind a NUL. -/
structure Requotable (cs : List Char) : Prop where
  unspelled : cs.any isSpelled = false
  apart : ∀ d, isOctalDigit d = true → ¬ ['\x00', d] <:+: cs

theorem length_reread_le (cs : List Char) : (reread cs).length ≤ cs.length := by
  fun_induction reread cs with
  | case1 => exact Nat.le_refl _
  | case2 cs ih =>
    rw [List.length_drop] at ih
    simp only [List.length_cons]
    omega
  | case3 c cs hc ih =>
    simp only [List.length_cons]
    omega

/-- **What is read is what was written exactly if no octal digit stands behind a NUL.** -/
theorem reread_eq_iff (cs : List Char) :
    reread cs = cs ↔ ∀ d, isOctalDigit d = true → ¬ ['\x00', d] <:+: cs := by
  fun_induction reread cs with
  | case1 => exact iff_of_true rfl fun d _ => by simp
  | case2 cs ih =>
    have front (d : Char) : ['\x00', d] <+: '\x00' :: cs ↔ d ∈ cs.head? := by
      cases cs <;> simp [eq_comm]
    by_cases none : swallowed cs = []
    · have apart (d : Char) (digit : isOctalDigit d = true) : d ∉ cs.head? := fun hd => by
        rw [swallowed_eq_nil_iff.1 none d hd] at digit
        cases digit
      have zero : octal [] = '\x00' := by decide
      rw [none] at ih ⊢
      simp only [List.length_nil, List.drop_zero] at ih ⊢
      simp only [zero, List.cons.injEq, true_and, ih, List.infix_cons_iff, front, not_or]
      exact ⟨fun h d digit => ⟨apart d digit, h d digit⟩, fun h d digit => (h d digit).2⟩
    · refine iff_of_false (fun same => ?_) fun h => ?_
      · have shorter := length_reread_le (cs.drop (swallowed cs).length)
        have filled := List.length_pos_iff.2 none
        have lengths := congrArg List.length (swallowed_append cs)
        rw [(List.cons.inj same).2] at shorter
        rw [List.length_append] at lengths
        omega
      · have : ¬ ∀ c ∈ cs.head?, isOctalDigit c = false := mt swallowed_eq_nil_iff.2 none
        push Not at this
        obtain ⟨d, hd, digit⟩ := this
        rw [Ne, Bool.not_eq_false] at digit
        exact h d digit ((front d).2 hd).isInfix
  | case3 c cs hc ih =>
    have front (d : Char) : ¬ ['\x00', d] <+: c :: cs :=
      fun h => hc (List.cons_prefix_cons.1 h).1.symm
    simp only [List.infix_cons_iff, front, false_or, List.cons.injEq, true_and, ih]

end Text

namespace Lexeme

open Text (escaped reread swallowed octal isSpelled)

theorem literalBody_escape {cs : List Char} {e : Taken Char} (h : escape cs = .ok e) :
    literalBody '"' ('\\' :: cs) = (literalBody '"' e.rest).map fun t =>
      ⟨e.value :: t.value, '\\' :: e.source ++ t.source, t.rest⟩ := by
  rw [literalBody, if_neg (by decide), if_neg (by decide), if_pos rfl]
  split
  · next fault hfault =>
    rw [h] at hfault
    cases hfault
  · next e' he' =>
    rw [h] at he'
    cases he'
    rfl

theorem literalBody_escape_error {cs : List Char} {fault : LexicalFault}
    (h : escape cs = .error fault) : literalBody '"' ('\\' :: cs) = .error fault := by
  rw [literalBody, if_neg (by decide), if_neg (by decide), if_pos rfl]
  split
  · next fault' hfault =>
    rw [h] at hfault
    cases hfault
    rfl
  · next e he =>
    rw [h] at he
    cases he

theorem literalBody_itself {c : Char} (quote : c ≠ '"') (line : c ≠ '\n') (backslash : c ≠ '\\')
    (cs : List Char) : literalBody '"' (c :: cs) =
      (literalBody '"' cs).map fun t => ⟨c :: t.value, c :: t.source, t.rest⟩ := by
  rw [literalBody, if_neg quote, if_neg line, if_neg backslash]

/-- The octal digits behind a NUL are read with it. -/
theorem escape_zero (cs rest : List Char) : escape ('0' :: (escaped cs ++ '"' :: rest)) =
    .ok ⟨octal (swallowed cs), '0' :: swallowed cs,
      escaped (cs.drop (swallowed cs).length) ++ '"' :: rest⟩ := by
  have split : escaped cs ++ '"' :: rest = swallowed cs ++
      (escaped (cs.drop (swallowed cs).length) ++ '"' :: rest) := by
    rw [← List.append_assoc, ← Text.escaped_append_of_octal Text.isOctalDigit_of_mem_swallowed,
      Text.swallowed_append]
  have digits : (('0' :: (escaped cs ++ '"' :: rest)).take 3).takeWhile isOctalDigit =
      '0' :: swallowed cs := by
    rw [List.take_succ_cons, List.takeWhile_cons_of_pos (by decide), split]
    exact congrArg _ (takeWhile_take_before Text.head_escaped)
  have code (tail : List Char) : escape ('0' :: tail) = codePoint 8 3 isOctalDigit ('0' :: tail) :=
    rfl
  simp only [code, codePoint, digits, List.isEmpty_cons, Bool.false_eq_true, if_false,
    Text.octal_swallowed, List.length_cons, List.drop_succ_cons]
  rw [split, List.drop_left]

theorem escape_spelled (cs : List Char) : escape ('u' :: '\x7b' :: cs) = .error .emptyHexEscape :=
  rfl

/-- **What is read of characters that were written between double quotes.** -/
theorem literalBody_escaped (cs rest : List Char) : literalBody '"' (escaped cs ++ '"' :: rest) =
    if cs.any isSpelled then .error .emptyHexEscape
    else .ok ⟨reread cs, escaped cs ++ ['"'], rest⟩ := by
  fun_induction reread cs with
  | case1 =>
    rw [escaped, List.flatMap_nil, List.nil_append, literalBody, if_pos rfl]
    rfl
  | case2 cs ih =>
    -- the digits are no part of the text that is left
    have plain : ∀ n < 8, isSpelled (Char.ofNat (48 + n)) = false := by decide
    have digits : (swallowed cs).any isSpelled = false := List.any_eq_false.2 fun c hc => by
      obtain ⟨n, hn, rfl⟩ := Text.exists_of_isOctalDigit (Text.isOctalDigit_of_mem_swallowed c hc)
      simp [plain n hn]
    have any : cs.any isSpelled = (cs.drop (swallowed cs).length).any isSpelled := by
      conv_lhs => rw [← Text.swallowed_append cs, List.any_append, digits, Bool.false_or]
    have source : escaped cs = swallowed cs ++ escaped (cs.drop (swallowed cs).length) := by
      rw [← Text.escaped_append_of_octal Text.isOctalDigit_of_mem_swallowed, Text.swallowed_append]
    have zero : isSpelled '\x00' = false := by decide
    have next : escaped ('\x00' :: cs) = '\\' :: '0' :: escaped cs := rfl
    rw [next, List.cons_append, List.cons_append, literalBody_escape (escape_zero cs rest), ih,
      List.any_cons, zero, Bool.false_or, any]
    split_ifs
    · rfl
    · simp [Except.map, source]
  | case3 c cs hc ih =>
    have next : escaped (c :: cs) = Text.escape '"' c ++ escaped cs := List.flatMap_cons
    have written := Text.escape_written c
    rw [next, List.any_cons]
    generalize Text.escape '"' c = s at written
    cases written with
    | zero => exact absurd rfl hc
    | @named _ e unspelled _ denotes =>
      have read : escape (e :: (escaped cs ++ '"' :: rest)) =
          .ok ⟨c, [e], escaped cs ++ '"' :: rest⟩ := by rw [escape, denotes]
      rw [unspelled, Bool.false_or, List.append_assoc, List.cons_append, List.cons_append,
        List.nil_append, literalBody_escape read, ih]
      split_ifs <;> rfl
    | spelled spelled =>
      rw [spelled, Bool.true_or, if_pos rfl]
      exact literalBody_escape_error (escape_spelled _)
    | itself unspelled _ quote line backslash =>
      rw [unspelled, Bool.false_or, List.append_assoc, List.cons_append, List.nil_append,
        literalBody_itself quote line backslash, ih]
      split_ifs <;> rfl

/-- **What is read of a quoted text.** -/
theorem read_quoted (s : String) (rest : List Char) : read ((Text.quoted s).toList ++ rest) =
    if s.toList.any isSpelled then .error .emptyHexEscape
    else .ok ⟨(.literal, String.ofList (reread s.toList)), (Text.quoted s).toList, rest⟩ := by
  have quoted : (Text.quoted s).toList = '"' :: (escaped s.toList ++ ['"']) := by
    rw [Text.quoted, String.toList_ofList]
    rfl
  have body := literalBody_escaped s.toList rest
  rw [quoted, List.cons_append, List.append_assoc, List.singleton_append,
    read_cons fun h => absurd h (by decide), if_pos (Or.inl rfl), body]
  split_ifs <;> rfl

end Lexeme

end SchemaDepot
