import Mathlib.Algebra.Ring.Nat
import SchemaDepot.Proofs.Json.Parts

/-! # Reading a text back

A document whose strings all denote texts and whose numbers are natural numbers is read back from
any text that is made of its parts.

* `stringUnits_flatMap`: a string is read back from its escapes.
* `Json.IsPlain`: the documents in question.
* `value_of_spaced`: the value that parts spell, whatever stands behind them.
* `read_compact`, `read_pretty`: a document is read back from its text. -/

namespace SchemaDepot.Json

/-! ### Strings -/

theorem hexUnit_low : ∀ n < 16, hexUnit '0' '0' '0' (Nat.digitChar n) = some n := by
  decide

theorem hexUnit_high : ∀ n < 16, hexUnit '0' '0' '1' (Nat.digitChar n) = some (0x10 + n) := by
  decide

theorem stringUnits_simpleEscape {c e : Char} (hc : c ≠ 'u') (he : simpleEscape c = some e)
    (cs : List Char) : stringUnits ('\\' :: c :: cs) =
      (stringUnits cs).map fun (units, rest) => (e.toNat :: units, rest) := by
  rw [stringUnits]
  · simp only [he, Option.bind_eq_bind, Option.bind_some]
    cases stringUnits cs <;> rfl
  · rintro _ _ _ _ _ h _
    exact hc h

theorem stringUnits_hexUnit {a b c d : Char} {n : Nat} (h : hexUnit a b c d = some n)
    (cs : List Char) : stringUnits ('\\' :: 'u' :: a :: b :: c :: d :: cs) =
      (stringUnits cs).map fun (units, rest) => (n :: units, rest) := by
  rw [stringUnits]
  simp only [h, Option.bind_eq_bind, Option.bind_some]
  cases stringUnits cs <;> rfl

theorem stringUnits_plain {c : Char} (hquote : c ≠ '"') (hbackslash : c ≠ '\\')
    (hlow : ¬ c.toNat < 0x20) (cs : List Char) : stringUnits (c :: cs) =
      (stringUnits cs).map fun (units, rest) => (c.toNat :: units, rest) := by
  have taken : (c.toNat < 0x20 || c == '\\') = false := by simp [hlow, hbackslash]
  rw [stringUnits]
  · rw [taken]
    rfl
  · exact fun h => hquote h
  · exact fun _ _ _ _ _ h _ => hbackslash h
  · exact fun _ _ h _ => hbackslash h

/-- A character with an escape of its own is read back, if all others are. -/
theorem stringUnits_ite {c d e : Char} {other cs : List Char} (hc : e ≠ 'u')
    (he : simpleEscape e = some d) (h : c ≠ d → stringUnits (other ++ cs) =
      (stringUnits cs).map fun (units, rest) => (c.toNat :: units, rest)) :
    stringUnits ((if c = d then ['\\', e] else other) ++ cs) =
      (stringUnits cs).map fun (units, rest) => (c.toNat :: units, rest) := by
  split_ifs with own
  · rw [own]
    exact stringUnits_simpleEscape hc he cs
  · exact h own

/-- An escaped character is read back. -/
theorem stringUnits_escapeChar (c : Char) (cs : List Char) :
    stringUnits (escapeChar c ++ cs) =
      (stringUnits cs).map fun (units, rest) => (c.toNat :: units, rest) := by
  unfold escapeChar
  refine stringUnits_ite (by decide) rfl fun quote => ?_
  refine stringUnits_ite (by decide) rfl fun backslash => ?_
  iterate 5 refine stringUnits_ite (by decide) rfl fun _ => ?_
  split_ifs with low control
  · exact stringUnits_hexUnit (hexUnit_low _ low) cs
  · have high := hexUnit_high (c.toNat - 0x10) (by omega)
    rw [Nat.add_sub_cancel' (Nat.le_of_not_lt low)] at high
    exact stringUnits_hexUnit high cs
  · exact stringUnits_plain quote backslash control cs

/-- **A string is read back from its escapes.** -/
theorem stringUnits_flatMap (s rest : List Char) :
    stringUnits (s.flatMap escapeChar ++ '"' :: rest) = some (s.map Char.toNat, rest) := by
  induction s with
  | nil => rfl
  | cons c s ih =>
    rw [List.flatMap_cons, List.append_assoc, stringUnits_escapeChar, ih]
    rfl

theorem charsOfUnits_toNat (s : List Char) : charsOfUnits (s.map Char.toNat) = some s := by
  induction s with
  | nil => rfl
  | cons c s ih =>
    have valid : c.toNat.isValidChar := c.valid
    have found : Text.charOf? c.toNat = some c := by
      rw [Text.charOf?, dif_pos valid]
      rfl
    rw [List.map_cons, charsOfUnits, ih]
    · rfl
    · exact found

theorem ofUnits_toNat (s : String) : ofUnits (s.toList.map Char.toNat) = .string s := by
  rw [ofUnits, charsOfUnits_toNat]
  simp only [String.ofList_toList]

/-! ### Blanks and numbers -/

/-- The text does not begin with a character that may continue a number. -/
def EndsNumber (cs : List Char) : Prop :=
  ∀ c ∈ cs.head?, c.isDigit = false ∧ c ≠ '.' ∧ c ≠ 'e' ∧ c ≠ 'E'

theorem skipBlanks_append {blanks : List Char} (h : blanks.all isBlank = true) (cs : List Char) :
    skipBlanks (blanks ++ cs) = skipBlanks cs :=
  List.dropWhile_append_of_pos fun c hc => List.all_eq_true.1 h c hc

theorem skipBlanks_cons {c : Char} (h : isBlank c = false) (cs : List Char) :
    skipBlanks (c :: cs) = c :: cs := List.dropWhile_cons_of_neg (by simp [h])

theorem eq_zero_of_head?_toDigits {n : Nat} (h : (Nat.toDigits 10 n).head? = some '0') :
    n = 0 := by
  induction n using Nat.strongRecOn with
  | ind n ih =>
    rw [Nat.toDigits_eq_if (by decide)] at h
    split_ifs at h with low
    · exact Nat.digitChar_eq_zero.1 (Option.some.inj h)
    · rw [List.head?_append_of_ne_nil _ Nat.toDigits_ne_nil] at h
      have := ih (n / 10) (by omega) h
      omega

theorem exists_toDigits_eq_cons (n : Nat) :
    ∃ d ds, Nat.toDigits 10 n = d :: ds ∧ d.isDigit = true := by
  obtain ⟨d, ds, hds⟩ := List.exists_cons_of_ne_nil (Nat.toDigits_ne_nil (b := 10) (n := n))
  exact ⟨d, ds, hds, Nat.isDigit_of_mem_toDigits (b := 10) (n := n) (by decide) (by decide)
    (hds ▸ List.mem_cons_self)⟩

/-- A natural number is read back from its digits. -/
theorem numberLiteral_nat (n : Nat) {rest : List Char} (h : EndsNumber rest) :
    numberLiteral (Nat.toDigits 10 n ++ rest) = some (Nat.toDigits 10 n, rest) := by
  have digits : ∀ c ∈ Nat.toDigits 10 n, c.isDigit = true := fun c hc =>
    Nat.isDigit_of_mem_toDigits (by decide) (by decide) hc
  have stops : rest.takeWhile Char.isDigit = [] ∧ rest.dropWhile Char.isDigit = rest := by
    cases rest with
    | nil => exact ⟨rfl, rfl⟩
    | cons c rest =>
      have hc := (h c rfl).1
      exact ⟨List.takeWhile_cons_of_neg (by simp [hc]), List.dropWhile_cons_of_neg (by simp [hc])⟩
  have whole : (Nat.toDigits 10 n ++ rest).takeWhile Char.isDigit = Nat.toDigits 10 n := by
    rw [List.takeWhile_append_of_pos digits, stops.1, List.append_nil]
  have left : (Nat.toDigits 10 n ++ rest).dropWhile Char.isDigit = rest := by
    rw [List.dropWhile_append_of_pos digits, stops.2]
  obtain ⟨d, ds, hds, hd⟩ := exists_toDigits_eq_cons n
  have zero : ((Nat.toDigits 10 n).head? == some '0' && (Nat.toDigits 10 n).length != 1) =
      false := by
    by_cases hzero : (Nat.toDigits 10 n).head? = some '0'
    · rw [eq_zero_of_head?_toDigits hzero]
      rfl
    · simp [hzero]
  have point : fraction rest = some ([], rest) := by
    cases rest with
    | nil => rfl
    | cons c rest =>
      rw [fraction]
      rintro cs ⟨⟩
      exact (h '.' rfl).2.1 rfl
  have power : exponent rest = some ([], rest) := by
    cases rest with
    | nil => rfl
    | cons c rest =>
      have hc := (h c rfl).2.2
      simp only [exponent]
      rw [if_neg (by simp [hc])]
  have nonempty : (Nat.toDigits 10 n).isEmpty = false := by rw [hds]; rfl
  have unsigned : ∀ cs, Nat.toDigits 10 n ++ rest ≠ '-' :: cs := by
    rw [hds]
    rintro cs heq
    cases heq
    cases hd
  rw [numberLiteral]
  · simp only [whole, left, nonempty, zero, Bool.or_false, Bool.false_eq_true, if_false, point,
      power, Option.bind_eq_bind, Option.bind_some, List.append_nil, List.nil_append, pure]
  · exact unsigned

theorem endsNumber_of_blanks {blanks cs : List Char} (hblanks : blanks.all isBlank = true)
    (h : EndsNumber cs) : EndsNumber (blanks ++ cs) := by
  cases blanks with
  | nil => exact h
  | cons b blanks =>
    rintro c ⟨⟩
    rw [List.all_cons, Bool.and_eq_true] at hblanks
    have blank := hblanks.1
    simp only [isBlank, Bool.or_eq_true, beq_iff_eq] at blank
    rcases blank with ((rfl | rfl) | rfl) | rfl <;> decide

/-! ### Plain documents -/

mutual

/-- Every string of a document denotes a text, and every number is a natural number of 64 bits. -/
def IsPlain : Json → Prop
  | unpaired => False
  | number literal => ∃ n < 2 ^ 64, literal = toString n
  | array items => ArePlain items
  | object members => MembersArePlain members
  | _ => True

/-- The same of some items. -/
def ArePlain : List Json → Prop
  | [] => True
  | j :: js => j.IsPlain ∧ ArePlain js

/-- The same of the values of some members. -/
def MembersArePlain : List (String × Json) → Prop
  | [] => True
  | (_, j) :: ms => j.IsPlain ∧ MembersArePlain ms

end

theorem arePlain_iff {js : List Json} : ArePlain js ↔ ∀ j ∈ js, j.IsPlain := by
  induction js with
  | nil => simp [ArePlain]
  | cons j js ih => rw [ArePlain, ih, List.forall_mem_cons]

theorem membersArePlain_iff {ms : List (String × Json)} :
    MembersArePlain ms ↔ ∀ m ∈ ms, m.2.IsPlain := by
  induction ms with
  | nil => simp [MembersArePlain]
  | cons m ms ih => rw [MembersArePlain, ih, List.forall_mem_cons]

theorem toList_toString (n : Nat) : (toString n).toList = Nat.toDigits 10 n := by
  rw [Nat.toString_eq_repr, Nat.toList_repr]

theorem not_isBlank_of_isDigit {d : Char} (h : d.isDigit = true) : isBlank d = false := by
  by_contra blank
  simp only [isBlank, Bool.not_eq_false, Bool.or_eq_true, beq_iff_eq] at blank
  rcases blank with ((rfl | rfl) | rfl) | rfl <;> exact absurd h (by decide)

/-- The text of a plain document begins with a character that is no blank and closes nothing. -/
theorem IsPlain.parts_eq_cons {j : Json} (h : j.IsPlain) :
    ∃ c part ps, j.parts = (c :: part) :: ps ∧ isBlank c = false ∧ c ≠ ']' := by
  cases j with
  | null => exact ⟨'n', ['u', 'l', 'l'], [], rfl, by decide, by decide⟩
  | bool b =>
    cases b
    · exact ⟨'f', ['a', 'l', 's', 'e'], [], rfl, by decide, by decide⟩
    · exact ⟨'t', ['r', 'u', 'e'], [], rfl, by decide, by decide⟩
  | number literal =>
    obtain ⟨n, -, rfl⟩ := h
    obtain ⟨d, ds, hds, hd⟩ := exists_toDigits_eq_cons n
    refine ⟨d, ds, [], ?_, not_isBlank_of_isDigit hd, ?_⟩
    · rw [parts, scalar, toList_toString, hds]
      all_goals rintro _ ⟨⟩
    · rintro rfl
      exact absurd hd (by decide)
  | string s =>
    refine ⟨'"', s.toList.flatMap escapeChar ++ ['"'], [], ?_, by decide, by decide⟩
    rw [parts, scalar, quote, String.toList_ofList, List.cons_append]
    all_goals rintro _ ⟨⟩
  | unpaired => exact h.elim
  | array items => exact ⟨'[', [], _, rfl, by decide, by decide⟩
  | object members => exact ⟨'\x7b', [], _, rfl, by decide, by decide⟩

theorem IsPlain.exists_eq_add_one {j : Json} (h : j.IsPlain) {n : Nat}
    (hn : j.parts.length ≤ n) : ∃ m, n = m + 1 := by
  obtain ⟨c, part, ps, hp, -⟩ := h.parts_eq_cons
  rw [hp, List.length_cons] at hn
  exact Nat.exists_eq_add_of_le' (Nat.le_of_add_left_le hn)

/-! ### Values -/

/-- A text made of parts, without the blanks before it. -/
theorem Spaced.skipBlanks {c : Char} {part cs : List Char} {ps : List (List Char)}
    (h : Spaced ((c :: part) :: ps) cs) (hc : isBlank c = false) (rest : List Char) :
    ∃ ds, Json.skipBlanks (cs ++ rest) = c :: (part ++ (ds ++ rest)) ∧ Spaced ps ds := by
  cases h with
  | @cons _ blanks ds _ hblanks tail =>
    refine ⟨ds, ?_, tail⟩
    rw [List.append_assoc, List.append_assoc, skipBlanks_append hblanks, List.cons_append,
      skipBlanks_cons hc]

theorem Spaced.eq_nil {cs : List Char} (h : Spaced [] cs) : cs = [] := by
  cases h
  rfl

/-- A number is read by its digits. -/
theorem value_digit {d : Char} {ds : List Char} (hd : d.isDigit = true) {n : Nat}
    {cs : List Char} (hcs : Json.skipBlanks cs = d :: ds) : value (n + 1) cs =
      (numberLiteral (d :: ds)).map fun (literal, rest) =>
        (.number (String.ofList literal), rest) := by
  rw [value, hcs]
  split
  all_goals first
    | rfl
    | (next heq => cases heq; exact absurd hd (by decide))

/-- A scalar is read back. -/
theorem value_of_scalar {j : Json} (h : j.IsPlain) {part : List Char} (hparts : j.parts = [part])
    {n : Nat} (hn : j.parts.length ≤ n) {cs rest : List Char} (hcs : Spaced [part] cs)
    (hrest : EndsNumber rest) : value n (cs ++ rest) = some (j, rest) := by
  obtain ⟨n, rfl⟩ := h.exists_eq_add_one hn
  obtain ⟨c, tail, ps, hp, hc, -⟩ := h.parts_eq_cons
  obtain ⟨rfl, rfl⟩ := List.cons.inj (hparts.symm.trans hp)
  obtain ⟨ds, start, nothing⟩ := hcs.skipBlanks hc rest
  rw [nothing.eq_nil, List.nil_append] at start
  cases j with
  | null =>
    cases hparts
    rw [value, start]
    rfl
  | bool b =>
    cases b
    all_goals
      cases hparts
      rw [value, start]
      rfl
  | number literal =>
    obtain ⟨k, -, rfl⟩ := h
    rw [parts, scalar, toList_toString, List.singleton_inj] at hparts
    · have whole : c :: (tail ++ rest) = Nat.toDigits 10 k ++ rest := by
        rw [hparts, List.cons_append]
      obtain ⟨d, digits, hdigits, hd⟩ := exists_toDigits_eq_cons k
      obtain ⟨rfl, rfl⟩ := List.cons.inj (hdigits.symm.trans hparts)
      rw [value_digit hd start, whole, numberLiteral_nat k hrest, ← toList_toString]
      simp only [Option.map_some, String.ofList_toList]
    all_goals rintro _ ⟨⟩
  | string s =>
    rw [parts, scalar, quote, String.toList_ofList, List.cons_append, List.singleton_inj] at hparts
    · obtain ⟨rfl, rfl⟩ := List.cons.inj hparts
      rw [List.append_assoc, List.singleton_append] at start
      rw [value, start]
      simp only [stringUnits_flatMap, Option.map_some, ofUnits_toNat]
    all_goals rintro _ ⟨⟩
  | unpaired => exact h.elim
  | array items => exact (rowParts_ne_nil _ _ (List.cons.inj hparts).2).elim
  | object members => exact (rowParts_ne_nil _ _ (List.cons.inj hparts).2).elim

/-- The character may stand behind a value. -/
def IsDelimiter (c : Char) : Prop :=
  isBlank c = false ∧ c.isDigit = false ∧ c ≠ '.' ∧ c ≠ 'e' ∧ c ≠ 'E'

instance (c : Char) : Decidable (IsDelimiter c) := inferInstanceAs
  (Decidable (isBlank c = false ∧ c.isDigit = false ∧ c ≠ '.' ∧ c ≠ 'e' ∧ c ≠ 'E'))

/-- A bracket, a comma or a colon ends a number, and is found behind the blanks before it. -/
theorem Spaced.delimiter {c : Char} {cs : List Char} {ps : List (List Char)}
    (h : Spaced ([c] :: ps) cs) (hc : IsDelimiter c) (rest : List Char) :
    EndsNumber (cs ++ rest) ∧
      ∃ ds, Json.skipBlanks (cs ++ rest) = c :: (ds ++ rest) ∧ Spaced ps ds := by
  refine ⟨?_, h.skipBlanks hc.1 rest⟩
  cases h with
  | cons hblanks _ =>
    rw [List.append_assoc, List.append_assoc]
    refine endsNumber_of_blanks hblanks ?_
    rintro _ ⟨⟩
    exact hc.2

theorem toList_quote (s : String) :
    (quote s).toList = '"' :: (s.toList.flatMap escapeChar ++ ['"']) := by
  rw [quote, String.toList_ofList, List.cons_append]

/-- The key of a member is read back, up to the text of its value. -/
theorem members_key {key : String} {ps : List (List Char)} {cs : List Char}
    (h : Spaced ((quote key).toList :: [':'] :: ps) cs) (n : Nat) (rest : List Char) :
    ∃ ds, Spaced ps ds ∧
      members (n + 1) (cs ++ rest) = (value n (ds ++ rest)).bind fun (item, cs) =>
      match Json.skipBlanks cs with
      | '\x7d' :: cs => some ([(.string key, item)], cs)
      | ',' :: cs =>
        (members n cs).bind fun (others, rest) => some ((.string key, item) :: others, rest)
      | _ => none := by
  rw [toList_quote] at h
  obtain ⟨ds, start, tail⟩ := h.skipBlanks (by decide) rest
  obtain ⟨-, es, colon, tail⟩ := tail.delimiter (by decide) rest
  refine ⟨es, tail, ?_⟩
  rw [List.append_assoc, List.singleton_append] at start
  rw [members, start]
  simp only [stringUnits_flatMap, ofUnits_toNat, colon, Option.bind_eq_bind, Option.bind_some]
  rfl

/-- What is written of some things is read back, if it is of each. -/
theorem mapM_map_eq_some {α β : Type} {read : β → Option α} {write : α → β} {xs : List α}
    (h : ∀ x ∈ xs, read (write x) = some x) : (xs.map write).mapM read = some xs := by
  induction xs with
  | nil => rfl
  | cons x xs ih =>
    rw [List.map_cons, List.mapM_cons, h x List.mem_cons_self,
      ih fun y hy => h y (List.mem_cons_of_mem x hy)]
    rfl

/-- Members whose keys denote texts form an object. -/
theorem ofMembers_string (row : List (String × Json)) :
    ofMembers (row.map fun m => (.string m.1, m.2)) = .object row := by
  refine congrArg (fun named => (named.map object).getD unpaired) (mapM_map_eq_some ?_)
  exact fun _ _ => rfl

mutual

/-- **A plain document is read back from its parts**, whatever stands behind them. -/
theorem value_of_spaced : ∀ (j : Json), j.IsPlain → ∀ {n : Nat} {cs rest : List Char},
    Spaced j.parts cs → j.parts.length ≤ n → EndsNumber rest →
      value n (cs ++ rest) = some (j, rest)
  | array [], h, n, cs, rest, hcs, hn, _ => by
    obtain ⟨n, rfl⟩ := h.exists_eq_add_one hn
    obtain ⟨ds, start, inner⟩ := hcs.skipBlanks (by decide) rest
    obtain ⟨es, close, nothing⟩ := inner.skipBlanks (by decide) rest
    rw [value, start]
    simp only [List.nil_append, close, nothing.eq_nil]
  | array (item :: others), h, n, cs, rest, hcs, hn, _ => by
    obtain ⟨n, rfl⟩ := h.exists_eq_add_one hn
    obtain ⟨ds, start, inner⟩ := hcs.skipBlanks (by decide) rest
    obtain ⟨c, part, ps, hp, hc, hclose⟩ := IsPlain.parts_eq_cons (j := item) h.1
    obtain ⟨qs, hqs⟩ : ∃ qs, rowParts ']' (itemParts (item :: others)) = (c :: part) :: qs := by
      cases others <;> simp [itemParts, rowParts, hp]
    obtain ⟨es, first, tail⟩ := (hqs ▸ inner).skipBlanks hc rest
    have found : items n (((c :: part) ++ es) ++ rest) = some (item :: others, rest) :=
      items_of_spaced (item :: others) (List.cons_ne_nil _ _) h (hqs ▸ tail.next _)
        (Nat.le_of_succ_le_succ hn)
    rw [List.append_assoc, List.cons_append] at found
    rw [value, start]
    simp only [List.nil_append, first]
    split
    · next heq => exact (hclose (List.cons.inj heq).1).elim
    · rw [found]
      rfl
  | object [], h, n, cs, rest, hcs, hn, _ => by
    obtain ⟨n, rfl⟩ := h.exists_eq_add_one hn
    obtain ⟨ds, start, inner⟩ := hcs.skipBlanks (by decide) rest
    obtain ⟨es, close, nothing⟩ := inner.skipBlanks (by decide) rest
    rw [value, start]
    simp only [List.nil_append, close, nothing.eq_nil]
  | object ((key, item) :: others), h, n, cs, rest, hcs, hn, _ => by
    obtain ⟨n, rfl⟩ := h.exists_eq_add_one hn
    obtain ⟨ds, start, inner⟩ := hcs.skipBlanks (by decide) rest
    obtain ⟨qs, hqs⟩ : ∃ qs, rowParts '\x7d' (memberParts ((key, item) :: others)) =
        ('"' :: (key.toList.flatMap escapeChar ++ ['"'])) :: qs := by
      cases others <;> simp [memberParts, rowParts, toList_quote]
    obtain ⟨es, first, tail⟩ := (hqs ▸ inner).skipBlanks (by decide) rest
    have found : members n ((('"' :: (key.toList.flatMap escapeChar ++ ['"'])) ++ es) ++ rest) =
        some (((key, item) :: others).map fun m => (.string m.1, m.2), rest) :=
      members_of_spaced ((key, item) :: others) (List.cons_ne_nil _ _) h (hqs ▸ tail.next _)
        (Nat.le_of_succ_le_succ hn)
    rw [List.append_assoc, List.cons_append] at found
    rw [value, start]
    simp only [List.nil_append, first]
    split
    · next heq => exact absurd (List.cons.inj heq).1 (by decide)
    · rw [found, Option.map_some, ofMembers_string]
  | null, h, _, _, _, hcs, hn, hrest => value_of_scalar h rfl hn hcs hrest
  | bool _, h, _, _, _, hcs, hn, hrest => value_of_scalar h rfl hn hcs hrest
  | number _, h, _, _, _, hcs, hn, hrest => value_of_scalar h rfl hn hcs hrest
  | string _, h, _, _, _, hcs, hn, hrest => value_of_scalar h rfl hn hcs hrest
  | unpaired, h, _, _, _, _, _, _ => h.elim

/-- The items of an array are read back. -/
theorem items_of_spaced : ∀ (row : List Json), row ≠ [] → ArePlain row →
    ∀ {n : Nat} {cs rest : List Char}, Spaced (rowParts ']' (itemParts row)) cs →
      (rowParts ']' (itemParts row)).length ≤ n → items n (cs ++ rest) = some (row, rest)
  | [], hne, _, _, _, _, _, _ => (hne rfl).elim
  | [item], _, h, n, cs, rest, hcs, hn => by
    obtain ⟨ds, es, rfl, hds, hes⟩ := hcs.split
    obtain ⟨stops, fs, close, nothing⟩ := hes.delimiter (by decide) rest
    rw [itemParts, itemParts, rowParts, List.length_append, List.length_singleton] at hn
    obtain ⟨n, rfl⟩ := Nat.exists_eq_add_of_le' (Nat.le_of_add_left_le hn)
    have head := value_of_spaced item h.1 hds (Nat.le_of_succ_le_succ hn) stops
    rw [items, List.append_assoc, head]
    simp only [Option.bind_eq_bind, Option.bind_some, close, nothing.eq_nil, pure, List.nil_append]
  | item :: next :: others, _, h, n, cs, rest, hcs, hn => by
    obtain ⟨ds, es, rfl, hds, hes⟩ := hcs.split
    obtain ⟨stops, fs, comma, tail⟩ := hes.delimiter (by decide) rest
    rw [itemParts, itemParts, rowParts, List.length_append, List.length_cons] at hn
    obtain ⟨n, rfl⟩ := Nat.exists_eq_add_of_le' (show 1 ≤ n by omega)
    have head := value_of_spaced item h.1 hds (n := n) (by omega) stops
    have behind : items n (fs ++ rest) = some (next :: others, rest) :=
      items_of_spaced (next :: others) (List.cons_ne_nil _ _) h.2 tail
        (by rw [itemParts]; omega)
    rw [items, List.append_assoc, head]
    simp only [Option.bind_eq_bind, Option.bind_some, comma, behind, pure]

/-- The members of an object are read back. -/
theorem members_of_spaced : ∀ (row : List (String × Json)), row ≠ [] → MembersArePlain row →
    ∀ {n : Nat} {cs rest : List Char}, Spaced (rowParts '\x7d' (memberParts row)) cs →
      (rowParts '\x7d' (memberParts row)).length ≤ n →
      members n (cs ++ rest) = some (row.map fun m => (.string m.1, m.2), rest)
  | [], hne, _, _, _, _, _, _ => (hne rfl).elim
  | [(key, item)], _, h, n, cs, rest, hcs, hn => by
    rw [memberParts, memberParts, rowParts, List.length_append, List.length_singleton,
      List.length_cons, List.length_cons] at hn
    obtain ⟨n, rfl⟩ := Nat.exists_eq_add_of_le' (show 1 ≤ n by omega)
    obtain ⟨ds, inner, found⟩ := members_key hcs n rest
    obtain ⟨es, fs, rfl, hes, hfs⟩ := inner.split
    obtain ⟨stops, gs, close, nothing⟩ := hfs.delimiter (by decide) rest
    have head := value_of_spaced item h.1 hes (n := n) (by omega) stops
    rw [found, List.append_assoc, head]
    simp only [Option.bind_some, close, nothing.eq_nil, List.nil_append, List.map_cons,
      List.map_nil]
  | (key, item) :: next :: others, _, h, n, cs, rest, hcs, hn => by
    rw [memberParts, memberParts, rowParts, List.length_append, List.length_cons,
      List.length_cons, List.length_cons] at hn
    obtain ⟨n, rfl⟩ := Nat.exists_eq_add_of_le' (show 1 ≤ n by omega)
    obtain ⟨ds, inner, found⟩ := members_key hcs n rest
    obtain ⟨es, fs, rfl, hes, hfs⟩ := inner.split
    obtain ⟨stops, gs, comma, tail⟩ := hfs.delimiter (by decide) rest
    have head := value_of_spaced item h.1 hes (n := n) (by omega) stops
    have behind : members n (gs ++ rest) =
        some ((next :: others).map fun m => (.string m.1, m.2), rest) :=
      members_of_spaced (next :: others) (List.cons_ne_nil _ _) h.2 tail
        (by rw [memberParts]; omega)
    rw [found, List.append_assoc, head]
    simp only [Option.bind_some, comma, behind, List.map_cons]

end

/-! ### Whole texts -/

theorem mem_rowParts {closing : Char} {rows : List (List (List Char))} {part : List Char}
    (h : part ∈ rowParts closing rows) :
    part = [closing] ∨ part = [','] ∨ ∃ ps ∈ rows, part ∈ ps := by
  fun_induction rowParts closing rows with
  | case1 => exact .inl (List.mem_singleton.1 h)
  | case2 ps =>
    rcases List.mem_append.1 h with h | h
    · exact .inr (.inr ⟨ps, List.mem_singleton_self ps, h⟩)
    · exact .inl (List.mem_singleton.1 h)
  | case3 ps qs rows ih =>
    rcases List.mem_append.1 h with h | h
    · exact .inr (.inr ⟨ps, List.mem_cons_self, h⟩)
    · rcases List.mem_cons.1 h with h | h
      · exact .inr (.inl h)
      · rcases ih h with h | h | ⟨ps, hps, h⟩
        · exact .inl h
        · exact .inr (.inl h)
        · exact .inr (.inr ⟨ps, List.mem_cons_of_mem _ hps, h⟩)

theorem IsPlain.ne_nil_of_scalar {j : Json} (h : j.IsPlain) {whole part : List Char}
    (hparts : j.parts = [whole]) (hpart : part ∈ j.parts) : part ≠ [] := by
  obtain ⟨c, tail, ps, hp, -, -⟩ := h.parts_eq_cons
  obtain ⟨rfl, rfl⟩ := List.cons.inj (hparts.symm.trans hp)
  rw [hparts] at hpart
  rw [List.mem_singleton.1 hpart]
  exact List.cons_ne_nil _ _

mutual

/-- No part of a plain document is empty. -/
theorem ne_nil_of_mem_parts : ∀ j : Json, j.IsPlain → ∀ part ∈ j.parts, part ≠ []
  | array items, h, part, hpart => by
    rcases List.mem_cons.1 hpart with rfl | hpart
    · exact List.cons_ne_nil _ _
    · rcases mem_rowParts hpart with rfl | rfl | ⟨ps, hps, hpart⟩
      · exact List.cons_ne_nil _ _
      · exact List.cons_ne_nil _ _
      · exact ne_nil_of_mem_item items h ps hps part hpart
  | object members, h, part, hpart => by
    rcases List.mem_cons.1 hpart with rfl | hpart
    · exact List.cons_ne_nil _ _
    · rcases mem_rowParts hpart with rfl | rfl | ⟨ps, hps, hpart⟩
      · exact List.cons_ne_nil _ _
      · exact List.cons_ne_nil _ _
      · exact ne_nil_of_mem_member members h ps hps part hpart
  | null, h, _, hpart => h.ne_nil_of_scalar rfl hpart
  | bool _, h, _, hpart => h.ne_nil_of_scalar rfl hpart
  | number _, h, _, hpart => h.ne_nil_of_scalar rfl hpart
  | string _, h, _, hpart => h.ne_nil_of_scalar rfl hpart
  | unpaired, h, _, _ => h.elim

theorem ne_nil_of_mem_item : ∀ row : List Json, ArePlain row → ∀ ps ∈ itemParts row,
    ∀ part ∈ ps, part ≠ []
  | [], _, _, hps => by cases hps
  | item :: items, h, ps, hps => by
    rcases List.mem_cons.1 hps with rfl | hps
    · exact ne_nil_of_mem_parts item h.1
    · exact ne_nil_of_mem_item items h.2 ps hps

theorem ne_nil_of_mem_member : ∀ row : List (String × Json), MembersArePlain row →
    ∀ ps ∈ memberParts row, ∀ part ∈ ps, part ≠ []
  | [], _, _, hps => by cases hps
  | (key, item) :: members, h, ps, hps => by
    rcases List.mem_cons.1 hps with rfl | hps
    · intro part hpart
      rcases List.mem_cons.1 hpart with rfl | hpart
      · rw [toList_quote]
        exact List.cons_ne_nil _ _
      · rcases List.mem_cons.1 hpart with rfl | hpart
        · exact List.cons_ne_nil _ _
        · exact ne_nil_of_mem_parts item h.1 part hpart
    · exact ne_nil_of_mem_member members h.2 ps hps

end

theorem Spaced.length_le {ps : List (List Char)} {cs : List Char} (h : Spaced ps cs)
    (hps : ∀ part ∈ ps, part ≠ []) : ps.length ≤ cs.length := by
  induction h with
  | nil => exact Nat.le_refl _
  | @cons part blanks cs ps _ _ ih =>
    have := ih fun part hpart => hps part (List.mem_cons_of_mem _ hpart)
    have := List.length_pos_of_ne_nil (hps part List.mem_cons_self)
    simp only [List.length_append, List.length_cons]
    omega

/-- A plain document is read back from a text that is made of its parts. -/
theorem read_of_spaced {j : Json} (h : j.IsPlain) {text : String}
    (htext : Spaced j.parts text.toList) : read text = some j := by
  have fuel := htext.length_le (ne_nil_of_mem_parts j h)
  have found : value (2 * text.toList.length + 2) (text.toList ++ []) = some (j, []) :=
    value_of_spaced j h htext (by omega) (by rintro _ ⟨⟩)
  rw [List.append_nil] at found
  rw [read, found]
  rfl

/-- **A plain document is read back from its text** on one line. -/
theorem read_compact {j : Json} (h : j.IsPlain) : read j.compact = some j :=
  read_of_spaced h (spaced_compact j)

/-- **A plain document is read back from its indented text.** -/
theorem read_pretty {j : Json} (h : j.IsPlain) : read j.pretty = some j :=
  read_of_spaced h (spaced_pretty j)

end SchemaDepot.Json
