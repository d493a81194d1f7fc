import SchemaDepot.Proofs.Json.Reading
import SchemaDepot.Proofs.Registry.Answers
import SchemaDepot.Proofs.Text.Lines
import SchemaDepot.Proofs.Toml.Quoted
import SchemaDepot.Toml.Reader
import SchemaDepot.Toml.Writer

/-! # Tables are read back

* `Plain.Fits`: values that can be read back; `scalar?_render`: they are.
* `AreKeys`, `Sheet.IsSound`: tables that can be read back.
* `Sheet.read_render`: they are, from their text. -/

namespace SchemaDepot.Toml

/-! ### Kinds of characters -/

section Kinds
variable {p : Char → Bool} {c d : Char}

/-- A character of a kind is none of those that are not of the kind. -/
theorem ne_of_kind (h : p d = true) (hc : p c = false) : d ≠ c := by
  rintro rfl
  rw [h] at hc
  cases hc

theorem isSpace_of_kind (h : p c = true) (space : p ' ' = false) (tab : p '\t' = false) :
    isSpace c = false := by
  simp only [isSpace, Bool.or_eq_false_iff, beq_eq_false_iff_ne]
  exact ⟨ne_of_kind h space, ne_of_kind h tab⟩

end Kinds

/-! ### Numbers -/

section Numbers
variable {n : Nat} {rest : List Char}

theorem isDigit_of_mem {d : Char} (h : d ∈ Nat.toDigits 10 n) : d.isDigit = true :=
  Nat.isDigit_of_mem_toDigits (by decide) (by decide) h

theorem ofDigits_toDigits (n : Nat) : Number.ofDigits (Nat.toDigits 10 n) = n := by
  simpa only [Number.ofDigits, Nat.ofDigitChars_eq_foldl, Nat.mul_comm] using
    Nat.ofDigitChars_ten_toDigits (n := n)

theorem sign_digit {d : Char} (h : d.isDigit = true) (cs : List Char) :
    sign (d :: cs) = ([], d :: cs) := by
  unfold sign
  split
  · next same => exact absurd (List.cons.inj same).1 (ne_of_kind h (by decide))
  · next same => exact absurd (List.cons.inj same).1 (ne_of_kind h (by decide))
  · rfl

theorem integer?_toDigits (h : n < 2 ^ 63) :
    Number.integer? (Nat.toDigits 10 n) = some (n : Int) := by
  obtain ⟨d, ds, hds, hd⟩ := Json.exists_toDigits_eq_cons n
  have unsigned : Number.splitSign (Nat.toDigits 10 n) = (false, Nat.toDigits 10 n) := by
    rw [hds]
    unfold Number.splitSign
    split
    · next same => exact absurd (List.cons.inj same).1 (ne_of_kind hd (by decide))
    · next same => exact absurd (List.cons.inj same).1 (ne_of_kind hd (by decide))
    · rfl
  have digits : Number.digits? (Nat.toDigits 10 n) = some n := by
    have all : (Nat.toDigits 10 n).all Char.isDigit = true :=
      List.all_eq_true.2 fun c hc => isDigit_of_mem hc
    have filled : (Nat.toDigits 10 n).isEmpty = false := by rw [hds]; rfl
    rw [Number.digits?, all, filled, ofDigits_toDigits]
    rfl
  have signed : Number.signed? (Nat.toDigits 10 n) = some (n : Int) := by
    rw [Number.signed?, unsigned]
    simp only [digits, bind, Option.bind_some]
    rfl
  rw [Number.integer?, signed]
  refine Option.filter_some_pos ?_
  simp only [Number.fits, Nat.pow_eq, Bool.and_eq_true, decide_eq_true_eq]
  omega

/-- Digits up to the end of a line are read as they are. -/
theorem digitGroups?_digits {ds : List Char} (digits : ∀ d ∈ ds, d.isDigit = true)
    (rest : List Char) :
    digitGroups? Char.isDigit (ds ++ '\n' :: rest) = some (ds, '\n' :: rest) := by
  induction ds with
  | nil => rfl
  | cons d ds ih =>
    obtain ⟨first, others⟩ := List.forall_mem_cons.1 digits
    rw [List.cons_append, digitGroups?, if_pos first, ih others]
    rfl

theorem wholeDigits?_toDigits (n : Nat) (rest : List Char) :
    wholeDigits? (Nat.toDigits 10 n ++ '\n' :: rest) = some (Nat.toDigits 10 n, '\n' :: rest) := by
  obtain ⟨d, ds, hds, hd⟩ := Json.exists_toDigits_eq_cons n
  by_cases zero : d = '0'
  · have hn : n = 0 := Json.eq_zero_of_head?_toDigits (by rw [hds, zero]; rfl)
    rw [hn]
    rfl
  · have groups := digitGroups?_digits (fun c hc => isDigit_of_mem (n := n) hc) rest
    rw [hds, List.cons_append] at groups ⊢
    unfold wholeDigits?
    split
    · next same => exact absurd (List.cons.inj same).1 zero
    · have first : ((d :: (ds ++ '\n' :: rest)).head?).any Char.isDigit = true := hd
      rw [digits?, if_pos first, groups]

theorem decimal?_toDigits (h : n < 2 ^ 63) (rest : List Char) :
    decimal? (Nat.toDigits 10 n ++ '\n' :: rest) = some (.integer n, '\n' :: rest) := by
  have unsigned : sign (Nat.toDigits 10 n ++ '\n' :: rest) =
      ([], Nat.toDigits 10 n ++ '\n' :: rest) := by
    obtain ⟨d, ds, hds, hd⟩ := Json.exists_toDigits_eq_cons n
    rw [hds]
    exact sign_digit hd _
  have places : places? ('\n' :: rest) = some ([], '\n' :: rest) := rfl
  have exponent : exponent? ('\n' :: rest) = some ([], '\n' :: rest) := rfl
  rw [decimal?, unsigned]
  simp only [wholeDigits?_toDigits, places, exponent, bind, Option.bind_some, List.nil_append,
    integer?_toDigits h]
  rfl

/-- **A number is read back.** -/
theorem number?_toDigits (h : n < 2 ^ 63) (rest : List Char) :
    number? (Nat.toDigits 10 n ++ '\n' :: rest) = some (.integer n, '\n' :: rest) := by
  obtain ⟨d, ds, hds, hd⟩ := Json.exists_toDigits_eq_cons n
  have based (c : Char) (cs : List Char) (line : c ≠ '\n') :
      Nat.toDigits 10 n ++ '\n' :: rest ≠ '0' :: c :: cs := by
    intro same
    have zero : n = 0 := by
      refine Json.eq_zero_of_head?_toDigits ?_
      rw [hds, List.cons_append] at same
      rw [hds, (List.cons.inj same).1]
      rfl
    rw [zero] at same
    exact line (List.cons.inj (List.cons.inj same).2).1.symm
  have special : special? (Nat.toDigits 10 n ++ '\n' :: rest) = none := by
    rw [hds, List.cons_append, special?, sign_digit hd]
    simp only
    split
    · next same => exact absurd (List.cons.inj same).1 (ne_of_kind hd (by decide))
    · next same => exact absurd (List.cons.inj same).1 (ne_of_kind hd (by decide))
    · rfl
  unfold number?
  split
  · next same => exact absurd same (based _ _ (by decide))
  · next same => exact absurd same (based _ _ (by decide))
  · next same => exact absurd same (based _ _ (by decide))
  · rw [special, Option.none_or, decimal?_toDigits h]

/-- Behind digits nothing stands that goes on a day or a time. -/
theorem expect?_of_fixed {ds cs : List Char} {c : Char} {count least most m : Nat}
    (digits : ∀ d ∈ ds, d.isDigit = true) (hc : c.isDigit = false) (line : c ≠ '\n')
    (h : fixed? count least most (ds ++ '\n' :: rest) = some (m, cs)) : expect? c cs = none := by
  rw [fixed?] at h
  split_ifs at h with front
  cases h
  simp only [Bool.and_eq_true, List.all_eq_true] at front
  obtain ⟨⟨⟨-, all⟩, -⟩, -⟩ := front
  cases behind : (ds ++ '\n' :: rest).drop count with
  | nil => rfl
  | cons e es =>
    rw [expect?, if_neg]
    rintro rfl
    have whole := List.take_append_drop count (ds ++ '\n' :: rest)
    rw [behind] at whole
    rcases List.append_eq_append_iff.1 whole with ⟨as, hds, has⟩ | ⟨as, htake, has⟩
    · cases as with
      | nil => exact line (List.cons.inj has).1
      | cons a as =>
        obtain rfl := (List.cons.inj has).1
        have mem : e ∈ ds := by
          rw [hds]
          exact List.mem_append_right _ List.mem_cons_self
        exact absurd (digits e mem) (by simp [hc])
    · cases as with
      | nil => exact line (List.cons.inj has).1.symm
      | cons a as =>
        obtain rfl := (List.cons.inj has).1
        have mem : '\n' ∈ (ds ++ '\n' :: rest).take count := by
          rw [htake]
          exact List.mem_append_right _ List.mem_cons_self
        exact absurd (all _ mem) (by decide)

/-- A number is no day and no time. -/
theorem moment_toDigits (n : Nat) (rest : List Char) :
    Moment.read? (Nat.toDigits 10 n ++ '\n' :: rest) = none := by
  have digits (d : Char) (hd : d ∈ Nat.toDigits 10 n) : d.isDigit = true := isDigit_of_mem hd
  have date : Date.read? (Nat.toDigits 10 n ++ '\n' :: rest) = none := by
    rw [Date.read?]
    cases year : fixed? 4 0 9999 (Nat.toDigits 10 n ++ '\n' :: rest) with
    | none => rfl
    | some read =>
      have none : expect? '-' read.2 = none :=
        expect?_of_fixed digits (by decide) (by decide) year
      simp only [bind, Option.bind_some, none, Option.bind_none]
  have time : Time.read? 23 (Nat.toDigits 10 n ++ '\n' :: rest) = none := by
    rw [Time.read?]
    cases hour : fixed? 2 0 23 (Nat.toDigits 10 n ++ '\n' :: rest) with
    | none => rfl
    | some read =>
      have none : expect? ':' read.2 = none :=
        expect?_of_fixed digits (by decide) (by decide) hour
      simp only [bind, Option.bind_some, none, Option.bind_none]
  rw [Moment.read?, date, time]
  rfl

end Numbers

/-! ### Values -/

/-- A number has 63 bits at most. -/
def Plain.Fits : Plain → Prop
  | integer i => ∃ n : Nat, i = n ∧ n < 2 ^ 63
  | _ => True

theorem scalar?_digit {d : Char} (h : d.isDigit = true) (cs : List Char) : scalar? (d :: cs) =
    ((Moment.read? (d :: cs)).map fun (m, rest) => (.moment m, rest)).or (number? (d :: cs)) := by
  unfold scalar?
  split
  · next same => exact absurd (List.cons.inj same).1 (ne_of_kind h (by decide))
  · next same => exact absurd (List.cons.inj same).1 (ne_of_kind h (by decide))
  · next same => exact absurd (List.cons.inj same).1 (ne_of_kind h (by decide))
  · next same => exact absurd (List.cons.inj same).1 (ne_of_kind h (by decide))
  · rfl

/-- A value begins with a character that opens nothing and is no space. -/
theorem exists_render_cons {v : Plain} (fits : v.Fits) : ∃ c cs, v.render.toList = c :: cs ∧
    c ≠ '[' ∧ c ≠ '{' ∧ isSpace c = false := by
  cases v with
  | text s =>
    obtain ⟨q, cs, hs, hq⟩ := Quoted.exists_encode s
    refine ⟨q, cs, hs, ?_⟩
    rcases hq with rfl | rfl <;> decide
  | integer i =>
    obtain ⟨n, rfl, -⟩ := fits
    obtain ⟨d, ds, hds, hd⟩ := Json.exists_toDigits_eq_cons n
    exact ⟨d, ds, (Json.toList_toString n).trans hds, ne_of_kind hd (by decide),
      ne_of_kind hd (by decide), isSpace_of_kind hd (by decide) (by decide)⟩
  | boolean b => cases b <;> exact ⟨_, _, rfl, by decide⟩

/-- **A plain value is read back.** -/
theorem scalar?_render {v : Plain} (fits : v.Fits) (rest : List Char) :
    scalar? (v.render.toList ++ '\n' :: rest) = some (v.toValue, '\n' :: rest) := by
  cases v with
  | text s =>
    have read : Quoted.decode? ((Quoted.encode s).toList ++ '\n' :: rest) = _ :=
      Quoted.decode_encode s (by rintro c ⟨⟩; decide)
    obtain ⟨q, cs, hs, hq⟩ := Quoted.exists_encode s
    rw [Plain.render]
    rw [hs, List.cons_append] at read ⊢
    rcases hq with rfl | rfl
    · show (Quoted.decode? _).map _ = _
      rw [read]
      rfl
    · show (Quoted.decode? _).map _ = _
      rw [read]
      rfl
  | integer i =>
    obtain ⟨n, rfl, h⟩ := fits
    have digits : (Plain.integer n).render.toList = Nat.toDigits 10 n := Json.toList_toString n
    obtain ⟨d, ds, hds, hd⟩ := Json.exists_toDigits_eq_cons n
    have moment := moment_toDigits n rest
    have number := number?_toDigits h rest
    rw [hds, List.cons_append] at moment number
    rw [digits, hds, List.cons_append, scalar?_digit hd, moment, number]
    rfl
  | boolean b => cases b <;> rfl

theorem value?_render {v : Plain} (fits : v.Fits) (n room : Nat) (rest : List Char) :
    value? (n + 1) room (v.render.toList ++ '\n' :: rest) = some (v.toValue, '\n' :: rest) := by
  have read := scalar?_render fits rest
  obtain ⟨c, cs, hcs, bracket, brace, -⟩ := exists_render_cons fits
  rw [hcs, List.cons_append] at read ⊢
  unfold value?
  split
  · next same => exact absurd (List.cons.inj same).1 bracket
  · next same => exact absurd (List.cons.inj same).1 bracket
  · next same => exact absurd (List.cons.inj same).1 brace
  · next same => exact absurd (List.cons.inj same).1 brace
  · exact read

/-! ### Keys -/

/-- A key that can stand without quotes. -/
structure IsBareKey (key : String) : Prop where
  filled : key ≠ ""
  plain : ∀ c ∈ key.toList, isKeyChar c = true

instance (key : String) : Decidable (IsBareKey key) :=
  decidable_of_iff (key ≠ "" ∧ key.toList.all isKeyChar = true)
    ⟨fun h => ⟨h.1, List.all_eq_true.1 h.2⟩, fun h => ⟨h.1, List.all_eq_true.2 h.2⟩⟩

section Keys
variable {key : String} {rest : List Char}

theorem IsBareKey.exists_cons (h : IsBareKey key) :
    ∃ c cs, key.toList = c :: cs ∧ isKeyChar c = true := by
  obtain ⟨c, cs, hcs⟩ := List.exists_cons_of_ne_nil (mt String.toList_eq_nil_iff.1 h.filled)
  exact ⟨c, cs, hcs, h.plain c (hcs ▸ List.mem_cons_self)⟩

theorem skipSpaces_of_head {c : Char} {cs : List Char} (h : isSpace c = false) :
    skipSpaces (c :: cs) = c :: cs := by
  rw [skipSpaces, List.dropWhile_cons_of_neg (by simp [h])]

theorem keyPart?_bare (h : IsBareKey key) (stop : ∀ c ∈ rest.head?, isKeyChar c = false) :
    keyPart? (key.toList ++ rest) = some (key, rest) := by
  obtain ⟨c, cs, hcs, hc⟩ := h.exists_cons
  have front : (key.toList ++ rest).takeWhile isKeyChar = key.toList := by
    rw [List.takeWhile_append_of_pos h.plain]
    cases rest with
    | nil => simp
    | cons d ds => rw [List.takeWhile_cons_of_neg (by simp [stop d rfl]), List.append_nil]
  have behind : (key.toList ++ rest).dropWhile isKeyChar = rest := by
    rw [List.dropWhile_append_of_pos h.plain]
    cases rest with
    | nil => rfl
    | cons d ds => rw [List.dropWhile_cons_of_neg (by simp [stop d rfl])]
  rw [hcs, List.cons_append] at front behind ⊢
  unfold keyPart?
  split
  · next same => exact absurd (List.cons.inj same).1 (ne_of_kind hc (by decide))
  · next same => exact absurd (List.cons.inj same).1 (ne_of_kind hc (by decide))
  · simp only [front, behind, ← hcs, String.ofList_toList]
    rw [hcs]
    rfl

theorem keyParts?_bare (h : IsBareKey key) (stop : ∀ c ∈ rest.head?, isKeyChar c = false)
    (last : ∀ cs, skipSpaces rest ≠ '.' :: cs) (n : Nat) :
    keyParts? (n + 1) (key.toList ++ rest) = some ([key], skipSpaces rest) := by
  obtain ⟨c, cs, hcs, hc⟩ := h.exists_cons
  have start : skipSpaces (key.toList ++ rest) = key.toList ++ rest := by
    rw [hcs, List.cons_append, skipSpaces_of_head (isSpace_of_kind hc (by decide) (by decide))]
  rw [keyParts?, start, keyPart?_bare h stop]
  simp only [bind, Option.bind_some]
  rfl

/-- A key without quotes is read back. -/
theorem Key.read?_bare (h : IsBareKey key) (stop : ∀ c ∈ rest.head?, isKeyChar c = false)
    (last : ∀ cs, skipSpaces rest ≠ '.' :: cs) :
    Key.read? (key.toList ++ rest) = some (⟨[], key⟩, skipSpaces rest) := by
  have parts : keyParts? (nestingLimit - 1) (key.toList ++ rest) = _ :=
    keyParts?_bare h stop last 78
  rw [Key.read?, parts]
  rfl

end Keys

/-! ### Lines -/

/-- What is left of a document gives entries, in as many lines as it may have. -/
def Progress.Gives (p : Progress) (cs : List Char) (es : Draft.Entries) : Prop :=
  ∀ n, cs.length < n → lines? n p cs = some es

namespace Progress
variable {p p' : Progress} {cs mid rest : List Char} {es : Draft.Entries}

theorem Gives.nil (p : Progress) : p.Gives [] p.entries := by
  intro n hn
  cases n with
  | zero => cases hn
  | succ n => rfl

/-- What one line does, and then the others. -/
theorem Gives.line (h : p'.Gives rest es) {c : Char} (first : isSpace c = false)
    (adds : line? p (c :: cs) = some (p', mid)) (ends : lineEnd? false mid = some rest)
    (shorter : rest.length ≤ cs.length) : p.Gives (c :: cs) es := by
  intro n hn
  cases n with
  | zero => cases hn
  | succ n =>
    rw [List.length_cons] at hn
    rw [lines?, skipSpaces_of_head first]
    simp only [adds, ends, bind, Option.bind_some]
    exact h n (by omega)

theorem Gives.blank (h : p.Gives rest es) : p.Gives ('\n' :: rest) es :=
  h.line (by decide) rfl rfl (Nat.le_refl _)

/-- The line of a header without dots. -/
theorem line?_header (p : Progress) {name : String} (bare : IsBareKey name)
    {entries : Draft.Entries} (opens : Draft.openTable [] name p.entries = some entries)
    (rest : List Char) :
    line? p ('[' :: (name.toList ++ ']' :: rest)) = some (⟨entries, [name]⟩, rest) := by
  have key : Key.read? (name.toList ++ ']' :: rest) = some (⟨[], name⟩, ']' :: rest) :=
    Key.read?_bare bare (by rintro c ⟨⟩; decide) (by rintro cs ⟨⟩)
  obtain ⟨c, cs, hcs, hc⟩ := bare.exists_cons
  rw [hcs, List.cons_append] at key ⊢
  unfold line?
  split
  · next same => cases same
  · next same => cases same
  · next same => cases same
  · next same => cases same
  · next same =>
    exact absurd (List.cons.inj (List.cons.inj same).2).1 (ne_of_kind hc (by decide))
  · next same =>
    obtain rfl := (List.cons.inj same).2
    simp only [key, opens, bind, Option.bind_some]
    rfl
  · next not => exact absurd rfl (not _)

/-- The line of a key without dots, up to its end. -/
theorem line?_entry (p : Progress) {key : String} {v : Plain} (bare : IsBareKey key) (fits : v.Fits)
    {entries : Draft.Entries}
    (puts : Draft.putKey p.table [] key v.toValue p.entries = some entries) (rest : List Char) :
    line? p (key.toList ++ (' ' :: '=' :: ' ' :: (v.render.toList ++ '\n' :: rest))) =
      some (⟨entries, p.table⟩, '\n' :: rest) := by
  obtain ⟨d, ds, hds, -, -, hd⟩ := exists_render_cons fits
  have behind : skipSpaces (' ' :: (v.render.toList ++ '\n' :: rest)) =
      v.render.toList ++ '\n' :: rest := by
    rw [hds]
    exact skipSpaces_of_head hd
  have read : Key.read? (key.toList ++ (' ' :: '=' :: ' ' :: (v.render.toList ++ '\n' :: rest))) =
      some (⟨[], key⟩, '=' :: ' ' :: (v.render.toList ++ '\n' :: rest)) :=
    Key.read?_bare bare (by rintro c ⟨⟩; decide) (by rintro cs ⟨⟩)
  obtain ⟨c, cs, hcs, hc⟩ := bare.exists_cons
  have other {e : Char} (h : isKeyChar e = false) {es es' : List Char} :
      c :: es ≠ e :: es' := fun same => ne_of_kind hc h (List.cons.inj same).1
  rw [hcs, List.cons_append] at read ⊢
  unfold line?
  split
  · next same => cases same
  · next same => exact absurd same (other (by decide))
  · next same => exact absurd same (other (by decide))
  · next same => exact absurd same (other (by decide))
  · next same => exact absurd same (other (by decide))
  · next same => exact absurd same (other (by decide))
  · simp only [read, behind, value?_render fits, puts, bind, Option.bind_some]
    rfl

end Progress

/-! ### Tables -/

namespace Draft
variable {name key : String} {es inner : Entries}

theorem find?_eq_none (h : key ∉ es.map Prod.fst) : find? key es = none :=
  congrArg (Option.map Prod.snd) (find?_key_eq_none h)

theorem openTable_new (h : name ∉ es.map Prod.fst) :
    openTable [] name es = some (es ++ [(name, .table .header [])]) := by
  rw [openTable, modify, addTable, find?_eq_none h]

/-- A key that a table does not have comes to stand at its end. -/
theorem putKey_last (h : name ∉ es.map Prod.fst) (new : key ∉ inner.map Prod.fst) (v : Value) :
    putKey [name] [] key v (es ++ [(name, .table .header inner)]) =
      some (es ++ [(name, .table .header (inner ++ [(key, .leaf v)]))]) := by
  have found : find? name (es ++ [(name, .table .header inner)]) =
      some (.table .header inner) := by
    rw [find?, List.find?_append, find?_key_eq_none h]
    simp
  have add : addKey false key v .header inner = some (inner ++ [(key, .leaf v)]) := by
    rw [addKey, find?_eq_none new]
    rfl
  have same : es.map (fun e => if e.1 = name then (name, table .header (inner ++ [(key, leaf v)]))
      else e) = es := by
    refine (List.map_congr_left fun e he => if_neg ?_).trans es.map_id
    exact fun hname => h (List.mem_map.2 ⟨e, he, hname⟩)
  simp [putKey, modify, found, add, replace, same]

end Draft

/-- Keys can stand in one table: they differ, and need no quotes. -/
structure AreKeys (keys : List String) : Prop where
  distinct : keys.Nodup
  bare : ∀ key ∈ keys, IsBareKey key

instance (keys : List String) : Decidable (AreKeys keys) :=
  decidable_of_iff (keys.Nodup ∧ ∀ key ∈ keys, IsBareKey key)
    ⟨fun h => ⟨h.1, h.2⟩, fun h => ⟨h.1, h.2⟩⟩

section Keys
variable {α : Type} {before more : List (String × α)} {e : String × α}

theorem AreKeys.isBareKey (h : AreKeys ((before ++ e :: more).map Prod.fst)) : IsBareKey e.1 :=
  h.bare e.1 (List.mem_map_of_mem (by simp))

theorem AreKeys.new (h : AreKeys ((before ++ e :: more).map Prod.fst)) :
    e.1 ∉ before.map Prod.fst :=
  key_notMem_of_nodup h.distinct

end Keys

/-- The entries of a table can be read back. -/
structure IsSoundTable (es : List (String × Plain)) : Prop where
  keys : AreKeys (es.map Prod.fst)
  fits : ∀ e ∈ es, e.2.Fits

namespace Sheet

/-- All tables can be read back. -/
structure IsSound (s : Sheet) : Prop where
  names : AreKeys (s.map Prod.fst)
  tables : ∀ t ∈ s, IsSoundTable t.2

/-- The entries of a table as they are read. -/
def leaves (es : List (String × Plain)) : Draft.Entries :=
  es.map fun (key, v) => (key, .leaf v.toValue)

/-- Tables as they are read. -/
def drafts (s : Sheet) : Draft.Entries :=
  s.map fun (name, es) => (name, .table .header (leaves es))

/-- Tables as values. -/
def entries (s : Sheet) : Entries :=
  s.map fun (name, es) => (name, .table (es.map fun (key, v) => (key, v.toValue)))

theorem leaves_concat (es : List (String × Plain)) (e : String × Plain) :
    leaves (es ++ [e]) = leaves es ++ [(e.1, .leaf e.2.toValue)] := by
  simp [leaves]

theorem finishEntries_leaves (es : List (String × Plain)) :
    Draft.finishEntries (leaves es) = es.map fun (key, v) => (key, v.toValue) := by
  induction es with
  | nil => rfl
  | cons e es ih =>
    rw [leaves, List.map_cons, Draft.finishEntries, Draft.finish, ← leaves, ih]
    rfl

theorem finishEntries_drafts (s : Sheet) : Draft.finishEntries s.drafts = s.entries := by
  induction s with
  | nil => rfl
  | cons t s ih =>
    rw [drafts, List.map_cons, Draft.finishEntries, Draft.finish, finishEntries_leaves, ← drafts,
      ih]
    rfl

theorem toList_entryLine (key : String) (v : Plain) : (entryLine key v).toList =
    key.toList ++ (' ' :: '=' :: ' ' :: (v.render.toList ++ ['\n'])) := by
  simp [entryLine]

theorem toList_tableText (name : String) (es : List (String × Plain)) :
    (tableText name es).toList = '[' :: (name.toList ++ (']' :: '\n' ::
      es.flatMap fun e => (entryLine e.1 e.2).toList)) := by
  simp [tableText, List.flatMap, Function.comp_def]

section Lines
variable {before es : Draft.Entries} {name : String} {rest : List Char}

/-- The lines of a table add its entries, one by one. -/
theorem gives_entries (new : name ∉ before.map Prod.fst) {read more : List (String × Plain)}
    (sound : IsSoundTable (read ++ more))
    (next : Progress.Gives ⟨before ++ [(name, .table .header (leaves (read ++ more)))], [name]⟩
      rest es) :
    Progress.Gives ⟨before ++ [(name, .table .header (leaves read))], [name]⟩
      (more.flatMap (fun e => (entryLine e.1 e.2).toList) ++ rest) es := by
  induction more generalizing read with
  | nil => rwa [List.append_nil] at next
  | cons e more ih =>
    have fits := sound.fits e (by simp)
    have bare := sound.keys.isBareKey
    have absent : e.1 ∉ (leaves read).map Prod.fst := by
      rw [leaves, List.map_map]
      exact sound.keys.new
    rw [List.append_cons read e more] at sound next
    have puts := Draft.putKey_last new absent e.2.toValue
    rw [← leaves_concat] at puts
    obtain ⟨c, cs, hcs, hc⟩ := bare.exists_cons
    have line := Progress.line?_entry ⟨_, [name]⟩ bare fits puts
      (more.flatMap (fun e => (entryLine e.1 e.2).toList) ++ rest)
    rw [List.flatMap_cons, toList_entryLine]
    simp only [List.append_assoc, List.cons_append, List.nil_append]
    rw [hcs, List.cons_append] at line ⊢
    refine (ih sound next).line (isSpace_of_kind hc (by decide) (by decide)) line rfl ?_
    simp only [List.length_append, List.length_cons]
    omega

/-- The lines of a table with its header add the table. -/
theorem gives_table {t : String × List (String × Plain)} {s : Sheet} (bare : IsBareKey t.1)
    (sound : IsSoundTable t.2) (new : t.1 ∉ s.map Prod.fst) (table : List String)
    (next : Progress.Gives ⟨drafts (s ++ [t]), [t.1]⟩ rest es) :
    Progress.Gives ⟨s.drafts, table⟩ ((tableText t.1 t.2).toList ++ rest) es := by
  have absent : t.1 ∉ s.drafts.map Prod.fst := by rwa [drafts, List.map_map]
  have sound : IsSoundTable ([] ++ t.2) := sound
  have next : Progress.Gives
      ⟨s.drafts ++ [(t.1, .table .header (leaves ([] ++ t.2)))], [t.1]⟩ rest es := by
    rwa [drafts, List.map_append] at next
  have header := Progress.line?_header ⟨_, table⟩ bare (Draft.openTable_new absent)
    ('\n' :: (t.2.flatMap (fun e => (entryLine e.1 e.2).toList) ++ rest))
  rw [toList_tableText]
  simp only [List.append_assoc, List.cons_append]
  refine (gives_entries absent sound next).line (by decide) header rfl ?_
  simp only [List.length_append, List.length_cons]
  omega

/-- All tables that follow are added. -/
theorem gives_tables {read more : Sheet} (sound : IsSound (read ++ more)) (table : List String) :
    Progress.Gives ⟨read.drafts, table⟩ (more.flatMap fun t => '\n' :: (tableText t.1 t.2).toList)
      (drafts (read ++ more)) := by
  induction more generalizing read table with
  | nil =>
    rw [List.append_nil]
    exact Progress.Gives.nil _
  | cons t more ih =>
    have bare := sound.names.isBareKey
    have new := sound.names.new
    have own := sound.tables t (by simp)
    rw [List.append_cons read t more] at sound ⊢
    exact (gives_table bare own new table (ih sound [t.1])).blank

end Lines

theorem toList_render_cons (t : String × List (String × Plain)) (more : Sheet) :
    (render (t :: more)).toList =
      (tableText t.1 t.2).toList ++ more.flatMap fun t => '\n' :: (tableText t.1 t.2).toList := by
  refine (Text.toList_intercalate '\n' _).trans ?_
  rw [List.map_map, List.map_cons, Text.joinWith_cons, List.flatMap_map]
  rfl

theorem gives_render {s : Sheet} (sound : s.IsSound) :
    Progress.Gives {} s.render.toList s.drafts := by
  cases s with
  | nil => exact Progress.Gives.nil _
  | cons t more =>
    have others : Progress.Gives ⟨drafts ([] ++ [t]), [t.1]⟩
        (more.flatMap fun t => '\n' :: (tableText t.1 t.2).toList) (drafts ([t] ++ more)) :=
      gives_tables sound [t.1]
    rw [toList_render_cons]
    exact gives_table (sound.names.bare t.1 List.mem_cons_self)
      (sound.tables t List.mem_cons_self) List.not_mem_nil [] others

/-- No mark of the byte order stands in front of tables. -/
theorem head?_render (s : Sheet) : s.render.toList.head? ≠ some '\uFEFF' := by
  cases s with
  | nil => nofun
  | cons t more =>
    rw [toList_render_cons, toList_tableText]
    rintro ⟨⟩

/-- **Tables are read back from their text.** -/
theorem read_render {s : Sheet} (sound : s.IsSound) : read s.render = some s.entries := by
  have lines := gives_render sound _ (Nat.lt_succ_self _)
  unfold read
  split
  · next same => exact absurd (congrArg List.head? same) (head?_render s)
  · refine (congrArg (Option.map Draft.finishEntries) lines).trans ?_
    rw [Option.map_some, finishEntries_drafts]

end Sheet

end SchemaDepot.Toml
