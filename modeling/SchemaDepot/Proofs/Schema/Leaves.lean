import Mathlib.Data.List.TakeWhile
import SchemaDepot.Proofs.Schema.Recognition

/-! # Names, values and declarations without a block

The readers of the grammar recognize the phrases of the same names, one by one.

* `dotted_recognizes`, `optionName_recognizes`, `constant_recognizes`, `compactOptions_recognizes`:
  names and values.
* `closing`: what stands behind open braces; `cons_mem_closing` reads it token by token, and
  `aggregate_recognizes` is by it.
* `dialect_recognizes`, `package_recognizes`, `importFile_recognizes`, `setting_recognizes`:
  declarations of a file that are neither fields nor blocks. -/

namespace SchemaDepot

open Computability

namespace Reader

/-! ### Kinds of tokens -/

theorem isSymbol_apart {c d : Char} (h : c ≠ d) (t : Token) (ht : isSymbol c t = true) :
    isSymbol d t = false := by
  simp only [isSymbol, beq_iff_eq] at ht
  simp only [isSymbol, ht, beq_eq_false_iff_ne]
  exact fun he => h (TokenKind.symbol.inj he)

theorem kind_of_isSymbol {c : Char} {t : Token} (h : isSymbol c t = true) : t.kind = .symbol c := by
  simpa [isSymbol] using h

theorem kind_of_isAnyWord {t : Token} (h : Phrase.isAnyWord t = true) : t.kind = .word := by
  simpa [Phrase.isAnyWord] using h

theorem kind_of_isWord {w : String} {t : Token} (h : isWord w t = true) :
    t.kind = .word ∧ t.text = w := by
  simpa [isWord] using h

end Reader

namespace Grammar

open Reader
open Phrase (Begins Clear never begins_one)

/-! ### Names -/

theorem dotted_recognizes (what : String) :
    Recognizes (dotted what) Phrase.dotted (isSymbol '.') := by
  have words : Recognizes (chain '.' (word what)) (Phrase.separated '.' Phrase.word)
      (isSymbol '.') := chain_recognizes (token_recognizes _ what) fun _ _ => rfl
  refine (acceptToken_recognizes _).bind (fun rooted => words.map _) fun w hw rest _ => ?_
  refine ((begins_one _).mul _).clear (fun t ht => ?_) hw rest
  simp [isSymbol, kind_of_isAnyWord ht]

theorem optionNamePart_recognizes : Recognizes optionNamePart
    (Phrase.word + Phrase.symbol '(' * Phrase.dotted * Phrase.symbol ')') never := by
  have inner : Recognizes (do
      let name ← dotted "an extension name"
      let _ ← symbol ')'
      return "(" ++ name ++ ")") (Phrase.dotted * Phrase.symbol ')') never :=
    (dotted_recognizes _).bind (fun _ => (token_recognizes _ _).map _) fun w hw rest _ =>
      (begins_one _).clear (isSymbol_apart (by decide)) hw rest
  have single : Recognizes (do return (← word "an option name").text) Phrase.word never :=
    (token_recognizes _ _).map _
  refine Recognizes.of_eq
    (Recognizes.accept inner single fun hw => absurd hw (begins_one _).nil_notMem) ?_
  have words : Phrase.avoiding (isSymbol '(') Phrase.word = Phrase.word :=
    Phrase.avoiding_of_begins (begins_one _) fun t ht => by simp [isSymbol, kind_of_isAnyWord ht]
  rw [words, add_comm, mul_assoc]
  rfl

theorem optionName_recognizes :
    Recognizes optionName Phrase.optionName (isSymbol '.') :=
  Recognizes.map (chain_recognizes optionNamePart_recognizes fun _ _ => rfl) _

/-! ### Values -/

theorem mem_kstar_one {p : Token → Bool} {w : List Token} :
    w ∈ (Phrase.one p)∗ ↔ ∀ t ∈ w, p t = true := by
  constructor
  · rintro ⟨words, rfl, hwords⟩ t ht
    obtain ⟨w, hw, htw⟩ := List.mem_flatten.1 ht
    obtain ⟨u, hu, rfl⟩ := hwords w hw
    obtain rfl := List.mem_singleton.1 htw
    exact hu
  · intro h
    refine ⟨w.map fun t => [t], ?_, ?_⟩
    · rw [← List.flatMap_def, List.flatMap_singleton']
    · intro v hv
      obtain ⟨t, ht, rfl⟩ := List.mem_map.1 hv
      exact ⟨t, h t ht, rfl⟩

theorem moreLiterals_recognizes :
    Recognizes moreLiterals (Phrase.one isLiteral)∗ isLiteral := by
  refine ⟨fun ts a rest h => ?_, fun w hw => ?_⟩
  · cases h
    exact ⟨ts.takeWhile isLiteral, List.takeWhile_append_dropWhile.symm,
      mem_kstar_one.2 fun t ht => List.mem_takeWhile_imp ht⟩
  · have hall := mem_kstar_one.1 hw
    refine ⟨String.join (w.map Token.text), fun rest hrest => ?_⟩
    have stops : rest.takeWhile isLiteral = [] ∧ rest.dropWhile isLiteral = rest := by
      cases rest with
      | nil => exact ⟨rfl, rfl⟩
      | cons t rest =>
        have ht := hrest t rfl
        exact ⟨List.takeWhile_cons_of_neg (by simp [ht]),
          List.dropWhile_cons_of_neg (by simp [ht])⟩
    unfold moreLiterals
    rw [List.takeWhile_append_of_pos hall, List.dropWhile_append_of_pos hall, stops.1, stops.2,
      List.append_nil]

theorem literals_recognizes (what : String) :
    Recognizes (literals what) Phrase.literals isLiteral :=
  (token_recognizes _ what).then fun _ => moreLiterals_recognizes.map _

/-! ### Aggregates -/

/-- What stands behind tokens in so many open braces, up to the brace that closes the first of
them. -/
def closing : Nat → Language Token
  | 0 => 1
  | depth + 1 =>
    (Phrase.one Phrase.isPlain + Phrase.group (maxNesting - (depth + 1)))∗ * Phrase.symbol '\x7d' *
      closing depth

theorem nil_notMem_closing (depth : Nat) : [] ∉ closing (depth + 1) := by
  rintro ⟨_, ⟨_, -, v, hv, rfl⟩, w, -, he⟩
  obtain ⟨t, -, rfl⟩ := hv
  simp at he

theorem begins_group (depth : Nat) : Begins (Phrase.group depth) (isSymbol '\x7b') := by
  cases depth with
  | zero => exact nofun
  | succ depth => exact ((begins_one _).mul _).mul _

/-- A token that is no brace, or a group, changes nothing behind braces. -/
theorem append_mem_closing {depth : Nat} {item w : List Token}
    (hitem : item ∈ Phrase.one Phrase.isPlain + Phrase.group (maxNesting - (depth + 1)))
    (hw : w ∈ closing (depth + 1)) : item ++ w ∈ closing (depth + 1) := by
  obtain ⟨_, ⟨items, hitems, last, hlast, rfl⟩, w, hw, rfl⟩ := hw
  refine ⟨_, ⟨item ++ items, ?_, last, hlast, rfl⟩, w, hw, by simp⟩
  exact Phrase.append_mem_kstar hitem hitems

/-- **Behind braces, token by token**: a token that is no brace changes nothing, and a brace opens
or closes one. -/
theorem cons_mem_closing {depth : Nat} {t : Token} {ts : List Token} :
    t :: ts ∈ closing (depth + 1) ↔ Phrase.isPlain t = true ∧ ts ∈ closing (depth + 1) ∨
      isSymbol '\x7b' t = true ∧ depth + 1 < maxNesting ∧ ts ∈ closing (depth + 2) ∨
      isSymbol '\x7d' t = true ∧ ts ∈ closing depth := by
  constructor
  · rintro ⟨_, ⟨_, ⟨items, rfl, hitems⟩, _, ⟨u, hu, rfl⟩, rfl⟩, w, hw, he⟩
    cases items with
    | nil =>
      cases he
      exact Or.inr (Or.inr ⟨hu, hw⟩)
    | cons item items =>
      have others : items.flatten ++ [u] ++ w ∈ closing (depth + 1) :=
        ⟨_, ⟨_, ⟨items, rfl, fun v hv => hitems v (List.mem_cons_of_mem item hv)⟩, _, ⟨u, hu, rfl⟩,
          rfl⟩, w, hw, rfl⟩
      rcases hitems item List.mem_cons_self with ⟨v, hv, rfl⟩ | hgroup
      · cases he
        exact Or.inl ⟨hv, others⟩
      · -- a group of its own: its opening brace, and what is in it up to its closing brace
        cases hroom : maxNesting - (depth + 1) with
        | zero =>
          rw [hroom] at hgroup
          exact absurd hgroup (Language.notMem_zero _)
        | succ room =>
          rw [hroom] at hgroup
          obtain ⟨_, ⟨_, ⟨v, hv, rfl⟩, inner, hinner, rfl⟩, _, ⟨c, hc, rfl⟩, rfl⟩ := hgroup
          have hroom' : maxNesting - (depth + 2) = room := by omega
          cases he
          refine Or.inr (Or.inl ⟨hv, by omega, ?_⟩)
          refine ⟨_, ⟨inner, by rw [hroom']; exact hinner, _, ⟨c, hc, rfl⟩, rfl⟩, _, others, ?_⟩
          simp
  · rintro (⟨ht, hts⟩ | ⟨ht, hroom, hts⟩ | ⟨ht, hts⟩)
    · show [t] ++ ts ∈ closing (depth + 1)
      exact append_mem_closing (Or.inl ⟨t, ht, rfl⟩) hts
    · obtain ⟨_, ⟨inner, hinner, last, hlast, rfl⟩, w, hw, rfl⟩ := hts
      obtain ⟨room, hroom'⟩ : ∃ room, maxNesting - (depth + 1) = room + 1 :=
        ⟨maxNesting - (depth + 2), by omega⟩
      have group : [t] ++ inner ++ last ∈ Phrase.group (maxNesting - (depth + 1)) := by
        rw [hroom']
        refine ⟨_, ⟨[t], ⟨t, ht, rfl⟩, inner, ?_, rfl⟩, last, hlast, rfl⟩
        rwa [show room = maxNesting - (depth + 2) by omega]
      simpa using append_mem_closing (Or.inr group) hw
    · exact ⟨_, ⟨[], Language.nil_mem_kstar _, [t], ⟨t, ht, rfl⟩, rfl⟩, ts, hts, rfl⟩

theorem isPlain_eq_true {t : Token} : Phrase.isPlain t = true ↔
    isSymbol '\x7b' t = false ∧ isSymbol '\x7d' t = false := by
  simp [Phrase.isPlain]

theorem aggregateTail_gives {depth : Nat} (hdepth : depth < maxNesting) :
    Gives (aggregateTail (depth + 1)) fun w _ => w ∈ closing (depth + 1) := by
  intro ts
  induction ts generalizing depth with
  | nil =>
    intro parts rest h
    cases h
  | cons t ts ih =>
    intro parts rest h
    rw [aggregateTail_cons] at h
    by_cases hopen : isSymbol '\x7b' t = true
    · simp only [hopen, if_true] at h
      split_ifs at h with hdeep hzero
      · exact hzero.elim
      · obtain ⟨⟨parts', rest'⟩, htail, he⟩ := Lexeme.map_ok h
        cases he
        have hroom : depth + 1 < maxNesting := by omega
        obtain ⟨w, rfl, hw⟩ := ih hroom htail
        exact ⟨t :: w, rfl, cons_mem_closing.2 (Or.inr (Or.inl ⟨hopen, hroom, hw⟩))⟩
    · rw [Bool.not_eq_true] at hopen
      by_cases hclose : isSymbol '\x7d' t = true
      · simp only [hopen, hclose, if_true, Bool.false_eq_true, if_false, Nat.add_sub_cancel] at h
        split_ifs at h with hdeep hzero
        · cases h
          subst hzero
          exact ⟨[t], rfl, cons_mem_closing.2 (Or.inr (Or.inr ⟨hclose, rfl⟩))⟩
        · obtain ⟨⟨parts', rest'⟩, htail, he⟩ := Lexeme.map_ok h
          cases he
          obtain ⟨outer, rfl⟩ := Nat.exists_eq_succ_of_ne_zero hzero
          obtain ⟨w, rfl, hw⟩ := ih (by omega) htail
          exact ⟨t :: w, rfl, cons_mem_closing.2 (Or.inr (Or.inr ⟨hclose, hw⟩))⟩
      · rw [Bool.not_eq_true] at hclose
        simp only [hopen, hclose, Bool.false_eq_true, if_false] at h
        split_ifs at h with hdeep hzero
        · exact hzero.elim
        · obtain ⟨⟨parts', rest'⟩, htail, he⟩ := Lexeme.map_ok h
          cases he
          obtain ⟨w, rfl, hw⟩ := ih hdepth htail
          exact ⟨t :: w, rfl, cons_mem_closing.2 (Or.inl ⟨isPlain_eq_true.2 ⟨hopen, hclose⟩, hw⟩)⟩

theorem aggregateTail_of_mem {depth : Nat} (hdepth : depth < maxNesting) {w : List Token}
    (hw : w ∈ closing (depth + 1)) :
    ∃ parts, ∀ rest, aggregateTail (depth + 1) (w ++ rest) = .ok (parts, rest) := by
  induction w generalizing depth with
  | nil => exact absurd hw (nil_notMem_closing depth)
  | cons t w ih =>
    rcases cons_mem_closing.1 hw with ⟨ht, hw⟩ | ⟨ht, hroom, hw⟩ | ⟨ht, hw⟩
    · obtain ⟨hopen, hclose⟩ := isPlain_eq_true.1 ht
      obtain ⟨parts, hparts⟩ := ih hdepth hw
      refine ⟨kept t :: parts, fun rest => ?_⟩
      rw [List.cons_append, aggregateTail_cons]
      simp only [hopen, hclose, Bool.false_eq_true, if_false]
      rw [if_neg (by omega), if_neg (by omega), hparts rest]
      rfl
    · obtain ⟨parts, hparts⟩ := ih hroom hw
      refine ⟨kept t :: parts, fun rest => ?_⟩
      rw [List.cons_append, aggregateTail_cons]
      simp only [ht, if_true]
      rw [if_neg (by omega), if_neg (by omega), hparts rest]
      rfl
    · have hopen := isSymbol_apart (by decide : '\x7d' ≠ '\x7b') t ht
      cases depth with
      | zero =>
        obtain rfl : w = [] := hw
        refine ⟨[kept t], fun rest => ?_⟩
        rw [List.cons_append, aggregateTail_cons]
        simp only [hopen, ht, if_true, Bool.false_eq_true, if_false, Nat.zero_add, Nat.sub_self]
        rfl
      | succ depth =>
        obtain ⟨parts, hparts⟩ := ih (by omega) hw
        refine ⟨kept t :: parts, fun rest => ?_⟩
        rw [List.cons_append, aggregateTail_cons]
        simp only [hopen, ht, if_true, Bool.false_eq_true, if_false, Nat.add_sub_cancel]
        rw [if_neg (by omega), if_neg (by omega), hparts rest]
        rfl

/-- **An aggregate is a group of braces**, in which they nest at most so deep. -/
theorem aggregate_recognizes : Recognizes aggregate (Phrase.group maxNesting) never := by
  have tail : Recognizes (aggregateTail 1) (closing 1) never :=
    ⟨aggregateTail_gives (by decide), fun w hw => by
      obtain ⟨parts, hparts⟩ := aggregateTail_of_mem (by decide) hw
      exact ⟨parts, fun rest _ => hparts rest⟩⟩
  refine Recognizes.of_eq ((token_recognizes _ _).then fun first => tail.map _) ?_
  show Phrase.symbol '\x7b' * ((Phrase.one Phrase.isPlain + Phrase.group 127)∗ *
    Phrase.symbol '\x7d' * 1) = _
  rw [mul_one, ← mul_assoc]
  rfl

/-- What an option can have as its value, by the token that the value begins with. -/
def constantFrom (next : Option Token) : Language Token :=
  match next.map Token.kind with
  | some .literal => Phrase.literals
  | some .integer | some .decimal => Phrase.one fun _ => true
  | some (.symbol '-') => Phrase.symbol '-' * Phrase.one isSignable
  | some (.symbol '+') => Phrase.symbol '+' * Phrase.one isSignable
  | some .word => Phrase.dotted
  | some (.symbol '\x7b') => Phrase.group maxNesting
  | _ => 0

theorem begins_dotted : Begins Phrase.dotted fun t => isSymbol '.' t || Phrase.isAnyWord t :=
  Begins.maybe_mul (begins_one _) ((begins_one _).mul _)

theorem nil_notMem_constantFrom (next : Option Token) : [] ∉ constantFrom next := by
  unfold constantFrom
  split
  · exact ((begins_one _).mul _).nil_notMem
  · exact (begins_one _).nil_notMem
  · exact (begins_one _).nil_notMem
  · exact ((begins_one _).mul _).nil_notMem
  · exact ((begins_one _).mul _).nil_notMem
  · exact begins_dotted.nil_notMem
  · exact (begins_group _).nil_notMem
  · exact Language.notMem_zero _

/-- Words with dots between them begin with a word if they begin with no dot. -/
theorem cons_mem_dotted {t : Token} {w : List Token} (ht : isSymbol '.' t = false) :
    t :: w ∈ Phrase.dotted ↔ t :: w ∈ Phrase.separated '.' Phrase.word := by
  constructor
  · rintro ⟨_, rfl | ⟨u, hu, rfl⟩, v, hv, he⟩
    · exact he ▸ hv
    · cases he
      rw [ht] at hu
      cases hu
  · exact fun h => ⟨[], Or.inl rfl, _, h, rfl⟩

theorem mem_constantFrom (w : List Token) : w ∈ constantFrom w.head? ↔ w ∈ Phrase.constant := by
  have begins : Begins Phrase.constant fun t => isLiteral t || Phrase.isNumber t ||
      Phrase.isAnyWord t || (isSymbol '+' t || isSymbol '-' t) || isSymbol '\x7b' t :=
    ((((((begins_one _).mul _).add (begins_one _)).add ((begins_one _).mul _)).add
      (((begins_one _).add (begins_one _)).mul _)).add (begins_group _))
  cases w with
  | nil => exact iff_of_false (nil_notMem_constantFrom _) begins.nil_notMem
  | cons t w =>
    simp only [List.head?_cons, constantFrom, Option.map_some]
    constructor
    · intro h
      split at h
      · exact Or.inl (Or.inl (Or.inl (Or.inl h)))
      · next kind =>
        obtain ⟨u, -, he⟩ := h
        cases he
        exact Or.inl (Or.inl (Or.inl (Or.inr ⟨t, by simp_all [Phrase.isNumber], rfl⟩)))
      · next kind =>
        obtain ⟨u, -, he⟩ := h
        cases he
        exact Or.inl (Or.inl (Or.inl (Or.inr ⟨t, by simp_all [Phrase.isNumber], rfl⟩)))
      · obtain ⟨v, hv, v', hv', he⟩ := h
        exact Or.inl (Or.inr ⟨v, Or.inr hv, v', hv', he⟩)
      · obtain ⟨v, hv, v', hv', he⟩ := h
        exact Or.inl (Or.inr ⟨v, Or.inl hv, v', hv', he⟩)
      · next kind =>
        refine Or.inl (Or.inl (Or.inr ((cons_mem_dotted ?_).1 h)))
        simp_all [isSymbol]
      · exact Or.inr h
      · exact absurd h (Language.notMem_zero _)
    · rintro ((((h | h) | h) | ⟨_, ⟨u, hu, rfl⟩ | ⟨u, hu, rfl⟩, v, hv, he⟩) | h)
      · have kind : t.kind = .literal := by
          simpa [isLiteral] using ((begins_one _).mul _ : Begins Phrase.literals _).head h
        rw [kind]
        exact h
      · obtain ⟨u, hu, he⟩ := h
        cases he
        simp only [Phrase.isNumber, Bool.or_eq_true, beq_iff_eq] at hu
        rcases hu with kind | kind <;> rw [kind] <;> exact ⟨t, rfl, rfl⟩
      · have kind := kind_of_isAnyWord
          (((begins_one _).mul _ : Begins (Phrase.separated '.' Phrase.word) _).head h)
        rw [kind]
        exact (cons_mem_dotted (by simp [isSymbol, kind])).2 h
      · cases he
        rw [kind_of_isSymbol hu]
        exact ⟨[t], ⟨t, hu, rfl⟩, v, hv, rfl⟩
      · cases he
        rw [kind_of_isSymbol hu]
        exact ⟨[t], ⟨t, hu, rfl⟩, v, hv, rfl⟩
      · rw [kind_of_isSymbol ((begins_group _).head h)]
        exact h

theorem constant_recognizes :
    Recognizes constant Phrase.constant fun t => isLiteral t || isSymbol '.' t := by
  have signed (c : Char) (sign : String) : Recognizes (do
      let _ ← symbol c
      return sign ++ (← token isSignable "a number").text)
      (Phrase.symbol c * Phrase.one isSignable) never :=
    (token_recognizes _ _).then fun _ => (token_recognizes _ _).map _
  have literal : ∀ t, isLiteral t = true → (isLiteral t || isSymbol '.' t) = true := by simp_all
  have dot : ∀ t, isSymbol '.' t = true → (isLiteral t || isSymbol '.' t) = true := by simp_all
  have nothing : ∀ t, never t = true → (isLiteral t || isSymbol '.' t) = true := nofun
  refine (Recognizes.look (g := fun next => next) (fun _ => rfl) (fun next => ?_)
    nil_notMem_constantFrom).of_eq (Language.ext mem_constantFrom)
  split
  · next kind => rw [constantFrom, kind]; exact (literals_recognizes _).weaken literal
  · next kind => rw [constantFrom, kind]; exact (token_recognizes _ _).map _
  · next kind => rw [constantFrom, kind]; exact (token_recognizes _ _).map _
  · next kind => rw [constantFrom, kind]; exact (signed '-' _).weaken nothing
  · next kind => rw [constantFrom, kind]; exact (signed '+' _).weaken nothing
  · next kind => rw [constantFrom, kind]; exact (dotted_recognizes _).weaken dot
  · next kind => rw [constantFrom, kind]; exact aggregate_recognizes.weaken nothing
  · next other =>
    have none : constantFrom next = 0 := by
      unfold constantFrom
      split <;> simp_all
    rw [none]
    exact expected_recognizes _

theorem assignment_recognizes :
    Recognizes assignment Phrase.assignment fun t => isLiteral t || isSymbol '.' t := by
  refine (optionName_recognizes.bind (fun name => (token_recognizes _ _).then fun _ =>
    constant_recognizes.map _) fun w hw rest _ => ?_).of_eq (mul_assoc _ _ _).symm
  exact ((begins_one _).mul _).clear (isSymbol_apart (by decide)) hw rest

theorem compactOptions_recognizes :
    Recognizes compactOptions (Phrase.maybe Phrase.compactOptions) (isSymbol '[') := by
  have rows : Recognizes (chain ',' assignment) (Phrase.separated ',' Phrase.assignment)
      fun t => (isLiteral t || isSymbol '.' t) || isSymbol ',' t :=
    chain_recognizes assignment_recognizes fun t ht => by
      simp [isLiteral, isSymbol, kind_of_isSymbol ht]
  have inner (g : List (String × String) → List CompactOption) :
      Recognizes (do let options ← chain ',' assignment; let _ ← symbol ']'; return g options)
        (Phrase.separated ',' Phrase.assignment * Phrase.symbol ']') (isSymbol '[') :=
    rows.bind (fun _ => (token_recognizes _ _).map _) fun w hw rest _ =>
      (begins_one _).clear (fun t ht => by simp [isLiteral, isSymbol, kind_of_isSymbol ht]) hw rest
  refine Recognizes.of_eq (Recognizes.accept (inner _) (Recognizes.pure []) fun _ _ => id) ?_
  rw [Phrase.avoiding_one, add_comm, ← mul_assoc]
  rfl

/-! ### Declarations without a block -/

/-- The end of a declaration: a semicolon. -/
theorem symbol_map_recognizes {α : Type} (c : Char) (g : Token → α) :
    Recognizes (do return g (← symbol c)) (Phrase.symbol c) never :=
  (token_recognizes _ _).map g

theorem dialect_recognizes : Recognizes dialect
    (Phrase.one (fun _ => true) * (Phrase.symbol '=' * (Phrase.literals * Phrase.symbol ';')))
    never :=
  (token_recognizes _ _).then fun _ => (token_recognizes _ _).then fun _ =>
    (literals_recognizes _).bind (fun _ => symbol_map_recognizes ';' _) fun w hw rest _ =>
      (begins_one _).clear (fun t ht => by simp [isLiteral, kind_of_isSymbol ht]) hw rest

theorem package_recognizes : Recognizes package Phrase.package never := by
  refine Recognizes.of_eq ((token_recognizes _ _).then fun _ => (dotted_recognizes _).bind
    (fun _ => symbol_map_recognizes ';' _) fun w hw rest _ => ?_) (mul_assoc _ _ _).symm
  exact (begins_one _).clear (isSymbol_apart (by decide)) hw rest

theorem setting_recognizes : Recognizes setting Phrase.setting never := by
  refine Recognizes.of_eq ((token_recognizes _ _).then fun _ => assignment_recognizes.bind
    (fun _ => symbol_map_recognizes ';' _) fun w hw rest _ => ?_) (mul_assoc _ _ _).symm
  refine (begins_one _).clear (fun t ht => ?_) hw rest
  simp [isLiteral, isSymbol, kind_of_isSymbol ht]

theorem importFile_recognizes : Recognizes importFile Phrase.importFile never := by
  have path (first : Token) (isPublic isWeak : Bool) : Recognizes (importBody first isPublic isWeak)
      (Phrase.literals * Phrase.symbol ';') never :=
    (literals_recognizes _).bind (fun _ => symbol_map_recognizes ';' _) fun w hw rest _ =>
      (begins_one _).clear (fun t ht => by simp [isLiteral, kind_of_isSymbol ht]) hw rest
  have begins : Begins (Phrase.literals * Phrase.symbol ';') isLiteral :=
    ((begins_one _).mul _).mul _
  have perhapsWeak : Begins (Phrase.maybe (Phrase.keyword "weak") *
      (Phrase.literals * Phrase.symbol ';')) fun t => isWord "weak" t || isLiteral t :=
    (begins_one _).maybe_mul begins
  refine Recognizes.of_eq ((token_recognizes _ _).then fun first => Recognizes.accept (path _ _ _)
    (.bind (acceptToken_recognizes _) (path _ _) fun w hw rest _ => ?_)
    fun h => absurd h perhapsWeak.nil_notMem) ?_
  · exact begins.clear (fun t ht => by simp_all [isLiteral, isWord]) hw rest
  · have apart : Phrase.avoiding (isWord "public") (Phrase.maybe (Phrase.one (isWord "weak")) *
        (Phrase.literals * Phrase.symbol ';')) = _ :=
      Phrase.avoiding_of_begins perhapsWeak fun t ht => by
        simp only [isLiteral, isWord, Bool.or_eq_true, Bool.and_eq_true, beq_iff_eq] at ht
        rcases ht with ⟨-, text⟩ | kind <;> simp [isWord, *]
    rw [apart]
    simp only [Phrase.importFile, Phrase.maybe, Phrase.keyword, mul_add, add_mul, one_mul,
      mul_assoc, add_left_comm]

end Grammar

end SchemaDepot
