import Mathlib.Data.Nat.Digits.Defs
import Mathlib.Tactic.IntervalCases
import SchemaDepot.Proofs.Generate.Sources

/-! # Which numbers an enum gets

A numeral denotes an integer: it is decimal, octal behind a zero, or hexadecimal behind a zero and
an x, and may have a minus in front. The values of an enum are written with the integers that their
numerals denote, if these tell them apart and have at most 63 binary digits.

* `Numeral.Denotes`: a numeral denotes an integer; `integer?_eq_some_iff`: which of these are read.
* `CodeItem.HasNumbers`, `CodeItem.HasNoNumbers`: an enum with numbers and one without.
* `hasNumbers_iff`, `generate_numbers`: which of them an enum becomes; `exists_beyond_word`: some
  numbers are not in the range of what represents them. -/

namespace SchemaDepot

/-! ### Numerals -/

namespace Numeral

/-- The character is a digit of a base, with a value. -/
def IsDigit (base : Nat) (c : Char) (v : Nat) : Prop :=
  v < base ∧ (c = Nat.digitChar v ∨ c = (Nat.digitChar v).toUpper)

instance (base : Nat) (c : Char) (v : Nat) : Decidable (IsDigit base c v) :=
  inferInstanceAs (Decidable (_ ∧ _))

/-- The digits, at least one, have a value in a base. -/
def HasValue (base : Nat) (digits : List Char) (n : Nat) : Prop :=
  digits ≠ [] ∧ ∃ values, List.Forall₂ (IsDigit base) digits values ∧
    n = Nat.ofDigits base values.reverse

/-- A numeral without a sign denotes a number. -/
inductive DenotesNatural : List Char → Nat → Prop where
  | decimal {digits n} : HasValue 10 digits n → (digits.head? = some '0' → digits = ['0']) →
    DenotesNatural digits n
  | octal {digits n} : HasValue 8 digits n → DenotesNatural ('0' :: digits) n
  | hexadecimal {mark digits n} : mark = 'x' ∨ mark = 'X' → HasValue 16 digits n →
    DenotesNatural ('0' :: mark :: digits) n

/-- A numeral denotes an integer. -/
inductive Denotes : String → Int → Prop where
  | plain {numeral n} : DenotesNatural numeral.toList n → Denotes numeral n
  | minus {numeral cs n} : numeral.toList = '-' :: cs → DenotesNatural cs n →
    Denotes numeral (-(n : Int))

/-- The characters with a value are in the lower half of ASCII. -/
theorem toNat_lt_of_hexValue? {c : Char} {v : Nat} (h : Text.hexValue? c = some v) :
    c.toNat < 103 := by
  unfold Text.hexValue? at h
  split_ifs at h with decimal small capital
  · rw [Char.isDigit, Bool.and_eq_true, decide_eq_true_eq, decide_eq_true_eq] at decimal
    exact Nat.lt_of_le_of_lt (show c.toNat ≤ 57 from decimal.2) (by decide)
  · rw [Bool.and_eq_true, decide_eq_true_eq, decide_eq_true_eq] at small
    exact Nat.lt_of_le_of_lt (show c.toNat ≤ 102 from small.2) (by decide)
  · rw [Bool.and_eq_true, decide_eq_true_eq, decide_eq_true_eq] at capital
    exact Nat.lt_of_le_of_lt (show c.toNat ≤ 70 from capital.2) (by decide)

theorem hexValue?_eq_some {c : Char} {v : Nat} : Text.hexValue? c = some v ↔ IsDigit 16 c v := by
  constructor
  · intro h
    have each : ∀ n < 103, ∀ v ∈ Text.hexValue? (Char.ofNat n), IsDigit 16 (Char.ofNat n) v := by
      decide
    have found := each c.toNat (toNat_lt_of_hexValue? h)
    rw [Char.ofNat_toNat] at found
    exact found v h
  · rintro ⟨below, rfl | rfl⟩ <;> interval_cases v <;> rfl

section Rows
variable {α β : Type} {xs : List α} {ys : List β}

theorem mapM_eq_some_iff {f : α → Option β} :
    xs.mapM f = some ys ↔ List.Forall₂ (fun x y => f x = some y) xs ys := by
  induction xs generalizing ys with
  | nil => simp [eq_comm]
  | cons x xs ih =>
    rw [List.mapM_cons, List.forall₂_cons_left_iff]
    simp only [Option.bind_eq_bind, Option.bind_eq_some_iff, ih, Option.pure_def, Option.some.injEq]
    constructor
    · rintro ⟨y, hy, ys, each, rfl⟩
      exact ⟨y, ys, hy, each, rfl⟩
    · rintro ⟨y, ys, hy, each, rfl⟩
      exact ⟨y, hy, ys, each, rfl⟩

theorem forall₂_and_right {R : α → β → Prop} {p : β → Prop} :
    List.Forall₂ (fun x y => R x y ∧ p y) xs ys ↔ List.Forall₂ R xs ys ∧ ∀ y ∈ ys, p y := by
  constructor
  · intro each
    induction each with
    | nil => exact ⟨.nil, nofun⟩
    | cons first _ ih => exact ⟨.cons first.1 ih.1, List.forall_mem_cons.2 ⟨first.2, ih.2⟩⟩
  · rintro ⟨each, all⟩
    induction each with
    | nil => exact .nil
    | cons first _ ih =>
      rw [List.forall_mem_cons] at all
      exact .cons ⟨first, all.1⟩ (ih all.2)

end Rows

section Digits
variable {base : Nat} {digits : List Char} {n : Nat}

theorem foldl_eq_ofDigits (values : List Nat) :
    values.foldl (fun n d => n * base + d) 0 = Nat.ofDigits base values.reverse := by
  rw [Nat.ofDigits_eq_foldr, List.foldr_reverse]
  refine congrArg (fun f => values.foldl f 0) (funext fun n => funext fun d => ?_)
  rw [Nat.mul_comm, Nat.add_comm]
  rfl

theorem isDigit_eq (small : base ≤ 16) :
    IsDigit base = fun c v => Text.hexValue? c = some v ∧ v < base := by
  funext c v
  rw [hexValue?_eq_some]
  exact propext ⟨fun ⟨below, written⟩ => ⟨⟨by omega, written⟩, below⟩,
    fun ⟨⟨_, written⟩, below⟩ => ⟨below, written⟩⟩

theorem hexNumber?_eq_some (small : base ≤ 16) : Text.hexNumber? base digits = some n ↔
    ∃ values, List.Forall₂ (IsDigit base) digits values ∧ n = Nat.ofDigits base values.reverse := by
  rw [isDigit_eq small]
  simp only [Text.hexNumber?, Option.bind_eq_bind, Option.bind_eq_some_iff, forall₂_and_right,
    mapM_eq_some_iff, and_assoc]
  refine exists_congr fun values => and_congr_right fun _ => ?_
  rw [Option.ite_none_right_eq_some, Option.some.injEq, foldl_eq_ofDigits, eq_comm (a := n)]
  simp only [List.all_eq_true, decide_eq_true_eq]

/-- The number that is read from digits is their value, if it is not too big. -/
theorem ofDigits?_eq_some (small : base ≤ 16) :
    Code.ofDigits? base digits = some n ↔ HasValue base digits n ∧ n < 2 ^ 63 := by
  simp only [Code.ofDigits?, Option.bind_eq_bind, Option.bind_eq_some_iff]
  constructor
  · rintro ⟨value, read, h⟩
    split_ifs at h with refused
    cases h
    rw [Bool.or_eq_true, List.isEmpty_iff, decide_eq_true_eq, not_or, not_le] at refused
    exact ⟨⟨refused.1, (hexNumber?_eq_some small).1 read⟩, refused.2⟩
  · rintro ⟨⟨some, value⟩, below⟩
    refine ⟨n, (hexNumber?_eq_some small).2 value, if_neg ?_⟩
    rw [Bool.or_eq_true, List.isEmpty_iff, decide_eq_true_eq, not_or, not_le]
    exact ⟨some, below⟩

theorem HasValue.head {c : Char} {cs : List Char} (h : HasValue base (c :: cs) n) :
    ∃ v, IsDigit base c v := by
  obtain ⟨-, values, each, -⟩ := h
  cases each with
  | cons first _ => exact ⟨_, first⟩

end Digits

/-- The number that is read from a numeral without a sign is denoted by it. -/
theorem natural?_eq_some {cs : List Char} {n : Nat} :
    Code.natural? cs = some n ↔ DenotesNatural cs n ∧ n < 2 ^ 63 := by
  have mark : ∀ v, ¬ IsDigit 8 'x' v ∧ ¬ IsDigit 8 'X' v := by
    rintro v
    constructor <;> rintro ⟨below, h⟩ <;> interval_cases v <;> revert h <;> decide
  unfold Code.natural?
  split
  · next digits =>
    rw [ofDigits?_eq_some (by decide)]
    refine and_congr_left fun _ => ⟨.hexadecimal (.inl rfl), fun h => ?_⟩
    cases h with
    | decimal _ only => cases only rfl
    | octal h => exact absurd h.head.choose_spec (mark _).1
    | hexadecimal _ h => exact h
  · next digits =>
    rw [ofDigits?_eq_some (by decide)]
    refine and_congr_left fun _ => ⟨.hexadecimal (.inr rfl), fun h => ?_⟩
    cases h with
    | decimal _ only => cases only rfl
    | octal h => exact absurd h.head.choose_spec (mark _).2
    | hexadecimal _ h => exact h
  · next d digits small capital =>
    rw [ofDigits?_eq_some (by decide)]
    refine and_congr_left fun _ => ⟨.octal, fun h => ?_⟩
    cases h with
    | decimal _ only => cases only rfl
    | octal h => exact h
    | hexadecimal isMark h =>
      rcases isMark with rfl | rfl
      · exact (small rfl).elim
      · exact (capital rfl).elim
  · next small capital octal =>
    rw [ofDigits?_eq_some (by decide)]
    refine and_congr_left fun _ => ⟨fun h => .decimal h fun zero => ?_, fun h => ?_⟩
    · obtain ⟨rest, rfl⟩ := List.head?_eq_some_iff.1 zero
      cases rest with
      | nil => rfl
      | cons d digits => exact absurd rfl (octal d digits)
    · cases h with
      | decimal h _ => exact h
      | octal h =>
        obtain ⟨d, digits, rfl⟩ := List.exists_cons_of_ne_nil h.1
        exact (octal d digits rfl).elim
      | hexadecimal _ _ => exact (octal _ _ rfl).elim

/-- **The integer that is read from a numeral is denoted by it**, and all are read that have at most
63 binary digits. -/
theorem integer?_eq_some_iff {numeral : String} {z : Int} :
    Code.integer? numeral = some z ↔ Denotes numeral z ∧ z.natAbs < 2 ^ 63 := by
  have sign : ∀ {cs n}, ¬ DenotesNatural ('-' :: cs) n := by
    intro cs n h
    cases h with
    | decimal h _ =>
      obtain ⟨v, below, h⟩ := h.head
      interval_cases v <;> revert h <;> decide
  unfold Code.integer?
  split
  · next cs hcs =>
    simp only [Option.map_eq_some_iff, Option.bind_eq_bind, Option.bind_eq_some_iff,
      natural?_eq_some, Option.pure_def, Option.some.injEq]
    constructor
    · rintro ⟨_, ⟨n, ⟨natural, below⟩, rfl⟩, rfl⟩
      exact ⟨.minus hcs natural, by rwa [Int.natAbs_neg, Int.natAbs_natCast]⟩
    · rintro ⟨denoted, below⟩
      cases denoted with
      | plain natural => exact absurd (hcs ▸ natural) sign
      | minus hcs' natural =>
        obtain rfl := (List.cons.inj (hcs.symm.trans hcs')).2
        rw [Int.natAbs_neg, Int.natAbs_natCast] at below
        exact ⟨_, ⟨_, ⟨natural, below⟩, rfl⟩, rfl⟩
  · next unsigned =>
    simp only [Option.map_eq_some_iff, Option.bind_eq_bind, Option.bind_eq_some_iff,
      natural?_eq_some, Option.pure_def, Option.some.injEq]
    constructor
    · rintro ⟨_, ⟨n, ⟨natural, below⟩, rfl⟩, rfl⟩
      exact ⟨.plain natural, by rwa [Int.natAbs_natCast]⟩
    · rintro ⟨denoted, below⟩
      cases denoted with
      | plain natural =>
        rw [Int.natAbs_natCast] at below
        exact ⟨_, ⟨_, ⟨natural, below⟩, rfl⟩, rfl⟩
      | minus hcs _ => exact absurd hcs (unsigned _)

end Numeral

/-! ### Numbers of values -/

namespace CodeItem

/-- The item is an enum that is represented by its numbers, and these are given. -/
def HasNumbers (x : CodeItem) (zs : List Int) : Prop :=
  ∃ docs derives name variants, x = .enumeration docs derives true name variants ∧
    variants.map CodeVariant.number = zs.map some

/-- The item is an enum without numbers. -/
def HasNoNumbers (x : CodeItem) : Prop :=
  ∃ docs derives name variants, x = .enumeration docs derives false name variants ∧
    ∀ v ∈ variants, v.number = none

end CodeItem

namespace Code

open Numeral (forall₂_and_right integer?_eq_some_iff)

theorem areDistinct_map_some (zs : List Int) : areDistinct (zs.map some) = true ↔ zs.Nodup := by
  induction zs with
  | nil => exact ⟨fun _ => .nil, fun _ => rfl⟩
  | cons z zs ih =>
    rw [List.map_cons, areDistinct, Bool.and_eq_true, ih, List.nodup_cons]
    simp

/-- Numbers that are distinct are all there. -/
theorem exists_of_areDistinct {numbers : List (Option Int)} (h : areDistinct numbers = true) :
    ∃ zs : List Int, numbers = zs.map some := by
  induction numbers with
  | nil => exact ⟨[], rfl⟩
  | cons number numbers ih =>
    cases number with
    | none => cases h
    | some z =>
      rw [areDistinct, Bool.and_eq_true] at h
      obtain ⟨zs, rfl⟩ := ih h.2
      exact ⟨z :: zs, rfl⟩

/-- The numerals of the values of an enum. -/
def Source.numerals (s : Source) : List String :=
  s.members.filterMap fun n =>
    match n.content with
    | .enumValue v => some v.number
    | _ => none

theorem map_snd_enumNumbers (s : Source) :
    (enumNumbers s.members).map Prod.snd = s.numerals.map integer? := by
  rw [enumNumbers, Source.numerals, List.map_filterMap, List.map_filterMap]
  refine congrArg (List.filterMap · s.members) (funext fun n => ?_)
  cases n.content <;> rfl

section Enumeration
variable {s : Source} (h : s.kind = .enumeration) (symbols : Symbols)
include h

/-- An enum is written with all numbers or with none. -/
theorem exists_item_enumeration :
    let numbered := areDistinct (s.numerals.map integer?)
    ∃ docs derives variants,
      s.item symbols = .enumeration docs derives numbered s.codeName variants ∧
      variants.map CodeVariant.number =
        s.numerals.map fun numeral => if numbered then integer? numeral else none := by
  intro numbered
  have same : numbered = areDistinct ((enumNumbers s.members).map Prod.snd) := by
    rw [map_snd_enumNumbers]
  have item : s.item symbols = enumItem s.codeName s.comments s.directives s.members := by
    rw [Source.item, h]
  rw [item, enumItem, ← same]
  refine ⟨_, _, _, rfl, ?_⟩
  have read := congrArg (List.map fun number => if numbered then number else none)
    (map_snd_enumNumbers s)
  rw [List.map_map, List.map_map] at read
  rw [List.map_map]
  exact read

/-- The numbers of an enum are those that are read, if they are distinct. -/
theorem hasNumbers_iff_read (zs : List Int) : (s.item symbols).HasNumbers zs ↔
    s.numerals.map integer? = zs.map some ∧ zs.Nodup := by
  obtain ⟨docs, derives, variants, item, numbers⟩ := exists_item_enumeration h symbols
  rw [item]
  constructor
  · rintro ⟨_, _, _, _, same, given⟩
    injection same with _ _ numbered _ same
    simp only [numbered, if_true, same, given] at numbers
    rw [← numbers, areDistinct_map_some] at numbered
    exact ⟨numbers.symm, numbered⟩
  · rintro ⟨read, distinct⟩
    have numbered : areDistinct (s.numerals.map integer?) = true := by
      rw [read, areDistinct_map_some]
      exact distinct
    simp only [numbered, if_true] at numbers ⊢
    exact ⟨_, _, _, _, rfl, numbers.trans read⟩

/-- An enum with no numbers has none that could be given. -/
theorem hasNoNumbers_iff :
    (s.item symbols).HasNoNumbers ↔ ¬ ∃ zs, (s.item symbols).HasNumbers zs := by
  simp only [hasNumbers_iff_read h symbols]
  obtain ⟨docs, derives, variants, item, numbers⟩ := exists_item_enumeration h symbols
  rw [item]
  constructor
  · rintro ⟨_, _, _, _, same, _⟩ ⟨zs, read, distinct⟩
    injection same with _ _ numbered _ _
    rw [read, (areDistinct_map_some zs).2 distinct] at numbered
    cases numbered
  · intro none
    have unnumbered : areDistinct (s.numerals.map integer?) = false := by
      by_contra numbered
      rw [Bool.not_eq_false] at numbered
      obtain ⟨zs, read⟩ := exists_of_areDistinct numbered
      exact none ⟨zs, read, by rwa [read, areDistinct_map_some] at numbered⟩
    rw [unnumbered] at numbers ⊢
    refine ⟨_, _, _, _, rfl, fun v hv => ?_⟩
    have written : v.number ∈ variants.map CodeVariant.number := List.mem_map_of_mem hv
    rw [numbers] at written
    obtain ⟨_, -, written⟩ := List.mem_map.1 written
    exact written.symm

/-- **The numbers of an enum are the integers that its numerals denote**, if these are distinct and
have at most 63 binary digits. -/
theorem hasNumbers_iff (zs : List Int) : (s.item symbols).HasNumbers zs ↔
    List.Forall₂ Numeral.Denotes s.numerals zs ∧ (∀ z ∈ zs, z.natAbs < 2 ^ 63) ∧ zs.Nodup := by
  rw [hasNumbers_iff_read h symbols, ← List.forall₂_eq_eq_eq, List.forall₂_map_left_iff,
    List.forall₂_map_right_iff, ← and_assoc, ← forall₂_and_right]
  simp only [integer?_eq_some_iff]

/-- The values of an enum, at least one, have distinct numbers that are words of 32 bits. -/
structure Source.IsRepresentable (s : Source) (zs : List Int) : Prop where
  values : s.numerals ≠ []
  denoted : List.Forall₂ Numeral.Denotes s.numerals zs
  word : ∀ z ∈ zs, -2 ^ 31 ≤ z ∧ z < 2 ^ 31
  distinct : zs.Nodup

/-- What can be represented is written. -/
theorem isRepresentable_iff (zs : List Int) : s.IsRepresentable zs ↔
    (s.item symbols).HasNumbers zs ∧ s.numerals ≠ [] ∧ ∀ z ∈ zs, -2 ^ 31 ≤ z ∧ z < 2 ^ 31 := by
  rw [hasNumbers_iff h]
  constructor
  · rintro ⟨values, denoted, word, distinct⟩
    refine ⟨⟨denoted, fun z hz => ?_, distinct⟩, values, word⟩
    have := word z hz
    omega
  · rintro ⟨⟨denoted, -, distinct⟩, values, word⟩
    exact ⟨values, denoted, word, distinct⟩

end Enumeration

section Files
variable {m : Marker} {input : GeneratorInput} {own dependencies : List ParsedFile}

/-- **An enum has numbers just if its numerals denote distinct integers of at most 63 binary
digits**, and then has these; what can be represented is among them. -/
theorem generate_numbers (hown : parseFiles m input.files = .ok own)
    (hdependencies : parseFiles m input.dependencyFiles = .ok dependencies) :
    let symbols := symbolsOf (own ++ dependencies)
    ∃ out, generate m input = .ok out ∧
      out.files.map TextFile.content = own.map (fileText symbols input.includeServices) ∧
      ∀ parsed ∈ own,
        let sources := sourcesOfFile input.includeServices parsed
        itemsOfFile symbols input.includeServices parsed = sources.map (Source.item symbols) ∧
        ∀ s ∈ sources, s.kind = .enumeration →
          (∀ zs, (s.item symbols).HasNumbers zs ↔ List.Forall₂ Numeral.Denotes s.numerals zs ∧
            (∀ z ∈ zs, z.natAbs < 2 ^ 63) ∧ zs.Nodup) ∧
          ((s.item symbols).HasNoNumbers ↔ ¬ ∃ zs, (s.item symbols).HasNumbers zs) ∧
          ∀ zs, s.IsRepresentable zs ↔ (s.item symbols).HasNumbers zs ∧ s.numerals ≠ [] ∧
            ∀ z ∈ zs, -2 ^ 31 ≤ z ∧ z < 2 ^ 31 := by
  intro symbols
  obtain ⟨out, hout, texts⟩ := exists_generate_texts hown hdependencies
  refine ⟨out, hout, texts, fun parsed _ => ⟨itemsOfFile_eq symbols _ parsed, fun s _ h => ?_⟩⟩
  exact ⟨hasNumbers_iff h symbols, hasNoNumbers_iff h symbols, isRepresentable_iff h symbols⟩

/-- An enum with numerals of each kind. -/
def radixText : String := "enum E { A = -0; B = 0x1F; C = 010; }\n"

/-- A request to generate code for it. -/
def radixInput : GeneratorInput := { files := [⟨"e.proto", radixText⟩] }

/-- Numerals of all kinds are read. -/
theorem hasNumbers_radix : ∃ own out, parseFiles {} radixInput.files = .ok own ∧
    parseFiles {} radixInput.dependencyFiles = .ok [] ∧ generate {} radixInput = .ok out ∧
    out.files.map TextFile.content = own.map (fileText (symbolsOf (own ++ [])) false) ∧
    ∃ parsed ∈ own, ∃ s ∈ sourcesOfFile false parsed, s.kind = .enumeration ∧
      s.numerals = ["-0", "0x1F", "010"] ∧
      s.item (symbolsOf (own ++ [])) ∈ itemsOfFile (symbolsOf (own ++ [])) false parsed ∧
      (s.item (symbolsOf (own ++ []))).HasNumbers [0, 31, 8] := by
  obtain ⟨own, hown, parsed, hparsed, s, hs, kind, numerals⟩ : ∃ own,
      parseFiles {} radixInput.files = .ok own ∧
      ∃ parsed ∈ own, ∃ s ∈ sourcesOfFile false parsed, s.kind = .enumeration ∧
        s.numerals = ["-0", "0x1F", "010"] :=
    exists_parsed_of_decide (by decide +kernel)
  have hnone : parseFiles {} radixInput.dependencyFiles = .ok [] := rfl
  obtain ⟨out, hout, texts, each⟩ := generate_numbers hown hnone
  obtain ⟨items, numbers⟩ := each parsed hparsed
  refine ⟨own, out, hown, hnone, hout, texts, parsed, hparsed, s, hs, kind, numerals, ?_, ?_⟩
  · exact (show itemsOfFile (symbolsOf (own ++ [])) false parsed = _ from items) ▸
      List.mem_map_of_mem hs
  · have read : ∀ {numeral z}, integer? numeral = some z → Numeral.Denotes numeral z := fun h =>
      (integer?_eq_some_iff.1 h).1
    refine ((numbers s hs kind).1 [0, 31, 8]).2 ⟨?_, by decide, by decide⟩
    rw [numerals]
    exact .cons (read rfl) (.cons (read rfl) (.cons (read rfl) .nil))

/-- An enum with a number that takes one binary digit too many. -/
def wideText : String := "enum E { A = 2147483648; }\n"

/-- A request to generate code for it. -/
def wideInput : GeneratorInput := { files := [⟨"e.proto", wideText⟩] }

/-- **Some enums are to be represented by words that their numbers do not fit in.** -/
theorem exists_beyond_word : ¬ ∀ (m : Marker) (input : GeneratorInput)
    (own dependencies : List ParsedFile), parseFiles m input.files = .ok own →
    parseFiles m input.dependencyFiles = .ok dependencies → ∀ parsed ∈ own,
      ∀ s ∈ sourcesOfFile input.includeServices parsed, s.kind = .enumeration →
        (∀ zs, (s.item (symbolsOf (own ++ dependencies))).HasNumbers zs ↔
          s.IsRepresentable zs) ∧
        ((s.item (symbolsOf (own ++ dependencies))).HasNoNumbers ↔
          ¬ ∃ zs, s.IsRepresentable zs) := by
  intro claim
  obtain ⟨own, hown, parsed, hparsed, s, hs, kind, numerals⟩ : ∃ own,
      parseFiles {} wideInput.files = .ok own ∧
      ∃ parsed ∈ own, ∃ s ∈ sourcesOfFile false parsed, s.kind = .enumeration ∧
        s.numerals = ["2147483648"] :=
    exists_parsed_of_decide (by decide +kernel)
  have written : (s.item (symbolsOf (own ++ []))).HasNumbers [2147483648] := by
    rw [hasNumbers_iff_read kind, numerals]
    exact ⟨rfl, by decide⟩
  have fits := ((claim {} wideInput own [] hown rfl parsed hparsed s hs kind).1 _).1 written
  exact absurd (fits.word 2147483648 (List.mem_singleton_self _)).2 (by decide)

end Files

end Code

end SchemaDepot
