import Mathlib.Algebra.Ring.Nat
import Mathlib.Data.List.TakeWhile
import SchemaDepot.Version.Key

/-! # Versions are in a linear order

Keys of versions are compared part by part. Each part is in a linear order, so the keys are, and
semantic versions stand in it by their precedence.

* `Semver.compareDigits_eq_lt`: numerals without leading zeros are in the order of their numbers.
* `Semver.Precedes`: the precedence of semantic versions; `compare_eq_lt_iff`: which of two comes
  first is decided by precedence, and by the builds where that decides nothing.
* `VersionKey.compare`: instances say that keys are in a linear order. -/

namespace SchemaDepot

open Std

/-! ### Orders made of orders -/

/-- Things are in order if what is read off them is. -/
theorem transCmp_on {α β : Type} (compareItems : β → β → Ordering) [TransCmp compareItems]
    (f : α → β) : TransCmp fun a b => compareItems (f a) (f b) where
  eq_swap {a b} := @OrientedCmp.eq_swap _ compareItems _ (f a) (f b)
  isLE_trans {a b c} := @TransCmp.isLE_trans _ compareItems _ (f a) (f b) (f c)

namespace Semver

/-! ### Rows -/

section Rows
variable {compareItems : String → String → Ordering}

theorem compareRows_eq : compareRows compareItems = List.compareLex compareItems := by
  funext as bs
  induction as generalizing bs with
  | nil => cases bs <;> rfl
  | cons a as ih =>
    cases bs with
    | nil => rfl
    | cons b bs => rw [compareRows, List.compareLex_cons_cons, ih]

instance [TransCmp compareItems] : TransCmp (compareRows compareItems) :=
  compareRows_eq ▸ inferInstance

instance [LawfulEqCmp compareItems] : LawfulEqCmp (compareRows compareItems) :=
  compareRows_eq ▸ inferInstance

/-- A row comes first by the first items that differ, or if the other one continues it. -/
theorem compareRows_eq_lt [LawfulEqCmp compareItems] {first : String → String → Prop}
    {as bs : List String}
    (h : ∀ a ∈ as, ∀ b ∈ bs, compareItems a b = .lt ↔ first a b) :
    compareRows compareItems as bs = .lt ↔ List.Lex first as bs := by
  induction as generalizing bs with
  | nil => cases bs <;> simp [compareRows]
  | cons a as ih =>
    cases bs with
    | nil => simp [compareRows]
    | cons b bs =>
      have items := h a List.mem_cons_self b List.mem_cons_self
      have rest := ih fun x hx y hy => h x (List.mem_cons_of_mem a hx) y (List.mem_cons_of_mem b hy)
      rw [compareRows, Ordering.then_eq_lt, items, rest, LawfulEqCmp.compare_eq_iff_eq,
        List.cons_lex_cons_iff]

end Rows

/-! ### Identifiers -/

section Identifiers
variable {compareNumeric : String → String → Ordering}

instance [TransCmp compareNumeric] : TransCmp (compareIdentifiers compareNumeric) where
  eq_swap {a b} := by
    cases ha : isNumeric a <;> cases hb : isNumeric b <;> simp only [compareIdentifiers, ha, hb]
    · exact OrientedOrd.eq_swap
    · rfl
    · rfl
    · exact OrientedCmp.eq_swap
  isLE_trans {a b c} hab hbc := by
    cases ha : isNumeric a <;> cases hb : isNumeric b <;> cases hc : isNumeric c <;>
      simp only [compareIdentifiers, ha, hb, hc] at hab hbc ⊢
    case false.false.false => exact TransOrd.isLE_trans hab hbc
    case true.true.true => exact TransCmp.isLE_trans hab hbc
    all_goals first | rfl | contradiction

instance [LawfulEqCmp compareNumeric] : LawfulEqCmp (compareIdentifiers compareNumeric) where
  compare_self {a} := by
    cases ha : isNumeric a <;> simp only [compareIdentifiers, ha]
    · exact ReflOrd.compare_self
    · exact ReflCmp.compare_self
  eq_of_compare {a b} h := by
    cases ha : isNumeric a <;> cases hb : isNumeric b <;>
      simp only [compareIdentifiers, ha, hb] at h
    · exact LawfulEqOrd.eq_of_compare h
    · cases h
    · cases h
    · exact LawfulEqCmp.eq_of_compare h

end Identifiers

instance : TransCmp compareDigits :=
  inferInstanceAs (TransCmp (compareLex (compareOn String.length) Ord.compare))

instance : LawfulEqCmp compareDigits where
  compare_self := by simp [compareDigits]
  eq_of_compare h := by
    rw [compareDigits, Ordering.then_eq_eq] at h
    exact LawfulEqOrd.eq_of_compare h.2

/-- A numeral is its leading zeros and what is behind them. -/
theorem toList_eq_significant (s : String) : s.toList =
    List.replicate (s.length - (significant s).length) '0' ++ (significant s).toList := by
  have parts := List.takeWhile_append_dropWhile (p := (· == '0')) (l := s.toList)
  have zeros : s.toList.takeWhile (· == '0') =
      List.replicate (s.toList.takeWhile (· == '0')).length '0' :=
    List.eq_replicate_iff.2 ⟨rfl, fun c hc =>
      beq_iff_eq.1 (@List.mem_takeWhile_imp _ (· == '0') _ c hc)⟩
  have rest : (significant s).toList = s.toList.dropWhile (· == '0') := String.toList_ofList
  have count : (s.toList.takeWhile (· == '0')).length = s.length - (significant s).length := by
    have := congrArg List.length parts
    rw [List.length_append] at this
    rw [← String.length_toList, ← String.length_toList, rest]
    omega
  rw [rest, ← count, ← zeros]
  exact parts.symm

instance : TransCmp comparePadded :=
  haveI := transCmp_on compareDigits significant
  inferInstanceAs (TransCmp (compareLex
    (fun a b => compareDigits (significant a) (significant b)) (compareOn String.length)))

instance : LawfulEqCmp comparePadded where
  compare_self := by simp [comparePadded, ReflCmp.compare_self]
  eq_of_compare {a b} h := by
    rw [comparePadded, Ordering.then_eq_eq] at h
    have same : significant a = significant b := LawfulEqCmp.eq_of_compare h.1
    have length : a.length = b.length := LawfulEqOrd.eq_of_compare h.2
    refine String.toList_injective ?_
    rw [toList_eq_significant a, toList_eq_significant b, same, length]

/-! ### Prereleases and versions -/

instance : TransCmp comparePre where
  eq_swap {as bs} := by
    cases as <;> cases bs
    case cons.cons => exact @OrientedCmp.eq_swap _ (compareRows _) _ _ _
    all_goals rfl
  isLE_trans {as bs cs} hab hbc := by
    cases as <;> cases bs <;> cases cs
    case cons.cons.cons => exact @TransCmp.isLE_trans _ (compareRows _) _ _ _ _ hab hbc
    all_goals first | rfl | contradiction

instance : LawfulEqCmp comparePre where
  compare_self {as} := by
    cases as with
    | nil => rfl
    | cons => exact @ReflCmp.compare_self _ (compareRows _) _ _
  eq_of_compare {as bs} h := by
    cases as <;> cases bs
    case nil.nil => rfl
    case cons.cons => exact @LawfulEqCmp.eq_of_compare _ (compareRows _) _ _ _ h
    all_goals cases h

instance : TransCmp Semver.compare :=
  haveI := transCmp_on comparePre Semver.pre
  haveI := transCmp_on (compareRows (compareIdentifiers comparePadded)) Semver.build
  inferInstanceAs <| TransCmp <| compareLex (compareOn Semver.major) <|
    compareLex (compareOn Semver.minor) <| compareLex (compareOn Semver.patch) <|
    compareLex (fun a b => comparePre a.pre b.pre)
      fun a b => compareRows (compareIdentifiers comparePadded) a.build b.build

theorem compare_eq_eq {a b : Semver} : a.compare b = .eq ↔ a = b := by
  obtain ⟨major, minor, patch, pre, build⟩ := a
  obtain ⟨major', minor', patch', pre', build'⟩ := b
  simp only [Semver.compare, Ordering.then_eq_eq, LawfulEqCmp.compare_eq_iff_eq, Semver.mk.injEq]

instance : LawfulEqCmp Semver.compare where
  compare_self := compare_eq_eq.2 rfl
  eq_of_compare := compare_eq_eq.1

/-! ### Numerals -/

/-- The number that digits denote. -/
def numeral (s : String) : Nat := Nat.ofDigitChars 10 s.toList 0

section Digits
variable {cs ds : List Char} {d : Char} {n : Nat}

theorem digit_lt (h : d.isDigit = true) : d.toNat - '0'.toNat < 10 := by
  rw [Char.isDigit_iff_toNat] at h
  have : '9'.toNat - '0'.toNat < 10 := by decide
  omega

theorem mul_add_lt_iff {p a b x y : Nat} (hx : x < p) (hy : y < p) :
    p * a + x < p * b + y ↔ a < b ∨ a = b ∧ x < y := by
  rcases Nat.lt_trichotomy a b with less | rfl | more
  · have := Nat.mul_le_mul_left p less
    rw [Nat.mul_succ] at this
    omega
  · omega
  · have := Nat.mul_le_mul_left p more
    rw [Nat.mul_succ] at this
    omega

theorem ofDigitChars_cons_eq (d : Char) (ds : List Char) : Nat.ofDigitChars 10 (d :: ds) 0 =
    10 ^ ds.length * (d.toNat - '0'.toNat) + Nat.ofDigitChars 10 ds 0 := by
  rw [Nat.ofDigitChars_cons, Nat.ofDigitChars_eq_ofDigitChars_zero, Nat.mul_zero, Nat.zero_add]

theorem ofDigitChars_lt (h : ∀ d ∈ ds, d.isDigit = true) :
    Nat.ofDigitChars 10 ds 0 < 10 ^ ds.length := by
  induction ds with
  | nil => exact show 0 < 10 ^ 0 by decide
  | cons d ds ih =>
    obtain ⟨hd, hds⟩ := List.forall_mem_cons.1 h
    have rest := ih hds
    have first := Nat.mul_le_mul_left (10 ^ ds.length) (Nat.succ_le_of_lt (digit_lt hd))
    rw [ofDigitChars_cons_eq, List.length_cons, Nat.pow_succ]
    rw [Nat.mul_succ] at first
    omega

/-- Numerals of one length are in the order of their characters. -/
theorem ofDigitChars_lt_iff (length : cs.length = ds.length)
    (hc : ∀ c ∈ cs, c.isDigit = true) (hd : ∀ d ∈ ds, d.isDigit = true) :
    Nat.ofDigitChars 10 cs 0 < Nat.ofDigitChars 10 ds 0 ↔ cs < ds := by
  induction cs generalizing ds with
  | nil =>
    rw [List.length_eq_zero_iff.1 length.symm]
    simp
  | cons c cs ih =>
    cases ds with
    | nil => cases length
    | cons d ds =>
      have same : cs.length = ds.length := Nat.succ.inj length
      obtain ⟨hc, hcs⟩ := List.forall_mem_cons.1 hc
      obtain ⟨hd, hds⟩ := List.forall_mem_cons.1 hd
      rw [Char.isDigit_iff_toNat] at hc hd
      have order : c < d ↔ c.toNat - '0'.toNat < d.toNat - '0'.toNat := by
        exact (Nat.sub_lt_sub_iff_right hc.1).symm
      have equal : c = d ↔ c.toNat - '0'.toNat = d.toNat - '0'.toNat := by
        have cancel {k m n : Nat} : k ≤ m → k ≤ n → (m = n ↔ m - k = n - k) := by omega
        exact Char.toNat_inj.symm.trans (cancel hc.1 hd.1)
      rw [ofDigitChars_cons_eq, ofDigitChars_cons_eq, same,
        mul_add_lt_iff (same ▸ ofDigitChars_lt hcs) (ofDigitChars_lt hds), ih same hcs hds,
        ← order, ← equal, List.cons_lt_cons_iff]

/-- A longer numeral is greater if it does not start with a zero. -/
theorem ofDigitChars_lt_of_length_lt (length : cs.length < ds.length)
    (hc : ∀ c ∈ cs, c.isDigit = true) (hd : ∀ d ∈ ds, d.isDigit = true)
    (first : ds.head? ≠ some '0') : Nat.ofDigitChars 10 cs 0 < Nat.ofDigitChars 10 ds 0 := by
  cases ds with
  | nil => cases length
  | cons d ds =>
    have nonzero : 1 ≤ d.toNat - '0'.toNat := by
      have ne : d.toNat ≠ '0'.toNat := fun same => first (congrArg some (Char.toNat_inj.1 same))
      have := (Char.isDigit_iff_toNat.1 (hd d List.mem_cons_self)).1
      omega
    have high := Nat.mul_le_mul_left (10 ^ ds.length) nonzero
    have wide : 10 ^ cs.length ≤ 10 ^ ds.length :=
      Nat.pow_le_pow_right (by decide) (Nat.le_of_lt_succ length)
    have below := ofDigitChars_lt hc
    rw [ofDigitChars_cons_eq]
    omega

end Digits

/-- A numeral that is not empty and has no leading zero. -/
structure IsPlainNumeral (ds : List Char) : Prop where
  digits : ∀ d ∈ ds, d.isDigit = true
  nonempty : ds ≠ []
  first : ds.head? = some '0' → ds.length = 1

theorem IsPlainNumeral.head?_ne {cs ds : List Char} (hc : IsPlainNumeral cs)
    (hd : IsPlainNumeral ds) (length : cs.length < ds.length) : ds.head? ≠ some '0' := by
  intro zero
  have one := hd.first zero
  have := List.length_pos_iff.2 hc.nonempty
  omega

/-- **Numerals without leading zeros are in the order of their numbers.** -/
theorem compareDigits_eq_lt {a b : String} (ha : IsPlainNumeral a.toList)
    (hb : IsPlainNumeral b.toList) : compareDigits a b = .lt ↔ numeral a < numeral b := by
  have texts : Ord.compare a b = .lt ↔ a.toList < b.toList :=
    compareOfLessAndEq_eq_lt.trans String.lt_iff
  rw [compareDigits, Ordering.then_eq_lt, Nat.compare_eq_lt, Nat.compare_eq_eq, texts,
    ← String.length_toList, ← String.length_toList, numeral, numeral]
  rcases Nat.lt_trichotomy a.toList.length b.toList.length with less | same | more
  · have := ofDigitChars_lt_of_length_lt less ha.digits hb.digits (ha.head?_ne hb less)
    simp [less, this]
  · simp [same, ofDigitChars_lt_iff same ha.digits hb.digits]
  · have := ofDigitChars_lt_of_length_lt more hb.digits ha.digits (hb.head?_ne ha more)
    simp only [Nat.not_lt.2 more.le, more.ne', false_and, or_self, false_iff]
    omega

/-- A number has one numeral without leading zeros. -/
theorem IsPlainNumeral.eq {a b : String} (ha : IsPlainNumeral a.toList)
    (hb : IsPlainNumeral b.toList) (same : numeral a = numeral b) : a = b := by
  have notLess : compareDigits a b ≠ .lt := fun less =>
    absurd same ((compareDigits_eq_lt ha hb).1 less).ne
  have notMore : compareDigits b a ≠ .lt := fun less =>
    absurd same ((compareDigits_eq_lt hb ha).1 less).ne'
  rw [@OrientedCmp.eq_swap _ compareDigits _ _ _] at notMore
  refine @LawfulEqCmp.eq_of_compare _ compareDigits _ _ _ ?_
  cases h : compareDigits a b <;> simp_all

/-! ### Precedence -/

/-- **An identifier of a prerelease precedes another**: numbers by value, and before words, which
are in the order of their characters. -/
inductive IdentifierPrecedes (a b : String) : Prop where
  | numbers : isNumeric a = true → isNumeric b = true → numeral a < numeral b →
    IdentifierPrecedes a b
  | number : isNumeric a = true → isNumeric b = false → IdentifierPrecedes a b
  | words : isNumeric a = false → isNumeric b = false → a < b → IdentifierPrecedes a b

/-- **A prerelease precedes another** by the first identifiers that differ, or if the other one
continues it; it precedes the release, which has no identifiers. -/
inductive PrePrecedes : List String → List String → Prop where
  | release {as : List String} : as ≠ [] → PrePrecedes as []
  | identifiers {as bs : List String} : as ≠ [] → bs ≠ [] → List.Lex IdentifierPrecedes as bs →
    PrePrecedes as bs

/-- **The precedence of semantic versions.** Builds do not count. -/
inductive Precedes (a b : Semver) : Prop where
  | major : a.major < b.major → Precedes a b
  | minor : a.major = b.major → a.minor < b.minor → Precedes a b
  | patch : a.major = b.major → a.minor = b.minor → a.patch < b.patch → Precedes a b
  | pre : a.major = b.major → a.minor = b.minor → a.patch = b.patch → PrePrecedes a.pre b.pre →
    Precedes a b

/-- Two versions that differ in their builds at most, so that neither precedes the other. -/
structure HasSamePrecedence (a b : Semver) : Prop where
  major : a.major = b.major
  minor : a.minor = b.minor
  patch : a.patch = b.patch
  pre : a.pre = b.pre

/-- The identifiers of the prerelease are as they may be written: not empty, and numbers without
leading zeros. -/
def IsProper (v : Semver) : Prop := ∀ s ∈ v.pre, s ≠ "" ∧ hasLeadingZero s = false

theorem isPlainNumeral_of_proper {s : String} (h : s ≠ "" ∧ hasLeadingZero s = false)
    (numeric : isNumeric s = true) : IsPlainNumeral s.toList where
  digits := List.all_eq_true.1 numeric
  nonempty := fun none => h.1 (String.toList_eq_nil_iff.1 none)
  first zero := by
    have := h.2
    simp only [hasLeadingZero, numeric, zero, BEq.rfl, Bool.true_and, bne_eq_false_iff_eq] at this
    rw [String.length_toList, this]

theorem compareIdentifiers_eq_lt {a b : String} (ha : a ≠ "" ∧ hasLeadingZero a = false)
    (hb : b ≠ "" ∧ hasLeadingZero b = false) :
    compareIdentifiers compareDigits a b = .lt ↔ IdentifierPrecedes a b := by
  have texts : Ord.compare a b = .lt ↔ a < b := compareOfLessAndEq_eq_lt
  cases na : isNumeric a <;> cases nb : isNumeric b <;> simp only [compareIdentifiers, na, nb]
  case false.false =>
    refine texts.trans ⟨.words na nb, ?_⟩
    rintro (⟨na', -, -⟩ | ⟨na', -⟩ | ⟨-, -, less⟩)
    · cases na.symm.trans na'
    · cases na.symm.trans na'
    · exact less
  case false.true =>
    refine iff_of_false nofun ?_
    rintro (⟨na', -, -⟩ | ⟨na', -⟩ | ⟨-, nb', -⟩)
    · cases na.symm.trans na'
    · cases na.symm.trans na'
    · cases nb.symm.trans nb'
  case true.false => exact iff_of_true trivial (.number na nb)
  case true.true =>
    have plain := compareDigits_eq_lt (isPlainNumeral_of_proper ha na)
      (isPlainNumeral_of_proper hb nb)
    refine plain.trans ⟨.numbers na nb, ?_⟩
    rintro (⟨-, -, less⟩ | ⟨-, nb'⟩ | ⟨na', -, -⟩)
    · exact less
    · cases nb.symm.trans nb'
    · cases na.symm.trans na'

theorem comparePre_eq_lt {as bs : List String}
    (ha : ∀ s ∈ as, s ≠ "" ∧ hasLeadingZero s = false)
    (hb : ∀ s ∈ bs, s ≠ "" ∧ hasLeadingZero s = false) :
    comparePre as bs = .lt ↔ PrePrecedes as bs := by
  cases as with
  | nil =>
    refine iff_of_false (by cases bs <;> exact nofun) ?_
    rintro (⟨ne⟩ | ⟨ne, -, -⟩) <;> exact ne rfl
  | cons a as =>
    cases bs with
    | nil => exact ⟨fun _ => .release (List.cons_ne_nil _ _), fun _ => rfl⟩
    | cons b bs =>
      have rows := compareRows_eq_lt fun x hx y hy => compareIdentifiers_eq_lt (ha x hx) (hb y hy)
      refine rows.trans ⟨.identifiers (List.cons_ne_nil _ _) (List.cons_ne_nil _ _), ?_⟩
      rintro (_ | ⟨-, -, lex⟩)
      exact lex

/-- **Which of two versions comes first is decided by precedence**, and by the builds where that
decides nothing. -/
theorem compare_eq_lt_iff {a b : Semver} (ha : a.IsProper) (hb : b.IsProper) :
    a.compare b = .lt ↔ a.Precedes b ∨ a.HasSamePrecedence b ∧
      compareRows (compareIdentifiers comparePadded) a.build b.build = .lt := by
  rw [Semver.compare]
  simp only [Ordering.then_eq_lt, Nat.compare_eq_lt,
    comparePre_eq_lt ha hb, LawfulEqCmp.compare_eq_iff_eq]
  constructor
  · rintro (less | ⟨major, less | ⟨minor, less | ⟨patch, less | ⟨pre, build⟩⟩⟩⟩)
    · exact Or.inl (.major less)
    · exact Or.inl (.minor major less)
    · exact Or.inl (.patch major minor less)
    · exact Or.inl (.pre major minor patch less)
    · exact Or.inr ⟨⟨major, minor, patch, pre⟩, build⟩
  · rintro ((less | ⟨major, less⟩ | ⟨major, minor, less⟩ | ⟨major, minor, patch, less⟩) |
      ⟨⟨major, minor, patch, pre⟩, build⟩)
    · exact Or.inl less
    · exact Or.inr ⟨major, Or.inl less⟩
    · exact Or.inr ⟨major, Or.inr ⟨minor, Or.inl less⟩⟩
    · exact Or.inr ⟨major, Or.inr ⟨minor, Or.inr ⟨patch, Or.inl less⟩⟩⟩
    · exact Or.inr ⟨major, Or.inr ⟨minor, Or.inr ⟨patch, Or.inr ⟨pre, build⟩⟩⟩⟩

end Semver

/-! ### Keys -/

namespace VersionKey

variable {a b c : VersionKey} {s t : String}

instance : TransCmp VersionKey.compare where
  eq_swap {a b} := by
    cases a <;> cases b
    case semantic.semantic => exact @OrientedCmp.eq_swap _ Semver.compare _ _ _
    case other.other => exact OrientedOrd.eq_swap
    all_goals rfl
  isLE_trans {a b c} hab hbc := by
    cases a <;> cases b <;> cases c
    case semantic.semantic.semantic => exact @TransCmp.isLE_trans _ Semver.compare _ _ _ _ hab hbc
    case other.other.other => exact TransOrd.isLE_trans hab hbc
    all_goals first | rfl | contradiction

instance : LawfulEqCmp VersionKey.compare where
  compare_self {a} := by
    cases a with
    | semantic => exact @ReflCmp.compare_self _ Semver.compare _ _
    | other => exact ReflOrd.compare_self
  eq_of_compare {a b} h := by
    cases a <;> cases b
    case semantic.semantic => rw [@LawfulEqCmp.eq_of_compare _ Semver.compare _ _ _ h]
    case other.other => rw [LawfulEqOrd.eq_of_compare h]
    all_goals cases h

end VersionKey

end SchemaDepot
