import SchemaDepot.Proofs.Json.Reading

/-! # Documents that a strict reader takes

A natural number of 64 bits has a double: all its digits count, the double next to it is multiplied
with the double of one, and neither step leaves the range of the doubles.

* `Binary64.ofFraction_finite`: a fraction with a numerator that is not too great rounds to a finite
  double.
* `double?_toString`: a natural number of 64 bits has a double.
* `IsPlain.isStrict`: every string and number of a plain document denotes something. -/

namespace SchemaDepot.Number

theorem roundHalfEven_le (num den : Nat) : roundHalfEven num den ≤ num + 1 := by
  have := Nat.div_le_self num den
  rw [roundHalfEven]
  split_ifs <;> omega

namespace Binary64

theorem exponentOf_le (num den : Nat) :
    exponentOf num den ≤ max ((num.log2 : Int) - 52) (-1074) := by
  simp only [exponentOf]
  split_ifs <;> omega

/-- The exponent of a natural number is at least `-53`. -/
theorem le_exponentOf_one (num : Nat) : -53 ≤ exponentOf num 1 := by
  have : Nat.log2 1 = 0 := by decide
  simp only [exponentOf, this]
  split_ifs <;> omega

/-- A fraction whose numerator has at most a thousand bits rounds to a finite double. -/
theorem ofFraction_finite (negative : Bool) {num den : Nat} (hnum : num ≠ 0)
    (h : num.log2 < 1000) : ∃ significand exponent,
      ofFraction negative num den = finite negative significand exponent ∧
      significand ≤ num * (scale 2 den (exponentOf num den)).2 + 2 ^ 53 ∧
      exponent ≤ exponentOf num den + 1 := by
  have small := exponentOf_le num den
  have rounded := roundHalfEven_le (num * (scale 2 den (exponentOf num den)).2)
    (scale 2 den (exponentOf num den)).1
  rw [ofFraction, if_neg hnum]
  by_cases carry : roundHalfEven (num * (scale 2 den (exponentOf num den)).2)
      (scale 2 den (exponentOf num den)).1 = 2 ^ 53
  · refine ⟨2 ^ 52, exponentOf num den + 1, ?_, by omega, Int.le_refl _⟩
    simp only [Nat.pow_eq, carry, if_true]
    rw [if_neg (by omega)]
  · refine ⟨_, exponentOf num den, ?_, Nat.le_trans rounded (by omega), by omega⟩
    simp only [Nat.pow_eq, carry, if_false]
    rw [if_neg (by omega)]

/-- The double next to a natural number of 64 bits. -/
theorem ofNat_finite {n : Nat} (h : n < 2 ^ 64) : ∃ significand exponent,
    ofNat n = finite false significand exponent ∧ significand < 2 ^ 118 ∧ exponent ≤ 12 := by
  by_cases hn : n = 0
  · subst n
    exact ⟨0, -1074, rfl, by decide, by decide⟩
  have log : n.log2 < 64 := (Nat.log2_lt hn).2 h
  have small := exponentOf_le n 1
  have great := le_exponentOf_one n
  obtain ⟨s, e, found, hs, he⟩ : ∃ s e, ofNat n = finite false s e ∧
      s ≤ n * (scale 2 1 (exponentOf n 1)).2 + 2 ^ 53 ∧ e ≤ exponentOf n 1 + 1 :=
    ofFraction_finite false hn (by omega)
  have unit : (scale 2 1 (exponentOf n 1)).2 ≤ 2 ^ 53 := by
    rw [scale]
    split_ifs
    · exact Nat.one_le_two_pow
    · exact Nat.pow_le_pow_right (by decide) (by omega)
  have := Nat.mul_le_mul (Nat.le_of_lt h) unit
  exact ⟨s, e, found, by omega, by omega⟩

/-- The product of a double of a natural number of 64 bits and of one is no infinity. -/
theorem mul_one_finite {s : Nat} {e : Int} (hs : s < 2 ^ 118) (he : e ≤ 12) :
    ∃ significand exponent, (finite false s e).mul (finite false (2 ^ 52) (-52)) =
      finite false significand exponent := by
  have point : ¬ 0 ≤ e + -52 := by omega
  simp only [mul, scale, if_neg point]
  by_cases hs0 : s = 0
  · subst s
    refine ⟨0, -1074, ?_⟩
    rw [Nat.zero_mul]
    rfl
  · have hnum : s * 2 ^ 52 ≠ 0 := Nat.mul_ne_zero hs0 (by decide)
    have log : (s * 2 ^ 52).log2 < 170 := (Nat.log2_lt hnum).2 (by omega)
    obtain ⟨significand, exponent, found, -, -⟩ :=
      ofFraction_finite (false != false) hnum (by omega)
    exact ⟨significand, exponent, found⟩

end Binary64

end SchemaDepot.Number

namespace SchemaDepot.Json

open Number

namespace Literal

theorem le_ofDigitChars (n : Nat) (ds : List Char) : n ≤ Nat.ofDigitChars 10 ds n := by
  induction ds generalizing n with
  | nil => simp
  | cons d ds ih =>
    rw [Nat.ofDigitChars_cons]
    exact Nat.le_trans (by omega) (ih _)

/-- Digits count as long as their number has 64 bits. -/
theorem gather_eq {n : Nat} {ds : List Char} (h : Nat.ofDigitChars 10 ds n < 2 ^ 64) :
    gather n ds = (Nat.ofDigitChars 10 ds n, []) := by
  induction ds generalizing n with
  | nil => rw [gather, Nat.ofDigitChars_nil]
  | cons d ds ih =>
    have next : n * 10 + ofDigits [d] = 10 * n + (d.toNat - '0'.toNat) := by
      rw [ofDigits, List.foldl_cons, List.foldl_nil, Nat.mul_comm]
      omega
    rw [Nat.ofDigitChars_cons] at h ⊢
    have := le_ofDigitChars (10 * n + (d.toNat - '0'.toNat)) ds
    simp only [gather, next]
    rw [if_pos (by rw [Nat.pow_eq]; omega), ih h]

/-- The literal of a natural number is its digits. -/
theorem ofChars_toDigits (n : Nat) :
    ofChars (Nat.toDigits 10 n) = ⟨false, Nat.toDigits 10 n, [], 0⟩ := by
  have digits : ∀ c ∈ Nat.toDigits 10 n, c.isDigit = true := fun c hc =>
    Nat.isDigit_of_mem_toDigits (by decide) (by decide) hc
  obtain ⟨d, ds, hds, hd⟩ := exists_toDigits_eq_cons n
  have unsigned : splitSign (Nat.toDigits 10 n) = (false, Nat.toDigits 10 n) := by
    rw [hds]
    unfold splitSign
    split
    · next heq => cases heq; exact absurd hd (by decide)
    · next heq => cases heq; exact absurd hd (by decide)
    · rfl
  have nothing : (Nat.toDigits 10 n).dropWhile Char.isDigit = [] := by
    rw [← List.append_nil (Nat.toDigits 10 n), List.dropWhile_append_of_pos digits]
    rfl
  have whole : (Nat.toDigits 10 n).takeWhile Char.isDigit = Nat.toDigits 10 n := by
    have : (Nat.toDigits 10 n ++ []).takeWhile Char.isDigit = Nat.toDigits 10 n ++ [] :=
      List.takeWhile_append_of_pos digits
    rwa [List.append_nil] at this
  simp only [ofChars, unsigned, nothing, whole]
  rfl

end Literal

/-- A natural number of 64 bits has a double. -/
theorem double?_toString {n : Nat} (h : n < 2 ^ 64) : (double? (toString n)).isSome := by
  obtain ⟨s, e, found, hs, he⟩ := Binary64.ofNat_finite h
  obtain ⟨significand, exponent, product⟩ := Binary64.mul_one_finite hs he
  have one : powerOfTen 0 = .finite false (2 ^ 52) (-52) := by decide +kernel
  have scaled : Literal.scaled ⟨false, Nat.toDigits 10 n, [], 0⟩ = (n, 0) := by
    have all : Literal.gather 0 (Nat.toDigits 10 n) = (n, []) := by
      rw [Literal.gather_eq (by rwa [Nat.ofDigitChars_ten_toDigits]),
        Nat.ofDigitChars_ten_toDigits]
    simp only [Literal.scaled, all]
    rfl
  have kept : scale? (.ofNat n) 0 = some (.finite false significand exponent) := by
    rw [scale?, if_pos (Int.le_refl 0), if_pos (by decide), found, Int.toNat_zero, one, product]
  rw [double?, toList_toString, Literal.ofChars_toDigits, scaled]
  simp only [kept]
  rfl

mutual

/-- **Every string and number of a plain document denotes something.** -/
theorem IsPlain.isStrict : ∀ {j : Json}, j.IsPlain → j.isStrict = true
  | null, _ | bool _, _ | string _, _ => rfl
  | number literal, h => by
    obtain ⟨n, hn, rfl⟩ := h
    exact double?_toString hn
  | unpaired, h => h.elim
  | array items, h => ArePlain.areStrict items h
  | object members, h => MembersArePlain.areStrict members h

theorem ArePlain.areStrict : ∀ js : List Json, ArePlain js → Json.areStrict js = true
  | [], _ => rfl
  | j :: js, h => by
    rw [Json.areStrict, IsPlain.isStrict h.1, ArePlain.areStrict _ h.2]
    rfl

theorem MembersArePlain.areStrict : ∀ ms : List (String × Json), MembersArePlain ms →
    membersAreStrict ms = true
  | [], _ => rfl
  | (_, j) :: ms, h => by
    rw [membersAreStrict, IsPlain.isStrict h.1, MembersArePlain.areStrict _ h.2]
    rfl

end

end SchemaDepot.Json
