import SchemaDepot.Proofs.Json.Reading
import SchemaDepot.Proofs.Version.Precedence

/-! # A semantic version is written in one way

Reading does not normalise: a number has no leading zeros, and identifiers are kept as they stand.
So a semantic version tells its text, and the key of a version tells the version but for a `v`
before it.

* `Semver.spelling`: the text of a semantic version; `Semver.toList_of_read?`: no other text is read
  as that version.
* `VersionKey.ofText_eq_iff`: which texts have the same key.
* `VersionKey.IsLinear`: the laws of the order of keys; `VersionKey.isLinear`: they hold. -/

namespace SchemaDepot

namespace Semver

variable {cs rest : List Char} {n : Nat} {pieces : List String} {s : String} {v : Semver}

/-! ### Numbers -/

theorem isPlainNumeral_toDigits (n : Nat) : IsPlainNumeral (Nat.toDigits 10 n) where
  digits _ hd := Nat.isDigit_of_mem_toDigits (by decide) (by decide) hd
  nonempty := Nat.toDigits_ne_nil
  first zero := by
    rw [Json.eq_zero_of_head?_toDigits zero]
    rfl

/-- The only numeral without leading zeros. -/
theorem IsPlainNumeral.eq_toDigits {ds : List Char} (h : IsPlainNumeral ds) :
    ds = Nat.toDigits 10 (Nat.ofDigitChars 10 ds 0) := by
  refine String.ofList_injective (IsPlainNumeral.eq ?_ ?_ ?_)
  · rwa [String.toList_ofList]
  · rw [String.toList_ofList]
    exact isPlainNumeral_toDigits _
  · rw [numeral, numeral, String.toList_ofList, String.toList_ofList,
      Nat.ofDigitChars_ten_toDigits]

theorem foldl_digits (ds : List Char) (n : Nat) :
    ds.foldl (fun n d => n * 10 + (d.toNat - '0'.toNat)) n = Nat.ofDigitChars 10 ds n := by
  simp only [Nat.ofDigitChars, Nat.mul_comm]

/-- What is read as a number is its numeral. -/
theorem eq_of_number (h : number cs = some (n, rest)) : cs = Nat.toDigits 10 n ++ rest := by
  simp only [number, foldl_digits] at h
  split at h
  · cases h
  · next fine =>
    simp only [Bool.or_eq_true, decide_eq_true_eq, not_or] at fine
    obtain ⟨⟨nonempty, zero⟩, -⟩ := fine
    obtain ⟨rfl, rfl⟩ := Prod.mk.inj (Option.some.inj h)
    have plain : IsPlainNumeral (cs.takeWhile Char.isDigit) := by
      refine ⟨fun d hd => List.mem_takeWhile_imp hd, ?_, ?_⟩
      · exact fun none => nonempty (List.isEmpty_iff.2 none)
      · intro first
        by_contra long
        exact zero (by simp [first, long])
    rw [← plain.eq_toDigits, List.takeWhile_append_dropWhile]

theorem eq_of_afterDot (h : afterDot cs = some rest) : cs = '.' :: rest := by
  unfold afterDot at h
  split at h <;> cases h
  rfl

/-! ### Identifiers -/

theorem joinWith_of_identifiers (h : identifiers cs = some pieces) :
    Text.joinWith '.' (pieces.map String.toList) = cs := by
  simp only [identifiers] at h
  split at h
  · cases h
  · obtain rfl := Option.some.inj h
    rw [List.map_map, show String.toList ∘ String.ofList = id from funext fun _ =>
      String.toList_ofList, List.map_id, Text.joinWith_splitAt]

theorem ne_nil_of_identifiers (h : identifiers cs = some pieces) : pieces ≠ [] := by
  simp only [identifiers] at h
  split at h
  · cases h
  · obtain rfl := Option.some.inj h
    exact fun none => Text.splitAt_ne_nil _ _ (List.map_eq_nil_iff.1 none)

theorem ne_empty_of_identifiers (h : identifiers cs = some pieces) (hs : s ∈ pieces) : s ≠ "" := by
  simp only [identifiers] at h
  split at h
  · cases h
  · next full =>
    obtain rfl := Option.some.inj h
    rintro rfl
    exact full (List.any_eq_true.2 ⟨"", hs, rfl⟩)

/-- The text of identifiers behind the mark that leads them. -/
def marked (mark : Char) : List String → List Char
  | [] => []
  | pieces => mark :: Text.joinWith '.' (pieces.map String.toList)

theorem marked_of_identifiers (mark : Char) (h : identifiers cs = some pieces) :
    marked mark pieces = mark :: cs := by
  obtain ⟨p, ps, rfl⟩ := List.exists_cons_of_ne_nil (ne_nil_of_identifiers h)
  rw [marked, joinWith_of_identifiers h]
  exact nofun

theorem eq_of_readPre (h : readPre cs = some (pieces, rest)) : cs = marked '-' pieces ++ rest := by
  unfold readPre at h
  split at h
  · obtain ⟨read, hread, h⟩ := Option.bind_eq_some_iff.1 h
    split at h <;> cases h
    rw [marked_of_identifiers '-' hread, List.cons_append, List.takeWhile_append_dropWhile]
  · cases h
    rfl

theorem proper_of_readPre (h : readPre cs = some (pieces, rest)) :
    ∀ s ∈ pieces, s ≠ "" ∧ hasLeadingZero s = false := by
  unfold readPre at h
  split at h
  · obtain ⟨read, hread, h⟩ := Option.bind_eq_some_iff.1 h
    split at h <;> cases h
    next plain =>
      intro s hs
      refine ⟨ne_empty_of_identifiers hread hs, Bool.eq_false_iff.2 fun zero => plain ?_⟩
      exact List.any_eq_true.2 ⟨s, hs, zero⟩
  · cases h
    exact nofun

theorem eq_of_readBuild (h : readBuild cs = some pieces) : cs = marked '+' pieces := by
  unfold readBuild at h
  split at h
  · cases h
    rfl
  · split at h
    · rw [marked_of_identifiers '+' h]
    · cases h
  · cases h

/-! ### Versions -/

/-- **The text of a semantic version.** -/
def spelling (v : Semver) : List Char :=
  Nat.toDigits 10 v.major ++ '.' :: (Nat.toDigits 10 v.minor ++ '.' :: (Nat.toDigits 10 v.patch ++
    (marked '-' v.pre ++ marked '+' v.build)))

/-- What reading comes upon, part after part. -/
theorem parts_of_read? (h : read? s = some v) : ∃ minor patch pre build,
    number s.toList = some (v.major, '.' :: minor) ∧
      number minor = some (v.minor, '.' :: patch) ∧ number patch = some (v.patch, pre) ∧
      readPre pre = some (v.pre, build) ∧ readBuild build = some v.build := by
  simp only [read?, Option.bind_eq_bind, Option.bind_eq_some_iff] at h
  obtain ⟨⟨major, cs₁⟩, h₁, ds₁, dot₁, ⟨minor, cs₂⟩, h₂, ds₂, dot₂, ⟨patch, cs₃⟩, h₃,
    ⟨pre, cs₄⟩, h₄, build, h₅, h⟩ := h
  obtain rfl := Option.some.inj h
  obtain rfl := eq_of_afterDot dot₁
  obtain rfl := eq_of_afterDot dot₂
  exact ⟨ds₁, ds₂, cs₃, cs₄, h₁, h₂, h₃, h₄, h₅⟩

/-- **A semantic version is read from its own text alone.** -/
theorem toList_of_read? (h : read? s = some v) : s.toList = v.spelling := by
  obtain ⟨minor, patch, pre, build, h₁, h₂, h₃, h₄, h₅⟩ := parts_of_read? h
  rw [spelling, eq_of_number h₁, eq_of_number h₂, eq_of_number h₃, eq_of_readPre h₄,
    eq_of_readBuild h₅]

theorem read?_injective {t : String} (hs : read? s = some v) (ht : read? t = some v) : s = t :=
  String.toList_injective ((toList_of_read? hs).trans (toList_of_read? ht).symm)

theorem isProper_of_read? (h : read? s = some v) : v.IsProper := by
  obtain ⟨_, _, _, _, -, -, -, prerelease, -⟩ := parts_of_read? h
  exact proper_of_readPre prerelease

/-- A semantic version starts with a digit. -/
theorem head?_of_read? (h : read? s = some v) : s.toList.head? ≠ some 'v' := by
  obtain ⟨d, ds, digits, digit⟩ := Json.exists_toDigits_eq_cons v.major
  rw [toList_of_read? h, spelling, digits]
  rintro ⟨⟩
  exact absurd digit (by decide)

end Semver

namespace VersionKey

variable {s t : String} {v : Semver}

/-! ### Texts of keys -/

theorem withoutV_append (t : String) : withoutV ("v" ++ t) = t := by
  have text : ("v" ++ t).toList = 'v' :: t.toList := String.toList_append
  rw [withoutV, text]
  exact String.ofList_toList

theorem withoutV_of_head?_ne (h : s.toList.head? ≠ some 'v') : withoutV s = s := by
  unfold withoutV
  split
  · next first =>
    rw [first] at h
    exact absurd rfl h
  · rfl

theorem eq_withoutV_or (s : String) : s = withoutV s ∨ s = "v" ++ withoutV s := by
  by_cases first : s.toList.head? = some 'v'
  · obtain ⟨cs, text⟩ : ∃ cs, s.toList = 'v' :: cs := by
      cases hs : s.toList with
      | nil => simp [hs] at first
      | cons c cs =>
        rw [hs] at first
        exact ⟨cs, by rw [Option.some.inj first]⟩
    have back : (String.ofList cs).toList = cs := String.toList_ofList
    obtain rfl : s = "v" ++ String.ofList cs := String.toList_injective <| by
      rw [text, String.toList_append, back]
      rfl
    exact Or.inr (by rw [withoutV_append])
  · exact Or.inl (withoutV_of_head?_ne first).symm

theorem ofText_eq_semantic : ofText s = semantic v ↔ Semver.read? (withoutV s) = some v := by
  unfold ofText
  cases Semver.read? (withoutV s) <;> simp

/-- A text that is no semantic version is its own key. -/
theorem ofText_of_none (h : Semver.read? (withoutV s) = none) : ofText s = other s := by
  unfold ofText
  rw [h]

/-- A `v` before a semantic version does not count. -/
theorem ofText_append (h : (Semver.read? t).isSome) : ofText ("v" ++ t) = ofText t := by
  obtain ⟨v, read⟩ := Option.isSome_iff_exists.1 h
  rw [ofText_eq_semantic.2 ((withoutV_append t).symm ▸ read),
    ofText_eq_semantic.2 ((withoutV_of_head?_ne (Semver.head?_of_read? read)).symm ▸ read)]

/-- **Texts with one key** differ by a `v` before a semantic version. -/
theorem ofText_eq_iff (ne : s ≠ t) : ofText s = ofText t ↔
    s = "v" ++ t ∧ (Semver.read? t).isSome ∨ t = "v" ++ s ∧ (Semver.read? s).isSome := by
  constructor
  · intro same
    cases hs : Semver.read? (withoutV s) with
    | none =>
      rw [ofText_of_none hs] at same
      cases ht : Semver.read? (withoutV t) with
      | none => exact absurd (other.inj (same.trans (ofText_of_none ht))) ne
      | some v => cases same.trans (ofText_eq_semantic.2 ht)
    | some v =>
      have ht := ofText_eq_semantic.1 (same ▸ ofText_eq_semantic.2 hs)
      have rest : withoutV s = withoutV t := Semver.read?_injective hs ht
      have readable := Option.isSome_of_eq_some ht
      rw [rest] at hs
      rcases eq_withoutV_or s with bare | marked <;> rcases eq_withoutV_or t with bare' | marked'
      · exact absurd (bare.trans (rest.trans bare'.symm)) ne
      · refine Or.inr ⟨?_, ?_⟩ <;> rw [bare, rest]
        · exact marked'
        · exact readable
      · refine Or.inl ⟨?_, ?_⟩ <;> rw [bare']
        · rw [← rest]
          exact marked
        · exact readable
      · exact absurd (marked.trans (rest ▸ marked'.symm)) ne
  · rintro (⟨rfl, readable⟩ | ⟨rfl, readable⟩)
    · exact ofText_append readable
    · exact (ofText_append readable).symm

/-! ### The order -/

/-- **The laws of the order of keys**, which is linear and puts semantic versions first. -/
structure IsLinear : Prop where
  total : ∀ a b : VersionKey, (a.compare b).isLE ∨ (b.compare a).isLE
  swap : ∀ a b : VersionKey, b.compare a = (a.compare b).swap
  trans : ∀ a b c : VersionKey, (a.compare b).isLE → (b.compare c).isLE → (a.compare c).isLE
  antisymm : ∀ a b : VersionKey, (a.compare b).isLE → (b.compare a).isLE → a = b
  equal : ∀ a b : VersionKey, a.compare b = .eq ↔ a = b
  semanticFirst : ∀ v text, (semantic v).compare (other text) = .lt
  /-- Semantic versions stand by precedence, and by their builds where that decides nothing. -/
  precedence : ∀ s t v w, ofText s = semantic v → ofText t = semantic w →
    ((ofText s).compare (ofText t) = .lt ↔ v.Precedes w ∨ v.HasSamePrecedence w ∧
      Semver.compareRows (Semver.compareIdentifiers Semver.comparePadded) v.build w.build = .lt)
  lexical : ∀ a b, (other a).compare (other b) = .lt ↔ a < b
  /-- Different texts have one key only if one is the other with a single `v` before it, and the
  other is a semantic version. -/
  spelling : ∀ s t, s ≠ t → (ofText s = ofText t ↔
    s = "v" ++ t ∧ (Semver.read? t).isSome ∨ t = "v" ++ s ∧ (Semver.read? s).isSome)

theorem isLinear : IsLinear where
  total a b := by
    rw [@Std.OrientedCmp.eq_swap _ VersionKey.compare _ b a]
    cases a.compare b <;> decide
  swap a b := @Std.OrientedCmp.eq_swap _ VersionKey.compare _ _ _
  trans a b c hab hbc := @Std.TransCmp.isLE_trans _ VersionKey.compare _ _ _ _ hab hbc
  antisymm a b hab hba := by
    rw [@Std.OrientedCmp.eq_swap _ VersionKey.compare _ _ _] at hba
    refine @Std.LawfulEqCmp.eq_of_compare _ VersionKey.compare _ _ _ ?_
    cases h : a.compare b <;> simp_all
  equal a b := Std.LawfulEqCmp.compare_eq_iff_eq
  semanticFirst v text := rfl
  precedence s t v w hs ht := by
    have proper := Semver.isProper_of_read? (ofText_eq_semantic.1 hs)
    have proper' := Semver.isProper_of_read? (ofText_eq_semantic.1 ht)
    rw [hs, ht]
    exact Semver.compare_eq_lt_iff proper proper'
  lexical a b := compareOfLessAndEq_eq_lt
  spelling s t ne := ofText_eq_iff ne

end VersionKey

end SchemaDepot
