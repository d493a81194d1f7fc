import Mathlib.Data.List.Pairwise
import Mathlib.Data.Set.Function
import SchemaDepot.Generate.Basic
import SchemaDepot.Proofs.Digest.Frames

/-! # Fingerprints identify inputs

The fingerprint of the work on an input for a language is the digest of a row of frames. Sections
stand between the files, the files of dependencies, the language and the options, so that the row
can be taken apart again.

* `Sha256.CollisionFree`: a set of byte strings in which no two have the same digest.
* `GeneratorInput.eq_of_frames`: the frames say what the input and the language are;
  `GeneratorInput.eq_of_fingerprint`: on such a set, the fingerprint does.
* `GeneratorInput.fingerprint_eq_iff`: on such a set, fingerprints are the same if and only if the
  inputs and the languages are. -/

namespace SchemaDepot

/-! ### Digests in hexadecimal -/

namespace Sha256

theorem digitChar_inj {a b : Nat} (ha : a < 16) (hb : b < 16)
    (h : Nat.digitChar a = Nat.digitChar b) : a = b := by
  have all : ∀ a b : Fin 16, Nat.digitChar a = Nat.digitChar b → a = b := by decide
  exact congrArg Fin.val (all ⟨a, ha⟩ ⟨b, hb⟩ h)

theorem mod_pow_eq_of_digits {v w n : Nat} (h : ∀ i < n, v / 16 ^ i % 16 = w / 16 ^ i % 16) :
    v % 16 ^ n = w % 16 ^ n := by
  induction n with
  | zero => rw [Nat.pow_zero, Nat.mod_one, Nat.mod_one]
  | succ n ih =>
    rw [Nat.mod_pow_succ, Nat.mod_pow_succ, h n (Nat.lt_succ_self n),
      ih fun i hi => h i (Nat.lt_succ_of_lt hi)]

theorem hexWord_injective : Function.Injective hexWord := by
  intro v w h
  have digit : ∀ i < 8, v.toNat / 16 ^ i % 16 = w.toNat / 16 ^ i % 16 := by
    intro i hi
    refine digitChar_inj (Nat.mod_lt _ (by decide)) (Nat.mod_lt _ (by decide)) ?_
    exact List.map_inj_left.1 h i (List.mem_reverse.2 (List.mem_range.2 hi))
  have value := mod_pow_eq_of_digits digit
  rw [Nat.mod_eq_of_lt (show v.toNat < 16 ^ 8 from v.toNat_lt),
    Nat.mod_eq_of_lt (show w.toNat < 16 ^ 8 from w.toNat_lt)] at value
  exact UInt32.toNat_inj.1 value

theorem length_hexWord (w : UInt32) : (hexWord w).length = 8 := by simp [hexWord]

theorem flatMap_hexWord_inj {vs ws : List UInt32} (hlength : vs.length = ws.length)
    (h : vs.flatMap hexWord = ws.flatMap hexWord) : vs = ws := by
  induction vs generalizing ws with
  | nil => exact (List.length_eq_zero_iff.1 hlength.symm).symm
  | cons v vs ih =>
    cases ws with
    | nil => cases hlength
    | cons w ws =>
      obtain ⟨one, rest⟩ := List.append_inj h (by rw [length_hexWord, length_hexWord])
      rw [hexWord_injective one, ih (Nat.succ.inj hlength) rest]

/-- Writing a digest loses nothing. -/
theorem digest_eq_of_hex_eq {m n : List UInt8} (h : hex m = hex n) : digest m = digest n := by
  have words := flatMap_hexWord_inj (by rfl) (String.ofList_injective h)
  simp only [List.cons.injEq, and_true] at words
  obtain ⟨a, b, c, d, e, f, g, h⟩ := words
  cases hm : digest m
  cases hn : digest n
  simp_all

/-- No two byte strings of the set have the same digest. -/
def CollisionFree (S : Set (List UInt8)) : Prop := Set.InjOn digest S

theorem collisionFree_iff_pairwise (texts : List (List UInt8)) :
    CollisionFree {bytes | bytes ∈ texts} ↔
      texts.Pairwise fun m n => m ≠ n → digest m ≠ digest n := by
  constructor
  · intro free
    exact List.pairwise_of_forall_mem_list fun m hm n hn => mt (free hm hn)
  · intro apart m hm n hn
    have : Std.Symm fun m n : List UInt8 => m ≠ n → digest m ≠ digest n :=
      ⟨fun _ _ differ other => (differ other.symm).symm⟩
    exact not_imp_not.1 (apart.forall_of_forall (fun _ _ other => absurd rfl other) hm hn)

instance (texts : List (List UInt8)) : Decidable (CollisionFree {bytes | bytes ∈ texts}) :=
  decidable_of_iff _ (collisionFree_iff_pairwise texts).symm

end Sha256

/-! ### Taking the row of frames apart -/

namespace GeneratorInput

/-- The bytes whose digest is the fingerprint. -/
def hashed (input : GeneratorInput) (language : String) : List UInt8 :=
  (input.frames language).flatMap Frame.bytes

/-- The texts that an input and a language consist of. -/
def texts (input : GeneratorInput) (language : String) : List String :=
  (input.files ++ input.dependencyFiles).flatMap (fun file => [file.path, file.content]) ++
    input.options.flatMap (fun option => [option.1, option.2]) ++ [language]

variable {i j : GeneratorInput} {k l : String}

theorem eq_of_frames (h : i.frames k = j.frames l) : i = j ∧ k = l := by
  simp only [frames, List.cons_append, List.append_assoc, List.cons.injEq, true_and] at h
  obtain ⟨files, h⟩ := Frame.ofFiles_append_inj (by rintro _ ⟨⟩; decide) (by rintro _ ⟨⟩; decide) h
  simp only [List.cons.injEq, true_and] at h
  obtain ⟨dependencies, h⟩ :=
    Frame.ofFiles_append_inj (by rintro _ ⟨⟩; decide) (by rintro _ ⟨⟩; decide) h
  simp only [List.cons.injEq, true_and] at h
  obtain ⟨language, h⟩ := h
  obtain ⟨options, h⟩ :=
    Frame.ofOptions_append_inj (by rintro _ ⟨⟩; nofun) (by rintro _ ⟨⟩; nofun) h
  have services : i.includeServices = j.includeServices := by
    revert h
    cases i.includeServices <;> cases j.includeServices <;> decide
  cases i
  cases j
  exact ⟨by simp_all, Frame.ofText_inj language⟩

theorem frames_fit (h : ∀ s ∈ i.texts k, s.utf8ByteSize < 2 ^ 64) : ∀ f ∈ i.frames k, f.Fits := by
  simp only [texts, List.forall_mem_append, List.forall_mem_flatMap, List.forall_mem_cons,
    List.not_mem_nil, false_implies, implies_true, and_true] at h
  obtain ⟨⟨⟨files, dependencies⟩, options⟩, language⟩ := h
  simp only [frames, Frame.ofFiles, Frame.ofOptions, Frame.ofSection, List.forall_mem_append,
    List.forall_mem_flatMap, List.forall_mem_cons, List.not_mem_nil, false_implies, implies_true,
    and_true, Frame.fits_ofText]
  have flag : (Frame.ofFlag i.includeServices).Fits := show 1 < 2 ^ 64 by decide
  exact ⟨⟨⟨⟨by decide, files⟩, by decide, dependencies⟩, by decide, language, by decide, options⟩,
    flag⟩

/-- **A fingerprint says what it was made from**, among byte strings without collisions and with
texts shorter than `2 ^ 64` bytes. -/
theorem eq_of_fingerprint {S : Set (List UInt8)} (free : Sha256.CollisionFree S)
    (hi : i.hashed k ∈ S) (hj : j.hashed l ∈ S)
    (ti : ∀ s ∈ i.texts k, s.utf8ByteSize < 2 ^ 64) (tj : ∀ s ∈ j.texts l, s.utf8ByteSize < 2 ^ 64)
    (h : i.fingerprint k = j.fingerprint l) : i = j ∧ k = l := by
  have bytes := free hi hj (Sha256.digest_eq_of_hex_eq (congrArg Fingerprint.hex h))
  exact eq_of_frames (Frame.flatMap_bytes_inj (frames_fit ti) (frames_fit tj) bytes)

/-- **Fingerprints identify inputs**: among byte strings without collisions, with texts shorter than
`2 ^ 64` bytes and options in order, as they always are (`Options.isOrdered_ofList`), two of them
are the same if and only if the files, the files of the dependencies, the options, the request for
services and the language are. -/
theorem fingerprint_eq_iff {S : Set (List UInt8)} (free : Sha256.CollisionFree S)
    (hi : i.hashed k ∈ S) (hj : j.hashed l ∈ S)
    (ti : ∀ s ∈ i.texts k, s.utf8ByteSize < 2 ^ 64) (tj : ∀ s ∈ j.texts l, s.utf8ByteSize < 2 ^ 64)
    (oi : i.options.IsOrdered) (oj : j.options.IsOrdered) :
    i.fingerprint k = j.fingerprint l ↔
      i.files = j.files ∧ i.dependencyFiles = j.dependencyFiles ∧
        (∀ key, i.options.get? key = j.options.get? key) ∧
        i.includeServices = j.includeServices ∧ k = l := by
  constructor
  · intro h
    obtain ⟨rfl, rfl⟩ := eq_of_fingerprint free hi hj ti tj h
    exact ⟨rfl, rfl, fun _ => rfl, rfl, rfl⟩
  · rintro ⟨files, dependencies, options, services, rfl⟩
    have options := Options.ext_get? oi oj options
    cases i
    cases j
    simp_all

/-- A file to generate from, with an option. -/
def ownFile : GeneratorInput where
  files := [⟨"a.proto", "enum E \x7b\x7d"⟩]
  options := .ofList [("out", "src")]

/-- The same file, which types may come from. -/
def neededFile : GeneratorInput where
  dependencyFiles := [⟨"a.proto", "enum E \x7b\x7d"⟩]
  options := .ofList [("out", "src")]

theorem fingerprint_ownFile_ne :
    Sha256.CollisionFree {ownFile.hashed "rust", neededFile.hashed "rust"} ∧
      ownFile.fingerprint "rust" ≠ neededFile.fingerprint "rust" := by
  have differ :
      Sha256.digest (ownFile.hashed "rust") ≠ Sha256.digest (neededFile.hashed "rust") := by
    decide +kernel
  have free : Sha256.CollisionFree {ownFile.hashed "rust", neededFile.hashed "rust"} := by
    rintro _ (rfl | rfl) _ (rfl | rfl) h
    · rfl
    · exact absurd h differ
    · exact absurd h.symm differ
    · rfl
  have iff := fingerprint_eq_iff free (Or.inl rfl) (Or.inr rfl) (by decide +kernel)
    (by decide +kernel) (Options.isOrdered_ofList _) (Options.isOrdered_ofList _)
  exact ⟨free, fun h => absurd (iff.1 h).1 (by decide)⟩

end GeneratorInput

end SchemaDepot
