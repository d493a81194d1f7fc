import SchemaDepot.Proofs.Generate.Fingerprint
import SchemaDepot.Version.Basic

/-! # Seals

A seal records the checksums of the files, and no other edit touches them. So they go on telling
what the contents were at the last seal, unless two texts have the same digest.

* `Version.Edit`: what may be done to a version; `Version.edited`: the version after edits.
* `Version.checksums_edited`: what was recorded stays until the next seal.
* `Version.verify_eq_true`: what is compared with the record.
* `Version.seals_detect`: contents are as they were at the last seal if and only if the version says
  so, and manifests are the same if and only if the contents are. -/

namespace SchemaDepot

/-! ### Digests tell texts apart -/

namespace Checksum

variable {S : Set (List UInt8)} {s t : String} {ss ts : List String}

theorem length_hex (bytes : List UInt8) : (Sha256.hex bytes).toList.length = 64 := by
  simp [Sha256.hex, Sha256.length_hexWord]

theorem ofText_inj (free : Sha256.CollisionFree S) (hs : textBytes s ∈ S) (ht : textBytes t ∈ S) :
    ofText s = ofText t ↔ s = t := by
  refine ⟨fun h => ?_, congrArg ofText⟩
  exact textBytes_injective (free hs ht (Sha256.digest_eq_of_hex_eq (congrArg hex h)))

theorem map_ofText_inj (free : Sha256.CollisionFree S) (hs : ∀ s ∈ ss, textBytes s ∈ S)
    (ht : ∀ t ∈ ts, textBytes t ∈ S) : ss.map ofText = ts.map ofText ↔ ss = ts := by
  induction ss generalizing ts with
  | nil => simp [eq_comm]
  | cons s ss ih =>
    cases ts with
    | nil => simp
    | cons t ts =>
      obtain ⟨hs, hss⟩ := List.forall_mem_cons.1 hs
      obtain ⟨ht, hts⟩ := List.forall_mem_cons.1 ht
      rw [List.map_cons, List.map_cons, List.cons.injEq, List.cons.injEq, ofText_inj free hs ht,
        ih hss hts]

/-! Texts of one length can be taken apart again when they are joined. -/

theorem intercalate_cons (sep a : List Char) (as : List (List Char)) :
    sep.intercalate (a :: as) = a ++ as.flatMap (sep ++ ·) := by
  induction as generalizing a with
  | nil => simp
  | cons b bs ih => simp only [List.intercalate_cons_cons, ih, List.flatMap_cons, List.append_assoc]

section OneLength
variable {sep : List Char} {n : Nat} {as bs : List (List Char)}

theorem flatMap_append_inj (hn : 0 < n) (ha : ∀ a ∈ as, a.length = n) (hb : ∀ b ∈ bs, b.length = n)
    (h : as.flatMap (sep ++ ·) = bs.flatMap (sep ++ ·)) : as = bs := by
  induction as generalizing bs with
  | nil =>
    cases bs with
    | nil => rfl
    | cons b bs =>
      have := hb b List.mem_cons_self
      simp_all
  | cons a as ih =>
    obtain ⟨ha, has⟩ := List.forall_mem_cons.1 ha
    cases bs with
    | nil => simp_all
    | cons b bs =>
      obtain ⟨hb, hbs⟩ := List.forall_mem_cons.1 hb
      obtain ⟨first, rest⟩ := List.append_inj h (by simp [ha, hb])
      rw [List.append_cancel_left first, ih has hbs rest]

theorem intercalate_inj (hn : 0 < n) (ha : ∀ a ∈ as, a.length = n) (hb : ∀ b ∈ bs, b.length = n)
    (h : sep.intercalate as = sep.intercalate bs) : as = bs := by
  cases as with
  | nil =>
    cases bs with
    | nil => rfl
    | cons b bs =>
      have := hb b List.mem_cons_self
      simp_all [intercalate_cons]
  | cons a as =>
    obtain ⟨ha, has⟩ := List.forall_mem_cons.1 ha
    cases bs with
    | nil => simp_all [intercalate_cons]
    | cons b bs =>
      obtain ⟨hb, hbs⟩ := List.forall_mem_cons.1 hb
      rw [intercalate_cons, intercalate_cons] at h
      obtain ⟨first, rest⟩ := List.append_inj h (ha.trans hb.symm)
      rw [first, flatMap_append_inj hn has hbs rest]

end OneLength

/-- The text whose digest combines checksums. -/
def joined (parts : List Checksum) : String := ",".intercalate (parts.map hex)

theorem joined_inj (h : joined (ss.map ofText) = joined (ts.map ofText)) :
    ss.map ofText = ts.map ofText := by
  have texts := congrArg String.toList h
  have wide (us : List String) : ∀ cs ∈ ((us.map ofText).map hex).map String.toList,
      cs.length = 64 := by
    simp only [List.mem_map]
    rintro _ ⟨_, ⟨_, ⟨u, -, rfl⟩, rfl⟩, rfl⟩
    exact length_hex _
  rw [joined, joined, String.toList_intercalate, String.toList_intercalate] at texts
  have parts := intercalate_inj (by decide) (wide ss) (wide ts) texts
  have hexes := List.map_injective_iff.2 (fun _ _ => String.toList_injective) parts
  refine List.map_injective_iff.2 ?_ hexes
  rintro ⟨_⟩ ⟨_⟩ rfl
  rfl

end Checksum

/-! ### Edits -/

namespace Version

/-- What may be done to a version. -/
inductive Edit where
  | insertFile (position : Nat) (file : TextFile)
  | removeFile (position : Nat)
  /-- The files stand in another order from now on; if these are not the files, nothing happens. -/
  | reorderFiles (files : List TextFile)
  | renameFile (position : Nat) (path : String)
  | setContent (position : Nat) (content : String)
  | addDependency (reference : String)
  | sealFiles

/-- The version after an edit. -/
def edit (v : Version) : Edit → Version
  | .insertFile position file => { v with files := v.files.insertIdx position file }
  | .removeFile position => { v with files := v.files.eraseIdx position }
  | .reorderFiles files => if files.isPerm v.files then { v with files } else v
  | .renameFile position path =>
    { v with files := v.files.modify position fun file => { file with path } }
  | .setContent position content =>
    { v with files := v.files.modify position fun file => { file with content } }
  | .addDependency reference => { v with dependencies := v.dependencies ++ [reference] }
  | .sealFiles => v.sealed

/-- The version after edits, one after the other. -/
def edited (v : Version) (edits : List Edit) : Version := edits.foldl edit v

/-- The contents of the files, in their order. -/
def contents (v : Version) : List String := v.files.map TextFile.content

/-- The texts whose digests a seal records, and the one whose digest is the manifest's then. -/
def sealedTexts (v : Version) : List String := Checksum.joined v.sealed.checksums :: v.contents

variable {v w : Version} {S : Set (List UInt8)}

theorem checksums_sealed (v : Version) :
    v.sealed.checksums = v.contents.map Checksum.ofText := by
  rw [contents, List.map_map]
  rfl

/-- Only a seal changes what is recorded. -/
theorem checksums_edit {e : Edit} (h : e ≠ .sealFiles) : (v.edit e).checksums = v.checksums := by
  cases e with
  | reorderFiles files =>
    rw [edit]
    split <;> rfl
  | sealFiles => exact absurd rfl h
  | _ => rfl

/-- What was recorded stays until the next seal. -/
theorem checksums_edited {edits : List Edit} (h : Edit.sealFiles ∉ edits) :
    (v.edited edits).checksums = v.checksums := by
  induction edits generalizing v with
  | nil => rfl
  | cons e es ih =>
    have first : e ≠ .sealFiles := fun same => h (same ▸ List.mem_cons_self)
    exact (ih fun rest => h (List.mem_cons_of_mem e rest)).trans (checksums_edit first)

theorem edited_append (before after : List Edit) :
    v.edited (before ++ after) = (v.edited before).edited after := List.foldl_append

/-- A version is found unchanged if its record is that of its contents. -/
theorem verify_eq_true : v.verify = true ↔ v.checksums = v.contents.map Checksum.ofText := by
  obtain ⟨_, _, files, _, _, checksums, _⟩ := v
  simp only [verify, contents]
  induction files generalizing checksums with
  | nil => simp
  | cons f fs ih =>
    cases checksums with
    | nil => simp
    | cons c cs =>
      rw [List.map_cons, List.map_cons, List.cons.injEq, ← ih cs]
      simp only [List.length_cons, List.zip_cons_cons, List.all_cons, Checksum.verify,
        Bool.and_eq_true, beq_iff_eq, Nat.add_right_cancel_iff, eq_comm (a := c), and_left_comm]

/-- **After the last seal** a version is found unchanged if and only if its contents are. -/
theorem verify_edited (free : Sha256.CollisionFree S) {before after : List Edit}
    (last : Edit.sealFiles ∉ after) (old : ∀ s ∈ (v.edited before).contents, textBytes s ∈ S)
    (new : ∀ s ∈ (v.edited (before ++ .sealFiles :: after)).contents, textBytes s ∈ S) :
    (v.edited (before ++ .sealFiles :: after)).verify = true ↔
      (v.edited (before ++ .sealFiles :: after)).contents = (v.edited before).contents := by
  have record : (v.edited (before ++ .sealFiles :: after)).checksums =
      (v.edited before).contents.map Checksum.ofText := by
    rw [edited_append]
    exact (checksums_edited last).trans (checksums_sealed _)
  rw [verify_eq_true, record, Checksum.map_ofText_inj free old new, eq_comm]

/-- **Manifests of sealed versions** are the same if and only if the contents are. -/
theorem manifest_sealed (free : Sha256.CollisionFree S) (hv : ∀ s ∈ v.sealedTexts, textBytes s ∈ S)
    (hw : ∀ s ∈ w.sealedTexts, textBytes s ∈ S) :
    v.sealed.manifest = w.sealed.manifest ↔ v.contents = w.contents := by
  obtain ⟨hv, hvs⟩ := List.forall_mem_cons.1 hv
  obtain ⟨hw, hws⟩ := List.forall_mem_cons.1 hw
  constructor
  · intro h
    have joined := (Checksum.ofText_inj free hv hw).1 h
    rw [checksums_sealed, checksums_sealed] at joined
    exact (Checksum.map_ofText_inj free hvs hws).1 (Checksum.joined_inj joined)
  · intro h
    rw [manifest, manifest, checksums_sealed, checksums_sealed, h]

/-- **Checksums detect every change of contents**, among byte strings without collisions: after any
edits a version is found unchanged if and only if the contents of its files are, one after the
other, what they were at the last seal; and two sealed versions have the same manifest if and only
if they have the same contents. -/
theorem seals_detect (free : Sha256.CollisionFree S) :
    (∀ (v : Version) (before after : List Edit), Edit.sealFiles ∉ after →
      (∀ s ∈ (v.edited before).contents, textBytes s ∈ S) →
      (∀ s ∈ (v.edited (before ++ .sealFiles :: after)).contents, textBytes s ∈ S) →
      ((v.edited (before ++ .sealFiles :: after)).verify = true ↔
        (v.edited (before ++ .sealFiles :: after)).contents = (v.edited before).contents)) ∧
    ∀ v w : Version, (∀ s ∈ v.sealedTexts, textBytes s ∈ S) →
      (∀ s ∈ w.sealedTexts, textBytes s ∈ S) →
      (v.sealed.manifest = w.sealed.manifest ↔ v.contents = w.contents) :=
  ⟨fun _ _ _ last old new => verify_edited free last old new,
    fun _ _ hv hw => manifest_sealed free hv hw⟩

/-- A version with one file. -/
def single (content : String) : Version where
  module := "common"
  version := "v1.0.0"
  files := [⟨"common.proto", content⟩]

/-- The byte strings that seals of the two versions are about. -/
def twoTexts : List (List UInt8) :=
  ((single "message A \x7b\x7d").sealedTexts ++ (single "message B \x7b\x7d").sealedTexts).map
    textBytes

theorem seals_detect_single : Sha256.CollisionFree {bytes | bytes ∈ twoTexts} ∧
    ((single "message A \x7b\x7d").edited
      [.sealFiles, .setContent 0 "message B \x7b\x7d"]).verify = false ∧
    ((single "message A \x7b\x7d").edited
      [.sealFiles, .renameFile 0 "a.proto", .addDependency "core@v1"]).verify = true ∧
    (single "message A \x7b\x7d").sealed.manifest ≠
      (single "message B \x7b\x7d").sealed.manifest := by
  have free : Sha256.CollisionFree {bytes | bytes ∈ twoTexts} := by decide +kernel
  have first : ∀ s ∈ (single "message A \x7b\x7d").sealedTexts, textBytes s ∈ twoTexts :=
    fun s hs => List.mem_map_of_mem (List.mem_append_left _ hs)
  have second : ∀ s ∈ (single "message B \x7b\x7d").sealedTexts, textBytes s ∈ twoTexts :=
    fun s hs => List.mem_map_of_mem (List.mem_append_right _ hs)
  have differ :
      (single "message A \x7b\x7d").contents ≠ (single "message B \x7b\x7d").contents := by decide
  obtain ⟨edits, manifests⟩ := seals_detect free
  refine ⟨free, Bool.eq_false_iff.2 fun h => ?_, ?_, fun h => ?_⟩
  · have same := edits (single "message A \x7b\x7d") [] [.setContent 0 "message B \x7b\x7d"]
      (by simp) (List.forall_mem_of_forall_mem_cons first)
      (List.forall_mem_of_forall_mem_cons second)
    exact differ (same.1 h).symm
  · exact (edits (single "message A \x7b\x7d") []
      [.renameFile 0 "a.proto", .addDependency "core@v1"]
      (by simp) (List.forall_mem_of_forall_mem_cons first)
      (List.forall_mem_of_forall_mem_cons first)).2 rfl
  · exact differ ((manifests _ _ first second).1 h)

end Version

end SchemaDepot
