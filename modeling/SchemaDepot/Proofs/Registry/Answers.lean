import Mathlib.Data.List.Nodup
import SchemaDepot.Registry.Resolution

/-! # Answers to reads

A list of texts or of references is read through unless one of them refuses, and then the first one
that does counts.

* `mapM_eq`: this for any reader; `Version.references_eq`, `gather_store`: for the texts of a
  version, and for a level of references to versions of a store.
* `mapM_eq_ok_iff`: a list that is read through is read element by element.
* `Reference.flaw`, `Store.absence`: why a text or a reference refuses.
* `gather_eq`, `gather_perm`: the order of the answers to a level does not count. -/

namespace SchemaDepot

/-! ### Refusals -/

/-- The error, if the answer is one. -/
def refusal {α : Type} : Except Error α → Option Error
  | .ok _ => none
  | .error e => some e

/-- **A list is read through unless an element refuses; the first one that does counts.** -/
theorem mapM_eq {α β : Type} (f : α → Except Error β) (xs : List α) :
    xs.mapM f = match xs.findSome? fun x => refusal (f x) with
      | some e => .error e
      | none => .ok (xs.filterMap fun x => (f x).toOption) := by
  induction xs with
  | nil => rfl
  | cons x xs ih =>
    rw [List.mapM_cons, ih, List.findSome?_cons, List.filterMap_cons]
    cases hx : f x with
    | error e => rfl
    | ok y =>
      show _ = match xs.findSome? fun x => refusal (f x) with
        | some e => Except.error e
        | none => Except.ok (y :: xs.filterMap fun x => (f x).toOption)
      cases xs.findSome? fun x => refusal (f x) <;> rfl

theorem mapM_congr {α β : Type} {f g : α → Except Error β} {xs : List α}
    (h : ∀ x ∈ xs, f x = g x) : xs.mapM f = xs.mapM g := by
  induction xs with
  | nil => rfl
  | cons x xs ih =>
    rw [List.mapM_cons, List.mapM_cons, h x List.mem_cons_self,
      ih fun y hy => h y (List.mem_cons_of_mem x hy)]

/-! ### What is read -/

section Reading
variable {ε α β : Type}

theorem exists_of_bind_ok {x : Except ε α} {f : α → Except ε β} {b : β}
    (h : x >>= f = .ok b) : ∃ a, x = .ok a ∧ f a = .ok b := by
  cases x with
  | error e => cases h
  | ok a => exact ⟨a, rfl, h⟩

variable {f : α → Except ε β} {xs : List α} {ys : List β}

/-- **A list that is read through is read element by element.** -/
theorem mapM_eq_ok_iff : xs.mapM f = .ok ys ↔ List.Forall₂ (fun x y => f x = .ok y) xs ys := by
  constructor
  · intro h
    induction xs generalizing ys with
    | nil =>
      cases h
      exact .nil
    | cons x xs ih =>
      rw [List.mapM_cons] at h
      obtain ⟨y, hy, h⟩ := exists_of_bind_ok h
      obtain ⟨ys, hys, h⟩ := exists_of_bind_ok h
      cases h
      exact .cons hy (ih hys)
  · intro each
    induction each with
    | nil => rfl
    | cons hx _ ih =>
      rw [List.mapM_cons, hx, ih]
      rfl

theorem exists_of_mem_mapM (h : xs.mapM f = .ok ys) {y : β} (hy : y ∈ ys) :
    ∃ x ∈ xs, f x = .ok y := by
  have each := mapM_eq_ok_iff.1 h
  clear h
  induction each with
  | nil => cases hy
  | cons hx _ ih =>
    rcases List.mem_cons.1 hy with rfl | hy
    · exact ⟨_, List.mem_cons_self, hx⟩
    · obtain ⟨x, hmem, hx⟩ := ih hy
      exact ⟨x, List.mem_cons_of_mem _ hmem, hx⟩

theorem mem_mapM_iff (h : xs.mapM f = .ok ys) {y : β} : y ∈ ys ↔ ∃ x ∈ xs, f x = .ok y := by
  refine ⟨exists_of_mem_mapM h, ?_⟩
  have each := mapM_eq_ok_iff.1 h
  clear h
  induction each with
  | nil => simp
  | cons hx _ ih =>
    rintro ⟨x, hmem, hy⟩
    rcases List.mem_cons.1 hmem with rfl | hmem
    · rw [hx] at hy
      cases hy
      exact List.mem_cons_self
    · exact List.mem_cons_of_mem _ (ih ⟨x, hmem, hy⟩)

theorem exists_mapM_eq_ok (h : ∀ x ∈ xs, ∃ y, f x = .ok y) : ∃ ys, xs.mapM f = .ok ys := by
  induction xs with
  | nil => exact ⟨[], rfl⟩
  | cons x xs ih =>
    obtain ⟨⟨y, hy⟩, others⟩ := List.forall_mem_cons.1 h
    obtain ⟨ys, hys⟩ := ih others
    exact ⟨y :: ys, by rw [List.mapM_cons, hy, hys]; rfl⟩

theorem pairwise_of_mapM {R : α → α → Prop} {S : β → β → Prop} (h : xs.mapM f = .ok ys)
    (hxs : xs.Pairwise R) (hf : ∀ x ∈ xs, ∀ x' ∈ xs, R x x' → ∀ y y', f x = .ok y →
      f x' = .ok y' → S y y') : ys.Pairwise S := by
  have each := mapM_eq_ok_iff.1 h
  clear h
  induction each with
  | nil => exact .nil
  | @cons x y xs ys hy each ih =>
    obtain ⟨first, hxs⟩ := List.pairwise_cons.1 hxs
    refine List.pairwise_cons.2 ⟨fun y' hy' => ?_, ih hxs fun x hx x' hx' =>
      hf x (List.mem_cons_of_mem _ hx) x' (List.mem_cons_of_mem _ hx')⟩
    obtain ⟨x', hx', hy'⟩ := exists_of_mem_mapM (mapM_eq_ok_iff.2 each) hy'
    exact hf x List.mem_cons_self x' (List.mem_cons_of_mem _ hx') (first x' hx') y y' hy hy'

end Reading

namespace Reference

/-- Why a text is no reference, if it is none. -/
def flaw (text : String) : Option Error :=
  match read text with
  | .ok _ => none
  | .error _ => some (.invalidReference text)

/-- The references that texts write; those of malformed texts are left out. -/
def readable (texts : List String) : List Reference :=
  texts.filterMap fun text => (read text).toOption

theorem read_error {text : String} {e : Error} (h : read text = .error e) :
    e = .invalidReference text := by
  unfold read at h
  split at h
  · cases h
    rfl
  · split at h <;> cases h
    rfl

theorem refusal_read (text : String) : refusal (read text) = flaw text := by
  unfold flaw
  cases h : read text with
  | ok r => rfl
  | error e => rw [read_error h]; rfl

theorem flaw_eq_none {text : String} : flaw text = none ↔ ∃ r, read text = .ok r := by
  unfold flaw
  cases read text <;> simp

theorem flaw_eq_some {text : String} {e : Error} :
    flaw text = some e ↔ flaw text ≠ none ∧ e = .invalidReference text := by
  unfold flaw
  cases read text <;> simp [eq_comm]

end Reference

theorem Version.references_eq (v : Version) :
    v.references = match v.dependencies.findSome? Reference.flaw with
      | some e => .error e
      | none => .ok (Reference.readable v.dependencies) := by
  unfold references
  rw [mapM_eq]
  simp only [Reference.refusal_read]
  rfl

/-! ### Answers to a level -/

/-- Why a reference leads nowhere, if it does. -/
def Store.absence (s : Store) (r : Reference) : Option Error :=
  match s.getVersion r.id with
  | .ok _ => none
  | .error cause => some (.dependencyNotFound r.text cause)

theorem Store.getVersion_toOption (s : Store) (id : VersionId) :
    (s.getVersion id).toOption = s.version? id := by
  unfold getVersion
  cases s.version? id <;> cases s.module? id.module <;> rfl

theorem Store.absence_eq_none {s : Store} {r : Reference} :
    s.absence r = none ↔ ∃ u, s.version? r.id = some u := by
  rw [← s.getVersion_toOption]
  unfold absence
  cases s.getVersion r.id <;> simp [Except.toOption]

theorem Store.isNotFound_of_getVersion {s : Store} {id : VersionId} {e : Error}
    (h : s.getVersion id = .error e) : e.isNotFound = true := by
  unfold getVersion at h
  split at h <;> cases h <;> rfl

theorem Store.version?_id {s : Store} {id : VersionId} {u : Version} (h : s.version? id = some u) :
    u.id = id := by
  have := List.find?_some h
  simpa using this

theorem refusal_settle (s : Store) (r : Reference) :
    refusal (settle r (some (s.getVersion r.id))) = s.absence r := by
  unfold Store.absence
  cases h : s.getVersion r.id with
  | ok u => rfl
  | error e =>
    simp only [settle, Store.isNotFound_of_getVersion h]
    rfl

theorem settle_toOption (s : Store) (r : Reference) :
    (settle r (some (s.getVersion r.id))).toOption = s.version? r.id := by
  rw [← s.getVersion_toOption]
  cases s.getVersion r.id <;> rfl

theorem find?_key_eq_some {α κ : Type} [DecidableEq κ] {key : α → κ} {xs : List α} {k : κ} {x : α}
    (h : (xs.map key).Nodup) : xs.find? (key · == k) = some x ↔ x ∈ xs ∧ key x = k := by
  constructor
  · intro hx
    exact ⟨List.mem_of_find?_eq_some hx, by simpa using List.find?_some hx⟩
  · rintro ⟨hx, rfl⟩
    obtain ⟨y, hy⟩ : ∃ y, xs.find? (key · == key x) = some y :=
      Option.isSome_iff_exists.1 (List.find?_isSome.2 ⟨x, hx, by simp⟩)
    have same : key y = key x := by simpa using List.find?_some hy
    rw [hy, List.inj_on_of_nodup_map h (List.mem_of_find?_eq_some hy) hx same]

theorem find?_key_eq_none {α κ : Type} [DecidableEq κ] {key : α → κ} {xs : List α} {k : κ}
    (h : k ∉ xs.map key) : xs.find? (key · == k) = none :=
  List.find?_eq_none.2 fun x hx same => h (List.mem_map.2 ⟨x, hx, by simpa using same⟩)

theorem key_notMem_of_nodup {α κ : Type} {key : α → κ} {before more : List α} {x : α}
    (h : ((before ++ x :: more).map key).Nodup) : key x ∉ before.map key := by
  rw [List.map_append, List.map_cons, List.nodup_append] at h
  exact fun mem => h.2.2 (key x) mem (key x) List.mem_cons_self rfl

/-- If no two answers are for one place, each reference is settled by the one for its place. -/
theorem gather_eq {level : List Reference} {answers : List (Nat × Except Error Version)}
    (answer : Reference × Nat → Except Error Version) (places : (answers.map Prod.fst).Nodup)
    (own : ∀ p ∈ level.zipIdx, (p.2, answer p) ∈ answers) :
    gather level answers = level.zipIdx.mapM fun p => settle p.1 (some (answer p)) :=
  mapM_congr fun p hp => by
    have found : answers.find? (·.1 == p.2) = some (p.2, answer p) :=
      (find?_key_eq_some places).2 ⟨own p hp, rfl⟩
    show settle p.1 ((answers.find? (·.1 == p.2)).map Prod.snd) = _
    rw [found]
    rfl

theorem map_fst_readAll (fetch : VersionId → Except Error Version) (level : List Reference) :
    (readAll fetch level).map Prod.fst = List.range level.length := by
  rw [readAll, List.map_map, List.range_eq_range', ← List.zipIdx_map_snd]
  rfl

/-- **The order of the answers does not count**: each reference is settled by its own answer. -/
theorem gather_perm {fetch : VersionId → Except Error Version} {level : List Reference}
    {answers : List (Nat × Except Error Version)} (h : answers.Perm (readAll fetch level)) :
    gather level answers = level.mapM fun r => settle r (some (fetch r.id)) := by
  have places : (answers.map Prod.fst).Nodup := by
    rw [(h.map Prod.fst).nodup_iff, map_fst_readAll]
    exact List.nodup_range
  have settled := gather_eq (fun p => fetch p.1.id) places fun p hp =>
    h.mem_iff.2 (List.mem_map.2 ⟨p, hp, rfl⟩)
  have drop := List.mapM_map (m := Except Error) (f := Prod.fst) (l := level.zipIdx)
    (g := fun r : Reference => settle r (some (fetch r.id)))
  rw [List.zipIdx_map_fst] at drop
  exact settled.trans drop.symm

theorem gather_store (s : Store) (level : List Reference) :
    gather level (readAll s.getVersion level) = match level.findSome? s.absence with
      | some e => .error e
      | none => .ok (level.filterMap fun r => s.version? r.id) := by
  rw [gather_perm (List.Perm.refl _), mapM_eq]
  simp only [refusal_settle, settle_toOption]

end SchemaDepot
