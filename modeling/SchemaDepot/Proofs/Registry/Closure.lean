import SchemaDepot.Proofs.Registry.Levels

/-! # The closure of dependencies

The versions of a resolution are those that references lead to from the root, each once.

* `Store.Needed`: references lead from the root to a version.
* `Resolver.mem_stage_limit`: if no level fails, the versions met are the ones needed.
* `Resolver.Closes`: what a resolution holds, and when and why it is refused, in either mode;
  `Resolver.resolve_closes`: this is so for every store and every version. -/

namespace SchemaDepot

/-- All texts of the version are references. -/
def Version.IsReadable (v : Version) : Prop :=
  ∀ text ∈ v.dependencies, ∃ ref, Reference.read text = .ok ref

theorem Version.isReadable_iff {v : Version} :
    v.IsReadable ↔ v.dependencies.findSome? Reference.flaw = none := by
  rw [List.findSome?_eq_none_iff]
  exact forall₂_congr fun text _ => Reference.flaw_eq_none.symm

namespace Store

/-- The version of a name, where the root stands for itself. -/
def standing (s : Store) (v : Version) (id : VersionId) : Option Version :=
  if id = v.id then some v else s.version? id

/-- References lead from the root to the version of this name. -/
inductive Needed (s : Store) (v : Version) : VersionId → Prop where
  | root : Needed s v v.id
  | step {id : VersionId} {u : Version} {ref : Reference} : Needed s v id →
    s.standing v id = some u → ref ∈ Reference.readable u.dependencies → Needed s v ref.id

end Store

namespace Resolver

/-- **A resolution is the closure of the dependencies**, level by level. -/
structure Closes (r : Resolver) (s : Store) (v : Version) : Prop where
  /-- The first malformed text of the root refuses, whatever could be read. -/
  root_malformed : ∀ e, v.dependencies.findSome? Reference.flaw = some e →
    ∀ fetch, r.resolve fetch v = .error e
  /-- All levels are followed: what must be there and well formed for a resolution. -/
  ok_transitive : r.mode = .transitive → ((∃ res, r.resolve s.getVersion v = .ok res) ↔
    v.IsReadable ∧
    (∀ k, ∀ ref ∈ r.level s v k, ∃ u, s.version? ref.id = some u ∧ u.IsReadable) ∧
    r.level s v r.limit = [])
  /-- Only the first level is read: what must be there for a resolution. -/
  ok_direct : r.mode = .direct → ((∃ res, r.resolve s.getVersion v = .ok res) ↔
    v.IsReadable ∧ ∀ ref ∈ r.level s v 0, ∃ u, s.version? ref.id = some u)
  /-- The versions come level by level. -/
  versions_eq : ∀ res, r.resolve s.getVersion v = .ok res →
    res.versions = (List.range r.limit).flatMap fun k => (r.level s v k).map Reference.id
  /-- There is one level if only the first is read. -/
  versions_direct : r.mode = .direct → ∀ res, r.resolve s.getVersion v = .ok res →
    res.versions = (r.level s v 0).map Reference.id
  nodup_versions : ∀ res, r.resolve s.getVersion v = .ok res → res.versions.Nodup
  mem_versions : r.mode = .transitive → ∀ res, r.resolve s.getVersion v = .ok res →
    ∀ id, id ∈ res.versions ↔ s.Needed v id ∧ id ≠ v.id
  /-- The first level that fails says why there is no resolution. -/
  refused : v.IsReadable → ∀ e, r.resolve s.getVersion v = .error e ↔
    ∃ k, r.fault s v k = some e ∧ ∀ j < k, r.fault s v j = none
  direct_not_tooDeep : r.mode = .direct → ∀ root limit,
    r.resolve s.getVersion v ≠ .error (.dependencyTooDeep root limit)
  /-- What the versions read refer to themselves does not count. -/
  direct_unread : r.mode = .direct → ∀ (texts : Version → List String) fetch,
    r.resolve (fun id => (fetch id).map fun u => { u with dependencies := texts u }) v =
      r.resolve fetch v

/-! ### Levels without a fault -/

section Stages
variable {r : Resolver} {s : Store} {v : Version} {k : Nat}

theorem fault_eq_none : r.fault s v k = none ↔ r.level s v k = [] ∨ k < r.limit ∧
    (∀ ref ∈ r.level s v k, ∃ u, s.version? ref.id = some u) ∧
    ∀ text ∈ (r.stage s v (k + 1)).2, ∃ ref, Reference.read text = .ok ref := by
  unfold fault
  split_ifs with h deep
  · simp [h]
  · simp [h, Nat.not_lt.2 deep]
  · simp only [Option.or_eq_none_iff, List.findSome?_eq_none_iff, Store.absence_eq_none,
      Reference.flaw_eq_none, stage_succ_snd, h, false_or, Nat.lt_of_not_le deep, true_and]

theorem mem_found {u : Version} :
    u ∈ r.found s v k ↔ ∃ ref ∈ r.level s v k, s.version? ref.id = some u :=
  List.mem_filterMap

/-- The versions found on a level are the ones that its references lead to. -/
theorem found_map_id (h : ∀ ref ∈ r.level s v k, ∃ u, s.version? ref.id = some u) :
    (r.found s v k).map Version.id = (r.level s v k).map Reference.id := by
  unfold found
  generalize r.level s v k = level at h ⊢
  induction level with
  | nil => rfl
  | cons ref refs ih =>
    obtain ⟨u, hu⟩ := h ref List.mem_cons_self
    have tail := ih fun ref' h' => h ref' (List.mem_cons_of_mem ref h')
    simp only [List.filterMap_cons, hu, List.map_cons, Store.version?_id hu, tail]

theorem mem_stage_fst {id : VersionId} : id ∈ (r.stage s v k).1 ↔
    id = v.id ∨ ∃ j < k, id ∈ (r.level s v j).map Reference.id := by
  induction k with
  | zero => simp [stage]
  | succ k ih =>
    rw [stage_succ_fst, List.mem_append, ih, or_assoc]
    simp only [Nat.lt_succ_iff_lt_or_eq, or_and_right, exists_or, exists_eq_left]

theorem stage_fst_eq : (r.stage s v k).1 =
    v.id :: (List.range k).flatMap fun j => (r.level s v j).map Reference.id := by
  induction k with
  | zero => rfl
  | succ k ih => rw [stage_succ_fst, ih, List.range_succ, List.flatMap_append]; simp

theorem nodup_stage_fst : (r.stage s v k).1.Nodup := by
  induction k with
  | zero => exact List.nodup_singleton _
  | succ k ih =>
    rw [stage_succ_fst, List.nodup_append]
    refine ⟨ih, nodup_fresh _ _, ?_⟩
    rintro a met b hb rfl
    exact (id_mem_fresh.1 hb).2 met

/-- A version that a text of a level leads to is met after it. -/
theorem id_mem_stage_succ {ref : Reference}
    (h : ref ∈ Reference.readable (r.stage s v k).2) : ref.id ∈ (r.stage s v (k + 1)).1 := by
  rw [stage_succ_fst, List.mem_append]
  by_cases met : ref.id ∈ (r.stage s v k).1
  · exact Or.inl met
  · exact Or.inr (id_mem_fresh.2 ⟨List.mem_map_of_mem h, met⟩)

/-! ### The versions needed -/

/-- Texts of levels lead only to versions needed. -/
theorem needed_of_stage {ref : Reference}
    (h : ref ∈ Reference.readable (r.stage s v k).2) : s.Needed v ref.id := by
  induction k generalizing ref with
  | zero => exact .step .root (if_pos rfl) h
  | succ k ih =>
    obtain ⟨text, ht, hread⟩ := List.mem_filterMap.1 h
    obtain ⟨u, hu, htext⟩ := List.mem_flatMap.1 ht
    obtain ⟨above, habove, hstored⟩ := mem_found.1 hu
    obtain ⟨hid, unmet⟩ := id_mem_fresh.1 (List.mem_map_of_mem (f := Reference.id) habove)
    obtain ⟨source, hsource, same⟩ := List.mem_map.1 hid
    have needed : s.Needed v above.id := same ▸ ih hsource
    have apart : above.id ≠ v.id := fun h => unmet (mem_stage_fst.2 (Or.inl h))
    have own : text ∈ u.dependencies := by
      unfold textsOf at htext
      split at htext
      · cases htext
      · exact htext
    exact .step needed ((if_neg apart).trans hstored) (List.mem_filterMap.2 ⟨text, own, hread⟩)

theorem needed_of_level {ref : Reference} (h : ref ∈ r.level s v k) : s.Needed v ref.id := by
  obtain ⟨source, hsource, same⟩ :=
    List.mem_map.1 (id_mem_fresh.1 (List.mem_map_of_mem (f := Reference.id) h)).1
  exact same ▸ needed_of_stage hsource

/-- **The versions met are the ones needed**, if references are followed until a level is empty. -/
theorem mem_stage_limit (hmode : r.mode = .transitive) (hlast : r.level s v r.limit = [])
    {id : VersionId} : id ∈ (r.stage s v r.limit).1 ↔ s.Needed v id := by
  constructor
  · intro h
    rcases mem_stage_fst.1 h with rfl | ⟨k, -, hk⟩
    · exact .root
    · obtain ⟨ref, href, rfl⟩ := List.mem_map.1 hk
      exact needed_of_level href
  · -- What is met up to the limit is closed under references, since the next level is empty.
    intro h
    have closed : ∀ k ≤ r.limit, ∀ ref ∈ Reference.readable (r.stage s v k).2,
        ref.id ∈ (r.stage s v r.limit).1 := by
      intro k hk ref href
      have met := mem_stage_fst.1 (id_mem_stage_succ href)
      refine mem_stage_fst.2 (met.imp_right ?_)
      rintro ⟨j, hj, hid⟩
      by_cases hlimit : j = r.limit
      · rw [hlimit, hlast] at hid
        cases hid
      · exact ⟨j, by omega, hid⟩
    induction h with
    | root => exact mem_stage_fst.2 (Or.inl rfl)
    | @step id u ref _ hu href ih =>
      by_cases root : id = v.id
      · have : u = v := Option.some.inj (hu.symm.trans (if_pos root))
        exact closed 0 (Nat.zero_le _) ref (this ▸ href)
      · have hstored : s.version? id = some u := (if_neg root).symm.trans hu
        obtain ⟨k, hk, hid⟩ := (mem_stage_fst.1 ih).resolve_left root
        obtain ⟨above, habove, rfl⟩ := List.mem_map.1 hid
        obtain ⟨text, htext, hread⟩ := List.mem_filterMap.1 href
        have followed : text ∈ (r.stage s v (k + 1)).2 := by
          refine List.mem_flatMap.2 ⟨u, mem_found.2 ⟨above, habove, hstored⟩, ?_⟩
          rwa [textsOf, hmode]
        exact closed (k + 1) hk ref (List.mem_filterMap.2 ⟨text, followed, hread⟩)

/-! ### A level without a fault -/

theorem level_limit_of_no_fault (h : ∀ k < r.limit + 1, r.fault s v k = none) :
    r.level s v r.limit = [] := by
  rcases fault_eq_none.1 (h r.limit (Nat.lt_succ_self _)) with nil | ⟨lt, -⟩
  · exact nil
  · omega

theorem stored_of_no_fault (h : ∀ k < r.limit + 1, r.fault s v k = none) (k : Nat) :
    ∀ ref ∈ r.level s v k, ∃ u, s.version? ref.id = some u := by
  intro ref href
  by_cases hk : k < r.limit + 1
  · rcases fault_eq_none.1 (h k hk) with nil | ⟨-, stored, -⟩
    · rw [nil] at href
      cases href
    · exact stored ref href
  · rw [level_of_nil (level_limit_of_no_fault h) (by omega)] at href
    cases href

theorem versions_found (h : ∀ k < r.limit + 1, r.fault s v k = none) :
    ((List.range r.limit).flatMap (r.found s v)).map Version.id =
      (List.range r.limit).flatMap fun k => (r.level s v k).map Reference.id := by
  rw [List.map_flatMap]
  exact List.flatMap_congr fun k _ => found_map_id (stored_of_no_fault h k)

theorem findSome?_range {α : Type} {f : Nat → Option α} {a : α} {n : Nat} :
    (List.range n).findSome? f = some a ↔ ∃ k < n, f k = some a ∧ ∀ j < k, f j = none := by
  induction n with
  | zero => simp
  | succ n ih =>
    rw [List.range_succ, List.findSome?_append, Option.or_eq_some_iff, ih,
      List.findSome?_eq_none_iff, List.findSome?_singleton]
    simp only [List.mem_range, Nat.lt_succ_iff_lt_or_eq, or_and_right, exists_or, exists_eq_left]
    rw [and_comm (a := ∀ x < n, f x = none)]

/-- A version with readable texts resolves if no level fails. -/
theorem resolve_eq_ok {res : Resolution} (hv : v.IsReadable) :
    r.resolve s.getVersion v = .ok res ↔ (∀ k < r.limit + 1, r.fault s v k = none) ∧
      res = .ofVersions v ((List.range r.limit).flatMap (r.found s v)) := by
  rw [resolve_eq (Version.isReadable_iff.1 hv)]
  cases h : (List.range (r.limit + 1)).findSome? (r.fault s v) with
  | some e =>
    obtain ⟨k, hk, hfault, -⟩ := findSome?_range.1 h
    refine ⟨fun h => (by cases h), fun ⟨no_fault, _⟩ => ?_⟩
    rw [no_fault k hk] at hfault
    cases hfault
  | none =>
    have no_fault : ∀ k < r.limit + 1, r.fault s v k = none := fun k hk =>
      List.findSome?_eq_none_iff.1 h k (List.mem_range.2 hk)
    constructor
    · intro h
      exact ⟨no_fault, (Except.ok.inj h).symm⟩
    · rintro ⟨-, rfl⟩
      rfl

/-- What resolves has readable texts. -/
theorem isReadable_of_ok {res : Resolution} (h : r.resolve s.getVersion v = .ok res) :
    v.IsReadable := by
  rw [Version.isReadable_iff]
  cases hflaw : v.dependencies.findSome? Reference.flaw with
  | none => rfl
  | some e =>
    rw [resolve_of_flaw hflaw] at h
    cases h

theorem exists_resolve_eq_ok : (∃ res, r.resolve s.getVersion v = .ok res) ↔
    v.IsReadable ∧ ∀ k < r.limit + 1, r.fault s v k = none := by
  constructor
  · rintro ⟨res, h⟩
    exact ⟨isReadable_of_ok h, ((resolve_eq_ok (isReadable_of_ok h)).1 h).1⟩
  · rintro ⟨hv, no_fault⟩
    exact ⟨_, (resolve_eq_ok hv).2 ⟨no_fault, rfl⟩⟩

/-- A fault before which there is none is one of the levels up to the limit. -/
theorem resolve_eq_error (hv : v.IsReadable) {e : Error} : r.resolve s.getVersion v = .error e ↔
    ∃ k, r.fault s v k = some e ∧ ∀ j < k, r.fault s v j = none := by
  rw [resolve_eq (Version.isReadable_iff.1 hv)]
  constructor
  · intro h
    cases hf : (List.range (r.limit + 1)).findSome? (r.fault s v) with
    | none =>
      rw [hf] at h
      cases h
    | some e' =>
      rw [hf] at h
      cases h
      obtain ⟨k, -, hfault, before⟩ := findSome?_range.1 hf
      exact ⟨k, hfault, before⟩
  · rintro ⟨k, hfault, before⟩
    have hk : k < r.limit + 1 := by
      by_contra beyond
      have nil : r.level s v k = [] :=
        level_of_nil (level_limit_of_no_fault fun j hj => before j (by omega)) (by omega)
      rw [fault_of_nil nil] at hfault
      cases hfault
    rw [findSome?_range.2 ⟨k, hk, hfault, before⟩]

theorem versions_of_ok {res : Resolution} (h : r.resolve s.getVersion v = .ok res) :
    res.versions = (List.range r.limit).flatMap fun k => (r.level s v k).map Reference.id := by
  obtain ⟨no_fault, rfl⟩ := (resolve_eq_ok (isReadable_of_ok h)).1 h
  exact versions_found no_fault

theorem nodup_root_versions {res : Resolution} (h : r.resolve s.getVersion v = .ok res) :
    (v.id :: res.versions).Nodup := by
  rw [versions_of_ok h, ← stage_fst_eq]
  exact nodup_stage_fst

/-! ### One level -/

theorem textsOf_direct (hmode : r.mode = .direct) (u : Version) : r.textsOf u = [] := by
  rw [textsOf, hmode]

theorem level_succ_direct (hmode : r.mode = .direct) : r.level s v (k + 1) = [] := by
  have none : (r.stage s v (k + 1)).2 = [] := by
    rw [stage_succ_snd, List.flatMap_eq_nil_iff]
    exact fun u _ => textsOf_direct hmode u
  rw [level, none]
  rfl

theorem fault_direct (hmode : r.mode = .direct) {e : Error} (h : r.fault s v k = some e) :
    ∃ ref ∈ r.level s v 0, s.absence ref = some e := by
  cases k with
  | succ k =>
    rw [fault_of_nil (level_succ_direct hmode)] at h
    cases h
  | zero =>
    have unread : ((r.found s v 0).flatMap r.textsOf).findSome? Reference.flaw = none := by
      rw [List.flatMap_eq_nil_iff.2 fun u _ => textsOf_direct hmode u]
      rfl
    have room : ¬ r.limit ≤ 0 := Nat.not_le.2 r.one_le_limit
    unfold fault at h
    rw [if_neg room, unread, Option.or_none] at h
    split_ifs at h
    exact List.exists_of_findSome?_eq_some h

theorem ok_direct_iff (hmode : r.mode = .direct) :
    (∃ res, r.resolve s.getVersion v = .ok res) ↔
      v.IsReadable ∧ ∀ ref ∈ r.level s v 0, ∃ u, s.version? ref.id = some u := by
  rw [exists_resolve_eq_ok]
  refine and_congr_right fun _ => ⟨fun no_fault => stored_of_no_fault no_fault 0, ?_⟩
  intro stored k _
  cases hfault : r.fault s v k with
  | none => rfl
  | some e =>
    obtain ⟨ref, href, habsent⟩ := fault_direct hmode hfault
    rw [Store.absence_eq_none.2 (stored ref href)] at habsent
    cases habsent

/-- The rest of a level that is the only one. -/
theorem levels_direct (hmode : r.mode = .direct) (fetch : VersionId → Except Error Version)
    (root : VersionId) (room : Nat) (seen : List VersionId) (refs : List Reference) :
    r.levels fetch root (room + 1) seen refs =
      gather (fresh seen refs) (readAll fetch (fresh seen refs)) := by
  rw [← unseen_fst]
  by_cases h : (unseen seen refs).1 = []
  · rw [levels_of_nil h, h]
    rfl
  · rw [levels_succ h]
    cases gather (unseen seen refs).1 (readAll fetch (unseen seen refs).1) with
    | error e => rfl
    | ok versions =>
      have no_next : r.references versions = .ok [] := by
        rw [references, hmode]
      show (do
        let next ← r.references versions
        return versions ++ (← r.levels fetch root room (unseen seen refs).2 next)) = _
      rw [no_next]
      show (do return versions ++ (← r.levels fetch root room (unseen seen refs).2 [])) = _
      rw [levels_of_nil rfl]
      show Except.ok (versions ++ []) = _
      rw [List.append_nil]

theorem gather_map (f : Version → Version) (fetch : VersionId → Except Error Version)
    (level : List Reference) :
    gather level (readAll (fun id => (fetch id).map f) level) =
      (gather level (readAll fetch level)).map (List.map f) := by
  rw [gather_perm (List.Perm.refl _), gather_perm (List.Perm.refl _)]
  induction level with
  | nil => rfl
  | cons ref refs ih =>
    rw [List.mapM_cons, List.mapM_cons, ih]
    cases fetch ref.id with
    | error e => rfl
    | ok u =>
      show (do
        let us ← (refs.mapM fun r => settle r (some (fetch r.id))).map (List.map f)
        return f u :: us) = Except.map (List.map f) (do
          let us ← refs.mapM fun r => settle r (some (fetch r.id))
          return u :: us)
      cases refs.mapM fun r => settle r (some (fetch r.id)) <;> rfl

/-- The texts of the versions read do not count if only one level is. -/
theorem resolve_direct_map (hmode : r.mode = .direct) (texts : Version → List String)
    (fetch : VersionId → Except Error Version) :
    r.resolve (fun id => (fetch id).map fun u => { u with dependencies := texts u }) v =
      r.resolve fetch v := by
  obtain ⟨room, hroom⟩ := Nat.exists_eq_add_of_le' r.one_le_limit
  unfold resolve
  simp only [hroom, levels_direct hmode]
  cases v.references with
  | error e => rfl
  | ok first =>
    show (do return Resolution.ofVersions v (← gather _ (readAll _ _))) =
      (do return Resolution.ofVersions v (← gather _ (readAll fetch _)))
    rw [gather_map]
    cases gather (fresh [v.id] first) (readAll fetch (fresh [v.id] first)) with
    | error e => rfl
    | ok versions =>
      have files : (versions.map fun u => { u with dependencies := texts u }).flatMap
          FileUnion.filesOf = versions.flatMap FileUnion.filesOf := by
        rw [List.flatMap_map]
        rfl
      have names : (versions.map fun u => { u with dependencies := texts u }).map Version.id =
          versions.map Version.id := List.map_map
      show Except.ok (Resolution.ofVersions v _) = Except.ok (Resolution.ofVersions v versions)
      simp only [Resolution.ofVersions, files, names]

/-! ### All levels -/

theorem mem_stage_succ_transitive (hmode : r.mode = .transitive) {text : String} :
    text ∈ (r.stage s v (k + 1)).2 ↔ ∃ ref ∈ r.level s v k, ∃ u, s.version? ref.id = some u ∧
      text ∈ u.dependencies := by
  rw [stage_succ_snd, List.mem_flatMap]
  simp only [mem_found, textsOf, hmode]
  constructor
  · rintro ⟨u, ⟨ref, href, hu⟩, htext⟩
    exact ⟨ref, href, u, hu, htext⟩
  · rintro ⟨ref, href, u, hu, htext⟩
    exact ⟨u, ⟨ref, href, hu⟩, htext⟩

theorem ok_transitive_iff (hmode : r.mode = .transitive) :
    (∃ res, r.resolve s.getVersion v = .ok res) ↔ v.IsReadable ∧
      (∀ k, ∀ ref ∈ r.level s v k, ∃ u, s.version? ref.id = some u ∧ u.IsReadable) ∧
      r.level s v r.limit = [] := by
  rw [exists_resolve_eq_ok]
  refine and_congr_right fun _ => ⟨fun no_fault => ?_, fun ⟨stored, last⟩ k hk => ?_⟩
  · have last := level_limit_of_no_fault no_fault
    refine ⟨fun k ref href => ?_, last⟩
    have hk : k < r.limit + 1 := by
      by_contra beyond
      rw [level_of_nil last (by omega)] at href
      cases href
    rcases fault_eq_none.1 (no_fault k hk) with nil | ⟨-, stored, readable⟩
    · rw [nil] at href
      cases href
    · obtain ⟨u, hu⟩ := stored ref href
      refine ⟨u, hu, fun text htext => readable text ?_⟩
      exact (mem_stage_succ_transitive hmode).2 ⟨ref, href, u, hu, htext⟩
  · by_cases atLimit : k = r.limit
    · exact fault_of_nil (atLimit ▸ last)
    · refine fault_eq_none.2 (Or.inr ⟨by omega, fun ref href => ?_, fun text htext => ?_⟩)
      · obtain ⟨u, hu, -⟩ := stored k ref href
        exact ⟨u, hu⟩
      · obtain ⟨ref, href, u, hu, hmem⟩ := (mem_stage_succ_transitive hmode).1 htext
        obtain ⟨u', hu', readable⟩ := stored k ref href
        obtain rfl : u' = u := Option.some.inj (hu'.symm.trans hu)
        exact readable text hmem

end Stages

/-- **The closure of the dependencies** is what every resolution is, in every store. -/
theorem resolve_closes (r : Resolver) (s : Store) (v : Version) : r.Closes s v where
  root_malformed _ h := resolve_of_flaw h
  ok_transitive := ok_transitive_iff
  ok_direct := ok_direct_iff
  versions_eq _ := versions_of_ok
  versions_direct hmode res h := by
    obtain ⟨room, hroom⟩ := Nat.exists_eq_add_of_le' r.one_le_limit
    rw [versions_of_ok h, hroom, List.range_succ_eq_map, List.flatMap_cons, List.flatMap_map]
    simp only [Nat.succ_eq_add_one, level_succ_direct hmode]
    simp
  nodup_versions _ h := (List.nodup_cons.1 (nodup_root_versions h)).2
  mem_versions hmode res h id := by
    have last := ((ok_transitive_iff hmode).1 ⟨res, h⟩).2.2
    have root := (List.nodup_cons.1 (nodup_root_versions h)).1
    rw [← mem_stage_limit hmode last, stage_fst_eq, ← versions_of_ok h]
    constructor
    · intro hid
      exact ⟨List.mem_cons_of_mem _ hid, fun same => root (same ▸ hid)⟩
    · rintro ⟨hid, apart⟩
      exact (List.mem_cons.1 hid).resolve_left apart
  refused hv _ := resolve_eq_error hv
  direct_not_tooDeep hmode root limit h := by
    by_cases hv : v.IsReadable
    · obtain ⟨k, hfault, -⟩ := (resolve_eq_error hv).1 h
      obtain ⟨ref, -, habsent⟩ := fault_direct hmode hfault
      unfold Store.absence at habsent
      split at habsent <;> cases habsent
    · obtain ⟨e, hflaw⟩ := Option.ne_none_iff_exists'.1 (mt Version.isReadable_iff.2 hv)
      obtain ⟨text, -, htext⟩ := List.exists_of_findSome?_eq_some hflaw
      rw [resolve_of_flaw hflaw, (Reference.flaw_eq_some.1 htext).2] at h
      cases h
  direct_unread := resolve_direct_map

end Resolver

end SchemaDepot
