import SchemaDepot.Proofs.Registry.Answers

/-! # Levels of references

What a version needs, said of the store alone, level by level; the resolver computes this.

* `Resolver.level`: the references of a level, each the first one to a version not met before;
  `Resolver.found`: the versions they lead to.
* `Resolver.fault`: why a level fails, if it does.
* `Resolver.levels_eq`: the loop gives the versions found, or the fault of the first level that
  has one; `Resolver.resolve_eq`: so does the whole resolution. -/

namespace SchemaDepot

/-! ### Levels -/

/-- The references without those to a version that an earlier one leads to. -/
def firsts : List Reference → List Reference
  | [] => []
  | r :: rs => r :: (firsts rs).filter (·.id ≠ r.id)

/-- The references that lead to versions not met before, each the first one to its version. -/
def fresh (met : List VersionId) (refs : List Reference) : List Reference :=
  (firsts refs).filter (·.id ∉ met)

namespace Resolver

variable (r : Resolver) (s : Store) (v : Version)

/-- The texts of a version needed whose references are followed. -/
def textsOf (u : Version) : List String :=
  match r.mode with
  | .direct => []
  | .transitive => u.dependencies

/-- The versions met before a level, the first of them the root, and the texts that the level is
read from. -/
def stage : Nat → List VersionId × List String
  | 0 => ([v.id], v.dependencies)
  | k + 1 =>
    let level := fresh (stage k).1 (Reference.readable (stage k).2)
    ((stage k).1 ++ level.map Reference.id,
      (level.filterMap fun ref => s.version? ref.id).flatMap r.textsOf)

/-- The references of a level. -/
def level (k : Nat) : List Reference :=
  fresh (r.stage s v k).1 (Reference.readable (r.stage s v k).2)

/-- The versions that the references of a level lead to. -/
def found (k : Nat) : List Version := (r.level s v k).filterMap fun ref => s.version? ref.id

/-- **Why a level fails**: it is one too many, or one of its references leads nowhere, or a text of
its versions is malformed. -/
def fault (k : Nat) : Option Error :=
  if r.level s v k = [] then none
  else if r.limit ≤ k then some (.dependencyTooDeep v.id r.limit)
  else ((r.level s v k).findSome? s.absence).or
    (((r.found s v k).flatMap r.textsOf).findSome? Reference.flaw)

end Resolver

/-! ### References not met before -/

section Fresh
variable {met : List VersionId} {refs : List Reference}

theorem nodup_firsts (refs : List Reference) : ((firsts refs).map Reference.id).Nodup := by
  induction refs with
  | nil => exact List.nodup_nil
  | cons r rs ih =>
    rw [firsts, List.map_cons, List.nodup_cons]
    refine ⟨?_, ih.sublist (List.filter_sublist.map _)⟩
    intro h
    obtain ⟨r', hr', same⟩ := List.mem_map.1 h
    have := (List.mem_filter.1 hr').2
    exact (of_decide_eq_true this) same

theorem id_mem_firsts {id : VersionId} :
    id ∈ (firsts refs).map Reference.id ↔ id ∈ refs.map Reference.id := by
  induction refs with
  | nil => exact Iff.rfl
  | cons r rs ih =>
    rw [firsts, List.map_cons, List.map_cons, List.mem_cons, List.mem_cons, ← ih]
    by_cases h : id = r.id
    · simp [h]
    · simp only [h, false_or, List.mem_map, List.mem_filter]
      constructor
      · rintro ⟨r', ⟨hr', -⟩, same⟩
        exact ⟨r', hr', same⟩
      · rintro ⟨r', hr', same⟩
        refine ⟨r', ⟨hr', ?_⟩, same⟩
        simpa [same] using h

theorem id_mem_fresh {id : VersionId} :
    id ∈ (fresh met refs).map Reference.id ↔ id ∈ refs.map Reference.id ∧ id ∉ met := by
  rw [← @id_mem_firsts refs]
  simp only [fresh, List.mem_map, List.mem_filter, decide_eq_true_eq]
  constructor
  · rintro ⟨r, ⟨hr, unmet⟩, rfl⟩
    exact ⟨⟨r, hr, rfl⟩, unmet⟩
  · rintro ⟨⟨r, hr, rfl⟩, unmet⟩
    exact ⟨r, ⟨hr, unmet⟩, rfl⟩

theorem nodup_fresh (met : List VersionId) (refs : List Reference) :
    ((fresh met refs).map Reference.id).Nodup :=
  (nodup_firsts refs).sublist (List.filter_sublist.map _)

theorem fresh_congr {met' : List VersionId} (h : ∀ id, id ∈ met ↔ id ∈ met') :
    fresh met refs = fresh met' refs := by
  unfold fresh
  simp only [h]

theorem fresh_cons_met {r : Reference} (h : r.id ∈ met) :
    fresh met (r :: refs) = fresh met refs := by
  rw [fresh, firsts, List.filter_cons_of_neg (by simpa using h), List.filter_filter, fresh]
  refine List.filter_congr fun r' _ => ?_
  by_cases same : r'.id = r.id
  · simp [same, h]
  · simp [same]

theorem fresh_cons_unmet {r : Reference} (h : r.id ∉ met) :
    fresh met (r :: refs) = r :: fresh (r.id :: met) refs := by
  rw [fresh, firsts, List.filter_cons_of_pos (by simpa using h), List.filter_filter, fresh]
  congr 1
  refine List.filter_congr fun r' _ => ?_
  by_cases same : r'.id = r.id <;> simp [same]

theorem unseen_fst (seen : List VersionId) (refs : List Reference) :
    (unseen seen refs).1 = fresh seen refs := by
  induction refs generalizing seen with
  | nil => rfl
  | cons r rs ih =>
    rw [unseen]
    by_cases h : r.id ∈ seen
    · rw [if_pos (by simpa using h), ih, fresh_cons_met h]
    · rw [if_neg (by simpa using h), fresh_cons_unmet h, ← ih]

theorem mem_unseen_snd {seen : List VersionId} {refs : List Reference} {id : VersionId} :
    id ∈ (unseen seen refs).2 ↔ id ∈ seen ∨ id ∈ (fresh seen refs).map Reference.id := by
  induction refs generalizing seen with
  | nil => simp [unseen, fresh, firsts]
  | cons r rs ih =>
    rw [unseen]
    by_cases h : r.id ∈ seen
    · rw [if_pos (by simpa using h), ih, fresh_cons_met h]
    · rw [if_neg (by simpa using h), fresh_cons_unmet h]
      show id ∈ (unseen (r.id :: seen) rs).2 ↔ _
      rw [ih, List.map_cons, List.mem_cons, List.mem_cons]
      tauto

end Fresh

/-! ### The loop -/

namespace Resolver

variable {r : Resolver} {s : Store} {v : Version} {k : Nat}

theorem stage_succ_fst : (r.stage s v (k + 1)).1 =
    (r.stage s v k).1 ++ (r.level s v k).map Reference.id := rfl

theorem stage_succ_snd :
    (r.stage s v (k + 1)).2 = (r.found s v k).flatMap r.textsOf := rfl

theorem one_le_limit (r : Resolver) : 1 ≤ r.limit := Nat.le_max_left 1 r.maxDepth

theorem flatten_references (versions : List Version) :
    (do return (← versions.mapM Version.references).flatten : Except Error (List Reference)) =
      match (versions.flatMap Version.dependencies).findSome? Reference.flaw with
      | some e => .error e
      | none => .ok (Reference.readable (versions.flatMap Version.dependencies)) := by
  induction versions with
  | nil => rfl
  | cons u us ih =>
    rw [List.mapM_cons, u.references_eq, List.flatMap_cons, List.findSome?_append]
    cases u.dependencies.findSome? Reference.flaw with
    | some e => rfl
    | none =>
      have apart : Reference.readable (u.dependencies ++ us.flatMap Version.dependencies) =
          Reference.readable u.dependencies ++
            Reference.readable (us.flatMap Version.dependencies) := List.filterMap_append
      rw [apart]
      rcases hm : us.mapM Version.references with e | refs <;>
        rcases hf : (us.flatMap Version.dependencies).findSome? Reference.flaw with _ | e' <;>
        rw [hm, hf] at ih
      · cases ih
      · cases ih
        rfl
      · rw [← Except.ok.inj ih]
        rfl
      · cases ih

theorem references_eq (r : Resolver) (versions : List Version) :
    r.references versions = match (versions.flatMap r.textsOf).findSome? Reference.flaw with
      | some e => .error e
      | none => .ok (Reference.readable (versions.flatMap r.textsOf)) := by
  unfold references textsOf
  cases r.mode with
  | direct =>
    have none : versions.flatMap (fun _ => ([] : List String)) = [] := by simp
    simp only [none]
    rfl
  | transitive => exact flatten_references versions

theorem fault_of_nil (h : r.level s v k = []) : r.fault s v k = none := by
  rw [fault, if_pos h]

theorem found_of_nil (h : r.level s v k = []) : r.found s v k = [] := by
  rw [found, h]
  rfl

theorem level_succ_of_nil (h : r.level s v k = []) : r.level s v (k + 1) = [] := by
  rw [level, stage_succ_snd, found_of_nil h]
  rfl

theorem level_of_nil {j : Nat} (h : r.level s v k = []) (hj : k ≤ j) : r.level s v j = [] := by
  induction hj with
  | refl => exact h
  | step _ ih => exact level_succ_of_nil ih

section Round
variable {fetch : VersionId → Except Error Version} {root : VersionId} {room : Nat}
  {seen : List VersionId} {refs : List Reference}

theorem levels_of_nil (h : (unseen seen refs).1 = []) :
    r.levels fetch root room seen refs = .ok [] := by
  unfold levels
  split
  · rfl
  · next level seen' not_nil heq =>
    rw [heq] at h
    exact (not_nil h).elim

theorem levels_zero (h : (unseen seen refs).1 ≠ []) :
    r.levels fetch root 0 seen refs = .error (.dependencyTooDeep root r.limit) := by
  unfold levels
  split
  · next seen' heq => exact (h (by rw [heq])).elim
  · rfl

theorem levels_succ (h : (unseen seen refs).1 ≠ []) :
    r.levels fetch root (room + 1) seen refs = (do
      let versions ← gather (unseen seen refs).1 (readAll fetch (unseen seen refs).1)
      let next ← r.references versions
      return versions ++ (← r.levels fetch root room (unseen seen refs).2 next)) := by
  rw [levels]
  split
  · next seen' heq => exact (h (by rw [heq])).elim
  · next level seen' _ heq => rw [heq]

end Round

/-- **One round of the loop**: the fault of a level, or the versions found with those of the levels
below. -/
theorem levels_round {room : Nat} {seen : List VersionId}
    (hlevel : (unseen seen (Reference.readable (r.stage s v k).2)).1 = r.level s v k)
    (hne : r.level s v k ≠ []) (hk : k < r.limit) :
    r.levels s.getVersion v.id (room + 1) seen (Reference.readable (r.stage s v k).2) =
      match r.fault s v k with
      | some e => .error e
      | none => (r.levels s.getVersion v.id room
          (unseen seen (Reference.readable (r.stage s v k).2)).2
          (Reference.readable (r.stage s v (k + 1)).2)).map (r.found s v k ++ ·) := by
  have hfault : r.fault s v k = ((r.level s v k).findSome? s.absence).or
      ((r.stage s v (k + 1)).2.findSome? Reference.flaw) := by
    rw [fault, if_neg hne, if_neg (Nat.not_le.2 hk), stage_succ_snd]
  rw [levels_succ (by rwa [hlevel]), hlevel, gather_store, hfault]
  cases (r.level s v k).findSome? s.absence with
  | some e => rfl
  | none =>
    show (do
      let next ← r.references (r.found s v k)
      return r.found s v k ++ (← r.levels s.getVersion v.id room
        (unseen seen (Reference.readable (r.stage s v k).2)).2 next)) = _
    rw [references_eq, ← stage_succ_snd]
    cases (r.stage s v (k + 1)).2.findSome? Reference.flaw with
    | some e => rfl
    | none => rfl

/-- No level below an empty one fails, and nothing is found there. -/
theorem below_of_nil (h : r.level s v k = []) (n : Nat) :
    (List.range' k n).findSome? (r.fault s v) = none ∧
      (List.range' k n).flatMap (r.found s v) = [] := by
  have below : ∀ j ∈ List.range' k n, r.level s v j = [] := fun j hj =>
    level_of_nil h (List.mem_range'_1.1 hj).1
  constructor
  · exact List.findSome?_eq_none_iff.2 fun j hj => fault_of_nil (below j hj)
  · exact List.flatMap_eq_nil_iff.2 fun j hj => found_of_nil (below j hj)

/-- **The loop**: from a level on, the fault of the first level that has one, or all versions
found. -/
theorem levels_eq (r : Resolver) (s : Store) (v : Version) :
    ∀ room k seen, room + k = r.limit → (∀ id, id ∈ seen ↔ id ∈ (r.stage s v k).1) →
      r.levels s.getVersion v.id room seen (Reference.readable (r.stage s v k).2) =
        match (List.range' k (room + 1)).findSome? (r.fault s v) with
        | some e => .error e
        | none => .ok ((List.range' k room).flatMap (r.found s v)) := by
  intro room
  induction room with
  | zero =>
    intro k seen hk hseen
    have hlevel : (unseen seen (Reference.readable (r.stage s v k).2)).1 = r.level s v k := by
      rw [unseen_fst, fresh_congr hseen, level]
    show _ = match [k].findSome? (r.fault s v) with
      | some e => Except.error e
      | none => Except.ok []
    rw [List.findSome?_singleton]
    by_cases h : r.level s v k = []
    · rw [levels_of_nil (hlevel.trans h), fault_of_nil h]
    · have deep : r.limit ≤ k := by omega
      rw [levels_zero (by rwa [hlevel]), fault, if_neg h, if_pos deep]
  | succ room ih =>
    intro k seen hk hseen
    have hlevel : (unseen seen (Reference.readable (r.stage s v k).2)).1 = r.level s v k := by
      rw [unseen_fst, fresh_congr hseen, level]
    by_cases h : r.level s v k = []
    · rw [levels_of_nil (hlevel.trans h), (below_of_nil h _).1, (below_of_nil h _).2]
    · have hseen' : ∀ id, id ∈ (unseen seen (Reference.readable (r.stage s v k).2)).2 ↔
          id ∈ (r.stage s v (k + 1)).1 := by
        intro id
        rw [mem_unseen_snd, fresh_congr hseen, stage_succ_fst, List.mem_append, hseen, level]
      have hfound : (List.range' k (room + 1)).flatMap (r.found s v) =
          r.found s v k ++ (List.range' (k + 1) room).flatMap (r.found s v) := by
        rw [List.range'_succ, List.flatMap_cons]
      rw [levels_round hlevel h (by omega), hfound, List.range'_succ, List.findSome?_cons]
      cases r.fault s v k with
      | some e => rfl
      | none =>
        show (r.levels s.getVersion v.id room _ _).map _ = _
        rw [ih (k + 1) _ (by omega) hseen']
        cases (List.range' (k + 1) (room + 1)).findSome? (r.fault s v) <;> rfl

/-- A malformed text of the version itself refuses, whatever could be read. -/
theorem resolve_of_flaw {e : Error} (h : v.dependencies.findSome? Reference.flaw = some e)
    (fetch : VersionId → Except Error Version) : r.resolve fetch v = .error e := by
  rw [resolve, v.references_eq, h]
  rfl

/-- **A resolution** is refused with the fault of the first level that has one, and otherwise has
all versions found. -/
theorem resolve_eq (h : v.dependencies.findSome? Reference.flaw = none) :
    r.resolve s.getVersion v = match (List.range (r.limit + 1)).findSome? (r.fault s v) with
      | some e => .error e
      | none => .ok (.ofVersions v ((List.range r.limit).flatMap (r.found s v))) := by
  have loop := r.levels_eq s v r.limit 0 [v.id] (Nat.add_zero _) fun id => Iff.rfl
  rw [resolve, v.references_eq, h, List.range_eq_range', List.range_eq_range']
  show (do
    return Resolution.ofVersions v (← r.levels s.getVersion v.id r.limit [v.id]
      (Reference.readable (r.stage s v 0).2))) = _
  rw [loop]
  cases (List.range' 0 (r.limit + 1)).findSome? (r.fault s v) <;> rfl

end Resolver

end SchemaDepot
