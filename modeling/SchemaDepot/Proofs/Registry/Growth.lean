import SchemaDepot.Proofs.Registry.Answers

/-! # What calls leave of a store

A call adds a version, puts an entry for a module, or changes nothing that can be read. No version
is changed or taken away, and no module is taken away.

* `Store.module?_putModule`, `Store.version?_of_createVersion`, `Store.module?_of_createVersion`:
  what can be read after a call.
* `Store.GrowsTo`: one store has all that another has. -/

namespace SchemaDepot

namespace Store

variable {s s' s'' : Store} {v : Version} {m : Module}

/-! ### Entries for modules -/

theorem find?_insertModule (m : Module) (ms : List Module) (name : String) :
    (insertModule m ms).find? (·.name == name) =
      if m.name = name then some m else ms.find? (·.name == name) := by
  fun_induction insertModule m ms with
  | case1 => by_cases h : m.name = name <;> simp [h]
  | case2 n ns => by_cases h : m.name = name <;> simp [h]
  | case3 n ns _ same =>
    by_cases h : m.name = name
    · simp [h]
    · simp [h, show n.name ≠ name from same ▸ h]
  | case4 n ns _ ne ih =>
    by_cases h : n.name = name
    · simp [h, show m.name ≠ name from h ▸ ne]
    · simpa [h] using ih

theorem module?_putModule (m : Module) (s : Store) (name : String) :
    (s.putModule m).module? name = if m.name = name then some m else s.module? name :=
  find?_insertModule m s.modules name

theorem module?_ensureModule (name other : String) (s : Store) :
    (s.ensureModule name).module? other =
      if s.module? name = none ∧ name = other then some (Module.new name s.clock)
      else s.module? other := by
  unfold ensureModule
  cases h : s.module? name with
  | some m => simp
  | none =>
    show (putModule (Module.new name s.clock) _).module? other = _
    rw [module?_putModule]
    by_cases same : name = other <;> simp [same, Module.new, module?]

theorem getModule_of_isSome {name : String} (h : (s.module? name).isSome) :
    ∃ m, s.module? name = some m ∧ s.getModule name = .ok m := by
  obtain ⟨m, hm⟩ := Option.isSome_iff_exists.1 h
  exact ⟨m, hm, by rw [getModule, hm]⟩

/-! ### Versions -/

theorem version?_ensureModule (name : String) (s : Store) (id : VersionId) :
    (s.ensureModule name).version? id = s.version? id := by
  unfold ensureModule
  cases s.module? name <;> rfl

theorem createVersion_eq_ok (h : s.createVersion v = .ok s') :
    s.version? v.id = none ∧
      s' = ensureModule v.module { s with versions := s.versions ++ [v] } := by
  unfold createVersion at h
  split at h <;> cases h
  exact ⟨‹_›, rfl⟩

theorem createVersion_eq_error {e : Error} (h : s.createVersion v = .error e) :
    (s.version? v.id).isSome ∧ e = .alreadyExists v.id := by
  unfold createVersion at h
  split at h <;> cases h
  exact ⟨Option.isSome_iff_exists.2 ⟨_, ‹_›⟩, rfl⟩

/-- **What can be read of versions after one was added.** -/
theorem version?_of_createVersion (h : s.createVersion v = .ok s') (id : VersionId) :
    s'.version? id = if v.id = id then some v else s.version? id := by
  obtain ⟨absent, rfl⟩ := createVersion_eq_ok h
  rw [version?_ensureModule]
  show (s.versions ++ [v]).find? _ = _
  rw [List.find?_append]
  by_cases hid : v.id = id
  · subst hid
    have absent : s.versions.find? (·.id == v.id) = none := absent
    simp [absent]
  · simp [hid, version?]

/-- **What can be read of modules after a version was added.** -/
theorem module?_of_createVersion (h : s.createVersion v = .ok s') (name : String) :
    s'.module? name = if s.module? v.module = none ∧ v.module = name then
      some (Module.new v.module s.clock) else s.module? name := by
  obtain ⟨-, rfl⟩ := createVersion_eq_ok h
  exact module?_ensureModule _ _ _

theorem isSome_module?_of_createVersion (h : s.createVersion v = .ok s') :
    (s'.module? v.module).isSome := by
  rw [module?_of_createVersion h]
  cases s.module? v.module <;> simp

theorem getVersion_of_version? {id : VersionId} (h : s.version? id = some v) :
    s.getVersion id = .ok v := by
  rw [getVersion, h]

/-! ### Growth -/

/-- One store has all that another has: the versions as they are, and the modules. -/
structure GrowsTo (s s' : Store) : Prop where
  version : ∀ id v, s.version? id = some v → s'.version? id = some v
  module : ∀ name, (s.module? name).isSome → (s'.module? name).isSome

theorem GrowsTo.refl (s : Store) : s.GrowsTo s := ⟨fun _ _ => id, fun _ => id⟩

theorem GrowsTo.trans (h : s.GrowsTo s') (h' : s'.GrowsTo s'') : s.GrowsTo s'' :=
  ⟨fun id v hv => h'.version id v (h.version id v hv),
    fun name hm => h'.module name (h.module name hm)⟩

theorem GrowsTo.isSome_version (h : s.GrowsTo s') {id : VersionId}
    (hid : (s.version? id).isSome) : (s'.version? id).isSome := by
  obtain ⟨v, hv⟩ := Option.isSome_iff_exists.1 hid
  rw [h.version id v hv]
  rfl

theorem GrowsTo.absent_version (h : s.GrowsTo s') {id : VersionId} (hid : s'.version? id = none) :
    s.version? id = none := by
  by_contra present
  have := h.isSome_version (Option.isSome_iff_ne_none.2 present)
  rw [hid] at this
  cases this

theorem GrowsTo.absent_module (h : s.GrowsTo s') {name : String} (hm : s'.module? name = none) :
    s.module? name = none := by
  by_contra present
  have := h.module name (Option.isSome_iff_ne_none.2 present)
  rw [hm] at this
  cases this

theorem growsTo_putModule (m : Module) (s : Store) : s.GrowsTo (s.putModule m) := by
  refine ⟨fun _ _ => id, fun name hm => ?_⟩
  rw [module?_putModule]
  split
  · rfl
  · exact hm

theorem growsTo_of_createVersion (h : s.createVersion v = .ok s') : s.GrowsTo s' := by
  refine ⟨fun id u hu => ?_, fun name hm => ?_⟩
  · rw [version?_of_createVersion h, if_neg, hu]
    rintro rfl
    exact absurd (hu.symm.trans (createVersion_eq_ok h).1) nofun
  · rw [module?_of_createVersion h]
    split
    · rfl
    · exact hm

end Store

end SchemaDepot
