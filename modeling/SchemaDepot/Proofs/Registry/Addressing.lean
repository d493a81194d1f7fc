import SchemaDepot.Proofs.Registry.Admission

/-! # Names that are published and names that are referred to

A version that was published is referred to by the text that writes its name, and every reference
writes the name that it has. But a reference may name more than can be published: its module may
hold at signs and its version blanks, and for such a reference there is never a version.

* `Registry.exists_publish_iff`, `VersionId.isPublishable_iff`: the names of published versions.
* `Resolver.resolve_single`: a version with one reference, where only the first level is read.
* `VersionId.IsReferable`: the text of a name leads to it; `VersionId.display_undoes_read`: so it is
  for published versions, and what is read is written again.
* `Reference.Awaits`: what can come of a reference; `Registry.publish_awaits`: so it is for all that
  a publication lets in. `Registry.exists_unpublishable`: two for which there is never a version. -/

namespace SchemaDepot

/-! ### Names of published versions -/

theorem Version.IsPublished.isPublishable {v : Version} (h : v.IsPublished) :
    v.id.IsPublishable := by
  obtain ⟨reader, q, time, taken, rfl⟩ := isPublished_iff.1 h
  have fine := PublishRequest.check_eq_ok_iff.1 taken
  exact ⟨fine.module, fine.version⟩

namespace Registry

variable {r : Registry} {id : VersionId}

/-- **What can be published under a name**: something, if the name is fine and not taken. -/
theorem exists_publish_iff : (∃ q v, PublishRequest.id q = id ∧ (r.publish q).2 = .ok v) ↔
    id.IsPublishable ∧ r.store.version? id = none := by
  constructor
  · rintro ⟨q, v, rfl, h⟩
    obtain ⟨fine, free⟩ := exists_publish_eq_ok.1 ⟨v, h⟩
    exact ⟨⟨fine.module, fine.version⟩, free⟩
  · rintro ⟨⟨module, version⟩, free⟩
    have fine : PublishRequest.IsFine r.reader.marker
        { module := id.module, version := id.version } :=
      ⟨module, version, by rintro _ ⟨⟩, by rintro _ ⟨⟩⟩
    obtain ⟨v, h⟩ := exists_publish_eq_ok.2 ⟨fine, free⟩
    exact ⟨_, v, rfl, h⟩

end Registry

/-- **A name is fine if a version was ever published under it.** -/
theorem VersionId.isPublishable_iff {id : VersionId} :
    id.IsPublishable ↔ ∃ v : Version, v.IsPublished ∧ v.id = id := by
  constructor
  · intro fine
    obtain ⟨q, v, rfl, h⟩ := Registry.exists_publish_iff (r := {}).2 ⟨fine, rfl⟩
    exact ⟨v, ⟨_, q, _, h⟩, (Registry.publish_registers h).id⟩
  · rintro ⟨v, published, rfl⟩
    exact published.isPublishable

namespace Store.HoldsPublished

variable {s : Store} {id : VersionId}

theorem isPublishable (h : s.HoldsPublished) {v : Version} (hv : s.version? id = some v) :
    id.IsPublishable :=
  Store.version?_id hv ▸ (h id v hv).isPublishable

theorem version?_eq_none (h : s.HoldsPublished) (refused : ¬ id.IsPublishable) :
    s.version? id = none := by
  cases hv : s.version? id with
  | none => rfl
  | some v => exact absurd (h.isPublishable hv) refused

end Store.HoldsPublished

/-! ### References that are followed -/

namespace Resolver

variable {r : Resolver} {s : Store} {root : Version} {id : VersionId} {text : String}

/-- What a version that resolves refers to is there, unless it is the version itself. -/
theorem exists_version?_of_resolve {res : Resolution} (h : r.resolve s.getVersion root = .ok res)
    (own : text ∈ root.dependencies) (named : Reference.Names text id) (other : id ≠ root.id) :
    ∃ u, s.version? id = some u := by
  have no_fault := (exists_resolve_eq_ok.1 ⟨res, h⟩).2
  have referred : id ∈ (Reference.readable root.dependencies).map Reference.id := by
    refine List.mem_map.2 ⟨⟨text, id⟩, List.mem_filterMap.2 ⟨text, own, ?_⟩, rfl⟩
    rw [named.read]
    rfl
  have first : id ∈ (r.level s root 0).map Reference.id :=
    id_mem_fresh.2 ⟨referred, fun met => other (List.mem_singleton.1 met)⟩
  obtain ⟨ref, href, rfl⟩ := List.mem_map.1 first
  exact stored_of_no_fault no_fault 0 ref href

/-- **A version with a single reference** comes to the version that it refers to, if references are
followed no further. -/
theorem resolve_single {u : Version} (mode : r.mode = .direct) (named : Reference.Names text id)
    (single : root.dependencies = [text]) (other : root.id ≠ id)
    (stored : s.getVersion id = .ok u) :
    ∃ res, r.resolve s.getVersion root = .ok res ∧ res.versions = [id] := by
  obtain ⟨room, limit⟩ := Nat.exists_eq_add_of_le' r.one_le_limit
  have first : root.references = .ok [⟨text, id⟩] := by
    rw [Version.references, single, List.mapM_cons, named.read]
    rfl
  have level : fresh [root.id] [⟨text, id⟩] = [⟨text, id⟩] :=
    fresh_cons_unmet fun met => other (List.mem_singleton.1 met).symm
  have found : gather [⟨text, id⟩] (readAll s.getVersion [⟨text, id⟩]) = .ok [u] := by
    unfold readAll
    simp only [List.zipIdx_cons, List.zipIdx_nil, List.map_cons, List.map_nil, stored]
    rfl
  refine ⟨.ofVersions root [u], ?_, ?_⟩
  · rw [resolve, first, limit]
    show (do return Resolution.ofVersions root (← r.levels s.getVersion root.id (room + 1) [root.id]
      [⟨text, id⟩])) = _
    rw [levels_direct mode, level, found]
    rfl
  · show [u.id] = [id]
    rw [Store.version?_id (Store.getVersion_eq_ok.1 stored)]

end Resolver

/-! ### Writing and reading -/

/-- **The text of a name leads to it.** -/
structure VersionId.IsReferable (id : VersionId) : Prop where
  /-- It is a reference to the name, -/
  reads : Reference.read id.display = .ok ⟨id.display, id⟩
  /-- which is told apart by it from those of all published versions. -/
  distinct : ∀ v : Version, v.IsPublished → v.id.display = id.display → v.id = id
  /-- Where the version is stored, any other that refers to nothing else comes to it alone, if
  references are followed no further. -/
  resolves : ∀ (s : Store) (u : Version), s.getVersion id = .ok u → ∀ (r : Resolver)
    (root : Version), r.mode = .direct → root.id ≠ id → root.dependencies = [id.display] →
    ∃ res, r.resolve s.getVersion root = .ok res ∧ res.versions = [id]

namespace VersionId

theorem IsPublishable.isReferable {id : VersionId} (h : id.IsPublishable) : id.IsReferable := by
  have named := Reference.names_display h
  constructor
  case reads => exact named.read
  case distinct =>
    intro v published same
    exact (same ▸ Reference.names_display published.isPublishable).unique named
  case resolves =>
    intro s u stored r root mode other single
    exact Resolver.resolve_single mode named single other stored

/-- **Writing and reading of names undo one another**: the names of published versions are read from
what writes them, and every reference is what its name writes. -/
theorem display_undoes_read : (∀ v : Version, v.IsPublished → v.id.IsReferable) ∧
    ∀ text ref, Reference.read text = .ok ref → ref.text = text ∧ ref.id.display = text := by
  refine ⟨fun v published => published.isPublishable.isReferable, fun text ref h => ?_⟩
  obtain ⟨written, named⟩ := Reference.read_eq_ok_iff.1 h
  exact ⟨written, named.display.symm⟩

/-- A module and a version whose names hold more than letters. -/
theorem display_undoes_read_mixed :
    (∃ v : Version, v.IsPublished ∧ v.id = ⟨" größe/ b", "1+β"⟩ ∧ v.id.IsReferable) ∧
      Reference.read "@a b@c d" = .ok ⟨"@a b@c d", ⟨"@a b", "c d"⟩⟩ ∧
      (⟨"@a b", "c d"⟩ : VersionId).display = "@a b@c d" := by
  have fine : IsPublishable ⟨" größe/ b", "1+β"⟩ :=
    ⟨isModuleName_iff.1 (by decide +kernel), isVersionName_iff.1 (by decide +kernel)⟩
  obtain ⟨v, published, id⟩ := isPublishable_iff.1 fine
  have read : Reference.read "@a b@c d" = .ok ⟨"@a b@c d", ⟨"@a b", "c d"⟩⟩ := by decide +kernel
  exact ⟨⟨v, published, id, display_undoes_read.1 v published⟩, read,
    (display_undoes_read.2 _ _ read).2⟩

end VersionId

/-! ### Versions that are waited for -/

/-- **What can come of a reference** to a name. -/
structure Reference.Awaits (text : String) (id : VersionId) : Prop where
  /-- The name passes the checks of a publication if it is fine, -/
  checked_iff : VersionId.checkModule id.module = .ok () ∧
    VersionId.checkVersion id.version = .ok () ↔ id.IsPublishable
  /-- for which it lacks only that its module holds no at sign and its version no blank. -/
  publishable_iff : id.IsPublishable ↔
    '@' ∉ id.module.toList ∧ ∀ c ∈ id.version.toList, Text.isBlank c = false
  /-- Then a version can be published under it wherever there is none. -/
  published : id.IsPublishable → ∀ r : Registry, r.store.version? id = none →
    ∃ q v, PublishRequest.id q = id ∧ (r.publish q).2 = .ok v
  /-- Otherwise no publications ever give one, -/
  never : ¬ id.IsPublishable → ∀ s : Store, s.HoldsPublished → s.version? id = none
  /-- and no version with this reference resolves. -/
  unresolved : ¬ id.IsPublishable → ∀ s : Store, s.HoldsPublished →
    ∀ (r : Resolver) (root : VersionId) (u : Version), s.getVersion root = .ok u →
      text ∈ u.dependencies → ∃ e, s.resolve r root = .error e

/-- No version resolves that refers to what cannot be published. -/
theorem Store.HoldsPublished.exists_resolve_error {s : Store} (h : s.HoldsPublished) {text : String}
    {id root : VersionId} {u : Version} (named : Reference.Names text id)
    (refused : ¬ id.IsPublishable) (hu : s.getVersion root = .ok u) (own : text ∈ u.dependencies)
    (r : Resolver) : ∃ e, s.resolve r root = .error e := by
  rw [Store.resolve, hu]
  show ∃ e, r.resolve s.getVersion u = .error e
  cases hres : r.resolve s.getVersion u with
  | error e => exact ⟨e, rfl⟩
  | ok res =>
    -- The version itself was published, so its own name is not the one that cannot be.
    have published := h root u (Store.getVersion_eq_ok.1 hu)
    have other : id ≠ u.id := by
      rintro rfl
      exact refused published.isPublishable
    obtain ⟨w, there⟩ := Resolver.exists_version?_of_resolve hres own named other
    rw [h.version?_eq_none refused] at there
    cases there

theorem Reference.Names.awaits {text : String} {id : VersionId} (h : Names text id) :
    Awaits text id where
  checked_iff := by
    rw [VersionId.checkModule_eq_ok, VersionId.checkVersion_eq_ok]
    exact ⟨fun ⟨module, version⟩ => ⟨module, version⟩, fun fine => ⟨fine.module, fine.version⟩⟩
  publishable_iff := h.isPublishable_iff
  published fine _ free := Registry.exists_publish_iff.2 ⟨fine, free⟩
  never refused _ published := published.version?_eq_none refused
  unresolved refused _ published r _ _ hu own := published.exists_resolve_error h refused hu own r

namespace Registry

variable {r : Registry} {q : PublishRequest} {v : Version}

/-- **What a publication lets in as references**: each is read as a name, under which a version may
be published or never will be, by what the name holds. -/
theorem publish_awaits (h : (r.publish q).2 = .ok v) : ∀ text ∈ q.dependencies,
    (∃ ref, Reference.read text = .ok ref) ∧
      ∀ ref, Reference.read text = .ok ref → Reference.Awaits text ref.id := by
  intro text own
  obtain ⟨fine, -⟩ := exists_publish_eq_ok.1 ⟨v, h⟩
  obtain ⟨id, named⟩ := fine.references text own
  exact ⟨⟨_, named.read⟩, fun ref read => (Reference.names_of_read read).awaits⟩

/-- References to a name that is fine and to one with an at sign in its module. -/
theorem publish_awaits_both :
    let q : PublishRequest :=
      { module := "svc", version := "v1", dependencies := ["a b@v1", "@acme/common@v1"] }
    ∃ v, (Registry.publish q {}).2 = .ok v ∧ Reference.Awaits "a b@v1" ⟨"a b", "v1"⟩ ∧
      Reference.Awaits "@acme/common@v1" ⟨"@acme/common", "v1"⟩ := by
  intro q
  obtain ⟨v, h⟩ : ∃ v, (Registry.publish q {}).2 = .ok v :=
    exists_publish_of_check (by decide +kernel) rfl
  have each := publish_awaits h
  refine ⟨v, h, ?_, ?_⟩
  · exact (each "a b@v1" (by decide)).2 ⟨"a b@v1", ⟨"a b", "v1"⟩⟩ (by decide +kernel)
  · exact (each "@acme/common@v1" (by decide)).2
      ⟨"@acme/common@v1", ⟨"@acme/common", "v1"⟩⟩ (by decide +kernel)

/-- **References that are let in and name what is refused**: one with an at sign in its module, and
one with a blank in its version. -/
theorem exists_unpublishable :
    let q : PublishRequest :=
      { module := "svc", version := "v1", dependencies := ["@acme/common@v1", "common@v1 0"] }
    (∃ v, (Registry.publish q {}).2 = .ok v) ∧
      Reference.read "@acme/common@v1" = .ok ⟨"@acme/common@v1", ⟨"@acme/common", "v1"⟩⟩ ∧
      VersionId.checkModule "@acme/common" = .error (.invalidModuleName "@acme/common") ∧
      Reference.read "common@v1 0" = .ok ⟨"common@v1 0", ⟨"common", "v1 0"⟩⟩ ∧
      VersionId.checkVersion "v1 0" = .error (.invalidVersion "v1 0") := by
  intro q
  have taken : ∃ v, (Registry.publish q {}).2 = .ok v :=
    exists_publish_of_check (by decide +kernel) rfl
  exact ⟨taken, by decide +kernel, by decide +kernel, by decide +kernel, by decide +kernel⟩

end Registry

end SchemaDepot
