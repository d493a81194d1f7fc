import SchemaDepot.Proofs.Registry.Admission

/-! # The files of a version

A publication takes the files of a request as they are, and a path may stand among them more than
once. What is read at a path is the first file with it, and so is what a resolution has among its
own files; the others are shadowed by their own version.

* `FileUnion.mem_firstOnes`, `FileUnion.mem_latecomers`: the files of a union, by where they stand.
* `Version.HasFirst`, `Version.Repeats`: the first file of a path, and a path with more than one.
* `Resolver.own_eq`, `Resolver.mem_shadowed_root`: the own files of a resolution, and those of the
  version that were left out.
* `Store.KeepsFiles`: which files of a version can be reached; `Registry.publish_keepsFiles`: so it
  is for every version that is published, at any later time.
* `Registry.exists_file_shadowed`: a file that cannot be reached. -/

namespace SchemaDepot

/-! ### Files by where they stand -/

theorem exists_split_iff {α : Type} {xs : List α} {P : List α → α → Prop} :
    (∃ i, ∃ h : i < xs.length, P (xs.take i) xs[i]) ↔
      ∃ before x after, xs = before ++ x :: after ∧ P before x := by
  constructor
  · rintro ⟨i, h, hP⟩
    refine ⟨xs.take i, xs[i], xs.drop (i + 1), ?_, hP⟩
    rw [List.getElem_cons_drop, List.take_append_drop]
  · rintro ⟨before, x, after, rfl, hP⟩
    exact ⟨before.length, by simp, by simpa using hP⟩

namespace FileUnion

variable {sources : List Sourced} {s : Sourced}

theorem mem_withEarlier {earlier : Option Sourced} : (s, earlier) ∈ withEarlier sources ↔
    ∃ before after, sources = before ++ s :: after ∧ firstAt? s.file.path before = earlier := by
  rw [withEarlier, List.mem_mapIdx]
  have split := @exists_split_iff Sourced sources fun before x =>
    (x, firstAt? x.file.path before) = (s, earlier)
  refine split.trans ?_
  constructor
  · rintro ⟨before, x, after, source, same⟩
    cases same
    exact ⟨before, after, source, rfl⟩
  · rintro ⟨before, after, source, rfl⟩
    exact ⟨before, s, after, source, rfl⟩

/-- **The first ones** are those that none of the same path comes before. -/
theorem mem_firstOnes : s ∈ firstOnes sources ↔
    ∃ before after, sources = before ++ s :: after ∧ firstAt? s.file.path before = none := by
  rw [← mem_withEarlier, firstOnes, List.mem_filterMap]
  constructor
  · rintro ⟨⟨t, _ | first⟩, ht, same⟩ <;> cases same
    exact ht
  · exact fun h => ⟨_, h, rfl⟩

/-- **The latecomers** are those that one of the same path comes before. -/
theorem mem_latecomers {x : Shadowed} : x ∈ latecomers sources ↔
    ∃ before s after first, sources = before ++ s :: after ∧
      firstAt? s.file.path before = some first ∧ x = ⟨s.file.path, first.origin, s.origin⟩ := by
  rw [latecomers, List.mem_filterMap]
  constructor
  · rintro ⟨⟨t, earlier⟩, ht, same⟩
    obtain ⟨first, rfl, rfl⟩ := Option.map_eq_some_iff.1 same
    obtain ⟨before, after, source, found⟩ := mem_withEarlier.1 ht
    exact ⟨before, t, after, first, source, found, rfl⟩
  · rintro ⟨before, t, after, first, source, found, rfl⟩
    exact ⟨(t, some first), mem_withEarlier.2 ⟨before, after, source, found⟩, rfl⟩

/-- What comes later is left out on its own account. -/
theorem latecomers_append (later : List Sourced) : ∃ added,
    (∀ x ∈ added, ∃ s ∈ later, x.droppedFrom = s.origin) ∧
      latecomers (sources ++ later) = latecomers sources ++ added := by
  induction later using List.reverseRecOn with
  | nil => exact ⟨[], by simp, by simp⟩
  | append_singleton later s ih =>
    obtain ⟨added, hadded, heq⟩ := ih
    rw [← List.append_assoc, latecomers_concat, heq, List.append_assoc]
    refine ⟨_, fun x hx => ?_, rfl⟩
    rcases List.mem_append.1 hx with hx | hx
    · obtain ⟨t, ht, same⟩ := hadded x hx
      exact ⟨t, List.mem_append_left _ ht, same⟩
    · obtain ⟨first, -, rfl⟩ := Option.map_eq_some_iff.1 (Option.mem_toList.1 hx)
      exact ⟨s, List.mem_append_right _ List.mem_cons_self, rfl⟩

theorem firstOnes_eq_self (h : (sources.map (·.file.path)).Nodup) :
    firstOnes sources = sources := by
  induction sources using List.reverseRecOn with
  | nil => rfl
  | append_singleton sources s ih =>
    rw [List.map_append, List.nodup_append] at h
    obtain ⟨distinct, -, apart⟩ := h
    have none : firstAt? s.file.path sources = none := by
      rw [firstAt?, List.find?_eq_none]
      intro t ht same
      exact apart _ (List.mem_map_of_mem ht) _ List.mem_cons_self (by simpa using same)
    rw [firstOnes_concat, ih distinct, none]
    rfl

end FileUnion

/-! ### The files of a version -/

namespace Version

/-- The file is the first of its path in the version. -/
def HasFirst (v : Version) (f : TextFile) : Prop :=
  ∃ before after, v.files = before ++ f :: after ∧ ∀ g ∈ before, g.path ≠ f.path

/-- A file of the version with this path stands behind another one. -/
def Repeats (v : Version) (path : String) : Prop :=
  ∃ before f after, v.files = before ++ f :: after ∧ f.path = path ∧ ∃ g ∈ before, g.path = path

variable {v : Version} {f : TextFile}

theorem file?_eq_some : v.file? f.path = some f ↔ v.HasFirst f := by
  rw [file?, List.find?_eq_some_iff_append, HasFirst]
  simp

section Distinct
variable (distinct : (v.files.map TextFile.path).Nodup)
include distinct

theorem path_ne_of_distinct {before after : List TextFile}
    (source : v.files = before ++ f :: after) : ∀ g ∈ before, g.path ≠ f.path := by
  rw [source, List.map_append, List.nodup_append] at distinct
  exact fun g hg => distinct.2.2 g.path (List.mem_map_of_mem hg) f.path List.mem_cons_self

/-- If no path stands twice, every file is the first of its path. -/
theorem hasFirst_of_mem (hf : f ∈ v.files) : v.HasFirst f := by
  obtain ⟨before, after, source⟩ := List.append_of_mem hf
  exact ⟨before, after, source, path_ne_of_distinct distinct source⟩

theorem not_repeats (path : String) : ¬ v.Repeats path := by
  rintro ⟨before, f, after, source, rfl, g, hg, same⟩
  exact path_ne_of_distinct distinct source g hg same

end Distinct

end Version

namespace FileUnion

variable {v : Version} {f : TextFile}

theorem filesOf_eq_append {before after : List Sourced} {s : Sourced} :
    filesOf v = before ++ s :: after ↔ ∃ b g a, v.files = b ++ g :: a ∧
      before = b.map (⟨·, v.id⟩) ∧ s = ⟨g, v.id⟩ ∧ after = a.map (⟨·, v.id⟩) := by
  rw [filesOf, List.map_eq_append_iff]
  constructor
  · rintro ⟨b, rest, source, rfl, hrest⟩
    obtain ⟨g, a, rfl, rfl, rfl⟩ := List.map_eq_cons_iff.1 hrest
    exact ⟨b, g, a, source, rfl, rfl, rfl⟩
  · rintro ⟨b, g, a, source, rfl, rfl, rfl⟩
    exact ⟨b, g :: a, source, rfl, rfl⟩

theorem firstAt?_map (path : String) (files : List TextFile) (origin : VersionId) :
    firstAt? path (files.map (⟨·, origin⟩)) =
      (files.find? (·.path == path)).map (⟨·, origin⟩) := by
  rw [firstAt?, List.find?_map]
  rfl

/-- The first ones among the files of a version. -/
theorem mem_firstOnes_filesOf : f ∈ (firstOnes (filesOf v)).map Sourced.file ↔ v.HasFirst f := by
  simp only [List.mem_map, mem_firstOnes, filesOf_eq_append]
  constructor
  · rintro ⟨_, ⟨_, _, ⟨b, g, a, source, rfl, rfl, rfl⟩, none⟩, rfl⟩
    rw [firstAt?_map, Option.map_eq_none_iff, List.find?_eq_none] at none
    exact ⟨b, a, source, fun h hh same => none h hh (by simpa using same)⟩
  · rintro ⟨b, a, source, unique⟩
    refine ⟨⟨f, v.id⟩, ⟨_, _, ⟨b, f, a, source, rfl, rfl, rfl⟩, ?_⟩, rfl⟩
    rw [firstAt?_map, Option.map_eq_none_iff, List.find?_eq_none]
    exact fun h hh => by simpa using unique h hh

/-- The latecomers among the files of a version. -/
theorem mem_latecomers_filesOf {x : Shadowed} : x ∈ latecomers (filesOf v) ↔
    x.keptFrom = v.id ∧ x.droppedFrom = v.id ∧ v.Repeats x.path := by
  simp only [mem_latecomers, filesOf_eq_append]
  constructor
  · rintro ⟨_, _, _, first, ⟨b, g, a, source, rfl, rfl, rfl⟩, found, rfl⟩
    rw [firstAt?_map, Option.map_eq_some_iff] at found
    obtain ⟨h, found, rfl⟩ := found
    exact ⟨rfl, rfl, b, g, a, source, rfl, h, List.mem_of_find?_eq_some found,
      by simpa using List.find?_some found⟩
  · obtain ⟨path, kept, dropped⟩ := x
    rintro ⟨rfl, rfl, b, g, a, source, rfl, h, hh, same⟩
    obtain ⟨first, found⟩ : ∃ first, b.find? (·.path == g.path) = some first :=
      Option.isSome_iff_exists.1 (List.find?_isSome.2 ⟨h, hh, by simpa using same⟩)
    refine ⟨_, _, _, ⟨first, v.id⟩, ⟨b, g, a, source, rfl, rfl, rfl⟩, ?_, rfl⟩
    rw [firstAt?_map, found]
    rfl

end FileUnion

/-! ### Resolutions -/

namespace Resolver

variable {r : Resolver} {s : Store} {v : Version} {res : Resolution}

/-- A resolution that succeeds, by the versions found. -/
theorem exists_versions_of_ok (h : r.resolve s.getVersion v = .ok res) :
    ∃ versions : List Version, (∀ u ∈ versions, u.id ≠ v.id) ∧
      res.Unites (FileUnion.filesOf v ++ versions.flatMap FileUnion.filesOf) ∧
      res.root = v.id := by
  have nodup := nodup_root_versions h
  obtain ⟨-, rfl⟩ := (resolve_eq_ok (isReadable_of_ok h)).1 h
  have others : ∀ u ∈ (List.range r.limit).flatMap (r.found s v), u.id ≠ v.id :=
    fun u hu same => (List.nodup_cons.1 nodup).1 (same ▸ List.mem_map_of_mem hu)
  exact ⟨_, others, Resolution.ofVersions_unites others, rfl⟩

/-- **The own files of a resolution** are the first ones of the version's. -/
theorem own_eq (h : r.resolve s.getVersion v = .ok res) :
    res.own = (FileUnion.firstOnes (FileUnion.filesOf v)).map Sourced.file := by
  obtain ⟨versions, others, unites, root⟩ := exists_versions_of_ok h
  rw [unites.own, root, (FileUnion.firstOnes_split others).1]

/-- What is left out of the version's files. -/
theorem mem_shadowed_root (h : r.resolve s.getVersion v = .ok res) {x : Shadowed}
    (own : x.droppedFrom = v.id) :
    x ∈ res.shadowed ↔ x ∈ FileUnion.latecomers (FileUnion.filesOf v) := by
  obtain ⟨versions, others, unites, -⟩ := exists_versions_of_ok h
  obtain ⟨added, foreign, split⟩ := @FileUnion.latecomers_append (FileUnion.filesOf v)
    (versions.flatMap FileUnion.filesOf)
  rw [unites.shadowed, split, List.mem_append]
  refine or_iff_left fun hx => ?_
  obtain ⟨t, ht, same⟩ := foreign x hx
  obtain ⟨u, hu, ht⟩ := List.mem_flatMap.1 ht
  exact others u hu ((FileUnion.origin_of_mem_filesOf ht).symm.trans (same.symm.trans own))

/-- What a version needs does not depend on its files. -/
theorem exists_resolve_files (fetch : VersionId → Except Error Version) (files : List TextFile) :
    (∃ res, r.resolve fetch { v with files } = .ok res) ↔ ∃ res, r.resolve fetch v = .ok res := by
  unfold resolve
  show (∃ res, (do
    let first ← v.references
    return Resolution.ofVersions { v with files } (← r.levels fetch v.id r.limit [v.id] first)) =
      Except.ok res) ↔ _
  cases v.references with
  | error e => exact Iff.rfl
  | ok first =>
    simp only [bind, Except.bind]
    cases r.levels fetch v.id r.limit [v.id] first with
    | error e => exact Iff.rfl
    | ok versions => exact iff_of_true ⟨_, rfl⟩ ⟨_, rfl⟩

end Resolver

/-! ### What can be reached -/

/-- **Which files of a version can be reached** in a store. -/
structure Store.KeepsFiles (s : Store) (v : Version) : Prop where
  /-- The first file of each path is the one that is read. -/
  found : ∀ f, v.HasFirst f → s.getFile v.id f.path = .ok f
  /-- Nothing but references keeps the version from being resolved, -/
  resolves : ∀ (r : Resolver) (files : List TextFile),
    (∃ res, s.resolve r v.id = .ok res) ↔
      ∃ res, r.resolve s.getVersion { v with files } = .ok res
  /-- and its own files in a resolution are the first ones of all paths. -/
  own : ∀ (r : Resolver) (res : Resolution), s.resolve r v.id = .ok res →
    ∀ f, f ∈ res.own ↔ v.HasFirst f
  /-- The files that are left out of it are shadowed by the version itself. -/
  shadowed : ∀ (r : Resolver) (res : Resolution), s.resolve r v.id = .ok res → ∀ x,
    x ∈ res.shadowed ∧ x.droppedFrom = v.id ↔
      x.keptFrom = v.id ∧ x.droppedFrom = v.id ∧ v.Repeats x.path
  /-- If no path stands twice, all files are read and are in their places. -/
  distinct : (v.files.map TextFile.path).Nodup →
    (∀ f ∈ v.files, s.getFile v.id f.path = .ok f) ∧
    ∀ (r : Resolver) (res : Resolution), s.resolve r v.id = .ok res →
      res.own = v.files ∧ ∀ x ∈ res.shadowed, x.droppedFrom ≠ v.id

theorem Store.keepsFiles_of_getVersion {s : Store} {v : Version} (h : s.getVersion v.id = .ok v) :
    s.KeepsFiles v := by
  have resolve_eq : ∀ r : Resolver, s.resolve r v.id = r.resolve s.getVersion v := by
    intro r
    rw [Store.resolve, h]
    rfl
  have found : ∀ f, v.HasFirst f → s.getFile v.id f.path = .ok f := by
    intro f first
    rw [getFile, h]
    simp only [bind, Except.bind, Version.file?_eq_some.2 first]
  have left : ∀ (r : Resolver) (res : Resolution), s.resolve r v.id = .ok res → ∀ x,
      x ∈ res.shadowed ∧ x.droppedFrom = v.id ↔
        x.keptFrom = v.id ∧ x.droppedFrom = v.id ∧ v.Repeats x.path := by
    intro r res hres x
    rw [resolve_eq] at hres
    constructor
    · rintro ⟨hx, own⟩
      exact FileUnion.mem_latecomers_filesOf.1 ((Resolver.mem_shadowed_root hres own).1 hx)
    · intro hx
      exact ⟨(Resolver.mem_shadowed_root hres hx.2.1).2 (FileUnion.mem_latecomers_filesOf.2 hx),
        hx.2.1⟩
  constructor
  case found => exact found
  case resolves =>
    intro r files
    rw [resolve_eq]
    exact (Resolver.exists_resolve_files s.getVersion files).symm
  case own =>
    intro r res hres f
    rw [Resolver.own_eq (resolve_eq r ▸ hres)]
    exact FileUnion.mem_firstOnes_filesOf
  case shadowed => exact left
  case distinct =>
    intro distinct
    refine ⟨fun f hf => found f (Version.hasFirst_of_mem distinct hf), fun r res hres => ⟨?_, ?_⟩⟩
    · have paths : ((FileUnion.filesOf v).map (·.file.path)).Nodup := by
        rw [FileUnion.filesOf, List.map_map]
        exact distinct
      rw [Resolver.own_eq (resolve_eq r ▸ hres), FileUnion.firstOnes_eq_self paths,
        FileUnion.filesOf, List.map_map]
      exact List.map_id _
    · intro x hx own
      exact Version.not_repeats distinct x.path ((left r res hres x).1 ⟨hx, own⟩).2.2

namespace Registry

variable {r : Registry} {q : PublishRequest} {v : Version}

/-- **Which files of a published version can be reached**, now and at any later time: of the files
of one path the first, at that path and among its own files wherever it is resolved. -/
theorem publish_keepsFiles (h : (r.publish q).2 = .ok v) (updates : List Update) :
    v.id = q.id ∧ v.files = q.files ∧ ((r.publish q).1.store.after updates).KeepsFiles v := by
  have registers := publish_registers h
  refine ⟨registers.id, registers.files, Store.keepsFiles_of_getVersion ?_⟩
  rw [registers.id]
  exact ((r.publish q).1.store.growsTo_after updates).getVersion registers.stored

/-- A version with a path that stands twice, which another version refers to later. -/
theorem publish_keepsFiles_repeated :
    let q : PublishRequest :=
      { module := "m", version := "1",
        files := [⟨"a.proto", ""⟩, ⟨"b.proto", "enum E{A=0;}"⟩, ⟨"a.proto", "message A{}"⟩] }
    let later : Update :=
      .createVersion { module := "n", version := "1", dependencies := ["m@1"] }
    ∃ v, (Registry.publish q {}).2 = .ok v ∧ v.id = q.id ∧ v.files = q.files ∧
      ((Registry.publish q {}).1.store.after [later]).KeepsFiles v ∧ v.Repeats "a.proto" := by
  intro q later
  obtain ⟨v, h⟩ : ∃ v, (Registry.publish q {}).2 = .ok v :=
    exists_publish_of_check (by decide +kernel) rfl
  obtain ⟨id, files, keeps⟩ := publish_keepsFiles h [later]
  refine ⟨v, h, id, files, keeps, ?_⟩
  exact ⟨[⟨"a.proto", ""⟩, ⟨"b.proto", "enum E{A=0;}"⟩], ⟨"a.proto", "message A{}"⟩, [], files,
    rfl, _, List.mem_cons_self, rfl⟩

/-- **A file that cannot be reached**: the second one of its path, which is published all the
same. -/
theorem exists_file_shadowed :
    let kept : TextFile := ⟨"a.proto", ""⟩
    let hidden : TextFile := ⟨"a.proto", "message A {}"⟩
    let q : PublishRequest := { module := "m", version := "1", files := [kept, hidden] }
    let r := (Registry.publish q {}).1
    (∃ v, (Registry.publish q {}).2 = .ok v ∧ hidden ∈ v.files) ∧
      r.store.getFile q.id hidden.path = .ok kept ∧ kept ≠ hidden ∧
      ∃ res, r.resolve q.id = .ok res ∧ hidden ∉ res.own ∧
        ⟨hidden.path, q.id, q.id⟩ ∈ res.shadowed := by
  intro kept hidden q r
  obtain ⟨v, h⟩ : ∃ v, (Registry.publish q {}).2 = .ok v :=
    exists_publish_of_check (by decide +kernel) rfl
  have mem : hidden ∈ v.files := by simp [(publish_registers h).files, q]
  refine ⟨⟨v, h, mem⟩, by decide +kernel, by decide, ?_⟩
  exact ⟨⟨q.id, [kept], [], [], [⟨hidden.path, q.id, q.id⟩]⟩, by decide +kernel, by decide,
    by decide⟩

end Registry

end SchemaDepot
