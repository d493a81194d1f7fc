import SchemaDepot.Proofs.Registry.Closure

/-! # How far references are followed

A resolution that reads less is the beginning of one that reads more, whatever the store is. Only the
first level is read or all of them, and of these there may be more or fewer.

* `Resolution.Begins`: one resolution is the beginning of another; `Resolution.ofVersions_begins`:
  further versions only add to the end.
* `Resolver.levels_first`: the loop that ends after one level, beside one that goes on.
* `Resolver.levels_deeper`, `Resolver.levels_shallower`: the loop with more room, and with less.
* `Resolver.Nests`: what this comes to for whole resolutions; `Resolver.resolve_nests`. -/

namespace SchemaDepot

/-! ### Beginnings -/

/-- **A resolution is the beginning of another**: it has the same files of its own, and the other
has all that it has, in the same order, with more only behind that. -/
structure Resolution.Begins (first whole : Resolution) : Prop where
  root : first.root = whole.root
  own : first.own = whole.own
  versions : first.versions <+: whole.versions
  files : first.files <+: whole.files
  shadowed : first.shadowed <+: whole.shadowed

namespace FileUnion

/-- A further file is put behind those that are kept, or behind those that are not. -/
theorem begins_add (u : FileUnion) (s : Sourced) :
    u.kept <+: (u.add s).kept ∧ u.shadowed <+: (u.add s).shadowed := by
  unfold add
  split
  · exact ⟨List.prefix_append _ _, List.prefix_rfl⟩
  · exact ⟨List.prefix_rfl, List.prefix_append _ _⟩

theorem begins_addAll (u : FileUnion) (sources : List Sourced) :
    u.kept <+: (u.addAll sources).kept ∧ u.shadowed <+: (u.addAll sources).shadowed := by
  induction sources generalizing u with
  | nil => exact ⟨List.prefix_rfl, List.prefix_rfl⟩
  | cons s sources ih =>
    have one := u.begins_add s
    have rest := ih (u.add s)
    exact ⟨one.1.trans rest.1, one.2.trans rest.2⟩

theorem addAll_append (u : FileUnion) (sources more : List Sourced) :
    u.addAll (sources ++ more) = (u.addAll sources).addAll more :=
  List.foldl_append

end FileUnion

namespace Resolution

variable (v : Version) (versions more : List Version)

/-- What is kept of the files of the version comes first, whatever else is needed. -/
theorem ofVersions_own : (ofVersions v versions).own =
    (FileUnion.addAll {} (FileUnion.filesOf v)).kept.map Sourced.file := by
  obtain ⟨rest, hrest⟩ := (FileUnion.begins_addAll
    (FileUnion.addAll {} (FileUnion.filesOf v)) (versions.flatMap FileUnion.filesOf)).1
  unfold ofVersions
  simp only [← hrest, List.map_append]
  rw [List.take_left' (List.length_map ..)]

theorem ofVersions_files : (ofVersions v versions).files =
    ((FileUnion.addAll {} (FileUnion.filesOf v)).addAll
      (versions.flatMap FileUnion.filesOf)).kept.map Sourced.file := by
  unfold files ofVersions
  exact List.take_append_drop _ _

/-- **Further versions add to a resolution only at its end.** -/
theorem ofVersions_begins : (ofVersions v versions).Begins (ofVersions v (versions ++ more)) := by
  set own := FileUnion.addAll {} (FileUnion.filesOf v)
  have grows := (own.addAll (versions.flatMap FileUnion.filesOf)).begins_addAll
    (more.flatMap FileUnion.filesOf)
  have together : (own.addAll (versions.flatMap FileUnion.filesOf)).addAll
      (more.flatMap FileUnion.filesOf) =
        own.addAll ((versions ++ more).flatMap FileUnion.filesOf) := by
    rw [List.flatMap_append, FileUnion.addAll_append]
  rw [together] at grows
  constructor
  case root => rfl
  case own => rw [ofVersions_own, ofVersions_own]
  case versions =>
    show versions.map Version.id <+: (versions ++ more).map Version.id
    rw [List.map_append]
    exact List.prefix_append _ _
  case files =>
    rw [ofVersions_files, ofVersions_files]
    exact grows.1.map Sourced.file
  case shadowed => exact grows.2

end Resolution

/-! ### The loop -/

namespace Resolver

/-- **Resolutions of a version nest**, whatever is read from the store. -/
structure Nests (fetch : VersionId → Except Error Version) (v : Version) : Prop where
  /-- If all levels can be read, then the first can, and what it gives is the beginning. -/
  first : ∀ r d : Resolver, r.mode = .transitive → d.mode = .direct →
    ∀ whole, r.resolve fetch v = .ok whole →
      ∃ first, d.resolve fetch v = .ok first ∧ first.Begins whole
  /-- More levels than there are change nothing. -/
  deeper : ∀ r r' : Resolver, r.mode = .transitive → r'.mode = .transitive → r.limit ≤ r'.limit →
    ∀ res, r.resolve fetch v = .ok res → r'.resolve fetch v = .ok res
  /-- With fewer levels there is the same, or there are too few. -/
  shallower : ∀ r r' : Resolver, r.mode = .transitive → r'.mode = .transitive →
    r.limit ≤ r'.limit → ∀ res, r'.resolve fetch v = .ok res →
      r.resolve fetch v = .ok res ∨
        r.resolve fetch v = .error (.dependencyTooDeep v.id r.limit)

section Loop
variable {r r' : Resolver} {fetch : VersionId → Except Error Version} {root : VersionId}
  {room : Nat} {seen : List VersionId} {refs : List Reference} {versions : List Version}

theorem references_congr (hmode : r'.mode = r.mode) (level : List Version) :
    r'.references level = r.references level := by
  unfold references
  rw [hmode]

/-- A round of the loop that succeeds: the level is read, and the loop goes on below it. -/
theorem exists_of_levels_succ (hlevel : (unseen seen refs).1 ≠ [])
    (h : r.levels fetch root (room + 1) seen refs = .ok versions) :
    ∃ found next below, gather (unseen seen refs).1 (readAll fetch (unseen seen refs).1) = .ok found ∧
      r.references found = .ok next ∧
      r.levels fetch root room (unseen seen refs).2 next = .ok below ∧
      versions = found ++ below := by
  rw [levels_succ hlevel] at h
  obtain ⟨found, hfound, h⟩ := exists_of_bind_ok h
  obtain ⟨next, hnext, h⟩ := exists_of_bind_ok h
  obtain ⟨below, hbelow, h⟩ := exists_of_bind_ok h
  exact ⟨found, next, below, hfound, hnext, hbelow, (Except.ok.inj h).symm⟩

/-- A round after which the loop goes on below. -/
theorem levels_succ_of_gather {found : List Version} {next : List Reference}
    (hlevel : (unseen seen refs).1 ≠ [])
    (hfound : gather (unseen seen refs).1 (readAll fetch (unseen seen refs).1) = .ok found)
    (hnext : r.references found = .ok next) :
    r.levels fetch root (room + 1) seen refs =
      (r.levels fetch root room (unseen seen refs).2 next).map (found ++ ·) := by
  rw [levels_succ hlevel, hfound]
  show (do
    let next ← r.references found
    return found ++ (← r.levels fetch root room (unseen seen refs).2 next)) = _
  rw [hnext]
  rfl

/-- **With more room** the loop finds the same. -/
theorem levels_deeper (hmode : r'.mode = r.mode) (more : Nat)
    (h : r.levels fetch root room seen refs = .ok versions) :
    r'.levels fetch root (room + more) seen refs = .ok versions := by
  induction room generalizing seen refs versions with
  | zero =>
    by_cases hlevel : (unseen seen refs).1 = []
    · rw [levels_of_nil hlevel] at h ⊢
      exact h
    · rw [levels_zero hlevel] at h
      cases h
  | succ room ih =>
    by_cases hlevel : (unseen seen refs).1 = []
    · rw [levels_of_nil hlevel] at h ⊢
      exact h
    · obtain ⟨found, next, below, hfound, hnext, hbelow, rfl⟩ := exists_of_levels_succ hlevel h
      have hnext' : r'.references found = .ok next := by rw [references_congr hmode, hnext]
      rw [show room + 1 + more = room + more + 1 by omega,
        levels_succ_of_gather hlevel hfound hnext', ih hbelow]
      rfl

/-- **With less room** it finds the same, unless it comes to a level that is one too many. -/
theorem levels_shallower (hmode : r.mode = r'.mode) (more : Nat)
    (h : r'.levels fetch root (room + more) seen refs = .ok versions) :
    r.levels fetch root room seen refs = .ok versions ∨
      r.levels fetch root room seen refs = .error (.dependencyTooDeep root r.limit) := by
  induction room generalizing seen refs versions with
  | zero =>
    by_cases hlevel : (unseen seen refs).1 = []
    · left
      rw [levels_of_nil hlevel] at h ⊢
      exact h
    · right
      exact levels_zero hlevel
  | succ room ih =>
    by_cases hlevel : (unseen seen refs).1 = []
    · left
      rw [levels_of_nil hlevel] at h ⊢
      exact h
    · rw [show room + 1 + more = room + more + 1 by omega] at h
      obtain ⟨found, next, below, hfound, hnext, hbelow, rfl⟩ := exists_of_levels_succ hlevel h
      have hnext' : r.references found = .ok next := by rw [references_congr hmode, hnext]
      rw [levels_succ_of_gather hlevel hfound hnext']
      rcases ih hbelow with same | tooDeep
      · left
        rw [same]
        rfl
      · right
        rw [tooDeep]
        rfl

/-- **After one level** the loop has found the beginning of what it finds below it. -/
theorem levels_first {d : Resolver} (hmode : d.mode = .direct) (room' : Nat)
    (h : r.levels fetch root (room + 1) seen refs = .ok versions) :
    ∃ found below, d.levels fetch root (room' + 1) seen refs = .ok found ∧
      versions = found ++ below := by
  by_cases hlevel : (unseen seen refs).1 = []
  · rw [levels_of_nil hlevel] at h
    exact ⟨[], versions, levels_of_nil hlevel, rfl⟩
  · obtain ⟨found, next, below, hfound, -, -, rfl⟩ := exists_of_levels_succ hlevel h
    refine ⟨found, below, ?_, rfl⟩
    rw [levels_direct hmode, ← unseen_fst]
    exact hfound

end Loop

/-! ### Resolutions -/

section Resolve
variable {r : Resolver} {fetch : VersionId → Except Error Version} {v : Version}

theorem resolve_of_references {refs : List Reference} (h : v.references = .ok refs) :
    r.resolve fetch v = (r.levels fetch v.id r.limit [v.id] refs).map (Resolution.ofVersions v) := by
  rw [resolve, h]
  rfl

theorem exists_of_resolve_ok {res : Resolution} (h : r.resolve fetch v = .ok res) :
    ∃ refs versions, v.references = .ok refs ∧
      r.levels fetch v.id r.limit [v.id] refs = .ok versions ∧
      res = Resolution.ofVersions v versions := by
  obtain ⟨refs, hrefs, h⟩ := exists_of_bind_ok h
  obtain ⟨versions, hversions, h⟩ := exists_of_bind_ok h
  exact ⟨refs, versions, hrefs, hversions, (Except.ok.inj h).symm⟩

end Resolve

/-- **The less is the beginning of the more**, for every store and every version. -/
theorem resolve_nests (fetch : VersionId → Except Error Version) (v : Version) :
    Nests fetch v := by
  constructor
  case first =>
    intro r d _ hd whole h
    obtain ⟨refs, versions, hrefs, hversions, rfl⟩ := exists_of_resolve_ok h
    obtain ⟨room, hroom⟩ := Nat.exists_eq_add_of_le' r.one_le_limit
    obtain ⟨room', hroom'⟩ := Nat.exists_eq_add_of_le' d.one_le_limit
    rw [hroom] at hversions
    obtain ⟨found, below, hfound, rfl⟩ := levels_first hd room' hversions
    refine ⟨Resolution.ofVersions v found, ?_, Resolution.ofVersions_begins v found below⟩
    rw [resolve_of_references hrefs, hroom', hfound]
    rfl
  case deeper =>
    intro r r' hr hr' hlimit res h
    obtain ⟨refs, versions, hrefs, hversions, rfl⟩ := exists_of_resolve_ok h
    have deeper := levels_deeper (hr'.trans hr.symm) (r'.limit - r.limit) hversions
    rw [Nat.add_sub_cancel' hlimit] at deeper
    rw [resolve_of_references hrefs, deeper]
    rfl
  case shallower =>
    intro r r' hr hr' hlimit res h
    obtain ⟨refs, versions, hrefs, hversions, rfl⟩ := exists_of_resolve_ok h
    rw [← Nat.add_sub_cancel' hlimit] at hversions
    rw [resolve_of_references hrefs]
    rcases levels_shallower (hr.trans hr'.symm) _ hversions with same | tooDeep
    · left
      rw [same]
      rfl
    · right
      rw [tooDeep]
      rfl

/-- One level is too few for what is needed over another version, unless only the first is read. -/
example :
    let base : Version := { module := "base", version := "1" }
    let core : Version := { module := "core", version := "1", dependencies := ["base@1"] }
    let app : Version := { module := "app", version := "1", dependencies := ["core@1"] }
    let s := (Store.empty.createVersions [core, base]).1
    resolve { mode := .transitive, maxDepth := 1 } s.getVersion app =
        .error (.dependencyTooDeep app.id 1) ∧
      (resolve { mode := .transitive, maxDepth := 2 } s.getVersion app).toOption.map
        Resolution.versions = some [core.id, base.id] ∧
      (resolve { mode := .direct, maxDepth := 1 } s.getVersion app).toOption.map
        Resolution.versions = some [core.id] := by
  decide +kernel

end Resolver

end SchemaDepot
