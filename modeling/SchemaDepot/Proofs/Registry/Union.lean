import Mathlib.Data.List.Induction
import SchemaDepot.Proofs.Registry.Closure

/-! # Files are taken as they come

The files of a resolution come from several versions, the root first. Of those with one path the
first counts; each of the others is told with where it comes from and where the first one does.

* `FileUnion.withEarlier`: files, each with the first of its path before it; `FileUnion.firstOnes`
  and `FileUnion.latecomers`: those without and those with one.
* `FileUnion.addAll_eq`: a union keeps the first ones and tells the latecomers.
* `FileUnion.firstOnes_split`: the files of the root that are kept stand before all others.
* `Resolution.Unites`: the files of a resolution, by all that come together for it;
  `Resolver.resolve_unites`: so it is for each resolution that succeeds. -/

namespace SchemaDepot

namespace FileUnion

/-- The first file of a path. -/
def firstAt? (path : String) (sources : List Sourced) : Option Sourced :=
  sources.find? (·.file.path == path)

/-- Files in order, each with the first one of its path that comes before it. -/
def withEarlier (sources : List Sourced) : List (Sourced × Option Sourced) :=
  sources.mapIdx fun i s => (s, firstAt? s.file.path (sources.take i))

/-- The files that none of the same path comes before, in order. -/
def firstOnes (sources : List Sourced) : List Sourced :=
  (withEarlier sources).filterMap fun (s, earlier) => if earlier.isNone then some s else none

/-- The other files in order, each by its path, where the first one comes from, and where it comes
from itself. -/
def latecomers (sources : List Sourced) : List Shadowed :=
  (withEarlier sources).filterMap fun (s, earlier) =>
    earlier.map fun first => ⟨s.file.path, first.origin, s.origin⟩

section Scan
variable (sources : List Sourced) (s : Sourced) (path : String)

/-! ### One file more -/

theorem withEarlier_concat : withEarlier (sources ++ [s]) =
    withEarlier sources ++ [(s, firstAt? s.file.path sources)] := by
  rw [withEarlier, List.mapIdx_concat, List.take_left, withEarlier]
  congr 1
  refine List.ext_getElem (by simp) fun i hi _ => ?_
  have within : i ≤ sources.length := by
    rw [List.length_mapIdx] at hi
    exact Nat.le_of_lt hi
  rw [List.getElem_mapIdx, List.getElem_mapIdx, List.take_append_of_le_length within]

theorem firstOnes_concat : firstOnes (sources ++ [s]) =
    firstOnes sources ++ if (firstAt? s.file.path sources).isNone then [s] else [] := by
  rw [firstOnes, withEarlier_concat, List.filterMap_append, ← firstOnes]
  cases firstAt? s.file.path sources <;> rfl

theorem latecomers_concat : latecomers (sources ++ [s]) = latecomers sources ++
    ((firstAt? s.file.path sources).map fun first =>
      ⟨s.file.path, first.origin, s.origin⟩).toList := by
  rw [latecomers, withEarlier_concat, List.filterMap_append, ← latecomers]
  cases firstAt? s.file.path sources <;> rfl

theorem firstAt?_concat : firstAt? path (sources ++ [s]) =
    (firstAt? path sources).or (if s.file.path = path then some s else none) := by
  rw [firstAt?, List.find?_append, List.find?_singleton]
  simp only [beq_iff_eq]
  rfl

/-! ### The first ones -/

/-- The first file of a path is one of the first ones, and the only one of that path. -/
theorem firstAt?_firstOnes : firstAt? path (firstOnes sources) = firstAt? path sources := by
  induction sources using List.reverseRecOn with
  | nil => rfl
  | append_singleton sources s ih =>
    rw [firstOnes_concat, firstAt?_concat]
    cases hfirst : firstAt? s.file.path sources with
    | none =>
      show firstAt? path (firstOnes sources ++ [s]) = _
      rw [firstAt?_concat, ih]
    | some first =>
      show firstAt? path (firstOnes sources ++ []) = _
      rw [List.append_nil, ih]
      -- A latecomer is not the first one of its path.
      split_ifs with own
      · rw [← own, hfirst]
        rfl
      · exact (Option.or_none ..).symm

theorem nodup_firstOnes : ((firstOnes sources).map (·.file.path)).Nodup := by
  induction sources using List.reverseRecOn with
  | nil => exact .nil
  | append_singleton sources s ih =>
    rw [firstOnes_concat]
    cases hfirst : firstAt? s.file.path sources with
    | some first =>
      show ((firstOnes sources ++ []).map _).Nodup
      rwa [List.append_nil]
    | none =>
      show ((firstOnes sources ++ [s]).map _).Nodup
      rw [← firstAt?_firstOnes, firstAt?, List.find?_eq_none] at hfirst
      rw [List.map_append, List.nodup_append]
      refine ⟨ih, List.nodup_singleton _, fun p hp p' hp' same => ?_⟩
      obtain ⟨t, ht, rfl⟩ := List.mem_map.1 hp
      obtain rfl := List.mem_singleton.1 hp'
      exact hfirst t ht (by simpa using same)

/-- What comes later adds files, and takes none away. -/
theorem firstOnes_append (later : List Sourced) : ∃ added, (∀ s ∈ added, s ∈ later) ∧
    firstOnes (sources ++ later) = firstOnes sources ++ added := by
  induction later using List.reverseRecOn with
  | nil => exact ⟨[], by simp, by simp⟩
  | append_singleton later s ih =>
    obtain ⟨added, hadded, heq⟩ := ih
    rw [← List.append_assoc, firstOnes_concat, heq, List.append_assoc]
    refine ⟨_, fun t ht => ?_, rfl⟩
    rcases List.mem_append.1 ht with ht | ht
    · exact List.mem_append_left _ (hadded t ht)
    · split at ht
      · exact List.mem_append_right _ ht
      · cases ht

variable {sources s} in
theorem mem_of_mem_firstOnes (h : s ∈ firstOnes sources) : s ∈ sources := by
  obtain ⟨added, hadded, heq⟩ := firstOnes_append [] sources
  rw [List.nil_append] at heq
  exact hadded s (by rwa [heq] at h)

/-- Every file is one of the first ones or a latecomer. -/
theorem length_firstOnes_add :
    (firstOnes sources).length + (latecomers sources).length = sources.length := by
  induction sources using List.reverseRecOn with
  | nil => rfl
  | append_singleton sources s ih =>
    rw [firstOnes_concat, latecomers_concat]
    cases firstAt? s.file.path sources <;> simp <;> omega

/-- Where a latecomer was beaten, one of the first ones has its path. -/
theorem exists_of_mem_latecomers {x : Shadowed} (h : x ∈ latecomers sources) :
    ∃ first ∈ firstOnes sources, first.file.path = x.path ∧ first.origin = x.keptFrom := by
  induction sources using List.reverseRecOn with
  | nil => cases h
  | append_singleton sources s ih =>
    rw [latecomers_concat] at h
    rw [firstOnes_concat]
    rcases List.mem_append.1 h with h | h
    · obtain ⟨first, hfirst, same⟩ := ih h
      exact ⟨first, List.mem_append_left _ hfirst, same⟩
    · obtain ⟨first, hfirst, rfl⟩ := Option.map_eq_some_iff.1 (Option.mem_toList.1 h)
      rw [← firstAt?_firstOnes] at hfirst
      exact ⟨first, List.mem_append_left _ (List.mem_of_find?_eq_some hfirst),
        by simpa using List.find?_some hfirst, rfl⟩

/-- **A union keeps the first ones and tells the latecomers.** -/
theorem addAll_eq : addAll {} sources = ⟨firstOnes sources, latecomers sources⟩ := by
  induction sources using List.reverseRecOn with
  | nil => rfl
  | append_singleton sources s ih =>
    have past : addAll {} (sources ++ [s]) = (addAll {} sources).add s := List.foldl_concat ..
    have known : (firstOnes sources).find? (·.file.path == s.file.path) =
        firstAt? s.file.path sources := firstAt?_firstOnes ..
    rw [past, ih, add, firstOnes_concat, latecomers_concat]
    simp only [known]
    cases firstAt? s.file.path sources <;> simp

end Scan

end FileUnion

/-! ### Resolutions -/

/-- **The files of a resolution**, by all files that come together for it. -/
structure Resolution.Unites (res : Resolution) (sources : List Sourced) : Prop where
  /-- Of the files of one path the first is kept, -/
  files : res.files = (FileUnion.firstOnes sources).map Sourced.file
  /-- so that no path stands twice. -/
  nodup : (res.files.map TextFile.path).Nodup
  /-- Those of the root are its own files, -/
  own : res.own =
    ((FileUnion.firstOnes sources).filter (·.origin = res.root)).map Sourced.file
  /-- and all others those of dependencies. -/
  dependencies : res.dependencies =
    ((FileUnion.firstOnes sources).filter (·.origin ≠ res.root)).map Sourced.file
  /-- The files that were not kept are told, -/
  shadowed : res.shadowed = FileUnion.latecomers sources
  /-- each with where the one that was kept comes from. -/
  kept : ∀ x ∈ res.shadowed, ∃ first ∈ FileUnion.firstOnes sources,
    first.file.path = x.path ∧ first.origin = x.keptFrom
  /-- No file is lost. -/
  count : res.files.length + res.shadowed.length = sources.length

/-- All files that come together for a version: its own, and those of the versions of some names. -/
def Store.sources (s : Store) (v : Version) (ids : List VersionId) : List Sourced :=
  FileUnion.filesOf v ++ ids.flatMap fun id => (s.version? id).toList.flatMap FileUnion.filesOf

namespace FileUnion

variable {v : Version} {versions : List Version}

theorem origin_of_mem_filesOf {f : Sourced} (h : f ∈ filesOf v) : f.origin = v.id := by
  obtain ⟨file, -, rfl⟩ := List.mem_map.1 h
  rfl

/-- What is kept is split where the files of the root end. -/
theorem firstOnes_split (others : ∀ u ∈ versions, u.id ≠ v.id) :
    let kept := firstOnes (filesOf v ++ versions.flatMap filesOf)
    kept.filter (·.origin = v.id) = firstOnes (filesOf v) ∧
      kept = firstOnes (filesOf v) ++ kept.filter (·.origin ≠ v.id) := by
  intro kept
  obtain ⟨added, hadded, heq⟩ := firstOnes_append (filesOf v) (versions.flatMap filesOf)
  have mine : ∀ f ∈ firstOnes (filesOf v), f.origin = v.id := fun f hf =>
    origin_of_mem_filesOf (mem_of_mem_firstOnes hf)
  have foreign : ∀ f ∈ added, f.origin ≠ v.id := fun f hf => by
    obtain ⟨u, hu, hmem⟩ := List.mem_flatMap.1 (hadded f hf)
    exact origin_of_mem_filesOf hmem ▸ others u hu
  rw [show kept = _ from heq, List.filter_append, List.filter_append,
    List.filter_eq_self.2 (by simpa using mine), List.filter_eq_nil_iff.2 (by simpa using foreign),
    List.filter_eq_nil_iff.2 (by simpa using mine), List.filter_eq_self.2 (by simpa using foreign)]
  exact ⟨List.append_nil _, rfl⟩

end FileUnion

open FileUnion in
/-- The files of a version and of versions of other names are united. -/
theorem Resolution.ofVersions_unites {v : Version} {versions : List Version}
    (others : ∀ u ∈ versions, u.id ≠ v.id) :
    (ofVersions v versions).Unites (filesOf v ++ versions.flatMap filesOf) := by
  set sources := filesOf v ++ versions.flatMap filesOf with hsources
  obtain ⟨mine, split⟩ := firstOnes_split others
  have union : (addAll {} (filesOf v)).addAll (versions.flatMap filesOf) =
      ⟨firstOnes sources, latecomers sources⟩ := by
    rw [← addAll_eq, addAll, addAll, addAll, List.foldl_append]
  have border : (addAll {} (filesOf v)).kept.length =
      ((firstOnes (filesOf v)).map Sourced.file).length := by rw [addAll_eq, List.length_map]
  have whole : (firstOnes sources).map Sourced.file = (firstOnes (filesOf v)).map Sourced.file ++
      ((firstOnes sources).filter (·.origin ≠ v.id)).map Sourced.file := by
    rw [← List.map_append, ← split]
  have own : (ofVersions v versions).own = (firstOnes (filesOf v)).map Sourced.file := by
    simp only [ofVersions, union, border]
    rw [whole, List.take_left]
  have dependencies : (ofVersions v versions).dependencies =
      ((firstOnes sources).filter (·.origin ≠ v.id)).map Sourced.file := by
    simp only [ofVersions, union, border]
    rw [whole, List.drop_left]
  have files : (ofVersions v versions).files = (firstOnes sources).map Sourced.file := by
    rw [Resolution.files, own, dependencies, whole]
  have shadowed : (ofVersions v versions).shadowed = latecomers sources := by
    simp only [ofVersions, union]
  constructor
  case files => exact files
  case nodup =>
    rw [files, List.map_map]
    exact nodup_firstOnes sources
  case own =>
    rw [own, ← mine]
    rfl
  case dependencies => exact dependencies
  case shadowed => exact shadowed
  case kept => exact fun x hx => exists_of_mem_latecomers sources (shadowed ▸ hx)
  case count => rw [files, shadowed, List.length_map, length_firstOnes_add]

namespace Resolver

variable {r : Resolver} {s : Store} {v : Version} {res : Resolution}

/-- The versions found are stored under their names. -/
theorem version?_of_mem_found {k : Nat} {u : Version} (h : u ∈ r.found s v k) :
    s.version? u.id = some u := by
  obtain ⟨ref, -, stored⟩ := mem_found.1 h
  rwa [Store.version?_id stored]

theorem sources_of_stored {versions : List Version}
    (stored : ∀ u ∈ versions, s.version? u.id = some u) :
    s.sources v (versions.map Version.id) =
      FileUnion.filesOf v ++ versions.flatMap FileUnion.filesOf := by
  rw [Store.sources, List.flatMap_map]
  refine congrArg _ (List.flatMap_congr fun u hu => ?_)
  simp [stored u hu]

/-- **The files of a resolution are taken as they come**: its own first, then those of each version
that is needed; of the files of one path the first is kept, and every other is told. -/
theorem resolve_unites (h : r.resolve s.getVersion v = .ok res) :
    res.root = v.id ∧ (∀ id ∈ res.versions, ∃ u, s.version? id = some u) ∧
      res.Unites (s.sources v res.versions) := by
  have nodup := nodup_root_versions h
  obtain ⟨-, rfl⟩ := (resolve_eq_ok (isReadable_of_ok h)).1 h
  set versions := (List.range r.limit).flatMap (r.found s v)
  have stored : ∀ u ∈ versions, s.version? u.id = some u := fun u hu => by
    obtain ⟨k, -, hk⟩ := List.mem_flatMap.1 hu
    exact version?_of_mem_found hk
  have others : ∀ u ∈ versions, u.id ≠ v.id := fun u hu same =>
    (List.nodup_cons.1 nodup).1 (same ▸ List.mem_map_of_mem hu)
  refine ⟨rfl, fun id hid => ?_, ?_⟩
  · obtain ⟨u, hu, rfl⟩ := List.mem_map.1 hid
    exact ⟨u, stored u hu⟩
  · rw [show (Resolution.ofVersions v versions).versions = versions.map Version.id from rfl,
      sources_of_stored stored]
    exact Resolution.ofVersions_unites others

/-- A version that repeats a path of its own, of the root, or of another version needed. -/
theorem resolve_overlapping :
    let base : Version :=
      { module := "base", version := "1",
        files := [⟨"c.proto", "3"⟩, ⟨"b.proto", "4"⟩, ⟨"c.proto", "5"⟩] }
    let core : Version :=
      { module := "core", version := "1", files := [⟨"a.proto", "2"⟩, ⟨"b.proto", "2"⟩],
        dependencies := ["base@1"] }
    let app : Version :=
      { module := "app", version := "1", files := [⟨"a.proto", "0"⟩, ⟨"a.proto", "1"⟩],
        dependencies := ["core@1", "base@1"] }
    let s := (Store.empty.createVersions [core, base]).1
    let res : Resolution :=
      { root := app.id, own := [⟨"a.proto", "0"⟩],
        dependencies := [⟨"b.proto", "2"⟩, ⟨"c.proto", "3"⟩], versions := [core.id, base.id],
        shadowed := [⟨"a.proto", app.id, app.id⟩, ⟨"a.proto", app.id, core.id⟩,
          ⟨"b.proto", core.id, base.id⟩, ⟨"c.proto", base.id, base.id⟩] }
    resolve { mode := .transitive } s.getVersion app = .ok res ∧ res.root = app.id ∧
      (∀ id ∈ res.versions, ∃ u, s.version? id = some u) ∧
      res.Unites (s.sources app res.versions) :=
  have h := by decide +kernel
  ⟨h, resolve_unites h⟩

end Resolver

end SchemaDepot
