import SchemaDepot.Proofs.Files.Tree
import SchemaDepot.Proofs.Registry.Filing

/-! # Layouts go into a store version by version

A layout is read as a whole before anything is written. Its versions are then added one by one, and
the first whose name is taken ends this; those before it stay.

* `Layout.read_ordered`: the versions of a layout come in the order of their names, each once.
* `Store.Takes`: a store has been given versions, and entries for their modules.
* `Store.takes_createVersions`: the versions that come before one whose name is taken are given.
* `Store.loadLayout_loads`: all that loading a layout does.
* `Store.loadLayout_partial`: it may fail and leave versions behind. -/

namespace SchemaDepot

/-! ### The versions of a layout -/

/-- One name stands before another: by its module, then by its version. -/
def VersionId.IsBefore (a b : VersionId) : Prop :=
  a.module < b.module ∨ a.module = b.module ∧ a.version < b.version

theorem VersionId.IsBefore.ne {a b : VersionId} (h : a.IsBefore b) : a ≠ b := by
  rintro rfl
  rcases h with h | ⟨-, h⟩ <;> exact lt_irrefl _ h

namespace Layout

variable {tree : FileTree} {path : String}

/-- What has distinct keys is sorted into a strict order. -/
theorem pairwise_mergeSort_key {α : Type} (key : α → String) {xs : List α}
    (distinct : (xs.map key).Nodup) :
    (xs.mergeSort fun a b => key a ≤ key b).Pairwise fun a b => key a < key b := by
  have perm := List.mergeSort_perm xs fun a b => decide (key a ≤ key b)
  have sorted : (xs.mergeSort fun a b => key a ≤ key b).Pairwise fun a b =>
      decide (key a ≤ key b) = true := by
    refine List.pairwise_mergeSort (fun a b c hab hbc => ?_) (fun a b => ?_) xs
    · exact decide_eq_true (le_trans (of_decide_eq_true hab) (of_decide_eq_true hbc))
    · simpa using le_total (key a) (key b)
  refine (sorted.and (List.pairwise_map.1 (distinct.perm (perm.map _).symm))).imp ?_
  rintro a b ⟨hle, hne⟩
  exact lt_of_le_of_ne (of_decide_eq_true hle) hne

/-- The directories in a directory, the names of which are distinct, stand in their order. -/
theorem directories_ordered {found : List (String × FileTree)}
    (h : directories path tree = .ok found) (proper : tree.IsProper) :
    found.Pairwise (fun d e => d.1 < e.1) ∧ ∀ d ∈ found, d.2.IsProper := by
  unfold directories at h
  split at h
  · cases h
  · obtain ⟨entries, hentries, h⟩ := exists_of_bind_ok h
    cases tree with
    | file bytes => cases hentries
    | directory entries' =>
      cases hentries
      cases h
      refine ⟨pairwise_mergeSort_key Prod.fst ?_, fun d hd => ?_⟩
      · cases proper with
        | directory distinct _ => exact distinct.sublist (List.filter_sublist.map _)
      · exact FileTree.isProper_of_mem proper d
          (List.mem_of_mem_filter ((List.mergeSort_perm _ _).mem_iff.1 hd))

/-- Directories that stand in order already are found as they stand. -/
theorem directories_of_pairwise {entries : List (String × FileTree)}
    (short : FileTree.isShort path = true)
    (ordered : entries.Pairwise fun a b => a.1 ≤ b.1)
    (each : ∀ e ∈ entries, ∃ below, e.2 = .directory below) :
    directories path (.directory entries) = .ok entries := by
  have sorted : (entries.mergeSort fun a b => a.1 ≤ b.1) = entries :=
    List.mergeSort_of_pairwise (ordered.imp decide_eq_true)
  unfold directories
  rw [short]
  refine congrArg Except.ok (Eq.trans (congrArg (List.mergeSort · _) ?_) sorted)
  refine List.filter_eq_self.2 fun e he => ?_
  obtain ⟨below, h⟩ := each e he
  rw [h]

/-- A version is read under the names of its directories. -/
theorem readVersion_id {module version : String} {v : Version}
    (h : readVersion module version path tree = .ok v) : v.id = ⟨module, version⟩ := by
  obtain ⟨files, -, h⟩ := exists_of_bind_ok h
  obtain ⟨dependencies, -, h⟩ := exists_of_bind_ok h
  cases h
  rfl

/-- The versions of a module come in the order of their names. -/
theorem readModule_ordered {module : String} {vs : List Version}
    (h : readModule module path tree = .ok vs) (proper : tree.IsProper) :
    vs.Pairwise (fun v w => v.id.IsBefore w.id) := by
  obtain ⟨found, hfound, h⟩ := exists_of_bind_ok h
  obtain ⟨ordered, -⟩ := directories_ordered hfound proper
  refine pairwise_of_mapM h ordered fun d _ e _ less v w hv hw => ?_
  rw [readVersion_id hv, readVersion_id hw]
  exact Or.inr ⟨rfl, less⟩

theorem readModule_module {module : String} {vs : List Version}
    (h : readModule module path tree = .ok vs) : ∀ v ∈ vs, v.module = module := by
  intro v hv
  obtain ⟨found, -, h⟩ := exists_of_bind_ok h
  obtain ⟨d, -, hd⟩ := exists_of_mem_mapM h hv
  exact congrArg VersionId.module (readVersion_id hd)

/-- The versions in a directory come in the order of their names. -/
theorem readTree_ordered {vs : List Version} (h : readTree path tree = .ok vs)
    (proper : tree.IsProper) : vs.Pairwise (fun v w => v.id.IsBefore w.id) := by
  obtain ⟨found, hfound, h⟩ := exists_of_bind_ok h
  obtain ⟨perModule, hmodules, h⟩ := exists_of_bind_ok h
  cases h
  obtain ⟨ordered, below⟩ := directories_ordered hfound proper
  refine List.pairwise_flatten.2 ⟨fun vs hvs => ?_, ?_⟩
  · obtain ⟨d, hd, hvs⟩ := exists_of_mem_mapM hmodules hvs
    exact readModule_ordered hvs (below d hd)
  · refine pairwise_of_mapM hmodules ordered fun d _ e _ less vs ws hvs hws v hv w hw => ?_
    refine Or.inl ?_
    show v.module < w.module
    rwa [readModule_module hvs v hv, readModule_module hws w hw]

/-- **The versions of a layout come in the order of their names**, each once. -/
theorem read_ordered {root here : String} {vs : List Version} (h : read tree root here = .ok vs)
    (proper : tree.IsProper) : vs.Pairwise (fun v w => v.id.IsBefore w.id) := by
  unfold read at h
  split at h
  · next found =>
    cases h
    obtain ⟨below, hbelow, hread⟩ := exists_of_bind_ok found
    exact readTree_ordered hread (FileTree.isProper_lookupBelow proper hbelow)
  · cases h

end Layout

/-! ### Versions added one by one -/

/-- A version as it is filed at a time. -/
def Version.filed (time : Nat) (v : Version) : Version := { v with createdAt := time }

@[simp]
theorem Version.id_filed (time : Nat) (v : Version) : (v.filed time).id = v.id := rfl

@[simp]
theorem Version.module_filed (time : Nat) (v : Version) : (v.filed time).module = v.module := rfl

/-- A store has been given versions, each with the time at which it came, under names that were
free, and entries for those of their modules that had none. -/
structure Store.Takes (s : Store) (vs : List Version) (s' : Store) : Prop where
  versions : ∃ added, s'.versions = s.versions ++ added ∧
    List.Forall₂ (fun v u => ∃ time, u = v.filed time) vs added
  free : ∀ v ∈ vs, s.version? v.id = none
  nodup : (vs.map Version.id).Nodup
  /-- An entry is written only for the module of one of the versions, if it had none. -/
  frame : ∀ name, (s.module? name).isSome ∨ (∀ v ∈ vs, v.module ≠ name) →
    s'.module? name = s.module? name
  entered : ∀ name, s.module? name = none → (∃ v ∈ vs, v.module = name) →
    ∃ time, s'.module? name = some (Module.new name time)
  /-- Where each had one, none is written. -/
  modules : (∀ v ∈ vs, (s.module? v.module).isSome) → s'.modules = s.modules

namespace Store

variable {s s' s'' : Store} {v : Version} {vs : List Version}

theorem ensureModule_of_isSome {name : String} (h : (s.module? name).isSome) :
    s.ensureModule name = s := by
  obtain ⟨m, hm⟩ := Option.isSome_iff_exists.1 h
  rw [ensureModule, hm]

theorem Takes.nil (versions : s'.versions = s.versions) (modules : s'.modules = s.modules) :
    s.Takes [] s' where
  versions := ⟨[], versions.trans (List.append_nil _).symm, .nil⟩
  free := by rintro v ⟨⟩
  nodup := .nil
  frame _ _ := by rw [module?, module?, modules]
  entered := by rintro name - ⟨v, ⟨⟩, -⟩
  modules _ := modules

/-- The time at which a store is given versions does not matter. -/
theorem Takes.of_readClock (h : s.readClock.2.Takes vs s') : s.Takes vs s' :=
  ⟨h.versions, h.free, h.nodup, h.frame, h.entered, h.modules⟩

/-- One version more in front. -/
theorem Takes.cons {time : Nat} (h : s.createVersion (v.filed time) = .ok s')
    (rest : s'.Takes vs s'') : s.Takes (v :: vs) s'' := by
  obtain ⟨absent, created⟩ := createVersion_eq_ok h
  have grows := growsTo_of_createVersion h
  have entry := module?_of_createVersion h
  rw [Version.module_filed] at created entry
  constructor
  case versions =>
    obtain ⟨added, hadded, each⟩ := rest.versions
    refine ⟨v.filed time :: added, ?_, .cons ⟨time, rfl⟩ each⟩
    rw [hadded, created, versions_ensureModule]
    exact List.append_assoc ..
  case free =>
    exact List.forall_mem_cons.2 ⟨absent, fun u hu => grows.absent_version (rest.free u hu)⟩
  case nodup =>
    refine List.nodup_cons.2 ⟨fun hmem => ?_, rest.nodup⟩
    -- The name is taken once the version is there.
    obtain ⟨u, hu, same⟩ := List.mem_map.1 hmem
    have taken := rest.free u hu
    rw [same, version?_of_createVersion h, Version.id_filed, if_pos rfl] at taken
    cases taken
  case frame =>
    intro name hname
    rw [rest.frame name ?_, entry, if_neg ?_]
    · rintro ⟨none, rfl⟩
      rcases hname with some | other
      · rw [none] at some
        cases some
      · exact other v List.mem_cons_self rfl
    · exact hname.imp (grows.module name) fun other u hu => other u (List.mem_cons_of_mem v hu)
  case entered =>
    rintro name none ⟨u, hu, rfl⟩
    by_cases same : v.module = u.module
    · have now : s'.module? u.module = some (Module.new u.module s.clock) := by
        rw [entry, if_pos ⟨same ▸ none, same⟩, same]
      exact ⟨s.clock, by rw [rest.frame _ (Or.inl (by rw [now]; rfl)), now]⟩
    · refine rest.entered _ (by rw [entry, if_neg fun both => same both.2, none]) ?_
      rcases List.mem_cons.1 hu with rfl | hu
      · exact absurd rfl same
      · exact ⟨u, hu, rfl⟩
  case modules =>
    intro present
    obtain ⟨here, others⟩ := List.forall_mem_cons.1 present
    have same : ensureModule v.module { s with versions := s.versions ++ [v.filed time] } = _ :=
      ensureModule_of_isSome here
    rw [rest.modules fun u hu => grows.module _ (others u hu), created, same]

theorem createVersions_cons (v : Version) (vs : List Version) (s : Store) :
    s.createVersions (v :: vs) = match s.readClock.2.createVersion (v.filed s.clock) with
      | .ok s' => s'.createVersions vs
      | .error e => (s.readClock.2, .error e) :=
  rfl

/-- **Versions are added one by one until one of that name is there.** Those before it are given. -/
theorem takes_createVersions (vs : List Version) (s : Store) : ∃ taken rest, vs = taken ++ rest ∧
    s.Takes taken (s.createVersions vs).1 ∧ (rest = [] → (s.createVersions vs).2 = .ok ()) ∧
    ∀ v later, rest = v :: later → (s.createVersions vs).2 = .error (.alreadyExists v.id) ∧
      ((s.version? v.id).isSome ∨ v.id ∈ taken.map Version.id) := by
  induction vs generalizing s with
  | nil => exact ⟨[], [], rfl, .nil rfl rfl, fun _ => rfl, by rintro v later ⟨⟩⟩
  | cons v vs ih =>
    rw [createVersions_cons]
    cases h : s.readClock.2.createVersion (v.filed s.clock) with
    | error e =>
      obtain ⟨present, rfl⟩ := createVersion_eq_error h
      refine ⟨[], v :: vs, rfl, .nil rfl rfl, nofun, ?_⟩
      rintro _ _ ⟨⟩
      exact ⟨rfl, Or.inl present⟩
    | ok s' =>
      obtain ⟨taken, rest, rfl, takes, done, stopped⟩ := ih s'
      refine ⟨v :: taken, rest, rfl, (Takes.cons h takes).of_readClock, done, ?_⟩
      intro u later hrest
      obtain ⟨refused, present⟩ := stopped u later hrest
      refine ⟨refused, ?_⟩
      rw [version?_of_createVersion h, Version.id_filed] at present
      by_cases same : v.id = u.id
      · exact Or.inr (same ▸ List.mem_cons_self)
      · rw [if_neg same] at present
        exact present.imp_right (List.mem_cons_of_mem _)

/-- All are added just if their names are free and differ. -/
theorem createVersions_eq_ok_iff : (s.createVersions vs).2 = .ok () ↔
    (vs.map Version.id).Nodup ∧ ∀ v ∈ vs, s.version? v.id = none := by
  obtain ⟨taken, rest, rfl, takes, done, stopped⟩ := s.takes_createVersions vs
  cases rest with
  | nil =>
    rw [List.append_nil] at takes done ⊢
    exact iff_of_true (done rfl) ⟨takes.nodup, takes.free⟩
  | cons v later =>
    obtain ⟨refused, present⟩ := stopped v later rfl
    rw [refused]
    refine iff_of_false nofun ?_
    rintro ⟨nodup, free⟩
    rcases present with present | present
    · rw [free v (by simp)] at present
      cases present
    · rw [List.map_append, List.nodup_append] at nodup
      exact nodup.2.2 _ present _ List.mem_cons_self rfl

/-- A store has the versions it had before just if it was given none. -/
theorem Takes.versions_eq_iff (h : s.Takes vs s') : s'.versions = s.versions ↔ vs = [] := by
  obtain ⟨added, hadded, each⟩ := h.versions
  rw [hadded, List.append_right_eq_self, ← List.length_eq_zero_iff, ← each.length_eq,
    List.length_eq_zero_iff]

/-- Where not all are added, none is just if the first was there. -/
theorem createVersions_versions_eq_iff (h : (s.createVersions vs).2 ≠ .ok ()) :
    (s.createVersions vs).1.versions = s.versions ↔
      ∃ v rest, vs = v :: rest ∧ (s.version? v.id).isSome := by
  obtain ⟨taken, rest, rfl, takes, done, stopped⟩ := s.takes_createVersions vs
  rw [takes.versions_eq_iff]
  constructor
  · rintro rfl
    cases rest with
    | nil => exact absurd (done rfl) h
    | cons v later =>
      obtain ⟨-, present | present⟩ := stopped v later rfl
      · exact ⟨v, later, rfl, present⟩
      · cases present
  · rintro ⟨v, later, hvs, present⟩
    cases taken with
    | nil => rfl
    | cons u taken =>
      cases hvs
      rw [takes.free v List.mem_cons_self] at present
      cases present

/-! ### Layouts -/

/-- **All that loading a layout does to a store.** -/
structure Loads (s : Store) (tree : FileTree) (root here : String) : Prop where
  /-- A layout that cannot be read changes nothing. -/
  unread : ∀ e, Layout.read tree root here = .error e →
    s.loadLayout tree root here = (s, .error e)
  /-- Of one that can be read the versions are given in their order, all of them or those before
  the first whose name is taken by then. -/
  read : ∀ vs, Layout.read tree root here = .ok vs → ∃ taken rest, vs = taken ++ rest ∧
    s.Takes taken (s.loadLayout tree root here).1 ∧
    (rest = [] → (s.loadLayout tree root here).2 = .ok vs.length) ∧
    ∀ v later, rest = v :: later →
      (s.loadLayout tree root here).2 = .error (.alreadyExists v.id) ∧
      ((s.version? v.id).isSome ∨ v.id ∈ taken.map Version.id)
  /-- Their order is that of their names, and no two have the same. -/
  ordered : tree.IsProper → ∀ vs, Layout.read tree root here = .ok vs →
    vs.Pairwise fun v w => v.id.IsBefore w.id
  /-- It succeeds just if the layout can be read and its names are free and differ. -/
  ok_iff : ∀ n, (s.loadLayout tree root here).2 = .ok n ↔
    ∃ vs, Layout.read tree root here = .ok vs ∧ n = vs.length ∧ (vs.map Version.id).Nodup ∧
      ∀ v ∈ vs, s.version? v.id = none
  /-- If it fails, no version was added just if the layout could not be read or its first version
  was there. -/
  unchanged_iff : ∀ e, (s.loadLayout tree root here).2 = .error e →
    ((s.loadLayout tree root here).1.versions = s.versions ↔
      Layout.read tree root here = .error e ∨
      ∃ v vs, Layout.read tree root here = .ok (v :: vs) ∧ (s.version? v.id).isSome)

section Layout
variable {tree : FileTree} {root here : String}

theorem loadLayout_of_error (s : Store) {e : Error} (h : Layout.read tree root here = .error e) :
    s.loadLayout tree root here = (s, .error e) := by
  unfold loadLayout
  rw [h]

theorem loadLayout_of_ok (s : Store) (h : Layout.read tree root here = .ok vs) :
    s.loadLayout tree root here =
      ((s.createVersions vs).1, (s.createVersions vs).2.map fun _ => vs.length) := by
  unfold loadLayout
  rw [h]

/-- A layout that can be read is loaded just if the names of its versions are free and differ. -/
theorem loadLayout_eq_ok_iff (s : Store) (h : Layout.read tree root here = .ok vs) {n : Nat} :
    (s.loadLayout tree root here).2 = .ok n ↔
      n = vs.length ∧ (vs.map Version.id).Nodup ∧ ∀ v ∈ vs, s.version? v.id = none := by
  rw [s.loadLayout_of_ok h, ← createVersions_eq_ok_iff]
  cases (s.createVersions vs).2 with
  | error e => exact iff_of_false nofun fun done => nomatch done.2
  | ok =>
    constructor
    · rintro ⟨⟩
      exact ⟨rfl, rfl⟩
    · rintro ⟨rfl, -⟩
      rfl

end Layout

/-- **Loading a layout** adds its versions up to the first whose name is taken. -/
theorem loadLayout_loads (s : Store) (tree : FileTree) (root here : String) :
    s.Loads tree root here := by
  cases hread : Layout.read tree root here with
  | error e =>
    have eq := s.loadLayout_of_error hread
    constructor
    case unread =>
      rw [hread, eq]
      rintro _ ⟨⟩
      rfl
    case read => simp [hread]
    case ordered => simp [hread]
    case ok_iff => simp [hread, eq]
    case unchanged_iff =>
      rw [hread, eq]
      rintro _ ⟨⟩
      exact iff_of_true rfl (Or.inl rfl)
  | ok vs =>
    have eq := s.loadLayout_of_ok hread
    constructor
    case unread => simp [hread]
    case read =>
      rw [hread]
      rintro _ ⟨⟩
      obtain ⟨taken, rest, hvs, takes, done, stopped⟩ := s.takes_createVersions vs
      rw [eq]
      refine ⟨taken, rest, hvs, takes, fun nil => ?_, fun v later hrest => ?_⟩
      · rw [done nil]
        rfl
      · obtain ⟨refused, present⟩ := stopped v later hrest
        rw [refused]
        exact ⟨rfl, present⟩
    case ordered => exact fun proper vs hread => Layout.read_ordered hread proper
    case ok_iff =>
      intro n
      rw [loadLayout_eq_ok_iff s hread]
      constructor
      · exact fun loaded => ⟨vs, hread, loaded⟩
      · rintro ⟨ws, hws, loaded⟩
        rw [hread] at hws
        cases hws
        exact loaded
    case unchanged_iff =>
      rw [eq, hread]
      intro e h
      have failed : (s.createVersions vs).2 ≠ .ok () := by
        intro done
        rw [done] at h
        cases h
      rw [createVersions_versions_eq_iff failed]
      simp

end Store

/-! ### A layout that is loaded in part -/

namespace Layout

/-- The directory of a module with two versions that have no files. -/
def twoVersions : FileTree := .directory [("v1", .empty), ("v2", .empty)]

/-- A layout with this module. -/
def oneModule : FileTree := .directory [("m", twoVersions)]

theorem read_oneModule : read oneModule "." =
    .ok [{ module := "m", version := "v1" }, { module := "m", version := "v2" }] := by
  have top : oneModule.lookupBelow "" "." = .ok oneModule := rfl
  have modules : directories "." oneModule = .ok [("m", twoVersions)] :=
    directories_of_pairwise rfl (List.pairwise_singleton _ _) (List.forall_mem_singleton.2 ⟨_, rfl⟩)
  have versions : directories "./m" twoVersions = .ok [("v1", .empty), ("v2", .empty)] :=
    directories_of_pairwise rfl (List.pairwise_pair.2 (by decide))
      (List.forall_mem_cons.2 ⟨⟨_, rfl⟩, List.forall_mem_singleton.2 ⟨_, rfl⟩⟩)
  have here : Path.join "" "." = "." := by decide +kernel
  have below : Path.join "." "m" = "./m" := by decide +kernel
  have each : readModule "m" "./m" twoVersions =
      .ok [{ module := "m", version := "v1" }, { module := "m", version := "v2" }] := by
    simp only [readModule, versions]
    decide +kernel
  have tree : readTree "." oneModule =
      .ok [{ module := "m", version := "v1" }, { module := "m", version := "v2" }] := by
    rw [readTree, modules]
    simp only [bind, Except.bind, List.mapM_cons, List.mapM_nil, below, each, pure, Except.pure,
      List.flatten_cons, List.flatten_nil, List.append_nil]
  unfold read
  simp only [top, here, bind, Except.bind, tree]

end Layout

/-- **What came before a version that was there stays**: the store has `m@v2`, and is given `m@v1`
before the layout is refused. -/
theorem Store.loadLayout_partial : ¬ ∀ (updates : List Update) (tree : FileTree) (root : String)
    (e : Error), ((empty.after updates).loadLayout tree root).2 = .error e →
    ((empty.after updates).loadLayout tree root).1.versions = (empty.after updates).versions := by
  intro h
  have same := h [.createVersion { module := "m", version := "v2" }] Layout.oneModule "."
    (.alreadyExists ⟨"m", "v2"⟩)
  rw [loadLayout_of_ok _ Layout.read_oneModule] at same
  exact absurd (same (by decide +kernel)) (by decide +kernel)

end SchemaDepot
