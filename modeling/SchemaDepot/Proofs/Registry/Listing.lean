import SchemaDepot.Proofs.Registry.Filing
import SchemaDepot.Proofs.Version.Reading
import SchemaDepot.Registry.Basic

/-! # The versions of a module in their order

Versions are listed by key, and by time where the keys are the same. Whatever was done to a store,
the list of a module has each of its versions once, and the latest version stands at its end.

* `Version.IsUpTo`: the order of a list.
* `Store.Lists`: a list is that of a module; `Store.IsFiled.lists`: so is the one that is made.
* `Store.after_listsInOrder`: lists after any updates, and the order behind them. -/

namespace SchemaDepot

/-! ### The order -/

namespace Version

/-- **A version stands before another or beside it**: by its key, or by time if they have one. -/
inductive IsUpTo (v w : Version) : Prop where
  | key : v.key.compare w.key = .lt → IsUpTo v w
  | time : v.key = w.key → v.createdAt ≤ w.createdAt → IsUpTo v w

/-- By key, then by time. -/
def compare (v w : Version) : Ordering :=
  (v.key.compare w.key).then (Ord.compare v.createdAt w.createdAt)

instance : Std.TransCmp Version.compare :=
  haveI := transCmp_on VersionKey.compare Version.key
  inferInstanceAs (Std.TransCmp (compareLex (fun v w : Version => v.key.compare w.key)
    (compareOn Version.createdAt)))

theorem isLE_compare {v w : Version} : (v.compare w).isLE = true ↔ v.IsUpTo w := by
  rw [Version.compare, Ordering.isLE_then_iff_or, Std.LawfulEqCmp.compare_eq_iff_eq,
    Nat.isLE_compare]
  constructor
  · rintro (less | ⟨same, time⟩)
    · exact .key less
    · exact .time same time
  · rintro (less | ⟨same, time⟩)
    · exact Or.inl less
    · exact Or.inr ⟨same, time⟩

end Version

namespace Store

variable {s : Store} {name : String} {v w : Version} {vs : List Version}

theorem isNotAfter_trans (u v w : Version) (huv : isNotAfter u v = true)
    (hvw : isNotAfter v w = true) : isNotAfter u w = true :=
  @Std.TransCmp.isLE_trans _ Version.compare _ _ _ _ huv hvw

theorem isNotAfter_total (v w : Version) : (isNotAfter v w || isNotAfter w v) = true := by
  show ((v.compare w).isLE || (w.compare v).isLE) = true
  rw [@Std.OrientedCmp.eq_swap _ Version.compare _ w v]
  cases v.compare w <;> rfl

/-! ### The list -/

/-- **A list is that of a module**: it has each stored version of the module once and no other, in
their order, and it tells the latest one. -/
structure Lists (s : Store) (name : String) (vs : List Version) : Prop where
  once : (vs.map Version.id).Nodup
  stored : ∀ v, v ∈ vs ↔ s.getVersion v.id = .ok v ∧ v.module = name
  ordered : vs.Pairwise Version.IsUpTo
  latest : ∀ v, s.latest name = .ok v ↔ vs.getLast? = some v
  highest : ∀ v, s.latest name = .ok v → ∀ w ∈ vs, w.IsUpTo v
  missing : ∀ e, s.latest name = .error e ↔
    e = .versionNotFound ⟨name, "latest"⟩ ∧ ∀ v, s.getVersion v.id = .ok v → v.module ≠ name

theorem listVersions_eq_ok {m : Module} (entry : s.getModule name = .ok m) :
    s.listVersions name = .ok ((s.versions.filter (·.module == name)).mergeSort isNotAfter) := by
  rw [listVersions, getModule_eq_ok.1 entry]

theorem latest_of_listVersions (h : s.listVersions name = .ok vs) : s.latest name =
    vs.getLast?.elim (.error (.versionNotFound ⟨name, "latest"⟩)) .ok := by
  simp only [latest, h, bind, Except.bind]
  cases vs.getLast? <;> rfl

theorem isUpTo_of_getLast? (ordered : vs.Pairwise Version.IsUpTo) (last : vs.getLast? = some v)
    (hw : w ∈ vs) : w.IsUpTo v := by
  obtain ⟨front, rfl⟩ := List.getLast?_eq_some_iff.1 last
  rcases List.mem_append.1 hw with before | at_end
  · exact (List.pairwise_append.1 ordered).2.2 w before v List.mem_cons_self
  · obtain rfl := List.mem_singleton.1 at_end
    exact .time rfl le_rfl

/-- **The list that is made of a module is its list.** -/
theorem IsFiled.lists (hs : s.IsFiled) {m : Module} (entry : s.getModule name = .ok m) :
    ∃ vs, s.listVersions name = .ok vs ∧ s.Lists name vs := by
  have listed := listVersions_eq_ok entry
  refine ⟨_, listed, ?_⟩
  have latest := latest_of_listVersions listed
  have same := List.mergeSort_perm (s.versions.filter (·.module == name)) isNotAfter
  have ordered := (List.pairwise_mergeSort isNotAfter_trans isNotAfter_total
    (s.versions.filter (·.module == name))).imp Version.isLE_compare.1
  generalize (s.versions.filter (·.module == name)).mergeSort isNotAfter = vs at *
  have stored (v : Version) : v ∈ vs ↔ s.getVersion v.id = .ok v ∧ v.module = name := by
    rw [same.mem_iff, List.mem_filter, getVersion_eq_ok, version?_eq_some hs, beq_iff_eq,
      and_iff_left (rfl : v.id = v.id)]
  constructor
  case once =>
    exact (same.map Version.id).nodup_iff.2 (hs.ids.sublist (List.filter_sublist.map Version.id))
  case stored => exact stored
  case ordered => exact ordered
  case latest =>
    intro v
    rw [latest]
    cases vs.getLast? <;> simp
  case highest =>
    intro v hv w hw
    refine isUpTo_of_getLast? ordered ?_ hw
    rw [latest] at hv
    cases last : vs.getLast? <;> simp_all
  case missing =>
    intro e
    have none_iff : vs.getLast? = none ↔ ∀ v, s.getVersion v.id = .ok v → v.module ≠ name := by
      rw [List.getLast?_eq_none_iff, List.eq_nil_iff_forall_not_mem]
      exact forall_congr' fun v => by rw [stored, not_and]
    rw [latest, ← none_iff]
    cases vs.getLast? <;> simp [eq_comm]

/-- **Versions are listed in a linear order**, each of a module once, after any updates of an empty
store. -/
theorem after_listsInOrder (updates : List Update) : VersionKey.IsLinear ∧
    ∀ name m, (empty.after updates).getModule name = .ok m →
      ∃ vs, (empty.after updates).listVersions name = .ok vs ∧
        (empty.after updates).Lists name vs :=
  ⟨VersionKey.isLinear, fun _ _ entry => (isFiled_after updates).lists entry⟩

/-- Versions of one module that come in no order: releases, prereleases and others. -/
def mixedVersions : List Version :=
  ["snapshot", "v1.0.0", "1.0.0-rc.10", "1.0.0", "1.0.0-rc.2"].zipIdx.map fun (version, time) =>
    { module := "core", version, createdAt := time }

/-- The same versions in their order. -/
def mixedInOrder : List Version := [4, 2, 1, 3, 0].filterMap (mixedVersions[·]?)

theorem after_listsInOrder_mixed :
    let s := empty.after (mixedVersions.map .createVersion)
    ∃ m, s.getModule "core" = .ok m ∧ s.listVersions "core" = .ok mixedInOrder ∧
      s.Lists "core" mixedInOrder := by
  intro s
  have entered : (s.getModule "core").toOption.isSome = true := by decide +kernel
  have stored : (s.versions.filter (·.module == "core")).Perm mixedInOrder := by decide +kernel
  have ordered : mixedInOrder.Pairwise (isNotAfter · · = true) := by decide +kernel
  have antisymm : ∀ a ∈ mixedInOrder, ∀ b ∈ mixedInOrder, isNotAfter a b = true →
      isNotAfter b a = true → a = b := by decide +kernel
  cases entry : s.getModule "core" with
  | error e =>
    rw [entry] at entered
    cases entered
  | ok m =>
    obtain ⟨vs, list, lists⟩ := (after_listsInOrder _).2 "core" m entry
    have made := Except.ok.inj (list.symm.trans (listVersions_eq_ok entry))
    have same : vs.Perm mixedInOrder := made ▸ (List.mergeSort_perm _ _).trans stored
    have sorted : vs.Pairwise (isNotAfter · · = true) :=
      lists.ordered.imp Version.isLE_compare.2
    obtain rfl : vs = mixedInOrder := same.eq_of_pairwise
      (fun a b ha hb => antisymm a (same.mem_iff.1 ha) b hb) sorted ordered
    exact ⟨m, rfl, list, lists⟩

end Store

end SchemaDepot
