import SchemaDepot.Proofs.Registry.Growth
import SchemaDepot.Proofs.Registry.Levels
import SchemaDepot.Registry.Layout
import SchemaDepot.Registry.Traffic

/-! # Resolutions are permanent

A store only grows, whatever is done to it, and a resolution that succeeds has read nothing but
versions that were there.

* `Update`: what is done to a store; `Store.after`: the store after some of it.
* `Store.growsTo_after`: the store then has all that it had before.
* `Resolver.resolve_mono`: a resolution that succeeds does so wherever the same versions, and any
  others, can be read.
* `Store.resolve_after`: it gives the same at any later time. -/

namespace SchemaDepot

/-! ### Updates -/

/-- What is done to a store: a single write, the versions of a layout, an operation of a registry,
or several of them side by side. Each may be refused. -/
inductive Update where
  | createVersion (v : Version)
  | putModule (m : Module)
  | loadLayout (tree : FileTree) (root here : String)
  | operation (reader : SchemaReader) (o : Operation)
  | traffic (reader : SchemaReader) (operations : List Operation) (turns : List Nat)

namespace Update

/-- The store after an update, which may have been refused. -/
def apply : Update → Store → Store
  | createVersion v, s => (s.createVersion v).toOption.getD s
  | putModule m, s => s.putModule m
  | loadLayout tree root here, s => (s.loadLayout tree root here).1
  | operation reader o, s => ((o.calls reader).run s).2
  | traffic reader operations turns, s => ((Traffic.start reader operations s).run turns).store

end Update

/-- The store after updates, one after the other. -/
def Store.after (updates : List Update) (s : Store) : Store :=
  updates.foldl (fun s u => u.apply s) s

/-! ### Every update lets the store grow -/

namespace Store

theorem growsTo_readClock (s : Store) : s.GrowsTo s.readClock.2 := ⟨fun _ _ => id, fun _ => id⟩

theorem growsTo_createVersions (vs : List Version) (s : Store) :
    s.GrowsTo (s.createVersions vs).1 := by
  induction vs generalizing s with
  | nil => exact .refl s
  | cons v vs ih =>
    simp only [createVersions]
    split
    · next s' h => exact (s.growsTo_readClock.trans (growsTo_of_createVersion h)).trans (ih s')
    · exact s.growsTo_readClock

theorem growsTo_loadLayout (tree : FileTree) (root here : String) (s : Store) :
    s.GrowsTo (s.loadLayout tree root here).1 := by
  unfold loadLayout
  split
  · exact .refl s
  · exact s.growsTo_createVersions _

end Store

namespace Procedure

variable {α : Type}

/-- **A single call** takes nothing away, whatever procedure it belongs to. -/
theorem growsTo_step (p : Procedure α) (s : Store) : s.GrowsTo (p.step s).2 := by
  cases p with
  | done | getModule | getVersion => exact .refl s
  | readClock => exact s.growsTo_readClock
  | putModule m => exact Store.growsTo_putModule m s
  | createVersion v =>
    simp only [step]
    split
    · next h => exact Store.growsTo_of_createVersion h
    · exact .refl s

/-- All calls of a procedure take nothing away. -/
theorem growsTo_run (p : Procedure α) (s : Store) : s.GrowsTo (p.run s).2 := by
  induction p generalizing s with
  | done => exact .refl s
  | readClock next ih => exact s.growsTo_readClock.trans (ih _ _)
  | getModule name next ih => exact ih _ _
  | putModule m next ih => exact (Store.growsTo_putModule m s).trans (ih _)
  | getVersion id next ih => exact ih _ _
  | createVersion v next ih =>
    simp only [run]
    split
    · next h => exact (Store.growsTo_of_createVersion h).trans (ih _ _)
    · exact ih _ _

end Procedure

namespace Traffic

theorem growsTo_turn (t : Traffic) (position : Nat) : t.store.GrowsTo (t.turn position).store := by
  unfold turn
  split
  · exact Procedure.growsTo_step _ _
  · exact .refl _

/-- Operations side by side take nothing away. -/
theorem growsTo_run (t : Traffic) (positions : List Nat) :
    t.store.GrowsTo (t.run positions).store := by
  induction positions generalizing t with
  | nil => exact .refl _
  | cons i is ih => exact (t.growsTo_turn i).trans (ih (t.turn i))

end Traffic

/-- **No update takes anything away.** -/
theorem Update.growsTo_apply (u : Update) (s : Store) : s.GrowsTo (u.apply s) := by
  cases u with
  | createVersion v =>
    simp only [apply]
    cases h : s.createVersion v with
    | ok s' => exact Store.growsTo_of_createVersion h
    | error e => exact .refl s
  | putModule m => exact Store.growsTo_putModule m s
  | loadLayout tree root here => exact s.growsTo_loadLayout tree root here
  | operation reader o => exact (o.calls reader).growsTo_run s
  | traffic reader operations turns => exact (Traffic.start reader operations s).growsTo_run turns

/-- **A store has all that it had before any updates.** -/
theorem Store.growsTo_after (updates : List Update) (s : Store) : s.GrowsTo (s.after updates) := by
  induction updates generalizing s with
  | nil => exact .refl s
  | cons u us ih => exact (u.growsTo_apply s).trans (ih (u.apply s))

/-! ### A resolution reads only what is there -/

section Reads
variable {fetch fetch' : VersionId → Except Error Version}
  (more : ∀ id v, fetch id = .ok v → fetch' id = .ok v)
include more

theorem settle_mono {r : Reference} {v : Version} (h : settle r (some (fetch r.id)) = .ok v) :
    settle r (some (fetch' r.id)) = .ok v := by
  cases hf : fetch r.id with
  | ok u =>
    rw [hf] at h
    rw [more _ _ hf]
    exact h
  | error e =>
    rw [hf] at h
    simp only [settle] at h
    cases h

theorem mapM_settle_mono {level : List Reference} {vs : List Version}
    (h : (level.mapM fun r => settle r (some (fetch r.id))) = .ok vs) :
    (level.mapM fun r => settle r (some (fetch' r.id))) = .ok vs := by
  rw [← h]
  refine mapM_congr fun r hr => ?_
  rw [mapM_eq] at h
  split at h
  · cases h
  · next none =>
    have fine := List.findSome?_eq_none_iff.1 none r hr
    cases hs : settle r (some (fetch r.id)) with
    | error e =>
      rw [hs] at fine
      cases fine
    | ok v => exact settle_mono more hs

/-- A level that can be read can be read wherever there is more. -/
theorem gather_mono {level : List Reference} {vs : List Version}
    (h : gather level (readAll fetch level) = .ok vs) :
    gather level (readAll fetch' level) = .ok vs := by
  rw [gather_perm (List.Perm.refl _)] at h ⊢
  exact mapM_settle_mono more h

namespace Resolver

/-- The levels from one on, if they can be read, can be read wherever there is more. -/
theorem levels_mono {r : Resolver} {root : VersionId} {room : Nat} {seen : List VersionId}
    {refs : List Reference} {vs : List Version} (h : r.levels fetch root room seen refs = .ok vs) :
    r.levels fetch' root room seen refs = .ok vs := by
  induction room generalizing seen refs vs with
  | zero =>
    by_cases nil : (unseen seen refs).1 = []
    · rw [levels_of_nil nil] at h ⊢
      exact h
    · rw [levels_zero nil] at h
      cases h
  | succ room ih =>
    by_cases nil : (unseen seen refs).1 = []
    · rw [levels_of_nil nil] at h ⊢
      exact h
    · rw [levels_succ nil] at h ⊢
      obtain ⟨versions, hversions, h⟩ := exists_of_bind_ok h
      obtain ⟨next, hnext, h⟩ := exists_of_bind_ok h
      obtain ⟨others, hothers, h⟩ := exists_of_bind_ok h
      rw [gather_mono more hversions]
      show (do
        let next ← r.references versions
        return versions ++ (← r.levels fetch' root room _ next)) = _
      rw [hnext]
      show (do return versions ++ (← r.levels fetch' root room _ next)) = _
      rw [ih hothers]
      exact h

/-- **What resolves does so, and to the same, wherever there is more to read.** -/
theorem resolve_mono {r : Resolver} {v : Version} {res : Resolution}
    (h : r.resolve fetch v = .ok res) : r.resolve fetch' v = .ok res := by
  unfold resolve at h ⊢
  obtain ⟨first, hfirst, h⟩ := exists_of_bind_ok h
  obtain ⟨versions, hversions, h⟩ := exists_of_bind_ok h
  rw [hfirst]
  show (do return Resolution.ofVersions v (← r.levels fetch' v.id r.limit [v.id] first)) = _
  rw [levels_mono more hversions]
  exact h

end Resolver

end Reads

/-! ### Later resolutions -/

namespace Store

variable {s s' : Store}

theorem getVersion_eq_ok {id : VersionId} {v : Version} :
    s.getVersion id = .ok v ↔ s.version? id = some v := by
  unfold getVersion
  cases s.version? id <;> cases s.module? id.module <;> simp

theorem GrowsTo.getVersion (h : s.GrowsTo s') {id : VersionId} {v : Version}
    (hv : s.getVersion id = .ok v) : s'.getVersion id = .ok v :=
  getVersion_eq_ok.2 (h.version id v (getVersion_eq_ok.1 hv))

theorem GrowsTo.resolve (h : s.GrowsTo s') {r : Resolver} {id : VersionId} {res : Resolution}
    (hres : s.resolve r id = .ok res) : s'.resolve r id = .ok res := by
  unfold Store.resolve at hres ⊢
  obtain ⟨v, hv, hres⟩ := exists_of_bind_ok hres
  rw [h.getVersion hv]
  exact Resolver.resolve_mono (fun _ _ => h.getVersion) hres

/-- **A resolution that succeeded once succeeds for ever, with the same result**, whatever is done
to the store in between. -/
theorem resolve_after (s : Store) (r : Resolver) (id : VersionId) {res : Resolution}
    (h : s.resolve r id = .ok res) (updates : List Update) :
    (s.after updates).resolve r id = .ok res :=
  (s.growsTo_after updates).resolve h

/-- Neither another version of that name nor its module made anew change what `app@1.0.0` needs. -/
theorem resolve_after_rewrites :
    let core : Version := { module := "core", version := "1", files := [⟨"core.proto", "x"⟩] }
    let app : Version :=
      { module := "app", version := "1", files := [⟨"app.proto", "y"⟩], dependencies := ["core@1"] }
    let s := Store.empty.after [.createVersion core, .createVersion app]
    let res : Resolution :=
      { root := app.id, own := app.files, dependencies := core.files, versions := [core.id],
        shadowed := [] }
    s.resolve { mode := .transitive } app.id = .ok res ∧
      (s.after [.createVersion { core with files := [] }, .putModule (Module.new "core" 7),
        .operation {} (.publish { module := "core", version := "1" }),
        .operation {} (.publish { module := "core", version := "2" }),
        .operation {} (.describe "app" "y")]).resolve { mode := .transitive } app.id = .ok res :=
  have h := by decide +kernel
  ⟨h, resolve_after _ _ _ h _⟩

end Store

end SchemaDepot
