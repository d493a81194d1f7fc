import Mathlib.Data.String.Basic
import SchemaDepot.Proofs.Registry.Description
import SchemaDepot.Proofs.Registry.Permanence

/-! # Modules and versions go together

A store has each version once and each entry for a module once, the entries in order, and an entry
for the module of each version. Whatever is done to it writes only what it is about.

* `Update.adds`, `Update.enters`: the versions and the entries that an update is about.
* `Store.IsClosed`: a property that single writes keep; `Update.keeps`: an update keeps it.
* `Store.IsFiled`: the invariant; `Update.frame`: all that an update is not about stays as it is.
* `Store.IsReliable`: what can be relied on when a store is read; `Store.after_isReliable`. -/

namespace SchemaDepot

/-! ### What is written -/

/-- The names of the versions that an operation adds. -/
def Operation.adds : Operation → VersionId → Prop
  | publish q, id => q.id = id
  | describe .., _ => False

namespace Update

/-- The names of the versions that an update may add. -/
def adds : Update → VersionId → Prop
  | createVersion v, id => v.id = id
  | putModule _, _ => False
  | loadLayout tree root here, id => ∃ vs, Layout.read tree root here = .ok vs ∧ ∃ v ∈ vs, v.id = id
  | operation _ o, id => o.adds id
  | traffic _ os _, id => ∃ o ∈ os, o.adds id

/-- The names of the modules whose entries an update may write. -/
def enters : Update → String → Prop
  | createVersion v, name => v.module = name
  | putModule m, name => m.name = name
  | loadLayout tree root here, name =>
    ∃ vs, Layout.read tree root here = .ok vs ∧ ∃ v ∈ vs, v.module = name
  | operation _ o, name => o.module = name
  | traffic _ os _, name => ∃ o ∈ os, o.module = name

end Update

/-- **A property that single writes keep**, if the versions added are those of `I`, and the entries
written those of `N`. -/
structure Store.IsClosed (I : VersionId → Prop) (N : String → Prop) (P : Store → Prop) : Prop where
  readClock : ∀ s, P s → P s.readClock.2
  putModule : ∀ s m, N m.name → P s → P (s.putModule m)
  createVersion : ∀ s v s', I v.id → N v.module → s.createVersion v = .ok s' → P s → P s'

/-- A procedure adds only versions of `I` and writes only entries of `N`, if its calls for entries
are answered with entries of that name. -/
inductive Procedure.Writes {α : Type} (I : VersionId → Prop) (N : String → Prop) :
    Procedure α → Prop where
  | done {result : α} : Writes I N (.done result)
  | readClock {next : Nat → Procedure α} : (∀ time, Writes I N (next time)) →
    Writes I N (.readClock next)
  | getModule {name : String} {next : Except Error Module → Procedure α} :
    (∀ answer, (∀ m, answer = .ok m → m.name = name) → Writes I N (next answer)) →
    Writes I N (.getModule name next)
  | putModule {m : Module} {next : Procedure α} : N m.name → Writes I N next →
    Writes I N (.putModule m next)
  | getVersion {id : VersionId} {next : Except Error Version → Procedure α} :
    (∀ answer, Writes I N (next answer)) → Writes I N (.getVersion id next)
  | createVersion {v : Version} {next : Except Error Unit → Procedure α} : I v.id → N v.module →
    (∀ answer, Writes I N (next answer)) → Writes I N (.createVersion v next)

section Writes
variable {α β : Type} {I : VersionId → Prop} {N : String → Prop} {P : Store → Prop}
  {p : Procedure α}

namespace Procedure

theorem Writes.map (h : p.Writes I N) (f : α → β) : (p.map f).Writes I N := by
  induction h with
  | done => exact .done
  | readClock _ ih => exact .readClock ih
  | getModule _ ih => exact .getModule ih
  | putModule hm _ ih => exact .putModule hm ih
  | getVersion _ ih => exact .getVersion ih
  | createVersion hi hn _ ih => exact .createVersion hi hn ih

theorem getModule_name {s : Store} {name : String} {m : Module} (h : s.getModule name = .ok m) :
    m.name = name := by
  unfold Store.getModule at h
  split at h <;> cases h
  exact Store.module?_name ‹_›

/-- The next call writes only that, and so do the calls after it. -/
theorem Writes.step (h : p.Writes I N) (closed : Store.IsClosed I N P) (s : Store) :
    (p.step s).1.Writes I N ∧ (P s → P (p.step s).2) := by
  cases h with
  | done => exact ⟨.done, id⟩
  | readClock h => exact ⟨h _, closed.readClock s⟩
  | getModule h => exact ⟨h _ fun _ => getModule_name, id⟩
  | putModule hm h => exact ⟨h, closed.putModule s _ hm⟩
  | getVersion h => exact ⟨h _, id⟩
  | createVersion hi hn h =>
    simp only [Procedure.step]
    split
    · next hc => exact ⟨h _, closed.createVersion s _ _ hi hn hc⟩
    · exact ⟨h _, id⟩

theorem Writes.run (h : p.Writes I N) (closed : Store.IsClosed I N P) {s : Store} (hs : P s) :
    P (p.run s).2 := by
  induction h generalizing s with
  | done => exact hs
  | readClock _ ih => exact ih _ (closed.readClock s hs)
  | getModule _ ih => exact ih _ (fun _ => getModule_name) hs
  | putModule hm _ ih => exact ih (closed.putModule s _ hm hs)
  | getVersion _ ih => exact ih _ hs
  | createVersion hi hn _ ih =>
    simp only [Procedure.run]
    split
    · next hc => exact ih _ (closed.createVersion s _ _ hi hn hc hs)
    · exact ih _ hs

end Procedure

theorem PublishRequest.writes_note {q : PublishRequest} {m : Module} (hm : m.name = q.module)
    (hn : N q.module) : (q.note m).Writes I N :=
  .readClock fun time => .putModule (by rwa [q.updateModule_name, hm]) (.getVersion fun _ => .done)

theorem PublishRequest.writes_publish {q : PublishRequest} (reader : SchemaReader) (hi : I q.id)
    (hn : N q.module) : (q.publish reader).Writes I N := by
  unfold publish
  split
  · refine .readClock fun time => .createVersion hi hn fun answer => ?_
    cases answer with
    | error e => exact .done
    | ok _ =>
      refine .getModule fun answer named => ?_
      cases answer with
      | ok m => exact writes_note (named m rfl) hn
      | error e =>
        dsimp only
        split
        · exact .readClock fun time => writes_note rfl hn
        · exact .done
  · exact .done

theorem writes_describeModule {name : String} (description : String) (hn : N name) :
    (describeModule name description).Writes I N := by
  refine .getModule fun answer named => ?_
  cases answer with
  | error e => exact .done
  | ok m =>
    refine .readClock fun time => .putModule ?_ .done
    show N m.name
    rwa [named m rfl]

theorem Operation.writes_calls {o : Operation} (reader : SchemaReader)
    (hi : ∀ id, o.adds id → I id) (hn : N o.module) : (o.calls reader).Writes I N := by
  cases o with
  | publish q => exact (PublishRequest.writes_publish reader (hi q.id rfl) hn).map _
  | describe name description => exact (writes_describeModule description hn).map _

theorem Traffic.writes_run {t : Traffic} (positions : List Nat)
    (closed : Store.IsClosed I N P) (h : ∀ p ∈ t.procedures, p.Writes I N) (hs : P t.store) :
    P (t.run positions).store := by
  induction positions generalizing t with
  | nil => exact hs
  | cons i is ih =>
    have turned : (∀ p ∈ (t.turn i).procedures, p.Writes I N) ∧ P (t.turn i).store := by
      unfold turn
      split
      · next p hp =>
        obtain ⟨later, kept⟩ := (h p (List.mem_of_getElem? hp)).step closed t.store
        refine ⟨fun p' hp' => ?_, kept hs⟩
        rcases List.mem_or_eq_of_mem_set hp' with old | rfl
        · exact h p' old
        · exact later
      · exact ⟨h, hs⟩
    exact ih turned.1 turned.2

theorem Store.keeps_createVersions {vs : List Version} (closed : Store.IsClosed I N P)
    (h : ∀ v ∈ vs, I v.id ∧ N v.module) {s : Store} (hs : P s) : P (s.createVersions vs).1 := by
  induction vs generalizing s with
  | nil => exact hs
  | cons v vs ih =>
    obtain ⟨hi, hn⟩ := h v List.mem_cons_self
    have read := closed.readClock s hs
    simp only [createVersions]
    split
    · next s' hc =>
      exact ih (fun v' hv' => h v' (List.mem_cons_of_mem v hv'))
        (closed.createVersion _ { v with createdAt := s.clock } _ hi hn hc read)
    · exact read

theorem Store.keeps_loadLayout {tree : FileTree} {root here : String}
    (closed : Store.IsClosed I N P)
    (h : ∀ vs, Layout.read tree root here = .ok vs → ∀ v ∈ vs, I v.id ∧ N v.module) {s : Store}
    (hs : P s) : P (s.loadLayout tree root here).1 := by
  unfold loadLayout
  split
  · exact hs
  · next vs hread => exact keeps_createVersions closed (h vs hread) hs

/-- **An update keeps what single writes keep** of that which it is about. -/
theorem Update.keeps {u : Update} (closed : Store.IsClosed I N P) (hi : ∀ id, u.adds id → I id)
    (hn : ∀ name, u.enters name → N name) {s : Store} (hs : P s) : P (u.apply s) := by
  cases u with
  | createVersion v =>
    simp only [apply]
    cases hc : s.createVersion v with
    | ok s' => exact closed.createVersion s v s' (hi v.id rfl) (hn v.module rfl) hc hs
    | error e => exact hs
  | putModule m => exact closed.putModule s m (hn m.name rfl) hs
  | loadLayout tree root here =>
    exact Store.keeps_loadLayout closed (fun vs hread v hv =>
      ⟨hi v.id ⟨vs, hread, v, hv, rfl⟩, hn v.module ⟨vs, hread, v, hv, rfl⟩⟩) hs
  | operation reader o => exact (Operation.writes_calls reader hi (hn o.module rfl)).run closed hs
  | traffic reader os turns =>
    refine Traffic.writes_run turns closed (fun p hp => ?_) hs
    obtain ⟨o, ho, rfl⟩ := List.mem_map.1 hp
    exact Operation.writes_calls reader (fun id hid => hi id ⟨o, ho, hid⟩)
      (hn o.module ⟨o, ho, rfl⟩)

end Writes

namespace Store

variable {s s' : Store} {v : Version} {m : Module}

/-! ### The invariant -/

/-- **Versions and entries go together**: each stands once, and the module of a version has an
entry. -/
structure IsFiled (s : Store) : Prop where
  modules : s.modules.Pairwise fun m n => m.name < n.name
  ids : (s.versions.map Version.id).Nodup
  entered : ∀ v ∈ s.versions, (s.module? v.module).isSome

theorem mem_insertModule {ms : List Module} {n : Module} (h : n ∈ insertModule m ms) :
    n = m ∨ n ∈ ms := by
  fun_induction insertModule m ms with
  | case1 => exact Or.inl (List.mem_singleton.1 h)
  | case2 k ks => exact List.mem_cons.1 h
  | case3 k ks => exact (List.mem_cons.1 h).imp_right (List.mem_cons_of_mem k)
  | case4 k ks _ _ ih =>
    rcases List.mem_cons.1 h with rfl | h
    · exact Or.inr List.mem_cons_self
    · exact (ih h).imp_right (List.mem_cons_of_mem k)

/-- An entry is inserted where its name belongs. -/
theorem pairwise_insertModule (m : Module) {ms : List Module}
    (h : ms.Pairwise fun m n => m.name < n.name) :
    (insertModule m ms).Pairwise fun m n => m.name < n.name := by
  fun_induction insertModule m ms with
  | case1 => exact List.pairwise_singleton _ _
  | case2 n ns less =>
    refine List.pairwise_cons.2 ⟨fun k hk => ?_, h⟩
    rcases List.mem_cons.1 hk with rfl | hk
    · exact less
    · exact lt_trans less (List.rel_of_pairwise_cons h hk)
  | case3 n ns _ same =>
    obtain ⟨first, rest⟩ := List.pairwise_cons.1 h
    exact List.pairwise_cons.2 ⟨fun k hk => same ▸ first k hk, rest⟩
  | case4 n ns more ne ih =>
    obtain ⟨first, rest⟩ := List.pairwise_cons.1 h
    refine List.pairwise_cons.2 ⟨fun k hk => ?_, ih rest⟩
    rcases mem_insertModule hk with rfl | hk
    · exact lt_of_le_of_ne (not_lt.1 more) (Ne.symm ne)
    · exact first k hk

theorem isFiled_empty : empty.IsFiled where
  modules := .nil
  ids := .nil
  entered := by rintro v ⟨⟩

theorem IsFiled.putModule (hs : s.IsFiled) (m : Module) : (s.putModule m).IsFiled where
  modules := pairwise_insertModule m hs.modules
  ids := hs.ids
  entered v hv := (growsTo_putModule m s).module _ (hs.entered v hv)

theorem version?_eq_some (hs : s.IsFiled) {id : VersionId} :
    s.version? id = some v ↔ v ∈ s.versions ∧ v.id = id :=
  find?_key_eq_some hs.ids

theorem version?_eq_none {id : VersionId} :
    s.version? id = none ↔ ∀ v ∈ s.versions, v.id ≠ id := by
  simp [version?]

theorem module?_eq_some (hs : s.IsFiled) {name : String} :
    s.module? name = some m ↔ m ∈ s.modules ∧ m.name = name :=
  find?_key_eq_some (List.pairwise_map.2 (hs.modules.imp fun less => ne_of_lt less))

theorem IsFiled.readClock (hs : s.IsFiled) : s.readClock.2.IsFiled :=
  ⟨hs.modules, hs.ids, hs.entered⟩

theorem modules_ensureModule (name : String) (s : Store) :
    (s.ensureModule name).modules = s.modules ∨
      (s.ensureModule name).modules = insertModule (Module.new name s.clock) s.modules := by
  unfold ensureModule
  cases s.module? name with
  | some m => exact Or.inl rfl
  | none => exact Or.inr rfl

theorem versions_ensureModule (name : String) (s : Store) :
    (s.ensureModule name).versions = s.versions := by
  unfold ensureModule
  cases s.module? name <;> rfl

/-- A version is added under a name of its own, together with the entry for its module. -/
theorem IsFiled.createVersion (hs : s.IsFiled) (h : s.createVersion v = .ok s') : s'.IsFiled := by
  have grows := growsTo_of_createVersion h
  have entered := isSome_module?_of_createVersion h
  obtain ⟨absent, rfl⟩ := createVersion_eq_ok h
  refine ⟨?_, ?_, fun u hu => ?_⟩
  · rcases modules_ensureModule v.module { s with versions := s.versions ++ [v] } with same | new
    · rw [same]
      exact hs.modules
    · rw [new]
      exact pairwise_insertModule _ hs.modules
  · rw [versions_ensureModule, List.map_append]
    refine List.nodup_append.2 ⟨hs.ids, List.nodup_singleton _, fun id hid id' hid' same => ?_⟩
    obtain rfl := List.mem_singleton.1 hid'
    obtain ⟨u, hu, rfl⟩ := List.mem_map.1 hid
    exact version?_eq_none.1 absent u hu same
  · rw [versions_ensureModule] at hu
    rcases List.mem_append.1 hu with old | new
    · exact grows.module _ (hs.entered u old)
    · obtain rfl := List.mem_singleton.1 new
      exact entered

theorem isClosed_isFiled : IsClosed (fun _ => True) (fun _ => True) IsFiled where
  readClock _ hs := hs.readClock
  putModule _ m _ hs := hs.putModule m
  createVersion _ _ _ _ _ h hs := hs.createVersion h

/-- **The invariant holds after any updates** of an empty store. -/
theorem isFiled_after (updates : List Update) : (empty.after updates).IsFiled := by
  have kept : ∀ s : Store, s.IsFiled → (s.after updates).IsFiled := by
    induction updates with
    | nil => exact fun s hs => hs
    | cons u us ih =>
      intro s hs
      exact ih _ (u.keeps isClosed_isFiled (fun _ _ => trivial) (fun _ _ => trivial) hs)
  exact kept empty isFiled_empty

/-! ### What an update is not about -/

theorem isClosed_version (s : Store) (id : VersionId) :
    IsClosed (· ≠ id) (fun _ => True) fun s' => s'.version? id = s.version? id where
  readClock _ h := h
  putModule _ _ _ h := h
  createVersion _ v _ hi _ hc h := by
    rw [version?_of_createVersion hc, if_neg hi]
    exact h

theorem isClosed_module (s : Store) (name : String) :
    IsClosed (fun _ => True) (· ≠ name) fun s' => s'.module? name = s.module? name where
  readClock _ h := h
  putModule _ m hn h := by
    rw [module?_putModule, if_neg hn]
    exact h
  createVersion _ v _ _ hn hc h := by
    rw [module?_of_createVersion hc, if_neg fun both => hn both.2]
    exact h

/-- **All that an update is not about stays as it is.** -/
theorem frame_apply (u : Update) (s : Store) :
    (∀ id, ¬ u.adds id → (u.apply s).version? id = s.version? id) ∧
      ∀ name, ¬ u.enters name → (u.apply s).module? name = s.module? name :=
  ⟨fun id hid => u.keeps (isClosed_version s id) (fun _ adds same => hid (same ▸ adds))
      (fun _ _ => trivial) rfl,
    fun name hname => u.keeps (isClosed_module s name) (fun _ _ => trivial)
      (fun _ enters same => hname (same ▸ enters)) rfl⟩

/-! ### Reading -/

/-- **What can be relied on when a store is read**, now and later on. -/
structure IsReliable (s : Store) : Prop where
  /-- Each version is filed under its own name, and nothing else is. -/
  filed : ∀ id v, s.getVersion id = .ok v ↔ v ∈ s.versions ∧ v.id = id
  /-- The module of a version has an entry. -/
  entered : ∀ v ∈ s.versions, ∃ m, s.getModule v.module = .ok m
  /-- What was read once is read for ever. -/
  lasting : ∀ updates id v, s.getVersion id = .ok v → (s.after updates).getVersion id = .ok v
  moduleNotFound : ∀ id, s.getVersion id = .error (.moduleNotFound id.module) ↔
    s.getModule id.module = .error (.moduleNotFound id.module)
  versionNotFound : ∀ id, s.getVersion id = .error (.versionNotFound id) ↔
    (∃ m, s.getModule id.module = .ok m) ∧ ∀ v ∈ s.versions, v.id ≠ id
  /-- The entries stand in the order of their names, each once, -/
  ordered : s.modules.Pairwise fun m n => m.name < n.name
  /-- and are those that can be read. -/
  listed : ∀ name m, s.getModule name = .ok m ↔ m ∈ s.modules ∧ m.name = name
  /-- An update changes only versions and entries that it is about. -/
  frame : ∀ u : Update, (∀ id, ¬ u.adds id → (u.apply s).version? id = s.version? id) ∧
    ∀ name, ¬ u.enters name → (u.apply s).getModule name = s.getModule name

theorem getModule_eq_ok {name : String} : s.getModule name = .ok m ↔ s.module? name = some m := by
  unfold getModule
  cases s.module? name <;> simp

theorem getModule_eq_error {name : String} :
    s.getModule name = .error (.moduleNotFound name) ↔ s.module? name = none := by
  unfold getModule
  cases s.module? name <;> simp

/-- A version cannot be read for want of its module just where that has no entry. -/
theorem getVersion_eq_moduleNotFound (hs : s.IsFiled) {id : VersionId} :
    s.getVersion id = .error (.moduleNotFound id.module) ↔ s.module? id.module = none := by
  cases hv : s.version? id with
  | none => cases hm : s.module? id.module <;> simp [getVersion, hv, hm]
  | some v =>
    obtain ⟨member, rfl⟩ := (version?_eq_some hs).1 hv
    have present : s.module? v.id.module ≠ none := Option.isSome_iff_ne_none.1 (hs.entered v member)
    simp [getVersion_of_version? hv, present]

theorem getVersion_eq_versionNotFound {id : VersionId} :
    s.getVersion id = .error (.versionNotFound id) ↔
      (∃ m, s.getModule id.module = .ok m) ∧ s.version? id = none := by
  cases hv : s.version? id with
  | none => cases hm : s.module? id.module <;> simp [getVersion, getModule, hv, hm]
  | some v => simp [getVersion_of_version? hv]

/-- **A store can be relied on** after any updates of an empty one. -/
theorem after_isReliable (updates : List Update) : (empty.after updates).IsReliable := by
  have hs := isFiled_after updates
  generalize empty.after updates = s at hs
  constructor
  case filed => exact fun id v => getVersion_eq_ok.trans (version?_eq_some hs)
  case entered =>
    intro v hv
    obtain ⟨m, -, read⟩ := getModule_of_isSome (hs.entered v hv)
    exact ⟨m, read⟩
  case lasting => exact fun updates id v => (s.growsTo_after updates).getVersion
  case moduleNotFound =>
    exact fun id => (getVersion_eq_moduleNotFound hs).trans getModule_eq_error.symm
  case versionNotFound =>
    exact fun id => getVersion_eq_versionNotFound.trans (and_congr_right fun _ => version?_eq_none)
  case ordered => exact hs.modules
  case listed => exact fun name m => getModule_eq_ok.trans (module?_eq_some hs)
  case frame =>
    intro u
    obtain ⟨versions, modules⟩ := frame_apply u s
    refine ⟨versions, fun name hname => ?_⟩
    rw [getModule, getModule, modules name hname]

end Store

end SchemaDepot
