import Mathlib.Data.List.Permutation
import SchemaDepot.Proofs.Registry.Publication

/-! # Descriptions side by side

Operations on one module may undo each other's descriptions: what a publication writes back is the
entry that it read, however many others have changed it since.

* `Operation.act`: what an operation by itself makes of a description; `described?_inOrder`: what
  operations one by one make of it.
* `Traffic.Origin`: where the entries come from that operations read and write.
* `Traffic.run_description`: what a run leaves, and when that is what some order leaves. -/

namespace SchemaDepot

/-- The description in the entry of a module, if there is an entry. -/
def Store.described? (s : Store) (name : String) : Option (Option String) :=
  (s.module? name).map Module.description

theorem Store.description?_eq (s : Store) (name : String) :
    s.description? name = (s.described? name).join := by
  rw [description?, described?]
  cases s.module? name <;> rfl

theorem Store.isSome_described? (s : Store) (name : String) :
    (s.described? name).isSome = (s.module? name).isSome := by
  rw [described?, Option.isSome_map]

theorem Store.module?_name {s : Store} {name : String} {m : Module} (h : s.module? name = some m) :
    m.name = name := by
  simpa using List.find?_some h

/-! ### Operations by themselves -/

theorem Procedure.run_map {α β : Type} (f : α → β) (p : Procedure α) (s : Store) :
    (p.map f).run s = (f (p.run s).1, (p.run s).2) := by
  induction p generalizing s with
  | done result => rfl
  | readClock next ih => exact ih _ _
  | getModule name next ih => exact ih _ _
  | putModule m next ih => exact ih _
  | getVersion id next ih => exact ih _ _
  | createVersion v next ih =>
    simp only [map, run]
    cases s.createVersion v with
    | ok s' => exact ih _ _
    | error e => exact ih _ _

namespace PublishRequest

variable {reader : SchemaReader} {q : PublishRequest} {s : Store}

theorem updateModule_name (q : PublishRequest) (time : Nat) (m : Module) :
    (q.updateModule time m).name = m.name := by
  rw [updateModule]
  cases q.description <;> rfl

theorem updateModule_description (q : PublishRequest) (time : Nat) (m : Module) :
    (q.updateModule time m).description = q.description.or m.description := by
  rw [updateModule]
  cases q.description <;> rfl

/-- A publication by itself adds its version and updates the entry of its module. -/
theorem run_publish (fine : q.check reader = .ok ()) (absent : s.version? q.id = none) :
    ∃ s' m time time',
      Store.createVersion (q.toVersion time) { s with clock := time + 1 } = .ok s' ∧
      s'.module? q.module = some m ∧
      ((q.publish reader).run s).2 =
        Store.putModule (q.updateModule time' m) { s' with clock := time' + 1 } := by
  obtain ⟨s', hs'⟩ : ∃ s',
      Store.createVersion (q.toVersion s.clock) { s with clock := s.clock + 1 } = .ok s' := by
    cases hc : Store.createVersion (q.toVersion s.clock) { s with clock := s.clock + 1 } with
    | ok s' => exact ⟨s', rfl⟩
    | error e =>
      have taken := (Store.createVersion_eq_error hc).1
      rw [toVersion_id] at taken
      cases (show s.version? q.id = none from absent) ▸ taken
  obtain ⟨m, hm, read⟩ := Store.getModule_of_isSome (Store.isSome_module?_of_createVersion hs')
  refine ⟨s', m, s.clock, s'.clock, hs', hm, ?_⟩
  have entered : (q.enter.run s').2 =
      Store.putModule (q.updateModule s'.clock m) { s' with clock := s'.clock + 1 } := by
    simp only [enter, Procedure.run]
    rw [show s'.getModule q.module = .ok m from read]
    rfl
  have created :
      ((q.create s.clock).run { s with clock := s.clock + 1 }).2 = (q.enter.run s').2 := by
    simp only [create, Procedure.run, hs']
  rw [publish, fine, ← entered, ← created]
  rfl

end PublishRequest

namespace Operation

/-- What an operation by itself makes of the description in the entry of its module. -/
def act : Operation → Option (Option String) → Option (Option String)
  | publish q, e => some (q.description.or e.join)
  | describe _ description, e => e.map fun _ => some description

/-- The version of a publication is not there, and its request is fine. -/
def Free (reader : SchemaReader) (s : Store) (o : Operation) : Prop :=
  ∀ q, o = publish q → q.check reader = .ok () ∧ s.version? q.id = none

/-- The operations do not publish the same version. -/
def Apart (o o' : Operation) : Prop := ∀ q q', o = publish q → o' = publish q' → q.id ≠ q'.id

theorem Apart.symm {o o' : Operation} (h : o.Apart o') : o'.Apart o :=
  fun q q' hq hq' => (h q' q hq' hq).symm

variable {reader : SchemaReader} {s : Store} {o : Operation}

theorem described?_run (free : o.Free reader s) :
    ((o.calls reader).run s).2.described? o.module = o.act (s.described? o.module) := by
  cases o with
  | publish q =>
    obtain ⟨fine, absent⟩ := free q rfl
    obtain ⟨s', m, time, time', hc, hm, after⟩ := PublishRequest.run_publish fine absent
    have before : m.description = (s.described? q.module).join := by
      have hm' : _ = some m := hm
      rw [Store.module?_of_createVersion hc] at hm'
      rw [← Store.description?_eq, Store.description?]
      split at hm'
      · next h =>
        cases hm'
        rw [show s.module? q.module = none from h.1]
        rfl
      · rw [show s.module? q.module = some m from hm']
        rfl
    show ((q.publish reader).map _ |>.run s).2.described? q.module =
      some (q.description.or (s.described? q.module).join)
    rw [Procedure.run_map, after, Store.described?, Store.module?_putModule,
      q.updateModule_name, if_pos (Store.module?_name hm), ← before]
    exact congrArg some (q.updateModule_description time' m)
  | describe name description =>
    show ((describeModule name description).map _ |>.run s).2.described? name =
      (s.described? name).map fun _ => some description
    rw [Procedure.run_map]
    cases hm : s.module? name with
    | none =>
      simp only [describeModule, Procedure.run, Store.getModule, hm, Store.described?]
      rfl
    | some m =>
      simp only [describeModule, Procedure.run, Store.getModule, hm, Store.described?]
      rw [Store.module?_putModule]
      exact congrArg (Option.map Module.description) (if_pos (Store.module?_name hm))

/-- An operation by itself leaves other versions free. -/
theorem Free.run {o' : Operation} (free : o'.Free reader s) (mine : o.Free reader s)
    (apart : o.Apart o') : o'.Free reader ((o.calls reader).run s).2 := by
  rintro q rfl
  refine ⟨(free q rfl).1, ?_⟩
  cases o with
  | publish r =>
    obtain ⟨fine, absent⟩ := mine r rfl
    obtain ⟨s', m, time, time', hc, hm, after⟩ := PublishRequest.run_publish fine absent
    show ((r.publish reader).map _ |>.run s).2.version? q.id = none
    rw [Procedure.run_map, after]
    show s'.version? q.id = none
    rw [Store.version?_of_createVersion hc, r.toVersion_id, if_neg (apart r q rfl rfl)]
    exact (free q rfl).2
  | describe name description =>
    show ((describeModule name description).map _ |>.run s).2.version? q.id = none
    rw [Procedure.run_map]
    simp only [describeModule, Procedure.run]
    cases s.getModule name <;> exact (free q rfl).2

/-- Operations that can all be done one by one. -/
structure Independent (reader : SchemaReader) (s : Store) (os : List Operation) : Prop where
  free : ∀ o ∈ os, o.Free reader s
  apart : os.Pairwise Apart

theorem Independent.perm {os os' : List Operation} (h : Independent reader s os)
    (perm : os'.Perm os) : Independent reader s os' where
  free o ho := h.free o (perm.mem_iff.1 ho)
  apart := (perm.pairwise_iff Apart.symm).2 h.apart

end Operation

/-- **What operations one by one make of a description.** -/
theorem described?_inOrder {reader : SchemaReader} {name : String} {os : List Operation} {s : Store}
    (h : Operation.Independent reader s os) (about : ∀ o ∈ os, o.module = name) :
    (inOrder reader os s).described? name =
      os.foldl (fun e o => o.act e) (s.described? name) := by
  induction os generalizing s with
  | nil => rfl
  | cons o os ih =>
    obtain ⟨first, rest⟩ := List.pairwise_cons.1 h.apart
    have mine := h.free o List.mem_cons_self
    have later : Operation.Independent reader ((o.calls reader).run s).2 os :=
      ⟨fun o' ho' => (h.free o' (List.mem_cons_of_mem o ho')).run mine (first o' ho'), rest⟩
    have one := Operation.described?_run mine
    rw [about o List.mem_cons_self] at one
    rw [inOrder, ih later fun o' ho' => about o' (List.mem_cons_of_mem o ho'), List.foldl_cons, one]

theorem description?_inOrder {reader : SchemaReader} {name : String} {os : List Operation}
    {s : Store} (h : Operation.Independent reader s os) (about : ∀ o ∈ os, o.module = name) :
    (inOrder reader os s).description? name =
      (os.foldl (fun e o => o.act e) (s.described? name)).join := by
  rw [Store.description?_eq, described?_inOrder h about]

/-! ### Orders of operations -/

namespace Operation

variable {reader : SchemaReader} {s : Store} {os order : List Operation} {o : Operation}
  {e : Option (Option String)} {name : String}

/-- One of the operations carries the description. -/
def Carried (os : List Operation) (description : Option String) : Prop :=
  ∃ o ∈ os, o.description?.isSome ∧ o.description? = description

/-- There is an entry, with a description that one of the operations carries. -/
def Known (os : List Operation) (e : Option (Option String)) : Prop :=
  ∃ description, e = some description ∧ Carried os description

/-- The operation changes the description that a store has for its module. -/
def Sets (s : Store) : Operation → Prop
  | publish q => q.description.isSome
  | describe name _ => (s.module? name).isSome

/-- One of the operations is a publication. -/
def AnyPublishes (os : List Operation) : Prop := ∃ q, .publish q ∈ os

theorem isSome_act (o : Operation) (h : e.isSome) : (o.act e).isSome := by
  cases o with
  | publish q => rfl
  | describe name description => simpa [act] using h

theorem isSome_foldl_act (h : e.isSome ∨ AnyPublishes os) :
    (os.foldl (fun e o => o.act e) e).isSome := by
  induction os generalizing e with
  | nil => exact h.resolve_right fun ⟨q, hq⟩ => nomatch hq
  | cons o os ih =>
    refine ih ?_
    rcases h with h | ⟨q, hq⟩
    · exact Or.inl (o.isSome_act h)
    · rcases List.mem_cons.1 hq with rfl | hq
      · exact Or.inl rfl
      · exact Or.inr ⟨q, hq⟩

theorem Known.carried (h : Known os e) : Carried os e.join := by
  obtain ⟨description, rfl, h⟩ := h
  exact h

theorem Known.act (h : Known os e) (ho : o ∈ os) : Known os (o.act e) := by
  obtain ⟨description, rfl, h⟩ := h
  cases o with
  | publish q =>
    cases hq : q.description with
    | none => exact ⟨description, by rw [Operation.act, hq]; rfl, h⟩
    | some text =>
      exact ⟨some text, by rw [Operation.act, hq]; rfl, _, ho, by rw [description?, hq]; rfl, hq⟩
  | describe name text => exact ⟨some text, rfl, _, ho, rfl, rfl⟩

theorem Known.foldl_act (h : Known os e) (sub : ∀ o ∈ order, o ∈ os) :
    Known os (order.foldl (fun e o => o.act e) e) := by
  induction order generalizing e with
  | nil => exact h
  | cons o order ih =>
    exact ih (h.act (sub o List.mem_cons_self)) fun o' ho' => sub o' (List.mem_cons_of_mem o ho')

/-- Who changes the description leaves the one that it carries. -/
theorem Sets.act (sets : o.Sets s) (ho : o ∈ os)
    (he : (s.module? o.module).isSome → e.isSome) : Known os (o.act e) := by
  cases o with
  | publish q =>
    obtain ⟨text, hq⟩ := Option.isSome_iff_exists.1 sets
    exact ⟨some text, by rw [Operation.act, hq]; rfl, _, ho, by rw [description?, hq]; rfl, hq⟩
  | describe name text =>
    obtain ⟨d, rfl⟩ := Option.isSome_iff_exists.1 (he sets)
    exact ⟨some text, rfl, _, ho, rfl, rfl⟩

/-- In every order a description is left that an operation carries, if one of them changes the
description. -/
theorem known_of_sets (perm : order.Perm os) (about : ∀ o ∈ os, o.module = name) (ho : o ∈ os)
    (sets : o.Sets s) : Known os (order.foldl (fun e o => o.act e) (s.described? name)) := by
  obtain ⟨before, after, rfl⟩ := List.append_of_mem (perm.mem_iff.2 ho)
  rw [List.foldl_append, List.foldl_cons]
  refine (sets.act ho fun there => ?_).foldl_act fun o' ho' =>
    perm.mem_iff.1 (List.mem_append_right before (List.mem_cons_of_mem o ho'))
  rw [about o ho] at there
  exact isSome_foldl_act (Or.inl ((s.isSome_described? name).trans there))

/-- The descriptions first, then the publications. -/
def describesFirst (os : List Operation) : List Operation :=
  os.filter (fun | .describe .. => true | .publish _ => false) ++
    os.filter fun o => !(match o with | .describe .. => true | .publish _ => false)

theorem describesFirst_perm (os : List Operation) : (describesFirst os).Perm os :=
  List.filter_append_perm _ os

theorem foldl_act_describes (h : ∀ o ∈ os, ∃ name text, o = describe name text)
    (unset : ∀ o ∈ os, ¬ o.Sets s) (about : ∀ o ∈ os, o.module = name) :
    os.foldl (fun e o => o.act e) (s.described? name) = s.described? name := by
  induction os with
  | nil => rfl
  | cons o os ih =>
    obtain ⟨other, text, rfl⟩ := h o List.mem_cons_self
    obtain rfl : other = name := about _ List.mem_cons_self
    have absent : s.described? other = none := by
      rw [← Option.not_isSome_iff_eq_none, s.isSome_described?]
      exact unset _ List.mem_cons_self
    rw [List.foldl_cons, show act (describe other text) (s.described? other) = s.described? other by
      rw [absent]; rfl]
    exact ih (fun o ho => h o (List.mem_cons_of_mem _ ho))
      (fun o ho => unset o (List.mem_cons_of_mem _ ho))
      fun o ho => about o (List.mem_cons_of_mem _ ho)

theorem foldl_act_publishes (h : ∀ o ∈ os, ∃ q, o = publish q) (unset : ∀ o ∈ os, ¬ o.Sets s) :
    (os.foldl (fun e o => o.act e) e).join = e.join := by
  induction os generalizing e with
  | nil => rfl
  | cons o os ih =>
    obtain ⟨q, rfl⟩ := h o List.mem_cons_self
    have silent : q.description = none :=
      Option.not_isSome_iff_eq_none.1 (unset _ List.mem_cons_self)
    rw [List.foldl_cons, ih (fun o ho => h o (List.mem_cons_of_mem _ ho))
      fun o ho => unset o (List.mem_cons_of_mem _ ho), act, silent]
    rfl

/-- Operations none of which changes the description leave it as it is, when the descriptions, which
find no entry, come first. -/
theorem foldl_act_describesFirst (unset : ∀ o ∈ os, ¬ o.Sets s)
    (about : ∀ o ∈ os, o.module = name) :
    ((describesFirst os).foldl (fun e o => o.act e) (s.described? name)).join =
      (s.described? name).join := by
  rw [describesFirst, List.foldl_append, foldl_act_publishes (s := s), foldl_act_describes (s := s)]
  · intro o ho
    cases o with
    | publish q => simp at ho
    | describe name text => exact ⟨name, text, rfl⟩
  · exact fun o ho => unset o (List.mem_of_mem_filter ho)
  · exact fun o ho => about o (List.mem_of_mem_filter ho)
  · intro o ho
    cases o with
    | publish q => exact ⟨q, rfl⟩
    | describe name text => simp at ho
  · exact fun o ho => unset o (List.mem_of_mem_filter ho)

/-- A description that an operation carries is left, when the operation comes last and there is an
entry for it then. -/
theorem foldl_act_last (ho : o ∈ os) (carried : o.description?.isSome)
    (present : (s.module? name).isSome ∨ AnyPublishes os) :
    ((os.erase o ++ [o]).foldl (fun e o => o.act e) (s.described? name)).join = o.description? := by
  rw [List.foldl_append, List.foldl_cons, List.foldl_nil]
  cases o with
  | publish q =>
    obtain ⟨text, hq⟩ := Option.isSome_iff_exists.1 carried
    have hq : q.description = some text := hq
    rw [act, description?, hq]
    rfl
  | describe name' text =>
    have entry : ((os.erase (describe name' text)).foldl (fun e o => o.act e)
        (s.described? name)).isSome := by
      refine isSome_foldl_act (present.imp (s.isSome_described? name).trans ?_)
      rintro ⟨q, hq⟩
      have ne : publish q ≠ describe name' text := nofun
      exact ⟨q, (List.mem_erase_of_ne ne).2 hq⟩
    obtain ⟨d, hd⟩ := Option.isSome_iff_exists.1 entry
    rw [hd]
    rfl

/-- In no order is a description left that no operation carries, if one of them changes the
description. -/
theorem carried_inOrder (h : Independent reader s os) (about : ∀ o ∈ os, o.module = name)
    (perm : order.Perm os) (ho : o ∈ os) (sets : o.Sets s) :
    Carried os ((inOrder reader order s).description? name) := by
  rw [description?_inOrder (h.perm perm) fun o ho => about o (perm.mem_iff.1 ho)]
  exact (known_of_sets perm about ho sets).carried

/-- Each description that an operation carries is left in some order, if there is an entry for
it. -/
theorem exists_order_carried (h : Independent reader s os) (about : ∀ o ∈ os, o.module = name)
    (present : (s.module? name).isSome ∨ AnyPublishes os) {description : Option String}
    (carried : Carried os description) :
    ∃ order : List Operation, order.Perm os ∧
      (inOrder reader order s).description? name = description := by
  obtain ⟨o, ho, carries, rfl⟩ := carried
  have perm : (os.erase o ++ [o]).Perm os :=
    (List.perm_append_singleton o _).trans (List.perm_cons_erase ho).symm
  refine ⟨_, perm, ?_⟩
  rw [description?_inOrder (h.perm perm) fun o ho => about o (perm.mem_iff.1 ho)]
  exact foldl_act_last ho carries present

/-- The description from the start is left in some order, if no operation changes it. -/
theorem exists_order_unset (h : Independent reader s os) (about : ∀ o ∈ os, o.module = name)
    (unset : ∀ o ∈ os, ¬ o.Sets s) :
    ∃ order : List Operation, order.Perm os ∧
      (inOrder reader order s).description? name = s.description? name := by
  have perm := describesFirst_perm os
  refine ⟨_, perm, ?_⟩
  rw [description?_inOrder (h.perm perm) fun o ho => about o (perm.mem_iff.1 ho),
    foldl_act_describesFirst unset about, ← Store.description?_eq]

end Operation

/-! ### Entries side by side -/

namespace Traffic

variable {reader : SchemaReader} {I : Module → Prop} {s : Store} {os : List Operation}
  {t : Traffic} {own : Nat → Option Receipt} {name : String} {turns : List Nat}

/-- Where an entry comes from that operations have written: its description was there or one of
them carries it, and it was there itself or one of them is a publication. -/
structure Origin (s : Store) (os : List Operation) (name : String) (m : Module) : Prop where
  description : m.description = s.description? name ∨ Operation.Carried os m.description
  entry : (s.module? name).isSome ∨ Operation.AnyPublishes os

/-- An entry that was there comes from there. -/
theorem origin_of_start {m : Module} (hm : s.module? name = some m) : Origin s os name m :=
  ⟨Or.inl (by rw [Store.description?, hm]; rfl), Or.inl (by rw [hm]; rfl)⟩

theorem admits_origin (about : ∀ o ∈ os, o.module = name) : Admits (Origin s os name) s os where
  keeps o ho := by
    cases o with
    | publish q =>
      refine fun m time origin => ⟨?_, origin.entry⟩
      rw [q.updateModule_description]
      cases hq : q.description with
      | none => exact origin.description
      | some text =>
        exact Or.inr ⟨_, ho, by rw [Operation.description?, hq]; rfl, hq⟩
    | describe name' text =>
      exact fun m time origin => ⟨Or.inr ⟨_, ho, rfl, rfl⟩, origin.entry⟩
  entry o ho m hm := by
    rw [about o ho] at hm
    exact origin_of_start hm
  opening q hq absent time := by
    obtain rfl : q.module = name := about _ hq
    exact ⟨Or.inl (by rw [Store.description?, absent]; rfl), Or.inr ⟨q, hq⟩⟩

/-- Every operation is through, and none has failed. -/
def AllSucceed (os : List Operation) (t : Traffic) : Prop :=
  ∀ i < os.length, ∃ r, t.answer? i = some (.ok r)

/-- Operations none of which has failed can be done one by one. -/
theorem Consistent.independent (h : Consistent reader I s os t own) (all : AllSucceed os t) :
    Operation.Independent reader s os where
  free := by
    rintro o ho q rfl
    obtain ⟨i, hi, hq⟩ := List.getElem_of_mem ho
    obtain ⟨r, hr⟩ := all i hi
    obtain ⟨v, -, hown, owns⟩ := h.own_of_ok (List.getElem?_eq_some_iff.2 ⟨hi, hq⟩) hr
    exact ⟨owns.fine, owns.id_eq ▸ h.fresh i v hown⟩
  apart := by
    rw [List.pairwise_iff_getElem]
    intro i j hi hj before q q' hq hq' same
    obtain ⟨r, hr⟩ := all i hi
    obtain ⟨r', hr'⟩ := all j hj
    exact (Nat.ne_of_lt before) (h.single (List.getElem?_eq_some_iff.2 ⟨hi, hq⟩)
      (List.getElem?_eq_some_iff.2 ⟨hj, hq'⟩) same hr hr')

/-- **What a run leaves of a description**, and when that is what the same operations leave one by
one. -/
structure DescriptionLeft (reader : SchemaReader) (os : List Operation) (s : Store) (name : String)
    (t : Traffic) : Prop where
  /-- It is the one from the start, or one that an operation carries. -/
  origin : t.store.description? name = s.description? name ∨
    Operation.Carried os (t.store.description? name)
  /-- Some order of the operations leaves it just if an operation carries it or none of them would
  change the one from the start. -/
  explained : (∃ order : List Operation, order.Perm os ∧
      (inOrder reader order s).description? name = t.store.description? name) ↔
    Operation.Carried os (t.store.description? name) ∨ ∀ o ∈ os, ¬ o.Sets s

theorem run_nil (reader : SchemaReader) (s : Store) (turns : List Nat) :
    (start reader [] s).run turns = start reader [] s := by
  induction turns with
  | nil => rfl
  | cons i turns ih => exact ih

/-- Where the entry of the module comes from after a run. -/
theorem origin_of_run (about : ∀ o ∈ os, o.module = name) {m : Module}
    (hm : ((start reader os s).run turns).store.module? name = some m) : Origin s os name m := by
  have admits := admits_origin (s := s) about
  obtain ⟨own, h, -⟩ := (consistent_start reader admits).run admits turns
  cases os with
  | nil =>
    rw [run_nil] at hm
    exact origin_of_start hm
  | cons o os =>
    exact h.entry o List.mem_cons_self m ((about o List.mem_cons_self).symm ▸ hm)

/-- The description of the module after a run is the one from the start, or one that an operation
carries. -/
theorem description?_run (reader : SchemaReader) (turns : List Nat) (about : ∀ o ∈ os, o.module = name) :
    let left := ((start reader os s).run turns).store.description? name
    left = s.description? name ∨ Operation.Carried os left := by
  obtain ⟨own, h, -⟩ := (consistent_start reader (admits_all s os)).run (admits_all s os) turns
  dsimp only
  rw [Store.description?]
  cases hm : ((start reader os s).run turns).store.module? name with
  | none =>
    left
    rw [Store.description?, h.grows.absent_module hm]
  | some m => exact (origin_of_run about hm).description

/-- **An order explains what a run leaves, unless all its changes were undone.** -/
theorem run_descriptionLeft (about : ∀ o ∈ os, o.module = name)
    (all : AllSucceed os ((start reader os s).run turns)) :
    DescriptionLeft reader os s name ((start reader os s).run turns) := by
  obtain ⟨own, h, -⟩ := (consistent_start reader (admits_all s os)).run (admits_all s os) turns
  have independent := h.independent all
  have origin := description?_run (s := s) reader turns about
  refine ⟨origin, ⟨?_, ?_⟩⟩
  · rintro ⟨order, perm, left⟩
    by_contra unexplained
    obtain ⟨undone, changed⟩ := not_or.1 unexplained
    obtain ⟨o, ho, sets⟩ : ∃ o ∈ os, o.Sets s := by simpa using changed
    exact undone (left ▸ Operation.carried_inOrder independent about perm ho sets)
  · intro kept
    by_cases carried : Operation.Carried os
        (((start reader os s).run turns).store.description? name)
    · refine Operation.exists_order_carried independent about ?_ carried
      obtain ⟨o, -, carries, same⟩ := carried
      cases hm : ((start reader os s).run turns).store.module? name with
      | none =>
        rw [same, Store.description?, hm] at carries
        cases carries
      | some m => exact (origin_of_run about hm).entry
    · rw [origin.resolve_right carried]
      exact Operation.exists_order_unset independent about (kept.resolve_left carried)

/-! ### A description undone -/

/-- A publication that carries no description, and a description, of one module. -/
def publishAndDescribe : List Operation :=
  [.publish { module := "core", version := "1.0.0" }, .describe "core" "shared"]

/-- A store with an entry for the module, which has no description. -/
def coreOnly : Store := { modules := [Module.new "core" 0], clock := 1 }

/-- The description comes between the read and the write of the publication. -/
def describeBetween : List Nat := [0, 0, 0, 1, 1, 1, 0, 0, 0]

theorem allSucceed_iff {os : List Operation} {t : Traffic} :
    AllSucceed os t ↔ ∀ i < os.length, (t.answer? i).any (fun a => a.toOption.isSome) = true := by
  refine forall₂_congr fun i _ => ?_
  rcases t.answer? i with _ | e | r <;> simp [Except.toOption]

/-- **Some run leaves a description that no order of its operations leaves.** -/
theorem exists_run_unordered : ¬ ∀ (reader : SchemaReader) (os : List Operation) (s : Store)
    (name : String) (turns : List Nat), (∀ o ∈ os, o.module = name) →
    AllSucceed os ((start reader os s).run turns) →
    ∃ order : List Operation, order.Perm os ∧
      (inOrder reader order s).description? name =
        ((start reader os s).run turns).store.description? name := by
  intro claim
  obtain ⟨order, perm, same⟩ := claim {} publishAndDescribe coreOnly "core" describeBetween
    (by decide) (allSucceed_iff.2 (by decide +kernel))
  have undone : ((start {} publishAndDescribe coreOnly).run describeBetween).store.description?
      "core" = none := by decide +kernel
  have shared : ∀ order ∈ publishAndDescribe.permutations',
      (inOrder {} order coreOnly).description? "core" = some "shared" := by decide +kernel
  rw [shared order (List.mem_permutations'.2 perm), undone] at same
  cases same

/-- Where the description comes before the read of the publication, it stays. -/
theorem run_descriptionLeft_shared :
    (∀ o ∈ publishAndDescribe, o.module = "core") ∧
      AllSucceed publishAndDescribe
        ((start {} publishAndDescribe coreOnly).run [0, 0, 1, 1, 1, 0, 0, 0, 0]) ∧
      DescriptionLeft {} publishAndDescribe coreOnly "core"
        ((start {} publishAndDescribe coreOnly).run [0, 0, 1, 1, 1, 0, 0, 0, 0]) := by
  have about : ∀ o ∈ publishAndDescribe, o.module = "core" := by decide
  have all : AllSucceed publishAndDescribe
      ((start {} publishAndDescribe coreOnly).run [0, 0, 1, 1, 1, 0, 0, 0, 0]) :=
    allSucceed_iff.2 (by decide +kernel)
  exact ⟨about, all, run_descriptionLeft about all⟩

end Traffic

end SchemaDepot
