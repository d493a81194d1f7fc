import Mathlib.Logic.Function.Basic
import SchemaDepot.Proofs.Registry.Stages

/-! # Publications side by side

Whatever operations share a store, and in whatever order their calls come, each version is published
once: the first to store it wins, and all others are told that it exists.

* `Traffic.Consistent`: each operation stands where what it has put into the store says, and no
  version was put there twice.
* `Traffic.Consistent.turn`, `Traffic.Consistent.run`: every call keeps this, and so does every run.
* `Traffic.PublishedOnce`: what publications come to; `Traffic.run_publishedOnce`. -/

namespace SchemaDepot

/-! ### Sealed versions -/

theorem Version.verify_sealed (v : Version) : v.sealed.verify = true := by
  have each : ∀ files : List TextFile,
      ((files.zip (files.map TextFile.checksum)).all fun x => x.2.verify x.1.content) = true := by
    intro files
    induction files with
    | nil => rfl
    | cons f fs ih => simpa [Checksum.verify, TextFile.checksum] using ih
  simp only [verify, sealed, List.length_map, beq_self_eq_true, Bool.true_and]
  exact each v.files

/-! ### Answers -/

namespace Operation

variable {reader : SchemaReader} {I : Module → Prop} {s : Store} {o : Operation}
  {p : Procedure (Except Error Receipt)} {own : Option Receipt}

/-- Who has put a version into the store published it. -/
theorem Stands.owner {v : Version} (h : o.Stands reader I s p (some (.version v))) :
    ∃ q, o = .publish q ∧ Owns reader s q v := by
  cases h with
  | entering h | noting h | writing h | rereading h | published h => exact ⟨_, rfl, h⟩

theorem Owns.id_eq {q : PublishRequest} {v : Version} (h : Owns reader s q v) : v.id = q.id := by
  obtain ⟨time, rfl⟩ := h.own
  rfl

/-- **What a publication can answer**: why it was refused, that the version exists, or the version
that it stored. -/
theorem Stands.answer {q : PublishRequest} {a : Except Error Receipt}
    (h : (publish q).Stands reader I s p own) (ha : p.result? = some a) :
    (∃ e, q.check reader = .error e ∧ a = .error e) ∨
      (q.check reader = .ok () ∧ (s.version? q.id).isSome ∧ a = .error (.alreadyExists q.id)) ∨
      ∃ v, own = some (.version v) ∧ Owns reader s q v ∧ a = .ok (.version v) := by
  cases h with
  | refused h =>
    cases ha
    exact Or.inl ⟨_, h, rfl⟩
  | beaten h taken =>
    cases ha
    exact Or.inr (Or.inl ⟨h, taken, rfl⟩)
  | published h =>
    cases ha
    exact Or.inr (Or.inr ⟨_, rfl, h, rfl⟩)
  | _ => cases ha

/-- Who answers with an error has put nothing into the store. -/
theorem Stands.own_eq_none {e : Error} (h : o.Stands reader I s p own)
    (ha : p.result? = some (.error e)) : own = none := by
  cases h with
  | refused | opening | creating | beaten | asking | unknown | revising | rewriting => rfl
  | entering | noting | writing | rereading | published | described => cases ha

theorem Change.own_eq {name : String} {own' : Option Receipt} {s' : Store}
    (h : Change I s name own own' s') (some : own ≠ none) : own' = own := by
  cases h with
  | quiet | noted => rfl
  | created | revised => exact absurd rfl some

/-- A call that puts nothing into the store changes neither versions nor modules. -/
theorem Change.same {name : String} {s' : Store} (h : Change I s name own none s') :
    s'.versions = s.versions ∧ s'.modules = s.modules := by
  cases h
  exact ⟨rfl, rfl⟩

end Operation

/-! ### What every run keeps -/

namespace Traffic

variable {reader : SchemaReader} {I : Module → Prop} {s₀ : Store} {os : List Operation}
  {t : Traffic} {own : Nat → Option Receipt}

/-- The entries that operations on a store read and write are among those of `I`. -/
structure Admits (I : Module → Prop) (s₀ : Store) (os : List Operation) : Prop where
  keeps : ∀ o ∈ os, o.Keeps I
  entry : ∀ o ∈ os, ∀ m, s₀.module? o.module = some m → I m
  opening : ∀ q, .publish q ∈ os → s₀.module? q.module = none →
    ∀ time, I (Module.new q.module time)

/-- **Each operation stands where what it has put into the store says**, and no version was put
there twice. -/
structure Consistent (reader : SchemaReader) (I : Module → Prop) (s₀ : Store)
    (os : List Operation) (t : Traffic) (own : Nat → Option Receipt) : Prop where
  grows : s₀.GrowsTo t.store
  length : t.procedures.length = os.length
  stands : ∀ (i : Nat) (o : Operation) (p : Procedure (Except Error Receipt)), os[i]? = some o →
    t.procedures[i]? = some p → o.Stands reader I t.store p (own i)
  entry : ∀ o ∈ os, ∀ m, t.store.module? o.module = some m → I m
  fresh : ∀ i v, own i = some (.version v) → s₀.version? v.id = none
  kept : ∀ i v, own i = some (.version v) → t.store.version? v.id = some v
  apart : ∀ i j v w, own i = some (.version v) → own j = some (.version w) → v.id = w.id → i = j
  stored : ∀ id v, t.store.version? id = some v → s₀.version? id = some v ∨
    ∃ (i : Nat) (q : PublishRequest), os[i]? = some (.publish q) ∧ q.id = id ∧
      own i = some (.version v)

theorem consistent_start (reader : SchemaReader) (admits : Admits I s₀ os) :
    Consistent reader I s₀ os (start reader os s₀) fun _ => none where
  grows := .refl s₀
  length := List.length_map _
  stands i o p ho hp := by
    obtain rfl : o.calls reader = p := by
      rw [start, List.getElem?_map, ho] at hp
      exact Option.some.inj hp
    exact Operation.stands_calls reader I s₀ o
  entry := admits.entry
  fresh _ _ h := nomatch h
  kept _ _ h := nomatch h
  apart _ _ _ _ h := nomatch h
  stored _ _ := Or.inl

theorem turn_of_procedure {i : Nat} {p : Procedure (Except Error Receipt)}
    (h : t.procedures[i]? = some p) :
    t.turn i = ⟨(p.step t.store).2, t.procedures.set i (p.step t.store).1⟩ := by
  rw [turn, h]

theorem turn_of_none {i : Nat} (h : t.procedures[i]? = none) : t.turn i = t := by
  rw [turn, h]

section Change
variable {name : String} {s s' : Store} {old new : Option Receipt}

/-- The entries stay among those of `I`. -/
theorem entry_of_change (change : Operation.Change I s name old new s')
    (opening : ∀ v, new = some (.version v) → s.module? name = none →
      ∀ time, I (Module.new name time)) {other : String} {m : Module}
    (entry : ∀ m, s.module? other = some m → I m) (h : s'.module? other = some m) :
    I m := by
  cases change with
  | quiet => exact entry m h
  | created hname hc =>
    subst hname
    rw [Store.module?_of_createVersion hc] at h
    split at h
    · next absent =>
      cases h
      exact opening _ rfl absent.1 _
    · exact entry m h
  | noted hm | revised hm =>
    rw [Store.module?_putModule] at h
    split at h
    · cases h
      exact hm
    · exact entry m h

/-- A version that is there now was there before or has just been put there. -/
theorem stored_of_change (change : Operation.Change I s name old new s') {id : VersionId}
    {v : Version} (h : s'.version? id = some v) :
    s.version? id = some v ∨ new = some (.version v) ∧ v.id = id := by
  cases change with
  | quiet | noted | revised => exact Or.inl h
  | created _ hc =>
    rw [Store.version?_of_createVersion hc] at h
    split at h
    · next hid =>
      cases h
      exact Or.inr ⟨rfl, hid⟩
    · exact Or.inl h

/-- A version that was put there just now was not there before. -/
theorem absent_of_change (change : Operation.Change I s name old new s') (fresh : old ≠ new)
    {v : Version} (h : new = some (.version v)) : s.version? v.id = none := by
  cases change with
  | quiet | noted => exact absurd rfl fresh
  | created _ hc =>
    cases h
    exact (Store.createVersion_eq_ok hc).1
  | revised => cases h

end Change

section Turn
variable {i : Nat} {o : Operation} {p : Procedure (Except Error Receipt)} {new : Option Receipt}
  {s' : Store} (h : Consistent reader I s₀ os t own) (ho : os[i]? = some o)
  (change : Operation.Change I t.store o.module (own i) new s')
  (stands : o.Stands reader I s' p new)

include change in
/-- What was put into the store stays with who put it there. -/
theorem stays_of_change {j : Nat} (hj : own j ≠ none) : Function.update own i new j = own j := by
  rcases eq_or_ne j i with rfl | ne
  · rw [Function.update_self]
    exact change.own_eq hj
  · exact Function.update_of_ne ne new own

include h change

theorem Consistent.stands_turn (ho : os[i]? = some o) (stands : o.Stands reader I s' p new)
    {j : Nat} {o' : Operation} {p' : Procedure (Except Error Receipt)} (ho' : os[j]? = some o')
    (hp' : (t.procedures.set i p)[j]? = some p') :
    o'.Stands reader I s' p' (Function.update own i new j) := by
  rcases eq_or_ne j i with rfl | ne
  · have hj : j < t.procedures.length := by
      simpa using (List.getElem?_eq_some_iff.1 hp').1
    rw [List.getElem?_set_self hj] at hp'
    cases ho.symm.trans ho'
    cases hp'
    rwa [Function.update_self]
  · rw [List.getElem?_set_ne ne.symm] at hp'
    rw [Function.update_of_ne ne]
    exact (h.stands j o' p' ho' hp').mono change.growsTo

theorem Consistent.fresh_turn {j : Nat} {v : Version}
    (hv : Function.update own i new j = some (.version v)) : s₀.version? v.id = none := by
  rcases eq_or_ne j i with rfl | ne
  · rw [Function.update_self] at hv
    by_cases same : own j = new
    · exact h.fresh j v (same.trans hv)
    · exact h.grows.absent_version (absent_of_change change same hv)
  · exact h.fresh j v (Function.update_of_ne ne new own ▸ hv)

include stands in
theorem Consistent.kept_turn {j : Nat} {v : Version}
    (hv : Function.update own i new j = some (.version v)) : s'.version? v.id = some v := by
  rcases eq_or_ne j i with rfl | ne
  · rw [Function.update_self] at hv
    obtain ⟨q, -, owns⟩ := (hv ▸ stands).owner
    rw [owns.id_eq]
    exact owns.stored
  · exact change.growsTo.version _ _ (h.kept j v (Function.update_of_ne ne new own ▸ hv))

/-- A version that the operation has put there just now is not that of another operation. -/
theorem Consistent.id_ne_of_change {j : Nat} (ne : j ≠ i) {v w : Version}
    (hv : new = some (.version v)) (hw : own j = some (.version w)) : v.id ≠ w.id := by
  intro hid
  by_cases same : own i = new
  · exact ne (h.apart i j v w (same.trans hv) hw hid).symm
  · have absent := absent_of_change change same hv
    rw [hid, h.kept j w hw] at absent
    cases absent

theorem Consistent.apart_turn {j k : Nat} {v w : Version}
    (hv : Function.update own i new j = some (.version v))
    (hw : Function.update own i new k = some (.version w)) (hid : v.id = w.id) : j = k := by
  rcases eq_or_ne j i with hj | hj <;> rcases eq_or_ne k i with hk | hk
  · exact hj.trans hk.symm
  · rw [hj, Function.update_self] at hv
    rw [Function.update_of_ne hk] at hw
    exact absurd hid (h.id_ne_of_change change hk hv hw)
  · rw [Function.update_of_ne hj] at hv
    rw [hk, Function.update_self] at hw
    exact absurd hid.symm (h.id_ne_of_change change hj hw hv)
  · rw [Function.update_of_ne hj] at hv
    rw [Function.update_of_ne hk] at hw
    exact h.apart j k v w hv hw hid

include ho stands in
theorem Consistent.stored_turn {id : VersionId} {v : Version} (hv : s'.version? id = some v) :
    s₀.version? id = some v ∨ ∃ (j : Nat) (q : PublishRequest), os[j]? = some (.publish q) ∧
      q.id = id ∧ Function.update own i new j = some (.version v) := by
  rcases stored_of_change change hv with hv | ⟨rfl, rfl⟩
  · refine (h.stored id v hv).imp_right ?_
    rintro ⟨j, q, hq, hid, hown⟩
    exact ⟨j, q, hq, hid, (stays_of_change change (hown ▸ nofun)).trans hown⟩
  · obtain ⟨q, rfl, owns⟩ := stands.owner
    exact Or.inr ⟨i, q, ho, owns.id_eq.symm, Function.update_self i _ own⟩

end Turn

/-- **Every call keeps this**, and what was put into the store stays with who put it there. -/
theorem Consistent.turn (h : Consistent reader I s₀ os t own) (admits : Admits I s₀ os) (i : Nat) :
    ∃ own', Consistent reader I s₀ os (t.turn i) own' ∧ t.store.GrowsTo (t.turn i).store ∧
      (∀ j, own j ≠ none → own' j = own j) ∧
      (own' i = none → (t.turn i).store.versions = t.store.versions ∧
        (t.turn i).store.modules = t.store.modules) := by
  cases hp : t.procedures[i]? with
  | none =>
    rw [turn_of_none hp]
    exact ⟨own, h, .refl _, fun _ _ => rfl, fun _ => ⟨rfl, rfl⟩⟩
  | some p =>
    obtain ⟨hi, -⟩ := List.getElem?_eq_some_iff.1 hp
    obtain ⟨o, ho⟩ : ∃ o, os[i]? = some o := ⟨_, List.getElem?_eq_getElem (h.length ▸ hi)⟩
    have mem := List.mem_of_getElem? ho
    obtain ⟨new, change, stands⟩ := (h.stands i o p ho hp).step (admits.keeps o mem) (h.entry o mem)
    rw [turn_of_procedure hp]
    refine ⟨Function.update own i new, ?_, change.growsTo, fun j => stays_of_change change, ?_⟩
    · exact {
        grows := h.grows.trans change.growsTo
        length := by rw [List.length_set, h.length]
        stands := fun j o' p' => h.stands_turn change ho stands
        entry := fun o' mem' m => by
          refine entry_of_change change (fun v hv absent => ?_) (h.entry o' mem')
          obtain ⟨q, rfl, -⟩ := (hv ▸ stands).owner
          exact admits.opening q mem (h.grows.absent_module absent)
        fresh := fun j v => h.fresh_turn change
        kept := fun j v => h.kept_turn change stands
        apart := fun j k v w => h.apart_turn change
        stored := fun id v => h.stored_turn ho change stands }
    · intro hown
      rw [Function.update_self] at hown
      subst hown
      exact change.same

theorem run_append (t : Traffic) (as bs : List Nat) : t.run (as ++ bs) = (t.run as).run bs :=
  List.foldl_append

/-- **Every run keeps this.** -/
theorem Consistent.run (h : Consistent reader I s₀ os t own) (admits : Admits I s₀ os)
    (turns : List Nat) :
    ∃ own', Consistent reader I s₀ os (t.run turns) own' ∧ t.store.GrowsTo (t.run turns).store ∧
      ∀ j, own j ≠ none → own' j = own j := by
  induction turns generalizing t own with
  | nil => exact ⟨own, h, .refl _, fun _ _ => rfl⟩
  | cons i turns ih =>
    obtain ⟨own₁, h₁, grows₁, stays₁, -⟩ := h.turn admits i
    obtain ⟨own₂, h₂, grows₂, stays₂⟩ := ih h₁
    refine ⟨own₂, h₂, grows₁.trans grows₂, fun j hj => ?_⟩
    rw [stays₂ j (stays₁ j hj ▸ hj), stays₁ j hj]

/-! ### Answers come and stay -/

theorem getElem?_turn_ne {i j : Nat} (h : i ≠ j) :
    (t.turn i).procedures[j]? = t.procedures[j]? := by
  cases hp : t.procedures[i]? with
  | none => rw [turn_of_none hp]
  | some p =>
    rw [turn_of_procedure hp]
    exact List.getElem?_set_ne h

theorem getElem?_turn_self {i : Nat} {p : Procedure (Except Error Receipt)}
    (h : t.procedures[i]? = some p) :
    (t.turn i).procedures[i]? = some (p.step t.store).1 := by
  rw [turn_of_procedure h]
  exact List.getElem?_set_self (List.getElem?_eq_some_iff.1 h).1

theorem answer?_eq_some {i : Nat} {a : Except Error Receipt} :
    t.answer? i = some a ↔ t.procedures[i]? = some (.done a) := by
  refine Option.bind_eq_some_iff.trans ⟨?_, fun h => ⟨_, h, rfl⟩⟩
  rintro ⟨p, hp, ha⟩
  cases p <;> cases ha
  exact hp

/-- An answer stays. -/
theorem answer?_turn {i : Nat} {a : Except Error Receipt} (h : t.answer? i = some a) (j : Nat) :
    (t.turn j).answer? i = some a := by
  rw [answer?_eq_some] at h ⊢
  by_cases hj : j = i
  · subst hj
    exact getElem?_turn_self h
  · rw [getElem?_turn_ne hj, h]

theorem answer?_run {i : Nat} {a : Except Error Receipt} (h : t.answer? i = some a)
    (turns : List Nat) : (t.run turns).answer? i = some a := by
  induction turns generalizing t with
  | nil => exact h
  | cons j turns ih => exact ih (answer?_turn h j)

/-- An answer comes after as many turns as its operation needs at most. -/
theorem isSome_answer? {i n : Nat} {p : Procedure (Except Error Receipt)} {turns : List Nat}
    (hp : t.procedures[i]? = some p) (h : p.EndsWithin n) (enough : n ≤ turns.count i) :
    ((t.run turns).answer? i).isSome := by
  induction turns generalizing t n p with
  | nil =>
    obtain rfl := Nat.le_zero.1 enough
    show (t.procedures[i]?.bind Procedure.result?).isSome
    rw [hp]
    exact h.isSome_result?
  | cons j turns ih =>
    by_cases hj : j = i
    · subst hj
      rw [List.count_cons_self] at enough
      exact ih (getElem?_turn_self hp) (h.step t.store) (Nat.sub_le_of_le_add enough)
    · rw [List.count_cons_of_ne hj] at enough
      exact ih ((getElem?_turn_ne hj).trans hp) h enough

/-! ### What publications come to -/

/-- The operation at a position publishes the version of a name, and its request is fine. -/
def Contends (reader : SchemaReader) (os : List Operation) (id : VersionId) (i : Nat) : Prop :=
  ∃ q, os[i]? = some (.publish q) ∧ q.id = id ∧ q.check reader = .ok ()

/-- **What publications come to** that share a store with any other operations, when some turns were
taken. -/
structure PublishedOnce (reader : SchemaReader) (os : List Operation) (s : Store)
    (turns : List Nat) (t : Traffic) : Prop where
  /-- Everyone gets an answer, after seven turns at the latest. -/
  returns : ∀ i < os.length, 7 ≤ turns.count i → (t.answer? i).isSome
  /-- A request that is not fine is refused for what is wrong with it. -/
  refused : ∀ i q e a, os[i]? = some (.publish q) → q.check reader = .error e →
    t.answer? i = some a → a = .error e
  /-- A version that was there from the start is published by no one. -/
  taken : ∀ id i a, (s.version? id).isSome → Contends reader os id i → t.answer? i = some a →
    a = .error (.alreadyExists id)
  /-- A version that was not there is published by one of those who want to, and all others are told
  that it exists. -/
  winner : ∀ id, s.version? id = none → (∃ i, Contends reader os id i) →
    (∀ i, Contends reader os id i → (t.answer? i).isSome) →
    ∃ i v, Contends reader os id i ∧ t.answer? i = some (.ok (.version v)) ∧
      ∀ j, j ≠ i → Contends reader os id j → t.answer? j = some (.error (.alreadyExists id))
  /-- No version is published twice. -/
  single : ∀ i j q q' r r', os[i]? = some (.publish q) → os[j]? = some (.publish q') →
    q.id = q'.id → t.answer? i = some (.ok r) → t.answer? j = some (.ok r') → i = j
  /-- Who wins gets the version as requested and sealed, it is in the store, and so is its
  module. -/
  published : ∀ i q r, os[i]? = some (.publish q) → t.answer? i = some (.ok r) →
    ∃ v, r = .version v ∧ v.id = q.id ∧ v.files = q.files ∧ v.dependencies = q.dependencies ∧
      v.source = q.source ∧ v.verify = true ∧ t.store.version? q.id = some v ∧
      (t.store.module? q.module).isSome
  /-- Versions stay as they are, modules and answers stay. -/
  lasting : ∀ more, t.store.GrowsTo (t.run more).store ∧
    ∀ i a, t.answer? i = some a → (t.run more).answer? i = some a
  /-- Who gets an error has changed neither versions nor modules with any call. -/
  traceless : ∀ before i after e, turns = before ++ i :: after → t.answer? i = some (.error e) →
    let earlier := (start reader os s).run before
    (earlier.turn i).store.versions = earlier.store.versions ∧
      (earlier.turn i).store.modules = earlier.store.modules

theorem admits_all (s : Store) (os : List Operation) : Admits (fun _ => True) s os where
  keeps o _ := by cases o <;> exact fun _ _ => id
  entry _ _ _ _ := trivial
  opening _ _ _ _ := trivial

section Answers
variable {i j : Nat} {q q' : PublishRequest} {a : Except Error Receipt} {r r' : Receipt}

theorem Consistent.answer (h : Consistent reader I s₀ os t own) (hq : os[i]? = some (.publish q))
    (ha : t.answer? i = some a) :
    (∃ e, q.check reader = .error e ∧ a = .error e) ∨
      (q.check reader = .ok () ∧ (t.store.version? q.id).isSome ∧
        a = .error (.alreadyExists q.id)) ∨
      ∃ v, own i = some (.version v) ∧ Operation.Owns reader t.store q v ∧ a = .ok (.version v) :=
  (h.stands i _ _ hq (answer?_eq_some.1 ha)).answer rfl

theorem Consistent.own_of_ok (h : Consistent reader I s₀ os t own)
    (hq : os[i]? = some (.publish q)) (ha : t.answer? i = some (.ok r)) :
    ∃ v, r = .version v ∧ own i = some (.version v) ∧ Operation.Owns reader t.store q v := by
  rcases h.answer hq ha with ⟨e, -, ⟨⟩⟩ | ⟨-, -, ⟨⟩⟩ | ⟨v, hown, owns, ⟨⟩⟩
  exact ⟨v, rfl, hown, owns⟩

theorem Consistent.single (h : Consistent reader I s₀ os t own) (hq : os[i]? = some (.publish q))
    (hq' : os[j]? = some (.publish q')) (hid : q.id = q'.id) (ha : t.answer? i = some (.ok r))
    (ha' : t.answer? j = some (.ok r')) : i = j := by
  obtain ⟨v, -, hown, owns⟩ := h.own_of_ok hq ha
  obtain ⟨w, -, hown', owns'⟩ := h.own_of_ok hq' ha'
  exact h.apart i j v w hown hown' (by rw [owns.id_eq, owns'.id_eq, hid])

theorem Consistent.owner (h : Consistent reader I s₀ os t own) {v : Version}
    (hq : os[i]? = some (.publish q)) (hown : own i = some (.version v)) :
    Operation.Owns reader t.store q v := by
  have hi : i < t.procedures.length := by
    rw [h.length]
    exact (List.getElem?_eq_some_iff.1 hq).1
  obtain ⟨q', ⟨⟩, owns⟩ := (hown ▸ h.stands i _ _ hq (List.getElem?_eq_getElem hi)).owner
  exact owns

/-- Those who want to publish a version that was not there have a winner among them, when all of
them have got an answer. -/
theorem Consistent.winner (h : Consistent reader I s₀ os t own) {id : VersionId}
    (absent : s₀.version? id = none) (hi : Contends reader os id i)
    (returned : ∀ j, Contends reader os id j → (t.answer? j).isSome) :
    ∃ k v, Contends reader os id k ∧ t.answer? k = some (.ok (.version v)) := by
  obtain ⟨q, hq, rfl, fine⟩ := hi
  obtain ⟨a, ha⟩ := Option.isSome_iff_exists.1 (returned i ⟨q, hq, rfl, fine⟩)
  rcases h.answer hq ha with ⟨e, wrong, -⟩ | ⟨-, taken, -⟩ | ⟨v, -, -, rfl⟩
  · rw [fine] at wrong
    cases wrong
  · obtain ⟨v, hv⟩ := Option.isSome_iff_exists.1 taken
    rcases h.stored _ v hv with old | ⟨k, q', hq', hid, hown⟩
    · rw [absent] at old
      cases old
    · have owns := h.owner hq' hown
      have hk : Contends reader os q.id k := ⟨q', hq', hid, owns.fine⟩
      obtain ⟨b, hb⟩ := Option.isSome_iff_exists.1 (returned k hk)
      rcases h.answer hq' hb with ⟨e, wrong, -⟩ | ⟨-, -, rfl⟩ | ⟨w, -, -, rfl⟩
      · rw [owns.fine] at wrong
        cases wrong
      · have := (h.stands k _ _ hq' (answer?_eq_some.1 hb)).own_eq_none rfl
        rw [hown] at this
        cases this
      · exact ⟨k, w, hk, hb⟩
  · exact ⟨i, v, ⟨q, hq, rfl, fine⟩, ha⟩

/-- A request that is not fine is refused for what is wrong with it. -/
theorem Consistent.refused (h : Consistent reader I s₀ os t own) {e : Error}
    (hq : os[i]? = some (.publish q)) (wrong : q.check reader = .error e)
    (ha : t.answer? i = some a) : a = .error e := by
  rcases h.answer hq ha with ⟨e', wrong', rfl⟩ | ⟨fine, -⟩ | ⟨v, -, owns, -⟩
  · cases wrong.symm.trans wrong'
    rfl
  · cases wrong.symm.trans fine
  · cases wrong.symm.trans owns.fine

/-- A version that was there from the start is published by no one. -/
theorem Consistent.taken (h : Consistent reader I s₀ os t own) {id : VersionId}
    (there : (s₀.version? id).isSome) (hi : Contends reader os id i) (ha : t.answer? i = some a) :
    a = .error (.alreadyExists id) := by
  obtain ⟨q, hq, rfl, fine⟩ := hi
  rcases h.answer hq ha with ⟨e, wrong, -⟩ | ⟨-, -, rfl⟩ | ⟨v, hown, owns, -⟩
  · cases fine.symm.trans wrong
  · rfl
  · have absent := h.fresh i v hown
    rw [owns.id_eq] at absent
    rw [absent] at there
    cases there

/-- All others are told that the version exists. -/
theorem Consistent.lost (h : Consistent reader I s₀ os t own) {id : VersionId}
    (hi : Contends reader os id i) (won : t.answer? i = some (.ok r)) (hj : Contends reader os id j)
    (ne : j ≠ i) (ha : t.answer? j = some a) : a = .error (.alreadyExists id) := by
  obtain ⟨q, hq, rfl, fine⟩ := hj
  obtain ⟨q', hq', hid, -⟩ := hi
  rcases h.answer hq ha with ⟨e, wrong, -⟩ | ⟨-, -, rfl⟩ | ⟨w, -, -, rfl⟩
  · cases fine.symm.trans wrong
  · rfl
  · exact absurd (h.single hq hq' hid.symm ha won) ne

end Answers

/-- Who gets an error has changed neither versions nor modules with any call. -/
theorem same_of_error {before after : List Nat} {i : Nat} {e : Error}
    (failed : ((start reader os s₀).run (before ++ i :: after)).answer? i = some (.error e)) :
    let earlier := (start reader os s₀).run before
    (earlier.turn i).store.versions = earlier.store.versions ∧
      (earlier.turn i).store.modules = earlier.store.modules := by
  have admits := admits_all s₀ os
  rw [run_append] at failed
  obtain ⟨own₁, h₁, -⟩ := (consistent_start reader admits).run admits before
  obtain ⟨own₂, h₂, -, -, same⟩ := h₁.turn admits i
  obtain ⟨own₃, h₃, -, stays⟩ := h₂.run admits after
  have hp := answer?_eq_some.1 failed
  have hi : i < os.length := h₃.length ▸ (List.getElem?_eq_some_iff.1 hp).1
  have nothing := (h₃.stands i _ _ (List.getElem?_eq_getElem hi) hp).own_eq_none rfl
  refine same ?_
  by_contra something
  exact something ((stays i something).symm.trans nothing)

/-- **Each version is published once**, whatever operations share a store, and in whatever order
their calls come. -/
theorem run_publishedOnce (reader : SchemaReader) (os : List Operation) (s : Store)
    (turns : List Nat) : PublishedOnce reader os s turns ((start reader os s).run turns) := by
  have admits := admits_all s os
  obtain ⟨own, h, -⟩ := (consistent_start reader admits).run admits turns
  constructor
  case returns =>
    intro i hi enough
    have hp : (start reader os s).procedures[i]? = some (os[i].calls reader) := by
      rw [start, List.getElem?_map, List.getElem?_eq_getElem hi]
      rfl
    exact isSome_answer? hp (Operation.endsWithin_calls reader os[i]) enough
  case refused => exact fun i q e a hq wrong ha => h.refused hq wrong ha
  case taken => exact fun id i a there hi ha => h.taken there hi ha
  case winner =>
    rintro id absent ⟨i, hi⟩ returned
    obtain ⟨k, v, hk, won⟩ := h.winner absent hi returned
    refine ⟨k, v, hk, won, fun j ne hj => ?_⟩
    obtain ⟨a, ha⟩ := Option.isSome_iff_exists.1 (returned j hj)
    rw [ha, h.lost hk won hj ne ha]
  case single => exact fun i j q q' r r' hq hq' hid ha ha' => h.single hq hq' hid ha ha'
  case published =>
    intro i q r hq ha
    obtain ⟨v, rfl, -, owns⟩ := h.own_of_ok hq ha
    obtain ⟨time, rfl⟩ := owns.own
    exact ⟨_, rfl, rfl, rfl, rfl, rfl, Version.verify_sealed _, owns.stored, owns.entered⟩
  case lasting =>
    intro more
    obtain ⟨own', -, grows, -⟩ := h.run admits more
    exact ⟨grows, fun i a ha => answer?_run ha more⟩
  case traceless =>
    rintro before i after e rfl failed
    exact same_of_error failed

/-- Of two who publish one version at the same time, the one whose version is stored first wins. -/
example :
    let q : PublishRequest := { module := "core", version := "1.0.0" }
    let t := (start {} [.publish q, .publish q] {}).run [0, 1, 1, 0, 1, 1, 1, 1, 1]
    t.answer? 0 = some (.error (.alreadyExists q.id)) ∧
      t.answer? 1 = some (.ok (.version (q.toVersion 1))) := by
  decide +kernel

end Traffic

end SchemaDepot
