import SchemaDepot.Proofs.Registry.Growth
import SchemaDepot.Registry.Traffic

/-! # How far an operation has come

What is left to do of an operation, together with what it has put into the store so far, says all
that its next calls rely on. Calls of others keep this, since a store only grows.

* `Procedure.EndsWithin`: so many calls are enough, whatever they answer.
* `Operation.Stands`: an operation has come so far.
* `Operation.Change`: the ways in which a call changes the store, and what its operation has put
  there then.
* `Operation.Stands.step`: the next call is one of these; `Operation.Stands.mono`: growth of the
  store does no harm. -/

namespace SchemaDepot

/-! ### Procedures -/

namespace Procedure

variable {α β : Type} {n : Nat} {p : Procedure α}

/-- So many calls are enough, whatever they answer. -/
inductive EndsWithin : Nat → Procedure α → Prop where
  | done {n : Nat} {result : α} : EndsWithin n (.done result)
  | readClock {n : Nat} {next : Nat → Procedure α} :
    (∀ time, EndsWithin n (next time)) → EndsWithin (n + 1) (.readClock next)
  | getModule {n : Nat} {name : String} {next : Except Error Module → Procedure α} :
    (∀ answer, EndsWithin n (next answer)) → EndsWithin (n + 1) (.getModule name next)
  | putModule {n : Nat} {m : Module} {next : Procedure α} :
    EndsWithin n next → EndsWithin (n + 1) (.putModule m next)
  | getVersion {n : Nat} {id : VersionId} {next : Except Error Version → Procedure α} :
    (∀ answer, EndsWithin n (next answer)) → EndsWithin (n + 1) (.getVersion id next)
  | createVersion {n : Nat} {v : Version} {next : Except Error Unit → Procedure α} :
    (∀ answer, EndsWithin n (next answer)) → EndsWithin (n + 1) (.createVersion v next)

theorem EndsWithin.isSome_result? (h : EndsWithin 0 p) : p.result?.isSome := by
  cases h
  rfl

theorem EndsWithin.step (h : EndsWithin n p) (s : Store) : EndsWithin (n - 1) (p.step s).1 := by
  cases h with
  | done => exact .done
  | readClock h => exact h _
  | getModule h => exact h _
  | putModule h => exact h
  | getVersion h => exact h _
  | createVersion h =>
    simp only [Procedure.step]
    split <;> exact h _

theorem EndsWithin.map (f : α → β) (h : EndsWithin n p) : EndsWithin n (p.map f) := by
  induction h with
  | done => exact .done
  | readClock _ ih => exact .readClock ih
  | getModule _ ih => exact .getModule ih
  | putModule _ ih => exact .putModule ih
  | getVersion _ ih => exact .getVersion ih
  | createVersion _ ih => exact .createVersion ih

end Procedure

/-! ### Stages of a publication -/

namespace PublishRequest

variable (q : PublishRequest)

/-- The name of the version to publish. -/
def id : VersionId := ⟨q.module, q.version⟩

/-- The call that reads the version back. -/
def reread : Procedure (Except Error Version) := .getVersion q.id fun answer => .done answer

/-- The calls that note the request in the entry of its module. -/
def enter : Procedure (Except Error Version) :=
  .getModule q.module fun answer =>
  match answer with
  | .ok m => q.note m
  | .error e =>
    if e.isNotFound then .readClock fun time => q.note (Module.new q.module time)
    else .done (.error e)

/-- The calls that store the version and note it. -/
def create (time : Nat) : Procedure (Except Error Version) :=
  .createVersion (q.toVersion time) fun answer =>
  match answer with
  | .error e => .done (.error e)
  | .ok () => q.enter

theorem store_eq : q.store = .readClock q.create := rfl

theorem toVersion_id (time : Nat) : (q.toVersion time).id = q.id := rfl

theorem endsWithin_note (m : Module) : (q.note m).EndsWithin 3 :=
  .readClock fun _ => .putModule (.getVersion fun _ => .done)

theorem endsWithin_enter : q.enter.EndsWithin 5 := by
  refine .getModule fun answer => ?_
  cases answer with
  | ok m => exact .readClock fun _ => .putModule (.getVersion fun _ => .done)
  | error e =>
    dsimp only
    split
    · exact .readClock fun _ => q.endsWithin_note _
    · exact .done

theorem endsWithin_publish (reader : SchemaReader) : (q.publish reader).EndsWithin 7 := by
  unfold publish
  split
  · rw [store_eq]
    refine .readClock fun _ => .createVersion fun answer => ?_
    cases answer with
    | ok _ => exact q.endsWithin_enter
    | error _ => exact .done
  · exact .done

end PublishRequest

/-- The calls that give a module that was read another description. -/
def reviseModule (description : String) (m : Module) : Procedure (Except Error Module) :=
  .readClock fun time =>
  let m := Module.touch time { m with description := some description }
  .putModule m <| .done (.ok m)

theorem endsWithin_describeModule (name description : String) (n : Nat) :
    (describeModule name description).EndsWithin (n + 3) := by
  refine .getModule fun answer => ?_
  cases answer with
  | ok m => exact .readClock fun _ => .putModule .done
  | error _ => exact .done

/-! ### How far an operation has come -/

namespace Operation

theorem endsWithin_calls (reader : SchemaReader) (o : Operation) :
    (o.calls reader).EndsWithin 7 := by
  cases o with
  | publish q => exact (q.endsWithin_publish reader).map _
  | describe name description => exact (endsWithin_describeModule name description 4).map _

/-- The calls of a publication, which give a receipt for the version. -/
def giveVersion (p : Procedure (Except Error Version)) : Procedure (Except Error Receipt) :=
  p.map (Except.map .version)

/-- The calls of a description, which give a receipt for the module. -/
def giveModule (p : Procedure (Except Error Module)) : Procedure (Except Error Receipt) :=
  p.map (Except.map .module)

/-- The version is the one that a request stored, under its module. -/
structure Owns (reader : SchemaReader) (s : Store) (q : PublishRequest) (v : Version) : Prop where
  fine : q.check reader = .ok ()
  own : ∃ time, v = q.toVersion time
  stored : s.version? q.id = some v
  entered : (s.module? q.module).isSome

/-- **An operation has come so far**, and has put `own` into the store. The entries of modules that
it has read or is about to write are among those of `I`. -/
inductive Stands (reader : SchemaReader) (I : Module → Prop) (s : Store) :
    Operation → Procedure (Except Error Receipt) → Option Receipt → Prop where
  | refused {q : PublishRequest} {e : Error} : q.check reader = .error e →
    Stands reader I s (.publish q) (giveVersion (.done (.error e))) none
  | opening {q : PublishRequest} : q.check reader = .ok () →
    Stands reader I s (.publish q) (giveVersion q.store) none
  | creating {q : PublishRequest} {time : Nat} : q.check reader = .ok () →
    Stands reader I s (.publish q) (giveVersion (q.create time)) none
  | beaten {q : PublishRequest} : q.check reader = .ok () → (s.version? q.id).isSome →
    Stands reader I s (.publish q) (giveVersion (.done (.error (.alreadyExists q.id)))) none
  | entering {q : PublishRequest} {v : Version} : Owns reader s q v →
    Stands reader I s (.publish q) (giveVersion q.enter) (some (.version v))
  | noting {q : PublishRequest} {v : Version} {m : Module} : Owns reader s q v → I m →
    Stands reader I s (.publish q) (giveVersion (q.note m)) (some (.version v))
  | writing {q : PublishRequest} {v : Version} {m : Module} : Owns reader s q v → I m →
    Stands reader I s (.publish q) (giveVersion (.putModule m q.reread)) (some (.version v))
  | rereading {q : PublishRequest} {v : Version} : Owns reader s q v →
    Stands reader I s (.publish q) (giveVersion q.reread) (some (.version v))
  | published {q : PublishRequest} {v : Version} : Owns reader s q v →
    Stands reader I s (.publish q) (giveVersion (.done (.ok v))) (some (.version v))
  | asking {name description : String} :
    Stands reader I s (.describe name description)
      (giveModule (describeModule name description)) none
  | unknown {name description : String} :
    Stands reader I s (.describe name description)
      (giveModule (.done (.error (.moduleNotFound name)))) none
  | revising {name description : String} {m : Module} : I m → (s.module? name).isSome →
    Stands reader I s (.describe name description) (giveModule (reviseModule description m)) none
  | rewriting {name description : String} {m : Module} : I m → (s.module? name).isSome →
    Stands reader I s (.describe name description)
      (giveModule (.putModule m (.done (.ok m)))) none
  | described {name description : String} {m : Module} : (s.module? name).isSome →
    Stands reader I s (.describe name description) (giveModule (.done (.ok m)))
      (some (.module m))

/-- **The ways in which a call changes the store**, and what its operation, which is about the
module of a name, has put there. -/
inductive Change (I : Module → Prop) (s : Store) (name : String) :
    Option Receipt → Option Receipt → Store → Prop where
  | quiet {own : Option Receipt} {time : Nat} :
    Change I s name own own { s with clock := time }
  | created {v : Version} {s' : Store} : v.module = name → s.createVersion v = .ok s' →
    Change I s name none (some (.version v)) s'
  | noted {v : Version} {m : Module} : I m →
    Change I s name (some (.version v)) (some (.version v)) (s.putModule m)
  | revised {m : Module} : I m → Change I s name none (some (.module m)) (s.putModule m)

variable {reader : SchemaReader} {I : Module → Prop} {s s' : Store} {o : Operation}
  {p : Procedure (Except Error Receipt)} {own own' : Option Receipt}

theorem Change.growsTo {name : String} (h : Change I s name own own' s') : s.GrowsTo s' := by
  cases h with
  | quiet => exact ⟨fun _ _ => id, fun _ => id⟩
  | created _ h => exact Store.growsTo_of_createVersion h
  | noted => exact Store.growsTo_putModule _ s
  | revised => exact Store.growsTo_putModule _ s

theorem Owns.mono {q : PublishRequest} {v : Version} (h : Owns reader s q v)
    (hs : s.GrowsTo s') : Owns reader s' q v :=
  ⟨h.fine, h.own, hs.version _ _ h.stored, hs.module _ h.entered⟩

/-- **Growth of the store does no harm.** -/
theorem Stands.mono (h : o.Stands reader I s p own) (hs : s.GrowsTo s') :
    o.Stands reader I s' p own := by
  cases h with
  | refused h => exact .refused h
  | opening h => exact .opening h
  | creating h => exact .creating h
  | beaten h taken => exact .beaten h (hs.isSome_version taken)
  | entering h => exact .entering (h.mono hs)
  | noting h hm => exact .noting (h.mono hs) hm
  | writing h hm => exact .writing (h.mono hs) hm
  | rereading h => exact .rereading (h.mono hs)
  | published h => exact .published (h.mono hs)
  | asking => exact .asking
  | unknown => exact .unknown
  | revising hm h => exact .revising hm (hs.module _ h)
  | rewriting hm h => exact .rewriting hm (hs.module _ h)
  | described h => exact .described (hs.module _ h)

/-- The operation writes only entries of `I` if it reads such. -/
def Keeps (I : Module → Prop) : Operation → Prop
  | publish q => ∀ m time, I m → I (q.updateModule time m)
  | describe _ description =>
    ∀ m time, I m → I (Module.touch time { m with description := some description })

theorem stands_calls (reader : SchemaReader) (I : Module → Prop) (s : Store) (o : Operation) :
    o.Stands reader I s (o.calls reader) none := by
  cases o with
  | publish q =>
    show Stands reader I s (.publish q) (giveVersion (q.publish reader)) none
    unfold PublishRequest.publish
    split
    · exact .opening ‹_›
    · exact .refused ‹_›
  | describe name description => exact .asking

/-- **The next call changes the store in one of these ways.** -/
theorem Stands.step (h : o.Stands reader I s p own) (keeps : o.Keeps I)
    (entry : ∀ m, s.module? o.module = some m → I m) :
    ∃ own', Change I s o.module own own' (p.step s).2 ∧
      o.Stands reader I (p.step s).2 (p.step s).1 own' := by
  cases h with
  | refused h => exact ⟨_, .quiet, .refused h⟩
  | opening h => exact ⟨_, .quiet, .creating h⟩
  | @creating q time h =>
    cases hc : s.createVersion (q.toVersion time) with
    | ok s' =>
      have next : (giveVersion (q.create time)).step s = (giveVersion q.enter, s') := by
        simp only [giveVersion, PublishRequest.create, Procedure.map, Procedure.step, hc]
      rw [next]
      have stored := Store.version?_of_createVersion hc q.id
      rw [if_pos (q.toVersion_id time)] at stored
      exact ⟨_, .created rfl hc,
        .entering ⟨h, ⟨time, rfl⟩, stored, Store.isSome_module?_of_createVersion hc⟩⟩
    | error e =>
      have next : (giveVersion (q.create time)).step s = (giveVersion (.done (.error e)), s) := by
        simp only [giveVersion, PublishRequest.create, Procedure.map, Procedure.step, hc]
      rw [next]
      obtain ⟨taken, rfl⟩ := Store.createVersion_eq_error hc
      exact ⟨_, .quiet, .beaten h taken⟩
  | beaten h taken => exact ⟨_, .quiet, .beaten h taken⟩
  | @entering q v h =>
    obtain ⟨m, hm, read⟩ := Store.getModule_of_isSome h.entered
    have next : (giveVersion q.enter).step s = (giveVersion (q.note m), s) := by
      simp only [giveVersion, PublishRequest.enter, Procedure.map, Procedure.step, read]
    rw [next]
    exact ⟨_, .quiet, .noting h (entry m hm)⟩
  | noting h hm => exact ⟨_, .quiet, .writing ⟨h.fine, h.own, h.stored, h.entered⟩ (keeps _ _ hm)⟩
  | writing h hm => exact ⟨_, .noted hm, .rereading (h.mono (Store.growsTo_putModule _ s))⟩
  | @rereading q v h =>
    have next : (giveVersion q.reread).step s = (giveVersion (.done (.ok v)), s) := by
      simp only [giveVersion, PublishRequest.reread, Procedure.map, Procedure.step,
        Store.getVersion_of_version? h.stored]
    rw [next]
    exact ⟨_, .quiet, .published h⟩
  | published h => exact ⟨_, .quiet, .published h⟩
  | @asking name description =>
    cases hm : s.module? name with
    | some m =>
      have next : (giveModule (describeModule name description)).step s =
          (giveModule (reviseModule description m), s) := by
        simp only [giveModule, describeModule, Procedure.map, Procedure.step, Store.getModule, hm]
        rfl
      rw [next]
      exact ⟨_, .quiet, .revising (entry m hm) (by rw [hm]; rfl)⟩
    | none =>
      have next : (giveModule (describeModule name description)).step s =
          (giveModule (.done (.error (.moduleNotFound name))), s) := by
        simp only [giveModule, describeModule, Procedure.map, Procedure.step, Store.getModule, hm]
      rw [next]
      exact ⟨_, .quiet, .unknown⟩
  | unknown => exact ⟨_, .quiet, .unknown⟩
  | revising hm h => exact ⟨_, .quiet, .rewriting (keeps _ _ hm) h⟩
  | rewriting hm h => exact ⟨_, .revised hm, .described ((Store.growsTo_putModule _ s).module _ h)⟩
  | described h => exact ⟨_, .quiet, .described h⟩

end Operation

end SchemaDepot
