import SchemaDepot.Proofs.Compile.Schedule

/-! # Jobs that go on by themselves

Where all generators end, nothing has to be stopped from outside for a call to come to an end.

* `Turn.step_eq`: every turn of a task is a step of the compiler.
* `Compiler.exists_next`: the next step of a job is one of its turns; `exists_next_step`: while some
  job has not ended, there is one.
* `Service.run_goesOn`: until a call has returned, the service goes on by itself. -/

namespace SchemaDepot

/-- A run that ends means something. -/
theorem Run.exists_conclude {run : Run} (h : run ≠ .never) :
    ∃ outcome, run.conclude = some outcome := by
  cases run with
  | never => exact absurd rfl h
  | _ => exact ⟨_, rfl⟩

namespace Compiler

variable {c c' d : Compiler} {i : Nat} {t t' u : Task} {e : Event}

/-! ### Turns are steps -/

theorem Turn.taskOf (h : c.Turn i t e t' d) : taskOf e = some i := by
  cases h <;> rfl

/-- **Every turn of a task is a step of the compiler.** -/
theorem Turn.step_eq (ht : c.tasks[i]? = some t) (h : c.Turn i t e t' d) :
    c.step e = some { d with tasks := c.tasks.set i t' } := by
  rw [step_eq_stepTask h.taskOf ht]
  have hphase := toPhase_eq (d := c) rfl ht
  have hupdate := update_eq ht
  cases h with
  | refused hp hc => simp only [stepTask, hp, hc, if_true, hphase]
  | granted hp hc hf =>
    simp only [stepTask, hp, hc, hf, Bool.false_eq_true, if_false, if_true, hphase]
  | givenUp hp => simp only [stepTask, hp, hupdate]
  | started hp => simp only [stepTask, hp, hupdate]
  | hit hp hc => simp only [stepTask, hp, hc, hphase]
  | missed hp hc => simp only [stepTask, hp, hc, hphase]
  | dispatched hp => simp only [stepTask, hp, hphase]
  | @answered w hw hp hrun =>
    simp only [stepTask, hw, hp]
    cases hr : w.run with
    | never => exact absurd hr hrun
    | _ => exact congrArg some (toPhase_eq (by rfl) ht _)
  | @left w hw hp =>
    simp only [stepTask, hw]
    cases hq : t.phase with
    | executing => exact absurd hq hp
    | _ => simp only [set_self ht]
  | taken hp hc hl => simp only [stepTask, hp, hc, hl, hphase]; rfl
  | timedOut hp hc => simp only [stepTask, hp, hc, Bool.false_eq_true, if_false, hphase]
  | abandoned hp hc =>
    rcases hp with hp | ⟨run, hp⟩ <;> simp only [stepTask, hp, hc, if_true, hphase]
  | kept hp =>
    simp only [stepTask, hp]
    exact congrArg some (toPhase_eq (d := c.store _ _) rfl ht _)
  | finished hp => simp only [stepTask, hp, hupdate]

/-! ### The next step -/

theorem exists_find?_worker {w : Worker} (hw : w ∈ c.workers) (hi : w.task = i) :
    ∃ w' ∈ c.workers, c.workers.find? (·.task == i) = some w' := by
  have found : (c.workers.find? (·.task == i)).isSome :=
    List.find?_isSome.2 ⟨w, hw, beq_iff_eq.2 hi⟩
  obtain ⟨w', hw'⟩ := Option.isSome_iff_exists.1 found
  exact ⟨w', List.mem_of_find?_eq_some hw', hw'⟩

/-- **The next step of a job is one of its turns**, if a permit is free when it needs one, and its
generator ends. -/
theorem exists_next (ht : c.tasks[i]? = some t) (heard : t.phase.IsHeard)
    (permitted : t.phase = .waiting → 0 < c.free)
    (manned : t.phase = .executing →
      ∃ w, c.workers.find? (·.task == i) = some w ∧ w.run ≠ .never)
    (unended : t.phase.isOver = false) :
    ∃ e t' d, c.next? i = some e ∧ c.Turn i t e t' d := by
  cases hp : t.phase with
  | waiting =>
    have free := permitted hp
    cases hc : c.isCancelled t with
    | true => exact ⟨_, _, _, by simp [next?, ht, hp, hc], .refused hp hc⟩
    | false => exact ⟨_, _, _, by simp [next?, ht, hp, hc, free], .granted hp hc free⟩
  | refused => exact ⟨_, _, _, by simp [next?, ht, hp], .givenUp hp⟩
  | granted => exact ⟨_, _, _, by simp [next?, ht, hp], .started hp⟩
  | ready =>
    have hnext : c.next? i = some (.lookUp i) := by simp [next?, ht, hp]
    cases hc : c.cached? t.job.fingerprint with
    | none => exact ⟨_, _, _, hnext, .missed hp hc⟩
    | some result => exact ⟨_, _, _, hnext, .hit hp hc⟩
  | missed => exact ⟨_, _, _, by simp [next?, ht, hp], .dispatched hp⟩
  | executing =>
    cases hc : c.isCancelled t with
    | true => exact ⟨_, _, _, by simp [next?, ht, hp, hc], .abandoned (Or.inl hp) hc⟩
    | false =>
      obtain ⟨w, found, hrun⟩ := manned hp
      exact ⟨_, _, _, by simp [next?, ht, hp, hc, found, hrun], .answered found hp hrun⟩
  | answered run =>
    cases hc : c.isCancelled t with
    | true => exact ⟨_, _, _, by simp [next?, ht, hp, hc], .abandoned (Or.inr ⟨run, hp⟩) hc⟩
    | false =>
      rw [hp] at heard
      obtain ⟨outcome, hconclude⟩ := Run.exists_conclude heard
      exact ⟨_, _, _, by simp [next?, ht, hp, hc], .taken hp hconclude hc⟩
  | keeping result => exact ⟨_, _, _, by simp [next?, ht, hp], .kept hp⟩
  | ending result failure => exact ⟨_, _, _, by simp [next?, ht, hp], .finished hp⟩
  | ended result failure =>
    rw [hp] at unended
    cases unended

/-- The next step does not come from outside. -/
theorem next?_unforced (h : c.next? i = some e) (j : Nat) : e ≠ .timeOut j := by
  obtain ⟨t, -, h⟩ := Option.bind_eq_some_iff.1 h
  rintro rfl
  dsimp only at h
  repeat' split at h
  all_goals cases h

/-- **While a job has not ended, some job has a next step**, if all generators end. -/
theorem exists_next_step {bound : Nat} (hm : c.Manned) (positive : 0 < bound)
    (total : c.free + c.holders + c.workers.length = bound)
    (ends : ∀ w ∈ c.workers, w.run ≠ .never)
    (heard : ∀ (i : Nat) (t : Task), c.tasks[i]? = some t → t.phase.IsHeard)
    (ht : c.tasks[i]? = some t) (unended : t.phase.isOver = false) :
    ∃ j e c', c.next? j = some e ∧ c.step e = some c' := by
  have next : ∀ (j : Nat) (u : Task), c.tasks[j]? = some u →
      (u.phase = .waiting → 0 < c.free) → u.phase.isOver = false →
      ∃ j e c', c.next? j = some e ∧ c.step e = some c' := by
    intro j u hu permitted unended
    obtain ⟨e, u', d, hnext, hturn⟩ := exists_next hu (heard j u hu) permitted
      (fun hp =>
        let ⟨_, hw, hj⟩ := hm.awaited j u hu hp
        let ⟨w', hw', found⟩ := exists_find?_worker hw hj
        ⟨w', found, ends w' hw'⟩) unended
    exact ⟨j, e, _, hnext, hturn.step_eq hu⟩
  by_cases hfree : 0 < c.free
  · exact next i t ht (fun _ => hfree) unended
  by_cases hholders : 0 < c.holders
  · -- One that holds a permit neither waits nor has ended.
    obtain ⟨u, hu, holds⟩ := List.countP_pos_iff.1 hholders
    obtain ⟨j, hj⟩ := List.mem_iff_getElem?.1 hu
    refine next j u hj ?_ ?_
    · intro waits
      rw [waits] at holds
      cases holds
    · cases hp : u.phase <;> rw [hp] at holds <;> first | rfl | cases holds
  · -- A generator runs, for a job that can go on or has ended.
    have manned : 0 < c.workers.length := by omega
    obtain ⟨w, hw⟩ := List.exists_mem_of_length_pos manned
    obtain ⟨u, hu, past⟩ := hm.called w hw
    cases done : u.phase.isOver with
    | false =>
      refine next w.task u hu ?_ done
      intro waits
      rw [waits] at past
      cases past
    | true =>
      obtain ⟨w', -, found⟩ := exists_find?_worker hw rfl
      obtain ⟨r, failure, hp⟩ : ∃ r failure, u.phase = .ended r failure := by
        cases hp : u.phase with
        | ended r failure => exact ⟨r, failure, rfl⟩
        | _ => rw [hp] at done; cases done
      have hturn : c.Turn w.task u (.workerEnds w.task) u _ := .left found (by rw [hp]; nofun)
      exact ⟨w.task, _, _, by simp [next?, hu, hp, found], hturn.step_eq hu⟩

end Compiler

namespace Service

variable {s : Service} {as : List Activity} {backends : Backends} {options : CompilerOptions}

/-- A call takes up a language, or a job takes its next step; nothing comes from outside. -/
def GoesOn (s : Service) : Prop :=
  ∃ a s', s.step a = some s' ∧
    ((∃ k position, a = .takeUp k position) ∨ ∃ i e, a = .work e ∧ s.compiler.next? i = some e)

/-- **Until a call has returned, the service goes on by itself**, if all generators end. -/
theorem run_goesOn (h : (new backends options).run as = some s)
    (ends : ∀ language backend, backends.find? language = some backend →
      ∀ n input, backend.run n input ≠ .never)
    {call : Call} (hcall : call ∈ s.calls) (running : call.hasReturned s.compiler = false) :
    s.GoesOn := by
  obtain ⟨es, hes, -⟩ := run_events h
  have hs := run_settled h
  rcases hs.unreturned hcall running with ⟨position, language, hslot⟩ |
    ⟨language, place, t, -, ht, -, unended⟩
  · obtain ⟨k, hk⟩ := List.mem_iff_getElem?.1 hcall
    obtain ⟨s', hs'⟩ := exists_takeUp hk hslot
    exact ⟨_, s', hs', Or.inl ⟨k, position, rfl⟩⟩
  · have workers : ∀ w ∈ s.compiler.workers, w.run ≠ .never := by
      intro w hw
      obtain ⟨k, hk, n, hrun⟩ := hs.sound.worker w hw
      rw [hrun]
      refine ends k.language k.backend ?_ n k.input
      have same : s.compiler.backends = backends := (Compiler.run_frame hes).1
      exact same ▸ (hs.sound.ticket _ k hk).2.2
    obtain ⟨j, e, c', hnext, hstep⟩ := Compiler.exists_next_step (Compiler.run_manned hes)
      (Nat.lt_of_lt_of_le Nat.one_pos (Nat.le_max_left 1 options.maxConcurrency))
      (Compiler.run_permits hes) workers (Compiler.run_isHeard hes) ht unended
    refine ⟨.work e, { s with compiler := c' }, ?_, Or.inr ⟨j, e, rfl, hnext⟩⟩
    have moves := congrArg (Option.map fun compiler => { s with compiler }) hstep
    cases e with
    | enqueue => exact (next?_queues_none hnext _ _ _ rfl).elim
    | _ => exact moves

end Service

end SchemaDepot
