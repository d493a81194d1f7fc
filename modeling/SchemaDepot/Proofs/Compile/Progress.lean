import Mathlib.Algebra.Ring.Nat
import SchemaDepot.Proofs.Compile.JobTable
import SchemaDepot.Proofs.Compile.Permits

/-! # Calls come to an end

The calls and jobs at hand can take only so many steps, and until a call has returned there is a
step to take, unless generators that do not end hold all permits.

* `Phase.rank`, `Service.rank`: how many steps are left at most; `run_rank`: every step counts.
* `Phase.IsHeard`: what a job takes from its generator, that has given.
* `Compiler.exists_step`: a job that has not ended waits for a step that can be taken.
* `Service.Proceeds`: both together; `run_proceeds`: this holds after every run. -/

namespace SchemaDepot

/-- How many steps are left at most for a job in the phase, those of its generator included. -/
def Phase.rank : Phase → Nat
  | waiting => 8
  | granted => 7
  | ready => 6
  | missed => 5
  | executing | answered _ => 3
  | refused | keeping _ => 2
  | ending .. => 1
  | ended .. => 0

/-- What the job has heard from its generator is an answer. -/
def Phase.IsHeard : Phase → Prop
  | answered run => run ≠ .never
  | _ => True

theorem sum_map_set_add {α : Type} {f : α → Nat} {xs : List α} {k : Nat} {x y : α}
    (h : xs[k]? = some x) : ((xs.set k y).map f).sum + f x = (xs.map f).sum + f y := by
  induction xs generalizing k with
  | nil => cases h
  | cons z zs ih =>
    cases k with
    | zero =>
      cases h
      simp only [List.set_cons_zero, List.map_cons, List.sum_cons]
      omega
    | succ k =>
      have := ih h
      simp only [List.set_cons_succ, List.map_cons, List.sum_cons]
      omega

namespace Compiler

variable {c c' d : Compiler} {i : Nat} {t t' : Task} {e : Event}

/-! ### The steps that are left -/

/-- How many steps the jobs and generators can take at most. -/
def rank (c : Compiler) : Nat := (c.tasks.map (·.phase.rank)).sum + c.workers.length

theorem length_workers_lt {w : Worker} (hw : c.workers.find? (·.task == i) = some w) :
    (c.workers.filter (·.task != i)).length < c.workers.length := by
  have own : w.task = i := by simpa using List.find?_some hw
  exact List.length_filter_lt_length_iff_exists.2
    ⟨w, List.mem_of_find?_eq_some hw, by simp [own]⟩

/-- **A turn is a step** of the job or of its generator. -/
theorem Turn.rank (h : c.Turn i t e t' d) :
    t'.phase.rank + d.workers.length < t.phase.rank + c.workers.length := by
  cases h with
  | answered hw hp _ =>
    have := length_workers_lt hw
    rw [hp]
    exact Nat.add_lt_add_left this 3
  | left hw _ => exact Nat.add_lt_add_left (length_workers_lt hw) _
  | dispatched hp =>
    rw [hp]
    simp only [Phase.rank, List.length_append, List.length_singleton]
    omega
  | @taken run outcome hp _ _ =>
    have less : (t.taking c.options.cacheEnabled outcome).rank < 3 := by
      rcases outcome with failure | out
      · exact show 1 < 3 by decide
      · show (if c.options.cacheEnabled then Phase.keeping _ else .ending _ _).rank < 3
        split
        · exact show 2 < 3 by decide
        · exact show 1 < 3 by decide
    rw [hp]
    exact Nat.add_lt_add_right less _
  | abandoned hp _ =>
    rcases hp with hp | ⟨run, hp⟩ <;> rw [hp] <;>
      exact Nat.add_lt_add_right (show 1 < 3 by decide) _
  | refused hp _ | granted hp _ | givenUp hp | started hp | hit hp _ | missed hp _ | timedOut hp
  | kept hp | finished hp =>
    rw [hp]
    simp only [Phase.rank, Task.failing, store]
    omega

/-! ### What can be taken -/

/-- A turn leads to a phase in which only what was given is heard. -/
theorem Turn.isHeard (h : c.Turn i t e t' d) (ht : t.phase.IsHeard) : t'.phase.IsHeard := by
  cases h with
  | left => exact ht
  | answered _ _ hrun => exact hrun
  | @taken run outcome =>
    rcases outcome with failure | out
    · trivial
    · show (if c.options.cacheEnabled then Phase.keeping _ else .ending _ _).IsHeard
      split <;> trivial
  | _ => trivial

theorem run_isHeard {backends : Backends} {options : CompilerOptions} {es : List Event}
    (h : (new backends options).run es = some c) :
    ∀ (i : Nat) (t : Task), c.tasks[i]? = some t → t.phase.IsHeard := by
  refine run_induction
    (P := fun c => ∀ (i : Nat) (t : Task), c.tasks[i]? = some t → t.phase.IsHeard) ?_ h ?_
  · intro c e c' _ hc hdoes i t' ht'
    rcases hdoes.task_after ht' with ⟨t, ht, rfl | ⟨d, hturn⟩⟩ | ⟨_, _, _, _, -, -, -, rfl⟩
    · exact hc i t' ht
    · exact hturn.isHeard (hc i t ht)
    · trivial
  · rintro i t ⟨⟩

theorem step_eq_stepTask (he : taskOf e = some i) (ht : c.tasks[i]? = some t) :
    c.step e = c.stepTask i t e := by
  cases e <;> cases he <;> exact congrArg (Option.bind · _) ht

/-- A step of a job, or the end of a generator that ends by itself. -/
def IsOwn (c : Compiler) (e : Event) : Prop :=
  ∃ i, taskOf e = some i ∧ (e = .workerEnds i → ∃ w ∈ c.workers, w.task = i ∧ w.run ≠ .never)

/-- A generator that ends by itself can end. -/
theorem exists_step_of_worker (hm : c.Manned) {w : Worker} (hw : w ∈ c.workers)
    (hrun : w.run ≠ .never) : ∃ e c', c.step e = some c' ∧ c.IsOwn e := by
  obtain ⟨t, ht, -⟩ := hm.called w hw
  have found : c.workers.find? (·.task == w.task) = some w := by
    obtain ⟨w', hw'⟩ : ∃ w', c.workers.find? (·.task == w.task) = some w' :=
      Option.isSome_iff_exists.1 (List.find?_isSome.2 ⟨w, hw, by simp⟩)
    have same : w'.task = w.task := by simpa using List.find?_some hw'
    rw [hw', List.inj_on_of_nodup_map hm.distinct (List.mem_of_find?_eq_some hw') hw same]
  suffices ∃ c', c.stepTask w.task t (.workerEnds w.task) = some c' by
    obtain ⟨c', hc'⟩ := this
    exact ⟨_, c', (step_eq_stepTask rfl ht).trans hc', _, rfl, fun _ => ⟨w, hw, rfl, hrun⟩⟩
  simp only [stepTask, found]
  split
  · next hnever => exact (hrun hnever).elim
  · exact ⟨_, rfl⟩
  · exact ⟨_, rfl⟩

/-- A job that neither waits for a permit nor has ended can take a step. -/
theorem exists_step_of_phase (heard : t.phase.IsHeard) (ht : c.tasks[i]? = some t)
    (waits : t.phase ≠ .waiting) (unended : t.phase.isOver = false) :
    ∃ e c', c.step e = some c' ∧ c.IsOwn e := by
  have own : ∀ e, taskOf e = some i → (∀ j, e ≠ .workerEnds j) →
      (c.stepTask i t e).isSome = true → ∃ e c', c.step e = some c' ∧ c.IsOwn e := by
    intro e he hne taken
    obtain ⟨c', hc'⟩ := Option.isSome_iff_exists.1 taken
    exact ⟨e, c', (step_eq_stepTask he ht).trans hc', i, he, fun h => (hne i h).elim⟩
  cases hp : t.phase with
  | waiting => exact (waits hp).elim
  | refused | granted => exact own (.start i) rfl (by rintro j ⟨⟩) (by simp [stepTask, hp])
  | ready =>
    refine own (.lookUp i) rfl (by rintro j ⟨⟩) ?_
    cases hc : c.cached? t.job.fingerprint <;> simp [stepTask, hp, hc]
  | missed => exact own (.dispatch i) rfl (by rintro j ⟨⟩) (by simp [stepTask, hp])
  | executing =>
    cases hcancelled : c.isCancelled t with
    | true => exact own (.abandon i) rfl (by rintro j ⟨⟩) (by simp [stepTask, hp, hcancelled])
    | false => exact own (.timeOut i) rfl (by rintro j ⟨⟩) (by simp [stepTask, hp, hcancelled])
  | answered run =>
    rw [hp] at heard
    cases hcancelled : c.isCancelled t with
    | true => exact own (.abandon i) rfl (by rintro j ⟨⟩) (by simp [stepTask, hp, hcancelled])
    | false =>
      obtain ⟨outcome, hc⟩ : ∃ outcome, run.conclude = some outcome := by
        cases run with
        | never => exact (heard rfl).elim
        | _ => exact ⟨_, rfl⟩
      exact own (.take i) rfl (by rintro j ⟨⟩) (by simp [stepTask, hp, hc, hcancelled])
  | keeping result => exact own (.keep i) rfl (by rintro j ⟨⟩) (by simp [stepTask, hp])
  | ending result failure => exact own (.finish i) rfl (by rintro j ⟨⟩) (by simp [stepTask, hp])
  | ended result failure =>
    rw [hp] at unended
    cases unended

/-- **While a job has not ended, there is a step to take**, unless generators that do not end hold
all permits. -/
theorem exists_step {bound : Nat} (hm : c.Manned)
    (total : c.free + c.holders + c.workers.length = bound)
    (heard : ∀ (i : Nat) (t : Task), c.tasks[i]? = some t → t.phase.IsHeard)
    (ht : c.tasks[i]? = some t) (unended : t.phase.isOver = false) :
    (∃ e c', c.step e = some c' ∧ c.IsOwn e) ∨
      c.workers.length = bound ∧ ∀ w ∈ c.workers, w.run = .never := by
  by_cases waits : t.phase = .waiting
  · -- It gives up, or a permit is free, or one who holds a permit can go on.
    by_cases hcancelled : c.isCancelled t = true
    · have given : c.stepTask i t (.refuse i) = some (c.toPhase i .refused) := by
        simp only [stepTask, waits, if_pos hcancelled]
      exact Or.inl ⟨.refuse i, _, (step_eq_stepTask rfl ht).trans given, i, rfl, by rintro ⟨⟩⟩
    by_cases hfree : 0 < c.free
    · have taken : c.stepTask i t (.acquire i) =
          some { c.toPhase i .granted with free := c.free - 1 } := by
        simp only [stepTask, waits, if_neg hcancelled, if_pos hfree]
      exact Or.inl ⟨.acquire i, _, (step_eq_stepTask rfl ht).trans taken, i, rfl, by rintro ⟨⟩⟩
    by_cases hholders : 0 < c.holders
    · obtain ⟨t', ht', holds⟩ := List.countP_pos_iff.1 hholders
      obtain ⟨i', hi'⟩ := List.mem_iff_getElem?.1 ht'
      refine Or.inl (exists_step_of_phase (heard i' t' hi') hi' ?_ ?_)
      · rintro waits'
        rw [waits'] at holds
        cases holds
      · cases hp : t'.phase <;> rw [hp] at holds <;> first | rfl | cases holds
    by_cases hnever : ∀ w ∈ c.workers, w.run = .never
    · exact Or.inr ⟨by omega, hnever⟩
    · simp only [not_forall] at hnever
      obtain ⟨w, hw, hrun⟩ := hnever
      exact Or.inl (exists_step_of_worker hm hw hrun)
  · exact Or.inl (exists_step_of_phase (heard i t ht) ht waits unended)

end Compiler

/-! ### Calls -/

/-- A step of a call, a job or a generator, not of the world around them. -/
def Activity.isProgress : Activity → Bool
  | call .. => false
  | takeUp .. => true
  | work e => (Compiler.taskOf e).isSome

/-- How many languages of a call were not taken up. -/
def Call.idle (call : Call) : Nat := call.slots.countP fun slot => slot.2 == .idle

namespace Service

variable {s s' : Service} {a : Activity}

/-- How many steps the calls, jobs and generators can take at most. -/
def rank (s : Service) : Nat := s.compiler.rank + (s.calls.map fun call => 9 * call.idle).sum

theorem idle_set {call : Call} {language : String} {slot : Slot} {position : Nat}
    (hslot : call.slots[position]? = some (language, .idle)) (hne : slot ≠ .idle) :
    { call with slots := call.slots.set position (language, slot) }.idle + 1 = call.idle := by
  have counted := Compiler.countP_set_add (p := fun slot : String × Slot => slot.2 == .idle)
    (y := (language, slot)) hslot
  have taken : (slot == Slot.idle) = false := by simpa using hne
  simp only [taken, BEq.rfl, Bool.toNat_true, Bool.toNat_false] at counted
  exact counted

/-- Every step counts. -/
theorem Acts.rank (h : s.Acts a s') (own : a.isProgress = true) : s'.rank < s.rank := by
  have taken : ∀ (k position : Nat) (call : Call) (language : String) (slot : Slot),
      s.calls[k]? = some call → call.slots[position]? = some (language, .idle) → slot ≠ .idle →
      ((s.calls.set k { call with slots := call.slots.set position (language, slot) }).map
        fun call => 9 * call.idle).sum + 9 = (s.calls.map fun call => 9 * call.idle).sum := by
    intro k position call language slot hcall hslot hne
    have fewer := idle_set hslot hne
    have total := sum_map_set_add (f := fun call : Call => 9 * call.idle)
      (y := { call with slots := call.slots.set position (language, slot) }) hcall
    omega
  cases h with
  | called => cases own
  | @queued k position call language backend hcall hslot hb =>
    have fewer := taken k position call language (.queued s.compiler.tasks.length) hcall hslot
      (by rintro ⟨⟩)
    have joined : (s.compiler.enqueue call.token language backend call.input).rank =
        s.compiler.rank + 8 := by
      show ((s.compiler.tasks ++ [_]).map fun t : Task => t.phase.rank).sum +
        s.compiler.workers.length = _
      rw [List.map_append, List.sum_append]
      exact Nat.add_right_comm ..
    simp only [Service.rank, joined]
    omega
  | @unavailable k position call language hcall hslot hb =>
    have fewer := taken k position call language .unavailable hcall hslot (by rintro ⟨⟩)
    simp only [Service.rank]
    omega
  | @worked e c hne hstep =>
    refine Nat.add_lt_add_right ?_ _
    cases Compiler.does_of_step hstep with
    | opened | cancelled | cleared => cases own
    | enqueued => exact (hne _ _ _ rfl).elim
    | @turned e i t t' d ht hturn =>
      have step := hturn.rank
      have total := sum_map_set_add (f := fun t : Task => t.phase.rank) (y := t') ht
      show ((s.compiler.tasks.set i t').map (·.phase.rank)).sum + d.workers.length <
        (s.compiler.tasks.map (·.phase.rank)).sum + s.compiler.workers.length
      omega

/-- **A run of steps is no longer than the steps that are left.** -/
theorem run_rank {as : List Activity} (h : s.run as = some s')
    (own : ∀ a ∈ as, a.isProgress = true) : s'.rank + as.length ≤ s.rank := by
  induction as generalizing s with
  | nil =>
    cases h
    exact Nat.le_refl _
  | cons a as ih =>
    obtain ⟨d, hstep, hrun⟩ := Option.bind_eq_some_iff.1 h
    have step := (acts_of_step hstep).rank (own a List.mem_cons_self)
    have rest := ih hrun fun a ha => own a (List.mem_cons_of_mem _ ha)
    rw [List.length_cons]
    omega

/-- **Calls come to an end**: what holds of a service with so many permits. -/
structure Proceeds (bound : Nat) (s : Service) : Prop where
  /-- The calls, jobs and generators at hand take only so many steps. -/
  bounded : ∃ n, ∀ as s', s.run as = some s' → (∀ a ∈ as, a.isProgress = true) → as.length ≤ n
  /-- There is a step to take until a call has returned, and it is not that a generator is stopped
  from outside, unless only that could give any permit back. -/
  goesOn : ∀ call ∈ s.calls, call.hasReturned s.compiler = false →
    (∃ a s', s.step a = some s' ∧ a.isProgress = true ∧ ∀ i, a = .work (.workerEnds i) →
      ∃ w ∈ s.compiler.workers, w.task = i ∧ w.run ≠ .never) ∨
    s.compiler.workers.length = bound ∧ ∀ w ∈ s.compiler.workers, w.run = .never

/-- The events of the compiler, by the activities that they come from. -/
theorem run_events {as : List Activity} (h : s.run as = some s') :
    ∃ es, s.compiler.run es = some s'.compiler ∧
      ∀ i, .timeOut i ∈ es → .work (.timeOut i) ∈ as := by
  induction as generalizing s with
  | nil =>
    cases h
    exact ⟨[], rfl, by rintro i ⟨⟩⟩
  | cons a as ih =>
    obtain ⟨d, hstep, hrun⟩ := Option.bind_eq_some_iff.1 h
    obtain ⟨es, hes, out⟩ := ih hrun
    have later : ∀ i, .timeOut i ∈ es → .work (.timeOut i) ∈ a :: as := fun i hi =>
      List.mem_cons_of_mem _ (out i hi)
    have acts := acts_of_step hstep
    cases acts with
    | called => exact ⟨es, hes, later⟩
    | unavailable => exact ⟨es, hes, later⟩
    | @queued k position call language backend hcall hslot hb =>
      refine ⟨.enqueue call.token language call.input :: es, ?_, fun i hi => ?_⟩
      · rw [Compiler.run_cons, Compiler.step, hb]
        exact hes
      · exact later i ((List.mem_cons.1 hi).resolve_left (by rintro ⟨⟩))
    | @worked e c hne moved =>
      refine ⟨e :: es, ?_, fun i hi => ?_⟩
      · rw [Compiler.run_cons, moved]
        exact hes
      · rcases List.mem_cons.1 hi with rfl | hi
        · exact List.mem_cons_self
        · exact later i hi

/-- A step of the compiler is one of the service. -/
theorem exists_step_of_compiler
    (h : ∃ e c', s.compiler.step e = some c' ∧ s.compiler.IsOwn e) :
    ∃ a s', s.step a = some s' ∧ a.isProgress = true ∧ ∀ i, a = .work (.workerEnds i) →
      ∃ w ∈ s.compiler.workers, w.task = i ∧ w.run ≠ .never := by
  obtain ⟨e, c', hstep, i, hi, ends⟩ := h
  refine ⟨.work e, { s with compiler := c' }, ?_, ?_, ?_⟩
  · cases e with
    | enqueue => cases hi
    | _ => exact congrArg (Option.map fun compiler => { s with compiler }) hstep
  · exact Option.isSome_iff_exists.2 ⟨i, hi⟩
  · rintro j ⟨⟩
    cases hi
    exact ends rfl

/-- What a call waits for that has not returned: a language that it has to take up, or a job of its
own that has not ended. -/
theorem Settled.unreturned (hs : s.Settled) {call : Call} (hcall : call ∈ s.calls)
    (running : call.hasReturned s.compiler = false) :
    (∃ (position : Nat) (language : String), call.slots[position]? = some (language, .idle)) ∨
      ∃ language place t, (language, .queued place) ∈ call.slots ∧
        s.compiler.tasks[place]? = some t ∧ t.request = call.token ∧ t.phase.isOver = false := by
  obtain ⟨⟨language, slot⟩, hslot, unsettled⟩ := List.all_eq_false.1 running
  cases slot with
  | idle =>
    obtain ⟨position, hposition⟩ := List.mem_iff_getElem?.1 hslot
    exact Or.inl ⟨position, language, hposition⟩
  | unavailable => exact (unsettled rfl).elim
  | queued place =>
    obtain ⟨t, ht, -, -, own⟩ := hs.exists_task hcall hslot
    refine Or.inr ⟨language, place, t, hslot, ht, own, ?_⟩
    cases hp : t.phase with
    | ended result failure =>
      refine (unsettled ?_).elim
      simp only [Slot.isSettled, Compiler.hasEnded, ht, Option.map_some, hp]
    | _ => rfl

/-- A language that is not settled waits for a step that can be taken, unless generators that do not
end hold all permits. -/
theorem exists_step {bound : Nat} (hs : s.Settled) (hm : s.compiler.Manned)
    (total : s.compiler.free + s.compiler.holders + s.compiler.workers.length = bound)
    (heard : ∀ (i : Nat) (t : Task), s.compiler.tasks[i]? = some t → t.phase.IsHeard)
    {call : Call} (hcall : call ∈ s.calls) (running : call.hasReturned s.compiler = false) :
    (∃ a s', s.step a = some s' ∧ a.isProgress = true ∧ ∀ i, a = .work (.workerEnds i) →
      ∃ w ∈ s.compiler.workers, w.task = i ∧ w.run ≠ .never) ∨
    s.compiler.workers.length = bound ∧ ∀ w ∈ s.compiler.workers, w.run = .never := by
  rcases hs.unreturned hcall running with ⟨position, language, hslot⟩ |
    ⟨language, place, t, -, ht, -, unended⟩
  · obtain ⟨k, hk⟩ := List.mem_iff_getElem?.1 hcall
    obtain ⟨s', hs'⟩ := exists_takeUp hk hslot
    exact Or.inl ⟨_, s', hs', rfl, by rintro i ⟨⟩⟩
  · exact (Compiler.exists_step hm total heard ht unended).imp_left exists_step_of_compiler

/-- **Calls come to an end**, whatever has happened so far. -/
theorem run_proceeds {backends : Backends} {options : CompilerOptions} {as : List Activity}
    (h : (new backends options).run as = some s) :
    s.Proceeds (max 1 options.maxConcurrency) := by
  obtain ⟨es, hes, -⟩ := run_events h
  refine ⟨⟨s.rank, fun bs s' hrun own => ?_⟩, fun call hcall running => ?_⟩
  · exact Nat.le_trans (Nat.le_add_left _ _) (run_rank hrun own)
  · exact exists_step (run_settled h) (Compiler.run_manned hes) (Compiler.run_permits hes)
      (Compiler.run_isHeard hes) hcall running

end Service

end SchemaDepot
