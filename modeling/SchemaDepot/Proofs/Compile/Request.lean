import SchemaDepot.Proofs.Compile.Onward

/-! # Requests that nothing disturbs

A request that has the compiler to itself comes to an end, if its generators do: one job after the
other gets a permit, goes through its phases and gives the permit back.

* `Compiler.Underway`: how far a job has come while nothing else happens; `Underway.step`: the next
  step brings it closer to its end, `Underway.advance`: and so many steps bring it there.
* `Compiler.advanceAll_ends`: the jobs of a request end one after the other.
* `Compiler.Concludes`: a language has come to its end by itself; `Concludes.outcome?`,
  `Concludes.success`: what that means; `compileEach_concludes`: each language of a request does. -/

namespace SchemaDepot

/-- How many steps are left for a job that nothing disturbs. -/
def Phase.toGo : Phase → Nat
  | waiting => 8
  | granted => 7
  | ready => 6
  | missed => 5
  | executing => 4
  | answered _ => 3
  | refused | keeping _ => 2
  | ending .. => 1
  | ended .. => 0

theorem Phase.eq_ended_of_toGo {phase : Phase} (h : phase.toGo = 0) :
    ∃ r failure, phase = .ended r failure := by
  cases phase with
  | ended r failure => exact ⟨r, failure, rfl⟩
  | _ => cases h

namespace Compiler

variable {c c' d : Compiler} {i : Nat} {t t' u : Task} {e : Event}

/-! ### A job under way -/

/-- The permits and generators of `d`, when a job that is in the phase has come so far from where
`c` was and nothing else has happened. -/
def Spends (c : Compiler) (i : Nat) (d : Compiler) : Phase → Prop
  | .waiting | .keeping _ => d.free = c.free ∧ d.workers = c.workers
  | .refused => False
  | .granted | .ready | .missed => d.free + 1 = c.free ∧ d.workers = c.workers
  | .executing => d.free + 1 = c.free ∧ ∃ run, run ≠ .never ∧ d.workers = c.workers ++ [⟨i, run⟩]
  | .answered run => run ≠ .never ∧ d.free = c.free ∧ d.workers = c.workers
  | .ending _ failure | .ended _ failure =>
    (∀ f ∈ failure, f.isForced = false) ∧ d.free = c.free ∧ d.workers = c.workers

/-- A job can go through all its phases: a permit is free, its request was not cancelled, no
generator runs for it yet, and its own will end. -/
structure Ready (c : Compiler) (i : Nat) (t : Task) : Prop where
  task : c.tasks[i]? = some t
  waits : t.phase = .waiting
  free : 0 < c.free
  live : c.isCancelled t = false
  unmanned : ∀ w ∈ c.workers, w.task ≠ i
  ends : ∀ n, t.backend.run n t.input ≠ .never

/-- **The job at a place is under way** from where it was ready, and nothing else has happened. -/
structure Underway (c : Compiler) (i : Nat) (t : Task) (d : Compiler) (u : Task) : Prop where
  ready : c.Ready i t
  tasks : d.tasks = c.tasks.set i u
  ticket : u.ticket = t.ticket
  cancelled : d.cancelled = c.cancelled
  spends : c.Spends i d u.phase

theorem Ready.underway (h : c.Ready i t) : c.Underway i t c t where
  ready := h
  tasks := (set_self h.task).symm
  ticket := rfl
  cancelled := rfl
  spends := by
    rw [h.waits]
    exact ⟨rfl, rfl⟩

/-- No generator runs for a job that is ready. -/
theorem Ready.find?_worker (h : c.Ready i t) : c.workers.find? (·.task == i) = none := by
  simpa using h.unmanned

theorem Ready.find?_append (h : c.Ready i t) (run : Run) :
    (c.workers ++ [Worker.mk i run]).find? (·.task == i) = some ⟨i, run⟩ := by
  rw [List.find?_append, h.find?_worker]
  simp

theorem Ready.filter_append (h : c.Ready i t) (run : Run) :
    (c.workers ++ [Worker.mk i run]).filter (·.task != i) = c.workers := by
  have all : c.workers.filter (·.task != i) = c.workers := by
    simpa using h.unmanned
  rw [List.filter_append, all]
  simp

namespace Underway

theorem task (h : c.Underway i t d u) : d.tasks[i]? = some u := by
  rw [h.tasks]
  exact List.getElem?_set_self (List.getElem?_eq_some_iff.1 h.ready.task).1

theorem live (h : c.Underway i t d u) : d.isCancelled u = false := by
  have same : u.request = t.request := congrArg Ticket.request h.ticket
  rw [isCancelled, h.cancelled, same]
  exact h.ready.live

/-- What a turn makes of a job under way is under way too, if permits and generators are as they
should be. -/
theorem turn {d' : Compiler} {u' : Task} (h : c.Underway i t d u) (hturn : d.Turn i u e u' d')
    (spends : c.Spends i d' u'.phase) :
    c.Underway i t { d' with tasks := d.tasks.set i u' } u' where
  ready := h.ready
  tasks := by rw [h.tasks, List.set_set]
  ticket := hturn.ticket.trans h.ticket
  cancelled := hturn.frame.2.2.2.trans h.cancelled
  spends := by
    revert spends
    cases u'.phase <;> exact id

/-- While its generator does not run, all generators are those that ran before. -/
theorem workers (h : c.Underway i t d u) (hp : u.phase ≠ .executing) : d.workers = c.workers := by
  have spends := h.spends
  cases hq : u.phase with
  | executing => exact absurd hq hp
  | refused =>
    rw [hq] at spends
    exact spends.elim
  | answered | ending | ended =>
    rw [hq] at spends
    exact spends.2.2
  | _ =>
    rw [hq] at spends
    exact spends.2

/-- **A turn that is not forced brings the job closer to its end.** -/
theorem of_turn (h : c.Underway i t d u) {d' : Compiler} {u' : Task} (hturn : d.Turn i u e u' d')
    (unforced : e ≠ .timeOut i) :
    c.Spends i d' u'.phase ∧ u'.phase.toGo < u.phase.toGo := by
  have live := h.live
  have spends := h.spends
  cases hturn with
  | refused _ hc | abandoned _ hc =>
    rw [live] at hc
    cases hc
  | timedOut => exact (unforced rfl).elim
  | granted hp hf =>
    rw [hp] at spends ⊢
    obtain ⟨hfree, hworkers⟩ := spends
    refine ⟨⟨?_, hworkers⟩, show 7 < 8 by decide⟩
    show d.free - 1 + 1 = c.free
    omega
  | givenUp hp =>
    rw [hp] at spends
    exact spends.elim
  | started hp =>
    rw [hp] at spends ⊢
    exact ⟨spends, show 6 < 7 by decide⟩
  | hit hp _ =>
    rw [hp] at spends ⊢
    exact ⟨⟨by rintro f ⟨⟩, spends⟩, show 1 < 6 by decide⟩
  | missed hp _ =>
    rw [hp] at spends ⊢
    exact ⟨spends, show 5 < 6 by decide⟩
  | dispatched hp =>
    rw [hp] at spends ⊢
    have hbackend : u.backend = t.backend := congrArg Ticket.backend h.ticket
    have hinput : u.input = t.input := congrArg Ticket.input h.ticket
    have ends : u.backend.run (d.calls.count u.job.language) u.input ≠ .never := by
      rw [hbackend, hinput]
      exact h.ready.ends _
    exact ⟨⟨spends.1, _, ends, congrArg (· ++ _) spends.2⟩, show 4 < 5 by decide⟩
  | answered found hp hrun =>
    rw [hp] at spends ⊢
    obtain ⟨hfree, run, -, hworkers⟩ := spends
    exact ⟨⟨hrun, hfree, hworkers ▸ h.ready.filter_append run⟩, show 3 < 4 by decide⟩
  | left found hp =>
    rw [h.workers hp, h.ready.find?_worker] at found
    cases found
  | @taken run outcome hp hc _ =>
    rw [hp] at spends ⊢
    obtain ⟨-, spends⟩ := spends
    rcases outcome with failure | out
    · exact ⟨⟨by rintro f ⟨⟩; exact (Run.conclude_error hc).2, spends⟩, show 1 < 3 by decide⟩
    · show c.Spends i d (if d.options.cacheEnabled then Phase.keeping _ else .ending _ _) ∧
        Phase.toGo (if d.options.cacheEnabled then Phase.keeping _ else .ending _ _) < 3
      split
      · exact ⟨spends, show 2 < 3 by decide⟩
      · exact ⟨⟨by rintro f ⟨⟩, spends⟩, show 1 < 3 by decide⟩
  | kept hp =>
    rw [hp] at spends ⊢
    exact ⟨⟨by rintro f ⟨⟩, spends⟩, show 1 < 2 by decide⟩
  | finished hp =>
    rw [hp] at spends ⊢
    exact ⟨spends, show 0 < 1 by decide⟩

/-- **The next step brings the job closer to its end.** -/
theorem step (h : c.Underway i t d u) (unended : 0 < u.phase.toGo) :
    ∃ e d' u', d.next? i = some e ∧ d.step e = some d' ∧ c.Underway i t d' u' ∧
      u'.phase.toGo < u.phase.toGo := by
  have spends := h.spends
  obtain ⟨e, u', d', hnext, hturn⟩ : ∃ e u' d', d.next? i = some e ∧ d.Turn i u e u' d' := by
    refine exists_next h.task ?heard ?permitted ?manned ?unended
    case heard =>
      cases hp : u.phase with
      | answered run =>
        rw [hp] at spends
        exact spends.1
      | _ => trivial
    case permitted =>
      intro hp
      rw [hp] at spends
      exact spends.1 ▸ h.ready.free
    case manned =>
      intro hp
      rw [hp] at spends
      obtain ⟨-, run, hrun, hworkers⟩ := spends
      exact ⟨⟨i, run⟩, hworkers ▸ h.ready.find?_append run, hrun⟩
    case unended =>
      cases hp : u.phase with
      | ended =>
        rw [hp] at unended
        cases unended
      | _ => rfl
  obtain ⟨hspends, less⟩ := h.of_turn hturn (next?_unforced hnext i)
  exact ⟨e, _, u', hnext, hturn.step_eq h.task, h.turn hturn hspends, less⟩

theorem next?_of_ended (h : c.Underway i t d u) {r : CompileResult} {failure : Option Failure}
    (hp : u.phase = .ended r failure) : d.next? i = none := by
  have none : d.workers.find? (·.task == i) = none := by
    rw [h.workers (by rw [hp]; nofun)]
    exact h.ready.find?_worker
  simp [next?, h.task, hp, none]

/-- **So many steps bring the job to its end.** -/
theorem advance {n : Nat} (h : c.Underway i t d u) (enough : u.phase.toGo ≤ n) :
    ∃ u' r failure, c.Underway i t (Compiler.advance i n d) u' ∧ u'.phase = .ended r failure := by
  induction n generalizing d u with
  | zero =>
    obtain ⟨r, failure, hp⟩ := Phase.eq_ended_of_toGo (Nat.le_zero.1 enough)
    exact ⟨u, r, failure, h, hp⟩
  | succ n ih =>
    rcases Nat.eq_zero_or_pos u.phase.toGo with ended | unended
    · obtain ⟨r, failure, hp⟩ := Phase.eq_ended_of_toGo ended
      rw [advance_of_none (h.next?_of_ended hp)]
      exact ⟨u, r, failure, h, hp⟩
    · obtain ⟨e, d', u', hnext, hstep, h', less⟩ := h.step unended
      rw [advance_of_step hnext hstep]
      exact ih h' (by omega)

end Underway

/-! ### Jobs one after the other -/

/-- The job at a place has ended, and nothing stopped it from outside. -/
def EndedByItself (c : Compiler) (i : Nat) : Prop :=
  ∃ t r failure, c.tasks[i]? = some t ∧ t.phase = .ended r failure ∧
    ∀ f ∈ failure, f.isForced = false

/-- All permits and generators are where they were, and the jobs are about the same. -/
structure Restores (c d : Compiler) : Prop where
  tickets : d.tickets = c.tickets
  free : d.free = c.free
  workers : d.workers = c.workers
  cancelled : d.cancelled = c.cancelled

theorem Restores.refl (c : Compiler) : c.Restores c := ⟨rfl, rfl, rfl, rfl⟩

theorem Restores.trans {c'' : Compiler} (h : c.Restores c') (h' : c'.Restores c'') :
    c.Restores c'' where
  tickets := h'.tickets.trans h.tickets
  free := h'.free.trans h.free
  workers := h'.workers.trans h.workers
  cancelled := h'.cancelled.trans h.cancelled

/-- Another job stays ready. -/
theorem Restores.ready (h : c.Restores d) (same : d.tasks[i]? = c.tasks[i]?)
    (ready : c.Ready i t) : d.Ready i t where
  task := same.trans ready.task
  waits := ready.waits
  free := h.free ▸ ready.free
  live := by
    rw [isCancelled, h.cancelled]
    exact ready.live
  unmanned := h.workers ▸ ready.unmanned
  ends := ready.ends

/-- **A job that is ready comes to its end**, and leaves all else as it was. -/
theorem Ready.ends_byItself (h : c.Ready i t) : c.Restores (advance i maxEvents c) ∧
    (advance i maxEvents c).EndedByItself i ∧
    ∀ j, j ≠ i → (advance i maxEvents c).tasks[j]? = c.tasks[j]? := by
  have enough : t.phase.toGo ≤ maxEvents := by
    rw [h.waits]
    exact show 8 ≤ 10 by decide
  obtain ⟨u, r, failure, underway, hp⟩ := h.underway.advance enough
  have spends := underway.spends
  rw [hp] at spends
  obtain ⟨unforced, hfree, hworkers⟩ := spends
  refine ⟨⟨?_, hfree, hworkers, underway.cancelled⟩, ⟨u, r, failure, underway.task, hp, unforced⟩,
    fun j hj => ?_⟩
  · have tasks := underway.tasks
    rw [tickets, tasks, List.map_set, underway.ticket, ← List.map_set, set_self h.task]
    rfl
  · rw [underway.tasks]
    exact List.getElem?_set_ne hj.symm

/-- **The jobs of a request end one after the other.** -/
theorem advanceAll_ends {places : List Nat} (nodup : places.Nodup)
    (ready : ∀ i ∈ places, ∃ t, c.Ready i t) : c.Restores (c.advanceAll places) ∧
    (∀ i ∈ places, (c.advanceAll places).EndedByItself i) ∧
    ∀ j, j ∉ places → (c.advanceAll places).tasks[j]? = c.tasks[j]? := by
  induction places generalizing c with
  | nil => exact ⟨.refl c, by rintro i ⟨⟩, fun _ _ => rfl⟩
  | cons i places ih =>
    obtain ⟨notMem, nodup⟩ := List.nodup_cons.1 nodup
    obtain ⟨⟨t, first⟩, ready⟩ := List.forall_mem_cons.1 ready
    obtain ⟨restored, ⟨u, r, failure, hu, hp, unforced⟩, others⟩ := first.ends_byItself
    have later : ∀ j ∈ places, ∃ t, (advance i maxEvents c).Ready j t := fun j hj =>
      let ⟨t, ht⟩ := ready j hj
      ⟨t, restored.ready (others j (ne_of_mem_of_not_mem hj notMem)) ht⟩
    obtain ⟨restored', ended, others'⟩ := ih nodup later
    refine ⟨restored.trans restored', List.forall_mem_cons.2 ⟨?_, ended⟩, fun j hj => ?_⟩
    · exact ⟨u, r, failure, (others' i notMem).trans hu, hp, unforced⟩
    · obtain ⟨hne, notMem⟩ := not_or.1 (List.mem_cons.not.1 hj)
      exact (others' j notMem).trans (others j hne)

/-! ### Queueing -/

/-- A compiler can take up a request: a permit is free, the request was not cancelled, and only
generators for jobs in the table run. -/
structure Accepts (c : Compiler) (request : Nat) : Prop where
  free : 0 < c.free
  live : request ∉ c.cancelled
  manned : ∀ w ∈ c.workers, w.task < c.tasks.length

/-- A compiler with more jobs that wait. -/
structure Extends (c d : Compiler) : Prop where
  tasks : c.tasks <+: d.tasks
  backends : d.backends = c.backends
  free : d.free = c.free
  workers : d.workers = c.workers
  cancelled : d.cancelled = c.cancelled

/-- The language was taken up: its job is ready, or it has no generator. -/
def IsQueued (c : Compiler) (input : GeneratorInput) (language : String) : Option Nat → Prop
  | none => c.backends.find? language = none
  | some i => ∃ t, c.Ready i t ∧ t.job.language = language ∧ t.input = input

variable {request : Nat} {input : GeneratorInput} {language : String} {backend : Backend}
  {languages : List String}

theorem Extends.refl (c : Compiler) : c.Extends c := ⟨List.prefix_refl _, rfl, rfl, rfl, rfl⟩

theorem Extends.trans {c'' : Compiler} (h : c.Extends c') (h' : c'.Extends c'') :
    c.Extends c'' where
  tasks := h.tasks.trans h'.tasks
  backends := h'.backends.trans h.backends
  free := h'.free.trans h.free
  workers := h'.workers.trans h.workers
  cancelled := h'.cancelled.trans h.cancelled

theorem extends_enqueue : c.Extends (c.enqueue request language backend input) :=
  ⟨List.prefix_append _ _, rfl, rfl, rfl, rfl⟩

/-- A job that is ready stays so. -/
theorem Extends.ready (h : c.Extends d) (ready : c.Ready i t) : d.Ready i t where
  task := by
    obtain ⟨joined, hjoined⟩ := h.tasks
    rw [← hjoined, List.getElem?_append_left (List.getElem?_eq_some_iff.1 ready.task).1]
    exact ready.task
  waits := ready.waits
  free := h.free ▸ ready.free
  live := by
    rw [isCancelled, h.cancelled]
    exact ready.live
  unmanned := h.workers ▸ ready.unmanned
  ends := ready.ends

theorem Extends.accepts (h : c.Extends d) (accepts : c.Accepts request) : d.Accepts request where
  free := h.free ▸ accepts.free
  live := h.cancelled ▸ accepts.live
  manned w hw := Nat.lt_of_lt_of_le (accepts.manned w (h.workers ▸ hw)) h.tasks.length_le

/-- The job that is queued is ready. -/
theorem Accepts.ready (h : c.Accepts request) (ends : ∀ n, backend.run n input ≠ .never) :
    ∃ t, (c.enqueue request language backend input).Ready c.tasks.length t ∧
      t.job.language = language ∧ t.input = input := by
  refine ⟨_, ⟨List.getElem?_concat_length, rfl, h.free, ?_, ?_, ends⟩, rfl, rfl⟩
  · simpa [isCancelled, enqueue] using h.live
  · exact fun w hw => Nat.ne_of_lt (h.manned w hw)

theorem IsQueued.mono {place : Option Nat} (h : c.Extends d)
    (queued : c.IsQueued input language place) : d.IsQueued input language place := by
  cases place with
  | none => exact (congrArg (Backends.find? · language) h.backends).trans queued
  | some i =>
    obtain ⟨t, ready, same⟩ := queued
    exact ⟨t, h.ready ready, same⟩

theorem enqueueAll_extends (languages : List String) (c : Compiler) :
    c.Extends (c.enqueueAll request input languages).1 := by
  induction languages generalizing c with
  | nil => exact .refl c
  | cons language languages ih =>
    rw [enqueueAll]
    cases h : c.step (.enqueue request language input) with
    | none => exact ih c
    | some queued =>
      obtain ⟨backend, -, rfl⟩ := Option.map_eq_some_iff.1 h
      exact extends_enqueue.trans (ih _)

/-- **Every language of a request is taken up.** -/
theorem Accepts.isQueued (languages : List String) (h : c.Accepts request)
    (ends : ∀ language backend, c.backends.find? language = some backend →
      ∀ n, backend.run n input ≠ .never) :
    let d := (c.enqueueAll request input languages).1
    let queued := (c.enqueueAll request input languages).2
    (∀ q ∈ queued, d.IsQueued input q.1 q.2) ∧
      (∀ i ∈ queued.filterMap Prod.snd, c.tasks.length ≤ i) ∧
      (queued.filterMap Prod.snd).Nodup := by
  induction languages generalizing c with
  | nil => exact ⟨by rintro q ⟨⟩, by rintro i ⟨⟩, .nil⟩
  | cons language languages ih =>
    simp only [enqueueAll]
    cases hstep : c.step (.enqueue request language input) with
    | none =>
      obtain ⟨each, later, nodup⟩ := ih h ends
      have first : c.IsQueued input language none := Option.map_eq_none_iff.1 hstep
      exact ⟨List.forall_mem_cons.2 ⟨first.mono (enqueueAll_extends languages c), each⟩, later,
        nodup⟩
    | some queued =>
      obtain ⟨backend, hb, rfl⟩ := Option.map_eq_some_iff.1 hstep
      obtain ⟨each, later, nodup⟩ := ih (extends_enqueue.accepts h) ends
      have first : (c.enqueue request language backend input).IsQueued input language
          (some c.tasks.length) := h.ready (ends language backend hb)
      have beyond : ∀ i ∈ List.filterMap Prod.snd (enqueueAll request input languages
          (c.enqueue request language backend input)).2, c.tasks.length < i := by
        intro i hi
        have := later i hi
        rwa [enqueue, List.length_append] at this
      refine ⟨List.forall_mem_cons.2 ⟨?_, each⟩, List.forall_mem_cons.2 ⟨Nat.le_refl _, ?_⟩,
        List.nodup_cons.2 ⟨fun hmem => Nat.lt_irrefl _ (beyond _ hmem), nodup⟩⟩
      · exact first.mono (enqueueAll_extends languages _)
      · exact fun i hi => Nat.le_of_lt (beyond i hi)

/-! ### Requests -/

theorem settle_of_ended {places : List Nat} (h : ∀ i ∈ places, c.EndedByItself i) (n : Nat) :
    settle places n c = c := by
  have none : places.find? c.isExecuting = none := List.find?_eq_none.2 fun i hi => by
    obtain ⟨t, r, failure, ht, hp, -⟩ := h i hi
    simp [isExecuting, ht, hp]
  cases n with
  | zero => rfl
  | succ n => simp only [settle, none]

/-- The language has come to its end: its job has ended by itself, or it has no generator. -/
def IsThrough (c : Compiler) (input : GeneratorInput) (language : String) : Option Nat → Prop
  | none => c.backends.find? language = none
  | some i => ∃ t r failure, c.tasks[i]? = some t ∧ t.phase = .ended r failure ∧
      (∀ f ∈ failure, f.isForced = false) ∧ t.job.language = language ∧ t.input = input

/-- **The outcome is that of a language that has come to its end by itself.** -/
def Concludes (c : Compiler) (input : GeneratorInput) (language : String) (outcome : Outcome) :
    Prop :=
  ∃ place, c.IsThrough input language place ∧ c.outcome language place = outcome

/-- A language that was taken up has come to its end when its job has. -/
theorem IsQueued.isThrough {place : Option Nat} (h : c.IsQueued input language place)
    (restores : c.Restores d) (backends : d.backends = c.backends)
    (ended : ∀ i ∈ place, d.EndedByItself i) : d.IsThrough input language place := by
  cases place with
  | none => exact (congrArg (Backends.find? · language) backends).trans h
  | some i =>
    obtain ⟨t, ready, hlanguage, hinput⟩ := h
    obtain ⟨u, r, failure, hu, hp, unforced⟩ := ended i rfl
    have same : u.ticket = t.ticket := by
      have after := getElem?_tickets hu
      rw [restores.tickets, getElem?_tickets ready.task] at after
      exact (Option.some.inj after).symm
    exact ⟨u, r, failure, hu, hp, unforced, (congrArg Ticket.language same).trans hlanguage,
      (congrArg Ticket.input same).trans hinput⟩

theorem outcome_of_ended {language : String} {r : CompileResult} {failure : Option Failure}
    (ht : c.tasks[i]? = some t) (hp : t.phase = .ended r failure) :
    c.outcome language (some i) = (r, failure) := by
  simp only [outcome, ht, Option.map_some, hp]

/-- **A language that has come to its end has come to what it comes to by itself.** -/
theorem Concludes.outcome? {outcome : Outcome} (h : c.Concludes input language outcome)
    (sound : c.Sound) (det : c.backends.IsDeterministic) (apart : c.CacheTellsApart) :
    c.backends.outcome? input language = some (outcome.1.core, outcome.2) := by
  obtain ⟨place, through, rfl⟩ := h
  cases place with
  | none =>
    have hb : c.backends.find? language = none := through
    rw [Backends.outcome?, hb]
    rfl
  | some i =>
    obtain ⟨t, r, failure, ht, hp, unforced, rfl, rfl⟩ := through
    rw [outcome_of_ended ht hp]
    exact sound.outcome_alone ht hp det apart unforced

/-- **It has succeeded, if its generator always gives files**, whatever the cache holds. -/
theorem Concludes.success {outcome : Outcome} (h : c.Concludes input language outcome)
    (sound : c.Sound) (hb : c.backends.find? language = some backend)
    (outputs : ∀ n, ∃ out, backend.run n input = .output out) : outcome.1.success = true := by
  obtain ⟨place, through, rfl⟩ := h
  cases place with
  | none => cases hb.symm.trans through
  | some i =>
    obtain ⟨t, r, failure, ht, hp, unforced, rfl, rfl⟩ := through
    rw [outcome_of_ended ht hp]
    obtain rfl : t.backend = backend :=
      Option.some.inj ((sound.ticket i _ (getElem?_tickets ht)).2.2.symm.trans hb)
    have ended := (sound.task i t ht).2
    rw [hp] at ended
    obtain ⟨plain, fits, rfl⟩ := ended
    refine fits.isCoherent.2.1.2 ?_
    cases fits with
    | made | cached => rfl
    | failed mayFail =>
      rcases mayFail with rfl | ⟨micros, rfl⟩ | ⟨n, hrun⟩
      · cases unforced _ rfl
      · cases unforced _ rfl
      · obtain ⟨out, hout⟩ := outputs n
        rw [show t.ticket.backend.run n t.ticket.input = .output out from hout] at hrun
        cases hrun

/-- **A request that nothing disturbs comes to an end** for each of its languages. -/
theorem compileEach_concludes (languages : List String) (free : 0 < c.free)
    (live : c.requests ∉ c.cancelled) (manned : c.Manned)
    (ends : ∀ language backend, c.backends.find? language = some backend →
      ∀ n, backend.run n input ≠ .never) :
    List.Forall₂ ((c.compileEach input languages .never).1.Concludes input) languages
      (c.compileEach input languages .never).2 := by
  let opened : Compiler := { c with requests := c.requests + 1 }
  have accepts : opened.Accepts c.requests :=
    ⟨free, live, fun w hw =>
      let ⟨_, ht, _⟩ := manned.called w hw
      (List.getElem?_eq_some_iff.1 ht).1⟩
  obtain ⟨each, -, nodup⟩ := accepts.isQueued languages ends
  have named := Service.enqueueAll_languages c.requests input languages opened
  set d := (opened.enqueueAll c.requests input languages).1 with hd
  set queued := (opened.enqueueAll c.requests input languages).2 with hqueued
  set places := queued.filterMap Prod.snd with hplaces
  have ready : ∀ i ∈ places, ∃ t, d.Ready i t := by
    intro i hi
    obtain ⟨⟨language, place⟩, hq, rfl⟩ := List.mem_filterMap.1 hi
    obtain ⟨t, ready, -⟩ := each _ hq
    exact ⟨t, ready⟩
  obtain ⟨restores, ended, -⟩ := advanceAll_ends nodup ready
  have whole : c.compileEach input languages .never =
      (d.advanceAll places, queued.map fun q => (d.advanceAll places).outcome q.1 q.2) := by
    show (let final := settle places places.length (d.advanceAll places)
      (final, queued.map fun q => final.outcome q.1 q.2)) = _
    rw [settle_of_ended ended]
  have backends : (d.advanceAll places).backends = d.backends := by
    obtain ⟨as, has⟩ : (Service.mk d []).Leads ⟨d.advanceAll places, []⟩ :=
      Service.advanceAll_leads places d
    obtain ⟨es, hes, -⟩ := Service.run_events has
    exact (run_frame hes).1
  rw [whole, ← named, List.forall₂_map_left_iff, List.forall₂_map_right_iff, List.forall₂_same]
  intro q hq
  exact ⟨q.2, (each q hq).isThrough restores backends fun i hi =>
    ended i (List.mem_filterMap.2 ⟨q, hq, hi⟩), rfl⟩

/-- The compiler that a request leaves is one that some run leads to. -/
theorem compileEach_reached {backends : Backends} {options : CompilerOptions} {es : List Event}
    (h : (new backends options).run es = some c) (input : GeneratorInput)
    (languages : List String) (cancellation : Cancellation) :
    ∃ es', (new backends options).run es' =
      some (c.compileEach input languages cancellation).1 := by
  obtain ⟨_, -, -, ⟨as, has⟩, -⟩ :=
    (Service.mk c []).compileEach_leads input languages cancellation
  obtain ⟨es', hes', -⟩ := Service.run_events has
  refine ⟨es ++ es', ?_⟩
  rw [run_append, h]
  exact hes'

end Compiler

/-- A language of a call that was not disturbed has come to its end by itself when it is settled. -/
theorem Service.SlotAnswered.concludes {s : Service} {call : Call} {language : String} {slot : Slot}
    {outcome : Compiler.Outcome} {as : List Activity} {backends : Backends}
    {options : CompilerOptions} (h : s.SlotAnswered call language slot outcome)
    (hrun : (new backends options).run as = some s)
    (undisturbed : IsUndisturbed as s call slot) :
    s.compiler.Concludes call.input language outcome := by
  cases h with
  | unavailable hb => exact ⟨none, hb, rfl⟩
  | @ended place t r failure ht hp hlanguage hinput hrequest =>
    obtain ⟨es, hes, timeOuts⟩ := run_events hrun
    have stopped := Compiler.run_isStoppedBy hes place t ht
    rw [hp] at stopped
    have byItself := Compiler.unforced_of_isStoppedBy stopped (hrequest ▸ undisturbed.1)
      fun hmem => undisturbed.2 place rfl (timeOuts place hmem)
    exact ⟨some place, ⟨t, r, failure, ht, hp, byItself, hlanguage, hinput⟩,
      Compiler.outcome_of_ended ht hp⟩

end SchemaDepot
