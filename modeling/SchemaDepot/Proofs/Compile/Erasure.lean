import SchemaDepot.Proofs.Compile.Onward

/-! # Runs without a cancellation

What a cancellation leads to can be left out of a run. The jobs that were cancelled then wait where
they were, and everything else goes on as before: the calls, the cache, the permits, the generators
and all other jobs.

* `Turn.transport`: a turn of a task elsewhere, where the task is cancelled or not just as here.
* `Task.StopsFor`: a task, and the same task where it was not cancelled.
* `Compiler.Erases`: a compiler, and one in which a request is never cancelled; `Erases.step`: it
  goes along with every event, or leaves it out.
* `Service.exists_erased_run`: to every run there is one without the cancellation. -/

namespace SchemaDepot

/-- The job was stopped by a cancellation. -/
def Phase.isStopped : Phase → Bool
  | refused => true
  | ending _ failure | ended _ failure => failure == some .cancelled
  | _ => false

/-- The job is where a cancellation can stop it. -/
def Phase.canStop : Phase → Bool
  | waiting | executing | answered _ => true
  | _ => false

/-- **A task, and the same task where it was not cancelled**: there it is in the same phase, or it
waits where it was stopped here. -/
inductive Task.StopsFor (token : Nat) (t u : Task) : Prop where
  | same : t = u → StopsFor token t u
  | stopped : t.request = token → u.ticket = t.ticket → t.phase.isStopped = true →
    u.phase.canStop = true → StopsFor token t u

namespace Compiler

variable {c c' d m : Compiler} {i : Nat} {t t' u : Task} {e : Event} {token : Nat}

/-! ### Turns -/

/-- A turn of a task that is the same elsewhere, where it is cancelled if it has to be. -/
theorem Turn.transport {tasks : List Task} {cancelled : List Nat} (h : c.Turn i t e t' m)
    (live : c.isCancelled t = false → t.request ∉ cancelled)
    (stops : e = .refuse i ∨ e = .abandon i → c.isCancelled t = true → t.request ∈ cancelled) :
    Turn { c with tasks, cancelled } i t e t' { m with tasks, cancelled } := by
  have there : t.request ∈ cancelled → isCancelled { c with tasks, cancelled } t = true :=
    List.contains_iff_mem.2
  have notThere : t.request ∉ cancelled → isCancelled { c with tasks, cancelled } t = false :=
    fun h => Bool.eq_false_iff.2 (mt List.contains_iff_mem.1 h)
  cases h with
  | refused hp hc => exact .refused hp (there (stops (Or.inl rfl) hc))
  | granted hp hc hf => exact .granted hp (notThere (live hc)) hf
  | givenUp hp => exact .givenUp hp
  | started hp => exact .started hp
  | hit hp hc => exact .hit hp hc
  | missed hp hc => exact .missed hp hc
  | dispatched hp => exact .dispatched hp
  | answered hw hp hrun => exact .answered hw hp hrun
  | left hw hp => exact .left hw hp
  | taken hp hc hl => exact .taken hp hc (notThere (live hl))
  | timedOut hp hc => exact .timedOut hp (notThere (live hc))
  | abandoned hp hc => exact .abandoned hp (there (stops (Or.inr rfl) hc))
  | kept hp => exact .kept hp
  | finished hp => exact .finished hp

/-- A turn by which a cancellation stops a task changes nothing else. -/
theorem Turn.stops (h : c.Turn i t e t' m) (he : e = .refuse i ∨ e = .abandon i) :
    m = c ∧ t'.phase.isStopped = true ∧ t.phase.canStop = true := by
  cases h with
  | refused hp _ =>
    rw [hp]
    exact ⟨rfl, rfl, rfl⟩
  | abandoned hp _ =>
    rcases hp with hp | ⟨run, hp⟩ <;> rw [hp] <;> exact ⟨rfl, rfl, rfl⟩
  | _ => rcases he with he | he <;> cases he

/-- A task that was stopped comes to its end, and changes nothing else; but its generator may
end. -/
theorem Turn.of_stopped (h : c.Turn i t e t' m) (stopped : t.phase.isStopped = true) :
    t'.phase.isStopped = true ∧ (m = c ∨ e = .workerEnds i ∧ t' = t ∧
      ∃ w, c.workers.find? (·.task == i) = some w ∧
        m = { c with workers := c.workers.filter (·.task != i), free := c.free + 1 }) := by
  cases h with
  | givenUp => exact ⟨rfl, Or.inl rfl⟩
  | finished hp =>
    rw [hp] at stopped
    exact ⟨stopped, Or.inl rfl⟩
  | left hw _ => exact ⟨stopped, Or.inr ⟨rfl, rfl, _, hw, rfl⟩⟩
  | abandoned hp _ =>
    rcases hp with hp | ⟨run, hp⟩ <;> rw [hp] at stopped <;> cases stopped
  | refused hp _ | granted hp _ _ | started hp | hit hp _ | missed hp _ | dispatched hp
  | answered _ hp _ | taken hp _ _ | timedOut hp _ | kept hp =>
    rw [hp] at stopped
    cases stopped

/-- Where a task waits that was stopped elsewhere, its generator may end as well. -/
theorem exists_turn_of_canStop {w : Worker} (hw : c.workers.find? (·.task == i) = some w)
    (ends : w.run ≠ .never) (can : u.phase.canStop = true) :
    ∃ u', c.Turn i u (.workerEnds i) u'
      { c with workers := c.workers.filter (·.task != i), free := c.free + 1 } ∧
      u'.phase.canStop = true := by
  by_cases hp : u.phase = .executing
  · exact ⟨_, .answered hw hp ends, rfl⟩
  · exact ⟨u, .left hw hp, can⟩

/-! ### Compilers -/

/-- The tokens but for one. -/
def uncancelled (token : Nat) (tokens : List Nat) : List Nat := tokens.filter (· != token)

theorem mem_uncancelled {tokens : List Nat} {request : Nat} :
    request ∈ uncancelled token tokens ↔ request ∈ tokens ∧ request ≠ token := by
  simp [uncancelled]

/-- **A compiler, and one in which a request is never cancelled**: they differ in the tasks that
were stopped, and in nothing else. -/
structure Erases (token : Nat) (c d : Compiler) : Prop where
  length : d.tasks.length = c.tasks.length
  task : ∀ (i : Nat) (t : Task), c.tasks[i]? = some t →
    ∃ u, d.tasks[i]? = some u ∧ t.StopsFor token u
  rest : d = { c with tasks := d.tasks, cancelled := uncancelled token c.cancelled }

theorem erases_new (token : Nat) (backends : Backends) (options : CompilerOptions) :
    Erases token (new backends options) (new backends options) :=
  ⟨rfl, by rintro i t ⟨⟩, rfl⟩

namespace Erases

/-- When a task goes on, there as well or not. -/
theorem set (h : Erases token c d) (hu : d.tasks[i]? = some u) {u' : Task}
    (new : t'.StopsFor token u') (frame : m.cancelled = c.cancelled) :
    Erases token { m with tasks := c.tasks.set i t' }
      { m with tasks := d.tasks.set i u', cancelled := uncancelled token c.cancelled } where
  length := by simp only [List.length_set, h.length]
  task j x hx := by
    by_cases own : i = j
    · subst own
      have hi : i < c.tasks.length := h.length ▸ (List.getElem?_eq_some_iff.1 hu).1
      rw [List.getElem?_set_self hi] at hx
      obtain rfl := Option.some.inj hx
      exact ⟨u', List.getElem?_set_self (h.length.symm ▸ hi), new⟩
    · rw [List.getElem?_set_ne own] at hx ⊢
      exact h.task j x hx
  rest := by rw [frame]

/-- **An event happens there as well**, or there it is left out. -/
theorem turn (h : Erases token c d) (ends : ∀ w ∈ c.workers, w.run ≠ .never)
    (ht : c.tasks[i]? = some t) (hturn : c.Turn i t e t' m) :
    (∃ d', d.step e = some d' ∧ Erases token { m with tasks := c.tasks.set i t' } d') ∨
      Erases token { m with tasks := c.tasks.set i t' } d := by
  obtain ⟨u, hu, stops⟩ := h.task i t ht
  have frame := hturn.frame.2.2.2
  -- When the task goes on there, so that it corresponds to the one here.
  have goes : ∀ u', t'.StopsFor token u' →
      Turn { c with tasks := d.tasks, cancelled := uncancelled token c.cancelled } i u e u'
        { m with tasks := d.tasks, cancelled := uncancelled token c.cancelled } →
      ∃ d', d.step e = some d' ∧ Erases token { m with tasks := c.tasks.set i t' } d' := by
    intro u' new hturn'
    have moved := hturn'.step_eq (show ({ c with tasks := d.tasks, cancelled := _ } :
      Compiler).tasks[i]? = some u from hu)
    rw [← h.rest] at moved
    exact ⟨_, moved, h.set hu new frame⟩
  -- When the task stays where it is there.
  have stays : m = c → t'.StopsFor token u →
      Erases token { m with tasks := c.tasks.set i t' } d := by
    rintro rfl new
    have := h.set hu new rfl
    rw [set_self hu] at this
    exact h.rest ▸ this
  rcases stops with rfl | ⟨own, ticket, stopped, can⟩
  · by_cases out : t.request = token ∧ (e = .refuse i ∨ e = .abandon i)
    · obtain ⟨same, stopped, can⟩ := hturn.stops out.2
      have own : t'.request = token := (congrArg Ticket.request hturn.ticket).trans out.1
      exact Or.inr (stays same (.stopped own hturn.ticket.symm stopped can))
    · refine Or.inl (goes t' (.same rfl) (hturn.transport ?_ ?_))
      · exact fun live gone => absurd (List.contains_iff_mem.2 (mem_uncancelled.1 gone).1)
          (Bool.eq_false_iff.1 live)
      · exact fun he cancelled =>
          mem_uncancelled.2 ⟨List.contains_iff_mem.1 cancelled, fun own => out ⟨own, he⟩⟩
  · have request : t'.request = token := (congrArg Ticket.request hturn.ticket).trans own
    obtain ⟨stopped', rfl | ⟨rfl, rfl, w, hw, rfl⟩⟩ := hturn.of_stopped stopped
    · exact Or.inr (stays rfl (.stopped request (ticket.trans hturn.ticket.symm) stopped' can))
    · obtain ⟨u', hturn', can'⟩ := exists_turn_of_canStop
        (c := { c with tasks := d.tasks, cancelled := uncancelled token c.cancelled }) hw
        (ends w (List.mem_of_find?_eq_some hw)) can
      refine Or.inl (goes u' (.stopped own (hturn'.ticket.trans ticket) stopped can') hturn')

theorem enqueue (h : Erases token c d) (request : Nat) (language : String) (backend : Backend)
    (input : GeneratorInput) : Erases token (c.enqueue request language backend input)
      (d.enqueue request language backend input) := by
  obtain ⟨length, task, rest⟩ := h
  generalize d.tasks = tasks at length task rest
  subst rest
  refine ⟨?_, fun i t ht => ?_, rfl⟩
  · simp only [Compiler.enqueue, List.length_append, length]
  · have number : jobId tasks.length = jobId c.tasks.length := congrArg jobId length
    rcases getElem?_concat.1 ht with old | ⟨rfl, rfl⟩
    · obtain ⟨u, hu, stops⟩ := task i t old
      exact ⟨u, getElem?_concat.2 (Or.inl hu), stops⟩
    · exact ⟨_, getElem?_concat.2 (Or.inr ⟨length.symm, rfl⟩), .same (by rw [number])⟩

/-- **Every event happens there as well**, or there it is left out, as a cancellation of the request
always is. -/
theorem step (h : Erases token c d) (ends : ∀ w ∈ c.workers, w.run ≠ .never)
    (hstep : c.step e = some c') :
    e ≠ .cancel token ∧ (∃ d', d.step e = some d' ∧ Erases token c' d') ∨ Erases token c' d := by
  cases does_of_step hstep with
  | @turned e i t t' m ht hturn =>
    have other : e ≠ .cancel token := by
      rintro rfl
      cases hturn
    exact (h.turn ends ht hturn).imp_left fun moved => ⟨other, moved⟩
  | @enqueued request language input backend hb =>
    have found : d.backends.find? language = some backend := by
      rw [h.rest]
      exact hb
    exact Or.inl ⟨nofun, _, congrArg (Option.map _) found, h.enqueue _ _ _ _⟩
  | @cancelled request =>
    obtain ⟨length, task, rest⟩ := h
    generalize d.tasks = tasks at length task rest
    subst rest
    by_cases own : request = token
    · subst own
      exact Or.inr ⟨length, task, by simp [uncancelled]⟩
    · exact Or.inl ⟨by simpa using own, _, rfl, length, task, by simp [uncancelled, own]⟩
  | opened | cleared =>
    obtain ⟨length, task, rest⟩ := h
    generalize d.tasks = tasks at length task rest
    subst rest
    exact Or.inl ⟨nofun, _, rfl, length, task, rfl⟩

end Erases

end Compiler

/-! ### Services -/

namespace Service

variable {s s' o : Service} {a : Activity} {as : List Activity} {token : Nat} {backends : Backends}
  {options : CompilerOptions}

/-- An event of the compiler that queues no job is one of the service. -/
theorem step_work {c c' : Compiler} {calls : List Call} {e : Event}
    (hne : ∀ request language input, e ≠ .enqueue request language input)
    (h : c.step e = some c') : Service.step ⟨c, calls⟩ (.work e) = some ⟨c', calls⟩ := by
  cases e with
  | enqueue => exact (hne _ _ _ rfl).elim
  | _ => exact congrArg (Option.map fun compiler => Service.mk compiler calls) h

/-- **A service, and one in which a request is never cancelled.** -/
structure Erases (token : Nat) (s o : Service) : Prop where
  calls : o.calls = s.calls
  compiler : s.compiler.Erases token o.compiler

theorem Erases.step (h : Erases token s o) (ends : ∀ w ∈ s.compiler.workers, w.run ≠ .never)
    (hstep : s.step a = some s') : a ≠ .work (.cancel token) ∧
      (∃ o', o.step a = some o' ∧ Erases token s' o') ∨ Erases token s' o := by
  obtain ⟨compiler, calls⟩ := o
  obtain ⟨rfl, same⟩ := h
  replace same : s.compiler.Erases token compiler := same
  have found : ∀ language, compiler.backends.find? language = s.compiler.backends.find? language :=
    fun language => by rw [same.rest]
  -- Where the call has got to, it has got to there as well.
  have settles : ∀ {k position : Nat} {call : Call} {language : String} {next : Compiler}
      {slot : Slot}, s.calls[k]? = some call → call.slots[position]? = some (language, .idle) →
      takeUp compiler call language = (next, slot) →
      Service.step ⟨compiler, s.calls⟩ (.takeUp k position) = some ⟨next,
        s.calls.set k { call with slots := call.slots.set position (language, slot) }⟩ := by
    intro k position call language next slot hcall hslot taken
    simp only [step, hcall, Option.bind_eq_bind, Option.bind_some, hslot, taken]
  cases acts_of_step hstep with
  | called => exact Or.inl ⟨by simp, _, rfl, rfl, same⟩
  | @queued k position call language backend hcall hslot hb =>
    have taken : takeUp compiler call language =
        (compiler.enqueue call.token language backend call.input,
          .queued s.compiler.tasks.length) := by
      simp only [takeUp, Compiler.step, found, hb, Option.map_some, same.length]
    exact Or.inl ⟨by simp, _, settles hcall hslot taken, rfl,
      same.enqueue call.token language backend call.input⟩
  | @unavailable k position call language hcall hslot hb =>
    have taken : takeUp compiler call language = (compiler, .unavailable) := by
      simp only [takeUp, Compiler.step, found, hb, Option.map_none]
    exact Or.inl ⟨by simp, _, settles hcall hslot taken, rfl, same⟩
  | @worked e c hne moved =>
    rcases same.step ends moved with ⟨other, d', hd', same'⟩ | same'
    · exact Or.inl ⟨fun own => other (Activity.work.inj own), ⟨d', s.calls⟩, step_work hne hd', rfl,
        same'⟩
    · exact Or.inr ⟨rfl, same'⟩

/-- A generator that runs is that of a language, so it ends if all of them do. -/
theorem Settled.workers_end (hs : s.Settled)
    (ends : ∀ language backend, s.compiler.backends.find? language = some backend →
      ∀ n input, backend.run n input ≠ .never) : ∀ w ∈ s.compiler.workers, w.run ≠ .never := by
  intro w hw
  obtain ⟨k, hk, n, hrun⟩ := hs.sound.worker w hw
  rw [hrun]
  exact ends k.language k.backend (hs.sound.ticket _ k hk).2.2 n k.input

theorem Acts.backends_eq (h : s.Acts a s') : s'.compiler.backends = s.compiler.backends := by
  rcases h.compiler with same | ⟨e, hstep⟩
  · rw [same]
  · exact (Compiler.does_of_step hstep).frame.1

theorem Erases.run (h : Erases token s o) (hs : s.Settled)
    (ends : ∀ language backend, s.compiler.backends.find? language = some backend →
      ∀ n input, backend.run n input ≠ .never) (hrun : s.run as = some s') :
    ∃ as' o', as'.Sublist as ∧ .work (.cancel token) ∉ as' ∧ o.run as' = some o' ∧
      Erases token s' o' := by
  induction as generalizing s o with
  | nil =>
    cases hrun
    exact ⟨[], o, .slnil, nofun, rfl, h⟩
  | cons a as ih =>
    obtain ⟨d, hstep, hrun⟩ := Option.bind_eq_some_iff.1 hrun
    have hacts := acts_of_step hstep
    have ends' := hacts.backends_eq ▸ ends
    rcases h.step (hs.workers_end ends) hstep with ⟨other, o', ho', h'⟩ | h'
    · obtain ⟨as', final, sub, uncancelled, hfinal, h''⟩ := ih h' (hacts.settled hs) ends' hrun
      refine ⟨a :: as', final, sub.cons_cons a, ?_, ?_, h''⟩
      · exact fun member => (List.mem_cons.1 member).elim (fun same => other same.symm) uncancelled
      · rw [run_cons, ho']
        exact hfinal
    · obtain ⟨as', final, sub, rest⟩ := ih h' (hacts.settled hs) ends' hrun
      exact ⟨as', final, sub.cons a, rest⟩

/-- **To every run there is one without the cancellation**, in which some steps are left out, if all
generators end. -/
theorem exists_erased_run (token : Nat) (h : (new backends options).run as = some s)
    (ends : ∀ language backend, backends.find? language = some backend →
      ∀ n input, backend.run n input ≠ .never) :
    ∃ as' o, as'.Sublist as ∧ .work (.cancel token) ∉ as' ∧
      (new backends options).run as' = some o ∧ Erases token s o :=
  Erases.run ⟨rfl, Compiler.erases_new token backends options⟩ (settled_new backends options) ends h

end Service

end SchemaDepot
