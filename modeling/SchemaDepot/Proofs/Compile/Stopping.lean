import SchemaDepot.Proofs.Compile.Erasure

/-! # Jobs that were cancelled

A job that was cancelled before it had its result ends failed, as cancelled, and a job that had its
result ends with that.

* `Phase.isStopping`, `Phase.mayStop`: the phases of jobs that were cancelled; turns do not lead out
  of them.
* `Compiler.exists_next_of_cancelled`: a job that was cancelled goes on by itself.
* `Compiler.HasFailedCancelled`: a job has ended failed, as cancelled.
* `Service.run_cancelled`, `Service.run_avoids`: what such jobs keep in every run, and which steps
  they do not take.
* `Service.hasFailedCancelled_of_isStopping`, `Service.hasFailedCancelled_or_hit`: how they end. -/

namespace SchemaDepot

namespace Phase

/-- The job was stopped by a cancellation, or is where that will stop it. -/
def isStopping (phase : Phase) : Bool := phase.canStop || phase.isStopped

/-- The job had a permit and did not call its generator yet, or got its result from the cache. -/
def isPermitted : Phase → Bool
  | granted | ready | missed => true
  | ending r none | ended r none => r.cacheHit
  | _ => false

/-- A cancellation will stop the job, unless the cache has a result for it. -/
def mayStop (phase : Phase) : Bool := phase.isPermitted || phase.isStopping

/-- The job has its result. -/
def HasResult (r : CompileResult) (failure : Option Failure) (id : String) : Phase → Prop
  | keeping r' => r' = r ∧ failure = none
  | ending r' failure' => r' = r ∧ failure' = failure
  | ended r' failure' => r' = { r with job := some id } ∧ failure' = failure
  | _ => False

end Phase

namespace Compiler

variable {c c' d : Compiler} {i : Nat} {t t' : Task} {e : Event}

/-! ### Turns of jobs that were cancelled -/

theorem Turn.isStopping (h : c.Turn i t e t' d) (cancelled : c.isCancelled t = true)
    (hp : t.phase.isStopping = true) : t'.phase.isStopping = true := by
  cases h with
  | refused | givenUp | answered | abandoned => rfl
  | left => exact hp
  | finished hq =>
    rw [hq] at hp
    exact hp
  | granted _ live _ | taken _ _ live | timedOut _ live =>
    rw [cancelled] at live
    cases live
  | started hq | hit hq _ | missed hq _ | dispatched hq | kept hq =>
    rw [hq] at hp
    cases hp

theorem Turn.mayStop (h : c.Turn i t e t' d) (cancelled : c.isCancelled t = true)
    (hp : t.phase.mayStop = true) : t'.phase.mayStop = true := by
  cases h with
  | refused | givenUp | started | hit | missed | dispatched | answered | abandoned => rfl
  | left => exact hp
  | @finished r failure hq =>
    rw [hq] at hp
    cases failure <;> exact hp
  | granted _ live _ | taken _ _ live | timedOut _ live =>
    rw [cancelled] at live
    cases live
  | kept hq =>
    rw [hq] at hp
    cases hp

/-- **What jobs that were cancelled keep**, from when they are queued on. -/
structure IsKept (P : Phase → Prop) : Prop where
  waits : P .waiting
  turn : ∀ (c d : Compiler) (i : Nat) (t t' : Task) (e : Event), c.Turn i t e t' d →
    c.isCancelled t = true → P t.phase → P t'.phase

theorem isKept_isStopping : IsKept (·.isStopping = true) :=
  ⟨rfl, fun _ _ _ _ _ _ hturn => hturn.isStopping⟩

theorem isKept_mayStop : IsKept (·.mayStop = true) := ⟨rfl, fun _ _ _ _ _ _ hturn => hturn.mayStop⟩

/-- What a job has taken stays its result, whether it is cancelled or not. -/
theorem Turn.hasResult {r : CompileResult} {failure : Option Failure} (h : c.Turn i t e t' d)
    (hp : t.phase.HasResult r failure t.job.id) : t'.phase.HasResult r failure t'.job.id := by
  have id : t'.job.id = t.job.id := congrArg Ticket.id h.ticket
  rw [id]
  cases h with
  | left => exact hp
  | kept hq =>
    rw [hq] at hp
    exact ⟨hp.1, hp.2.symm⟩
  | finished hq =>
    rw [hq] at hp
    obtain ⟨rfl, rfl⟩ := hp
    exact ⟨rfl, rfl⟩
  | abandoned hq _ =>
    rcases hq with hq | ⟨run, hq⟩ <;> rw [hq] at hp <;> exact hp.elim
  | refused hq _ | granted hq _ _ | givenUp hq | started hq | hit hq _ | missed hq _
  | dispatched hq | answered _ hq _ | taken hq _ _ | timedOut hq _ =>
    rw [hq] at hp
    exact hp.elim

/-- A job that has ended stays as it is. -/
theorem Turn.of_ended {r : CompileResult} {failure : Option Failure} (h : c.Turn i t e t' d)
    (hp : t.phase = .ended r failure) : t' = t := by
  cases h with
  | left => rfl
  | abandoned hq _ => rcases hq with hq | ⟨run, hq⟩ <;> cases hq.symm.trans hp
  | refused hq _ | granted hq _ _ | givenUp hq | started hq | hit hq _ | missed hq _
  | dispatched hq | answered _ hq _ | taken hq _ _ | timedOut hq _ | kept hq | finished hq =>
    cases hq.symm.trans hp

/-- **A job that was cancelled goes on by itself**, and its generator need not end. -/
theorem exists_next_of_cancelled (ht : c.tasks[i]? = some t) (cancelled : c.isCancelled t = true)
    (unended : t.phase.isOver = false) :
    ∃ e t' d, c.next? i = some e ∧ c.Turn i t e t' d ∧ ∀ j, e ≠ .workerEnds j := by
  cases hp : t.phase with
  | waiting => exact ⟨_, _, _, by simp [next?, ht, hp, cancelled], .refused hp cancelled, by simp⟩
  | refused => exact ⟨_, _, _, by simp [next?, ht, hp], .givenUp hp, by simp⟩
  | granted => exact ⟨_, _, _, by simp [next?, ht, hp], .started hp, by simp⟩
  | ready =>
    have next : c.next? i = some (.lookUp i) := by simp [next?, ht, hp]
    cases hc : c.cached? t.job.fingerprint with
    | none => exact ⟨_, _, _, next, .missed hp hc, by simp⟩
    | some r => exact ⟨_, _, _, next, .hit hp hc, by simp⟩
  | missed => exact ⟨_, _, _, by simp [next?, ht, hp], .dispatched hp, by simp⟩
  | executing =>
    exact ⟨_, _, _, by simp [next?, ht, hp, cancelled], .abandoned (Or.inl hp) cancelled, by simp⟩
  | answered run =>
    exact ⟨_, _, _, by simp [next?, ht, hp, cancelled], .abandoned (Or.inr ⟨run, hp⟩) cancelled,
      by simp⟩
  | keeping r => exact ⟨_, _, _, by simp [next?, ht, hp], .kept hp, by simp⟩
  | ending r failure => exact ⟨_, _, _, by simp [next?, ht, hp], .finished hp, by simp⟩
  | ended r failure =>
    rw [hp] at unended
    cases unended

/-! ### How such jobs end -/

end Compiler

/-- What a job ends with that was cancelled. -/
def Task.cancelledResult (t : Task) : CompileResult :=
  { t.failedResult .cancelled with job := some t.job.id }

namespace Compiler

variable {c c' d : Compiler} {i : Nat} {t t' : Task} {e : Event}

/-- **The job at a place has failed as cancelled**, and so say the table and its outcome. -/
structure HasFailedCancelled (c : Compiler) (i : Nat) (t : Task) : Prop where
  phase : t.phase = .ended t.cancelledResult (some .cancelled)
  status : t.job.status = .failed
  result : t.job.result = some t.cancelledResult
  outcome : c.outcome t.job.language (some i) = (t.cancelledResult, some .cancelled)

theorem Sound.ended_of_terminal (hc : c.Sound) (ht : c.tasks[i]? = some t)
    (terminal : t.job.status.isTerminal = true) : ∃ r failure, t.phase = .ended r failure := by
  have shown := (hc.task i t ht).1
  cases hp : t.phase with
  | ended r failure => exact ⟨r, failure, rfl⟩
  | _ =>
    rw [Task.IsShown, hp] at shown
    rw [shown] at terminal
    cases terminal

theorem Sound.hasFailedCancelled (hc : c.Sound) (ht : c.tasks[i]? = some t) {r : CompileResult}
    (hp : t.phase = .ended r (some .cancelled)) : c.HasFailedCancelled i t := by
  obtain ⟨shown, sound⟩ := hc.task i t ht
  rw [hp] at sound
  obtain ⟨plain, fits, rfl⟩ := sound
  cases fits with
  | failed =>
    rw [Task.IsShown, hp] at shown
    have job : t.job = (t.queued.start.1.finish t.cancelledResult).1 := shown
    constructor
    case phase => exact hp
    case status =>
      rw [job]
      show ((Job.new _ _ _).start.1.finish _).1.status = .failed
      rw [Job.finish_start_new]
      rfl
    case result => exact shown_of_ended hc ht hp
    case outcome =>
      simp only [Compiler.outcome, ht, Option.map_some, hp]
      rfl

end Compiler

/-! ### Runs -/

namespace Service

variable {s s' o : Service} {a : Activity} {as before after : List Activity} {token i : Nat}
  {t t' : Task} {e : Event} {backends : Backends} {options : CompilerOptions}

/-- An activity in a run happens at some point of it. -/
theorem exists_acts_of_mem (ha : a ∈ as) (h : s.run as = some s') :
    ∃ as₁ as₂ s₁ s₂, s.run as₁ = some s₁ ∧ s₁.Acts a s₂ ∧ s₂.run as₂ = some s' := by
  obtain ⟨as₁, as₂, rfl⟩ := List.append_of_mem ha
  rw [run_append] at h
  obtain ⟨s₁, h₁, h⟩ := Option.bind_eq_some_iff.1 h
  obtain ⟨s₂, hstep, h₂⟩ := Option.bind_eq_some_iff.1 h
  exact ⟨as₁, as₂, s₁, s₂, h₁, acts_of_step hstep, h₂⟩

/-- A task before an activity is there afterwards, perhaps one turn further. -/
theorem Acts.task_before (h : s.Acts a s') (ht : s.compiler.tasks[i]? = some t) :
    ∃ t', s'.compiler.tasks[i]? = some t' ∧
      (t' = t ∨ ∃ e d, s.compiler.Turn i t e t' d) := by
  rcases h.compiler with same | ⟨e, hstep⟩
  · exact ⟨t, by rw [same, ht], Or.inl rfl⟩
  · obtain ⟨t', ht', turn⟩ := (Compiler.does_of_step hstep).task_before ht
    exact ⟨t', ht', turn.imp_right fun ⟨d, hturn⟩ => ⟨e, d, hturn⟩⟩

/-- A task after an activity was there before, or waits. -/
theorem Acts.task_after (h : s.Acts a s') (ht' : s'.compiler.tasks[i]? = some t') :
    (∃ t, s.compiler.tasks[i]? = some t ∧ (t' = t ∨ ∃ e d, s.compiler.Turn i t e t' d)) ∨
      t'.phase = .waiting := by
  rcases h.compiler with same | ⟨e, hstep⟩
  · exact Or.inl ⟨t', by rw [← same, ht'], Or.inl rfl⟩
  · rcases (Compiler.does_of_step hstep).task_after ht' with ⟨t, ht, turn⟩ |
      ⟨_, _, _, _, -, -, -, rfl⟩
    · exact Or.inl ⟨t, ht, turn.imp_right fun ⟨d, hturn⟩ => ⟨e, d, hturn⟩⟩
    · exact Or.inr rfl

/-- What the turns of a task keep, every run keeps of it. -/
theorem run_task {P : Task → Prop} (keep : ∀ c e t t' d, Compiler.Turn c i t e t' d → P t → P t')
    (h : s.run as = some s') (ht : s.compiler.tasks[i]? = some t) (hp : P t) :
    ∃ t', s'.compiler.tasks[i]? = some t' ∧ P t' := by
  refine run_induction (P := fun s => ∃ t, s.compiler.tasks[i]? = some t ∧ P t) ?_ h ⟨t, ht, hp⟩
  rintro s a s' ⟨t, ht, hp⟩ hacts
  obtain ⟨t', ht', rfl | ⟨e, d, hturn⟩⟩ := hacts.task_before ht
  · exact ⟨t', ht', hp⟩
  · exact ⟨t', ht', keep _ _ _ _ _ hturn hp⟩

theorem run_ticket (h : s.run as = some s') (ht : s.compiler.tasks[i]? = some t)
    (ht' : s'.compiler.tasks[i]? = some t') : t'.ticket = t.ticket := by
  obtain ⟨u, hu, same⟩ := run_task (P := fun u => u.ticket = t.ticket)
    (fun _ _ _ _ _ hturn same => hturn.ticket.trans same) h ht rfl
  exact Option.some.inj (ht'.symm.trans hu) ▸ same

theorem run_cancelled_subset (h : s.run as = some s') :
    s.compiler.cancelled ⊆ s'.compiler.cancelled := by
  refine run_induction (P := fun o => s.compiler.cancelled ⊆ o.compiler.cancelled) ?_ h
    (List.Subset.refl _)
  intro o a o' grown hacts
  rcases hacts.compiler with same | ⟨e, hstep⟩
  · rwa [same]
  · exact List.Subset.trans grown (Compiler.does_of_step hstep).cancelled_subset

/-- What a step of a task brings about and its turns keep, a run with that step brings about. -/
theorem task_of_mem {P : Task → Prop} (now : ∀ c t t' d, Compiler.Turn c i t e t' d → P t')
    (keep : ∀ c e t t' d, Compiler.Turn c i t e t' d → P t → P t')
    (about : Compiler.taskOf e = some i) (he : .work e ∈ as) (h : s.run as = some s') :
    ∃ t, s'.compiler.tasks[i]? = some t ∧ P t := by
  obtain ⟨as₁, as₂, s₁, s₂, -, hacts, h₂⟩ := exists_acts_of_mem he h
  cases hacts with
  | worked _ hstep =>
    cases Compiler.does_of_step hstep with
    | @turned _ j t t' d ht hturn =>
      obtain rfl : j = i := Option.some.inj (hturn.taskOf.symm.trans about)
      have there : (s₁.compiler.tasks.set j t')[j]? = some t' :=
        List.getElem?_set_self (List.getElem?_eq_some_iff.1 ht).1
      exact run_task keep h₂ there (now _ _ _ _ hturn)
    | _ => cases about

/-- **What jobs that were cancelled keep**, they keep in every run. -/
theorem run_cancelled {P : Phase → Prop} (kept : Compiler.IsKept P) (h : s.run as = some s')
    (cancelled : token ∈ s.compiler.cancelled)
    (hs : ∀ t, s.compiler.tasks[i]? = some t → t.request = token → P t.phase) :
    ∀ t, s'.compiler.tasks[i]? = some t → t.request = token → P t.phase := by
  suffices both : token ∈ s'.compiler.cancelled ∧
      ∀ t, s'.compiler.tasks[i]? = some t → t.request = token → P t.phase from both.2
  refine run_induction (P := fun s => token ∈ s.compiler.cancelled ∧
    ∀ t, s.compiler.tasks[i]? = some t → t.request = token → P t.phase) ?_ h ⟨cancelled, hs⟩
  rintro s a s' ⟨cancelled, hs⟩ hacts
  constructor
  · rcases hacts.compiler with same | ⟨e, hstep⟩
    · rwa [same]
    · exact (Compiler.does_of_step hstep).cancelled_subset cancelled
  · intro t' ht' own
    rcases hacts.task_after ht' with ⟨t, ht, rfl | ⟨e, d, hturn⟩⟩ | new
    · exact hs t' ht own
    · have request : t.request = token := (congrArg Ticket.request hturn.ticket).symm.trans own
      exact kept.turn _ _ _ _ _ _ hturn (List.contains_iff_mem.2 (request ▸ cancelled))
        (hs t ht request)
    · rw [new]
      exact kept.waits

/-- A step that does not start from there, they do not take. -/
theorem run_avoids {P : Phase → Prop} (kept : Compiler.IsKept P)
    (avoid : ∀ c t t' d, Compiler.Turn c i t e t' d → ¬ P t.phase)
    (about : Compiler.taskOf e = some i) (h : s.run as = some s')
    (cancelled : token ∈ s.compiler.cancelled)
    (hs : ∀ t, s.compiler.tasks[i]? = some t → t.request = token → P t.phase)
    (ht' : s'.compiler.tasks[i]? = some t') (own : t'.request = token) : .work e ∉ as := by
  intro he
  obtain ⟨as₁, as₂, s₁, s₂, h₁, hacts, h₂⟩ := exists_acts_of_mem he h
  have before := run_cancelled kept h₁ cancelled hs
  cases hacts with
  | worked _ hstep =>
    cases Compiler.does_of_step hstep with
    | @turned _ j t u d ht hturn =>
      obtain rfl : j = i := Option.some.inj (hturn.taskOf.symm.trans about)
      have there : (s₁.compiler.tasks.set j u)[j]? = some u :=
        List.getElem?_set_self (List.getElem?_eq_some_iff.1 ht).1
      obtain ⟨t'', ht'', same⟩ := run_task (P := fun v => v.ticket = u.ticket)
        (fun _ _ _ _ _ hturn same => hturn.ticket.trans same) h₂ there rfl
      obtain rfl : t'' = t' := Option.some.inj (ht''.symm.trans ht')
      have request : t.request = token :=
        (congrArg Ticket.request (hturn.ticket.symm.trans same.symm)).trans own
      exact avoid _ _ _ _ hturn (before t ht request)
    | _ => cases about

/-! ### The jobs of the request -/

/-- A job that was stopping when its request was cancelled ends as cancelled. -/
theorem hasFailedCancelled_of_isStopping (hs : s.Settled) (ht : s.compiler.tasks[i]? = some t)
    (stopping : t.phase.isStopping = true) (terminal : t.job.status.isTerminal = true) :
    s.compiler.HasFailedCancelled i t := by
  obtain ⟨r, failure, hp⟩ := hs.sound.ended_of_terminal ht terminal
  rw [hp] at stopping
  obtain rfl : failure = some .cancelled := beq_iff_eq.1 stopping
  exact hs.sound.hasFailedCancelled ht hp

/-- One that had a permit may have got its result from the cache instead. -/
theorem hasFailedCancelled_or_hit (hs : s.Settled) (ht : s.compiler.tasks[i]? = some t)
    (stops : t.phase.mayStop = true) (terminal : t.job.status.isTerminal = true) :
    s.compiler.HasFailedCancelled i t ∨ ∃ r, t.phase = .ended r none ∧ r.cacheHit = true := by
  rcases Bool.or_eq_true_iff.1 stops with permitted | stopping
  · obtain ⟨r, failure, hp⟩ := hs.sound.ended_of_terminal ht terminal
    rw [hp] at permitted
    cases failure with
    | none => exact Or.inr ⟨r, hp, permitted⟩
    | some failure => cases permitted
  · exact Or.inl (hasFailedCancelled_of_isStopping hs ht stopping terminal)

theorem mem_places {call : Call} {place : Nat} :
    place ∈ call.places ↔ ∃ language, (language, .queued place) ∈ call.slots := by
  simp only [Call.places, List.mem_flatMap, Prod.exists, Option.mem_toList]
  refine exists_congr fun language => ⟨?_, fun member => ⟨_, member, rfl⟩⟩
  rintro ⟨slot, member, own⟩
  cases slot <;> cases own
  exact member

/-- Calls that are made only after `s` have no job of those that are there. -/
structure QueuesLater (s o : Service) : Prop where
  calls : s.calls.length ≤ o.calls.length
  tasks : s.compiler.tasks.length ≤ o.compiler.tasks.length
  later : ∀ (k : Nat) (call : Call), s.calls.length ≤ k → o.calls[k]? = some call →
    ∀ place ∈ call.places, s.compiler.tasks.length ≤ place

theorem QueuesLater.refl (s : Service) : s.QueuesLater s where
  calls := le_rfl
  tasks := le_rfl
  later _ _ hk hcall := absurd (List.getElem?_eq_some_iff.1 hcall).1 (Nat.not_lt.2 hk)

/-- So it is when a language of a call is taken up. -/
theorem QueuesLater.later_set (h : s.QueuesLater o) {k position : Nat} {call : Call}
    {language : String} {slot : Slot} (hcall : o.calls[k]? = some call)
    (new : ∀ place, slot = .queued place → s.compiler.tasks.length ≤ place) (k' : Nat)
    (call' : Call) (hk' : s.calls.length ≤ k')
    (hcall' : (o.calls.set k { call with
      slots := call.slots.set position (language, slot) })[k']? = some call') :
    ∀ place ∈ call'.places, s.compiler.tasks.length ≤ place := by
  intro place hplace
  by_cases own : k = k'
  · subst own
    rw [List.getElem?_set_self (List.getElem?_eq_some_iff.1 hcall).1] at hcall'
    obtain rfl := Option.some.inj hcall'
    obtain ⟨l, member⟩ := mem_places.1 hplace
    rcases List.mem_or_eq_of_mem_set member with old | same
    · exact h.later k call hk' hcall place (mem_places.2 ⟨l, old⟩)
    · exact new place (Prod.mk.inj same).2.symm
  · rw [List.getElem?_set_ne own] at hcall'
    exact h.later k' call' hk' hcall' place hplace

theorem QueuesLater.step {o' : Service} (h : s.QueuesLater o) (hacts : o.Acts a o') :
    s.QueuesLater o' := by
  obtain ⟨calls, tasks, later⟩ := h
  cases hacts with
  | called =>
    refine ⟨Nat.le_trans calls (by simp), tasks, fun k call hk hcall place hplace => ?_⟩
    rcases Compiler.getElem?_concat.1 hcall with old | ⟨-, rfl⟩
    · exact later k call hk old place hplace
    · rw [places_new] at hplace
      cases hplace
  | queued hcall _ _ =>
    refine ⟨by simpa using calls, Nat.le_trans tasks (by simp [Compiler.enqueue]),
      later_set ⟨calls, tasks, later⟩ hcall ?_⟩
    rintro place ⟨⟩
    exact tasks
  | unavailable hcall _ _ =>
    exact ⟨by simpa using calls, tasks, later_set ⟨calls, tasks, later⟩ hcall (by simp)⟩
  | worked hne hstep =>
    have same := (Compiler.does_of_step hstep).tickets_eq hne
    have length := congrArg List.length same
    rw [Compiler.length_tickets, Compiler.length_tickets] at length
    exact ⟨calls, length ▸ tasks, later⟩

/-- **The jobs of calls that are made later are queued later.** -/
theorem run_queuesLater (h : s.run as = some s') : s.QueuesLater s' :=
  run_induction (P := s.QueuesLater) (fun _ _ _ kept hacts => kept.step hacts) h (.refl s)

end Service

end SchemaDepot
