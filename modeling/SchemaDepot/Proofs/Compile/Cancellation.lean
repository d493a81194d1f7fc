import SchemaDepot.Proofs.Compile.Stopping

/-! # Requests that are cancelled

Cancelling a request stops those of its jobs that have not got their results yet, and nothing else.

* `Service.Agrees`: what two services say of a language is the same; `agrees_of_isUndisturbed`: so
  it is, whatever the other requests are, where nothing disturbs the job.
* `Service.CancelsAlone`: all that a cancellation does; `run_cancelsAlone`: so it is whenever a
  request is cancelled. -/

namespace SchemaDepot

/-! ### Other requests -/

/-- The job but for its name, and for whether the cache had its result. -/
def Job.core (job : Job) : Job :=
  { job with id := "", cacheHit := false, result := job.result.map CompileResult.core }

/-- What a job is that has ended with a result, but for its name. -/
theorem Job.core_finish_start_new (id language : String) (fingerprint : Fingerprint)
    (r : CompileResult) : ((Job.new id language fingerprint).start.1.finish r).1.core =
      ((Job.new "" language fingerprint).start.1.finish r.core).1.core := by
  rw [finish_start_new, finish_start_new]
  rfl

namespace Service

variable {s s' o : Service} {a : Activity} {as before after : List Activity} {token i : Nat}
  {t t' : Task} {e : Event} {backends : Backends} {options : CompilerOptions}

/-- The job of a language, if it has one. -/
def jobOf (s : Service) (slot : Slot) : Option Job := slot.place?.bind fun place => s.jobs[place]?

/-- **What two services say of a language is the same**, but for the name of its job and for whether
the cache had its result. -/
structure Agrees (s o : Service) (language : String) (slot slot' : Slot) : Prop where
  result : (s.compiler.outcome language slot.place?).1.core =
    (o.compiler.outcome language slot'.place?).1.core
  failure : (s.compiler.outcome language slot.place?).2 =
    (o.compiler.outcome language slot'.place?).2
  job : (s.jobOf slot).map Job.core = (o.jobOf slot').map Job.core

/-- The job of a language that is settled, by its result. -/
theorem SlotAnswered.core_jobOf {call : Call} {language : String} {slot : Slot}
    {outcome : Compiler.Outcome} (h : s.SlotAnswered call language slot outcome) (hs : s.Settled) :
    (s.jobOf slot).map Job.core = (s.compiler.backends.find? language).map fun _ =>
      ((Job.new "" language (call.input.fingerprint language)).start.1.finish
        outcome.1.core).1.core := by
  cases h with
  | unavailable hb =>
    rw [hb]
    rfl
  | @ended place t r failure ht hp hlanguage hinput =>
    obtain ⟨-, hfingerprint, hb⟩ := hs.sound.ticket place _ (Compiler.getElem?_tickets ht)
    have found : s.compiler.backends.find? language = some t.backend := hlanguage ▸ hb
    have shown := (hs.sound.task place t ht).1
    rw [Task.IsShown, hp] at shown
    have core := (congrArg Job.core shown).trans (Job.core_finish_start_new _ _ _ r)
    have there : s.jobOf (.queued place) = some t.job := by
      simp only [jobOf, Slot.place?, Option.bind_some, jobs, Compiler.jobs, List.getElem?_map, ht,
        Option.map_some]
    have fingerprint : t.job.fingerprint = call.input.fingerprint language := by
      rw [← hinput, ← hlanguage]
      exact hfingerprint
    rw [there, found, Option.map_some, Option.map_some, core, hlanguage, fingerprint]

theorem SlotAnswered.agrees {call call' : Call} {language : String} {slot slot' : Slot}
    (h : s.SlotAnswered call language slot (s.compiler.outcome language slot.place?))
    (h' : o.SlotAnswered call' language slot' (o.compiler.outcome language slot'.place?))
    (hs : s.Settled) (ho : o.Settled) (same : o.compiler.backends = s.compiler.backends)
    (input : call'.input = call.input)
    (outcome : ((s.compiler.outcome language slot.place?).1.core,
      (s.compiler.outcome language slot.place?).2) =
      ((o.compiler.outcome language slot'.place?).1.core,
        (o.compiler.outcome language slot'.place?).2)) : s.Agrees o language slot slot' := by
  obtain ⟨result, failure⟩ := Prod.mk.inj outcome
  exact ⟨result, failure, by rw [h.core_jobOf hs, h'.core_jobOf ho, same, input, result]⟩

/-! ### All that a cancellation does -/

/-- **All that the cancellation of a request does**, by the activities before and after it and the
services then. -/
structure CancelsAlone (backends : Backends) (options : CompilerOptions) (token : Nat)
    (before after : List Activity) (s s' : Service) : Prop where
  /-- A job of the request that had no permit, or was queued later, never calls its generator and
  ends as cancelled. -/
  unpermitted : ∀ (i : Nat) (t' : Task), s'.compiler.tasks[i]? = some t' → t'.request = token →
    (∀ t, s.compiler.tasks[i]? = some t → t.phase = .waiting ∨ t.phase = .refused) →
    .work (.dispatch i) ∉ before ++ after ∧
      (t'.job.status.isTerminal = true → s'.compiler.HasFailedCancelled i t')
  /-- One whose generator ran, or had an answer that it had not taken, ends as cancelled and keeps
  nothing. -/
  running : ∀ (i : Nat) (t t' : Task), s.compiler.tasks[i]? = some t → t.request = token →
    (t.phase = .executing ∨ ∃ run, t.phase = .answered run) → s'.compiler.tasks[i]? = some t' →
    .work (.keep i) ∉ before ++ after ∧
      (t'.job.status.isTerminal = true → s'.compiler.HasFailedCancelled i t')
  /-- One that had a permit and did not call its generator keeps nothing, and ends as cancelled
  unless the cache has a result for it. -/
  permitted : ∀ (i : Nat) (t t' : Task), s.compiler.tasks[i]? = some t → t.request = token →
    (t.phase = .granted ∨ t.phase = .ready ∨ t.phase = .missed) →
    s'.compiler.tasks[i]? = some t' → .work (.keep i) ∉ before ++ after ∧
      (t'.job.status.isTerminal = true → s'.compiler.HasFailedCancelled i t' ∨
        ∃ r, t'.phase = .ended r none ∧ r.cacheHit = true)
  /-- One that had its result ends with it. -/
  taken : ∀ (i : Nat) (t t' : Task) r failure, s.compiler.tasks[i]? = some t →
    (t.phase = .keeping r ∧ failure = none ∨ t.phase = .ending r failure) →
    s'.compiler.tasks[i]? = some t' → t'.job.status.isTerminal = true →
    t'.phase = .ended { r with job := some t'.job.id } failure
  /-- A job that had ended stays as it is, whoever asked for it. -/
  ended : ∀ (i : Nat) (t : Task), s.compiler.tasks[i]? = some t →
    t.job.status.isTerminal = true → s'.compiler.tasks[i]? = some t
  /-- No step changes the cache but that by which a job keeps its result, and its emptying. -/
  keeps : ∀ (c c' : Compiler) (e : Event), c.step e = some c' →
    c'.cache = c.cache ∨ e = .clear ∨ ∃ i, e = .keep i
  /-- A language without a generator has no job, and that is what is said of it. When it is taken
  up, the compiler does nothing. -/
  unavailable : ∀ (k : Nat) (call : Call), s'.calls[k]? = some call →
    ∀ (position : Nat) (language : String) (slot : Slot),
      call.slots[position]? = some (language, slot) → backends.find? language = none →
      slot.place? = none ∧
        s'.compiler.outcome language slot.place? =
          (.failed language (Error.generatorUnavailable language).message, some .unavailable) ∧
        (slot = .idle →
          ∃ o, s'.step (.takeUp k position) = some o ∧ o.compiler = s'.compiler)
  /-- Until a call of the request has returned, it takes up a language or one of its jobs goes on by
  itself, and no generator has to end. -/
  goesOn : ∀ (k : Nat) (call : Call), s'.calls[k]? = some call → call.token = token →
    call.hasReturned s'.compiler = false →
    (∃ position o, s'.step (.takeUp k position) = some o) ∨
      ∃ i e o, i ∈ call.places ∧ s'.compiler.next? i = some e ∧ (∀ j, e ≠ .workerEnds j) ∧
        s'.step (.work e) = some o
  /-- All calls come to an end. -/
  proceeds : s'.Proceeds (max 1 options.maxConcurrency)
  /-- What is said of a language of any other call is what is said of it in any other run, with the
  cancellation or without, where that call is not cancelled and its job does not run out of time. -/
  others : ∀ call ∈ s'.calls, call.token ∉ s'.compiler.cancelled → s'.compiler.CacheTellsApart →
    ∀ language slot, (language, slot) ∈ call.slots → slot.isSettled s'.compiler = true →
    ∀ options' as o call' slot', (new backends options').run as = some o → call' ∈ o.calls →
      call'.input = call.input → (language, slot') ∈ call'.slots →
      slot'.isSettled o.compiler = true → o.compiler.CacheTellsApart →
      IsUndisturbed as o call' slot' → s'.Agrees o language slot slot'
  /-- To this run there is one without the cancellation, if all generators end. There the calls, the
  cache, the permits, the generators and the jobs of other requests are the very same. -/
  erased : (∀ language backend, backends.find? language = some backend →
      ∀ n input, backend.run n input ≠ .never) →
    ∃ as o, as.Sublist (before ++ .work (.cancel token) :: after) ∧
      .work (.cancel token) ∉ as ∧ (new backends options).run as = some o ∧ s'.Erases token o
  /-- A call that is made only then calls no generator, and its jobs end as cancelled, whatever the
  cache has. -/
  late : ∀ (k : Nat) (call : Call), s.calls.length ≤ k → s'.calls[k]? = some call →
    call.token = token → ∀ i ∈ call.places, .work (.dispatch i) ∉ before ++ after ∧
      ∃ t', s'.compiler.tasks[i]? = some t' ∧ t'.request = token ∧
        (t'.job.status.isTerminal = true → s'.compiler.HasFailedCancelled i t')

/-! ### What jobs of the request come to -/

/-- The service when a request is cancelled. -/
def cancelNow (s : Service) (token : Nat) : Service :=
  { s with compiler := { s.compiler with cancelled := token :: s.compiler.cancelled } }

section Jobs
variable (hb : (new backends options).run before = some s)
  (h : s.run (.work (.cancel token) :: after) = some s')
  (ht' : s'.compiler.tasks[i]? = some t') (own : t'.request = token)
include h ht' own

theorem phase_after_cancel {P : Phase → Prop} (kept : Compiler.IsKept P)
    (old : ∀ t, s.compiler.tasks[i]? = some t → P t.phase) : P t'.phase :=
  run_cancelled (s := s.cancelNow token) kept h List.mem_cons_self (fun t ht _ => old t ht) t' ht'
    own

theorem avoids_after_cancel {P : Phase → Prop} (kept : Compiler.IsKept P)
    (avoid : ∀ c t t' d, Compiler.Turn c i t e t' d → ¬ P t.phase)
    (about : Compiler.taskOf e = some i) (old : ∀ t, s.compiler.tasks[i]? = some t → P t.phase) :
    .work e ∉ after :=
  run_avoids (s := s.cancelNow token) kept avoid about h List.mem_cons_self
    (fun t ht _ => old t ht) ht' own

/-- A job that was stopping ends as cancelled. -/
theorem ends_cancelled (hs' : s'.Settled)
    (old : ∀ t, s.compiler.tasks[i]? = some t → t.phase.isStopping = true)
    (terminal : t'.job.status.isTerminal = true) : s'.compiler.HasFailedCancelled i t' :=
  hasFailedCancelled_of_isStopping hs' ht'
    (phase_after_cancel h ht' own Compiler.isKept_isStopping old) terminal

include hb

/-- A job that had no permit, or is queued later, never calls its generator. -/
theorem not_dispatched
    (old : ∀ t, s.compiler.tasks[i]? = some t → t.phase = .waiting ∨ t.phase = .refused) :
    .work (.dispatch i) ∉ before ++ after := by
  refine fun member => (List.mem_append.1 member).elim (fun called => ?_) ?_
  · obtain ⟨t, ht, hp⟩ := task_of_mem (P := fun t => t.phase.hasCalled = true)
      (fun _ _ _ _ hturn => by cases hturn; rfl) (fun _ _ _ _ _ hturn => hturn.hasCalled) rfl
      called hb
    rcases old t ht with hq | hq <;> rw [hq] at hp <;> cases hp
  · refine avoids_after_cancel h ht' own Compiler.isKept_isStopping ?_ rfl fun t ht => ?_
    · intro c t t' d hturn stopping
      cases hturn with
      | dispatched hp =>
        rw [hp] at stopping
        cases stopping
    · rcases old t ht with hp | hp <;> rw [hp] <;> rfl

/-- A job that did not have its result never keeps one. -/
theorem not_kept (ht : s.compiler.tasks[i]? = some t) (fresh : t.phase.hasSucceeded = false)
    (old : t.phase.mayStop = true) : .work (.keep i) ∉ before ++ after := by
  have only : ∀ u, s.compiler.tasks[i]? = some u → u = t := fun u hu =>
    Option.some.inj (hu.symm.trans ht)
  refine fun member => (List.mem_append.1 member).elim (fun kept => ?_) ?_
  · obtain ⟨u, hu, hp⟩ := task_of_mem (P := fun t => t.phase.hasSucceeded = true)
      (fun _ _ _ _ hturn => by cases hturn; rfl) (fun _ _ _ _ _ hturn => hturn.hasSucceeded) rfl
      kept hb
    rw [only u hu, fresh] at hp
    cases hp
  · refine avoids_after_cancel h ht' own Compiler.isKept_mayStop ?_ rfl fun u hu =>
      only u hu ▸ old
    intro c t t' d hturn stops
    cases hturn with
    | kept hp =>
      rw [hp] at stops
      cases stops

/-- A job that had no permit, or is queued later, never calls its generator and ends as cancelled. -/
theorem stops_unpermitted (hs' : s'.Settled)
    (old : ∀ t, s.compiler.tasks[i]? = some t → t.phase = .waiting ∨ t.phase = .refused) :
    .work (.dispatch i) ∉ before ++ after ∧
      (t'.job.status.isTerminal = true → s'.compiler.HasFailedCancelled i t') := by
  refine ⟨not_dispatched hb h ht' own old, ends_cancelled h ht' own hs' fun t ht => ?_⟩
  rcases old t ht with hp | hp <;> rw [hp] <;> rfl

/-- A job whose generator ran keeps nothing and ends as cancelled. -/
theorem stops_running (hs' : s'.Settled) (ht : s.compiler.tasks[i]? = some t)
    (hp : t.phase = .executing ∨ ∃ run, t.phase = .answered run) :
    .work (.keep i) ∉ before ++ after ∧
      (t'.job.status.isTerminal = true → s'.compiler.HasFailedCancelled i t') := by
  have fresh : t.phase.hasSucceeded = false := by
    rcases hp with hp | ⟨run, hp⟩ <;> rw [hp] <;> rfl
  have stops : t.phase.isStopping = true := by
    rcases hp with hp | ⟨run, hp⟩ <;> rw [hp] <;> rfl
  refine ⟨not_kept hb h ht' own ht fresh (Bool.or_eq_true_iff.2 (Or.inr stops)), ?_⟩
  exact ends_cancelled h ht' own hs' fun u hu => Option.some.inj (ht.symm.trans hu) ▸ stops

/-- A job that had a permit and did not call its generator keeps nothing, and ends as cancelled
unless the cache has a result for it. -/
theorem stops_permitted (hs' : s'.Settled) (ht : s.compiler.tasks[i]? = some t)
    (hp : t.phase = .granted ∨ t.phase = .ready ∨ t.phase = .missed) :
    .work (.keep i) ∉ before ++ after ∧
      (t'.job.status.isTerminal = true → s'.compiler.HasFailedCancelled i t' ∨
        ∃ r, t'.phase = .ended r none ∧ r.cacheHit = true) := by
  have fresh : t.phase.hasSucceeded = false := by
    rcases hp with hp | hp | hp <;> rw [hp] <;> rfl
  have stops : t.phase.mayStop = true := by
    rcases hp with hp | hp | hp <;> rw [hp] <;> rfl
  have stops' := phase_after_cancel h ht' own Compiler.isKept_mayStop fun u hu =>
    Option.some.inj (ht.symm.trans hu) ▸ stops
  exact ⟨not_kept hb h ht' own ht fresh stops, hasFailedCancelled_or_hit hs' ht' stops'⟩

end Jobs

/-- A job of a call that is made only after the cancellation. -/
theorem stops_late (hb : (new backends options).run before = some s)
    (h : s.run (.work (.cancel token) :: after) = some s') (hs' : s'.Settled) {k : Nat}
    {call : Call} (hk : s.calls.length ≤ k) (hcall : s'.calls[k]? = some call)
    (own : call.token = token) (hi : i ∈ call.places) :
    .work (.dispatch i) ∉ before ++ after ∧ ∃ t', s'.compiler.tasks[i]? = some t' ∧
      t'.request = token ∧
        (t'.job.status.isTerminal = true → s'.compiler.HasFailedCancelled i t') := by
  have later := (run_queuesLater (s := s) h).later k call hk hcall i hi
  obtain ⟨language, hslot⟩ := mem_places.1 hi
  obtain ⟨t', ht', -, -, request⟩ := hs'.exists_task (List.mem_of_getElem? hcall) hslot
  have own' := request.trans own
  obtain ⟨uncalled, ends⟩ := stops_unpermitted hb h ht' own' hs' fun t ht =>
    absurd (List.getElem?_eq_some_iff.1 ht).1 (Nat.not_lt.2 later)
  exact ⟨uncalled, t', ht', own', ends⟩

/-- A call that was cancelled can go on until it has returned. -/
theorem exists_step_of_cancelled (hs : s.Settled) {k : Nat} {call : Call}
    (hcall : s.calls[k]? = some call) (cancelled : call.token ∈ s.compiler.cancelled)
    (running : call.hasReturned s.compiler = false) :
    (∃ position o, s.step (.takeUp k position) = some o) ∨
      ∃ i e o, i ∈ call.places ∧ s.compiler.next? i = some e ∧ (∀ j, e ≠ .workerEnds j) ∧
        s.step (.work e) = some o := by
  rcases hs.unreturned (List.mem_of_getElem? hcall) running with ⟨position, language, hslot⟩ |
    ⟨language, place, t, hslot, ht, request, unended⟩
  · exact Or.inl ⟨position, exists_takeUp hcall hslot⟩
  · have live : s.compiler.isCancelled t = true := List.contains_iff_mem.2 (request ▸ cancelled)
    obtain ⟨e, t', d, next, hturn, byItself⟩ := Compiler.exists_next_of_cancelled ht live unended
    exact Or.inr ⟨place, e, _, mem_places.2 ⟨language, hslot⟩, next, byItself,
      step_work (next?_queues_none next) (hturn.step_eq ht)⟩

/-- A language without a generator has no job. -/
theorem slot_unavailable (hs : s.Settled) {k position : Nat} {call : Call} {language : String}
    {slot : Slot} (hcall : s.calls[k]? = some call)
    (hslot : call.slots[position]? = some (language, slot))
    (hb : s.compiler.backends.find? language = none) : slot.place? = none ∧
      s.compiler.outcome language slot.place? =
        (.failed language (Error.generatorUnavailable language).message, some .unavailable) ∧
      (slot = .idle → ∃ o, s.step (.takeUp k position) = some o ∧ o.compiler = s.compiler) := by
  have sound := hs.slot call (List.mem_of_getElem? hcall) _ (List.mem_of_getElem? hslot)
  have none : slot.place? = none := by
    cases slot with
    | queued place =>
      obtain ⟨k, hk, rfl, -⟩ := sound
      rw [(hs.sound.ticket place k hk).2.2] at hb
      cases hb
    | _ => rfl
  refine ⟨none, by rw [none]; rfl, ?_⟩
  rintro rfl
  have taken : takeUp s.compiler call language = (s.compiler, .unavailable) := by
    simp only [takeUp, Compiler.step, hb, Option.map_none]
  simp only [step, hcall, Option.bind_eq_bind, Option.bind_some, hslot, taken]
  exact ⟨_, rfl, rfl⟩

/-! ### What stays -/

section Stays
variable (h : s.run as = some s') (ht : s.compiler.tasks[i]? = some t)
include h ht

/-- A job that has its result ends with it. -/
theorem ends_with_result {r : CompileResult} {failure : Option Failure}
    (result : t.phase.HasResult r failure t.job.id) (hs' : s'.Settled)
    (ht' : s'.compiler.tasks[i]? = some t') (terminal : t'.job.status.isTerminal = true) :
    t'.phase = .ended { r with job := some t'.job.id } failure := by
  obtain ⟨u, hu, result'⟩ := run_task (P := fun u => u.phase.HasResult r failure u.job.id)
    (fun _ _ _ _ _ hturn => hturn.hasResult) h ht result
  obtain rfl := Option.some.inj (hu.symm.trans ht')
  obtain ⟨r', failure', hp⟩ := hs'.sound.ended_of_terminal hu terminal
  rw [hp] at result' ⊢
  rw [result'.1, result'.2]

/-- A job that has ended stays as it is. -/
theorem stays_ended (hs : s.Settled) (terminal : t.job.status.isTerminal = true) :
    s'.compiler.tasks[i]? = some t := by
  obtain ⟨r, failure, hp⟩ := hs.sound.ended_of_terminal ht terminal
  obtain ⟨u, hu, rfl⟩ := run_task (P := fun u => u = t)
    (fun _ _ _ _ _ hturn same => (hturn.of_ended (same ▸ hp)).trans same) h ht rfl
  exact hu

end Stays

/-- What is said of a language that was not disturbed is the same in all runs. -/
theorem agrees_of_isUndisturbed {as' : List Activity} {options' : CompilerOptions}
    {call call' : Call} {language : String} {slot slot' : Slot} (det : backends.IsDeterministic)
    (h : (new backends options).run as = some s) (h' : (new backends options').run as' = some o)
    (hcall : call ∈ s.calls) (hcall' : call' ∈ o.calls) (input : call'.input = call.input)
    (hslot : (language, slot) ∈ call.slots) (hslot' : (language, slot') ∈ call'.slots)
    (settled : slot.isSettled s.compiler = true) (settled' : slot'.isSettled o.compiler = true)
    (apart : s.compiler.CacheTellsApart) (apart' : o.compiler.CacheTellsApart)
    (undisturbed : IsUndisturbed as s call slot) (undisturbed' : IsUndisturbed as' o call' slot') :
    s.Agrees o language slot slot' := by
  have hs := run_settled h
  have ho := run_settled h'
  obtain ⟨es, hes, -⟩ := run_events h
  obtain ⟨fs, hfs, -⟩ := run_events h'
  have same : o.compiler.backends = s.compiler.backends :=
    (Compiler.run_frame hfs).1.trans (Compiler.run_frame hes).1.symm
  have answered := hs.slotAnswered hcall hslot settled
  have answered' := ho.slotAnswered hcall' hslot' settled'
  have alone := answered.alone h det apart undisturbed
  have alone' := answered'.alone h' det apart' undisturbed'
  rw [input, alone] at alone'
  exact answered.agrees answered' hs ho same input (Option.some.inj alone')

/-! ### All together -/

/-- **A cancelled request stops its own unfinished jobs and nothing else**, whatever calls share a
service and whenever it is cancelled, if the generators have no memory and no job runs out of
time. -/
theorem run_cancelsAlone (det : backends.IsDeterministic)
    (hb : (new backends options).run before = some s)
    (h : s.run (.work (.cancel token) :: after) = some s')
    (unforced : ∀ i, .work (.timeOut i) ∉ before ++ after) :
    CancelsAlone backends options token before after s s' := by
  have hs := run_settled hb
  have whole : (new backends options).run (before ++ .work (.cancel token) :: after) = some s' := by
    rw [run_append, hb]
    exact h
  have hs' := run_settled whole
  obtain ⟨es, hes, -⟩ := run_events whole
  have same : s'.compiler.backends = backends := (Compiler.run_frame hes).1
  have cancelled : token ∈ s'.compiler.cancelled :=
    run_cancelled_subset (s := s.cancelNow token) h List.mem_cons_self
  have calm : ∀ i, .work (.timeOut i) ∉ before ++ .work (.cancel token) :: after := by
    intro i member
    rcases List.mem_append.1 member with old | new
    · exact unforced i (List.mem_append_left _ old)
    · exact unforced i (List.mem_append_right _ ((List.mem_cons.1 new).resolve_left nofun))
  have request : ∀ {i : Nat} {t t' : Task}, s.compiler.tasks[i]? = some t →
      s'.compiler.tasks[i]? = some t' → t'.request = t.request :=
    fun ht ht' => congrArg Ticket.request (run_ticket h ht ht')
  constructor
  case unpermitted => exact fun i t' ht' own old => stops_unpermitted hb h ht' own hs' old
  case running =>
    intro i t t' ht own hp ht'
    exact stops_running hb h ht' ((request ht ht').trans own) hs' ht hp
  case permitted =>
    intro i t t' ht own hp ht'
    exact stops_permitted hb h ht' ((request ht ht').trans own) hs' ht hp
  case taken =>
    intro i t t' r failure ht hp ht' terminal
    refine ends_with_result h ht ?_ hs' ht' terminal
    rcases hp with ⟨hp, rfl⟩ | hp <;> rw [hp] <;> exact ⟨rfl, rfl⟩
  case ended => exact fun i t ht terminal => stays_ended h ht hs terminal
  case keeps =>
    intro c c' e hstep
    rcases (Compiler.does_of_step hstep).cache with same | ⟨clear, -⟩ | ⟨i, -, -, keep, -⟩
    · exact Or.inl same
    · exact Or.inr (Or.inl clear)
    · exact Or.inr (Or.inr ⟨i, keep⟩)
  case unavailable =>
    intro k call hcall position language slot hslot none
    exact slot_unavailable hs' hcall hslot (same.symm ▸ none)
  case goesOn =>
    intro k call hcall own running
    exact exists_step_of_cancelled hs' hcall (own.symm ▸ cancelled) running
  case proceeds => exact run_proceeds whole
  case others =>
    intro call hcall live apart language slot hslot settled options' as o call' slot' hrun hcall'
      input hslot' settled' apart' undisturbed
    exact agrees_of_isUndisturbed det whole hrun hcall hcall' input hslot hslot' settled settled'
      apart apart' ⟨live, fun place _ => calm place⟩ undisturbed
  case erased => exact fun ends => exists_erased_run token whole ends
  case late => exact fun k call hk hcall own i hi => stops_late hb h hs' hk hcall own hi

/-- A generator that hands back the files. -/
def echoBackends : Backends := [("echo", .ofFunction "" fun input => .ok ⟨input.files, []⟩)]

/-- A call for a language twice and one without a generator, and a call of another request. There is
one permit, and the first job has it. -/
def crowdedCalls : List Activity :=
  [.call 0 {} ["echo", "none", "echo"], .call 1 {} ["echo"], .takeUp 0 0, .takeUp 0 2, .takeUp 1 0,
    .work (.acquire 0), .work (.start 0), .work (.lookUp 0), .work (.dispatch 0)]

/-- The jobs of the first call stop, that of the other gets the permit, and the first request calls
once more. -/
def afterCancellation : List Activity :=
  [.work (.workerEnds 0), .work (.abandon 0), .work (.finish 0), .takeUp 0 1, .work (.refuse 1),
    .work (.start 1), .work (.finish 1), .work (.acquire 2), .work (.start 2), .work (.lookUp 2),
    .work (.dispatch 2), .work (.workerEnds 2), .work (.take 2), .work (.keep 2),
    .work (.finish 2), .call 0 {} ["echo"], .takeUp 2 0, .work (.refuse 3), .work (.start 3),
    .work (.finish 3)]

theorem crowdedCalls_cancelsAlone : ∃ s s',
    (new echoBackends ⟨1, 1000, true⟩).run crowdedCalls = some s ∧
    s.run (.work (.cancel 0) :: afterCancellation) = some s' ∧
    s'.jobs.map Job.status = [.failed, .failed, .completed, .failed] ∧
    CancelsAlone echoBackends ⟨1, 1000, true⟩ 0 crowdedCalls afterCancellation s s' := by
  have runs : ((new echoBackends ⟨1, 1000, true⟩).run crowdedCalls).any (fun s =>
      (s.run (.work (.cancel 0) :: afterCancellation)).any fun s' =>
        s'.jobs.map Job.status == [.failed, .failed, .completed, .failed]) = true := by
    decide +kernel
  have det : echoBackends.IsDeterministic := Backends.isDeterministic_of_ofFunction fun entry h =>
    ⟨"", fun input => .ok ⟨input.files, []⟩, by rw [List.mem_singleton.1 h]⟩
  obtain ⟨s, hs, runs⟩ := (Option.any_eq_true _ _).1 runs
  obtain ⟨s', hs', statuses⟩ := (Option.any_eq_true _ _).1 runs
  refine ⟨s, s', hs, hs', by simpa using statuses, run_cancelsAlone det hs hs' fun i => ?_⟩
  simp [crowdedCalls, afterCancellation]

end Service

end SchemaDepot
