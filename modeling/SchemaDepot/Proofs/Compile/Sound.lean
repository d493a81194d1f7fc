import SchemaDepot.Proofs.Compile.Step

/-! # What holds of a compiler at work

* `Ticket.Makes`: a generator of the job can give this result; `Compiler.Kept`: such a result may
  be in the cache.
* `Compiler.Fits`: the ways in which a job can end.
* `Phase.shown`: what the table shows of a job in a phase.
* `Compiler.Sound`: the invariant; `run_sound`: it holds after every run of a new compiler. -/

namespace SchemaDepot

/-! ### Results -/

namespace Ticket

/-- The result of a job whose generator gave files. -/
def success (k : Ticket) (out : GeneratorOutput) : CompileResult :=
  { CompileResult.succeeded k.language out.files out.packageFiles with
    artifact := some (k.language ++ "/" ++ k.fingerprint.short) }

/-- A run of the generator can give this result. -/
def Makes (k : Ticket) (result : CompileResult) : Prop :=
  ∃ n out, (k.backend.run n k.input).conclude = some (.ok out) ∧ result = k.success out

/-- The job can fail for this reason: it is cancelled or runs out of time, or its generator
fails. -/
def MayFail (k : Ticket) (failure : Failure) : Prop :=
  failure = .cancelled ∨ (∃ micros, failure = .timedOut micros) ∨
    ∃ n, (k.backend.run n k.input).conclude = some (.error failure)

end Ticket

namespace Compiler

/-- A job of this fingerprint made this result. -/
def Kept (c : Compiler) (fingerprint : Fingerprint) (result : CompileResult) : Prop :=
  ∃ k ∈ c.tickets, k.fingerprint = fingerprint ∧ k.Makes result

/-- **The ways in which a job can end**: with a result that its generator made or that the cache
had, or with a failure. -/
inductive Fits (c : Compiler) (k : Ticket) : CompileResult → Option Failure → Prop where
  | made {result : CompileResult} : k.Makes result → Fits c k result none
  | cached {result : CompileResult} : c.options.cacheEnabled = true →
    c.Kept k.fingerprint result → Fits c k { result with cacheHit := true } none
  | failed {failure : Failure} : k.MayFail failure →
    Fits c k (CompileResult.failed k.language failure.message) (some failure)

/-- What a phase says of the results in it. -/
def PhaseSound (c : Compiler) (k : Ticket) : Phase → Prop
  | .answered run => ∃ n, run = k.backend.run n k.input
  | .keeping result => k.Makes result
  | .ending result failure => c.Fits k result failure
  | .ended result failure =>
    ∃ plain, c.Fits k plain failure ∧ result = { plain with job := some k.id }
  | _ => True

end Compiler

/-! ### Jobs in the table -/

namespace Phase

/-- Before the job is noted as running, until it is noted as ended, and from then on. -/
def stage : Phase → Nat
  | waiting | refused | granted => 0
  | ended .. => 2
  | _ => 1

/-- What the table shows of a job in a phase, by the job when it was queued. -/
def shown (queued : Job) : Phase → Job
  | waiting | refused | granted => queued
  | ended result _ => (queued.start.1.finish result).1
  | _ => queued.start.1

end Phase

namespace Task

/-- The job of the task when it was queued. -/
def queued (t : Task) : Job := Job.new t.job.id t.job.language t.job.fingerprint

/-- The table shows what the phase says. -/
def IsShown (t : Task) : Prop := t.job = t.phase.shown t.queued

end Task

namespace Compiler

variable {c c' d : Compiler} {i : Nat} {t t' : Task} {k : Ticket} {e : Event}

theorem queued_eq (h : t'.ticket = t.ticket) : t'.queued = t.queued := by
  have hid : t'.job.id = t.job.id := congrArg Ticket.id h
  have hlanguage : t'.job.language = t.job.language := congrArg Ticket.language h
  have hfingerprint : t'.job.fingerprint = t.job.fingerprint := congrArg Ticket.fingerprint h
  rw [Task.queued, hid, hlanguage, hfingerprint]
  rfl

theorem Turn.shown (h : c.Turn i t e t' d) (ht : t.IsShown) : t'.IsShown := by
  unfold Task.IsShown at ht ⊢
  rw [queued_eq h.ticket]
  cases h with
  | left => exact ht
  | givenUp hp | started hp =>
    rw [hp] at ht
    exact congrArg (fun job => job.start.1) ht
  | @finished result failure hp =>
    rw [hp] at ht
    exact congrArg (fun job => (job.finish { result with job := some t.job.id }).1) ht
  | @taken run outcome hp hc _ =>
    rw [hp] at ht
    rcases outcome with failure | out
    · exact ht
    · show t.job = (if c.options.cacheEnabled then Phase.keeping _ else .ending _ _).shown t.queued
      split <;> exact ht
  | abandoned hp _ =>
    rcases hp with hp | ⟨run, hp⟩ <;> rw [hp] at ht <;> exact ht
  | refused hp _ | granted hp _ | hit hp _ | missed hp _ | dispatched hp | answered _ hp _
  | timedOut hp | kept hp => rw [hp] at ht; exact ht

/-! ### Results in phases -/

theorem Kept.mono {fingerprint : Fingerprint} {result : CompileResult}
    (h : c.tickets <+: c'.tickets) (hr : c.Kept fingerprint result) :
    c'.Kept fingerprint result := by
  obtain ⟨k, hk, rest⟩ := hr
  exact ⟨k, h.mem hk, rest⟩

theorem Fits.mono {result : CompileResult} {failure : Option Failure}
    (h : c.tickets <+: c'.tickets) (ho : c'.options = c.options) (hr : c.Fits k result failure) :
    c'.Fits k result failure := by
  cases hr with
  | made hr => exact .made hr
  | cached on hr => exact .cached (ho ▸ on) (hr.mono h)
  | failed hf => exact .failed hf

theorem PhaseSound.mono {phase : Phase} (h : c.tickets <+: c'.tickets)
    (ho : c'.options = c.options) (hp : c.PhaseSound k phase) : c'.PhaseSound k phase := by
  cases phase with
  | ending => exact Fits.mono h ho hp
  | ended =>
    obtain ⟨plain, fits, rest⟩ := hp
    exact ⟨plain, fits.mono h ho, rest⟩
  | _ => exact hp

/-- **The invariant** of a compiler at work. -/
structure Sound (c : Compiler) : Prop where
  ticket : ∀ (i : Nat) (k : Ticket), c.tickets[i]? = some k → k.id = jobId i ∧
    k.fingerprint = k.input.fingerprint k.language ∧
    c.backends.find? k.language = some k.backend
  task : ∀ (i : Nat) (t : Task), c.tasks[i]? = some t → t.IsShown ∧ c.PhaseSound t.ticket t.phase
  cache : ∀ entry ∈ c.cache, c.Kept entry.1 entry.2
  worker : ∀ w ∈ c.workers, ∃ k, c.tickets[w.task]? = some k ∧
    ∃ n, w.run = k.backend.run n k.input

theorem getElem?_tickets (ht : c.tasks[i]? = some t) : c.tickets[i]? = some t.ticket := by
  rw [tickets, List.getElem?_map, ht]
  rfl

theorem kept_of_cached (hc : c.Sound) {fingerprint : Fingerprint} {result : CompileResult}
    (h : c.cached? fingerprint = some result) :
    c.options.cacheEnabled = true ∧ c.Kept fingerprint result := by
  unfold cached? at h
  split_ifs at h with on
  obtain ⟨entry, hentry, rfl⟩ := Option.map_eq_some_iff.1 h
  have same : entry.1 = fingerprint := by simpa using List.find?_some hentry
  exact ⟨on, same ▸ hc.cache entry (List.mem_of_find?_eq_some hentry)⟩

theorem mayFail_of_conclude {run : Run} {failure : Failure} (n : Nat)
    (hrun : run = k.backend.run n k.input) (h : run.conclude = some (.error failure)) :
    k.MayFail failure := Or.inr (Or.inr ⟨n, hrun ▸ h⟩)

/-- A turn leads to a phase whose results are sound. -/
theorem Turn.phaseSound (h : c.Turn i t e t' d) (ht : c.tasks[i]? = some t) (hc : c.Sound) :
    c.PhaseSound t.ticket t'.phase := by
  have hphase := (hc.task i t ht).2
  cases h with
  | refused | granted | started | missed | dispatched => trivial
  | left => exact hphase
  | givenUp => exact .failed (Or.inl rfl)
  | abandoned => exact .failed (Or.inl rfl)
  | timedOut => exact .failed (Or.inr (Or.inl ⟨_, rfl⟩))
  | hit _ hcached =>
    obtain ⟨on, kept⟩ := kept_of_cached hc hcached
    exact .cached on kept
  | @answered w hw _ _ =>
    obtain ⟨k, hk, n, hrun⟩ := hc.worker w (List.mem_of_find?_eq_some hw)
    have own : w.task = i := by simpa using List.find?_some hw
    obtain rfl : k = t.ticket := Option.some.inj (hk.symm.trans (own ▸ getElem?_tickets ht))
    exact ⟨n, hrun⟩
  | @taken run outcome hp hconclude _ =>
    rw [hp] at hphase
    obtain ⟨n, hrun⟩ := hphase
    rcases outcome with failure | out
    · exact .failed (mayFail_of_conclude n hrun hconclude)
    · have makes : t.ticket.Makes (t.successResult out) := ⟨n, out, hrun ▸ hconclude, rfl⟩
      show c.PhaseSound t.ticket (if c.options.cacheEnabled then Phase.keeping _ else .ending _ _)
      split
      · exact makes
      · exact .made makes
  | kept hp =>
    rw [hp] at hphase
    exact .made hphase
  | finished hp =>
    rw [hp] at hphase
    exact ⟨_, hphase, rfl⟩

theorem sound_new (backends : Backends) (options : CompilerOptions) :
    (new backends options).Sound where
  ticket := by rintro i k ⟨⟩
  task := by rintro i t ⟨⟩
  cache := by rintro entry ⟨⟩
  worker := by rintro w ⟨⟩

/-- **Every event keeps the invariant.** -/
theorem Does.sound (h : c.Does e c') (hc : c.Sound) : c'.Sound where
  ticket i k hk := by
    cases h with
    | @enqueued request language input backend hb =>
      rw [tickets_enqueue] at hk
      rcases getElem?_concat.1 hk with hk | ⟨rfl, rfl⟩
      · exact hc.ticket i k hk
      · refine ⟨?_, rfl, hb⟩
        rw [tickets, List.length_map]
        rfl
    | turned ht hturn =>
      rw [tickets_set ht hturn.ticket] at hk
      obtain ⟨-, hbackends, -⟩ := hturn.frame
      exact hbackends ▸ hc.ticket i k hk
    | _ => exact hc.ticket i k hk
  task i t' ht' := by
    rcases h.task_after ht' with ⟨t, ht, rfl | ⟨d, hturn⟩⟩ |
      ⟨request, language, input, backend, -, -, -, rfl⟩
    · obtain ⟨shown, sound⟩ := hc.task i t' ht
      exact ⟨shown, sound.mono h.tickets_prefix h.frame.2⟩
    · refine ⟨hturn.shown (hc.task i t ht).1, ?_⟩
      rw [hturn.ticket]
      exact (hturn.phaseSound ht hc).mono h.tickets_prefix h.frame.2
    · exact ⟨rfl, trivial⟩
  cache entry hentry := by
    rcases h.cache with same | ⟨-, nil⟩ | ⟨i, t, result, -, ht, hp, stored⟩
    · exact (hc.cache entry (same ▸ hentry)).mono h.tickets_prefix
    · rw [nil] at hentry
      cases hentry
    · rw [stored] at hentry
      rcases List.mem_cons.1 hentry with rfl | old
      · have makes := (hc.task i t ht).2
        rw [hp] at makes
        have member := List.mem_of_getElem? (getElem?_tickets ht)
        exact ⟨t.ticket, h.tickets_prefix.mem member, rfl, makes⟩
      · exact (hc.cache entry (List.mem_filter.1 old).1).mono h.tickets_prefix
  worker w hw := by
    rcases h.worker hw with old | ⟨t, ht, hrun⟩
    · obtain ⟨k, hk, n, hrun⟩ := hc.worker w old
      exact ⟨k, h.ticket_after hk, n, hrun⟩
    · exact ⟨t.ticket, h.ticket_after (getElem?_tickets ht), _, hrun⟩

theorem Sound.run (hc : c.Sound) {es : List Event} (h : c.run es = some c') : c'.Sound :=
  run_induction (fun _ _ _ _ hc hdoes => hdoes.sound hc) h hc

/-- **The invariant holds after every run** of a new compiler. -/
theorem run_sound {backends : Backends} {options : CompilerOptions} {es : List Event}
    (h : (new backends options).run es = some c) : c.Sound :=
  (sound_new backends options).run h

end Compiler

end SchemaDepot
