import SchemaDepot.Proofs.Compile.Sound

/-! # Jobs that the table shows

* `Job.IsConsistent`: the stages of a job, its times and its result go together.
* `Job.Precedes`: a job later on; it never leaves the stage in which it ended.
* `Sound.consistent`, `Turn.job`: every job in the table is consistent, and moves one stage at a
  time. -/

namespace SchemaDepot

/-- **A job as it may be shown**: its stages are those of a job so far, and the rest of it goes with
the last of them. -/
structure Job.IsConsistent (job : Job) : Prop where
  history : job.history <+: [.pending, .running, .completed] ∨
    job.history <+: [.pending, .running, .failed]
  status : job.history.getLast? = some job.status
  started : job.started = true ↔ .running ∈ job.history
  completed : job.completed = true ↔ job.status.isTerminal = true
  result : job.result.isSome = true ↔ job.status.isTerminal = true
  success : ∀ r, job.result = some r → (job.status = .completed ↔ r.success = true)
  own : ∀ r, job.result = some r → r.job = some job.id ∧ job.cacheHit = r.cacheHit

/-- **A job and the same job later.** Once it has ended, nothing of it changes. -/
structure Job.Precedes (job later : Job) : Prop where
  id : later.id = job.id
  language : later.language = job.language
  fingerprint : later.fingerprint = job.fingerprint
  history : job.history <+: later.history
  ended : job.status.isTerminal = true → later = job

namespace Job

theorem Precedes.refl (job : Job) : job.Precedes job :=
  ⟨rfl, rfl, rfl, List.prefix_refl _, fun _ => rfl⟩

theorem Precedes.trans {job job' job'' : Job} (h : job.Precedes job') (h' : job'.Precedes job'') :
    job.Precedes job'' where
  id := h'.id.trans h.id
  language := h'.language.trans h.language
  fingerprint := h'.fingerprint.trans h.fingerprint
  history := h.history.trans h'.history
  ended hterminal := by
    obtain rfl := h.ended hterminal
    exact h'.ended hterminal

/-! ### The three looks of a job -/

section Looks
variable (id language : String) (fingerprint : Fingerprint) (r : CompileResult)

theorem start_new : (Job.new id language fingerprint).start.1 =
    { id, language, fingerprint, status := .running, history := [.pending, .running],
      started := true } := rfl

theorem running_canMoveTo_final : JobStatus.running.canMoveTo (finalStatus r) = true := by
  unfold finalStatus
  split <;> rfl

theorem finalStatus_isTerminal : (finalStatus r).isTerminal = true := by
  unfold finalStatus
  split <;> rfl

theorem finish_start_new : ((Job.new id language fingerprint).start.1.finish r).1 =
    { id, language, fingerprint, status := finalStatus r,
      history := [.pending, .running, finalStatus r], started := true, completed := true,
      cacheHit := r.cacheHit, result := some r } := by
  rw [start_new]
  simp only [finish, transition, running_canMoveTo_final, if_true, moved, finalStatus_isTerminal]
  rfl

theorem new_isConsistent : (Job.new id language fingerprint).IsConsistent := by
  constructor <;> simp [Job.new, JobStatus.isTerminal]

theorem running_isConsistent : (Job.new id language fingerprint).start.1.IsConsistent := by
  rw [start_new]
  constructor <;> simp [JobStatus.isTerminal]

variable {id language fingerprint r}

theorem finished_isConsistent (hsuccess : finalStatus r = .completed ↔ r.success = true)
    (hjob : r.job = some id) :
    ((Job.new id language fingerprint).start.1.finish r).1.IsConsistent := by
  rw [finish_start_new]
  have hfinal : finalStatus r = .completed ∨ finalStatus r = .failed := by
    unfold finalStatus
    split <;> simp
  constructor
  · rcases hfinal with h | h <;> rw [h]
    · exact Or.inl (List.prefix_refl _)
    · exact Or.inr (List.prefix_refl _)
  · rfl
  · simp
  · simp [finalStatus_isTerminal]
  · simp [finalStatus_isTerminal]
  · rintro r' ⟨⟩
    exact hsuccess
  · rintro r' ⟨⟩
    exact ⟨hjob, rfl⟩

end Looks

end Job

namespace Compiler

variable {c c' d : Compiler} {i : Nat} {t t' : Task} {k : Ticket} {e : Event}

/-! ### What jobs end with -/

/-- A job ends completed if and only if its result is a success. -/
theorem Fits.finalStatus {result : CompileResult} {failure : Option Failure}
    (h : c.Fits k result failure) (job : Option String) :
    Job.finalStatus { result with job } = .completed ↔ result.success = true := by
  cases h with
  | made hr =>
    obtain ⟨n, out, -, rfl⟩ := hr
    simp [Job.finalStatus, CompileResult.status, Ticket.success, CompileResult.succeeded,
      CompileResult.status.ofSuccess]
  | cached _ hr =>
    obtain ⟨k', -, -, n, out, -, rfl⟩ := hr
    simp [Job.finalStatus, CompileResult.status, Ticket.success, CompileResult.succeeded,
      CompileResult.status.ofSuccess]
  | @failed failure _ =>
    have never : Job.finalStatus { CompileResult.failed k.language failure.message with job } =
        .failed := by
      simp only [Job.finalStatus, CompileResult.status, CompileResult.failed,
        CompileResult.status.ofSuccess]
      split_ifs <;> simp_all
    rw [never]
    simp [CompileResult.failed]

/-- The result of a job names its language. One from the cache could name another language only if
a job for that had the same fingerprint. -/
theorem Fits.language {result : CompileResult} {failure : Option Failure}
    (h : c.Fits k result failure) : result.language = k.language ∨ result.cacheHit = true ∧
      ∃ k' ∈ c.tickets, k'.fingerprint = k.fingerprint ∧ k'.language = result.language := by
  cases h with
  | made hr =>
    obtain ⟨n, out, -, rfl⟩ := hr
    exact Or.inl rfl
  | cached _ hr =>
    obtain ⟨k', hk', hfingerprint, n, out, -, rfl⟩ := hr
    exact Or.inr ⟨rfl, k', hk', hfingerprint, rfl⟩
  | failed => exact Or.inl rfl

/-! ### Jobs of a sound compiler -/

/-- **Every job in the table is consistent.** -/
theorem Sound.consistent (hc : c.Sound) (ht : c.tasks[i]? = some t) : t.job.IsConsistent := by
  obtain ⟨shown, sound⟩ := hc.task i t ht
  rw [shown]
  cases hp : t.phase with
  | ended result failure =>
    rw [hp] at sound
    obtain ⟨plain, fits, rfl⟩ := sound
    exact Job.finished_isConsistent (fits.finalStatus _) rfl
  | waiting | refused | granted => exact Job.new_isConsistent _ _ _
  | _ => exact Job.running_isConsistent _ _ _

/-- What a job ended with, it ended with in a way that fits. -/
theorem Sound.result (hc : c.Sound) (ht : c.tasks[i]? = some t) {r : CompileResult}
    (hr : t.job.result = some r) : ∃ plain failure, c.Fits t.ticket plain failure ∧
      t.phase = .ended r failure ∧ r = { plain with job := some t.job.id } := by
  obtain ⟨shown, sound⟩ := hc.task i t ht
  rw [shown] at hr
  cases hp : t.phase with
  | ended result failure =>
    rw [hp] at sound hr
    obtain ⟨plain, fits, heq⟩ := sound
    have : (Job.new _ _ _).start.1.finish result |>.1.result = some r := hr
    rw [Job.finish_start_new] at this
    cases this
    exact ⟨plain, failure, fits, rfl, heq⟩
  | _ => rw [hp] at hr; cases hr

/-- **A turn moves the job by one stage or leaves it as it is.** -/
theorem Turn.job (h : c.Turn i t e t' d) (ht : t.IsShown) : t'.job = t.job ∨
    t.job.status.canMoveTo t'.job.status = true ∧ t.job.history <+: t'.job.history := by
  unfold Task.IsShown at ht
  cases h with
  | givenUp hp | started hp =>
    rw [hp] at ht
    refine Or.inr ?_
    rw [ht]
    exact ⟨rfl, [.running], rfl⟩
  | @finished result failure hp =>
    rw [hp] at ht
    have running : t.job = (Job.new t.job.id t.job.language t.job.fingerprint).start.1 := ht
    refine Or.inr ?_
    show t.job.status.canMoveTo
        (t.job.finish { result with job := some t.job.id }).1.status = true ∧
      t.job.history <+: (t.job.finish { result with job := some t.job.id }).1.history
    rw [running, Job.finish_start_new, Job.start_new]
    exact ⟨Job.running_canMoveTo_final _, [_], rfl⟩
  | _ => exact Or.inl rfl

theorem Turn.precedes (h : c.Turn i t e t' d) (ht : t.IsShown) : t.job.Precedes t'.job where
  id := congrArg Ticket.id h.ticket
  language := congrArg Ticket.language h.ticket
  fingerprint := congrArg Ticket.fingerprint h.ticket
  history := by
    rcases h.job ht with same | ⟨-, before⟩
    · exact same ▸ List.prefix_refl _
    · exact before
  ended hterminal := by
    rcases h.job ht with same | ⟨moves, -⟩
    · exact same
    · cases hstatus : t.job.status <;> rw [hstatus] at hterminal moves <;> cases hterminal <;>
        cases moves

end Compiler

end SchemaDepot
