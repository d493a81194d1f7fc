import SchemaDepot.Job.Basic

/-! # Operations on a job

A job is started, moved and finished in any order, and whatever does not fit its stage is refused.

* `JobOperation.apply_of_move`, `JobOperation.apply_of_refusal`: an operation moves the job or is
  refused; either way a result that is offered leaves word whether it came from the cache.
* `Job.IsStaged`: a job has gone through the stages that lead to its own; `Job.isStaged_after`: this
  holds after any operations.
* `JobOperation.Acts`: all that an operation does; `Job.after_acts`: this is so for every job that
  operations lead to.
* `Job.finish_refused_noted`: a refusal may leave the job changed. -/

namespace SchemaDepot

/-- What can be asked of a job. -/
inductive JobOperation where
  | start
  | transition (target : JobStatus)
  | finish (result : CompileResult)
deriving DecidableEq

/-- The stages that a job in this one has gone through. -/
def JobStatus.path : JobStatus → List JobStatus
  | pending => [pending]
  | running => [pending, running]
  | completed => [pending, running, completed]
  | failed => [pending, running, failed]

namespace JobOperation

/-- The job after an operation, and whether that was refused. -/
def apply (job : Job) : JobOperation → Job × Except Error Unit
  | start => job.start
  | transition target => job.transition target
  | finish r => job.finish r

/-- The stage that an operation is to lead to. -/
def target : JobOperation → JobStatus
  | start => .running
  | transition target => target
  | finish r => Job.finalStatus r

/-- Whether the result comes from the cache, as far as the job knows then. -/
def cacheHit (job : Job) : JobOperation → Bool
  | finish r => r.cacheHit
  | _ => job.cacheHit

/-- The result that the job has when it has moved. -/
def result? (job : Job) : JobOperation → Option CompileResult
  | finish r => some r
  | _ => job.result

end JobOperation

/-- The job after operations, some of which may have been refused. -/
def Job.after (job : Job) (operations : List JobOperation) : Job :=
  operations.foldl (fun job o => (o.apply job).1) job

/-! ### One operation -/

namespace JobOperation

variable {job : Job} {o : JobOperation}

/-- **An operation for which there is a move** takes the job along. -/
theorem apply_of_move (h : job.status.canMoveTo o.target = true) : o.apply job =
    ({ job.moved o.target with cacheHit := o.cacheHit job, result := o.result? job }, .ok ()) := by
  cases o <;>
    simp only [apply, Job.start, Job.finish, Job.transition, target] at h ⊢ <;>
    simp only [h, if_true] <;> rfl

/-- **An operation for which there is none** is refused. -/
theorem apply_of_refusal (h : job.status.canMoveTo o.target = false) : o.apply job =
    ({ job with cacheHit := o.cacheHit job }, .error (job.refusal o.target)) := by
  cases o <;>
    simp only [apply, Job.start, Job.finish, Job.transition, target] at h ⊢ <;>
    simp only [h, Bool.false_eq_true, if_false] <;> rfl

end JobOperation

/-! ### Stages -/

/-- A move goes one stage on. -/
theorem JobStatus.path_of_canMoveTo {current target : JobStatus}
    (h : current.canMoveTo target = true) : target.path = current.path ++ [target] := by
  cases current <;> cases target <;> cases h <;> rfl

/-- A job that moves has not ended. -/
theorem JobStatus.not_isTerminal_of_canMoveTo {current target : JobStatus}
    (h : current.canMoveTo target = true) : current.isTerminal = false := by
  cases current <;> cases target <;> cases h <;> rfl

/-- No job is made to wait again. -/
theorem JobStatus.ne_pending_of_canMoveTo {current target : JobStatus}
    (h : current.canMoveTo target = true) : target ≠ .pending := by
  cases current <;> cases target <;> cases h <;> decide

/-- A job runs when it has waited before. -/
theorem JobStatus.eq_running_iff_of_canMoveTo {current target : JobStatus}
    (h : current.canMoveTo target = true) : target = .running ↔ current = .pending := by
  cases current <;> cases target <;> cases h <;> decide

/-- **A job has gone through the stages that lead to its own**, and the rest of it goes with
that. -/
structure Job.IsStaged (job : Job) : Prop where
  history : job.history = job.status.path
  started : job.started = true ↔ job.status ≠ .pending
  completed : job.completed = true ↔ job.status.isTerminal = true
  result : ∀ r, job.result = some r → job.status = finalStatus r

namespace Job

variable {job : Job} {o : JobOperation}

theorem isStaged_new (id language : String) (fingerprint : Fingerprint) :
    (new id language fingerprint).IsStaged where
  history := rfl
  started := by simp [new]
  completed := by simp [new, JobStatus.isTerminal]
  result := by rintro r ⟨⟩

/-- A job that is refused something has still gone through the stages that lead to its own. -/
theorem IsStaged.noted (h : job.IsStaged) (cacheHit : Bool) : { job with cacheHit }.IsStaged :=
  ⟨h.history, h.started, h.completed, h.result⟩

/-- A job that moves goes one stage on. -/
theorem IsStaged.moved (h : job.IsStaged) (hmove : job.status.canMoveTo o.target = true) :
    { job.moved o.target with
      cacheHit := o.cacheHit job, result := o.result? job }.IsStaged where
  history := by
    show job.history ++ [o.target] = o.target.path
    rw [h.history, JobStatus.path_of_canMoveTo hmove]
  started := by
    show (job.started || o.target == .running) = true ↔ o.target ≠ .pending
    refine iff_of_true ?_ (JobStatus.ne_pending_of_canMoveTo hmove)
    -- A job that does not wait has started, and one that waits starts now.
    rw [Bool.or_eq_true, h.started, beq_iff_eq, JobStatus.eq_running_iff_of_canMoveTo hmove]
    exact (Classical.em _).symm
  completed := by
    show (job.completed || o.target.isTerminal) = true ↔ o.target.isTerminal = true
    have unended : job.completed = false := by
      rw [Bool.eq_false_iff, ne_eq, h.completed]
      exact Bool.eq_false_iff.1 (JobStatus.not_isTerminal_of_canMoveTo hmove)
    rw [unended, Bool.false_or]
  result r hr := by
    cases o with
    | finish r' =>
      cases hr
      rfl
    | start | transition =>
      -- A job with a result has ended, and so cannot move.
      have ended := h.result r hr
      rw [ended] at hmove
      unfold finalStatus at hmove
      split at hmove <;> cases hmove

theorem IsStaged.apply (h : job.IsStaged) (o : JobOperation) : (o.apply job).1.IsStaged := by
  cases hmove : job.status.canMoveTo o.target with
  | true =>
    rw [JobOperation.apply_of_move hmove]
    exact h.moved hmove
  | false =>
    rw [JobOperation.apply_of_refusal hmove]
    exact h.noted _

/-- **After any operations a job has gone through the stages that lead to its own.** -/
theorem isStaged_after (id language : String) (fingerprint : Fingerprint)
    (operations : List JobOperation) : ((new id language fingerprint).after operations).IsStaged :=
  List.foldlRecOn operations _ (isStaged_new id language fingerprint) fun _ h o _ => h.apply o

end Job

/-! ### All that an operation does -/

/-- **All that an operation does to a job.** -/
structure JobOperation.Acts (o : JobOperation) (job : Job) : Prop where
  /-- It is refused just if there is no such move. -/
  refused_iff : (∃ e, (o.apply job).2 = .error e) ↔ job.status.canMoveTo o.target = false
  /-- A refusal tells the move. It leaves the job as it was, but for the word whether the result
  that was offered came from the cache. -/
  refused : ∀ e, (o.apply job).2 = .error e →
    e = .invalidTransition job.id job.status o.target ∧
    (o.apply job).1 = { job with cacheHit := o.cacheHit job }
  /-- So it leaves the job unchanged just if that is no news. -/
  unchanged_iff : ∀ e, (o.apply job).2 = .error e →
    ((o.apply job).1 = job ↔ o.cacheHit job = job.cacheHit)
  /-- Otherwise the job goes one stage on, which is then its own. -/
  moved : (o.apply job).2 = .ok () → job.status.canMoveTo o.target = true ∧
    (o.apply job).1.history = job.history ++ [o.target] ∧ (o.apply job).1.status = o.target ∧
    (o.apply job).1.history.getLast? = some (o.apply job).1.status
  /-- It keeps its name and what it is to do, and has the result that was offered. -/
  kept : (o.apply job).2 = .ok () → (o.apply job).1.id = job.id ∧
    (o.apply job).1.language = job.language ∧ (o.apply job).1.fingerprint = job.fingerprint ∧
    (o.apply job).1.cacheHit = o.cacheHit job ∧ (o.apply job).1.result = o.result? job
  /-- It has gone through the stages that lead to its own. -/
  staged : (o.apply job).1.IsStaged

namespace Job

/-- **Operations on a job**, whatever was asked of it before: one that is refused changes nothing
but for the word on the cache, and one that is not takes the job one stage on. -/
theorem after_acts (id language : String) (fingerprint : Fingerprint)
    (operations : List JobOperation) (o : JobOperation) :
    o.Acts ((new id language fingerprint).after operations) := by
  have staged := isStaged_after id language fingerprint operations
  generalize (new id language fingerprint).after operations = job at staged
  cases hmove : job.status.canMoveTo o.target with
  | true =>
    have eq := JobOperation.apply_of_move hmove
    constructor
    case refused_iff => simp [eq, hmove]
    case refused | unchanged_iff =>
      rw [eq]
      rintro e ⟨⟩
    case moved =>
      rw [eq]
      exact fun _ => ⟨hmove, rfl, rfl, List.getLast?_concat⟩
    case kept =>
      rw [eq]
      exact fun _ => ⟨rfl, rfl, rfl, rfl, rfl⟩
    case staged => exact staged.apply o
  | false =>
    have eq := JobOperation.apply_of_refusal hmove
    constructor
    case refused_iff => simp [eq, hmove]
    case refused =>
      rw [eq]
      rintro e ⟨⟩
      exact ⟨rfl, rfl⟩
    case unchanged_iff =>
      rw [eq]
      rintro e ⟨⟩
      exact ⟨fun same => congrArg Job.cacheHit same, fun same => by rw [same]⟩
    case moved | kept =>
      rw [eq]
      rintro ⟨⟩
    case staged => exact staged.apply o

/-- **A refusal may leave the job changed**: a job that waits is offered a result from the cache. -/
theorem finish_refused_noted : ¬ ∀ (id language : String) (fingerprint : Fingerprint)
    (operations : List JobOperation) (o : JobOperation) (e : Error),
    (o.apply ((new id language fingerprint).after operations)).2 = .error e →
    (o.apply ((new id language fingerprint).after operations)).1 =
      (new id language fingerprint).after operations := by
  intro h
  have same := h "job-1" "go" ⟨""⟩ []
    (.finish { CompileResult.succeeded "go" [] [] with cacheHit := true }) _ rfl
  exact absurd same (by decide)

end Job

end SchemaDepot
