import SchemaDepot.Digest.Fingerprint
import SchemaDepot.Error

/-! # Jobs

A job is the work of one language for one request.

* `CompileResult`: what a job ends with.
* `Job.start`, `Job.finish`, `Job.transition`: the moves of a job; a move that does not exist is
  refused. -/

namespace SchemaDepot

/-- What became of a compilation: files, or an error. -/
structure CompileResult where
  job : Option String := none
  language : String
  success : Bool
  files : List TextFile := []
  packageFiles : List TextFile := []
  cacheHit : Bool := false
  error : Option String := none
  artifact : Option String := none
deriving DecidableEq

namespace CompileResult

/-- A compilation that gave files. -/
def succeeded (language : String) (files packageFiles : List TextFile) : CompileResult :=
  { language, success := true, files, packageFiles }

/-- A compilation that ended with an error. -/
def failed (language error : String) : CompileResult :=
  { language, success := false, error := some error }

/-- The stage that a result stands for: an error means failed, success completed, and neither that
the work still goes on. -/
def status (r : CompileResult) : JobStatus :=
  match r.error with
  | some error => if error.isEmpty then ofSuccess r.success else .failed
  | none => ofSuccess r.success
where
  /-- The stage without an error. -/
  ofSuccess (success : Bool) : JobStatus := if success then .completed else .running

end CompileResult

/-- A job: what it is to do, the stages it went through, and the result it ended with. -/
structure Job where
  id : String
  language : String
  fingerprint : Fingerprint
  status : JobStatus := .pending
  history : List JobStatus := [.pending]
  started : Bool := false
  completed : Bool := false
  cacheHit : Bool := false
  result : Option CompileResult := none
deriving DecidableEq

namespace Job

/-- A job that waits. -/
def new (id language : String) (fingerprint : Fingerprint) : Job := { id, language, fingerprint }

/-- The job after a move, whether that exists or not. -/
def moved (job : Job) (target : JobStatus) : Job :=
  { job with
    status := target
    history := job.history ++ [target]
    started := job.started || target == .running
    completed := job.completed || target.isTerminal }

/-- The error of a move that does not exist. -/
def refusal (job : Job) (target : JobStatus) : Error :=
  .invalidTransition job.id job.status target

/-- Moves the job if the move exists; says why not otherwise, the job being unchanged. -/
def transition (job : Job) (target : JobStatus) : Job × Except Error Unit :=
  if job.status.canMoveTo target then (job.moved target, .ok ())
  else (job, .error (job.refusal target))

/-- Moves the job to running. -/
def start (job : Job) : Job × Except Error Unit := job.transition .running

/-- The stage in which a job with this result ends: whatever is not completed has failed. -/
def finalStatus (r : CompileResult) : JobStatus :=
  if r.status = .completed then .completed else .failed

/-- Ends the job with a result. Whether that came from the cache is noted in any case. -/
def finish (job : Job) (r : CompileResult) : Job × Except Error Unit :=
  let noted := { job with cacheHit := r.cacheHit }
  match noted.transition (finalStatus r) with
  | (job, .ok ()) => ({ job with result := some r }, .ok ())
  | (job, .error e) => (job, .error e)

end Job

end SchemaDepot
