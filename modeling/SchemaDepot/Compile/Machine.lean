import SchemaDepot.Compile.Failure

/-! # The compiler as a machine

A compiler keeps a table of jobs, a cache of results, and permits for the generators that run at
once. Jobs of any number of requests go through their phases side by side: which of them takes its
next step is left open.

* `Event`: a step of one job, or of the world around it.
* `Compiler.step`: what an event does; nothing, if it cannot happen.
* `Compiler.run`: many events. -/

namespace SchemaDepot

/-- How many generators may run at once, how long one may take in microseconds, and whether results
are kept. -/
structure CompilerOptions where
  maxConcurrency : Nat
  timeout : Nat
  cacheEnabled : Bool
deriving DecidableEq

/-- The phases of a job at work. -/
inductive Phase where
  /-- It waits for a permit. -/
  | waiting
  /-- It was cancelled before it got a permit. -/
  | refused
  /-- It got a permit. -/
  | granted
  /-- It is noted as running, and looks into the cache next. -/
  | ready
  /-- The cache did not help. -/
  | missed
  /-- Its generator runs. -/
  | executing
  /-- Its generator has ended. -/
  | answered (run : Run)
  /-- It is about to put its result into the cache. -/
  | keeping (result : CompileResult)
  /-- It is about to end. -/
  | ending (result : CompileResult) (failure : Option Failure)
  /-- It has ended. -/
  | ended (result : CompileResult) (failure : Option Failure)
deriving DecidableEq

/-- A job as the table shows it, and what only those who work on it know. -/
structure Task where
  job : Job
  request : Nat
  backend : Backend
  input : GeneratorInput
  phase : Phase := .waiting

/-- A generator that runs, for the task at a place; it holds a permit until it ends. -/
structure Worker where
  task : Nat
  run : Run
deriving DecidableEq

/-- A compiler at work. -/
structure Compiler where
  backends : Backends
  options : CompilerOptions
  tasks : List Task := []
  cache : List (Fingerprint × CompileResult) := []
  calls : List String := []
  workers : List Worker := []
  free : Nat
  requests : Nat := 0
  cancelled : List Nat := []

/-- What can happen. The numbers are places of tasks, apart from those of requests. -/
inductive Event where
  /-- A request comes. -/
  | open
  /-- A job for a language is queued. -/
  | enqueue (request : Nat) (language : String) (input : GeneratorInput)
  /-- A request is cancelled. -/
  | cancel (request : Nat)
  /-- A waiting job of a cancelled request gives up. -/
  | refuse (task : Nat)
  /-- A waiting job takes a permit, unless its request was cancelled. -/
  | acquire (task : Nat)
  /-- A job is noted as running. -/
  | start (task : Nat)
  /-- A job looks into the cache. -/
  | lookUp (task : Nat)
  /-- A job calls its generator. -/
  | dispatch (task : Nat)
  /-- A generator ends, by itself or because nobody waits for it any more. -/
  | workerEnds (task : Nat)
  /-- A job takes what its generator gave, unless its request was cancelled. -/
  | take (task : Nat)
  /-- A job has waited too long for its generator, and its request was not cancelled. -/
  | timeOut (task : Nat)
  /-- A job of a cancelled request turns away from its generator. -/
  | abandon (task : Nat)
  /-- A job puts its result into the cache. -/
  | keep (task : Nat)
  /-- A job is noted as ended. -/
  | finish (task : Nat)
  /-- The cache is emptied. -/
  | clear
deriving DecidableEq

namespace Compiler

/-- A compiler without jobs. At least one generator may run. -/
def new (backends : Backends) (options : CompilerOptions) : Compiler :=
  { backends, options, free := max 1 options.maxConcurrency }

/-! ### Reading -/

/-- The table of jobs, in the order of queueing. -/
def jobs (c : Compiler) : List Job := c.tasks.map Task.job

/-- The job with an identifier. -/
def getStatus (c : Compiler) (id : String) : Except Error Job :=
  match c.jobs.find? (·.id == id) with
  | some job => .ok job
  | none => .error (.jobNotFound id)

/-- The cached result of a fingerprint. -/
def cached? (c : Compiler) (fingerprint : Fingerprint) : Option CompileResult :=
  if c.options.cacheEnabled then (c.cache.find? (·.1 == fingerprint)).map Prod.snd else none

/-- The identifier of the job that is queued after `n` others. -/
def jobId (n : Nat) : String := "job-" ++ toString (n + 1)

/-- A task's request was cancelled. -/
def isCancelled (c : Compiler) (t : Task) : Bool := c.cancelled.contains t.request

/-! ### Writing -/

/-- The compiler with a change to the task at a place. -/
def update (c : Compiler) (i : Nat) (f : Task → Task) : Compiler :=
  { c with tasks := c.tasks.modify i f }

/-- The compiler with the task at a place in another phase. -/
def toPhase (c : Compiler) (i : Nat) (phase : Phase) : Compiler :=
  c.update i fun t => { t with phase }

/-- The compiler with a result in the cache, in place of one of the same fingerprint. -/
def store (c : Compiler) (fingerprint : Fingerprint) (result : CompileResult) : Compiler :=
  { c with cache := (fingerprint, result) :: c.cache.filter (·.1 != fingerprint) }

/-- The compiler with an empty cache. -/
def clearCache (c : Compiler) : Compiler := { c with cache := [] }

end Compiler

namespace Task

/-- The result of a job that failed. -/
def failedResult (t : Task) (failure : Failure) : CompileResult :=
  CompileResult.failed t.job.language failure.message

/-- The result of a job whose generator gave files. -/
def successResult (t : Task) (out : GeneratorOutput) : CompileResult :=
  { CompileResult.succeeded t.job.language out.files out.packageFiles with
    artifact := some (t.job.language ++ "/" ++ t.job.fingerprint.short) }

/-- The phase of a job that failed. -/
def failing (t : Task) (failure : Failure) : Phase :=
  .ending (t.failedResult failure) (some failure)

/-- The phase of a job that has taken what its generator gave. -/
def taking (t : Task) (cacheEnabled : Bool) : Except Failure GeneratorOutput → Phase
  | .ok out =>
    if cacheEnabled then .keeping (t.successResult out) else .ending (t.successResult out) none
  | .error failure => t.failing failure

end Task

namespace Compiler

/-- What an event does to the task `t` at the place `i`. -/
def stepTask (c : Compiler) (i : Nat) (t : Task) : Event → Option Compiler
  | .refuse _ =>
    match t.phase with
    | .waiting => if c.isCancelled t then some (c.toPhase i .refused) else none
    | _ => none
  | .acquire _ =>
    match t.phase with
    | .waiting =>
      if c.isCancelled t then none
      else if 0 < c.free then some { c.toPhase i .granted with free := c.free - 1 } else none
    | _ => none
  | .start _ =>
    match t.phase with
    | .refused =>
      some (c.update i fun t => { t with job := t.job.start.1, phase := t.failing .cancelled })
    | .granted => some (c.update i fun t => { t with job := t.job.start.1, phase := .ready })
    | _ => none
  | .lookUp _ =>
    match t.phase with
    | .ready =>
      match c.cached? t.job.fingerprint with
      | some result =>
        some { c.toPhase i (.ending { result with cacheHit := true } none) with free := c.free + 1 }
      | none => some (c.toPhase i .missed)
    | _ => none
  | .dispatch _ =>
    match t.phase with
    | .missed =>
      let run := t.backend.run (c.calls.count t.job.language) t.input
      some { c.toPhase i .executing with
        workers := c.workers ++ [⟨i, run⟩]
        calls := c.calls ++ [t.job.language] }
    | _ => none
  | .workerEnds _ =>
    match c.workers.find? (·.task == i) with
    | none => none
    | some w =>
      let left := { c with workers := c.workers.filter (·.task != i), free := c.free + 1 }
      match t.phase, w.run with
      | .executing, .never => none
      | .executing, run => some (left.toPhase i (.answered run))
      | _, _ => some left
  | .take _ =>
    match t.phase with
    | .answered run =>
      match run.conclude with
      | some outcome =>
        if c.isCancelled t then none
        else some (c.toPhase i (t.taking c.options.cacheEnabled outcome))
      | none => none
    | _ => none
  | .timeOut _ =>
    match t.phase with
    | .executing =>
      if c.isCancelled t then none
      else some (c.toPhase i (t.failing (.timedOut c.options.timeout)))
    | _ => none
  | .abandon _ =>
    match t.phase with
    | .executing | .answered _ =>
      if c.isCancelled t then some (c.toPhase i (t.failing .cancelled)) else none
    | _ => none
  | .keep _ =>
    match t.phase with
    | .keeping result => some ((c.store t.job.fingerprint result).toPhase i (.ending result none))
    | _ => none
  | .finish _ =>
    match t.phase with
    | .ending result failure =>
      let result := { result with job := some t.job.id }
      some (c.update i fun t =>
        { t with job := (t.job.finish result).1, phase := .ended result failure })
    | _ => none
  | _ => none

/-- The task that an event is about. -/
def taskOf : Event → Option Nat
  | .refuse i | .acquire i | .start i | .lookUp i | .dispatch i | .workerEnds i | .take i
  | .timeOut i | .abandon i | .keep i | .finish i => some i
  | _ => none

/-- The compiler with a job for a language that waits. -/
def enqueue (c : Compiler) (request : Nat) (language : String) (backend : Backend)
    (input : GeneratorInput) : Compiler :=
  let job := Job.new (jobId c.tasks.length) language (input.fingerprint language)
  { c with tasks := c.tasks ++ [{ job, request, backend, input }] }

/-- What an event does; nothing, if it cannot happen. -/
def step (c : Compiler) (e : Event) : Option Compiler :=
  match e with
  | .open => some { c with requests := c.requests + 1 }
  | .enqueue request language input =>
    (c.backends.find? language).map fun backend => c.enqueue request language backend input
  | .cancel request => some { c with cancelled := request :: c.cancelled }
  | .clear => some c.clearCache
  | e => do
    let i ← taskOf e
    let t ← c.tasks[i]?
    c.stepTask i t e

/-- What a row of events does; nothing, if one of them cannot happen. -/
def run (c : Compiler) : List Event → Option Compiler
  | [] => some c
  | e :: es => do (← c.step e).run es

end Compiler

end SchemaDepot
