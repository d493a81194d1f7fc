import SchemaDepot.Compile.Machine

/-! # Whole requests

One order in which the jobs of a request can go through their phases: each as far as it can, in the
order of the languages, then the first that is left waiting for its generator runs out of time.
Every step is an event of the machine.

* `Compiler.compileEach`: the results for several languages.
* `Compiler.compileAll`, `Compiler.compileSingle`: what a caller gets. -/

namespace SchemaDepot

/-- When a request is cancelled: never, before it starts, or when only generators that do not end
can go on. -/
inductive Cancellation where
  | never
  | before
  | stuck
deriving DecidableEq

namespace Compiler

/-- The event that takes the task at a place further, if it can go on by itself. -/
def next? (c : Compiler) (i : Nat) : Option Event := do
  let t ← c.tasks[i]?
  let worker := c.workers.find? (·.task == i)
  match t.phase with
  | .waiting =>
    if c.isCancelled t then some (.refuse i) else if 0 < c.free then some (.acquire i) else none
  | .refused | .granted => some (.start i)
  | .ready => some (.lookUp i)
  | .missed => some (.dispatch i)
  | .executing =>
    if c.isCancelled t then some (.abandon i)
    else if worker.any (·.run != .never) then some (.workerEnds i)
    else none
  | .answered _ => if c.isCancelled t then some (.abandon i) else some (.take i)
  | .keeping _ => some (.keep i)
  | .ending .. => some (.finish i)
  | .ended .. => if worker.isSome then some (.workerEnds i) else none

/-- The most events that one task goes through. -/
def maxEvents : Nat := 10

/-- The compiler after up to `n` events of the task at a place. -/
def advance (i : Nat) : Nat → Compiler → Compiler
  | 0, c => c
  | n + 1, c =>
    match c.next? i with
    | none => c
    | some e =>
      match c.step e with
      | none => c
      | some c => advance i n c

/-- The compiler when each of the tasks has gone as far as it can, in order. -/
def advanceAll (places : List Nat) (c : Compiler) : Compiler :=
  places.foldl (fun c i => advance i maxEvents c) c

/-- The task at a place waits for its generator. -/
def isExecuting (c : Compiler) (i : Nat) : Bool := (c.tasks[i]?).any (·.phase == .executing)

/-- The compiler when all of the tasks have ended, generators that do not end running out of time
one after the other; at most `n` do so. -/
def settle (places : List Nat) : Nat → Compiler → Compiler
  | 0, c => c
  | n + 1, c =>
    match places.find? c.isExecuting with
    | none => c
    | some i =>
      match c.step (.timeOut i) with
      | none => c
      | some c => settle places n (advanceAll places c)

/-- The compiler with the request cancelled. -/
def cancel (request : Nat) (c : Compiler) : Compiler := (c.step (.cancel request)).getD c

/-- The compiler with jobs for the languages that have a generator, and the place of each. -/
def enqueueAll (request : Nat) (input : GeneratorInput) :
    List String → Compiler → Compiler × List (String × Option Nat)
  | [], c => (c, [])
  | language :: languages, c =>
    match c.step (.enqueue request language input) with
    | none =>
      let (final, places) := enqueueAll request input languages c
      (final, (language, none) :: places)
    | some queued =>
      let (final, places) := enqueueAll request input languages queued
      (final, (language, some c.tasks.length) :: places)

/-- A result, and the reason if it is that of a failure. -/
abbrev Outcome : Type := CompileResult × Option Failure

/-- The outcome for a language, by the place of its job. -/
def outcome (c : Compiler) (language : String) : Option Nat → Outcome
  | none =>
    (CompileResult.failed language (Error.generatorUnavailable language).message,
      some .unavailable)
  | some i =>
    match (c.tasks[i]?).map Task.phase with
    | some (.ended result failure) => (result, failure)
    | _ => (CompileResult.failed language "compile task aborted", some .cancelled)

/-- The compiler after a request, and the outcome for each language. -/
def compileEach (input : GeneratorInput) (languages : List String) (cancellation : Cancellation)
    (c : Compiler) : Compiler × List Outcome :=
  let request := c.requests
  let c := (c.step .open).getD c
  let c := if cancellation = .before then c.cancel request else c
  let (c, queued) := c.enqueueAll request input languages
  let places := queued.filterMap Prod.snd
  let c := c.advanceAll places
  let c := if cancellation = .stuck then (c.cancel request).advanceAll places else c
  let c := c.settle places places.length
  (c, queued.map fun (language, place) => c.outcome language place)

/-- The compiler after a request, and the results in the order of the languages. -/
def compileAll (input : GeneratorInput) (languages : List String) (cancellation : Cancellation)
    (c : Compiler) : Compiler × Except Error (List CompileResult) :=
  if languages.isEmpty then (c, .error .noLanguages)
  else
    let (c, outcomes) := c.compileEach input languages cancellation
    (c, .ok (outcomes.map Prod.fst))

/-- The compiler after a request for one language, and its result or the reason why there is
none. -/
def compileSingle (input : GeneratorInput) (language : String) (cancellation : Cancellation)
    (c : Compiler) : Compiler × Except Error CompileResult :=
  let (c, outcomes) := c.compileEach input [language] cancellation
  match outcomes with
  | (result, none) :: _ => (c, .ok result)
  | (_, some failure) :: _ => (c, .error (failure.toError language))
  | [] => (c, .error .noLanguages)

end Compiler

end SchemaDepot
