import SchemaDepot.Compile.Batch
import SchemaDepot.Proofs.Compile.Sound

/-! # A job by itself

* `Ticket.outcomeOf`: what a run of its generator means for a job.
* `Compiler.compileAll_alone`: a new compiler without a cache gives just that for a single
  language. -/

namespace SchemaDepot

/-- The result but for the job that it is given to, and for whether the cache had it. -/
def CompileResult.core (r : CompileResult) : CompileResult :=
  { r with job := none, cacheHit := false }

/-- What a run of the generator means for the job. -/
def Ticket.outcomeOf (k : Ticket) : Except Failure GeneratorOutput → Compiler.Outcome
  | .ok out => (k.success out, none)
  | .error failure => (CompileResult.failed k.language failure.message, some failure)

namespace Compiler

theorem advance_of_step {c c' : Compiler} {i n : Nat} {e : Event} (hnext : c.next? i = some e)
    (hstep : c.step e = some c') : advance i (n + 1) c = advance i n c' := by
  rw [advance, hnext]
  simp only [hstep]

theorem advance_of_none {c : Compiler} {i n : Nat} (hnext : c.next? i = none) :
    advance i n c = c := by
  cases n with
  | zero => rfl
  | succ n => rw [advance, hnext]

variable {backends : Backends} {input : GeneratorInput} {language : String} {backend : Backend}

/-- A compiler without a cache that has one job. -/
def alone (backends : Backends) (concurrency timeout : Nat) (backend : Backend)
    (input : GeneratorInput) (job : Job) (phase : Phase) (workers : List Worker)
    (calls : List String) (free : Nat) : Compiler where
  backends
  options := ⟨concurrency, timeout, false⟩
  tasks := [{ job, request := 0, backend, input, phase }]
  workers
  calls
  free
  requests := 1

/-- The result of the first job, as its caller gets it. -/
def firstResult (result : CompileResult) : CompileResult := { result with job := some (jobId 0) }

theorem advance_alone (backends : Backends) (concurrency timeout : Nat) (language : String)
    {free : Nat} {run : Run} {outcome : Except Failure GeneratorOutput} (hfree : 0 < free)
    (hrun : backend.run 0 input = run) (hconclude : run.conclude = some outcome) :
    let job := Job.new (jobId 0) language (input.fingerprint language)
    let k : Ticket := ⟨jobId 0, language, input.fingerprint language, 0, backend, input⟩
    let result := firstResult (k.outcomeOf outcome).1
    advance 0 maxEvents (alone backends concurrency timeout backend input job .waiting [] [] free) =
      alone backends concurrency timeout backend input (job.start.1.finish result).1
        (.ended result (k.outcomeOf outcome).2) [] [language] (free - 1 + 1) := by
  intro job k result
  let stage := alone backends concurrency timeout backend input
  calc advance 0 maxEvents (stage job .waiting [] [] free)
    _ = advance 0 9 (stage job .granted [] [] (free - 1)) := by
      refine advance_of_step (e := .acquire 0) ?_ ?_
      · show (if 0 < free then some (Event.acquire 0) else none) = _
        rw [if_pos hfree]
      · show (if 0 < free then some _ else none) = _
        rw [if_pos hfree]
        rfl
    _ = advance 0 8 (stage job.start.1 .ready [] [] (free - 1)) := advance_of_step rfl rfl
    _ = advance 0 7 (stage job.start.1 .missed [] [] (free - 1)) := advance_of_step rfl rfl
    _ = advance 0 6 (stage job.start.1 .executing [⟨0, run⟩] [language] (free - 1)) := by
      refine advance_of_step rfl ?_
      rw [← hrun]
      rfl
    _ = advance 0 5 (stage job.start.1 (.answered run) [] [language] (free - 1 + 1)) := by
      cases run with
      | never => cases hconclude
      | _ => exact advance_of_step rfl rfl
    _ = advance 0 4 (stage job.start.1 (.ending (k.outcomeOf outcome).1 (k.outcomeOf outcome).2) []
          [language] (free - 1 + 1)) := by
      refine advance_of_step (e := .take 0) rfl ?_
      cases run <;> cases hconclude <;> rfl
    _ = advance 0 3 (stage (job.start.1.finish result).1 (.ended result (k.outcomeOf outcome).2) []
          [language] (free - 1 + 1)) := advance_of_step rfl rfl
    _ = _ := advance_of_none rfl

theorem compileEach_alone {options : CompilerOptions} {outcome : Except Failure GeneratorOutput}
    (off : options.cacheEnabled = false) (hb : backends.find? language = some backend)
    (hconclude : (backend.run 0 input).conclude = some outcome) :
    let k : Ticket := ⟨jobId 0, language, input.fingerprint language, 0, backend, input⟩
    ((new backends options).compileEach input [language] .never).2 =
      [(firstResult (k.outcomeOf outcome).1, (k.outcomeOf outcome).2)] := by
  obtain ⟨concurrency, timeout, enabled⟩ := options
  obtain rfl : enabled = false := off
  intro k
  have hfree : 0 < max 1 concurrency := Nat.lt_of_lt_of_le Nat.one_pos (Nat.le_max_left _ _)
  let c := new backends ⟨concurrency, timeout, false⟩
  let job := Job.new (jobId 0) language (input.fingerprint language)
  have queue : enqueueAll c.requests input [language] ((c.step .open).getD c) =
      (alone backends concurrency timeout backend input job .waiting [] [] (max 1 concurrency),
        [(language, some 0)]) := by
    have queued : ((c.step .open).getD c).step (.enqueue c.requests language input) =
        some (alone backends concurrency timeout backend input job .waiting [] []
          (max 1 concurrency)) :=
      congrArg (Option.map fun backend =>
        ((c.step .open).getD c).enqueue c.requests language backend input) hb
    simp only [enqueueAll, queued]
    rfl
  have ends := advance_alone backends concurrency timeout language hfree rfl hconclude
  simp only [compileEach, reduceCtorEq, if_false]
  rw [queue]
  show [(settle [0] 1 (advance 0 maxEvents (alone backends concurrency timeout backend input job
    .waiting [] [] (max 1 concurrency)))).outcome language (some 0)] = _
  rw [ends]
  rfl

/-- **A compiler without a cache** gives for a single language what the first run of its generator
means. -/
theorem compileAll_alone {options : CompilerOptions} {outcome : Except Failure GeneratorOutput}
    (off : options.cacheEnabled = false) (hb : backends.find? language = some backend)
    (hconclude : (backend.run 0 input).conclude = some outcome) :
    let k : Ticket := ⟨jobId 0, language, input.fingerprint language, 0, backend, input⟩
    ((new backends options).compileAll input [language] .never).2 =
      .ok [firstResult (k.outcomeOf outcome).1] := by
  intro k
  show Except.ok (((new backends options).compileEach input [language] .never).2.map Prod.fst) = _
  rw [compileEach_alone off hb hconclude]
  rfl

end Compiler

end SchemaDepot
