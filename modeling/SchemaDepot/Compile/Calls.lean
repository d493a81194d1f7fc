import SchemaDepot.Compile.Machine

/-! # Calls side by side

Any number of calls share one compiler. A call takes up its languages in any order, between the
steps of all jobs, and returns when each of them is settled.

* `Call`: what is to be compiled, and how far each language has come.
* `Service.step`, `Service.run`: a compiler with its calls, whatever happens next. -/

namespace SchemaDepot

/-- How far a language of a call has come. -/
inductive Slot where
  /-- It was not taken up yet. -/
  | idle
  /-- It has no generator. -/
  | unavailable
  /-- Its job is the one at this place. -/
  | queued (place : Nat)
deriving DecidableEq

/-- The place of the job, if there is one. -/
def Slot.place? : Slot → Option Nat
  | queued place => some place
  | _ => none

/-- A call: what cancels it, what is to be compiled, and its languages in order. -/
structure Call where
  token : Nat
  input : GeneratorInput
  slots : List (String × Slot)
deriving DecidableEq

namespace Call

/-- A call that has not taken up a language. -/
def new (token : Nat) (input : GeneratorInput) (languages : List String) : Call :=
  { token, input, slots := languages.map fun language => (language, .idle) }

/-- The languages, in order. -/
def languages (call : Call) : List String := call.slots.map Prod.fst

/-- The places of the jobs of a call. -/
def places (call : Call) : List Nat := call.slots.flatMap fun slot => slot.2.place?.toList

end Call

/-- The job at a place has ended. -/
def Compiler.hasEnded (c : Compiler) (place : Nat) : Bool :=
  match (c.tasks[place]?).map Task.phase with
  | some (.ended ..) => true
  | _ => false

/-- Nothing is left to do for a language. -/
def Slot.isSettled (c : Compiler) : Slot → Bool
  | idle => false
  | unavailable => true
  | queued place => c.hasEnded place

/-- All languages of a call are settled. -/
def Call.hasReturned (c : Compiler) (call : Call) : Bool :=
  call.slots.all fun slot => slot.2.isSettled c

/-- A compiler with the calls that were made. -/
structure Service where
  compiler : Compiler
  calls : List Call := []

/-- What can happen to a compiler with its calls. -/
inductive Activity where
  /-- A call is made. Calls may share what cancels them. -/
  | call (token : Nat) (input : GeneratorInput) (languages : List String)
  /-- A call takes up the language at a position. -/
  | takeUp (call position : Nat)
  /-- A job, or the world around it, takes a step. -/
  | work (event : Event)
deriving DecidableEq

namespace Service

/-- A new compiler without calls. -/
def new (backends : Backends) (options : CompilerOptions) : Service :=
  { compiler := .new backends options }

/-- The table of jobs. -/
def jobs (s : Service) : List Job := s.compiler.jobs

/-- The compiler when a language is taken up, and how far that has come. -/
def takeUp (c : Compiler) (call : Call) (language : String) : Compiler × Slot :=
  match c.step (.enqueue call.token language call.input) with
  | some queued => (queued, .queued c.tasks.length)
  | none => (c, .unavailable)

/-- What an activity does; nothing, if it cannot happen. -/
def step (s : Service) : Activity → Option Service
  | .call token input languages => some { s with calls := s.calls ++ [.new token input languages] }
  | .takeUp k position => do
    let call ← s.calls[k]?
    match call.slots[position]? with
    | some (language, .idle) =>
      let (compiler, slot) := takeUp s.compiler call language
      let slots := call.slots.set position (language, slot)
      some { compiler, calls := s.calls.set k { call with slots } }
    | _ => none
  -- Jobs are queued by calls alone.
  | .work (.enqueue ..) => none
  | .work event => (s.compiler.step event).map fun compiler => { s with compiler }

/-- What a row of activities does; nothing, if one of them cannot happen. -/
def run (s : Service) : List Activity → Option Service
  | [] => some s
  | a :: as => do (← s.step a).run as

end Service

end SchemaDepot
