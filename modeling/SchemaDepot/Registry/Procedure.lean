import SchemaDepot.Registry.Store

/-! # Procedures on a store

A procedure is a row of single calls to a store, each of which may depend on the answers before it.
Calls of several procedures may come in any order; a call itself is never torn apart.

* `Procedure.step`: the next call.
* `Procedure.run`: all calls of one procedure with no others between them. -/

namespace SchemaDepot

/-- The calls that are left of a procedure, or its result. -/
inductive Procedure (α : Type) where
  | done (result : α)
  | readClock (next : Nat → Procedure α)
  | getModule (name : String) (next : Except Error Module → Procedure α)
  | putModule (m : Module) (next : Procedure α)
  | getVersion (id : VersionId) (next : Except Error Version → Procedure α)
  | createVersion (v : Version) (next : Except Error Unit → Procedure α)

namespace Procedure

variable {α : Type}

/-- What is left after the next call, and the store then. -/
def step : Procedure α → Store → Procedure α × Store
  | done result, s => (done result, s)
  | readClock next, s => (next s.readClock.1, s.readClock.2)
  | getModule name next, s => (next (s.getModule name), s)
  | putModule m next, s => (next, s.putModule m)
  | getVersion id next, s => (next (s.getVersion id), s)
  | createVersion v next, s =>
    match s.createVersion v with
    | .ok s => (next (.ok ()), s)
    | .error e => (next (.error e), s)

/-- The result of all calls, and the store then. -/
def run : Procedure α → Store → α × Store
  | done result, s => (result, s)
  | readClock next, s => run (next s.readClock.1) s.readClock.2
  | getModule name next, s => run (next (s.getModule name)) s
  | putModule m next, s => run next (s.putModule m)
  | getVersion id next, s => run (next (s.getVersion id)) s
  | createVersion v next, s =>
    match s.createVersion v with
    | .ok s => run (next (.ok ())) s
    | .error e => run (next (.error e)) s

/-- The result, if no call is left. -/
def result? : Procedure α → Option α
  | done result => some result
  | _ => none

end Procedure

end SchemaDepot
