import SchemaDepot.Registry.Publish

/-! # Operations side by side

Any number of operations share a store. Their calls come in any order, each of them whole.

* `Operation`: a publication, or another description of a module.
* `Traffic.run`: a store with its operations, whoever is next.
* `inOrder`: one operation after the other. -/

namespace SchemaDepot

namespace Procedure

variable {α β : Type}

/-- The procedure with another form of its result. -/
def map (f : α → β) : Procedure α → Procedure β
  | done result => done (f result)
  | readClock next => readClock fun time => (next time).map f
  | getModule name next => getModule name fun answer => (next answer).map f
  | putModule m next => putModule m (next.map f)
  | getVersion id next => getVersion id fun answer => (next answer).map f
  | createVersion v next => createVersion v fun answer => (next answer).map f

end Procedure

/-- What an operation gives back. -/
inductive Receipt where
  | version (v : Version)
  | module (m : Module)
deriving DecidableEq

/-- What can be asked of a registry that changes its store. -/
inductive Operation where
  | publish (request : PublishRequest)
  | describe (module description : String)
deriving DecidableEq

namespace Operation

/-- The calls of an operation. -/
def calls (reader : SchemaReader) : Operation → Procedure (Except Error Receipt)
  | publish q => (q.publish reader).map (Except.map .version)
  | describe name description => (describeModule name description).map (Except.map .module)

/-- The module that an operation is about. -/
def module : Operation → String
  | publish q => q.module
  | describe name _ => name

/-- The description that an operation carries. -/
def description? : Operation → Option String
  | publish q => q.description
  | describe _ description => some description

end Operation

/-- A store, and what is left to do of the operations on it. -/
structure Traffic where
  store : Store
  procedures : List (Procedure (Except Error Receipt))

namespace Traffic

/-- Operations before their first calls. -/
def start (reader : SchemaReader) (operations : List Operation) (store : Store) : Traffic :=
  ⟨store, operations.map (Operation.calls reader)⟩

/-- The next call of the operation at a position; nothing, if it is through. -/
def turn (t : Traffic) (position : Nat) : Traffic :=
  match t.procedures[position]? with
  | some p => ⟨(p.step t.store).2, t.procedures.set position (p.step t.store).1⟩
  | none => t

/-- The next calls of the operations at the positions, one after the other. -/
def run (t : Traffic) (positions : List Nat) : Traffic := positions.foldl turn t

/-- The answer of the operation at a position, if it is through. -/
def answer? (t : Traffic) (position : Nat) : Option (Except Error Receipt) :=
  t.procedures[position]?.bind Procedure.result?

end Traffic

/-- The store after operations one by one, each without calls of others in between. -/
def inOrder (reader : SchemaReader) : List Operation → Store → Store
  | [], s => s
  | o :: os, s => inOrder reader os ((o.calls reader).run s).2

/-- The description of a module, if there is one. -/
def Store.description? (s : Store) (name : String) : Option String :=
  (s.module? name).bind Module.description

end SchemaDepot
