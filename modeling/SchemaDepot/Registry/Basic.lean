import SchemaDepot.Compile.Batch
import SchemaDepot.Registry.Layout
import SchemaDepot.Registry.Publish
import SchemaDepot.Registry.Resolution

/-! # The registry

A registry joins a store with the way schemas are read and references followed, and with a compiler
if there is one.

* `Registry.publish`, `Registry.describe`: procedures on the store, run by themselves.
* `Registry.latest`, `Registry.resolve`: what the store says.
* `Registry.compileVersion`: resolution and compilation of a version. -/

namespace SchemaDepot

namespace Store

/-- The newest version of a module. -/
def latest (s : Store) (name : String) : Except Error Version := do
  match (← s.listVersions name).getLast? with
  | some v => .ok v
  | none => .error (.versionNotFound ⟨name, "latest"⟩)

/-- The store with a version made now, which is not checked. -/
def addVersion (v : Version) (s : Store) : Store × Except Error Unit := s.createVersions [v]

/-- The store with a module made now. -/
def addModule (name : String) (description : Option String) (s : Store) : Store :=
  let (time, s) := s.readClock
  s.putModule { Module.new name time with description }

end Store

/-- The input of a compilation of what a version needs. -/
def Resolution.toInput (r : Resolution) (options : Options) (includeServices : Bool) :
    GeneratorInput where
  files := r.own
  dependencyFiles := r.dependencies
  options
  includeServices

/-- A store, how schemas are read, how references are followed, and a compiler if there is one. -/
structure Registry where
  store : Store := {}
  reader : SchemaReader := {}
  resolver : Resolver := {}
  compiler : Option Compiler := none

namespace Registry

/-- The registry after a procedure on its store, and its result. -/
def perform {α : Type} (p : Procedure α) (r : Registry) : Registry × α :=
  let (result, store) := p.run r.store
  ({ r with store }, result)

/-- The registry with one more version, if the request is fine. -/
def publish (q : PublishRequest) (r : Registry) : Registry × Except Error Version :=
  r.perform (q.publish r.reader)

/-- The registry with another description of a module. -/
def describe (name description : String) (r : Registry) : Registry × Except Error Module :=
  r.perform (describeModule name description)

/-- What the version of a name needs. -/
def resolve (r : Registry) (id : VersionId) : Except Error Resolution :=
  r.store.resolve r.resolver id

/-- What a version needs that need not be in the store. -/
def resolveVersion (r : Registry) (v : Version) : Except Error Resolution :=
  r.resolver.resolve r.store.getVersion v

/-! ### Compilation -/

/-- The compiler, if there is one. -/
def getCompiler (r : Registry) : Except Error Compiler :=
  match r.compiler with
  | some c => .ok c
  | none => .error (.serviceUnavailable "no compiler configured for this registry")

/-- The registry after some work of its compiler, if it has one. -/
def compile {α : Type} (work : Compiler → Compiler × Except Error α) (r : Registry) :
    Registry × Except Error α :=
  match r.getCompiler with
  | .error e => (r, .error e)
  | .ok c =>
    let (c, result) := work c
    ({ r with compiler := some c }, result)

/-- The registry after a request, and the results in the order of the languages. -/
def compileAll (input : GeneratorInput) (languages : List String) (cancellation : Cancellation)
    (r : Registry) : Registry × Except Error (List CompileResult) :=
  r.compile (Compiler.compileAll input languages cancellation)

/-- The registry after a request for one language, and its result. -/
def compileSingle (input : GeneratorInput) (language : String) (cancellation : Cancellation)
    (r : Registry) : Registry × Except Error CompileResult :=
  r.compile (Compiler.compileSingle input language cancellation)

/-- The registry after the compilation of what a version needs, and the results in the order of the
languages. -/
def compileVersion (id : VersionId) (languages : List String) (options : Options)
    (includeServices : Bool) (r : Registry) : Registry × Except Error (List CompileResult) :=
  r.compile fun c =>
    match r.resolve id with
    | .error e => (c, .error e)
    | .ok needed => c.compileAll (needed.toInput options includeServices) languages .never

/-- The job with an identifier. -/
def getStatus (r : Registry) (job : String) : Except Error Job := do
  (← r.getCompiler).getStatus job

end Registry

end SchemaDepot
