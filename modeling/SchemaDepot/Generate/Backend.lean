import SchemaDepot.Generate.Descriptor
import SchemaDepot.Generate.Code

/-! # Backends

The generators on offer, by language.

* `Backend`: a generator with a description.
* `Backends.builtIn`: the two that come with the library. -/

namespace SchemaDepot

/-- How a run of a generator ends: with files, with an error, or with a panic and its message, if
that is a text. `never` ends only when it is stopped from outside. -/
inductive Run where
  | output (output : GeneratorOutput)
  | error (message : String)
  | panic (message : Option String)
  | never
deriving DecidableEq

/-- A generator. It is told how often it was called before. -/
structure Backend where
  description : String := ""
  run : Nat → GeneratorInput → Run

/-- A generator that either gives files or an error, and has no memory. -/
def Backend.ofFunction (description : String)
    (f : GeneratorInput → Except String GeneratorOutput) : Backend where
  description
  run _ input :=
    match f input with
    | .ok output => .output output
    | .error message => .error message

/-- Backends with their languages. A language stands once. -/
abbrev Backends : Type := List (String × Backend)

namespace Backends

/-- The backend of a language. -/
def find? (backends : Backends) (language : String) : Option Backend :=
  (List.find? (·.1 == language) backends).map Prod.snd

/-- The languages and their descriptions, in the order of the languages. -/
def descriptions (backends : Backends) : List (String × String) :=
  (backends.map fun (language, backend) => (language, backend.description)).mergeSort
    fun a b => a.1 ≤ b.1

/-- The languages in order. -/
def languages (backends : Backends) : List String := backends.descriptions.map Prod.fst

/-- The backend for Rust. -/
def rust (m : Marker) : Backend :=
  .ofFunction "serde-derived Rust structs and enums" (Code.generate m)

/-- The backend for descriptors. -/
def descriptor (m : Marker) : Backend :=
  .ofFunction "JSON dump of parsed schema files" (Descriptor.generate m)

/-- The backends that come with the library. -/
def builtIn (m : Marker) : Backends := [("rust", rust m), ("descriptor", descriptor m)]

end Backends

end SchemaDepot
