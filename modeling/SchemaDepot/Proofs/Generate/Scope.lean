import Mathlib.Data.List.Infix
import Mathlib.Data.List.Nodup
import SchemaDepot.Generate.Code

/-! # What references denote

Messages and enums are declared in a package and inside one another. A reference is looked for in
the scope where it stands and then in the scopes around it. The table of symbols knows less: each
declaration stands in it under the last part of its name alone.

* `Declaration.ofFiles`: what files declare; `symbolsOf_eq`: the table of symbols, made of these.
* `Denotes`: a reference in a scope denotes a declaration.
* `namesake`: what is found in place of a declaration; `find?_of_denotes`. -/

namespace SchemaDepot.Code

/-- Names as one, each of them with a capital. -/
def joined (names : List String) : String := String.join (names.map Naming.pascalCase)

theorem joined_append (names : List String) (name : String) :
    joined (names ++ [name]) = joined names ++ Naming.pascalCase name := by
  simp [joined, String.join, List.foldl_append]

/-! ### Declarations -/

/-- A message or an enum: the package of its file, the messages around it, the outermost first, and
its own name. -/
structure Declaration where
  package : List String
  outer : List String
  name : String
  isMessage : Bool
deriving DecidableEq

namespace Declaration

/-- The whole name, in parts. -/
def path (d : Declaration) : List String := d.package ++ d.outer ++ [d.name]

/-- The name in source text. -/
def codeName (d : Declaration) : String := joined (d.outer ++ [d.name])

/-- The entry in the table of symbols. -/
def entry (d : Declaration) : String × Symbol := (d.name, ⟨d.isMessage, d.codeName⟩)

mutual

/-- What a node declares inside messages, itself first. -/
def ofNode (package outer : List String) : Node → List Declaration
  | ⟨content, _, _, _, children⟩ =>
    match content with
    | .message name => ⟨package, outer, name, true⟩ :: ofNodes package (outer ++ [name]) children
    | .enumeration name => [⟨package, outer, name, false⟩]
    | _ => []

/-- What nodes declare inside messages. -/
def ofNodes (package outer : List String) : List Node → List Declaration
  | [] => []
  | n :: ns => ofNode package outer n ++ ofNodes package outer ns

end

end Declaration

/-- The package of a file, in parts; none, if the file names none. -/
def packageOf (parsed : ParsedFile) : List String :=
  ((Schema.packageName? parsed.2).map (Text.split '.')).getD []

/-- What files declare, the earlier files first. -/
def Declaration.ofFiles (files : List ParsedFile) : List Declaration :=
  files.flatMap fun parsed => ofNodes (packageOf parsed) [] parsed.2.children

section Symbols

mutual

theorem symbols_ofNode (package outer : List String) : ∀ n : Node,
    Symbols.ofNode (joined outer) n = (Declaration.ofNode package outer n).map Declaration.entry
  | ⟨content, _, _, _, children⟩ => by
    cases content with
    | message name =>
      rw [Symbols.ofNode, Declaration.ofNode, ← joined_append,
        symbols_ofNodes package (outer ++ [name]) children]
      rfl
    | enumeration name =>
      rw [Symbols.ofNode, Declaration.ofNode, ← joined_append]
      rfl
    | _ => rfl

theorem symbols_ofNodes (package outer : List String) : ∀ ns : List Node,
    Symbols.ofNodes (joined outer) ns = (Declaration.ofNodes package outer ns).map Declaration.entry
  | [] => rfl
  | n :: ns => by
    rw [Symbols.ofNodes, Declaration.ofNodes, List.map_append, symbols_ofNode package outer n,
      symbols_ofNodes package outer ns]

end

/-- **The table of symbols lists the declarations by the last parts of their names.** -/
theorem symbolsOf_eq (files : List ParsedFile) :
    symbolsOf files = (Declaration.ofFiles files).map Declaration.entry := by
  rw [symbolsOf, Declaration.ofFiles, List.map_flatMap]
  exact congrArg (List.flatMap · files) (funext fun parsed => symbols_ofNodes _ [] _)

end Symbols

/-! ### References -/

/-- The whole names that a reference in a scope may mean, the likeliest first: behind a dot only
what it spells, else that in the scope, and then in each of the scopes around it. -/
def candidates (scope : List String) (reference : String) : List (List String) :=
  match Text.split '.' reference with
  | "" :: parts => [parts]
  | parts => scope.inits.reverse.map (· ++ parts)

variable {ds : List Declaration} {scope : List String} {reference : String} {d : Declaration}

/-- **The reference in a scope denotes the declaration**: that has the first of the names that the
reference may mean, of those that are declared at all. -/
def Denotes (ds : List Declaration) (scope : List String) (reference : String) (d : Declaration) :
    Prop :=
  d ∈ ds ∧ (candidates scope reference).find? (fun path => ds.any (·.path == path)) = some d.path

instance : Decidable (Denotes ds scope reference d) := by
  unfold Denotes
  infer_instance

theorem split_ne_nil (sep : Char) (s : String) : Text.split sep s ≠ [] := by
  rw [Text.split, Ne, List.map_eq_nil_iff]
  exact Text.splitAt_ne_nil sep s.toList

/-- The names that a reference may mean end in its last part. -/
theorem getLast?_of_mem_candidates {path : List String} (h : path ∈ candidates scope reference)
    (ne : path ≠ []) : path.getLast? = some (Symbols.lastPart reference) := by
  have last : (Text.split '.' reference).getLast? = some (Symbols.lastPart reference) := by
    rw [Symbols.lastPart, List.getLast?_eq_some_getLast (split_ne_nil '.' reference)]
    rfl
  rw [← last]
  unfold candidates at h
  split at h
  · next parts hs =>
    obtain rfl := List.mem_singleton.1 h
    rw [hs, List.getLast?_cons, List.getLast?_eq_some_getLast ne]
    rfl
  · obtain ⟨before, -, rfl⟩ := List.mem_map.1 h
    rw [List.getLast?_append, last]
    rfl

theorem name_of_denotes (h : Denotes ds scope reference d) :
    d.name = Symbols.lastPart reference := by
  have := getLast?_of_mem_candidates (List.mem_of_find?_eq_some h.2) (by simp [Declaration.path])
  simpa [Declaration.path] using this

/-- The first declaration with the last part of the name of `d`. -/
def namesake (ds : List Declaration) (d : Declaration) : Declaration :=
  (ds.find? (·.name == d.name)).getD d

/-- **In place of what a reference denotes its namesake is found.** -/
theorem find?_of_denotes (h : Denotes ds scope reference d) :
    Symbols.find? (ds.map Declaration.entry) reference = some (namesake ds d).entry.2 := by
  rw [Symbols.find?, ← name_of_denotes h, List.find?_map, namesake, Option.map_map]
  have there : (ds.find? (·.name == d.name)).isSome :=
    List.find?_isSome.2 ⟨d, h.1, beq_self_eq_true _⟩
  obtain ⟨first, hfirst⟩ := Option.isSome_iff_exists.1 there
  rw [hfirst, show ((fun x : String × Symbol => x.1 == d.name) ∘ Declaration.entry) =
    fun e : Declaration => e.name == d.name from rfl, hfirst]
  rfl

/-- Where the last parts of names are distinct, a declaration is its own namesake. -/
theorem namesake_of_nodup (distinct : (ds.map Declaration.name).Nodup) (h : d ∈ ds) :
    namesake ds d = d := by
  have there : (ds.find? (·.name == d.name)).isSome :=
    List.find?_isSome.2 ⟨d, h, beq_self_eq_true _⟩
  obtain ⟨first, hfirst⟩ := Option.isSome_iff_exists.1 there
  have same : first.name = d.name := by simpa using List.find?_some hfirst
  rw [namesake, hfirst]
  exact List.inj_on_of_nodup_map distinct (List.mem_of_find?_eq_some hfirst) h same

theorem nameOf_of_denotes (h : Denotes ds scope reference d) :
    Symbols.nameOf (ds.map Declaration.entry) reference = (namesake ds d).codeName := by
  rw [Symbols.nameOf, find?_of_denotes h]
  rfl

theorem isMessage_of_denotes (h : Denotes ds scope reference d) :
    Symbols.isMessage (ds.map Declaration.entry) reference = (namesake ds d).isMessage := by
  rw [Symbols.isMessage, find?_of_denotes h]
  rfl

end SchemaDepot.Code
