import Mathlib.Data.List.Forall2
import SchemaDepot.Proofs.Generate.Scope

/-! # References in generated code

Every type in the generated code stands for a place in a schema file where a type is referred to, in
the same order.

* `Use`: such a place; `fileUses`: those of a file that code is generated for.
* `types_fileItems`: the types of the items of a file, one for each use.
* `Written`: what is written for a use names what it denotes; `written_type`: it names the
  namesakes.
* `generate_written`: this for all files of an input. -/

namespace SchemaDepot

/-- The names in a type, from left to right. -/
def CodeType.names : CodeType → List String
  | plain name => [name]
  | boxed inner | vector inner | optional inner => inner.names
  | map key value => key.names ++ value.names

/-- The types of values in an item, from top to bottom. -/
def CodeItem.types : CodeItem → List CodeType
  | struct _ _ _ fields => fields.map CodeField.type
  | enumeration .. => []
  | choice _ _ variants => variants.map Prod.snd
  | service _ _ methods => methods.flatMap fun m => [m.request, m.response]

namespace Code

/-! ### Uses -/

/-- A place where a type is referred to: a field of the struct `owner`, the choice among fields of
it, one of these, or what a call sends or receives. -/
inductive Use where
  | field (scope : List String) (owner : String) (f : Field)
  | choice (owner name : String)
  | variant (scope : List String) (owner type : String)
  | payload (scope : List String) (type : String) (isStream : Bool)
deriving DecidableEq

/-- The types that a field's type is made of: key and value of a map, else itself. -/
def partsOf (type : String) : List String :=
  match mapTypes? type with
  | some (key, value) => [key, value]
  | none => [type]

namespace Use

/-- The references, from left to right. A choice refers to its own enum. -/
def references : Use → List String
  | field _ _ f => partsOf f.type
  | choice _ name => [name]
  | variant _ _ type => [type]
  | payload _ type _ => [type]

/-- One of the references denotes a declaration. The words for scalars denote none, save in calls,
which can only send messages. -/
def Denotes (ds : List Declaration) (reference : String) (d : Declaration) : Use → Prop
  | field scope .. | variant scope .. =>
    (scalar? reference).isNone ∧ Code.Denotes ds scope reference d
  | choice .. => False
  | payload scope .. => Code.Denotes ds scope reference d

instance (ds : List Declaration) (reference : String) (d : Declaration) (u : Use) :
    Decidable (u.Denotes ds reference d) := by
  cases u <;> unfold Use.Denotes <;> infer_instance

/-- A field that stands for at most one value. -/
def single? : Use → Option Field
  | field _ _ f => if f.label = some .repeated ∨ (mapTypes? f.type).isSome then none else some f
  | _ => none

/-- The type that is written. -/
def type (symbols : Symbols) : Use → CodeType
  | field _ owner f => fieldType symbols owner f
  | choice owner name => .optional (.plain (owner ++ Naming.pascalCase name))
  | variant _ owner type => valueType symbols owner type
  | payload _ type isStream => streamType symbols type isStream

end Use

/-- The use for a declaration in a message. -/
def fieldUse? (scope : List String) (owner : String) (n : Node) : Option Use :=
  match n.content with
  | .field f => some (.field scope owner f)
  | .oneof name => some (.choice owner name)
  | _ => none

/-- The use for a declaration in a choice. -/
def variantUse? (scope : List String) (owner : String) (n : Node) : Option Use :=
  match n.content with
  | .field f => some (.variant scope owner f.type)
  | _ => none

/-- The uses of a declaration in a service. -/
def callUses (scope : List String) (n : Node) : List Use :=
  match n.content with
  | .rpc call =>
    [.payload scope call.request call.requestStream,
      .payload scope call.response call.responseStream]
  | _ => []

mutual

/-- The uses in a declaration inside messages. What is left out of the code has none. -/
def usesOf (package outer : List String) : Node → List Use
  | ⟨content, _, _, directives, children⟩ =>
    match content with
    | .message name =>
      if isSkipped directives then []
      else
        children.filterMap
            (fieldUse? (package ++ (outer ++ [name])) (joined (outer ++ [name]))) ++
          usesIn package (outer ++ [name]) children
    | .oneof _ => children.filterMap (variantUse? (package ++ outer) (joined outer))
    | _ => []

/-- The uses in declarations inside messages. -/
def usesIn (package outer : List String) : List Node → List Use
  | [] => []
  | n :: ns => usesOf package outer n ++ usesIn package outer ns

end

/-- The uses in a declaration of a file. -/
def topUses (package : List String) (includeServices : Bool) (n : Node) : List Use :=
  match n.content with
  | .service _ => if includeServices then n.children.flatMap (callUses package) else []
  | _ => usesOf package [] n

/-- The uses in a file. -/
def fileUses (includeServices : Bool) (parsed : ParsedFile) : List Use :=
  parsed.2.children.flatMap (topUses (packageOf parsed) includeServices)

/-! ### Types of items -/

section Items
variable (symbols : Symbols)

theorem types_structItem (scope : List String) (owner : String) (comments : List Comment)
    (directives : List Directive) (children : List Node) :
    (structItem symbols owner comments directives children).types =
      (children.filterMap (fieldUse? scope owner)).map (Use.type symbols) := by
  rw [structItem, CodeItem.types, List.map_filterMap, List.map_filterMap]
  refine congrArg (List.filterMap · children) (funext fun n => ?_)
  rw [structField?, fieldUse?]
  cases n.content <;> rfl

theorem types_choiceItem (scope : List String) (owner name : String)
    (directives : List Directive) (children : List Node) :
    (choiceItem symbols owner name directives children).types =
      (children.filterMap (variantUse? scope owner)).map (Use.type symbols) := by
  rw [choiceItem, CodeItem.types, List.map_filterMap, List.map_filterMap]
  refine congrArg (List.filterMap · children) (funext fun n => ?_)
  rw [choiceVariant?, variantUse?]
  cases n.content <;> rfl

theorem types_serviceItem (package : List String) (name : String) (comments : List Comment)
    (children : List Node) :
    (serviceItem symbols name comments children).types =
      (children.flatMap (callUses package)).map (Use.type symbols) := by
  rw [serviceItem, CodeItem.types]
  induction children with
  | nil => rfl
  | cons n ns ih =>
    rw [List.flatMap_cons, List.map_append, ← ih, List.filterMap_cons, method?, callUses]
    cases n.content <;> rfl

mutual

theorem types_itemsOf (package outer : List String) : ∀ n : Node,
    (itemsOf symbols (joined outer) n).flatMap CodeItem.types =
      (usesOf package outer n).map (Use.type symbols)
  | ⟨content, _, comments, directives, children⟩ => by
    cases content with
    | message name =>
      rw [itemsOf, usesOf, ← joined_append]
      split
      · rfl
      · rw [List.flatMap_cons, List.map_append,
          types_structItem symbols (package ++ (outer ++ [name])),
          types_itemsIn package (outer ++ [name]) children]
    | enumeration name =>
      show (if isSkipped directives then [] else [_]).flatMap CodeItem.types = []
      split <;> rfl
    | oneof name =>
      rw [itemsOf, usesOf, List.flatMap_cons, types_choiceItem symbols (package ++ outer)]
      exact List.append_nil _
    | _ => rfl

theorem types_itemsIn (package outer : List String) : ∀ ns : List Node,
    (itemsIn symbols (joined outer) ns).flatMap CodeItem.types =
      (usesIn package outer ns).map (Use.type symbols)
  | [] => rfl
  | n :: ns => by
    rw [itemsIn, usesIn, List.flatMap_append, List.map_append, types_itemsOf package outer n,
      types_itemsIn package outer ns]

end

/-- The items of a file. -/
def itemsOfFile (includeServices : Bool) (parsed : ParsedFile) : List CodeItem :=
  parsed.2.children.flatMap (fileItems symbols includeServices)

/-- **The types of the items of a file are those of its uses**, one by one. -/
theorem types_itemsOfFile (includeServices : Bool) (parsed : ParsedFile) :
    (itemsOfFile symbols includeServices parsed).flatMap CodeItem.types =
      (fileUses includeServices parsed).map (Use.type symbols) := by
  rw [itemsOfFile, fileUses, List.flatMap_assoc, List.map_flatMap]
  refine congrArg (List.flatMap · parsed.2.children) (funext fun n => ?_)
  have below := types_itemsOf symbols (packageOf parsed) [] n
  rw [fileItems, topUses]
  cases hc : n.content with
  | service name =>
    cases includeServices with
    | false => rfl
    | true => exact (List.append_nil _).trans (types_serviceItem symbols _ name _ _)
  | _ => exact below

end Items

/-! ### What is written for a use -/

section Written
variable (ds : List Declaration)

/-- **What is written for a use names what it denotes**, taken for what `intended` says. -/
structure Written (intended : Declaration → Declaration) (u : Use) (c : CodeType) : Prop where
  /-- Each reference that denotes a declaration is written as the name of that. -/
  names : List.Forall₂ (fun reference name =>
    ∀ d, u.Denotes ds reference d → name = (intended d).codeName) u.references c.names
  /-- A field for at most one value is optional just if it is labelled so or holds a message. -/
  optional : ∀ f, u.single? = some f → ∀ d, u.Denotes ds f.type d →
    (c.isOptional ↔ f.label = some .optional ∨ (intended d).isMessage)

/-- What is found in place of what a use refers to is the same as what `intended` says, as far as
the code for the use shows it. -/
structure Use.Agrees (intended : Declaration → Declaration) (u : Use) : Prop where
  names : ∀ reference ∈ u.references, ∀ d, u.Denotes ds reference d →
    (namesake ds d).codeName = (intended d).codeName
  kinds : ∀ f, u.single? = some f → f.label ≠ some .optional → ∀ d, u.Denotes ds f.type d →
    (namesake ds d).isMessage = (intended d).isMessage

variable {ds}

theorem names_valueType (symbols : Symbols) (owner type : String) :
    (valueType symbols owner type).names = [(scalar? type).getD (symbols.nameOf type)] := by
  unfold valueType
  cases scalar? type with
  | some scalar => rfl
  | none =>
    dsimp only
    split <;> rfl

theorem isOptional_valueType (symbols : Symbols) (owner type : String) :
    (valueType symbols owner type).isOptional = false := by
  unfold valueType
  cases scalar? type with
  | some scalar => rfl
  | none =>
    dsimp only
    split <;> rfl

theorem names_fieldType (symbols : Symbols) (owner : String) (f : Field) :
    (fieldType symbols owner f).names = (partsOf f.type).map fun type =>
      (scalar? type).getD (symbols.nameOf type) := by
  have one := names_valueType symbols owner f.type
  unfold fieldType partsOf
  cases mapTypes? f.type with
  | some types =>
    simp only [CodeType.names, names_valueType]
    rfl
  | none =>
    dsimp only
    split
    · exact one
    · exact one
    · split <;> exact one

theorem isOptional_fieldType {symbols : Symbols} {owner : String} {f g : Field}
    {scope : List String} (h : (Use.field scope owner f).single? = some g)
    (notScalar : (scalar? f.type).isNone) :
    (fieldType symbols owner f).isOptional ↔
      f.label = some .optional ∨ symbols.isMessage f.type := by
  unfold Use.single? at h
  dsimp only at h
  split at h
  · cases h
  · next one =>
    obtain ⟨single, notMap⟩ := not_or.1 one
    unfold fieldType
    rw [Option.not_isSome_iff_eq_none.1 notMap]
    dsimp only
    split
    · exact absurd ‹_› single
    · simp [CodeType.isOptional, *]
    · next other =>
      rw [notScalar, Bool.and_true]
      cases symbols.isMessage f.type with
      | true => simp [CodeType.isOptional]
      | false => simpa [isOptional_valueType] using other

theorem Use.mem_of_denotes {reference : String} {d : Declaration} (u : Use)
    (h : u.Denotes ds reference d) : d ∈ ds := by
  cases u with
  | field | variant => exact h.2.1
  | choice => exact h.elim
  | payload => exact h.1

/-- The references of a use are written one by one, each that denotes a declaration as the name of
the namesake. -/
theorem names_type (ds : List Declaration) (u : Use) : ∃ write : String → String,
    (u.type (ds.map Declaration.entry)).names = u.references.map write ∧
      ∀ reference d, u.Denotes ds reference d → write reference = (namesake ds d).codeName := by
  have value : ∀ scope reference d, (scalar? reference).isNone ∧
      Code.Denotes ds scope reference d →
      (scalar? reference).getD (Symbols.nameOf (ds.map Declaration.entry) reference) =
        (namesake ds d).codeName := by
    rintro scope reference d ⟨notScalar, denotes⟩
    rw [Option.isNone_iff_eq_none.1 notScalar]
    exact nameOf_of_denotes denotes
  cases u with
  | field scope owner f => exact ⟨_, names_fieldType _ owner f, value scope⟩
  | choice owner name =>
    exact ⟨fun _ => owner ++ Naming.pascalCase name, rfl, fun _ _ denotes => denotes.elim⟩
  | variant scope owner type =>
    exact ⟨fun reference => (scalar? reference).getD (Symbols.nameOf _ reference),
      names_valueType _ owner type, value scope⟩
  | payload scope type isStream =>
    refine ⟨Symbols.nameOf (ds.map Declaration.entry), ?_, fun _ _ => nameOf_of_denotes⟩
    unfold Use.type streamType
    cases isStream <;> rfl

theorem isOptional_type {u : Use} {f : Field} {d : Declaration} (single : u.single? = some f)
    (denotes : u.Denotes ds f.type d) :
    (u.type (ds.map Declaration.entry)).isOptional ↔
      f.label = some .optional ∨ (namesake ds d).isMessage := by
  cases u with
  | field scope owner g =>
    obtain rfl : g = f := by
      unfold Use.single? at single
      dsimp only at single
      split at single <;> cases single
      rfl
    rw [Use.type, isOptional_fieldType single denotes.1, isMessage_of_denotes denotes.2]
  | _ => cases single

/-- **What is written for a use names what is found for it**, and nothing else. -/
theorem written_iff (intended : Declaration → Declaration) (u : Use) :
    Written ds intended u (u.type (ds.map Declaration.entry)) ↔ u.Agrees ds intended := by
  obtain ⟨write, names, written⟩ := names_type ds u
  constructor
  · rintro ⟨named, optional⟩
    rw [names, List.forall₂_map_right_iff, List.forall₂_same] at named
    refine ⟨fun reference h d denotes => ?_, fun f single other d denotes => ?_⟩
    · rw [← written reference d denotes, named reference h d denotes]
    · have same := (isOptional_type single denotes).symm.trans (optional f single d denotes)
      rw [or_iff_right other, or_iff_right other] at same
      exact Bool.eq_iff_iff.2 same
  · rintro ⟨agree, kinds⟩
    refine ⟨?_, fun f single d denotes => ?_⟩
    · rw [names, List.forall₂_map_right_iff, List.forall₂_same]
      intro reference h d denotes
      rw [written reference d denotes, agree reference h d denotes]
    · rw [isOptional_type single denotes]
      by_cases label : f.label = some .optional
      · exact iff_of_true (Or.inl label) (Or.inl label)
      · rw [kinds f single label d denotes]

end Written

/-! ### What is generated -/

section Generate

/-- The files are the code for schema files, in which each reference is the name of what `intended`
says of what it denotes. -/
def FilesWritten (intended : Declaration → Declaration) (input : GeneratorInput)
    (own dependencies : List ParsedFile) (out : GeneratorOutput) : Prop :=
  let all := own ++ dependencies
  List.Forall₂ (fun parsed (file : TextFile) =>
    file.content = fileText (symbolsOf all) input.includeServices parsed ∧
      List.Forall₂ (Written (Declaration.ofFiles all) intended)
        (fileUses input.includeServices parsed)
        ((itemsOfFile (symbolsOf all) input.includeServices parsed).flatMap CodeItem.types))
    own out.files

variable {m : Marker} {input : GeneratorInput} {own dependencies : List ParsedFile}

theorem generate_eq (hown : parseFiles m input.files = .ok own)
    (hdependencies : parseFiles m input.dependencyFiles = .ok dependencies) :
    generate m input = .ok {
      files := own.map fun parsed => ⟨withoutRawMarks (moduleName parsed.1) ++ ".rs",
        fileText (symbolsOf (own ++ dependencies)) input.includeServices parsed⟩
      packageFiles := [⟨"mod.rs", indexText (own.map fun parsed => moduleName parsed.1)⟩] } := by
  rw [generate, hown, hdependencies]
  rfl

theorem filesWritten_iff (intended : Declaration → Declaration) {out : GeneratorOutput}
    (hown : parseFiles m input.files = .ok own)
    (hdependencies : parseFiles m input.dependencyFiles = .ok dependencies)
    (hout : generate m input = .ok out) :
    FilesWritten intended input own dependencies out ↔
      ∀ parsed ∈ own, ∀ u ∈ fileUses input.includeServices parsed,
        u.Agrees (Declaration.ofFiles (own ++ dependencies)) intended := by
  rw [generate_eq hown hdependencies] at hout
  cases hout
  unfold FilesWritten
  dsimp only
  rw [List.forall₂_map_right_iff, List.forall₂_same]
  refine forall₂_congr fun parsed _ => ?_
  rw [types_itemsOfFile, List.forall₂_map_right_iff, List.forall₂_same, symbolsOf_eq]
  refine (and_iff_right rfl).trans (forall₂_congr fun u _ => ?_)
  exact written_iff intended u

/-- **Each reference in generated code is the name of the namesake of what it denotes**, and so it
is the right name just where the two have the same. -/
theorem generate_written (hown : parseFiles m input.files = .ok own)
    (hdependencies : parseFiles m input.dependencyFiles = .ok dependencies) :
    let ds := Declaration.ofFiles (own ++ dependencies)
    ∃ out, generate m input = .ok out ∧
      FilesWritten (namesake ds) input own dependencies out ∧
      (FilesWritten id input own dependencies out ↔
        ∀ parsed ∈ own, ∀ u ∈ fileUses input.includeServices parsed, u.Agrees ds id) := by
  have hout := generate_eq hown hdependencies
  refine ⟨_, hout, ?_, filesWritten_iff id hown hdependencies hout⟩
  rw [filesWritten_iff _ hown hdependencies hout]
  exact fun parsed _ u _ => ⟨fun _ _ _ _ => rfl, fun _ _ _ _ _ => rfl⟩

/-- Where no two declarations have the same last part of their names, each reference is the name of
what it denotes. -/
theorem filesWritten_of_nodup {out : GeneratorOutput}
    (hown : parseFiles m input.files = .ok own)
    (hdependencies : parseFiles m input.dependencyFiles = .ok dependencies)
    (hout : generate m input = .ok out)
    (distinct : ((Declaration.ofFiles (own ++ dependencies)).map Declaration.name).Nodup) :
    FilesWritten id input own dependencies out := by
  rw [filesWritten_iff id hown hdependencies hout]
  refine fun parsed _ u _ => ⟨fun reference _ d denotes => ?_, fun f _ _ d denotes => ?_⟩
  · exact congrArg Declaration.codeName (namesake_of_nodup distinct (u.mem_of_denotes denotes))
  · exact congrArg Declaration.isMessage (namesake_of_nodup distinct (u.mem_of_denotes denotes))

/-! ### Two declarations of one name -/

/-- Two messages, each with a message `Item` in it and a field of that type. -/
def twoItems : String :=
  "package p;\nmessage A \x7b message Item \x7b \x7d Item x = 1; \x7d\n" ++
    "message B \x7b message Item \x7b \x7d Item y = 1; \x7d\n"

/-- A request to generate code for them. -/
def twoItemsInput : GeneratorInput := { files := [⟨"m.proto", twoItems⟩] }

/-- A reference in the files has a namesake of another name in its place. -/
def IsMisread (includeServices : Bool) (own : List ParsedFile) : Prop :=
  let ds := Declaration.ofFiles own
  ∃ parsed ∈ own, ∃ u ∈ fileUses includeServices parsed, ∃ reference ∈ u.references, ∃ d ∈ ds,
    u.Denotes ds reference d ∧ (namesake ds d).codeName ≠ d.codeName

instance (includeServices : Bool) (own : List ParsedFile) :
    Decidable (IsMisread includeServices own) := by
  unfold IsMisread
  infer_instance

theorem exists_twoItems : ∃ own, parseFiles {} twoItemsInput.files = .ok own ∧
    IsMisread false own := by
  have computed : (match parseFiles {} twoItemsInput.files with
    | .ok own => decide (IsMisread false own)
    | .error _ => false) = true := by decide +kernel
  cases hown : parseFiles {} twoItemsInput.files with
  | error message =>
    rw [hown] at computed
    cases computed
  | ok own =>
    rw [hown] at computed
    exact ⟨own, rfl, of_decide_eq_true computed⟩

/-- **Some reference is not the name of what it denotes.** -/
theorem exists_reference_misread : ¬ ∀ (m : Marker) (input : GeneratorInput)
    (own dependencies : List ParsedFile), parseFiles m input.files = .ok own →
    parseFiles m input.dependencyFiles = .ok dependencies →
    ∃ out, generate m input = .ok out ∧ FilesWritten id input own dependencies out := by
  intro claim
  obtain ⟨own, hown, parsed, hparsed, u, hu, reference, hreference, d, -, denotes, other⟩ :=
    exists_twoItems
  have hnone : parseFiles {} twoItemsInput.dependencyFiles = .ok [] := rfl
  obtain ⟨out, hout, right⟩ := claim {} twoItemsInput own [] hown hnone
  have agrees := (filesWritten_iff id hown hnone hout).1 right parsed hparsed u hu
  rw [List.append_nil] at agrees
  exact other (agrees.names reference hreference d denotes)

/-- The code for the two messages has the names of namesakes, and not the right ones. -/
theorem generate_twoItems : ∃ own, parseFiles {} twoItemsInput.files = .ok own ∧
    parseFiles {} twoItemsInput.dependencyFiles = .ok [] ∧
    ∃ out, generate {} twoItemsInput = .ok out ∧
      FilesWritten (namesake (Declaration.ofFiles (own ++ []))) twoItemsInput own [] out ∧
      ¬ FilesWritten id twoItemsInput own [] out := by
  obtain ⟨own, hown, parsed, hparsed, u, hu, reference, hreference, d, -, denotes, other⟩ :=
    exists_twoItems
  have hnone : parseFiles {} twoItemsInput.dependencyFiles = .ok [] := rfl
  obtain ⟨out, hout, written, right⟩ := generate_written hown hnone
  refine ⟨own, hown, hnone, out, hout, written, fun all => ?_⟩
  have agrees := right.1 all parsed hparsed u hu
  rw [List.append_nil] at agrees
  exact other (agrees.names reference hreference d denotes)

end Generate

end Code

end SchemaDepot
