import SchemaDepot.Proofs.Generate.References
import SchemaDepot.Proofs.Json.Reading
import SchemaDepot.Proofs.Registry.Answers
import SchemaDepot.Generate.Backend

/-! # What generators emit

The generators that come with the library fail only for a file that is no schema, and what is a
schema is the same to all of them. Each gives one file for every file of its own, in their order,
and one more for all of them together.

* `TextFile.isSchema_iff`: what is a schema does not depend on which directives count.
* `Code.exists_generate_iff`, `Descriptor.exists_generate_iff`: when generators succeed.
* `Code.Covers`, `Descriptor.Covers`: what they give; `Code.covers_of_generate`,
  `Descriptor.covers_of_generate`. -/

namespace SchemaDepot

/-! ### Schemas -/

/-- The content of the file is a schema, if directives of this namespace count. -/
def TextFile.IsSchema (m : Marker) (f : TextFile) : Prop :=
  ∃ root, Schema.parse m f.content = .ok root

/-- **What is a schema does not depend on which directives count.** -/
theorem TextFile.isSchema_iff {m m' : Marker} {f : TextFile} : f.IsSchema m ↔ f.IsSchema m' := by
  have any : ∀ m m', f.IsSchema m → f.IsSchema m' := by
    rintro m m' ⟨root, h⟩
    obtain ⟨ts, final, nodes, rest, hscan, hfile, -⟩ := Schema.parse_eq_ok.1 h
    exact ⟨_, Schema.parse_eq_ok.2 ⟨ts, final, nodes, rest, hscan, hfile, rfl⟩⟩
  exact ⟨any m m', any m' m⟩

variable {m : Marker} {files : List TextFile} {parsed : List ParsedFile} {input : GeneratorInput}
  {out : GeneratorOutput}

/-- Files are parsed one by one. -/
theorem parseFiles_eq_ok_iff : parseFiles m files = .ok parsed ↔
    List.Forall₂ (fun f p => p.1 = f ∧ Schema.parse m f.content = .ok p.2) files parsed := by
  rw [parseFiles, mapM_eq_ok_iff]
  refine ⟨fun each => each.imp ?_, fun each => each.imp ?_⟩
  · intro f p hp
    split at hp
    · next root hroot =>
      cases hp
      exact ⟨rfl, hroot⟩
    · cases hp
  · rintro f ⟨g, root⟩ ⟨rfl, hroot⟩
    simp only [hroot]

theorem fst_of_parseFiles (h : parseFiles m files = .ok parsed) : parsed.map Prod.fst = files := by
  induction parseFiles_eq_ok_iff.1 h with
  | nil => rfl
  | cons hp _ ih => rw [List.map_cons, hp.1, ih (parseFiles_eq_ok_iff.2 ‹_›)]

theorem exists_parseFiles_iff :
    (∃ parsed, parseFiles m files = .ok parsed) ↔ ∀ f ∈ files, f.IsSchema m := by
  simp only [parseFiles_eq_ok_iff]
  constructor
  · rintro ⟨parsed, each⟩ f hf
    induction each with
    | nil => cases hf
    | @cons f p _ _ hp _ ih =>
      rcases List.mem_cons.1 hf with rfl | hf
      · exact ⟨p.2, hp.2⟩
      · exact ih hf
  · intro h
    induction files with
    | nil => exact ⟨[], .nil⟩
    | cons f files ih =>
      obtain ⟨⟨root, hroot⟩, h⟩ := List.forall_mem_cons.1 h
      obtain ⟨parsed, each⟩ := ih h
      exact ⟨(f, root) :: parsed, .cons ⟨rfl, hroot⟩ each⟩

/-- What evaluation finds of the trees of files holds of them. -/
theorem exists_parsed_of_decide {P : List ParsedFile → Prop} [DecidablePred P]
    (h : (parseFiles m files).toOption.any fun parsed => decide (P parsed)) :
    ∃ parsed, parseFiles m files = .ok parsed ∧ P parsed := by
  cases hparsed : parseFiles m files with
  | error message =>
    rw [hparsed] at h
    cases h
  | ok parsed =>
    rw [hparsed] at h
    exact ⟨parsed, rfl, of_decide_eq_true h⟩

/-- All files of an input are parsed just if each is a schema. -/
theorem exists_parsed_iff : (∃ own dependencies, parseFiles m input.files = .ok own ∧
      parseFiles m input.dependencyFiles = .ok dependencies) ↔
    ∀ f ∈ input.files ++ input.dependencyFiles, f.IsSchema m := by
  rw [List.forall_mem_append, ← exists_parseFiles_iff, ← exists_parseFiles_iff]
  exact ⟨fun ⟨own, dependencies, h, h'⟩ => ⟨⟨own, h⟩, dependencies, h'⟩,
    fun ⟨⟨own, h⟩, dependencies, h'⟩ => ⟨own, dependencies, h, h'⟩⟩

/-- What is made of all parsed files is made just if each file is a schema. -/
theorem exists_output_iff (build : List ParsedFile → List ParsedFile → GeneratorOutput) :
    (∃ out, (do return build (← parseFiles m input.files) (← parseFiles m input.dependencyFiles)) =
      Except.ok out) ↔ ∀ f ∈ input.files ++ input.dependencyFiles, f.IsSchema m := by
  rw [← exists_parsed_iff]
  constructor
  · rintro ⟨out, h⟩
    obtain ⟨own, hown, h⟩ := exists_of_bind_ok h
    obtain ⟨dependencies, hdependencies, -⟩ := exists_of_bind_ok h
    exact ⟨own, dependencies, hown, hdependencies⟩
  · rintro ⟨own, dependencies, hown, hdependencies⟩
    rw [hown, hdependencies]
    exact ⟨_, rfl⟩

/-! ### Code -/

namespace Code

/-- **The generator of code succeeds just if every file is a schema.** -/
theorem exists_generate_iff : (∃ out, generate m input = .ok out) ↔
    ∀ f ∈ input.files ++ input.dependencyFiles, f.IsSchema m :=
  exists_output_iff _

/-- **What the generator of code gives.** -/
structure Covers (input : GeneratorInput) (out : GeneratorOutput) : Prop where
  /-- A source file for each schema file of its own, in their order, under the name of its module;
  it says what it comes from. -/
  files : List.Forall₂ (fun f g => g.path = withoutRawMarks (moduleName f) ++ ".rs" ∧
    (header ++ "// source: " ++ f.path ++ "\n\n").toList <+: g.content.toList)
    input.files out.files
  /-- One more file names the modules, in the same order. -/
  packageFiles : out.packageFiles = [⟨"mod.rs", indexText (input.files.map moduleName)⟩]

/-- The text of a file starts with what it comes from. -/
theorem source_prefix_fileText (symbols : Symbols) (includeServices : Bool) (p : ParsedFile) :
    (header ++ "// source: " ++ p.1.path ++ "\n\n").toList <+:
      (fileText symbols includeServices p).toList := by
  have text : fileText symbols includeServices p =
      header ++ "// source: " ++ p.1.path ++ "\n\n" ++ _ := String.append_assoc ..
  rw [text]
  exact ⟨_, String.toList_append.symm⟩

theorem covers_of_generate (h : generate m input = .ok out) : Covers input out := by
  obtain ⟨own, dependencies, hown, hdependencies⟩ :=
    exists_parsed_iff.2 (exists_generate_iff.1 ⟨out, h⟩)
  have modules : (own.map fun p => moduleName p.1) = input.files.map moduleName := by
    rw [← fst_of_parseFiles hown, List.map_map, Function.comp_def]
  rw [generate_eq hown hdependencies, modules] at h
  cases h
  constructor
  case files =>
    refine List.forall₂_map_right_iff.2 ((parseFiles_eq_ok_iff.1 hown).imp ?_)
    rintro f p ⟨rfl, -⟩
    exact ⟨rfl, source_prefix_fileText _ _ p⟩
  case packageFiles => rfl

end Code

namespace Descriptor

/-- How the documents of an input are written. -/
def write (options : Options) : Json → String :=
  if options.get? prettyOption == some "false" then Json.compact else Json.pretty

theorem read_write (options : Options) {j : Json} (h : j.IsPlain) :
    Json.read (write options j) = some j := by
  unfold write
  split
  · exact Json.read_compact h
  · exact Json.read_pretty h

theorem generate_eq {own dependencies : List ParsedFile} (hown : parseFiles m input.files = .ok own)
    (hdependencies : parseFiles m input.dependencyFiles = .ok dependencies) :
    generate m input = .ok {
      files := own.map fun parsed =>
        ⟨Naming.fileStem parsed.1.path ++ ".json", write input.options (describe parsed)⟩
      packageFiles := [⟨"descriptor_set.json", write input.options
        (.array (own.map (listEntry false) ++ dependencies.map (listEntry true)))⟩] } := by
  rw [generate, hown, hdependencies]
  rfl

/-- **The generator of descriptors succeeds just if every file is a schema.** -/
theorem exists_generate_iff : (∃ out, generate m input = .ok out) ↔
    ∀ f ∈ input.files ++ input.dependencyFiles, f.IsSchema m :=
  exists_output_iff _

/-- The entry of a file in the list of all files says which it is. -/
structure Lists (f : TextFile) (isDependency : Bool) (entry : Json) : Prop where
  path : entry.get? "path" = some (.string f.path)
  checksum : entry.get? "checksum" = some (.string (Checksum.ofText f.content).hex)
  dependency : entry.get? "dependency" = some (.bool isDependency)

/-- **What the generator of descriptors gives.** -/
structure Covers (m : Marker) (input : GeneratorInput) (out : GeneratorOutput) : Prop where
  /-- The document of each schema file of its own, in their order. -/
  files : List.Forall₂ (fun f g => ∃ root, Schema.parse m f.content = .ok root ∧
    g = ⟨Naming.fileStem f.path ++ ".json", write input.options (describe (f, root))⟩)
    input.files out.files
  /-- One more document is read back as the list of all files: its own, then the others, each in
  their order. -/
  packageFiles : ∃ text entries, out.packageFiles = [⟨"descriptor_set.json", text⟩] ∧
    Json.read text = some (.array entries) ∧
    List.Forall₂ (fun (f, isDependency) entry => Lists f isDependency entry)
      (input.files.map (·, false) ++ input.dependencyFiles.map (·, true)) entries

theorem isPlain_listEntry (isDependency : Bool) (p : ParsedFile) :
    (listEntry isDependency p).IsPlain := by
  have package : (Json.ofOption (Schema.packageName? p.2)).IsPlain := by
    cases Schema.packageName? p.2 <;> trivial
  exact ⟨trivial, package, trivial, trivial, trivial⟩

theorem lists_map (isDependency : Bool) (parsed : List ParsedFile) :
    List.Forall₂ (fun (f, isDependency) entry => Lists f isDependency entry)
      ((parsed.map Prod.fst).map (·, isDependency)) (parsed.map (listEntry isDependency)) := by
  rw [List.map_map, List.forall₂_map_left_iff, List.forall₂_map_right_iff, List.forall₂_same]
  exact fun p _ => ⟨rfl, rfl, rfl⟩

theorem covers_of_generate (h : generate m input = .ok out) : Covers m input out := by
  obtain ⟨own, dependencies, hown, hdependencies⟩ :=
    exists_parsed_iff.2 (exists_generate_iff.1 ⟨out, h⟩)
  rw [generate_eq hown hdependencies] at h
  cases h
  constructor
  case files =>
    refine List.forall₂_map_right_iff.2 ((parseFiles_eq_ok_iff.1 hown).imp ?_)
    rintro f p ⟨rfl, hroot⟩
    exact ⟨p.2, hroot, rfl⟩
  case packageFiles =>
    refine ⟨_, _, rfl, read_write _ ?_, ?_⟩
    · refine Json.arePlain_iff.2 (List.forall_mem_append.2 ⟨?_, ?_⟩) <;>
      · rintro entry hentry
        obtain ⟨p, -, rfl⟩ := List.mem_map.1 hentry
        exact isPlain_listEntry _ p
    · rw [← fst_of_parseFiles hown, ← fst_of_parseFiles hdependencies]
      exact List.rel_append (lists_map false own) (lists_map true dependencies)

end Descriptor

/-! ### Backends -/

namespace Backends

theorem run_ofFunction {description : String} {f : GeneratorInput → Except String GeneratorOutput}
    (h : f input = .ok out) (n : Nat) :
    (Backend.ofFunction description f).run n input = .output out := by
  unfold Backend.ofFunction
  simp only [h]

/-- There are two backends that come with the library. -/
theorem eq_of_find?_builtIn {language : String} {backend : Backend}
    (h : (builtIn m).find? language = some backend) :
    backend = rust m ∨ backend = descriptor m := by
  obtain ⟨entry, hentry, rfl⟩ := Option.map_eq_some_iff.1 h
  have member := List.mem_of_find?_eq_some hentry
  simp only [builtIn, List.mem_cons, List.not_mem_nil, or_false] at member
  exact member.imp (congrArg Prod.snd) (congrArg Prod.snd)

/-- A backend that comes with the library always ends. -/
theorem run_builtIn_ne_never {language : String} {backend : Backend}
    (h : (builtIn m).find? language = some backend) (n : Nat) (input : GeneratorInput) :
    backend.run n input ≠ .never := by
  have ends : ∀ description f, (Backend.ofFunction description f).run n input ≠ .never := by
    intro description f never
    unfold Backend.ofFunction at never
    simp only at never
    split at never <;> cases never
  rcases eq_of_find?_builtIn h with rfl | rfl
  · exact ends _ _
  · exact ends _ _

/-- **A backend that comes with the library fails for no schema**, however often it was called. -/
theorem run_builtIn_eq_output {language : String} {backend : Backend}
    (h : (builtIn m).find? language = some backend)
    (schemas : ∀ f ∈ input.files ++ input.dependencyFiles, f.IsSchema m) (n : Nat) :
    ∃ out, backend.run n input = .output out := by
  rcases eq_of_find?_builtIn h with rfl | rfl
  · obtain ⟨out, hout⟩ := Code.exists_generate_iff.2 schemas
    exact ⟨out, run_ofFunction hout n⟩
  · obtain ⟨out, hout⟩ := Descriptor.exists_generate_iff.2 schemas
    exact ⟨out, run_ofFunction hout n⟩

end Backends

end SchemaDepot
