import SchemaDepot.Proofs.Generate.Emission

/-! # What generated files are called

A generated file is called by what is left of the path of its schema file: that loses its extension
and its separators, and for Rust its capitals. So it lies directly where all generated files lie, and
the paths of two fall together just if nothing is left that tells their schema files apart.

* `Path.IsSingle`: a path of one name only; `Naming.fileStem_joined`, `Naming.snakeChars_joined`: no
  separators are left.
* `Naming.IsPlain`: a path that loses nothing but its extension; `Naming.fileStem_injective`,
  `Code.fileName_eq`.
* `GeneratorOutput.IsCalled`: what the files of an output are called, and when their paths are
  distinct; `isCalled_of_names`.
* `generate_called`: this for both generators; `exists_generated_collide`: distinct schema files may
  give one path. -/

namespace SchemaDepot

/-- The path is one name: it has no separators in it, and is no sign for a directory. -/
structure Path.IsSingle (path : String) : Prop where
  slash : '/' ∉ path.toList
  backslash : '\\' ∉ path.toList
  here : path ≠ "."
  above : path ≠ ".."

namespace Naming

/-! ### Names without separators -/

/-- A character that stands between the names of a path. -/
def isPathSeparator (c : Char) : Bool := c == '/' || c == '\\'

/-- The characters make one name. -/
def IsJoined (cs : List Char) : Prop := ∀ c ∈ cs, isPathSeparator c = false

theorem isJoined_of_all {cs : List Char} (h : cs.all fun c => !isPathSeparator c) : IsJoined cs := by
  intro c hc
  simpa using List.all_eq_true.1 h c hc

theorem isUpper_iff {c : Char} : isUpper c ↔ 65 ≤ c.val.toNat ∧ c.val.toNat ≤ 90 := by
  rw [isUpper, Bool.and_eq_true, decide_eq_true_eq, decide_eq_true_eq]
  rfl

theorem isLower_iff {c : Char} : isLower c ↔ 97 ≤ c.val.toNat ∧ c.val.toNat ≤ 122 := by
  rw [isLower, Bool.and_eq_true, decide_eq_true_eq, decide_eq_true_eq]
  rfl

/-- Small letters stand 32 behind the capitals. -/
theorem toNat_toLower {c : Char} (h : isUpper c) : c.toLower.val.toNat = c.val.toNat + 32 := by
  have bounds := isUpper_iff.1 h
  have between : c.val ≥ 'A'.val ∧ c.val ≤ 'Z'.val := bounds
  have moved : c.toLower.val = c.val + 32 := congrArg Char.val (dif_pos between)
  have small : (32 : UInt32).toNat = 32 := rfl
  rw [moved, UInt32.toNat_add, small]
  exact Nat.mod_eq_of_lt (by omega)

theorem isLower_toLower {c : Char} (h : isUpper c) : isLower c.toLower := by
  have bounds := isUpper_iff.1 h
  rw [isLower_iff, toNat_toLower h]
  omega

theorem isPathSeparator_of_isLower {c : Char} (h : isLower c) : isPathSeparator c = false := by
  by_contra separator
  rw [Bool.not_eq_false, isPathSeparator, Bool.or_eq_true, beq_iff_eq, beq_iff_eq] at separator
  rcases separator with rfl | rfl <;> exact absurd h (by decide)

/-- No separator is left in a stem. -/
theorem fileStem_joined (path : String) : IsJoined (fileStem path).toList := by
  intro c hc
  unfold fileStem at hc
  rw [String.toList_ofList] at hc
  obtain ⟨d, -, rfl⟩ := List.mem_map.1 hc
  by_cases replaced : d == '/' || d == '\\' || d == '.'
  · rw [if_pos replaced]
    rfl
  · rw [if_neg replaced]
    simp only [Bool.or_eq_true, not_or, Bool.not_eq_true] at replaced
    rw [isPathSeparator, replaced.1.1, replaced.1.2]
    rfl

/-- Snake case brings no separators. -/
theorem snakeChars_joined {small : Bool} {cs : List Char} (h : IsJoined cs) :
    IsJoined (snakeChars small cs) := by
  induction cs generalizing small with
  | nil => nofun
  | cons d cs ih =>
    obtain ⟨first, rest⟩ := List.forall_mem_cons.1 h
    unfold snakeChars
    by_cases upper : isUpper d
    · rw [if_pos upper]
      have lowered := isPathSeparator_of_isLower (isLower_toLower upper)
      refine List.forall_mem_append.2 ⟨?_, List.forall_mem_cons.2 ⟨lowered, ih rest⟩⟩
      cases small <;> simp [isPathSeparator]
    · rw [if_neg upper]
      split
      · exact List.forall_mem_cons.2 ⟨rfl, ih rest⟩
      · exact List.forall_mem_cons.2 ⟨first, ih rest⟩

/-! ### Paths that lose only their extension -/

/-- A small letter, a digit, or the mark that stands between words. -/
def isPlain (mark c : Char) : Bool := isLower c || c.isDigit || c == mark

/-- The path has the usual extension, and before that only small letters, digits, and either slashes
or underscores, whichever the mark is. -/
structure IsPlain (mark : Char) (path : String) : Prop where
  either : mark = '/' ∨ mark = '_'
  stem : ∃ stem, path.toList = stem ++ ".proto".toList ∧ stem.all (isPlain mark)

section Plain
variable {mark c d : Char}

theorem ne_of_isPlain (h : isPlain mark c) (other : isPlain mark d = false) : c ≠ d := by
  rintro rfl
  rw [other] at h
  cases h

/-- The same of a character that neither mark is. -/
theorem ne_of_isPlain_of_mark (hmark : mark = '/' ∨ mark = '_') (h : isPlain mark c)
    (other : isPlain '/' d = false ∧ isPlain '_' d = false) : c ≠ d := by
  rcases hmark with rfl | rfl
  · exact ne_of_isPlain h other.1
  · exact ne_of_isPlain h other.2

theorem isUpper_of_isPlain (hmark : isUpper mark = false) (h : isPlain mark c) :
    isUpper c = false := by
  by_contra upper
  rw [Bool.not_eq_false] at upper
  have bounds := isUpper_iff.1 upper
  rw [isPlain, Bool.or_eq_true, Bool.or_eq_true, beq_iff_eq] at h
  rcases h with (lower | digit) | rfl
  · have := (isLower_iff.1 lower).1
    omega
  · rw [Char.isDigit, Bool.and_eq_true, decide_eq_true_eq, decide_eq_true_eq] at digit
    have : c.val.toNat ≤ 57 := digit.2
    omega
  · rw [hmark] at upper
    cases upper

end Plain

theorem splitExtension_append {extension : List Char} (h : '.' ∉ extension) (stem : List Char) :
    splitExtension (stem ++ '.' :: extension) = some (stem, extension) := by
  have whole : ∀ cs : List Char, '.' ∉ cs → splitExtension cs = none := by
    intro cs hcs
    induction cs with
    | nil => rfl
    | cons c cs ih =>
      rw [List.mem_cons, not_or] at hcs
      rw [splitExtension, ih hcs.2]
      exact if_neg (Ne.symm hcs.1)
  induction stem with
  | nil =>
    rw [List.nil_append, splitExtension, whole extension h]
    rfl
  | cons c stem ih => rw [List.cons_append, splitExtension, ih]

section Stem
variable {mark : Char} {path path' : String} {stem : List Char}

/-- The stem of a plain path has underscores in place of slashes. -/
theorem toList_fileStem (hmark : mark = '/' ∨ mark = '_')
    (hpath : path.toList = stem ++ ".proto".toList) (hstem : stem.all (isPlain mark)) :
    (fileStem path).toList = stem.map fun c => if c = '/' then '_' else c := by
  have split : splitExtension path.toList = some (stem, "proto".toList) := by
    rw [hpath]
    exact splitExtension_append (by decide) stem
  unfold fileStem
  rw [String.toList_ofList, split]
  show stem.map _ = _
  refine List.map_congr_left fun c hc => ?_
  have plain := List.all_eq_true.1 hstem c hc
  have backslash : c ≠ '\\' := ne_of_isPlain_of_mark hmark plain (by decide)
  have dot : c ≠ '.' := ne_of_isPlain_of_mark hmark plain (by decide)
  simp [backslash, dot]

/-- **Plain paths are told apart by their stems.** -/
theorem fileStem_injective (h : IsPlain mark path) (h' : IsPlain mark path')
    (same : fileStem path = fileStem path') : path = path' := by
  obtain ⟨hmark, stem, hpath, hstem⟩ := h
  obtain ⟨-, stem', hpath', hstem'⟩ := h'
  -- There are no underscores but those for the mark, so that each can be turned back into it.
  have back : ∀ cs : List Char, cs.all (isPlain mark) →
      (cs.map fun c => if c = '/' then '_' else c).map (fun c => if c = '_' then mark else c) =
        cs := by
    intro cs hcs
    rw [List.map_map]
    refine (List.map_congr_left fun c hc => ?_).trans (List.map_id cs)
    have plain := List.all_eq_true.1 hcs c hc
    rcases hmark with rfl | rfl
    · have underscore : c ≠ '_' := ne_of_isPlain plain (by decide)
      by_cases slash : c = '/' <;> simp [slash, underscore]
    · have slash : c ≠ '/' := ne_of_isPlain plain (by decide)
      by_cases underscore : c = '_' <;> simp [slash, underscore]
  have stems := congrArg String.toList same
  rw [toList_fileStem hmark hpath hstem, toList_fileStem hmark hpath' hstem'] at stems
  have equal : stem = stem' := by rw [← back stem hstem, stems, back stem' hstem']
  rw [← String.toList_inj, hpath, hpath', equal]

theorem snakeChars_eq_self {cs : List Char} (small : Bool)
    (h : ∀ c ∈ cs, isUpper c = false ∧ (c == '-' || c == ' ' || c == '.') = false) :
    snakeChars small cs = cs := by
  induction cs generalizing small with
  | nil => rfl
  | cons c cs ih =>
    obtain ⟨⟨upper, blank⟩, rest⟩ := List.forall_mem_cons.1 h
    rw [snakeChars, upper, blank]
    exact congrArg (c :: ·) (ih _ rest)

/-- The stem of a plain path is in snake case. -/
theorem snakeCase_fileStem (h : IsPlain mark path) : snakeCase (fileStem path) = fileStem path := by
  obtain ⟨hmark, stem, hpath, hstem⟩ := h
  rw [snakeCase, snakeChars_eq_self, String.ofList_toList]
  intro c hc
  rw [toList_fileStem hmark hpath hstem] at hc
  obtain ⟨d, hd, rfl⟩ := List.mem_map.1 hc
  have plain := List.all_eq_true.1 hstem d hd
  by_cases slash : d = '/'
  · rw [if_pos slash]
    decide
  · have hyphen : d ≠ '-' := ne_of_isPlain_of_mark hmark plain (by decide)
    have blank : d ≠ ' ' := ne_of_isPlain_of_mark hmark plain (by decide)
    have dot : d ≠ '.' := ne_of_isPlain_of_mark hmark plain (by decide)
    have upper := isUpper_of_isPlain (by rcases hmark with rfl | rfl <;> decide) plain
    rw [if_neg slash]
    exact ⟨upper, by simp [hyphen, blank, dot]⟩

/-- There are no raw marks in the stem of a plain path. -/
theorem hash_notMem_fileStem (h : IsPlain mark path) : '#' ∉ (fileStem path).toList := by
  obtain ⟨hmark, stem, hpath, hstem⟩ := h
  rw [toList_fileStem hmark hpath hstem]
  intro hash
  obtain ⟨d, hd, hash⟩ := List.mem_map.1 hash
  have plain := List.all_eq_true.1 hstem d hd
  by_cases slash : d = '/'
  · rw [if_pos slash] at hash
    exact absurd hash (by decide)
  · rw [if_neg slash] at hash
    exact ne_of_isPlain_of_mark hmark plain (by decide) hash

end Stem

end Naming

/-! ### Names without raw marks -/

namespace Code

/-- The name that a schema file gives to its source file. -/
def fileName (path : String) : String := withoutRawMarks (Naming.snakeCase (Naming.fileStem path))

theorem withoutRawMarks_escapeKeyword (name : String) :
    withoutRawMarks (escapeKeyword name) = withoutRawMarks name := by
  unfold escapeKeyword
  split
  · have marked : ("r#" ++ name).toList = 'r' :: '#' :: name.toList := by
      rw [String.toList_append]
      exact congrArg (· ++ name.toList) (by decide : "r#".toList = ['r', '#'])
    rw [withoutRawMarks, withoutRawMarks, marked, dropRawMarks]
  · rfl

theorem withoutRawMarks_moduleName (f : TextFile) :
    withoutRawMarks (moduleName f) = fileName f.path := by
  rw [moduleName, valueName, withoutRawMarks_escapeKeyword, fileName]

theorem dropRawMarks_suffix (cs : List Char) : dropRawMarks cs <:+ cs := by
  induction cs using dropRawMarks.induct with
  | case1 cs ih =>
    have marked : cs <:+ 'r' :: '#' :: cs := ⟨['r', '#'], rfl⟩
    exact ih.trans marked
  | case2 cs unmarked =>
    rw [dropRawMarks.eq_2 cs unmarked]

theorem dropRawMarks_eq_self {cs : List Char} (h : '#' ∉ cs) : dropRawMarks cs = cs := by
  unfold dropRawMarks
  split
  · exact absurd (List.mem_cons_of_mem _ List.mem_cons_self) h
  · rfl

theorem fileName_joined (path : String) : Naming.IsJoined (fileName path).toList := by
  have stem : Naming.IsJoined (Naming.snakeCase (Naming.fileStem path)).toList := by
    rw [Naming.snakeCase, String.toList_ofList]
    exact Naming.snakeChars_joined (Naming.fileStem_joined path)
  rw [fileName, withoutRawMarks, String.toList_ofList]
  exact fun c hc => stem c ((dropRawMarks_suffix _).subset hc)

/-- A plain path gives its stem. -/
theorem fileName_eq {mark : Char} {path : String} (h : Naming.IsPlain mark path) :
    fileName path = Naming.fileStem path := by
  rw [fileName, Naming.snakeCase_fileStem h, withoutRawMarks,
    dropRawMarks_eq_self (Naming.hash_notMem_fileStem h), String.ofList_toList]

end Code

/-! ### What the files of an output are called -/

open Naming in
/-- **The files of an output are called by their schema files**: each by the name of its own, and one
more, for all of them, by a name that is given. -/
structure GeneratorOutput.IsCalled (out : GeneratorOutput) (sources : List TextFile)
    (name : String → String) (extension package : String) : Prop where
  files : out.files.map TextFile.path = sources.map fun f => name f.path ++ extension
  packageFiles : out.packageFiles.map TextFile.path = [package ++ extension]
  /-- They lie directly where they are put. -/
  single : ∀ f ∈ out.files ++ out.packageFiles, Path.IsSingle f.path
  /-- Their paths are distinct just if the names are. -/
  nodup_iff : ((out.files ++ out.packageFiles).map TextFile.path).Nodup ↔
    (sources.map fun f => name f.path).Nodup ∧ package ∉ sources.map fun f => name f.path
  /-- Distinct plain paths have distinct names. -/
  plain : ∀ mark, (∀ f ∈ sources, IsPlain mark f.path) → (sources.map TextFile.path).Nodup →
    (sources.map fun f => name f.path).Nodup

/-- A name that nothing separates is a path of its own, if it is longer than two dots. -/
theorem isSingle_of_isJoined {path : String} (joined : Naming.IsJoined path.toList)
    (long : 2 < path.length) : Path.IsSingle path := by
  refine ⟨fun h => ?_, fun h => ?_, fun h => ?_, fun h => ?_⟩
  · exact absurd (joined _ h) (by decide)
  · exact absurd (joined _ h) (by decide)
  · rw [h] at long
    exact absurd long (by decide)
  · rw [h] at long
    exact absurd long (by decide)

theorem isCalled_of_names {out : GeneratorOutput} {sources : List TextFile}
    {name : String → String} {extension package : String}
    (files : out.files.map TextFile.path = sources.map fun f => name f.path ++ extension)
    (packageFiles : out.packageFiles.map TextFile.path = [package ++ extension])
    (long : 2 < extension.length) (joined : Naming.IsJoined extension.toList)
    (packageJoined : Naming.IsJoined package.toList)
    (namesJoined : ∀ path, Naming.IsJoined (name path).toList)
    (injective : ∀ mark path path', Naming.IsPlain mark path → Naming.IsPlain mark path' →
      name path = name path' → path = path') :
    out.IsCalled sources name extension package := by
  have all : (out.files ++ out.packageFiles).map TextFile.path =
      ((sources.map fun f => name f.path) ++ [package]).map (· ++ extension) := by
    rw [List.map_append, files, packageFiles, List.map_append, List.map_map]
    rfl
  have append_injective : Function.Injective (· ++ extension) := fun s t h =>
    (String.append_left_inj extension).1 h
  constructor
  case files => exact files
  case packageFiles => exact packageFiles
  case single =>
    intro f hf
    have named : f.path ∈ (out.files ++ out.packageFiles).map TextFile.path :=
      List.mem_map_of_mem hf
    rw [all] at named
    obtain ⟨stem, hstem, hpath⟩ := List.mem_map.1 named
    have stemJoined : Naming.IsJoined stem.toList := by
      rcases List.mem_append.1 hstem with h | h
      · obtain ⟨g, -, rfl⟩ := List.mem_map.1 h
        exact namesJoined g.path
      · rw [List.mem_singleton.1 h]
        exact packageJoined
    refine isSingle_of_isJoined ?_ ?_
    · rw [← hpath, String.toList_append]
      exact List.forall_mem_append.2 ⟨stemJoined, joined⟩
    · rw [← hpath, String.length_append]
      omega
  case nodup_iff =>
    rw [all, List.nodup_map_iff append_injective, List.nodup_append_comm, List.singleton_append,
      List.nodup_cons, and_comm]
  case plain =>
    intro mark plain distinct
    rw [← Function.comp_def name TextFile.path, ← List.map_map]
    exact List.Nodup.map_on (fun path hpath path' hpath' same => by
      obtain ⟨f, hf, rfl⟩ := List.mem_map.1 hpath
      obtain ⟨g, hg, rfl⟩ := List.mem_map.1 hpath'
      exact injective mark _ _ (plain f hf) (plain g hg) same) distinct

/-! ### The files of both generators -/

section Generate
variable {m : Marker} {input : GeneratorInput} {out : GeneratorOutput}

/-- **What source files are called.** -/
theorem Code.Covers.isCalled (h : Code.Covers input out) :
    out.IsCalled input.files Code.fileName ".rs" "mod" := by
  have paths : out.files.map TextFile.path =
      input.files.map fun f => Code.fileName f.path ++ ".rs" := by
    rw [← List.forall₂_eq_eq_eq, List.forall₂_map_left_iff, List.forall₂_map_right_iff]
    exact h.files.flip.imp fun g f hg => by rw [hg.1, Code.withoutRawMarks_moduleName]
  have package : out.packageFiles.map TextFile.path = ["mod" ++ ".rs"] := by
    rw [h.packageFiles]
    rfl
  refine isCalled_of_names paths package (by decide) ?_ ?_ Code.fileName_joined ?_
  · exact Naming.isJoined_of_all (by decide)
  · exact Naming.isJoined_of_all (by decide)
  · intro mark path path' plain plain' same
    rw [Code.fileName_eq plain, Code.fileName_eq plain'] at same
    exact Naming.fileStem_injective plain plain' same

/-- **What descriptors are called.** -/
theorem Descriptor.Covers.isCalled (h : Descriptor.Covers m input out) :
    out.IsCalled input.files Naming.fileStem ".json" "descriptor_set" := by
  have paths : out.files.map TextFile.path =
      input.files.map fun f => Naming.fileStem f.path ++ ".json" := by
    rw [← List.forall₂_eq_eq_eq, List.forall₂_map_left_iff, List.forall₂_map_right_iff]
    exact h.files.flip.imp fun g f ⟨_, _, hg⟩ => by rw [hg]
  have package : out.packageFiles.map TextFile.path = ["descriptor_set" ++ ".json"] := by
    obtain ⟨text, entries, hfiles, -⟩ := h.packageFiles
    rw [hfiles]
    rfl
  refine isCalled_of_names paths package (by decide) ?_ ?_ Naming.fileStem_joined ?_
  · exact Naming.isJoined_of_all (by decide)
  · exact Naming.isJoined_of_all (by decide)
  · exact fun _ _ _ => Naming.fileStem_injective

/-- Where source files have distinct names, so have their modules. -/
theorem Code.nodup_moduleNames {files : List TextFile}
    (h : (files.map fun f => fileName f.path).Nodup) : (files.map moduleName).Nodup := by
  have names : (files.map fun f => fileName f.path) =
      (files.map moduleName).map withoutRawMarks := by
    rw [List.map_map]
    exact List.map_congr_left fun f _ => (withoutRawMarks_moduleName f).symm
  rw [names] at h
  exact List.Nodup.of_map _ h

/-- **What the files of both generators are called**: by their schema files, one each, and all
modules are declared in one more, each once if their files have distinct names. -/
theorem generate_called (n : Nat)
    (schemas : ∀ f ∈ input.files ++ input.dependencyFiles, f.IsSchema m) :
    (∃ out, (Backends.rust m).run n input = .output out ∧
      out.IsCalled input.files Code.fileName ".rs" "mod" ∧
      out.packageFiles = [⟨"mod.rs", Code.indexText (input.files.map Code.moduleName)⟩] ∧
      ((input.files.map fun f => Code.fileName f.path).Nodup →
        (input.files.map Code.moduleName).Nodup)) ∧
    ∃ out, (Backends.descriptor m).run n input = .output out ∧
      out.IsCalled input.files Naming.fileStem ".json" "descriptor_set" := by
  obtain ⟨code, hcode⟩ := Code.exists_generate_iff.2 schemas
  obtain ⟨descriptors, hdescriptors⟩ := Descriptor.exists_generate_iff.2 schemas
  have covers := Code.covers_of_generate hcode
  refine ⟨⟨code, Backends.run_ofFunction hcode n, covers.isCalled, covers.packageFiles,
    Code.nodup_moduleNames⟩, descriptors, Backends.run_ofFunction hdescriptors n, ?_⟩
  exact (Descriptor.covers_of_generate hdescriptors).isCalled

/-- A file without content is a schema. -/
theorem isSchema_of_empty {f : TextFile} (h : f.content = "") : f.IsSchema m := by
  suffices f.IsSchema {} from TextFile.isSchema_iff.1 this
  have parsed : (Schema.parse {} "").isOk := by decide +kernel
  unfold TextFile.IsSchema
  rw [h]
  cases hroot : Schema.parse {} "" with
  | ok root => exact ⟨root, rfl⟩
  | error fault =>
    rw [hroot] at parsed
    cases parsed

/-- A schema file may have the name of the file for all modules. -/
theorem generate_called_mod :
    let input : GeneratorInput := { files := [⟨"type.proto", ""⟩, ⟨"mod.proto", ""⟩] }
    (∃ out, (Backends.rust {}).run 0 input = .output out ∧
      out.files.map TextFile.path = ["type.rs", "mod.rs"] ∧
      ¬ ((out.files ++ out.packageFiles).map TextFile.path).Nodup) ∧
    ∃ out, (Backends.descriptor {}).run 0 input = .output out ∧
      ((out.files ++ out.packageFiles).map TextFile.path).Nodup := by
  intro input
  have empty : ∀ f ∈ input.files ++ input.dependencyFiles, f.content = "" := by decide
  obtain ⟨⟨code, hcode, called, -⟩, descriptors, hdescriptors, described⟩ :=
    generate_called 0 fun f hf => isSchema_of_empty (m := {}) (empty f hf)
  refine ⟨⟨code, hcode, ?_, ?_⟩, descriptors, hdescriptors, ?_⟩
  · rw [called.files]
    decide +kernel
  · rw [called.nodup_iff]
    decide +kernel
  · rw [described.nodup_iff]
    decide +kernel

/-- **Distinct schema files may give one path.** -/
theorem exists_generated_collide : ¬ ∀ (m : Marker) (input : GeneratorInput) (n : Nat),
    (∀ f ∈ input.files ++ input.dependencyFiles, f.IsSchema m) →
    (input.files.map TextFile.path).Nodup →
    ∀ backend ∈ [Backends.rust m, Backends.descriptor m],
    ∃ out, backend.run n input = .output out ∧
      ((out.files ++ out.packageFiles).map TextFile.path).Nodup ∧
      ∀ f ∈ out.files ++ out.packageFiles, Path.IsSingle f.path := by
  intro claim
  let input : GeneratorInput := { files := [⟨"a/b.proto", ""⟩, ⟨"a_b.proto", ""⟩] }
  have empty : ∀ f ∈ input.files ++ input.dependencyFiles, f.content = "" := by decide
  have schemas : ∀ f ∈ input.files ++ input.dependencyFiles, f.IsSchema {} :=
    fun f hf => isSchema_of_empty (empty f hf)
  obtain ⟨out, hout, distinct, -⟩ := claim {} input 0 schemas (by decide) _ List.mem_cons_self
  obtain ⟨code, hcode⟩ := Code.exists_generate_iff.2 schemas
  have run : (Backends.rust {}).run 0 input = .output code := Backends.run_ofFunction hcode 0
  rw [run] at hout
  cases hout
  have names := ((Code.covers_of_generate hcode).isCalled.nodup_iff.1 distinct).1
  exact absurd names (by decide +kernel)

end Generate

end SchemaDepot
