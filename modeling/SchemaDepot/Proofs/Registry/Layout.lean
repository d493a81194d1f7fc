import SchemaDepot.Proofs.Files.Tree
import SchemaDepot.Proofs.Registry.Loading
import SchemaDepot.Proofs.Registry.Publication
import SchemaDepot.Proofs.Text.Utf8

/-! # A layout is read completely

Each directory in the directory of a module is a version. Whatever lies below it counts, however
deep, by the last of the names that lead to it.

* `FileTree.HasSchema`, `Layout.Lists`: what a version is read from.
* `Version.Describes`: what a version says about its directory; `Layout.exists_readVersion`: from a
  directory of texts such a version is read.
* `Layout.IsReadable`, `Layout.Reads`: this for a whole layout; `Layout.read_complete`: what is
  read, and that it goes into a store without versions. -/

namespace SchemaDepot

/-! ### The directory of a version -/

/-- A schema file lies somewhere below a directory. -/
def FileTree.HasSchema (tree : FileTree) (f : TextFile) : Prop :=
  ∃ names name bytes, tree.Leads (names ++ [name]) (.file bytes) ∧
    Path.HasExtension "proto" name ∧ f.path = "/".intercalate (names ++ [name]) ∧
    Text.Utf8.decode bytes = .ok f.content

namespace Layout

/-- The references that a text lists: its lines without the blanks around them, but for empty ones
and those that start with a number sign. -/
def Lists (text : String) (references : List String) : Prop :=
  ∃ lines, text = "\n".intercalate lines ∧ (∀ line ∈ lines, '\n' ∉ line.toList) ∧
    references = (lines.map Text.trim).filter fun line =>
      line ≠ "" ∧ line.toList.head? ≠ some '#'

/-- The files in the directory of a version that are read are texts. -/
structure HoldsTexts (tree : FileTree) : Prop where
  schemas : ∀ names name bytes, tree.Leads (names ++ [name]) (.file bytes) →
    Path.HasExtension "proto" name → ∃ text, Text.Utf8.decode bytes = .ok text
  listed : ∀ t, tree.Leads [dependencyFile] t →
    ∃ bytes text, t = .file bytes ∧ Text.Utf8.decode bytes = .ok text

end Layout

/-- What a version says about its directory. -/
structure Version.Describes (v : Version) (tree : FileTree) : Prop where
  files : ∀ f, f ∈ v.files ↔ tree.HasSchema f
  ordered : v.files.Pairwise fun f g =>
    Text.Utf8.encode f.path.toList < Text.Utf8.encode g.path.toList
  listed : ∀ bytes, tree.Leads [Layout.dependencyFile] (.file bytes) →
    ∃ text, Text.Utf8.decode bytes = .ok text ∧ Layout.Lists text v.dependencies
  unlisted : (∀ t, ¬ tree.Leads [Layout.dependencyFile] t) → v.dependencies = []
  sealed : v.sealed = v
  verifies : v.verify = true

namespace Layout

theorem referenceLines_lists (text : String) : Lists text (referenceLines text) := by
  refine ⟨Text.split '\n' text, (Text.intercalate_split '\n' text).symm, fun line hline => ?_, ?_⟩
  · obtain ⟨piece, hpiece, rfl⟩ := List.mem_map.1 hline
    rw [String.toList_ofList]
    exact Text.notMem_of_mem_splitAt hpiece
  · refine List.filter_congr fun line _ => Bool.eq_iff_iff.2 ?_
    simp

variable {path : String} {tree : FileTree}

theorem isSchema_iff {names : List String} {name : String}
    (named : ∀ n ∈ names ++ [name], Path.IsName n) :
    isSchema ("/".intercalate (names ++ [name])) = true ↔ Path.HasExtension "proto" name := by
  rw [isSchema, Path.fileName_intercalate named, beq_iff_eq]
  exact Path.extension?_toList_iff (by decide)

theorem mem_schemas_iff (named : tree.IsNamed) {f : String × List UInt8} :
    f ∈ tree.files "" ∧ isSchema f.1 = true ↔ ∃ names name,
      tree.Leads (names ++ [name]) (.file f.2) ∧ Path.HasExtension "proto" name ∧
      f.1 = "/".intercalate (names ++ [name]) := by
  rw [FileTree.mem_files_iff named]
  constructor
  · rintro ⟨⟨names, leads, hpath⟩, schema⟩
    obtain rfl | ⟨front, last, rfl⟩ := List.eq_nil_or_concat names
    · rw [hpath] at schema
      exact absurd schema (by decide +kernel)
    · rw [List.concat_eq_append] at leads hpath
      rw [hpath, isSchema_iff (leads.isName named)] at schema
      exact ⟨front, last, leads, schema, hpath⟩
  · rintro ⟨names, name, leads, schema, hpath⟩
    exact ⟨⟨_, leads, hpath⟩, by rwa [hpath, isSchema_iff (leads.isName named)]⟩

/-- The file is one of those that are read for the version at a path. -/
def isRead (path : String) (f : String × List UInt8) : Bool :=
  isSchema f.1 && FileTree.isShort (Path.parent (Path.join path f.1))

/-- The file, below the directory of a version, as a text. -/
def fileOf (path : String) (f : String × List UInt8) : Except FileFault TextFile := do
  return TextFile.mk f.1 (← textOf (Path.join path f.1) f.2)

theorem schemaFiles_eq (path : String) (tree : FileTree) : schemaFiles path tree =
    (((tree.files "").filter (isRead path)).mapM (fileOf path) >>= fun files =>
      .ok (files.mergeSort fun f g => f.path ≤ g.path)) :=
  rfl

theorem fileOf_eq_ok_iff {f : String × List UInt8} {file : TextFile}
    (short : FileTree.isShort (Path.join path f.1) = true) :
    fileOf path f = .ok file ↔ file.path = f.1 ∧ Text.Utf8.decode f.2 = .ok file.content := by
  have htext : textOf (Path.join path f.1) f.2 = (FileTree.file f.2).text := if_pos short
  rw [fileOf, htext, ← FileTree.text_file_eq_ok_iff]
  constructor
  · intro h
    obtain ⟨text, htext, h⟩ := exists_of_bind_ok h
    cases h
    exact ⟨rfl, htext⟩
  · rintro ⟨hfile, htext⟩
    rw [htext, ← hfile]
    rfl

section Version
variable (proper : tree.IsProper) (named : tree.IsNamed) (texts : HoldsTexts tree)
  (short : ∀ names t, tree.Leads names t → FileTree.isShort (names.foldl Path.join path) = true)
  (filled : path ≠ "")

include named short filled in
theorem isShort_of_leads {names : List String} {t : FileTree} (some : names ≠ [])
    (leads : tree.Leads names t) :
    FileTree.isShort (Path.join path ("/".intercalate names)) = true := by
  rw [← Path.foldl_join filled some (leads.isName named)]
  exact short names t leads

include named short filled in
/-- All schema files below the directory are read. -/
theorem mem_filter_isRead_iff {f : String × List UInt8} :
    f ∈ (tree.files "").filter (isRead path) ↔ ∃ names name,
      tree.Leads (names ++ [name]) (.file f.2) ∧ Path.HasExtension "proto" name ∧
      f.1 = "/".intercalate (names ++ [name]) := by
  rw [← mem_schemas_iff named, List.mem_filter, isRead, Bool.and_eq_true]
  refine ⟨fun ⟨mem, schema, _⟩ => ⟨mem, schema⟩, fun ⟨mem, schema⟩ => ⟨mem, schema, ?_⟩⟩
  obtain ⟨names, name, leads, -, hpath⟩ := (mem_schemas_iff named).1 ⟨mem, schema⟩
  rw [hpath]
  exact Path.isShort_parent (isShort_of_leads named short filled (by simp) leads)

include proper named texts short filled in
/-- **The schema files of a version are read**, wherever they lie. -/
theorem exists_schemaFiles : ∃ files, schemaFiles path tree = .ok files ∧
    files.Pairwise (fun f g => f.path < g.path) ∧ ∀ f, f ∈ files ↔ tree.HasSchema f := by
  have found (f : String × List UInt8) := @mem_filter_isRead_iff path tree named short filled f
  have read (f : String × List UInt8) (hf : f ∈ (tree.files "").filter (isRead path))
      (file : TextFile) : fileOf path f = .ok file ↔
        file.path = f.1 ∧ Text.Utf8.decode f.2 = .ok file.content := by
    obtain ⟨names, name, leads, -, hpath⟩ := (found f).1 hf
    exact fileOf_eq_ok_iff (hpath ▸ isShort_of_leads named short filled (by simp) leads)
  obtain ⟨files, hfiles⟩ :
      ∃ files, ((tree.files "").filter (isRead path)).mapM (fileOf path) = .ok files := by
    refine exists_mapM_eq_ok fun f hf => ?_
    obtain ⟨names, name, leads, schema, -⟩ := (found f).1 hf
    obtain ⟨text, htext⟩ := texts.schemas names name f.2 leads schema
    exact ⟨⟨f.1, text⟩, (read f hf _).2 ⟨rfl, htext⟩⟩
  refine ⟨files.mergeSort fun f g => f.path ≤ g.path, ?_, ?_, fun file => ?_⟩
  · rw [schemaFiles_eq, hfiles]
    rfl
  · refine pairwise_mergeSort_key TextFile.path ?_
    have distinct : (((tree.files "").filter (isRead path)).map Prod.fst).Nodup :=
      (FileTree.nodup_files proper named).sublist (List.filter_sublist.map _)
    refine List.pairwise_map.2 (pairwise_of_mapM hfiles (List.pairwise_map.1 distinct) ?_)
    intro f hf f' hf' differ file file' hfile hfile'
    rwa [((read f hf file).1 hfile).1, ((read f' hf' file').1 hfile').1]
  · rw [(List.mergeSort_perm _ _).mem_iff, mem_mapM_iff hfiles]
    constructor
    · rintro ⟨f, hf, hfile⟩
      obtain ⟨hpath, htext⟩ := (read f hf file).1 hfile
      obtain ⟨names, name, leads, schema, joined⟩ := (found f).1 hf
      exact ⟨names, name, f.2, leads, schema, hpath.trans joined, htext⟩
    · rintro ⟨names, name, bytes, leads, schema, joined, htext⟩
      have hf := (found (file.path, bytes)).2 ⟨names, name, leads, schema, joined⟩
      exact ⟨_, hf, (read _ hf file).2 ⟨rfl, htext⟩⟩

end Version

section Directory
variable {entries : List (String × FileTree)}

/-- The file that lists references is found if it is there. -/
theorem lookup_dependencyFile (proper : (FileTree.directory entries).IsProper) {t : FileTree} :
    (FileTree.directory entries).lookup dependencyFile = .ok t ↔
      (FileTree.directory entries).Leads [dependencyFile] t := by
  have found : (FileTree.directory entries).lookup dependencyFile =
      FileTree.entry dependencyFile entries := by
    have check : FileTree.checkPath dependencyFile = .ok () := rfl
    have parts : FileTree.parts dependencyFile = [dependencyFile] := by decide +kernel
    have first : dependencyFile.toList.head? ≠ some '/' := by decide
    have idle : FileTree.isIdle dependencyFile = false := by decide +kernel
    have up : dependencyFile ≠ ".." := by decide +kernel
    rw [FileTree.lookup, check, parts, if_neg first]
    show FileTree.follow [] (.directory entries) [dependencyFile] = _
    rw [FileTree.follow, idle, if_neg Bool.false_ne_true, if_neg up]
    cases FileTree.entry dependencyFile entries <;> rfl
  cases proper with
  | directory distinct _ =>
    rw [found, FileTree.entry_eq_ok_iff distinct (by decide +kernel), FileTree.leads_directory]
    simp only [FileTree.leads_nil, exists_eq_right']

variable (proper : (FileTree.directory entries).IsProper)
  (texts : HoldsTexts (.directory entries))
  (short : ∀ names t, (FileTree.directory entries).Leads names t →
    FileTree.isShort (names.foldl Path.join path) = true)

include proper texts short in
/-- **The references of a version are read.** -/
theorem exists_dependencies : ∃ references,
    dependencies path (.directory entries) = .ok references ∧
    (∀ bytes, (FileTree.directory entries).Leads [dependencyFile] (.file bytes) →
      ∃ text, Text.Utf8.decode bytes = .ok text ∧ Lists text references) ∧
    ((∀ t, ¬ (FileTree.directory entries).Leads [dependencyFile] t) → references = []) := by
  by_cases present : ∃ t, (FileTree.directory entries).Leads [dependencyFile] t
  · obtain ⟨t, leads⟩ := present
    obtain ⟨bytes, text, rfl, htext⟩ := texts.listed t leads
    have found := (lookup_dependencyFile proper).2 leads
    have read : (FileTree.directory entries).readText dependencyFile = .ok text := by
      rw [FileTree.readText, found]
      exact FileTree.text_file_eq_ok_iff.2 htext
    refine ⟨referenceLines text, ?_, fun bytes' leads' => ?_, fun absent => absurd leads (absent _)⟩
    · have seen : FileTree.isShort (Path.join path dependencyFile) = true := short _ _ leads
      rw [dependencies, FileTree.has, found, read, seen]
      rfl
    · cases leads.unique leads' proper
      exact ⟨text, htext, referenceLines_lists text⟩
  · refine ⟨[], ?_, fun bytes leads => absurd ⟨_, leads⟩ present, fun _ => rfl⟩
    have missing : (FileTree.directory entries).has dependencyFile = false := by
      rw [FileTree.has]
      split
      · next found => exact absurd ⟨_, (lookup_dependencyFile proper).1 found⟩ present
      · rfl
    rw [dependencies, missing, Bool.and_false]
    rfl

include proper texts short in
/-- **The directory of a version is read** as it is. -/
theorem exists_readVersion (module version : String) (filled : path ≠ "")
    (named : (FileTree.directory entries).IsNamed) :
    ∃ v, readVersion module version path (.directory entries) = .ok v ∧
      v.id = ⟨module, version⟩ ∧ v.Describes (.directory entries) := by
  obtain ⟨files, hfiles, ordered, mem⟩ := exists_schemaFiles proper named texts short filled
  obtain ⟨references, hreferences, listed, unlisted⟩ := exists_dependencies proper texts short
  refine ⟨Version.sealed { module, version, files, dependencies := references }, ?_, rfl, ?_⟩
  · rw [readVersion, hfiles]
    show (dependencies path (.directory entries) >>= fun references => _) = _
    rw [hreferences]
    rfl
  · constructor
    case files => exact mem
    case ordered => exact ordered.imp Text.Utf8.encode_lt_encode
    case listed => exact listed
    case unlisted => exact unlisted
    case sealed => rfl
    case verifies => exact Version.verify_sealed _

end Directory

/-! ### The directories above -/

/-- The layout in the directory at a path can be read: the paths to all that is there are short, and
what versions are read from are texts. -/
structure IsReadable (path : String) (tree : FileTree) : Prop where
  directory : ∃ entries, tree = .directory entries
  short : ∀ names t, tree.Leads names t → FileTree.isShort (names.foldl Path.join path) = true
  texts : ∀ module version t, tree.Leads [module, version] t → HoldsTexts t

/-- **All that the versions of a layout say.** -/
structure Reads (tree : FileTree) (vs : List Version) : Prop where
  /-- Modules, and the versions of each, come in the order of their bytes, each once. -/
  ordered : vs.Pairwise fun v w =>
    Text.Utf8.encode v.module.toList < Text.Utf8.encode w.module.toList ∨
    v.module = w.module ∧ Text.Utf8.encode v.version.toList < Text.Utf8.encode w.version.toList
  /-- There is a version for each directory in a directory, and no other. -/
  complete : ∀ module version, ⟨module, version⟩ ∈ vs.map Version.id ↔
    ∃ entries, tree.Leads [module, version] (.directory entries)
  describes : ∀ v ∈ vs, ∀ t, tree.Leads [v.module, v.version] t → v.Describes t

section Directories
variable {entries : List (String × FileTree)}
  (proper : (FileTree.directory entries).IsProper) (named : (FileTree.directory entries).IsNamed)
  (short : ∀ names t, (FileTree.directory entries).Leads names t →
    FileTree.isShort (names.foldl Path.join path) = true)

/-- The tree is a directory. -/
def isDirectory : FileTree → Bool
  | .directory _ => true
  | .file _ => false

include proper short in
/-- The directories in a directory are all found. -/
theorem exists_directories : ∃ found, directories path (.directory entries) = .ok found ∧
    found.Pairwise (fun d e => d.1 < e.1) ∧
    ∀ d, d ∈ found ↔ d ∈ entries ∧ ∃ below, d.2 = .directory below := by
  have here : FileTree.isShort path = true := short [] _ (.here _)
  have read : directories path (.directory entries) =
      .ok ((entries.filter (isDirectory ·.2)).mergeSort fun a b => a.1 ≤ b.1) := by
    rw [directories, here]
    rfl
  refine ⟨_, read, (directories_ordered read proper).1, fun d => ?_⟩
  rw [(List.mergeSort_perm _ _).mem_iff, List.mem_filter, and_congr_right_iff]
  intro _
  cases d.2 <;> simp [isDirectory]

include short in
/-- What is short stays so below. -/
theorem short_of_mem {name : String} {child : FileTree} (mem : (name, child) ∈ entries) :
    ∀ names t, child.Leads names t →
      FileTree.isShort (names.foldl Path.join (Path.join path name)) = true :=
  fun names t leads => short (name :: names) t (.through mem leads)

include proper named short in
/-- The versions of a module are read from the directories in its own. -/
theorem exists_readModule (module : String) (filled : path ≠ "")
    (texts : ∀ version t, (FileTree.directory entries).Leads [version] t → HoldsTexts t) :
    ∃ vs, readModule module path (.directory entries) = .ok vs ∧ ∀ v, v ∈ vs ↔
      ∃ version below, (FileTree.directory entries).Leads [version] (.directory below) ∧
        readVersion module version (Path.join path version) (.directory below) = .ok v := by
  obtain ⟨found, hfound, -, mem⟩ := exists_directories proper short
  obtain ⟨vs, hvs⟩ : ∃ vs, found.mapM (fun d =>
      readVersion module d.1 (Path.join path d.1) d.2) = .ok vs := by
    refine exists_mapM_eq_ok fun ⟨version, t⟩ hd => ?_
    obtain ⟨inside, below, rfl⟩ := (mem _).1 hd
    obtain ⟨own, ownBelow⟩ := FileTree.isNamed_directory.1 named _ inside
    obtain ⟨v, hv, -⟩ := exists_readVersion (FileTree.isProper_of_mem proper _ inside)
      (texts version _ (.through inside (.here _))) (short_of_mem short inside) module version
      (Path.join_ne_empty filled own) ownBelow
    exact ⟨v, hv⟩
  refine ⟨vs, ?_, fun v => ?_⟩
  · show (directories path (.directory entries) >>= fun found => found.mapM _) = _
    rw [hfound]
    exact hvs
  · rw [mem_mapM_iff hvs]
    constructor
    · rintro ⟨⟨version, t⟩, hd, hv⟩
      obtain ⟨inside, below, rfl⟩ := (mem _).1 hd
      exact ⟨version, below, .through inside (.here _), hv⟩
    · rintro ⟨version, below, leads, hv⟩
      obtain ⟨child, inside, leads⟩ := FileTree.leads_directory.1 leads
      obtain rfl := FileTree.leads_nil.1 leads
      exact ⟨(version, .directory below), (mem _).2 ⟨inside, below, rfl⟩, hv⟩

include proper named short in
/-- **The versions of a layout are read** from the directories in those of modules. -/
theorem exists_readTree (filled : path ≠ "")
    (texts : ∀ module version t, (FileTree.directory entries).Leads [module, version] t →
      HoldsTexts t) :
    ∃ vs, readTree path (.directory entries) = .ok vs ∧ ∀ v, v ∈ vs ↔ ∃ module version below,
      (FileTree.directory entries).Leads [module, version] (.directory below) ∧
      readVersion module version (Path.join (Path.join path module) version)
        (.directory below) = .ok v := by
  obtain ⟨found, hfound, -, mem⟩ := exists_directories proper short
  have each (d : String × FileTree) (hd : d ∈ found) : ∃ vs,
      readModule d.1 (Path.join path d.1) d.2 = .ok vs ∧ ∀ v, v ∈ vs ↔ ∃ version below,
        d.2.Leads [version] (.directory below) ∧
        readVersion d.1 version (Path.join (Path.join path d.1) version)
          (.directory below) = .ok v := by
    obtain ⟨module, t⟩ := d
    obtain ⟨inside, below, rfl⟩ := (mem _).1 hd
    obtain ⟨own, ownBelow⟩ := FileTree.isNamed_directory.1 named _ inside
    exact exists_readModule (FileTree.isProper_of_mem proper _ inside) ownBelow
      (short_of_mem short inside) module (Path.join_ne_empty filled own)
      fun version t leads => texts module version t (.through inside leads)
  obtain ⟨perModule, hvs⟩ : ∃ perModule, found.mapM (fun d =>
      readModule d.1 (Path.join path d.1) d.2) = .ok perModule :=
    exists_mapM_eq_ok fun d hd => (each d hd).imp fun _ h => h.1
  refine ⟨perModule.flatten, ?_, fun v => ?_⟩
  · rw [readTree, hfound]
    show (found.mapM (fun d => readModule d.1 (Path.join path d.1) d.2) >>= fun perModule =>
      Except.ok perModule.flatten) = _
    rw [hvs]
    rfl
  · rw [List.mem_flatten]
    constructor
    · rintro ⟨vs, hmem, hv⟩
      obtain ⟨⟨module, t⟩, hd, hread⟩ := (mem_mapM_iff hvs).1 hmem
      obtain ⟨vs', hread', all⟩ := each _ hd
      obtain rfl := Except.ok.inj (hread.symm.trans hread')
      obtain ⟨version, below, leads, hv⟩ := (all v).1 hv
      exact ⟨module, version, below, .through ((mem _).1 hd).1 leads, hv⟩
    · rintro ⟨module, version, below, leads, hv⟩
      obtain ⟨child, inside, leads⟩ := FileTree.leads_directory.1 leads
      have hd : (module, child) ∈ found := by
        refine (mem _).2 ⟨inside, ?_⟩
        cases leads
        exact ⟨_, rfl⟩
      obtain ⟨vs, hread, all⟩ := each _ hd
      exact ⟨vs, (mem_mapM_iff hvs).2 ⟨_, hd, hread⟩, (all v).2 ⟨version, below, leads, hv⟩⟩

include proper named short in
/-- The directory of a version is read as one that it describes. -/
theorem exists_version_of_leads (filled : path ≠ "")
    (texts : ∀ module version t, (FileTree.directory entries).Leads [module, version] t →
      HoldsTexts t) {module version : String} {inside : List (String × FileTree)}
    (leads : (FileTree.directory entries).Leads [module, version] (.directory inside)) :
    ∃ v, readVersion module version (Path.join (Path.join path module) version)
        (.directory inside) = .ok v ∧ v.id = ⟨module, version⟩ ∧
      v.Describes (.directory inside) := by
  have shorter : ∀ names t, (FileTree.directory inside).Leads names t → FileTree.isShort
      ((module :: version :: names).foldl Path.join path) = true :=
    fun names t more => short (module :: version :: names) t (leads.append more)
  have own := leads.isName named
  exact exists_readVersion (leads.isProper proper) (texts module version _ leads) shorter module
    version (Path.join_ne_empty (Path.join_ne_empty filled (own module (by simp)))
      (own version (by simp))) (leads.isNamed named)

include proper named short in
/-- **What is read says all that the layout says.** -/
theorem reads_of_readTree (filled : path ≠ "")
    (texts : ∀ module version t, (FileTree.directory entries).Leads [module, version] t →
      HoldsTexts t) {vs : List Version} (hvs : readTree path (.directory entries) = .ok vs)
    (mem : ∀ v, v ∈ vs ↔ ∃ module version below,
      (FileTree.directory entries).Leads [module, version] (.directory below) ∧
      readVersion module version (Path.join (Path.join path module) version)
        (.directory below) = .ok v) : Reads (.directory entries) vs := by
  constructor
  case ordered =>
    exact (readTree_ordered hvs proper).imp fun h =>
      h.imp Text.Utf8.encode_lt_encode (And.imp_right Text.Utf8.encode_lt_encode)
  case complete =>
    intro module version
    rw [List.mem_map]
    constructor
    · rintro ⟨v, hv, hid⟩
      obtain ⟨m, w, below, leads, hread⟩ := (mem v).1 hv
      cases (readVersion_id hread).symm.trans hid
      exact ⟨below, leads⟩
    · rintro ⟨below, leads⟩
      obtain ⟨v, hread, hid, -⟩ := exists_version_of_leads proper named short filled texts leads
      exact ⟨v, (mem v).2 ⟨module, version, below, leads, hread⟩, hid⟩
  case describes =>
    intro v hv t leads
    obtain ⟨m, w, below, leads', hread⟩ := (mem v).1 hv
    obtain ⟨v', hread', hid, describes⟩ :=
      exists_version_of_leads proper named short filled texts leads'
    obtain rfl := Except.ok.inj (hread.symm.trans hread')
    cases hid
    cases leads.unique leads' proper
    exact describes

end Directories

theorem ne_empty_of_lookupBelow {below : FileTree} {here root : String}
    (found : tree.lookupBelow here root = .ok below) : Path.join here root ≠ "" := by
  intro empty
  rw [FileTree.lookupBelow, empty] at found
  cases found

theorem read_of_readTree {below : FileTree} {here root : String} {vs : List Version}
    (found : tree.lookupBelow here root = .ok below)
    (h : readTree (Path.join here root) below = .ok vs) : read tree root here = .ok vs := by
  have whole : tree.lookupBelow here root >>= readTree (Path.join here root) = .ok vs :=
    (congrArg (· >>= readTree (Path.join here root)) found).trans h
  unfold read
  rw [whole]

/-- **A layout is read completely**, and goes into a store without versions. -/
theorem read_complete {below : FileTree} {here root : String}
    (found : tree.lookupBelow here root = .ok below) (proper : below.IsProper)
    (named : below.IsNamed) (readable : IsReadable (Path.join here root) below) :
    ∃ vs, read tree root here = .ok vs ∧ Reads below vs ∧
      ∀ s : Store, s.versions = [] → (s.loadLayout tree root here).2 = .ok vs.length := by
  obtain ⟨entries, rfl⟩ := readable.directory
  have filled := ne_empty_of_lookupBelow found
  obtain ⟨vs, hvs, mem⟩ := exists_readTree proper named readable.short filled readable.texts
  have whole := read_of_readTree found hvs
  refine ⟨vs, whole, ?_, fun s empty => ?_⟩
  · exact reads_of_readTree proper named readable.short filled readable.texts hvs mem
  · have distinct : (vs.map Version.id).Nodup :=
      List.pairwise_map.2 ((readTree_ordered hvs proper).imp VersionId.IsBefore.ne)
    have free (v : Version) (_ : v ∈ vs) : s.version? v.id = none := by
      rw [Store.version?, empty]
      rfl
    exact (s.loadLayout_eq_ok_iff whole).2 ⟨rfl, distinct, free⟩

/-- A list of references, of which there is one. -/
def listed : String := "# none yet\n  base@v1 \n\n"

/-- The directory of a version: it has a schema file in a directory of its own, files that only look
like one, and a list of references. -/
def shelf : FileTree := .directory [
  ("more", .directory [("a.proto", .file (Text.Utf8.encode "message A \x7b\x7d".toList))]),
  ("b.proto.bak", .file [0xFF]),
  (".proto", .file [0xFF]),
  (dependencyFile, .file (Text.Utf8.encode listed.toList))]

/-- A layout of one module with it, a version without files, and a file beside them. -/
def shelves : FileTree := .directory [
  ("core", .directory [("v2", .empty), ("v10", shelf), ("notes", .file [])])]

theorem holdsTexts_of_forall (h : ∀ names t, tree.Leads names t → names = []) :
    HoldsTexts tree where
  schemas names name _ leads := absurd (h _ _ leads) (List.concat_ne_nil name names)
  listed _ leads := absurd (h _ _ leads) (List.cons_ne_nil _ _)

theorem isNamed_shelf : shelf.IsNamed := by
  simp only [shelf, FileTree.isNamed_directory, List.forall_mem_cons, FileTree.IsNamed.file,
    List.not_mem_nil, IsEmpty.forall_iff, implies_true, and_true]
  decide +kernel

theorem holdsTexts_shelf : HoldsTexts shelf where
  schemas names name bytes leads schema := by
    have texts : ∀ f ∈ shelf.files "", isSchema f.1 = true →
        ∃ text, Text.Utf8.decode f.2 = .ok text := by
      have files : shelf.files "" = [("more/a.proto", _), ("b.proto.bak", _), (".proto", _),
        ("deps.txt", _)] := rfl
      rw [files]
      refine List.forall_mem_cons.2 ⟨fun _ => ⟨_, Text.Utf8.decode_eq_ok_iff.2 rfl⟩, ?_⟩
      simp only [List.forall_mem_cons, List.not_mem_nil, IsEmpty.forall_iff, implies_true, and_true]
      exact ⟨fun h => absurd h (by decide +kernel), fun h => absurd h (by decide +kernel),
        fun h => absurd h (by decide +kernel)⟩
    have found : (_, bytes) ∈ shelf.files "" ∧ isSchema _ = true :=
      (mem_schemas_iff isNamed_shelf).2 ⟨names, name, leads, schema, rfl⟩
    exact texts _ found.1 found.2
  listed t leads := by
    obtain ⟨child, mem, leads⟩ := FileTree.leads_directory.1 leads
    obtain rfl := FileTree.leads_nil.1 leads
    refine ⟨_, listed, ?_, Text.Utf8.decode_eq_ok_iff.2 rfl⟩
    simpa [dependencyFile] using mem

theorem isReadable_shelves : IsReadable "." shelves := by
  constructor
  case directory => exact ⟨_, rfl⟩
  case short =>
    simp only [shelves, shelf, FileTree.empty, FileTree.forall_leads_directory,
      FileTree.forall_leads_file, List.forall_mem_cons, List.not_mem_nil, IsEmpty.forall_iff,
      implies_true, and_true]
    decide +kernel
  case texts =>
    intro module version t leads
    obtain ⟨child, mem, leads⟩ := FileTree.leads_directory.1 leads
    cases List.mem_singleton.1 mem
    obtain ⟨child, mem, leads⟩ := FileTree.leads_directory.1 leads
    obtain rfl := FileTree.leads_nil.1 leads
    simp only [List.mem_cons, Prod.mk.injEq, List.not_mem_nil, or_false] at mem
    rcases mem with ⟨rfl, rfl⟩ | ⟨rfl, rfl⟩ | ⟨rfl, rfl⟩
    · exact holdsTexts_of_forall (FileTree.forall_leads_directory.2 ⟨rfl, by simp⟩)
    · exact holdsTexts_shelf
    · exact holdsTexts_of_forall (FileTree.forall_leads_file.2 rfl)

/-- The versions `core@v10` and `core@v2` are read, in this order. -/
theorem read_shelves : shelves.lookupBelow "" "." = .ok shelves ∧ shelves.IsProper ∧
    shelves.IsNamed ∧ IsReadable (Path.join "" ".") shelves ∧
    ∃ vs, read shelves "." = .ok vs ∧ Reads shelves vs ∧
      ∀ s : Store, s.versions = [] → (s.loadLayout shelves ".").2 = .ok vs.length := by
  have found : shelves.lookupBelow "" "." = .ok shelves := rfl
  have here : Path.join "" "." = "." := by decide +kernel
  have proper : shelves.IsProper := by
    simp only [shelves, shelf, FileTree.empty, FileTree.isProper_directory, List.forall_mem_cons,
      FileTree.IsProper.file, List.not_mem_nil, IsEmpty.forall_iff, implies_true, and_true,
      List.map_cons, List.map_nil]
    decide +kernel
  have named : shelves.IsNamed := by
    simp only [shelves, FileTree.empty, FileTree.isNamed_directory, List.forall_mem_cons,
      FileTree.IsNamed.file, isNamed_shelf, List.not_mem_nil, IsEmpty.forall_iff, implies_true,
      and_true]
    decide +kernel
  have readable : IsReadable (Path.join "" ".") shelves := by
    rw [here]
    exact isReadable_shelves
  exact ⟨found, proper, named, readable, read_complete found proper named readable⟩

end Layout

end SchemaDepot
