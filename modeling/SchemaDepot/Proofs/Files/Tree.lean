import SchemaDepot.Files.Tree
import SchemaDepot.Proofs.Registry.Answers
import SchemaDepot.Proofs.Text.Lines

/-! # Ways through a tree of files

Names lead from a directory to what lies below it. The path that a file is found under determines
them, and so no two files have the same path.

* `Path.HasExtension`, `Path.extension?_eq_some_iff`: names with an extension.
* `Path.foldl_join`: the path that names lead along from a directory.
* `FileTree.IsProper`, `FileTree.IsNamed`: names in a directory are distinct, and can be in a path.
* `FileTree.Leads`: what names lead to; `FileTree.Leads.unique`: it is one thing.
* `FileTree.mem_files_iff`, `FileTree.nodup_files`: the files of a tree are those that names lead
  to, each once. -/

namespace SchemaDepot

/-! ### Paths -/

namespace Path

/-- A name that something can have in a directory. -/
structure IsName (name : String) : Prop where
  filled : name ≠ ""
  noSlash : '/' ∉ name.toList

instance (name : String) : Decidable (IsName name) :=
  decidable_of_iff (name ≠ "" ∧ '/' ∉ name.toList) ⟨fun h => ⟨h.1, h.2⟩, fun h => ⟨h.1, h.2⟩⟩

/-- The name ends in a dot and the extension, and something stands before that. -/
def HasExtension (extension name : String) : Prop :=
  ∃ stem, stem ≠ "" ∧ name = stem ++ "." ++ extension

theorem extension?_append (stem : List Char) {extension : List Char} (h : '.' ∉ extension) :
    extension? (stem ++ '.' :: extension) = if stem = [] then none else some extension := by
  rw [extension?, Text.splitAt_append, Text.splitAt_of_notMem h, List.reverse_append]
  have whole := Text.joinWith_splitAt '.' stem
  split_ifs with empty
  · rw [empty]
    rfl
  · match hs : (Text.splitAt '.' stem).reverse with
    | [] => exact absurd (List.reverse_eq_nil_iff.1 hs) (Text.splitAt_ne_nil '.' stem)
    | [[]] =>
      rw [List.reverse_eq_iff.1 hs] at whole
      exact absurd whole.symm empty
    | [_ :: _] => rfl
    | last :: _ :: _ => cases last <;> rfl

/-- The extension of a name stands behind its last dot, in front of which there is something. -/
theorem extension?_eq_some_iff {name extension : List Char} (h : '.' ∉ extension) :
    extension? name = some extension ↔ ∃ stem, stem ≠ [] ∧ name = stem ++ '.' :: extension := by
  constructor
  · intro found
    have whole := Text.joinWith_splitAt '.' name
    match hs : (Text.splitAt '.' name).reverse with
    | [] => exact absurd (List.reverse_eq_nil_iff.1 hs) (Text.splitAt_ne_nil '.' name)
    | [last] => simp [extension?, hs] at found
    | last :: before :: others =>
      have pieces : Text.splitAt '.' name = (before :: others).reverse ++ [last] := by
        rw [← List.reverse_cons, ← hs, List.reverse_reverse]
      rw [pieces, Text.joinWith_concat '.' (by simp)] at whole
      have mem : last ∈ Text.splitAt '.' name := by simp [pieces]
      have same := extension?_append (Text.joinWith '.' (before :: others).reverse)
        (Text.notMem_of_mem_splitAt mem)
      rw [whole, found] at same
      split_ifs at same with filled
      obtain rfl := Option.some.inj same
      exact ⟨_, filled, whole.symm⟩
  · rintro ⟨stem, filled, rfl⟩
    rw [extension?_append stem h, if_neg filled]

theorem extension?_toList_iff {name extension : String} (h : '.' ∉ extension.toList) :
    extension? name.toList = some extension.toList ↔ HasExtension extension name := by
  rw [extension?_eq_some_iff h]
  constructor
  · rintro ⟨stem, filled, whole⟩
    refine ⟨String.ofList stem, ?_, String.toList_inj.1 ?_⟩
    · rwa [ne_eq, ← String.toList_eq_nil_iff, String.toList_ofList]
    · simp [whole]
  · rintro ⟨stem, filled, rfl⟩
    exact ⟨stem.toList, mt String.toList_eq_nil_iff.1 filled, by simp⟩

theorem parent_append (path : String) : ∃ rest, path = parent path ++ rest := by
  have whole := Text.intercalate_split '/' path
  obtain hs | ⟨front, last, hs⟩ := List.eq_nil_or_concat (Text.split '/' path)
  · exact absurd (List.map_eq_nil_iff.1 hs) (Text.splitAt_ne_nil '/' path.toList)
  · rw [List.concat_eq_append] at hs
    rw [parent, hs, List.dropLast_concat]
    rw [hs] at whole
    by_cases filled : front = []
    · exact ⟨path, by simp [filled]⟩
    · rw [Text.intercalate_concat '/' filled, String.append_assoc] at whole
      exact ⟨_, whole.symm⟩

theorem isShort_parent {path : String} (h : FileTree.isShort path = true) :
    FileTree.isShort (parent path) = true := by
  obtain ⟨rest, whole⟩ := parent_append path
  have size := congrArg String.utf8ByteSize whole
  rw [String.utf8ByteSize_append] at size
  unfold FileTree.isShort at h ⊢
  rw [decide_eq_true_eq] at h ⊢
  omega

section Join
variable {directory name : String}

theorem IsName.toList_ne_nil (h : IsName name) : name.toList ≠ [] :=
  mt String.toList_eq_nil_iff.1 h.filled

theorem IsName.head?_ne (h : IsName name) : name.toList.head? ≠ some '/' :=
  fun first => h.noSlash (List.mem_of_mem_head? first)

theorem IsName.getLast?_ne (h : IsName name) (front : List Char) :
    (front ++ name.toList).getLast? ≠ some '/' := by
  rw [List.getLast?_append_of_ne_nil _ h.toList_ne_nil]
  exact fun last => h.noSlash (List.mem_of_getLast? last)

theorem join_eq_append (filled : directory ≠ "") {path : String}
    (below : path.toList.head? ≠ some '/') : join directory path =
      (if directory.toList.getLast? = some '/' then directory else directory ++ "/") ++ path := by
  rw [join, isAbsolute, beq_eq_false_iff_ne.2 below, Bool.false_or,
    if_neg (mt String.isEmpty_iff.1 filled)]
  split_ifs <;> rfl

theorem join_ne_empty (filled : directory ≠ "") (named : IsName name) :
    join directory name ≠ "" := by
  refine mt String.toList_eq_nil_iff.2 ?_
  rw [join_eq_append filled named.head?_ne, String.toList_append]
  exact List.append_ne_nil_of_right_ne_nil _ named.toList_ne_nil

/-- What a directory is joined with may be joined name by name. -/
theorem join_join (filled : directory ≠ "") (named : IsName name) {path : String}
    (below : path.toList.head? ≠ some '/') :
    join (join directory name) path = join directory (name ++ "/" ++ path) := by
  have inner := join_eq_append filled named.head?_ne
  have last : (join directory name).toList.getLast? ≠ some '/' := by
    rw [inner, String.toList_append]
    exact named.getLast?_ne _
  have outer : (name ++ "/" ++ path).toList.head? ≠ some '/' := by
    rw [String.append_assoc, String.toList_append,
      List.head?_append_of_ne_nil _ named.toList_ne_nil]
    exact named.head?_ne
  rw [join_eq_append (join_ne_empty filled named) below, if_neg last,
    join_eq_append filled outer, inner]
  simp only [String.append_assoc]

theorem toList_intercalate_cons (name : String) (names : List String) :
    ("/".intercalate (name :: names)).toList =
      name.toList ++ names.flatMap fun n => '/' :: n.toList := by
  refine (Text.toList_intercalate '/' (name :: names)).trans ?_
  rw [List.map_cons, Text.joinWith_cons, List.flatMap_map]

theorem head?_intercalate {names : List String} (named : ∀ n ∈ names, IsName n) :
    ("/".intercalate names).toList.head? ≠ some '/' := by
  cases names with
  | nil => decide
  | cons n names =>
    have first := named n List.mem_cons_self
    rw [toList_intercalate_cons, List.head?_append_of_ne_nil _ first.toList_ne_nil]
    exact first.head?_ne

theorem fileName_intercalate {names : List String} (named : ∀ n ∈ names ++ [name], IsName n) :
    fileName ("/".intercalate (names ++ [name])) = name.toList := by
  have pieces : Text.splitAt '/' (Text.joinWith '/' ((names ++ [name]).map String.toList)) = _ :=
    Text.splitAt_joinWith (by simp) (List.forall_mem_map.2 fun n hn => (named n hn).noSlash)
  have whole : ("/".intercalate (names ++ [name])).toList = _ := Text.toList_intercalate '/' _
  rw [fileName, whole, pieces, List.map_append, List.map_singleton, List.getLast?_concat]
  rfl

/-- The path that names lead along from a directory. -/
theorem foldl_join {names : List String} (filled : directory ≠ "") (some : names ≠ [])
    (named : ∀ n ∈ names, IsName n) :
    names.foldl join directory = join directory ("/".intercalate names) := by
  induction names generalizing directory with
  | nil => exact absurd rfl some
  | cons n names ih =>
    obtain ⟨first, others⟩ := List.forall_mem_cons.1 named
    cases names with
    | nil => simp
    | cons m names =>
      rw [List.foldl_cons, ih (join_ne_empty filled first) (List.cons_ne_nil m names) others,
        join_join filled first (head?_intercalate others), String.intercalate_cons_cons]

end Join

end Path

/-! ### Trees -/

namespace FileTree

/-- The entries of each directory have distinct names. -/
inductive IsProper : FileTree → Prop where
  | file (bytes : List UInt8) : IsProper (file bytes)
  | directory {entries : List (String × FileTree)} : (entries.map Prod.fst).Nodup →
    (∀ e ∈ entries, IsProper e.2) → IsProper (directory entries)

/-- The entries of each directory have names. -/
inductive IsNamed : FileTree → Prop where
  | file (bytes : List UInt8) : IsNamed (file bytes)
  | directory {entries : List (String × FileTree)} : (∀ e ∈ entries, Path.IsName e.1) →
      (∀ e ∈ entries, IsNamed e.2) → IsNamed (directory entries)

variable {tree child t u : FileTree} {entries : List (String × FileTree)} {name : String}
  {names up : List String} {bytes : List UInt8}

theorem isProper_empty : empty.IsProper := .directory .nil (by rintro e ⟨⟩)

theorem isProper_directory : (directory entries).IsProper ↔
    (entries.map Prod.fst).Nodup ∧ ∀ e ∈ entries, e.2.IsProper := by
  constructor
  · rintro (_ | ⟨distinct, below⟩)
    exact ⟨distinct, below⟩
  · exact fun ⟨distinct, below⟩ => .directory distinct below

theorem isNamed_directory : (directory entries).IsNamed ↔
    ∀ e ∈ entries, Path.IsName e.1 ∧ e.2.IsNamed := by
  constructor
  · rintro (_ | ⟨own, below⟩)
    exact fun e he => ⟨own e he, below e he⟩
  · exact fun h => .directory (fun e he => (h e he).1) fun e he => (h e he).2

theorem isProper_of_mem (h : (directory entries).IsProper) : ∀ e ∈ entries, e.2.IsProper :=
  (isProper_directory.1 h).2

theorem isProper_entry (h : (directory entries).IsProper) (ht : entry name entries = .ok t) :
    t.IsProper := by
  unfold FileTree.entry at ht
  split at ht
  · cases ht
  · split at ht
    · next hfind =>
      cases ht
      exact isProper_of_mem h _ (List.mem_of_find?_eq_some hfind)
    · cases ht

/-- Wherever a path leads, the names there are distinct. -/
theorem isProper_follow {above : List FileTree} {parts : List String} (h : tree.IsProper)
    (habove : ∀ t ∈ above, t.IsProper) (ht : follow above tree parts = .ok t) : t.IsProper := by
  induction parts generalizing above tree with
  | nil =>
    cases ht
    exact h
  | cons part rest ih =>
    cases tree with
    | file bytes => cases ht
    | directory entries =>
      simp only [FileTree.follow] at ht
      split at ht
      · exact ih h habove ht
      · split at ht
        · cases above with
          | nil => exact ih isProper_empty habove ht
          | cons parent above =>
            obtain ⟨hparent, habove⟩ := List.forall_mem_cons.1 habove
            exact ih hparent habove ht
        · obtain ⟨child, hchild, ht⟩ := exists_of_bind_ok ht
          exact ih (isProper_entry h hchild) (List.forall_mem_cons.2 ⟨h, habove⟩) ht

theorem isProper_lookupBelow {here path : String} (h : tree.IsProper)
    (ht : tree.lookupBelow here path = .ok t) : t.IsProper := by
  obtain ⟨-, -, ht⟩ := exists_of_bind_ok ht
  obtain ⟨-, -, ht⟩ := exists_of_bind_ok ht
  refine isProper_follow ?_ (by rintro t ⟨⟩) ht
  split
  · exact isProper_empty
  · exact h

/-! ### What names lead to -/

/-- Names lead from a tree to one below it, or to itself. -/
inductive Leads : FileTree → List String → FileTree → Prop where
  | here (tree : FileTree) : Leads tree [] tree
  | through {entries : List (String × FileTree)} {name : String} {child t : FileTree}
      {names : List String} : (name, child) ∈ entries → Leads child names t →
      Leads (directory entries) (name :: names) t

theorem Leads.append (h : tree.Leads up t) (more : t.Leads names u) :
    tree.Leads (up ++ names) u := by
  induction h with
  | here tree => exact more
  | through mem _ ih => exact .through mem (ih more)

theorem leads_nil : tree.Leads [] t ↔ t = tree := by
  constructor
  · rintro ⟨⟩
    rfl
  · rintro rfl
    exact .here t

theorem leads_directory : (directory entries).Leads (name :: names) t ↔
    ∃ child, (name, child) ∈ entries ∧ child.Leads names t := by
  constructor
  · rintro (_ | ⟨mem, leads⟩)
    exact ⟨_, mem, leads⟩
  · rintro ⟨child, mem, leads⟩
    exact .through mem leads

/-- All that names lead to from a directory. -/
theorem forall_leads_directory {P : List String → FileTree → Prop} :
    (∀ names t, (directory entries).Leads names t → P names t) ↔
      P [] (directory entries) ∧
        ∀ e ∈ entries, ∀ names t, e.2.Leads names t → P (e.1 :: names) t := by
  constructor
  · exact fun all => ⟨all _ _ (.here _), fun e he names t leads => all _ _ (.through he leads)⟩
  · rintro ⟨here, below⟩ names t (_ | ⟨mem, leads⟩)
    · exact here
    · exact below _ mem _ _ leads

theorem forall_leads_file {P : List String → FileTree → Prop} :
    (∀ names t, (file bytes).Leads names t → P names t) ↔ P [] (file bytes) := by
  constructor
  · exact fun all => all _ _ (.here _)
  · rintro here names t ⟨⟩
    exact here

theorem Leads.isName (h : tree.Leads names t) (named : tree.IsNamed) :
    ∀ n ∈ names, Path.IsName n := by
  induction h with
  | here tree => nofun
  | through mem _ ih =>
    cases named with
    | directory own below => exact List.forall_mem_cons.2 ⟨own _ mem, ih (below _ mem)⟩

theorem Leads.isNamed (h : tree.Leads names t) (named : tree.IsNamed) : t.IsNamed := by
  induction h with
  | here tree => exact named
  | through mem _ ih =>
    cases named with
    | directory _ below => exact ih (below _ mem)

theorem Leads.isProper (h : tree.Leads names t) (proper : tree.IsProper) : t.IsProper := by
  induction h with
  | here tree => exact proper
  | through mem _ ih => exact ih (isProper_of_mem proper _ mem)

/-- There are no two entries of one name. -/
theorem eq_of_mem (distinct : (entries.map Prod.fst).Nodup) (ht : (name, t) ∈ entries)
    (hu : (name, u) ∈ entries) : t = u :=
  congrArg Prod.snd (List.inj_on_of_nodup_map distinct ht hu rfl)

/-- An entry is found under its name. -/
theorem entry_eq_ok_iff (distinct : (entries.map Prod.fst).Nodup)
    (short : name.utf8ByteSize ≤ maxNameBytes) :
    entry name entries = .ok t ↔ (name, t) ∈ entries := by
  rw [entry, if_neg (by omega)]
  constructor
  · intro h
    split at h
    · next found =>
      cases h
      have same := List.find?_some found
      obtain rfl := beq_iff_eq.1 same
      exact List.mem_of_find?_eq_some found
    · cases h
  · intro mem
    split
    · next found =>
      have same := List.find?_some found
      obtain rfl := beq_iff_eq.1 same
      exact congrArg Except.ok (eq_of_mem distinct (List.mem_of_find?_eq_some found) mem)
    · next absent =>
      exact absurd (beq_self_eq_true name) (List.find?_eq_none.1 absent _ mem)

/-- **Names lead to one thing.** -/
theorem Leads.unique (h : tree.Leads names t) (h' : tree.Leads names u) (proper : tree.IsProper) :
    t = u := by
  induction h with
  | here tree => exact (leads_nil.1 h').symm
  | through mem _ ih =>
    obtain ⟨child, mem', leads⟩ := leads_directory.1 h'
    cases proper with
    | directory distinct below =>
      obtain rfl := eq_of_mem distinct mem mem'
      exact ih leads (below _ mem)

/-! ### The files of a tree -/

theorem entryFiles_eq (above : String) (entries : List (String × FileTree)) :
    entryFiles above entries = entries.flatMap fun e =>
      files (if above.isEmpty then e.1 else above ++ "/" ++ e.1) e.2 := by
  induction entries with
  | nil => rfl
  | cons e entries ih => rw [entryFiles, ih, List.flatMap_cons]

/-- What files are found under goes on from directory to directory. -/
theorem step_above (named : ∀ n ∈ up, Path.IsName n) (name : String) :
    (if ("/".intercalate up).isEmpty then name else "/".intercalate up ++ "/" ++ name) =
      "/".intercalate (up ++ [name]) := by
  cases up with
  | nil => simp
  | cons n up =>
    have filled : "/".intercalate (n :: up) ≠ "" := by
      refine mt String.toList_eq_nil_iff.2 ?_
      rw [Path.toList_intercalate_cons]
      exact List.append_ne_nil_of_left_ne_nil (named n List.mem_cons_self).toList_ne_nil _
    rw [if_neg (mt String.isEmpty_iff.1 filled)]
    exact (Text.intercalate_concat '/' (List.cons_ne_nil n up) name).symm

theorem mem_files_above_iff {f : String × List UInt8} (named : tree.IsNamed)
    (hup : ∀ n ∈ up, Path.IsName n) : f ∈ tree.files ("/".intercalate up) ↔
      ∃ names, tree.Leads names (.file f.2) ∧ f.1 = "/".intercalate (up ++ names) := by
  induction named generalizing up with
  | file bytes =>
    rw [files, List.mem_singleton, Prod.ext_iff]
    constructor
    · rintro ⟨path, rfl⟩
      exact ⟨[], .here _, by rw [path, List.append_nil]⟩
    · rintro ⟨names, ⟨⟩, path⟩
      exact ⟨by rw [path, List.append_nil], rfl⟩
  | directory own _ ih =>
    rw [files, entryFiles_eq, List.mem_flatMap]
    have step (e : String × FileTree) (he : e ∈ _) := @ih e he (up ++ [e.1])
      (List.forall_mem_append.2 ⟨hup, List.forall_mem_singleton.2 (own e he)⟩)
    constructor
    · rintro ⟨e, he, hf⟩
      rw [step_above hup, step e he] at hf
      obtain ⟨names, leads, path⟩ := hf
      rw [List.append_assoc, List.singleton_append] at path
      exact ⟨e.1 :: names, .through he leads, path⟩
    · rintro ⟨_, _ | ⟨mem, leads⟩, path⟩
      refine ⟨_, mem, ?_⟩
      rw [step_above hup, step _ mem]
      exact ⟨_, leads, by rw [path, List.append_assoc, List.singleton_append]⟩

/-- **The files of a tree are those that names lead to**, under the names with slashes between. -/
theorem mem_files_iff {f : String × List UInt8} (named : tree.IsNamed) :
    f ∈ tree.files "" ↔ ∃ names, tree.Leads names (.file f.2) ∧ f.1 = "/".intercalate names :=
  mem_files_above_iff named (List.forall_mem_nil _)

/-- A path tells the names that it was made of. -/
theorem intercalate_inj {names names' : List String} (filled : names ≠ []) (filled' : names' ≠ [])
    (named : ∀ n ∈ names, Path.IsName n) (named' : ∀ n ∈ names', Path.IsName n)
    (same : "/".intercalate names = "/".intercalate names') : names = names' := by
  have first := Text.split_intercalate '/' filled fun n hn => (named n hn).noSlash
  have second := Text.split_intercalate '/' filled' fun n hn => (named' n hn).noSlash
  exact first.symm.trans ((congrArg (Text.split '/') same).trans second)

/-- **No two files have one path.** -/
theorem nodup_files_above (proper : tree.IsProper) (named : tree.IsNamed)
    (hup : ∀ n ∈ up, Path.IsName n) :
    ((tree.files ("/".intercalate up)).map Prod.fst).Nodup := by
  induction proper generalizing up with
  | file bytes => exact List.nodup_singleton _
  | @directory entries distinct _ ih =>
    cases named with
    | directory own below =>
      have deeper (e : String × FileTree) (he : e ∈ entries) :
          ∀ n ∈ up ++ [e.1], Path.IsName n :=
        List.forall_mem_append.2 ⟨hup, List.forall_mem_singleton.2 (own e he)⟩
      rw [files, entryFiles_eq, List.map_flatMap, List.nodup_flatMap]
      refine ⟨fun e he => ?_, (List.pairwise_map.1 distinct).imp_of_mem ?_⟩
      · rw [step_above hup]
        exact ih e he (below e he) (deeper e he)
      · intro e e' he he' differ path hpath hpath'
        obtain ⟨f, hf, rfl⟩ := List.mem_map.1 hpath
        obtain ⟨f', hf', same⟩ := List.mem_map.1 hpath'
        rw [step_above hup, mem_files_above_iff (below _ ‹_›) (deeper _ ‹_›)] at hf hf'
        obtain ⟨names, leads, hpath⟩ := hf
        obtain ⟨names', leads', hpath'⟩ := hf'
        have joined := intercalate_inj (by simp) (by simp)
          (List.forall_mem_append.2 ⟨deeper e he, leads.isName (below e he)⟩)
          (List.forall_mem_append.2 ⟨deeper e' he', leads'.isName (below e' he')⟩)
          (hpath.symm.trans (same.symm.trans hpath'))
        rw [List.append_assoc, List.append_assoc, List.append_cancel_left_eq] at joined
        exact differ (List.cons.inj joined).1

theorem nodup_files (proper : tree.IsProper) (named : tree.IsNamed) :
    ((tree.files "").map Prod.fst).Nodup :=
  nodup_files_above proper named (List.forall_mem_nil _)

theorem text_file_eq_ok_iff {text : String} :
    (file bytes).text = .ok text ↔ Text.Utf8.decode bytes = .ok text := by
  simp only [FileTree.text, FileTree.bytes, bind, Except.bind]
  cases Text.Utf8.decode bytes <;> simp

end FileTree

end SchemaDepot
