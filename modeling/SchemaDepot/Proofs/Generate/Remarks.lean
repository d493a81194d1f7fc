import SchemaDepot.Proofs.Generate.Sources
import SchemaDepot.Proofs.Schema.Concatenation
import SchemaDepot.Proofs.Text.Lines

/-! # Remarks stay remarks

Generated code holds text that is not meant for code: the path of the schema file, and what comments
say. Comments are written line by line, each line behind a mark of its own, so they never get out of
remarks. The path is written as it is: what is behind a line break in it becomes code.

* `codeLines`: the lines of a text that are no remarks.
* `CodeItem.undocumented`, `codeLines_texts`: documentation is not among them.
* `Node.outline`: a declaration without places and comments; `itemsOfFile_outline`: these do not
  matter for anything but documentation.
* `generate_remarks`: files that differ in paths and comments give the same code but for what is
  behind line breaks in paths; `exists_path_as_code`: that can be code. -/

namespace SchemaDepot

namespace Node

mutual

/-- Trees are compared node by node. -/
def decEq : (n n' : Node) → Decidable (n = n')
  | ⟨content, span, comments, directives, children⟩,
    ⟨content', span', comments', directives', children'⟩ =>
    have := decEqRow children children'
    decidable_of_iff (content = content' ∧ span = span' ∧ comments = comments' ∧
      directives = directives' ∧ children = children') (by rw [mk.injEq])

/-- Trees in a row are compared one by one. -/
def decEqRow : (ns ns' : List Node) → Decidable (ns = ns')
  | [], [] => isTrue rfl
  | [], _ :: _ => isFalse nofun
  | _ :: _, [] => isFalse nofun
  | n :: ns, n' :: ns' =>
    have := decEq n n'
    have := decEqRow ns ns'
    decidable_of_iff (n = n' ∧ ns = ns') (by rw [List.cons.injEq])

end

instance : DecidableEq Node := decEq

end Node

/-! ### Lines -/

namespace Text

/-- A line that begins with a mark of remarks, but for blanks. -/
def isRemark (line : List Char) : Bool := ['/', '/'].isPrefixOf (line.dropWhile isBlank)

/-- The lines of a text that are no remarks. -/
def codeLines (s : String) : List (List Char) :=
  (splitAt '\n' s.toList).filter fun line => !isRemark line

/-- What is behind the first line break of a text, without remarks. -/
def laterCodeLines (s : String) : List (List Char) :=
  (splitAt '\n' s.toList).tail.filter fun line => !isRemark line

theorem codeLines_line (s t : String) :
    codeLines (CodeItem.line s ++ t) = codeLines s ++ codeLines t := by
  have parts : (CodeItem.line s ++ t).toList = s.toList ++ '\n' :: t.toList := by
    rw [CodeItem.line, String.toList_append, String.toList_append, List.append_assoc]
    rfl
  rw [codeLines, parts, splitAt_append, List.filter_append]
  rfl

/-- What is marked as a remark is one up to the first line break. -/
theorem codeLines_remark {mark : String} (h : '\n' ∉ mark.toList)
    (slashes : ∀ t, isRemark (mark.toList ++ t) = true) (s : String) :
    codeLines (mark ++ s) = laterCodeLines s := by
  rw [codeLines, String.toList_append, splitAt_append_of_notMem h,
    List.filter_cons_of_neg (by rw [slashes]; decide)]
  rfl

theorem laterCodeLines_of_notMem {s : String} (h : '\n' ∉ s.toList) : laterCodeLines s = [] := by
  rw [laterCodeLines, splitAt_of_notMem h]
  rfl

end Text

/-- The code of the files of an output, file by file. -/
def GeneratorOutput.code (out : GeneratorOutput) : List (List (List Char)) :=
  out.files.map fun f => Text.codeLines f.content

/-! ### Documentation -/

namespace CodeItem

open Text (codeLines)

/-- The lines that document an item. -/
def docs : CodeItem → List String
  | struct docs _ _ _ | enumeration docs _ _ _ _ | service docs _ _ => docs
  | choice .. => []

/-- An item without the lines that document it. -/
def undocumented : CodeItem → CodeItem
  | struct _ derives name fields => struct [] derives name fields
  | enumeration _ derives numbered name variants => enumeration [] derives numbered name variants
  | choice derives name variants => choice derives name variants
  | service _ name methods => service [] name methods

/-- What is written of an item behind its documentation. -/
def code : CodeItem → String
  | struct _ derives name fields =>
    deriveText derives ++ block ("pub struct " ++ name) (fields.map fieldText)
  | enumeration _ derives numbered name variants =>
    deriveText derives ++ (if numbered then line "#[repr(i32)]" else "") ++
      block ("pub enum " ++ name) (variants.map variantText)
  | choice derives name variants =>
    deriveText derives ++ line "#[serde(rename_all = \"snake_case\")]" ++
      block ("pub enum " ++ name)
        (variants.map fun (name, type) => inner (name ++ "(" ++ type.text ++ "),"))
  | service _ name methods =>
    block ("pub trait " ++ name) (inner "type Error;" :: methods.map methodText)

/-- **An item is written as an empty line, its documentation and its code.** -/
theorem text_eq (x : CodeItem) : x.text = line "" ++ (docText x.docs ++ x.code) := by
  cases x with
  | choice derives name variants =>
    have none : docText [] = "" := rfl
    simp only [text, docs, code, none, String.empty_append, String.append_assoc]
  | _ => simp only [text, docs, code, String.append_assoc]

theorem code_undocumented (x : CodeItem) : x.undocumented.code = x.code := by
  cases x <;> rfl

/-- The code of an item ends in a line break. -/
theorem exists_code_eq (x : CodeItem) : ∃ s, x.code = line s := by
  have last : ∀ head body, ∃ s, block head body = line s := fun head body =>
    ⟨line (head ++ " \x7b") ++ String.join body ++ "\x7d", String.append_assoc.symm⟩
  have behind : ∀ {before after}, (∃ s, after = line s) → ∃ s, before ++ after = line s := by
    rintro before _ ⟨s, rfl⟩
    exact ⟨before ++ s, String.append_assoc.symm⟩
  cases x with
  | service docs name methods => exact last _ _
  | _ => exact behind (last _ _)

/-- Lines of documentation are remarks. -/
theorem codeLines_docText {docs : List String} (h : ∀ d ∈ docs, '\n' ∉ d.toList) (s : String) :
    codeLines (docText docs ++ s) = codeLines s := by
  induction docs with
  | nil => exact congrArg codeLines String.empty_append
  | cons d docs ih =>
    rw [List.forall_mem_cons] at h
    have first : docText (d :: docs) ++ s = line ("/// " ++ d) ++ (docText docs ++ s) := by
      rw [docText, List.map_cons, String.join_cons, String.append_assoc]
      rfl
    have marked : codeLines ("/// " ++ d) = [] := by
      rw [Text.codeLines_remark (by decide) fun _ => rfl, Text.laterCodeLines_of_notMem h.1]
    rw [first, Text.codeLines_line, marked, ih h.2]
    rfl

/-- **Documentation is no code**, if it keeps to its lines. -/
theorem codeLines_texts {xs : List CodeItem} (h : ∀ x ∈ xs, ∀ d ∈ x.docs, '\n' ∉ d.toList) :
    codeLines (String.join (xs.map text)) =
      codeLines (String.join ((xs.map undocumented).map text)) := by
  induction xs with
  | nil => rfl
  | cons x xs ih =>
    rw [List.forall_mem_cons] at h
    obtain ⟨body, code⟩ := x.exists_code_eq
    have parts : ∀ y : CodeItem, (∀ d ∈ y.docs, '\n' ∉ d.toList) → y.code = line body → ∀ rest,
        codeLines (y.text ++ rest) = codeLines "" ++ (codeLines body ++ codeLines rest) := by
      intro y lines code rest
      rw [text_eq, String.append_assoc, Text.codeLines_line, String.append_assoc,
        codeLines_docText lines, code, Text.codeLines_line]
    have none : ∀ d ∈ x.undocumented.docs, '\n' ∉ d.toList := by
      cases x <;> exact nofun
    rw [List.map_cons, String.join_cons, parts x h.1 code, ih h.2, List.map_cons, List.map_cons,
      String.join_cons, parts x.undocumented none (x.code_undocumented.trans code)]

end CodeItem

/-! ### Declarations without remarks -/

/-- A directive, wherever it stands. -/
def Directive.placeless (d : Directive) : Directive :=
  { d with span := Span.point Position.origin }

namespace Node

mutual

/-- A declaration and its directives, and those in its block: without places and comments. -/
def outline : Node → Node
  | ⟨content, _, _, directives, children⟩ =>
    { content, span := Span.point Position.origin,
      directives := directives.map Directive.placeless, children := outlines children }

/-- Declarations and their directives, in a row. -/
def outlines : List Node → List Node
  | [] => []
  | n :: ns => n.outline :: outlines ns

end

theorem outlines_eq_map (ns : List Node) : outlines ns = ns.map outline := by
  induction ns with
  | nil => rfl
  | cons n ns ih => rw [outlines, ih, List.map_cons]

theorem content_outline (n : Node) : n.outline.content = n.content := by
  cases n
  rw [outline]

/-- What is declared is left of declarations in outline. -/
theorem bares_outlines (ns : List Node) : bares (outlines ns) = bares ns := by
  induction ns using rowInduction with
  | nil => rfl
  | cons content span comments directives children ns ihc ihn =>
    simp only [outlines, outline, bares, bare, ihc, ihn]

theorem filterMap_outlines {α : Type} {pick : Node → Option α}
    (h : ∀ n : Node, pick n.outline = pick n) (ns : List Node) :
    (outlines ns).filterMap pick = ns.filterMap pick := by
  rw [outlines_eq_map, List.filterMap_map]
  exact congrArg (List.filterMap · ns) (funext h)

end Node

/-- The declarations of a schema in outline. -/
def Schema.outline (root : Node) : List Node := Node.outlines (declared root)

namespace Code

open Node (outline outlines bares)
open Text (codeLines laterCodeLines)

section Directives
variable (directives : List Directive)

theorem requestedDerives_placeless :
    requestedDerives (directives.map Directive.placeless) = requestedDerives directives := by
  rw [requestedDerives, List.filter_map, List.flatMap_map]
  rfl

theorem isSkipped_placeless :
    isSkipped (directives.map Directive.placeless) = isSkipped directives := by
  rw [isSkipped, List.any_map]
  rfl

end Directives

section Items
variable (symbols : Symbols) (comments : List Comment) (directives : List Directive)
  (children : List Node)

theorem structItem_outline (name : String) :
    structItem symbols name [] (directives.map Directive.placeless) (outlines children) =
      (structItem symbols name comments directives children).undocumented := by
  have fields : (outlines children).filterMap (structField? symbols name) =
      children.filterMap (structField? symbols name) :=
    Node.filterMap_outlines (fun n => by rw [structField?, structField?, n.content_outline]) _
  rw [structItem, fields, derives, requestedDerives_placeless]
  rfl

theorem enumItem_outline (name : String) :
    enumItem name [] (directives.map Directive.placeless) (outlines children) =
      (enumItem name comments directives children).undocumented := by
  have values : enumNumbers (outlines children) = enumNumbers children :=
    Node.filterMap_outlines (fun n => by rw [n.content_outline]) _
  rw [enumItem, values, derives, requestedDerives_placeless]
  rfl

theorem choiceItem_outline (owner name : String) :
    choiceItem symbols owner name (directives.map Directive.placeless) (outlines children) =
      (choiceItem symbols owner name directives children).undocumented := by
  have variants : (outlines children).filterMap (choiceVariant? symbols owner) =
      children.filterMap (choiceVariant? symbols owner) :=
    Node.filterMap_outlines (fun n => by rw [choiceVariant?, choiceVariant?, n.content_outline]) _
  rw [choiceItem, variants, derives, requestedDerives_placeless]
  rfl

theorem serviceItem_outline (name : String) :
    serviceItem symbols name [] (outlines children) =
      (serviceItem symbols name comments children).undocumented := by
  have methods : (outlines children).filterMap (method? symbols) =
      children.filterMap (method? symbols) :=
    Node.filterMap_outlines (fun n => by rw [method?, method?, n.content_outline]) _
  rw [serviceItem, methods]
  rfl

/-- **Places and comments matter for documentation only.** -/
theorem itemsIn_outlines (above : String) (ns : List Node) :
    itemsIn symbols above (outlines ns) = (itemsIn symbols above ns).map CodeItem.undocumented := by
  induction ns using Node.rowInduction generalizing above with
  | nil => rfl
  | cons content span comments directives children ns ihc ihn =>
    rw [outlines, itemsIn, itemsIn, List.map_append, ihn above]
    refine congrArg (· ++ _) ?_
    cases content with
    | message name =>
      rw [outline, itemsOf, itemsOf, isSkipped_placeless, ihc, structItem_outline symbols comments]
      split <;> rfl
    | enumeration name =>
      rw [outline, itemsOf, itemsOf, isSkipped_placeless, enumItem_outline comments]
      split <;> rfl
    | oneof name =>
      rw [outline, itemsOf, itemsOf, choiceItem_outline symbols]
      rfl
    | _ =>
      rw [outline]
      rfl

theorem fileItems_outline (includeServices : Bool) (n : Node) :
    fileItems symbols includeServices n.outline =
      (fileItems symbols includeServices n).map CodeItem.undocumented := by
  have inside := itemsIn_outlines symbols "" [n]
  rw [outlines, itemsIn, itemsIn, outlines, itemsIn, List.append_nil, List.append_nil] at inside
  rw [fileItems, fileItems, Node.content_outline]
  cases hc : n.content with
  | service name =>
    obtain ⟨content, span, comments, directives, children⟩ := n
    rw [outline]
    cases includeServices with
    | false => rfl
    | true => exact congrArg (fun x => [x]) (serviceItem_outline symbols comments children name)
  | _ => exact inside

/-- Nothing is generated for what declares nothing. -/
theorem flatMap_declared {α : Type} {f : Node → List α}
    (h : ∀ n : Node, n.content.isDeclaration = false → f n = []) (root : Node) :
    (Schema.declared root).flatMap f = root.children.flatMap f := by
  rw [Schema.declared]
  induction root.children with
  | nil => rfl
  | cons n ns ih =>
    rw [List.filter_cons, List.flatMap_cons]
    by_cases declares : n.content.isDeclaration = true
    · rw [if_pos declares, List.flatMap_cons, ih]
    · rw [if_neg declares, ih, h n (Bool.not_eq_true _ ▸ declares), List.nil_append]

theorem fileItems_of_not_isDeclaration (includeServices : Bool) {n : Node}
    (h : n.content.isDeclaration = false) : fileItems symbols includeServices n = [] := by
  obtain ⟨content, span, comments, directives, children⟩ := n
  cases content <;> first | rfl | cases h

/-- **The items of a file without documentation are those of its declarations in outline.** -/
theorem itemsOfFile_outline (includeServices : Bool) (parsed : ParsedFile) :
    (itemsOfFile symbols includeServices parsed).map CodeItem.undocumented =
      (Schema.outline parsed.2).flatMap (fileItems symbols includeServices) := by
  rw [itemsOfFile, ← flatMap_declared (fun n => fileItems_of_not_isDeclaration symbols _),
    Schema.outline, Node.outlines_eq_map, List.map_flatMap, List.flatMap_map]
  exact congrArg (List.flatMap · _) (funext fun n => (fileItems_outline symbols _ n).symm)

end Items

/-! ### Symbols -/

theorem symbols_bares (above : String) (ns : List Node) :
    Symbols.ofNodes above (bares ns) = Symbols.ofNodes above ns := by
  induction ns using Node.rowInduction generalizing above with
  | nil => rfl
  | cons content span comments directives children ns ihc ihn =>
    rw [bares, Symbols.ofNodes, Symbols.ofNodes, ihn, Node.bare]
    refine congrArg (· ++ _) ?_
    cases content with
    | message name =>
      rw [Symbols.ofNode, Symbols.ofNode, ihc]
    | _ => rfl

theorem ofNodes_eq_flatMap (above : String) (ns : List Node) :
    Symbols.ofNodes above ns = ns.flatMap (Symbols.ofNode above) := by
  induction ns with
  | nil => rfl
  | cons n ns ih => rw [Symbols.ofNodes, ih, List.flatMap_cons]

/-- **The symbols of files are those of what they declare.** -/
theorem symbolsOf_eq_bares (files : List ParsedFile) : symbolsOf files =
    Symbols.ofNodes "" (files.flatMap fun parsed => bares (Schema.declared parsed.2)) := by
  have each : ∀ parsed : ParsedFile, Symbols.ofNodes "" parsed.2.children =
      Symbols.ofNodes "" (bares (Schema.declared parsed.2)) := by
    intro parsed
    rw [symbols_bares, ofNodes_eq_flatMap, ofNodes_eq_flatMap, flatMap_declared]
    intro n h
    obtain ⟨content, span, comments, directives, children⟩ := n
    cases content <;> first | rfl | cases h
  rw [symbolsOf, ofNodes_eq_flatMap, List.flatMap_assoc]
  refine congrArg (List.flatMap · files) (funext fun parsed => ?_)
  rw [each, ofNodes_eq_flatMap]

/-! ### Code of files -/

theorem docLine_subset (cs : List Char) : docLine cs ⊆ cs := by
  have trimmed : ∀ cs : List Char, Text.trimChars cs ⊆ cs := fun cs c hc =>
    (List.dropWhile_suffix _).subset
      (List.mem_reverse.1 ((List.dropWhile_suffix _).subset (List.mem_reverse.1 hc)))
  exact fun c hc => trimmed cs ((List.dropWhile_suffix _).subset (trimmed _ hc))

/-- Documentation keeps to its lines. -/
theorem newline_notMem_docs (comments : List Comment) : ∀ d ∈ docs comments, '\n' ∉ d.toList := by
  intro d hd
  obtain ⟨c, -, hd⟩ := List.mem_flatMap.1 hd
  obtain ⟨cs, hcs, rfl⟩ := List.mem_map.1 hd
  obtain ⟨piece, hpiece, rfl⟩ := List.mem_map.1 (List.mem_of_mem_filter hcs)
  rw [String.toList_ofList]
  exact fun newline => Text.notMem_of_mem_splitAt hpiece (docLine_subset piece newline)

theorem newline_notMem_docs_item (symbols : Symbols) (s : Source) :
    ∀ d ∈ (s.item symbols).docs, '\n' ∉ d.toList := by
  unfold Source.item
  cases s.kind with
  | choice => exact nofun
  | _ => exact newline_notMem_docs s.comments

/-- The code for declarations, whatever comments stand at them and wherever they stand. -/
def fileCode (symbols : Symbols) (includeServices : Bool) (ns : List Node) : List (List Char) :=
  codeLines (CodeItem.line "" ++ (CodeItem.line "use serde::\x7bDeserialize, Serialize\x7d;" ++
    String.join ((ns.flatMap (fileItems symbols includeServices)).map CodeItem.text)))

/-- **The code of a file is that of its declarations**, behind what is behind line breaks in its
path. -/
theorem codeLines_fileText (symbols : Symbols) (includeServices : Bool) (parsed : ParsedFile) :
    codeLines (fileText symbols includeServices parsed) = laterCodeLines parsed.1.path ++
      fileCode symbols includeServices (Schema.outline parsed.2) := by
  have parts : fileText symbols includeServices parsed =
      CodeItem.line "// @generated by idl-registry. Do not edit." ++
        (CodeItem.line ("// source: " ++ parsed.1.path) ++ (CodeItem.line "" ++
          (CodeItem.line "use serde::\x7bDeserialize, Serialize\x7d;" ++ String.join
            ((itemsOfFile symbols includeServices parsed).map CodeItem.text)))) := by
    have top : header = CodeItem.line "// @generated by idl-registry. Do not edit." := rfl
    have gap : "\n\n" = CodeItem.line (CodeItem.line "") := rfl
    have use : "use serde::\x7bDeserialize, Serialize\x7d;\n" =
      CodeItem.line "use serde::\x7bDeserialize, Serialize\x7d;" := rfl
    rw [fileText, top, gap, use, itemsOfFile]
    simp only [CodeItem.line, String.append_assoc, String.empty_append]
  have items : codeLines (String.join
        ((itemsOfFile symbols includeServices parsed).map CodeItem.text)) =
      codeLines (String.join (((Schema.outline parsed.2).flatMap
        (fileItems symbols includeServices)).map CodeItem.text)) := by
    rw [← itemsOfFile_outline]
    refine CodeItem.codeLines_texts fun x hx => ?_
    rw [itemsOfFile_eq] at hx
    obtain ⟨s, -, rfl⟩ := List.mem_map.1 hx
    exact newline_notMem_docs_item symbols s
  have first : codeLines "// @generated by idl-registry. Do not edit." = [] := by decide
  rw [parts, Text.codeLines_line, Text.codeLines_line, first,
    Text.codeLines_remark (by decide) fun _ => rfl, fileCode, Text.codeLines_line,
    Text.codeLines_line, items, Text.codeLines_line, Text.codeLines_line]
  rfl

section Files
variable {m : Marker} {input input' : GeneratorInput}
  {own own' dependencies dependencies' : List ParsedFile}

/-- What stands in front of equal lists is compared alone. -/
theorem map_append_eq_iff {α β : Type} {before after : α → List β} {xs ys : List α}
    (h : xs.map after = ys.map after) :
    (xs.map fun x => before x ++ after x) = (ys.map fun y => before y ++ after y) ↔
      xs.map before = ys.map before := by
  induction xs generalizing ys with
  | nil =>
    cases ys with
    | nil => exact Iff.rfl
    | cons y ys => cases h
  | cons x xs ih =>
    cases ys with
    | nil => cases h
    | cons y ys =>
      obtain ⟨first, rest⟩ := List.cons.inj h
      simp only [List.map_cons, List.cons.injEq, ih rest, first, List.append_left_inj]

/-- Nothing is behind line breaks in paths that have none. -/
theorem map_laterCodeLines (h : ∀ p ∈ own, '\n' ∉ p.1.path.toList) :
    (own.map fun p => laterCodeLines p.1.path) = List.replicate own.length [] := by
  refine List.eq_replicate_iff.2 ⟨List.length_map _, fun lines hlines => ?_⟩
  obtain ⟨p, hp, rfl⟩ := List.mem_map.1 hlines
  exact Text.laterCodeLines_of_notMem (h p hp)

theorem symbolsOf_congr
    (same : (own.map fun p => Schema.outline p.2) =
      own'.map fun p => Schema.outline p.2)
    (declared : (dependencies.flatMap fun p => bares (Schema.declared p.2)) =
      dependencies'.flatMap fun p => bares (Schema.declared p.2)) :
    symbolsOf (own ++ dependencies) = symbolsOf (own' ++ dependencies') := by
  have left : ∀ files : List ParsedFile, (files.flatMap fun p => bares (Schema.declared p.2)) =
      (files.map fun p => Schema.outline p.2).flatMap bares := by
    intro files
    rw [List.flatMap_map]
    exact congrArg (List.flatMap · files) (funext fun p => (Node.bares_outlines _).symm)
  rw [symbolsOf_eq_bares, symbolsOf_eq_bares, List.flatMap_append, List.flatMap_append, declared,
    left own, left own', same]

theorem exists_code_generate (hown : parseFiles m input.files = .ok own)
    (hdependencies : parseFiles m input.dependencyFiles = .ok dependencies) :
    ∃ out, generate m input = .ok out ∧ out.code = own.map fun p => laterCodeLines p.1.path ++
      fileCode (symbolsOf (own ++ dependencies)) input.includeServices (Schema.outline p.2) := by
  obtain ⟨out, hout, texts⟩ := exists_generate_texts hown hdependencies
  have code := congrArg (List.map codeLines) texts
  rw [List.map_map, List.map_map] at code
  refine ⟨out, hout, code.trans ?_⟩
  exact List.map_congr_left fun p _ => codeLines_fileText _ _ p

/-- **Files that differ in paths and comments give the same code, but for what is behind line breaks
in paths**: all else in their code is determined by their declarations and directives. -/
theorem generate_remarks (hown : parseFiles m input.files = .ok own)
    (hown' : parseFiles m input'.files = .ok own')
    (hdependencies : parseFiles m input.dependencyFiles = .ok dependencies)
    (hdependencies' : parseFiles m input'.dependencyFiles = .ok dependencies')
    (services : input.includeServices = input'.includeServices)
    (same : (own.map fun p => Schema.outline p.2) = own'.map fun p => Schema.outline p.2)
    (declared : (dependencies.flatMap fun p => bares (Schema.declared p.2)) =
      dependencies'.flatMap fun p => bares (Schema.declared p.2)) :
    ∃ out out', generate m input = .ok out ∧ generate m input' = .ok out' ∧
      (∃ code : List Node → List (List Char),
        out.code = (own.map fun p => laterCodeLines p.1.path ++ code (Schema.outline p.2)) ∧
        out'.code = own'.map fun p => laterCodeLines p.1.path ++ code (Schema.outline p.2)) ∧
      (out.code = out'.code ↔
        (own.map fun p => laterCodeLines p.1.path) = own'.map fun p => laterCodeLines p.1.path) ∧
      ((∀ p ∈ own ++ own', '\n' ∉ p.1.path.toList) → out.code = out'.code) := by
  obtain ⟨out, hout, code⟩ := exists_code_generate hown hdependencies
  obtain ⟨out', hout', code'⟩ := exists_code_generate hown' hdependencies'
  rw [← symbolsOf_congr same declared, ← services] at code'
  have behind := congrArg (List.map (fileCode (symbolsOf (own ++ dependencies))
    input.includeServices)) same
  rw [List.map_map, List.map_map] at behind
  have equal : out.code = out'.code ↔ (own.map fun p => laterCodeLines p.1.path) =
      own'.map fun p => laterCodeLines p.1.path := by
    rw [code, code']
    exact map_append_eq_iff behind
  refine ⟨out, out', hout, hout', ⟨_, code, code'⟩, equal, fun single => equal.2 ?_⟩
  have length := congrArg List.length same
  rw [List.length_map, List.length_map] at length
  rw [List.forall_mem_append] at single
  rw [map_laterCodeLines single.1, map_laterCodeLines single.2, length]

/-- A request to generate code for one schema file. -/
def fileInput (path text : String) : GeneratorInput := { files := [⟨path, text⟩] }

/-- A message below a remark. -/
def quietText : String := "// A thing.\nmessage A { }\n"

/-- The same message between remarks that look like code. -/
def loudText : String := "/* pub mod b;\n\n\x7d // */ message A { } /* struct A */\n"

/-- Comments that look like code are none. -/
theorem code_eq_loud : ∃ own own' out out',
    parseFiles {} (fileInput "a.proto" quietText).files = .ok own ∧
    parseFiles {} (fileInput "b c.proto" loudText).files = .ok own' ∧
    (own.map fun p => Schema.outline p.2) = (own'.map fun p => Schema.outline p.2) ∧
    (∀ p ∈ own ++ own', '\n' ∉ p.1.path.toList) ∧
    generate {} (fileInput "a.proto" quietText) = .ok out ∧
    generate {} (fileInput "b c.proto" loudText) = .ok out' ∧ out.code = out'.code := by
  obtain ⟨own, hown, tree, single⟩ : ∃ own,
      parseFiles {} (fileInput "a.proto" quietText).files = .ok own ∧
      (own.map fun p => Schema.outline p.2) =
        [[{ content := .message "A", span := Span.point Position.origin }]] ∧
      ∀ p ∈ own, '\n' ∉ p.1.path.toList :=
    exists_parsed_of_decide (by decide +kernel)
  obtain ⟨own', hown', tree', single'⟩ : ∃ own,
      parseFiles {} (fileInput "b c.proto" loudText).files = .ok own ∧
      (own.map fun p => Schema.outline p.2) =
        [[{ content := .message "A", span := Span.point Position.origin }]] ∧
      ∀ p ∈ own, '\n' ∉ p.1.path.toList :=
    exists_parsed_of_decide (by decide +kernel)
  have same := tree.trans tree'.symm
  have paths := List.forall_mem_append.2 ⟨single, single'⟩
  have none : parseFiles {} [] = .ok [] := rfl
  obtain ⟨out, out', hout, hout', -, -, equal⟩ := generate_remarks hown hown' none none rfl
    same rfl
  exact ⟨own, own', out, out', hown, hown', same, paths, hout, hout', equal paths⟩

/-- **A path can become code.** -/
theorem exists_path_as_code : ¬ ∀ (m : Marker) (input input' : GeneratorInput)
    (own own' dependencies dependencies' : List ParsedFile) (out out' : GeneratorOutput),
    parseFiles m input.files = .ok own → parseFiles m input'.files = .ok own' →
    parseFiles m input.dependencyFiles = .ok dependencies →
    parseFiles m input'.dependencyFiles = .ok dependencies' →
    input.includeServices = input'.includeServices →
    (own.map fun p => Schema.outline p.2) = (own'.map fun p => Schema.outline p.2) →
    (dependencies.flatMap fun p => bares (Schema.declared p.2)) =
      (dependencies'.flatMap fun p => bares (Schema.declared p.2)) →
    generate m input = .ok out → generate m input' = .ok out' → out.code = out'.code := by
  intro claim
  obtain ⟨own, hown, tree, path⟩ : ∃ own, parseFiles {} (fileInput "a.proto" "").files = .ok own ∧
      (own.map fun p => Schema.outline p.2) = [[]] ∧
      (own.map fun p => laterCodeLines p.1.path) = [[]] :=
    exists_parsed_of_decide (by decide +kernel)
  obtain ⟨own', hown', tree', path'⟩ : ∃ own,
      parseFiles {} (fileInput "a.proto\npub mod b;" "").files = .ok own ∧
      (own.map fun p => Schema.outline p.2) = [[]] ∧
      (own.map fun p => laterCodeLines p.1.path) = [["pub mod b;".toList]] :=
    exists_parsed_of_decide (by decide +kernel)
  have same := tree.trans tree'.symm
  have none : parseFiles {} [] = .ok [] := rfl
  obtain ⟨out, hout, code⟩ := exists_code_generate hown none
  obtain ⟨out', hout', code'⟩ := exists_code_generate hown' none
  have equal := claim {} _ _ own own' [] [] out out' hown hown' rfl rfl rfl same rfl hout hout'
  rw [code, code', symbolsOf_congr same rfl] at equal
  have behind := congrArg (List.map (fileCode (symbolsOf (own' ++ [])) false)) same
  rw [List.map_map, List.map_map] at behind
  have paths := (map_append_eq_iff behind).1 equal
  rw [path, path'] at paths
  exact absurd paths (by decide)

end Files

end Code

end SchemaDepot
