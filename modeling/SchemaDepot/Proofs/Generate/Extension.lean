import SchemaDepot.Proofs.Generate.Sources
import SchemaDepot.Proofs.Text.Lines

/-! # Further dependencies

The table of symbols lists what the files of an input declare, those it depends on last. So more
files to depend on change no code whose references are all declared already.

* `Use.asked`: the names that are looked up for a use; `itemsOfFile_congr`: the code for a file
  depends on the table by its uses only, and on these by what is looked up.
* `IsDeclared`, `find?_append`: what is declared already is found as before.
* `find?_of_mapTypes?`: a map is never found, be it asked for as a whole.
* `generate_append`: code all of whose uses are resolved is the same with more dependencies. -/

namespace SchemaDepot

namespace Code

open Lexeme (isWordPart)

variable {symbols symbols' : Symbols} {type owner : String} {ds es : List Declaration}

/-! ### What code depends on -/

/-- The names that are looked up in the table of symbols for a use. -/
def Use.asked : Use → List String
  | field _ _ f => (partsOf f.type).filter fun part => (scalar? part).isNone
  | choice .. => []
  | variant _ _ type => [type].filter fun part => (scalar? part).isNone
  | payload _ type _ => [type]

theorem nameOf_congr (h : symbols.find? type = symbols'.find? type) :
    symbols.nameOf type = symbols'.nameOf type := by
  rw [Symbols.nameOf, Symbols.nameOf, h]

theorem isMessage_congr (h : symbols.find? type = symbols'.find? type) :
    symbols.isMessage type = symbols'.isMessage type := by
  rw [Symbols.isMessage, Symbols.isMessage, h]

theorem valueType_congr
    (h : (scalar? type).isNone → symbols.find? type = symbols'.find? type) :
    valueType symbols owner type = valueType symbols' owner type := by
  unfold valueType
  cases hs : scalar? type with
  | some scalar => rfl
  | none =>
    rw [hs] at h
    simp only [nameOf_congr (h rfl)]

theorem fieldType_congr {f : Field} (h : ∀ part ∈ partsOf f.type, (scalar? part).isNone →
    symbols.find? part = symbols'.find? part) :
    fieldType symbols owner f = fieldType symbols' owner f := by
  unfold fieldType
  unfold partsOf at h
  cases hm : mapTypes? f.type with
  | some types =>
    obtain ⟨key, value⟩ := types
    rw [hm, List.forall_mem_cons, List.forall_mem_singleton] at h
    simp only [valueType_congr h.1, valueType_congr h.2]
  | none =>
    rw [hm, List.forall_mem_singleton] at h
    have kind : (symbols.isMessage f.type && (scalar? f.type).isNone) =
        (symbols'.isMessage f.type && (scalar? f.type).isNone) := by
      cases hs : (scalar? f.type).isNone with
      | false => rw [Bool.and_false, Bool.and_false]
      | true => rw [isMessage_congr (h hs)]
    simp only [valueType_congr h, kind]

/-- **What is written for a use depends on what is found of the names that it asks for.** -/
theorem Use.type_congr {u : Use} (h : ∀ part ∈ u.asked, symbols.find? part = symbols'.find? part) :
    u.type symbols = u.type symbols' := by
  cases u with
  | field scope owner f =>
    exact fieldType_congr fun part hpart notScalar => h part (List.mem_filter.2 ⟨hpart, notScalar⟩)
  | choice => rfl
  | variant scope owner type =>
    exact valueType_congr fun notScalar =>
      h type (List.mem_filter.2 ⟨List.mem_singleton_self type, notScalar⟩)
  | payload scope type isStream =>
    simp only [Use.type, streamType, nameOf_congr (h type (List.mem_singleton_self type))]

section Items
variable (symbols symbols')

theorem structItem_congr {scope : List String} {owner : String} {comments : List Comment}
    {directives : List Directive} {children : List Node}
    (h : ∀ u ∈ children.filterMap (fieldUse? scope owner), u.type symbols = u.type symbols') :
    structItem symbols owner comments directives children =
      structItem symbols' owner comments directives children := by
  refine congrArg (CodeItem.struct _ _ _) (List.filterMap_congr fun n hn => ?_)
  have use := fun u hu => h u (List.mem_filterMap.2 ⟨n, hn, hu⟩)
  unfold structField?
  unfold fieldUse? at use
  cases hc : n.content with
  | field f =>
    have same : fieldType symbols owner f = fieldType symbols' owner f :=
      use (.field scope owner f) (by rw [hc])
    simp only [same]
  | _ => rfl

theorem choiceItem_congr {scope : List String} {owner name : String}
    {directives : List Directive} {children : List Node}
    (h : ∀ u ∈ children.filterMap (variantUse? scope owner), u.type symbols = u.type symbols') :
    choiceItem symbols owner name directives children =
      choiceItem symbols' owner name directives children := by
  refine congrArg (CodeItem.choice _ _) (List.filterMap_congr fun n hn => ?_)
  have use := fun u hu => h u (List.mem_filterMap.2 ⟨n, hn, hu⟩)
  unfold choiceVariant?
  unfold variantUse? at use
  cases hc : n.content with
  | field f =>
    have same : valueType symbols owner f.type = valueType symbols' owner f.type :=
      use (.variant scope owner f.type) (by rw [hc])
    simp only [same]
  | _ => rfl

theorem serviceItem_congr {package : List String} {name : String} {comments : List Comment}
    {children : List Node}
    (h : ∀ u ∈ children.flatMap (callUses package), u.type symbols = u.type symbols') :
    serviceItem symbols name comments children = serviceItem symbols' name comments children := by
  refine congrArg (CodeItem.service _ _) (List.filterMap_congr fun n hn => ?_)
  have use := fun u hu => h u (List.mem_flatMap.2 ⟨n, hn, hu⟩)
  unfold method?
  unfold callUses at use
  cases hc : n.content with
  | rpc call =>
    rw [hc, List.forall_mem_cons, List.forall_mem_singleton] at use
    have request : streamType symbols call.request call.requestStream = streamType symbols' _ _ :=
      use.1
    have response : streamType symbols call.response call.responseStream =
        streamType symbols' _ _ := use.2
    simp only [request, response]
  | _ => rfl

mutual

theorem itemsOf_congr (package outer : List String) : ∀ n : Node,
    (∀ u ∈ usesOf package outer n, u.type symbols = u.type symbols') →
    itemsOf symbols (joined outer) n = itemsOf symbols' (joined outer) n
  | ⟨content, _, comments, directives, children⟩ => by
    intro h
    cases content with
    | message name =>
      rw [itemsOf, itemsOf, ← joined_append]
      rw [usesOf] at h
      split at h
      · rw [if_pos ‹_›, if_pos ‹_›]
      · rw [if_neg ‹_›, if_neg ‹_›]
        obtain ⟨fields, inside⟩ := List.forall_mem_append.1 h
        rw [structItem_congr symbols symbols' fields,
          itemsIn_congr package (outer ++ [name]) children inside]
    | oneof name =>
      rw [itemsOf, itemsOf, choiceItem_congr symbols symbols' h]
    | _ => rfl

theorem itemsIn_congr (package outer : List String) : ∀ ns : List Node,
    (∀ u ∈ usesIn package outer ns, u.type symbols = u.type symbols') →
    itemsIn symbols (joined outer) ns = itemsIn symbols' (joined outer) ns
  | [], _ => rfl
  | n :: ns, h => by
    rw [usesIn] at h
    obtain ⟨first, others⟩ := List.forall_mem_append.1 h
    rw [itemsIn, itemsIn, itemsOf_congr package outer n first,
      itemsIn_congr package outer ns others]

end

/-- **The code for a file depends on the table of symbols by its uses only.** -/
theorem itemsOfFile_congr {includeServices : Bool} {parsed : ParsedFile}
    (h : ∀ u ∈ fileUses includeServices parsed, u.type symbols = u.type symbols') :
    itemsOfFile symbols includeServices parsed = itemsOfFile symbols' includeServices parsed := by
  refine List.flatMap_congr fun n hn => ?_
  have use := fun u hu => h u (List.mem_flatMap.2 ⟨n, hn, hu⟩)
  have inside := itemsOf_congr symbols symbols' (packageOf parsed) [] n
  unfold fileItems
  unfold topUses at use
  cases hc : n.content with
  | service name =>
    simp only [hc] at use ⊢
    cases includeServices with
    | false => rfl
    | true => exact congrArg (fun item => [item]) (serviceItem_congr symbols symbols' use)
  | _ =>
    simp only [hc] at use
    exact inside use

end Items

/-! ### What is declared already -/

/-- A message or an enum has the last part of the name for its own. -/
def IsDeclared (ds : List Declaration) (reference : String) : Prop :=
  ∃ d ∈ ds, d.name = Symbols.lastPart reference

instance (reference : String) : Decidable (IsDeclared ds reference) := by
  unfold IsDeclared
  infer_instance

/-- A type of a value is a scalar, or declared. -/
def IsKnown (ds : List Declaration) (reference : String) : Prop :=
  (scalar? reference).isSome ∨ IsDeclared ds reference

instance (reference : String) : Decidable (IsKnown ds reference) := by
  unfold IsKnown
  infer_instance

/-- **All types that a use refers to are known**, the parts of a map in its place. What a call sends
or receives is declared. -/
def Use.IsResolved (ds : List Declaration) : Use → Prop
  | field _ _ f => ∀ part ∈ partsOf f.type, IsKnown ds part
  | choice .. => True
  | variant _ _ type => ∀ part ∈ partsOf type, IsKnown ds part
  | payload _ type _ => IsDeclared ds type

instance (u : Use) : Decidable (u.IsResolved ds) :=
  match u with
  | .field _ _ f => List.decidableBAll (IsKnown ds) (partsOf f.type)
  | .choice .. => instDecidableTrue
  | .variant _ _ type => List.decidableBAll (IsKnown ds) (partsOf type)
  | .payload _ type _ => inferInstanceAs (Decidable (IsDeclared ds type))

/-- **What is declared is found as before**, whatever is declared later. -/
theorem find?_append (h : IsDeclared ds type) (es : List Declaration) :
    Symbols.find? ((ds ++ es).map Declaration.entry) type =
      Symbols.find? (ds.map Declaration.entry) type := by
  obtain ⟨d, hd, name⟩ := h
  have there : (List.find? (·.1 == Symbols.lastPart type) (ds.map Declaration.entry)).isSome :=
    List.find?_isSome.2 ⟨d.entry, List.mem_map_of_mem hd, beq_iff_eq.2 name⟩
  rw [Symbols.find?, Symbols.find?, List.map_append, List.find?_append, Option.or_of_isSome there]

/-! ### Maps -/

theorem getLast?_of_mapTypes? (h : (mapTypes? type).isSome) : type.toList.getLast? = some '>' := by
  unfold mapTypes? at h
  split at h
  · next cs hcs =>
    split at h
    · next closed => simp [hcs, List.getLast?_cons, closed]
    · cases h
  · cases h

/-- The last part of a map ends as the map does, so that it is no word. -/
theorem not_isWord_of_mapTypes? (h : (mapTypes? type).isSome) :
    ¬ IsWord (Symbols.lastPart type) := by
  intro word
  obtain ⟨piece, last, member⟩ :=
    Text.exists_getLast?_splitAt (getLast?_of_mapTypes? h) (show '>' ≠ '.' by decide)
  have whole : Symbols.lastPart type = String.ofList piece := by
    rw [Symbols.lastPart, Text.split, List.getLast?_map, last]
    rfl
  have part := List.all_eq_true.1 word.all '>' (by rwa [whole, String.toList_ofList])
  exact absurd part (by decide)

/-- **A map is never found as a whole**, where all that is declared has a word for its name. -/
theorem find?_of_mapTypes? (words : ∀ d ∈ ds, IsWord d.name) (h : (mapTypes? type).isSome) :
    Symbols.find? (ds.map Declaration.entry) type = none := by
  rw [Symbols.find?, Option.map_eq_none_iff, List.find?_eq_none, List.forall_mem_map]
  intro d hd same
  exact not_isWord_of_mapTypes? h (beq_iff_eq.1 same ▸ words d hd)

mutual

theorem exists_mem_walk_of_mem_ofNode (package outer : List String) : ∀ n : Node,
    ∀ d ∈ Declaration.ofNode package outer n, ∃ x ∈ n.walk, x.content.word? = some d.name
  | ⟨content, span, comments, directives, children⟩ => by
    intro d hd
    cases content with
    | message name =>
      rw [Declaration.ofNode, List.mem_cons] at hd
      rcases hd with rfl | hd
      · exact ⟨_, by rw [Node.walk_eq]; exact List.mem_cons_self, rfl⟩
      · obtain ⟨n, hn, x, hx, word⟩ :=
          exists_mem_walk_of_mem_ofNodes package (outer ++ [name]) children d hd
        exact ⟨x, Node.walk_trans (Node.mem_walk_of_mem_children hn) hx, word⟩
    | enumeration name =>
      obtain rfl := List.mem_singleton.1 hd
      exact ⟨_, by rw [Node.walk_eq]; exact List.mem_cons_self, rfl⟩
    | _ => cases hd

theorem exists_mem_walk_of_mem_ofNodes (package outer : List String) : ∀ ns : List Node,
    ∀ d ∈ Declaration.ofNodes package outer ns,
      ∃ n ∈ ns, ∃ x ∈ n.walk, x.content.word? = some d.name
  | [] => fun d hd => absurd hd List.not_mem_nil
  | n :: ns => by
    intro d hd
    rw [Declaration.ofNodes, List.mem_append] at hd
    rcases hd with hd | hd
    · exact ⟨n, List.mem_cons_self, exists_mem_walk_of_mem_ofNode package outer n d hd⟩
    · obtain ⟨n', hn', found⟩ := exists_mem_walk_of_mem_ofNodes package outer ns d hd
      exact ⟨n', List.mem_cons_of_mem _ hn', found⟩

end

/-- What files declare has words for names. -/
theorem isWord_of_mem_ofFiles {m : Marker} {files : List TextFile} {parsed : List ParsedFile}
    (h : parseFiles m files = .ok parsed) : ∀ d ∈ Declaration.ofFiles parsed, IsWord d.name := by
  intro d hd
  obtain ⟨p, hp, hd⟩ := List.mem_flatMap.1 hd
  obtain ⟨n, hn, x, hx, word⟩ := exists_mem_walk_of_mem_ofNodes _ _ _ d hd
  have inside := Node.walk_trans (Node.mem_walk_of_mem_children hn) hx
  exact spelled_of_parseFiles h p hp x inside _ word

/-! ### Resolved uses -/

/-- **What is written for a resolved use stays**, whatever is declared later. -/
theorem Use.IsResolved.type_append {u : Use} (h : u.IsResolved ds)
    (words : ∀ d ∈ ds ++ es, IsWord d.name) :
    u.type ((ds ++ es).map Declaration.entry) = u.type (ds.map Declaration.entry) := by
  have known : ∀ part, IsKnown ds part → (scalar? part).isNone →
      Symbols.find? ((ds ++ es).map Declaration.entry) part =
        Symbols.find? (ds.map Declaration.entry) part := by
    intro part known notScalar
    refine find?_append (known.resolve_left fun scalar => ?_) es
    rw [Option.isNone_iff_eq_none.1 notScalar] at scalar
    cases scalar
  refine Use.type_congr fun part hpart => ?_
  cases u with
  | field scope owner f =>
    obtain ⟨hpart, notScalar⟩ := List.mem_filter.1 hpart
    exact known part (h part hpart) notScalar
  | choice => cases hpart
  | variant scope owner type =>
    obtain ⟨same, notScalar⟩ := List.mem_filter.1 hpart
    obtain rfl := List.mem_singleton.1 same
    -- A map in a choice is asked for as a whole, and found nowhere.
    cases hm : mapTypes? part with
    | none =>
      refine known part (h part ?_) notScalar
      rw [partsOf, hm]
      exact List.mem_singleton_self part
    | some types =>
      have isMap : (mapTypes? part).isSome := by rw [hm]; rfl
      rw [find?_of_mapTypes? words isMap,
        find?_of_mapTypes? (fun d hd => words d (List.mem_append_left es hd)) isMap]
  | payload scope type isStream =>
    obtain rfl := List.mem_singleton.1 hpart
    exact find?_append h es

/-! ### More dependencies -/

section Generate
variable {m : Marker} {input : GeneratorInput}

theorem parseFiles_append (m : Marker) (fs gs : List TextFile) : parseFiles m (fs ++ gs) =
    (do return (← parseFiles m fs) ++ (← parseFiles m gs)) :=
  List.mapM_append

theorem parseFiles_append_of_ok {fs gs : List TextFile} {ps qs : List ParsedFile}
    (hps : parseFiles m fs = .ok ps) (hqs : parseFiles m gs = .ok qs) :
    parseFiles m (fs ++ gs) = .ok (ps ++ qs) := by
  rw [parseFiles_append, hps, hqs]
  rfl

/-- The text for a file whose uses are resolved is the same with more files after those parsed. -/
theorem fileText_append {files further : List TextFile} {all more : List ParsedFile}
    {includeServices : Bool} {parsed : ParsedFile} (hall : parseFiles m files = .ok all)
    (hmore : parseFiles m further = .ok more)
    (resolved : ∀ u ∈ fileUses includeServices parsed, u.IsResolved (Declaration.ofFiles all)) :
    fileText (symbolsOf (all ++ more)) includeServices parsed =
      fileText (symbolsOf all) includeServices parsed := by
  have words : ∀ d ∈ Declaration.ofFiles all ++ Declaration.ofFiles more, IsWord d.name :=
    List.forall_mem_append.2 ⟨isWord_of_mem_ofFiles hall, isWord_of_mem_ofFiles hmore⟩
  have split : Declaration.ofFiles (all ++ more) =
      Declaration.ofFiles all ++ Declaration.ofFiles more := List.flatMap_append
  have items : itemsOfFile (symbolsOf (all ++ more)) includeServices parsed =
      itemsOfFile (symbolsOf all) includeServices parsed := by
    refine itemsOfFile_congr _ _ fun u hu => ?_
    rw [symbolsOf_eq, symbolsOf_eq, split]
    exact (resolved u hu).type_append words
  exact congrArg (fun items => _ ++ String.join (List.map CodeItem.text items)) items

variable (m input)

/-- **Code all of whose uses are resolved is the same with more dependencies**, for any input, as
long as the further files are schemas: the same files, or the same error. -/
theorem generate_append {further : List TextFile} (schemas : ∀ f ∈ further, f.IsSchema m)
    (resolved : ∀ own dependencies, parseFiles m input.files = .ok own →
      parseFiles m input.dependencyFiles = .ok dependencies →
      ∀ parsed ∈ own, ∀ u ∈ fileUses input.includeServices parsed,
        u.IsResolved (Declaration.ofFiles (own ++ dependencies))) :
    generate m { input with dependencyFiles := input.dependencyFiles ++ further } =
      generate m input := by
  obtain ⟨more, hmore⟩ := exists_parseFiles_iff.2 schemas
  cases hown : parseFiles m input.files with
  | error message =>
    rw [generate, generate, hown]
    rfl
  | ok own =>
    cases hdependencies : parseFiles m input.dependencyFiles with
    | error message =>
      rw [generate, generate, hown, parseFiles_append, hdependencies]
      rfl
    | ok dependencies =>
      have hall := parseFiles_append_of_ok hown hdependencies
      have extended := parseFiles_append_of_ok hdependencies hmore
      have texts : ∀ parsed ∈ own,
          fileText (symbolsOf (own ++ (dependencies ++ more))) input.includeServices parsed =
            fileText (symbolsOf (own ++ dependencies)) input.includeServices parsed := by
        intro parsed hparsed
        rw [← List.append_assoc]
        exact fileText_append hall hmore
          (resolved own dependencies hown hdependencies parsed hparsed)
      rw [generate_eq hown hdependencies, @generate_eq _ { input with
        dependencyFiles := input.dependencyFiles ++ further } _ _ hown extended]
      refine congrArg (fun files => Except.ok (GeneratorOutput.mk files _))
        (List.map_congr_left fun parsed hparsed => ?_)
      rw [texts parsed hparsed]

/-- A message that refers to itself and to one of another file, in fields, a map, a choice and a
call. -/
def orderBook : String :=
  "message Order \x7b Order next = 1; map<string, Item> all = 2;\n" ++
    "  oneof pick \x7b Item one = 3; \x7d \x7d\n" ++
    "service Desk \x7b rpc Ask (Item) returns (Order); \x7d\n"

/-- A request to generate code for it. -/
def orderBookInput : GeneratorInput where
  files := [⟨"order.proto", orderBook⟩]
  dependencyFiles := [⟨"item.proto", "message Item \x7b \x7d\n"⟩]
  includeServices := true

/-- A file that declares the same names for other things. -/
def clashingFile : TextFile where
  path := "clash.proto"
  content := "enum Item \x7b ANY = 0; \x7d\nmessage Bag \x7b enum Order \x7b ALL = 0; \x7d \x7d\n"

theorem generate_append_clashing : ∃ out, generate {} orderBookInput = .ok out ∧
    generate {} { orderBookInput with
      dependencyFiles := orderBookInput.dependencyFiles ++ [clashingFile] } = .ok out := by
  obtain ⟨own, hown, found⟩ : ∃ own, parseFiles {} orderBookInput.files = .ok own ∧
      (parseFiles {} orderBookInput.dependencyFiles).toOption.any (fun dependencies =>
        decide (∀ parsed ∈ own, ∀ u ∈ fileUses true parsed,
          u.IsResolved (Declaration.ofFiles (own ++ dependencies)))) = true :=
    exists_parsed_of_decide (by decide +kernel)
  obtain ⟨dependencies, hdependencies, resolved⟩ := exists_parsed_of_decide found
  obtain ⟨more, hmore, -⟩ : ∃ more, parseFiles {} [clashingFile] = .ok more ∧ True :=
    exists_parsed_of_decide (by decide +kernel)
  have hout := generate_eq hown hdependencies
  refine ⟨_, hout, ?_⟩
  rw [← hout]
  refine generate_append {} orderBookInput (exists_parseFiles_iff.1 ⟨more, hmore⟩) ?_
  rintro own' dependencies' hown' hdependencies'
  cases hown.symm.trans hown'
  cases hdependencies.symm.trans hdependencies'
  exact resolved

end Generate

end Code

end SchemaDepot
