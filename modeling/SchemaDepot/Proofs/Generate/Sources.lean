import SchemaDepot.Proofs.Generate.Emission
import SchemaDepot.Proofs.Schema.Words

/-! # What generated items come from

Every item of the code for a file comes from one declaration in it, and its names from the names
given there: its own from those of the messages around the declaration and of the declaration, those
inside it from the names of members.

* `Source`: a declaration that code is generated for; `sourcesOfFile`: those of a file.
* `itemsOfFile_eq`: the items of a file, one for each source.
* `name_item`, `memberNames_item`: the names of an item.
* `in_of_mem_sourcesOfFile`: sources are declarations in the tree of their file.
* `Source.IsSpelled`, `spelled_sourcesOfFile`: the names come from words. -/

namespace SchemaDepot

namespace CodeItem

/-- The name of an item. -/
def name : CodeItem → String
  | struct _ _ name _ | enumeration _ _ _ name _ | choice _ name _ | service _ name _ => name

/-- The names in an item: of its fields, its variants or its methods. -/
def memberNames : CodeItem → List String
  | struct _ _ _ fields => fields.map CodeField.name
  | enumeration _ _ _ _ variants => variants.map CodeVariant.name
  | choice _ _ variants => variants.map Prod.fst
  | service _ _ methods => methods.map CodeMethod.name

end CodeItem

namespace Code

/-! ### Sources -/

/-- What an item comes from. -/
inductive SourceKind where
  | message
  | enumeration
  | choice
  | service
deriving DecidableEq

namespace SourceKind

/-- The name that a declaration gives to a member of what is declared around it. -/
def memberWord? : SourceKind → Content → Option String
  | message, .field f | choice, .field f => some f.name
  | message, .oneof name => some name
  | enumeration, .enumValue v => some v.name
  | service, .rpc call => some call.name
  | _, _ => none

/-- The name of a member in source text. -/
def memberName : SourceKind → String → String
  | message, word | service, word => valueName word
  | enumeration, word | choice, word => Naming.pascalCase word

theorem word?_of_memberWord? {kind : SourceKind} {content : Content} {w : String}
    (h : kind.memberWord? content = some w) : content.word? = some w := by
  unfold memberWord? at h
  split at h <;> first | exact h | cases h

end SourceKind

/-- A declaration that code is generated for, with the names of the messages around it, the
outermost first. -/
structure Source where
  kind : SourceKind
  outer : List String
  name : String
  comments : List Comment
  directives : List Directive
  members : List Node
  /-- No messages stand around services. -/
  top : kind = .service → outer = [] := by nofun

namespace Source

/-- The whole name, in parts. -/
def path (s : Source) : List String := s.outer ++ [s.name]

/-- The name in source text. -/
def codeName (s : Source) : String := joined s.path

/-- The names that are given to the members. -/
def words (s : Source) : List String := s.members.filterMap fun n => s.kind.memberWord? n.content

/-- The item. -/
def item (symbols : Symbols) (s : Source) : CodeItem :=
  match s.kind with
  | .message => structItem symbols s.codeName s.comments s.directives s.members
  | .enumeration => enumItem s.codeName s.comments s.directives s.members
  | .choice => choiceItem symbols (joined s.outer) s.name s.directives s.members
  | .service => serviceItem symbols s.name s.comments s.members

theorem joined_path (s : Source) : joined s.path = joined s.outer ++ Naming.pascalCase s.name :=
  joined_append s.outer s.name

/-- **An item is called by its source**, and by the messages around that. -/
theorem name_item (symbols : Symbols) (s : Source) : (s.item symbols).name = s.codeName := by
  unfold item
  cases hkind : s.kind with
  | message => rfl
  | enumeration => rfl
  | choice => exact s.joined_path.symm
  | service =>
    rw [codeName, joined_path, s.top hkind]
    exact (String.empty_append).symm

/-- **What is in an item is called by the members of its source**, one by one. -/
theorem memberNames_item (symbols : Symbols) (s : Source) :
    (s.item symbols).memberNames = s.words.map s.kind.memberName := by
  rw [words, List.map_filterMap]
  unfold item
  cases s.kind with
  | message =>
    rw [structItem, CodeItem.memberNames, List.map_filterMap]
    refine congrArg (List.filterMap · s.members) (funext fun n => ?_)
    rw [structField?]
    cases n.content <;> rfl
  | enumeration =>
    rw [enumItem, CodeItem.memberNames, enumNumbers, List.map_map, List.map_filterMap]
    refine congrArg (List.filterMap · s.members) (funext fun n => ?_)
    cases n.content <;> rfl
  | choice =>
    rw [choiceItem, CodeItem.memberNames, List.map_filterMap]
    refine congrArg (List.filterMap · s.members) (funext fun n => ?_)
    rw [choiceVariant?]
    cases n.content <;> rfl
  | service =>
    rw [serviceItem, CodeItem.memberNames, List.map_filterMap]
    refine congrArg (List.filterMap · s.members) (funext fun n => ?_)
    rw [method?]
    cases n.content <;> rfl

end Source

mutual

/-- The sources in a declaration inside messages, itself first. What is left out of the code holds
none. -/
def sourcesOf (outer : List String) : Node → List Source
  | ⟨content, _, comments, directives, children⟩ =>
    match content with
    | .message name =>
      if isSkipped directives then []
      else
        { kind := .message, outer, name, comments, directives, members := children } ::
          sourcesIn (outer ++ [name]) children
    | .enumeration name =>
      if isSkipped directives then []
      else [{ kind := .enumeration, outer, name, comments, directives, members := children }]
    | .oneof name =>
      [{ kind := .choice, outer, name, comments, directives, members := children }]
    | _ => []

/-- The sources in declarations inside messages. -/
def sourcesIn (outer : List String) : List Node → List Source
  | [] => []
  | n :: ns => sourcesOf outer n ++ sourcesIn outer ns

end

/-- The sources in a declaration of a file. -/
def topSources (includeServices : Bool) (n : Node) : List Source :=
  match n.content with
  | .service name =>
    if includeServices then
      [{ kind := .service, outer := [], name, comments := n.comments, directives := n.directives,
         members := n.children, top := fun _ => rfl }]
    else []
  | _ => sourcesOf [] n

/-- The sources in a file. -/
def sourcesOfFile (includeServices : Bool) (parsed : ParsedFile) : List Source :=
  parsed.2.children.flatMap (topSources includeServices)

section Items
variable (symbols : Symbols)

mutual

theorem itemsOf_eq (outer : List String) : ∀ n : Node,
    itemsOf symbols (joined outer) n = (sourcesOf outer n).map (Source.item symbols)
  | ⟨content, _, comments, directives, children⟩ => by
    cases content with
    | message name =>
      rw [itemsOf, sourcesOf, ← joined_append, itemsIn_eq (outer ++ [name]) children]
      split <;> rfl
    | enumeration name =>
      rw [itemsOf, sourcesOf, ← joined_append]
      split <;> rfl
    | _ => rfl

theorem itemsIn_eq (outer : List String) : ∀ ns : List Node,
    itemsIn symbols (joined outer) ns = (sourcesIn outer ns).map (Source.item symbols)
  | [] => rfl
  | n :: ns => by
    rw [itemsIn, sourcesIn, List.map_append, itemsOf_eq outer n, itemsIn_eq outer ns]

end

/-- **Every item of a file comes from one source**, and they stand in the same order. -/
theorem itemsOfFile_eq (includeServices : Bool) (parsed : ParsedFile) :
    itemsOfFile symbols includeServices parsed =
      (sourcesOfFile includeServices parsed).map (Source.item symbols) := by
  rw [itemsOfFile, sourcesOfFile, List.map_flatMap]
  refine congrArg (List.flatMap · parsed.2.children) (funext fun n => ?_)
  have inside := itemsOf_eq symbols [] n
  rw [fileItems, topSources]
  cases n.content with
  | service name => cases includeServices <;> rfl
  | _ => exact inside

end Items

/-! ### Where sources stand -/

/-- What the declaration declares. -/
def Source.content (s : Source) : Content :=
  match s.kind with
  | .message => .message s.name
  | .enumeration => .enumeration s.name
  | .choice => .oneof s.name
  | .service => .service s.name

theorem Source.word?_content (s : Source) : s.content.word? = some s.name := by
  unfold content
  cases s.kind <;> rfl

/-- The source is a declaration in the tree, and the messages around it are in the tree, but for
those given. -/
structure Source.In (outer : List String) (n : Node) (s : Source) : Prop where
  node : ∃ span, ⟨s.content, span, s.comments, s.directives, s.members⟩ ∈ n.walk
  outer : ∀ w ∈ s.outer, w ∈ outer ∨ ∃ x ∈ n.walk, x.content = .message w

/-- What stands in a child stands in the parent. -/
theorem Source.In.parent {outer : List String} {n c : Node} {s : Source}
    (h : Source.In outer c s) (hc : c ∈ n.children) : Source.In outer n s := by
  have below : ∀ x ∈ c.walk, x ∈ n.walk := fun x hx =>
    Node.walk_trans (Node.mem_walk_of_mem_children hc) hx
  obtain ⟨⟨span, node⟩, around⟩ := h
  exact ⟨⟨span, below _ node⟩, fun w hw => (around w hw).imp_right fun ⟨x, hx, content⟩ =>
    ⟨x, below x hx, content⟩⟩

mutual

theorem in_of_mem_sourcesOf (outer : List String) : ∀ n : Node, ∀ s ∈ sourcesOf outer n,
    Source.In outer n s
  | ⟨content, span, comments, directives, children⟩ => by
    -- The message itself is not around what stands inside it, but it is in the tree.
    have self : ∀ s : Source, s.outer = outer →
        (⟨s.content, span, s.comments, s.directives, s.members⟩ : Node) =
          ⟨content, span, comments, directives, children⟩ →
        Source.In outer ⟨content, span, comments, directives, children⟩ s := fun s same node =>
      ⟨⟨span, by rw [node, Node.walk_eq]; exact List.mem_cons_self⟩,
        fun w hw => .inl (same ▸ hw)⟩
    cases content with
    | message name =>
      rw [sourcesOf]
      split
      · exact fun s hs => absurd hs List.not_mem_nil
      · refine List.forall_mem_cons.2 ⟨self _ rfl rfl, fun s hs => ?_⟩
        obtain ⟨c, hc, inside⟩ := in_of_mem_sourcesIn (outer ++ [name]) children s hs
        obtain ⟨node, around⟩ := inside.parent (n := ⟨.message name, span, comments, directives,
          children⟩) hc
        refine ⟨node, fun w hw => ?_⟩
        rcases around w hw with given | found
        · rcases List.mem_append.1 given with given | own
          · exact .inl given
          · rw [List.mem_singleton.1 own]
            exact .inr ⟨_, by rw [Node.walk_eq]; exact List.mem_cons_self, rfl⟩
        · exact .inr found
    | enumeration name =>
      rw [sourcesOf]
      split
      · exact fun s hs => absurd hs List.not_mem_nil
      · exact List.forall_mem_singleton.2 (self _ rfl rfl)
    | oneof name =>
      rw [sourcesOf]
      exact List.forall_mem_singleton.2 (self _ rfl rfl)
    | _ => exact fun s hs => absurd hs List.not_mem_nil

theorem in_of_mem_sourcesIn (outer : List String) : ∀ ns : List Node, ∀ s ∈ sourcesIn outer ns,
    ∃ n ∈ ns, Source.In outer n s
  | [] => fun s hs => absurd hs List.not_mem_nil
  | n :: ns => by
    intro s hs
    rw [sourcesIn, List.mem_append] at hs
    rcases hs with hs | hs
    · exact ⟨n, List.mem_cons_self, in_of_mem_sourcesOf outer n s hs⟩
    · obtain ⟨n', hn', found⟩ := in_of_mem_sourcesIn outer ns s hs
      exact ⟨n', List.mem_cons_of_mem _ hn', found⟩

end

/-- **The sources of a file are declarations in its tree.** -/
theorem in_of_mem_sourcesOfFile {includeServices : Bool} {parsed : ParsedFile} {s : Source}
    (h : s ∈ sourcesOfFile includeServices parsed) : Source.In [] parsed.2 s := by
  obtain ⟨n, hn, h⟩ := List.mem_flatMap.1 h
  refine Source.In.parent ?_ hn
  have inside := in_of_mem_sourcesOf [] n s
  unfold topSources at h
  cases hc : n.content with
  | service name =>
    simp only [hc] at h
    split at h
    · obtain rfl := List.mem_singleton.1 h
      have whole : (⟨.service name, n.span, n.comments, n.directives, n.children⟩ : Node) = n := by
        cases n
        cases hc
        rfl
      refine ⟨⟨n.span, ?_⟩, nofun⟩
      show (⟨.service name, n.span, n.comments, n.directives, n.children⟩ : Node) ∈ n.walk
      rw [whole, Node.walk_eq]
      exact List.mem_cons_self
    · cases h
  | _ =>
    simp only [hc] at h
    exact inside h

/-! ### The words they come from -/

/-- The names of a source and of its members are words. -/
structure Source.IsSpelled (s : Source) : Prop where
  path : ∀ w ∈ s.path, IsWord w
  words : ∀ w ∈ s.words, IsWord w

/-- **The names that the items of a file come from are words.** -/
theorem spelled_sourcesOfFile (includeServices : Bool) {parsed : ParsedFile}
    (h : parsed.2.IsSpelled) : ∀ s ∈ sourcesOfFile includeServices parsed, s.IsSpelled := by
  intro s hs
  obtain ⟨⟨span, node⟩, around⟩ := in_of_mem_sourcesOfFile hs
  constructor
  · rw [Source.path, List.forall_mem_append]
    refine ⟨fun w hw => ?_, List.forall_mem_singleton.2 (h _ node s.name s.word?_content)⟩
    rcases around w hw with given | ⟨x, hx, content⟩
    · exact absurd given List.not_mem_nil
    · exact h x hx w (by rw [content]; rfl)
  · intro w hw
    obtain ⟨n, hn, hw⟩ := List.mem_filterMap.1 hw
    refine h n ?_ w (SourceKind.word?_of_memberWord? hw)
    exact Node.walk_trans node (Node.mem_walk_of_mem_children hn)

/-- The trees of files have words for names. -/
theorem spelled_of_parseFiles {m : Marker} {files : List TextFile} {parsed : List ParsedFile}
    (h : parseFiles m files = .ok parsed) : ∀ p ∈ parsed, p.2.IsSpelled := by
  have each := parseFiles_eq_ok_iff.1 h
  intro p hp
  obtain ⟨i, hi, rfl⟩ := List.getElem_of_mem hp
  exact Schema.parse_spelled ((each.get (each.length_eq ▸ hi) hi).2)

/-- The texts of the generated files are those of the parsed files. -/
theorem exists_generate_texts {m : Marker} {input : GeneratorInput}
    {own dependencies : List ParsedFile} (hown : parseFiles m input.files = .ok own)
    (hdependencies : parseFiles m input.dependencyFiles = .ok dependencies) :
    ∃ out, generate m input = .ok out ∧ out.files.map TextFile.content =
      own.map (fileText (symbolsOf (own ++ dependencies)) input.includeServices) := by
  refine ⟨_, generate_eq hown hdependencies, ?_⟩
  rw [List.map_map]
  rfl

end Code

end SchemaDepot
