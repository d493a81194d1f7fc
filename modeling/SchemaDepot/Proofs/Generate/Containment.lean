import Mathlib.Logic.Relation
import SchemaDepot.Proofs.Generate.Emission
import SchemaDepot.Proofs.Schema.Nesting

/-! # Which values hold others in place

A struct holds the values of its fields in place, unless they are in a box, a list or a map, and the
enum of a choice holds its one value. A value that holds one of its own type in place, however far
inside, has no finite size. The generator boxes a value where its type is the struct it stands in.
This keeps a message out of itself and does no more: two messages that contain one another hold one
another in place.

* `HoldsInPlace`: one type holds another, as the items have it.
* `Code.Contains`: one message contains another, as the schema has it.
* `Code.transGen_holdsInPlace`: messages that contain one another hold one another in place;
  `Code.exists_transGen_contains`: nothing else does, if names are told apart.
* `Code.generate_inPlace`: this for all files of an input; `Code.exists_endless`: there are types
  without a finite size. -/

namespace SchemaDepot

/-- The name of the type that a value is held of in place, if one is. -/
def CodeType.inPlace? : CodeType → Option String
  | plain name => some name
  | optional inner => inner.inPlace?
  | boxed _ | vector _ | map .. => none

namespace CodeItem

/-- The name of a struct, or of the enum of a choice. -/
def dataName? : CodeItem → Option String
  | struct _ _ name _ => some name
  | choice _ name _ => some name
  | enumeration .. | service .. => none

/-- The names of the types that a value of the item holds values of in place. -/
def held : CodeItem → List String
  | struct _ _ _ fields => fields.filterMap fun f => f.type.inPlace?
  | choice _ _ variants => variants.filterMap fun (_, type) => type.inPlace?
  | enumeration .. | service .. => []

end CodeItem

/-- Among structs and choices, one of this name holds another in place. The source text knows them by
their names only. -/
def HoldsInPlace (items : List CodeItem) (holder name : String) : Prop :=
  (∃ x ∈ items, x.dataName? = some holder ∧ name ∈ x.held) ∧ ∃ y ∈ items, y.dataName? = some name

instance (items : List CodeItem) (holder name : String) :
    Decidable (HoldsInPlace items holder name) := by
  unfold HoldsInPlace
  infer_instance

/-! ### Choices stand in messages -/

/-- The node is no choice. -/
def Node.NotChoice (n : Node) : Prop := ∀ name, n.content ≠ .oneof name

namespace Grammar

open Reader

theorem declaration_notChoice (block : Scope → Reader Block) :
    Yields (declaration block) Node.NotChoice := by
  have named : ∀ kind what (content : String → Content) scope,
      (∀ word name, content word ≠ .oneof name) →
      Yields (namedBlock block kind what content scope) Node.NotChoice :=
    fun kind what content scope h => Yields.bind fun _ => Yields.bind fun _ => Yields.bind fun _ =>
      Yields.pure (h _)
  unfold declaration
  refine Yields.bind fun next => ?_
  split
  · exact Yields.bind fun _ => Yields.bind fun _ => Yields.bind fun _ => Yields.bind fun _ =>
      Yields.pure fun _ => nofun
  · exact Yields.bind fun _ => Yields.bind fun _ => Yields.bind fun _ => Yields.bind fun _ =>
      Yields.pure fun _ => nofun
  · exact Yields.bind fun _ => Yields.bind fun _ => Yields.bind fun _ =>
      Yields.pure fun _ => nofun
  · exact Yields.bind fun _ => Yields.bind fun _ =>
      Yields.ite (Yields.bind fun _ => Yields.bind fun _ => Yields.bind fun _ =>
        Yields.pure fun _ => nofun)
        (Yields.bind fun _ => Yields.bind fun _ => Yields.bind fun _ => Yields.pure fun _ => nofun)
  · exact Yields.bind fun _ => Yields.bind fun _ => Yields.bind fun _ =>
      Yields.pure fun _ => nofun
  · exact named _ _ _ _ fun _ _ => nofun
  · exact named _ _ _ _ fun _ _ => nofun
  · exact named _ _ _ _ fun _ _ => nofun
  · exact Yields.bind fun _ => Yields.bind fun _ => Yields.bind fun _ =>
      Yields.pure fun _ => nofun
  · exact expected_yields _

end Grammar

/-- Placing comments leaves what a row declares. -/
theorem Placement.placeAll_contents (m : Marker) (pool : List Note) (ns : List Node) :
    (placeAll m pool ns).1.map Node.content = ns.map Node.content := by
  induction ns generalizing pool with
  | nil => rfl
  | cons n ns ih =>
    obtain ⟨content, span, comments, directives, children⟩ := n
    rw [placeAll_cons, List.map_cons, List.map_cons, ih]

/-- No choice stands in a file outside of its messages. -/
theorem Schema.parse_notChoice {m : Marker} {text : String} {root : Node}
    (h : parse m text = .ok root) : ∀ n ∈ root.children, n.NotChoice := by
  obtain ⟨ts, final, nodes, rest, -, hfile, rfl⟩ := parse_eq_ok.1 h
  rw [Placement.document_children, List.forall_mem_append]
  constructor
  · intro n hn name hname
    have placed : n.content ∈ (Placement.placeAll m (Note.ofTokens none ts) nodes).1.map
        Node.content := List.mem_map_of_mem hn
    rw [Placement.placeAll_contents] at placed
    obtain ⟨declared, hdeclared, same⟩ := List.mem_map.1 placed
    have read := Reader.many_yields (Grammar.declaration_notChoice _) hfile declared hdeclared
    exact read name (same.trans hname)
  · intro n hn
    obtain ⟨c, -, hn⟩ := List.mem_flatMap.1 hn
    rcases List.mem_cons.1 hn with rfl | hn
    · exact fun _ => nofun
    · obtain ⟨d, -, rfl⟩ := List.mem_map.1 hn
      exact fun _ => nofun

namespace Code

/-! ### Messages and their items -/

/-- A message that code is generated for: what its struct is called, and what is declared for it and
in it. -/
structure Message where
  name : String
  comments : List Comment
  directives : List Directive
  members : List Node

mutual

/-- The messages in a declaration in the scope named `above` that are not left out. -/
def messagesOf (above : String) : Node → List Message
  | ⟨content, _, comments, directives, children⟩ =>
    match content with
    | .message name =>
      let own := above ++ Naming.pascalCase name
      if isSkipped directives then []
      else ⟨own, comments, directives, children⟩ :: messagesIn own children
    | _ => []

/-- The messages in declarations in the scope named `above` that are not left out. -/
def messagesIn (above : String) : List Node → List Message
  | [] => []
  | n :: ns => messagesOf above n ++ messagesIn above ns

end

/-- The messages of files that code is generated for. -/
def messagesOfFiles (files : List ParsedFile) : List Message :=
  files.flatMap fun parsed => messagesIn "" parsed.2.children

/-- The name of a choice in the struct `owner`. -/
def choiceName? (owner : String) (n : Node) : Option String :=
  match n.content with
  | .oneof name => some (owner ++ Naming.pascalCase name)
  | _ => none

/-- The type of a field in a choice. -/
def variantType? (n : Node) : Option String :=
  match n.content with
  | .field f => some f.type
  | _ => none

/-- The types that a message holds at most one value each of, by a declaration in it: that of a field
that is no list and no map, and those of a choice. -/
def singlesOf (n : Node) : List String :=
  match n.content with
  | .field f => if f.label = some .repeated ∨ (mapTypes? f.type).isSome then [] else [f.type]
  | .oneof _ => n.children.filterMap variantType?
  | _ => []

namespace Message

/-- The names of the choices of a message. -/
def choiceNames (M : Message) : List String := M.members.filterMap (choiceName? M.name)

/-- The name is that of the struct of a message or of one of its choices. -/
def Names (M : Message) (name : String) : Prop := name = M.name ∨ name ∈ M.choiceNames

/-- The types that a message holds at most one value each of. -/
def singles (M : Message) : List String := M.members.flatMap singlesOf

end Message

section Items
variable (symbols : Symbols)

/-- The item of a choice in the struct `owner`. -/
def choiceItem? (owner : String) (n : Node) : Option CodeItem :=
  match n.content with
  | .oneof name => some (choiceItem symbols owner name n.directives n.children)
  | _ => none

/-- The struct of a message. -/
def Message.struct (M : Message) : CodeItem :=
  structItem symbols M.name M.comments M.directives M.members

/-- The items that hold the values of a message: its struct, and its choices. -/
def Message.items (M : Message) : List CodeItem :=
  M.struct symbols :: M.members.filterMap (choiceItem? symbols M.name)

theorem itemsIn_eq_flatMap (above : String) (ns : List Node) :
    itemsIn symbols above ns = ns.flatMap (itemsOf symbols above) := by
  induction ns with
  | nil => rfl
  | cons n ns ih => rw [itemsIn, ih, List.flatMap_cons]

variable {x : CodeItem}

mutual

/-- What holds values of data in the code for a declaration belongs to one of its messages, or is the
choice that it is itself. -/
theorem mem_itemsOf (data : x.dataName?.isSome) (above : String) : ∀ n : Node,
    x ∈ itemsOf symbols above n ↔
      (∃ M ∈ messagesOf above n, x ∈ M.items symbols) ∨ choiceItem? symbols above n = some x
  | ⟨content, span, comments, directives, children⟩ => by
    cases content with
    | message name =>
      rw [itemsOf, messagesOf]
      by_cases skipped : isSkipped directives
      · simp [skipped, choiceItem?]
      · have inside := mem_itemsIn data (above ++ Naming.pascalCase name) children
        simp only [skipped, Bool.false_eq_true, if_false, List.mem_cons, inside, choiceItem?,
          reduceCtorEq, or_false, exists_eq_or_imp, Message.items, Message.struct]
        exact (or_congr_right or_comm).trans or_assoc.symm
    | enumeration name =>
      have noMessage : messagesOf above ⟨.enumeration name, span, comments, directives, children⟩ =
        [] := rfl
      rw [itemsOf, noMessage]
      by_cases skipped : isSkipped directives
      · simp [skipped, choiceItem?]
      · have other : x ≠ enumItem (above ++ Naming.pascalCase name) comments directives children := by
          rintro rfl
          cases data
        simp [skipped, choiceItem?, other]
    | oneof name =>
      have noMessage : messagesOf above ⟨.oneof name, span, comments, directives, children⟩ = [] :=
        rfl
      rw [itemsOf, noMessage]
      simp [choiceItem?, eq_comm]
    | _ => simp [itemsOf, messagesOf, choiceItem?]

theorem mem_itemsIn (data : x.dataName?.isSome) (above : String) : ∀ ns : List Node,
    x ∈ itemsIn symbols above ns ↔
      (∃ M ∈ messagesIn above ns, x ∈ M.items symbols) ∨
        x ∈ ns.filterMap (choiceItem? symbols above)
  | [] => by simp [itemsIn, messagesIn]
  | n :: ns => by
    rw [itemsIn, messagesIn, List.mem_append, mem_itemsOf data above n, mem_itemsIn data above ns]
    simp only [List.mem_append, List.mem_filterMap, List.mem_cons, or_and_right, exists_or,
      exists_eq_left]
    exact or_or_or_comm

end

/-- **What holds values of data in the code for a file belongs to its messages.** -/
theorem mem_itemsOfFile (data : x.dataName?.isSome) {includeServices : Bool} {parsed : ParsedFile}
    (inMessages : ∀ n ∈ parsed.2.children, n.NotChoice) :
    x ∈ itemsOfFile symbols includeServices parsed ↔
      ∃ M ∈ messagesIn "" parsed.2.children, x ∈ M.items symbols := by
  -- Services hold no values.
  have one : ∀ n, x ∈ fileItems symbols includeServices n ↔ x ∈ itemsOf symbols "" n := by
    intro n
    obtain ⟨content, span, comments, directives, children⟩ := n
    cases content with
    | service name =>
      have other : ∀ y, x ≠ serviceItem symbols name comments y := by
        rintro y rfl
        cases data
      cases includeServices <;> simp [fileItems, itemsOf, other]
    | _ => rfl
  have noChoice : parsed.2.children.filterMap (choiceItem? symbols "") = [] := by
    rw [List.filterMap_eq_nil_iff]
    intro n hn
    unfold choiceItem?
    split
    · next name h => exact absurd h (inMessages n hn name)
    · rfl
  have below := mem_itemsIn symbols data "" parsed.2.children
  rw [noChoice, or_iff_left List.not_mem_nil] at below
  rw [← below, itemsIn_eq_flatMap, itemsOfFile, List.mem_flatMap, List.mem_flatMap]
  exact exists_congr fun n => and_congr_right fun _ => one n

/-! ### What is held in place -/

variable {symbols} {M : Message} {owner name type : String}

/-- A value is held in place if its type is not the struct it stands in. -/
theorem inPlace?_valueType : (valueType symbols owner type).inPlace? = some name ↔
    scalar? type = some name ∨
      scalar? type = none ∧ symbols.nameOf type = name ∧ owner ≠ name := by
  unfold valueType
  cases scalar? type with
  | some scalar => simp [CodeType.inPlace?]
  | none =>
    by_cases same : symbols.nameOf type = owner
    · have boxed : (CodeType.boxed (.plain owner)).inPlace? ≠ some name := nofun
      simp [same, boxed]
    · have plain : (CodeType.plain (symbols.nameOf type)).inPlace? = some (symbols.nameOf type) := rfl
      simp only [same, if_false, plain, Option.some.injEq, reduceCtorEq, false_or, true_and]
      refine (and_iff_left_of_imp ?_).symm
      rintro rfl
      exact Ne.symm same

/-- A field holds a value in place if it is no list and no map. -/
theorem inPlace?_fieldType (f : Field) : (fieldType symbols owner f).inPlace? =
    if f.label = some .repeated ∨ (mapTypes? f.type).isSome then none
    else (valueType symbols owner f.type).inPlace? := by
  unfold fieldType
  cases mapTypes? f.type with
  | some types => simp [CodeType.inPlace?]
  | none =>
    simp only [Option.isSome_none, Bool.false_eq_true, or_false]
    split
    · next label => simp [label, CodeType.inPlace?]
    · next label => simp [label, CodeType.inPlace?]
    · next single _ =>
      rw [if_neg single]
      split <;> rfl

theorem mem_held_choiceItem {choice : String} {directives : List Directive} {children : List Node} :
    name ∈ (choiceItem symbols owner choice directives children).held ↔
      ∃ n ∈ children, ∃ f, n.content = .field f ∧
        (valueType symbols owner f.type).inPlace? = some name := by
  rw [choiceItem, CodeItem.held, List.filterMap_filterMap, List.mem_filterMap]
  refine exists_congr fun n => and_congr_right fun _ => ?_
  unfold choiceVariant?
  cases n.content <;> simp

theorem mem_held_struct : name ∈ (M.struct symbols).held ↔ name ∈ M.choiceNames ∨
    ∃ n ∈ M.members, ∃ f, n.content = .field f ∧
      (fieldType symbols M.name f).inPlace? = some name := by
  rw [Message.struct, structItem, CodeItem.held, List.filterMap_filterMap, Message.choiceNames,
    List.mem_filterMap, List.mem_filterMap, ← exists_or]
  refine exists_congr fun n => ?_
  rw [← and_or_left]
  refine and_congr_right fun _ => ?_
  unfold structField? choiceName?
  cases n.content <;> simp [CodeType.inPlace?]

namespace Message

theorem mem_choiceNames : name ∈ M.choiceNames ↔
    ∃ n ∈ M.members, ∃ choice, n.content = .oneof choice ∧
      M.name ++ Naming.pascalCase choice = name := by
  rw [choiceNames, List.mem_filterMap]
  refine exists_congr fun n => and_congr_right fun _ => ?_
  unfold choiceName?
  cases n.content <;> simp

theorem mem_items : x ∈ M.items symbols ↔ x = M.struct symbols ∨
    ∃ n ∈ M.members, ∃ choice, n.content = .oneof choice ∧
      choiceItem symbols M.name choice n.directives n.children = x := by
  rw [items, List.mem_cons, List.mem_filterMap]
  refine or_congr_right (exists_congr fun n => and_congr_right fun _ => ?_)
  unfold choiceItem?
  cases n.content <;> simp

theorem mem_singles : type ∈ M.singles ↔ ∃ n ∈ M.members,
    (∃ f, n.content = .field f ∧ ¬ (f.label = some .repeated ∨ (mapTypes? f.type).isSome) ∧
      f.type = type) ∨
    ∃ choice, n.content = .oneof choice ∧ ∃ c ∈ n.children, ∃ f, c.content = .field f ∧
      f.type = type := by
  rw [singles, List.mem_flatMap]
  refine exists_congr fun n => and_congr_right fun _ => ?_
  unfold singlesOf
  cases hn : n.content with
  | field f =>
    constructor
    · intro h
      dsimp only at h
      split at h
      · cases h
      · next single => exact Or.inl ⟨f, rfl, single, (List.mem_singleton.1 h).symm⟩
    · rintro (⟨g, hg, single, rfl⟩ | ⟨choice, hchoice, -⟩)
      · cases hg
        dsimp only
        rw [if_neg single]
        exact List.mem_singleton_self _
      · cases hchoice
  | oneof choice =>
    have variants : ∀ c : Node, variantType? c = some type ↔
        ∃ f, c.content = .field f ∧ f.type = type := by
      intro c
      unfold variantType?
      cases c.content <;> simp
    simp [variants]
  | _ => simp

theorem names_of_mem (h : x ∈ M.items symbols) (hname : x.dataName? = some name) :
    M.Names name := by
  rcases mem_items.1 h with rfl | ⟨n, hn, choice, hchoice, rfl⟩
  · exact Or.inl (Option.some.inj hname).symm
  · exact Or.inr (mem_choiceNames.2 ⟨n, hn, choice, hchoice, Option.some.inj hname⟩)

variable (symbols) in
theorem exists_choice (h : name ∈ M.choiceNames) :
    ∃ x ∈ M.items symbols, x.dataName? = some name := by
  obtain ⟨n, hn, choice, hchoice, rfl⟩ := mem_choiceNames.1 h
  exact ⟨_, mem_items.2 (Or.inr ⟨n, hn, choice, hchoice, rfl⟩), rfl⟩

/-- What an item of a message holds in place is one of the choices, in the struct, or a single
value. -/
theorem held_of_mem (h : x ∈ M.items symbols) (hname : name ∈ x.held) :
    x.dataName? = some M.name ∧ name ∈ M.choiceNames ∨
      ∃ type ∈ M.singles, (valueType symbols M.name type).inPlace? = some name := by
  rcases mem_items.1 h with rfl | ⟨n, hn, choice, hchoice, rfl⟩
  · rcases mem_held_struct.1 hname with choice | ⟨n, hn, f, hf, inPlace⟩
    · exact Or.inl ⟨rfl, choice⟩
    · rw [inPlace?_fieldType] at inPlace
      split at inPlace
      · cases inPlace
      · next single =>
        exact Or.inr ⟨f.type, mem_singles.2 ⟨n, hn, Or.inl ⟨f, hf, single, rfl⟩⟩, inPlace⟩
  · obtain ⟨c, hc, f, hf, inPlace⟩ := mem_held_choiceItem.1 hname
    exact Or.inr ⟨f.type, mem_singles.2 ⟨n, hn, Or.inr ⟨choice, hchoice, c, hc, f, hf, rfl⟩⟩,
      inPlace⟩

/-- A single value is held in place by the struct of a message or by one of its choices. -/
theorem exists_held (h : type ∈ M.singles)
    (inPlace : (valueType symbols M.name type).inPlace? = some name) :
    name ∈ (M.struct symbols).held ∨
      ∃ c ∈ M.choiceNames, ∃ x ∈ M.items symbols, x.dataName? = some c ∧ name ∈ x.held := by
  obtain ⟨n, hn, ⟨f, hf, single, rfl⟩ | ⟨choice, hchoice, c, hc, f, hf, rfl⟩⟩ := mem_singles.1 h
  · refine Or.inl (mem_held_struct.2 (Or.inr ⟨n, hn, f, hf, ?_⟩))
    rwa [inPlace?_fieldType, if_neg single]
  · refine Or.inr ⟨_, mem_choiceNames.2 ⟨n, hn, choice, hchoice, rfl⟩, _,
      mem_items.2 (Or.inr ⟨n, hn, choice, hchoice, rfl⟩), rfl, ?_⟩
    exact mem_held_choiceItem.2 ⟨c, hc, f, hf, inPlace⟩

end Message

end Items

/-! ### Messages that contain one another -/

/-- Among messages, one of this name contains another one: it holds at most one value of a type that
is written by the name of the other's struct. -/
def Contains (symbols : Symbols) (messages : List Message) (holder name : String) : Prop :=
  holder ≠ name ∧
    (∃ M ∈ messages, M.name = holder ∧
      ∃ type ∈ M.singles, scalar? type = none ∧ symbols.nameOf type = name) ∧
    ∃ M ∈ messages, M.name = name

instance (symbols : Symbols) (messages : List Message) (holder name : String) :
    Decidable (Contains symbols messages holder name) := by
  unfold Contains
  infer_instance

/-- Names stand for one thing each, as far as single values show it. -/
structure NamesApart (symbols : Symbols) (messages : List Message) : Prop where
  /-- A choice is called like no struct, and like no choice of a message of another name. -/
  choices : ∀ M ∈ messages, ∀ c ∈ M.choiceNames, ∀ M' ∈ messages,
    c ≠ M'.name ∧ (c ∈ M'.choiceNames → M.name = M'.name)
  /-- No type is written like a choice. -/
  references : ∀ M ∈ messages, ∀ type ∈ M.singles, ∀ M' ∈ messages,
    (scalar? type).getD (symbols.nameOf type) ∉ M'.choiceNames
  /-- No scalar is written like a struct. -/
  scalars : ∀ M ∈ messages, ∀ type ∈ M.singles, ∀ M' ∈ messages, scalar? type ≠ some M'.name

instance (symbols : Symbols) (messages : List Message) : Decidable (NamesApart symbols messages) :=
  decidable_of_iff
    ((∀ M ∈ messages, ∀ c ∈ M.choiceNames, ∀ M' ∈ messages,
        c ≠ M'.name ∧ (c ∈ M'.choiceNames → M.name = M'.name)) ∧
      (∀ M ∈ messages, ∀ type ∈ M.singles, ∀ M' ∈ messages,
        (scalar? type).getD (symbols.nameOf type) ∉ M'.choiceNames) ∧
      ∀ M ∈ messages, ∀ type ∈ M.singles, ∀ M' ∈ messages, scalar? type ≠ some M'.name)
    ⟨fun ⟨choices, references, scalars⟩ => ⟨choices, references, scalars⟩,
      fun ⟨choices, references, scalars⟩ => ⟨choices, references, scalars⟩⟩

section Graph
variable {symbols : Symbols} {items : List CodeItem} {messages : List Message} {a b c : String}

/-- Where names are apart, they tell which message they belong to. -/
theorem NamesApart.name_eq (apart : NamesApart symbols messages) {M M' : Message}
    (hM : M ∈ messages) (hM' : M' ∈ messages) (h : M.Names a) (h' : M'.Names a) :
    M.name = M'.name := by
  rcases h with rfl | h
  · rcases h' with same | h'
    · exact same
    · exact absurd rfl (apart.choices M' hM' _ h' M hM).1
  · rcases h' with rfl | h'
    · exact absurd rfl (apart.choices M hM _ h M' hM').1
    · exact (apart.choices M hM a h M' hM').2 h'

variable (cover : ∀ x : CodeItem, x.dataName?.isSome →
  (x ∈ items ↔ ∃ M ∈ messages, x ∈ M.items symbols))
include cover

/-- The items that hold values have the names of the messages. -/
theorem exists_dataName_iff :
    (∃ x ∈ items, x.dataName? = some a) ↔ ∃ M ∈ messages, M.Names a := by
  constructor
  · rintro ⟨x, hx, name⟩
    obtain ⟨M, hM, hx⟩ := (cover x (by rw [name]; rfl)).1 hx
    exact ⟨M, hM, Message.names_of_mem hx name⟩
  · rintro ⟨M, hM, rfl | choice⟩
    · exact ⟨M.struct symbols, (cover _ rfl).2 ⟨M, hM, List.mem_cons_self⟩, rfl⟩
    · obtain ⟨x, hx, name⟩ := Message.exists_choice symbols choice
      exact ⟨x, (cover x (by rw [name]; rfl)).2 ⟨M, hM, hx⟩, name⟩

/-- **A message that contains another one holds it in place**, itself or by one of its choices. -/
theorem transGen_of_contains (h : Contains symbols messages a b) :
    Relation.TransGen (HoldsInPlace items) a b := by
  obtain ⟨other, ⟨M, hM, rfl, type, htype, noScalar, written⟩, there⟩ := h
  have struct : M.struct symbols ∈ items := (cover _ rfl).2 ⟨M, hM, List.mem_cons_self⟩
  have target : ∃ y ∈ items, y.dataName? = some b := by
    obtain ⟨M', hM', rfl⟩ := there
    exact (exists_dataName_iff cover).2 ⟨M', hM', Or.inl rfl⟩
  have inPlace := inPlace?_valueType.2 (Or.inr ⟨noScalar, written, other⟩)
  rcases Message.exists_held htype inPlace with held | ⟨choice, hchoice, x, hx, name, held⟩
  · exact .single ⟨⟨_, struct, rfl, held⟩, target⟩
  · have middle : x ∈ items := (cover x (by rw [name]; rfl)).2 ⟨M, hM, hx⟩
    have toChoice : HoldsInPlace items M.name choice :=
      ⟨⟨_, struct, rfl, mem_held_struct.2 (Or.inl hchoice)⟩, x, middle, name⟩
    exact .tail (.single toChoice) ⟨⟨x, middle, name, held⟩, target⟩

/-- **Messages that contain one another hold one another in place.** -/
theorem transGen_holdsInPlace (h : Relation.TransGen (Contains symbols messages) a b) :
    Relation.TransGen (HoldsInPlace items) a b :=
  Relation.TransGen.closed (fun _ _ => transGen_of_contains cover) _ _ h

/-- What holds another in place is the struct of a message that holds one of its choices, or belongs
to a message that contains the other. -/
theorem contains_or_choice (apart : NamesApart symbols messages) (h : HoldsInPlace items a b) :
    ∃ M ∈ messages, M.Names a ∧
      (Contains symbols messages M.name b ∨ a = M.name ∧ b ∈ M.choiceNames) := by
  obtain ⟨⟨x, hx, name, held⟩, there⟩ := h
  obtain ⟨M', hM', target⟩ := (exists_dataName_iff cover).1 there
  obtain ⟨M, hM, hx⟩ := (cover x (by rw [name]; rfl)).1 hx
  refine ⟨M, hM, Message.names_of_mem hx name, ?_⟩
  rcases Message.held_of_mem hx held with ⟨own, choice⟩ | ⟨type, htype, inPlace⟩
  · rw [name] at own
    exact Or.inr ⟨Option.some.inj own, choice⟩
  · have noChoice := apart.references M hM type htype M' hM'
    rcases inPlace?_valueType.1 inPlace with scalar | ⟨noScalar, written, other⟩
    · rw [scalar, Option.getD_some] at noChoice
      rcases target with rfl | target
      · exact absurd scalar (apart.scalars M hM type htype M' hM')
      · exact absurd target noChoice
    · rw [noScalar, Option.getD_none, written] at noChoice
      rcases target with rfl | target
      · exact Or.inl ⟨other, ⟨M, hM, rfl, type, htype, noScalar, written⟩, M', hM', rfl⟩
      · exact absurd target noChoice

omit cover

/-- The first name belongs to a message that contains the one that the second belongs to, perhaps by
others between them, or both belong to one message, the first to its struct and the second to a
choice. -/
def Leads (symbols : Symbols) (messages : List Message) (a b : String) : Prop :=
  ∃ M ∈ messages, ∃ M' ∈ messages, M.Names a ∧ M'.Names b ∧
    (Relation.TransGen (Contains symbols messages) M.name M'.name ∨
      M.name = M'.name ∧ a = M.name ∧ b ∈ M'.choiceNames)

theorem Leads.trans (apart : NamesApart symbols messages) (h : Leads symbols messages a b)
    (h' : Leads symbols messages b c) : Leads symbols messages a c := by
  obtain ⟨M, hM, M', hM', ha, hb, first⟩ := h
  obtain ⟨N, hN, N', hN', hb', hc, second⟩ := h'
  have same : M'.name = N.name := apart.name_eq hM' hN hb hb'
  refine ⟨M, hM, N', hN', ha, hc, ?_⟩
  rcases first with contained | ⟨own, struct, choice⟩
  · rw [same] at contained
    rcases second with contained' | ⟨own', -, -⟩
    · exact Or.inl (contained.trans contained')
    · exact Or.inl (own' ▸ contained)
  · rcases second with contained' | ⟨-, struct', -⟩
    · rw [← same, ← own] at contained'
      exact Or.inl contained'
    · -- A choice is no struct.
      exact absurd struct' (apart.choices M' hM' b choice N hN).1

include cover

theorem leads_of_transGen (apart : NamesApart symbols messages)
    (h : Relation.TransGen (HoldsInPlace items) a b) : Leads symbols messages a b := by
  have step : ∀ {a b}, HoldsInPlace items a b → Leads symbols messages a b := by
    intro a b hold
    obtain ⟨M, hM, ha, contained | ⟨struct, choice⟩⟩ := contains_or_choice cover apart hold
    · obtain ⟨M', hM', rfl⟩ := contained.2.2
      exact ⟨M, hM, M', hM', ha, Or.inl rfl, Or.inl (.single contained)⟩
    · exact ⟨M, hM, M, hM, ha, Or.inr choice, Or.inr ⟨rfl, struct, choice⟩⟩
  induction h with
  | single hold => exact step hold
  | tail _ hold ih => exact ih.trans apart (step hold)

/-- **Nothing holds itself in place but by messages that contain one another**, where names are
apart. -/
theorem exists_transGen_contains (apart : NamesApart symbols messages)
    (h : Relation.TransGen (HoldsInPlace items) a a) :
    ∃ b, Relation.TransGen (Contains symbols messages) b b := by
  obtain ⟨M, hM, M', hM', ha, ha', contained | ⟨-, struct, choice⟩⟩ :=
    leads_of_transGen cover apart h
  · have same : M.name = M'.name := apart.name_eq hM hM' ha ha'
    exact ⟨M.name, same ▸ contained⟩
  · exact absurd struct (apart.choices M' hM' a choice M hM).1

end Graph

/-! ### What is generated -/

/-- In the code for files nothing holds a value of its own type in place, however far inside. -/
def HasFiniteSizes (symbols : Symbols) (includeServices : Bool) (files : List ParsedFile) : Prop :=
  ∀ a, ¬ Relation.TransGen
    (HoldsInPlace (files.flatMap (itemsOfFile symbols includeServices))) a a

section Generate
variable {m : Marker} {input : GeneratorInput} {own dependencies : List ParsedFile}

/-- What holds values of data in the code for parsed files belongs to their messages. -/
theorem mem_items_iff {files : List TextFile} (hown : parseFiles m files = .ok own)
    (symbols : Symbols) (includeServices : Bool) (x : CodeItem) (data : x.dataName?.isSome) :
    x ∈ own.flatMap (itemsOfFile symbols includeServices) ↔
      ∃ M ∈ messagesOfFiles own, x ∈ M.items symbols := by
  have inMessages : ∀ parsed ∈ own, ∀ n ∈ parsed.2.children, n.NotChoice := by
    induction parseFiles_eq_ok_iff.1 hown with
    | nil => nofun
    | cons hp rest ih =>
      rw [List.forall_mem_cons]
      exact ⟨Schema.parse_notChoice hp.2, ih (parseFiles_eq_ok_iff.2 rest)⟩
  have each : ∀ parsed ∈ own, (x ∈ itemsOfFile symbols includeServices parsed ↔
      ∃ M ∈ messagesIn "" parsed.2.children, x ∈ M.items symbols) := fun parsed hparsed =>
    mem_itemsOfFile symbols data (inMessages parsed hparsed)
  rw [messagesOfFiles, List.mem_flatMap]
  constructor
  · rintro ⟨parsed, hparsed, hx⟩
    obtain ⟨M, hM, hx⟩ := (each parsed hparsed).1 hx
    exact ⟨M, List.mem_flatMap.2 ⟨parsed, hparsed, hM⟩, hx⟩
  · rintro ⟨M, hM, hx⟩
    obtain ⟨parsed, hparsed, hM⟩ := List.mem_flatMap.1 hM
    exact ⟨parsed, hparsed, (each parsed hparsed).2 ⟨M, hM, hx⟩⟩

/-- **Generated values have finite sizes only if no two messages contain one another**, and where
names are apart, just then: a message may contain itself. -/
theorem generate_inPlace (hown : parseFiles m input.files = .ok own)
    (hdependencies : parseFiles m input.dependencyFiles = .ok dependencies) :
    let symbols := symbolsOf (own ++ dependencies)
    let messages := messagesOfFiles own
    ∃ out, generate m input = .ok out ∧
      out.files.map TextFile.content = own.map (fileText symbols input.includeServices) ∧
      (HasFiniteSizes symbols input.includeServices own →
        ∀ a, ¬ Relation.TransGen (Contains symbols messages) a a) ∧
      (NamesApart symbols messages →
        (HasFiniteSizes symbols input.includeServices own ↔
          ∀ a, ¬ Relation.TransGen (Contains symbols messages) a a)) := by
  intro symbols messages
  have cover := mem_items_iff hown symbols input.includeServices
  have only : HasFiniteSizes symbols input.includeServices own →
      ∀ a, ¬ Relation.TransGen (Contains symbols messages) a a :=
    fun finite a contained => finite a (transGen_holdsInPlace cover contained)
  refine ⟨_, generate_eq hown hdependencies, ?_, only, fun apart => ⟨only, fun none a hold => ?_⟩⟩
  · rw [List.map_map]
    rfl
  · obtain ⟨b, contained⟩ := exists_transGen_contains cover apart hold
    exact none b contained

/-- A message that contains itself, and a choice of it that does. -/
def treeText : String :=
  "message Tree { Tree left = 1; oneof value { Tree item = 2; string text = 3; } }\n"

/-- A request to generate code for it. -/
def treeInput : GeneratorInput := { files := [⟨"tree.proto", treeText⟩] }

/-- A message that contains itself has a finite size. -/
theorem hasFiniteSizes_tree : ∃ own out, parseFiles {} treeInput.files = .ok own ∧
    parseFiles {} treeInput.dependencyFiles = .ok [] ∧ generate {} treeInput = .ok out ∧
    out.files.map TextFile.content = own.map (fileText (symbolsOf (own ++ [])) false) ∧
    HasFiniteSizes (symbolsOf (own ++ [])) false own := by
  obtain ⟨own, hown, apart, alone⟩ : ∃ own, parseFiles {} treeInput.files = .ok own ∧
      NamesApart (symbolsOf (own ++ [])) (messagesOfFiles own) ∧
      ∀ M ∈ messagesOfFiles own, ∀ M' ∈ messagesOfFiles own,
        ¬ Contains (symbolsOf (own ++ [])) (messagesOfFiles own) M.name M'.name :=
    exists_parsed_of_decide (by decide +kernel)
  have hnone : parseFiles {} treeInput.dependencyFiles = .ok [] := rfl
  obtain ⟨out, hout, texts, -, finite⟩ := generate_inPlace hown hnone
  refine ⟨own, out, hown, hnone, hout, texts, (finite apart).2 fun a contained => ?_⟩
  obtain ⟨b, step, -⟩ := Relation.TransGen.head'_iff.1 contained
  have messages := step.2
  obtain ⟨⟨M, hM, rfl, -⟩, M', hM', rfl⟩ := messages
  exact alone M hM M' hM' step

/-- Two messages that contain one another. -/
def mutualText : String :=
  "message A { B b = 1; }\nmessage B { A a = 1; }\n"

/-- A request to generate code for them. -/
def mutualInput : GeneratorInput := { files := [⟨"m.proto", mutualText⟩] }

/-- **Some values have no finite size.** -/
theorem exists_endless : ¬ ∀ (m : Marker) (input : GeneratorInput)
    (own dependencies : List ParsedFile), parseFiles m input.files = .ok own →
    parseFiles m input.dependencyFiles = .ok dependencies →
    HasFiniteSizes (symbolsOf (own ++ dependencies)) input.includeServices own := by
  intro claim
  obtain ⟨own, hown, there, back⟩ : ∃ own, parseFiles {} mutualInput.files = .ok own ∧
      let items := own.flatMap (itemsOfFile (symbolsOf (own ++ [])) false)
      HoldsInPlace items "A" "B" ∧ HoldsInPlace items "B" "A" :=
    exists_parsed_of_decide (by decide +kernel)
  exact claim {} mutualInput own [] hown rfl "A" (.tail (.single there) back)

end Generate

end Code

end SchemaDepot
