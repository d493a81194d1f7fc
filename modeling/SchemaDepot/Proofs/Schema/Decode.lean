import SchemaDepot.Proofs.Json.Strict
import SchemaDepot.Proofs.Schema.Comments
import SchemaDepot.Schema.Document.Decode
import SchemaDepot.Schema.Document.Encode

/-! # Reading a tree back from its document

Every record of a tree is read back from its object, one lemma for each. So a tree is read back
whose points fit into words and in which only blocks have declarations below them, unless its
document nests too deep.

* `Position.Fits`, `Node.Fits`: what can be written so that it is read back.
* `Node.levels`: how deep a tree is; `Node.depth_toJson_bounds`: its document nests three times as
  deep.
* `Node.ofJson?_toJson`: a tree is read back just if its document does not nest too deep;
  `Node.read?_toJson`: so it is from its text. -/

namespace SchemaDepot

open Json (nat)

/-! ### Points -/

/-- The line and the column of the point fit into 32 bits, and its offset into 64. -/
def Position.Fits (p : Position) : Prop := p.line < 2 ^ 32 ∧ p.column < 2 ^ 32 ∧ p.offset < 2 ^ 64

/-- The points of the stretch fit into words. -/
def Span.Fits (s : Span) : Prop := s.start.Fits ∧ s.stop.Fits

theorem Json.natBelow?_nat {n bound : Nat} (h : n < bound) : (nat n).natBelow? bound = some n := by
  have digits : (Nat.toDigits 10 n).all Char.isDigit = true :=
    List.all_eq_true.2 fun c hc => Nat.isDigit_of_mem_toDigits (by decide) (by decide) hc
  have value : (Nat.toDigits 10 n).foldl (fun n d => n * 10 + (d.toNat - '0'.toNat)) 0 = n := by
    simpa only [Nat.ofDigitChars_eq_foldl, Nat.mul_comm] using
      Nat.ofDigitChars_ten_toDigits (n := n)
  simp only [nat, natBelow?, toList_toString, digits, value, if_true, if_pos h]

theorem Position.ofJson?_toJson {p : Position} (h : p.Fits) : ofJson? p.toJson = some p := by
  have record : p.toJson.record? ["line", "column", "byte_offset"] =
      some [some (nat p.line), some (nat p.column), some (nat p.offset)] := rfl
  obtain ⟨hline, hcolumn, hoffset⟩ := h
  have hoffset : p.offset < 2 ^ 32 * 2 ^ 32 := hoffset
  rw [ofJson?, record]
  simp only [Option.bind_eq_bind, Option.bind_some, Nat.pow_eq, Json.natBelow?_nat hline,
    Json.natBelow?_nat hcolumn, Json.natBelow?_nat hoffset, pure]

theorem Span.ofJson?_toJson {s : Span} (h : s.Fits) : ofJson? s.toJson = some s := by
  have record : s.toJson.record? ["start", "end"] =
      some [some s.start.toJson, some s.stop.toJson] := rfl
  rw [ofJson?, record]
  simp only [Option.bind_eq_bind, Option.bind_some, Position.ofJson?_toJson h.1,
    Position.ofJson?_toJson h.2, pure]

/-! ### Records -/

/-- Items that are all read back form an array that is. -/
theorem Json.arrayOf?_map {α : Type} {read : Json → Option α} {write : α → Json} {xs : List α}
    (h : ∀ x ∈ xs, read (write x) = some x) :
    (Json.array (xs.map write)).arrayOf? read = some xs := mapM_map_eq_some h

theorem CommentKind.ofWord?_word (kind : CommentKind) : ofWord? kind.word = some kind := by
  cases kind <;> rfl

theorem Placement.ofWord?_word (placement : Placement) :
    ofWord? placement.word = some placement := by
  cases placement <;> rfl

theorem Comment.ofJson?_toJson (below : Bool) {c : Comment} (h : c.span.Fits) :
    ofJson? below c.toJson = some c := by
  have record : c.toJson.record? ["kind", "placement", "text", "span"] =
      some [some (.string c.kind.word), some (.string c.placement.word), some (.string c.text),
        some c.span.toJson] := rfl
  rw [ofJson?, record]
  simp only [Option.bind_eq_bind, Option.bind_some, Json.word?, Json.string?,
    CommentKind.ofWord?_word, Placement.ofWord?_word, Span.ofJson?_toJson h, pure]

theorem Directive.ofJson?_toJson {d : Directive} (h : d.span.Fits) :
    ofJson? d.toJson = some d := by
  have record : d.toJson.record? ["option", "value", "span"] =
      some [some (.string d.option), some (.string d.value), some d.span.toJson] := rfl
  rw [ofJson?, record]
  simp only [Option.bind_eq_bind, Option.bind_some, Json.string?, Span.ofJson?_toJson h, pure]

theorem CompactOption.arrayOf?_listToJson (options : List CompactOption) :
    (listToJson options).arrayOf? ofJson? = some options :=
  Json.arrayOf?_map fun _ _ => rfl

theorem FieldLabel.ofJson?_word (record : Json) (label : Option FieldLabel) :
    ofJson? record (some (Json.ofOption (label.map word))) = some label := by
  cases label with
  | none => rfl
  | some label => cases label <;> rfl

/-! ### Contents -/

namespace Content

/-- The member for the block of a content, if that is one. -/
def block (content : Content) (children : Json) : List (String × Json) :=
  if content.isBlock then [("children", children)] else []

theorem split?_members (below : Bool) (content : Content) (children : Json) :
    split? below
        (.object (("node", .string content.jsonTag) :: content.members ++ content.block children)) =
      some (content.jsonTag, .object (content.members ++ content.block children)) := by
  cases content <;> rfl

theorem isLeafTag_jsonTag (content : Content) : isLeafTag content.jsonTag = !content.isBlock := by
  cases content <;> rfl

theorem leafOfJson?_members {content : Content} (hleaf : content.isBlock = false)
    (hc : ∀ c, content = .comment c → c.span.Fits)
    (hd : ∀ d, content = .directive d → d.span.Fits) :
    leafOfJson? content.jsonTag (.object content.members) = some content := by
  cases content with
  | root | message | enumeration | service | rpc | oneof | extension => cases hleaf
  | dialect | package | importFile | setting => rfl
  | field f =>
    show Option.bind (FieldLabel.ofJson? _ _) _ = _
    simp only [FieldLabel.ofJson?_word, Json.string?, CompactOption.arrayOf?_listToJson,
      Option.bind_eq_bind, Option.bind_some, pure]
  | enumValue v =>
    show Option.bind (Json.arrayOf? CompactOption.ofJson? _) _ = _
    rw [CompactOption.arrayOf?_listToJson]
    rfl
  | reserved keyword items =>
    have strings : (Json.strings items).arrayOf? Json.string? = some items :=
      Json.arrayOf?_map fun _ _ => rfl
    show Option.bind (Json.arrayOf? Json.string? _) _ = _
    rw [strings]
    rfl
  | comment c =>
    show Option.bind (Comment.ofJson? true c.toJson) _ = _
    rw [Comment.ofJson?_toJson true (hc c rfl)]
    rfl
  | directive d =>
    show Option.bind (Directive.ofJson? d.toJson) _ = _
    rw [Directive.ofJson?_toJson (hd d rfl)]
    rfl

theorem blockOfJson?_members {content : Content} (hblock : content.isBlock = true)
    (children : Json) :
    blockOfJson? content.jsonTag (.object (content.members ++ [("children", children)])) =
      some (content, children) := by
  cases content with
  | dialect | package | importFile | setting | field | enumValue | reserved | comment
  | directive => cases hblock
  | root | message | enumeration | service | rpc | oneof | extension => rfl

end Content

/-! ### Nodes -/

namespace Node

/-- The points of the node, and of what is attached to it, fit into words, and it has declarations
below it only if it is a block. -/
structure Fits (n : Node) : Prop where
  span : n.span.Fits
  comments : ∀ c ∈ n.ownComments, c.span.Fits
  directives : ∀ d ∈ n.ownDirectives, d.span.Fits
  leaf : n.content.isBlock = false → n.children = []

/-- The document under `kind` in that of a node. -/
def kindJson (n : Node) : Json :=
  .object (("node", .string n.content.jsonTag) :: n.content.members ++
    n.content.block (.array (listToJson n.children)))

theorem toJson_eq (n : Node) : n.toJson =
    .object ([("kind", n.kindJson), ("span", n.span.toJson)] ++
      attachments n.comments n.directives) := by
  cases n
  rw [toJson]
  rfl

theorem listToJson_eq_map (ns : List Node) : listToJson ns = ns.map toJson := by
  induction ns with
  | nil => rw [listToJson, List.map_nil]
  | cons n ns ih => rw [listToJson, ih, List.map_cons]

/-- An array for the items, unless there are none. -/
def optionalJson (items : List Json) : Option Json :=
  if items.isEmpty then none else some (.array items)

theorem optionalArray?_map {α : Type} {read : Json → Option α} {write : α → Json} {xs : List α}
    (h : ∀ x ∈ xs, read (write x) = some x) :
    optionalArray? read (optionalJson (xs.map write)) = some xs := by
  cases xs with
  | nil => rfl
  | cons x xs => exact Json.arrayOf?_map h

theorem record?_toJson (n : Node) : n.toJson.record? ["kind", "span", "comments", "directives"] =
    some [some n.kindJson, some n.span.toJson, optionalJson (n.comments.map Comment.toJson),
      optionalJson (n.directives.map Directive.toJson)] := by
  rw [toJson_eq]
  cases hc : n.comments <;> cases hd : n.directives <;> rfl

variable {n : Node}

theorem Fits.attached (h : n.Fits) : (∀ c ∈ n.comments, c.span.Fits) ∧
    (∀ d ∈ n.directives, d.span.Fits) :=
  ⟨fun c hc => h.comments c (List.mem_append_left _ hc),
    fun d hd => h.directives d (List.mem_append_left _ hd)⟩

theorem Fits.ofComment (h : n.Fits) (c : Comment) (hc : n.content = .comment c) : c.span.Fits :=
  h.comments c (List.mem_append_right _ (by simp [hc]))

theorem Fits.ofDirective (h : n.Fits) (d : Directive) (hd : n.content = .directive d) :
    d.span.Fits :=
  h.directives d (List.mem_append_right _ (by simp [hd]))

theorem split?_kindJson (below : Bool) (n : Node) : Content.split? below n.kindJson =
    some (n.content.jsonTag, .object (n.content.members ++
      n.content.block (.array (listToJson n.children)))) :=
  Content.split?_members below n.content _

/-- **A node is read back** if the trees in its block are, and its document suits a root or need
not. -/
theorem ofJsonWithin?_toJson (h : n.Fits) {room : Nat} (below : Bool)
    (hchildren : ∀ c ∈ n.children, ofJsonWithin? room true c.toJson = some c) :
    ofJsonWithin? (room + 1) below n.toJson =
      if below || (n.kindJson.isStrict && decide (n.kindJson.depth < Json.maxDepth)) then some n
      else none := by
  have comments : optionalArray? (Comment.ofJson? below)
      (optionalJson (n.comments.map Comment.toJson)) = some n.comments :=
    optionalArray?_map fun c hc => Comment.ofJson?_toJson below (h.attached.1 c hc)
  have directives : optionalArray? Directive.ofJson?
      (optionalJson (n.directives.map Directive.toJson)) = some n.directives :=
    optionalArray?_map fun d hd => Directive.ofJson?_toJson (h.attached.2 d hd)
  rw [ofJsonWithin?, record?_toJson]
  simp only [Option.bind_eq_bind, Option.bind_some, Span.ofJson?_toJson h.span, comments,
    directives, split?_kindJson, Content.isLeafTag_jsonTag, ← Bool.not_or]
  cases below || (n.kindJson.isStrict && decide (n.kindJson.depth < Json.maxDepth)) with
  | false => rfl
  | true =>
    cases hb : n.content.isBlock with
    | false =>
      have leaf := Content.leafOfJson?_members hb h.ofComment h.ofDirective
      simp only [Content.block, hb, List.append_nil, leaf, Bool.not_true, Bool.not_false,
        Bool.false_eq_true, if_false, if_true, Option.bind_some, pure]
      rw [← h.leaf hb]
      cases n
      rfl
    | true =>
      have children : (Json.array (listToJson n.children)).arrayOf? (ofJsonWithin? room true) =
          some n.children := by
        rw [listToJson_eq_map]
        exact Json.arrayOf?_map hchildren
      simp only [Content.block, hb, Content.blockOfJson?_members hb, Bool.not_true,
        Bool.false_eq_true, if_false, if_true, Option.bind_some, children, pure]
      cases n
      rfl

/-! ### How deep a tree nests -/

mutual

/-- The levels of a tree: one more than those of the trees below its root. -/
def levels : Node → Nat
  | ⟨_, _, _, _, children⟩ => 1 + rowLevels children

/-- The greatest number of levels of some trees. -/
def rowLevels : List Node → Nat
  | [] => 0
  | n :: ns => max n.levels (rowLevels ns)

end

theorem levels_eq (n : Node) : n.levels = 1 + rowLevels n.children := by
  cases n
  rw [levels]

theorem levels_le_rowLevels {c : Node} {ns : List Node} (h : c ∈ ns) : c.levels ≤ rowLevels ns := by
  induction ns with
  | nil => cases h
  | cons n ns ih =>
    rw [rowLevels]
    rcases List.mem_cons.1 h with rfl | h
    · exact Nat.le_max_left _ _
    · exact Nat.le_trans (ih h) (Nat.le_max_right _ _)

end Node

namespace Json

theorem membersDepth_append (ms ms' : List (String × Json)) :
    membersDepth (ms ++ ms') = max (membersDepth ms) (membersDepth ms') := by
  induction ms with
  | nil => simp [membersDepth]
  | cons m ms ih => rw [List.cons_append, membersDepth, membersDepth, ih, Nat.max_assoc]

theorem itemsDepth_map_le {α : Type} {write : α → Json} {bound : Nat} {xs : List α}
    (h : ∀ x ∈ xs, (write x).depth ≤ bound) : itemsDepth (xs.map write) ≤ bound := by
  induction xs with
  | nil => exact Nat.zero_le _
  | cons x xs ih =>
    rw [List.map_cons, itemsDepth]
    exact Nat.max_le.2 ⟨h x List.mem_cons_self, ih fun y hy => h y (List.mem_cons_of_mem x hy)⟩

end Json

theorem CompactOption.depth_listToJson_le (options : List CompactOption) :
    (listToJson options).depth ≤ 2 := by
  rw [listToJson, Json.depth, Nat.add_comm]
  exact Nat.succ_le_succ (Json.itemsDepth_map_le fun _ _ => Nat.le_refl 1)

theorem Content.membersDepth_le (content : Content) : Json.membersDepth content.members ≤ 2 := by
  cases content with
  | field f =>
    have label : (Json.ofOption (f.label.map FieldLabel.word)).depth = 0 := by
      cases f.label <;> rfl
    have := CompactOption.depth_listToJson_le f.options
    simp only [members, Json.membersDepth, Json.depth, label]
    omega
  | enumValue v =>
    have := CompactOption.depth_listToJson_le v.options
    simp only [members, Json.membersDepth, Json.depth]
    omega
  | reserved keyword items =>
    have : Json.itemsDepth (items.map Json.string) ≤ 0 :=
      Json.itemsDepth_map_le fun _ _ => Nat.le_refl 0
    simp only [members, Json.membersDepth, Json.strings, Json.depth]
    omega
  | _ => exact Nat.le_of_ble_eq_true rfl

namespace Node

/-- What is attached to a node nests four levels deep at most. -/
theorem attachmentsDepth_le (comments : List Comment) (directives : List Directive) :
    Json.membersDepth (attachments comments directives) ≤ 4 := by
  have array {α : Type} (write : α → Json) (xs : List α) (key : String)
      (h : ∀ x ∈ xs, (write x).depth ≤ 3) : Json.membersDepth
        (if xs.isEmpty then [] else [(key, .array (xs.map write))]) ≤ 4 := by
    split_ifs
    · exact Nat.zero_le _
    · have := Json.itemsDepth_map_le h
      simp only [Json.membersDepth, Json.depth]
      omega
  rw [attachments, Json.membersDepth_append]
  exact Nat.max_le.2 ⟨array _ _ _ fun _ _ => Nat.le_refl 3, array _ _ _ fun _ _ => Nat.le_refl 3⟩

theorem kindJson_depth (n : Node) : n.kindJson.depth =
    1 + max (Json.membersDepth n.content.members)
      (if n.content.isBlock then 1 + Json.itemsDepth (listToJson n.children) else 0) := by
  have block : Json.membersDepth (n.content.block (.array (listToJson n.children))) =
      if n.content.isBlock then 1 + Json.itemsDepth (listToJson n.children) else 0 := by
    rw [Content.block]
    split_ifs <;> simp [Json.membersDepth, Json.depth]
  rw [kindJson, Json.depth, List.cons_append, Json.membersDepth, Json.membersDepth_append, block]
  exact congrArg (1 + ·) (Nat.zero_max _)

theorem depth_toJson (n : Node) : n.toJson.depth =
    1 + max n.kindJson.depth
      (max 2 (Json.membersDepth (attachments n.comments n.directives))) := by
  rw [toJson_eq, Json.depth]
  rfl

section Depth
variable {n : Node} (hleaf : n.content.isBlock = false → n.children = [])
include hleaf

/-- One level of a tree is three of its document: the node, its kind and the array of its block. -/
theorem depth_of_children
    (hrow : 3 * rowLevels n.children ≤ Json.itemsDepth (listToJson n.children) ∧
      Json.itemsDepth (listToJson n.children) ≤ 3 * rowLevels n.children + 2) :
    3 * n.levels ≤ n.toJson.depth ∧ n.toJson.depth ≤ 3 * n.levels + 2 := by
  have members := n.content.membersDepth_le
  have attached := attachmentsDepth_le n.comments n.directives
  have kind := n.kindJson_depth
  have node := n.depth_toJson
  have levels := n.levels_eq
  cases hb : n.content.isBlock with
  | false =>
    have none : rowLevels n.children = 0 := by rw [hleaf hb, rowLevels]
    rw [hb, if_neg Bool.false_ne_true] at kind
    omega
  | true =>
    rw [hb, if_pos rfl] at kind
    omega

end Depth

theorem itemsDepth_bounds {ns : List Node}
    (h : ∀ n ∈ walks ns, n.content.isBlock = false → n.children = []) :
    3 * rowLevels ns ≤ Json.itemsDepth (listToJson ns) ∧
      Json.itemsDepth (listToJson ns) ≤ 3 * rowLevels ns + 2 := by
  induction ns using rowInduction with
  | nil => exact ⟨Nat.le_refl _, Nat.zero_le _⟩
  | cons content span comments directives children ns ihc ihn =>
    simp only [walks_cons, walk_eq, List.cons_append, List.forall_mem_cons,
      List.forall_mem_append] at h
    obtain ⟨hleaf, hchildren, hothers⟩ := h
    have first := depth_of_children (n := ⟨content, span, comments, directives, children⟩) hleaf
      (ihc hchildren)
    have others := ihn hothers
    rw [rowLevels, listToJson, Json.itemsDepth]
    omega

section Tree
variable {n : Node}

/-- **A document nests three times as deep as its tree**, and at most two levels more. -/
theorem depth_toJson_bounds (h : ∀ x ∈ n.walk, x.content.isBlock = false → x.children = []) :
    3 * n.levels ≤ n.toJson.depth ∧ n.toJson.depth ≤ 3 * n.levels + 2 := by
  rw [walk_eq, List.forall_mem_cons] at h
  exact depth_of_children h.1 (itemsDepth_bounds h.2)

variable (h : ∀ x ∈ n.walk, x.Fits)
include h

/-- **A tree below the root is read back**, if there is room for its levels. -/
theorem ofJsonWithin?_below {room : Nat} (hroom : n.levels ≤ room) :
    ofJsonWithin? room true n.toJson = some n := by
  induction room generalizing n with
  | zero =>
    have := n.levels_eq
    omega
  | succ room ih =>
    rw [walk_eq, List.forall_mem_cons] at h
    rw [ofJsonWithin?_toJson h.1 true, Bool.true_or, if_pos rfl]
    intro c hc
    have := n.levels_eq
    have := levels_le_rowLevels hc
    exact ih (fun x hx => h.2 x (List.mem_flatMap.2 ⟨c, hc, hx⟩)) (by omega)

end Tree

end Node

/-! ### The documents of trees are plain -/

open Json (IsPlain arePlain_iff membersArePlain_iff)

theorem Position.isPlain_toJson {p : Position} (h : p.Fits) : p.toJson.IsPlain := by
  obtain ⟨hline, hcolumn, hoffset⟩ := h
  exact ⟨⟨_, by omega, rfl⟩, ⟨_, by omega, rfl⟩, ⟨_, hoffset, rfl⟩, trivial⟩

theorem Span.isPlain_toJson {s : Span} (h : s.Fits) : s.toJson.IsPlain :=
  ⟨Position.isPlain_toJson h.1, Position.isPlain_toJson h.2, trivial⟩

theorem Comment.isPlain_toJson {c : Comment} (h : c.span.Fits) : c.toJson.IsPlain :=
  ⟨trivial, trivial, trivial, Span.isPlain_toJson h, trivial⟩

theorem Directive.isPlain_toJson {d : Directive} (h : d.span.Fits) : d.toJson.IsPlain :=
  ⟨trivial, trivial, Span.isPlain_toJson h, trivial⟩

theorem CompactOption.isPlain_listToJson (options : List CompactOption) :
    (listToJson options).IsPlain := by
  refine arePlain_iff.2 fun j hj => ?_
  obtain ⟨o, -, rfl⟩ := List.mem_map.1 hj
  exact ⟨trivial, trivial, trivial⟩

theorem Content.isPlain_members {content : Content} (hc : ∀ c, content = .comment c → c.span.Fits)
    (hd : ∀ d, content = .directive d → d.span.Fits) :
    Json.MembersArePlain content.members := by
  cases content with
  | field f =>
    have label : (Json.ofOption (f.label.map FieldLabel.word)).IsPlain := by
      cases f.label <;> trivial
    exact ⟨label, trivial, trivial, trivial, CompactOption.isPlain_listToJson _, trivial⟩
  | enumValue v => exact ⟨trivial, trivial, CompactOption.isPlain_listToJson _, trivial⟩
  | reserved keyword items =>
    refine ⟨trivial, arePlain_iff.2 fun j hj => ?_, trivial⟩
    obtain ⟨s, -, rfl⟩ := List.mem_map.1 hj
    trivial
  | comment c => exact Comment.isPlain_toJson (hc c rfl)
  | directive d => exact Directive.isPlain_toJson (hd d rfl)
  | root => trivial
  | package | message | enumeration | service | oneof | extension => exact ⟨trivial, trivial⟩
  | dialect | setting => exact ⟨trivial, trivial, trivial⟩
  | importFile => exact ⟨trivial, trivial, trivial, trivial⟩
  | rpc => exact ⟨trivial, trivial, trivial, trivial, trivial, trivial⟩

namespace Node

theorem isPlain_attachments {comments : List Comment} {directives : List Directive}
    (hc : ∀ c ∈ comments, c.span.Fits) (hd : ∀ d ∈ directives, d.span.Fits) :
    Json.MembersArePlain (attachments comments directives) := by
  have array {α : Type} {write : α → Json} {xs : List α} (key : String)
      (h : ∀ x ∈ xs, (write x).IsPlain) : ∀ m ∈ (if xs.isEmpty then [] else
        [(key, Json.array (xs.map write))] : List (String × Json)), m.2.IsPlain := by
    split_ifs
    · exact fun _ hm => by cases hm
    · refine List.forall_mem_singleton.2 (arePlain_iff.2 fun j hj => ?_)
      obtain ⟨x, hx, rfl⟩ := List.mem_map.1 hj
      exact h x hx
  rw [attachments, membersArePlain_iff, List.forall_mem_append]
  exact ⟨array _ fun c h => Comment.isPlain_toJson (hc c h),
    array _ fun d h => Directive.isPlain_toJson (hd d h)⟩

/-- The document of a node is plain, if those of the trees below it are. -/
theorem isPlain_of_children {n : Node} (h : n.Fits)
    (hchildren : Json.ArePlain (listToJson n.children)) :
    n.kindJson.IsPlain ∧ n.toJson.IsPlain := by
  have content := membersArePlain_iff.1 (Content.isPlain_members h.ofComment h.ofDirective)
  have block : ∀ m ∈ n.content.block (.array (listToJson n.children)), m.2.IsPlain := by
    rw [Content.block]
    split_ifs
    · exact List.forall_mem_singleton.2 hchildren
    · exact fun _ hm => by cases hm
  have kind : n.kindJson.IsPlain :=
    ⟨trivial, membersArePlain_iff.2 (List.forall_mem_append.2 ⟨content, block⟩)⟩
  rw [toJson_eq]
  exact ⟨kind, kind, Span.isPlain_toJson h.span, isPlain_attachments h.attached.1 h.attached.2⟩

theorem arePlain_listToJson {ns : List Node} (h : ∀ n ∈ walks ns, n.Fits) :
    Json.ArePlain (listToJson ns) := by
  induction ns using rowInduction with
  | nil => trivial
  | cons content span comments directives children ns ihc ihn =>
    simp only [walks_cons, walk_eq, List.cons_append, List.forall_mem_cons,
      List.forall_mem_append] at h
    obtain ⟨hn, hchildren, hothers⟩ := h
    exact ⟨(isPlain_of_children hn (ihc hchildren)).2, ihn hothers⟩

section Tree
variable {n : Node} (h : ∀ x ∈ n.walk, x.Fits)
include h

theorem isPlain_toJson : n.toJson.IsPlain := by
  rw [walk_eq, List.forall_mem_cons] at h
  exact (isPlain_of_children h.1 (arePlain_listToJson h.2)).2

/-- **A tree is read back from its document** just if that does not nest too deep. -/
theorem ofJson?_toJson :
    ofJson? n.toJson = if n.toJson.depth ≤ Json.maxDepth then some n else none := by
  have levels := depth_toJson_bounds fun x hx => (h x hx).leaf
  rw [walk_eq, List.forall_mem_cons] at h
  have below : ∀ c ∈ n.children, ofJsonWithin? n.toJson.depth true c.toJson = some c := by
    intro c hc
    have := n.levels_eq
    have := levels_le_rowLevels hc
    exact ofJsonWithin?_below (fun x hx => h.2 x (List.mem_flatMap.2 ⟨c, hc, hx⟩)) (by omega)
  have strict := (isPlain_of_children h.1 (arePlain_listToJson h.2)).1.isStrict
  have shallow : n.kindJson.depth < Json.maxDepth ↔ n.toJson.depth ≤ Json.maxDepth := by
    have := attachmentsDepth_le n.comments n.directives
    have := n.depth_toJson
    have : Json.maxDepth = 127 := rfl
    omega
  rw [ofJson?, ofJsonWithin?_toJson h.1 false below, Bool.false_or, strict, Bool.true_and]
  simp only [decide_eq_true_eq, shallow]

/-- **A tree is read back from its text**, on one line or indented, just if its document does not
nest too deep. -/
theorem read?_toJson {text : String} (htext : text = n.toJson.compact ∨ text = n.toJson.pretty) :
    Json.read text = some n.toJson ∧
      read? text = if n.toJson.depth ≤ Json.maxDepth then some n else none := by
  have plain := isPlain_toJson h
  have found : Json.read text = some n.toJson := by
    rcases htext with rfl | rfl
    · exact Json.read_compact plain
    · exact Json.read_pretty plain
  refine ⟨found, ?_⟩
  rw [read?, found]
  exact ofJson?_toJson h

end Tree

end Node

end SchemaDepot
