import SchemaDepot.Proofs.Schema.Comments
import SchemaDepot.Proofs.Schema.Move

/-! # Blanks, comments and namespaces do not change what a schema means

* `Token.Agree`: two tokens are the same but for their places.
* `Schema.meaning`: the declarations of a schema, without places, comments and directives.
* `Schema.parse_agree`: texts whose significant tokens agree are both read, with one meaning, or are
  both refused, for one reason. -/

namespace SchemaDepot

/-! ### Tokens that agree -/

namespace Token

/-- The two tokens are of one kind and have one text; they may stand at different places. -/
def Agree (t u : Token) : Prop := t.kind = u.kind ∧ t.text = u.text

theorem Agree.move_eq {t u : Token} (h : Agree t u) (p : Position) :
    t.move (fun _ => p) = u.move (fun _ => p) := by
  obtain ⟨kind, text, span⟩ := t
  obtain ⟨rfl, rfl⟩ := h
  rfl

/-- Lists of tokens agree if they show the same kinds and texts. -/
theorem forall₂_agree {ts us : List Token}
    (h : ts.map (fun t => (t.kind, t.text)) = us.map fun t => (t.kind, t.text)) :
    List.Forall₂ Agree ts us := by
  rw [← List.forall₂_eq_eq_eq, List.forall₂_map_left_iff, List.forall₂_map_right_iff] at h
  exact h.imp fun t u he => ⟨congrArg Prod.fst he, congrArg Prod.snd he⟩

theorem map_move_eq {ts us : List Token} (h : List.Forall₂ Agree ts us) (p : Position) :
    ts.map (move fun _ => p) = us.map (move fun _ => p) := by
  induction h with
  | nil => rfl
  | cons first _ ih => rw [List.map_cons, List.map_cons, first.move_eq, ih]

end Token

theorem compatible_const (p : Position) : Compatible fun _ => p := by
  intro q r
  unfold Span.between Span.move
  split_ifs <;> rfl

/-! ### What declarations mean -/

namespace Node

mutual

/-- A declaration as such, and those in its block: without places, comments and directives. -/
def bare : Node → Node
  | ⟨content, _, _, _, children⟩ =>
    { content, span := Span.point Position.origin, children := bares children }

/-- Declarations as such, in a row. -/
def bares : List Node → List Node
  | [] => []
  | n :: ns => n.bare :: bares ns

end

/-- Moving declarations does not change what they declare. -/
theorem bares_moves (f : Position → Position) (ns : List Node)
    (h : ∀ n ∈ walks ns, n.content.isDeclaration) : bares (moves f ns) = bares ns := by
  induction ns using rowInduction with
  | nil => rfl
  | cons content span cs ds children ns ihc ihn =>
    simp only [walks_cons, walk_eq, List.cons_append, List.forall_mem_cons,
      List.forall_mem_append] at h
    simp only [moves, move, bares, bare, ihc h.2.1, ihn h.2.2,
      Content.move_of_isDeclaration f h.1]

/-- Nor do comments. -/
theorem bares_placeAll (m : Marker) (pool : List Note) (ns : List Node) :
    bares (Placement.placeAll m pool ns).1 = bares ns := by
  induction ns using rowInduction generalizing pool with
  | nil => rfl
  | cons content span cs ds children ns ihc ihn =>
    rw [Placement.placeAll_cons]
    simp only [bares, bare, ihc, ihn]

end Node

namespace Schema

/-- What a schema means: its declarations as such. The nodes for comments and for the directives in
them are no declarations. -/
def meaning (root : Node) : Node :=
  Node.bare { root with children := root.children.filter (·.content.isDeclaration) }

section Document
variable {ts : List Token} {nodes : List Node} (hrow : Grammar.Row (Token.significant ts) nodes)
include hrow

theorem isDeclaration_placedIn (m : Marker) {n : Node}
    (hn : n ∈ (Placement.placedIn m ts nodes).1) : n.content.isDeclaration = true := by
  refine (Placement.placedIn_start m hrow (List.mem_flatMap.2 ⟨n, hn, ?_⟩)).1
  rw [Node.walk_eq]
  exact List.mem_cons_self

omit hrow in
theorem isDeclaration_detachedNodes {m : Marker} {x : Note} {n : Node}
    (hn : n ∈ Placement.detachedNodes m x) : n.content.isDeclaration = false := by
  rcases List.mem_cons.mp hn with rfl | hn
  · rfl
  · obtain ⟨d, -, rfl⟩ := List.mem_map.mp hn
    rfl

/-- The declarations among the children of a document are those that were read, with their
comments. -/
theorem document_declarations (m : Marker) (final : Position) :
    (document m ts final nodes).children.filter (·.content.isDeclaration) =
      (Placement.placedIn m ts nodes).1 := by
  show ((Placement.placedIn m ts nodes).1 ++ _).filter _ = _
  rw [List.filter_append, List.filter_eq_self.2 fun n hn => isDeclaration_placedIn hrow m hn,
    List.filter_eq_nil_iff.2, List.append_nil]
  intro n hn
  obtain ⟨x, -, hn⟩ := List.mem_flatMap.mp hn
  rw [isDeclaration_detachedNodes hn]
  exact Bool.false_ne_true

theorem meaning_document (m : Marker) (final : Position) : meaning (document m ts final nodes) =
    { content := .root, span := Span.point Position.origin, children := Node.bares nodes } := by
  unfold meaning
  rw [document_declarations hrow]
  unfold Placement.placedIn
  rw [← Node.bares_placeAll m (Note.ofTokens none ts) nodes]
  rfl

end Document

/-- **Only kinds and texts of significant tokens matter.** If those of two texts agree one by one,
then both are read, whatever markers are given, and mean the same, or both are refused by the
grammar, for the same reason. -/
theorem parse_agree (m m' : Marker) {a b : String} {ts us : List Token} {p q : Position}
    (ha : Token.scan a = .ok (ts, p)) (hb : Token.scan b = .ok (us, q))
    (h : List.Forall₂ Token.Agree (Token.significant ts) (Token.significant us)) :
    (∃ root root', parse m a = .ok root ∧ parse m' b = .ok root' ∧ meaning root = meaning root') ∨
    ∃ fault fault', parse m a = .error fault ∧ parse m' b = .error fault' ∧
      fault.cause = fault'.cause ∧ fault.detail = fault'.detail := by
  -- without their places, the tokens are the same
  have carries := Grammar.file_carries (compatible_const Position.origin)
  have same := (carries.eq (Token.significant ts)).symm.trans
    ((congrArg Grammar.file (Token.map_move_eq h _)).trans (carries.eq (Token.significant us)))
  simp only [parse_eq, ha, hb]
  cases hts : Grammar.file (Token.significant ts) with
  | ok read =>
    obtain ⟨nodes, rest⟩ := read
    cases hus : Grammar.file (Token.significant us) with
    | ok read' =>
      obtain ⟨nodes', rest'⟩ := read'
      rw [hts, hus] at same
      have hrow := Grammar.file_row hts
      have hrow' := Grammar.file_row hus
      have moved : Node.moves (fun _ => Position.origin) nodes =
          Node.moves (fun _ => Position.origin) nodes' := congrArg Prod.fst (Except.ok.inj same)
      refine Or.inl ⟨_, _, rfl, rfl, ?_⟩
      rw [meaning_document hrow, meaning_document hrow',
        ← Node.bares_moves _ nodes fun n hn => (hrow.node_start n hn).1, moved,
        Node.bares_moves _ nodes' fun n hn => (hrow'.node_start n hn).1]
    | error stop' => rw [hts, hus] at same; cases same
  | error stop =>
    cases hus : Grammar.file (Token.significant us) with
    | ok read' => rw [hts, hus] at same; cases same
    | error stop' =>
      rw [hts, hus] at same
      have moved : stop.move (fun _ => Position.origin) = stop'.move _ := Except.error.inj same
      have fault : stop.fault = stop'.fault := by simpa using congrArg Stop.fault moved
      exact Or.inr ⟨_, _, rfl, rfl, by rw [fault], by rw [fault]; rfl⟩

/-- A message in one line. -/
def tightText : String := "message A\x7bint32 x=1;\x7d"

/-- The same message with comments, directives and more lines. -/
def looseText : String := "// @a:b:c\nmessage A \x7b // @d:e:f\n  int32 /* x */ x\n    = 1;\n\x7d\n"

theorem parse_agree_looseText : ∃ ts us p q, Token.scan tightText = .ok (ts, p) ∧
    Token.scan looseText = .ok (us, q) ∧
    List.Forall₂ Token.Agree (Token.significant ts) (Token.significant us) ∧
    ((∃ root root', parse {} tightText = .ok root ∧ parse ⟨some "d"⟩ looseText = .ok root' ∧
      meaning root = meaning root') ∨
    ∃ fault fault', parse {} tightText = .error fault ∧ parse ⟨some "d"⟩ looseText = .error fault' ∧
      fault.cause = fault'.cause ∧ fault.detail = fault'.detail) := by
  let shown (text : String) : Option (List (TokenKind × String)) :=
    (Token.scan text).toOption.map fun found =>
      (Token.significant found.1).map fun t => (t.kind, t.text)
  have same : shown tightText = shown looseText := by decide +kernel
  have scans : (shown tightText).isSome := by decide +kernel
  simp only [shown] at same scans
  cases ha : Token.scan tightText with
  | error fault => rw [ha] at scans; cases scans
  | ok found =>
    cases hb : Token.scan looseText with
    | error fault => rw [ha, hb] at same; cases same
    | ok found' =>
      rw [ha, hb] at same
      have agree := Token.forall₂_agree (Option.some.inj same)
      exact ⟨found.1, found'.1, found.2, found'.2, rfl, rfl, agree,
        parse_agree {} ⟨some "d"⟩ ha hb agree⟩

end Schema

end SchemaDepot
