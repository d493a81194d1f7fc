import SchemaDepot.Proofs.Schema.Acceptance
import SchemaDepot.Proofs.Schema.Meaning
import SchemaDepot.Proofs.Schema.Shift
import SchemaDepot.Proofs.Token.Cut

/-! # One schema behind another

Two texts that can be parsed, with a newline between them, can be parsed as one.

* `Grammar.file_append`: the declarations of both are read, those of the first text first.
* `Placement.placeAll_append`, `placeAll_beyond`, `placeAll_lead`: comments are placed on the first
  declarations, then on the others; what is left over of the first text leads the second one.
* `Schema.joined`: the tree of two schemas, of which the second one stands behind the first.
* `Schema.parse_append`: it is the tree of both texts. -/

namespace SchemaDepot

/-! ### Declarations -/

namespace Token

theorem significant_append_move (f : Position → Position) (ts us : List Token) :
    significant (ts ++ us.map (move f)) = significant ts ++ (significant us).map (move f) := by
  unfold significant
  rw [List.filter_append, List.filter_map]
  rfl

end Token

namespace Grammar

/-- **The declarations of a file and of another one behind it.** -/
theorem file_append {ts us rest rest' : List Token} {ns ms : List Node}
    (h : file ts = .ok (ns, rest)) (h' : file us = .ok (ms, rest')) :
    file (ts ++ us) = .ok (ns ++ ms, []) := by
  obtain rfl := file_to_end h
  obtain rfl := file_to_end h'
  exact Reader.many_append declarationOfFile_recognizes (declaration_apart _) h h'

end Grammar

/-! ### Comments -/

/-- The note stands behind a stretch, on a later line than its end. -/
structure Note.Beyond (x : Note) (s : Span) : Prop where
  start : s.start.offset ≤ x.comment.span.start.offset
  stop : s.stop.offset ≤ x.comment.span.start.offset
  line : s.stop.line < x.comment.span.start.line

namespace Note.Beyond

variable {x : Note} {s : Span} (h : x.Beyond s)
include h

theorem startsBefore_start : x.startsBefore s.start = false :=
  decide_eq_false (Nat.not_lt.2 h.start)

theorem startsBefore_stop : x.startsBefore s.stop = false :=
  decide_eq_false (Nat.not_lt.2 h.stop)

theorem trails_stop : x.trails s.stop = false := by
  unfold trails
  rw [Bool.and_eq_false_iff]
  exact Or.inr (beq_false_of_ne h.line.ne')

end Note.Beyond

/-- The declaration with more comments and directives in front of its own. -/
def Node.ledBy (comments : List Comment) (directives : List Directive) (n : Node) : Node :=
  { n with comments := comments ++ n.comments, directives := directives ++ n.directives }

namespace Placement

variable (m : Marker)

theorem placeAll_append (pool : List Note) (ns ms : List Node) :
    placeAll m pool (ns ++ ms) =
      ((placeAll m pool ns).1 ++ (placeAll m (placeAll m pool ns).2 ms).1,
        (placeAll m (placeAll m pool ns).2 ms).2) := by
  induction ns generalizing pool with
  | nil => rfl
  | cons n ns ih =>
    rw [List.cons_append, placeAll, placeAll, ih]
    rfl

/-- **Notes beyond all declarations are left over**, and change nothing of what is placed. -/
theorem placeAll_beyond (pool : List Note) {later : List Note} {ns : List Node}
    (h : ∀ n ∈ Node.walks ns, ∀ x ∈ later, x.Beyond n.span) :
    placeAll m (pool ++ later) ns = ((placeAll m pool ns).1, (placeAll m pool ns).2 ++ later) := by
  induction ns using Node.rowInduction generalizing pool with
  | nil => rfl
  | cons content span cs ds children ns ihc ihn =>
    simp only [Node.walks_cons, Node.walk_eq, List.cons_append, List.forall_mem_cons,
      List.forall_mem_append] at h
    obtain ⟨hspan, hchildren, hothers⟩ := h
    have start : ∀ x ∈ later.head?, x.startsBefore span.start = false :=
      fun x hx => (hspan x (List.mem_of_mem_head? hx)).startsBefore_start
    have stop : ∀ x ∈ later.head?, x.startsBefore span.stop = false :=
      fun x hx => (hspan x (List.mem_of_mem_head? hx)).startsBefore_stop
    have trail : ∀ x ∈ later.head?, x.trails span.stop = false :=
      fun x hx => (hspan x (List.mem_of_mem_head? hx)).trails_stop
    have comments (left : List Note) :
        commentsAt span (pool ++ later) (left ++ later) = commentsAt span pool left := by
      simp only [commentsAt, leadingAt, trailingAt, takeWhile_append_of_head start,
        dropWhile_append_of_head stop, takeWhile_append_of_head trail]
    have left (others : List Note) :
        notTrailingAt span.stop (others ++ later) = notTrailingAt span.stop others ++ later := by
      simp only [notTrailingAt, takeWhile_append_of_head stop, dropWhile_append_of_head stop,
        dropWhile_append_of_head trail, List.append_assoc]
    rw [placeAll_cons, placeAll_cons]
    simp only [dropWhile_append_of_head start, ihc _ hchildren, comments, left, ihn _ hothers]

/-- **Notes in front of a declaration lead it**, and change nothing else of what is placed. -/
theorem placeAll_lead {lead pool left : List Note} {n first : Node} {ns others : List Node}
    (h : ∀ x ∈ lead, x.startsBefore n.span.start)
    (hplaced : placeAll m pool (n :: ns) = (first :: others, left)) :
    placeAll m (lead ++ pool) (n :: ns) =
      (first.ledBy (lead.map (put .leading)) (lead.flatMap fun x => m.extract (put .leading x)) ::
        others, left) := by
  obtain ⟨content, span, cs, ds, children⟩ := n
  have leading : leadingAt span.start (lead ++ pool) = lead ++ leadingAt span.start pool :=
    List.takeWhile_append_of_pos h
  have behind : (lead ++ pool).dropWhile (·.startsBefore span.start) =
      pool.dropWhile (·.startsBefore span.start) := List.dropWhile_append_of_pos h
  rw [placeAll_cons] at hplaced ⊢
  cases hplaced
  simp only [commentsAt, leading, behind, List.map_append, List.append_assoc,
    List.flatMap_append, List.flatMap_map]
  rfl

theorem detachedNodes_resume {lines bytes : Nat} (last : Option Position) (x : Note) :
    detachedNodes m (x.resume (Position.shift lines bytes) last) =
      Node.moves (Position.shift lines bytes) (detachedNodes m x) := by
  have moved : put .detached (x.resume (Position.shift lines bytes) last) =
      (put .detached x).move (Position.shift lines bytes) := rfl
  simp only [detachedNodes, moved, Marker.extract_shift, Node.moves_eq_map, List.map_cons,
    List.map_map]
  rfl

end Placement

/-! ### Schemas -/

/-- The comment that a node is, if it is one. -/
def Content.comment? : Content → Option Comment
  | comment c => some c
  | _ => none

theorem Content.comment?_of_isDeclaration (content : Content) (h : content.isDeclaration = true) :
    content.comment? = none := by
  cases content <;> first | rfl | cases h

theorem Content.directive?_of_isDeclaration (content : Content) (h : content.isDeclaration = true) :
    content.directive? = none := by
  cases content <;> first | rfl | cases h

namespace Schema

/-- The declarations of a schema. -/
def declared (root : Node) : List Node := root.children.filter (·.content.isDeclaration)

/-- What else there is in a schema: detached comments, and directives in them. -/
def undeclared (root : Node) : List Node := root.children.filter (!·.content.isDeclaration)

/-- The detached comments of a schema. -/
def detached (root : Node) : List Comment := root.children.filterMap (·.content.comment?)

/-- The directives in the detached comments of a schema. -/
def detachedDirectives (root : Node) : List Directive :=
  root.children.filterMap (·.content.directive?)

/-- The tree of two schemas, of which `b` stands behind `a`. What is detached in `a` leads the first
declaration of `b`, or stays detached if there is none. -/
def joined (a b : Node) : Node :=
  { content := .root
    span := ⟨a.span.start, b.span.stop⟩
    children := match declared b with
      | [] => a.children ++ b.children
      | first :: others => declared a ++
          first.ledBy ((detached a).map (·.placed .leading)) (detachedDirectives a) :: others ++
          undeclared b }

section Document
open Placement

variable (m : Marker) {ts : List Token} {nodes : List Node} (final : Position)
  (hrow : Grammar.Row (Token.significant ts) nodes)

include hrow

theorem declared_document :
    declared (document m ts final nodes) = (placedIn m ts nodes).1 :=
  document_declarations hrow m final

theorem undeclared_document : undeclared (document m ts final nodes) =
    (placedIn m ts nodes).2.flatMap (detachedNodes m) := by
  show ((placedIn m ts nodes).1 ++ (placedIn m ts nodes).2.flatMap _).filter _ = _
  rw [List.filter_append, List.filter_eq_nil_iff.2, List.nil_append, List.filter_eq_self.2]
  · intro n hn
    obtain ⟨x, -, hn⟩ := List.mem_flatMap.mp hn
    rw [isDeclaration_detachedNodes hn]
    rfl
  · intro n hn
    rw [isDeclaration_placedIn hrow m hn]
    exact Bool.false_ne_true

/-- What is picked among the contents of a document, if it is nothing of a declaration. -/
theorem filterMap_document {α : Type} {pick : Content → Option α}
    (h : ∀ content, content.isDeclaration = true → pick content = none) :
    (document m ts final nodes).children.filterMap (pick ·.content) =
      (placedIn m ts nodes).2.flatMap fun x =>
        (detachedNodes m x).filterMap (pick ·.content) := by
  show ((placedIn m ts nodes).1 ++ _).filterMap _ = _
  rw [List.filterMap_append, List.filterMap_eq_nil_iff.2, List.nil_append, List.filterMap_flatMap]
  · rfl
  · exact fun n hn => h _ (isDeclaration_placedIn hrow m hn)

theorem detached_document :
    detached (document m ts final nodes) = (placedIn m ts nodes).2.map (put .detached) := by
  have picked (x : Note) :
      (detachedNodes m x).filterMap (·.content.comment?) = [put .detached x] := by
    simp [detachedNodes, Content.comment?]
  rw [detached, filterMap_document m final hrow Content.comment?_of_isDeclaration,
    List.map_eq_flatMap]
  simp only [picked]

theorem detachedDirectives_document : detachedDirectives (document m ts final nodes) =
    (placedIn m ts nodes).2.flatMap fun x => m.extract (put .leading x) := by
  have picked (x : Note) :
      (detachedNodes m x).filterMap (·.content.directive?) = m.extract (put .detached x) := by
    simp [detachedNodes, Content.directive?]
  rw [detachedDirectives, filterMap_document m final hrow Content.directive?_of_isDeclaration]
  simp only [picked]
  rfl

end Document

theorem filter_moves (f : Position → Position) {pick : Node → Bool}
    (h : ∀ n, pick (n.move f) = pick n) (ns : List Node) :
    (Node.moves f ns).filter pick = Node.moves f (ns.filter pick) := by
  rw [Node.moves_eq_map, Node.moves_eq_map, List.filter_map]
  exact congrArg (fun pick' => (ns.filter pick').map (Node.move f)) (funext h)

theorem isDeclaration_move (f : Position → Position) (n : Node) :
    (n.move f).content.isDeclaration = n.content.isDeclaration := by
  rw [Node.move_content, Content.isDeclaration_move]

theorem declared_move (f : Position → Position) (root : Node) :
    declared (root.move f) = Node.moves f (declared root) := by
  rw [declared, Node.move_children]
  exact filter_moves f (isDeclaration_move f) root.children

theorem undeclared_move (f : Position → Position) (root : Node) :
    undeclared (root.move f) = Node.moves f (undeclared root) := by
  rw [undeclared, Node.move_children]
  exact filter_moves f (fun n => congrArg not (isDeclaration_move f n)) root.children

section Texts
open Placement Token

variable (m : Marker) {a b : String} {ts us : List Token} {final last : Position}
  {ns ms : List Node}

section Points
variable (ha : scan a = .ok (ts, final))
include ha

/-- The points of declarations are points of the text. -/
theorem row_within (hrow : Grammar.Row (significant ts) ns) :
    ∀ n ∈ Node.walks ns, n.span.start.Within a ∧ n.span.stop.Within a :=
  hrow.forall_points fun t ht => scan_within ha t (List.mem_of_mem_filter ht)

theorem note_within {x : Note} (hx : x ∈ Note.ofTokens none ts) :
    x.comment.span.start.Within a := by
  obtain ⟨t, ht, hc⟩ := Note.mem_ofTokens hx
  rw [(comment?_eq_some hc).2.1]
  exact (scan_within ha t ht).1

variable (hb : scan b = .ok (us, last))
include hb

/-- The notes of the second text stand beyond the declarations of the first. -/
theorem beyond_of_behind (hns : Grammar.Row (significant ts) ns) {n : Node}
    (hn : n ∈ Node.walks ns) {last' : Option Position} {x : Note}
    (hx : x ∈ (Note.ofTokens none us).map (Note.resume (Position.behind a) last')) :
    x.Beyond n.span := by
  obtain ⟨y, hy, rfl⟩ := List.mem_map.1 hx
  obtain ⟨start, stop⟩ := row_within ha hns n hn
  have within := note_within hb hy
  exact ⟨(start.lt_behind within).2.le, (stop.lt_behind within).2.le, (stop.lt_behind within).1⟩

/-- What is left over of the first text stands before the declarations of the second. -/
theorem startsBefore_of_left (hms : Grammar.Row (significant us) ms) {x : Note}
    (hx : x ∈ (placedIn m ts ns).2) {n : Node} (hn : n ∈ Node.walks ms) :
    x.startsBefore (n.span.start.behind a) := by
  have within := note_within ha ((placeAll_sublist m _ ns).subset hx)
  exact decide_eq_true (within.lt_behind (row_within hb hms n hn).1).2

/-- No declaration of the second text ends where a token of the first does. -/
theorem stop_ne_behind (hms : Grammar.Row (significant us) ms) {t : Token} (ht : t ∈ ts) {n : Node}
    (hn : n ∈ Node.walks ms) : t.span.stop ≠ n.span.stop.behind a := by
  intro he
  have above := (scan_within ha t ht).2.lt_behind (row_within hb hms n hn).2
  rw [he] at above
  exact Nat.lt_irrefl _ above.1

omit ha in
theorem span_append (a : String) (final : Position) : Span.between Position.origin (last.behind a) =
    ⟨(Span.between Position.origin final).start,
      ((Span.between Position.origin last).move (Position.behind a)).stop⟩ := by
  have within : last.Within b := ⟨⟨_, scan_final hb⟩, scan_final hb ▸ Position.Reaches.rfl⟩
  have start : Position.origin.Within a := ⟨Position.Reaches.rfl, _, rfl⟩
  have above : Position.origin ≤ last.behind a :=
    Position.le_iff.2 (Or.inl (start.lt_behind within).1)
  rw [Span.between_start, Span.between_of_le above, Span.between_of_le within.1.le]
  rfl

/-- The comments of two texts are placed on the declarations of the first, then on those of the
second, with what is left over. -/
theorem placedIn_append (hns : Grammar.Row (significant ts) ns)
    (hms : Grammar.Row (significant us) ms) : ∃ later last',
    placedIn m (ts ++ us.map (move (Position.behind a))) (ns ++ Node.moves (Position.behind a) ms) =
      ((placedIn m ts ns).1 ++
        (placeAll m ((placedIn m ts ns).2 ++ later) (Node.moves (Position.behind a) ms)).1,
      (placeAll m ((placedIn m ts ns).2 ++ later) (Node.moves (Position.behind a) ms)).2) ∧
    placeAll m later (Node.moves (Position.behind a) ms) =
      (Node.moves (Position.behind a) (placedIn m us ms).1,
        (placedIn m us ms).2.map (Note.resume (Position.behind a) last')) := by
  obtain ⟨last', hlast, happend⟩ := Note.ofTokens_append none ts
  have fresh : ∀ n ∈ Node.walks ms, last' ≠ some (n.span.stop.behind a) := by
    rintro n hn rfl
    rcases hlast with he | ⟨t, ht, he⟩
    · cases he
    · exact stop_ne_behind ha hb hms ht hn (Option.some.inj he).symm
  refine ⟨_, last', ?_, placeAll_resume m (Note.ofTokens none us) ms fresh⟩
  unfold placedIn
  rw [happend, Note.ofTokens_resume, placeAll_append,
    placeAll_beyond m _ fun n hn x hx => beyond_of_behind ha hb hns hn hx]
  rfl

end Points

theorem joined_of_nil {r r' : Node} (h : declared r' = []) :
    joined r r' =
      { content := .root, span := ⟨r.span.start, r'.span.stop⟩,
        children := r.children ++ r'.children } := by
  unfold joined
  rw [h]

theorem joined_of_cons {r r' first : Node} {others : List Node}
    (h : declared r' = first :: others) :
    joined r r' =
      { content := .root, span := ⟨r.span.start, r'.span.stop⟩,
        children := declared r ++
          first.ledBy ((detached r).map (·.placed .leading)) (detachedDirectives r) :: others ++
          undeclared r' } := by
  unfold joined
  rw [h]

theorem document_of_placed {placed : List Node} {left : List Note}
    (h : placedIn m ts ns = (placed, left)) : document m ts final ns =
      { content := .root, span := Span.between Position.origin final,
        children := placed ++ left.flatMap (detachedNodes m) } := by
  unfold placedIn at h
  unfold document
  rw [h]

theorem detachedNodes_flatMap_resume (last' : Option Position) (notes : List Note) :
    (notes.map (Note.resume (Position.behind a) last')).flatMap (detachedNodes m) =
      Node.moves (Position.behind a) (notes.flatMap (detachedNodes m)) := by
  unfold Position.behind
  rw [List.flatMap_map, Node.moves_eq_map, List.map_flatMap]
  simp only [detachedNodes_resume, Node.moves_eq_map]

/-- The document of two texts is made of those of each. -/
theorem document_append (ha : scan a = .ok (ts, final)) (hb : scan b = .ok (us, last))
    (hns : Grammar.Row (significant ts) ns) (hms : Grammar.Row (significant us) ms) :
    document m (ts ++ us.map (move (Position.behind a))) (last.behind a)
        (ns ++ Node.moves (Position.behind a) ms) =
      joined (document m ts final ns) ((document m us last ms).move (Position.behind a)) := by
  obtain ⟨later, last', happend, hlater⟩ := placedIn_append m ha hb hns hms
  have declares : declared ((document m us last ms).move (Position.behind a)) =
      Node.moves (Position.behind a) (placedIn m us ms).1 := by
    rw [declared_move, declared_document m last hms]
  rw [document_of_placed m happend, span_append hb a final]
  cases ms with
  | nil =>
    have hlater : later = _ := congrArg Prod.snd hlater
    rw [joined_of_nil declares]
    simp only [Node.moves, placeAll, List.append_nil, List.flatMap_append]
    rw [hlater, detachedNodes_flatMap_resume, ← List.append_assoc]
    rfl
  | cons n ms =>
    have leads : ∀ x ∈ (placedIn m ts ns).2,
        x.startsBefore (n.move (Position.behind a)).span.start := by
      intro x hx
      rw [Node.move_span]
      exact startsBefore_of_left m ha hb hms hx (by simp [Node.walk_eq])
    rw [joined_of_cons declares, declared_document m final hns, detached_document m final hns,
      detachedDirectives_document m final hns, undeclared_move, undeclared_document m last hms,
      Node.moves, placeAll_lead m leads hlater]
    dsimp only
    rw [detachedNodes_flatMap_resume, List.map_map]
    rfl

/-- **Two texts in one**: if both can be parsed, and the second one does not begin with a byte order
mark, then the two with a newline between them can be parsed, and their tree is made of the tree of
the first and that of the second, further on. -/
theorem parse_append {root root' : Node} (ha : parse m a = .ok root) (hb : parse m b = .ok root')
    (bare : b.toList.head? ≠ some '\uFEFF') :
    parse m (a ++ "\n" ++ b) = .ok (joined root (root'.move (Position.behind a))) := by
  obtain ⟨ts, final, ns, rest, hscan, hfile, rfl⟩ := parse_eq_ok.1 ha
  obtain ⟨us, last, ms, rest', hscan', hfile', rfl⟩ := parse_eq_ok.1 hb
  have moved := (Grammar.file_carries (Position.behind_compatible a)).ok hfile'
  refine parse_eq_ok.2 ⟨_, _, ns ++ Node.moves (Position.behind a) ms, [],
    scan_cut hscan hscan' bare, ?_, ?_⟩
  · rw [significant_append_move]
    exact Grammar.file_append hfile moved
  · rw [document_append m hscan hscan' (Grammar.file_row hfile) (Grammar.file_row hfile')]

end Texts

/-- A message with a comment behind it that belongs to no declaration. -/
def messageText : String := "message A \x7b\x7d\n// @a:b:c"

/-- An enum with a comment in front of it and one behind it. -/
def enumText : String := "// more\nenum E \x7b V = 0; \x7d // it\n// end"

theorem parse_append_enumText : ∃ root root', parse {} messageText = .ok root ∧
    parse {} enumText = .ok root' ∧ enumText.toList.head? ≠ some '\uFEFF' ∧
    parse {} (messageText ++ "\n" ++ enumText) =
      .ok (joined root (root'.move (Position.behind messageText))) := by
  have message : (parse {} messageText).toBool = true := by decide +kernel
  have enum : (parse {} enumText).toBool = true := by decide +kernel
  have bare : enumText.toList.head? ≠ some '\uFEFF' := by decide
  cases ha : parse {} messageText with
  | error fault => rw [ha] at message; cases message
  | ok root =>
    cases hb : parse {} enumText with
    | error fault => rw [hb] at enum; cases enum
    | ok root' => exact ⟨root, root', rfl, rfl, bare, parse_append {} ha hb bare⟩

end Schema

end SchemaDepot
