import SchemaDepot.Proofs.Schema.Placement
import SchemaDepot.Proofs.Schema.Row
import SchemaDepot.Proofs.Token.Order
import SchemaDepot.Schema.Parse

/-! # Every comment has one place in the tree

The comments of a text and those of its tree are compared as tokens show them: with their kind, text
and span (`Comment.unplaced`).

* `Note.ofTokens_comments`, `Note.follows_reaches`: the notes of tokens are their comments, each
  behind the token that it follows.
* `CommentsPlaced`: where the comments of a text stand in a tree, and which directives come from
  them.
* `parse_commentsPlaced`: so they stand in the tree of every text that can be parsed. -/

namespace SchemaDepot

namespace Token

/-- The comments among tokens. -/
def comments (ts : List Token) : List Comment := ts.filterMap Token.comment?

theorem comment?_eq_some {t : Token} {c : Comment} (h : t.comment? = some c) :
    t.isComment ∧ c.span = t.span ∧ c.unplaced = c := by
  unfold comment? at h
  split at h <;> cases h
  all_goals next hk => exact ⟨by simp [isComment, hk, TokenKind.isComment], rfl, rfl⟩

theorem mem_comments {ts : List Token} {c : Comment} :
    c ∈ comments ts ↔ ∃ t ∈ ts, t.comment? = some c := List.mem_filterMap

theorem map_unplaced_comments (ts : List Token) :
    (comments ts).map Comment.unplaced = comments ts := by
  conv_rhs => rw [← List.map_id (comments ts)]
  refine List.map_congr_left fun c hc => ?_
  obtain ⟨t, -, ht⟩ := mem_comments.mp hc
  exact (comment?_eq_some ht).2.2

/-- In a text in order the comments start one behind the other. -/
theorem InOrder.comments_offset_lt {ts : List Token} (h : InOrder ts) :
    (comments ts).Pairwise fun c d => c.span.start.offset < d.span.start.offset := by
  refine List.Pairwise.filterMap _ (fun t u hlt c hc d hd => ?_) h.offset_lt
  rw [(comment?_eq_some hc).2.1, (comment?_eq_some hd).2.1]
  exact hlt

/-- No comment occurs twice. -/
theorem InOrder.comments_nodup {ts : List Token} (h : InOrder ts) : (comments ts).Nodup :=
  h.comments_offset_lt.imp fun hlt he => by rw [he] at hlt; exact Nat.lt_irrefl _ hlt

end Token

namespace Note

open Token

/-! ### The notes of tokens -/

theorem ofTokens_comments (last : Option Position) (ts : List Token) :
    (ofTokens last ts).map Note.comment = comments ts := by
  induction ts generalizing last with
  | nil => rfl
  | cons t ts ih =>
    unfold ofTokens comments
    cases ht : t.comment? with
    | none => rw [List.filterMap_cons_none ht]; exact ih _
    | some c => rw [List.filterMap_cons_some ht, List.map_cons, ih]; rfl

theorem mem_ofTokens {last : Option Position} {ts : List Token} {x : Note}
    (h : x ∈ ofTokens last ts) : ∃ t ∈ ts, t.comment? = some x.comment := by
  rw [← mem_comments, ← ofTokens_comments last]
  exact List.mem_map_of_mem h

/-- A note stands behind the token that it follows. -/
theorem follows_reaches {ts : List Token} (h : InOrder ts) {last : Option Position}
    (hlast : ∀ p, last = some p → ∀ t ∈ ts, p.Reaches t.span.start) {x : Note}
    (hx : x ∈ ofTokens last ts) {p : Position} (hp : x.follows = some p) :
    p.Reaches x.comment.span.start := by
  induction ts generalizing last with
  | nil => exact absurd hx (by simp [ofTokens])
  | cons t ts ih =>
    obtain ⟨hbehind, -⟩ := List.pairwise_cons.mp h.apart
    have htail : ∀ p, last = some p → ∀ u ∈ ts, p.Reaches u.span.start :=
      fun q hq u hu => hlast q hq u (List.mem_cons_of_mem t hu)
    unfold ofTokens at hx
    split at hx
    · next c hc =>
      rcases List.mem_cons.mp hx with rfl | hx
      · rw [(comment?_eq_some hc).2.1]
        exact hlast p hp t (by simp)
      · exact ih h.tail htail hx
    · refine ih h.tail (fun q hq u hu => ?_) hx
      cases hq
      exact hbehind u hu

/-- The notes of a text in order start one behind the other. -/
theorem ofTokens_pairwise {ts : List Token} (h : InOrder ts) (last : Option Position) :
    (ofTokens last ts).Pairwise fun x y =>
      x.comment.span.start.offset < y.comment.span.start.offset := by
  have := h.comments_offset_lt
  rw [← ofTokens_comments last, List.pairwise_map] at this
  exact this

end Note

/-! ### Comments of a tree -/

namespace Node

/-- The comments on a node, with the one that it is, if it is one. -/
def ownComments (n : Node) : List Comment :=
  n.comments ++ match n.content with
    | .comment c => [c]
    | _ => []

/-- The comments of the tree, in the order of a walk. -/
def allComments (n : Node) : List Comment := n.walk.flatMap ownComments

/-- The node that stands for a detached comment. -/
def ofComment (c : Comment) : Node := { content := .comment c, span := c.span }

/-- The node that stands for a directive in a detached comment. -/
def ofDirective (d : Directive) : Node := { content := .directive d, span := d.span }

theorem ownComments_of_isDeclaration {n : Node} (h : n.content.isDeclaration) :
    n.ownComments = n.comments := by
  unfold ownComments
  split
  · next hc => rw [hc] at h; cases h
  · exact List.append_nil _

theorem ownDirectives_of_isDeclaration {n : Node} (h : n.content.isDeclaration) :
    n.ownDirectives = n.directives := by
  unfold ownDirectives
  split
  · next hc => rw [hc] at h; cases h
  · exact List.append_nil _

end Node

/-- The comment in a placement. -/
def Comment.placed (c : Comment) (placement : Placement) : Comment := { c with placement }

/-- The comments of a text stand in its tree, each in one place: on one of the declarations or, if
it is detached, in a node of its own below the root. Directives are read by `m`. -/
structure CommentsPlaced (m : Marker) (comments : List Comment) (root : Node)
    (declarations : List Node) (detached : List Comment) : Prop where
  /-- No comment of the text occurs twice. -/
  nodup : comments.Nodup
  /-- Every comment of the text occurs once in the tree, and no other does. -/
  once : (root.allComments.map Comment.unplaced).Perm comments
  /-- The root carries nothing. -/
  root_bare : root.comments = [] ∧ root.directives = []
  /-- Behind the declarations come the detached comments, each before the directives in it. -/
  children_eq : root.children = declarations ++ detached.flatMap fun c =>
    Node.ofComment c :: (m.extract c).map Node.ofDirective
  detached_placement : ∀ c ∈ detached, c.placement = .detached
  isDeclaration : ∀ n ∈ Node.walks declarations, n.content.isDeclaration
  /-- The comments of a declaration stand in the order of the text. -/
  ordered : ∀ n ∈ Node.walks declarations, (n.comments.map Comment.unplaced).Sublist comments
  /-- A leading comment ends before its declaration, a trailing one starts behind it on the line on
  which it ends, and a declaration has no others. -/
  sides : ∀ n ∈ Node.walks declarations, ∀ c ∈ n.comments,
    c.placement = .leading ∧ c.span.stop ≤ n.span.start ∨
    c.placement = .trailing ∧ n.span.stop ≤ c.span.start ∧ c.span.start.line = n.span.stop.line
  /-- Detached is what trails no declaration and has none behind it. -/
  detached_iff : ∀ c ∈ comments, c.placed .detached ∈ detached ↔
    ∀ n ∈ Node.walks declarations, c.placed .trailing ∉ n.comments ∧ ¬ c.span.stop ≤ n.span.start
  /-- The directives of a declaration are those in its comments, in their order. -/
  directives_eq : ∀ n ∈ Node.walks declarations, n.directives = n.comments.flatMap m.extract
  /-- The directives of the tree are those in the comments of the text, each once. -/
  allDirectives : root.allDirectives.Perm (comments.flatMap m.extract)

namespace Placement

open Token Grammar

variable (m : Marker)

/-! ### The parts of a document -/

section Document
variable {ts : List Token} {nodes : List Node}

theorem map_unplaced_ofTokens (ts : List Token) :
    (Note.ofTokens none ts).map (fun x => x.comment.unplaced) = comments ts := by
  rw [← map_unplaced_comments ts, ← Note.ofTokens_comments none ts, List.map_map]
  rfl

/-- The declarations with their comments, and the notes that are left over. -/
def placedIn (ts : List Token) (nodes : List Node) : List Node × List Note :=
  placeAll m (Note.ofTokens none ts) nodes

/-- The comments that no declaration follows. -/
def detachedIn (ts : List Token) (nodes : List Node) : List Comment :=
  (placedIn m ts nodes).2.map (put .detached)

theorem placement_of_mem_detachedIn {c : Comment} (hc : c ∈ detachedIn m ts nodes) :
    c.placement = .detached := by
  obtain ⟨x, -, rfl⟩ := List.mem_map.mp hc
  rfl

theorem document_children (final : Position) :
    (Schema.document m ts final nodes).children = (placedIn m ts nodes).1 ++
      (detachedIn m ts nodes).flatMap fun c =>
        Node.ofComment c :: (m.extract c).map Node.ofDirective := by
  unfold detachedIn
  rw [List.flatMap_map]
  rfl

/-- What is placed of a row declares the same at the same places. -/
theorem exists_of_mem_placedIn {n : Node} (hn : n ∈ Node.walks (placedIn m ts nodes).1) :
    ∃ n' ∈ Node.walks nodes, n'.content = n.content ∧ n'.span = n.span := by
  have h := List.mem_map_of_mem (f := outline) hn
  unfold placedIn at h
  rw [placeAll_outline] at h
  obtain ⟨n', hn', he⟩ := List.mem_map.mp h
  exact ⟨n', hn', congrArg Prod.fst he, congrArg Prod.snd he⟩

theorem walk_document (final : Position) :
    (Schema.document m ts final nodes).walk = Schema.document m ts final nodes ::
      (Node.walks (placedIn m ts nodes).1 ++ (detachedIn m ts nodes).flatMap fun c =>
        Node.ofComment c :: (m.extract c).map Node.ofDirective) := by
  rw [Node.walk_eq, document_children, Node.walks_append]
  congr 2
  refine Node.walks_of_children fun n hn => ?_
  obtain ⟨c, -, hn⟩ := List.mem_flatMap.mp hn
  rcases List.mem_cons.mp hn with rfl | hn
  · rfl
  · obtain ⟨d, -, rfl⟩ := List.mem_map.mp hn
    rfl

theorem flatMap_ownComments_detached (c : Comment) :
    (Node.ofComment c :: (m.extract c).map Node.ofDirective).flatMap Node.ownComments = [c] := by
  rw [List.flatMap_cons, List.flatMap_map,
    List.flatMap_eq_nil_iff.mpr fun d _ => (rfl : Node.ownComments (Node.ofDirective d) = [])]
  rfl

theorem flatMap_ownDirectives_detached (c : Comment) :
    (Node.ofComment c :: (m.extract c).map Node.ofDirective).flatMap Node.ownDirectives =
      m.extract c := by
  rw [List.flatMap_cons, List.flatMap_map]
  exact List.flatMap_singleton' (m.extract c)

section Rows
variable (hrow : Row (significant ts) nodes)
include hrow

/-- What is placed are declarations, and they start where tokens of the text start. -/
theorem placedIn_start {n : Node} (hn : n ∈ Node.walks (placedIn m ts nodes).1) :
    n.content.isDeclaration ∧ ∃ t ∈ ts, n.span.start = t.span.start := by
  obtain ⟨n', hn', hc, hs⟩ := exists_of_mem_placedIn m hn
  obtain ⟨hd, t, ht, he⟩ := hrow.node_start n' hn'
  exact ⟨hc ▸ hd, t, List.mem_of_mem_filter ht, hs ▸ he⟩

theorem allComments_document (final : Position) :
    (Schema.document m ts final nodes).allComments =
      (Node.walks (placedIn m ts nodes).1).flatMap Node.comments ++ detachedIn m ts nodes := by
  unfold Node.allComments
  rw [walk_document, List.flatMap_cons, List.flatMap_append, List.flatMap_assoc,
    List.flatMap_congr fun n hn => Node.ownComments_of_isDeclaration (placedIn_start m hrow hn).1,
    List.flatMap_congr fun c _ => flatMap_ownComments_detached m c, List.flatMap_singleton']
  rfl

/-- **Every comment occurs once in the tree.** -/
theorem allComments_document_perm (final : Position) :
    ((Schema.document m ts final nodes).allComments.map Comment.unplaced).Perm (comments ts) := by
  have h := placeAll_perm m (Note.ofTokens none ts) nodes
  rw [map_unplaced_ofTokens] at h
  rw [allComments_document m hrow, List.map_append]
  unfold detachedIn
  rw [List.map_map]
  exact h

/-- The directives of the tree are those in its comments. -/
theorem allDirectives_document (final : Position) :
    (Schema.document m ts final nodes).allDirectives =
      (Schema.document m ts final nodes).allComments.flatMap m.extract := by
  have hplaced : ∀ n ∈ Node.walks (placedIn m ts nodes).1,
      n.ownDirectives = n.comments.flatMap m.extract := by
    intro n hn
    rw [Node.ownDirectives_of_isDeclaration (placedIn_start m hrow hn).1]
    exact (placeAll_dressed m _ nodes n hn).directives_eq
  unfold Node.allDirectives
  rw [allComments_document m hrow, walk_document, List.flatMap_cons, List.flatMap_append,
    List.flatMap_assoc, List.flatMap_congr hplaced,
    List.flatMap_congr fun c _ => flatMap_ownDirectives_detached m c, List.flatMap_append,
    List.flatMap_assoc]
  rfl

theorem allDirectives_document_perm (final : Position) :
    (Schema.document m ts final nodes).allDirectives.Perm ((comments ts).flatMap m.extract) := by
  rw [allDirectives_document m hrow final]
  have h := (allComments_document_perm m hrow final).flatMap_right m.extract
  rw [List.flatMap_map] at h
  exact h

end Rows

/-! ### Sides -/

section Sides
variable (hin : InOrder ts) (hrow : Row (significant ts) nodes)
include hin

theorem pool_reaches {x : Note} (hx : x ∈ Note.ofTokens none ts) {t : Token} (ht : t ∈ ts)
    (hb : x.startsBefore t.span.start) : x.comment.span.stop.Reaches t.span.start := by
  obtain ⟨u, hu, hc⟩ := Note.mem_ofTokens hx
  have hspan := (comment?_eq_some hc).2.1
  unfold Note.startsBefore at hb
  rw [hspan] at hb ⊢
  exact hin.reaches_of_lt hu ht (of_decide_eq_true hb)

include hrow

/-- A comment leads its declaration or trails it. -/
theorem placedIn_sides {n : Node} (hn : n ∈ Node.walks (placedIn m ts nodes).1) {c : Comment}
    (hc : c ∈ n.comments) :
    c.placement = .leading ∧ c.span.stop ≤ n.span.start ∨
      c.placement = .trailing ∧ n.span.stop ≤ c.span.start ∧
        c.span.start.line = n.span.stop.line := by
  obtain ⟨lead, trail, hsub, hcomments, hlead, htrail, -⟩ := placeAll_dressed m _ nodes n hn
  obtain ⟨-, t, ht, hstart⟩ := placedIn_start m hrow hn
  rw [hcomments] at hc
  rcases List.mem_append.mp hc with hc | hc
  · obtain ⟨x, hx, rfl⟩ := List.mem_map.mp hc
    have hpool := hsub.subset (List.mem_append_left trail hx)
    have hb := hlead x hx
    rw [hstart] at hb ⊢
    exact Or.inl ⟨rfl, (pool_reaches hin hpool ht hb).le⟩
  · obtain ⟨x, hx, rfl⟩ := List.mem_map.mp hc
    have hpool := hsub.subset (List.mem_append_right lead hx)
    have htr := htrail x hx
    simp only [Note.trails, Bool.and_eq_true, beq_iff_eq] at htr
    have hreach := Note.follows_reaches hin (fun p hp => by cases hp) hpool htr.1
    exact Or.inr ⟨rfl, hreach.le, htr.2⟩

omit hin hrow in
theorem placedIn_ordered {n : Node} (hn : n ∈ Node.walks (placedIn m ts nodes).1) :
    (n.comments.map Comment.unplaced).Sublist (comments ts) := by
  obtain ⟨lead, trail, hsub, hcomments, -⟩ := placeAll_dressed m _ nodes n hn
  have hmap := hsub.map fun x => x.comment.unplaced
  rw [map_unplaced_ofTokens, List.map_append] at hmap
  rw [hcomments, List.map_append, List.map_map, List.map_map]
  exact hmap

/-- A comment that is left over starts behind every declaration. -/
theorem not_le_start_of_left {x : Note} (hx : x ∈ (placedIn m ts nodes).2) {n : Node}
    (hn : n ∈ Node.walks (placedIn m ts nodes).1) : ¬ x.comment.span.stop ≤ n.span.start := by
  obtain ⟨u, hu, hc⟩ := Note.mem_ofTokens ((placeAll_sublist m _ nodes).subset hx)
  obtain ⟨-, t, ht, hstart⟩ := placedIn_start m hrow hn
  obtain ⟨n', hn', -, hspan⟩ := exists_of_mem_placedIn m hn
  have hb := not_startsBefore_of_left m (Note.ofTokens_pairwise hin none) hx n' hn'
  rw [hspan, hstart] at hb
  rw [hstart, (comment?_eq_some hc).2.1, hin.stop_le_start_iff hu ht,
    ← (comment?_eq_some hc).2.1]
  exact fun hlt => hb (decide_eq_true hlt)

/-- **Detached is what trails no declaration and has none behind it.** -/
theorem mem_detachedIn_iff {c : Comment} (hc : c ∈ comments ts) :
    c.placed .detached ∈ detachedIn m ts nodes ↔ ∀ n ∈ Node.walks (placedIn m ts nodes).1,
      c.placed .trailing ∉ n.comments ∧ ¬ c.span.stop ≤ n.span.start := by
  have hperm := placeAll_perm m (Note.ofTokens none ts) nodes
  rw [map_unplaced_ofTokens] at hperm
  constructor
  · intro hd n hn
    obtain ⟨x, hx, he⟩ := List.mem_map.mp hd
    have hcx : (put .detached x).unplaced = (c.placed .detached).unplaced := by rw [he]
    have hspan : (put .detached x).span = (c.placed .detached).span := by rw [he]
    change x.comment.span = c.span at hspan
    refine ⟨fun hmem => ?_, hspan ▸ not_le_start_of_left m hin hrow hx hn⟩
    -- a comment that is both on a declaration and left over would occur twice
    have hdistinct := (List.nodup_append.mp (hperm.nodup_iff.mpr hin.comments_nodup)).2.2
    have hcarried : c.unplaced ∈ carried (placedIn m ts nodes).1 :=
      List.mem_map.mpr ⟨c.placed .trailing, List.mem_flatMap.mpr ⟨n, hn, hmem⟩, rfl⟩
    exact hdistinct _ hcarried _ (List.mem_map.mpr ⟨x, hx, hcx⟩) rfl
  · intro hnone
    rcases List.mem_append.mp (hperm.mem_iff.mpr hc) with hcarried | hleft
    · obtain ⟨d, hd, rfl⟩ := List.mem_map.mp hcarried
      obtain ⟨n, hn, hdn⟩ := List.mem_flatMap.mp hd
      obtain ⟨hnotrail, hnostart⟩ := hnone n hn
      rcases placedIn_sides m hin hrow hn hdn with ⟨-, hle⟩ | ⟨htrail, -⟩
      · exact absurd hle hnostart
      · refine absurd ?_ hnotrail
        convert hdn using 1
        show d.unplaced.placed .trailing = d
        rw [← htrail]
        rfl
    · obtain ⟨x, hx, rfl⟩ := List.mem_map.mp hleft
      exact List.mem_map.mpr ⟨x, hx, rfl⟩

end Sides

end Document

end Placement

/-! ### Parsing -/

namespace Schema

/-- A text that can be parsed has tokens, and its significant tokens are a row of declarations. -/
theorem parse_ok {m : Marker} {text : String} {root : Node} (h : parse m text = .ok root) :
    ∃ ts final nodes, Token.scan text = .ok (ts, final) ∧
      Grammar.Row (Token.significant ts) nodes ∧ root = document m ts final nodes := by
  obtain ⟨ts, final, nodes, rest, hscan, hfile, hroot⟩ := parse_eq_ok.1 h
  exact ⟨ts, final, nodes, hscan, Grammar.file_row hfile, hroot⟩

/-- A text is parsed if something can be told of its tree. -/
theorem exists_parse {m : Marker} {text : String} {α : Type} {f : Node → α} {a : α}
    (h : (parse m text).toOption.map f = some a) : ∃ root, parse m text = .ok root ∧ f root = a := by
  cases hp : parse m text with
  | error fault =>
    rw [hp] at h
    cases h
  | ok root =>
    rw [hp] at h
    exact ⟨root, rfl, Option.some.inj h⟩

/-- **Every comment of a text has one place in its tree.** -/
theorem parse_commentsPlaced {m : Marker} {text : String} {root : Node}
    (h : parse m text = .ok root) :
    ∃ ts final declarations detached, Token.scan text = .ok (ts, final) ∧
      CommentsPlaced m (Token.comments ts) root declarations detached := by
  obtain ⟨ts, final, nodes, hscan, hrow, rfl⟩ := parse_ok h
  have hin := Token.scan_inOrder hscan
  refine ⟨ts, final, (Placement.placedIn m ts nodes).1, Placement.detachedIn m ts nodes, hscan, ?_⟩
  exact {
    nodup := hin.comments_nodup
    once := Placement.allComments_document_perm m hrow final
    root_bare := ⟨rfl, rfl⟩
    children_eq := Placement.document_children m final
    detached_placement := fun c hc => Placement.placement_of_mem_detachedIn m hc
    isDeclaration := fun n hn => (Placement.placedIn_start m hrow hn).1
    ordered := fun n hn => Placement.placedIn_ordered m hn
    sides := fun n hn c hc => Placement.placedIn_sides m hin hrow hn hc
    detached_iff := fun c hc => Placement.mem_detachedIn_iff m hin hrow hc
    directives_eq := fun n hn => (Placement.placeAll_dressed m _ nodes n hn).directives_eq
    allDirectives := Placement.allDirectives_document_perm m hrow final }

/-- A text with a comment before a message, one behind a field, one before a closing brace, one
between a keyword and a name, and one at its end. -/
def commentedText : String :=
  "// @a:b:c\nmessage A \x7b\n  int32 x = 1; // @a:unit:ms\n  /* inner */\n\x7d\n" ++
    "enum /* here */ E \x7b V = 0; \x7d\n// end"

theorem parse_commentedText : ∃ root, parse {} commentedText = .ok root ∧
    ∃ ts final declarations detached, Token.scan commentedText = .ok (ts, final) ∧
      CommentsPlaced {} (Token.comments ts) root declarations detached := by
  have hok : (parse {} commentedText).toBool = true := by decide +kernel
  cases hp : parse {} commentedText with
  | error fault =>
    rw [hp] at hok
    cases hok
  | ok root => exact ⟨root, rfl, parse_commentsPlaced hp⟩

end Schema

end SchemaDepot
