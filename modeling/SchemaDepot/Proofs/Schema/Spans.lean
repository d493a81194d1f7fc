import SchemaDepot.Proofs.Schema.Order
import SchemaDepot.Proofs.Schema.Provenance
import SchemaDepot.Proofs.Token.Slices

/-! # Spans mirror the tree

The span of a declaration goes from its first token to its last one, so the spans of a tree lie in
each other as its nodes do, and the text in the span of a declaration is that declaration.

* `Position.In`: the points of a text.
* `Node.Spans`: a declaration over the tokens that it is read off.
* `Node.Encloses`: the declarations right below a node stand in order inside of it.
* `Schema.parse_slice`: the text of a declaration by itself.
* `Schema.parse_spans`: the spans of the tree of a text. -/

namespace SchemaDepot

open Position

/-! ### Points of a text -/

/-- A point of the text: the one behind some characters at its front. -/
def Position.In (text : String) (p : Position) : Prop :=
  ∃ front, front <+: text.toList ∧ p.After front

/-- Of two points of a text, one comes from that with the smaller offset to the other. -/
theorem Position.In.reaches {text : String} {p q : Position} (hp : p.In text) (hq : q.In text)
    (h : p.offset ≤ q.offset) : p.Reaches q := by
  obtain ⟨xs, hxs, hp⟩ := hp
  obtain ⟨ys, hys, hq⟩ := hq
  rw [hp.offset, hq.offset] at h
  rw [after_iff.1 hp, after_iff.1 hq]
  rcases List.prefix_or_prefix_of_prefix hxs hys with hle | ⟨zs, rfl⟩
  · exact advanceOver_reaches hle _
  · have : zs = [] := by
      rw [String.utf8Len_append] at h
      exact String.utf8Len_eq_zero.1 (by omega)
    rw [this, List.append_nil]
    exact Reaches.rfl

theorem Position.In.before {text : String} {p q : Position} (hp : p.In text) (hq : q.In text)
    (h : p.offset < q.offset) : p.before q = true := by
  have hle := le_iff.1 (hp.reaches hq (Nat.le_of_lt h)).le
  simp only [Position.before, Bool.or_eq_true, Bool.and_eq_true, decide_eq_true_eq, beq_iff_eq]
  omega

/-- Tokens start and end at points of the text. -/
theorem Token.in_of_scan {text : String} {ts : List Token} {final : Position}
    (h : scan text = .ok (ts, final)) : ∀ t ∈ ts, t.span.start.In text ∧ t.span.stop.In text := by
  intro t ht
  obtain ⟨front, lexeme, rest, htext, -, rfl⟩ := scan_slices h t ht
  rw [ofLexeme_span, ← advanceOver_append]
  exact ⟨⟨front, ⟨lexeme.source ++ rest, by simp [htext]⟩, after_origin _⟩,
    ⟨front ++ lexeme.source, ⟨rest, htext.symm⟩, after_origin _⟩⟩

/-! ### Nodes and tokens -/

/-- The declaration is what the tokens by themselves are read as, and its span goes from the start
of the first to the end of the last one, which is a semicolon or a closing brace. -/
def Node.Spans (us : List Token) (n : Node) : Prop :=
  ∃ first inner last x, us = first :: inner ++ [last] ∧ Grammar.Reads us x ∧ x.bare = n.bare ∧
    n.span = ⟨first.span.start, last.span.stop⟩ ∧ Phrase.isEnd last = true

/-- The declarations right below a node lie inside of it, each behind the one before it. -/
structure Node.Encloses (n : Node) : Prop where
  inside : ∀ c ∈ n.children, c.content.isDeclaration →
    n.span.start ≤ c.span.start ∧ c.span.stop ≤ n.span.stop
  apart : (n.children.filter (·.content.isDeclaration)).Pairwise fun a b =>
    a.span.stop ≤ b.span.start

/-- Trees in a row do not overlap. -/
theorem Node.InOrder.row {lo hi : Nat} {ns : List Node} (h : Node.InOrder lo hi ns) :
    ns.Pairwise fun a b => a.span.stop.offset ≤ b.span.start.offset := by
  induction h with
  | nil => exact .nil
  | cons start filled stop below rest _ ih =>
    refine .cons (fun b hb => (rest.bounds b ?_).1) ih
    exact List.mem_flatMap.2 ⟨b, hb, by rw [walk_eq]; exact List.mem_cons_self⟩

/-- The declarations right below a node stand in order inside of it if their offsets do. -/
theorem Node.encloses_of_inOrder {text : String} {lo hi : Nat} {n : Node}
    (order : Node.InOrder lo hi (n.children.filter (·.content.isDeclaration)))
    (hlo : n.span.start.offset ≤ lo) (hhi : hi ≤ n.span.stop.offset)
    (points : n.span.start.In text ∧ n.span.stop.In text)
    (below : ∀ c ∈ n.children, c.content.isDeclaration →
      c.span.start.In text ∧ c.span.stop.In text) : n.Encloses := by
  refine ⟨fun c hc hd => ?_, order.row.imp_of_mem fun {a b} ha hb hle => ?_⟩
  · have hmem : c ∈ n.children.filter (·.content.isDeclaration) := List.mem_filter.2 ⟨hc, hd⟩
    have bounds := order.bounds c
      (List.mem_flatMap.2 ⟨c, hmem, by rw [walk_eq]; exact List.mem_cons_self⟩)
    obtain ⟨start, stop⟩ := below c hc hd
    exact ⟨(points.1.reaches start (by omega)).le, (stop.reaches points.2 (by omega)).le⟩
  · obtain ⟨ha, hda⟩ := List.mem_filter.1 ha
    obtain ⟨hb, hdb⟩ := List.mem_filter.1 hb
    exact ((below a ha hda).2.reaches (below b hb hdb).1 hle).le

namespace Placement

variable (m : Marker)

/-- Comments change nothing of a declaration and its span, at any depth. -/
theorem exists_bare_of_mem_placeAll (pool : List Note) (ns : List Node) :
    ∀ n ∈ Node.walks (placeAll m pool ns).1, ∃ x ∈ Node.walks ns, x.bare = n.bare ∧
      x.span = n.span := by
  induction ns using Node.rowInduction generalizing pool with
  | nil => exact nofun
  | cons content span cs ds children ns ihc ihn =>
    rw [placeAll_cons]
    simp only [Node.walks_cons, Node.walk_eq, List.cons_append, List.forall_mem_cons,
      List.forall_mem_append]
    refine ⟨⟨_, List.mem_cons_self, ?_, rfl⟩, fun n hn => ?_, fun n hn => ?_⟩
    · simp only [Node.bare, Node.bares_placeAll]
    · obtain ⟨x, hx, same⟩ := ihc _ n hn
      exact ⟨x, List.mem_cons_of_mem _ (List.mem_append_left _ hx), same⟩
    · obtain ⟨x, hx, same⟩ := ihn _ n hn
      exact ⟨x, List.mem_cons_of_mem _ (List.mem_append_right _ hx), same⟩

/-- Nor of those that stand in no block. -/
theorem exists_bare_of_mem_placeAll_row (pool : List Note) (ns : List Node) :
    ∀ n ∈ (placeAll m pool ns).1, ∃ x ∈ ns, x.bare = n.bare ∧ x.span = n.span := by
  induction ns generalizing pool with
  | nil => exact nofun
  | cons n ns ih =>
    obtain ⟨content, span, cs, ds, children⟩ := n
    rw [placeAll_cons]
    simp only [List.forall_mem_cons]
    refine ⟨⟨_, List.mem_cons_self, ?_, rfl⟩, fun n hn => ?_⟩
    · simp only [Node.bare, Node.bares_placeAll]
    · obtain ⟨x, hx, same⟩ := ih _ n hn
      exact ⟨x, List.mem_cons_of_mem _ hx, same⟩

end Placement

namespace Grammar

/-- **Tokens that agree are read alike**, as declarations of a file. -/
theorem file_agree {us vs rest : List Token} {nodes : List Node}
    (h : List.Forall₂ Token.Agree us vs) (hus : file us = .ok (nodes, rest)) :
    ∃ nodes' rest', file vs = .ok (nodes', rest') ∧ Node.bares nodes' = Node.bares nodes := by
  have carries := file_carries (compatible_const origin)
  have same := (carries.eq us).symm.trans
    ((congrArg file (Token.map_move_eq h _)).trans (carries.eq vs))
  rw [hus] at same
  cases hvs : file vs with
  | error stop => rw [hvs] at same; cases same
  | ok read =>
    rw [hvs] at same
    have moved : Node.moves (fun _ => origin) nodes = Node.moves (fun _ => origin) read.1 :=
      congrArg Prod.fst (Except.ok.inj same)
    refine ⟨read.1, read.2, rfl, ?_⟩
    rw [← Node.bares_moves _ read.1 fun n hn => ((file_row hvs).node_start n hn).1, ← moved,
      Node.bares_moves _ nodes fun n hn => ((file_row hus).node_start n hn).1]

/-- One declaration of a file is a file. -/
theorem file_of_declaration {us : List Token} {n : Node}
    (h : declaration (block maxNesting) us = .ok (n, [])) : file us = .ok ([n], []) := by
  obtain ⟨t, us', rfl, ht⟩ := declaration_apart _ us (declarationOfFile_recognizes.alone.whole h).1
  have semicolon : Reader.isSymbol ';' t = false := by simpa using ht
  have rounds : file (t :: us') =
      Reader.manyWithin (fun _ => false) (declaration (block maxNesting)) (t :: us') (t :: us') :=
    rfl
  rw [rounds]
  rw [Reader.manyWithin, Reader.bind_of_ok (rfl : Reader.peek _ = .ok (some t, _))]
  simp only [Bool.false_eq_true, semicolon, if_false]
  rw [Reader.bind_of_ok h, Reader.bind_of_ok (Reader.manyWithin_of_clear (Phrase.clear_nil _) us')]
  rfl

end Grammar

namespace Schema

open Token Placement

section Text
variable {text : String} {ts : List Token} {final : Position} (hscan : scan text = .ok (ts, final))
include hscan

/-- The declaration that tokens of a text are read as covers these tokens. -/
theorem spans_of_reads {us : List Token} {x n : Node} (hus : us <:+: significant ts)
    (reads : Grammar.Reads us x) (bare : x.bare = n.bare) (span : x.span = n.span) :
    n.Spans us := by
  obtain ⟨first, inner, last, content, children, rfl, rfl, -, -⟩ := reads.declares
  obtain ⟨front, t, same, ends⟩ := reads.ends
  obtain rfl : last = t := List.singleton_inj.1 (List.append_inj' same rfl).2
  refine ⟨first, inner, last, _, rfl, reads, bare, ?_, ends⟩
  have order := ((scan_inOrder hscan).sublist List.filter_sublist).sublist hus.sublist
  obtain ⟨filled, apart⟩ := order
  simp only [List.cons_append, List.pairwise_cons, List.forall_mem_cons,
    List.forall_mem_append] at filled apart
  rw [← span]
  exact Span.between_of_le
    ((filled.1.reaches.trans apart.1.2.1).trans filled.2.2.1.reaches).le

/-- **A declaration is a text by itself.** The text of tokens that are read as a declaration of a
file is parsed, whatever markers are given, and has that declaration and no other. -/
theorem parse_slice {first last : Token} {inner : List Token} {x : Node}
    (hus : first :: inner ++ [last] <:+: significant ts)
    (reads : Grammar.declaration (Grammar.block Grammar.maxNesting) (first :: inner ++ [last]) =
      .ok (x, [])) (m : Marker) :
    ∃ alone n, parse m ((Span.mk first.span.start last.span.stop).slice text) = .ok alone ∧
      alone.children.filter (·.content.isDeclaration) = [n] ∧ n.bare = x.bare := by
  obtain ⟨vs, final', hslice, agree⟩ := scan_slice hscan hus
  obtain ⟨nodes, rest, hfile, same⟩ :=
    Grammar.file_agree agree (Grammar.file_of_declaration reads)
  obtain ⟨x', rfl⟩ : ∃ x', nodes = [x'] := by
    cases nodes with
    | nil => cases same
    | cons x' others =>
      cases others with
      | nil => exact ⟨x', rfl⟩
      | cons => simp [Node.bares] at same
  have bare : x'.bare = x.bare := by simpa [Node.bares] using same
  have hrow := Grammar.file_row hfile
  have declared := document_declarations hrow m final'
  have placed := Node.bares_placeAll m (Note.ofTokens none vs) [x']
  obtain ⟨n, hn⟩ : ∃ n, (placedIn m vs [x']).1 = [n] := ⟨_, rfl⟩
  have same : Node.bares (placedIn m vs [x']).1 = Node.bares [x'] := placed
  rw [hn] at same declared
  refine ⟨_, n, parse_eq_ok.2 ⟨vs, final', [x'], rest, hslice, hfile, rfl⟩, declared, ?_⟩
  rw [← bare]
  simpa [Node.bares] using same

/-- The declarations below any node of the tree of a text stand in order inside of it. -/
theorem document_encloses (m : Marker) {nodes : List Node}
    (hrow : Grammar.Row (significant ts) nodes) :
    ∀ n ∈ (document m ts final nodes).walk, n.Encloses := by
  have points : ∀ n ∈ Node.walks (placedIn m ts nodes).1,
      n.span.start.In text ∧ n.span.stop.In text := by
    intro n hn
    obtain ⟨x, hx, -, span⟩ := exists_bare_of_mem_placeAll m _ nodes n hn
    rw [← span]
    exact hrow.forall_points
      (fun t ht => in_of_scan hscan t (List.mem_of_mem_filter ht)) x hx
  have order := placedIn_inOrder hscan hrow m
  have declared : ∀ n ∈ Node.walks (placedIn m ts nodes).1, n.content.isDeclaration = true :=
    fun n hn => (placedIn_start m hrow hn).1
  rw [walk_document, List.forall_mem_cons, List.forall_mem_append]
  refine ⟨?_, fun n hn => ?_, fun n hn => ?_⟩
  · have reached : origin.Reaches final := ⟨_, scan_final hscan⟩
    have whole : (document m ts final nodes).span = ⟨origin, final⟩ :=
      Span.between_of_le reached.le
    have top := document_declarations hrow m final
    refine @Node.encloses_of_inOrder text 0 final.offset _ (by rwa [top])
      (by rw [whole]; exact Nat.le_refl _) (by rw [whole]) ?_ fun c hc hd => points c ?_
    · rw [whole, scan_final hscan]
      exact ⟨⟨[], List.nil_prefix, after_origin []⟩, ⟨_, List.prefix_rfl, after_origin _⟩⟩
    · have : c ∈ (placedIn m ts nodes).1 := top ▸ List.mem_filter.2 ⟨hc, hd⟩
      exact List.mem_flatMap.2 ⟨c, this, by rw [Node.walk_eq]; exact List.mem_cons_self⟩
  · have below (c : Node) (hc : c ∈ n.children) : c ∈ Node.walks (placedIn m ts nodes).1 :=
      Node.mem_walks_of_below hn
        (List.mem_flatMap.2 ⟨c, hc, by rw [Node.walk_eq]; exact List.mem_cons_self⟩)
    have all : n.children.filter (·.content.isDeclaration) = n.children :=
      List.filter_eq_self.2 fun c hc => declared c (below c hc)
    exact Node.encloses_of_inOrder (by rw [all]; exact order.below_of_mem hn) (by omega)
      (by omega) (points n hn) fun c hc _ => points c (below c hc)
  · -- comments and directives have nothing below them
    have bare : n.children = [] := by
      obtain ⟨c, -, hn⟩ := List.mem_flatMap.1 hn
      rcases List.mem_cons.1 hn with rfl | hn
      · rfl
      · obtain ⟨d, -, rfl⟩ := List.mem_map.1 hn
        rfl
    exact ⟨by rw [bare]; exact nofun, by rw [bare]; exact .nil⟩

end Text

/-- The spans of the tree of a text mirror the tree. -/
structure Mirrors (text : String) (root : Node) : Prop where
  /-- The root spans the whole text. -/
  whole : root.span.Over [] text.toList
  /-- The declarations right below a node lie in order inside of it. -/
  nested : ∀ n ∈ root.walk, n.Encloses
  /-- Every declaration spans the tokens that it is read off, and is not empty. -/
  covered : ∃ ts final, scan text = .ok (ts, final) ∧ ∀ n ∈ root.allDeclarations,
    n.span.start.before n.span.stop = true ∧ ∃ us, us <:+: significant ts ∧ n.Spans us
  /-- The text of a declaration that stands in no block is parsed to that and nothing else, without
  regard to places, comments and directives. -/
  sliced : ∀ n ∈ root.children, n.content.isDeclaration → ∀ m, ∃ alone n',
    parse m (n.span.slice text) = .ok alone ∧
      alone.children.filter (·.content.isDeclaration) = [n'] ∧ n'.bare = n.bare

/-- **Spans mirror the tree** of every text that is parsed. -/
theorem parse_spans {m : Marker} {text : String} {root : Node} (h : parse m text = .ok root) :
    Mirrors text root := by
  obtain ⟨ts, final, nodes, rest, hscan, hfile, rfl⟩ := parse_eq_ok.1 h
  have hrow := Grammar.file_row hfile
  have reached : origin.Reaches final := ⟨_, scan_final hscan⟩
  refine ⟨?_, document_encloses hscan m hrow, ⟨ts, final, hscan, fun n hn => ?_⟩,
    fun n hn hd m' => ?_⟩
  · show (Span.between origin final).Over [] text.toList
    rw [Span.between_of_le reached.le]
    exact ⟨after_origin [], by rw [scan_final hscan]; exact after_origin _⟩
  · rw [allDeclarations_document hrow] at hn
    obtain ⟨x, hx, bare, span⟩ := exists_bare_of_mem_placeAll m _ nodes n hn
    obtain ⟨us, hus, reads⟩ := Grammar.file_reads hfile x hx
    have points := hrow.forall_points
      (fun t ht => in_of_scan hscan t (List.mem_of_mem_filter ht)) x hx
    have bounds := (placedIn_inOrder hscan hrow m).bounds n hn
    rw [← span] at bounds ⊢
    exact ⟨points.1.before points.2 bounds.2.1, us, hus, spans_of_reads hscan hus reads bare span⟩
  · have htop : n ∈ (placedIn m ts nodes).1 :=
      document_declarations hrow m final ▸ List.mem_filter.2 ⟨hn, hd⟩
    obtain ⟨x, hx, bare, span⟩ := exists_bare_of_mem_placeAll_row m _ nodes n htop
    obtain ⟨us, hus, reads⟩ := Grammar.file_each hfile x hx
    obtain ⟨first, inner, last, _, rfl, -, -, whole, -⟩ :=
      spans_of_reads hscan hus (Or.inr reads) bare span
    rw [whole, ← bare]
    exact parse_slice hscan hus reads m'

/-- Declarations in a block, with comments and a directive between them, and one behind it. -/
def enclosedText : String :=
  "// é\nmessage A \x7b // @x:y:z\n  enum B \x7b C = 0; \x7d /* d */ int32 d = 1;\n\x7d;import 'a';"

theorem enclosedText_spans :
    ∃ root, parse {} enclosedText = .ok root ∧ Mirrors enclosedText root := by
  have found : (parse {} enclosedText).toOption.map (·.allDeclarations.length) = some 5 := by
    decide +kernel
  obtain ⟨root, hp, -⟩ := exists_parse found
  exact ⟨root, hp, parse_spans hp⟩

end Schema

end SchemaDepot
