import Mathlib.Data.List.Infix
import SchemaDepot.Proofs.Schema.Comments
import SchemaDepot.Proofs.Token.Cut

/-! # The points of a tree lie in its text

Every stretch in the tree of a text, of a node, a comment or a directive, lies between the start and
the end of the text.

* `Span.Inside`: a stretch between two points.
* `Marker.ofLines_inside`: directives stand in the lines they are read from;
  `Marker.extract_inside`: those of a comment stand in the comment.
* `Node.Inside`, `Schema.parse_inside`: the stretches of every node of a tree. -/

namespace SchemaDepot

open Position

/-- The stretch lies between two points, and does not end before it starts. -/
structure Span.Inside (s : Span) (p q : Position) : Prop where
  start : p.Reaches s.start
  filled : s.start.Reaches s.stop
  stop : s.stop.Reaches q

theorem Span.Inside.mono {s : Span} {p q p' q' : Position} (h : s.Inside p q) (hp : p'.Reaches p)
    (hq : q.Reaches q') : s.Inside p' q' := ⟨hp.trans h.start, h.filled, h.stop.trans hq⟩

theorem Span.inside_between {p q start stop : Position} (hstart : p.Reaches start)
    (hstop : start.Reaches stop) (hq : stop.Reaches q) : (Span.between start stop).Inside p q := by
  rw [Span.between_of_le hstop.le]
  exact ⟨hstart, hstop, hq⟩

theorem Position.advanceOver_reaches {xs ys : List Char} (h : xs <+: ys) (p : Position) :
    (p.advanceOver xs).Reaches (p.advanceOver ys) := by
  obtain ⟨zs, rfl⟩ := h
  exact ⟨zs, advanceOver_append p xs zs⟩

theorem Text.dropEndWhile_prefix {α : Type} (p : α → Bool) (xs : List α) :
    dropEndWhile p xs <+: xs := by
  have := List.reverse_prefix.2 (List.dropWhile_suffix (l := xs.reverse) p)
  rwa [List.reverse_reverse] at this

/-! ### Directives -/

namespace Marker

variable (m : Marker)

theorem spaceAt_prefix {cs space : List Char} (h : m.spaceAt cs = some space) : space <+: cs := by
  simp only [spaceAt] at h
  split at h
  · split_ifs at h
    cases h
    exact List.takeWhile_prefix _
  · split_ifs at h with front
    cases h
    exact List.isPrefixOf_iff_prefix.1 front

/-- The parts of a marker are the front of the text behind its at sign. -/
theorem partsAt_prefix {cs : List Char} {parts : Parts} (h : m.partsAt cs = some parts) :
    parts.head ++ parts.value <+: cs := by
  simp only [partsAt, Option.bind_eq_bind, Option.bind_eq_some_iff] at h
  obtain ⟨space, hspace, h⟩ := h
  obtain ⟨behind, rfl⟩ := m.spaceAt_prefix hspace
  rw [List.drop_left] at h
  split at h
  · next cs =>
    obtain ⟨tail, htail⟩ := List.takeWhile_prefix (l := cs) fun c => c != ':' && !Text.isBlank c
    generalize cs.takeWhile (fun c => c != ':' && !Text.isBlank c) = option at h htail
    subst htail
    rw [List.drop_left] at h
    split_ifs at h
    split at h
    · next cs =>
      have value := List.takeWhile_prefix (l := cs) fun c => c != ':' && c != '\r' && c != '\n'
      split_ifs at h
      cases h
      obtain ⟨rest, hrest⟩ := value
      refine ⟨rest, ?_⟩
      conv_rhs => rw [← hrest]
      simp
    · cases h
  · cases h

/-- A marker stands in its line; `base` is a point before it. -/
theorem find_inside {base p start sign : Position} {last : Option (Char × Position)}
    {cs : List Char} {parts : Parts} (h : m.find last p cs = some (start, sign, parts))
    (hp : base.Reaches p) (hlast : ∀ d q, last = some (d, q) → base.Reaches q ∧ q.Reaches p) :
    base.Reaches start ∧ start.Reaches sign ∧
      (sign.advanceOver ('@' :: parts.head ++ parts.value)).Reaches (p.advanceOver cs) := by
  induction cs generalizing last p with
  | nil => cases h
  | cons c cs ih =>
    unfold find at h
    dsimp only at h
    split at h
    · next parts' found =>
      -- the marker starts here, or at a second at sign right before it
      have hc : c = '@' ∧ m.partsAt cs = some parts' := by
        split_ifs at found with hc
        simp only [Bool.and_eq_true, beq_iff_eq] at hc
        exact ⟨hc.1, found⟩
      obtain ⟨rfl, hparts⟩ := hc
      have front : '@' :: parts'.head ++ parts'.value <+: '@' :: cs :=
        List.cons_prefix_cons.2 ⟨rfl, m.partsAt_prefix hparts⟩
      have here := advanceOver_reaches front p
      split at h <;> cases h
      · next q =>
        exact ⟨(hlast _ _ rfl).1, (hlast _ _ rfl).2, here⟩
      · exact ⟨hp, Reaches.rfl, here⟩
    · have step : p.Reaches (p.advance c) := ⟨[c], rfl⟩
      refine ih h (hp.trans step) ?_
      rintro d q ⟨⟩
      exact ⟨hp, step⟩

theorem ofLine_inside {p : Position} {line : List Char} {d : Directive}
    (h : m.ofLine p line = some d) : d.span.Inside p (p.advanceOver line) := by
  simp only [ofLine, Option.bind_eq_bind, Option.bind_eq_some_iff] at h
  obtain ⟨⟨start, sign, parts⟩, found, h⟩ := h
  obtain ⟨hstart, hsign, hstop⟩ := m.find_inside found Reaches.rfl (by rintro _ _ ⟨⟩)
  dsimp only at h
  split_ifs at h
  cases h
  have trimmed : '@' :: parts.head ++ Text.trimEndChars parts.value <+:
      '@' :: parts.head ++ parts.value :=
    List.prefix_append_right_inj _ |>.2 (Text.dropEndWhile_prefix _ _)
  exact Span.inside_between hstart (hsign.trans ⟨_, rfl⟩)
    ((advanceOver_reaches trimmed sign).trans hstop)

/-- **Directives stand in the lines that they are read from.** -/
theorem ofLines_inside {p : Position} {lines : List (List Char)} :
    ∀ d ∈ m.ofLines p lines, d.span.Inside p (p.advanceOver (Text.joinWith '\n' lines)) := by
  induction lines generalizing p with
  | nil => exact fun d hd => by cases hd
  | cons line lines ih =>
    have first : ∀ d ∈ (m.ofLine p line).toList, d.span.Inside p (p.advanceOver line) :=
      fun d hd => m.ofLine_inside (Option.mem_toList.1 hd)
    rw [ofLines, List.forall_mem_append]
    cases lines with
    | nil => exact ⟨first, fun d hd => (by cases hd)⟩
    | cons next lines =>
      rw [Text.joinWith, advanceOver_append]
      · exact ⟨fun d hd => (first d hd).mono Reaches.rfl ⟨_, rfl⟩,
          fun d hd => (ih d hd).mono ⟨line ++ ['\n'], by rw [advanceOver_append]; rfl⟩ Reaches.rfl⟩
      · exact List.cons_ne_nil _ _

/-- The first piece of a text is its front. -/
theorem joinWith_take_prefix (cs : List Char) :
    Text.joinWith '\n' ((Text.splitAt '\n' cs).take 1) <+: cs := by
  have whole := Text.joinWith_splitAt '\n' cs
  cases hs : Text.splitAt '\n' cs with
  | nil => exact absurd hs (Text.splitAt_ne_nil _ _)
  | cons piece pieces =>
    rw [hs] at whole
    cases pieces with
    | nil => exact whole ▸ List.prefix_refl _
    | cons next pieces => exact ⟨'\n' :: Text.joinWith '\n' (next :: pieces), whole⟩

/-- **Directives stand in the comment that they are read from**, if its text stands behind two
characters there. -/
theorem extract_inside {c : Comment} {mark : Char} (hmark : mark = '/' ∨ mark = '*')
    {tail : List Char}
    (hstop : c.span.stop = c.span.start.advanceOver ('/' :: mark :: c.text.toList ++ tail)) :
    ∀ d ∈ m.extract c, d.span.Inside c.span.start c.span.stop := by
  have behind : c.span.start.advanceOver ['/', mark] =
      ⟨c.span.start.line, c.span.start.column + 2, c.span.start.offset + 2⟩ := by
    rcases hmark with rfl | rfl <;> rfl
  have text : (c.span.start.advanceOver ['/', mark]).advanceOver c.text.toList |>.Reaches
      c.span.stop := by
    rw [hstop, ← advanceOver_append]
    exact ⟨tail, advanceOver_append _ _ _⟩
  intro d hd
  rw [extract, ← behind] at hd
  have inside := m.ofLines_inside d hd
  refine inside.mono ⟨_, rfl⟩ ((advanceOver_reaches ?_ _).trans text)
  cases c.kind with
  | line => exact joinWith_take_prefix _
  | block => exact Text.joinWith_splitAt '\n' _ ▸ List.prefix_refl _

end Marker

/-! ### Comments -/

namespace Token

/-- Every token of a text is a lexeme that was read there. -/
theorem scanFrom_lexemes {p : Position} {cs : List Char} {ts : List Token} {final : Position}
    (h : scanFrom p cs = .ok (ts, final)) :
    ∀ t ∈ ts, ∃ q body lexeme, Lexeme.read body = .ok lexeme ∧ t = ofLexeme q lexeme := by
  induction hn : cs.length using Nat.strongRecOn generalizing p cs ts with
  | ind n ih =>
    rcases scanFrom_cases h with ⟨-, rfl, -⟩ | ⟨lexeme, us, -, hread, hlt, hus, rfl⟩
    · exact fun t ht => by cases ht
    · exact List.forall_mem_cons.2
        ⟨⟨_, _, lexeme, hread, rfl⟩, ih lexeme.rest.length (by omega) hus rfl⟩

theorem scan_lexemes {text : String} {ts : List Token} {final : Position}
    (h : scan text = .ok (ts, final)) :
    ∀ t ∈ ts, ∃ q body lexeme, Lexeme.read body = .ok lexeme ∧ t = ofLexeme q lexeme := by
  obtain ⟨p, cs, -, -, hscan⟩ := scan_from text
  exact scanFrom_lexemes (hscan ▸ h)

theorem numeralKind_isComment {cs : List Char} {kind : TokenKind}
    (h : Lexeme.numeralKind cs = some kind) : kind.isComment = false := by
  unfold Lexeme.numeralKind at h
  split at h <;> split_ifs at h <;> cases h <;> rfl

theorem comment?_text {t : Token} {c : Comment} (h : t.comment? = some c) : c.text = t.text := by
  unfold comment? at h
  split at h <;> cases h <;> rfl

theorem ofLexeme_span (p : Position) (lexeme : Taken (TokenKind × String)) :
    (ofLexeme p lexeme).span = ⟨p, p.advanceOver lexeme.source⟩ :=
  Span.between_of_le (Reaches.le ⟨_, rfl⟩)

/-- The text of a comment stands behind the two characters that open it. -/
theorem comment_source {body : List Char} {lexeme : Taken (TokenKind × String)}
    (h : Lexeme.read body = .ok lexeme) (hc : lexeme.value.1.isComment = true) :
    ∃ mark tail, (mark = '/' ∨ mark = '*') ∧
      lexeme.source = '/' :: mark :: lexeme.value.2.toList ++ tail := by
  unfold Lexeme.read at h
  split at h
  · cases h
  · next cs =>
    obtain ⟨tail, htail⟩ := Text.dropEndWhile_prefix (· == '\r') (cs.takeWhile (· != '\n'))
    cases h
    refine ⟨'/', tail, Or.inl rfl, ?_⟩
    simp only [String.toList_ofList, List.cons_append, htail]
  · split at h
    · cases h
      refine ⟨'*', ['*', '/'], Or.inr rfl, ?_⟩
      simp only [String.toList_ofList]
    · cases h
  · -- no other lexeme is a comment
    split at h
    · obtain ⟨t, -, rfl⟩ := Lexeme.map_ok h
      cases hc
    split at h
    · dsimp only at h
      split at h
      · next kind hkind =>
        cases h
        rw [numeralKind_isComment hkind] at hc
        cases hc
      · cases h
    split at h
    · cases h
      cases hc
    split at h
    · cases h
      cases hc
    · cases h

end Token

/-! ### Trees -/

/-- The stretch lies between the start and the end of a text. -/
def Span.Within (text : String) (s : Span) : Prop := s.start.Within text ∧ s.stop.Within text

theorem Span.Inside.within {text : String} {s : Span} {p q : Position} (h : s.Inside p q)
    (hp : p.Within text) (hq : q.Within text) : s.Within text :=
  ⟨⟨hp.1.trans h.start, (h.filled.trans h.stop).trans hq.2⟩,
    (hp.1.trans h.start).trans h.filled, h.stop.trans hq.2⟩

/-- The stretch of the node and those of the comments and directives at it lie in a text. -/
structure Node.Within (text : String) (n : Node) : Prop where
  span : n.span.Within text
  comments : ∀ c ∈ n.ownComments, c.span.Within text
  directives : ∀ d ∈ n.ownDirectives, d.span.Within text

namespace Schema

open Token Placement

variable {text : String} {ts : List Token} {final : Position} (hscan : scan text = .ok (ts, final))
include hscan

/-- A comment of a text and the directives in it lie in the text, wherever it is placed. -/
theorem note_within_text (m : Marker) {x : Note} (hx : x ∈ Note.ofTokens none ts)
    (placement : SchemaDepot.Placement) : (put placement x).span.Within text ∧
      ∀ d ∈ m.extract (put placement x), d.span.Within text := by
  obtain ⟨t, ht, hc⟩ := Note.mem_ofTokens hx
  obtain ⟨hkind, hspan, -⟩ := comment?_eq_some hc
  have hspan : (put placement x).span = t.span := hspan
  have htext : x.comment.text = t.text := comment?_text hc
  have within : (put placement x).span.Within text := hspan ▸ scan_within hscan t ht
  obtain ⟨q, body, lexeme, hread, rfl⟩ := scan_lexemes hscan t ht
  obtain ⟨mark, tail, hmark, hsource⟩ := comment_source hread hkind
  have hstop : (put placement x).span.stop = (put placement x).span.start.advanceOver
      ('/' :: mark :: (put placement x).text.toList ++ tail) := by
    rw [hspan, ofLexeme_span, show (put placement x).text = _ from htext, hsource]
    rfl
  exact ⟨within, fun d hd => (m.extract_inside hmark hstop d hd).within within.1 within.2⟩

/-- What is placed on declarations lies in the text, as they do. -/
theorem placedIn_within (m : Marker) {nodes : List Node}
    (hrow : Grammar.Row (significant ts) nodes) :
    ∀ n ∈ Node.walks (placedIn m ts nodes).1, n.Within text := by
  intro n hn
  have hd := (placedIn_start m hrow hn).1
  obtain ⟨n', hn', -, hspan⟩ := exists_of_mem_placedIn m hn
  obtain ⟨lead, trail, hsub, hcomments, -, -, hdirectives⟩ := placeAll_dressed m _ nodes n hn
  have notes : ∀ c ∈ n.comments, c.span.Within text ∧ ∀ d ∈ m.extract c, d.span.Within text := by
    rw [hcomments, List.forall_mem_append, List.forall_mem_map, List.forall_mem_map]
    exact ⟨fun x hx => note_within_text hscan m (hsub.subset (List.mem_append_left _ hx)) _,
      fun x hx => note_within_text hscan m (hsub.subset (List.mem_append_right _ hx)) _⟩
  refine ⟨hspan ▸ hrow.forall_points (fun t ht => scan_within hscan t (List.mem_of_mem_filter ht))
    n' hn', ?_, ?_⟩
  · rw [Node.ownComments_of_isDeclaration hd]
    exact fun c hc => (notes c hc).1
  · rw [Node.ownDirectives_of_isDeclaration hd, hdirectives]
    intro d hd
    obtain ⟨c, hc, hd⟩ := List.mem_flatMap.1 hd
    exact (notes c hc).2 d hd

omit hscan in
/-- **Everything in the tree of a text lies in the text**: every node, and the comments and
directives at it. -/
theorem parse_within {m : Marker} {root : Node} (h : parse m text = .ok root) :
    ∀ n ∈ root.walk, n.Within text := by
  obtain ⟨ts, final, nodes, hscan, hrow, rfl⟩ := parse_ok h
  rw [walk_document, List.forall_mem_cons, List.forall_mem_append]
  refine ⟨⟨?_, fun c hc => (by cases hc), fun d hd => (by cases hd)⟩,
    placedIn_within hscan m hrow, ?_⟩
  · have reached : Position.origin.Reaches final := ⟨_, scan_final hscan⟩
    show (Span.between Position.origin final).Within text
    rw [Span.between_of_le reached.le, scan_final hscan]
    exact ⟨⟨Reaches.rfl, _, rfl⟩, ⟨_, rfl⟩, Reaches.rfl⟩
  · intro n hn
    obtain ⟨c, hc, hn⟩ := List.mem_flatMap.1 hn
    obtain ⟨x, hx, rfl⟩ := List.mem_map.1 hc
    have note := note_within_text hscan m ((placeAll_sublist m _ nodes).subset hx) .detached
    rcases List.mem_cons.1 hn with rfl | hn
    · exact ⟨note.1, List.forall_mem_singleton.2 note.1, fun d hd => (by cases hd)⟩
    · obtain ⟨d, hd, rfl⟩ := List.mem_map.1 hn
      exact ⟨note.2 d hd, fun c hc => (by cases hc),
        List.forall_mem_singleton.2 (note.2 d hd)⟩

end Schema

end SchemaDepot
