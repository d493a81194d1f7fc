import SchemaDepot.Proofs.Schema.Order

/-! # Trailing comments

A comment trails a declaration exactly if it starts on the line on which that ends, with nothing
but comments between.

* `Note.mem_ofTokens_iff`: which token a note of a text follows.
* `Note.InOrder`: notes as a text has them; `Placement.mem_trailingAt`: of these, all that trail a
  declaration are taken for it.
* `Placement.placeAll_trailing`: a note that trails a declaration is put on it.
* `Token.Behind`: where among tokens a comment stands; `Schema.parse_trailing`: which comments trail
  a declaration. -/

namespace SchemaDepot

open Position

namespace Token

theorem comment?_eq_none {t : Token} (h : t.isComment = false) : t.comment? = none := by
  cases ht : t.comment? with
  | none => rfl
  | some c =>
    rw [(comment?_eq_some ht).1] at h
    cases h

theorem exists_comment {t : Token} (h : t.isComment = true) : ∃ c, t.comment? = some c := by
  unfold comment?
  split
  · exact ⟨_, rfl⟩
  · exact ⟨_, rfl⟩
  · next line block =>
    unfold isComment TokenKind.isComment at h
    split at h
    · next hk => exact absurd hk line
    · next hk => exact absurd hk block
    · cases h

end Token

namespace Note

open Token

/-! ### What a note follows -/

theorem mem_ofTokens_of_comments {last : Option Position} {between after : List Token} {own : Token}
    {c : Comment} (hbetween : ∀ t ∈ between, t.isComment = true) (hown : own.comment? = some c) :
    ⟨c, last⟩ ∈ ofTokens last (between ++ own :: after) := by
  induction between with
  | nil =>
    rw [List.nil_append, ofTokens, hown]
    exact List.mem_cons_self
  | cons t between ih =>
    obtain ⟨ht, hbetween⟩ := List.forall_mem_cons.1 hbetween
    obtain ⟨d, hd⟩ := exists_comment ht
    rw [List.cons_append, ofTokens, hd]
    exact List.mem_cons_of_mem _ (ih hbetween)

theorem mem_ofTokens_append {x : Note} {t : Token} (ht : t.isComment = false) {after : List Token}
    (hx : x ∈ ofTokens (some t.span.stop) after) (before : List Token) (last : Option Position) :
    x ∈ ofTokens last (before ++ t :: after) := by
  induction before generalizing last with
  | nil =>
    rw [List.nil_append, ofTokens, comment?_eq_none ht]
    exact hx
  | cons u before ih =>
    rw [List.cons_append, ofTokens]
    split
    · exact List.mem_cons_of_mem _ (ih _)
    · exact ih _

/-- The note of a comment follows what is before the tokens, or one of the significant ones. -/
theorem exists_of_mem_ofTokens {last : Option Position} {ts : List Token} {x : Note}
    (hx : x ∈ ofTokens last ts) :
    (∃ between own after, ts = between ++ own :: after ∧ x.follows = last ∧
      (∀ t ∈ between, t.isComment = true) ∧ own.comment? = some x.comment) ∨
    ∃ before t between own after, ts = before ++ t :: between ++ own :: after ∧
      t.isComment = false ∧ x.follows = some t.span.stop ∧
        (∀ u ∈ between, u.isComment = true) ∧ own.comment? = some x.comment := by
  induction ts generalizing last with
  | nil => exact absurd hx List.not_mem_nil
  | cons t ts ih =>
    rw [ofTokens] at hx
    cases ht : t.comment? with
    | some c =>
      simp only [ht, List.mem_cons] at hx
      have comment := (comment?_eq_some ht).1
      rcases hx with rfl | hx
      · exact Or.inl ⟨[], t, ts, rfl, rfl, fun u hu => absurd hu List.not_mem_nil, ht⟩
      · rcases ih hx with ⟨between, own, after, rfl, hlast, hbetween, hown⟩ |
          ⟨before, u, between, own, after, rfl, hu⟩
        · exact Or.inl ⟨t :: between, own, after, rfl, hlast,
            List.forall_mem_cons.2 ⟨comment, hbetween⟩, hown⟩
        · exact Or.inr ⟨t :: before, u, between, own, after, rfl, hu⟩
    | none =>
      simp only [ht] at hx
      have significant : t.isComment = false := by
        by_contra hc
        obtain ⟨c, hc⟩ := exists_comment (Bool.not_eq_false _ ▸ hc)
        rw [ht] at hc
        cases hc
      rcases ih hx with ⟨between, own, after, rfl, hlast, hbetween, hown⟩ |
        ⟨before, u, between, own, after, rfl, hu⟩
      · exact Or.inr ⟨[], t, between, own, after, rfl, significant, hlast, hbetween, hown⟩
      · exact Or.inr ⟨t :: before, u, between, own, after, rfl, hu⟩

/-- **The note of a comment follows the significant token before it**, if there is one. -/
theorem mem_ofTokens_iff {ts : List Token} {c : Comment} {p : Position} :
    ⟨c, some p⟩ ∈ ofTokens none ts ↔ ∃ before t between own after,
      ts = before ++ t :: between ++ own :: after ∧ t.isComment = false ∧ t.span.stop = p ∧
        (∀ u ∈ between, u.isComment = true) ∧ own.comment? = some c := by
  constructor
  · intro h
    rcases exists_of_mem_ofTokens h with ⟨-, -, -, -, hnone, -⟩ |
      ⟨before, t, between, own, after, hts, significant, hp, hbetween, hown⟩
    · cases hnone
    · exact ⟨before, t, between, own, after, hts, significant, (Option.some.inj hp).symm, hbetween,
        hown⟩
  · rintro ⟨before, t, between, own, after, rfl, significant, rfl, hbetween, hown⟩
    rw [List.append_assoc, List.cons_append]
    exact mem_ofTokens_append significant (mem_ofTokens_of_comments hbetween hown) before none

/-! ### Notes in order -/

/-- Notes as a text has them: each starts behind the one before it, none before the token that it
follows, and if a note trails a point then so do all before it that start behind that point. -/
structure InOrder (pool : List Note) : Prop where
  starts : pool.Pairwise fun x y => x.comment.span.start.offset < y.comment.span.start.offset
  behind : ∀ x ∈ pool, ∀ p, x.follows = some p → p.offset ≤ x.comment.span.start.offset
  trails : pool.Pairwise fun x y => ∀ p, y.trails p = true → x.startsBefore p = false →
    x.trails p = true

theorem InOrder.sublist {pool pool' : List Note} (h : InOrder pool) (hs : pool'.Sublist pool) :
    InOrder pool' :=
  ⟨h.starts.sublist hs, fun x hx => h.behind x (hs.subset hx), h.trails.sublist hs⟩

theorem trails_iff {x : Note} {p : Position} :
    x.trails p = true ↔ x.follows = some p ∧ x.comment.span.start.line = p.line := by
  simp only [trails, Bool.and_eq_true, beq_iff_eq]

theorem startsBefore_eq_false {x : Note} {p : Position} :
    x.startsBefore p = false ↔ p.offset ≤ x.comment.span.start.offset := by
  simp only [startsBefore, decide_eq_false_iff_not, Nat.not_lt]

theorem InOrder.not_startsBefore {pool : List Note} (h : InOrder pool) {x : Note} (hx : x ∈ pool)
    {p : Position} (htrails : x.trails p = true) : x.startsBefore p = false :=
  startsBefore_eq_false.2 (h.behind x hx p (trails_iff.1 htrails).1)

/-- If a note trails a point then so does every note between. -/
theorem ofTokens_trails {ts : List Token} (h : Token.InOrder ts) {last : Option Position}
    (hlast : ∀ p, last = some p → ∀ t ∈ ts, p.Reaches t.span.start) :
    (ofTokens last ts).Pairwise fun x y => ∀ p, y.trails p = true → x.startsBefore p = false →
      x.trails p = true := by
  induction ts generalizing last with
  | nil => exact .nil
  | cons t ts ih =>
    obtain ⟨behind, -⟩ := List.pairwise_cons.1 h.apart
    rw [ofTokens]
    cases ht : t.comment? with
    | none => exact ih h.tail fun p hp => by cases hp; exact behind
    | some c =>
      have tail := ih h.tail fun p hp u hu => hlast p hp u (List.mem_cons_of_mem t hu)
      refine List.pairwise_cons.2 ⟨fun y hy p hy' hb => ?_, tail⟩
      obtain ⟨hfollows, hline⟩ := trails_iff.1 hy'
      have hspan := (comment?_eq_some ht).2.1
      have filled := h.filled t List.mem_cons_self
      rcases exists_of_mem_ofTokens hy with ⟨between, own, after, hts, hp, -, hown⟩ |
        ⟨before, u, between, own, after, hts, -, hu, -⟩
      · -- both follow `p`, and the line of the first lies between that of `p` and of the second
        have hown' : own ∈ ts := hts ▸ List.mem_append_right _ List.mem_cons_self
        rw [hfollows] at hp
        refine trails_iff.2 ⟨hp.symm, ?_⟩
        have front := le_iff.1 (hlast p hp.symm t List.mem_cons_self).le
        have back := le_iff.1 (filled.reaches.trans (behind own hown')).le
        rw [← (comment?_eq_some hown).2.1] at back
        rw [hspan]
        omega
      · -- the second follows a token that stands behind the first
        have hu' : u ∈ ts := by
          rw [hts]
          exact List.mem_append_left _ (List.mem_append_right _ List.mem_cons_self)
        rw [hfollows] at hu
        cases hu
        have hb := startsBefore_eq_false.1 hb
        rw [hspan] at hb
        have := (filled.reaches.trans (behind u hu')).offset_le
        have := (h.filled u (List.mem_cons_of_mem t hu')).offset_lt
        omega

/-- **The notes of a text are in order.** -/
theorem ofTokens_inOrder {ts : List Token} (h : Token.InOrder ts) : InOrder (ofTokens none ts) :=
  ⟨ofTokens_pairwise h none,
    fun _ hx _ hp => (follows_reaches h (fun p hp => by cases hp) hx hp).offset_le,
    ofTokens_trails h fun p hp => by cases hp⟩

end Note

namespace Placement

variable (m : Marker)

/-! ### What is taken and what is left -/

theorem mem_dropWhile_of_neg {pool : List Note} {q : Note → Bool} {x : Note} (hx : x ∈ pool)
    (hq : q x = false) : x ∈ pool.dropWhile q := by
  rw [← List.takeWhile_append_dropWhile (p := q) (l := pool)] at hx
  refine (List.mem_append.1 hx).resolve_left fun hx => ?_
  rw [List.mem_takeWhile_imp hx] at hq
  cases hq

theorem mem_notTrailingAt {pool : List Note} {x : Note} {p : Position} (hx : x ∈ pool)
    (hp : x.trails p = false) : x ∈ notTrailingAt p pool := by
  rw [← List.takeWhile_append_dropWhile (p := (·.startsBefore p)) (l := pool)] at hx
  exact List.mem_append.2 ((List.mem_append.1 hx).imp_right fun hx => mem_dropWhile_of_neg hx hp)

/-- All notes that trail a point are taken for it. -/
theorem mem_trailingAt {pool : List Note} (h : Note.InOrder pool) {x : Note} (hx : x ∈ pool)
    {p : Position} (hp : x.trails p = true) : x ∈ trailingAt p pool := by
  have behind : ∀ y ∈ pool.dropWhile (·.startsBefore p), ¬ y.startsBefore p :=
    fun y hy => not_startsBefore_of_mem_dropWhile h.starts hy
  have convex := h.trails.sublist (List.dropWhile_sublist (·.startsBefore p))
  have hmem := mem_dropWhile_of_neg hx (h.not_startsBefore hx hp)
  unfold trailingAt
  generalize pool.dropWhile (·.startsBefore p) = rest at behind convex hmem
  induction rest with
  | nil => exact absurd hmem List.not_mem_nil
  | cons y rest ih =>
    obtain ⟨hy, convex⟩ := List.pairwise_cons.1 convex
    rcases List.mem_cons.1 hmem with rfl | hmem
    · rw [List.takeWhile_cons_of_pos hp]
      exact List.mem_cons_self
    · rw [List.takeWhile_cons_of_pos
        (hy x hmem p hp (Bool.eq_false_iff.2 (behind y List.mem_cons_self)))]
      exact List.mem_cons_of_mem _
        (ih (fun z hz => behind z (List.mem_cons_of_mem _ hz)) convex hmem)

/-- A note that belongs to no node of a row is left over. -/
theorem mem_placeAll_left {ns : List Node} {pool : List Note} {x : Note} (hx : x ∈ pool)
    (h : ∀ n ∈ Node.walks ns, x.startsBefore n.span.start = false ∧ x.trails n.span.stop = false) :
    x ∈ (placeAll m pool ns).2 := by
  induction ns using Node.rowInduction generalizing pool with
  | nil => exact hx
  | cons content span cs ds children ns ihc ihn =>
    simp only [Node.walks_cons, Node.walk_eq, List.cons_append, List.forall_mem_cons,
      List.forall_mem_append] at h
    obtain ⟨⟨hstart, hstop⟩, hchildren, hns⟩ := h
    rw [placeAll_cons]
    exact ihn (mem_notTrailingAt (ihc (mem_dropWhile_of_neg hx hstart) hchildren) hstop) hns

/-- **A note that trails a node is put on it.** -/
theorem placeAll_trailing {lo hi : Nat} {ns : List Node} (h : Node.InOrder lo hi ns)
    {pool : List Note} (hpool : Note.InOrder pool) {x : Note} (hx : x ∈ pool) :
    ∀ n ∈ Node.walks ns, x.trails n.span.stop = true → ∃ n' ∈ Node.walks (placeAll m pool ns).1,
      n'.span = n.span ∧ put .trailing x ∈ n'.comments := by
  induction h generalizing pool with
  | nil => exact fun n hn => absurd hn List.not_mem_nil
  | @cons lo hi n ns start filled stop below rest ihb ihr =>
    obtain ⟨content, span, cs, ds, children⟩ := n
    dsimp only at start filled stop below rest ihb
    intro n hn htrails
    have hpoint := hpool.behind x hx _ (Note.trails_iff.1 htrails).1
    -- a node that ends elsewhere is not trailed
    have other {q : Position} (hq : q.offset ≠ n.span.stop.offset) : x.trails q = false := by
      refine Bool.eq_false_iff.2 fun hxq => hq ?_
      have := (Note.trails_iff.1 htrails).1.symm.trans (Note.trails_iff.1 hxq).1
      rw [Option.some.inj this]
    have hsub : (pool.dropWhile (·.startsBefore span.start)).Sublist pool :=
      List.dropWhile_sublist _
    have hleft :=
      (placeAll_sublist m (pool.dropWhile (·.startsBefore span.start)) children).trans hsub
    have passed (hle : span.start.offset ≤ n.span.stop.offset) :
        x ∈ pool.dropWhile (·.startsBefore span.start) :=
      mem_dropWhile_of_neg hx (Note.startsBefore_eq_false (p := span.start).2 (hle.trans hpoint))
    have kept (hle : span.stop.offset ≤ n.span.stop.offset) :
        x ∈ (placeAll m (pool.dropWhile (·.startsBefore span.start)) children).2 := by
      refine mem_placeAll_left m (passed (by omega)) fun k hk => ?_
      have := below.bounds k hk
      exact ⟨Note.startsBefore_eq_false.2 (by omega), other (by omega)⟩
    rw [placeAll_cons]
    simp only [Node.walks_cons, Node.walk_eq, List.cons_append, List.mem_cons,
      List.mem_append] at hn ⊢
    rcases hn with rfl | hn | hn
    · exact ⟨_, Or.inl rfl, rfl, List.mem_append_right _
        (List.mem_map_of_mem (mem_trailingAt (hpool.sublist hleft) (kept le_rfl) htrails))⟩
    · have := below.bounds n hn
      obtain ⟨n', hn', hspan, hc⟩ := ihb (hpool.sublist hsub) (passed (by omega)) n hn htrails
      exact ⟨n', Or.inr (Or.inl hn'), hspan, hc⟩
    · have := rest.bounds n hn
      have untouched : x.trails span.stop = false := other (by omega)
      obtain ⟨n', hn', hspan, hc⟩ := ihr (hpool.sublist ((notTrailingAt_sublist _ _).trans hleft))
        (mem_notTrailingAt (kept (by omega)) untouched) n hn htrails
      exact ⟨n', Or.inr (Or.inr hn'), hspan, hc⟩

end Placement

/-! ### Texts -/

/-- The comment starts on the line on which the significant token that ends at `p` does, behind it,
and only tokens of which `fill` holds stand between. -/
def Token.Behind (fill : Token → Bool) (ts : List Token) (p : Position) (c : Comment) : Prop :=
  ∃ before last between own after, ts = before ++ last :: between ++ own :: after ∧
    last.isComment = false ∧ last.span.stop = p ∧ (∀ t ∈ between, fill t = true) ∧
      own.comment? = some c ∧ c.span.start.line = p.line

theorem Token.behind_iff {ts : List Token} {p : Position} {c : Comment} :
    Behind isComment ts p c ↔ ∃ x ∈ Note.ofTokens none ts, x.comment = c ∧ x.trails p = true := by
  constructor
  · rintro ⟨before, last, between, own, after, hts, hlast, hp, hbetween, hown, hline⟩
    exact ⟨⟨c, some p⟩, Note.mem_ofTokens_iff.2
      ⟨before, last, between, own, after, hts, hlast, hp, hbetween, hown⟩, rfl,
      Note.trails_iff.2 ⟨rfl, hline⟩⟩
  · rintro ⟨⟨c, follows⟩, hx, rfl, htrails⟩
    obtain ⟨rfl, hline⟩ := Note.trails_iff.1 htrails
    obtain ⟨before, last, between, own, after, hts, hlast, hp, hbetween, hown⟩ :=
      Note.mem_ofTokens_iff.1 hx
    exact ⟨before, last, between, own, after, hts, hlast, hp, hbetween, hown, hline⟩

namespace Schema

open Token Placement

section Document
variable {text : String} {ts : List Token} {final : Position} {nodes : List Node}
  (hscan : scan text = .ok (ts, final)) (hrow : Grammar.Row (significant ts) nodes) (m : Marker)
include hscan hrow

/-- The comment of a note is put on a declaration as trailing exactly if the note trails it. -/
theorem trailing_mem_iff {n : Node} (hn : n ∈ Node.walks (placedIn m ts nodes).1) {c : Comment}
    (hc : c ∈ comments ts) :
    c.placed .trailing ∈ n.comments ↔ Behind isComment ts n.span.stop c := by
  rw [behind_iff]
  obtain ⟨t, -, ht⟩ := mem_comments.1 hc
  constructor
  · intro hmem
    obtain ⟨lead, trail, hsub, hcomments, -, htrail, -⟩ := placeAll_dressed m _ nodes n hn
    rw [hcomments] at hmem
    rcases List.mem_append.1 hmem with hmem | hmem
    · obtain ⟨x, -, hx⟩ := List.mem_map.1 hmem
      exact absurd (congrArg Comment.placement hx) (by simp [put, Comment.placed])
    · obtain ⟨x, hx, hput⟩ := List.mem_map.1 hmem
      have hpool := hsub.subset (List.mem_append_right lead hx)
      obtain ⟨u, -, hu⟩ := Note.mem_ofTokens hpool
      refine ⟨x, hpool, ?_, htrail x hx⟩
      calc x.comment = x.comment.unplaced := (comment?_eq_some hu).2.2.symm
        _ = c.unplaced := (congrArg Comment.unplaced hput :
          (put .trailing x).unplaced = (c.placed .trailing).unplaced)
        _ = c := (comment?_eq_some ht).2.2
  · rintro ⟨x, hx, rfl, htrails⟩
    obtain ⟨k, hk, -, hspan⟩ := exists_of_mem_placedIn m hn
    obtain ⟨n', hn', hspan', hmem⟩ := placeAll_trailing m (nodes_inOrder hscan hrow)
      (Note.ofTokens_inOrder (scan_inOrder hscan)) hx k hk (hspan ▸ htrails)
    -- no other declaration ends where this one does
    rcases (placedIn_inOrder hscan hrow m).eq_or_lt hn hn' with rfl | ⟨hne, -⟩
    · exact hmem
    · exact absurd (by rw [hspan', hspan]) hne

end Document

/-- **Which comments trail a declaration**: those that start on the line on which it ends, with
nothing but comments between. Their directives are among those of the declaration. -/
theorem parse_trailing {m : Marker} {text : String} {root : Node} {ts : List Token}
    {final : Position} (h : parse m text = .ok root) (hscan : scan text = .ok (ts, final)) :
    ∀ n ∈ root.allDeclarations, ∀ c ∈ comments ts,
      (c.placed .trailing ∈ n.comments ↔ Behind isComment ts n.span.stop c) ∧
        (c.placed .trailing ∈ n.comments → ∀ d ∈ m.extract c, d ∈ n.directives) := by
  obtain ⟨us, last, nodes, hscan', hrow, rfl⟩ := parse_ok h
  rw [hscan] at hscan'
  cases hscan'
  rw [allDeclarations_document hrow]
  intro n hn c hc
  refine ⟨trailing_mem_iff hscan hrow m hn hc, fun hmem d hd => ?_⟩
  rw [(placeAll_dressed m _ nodes n hn).directives_eq]
  exact List.mem_flatMap.2 ⟨_, hmem, hd⟩

/-- A message with a comment behind its end, and one with a comment behind a semicolon. -/
def strayText : String := "message A \x7b\x7d // a\nmessage B \x7b\x7d; // @a:b:c"

/-- The comment behind the end of the first message. -/
def firstStray : Comment := ⟨.line, .leading, " a", ⟨⟨1, 14, 13⟩, ⟨1, 18, 17⟩⟩⟩

/-- The comment behind the semicolon. -/
def lastStray : Comment := ⟨.line, .leading, " @a:b:c", ⟨⟨2, 15, 32⟩, ⟨2, 24, 41⟩⟩⟩

/-- The tokens of `strayText`. -/
def strayTokens : List Token :=
  [⟨.word, "message", ⟨⟨1, 1, 0⟩, ⟨1, 8, 7⟩⟩⟩, ⟨.word, "A", ⟨⟨1, 9, 8⟩, ⟨1, 10, 9⟩⟩⟩,
    ⟨.symbol '{', "\x7b", ⟨⟨1, 11, 10⟩, ⟨1, 12, 11⟩⟩⟩,
    ⟨.symbol '}', "\x7d", ⟨⟨1, 12, 11⟩, ⟨1, 13, 12⟩⟩⟩,
    ⟨.lineComment, " a", ⟨⟨1, 14, 13⟩, ⟨1, 18, 17⟩⟩⟩,
    ⟨.word, "message", ⟨⟨2, 1, 18⟩, ⟨2, 8, 25⟩⟩⟩, ⟨.word, "B", ⟨⟨2, 9, 26⟩, ⟨2, 10, 27⟩⟩⟩,
    ⟨.symbol '{', "\x7b", ⟨⟨2, 11, 28⟩, ⟨2, 12, 29⟩⟩⟩,
    ⟨.symbol '}', "\x7d", ⟨⟨2, 12, 29⟩, ⟨2, 13, 30⟩⟩⟩,
    ⟨.symbol ';', ";", ⟨⟨2, 13, 30⟩, ⟨2, 14, 31⟩⟩⟩,
    ⟨.lineComment, " @a:b:c", ⟨⟨2, 15, 32⟩, ⟨2, 24, 41⟩⟩⟩]

theorem scan_strayText : scan strayText = .ok (strayTokens, ⟨2, 24, 41⟩) := by
  decide +kernel

theorem exists_parse_strayText : ∃ root, parse {} strayText = .ok root ∧
    root.allDeclarations.map (fun n => (n.span.stop, n.comments)) =
      [(⟨1, 13, 12⟩, [firstStray.placed .trailing]), (⟨2, 13, 30⟩, [])] :=
  exists_parse (by decide +kernel)

theorem trailing_strayText : ∃ root, parse {} strayText = .ok root ∧
    scan strayText = .ok (strayTokens, ⟨2, 24, 41⟩) ∧ ∃ n ∈ root.allDeclarations,
      firstStray ∈ comments strayTokens ∧ Behind isComment strayTokens n.span.stop firstStray ∧
        (firstStray.placed .trailing ∈ n.comments ↔
          Behind isComment strayTokens n.span.stop firstStray) ∧
        (firstStray.placed .trailing ∈ n.comments →
          ∀ d ∈ Marker.extract {} firstStray, d ∈ n.directives) := by
  obtain ⟨root, hp, hroot⟩ := exists_parse_strayText
  obtain ⟨n, hn, hstop⟩ : ∃ n ∈ root.allDeclarations,
      (n.span.stop, n.comments) = (⟨1, 13, 12⟩, [firstStray.placed .trailing]) :=
    List.mem_map.1 (hroot ▸ List.mem_cons_self)
  have hc : firstStray ∈ comments strayTokens := by decide +kernel
  have hbehind : Behind isComment strayTokens n.span.stop firstStray := by
    rw [(Prod.mk.inj hstop).1]
    exact ⟨strayTokens.take 3, _, [], _, strayTokens.drop 5, rfl, rfl, rfl,
      fun t ht => absurd ht List.not_mem_nil, rfl, rfl⟩
  exact ⟨root, hp, scan_strayText, n, hn, hc, hbehind,
    parse_trailing hp scan_strayText n hn firstStray hc⟩

/-- **A comment behind a semicolon does not trail the declaration before that.** -/
theorem exists_not_trailing : ¬ ∀ (m : Marker) (text : String) (root : Node) (ts : List Token)
    (final : Position), parse m text = .ok root → scan text = .ok (ts, final) →
      ∀ n ∈ root.allDeclarations, ∀ c ∈ comments ts,
        Behind (fun t => t.isComment || Reader.isSymbol ';' t) ts n.span.stop c →
          c.placed .trailing ∈ n.comments ∧ ∀ d ∈ m.extract c, d ∈ n.directives := by
  intro h
  obtain ⟨root, hp, hroot⟩ := exists_parse_strayText
  obtain ⟨n, hn, hstop⟩ : ∃ n ∈ root.allDeclarations,
      (n.span.stop, n.comments) = (⟨2, 13, 30⟩, []) :=
    List.mem_map.1 (hroot ▸ List.mem_cons_of_mem _ List.mem_cons_self)
  have hbehind : Behind (fun t => t.isComment || Reader.isSymbol ';' t) strayTokens n.span.stop
      lastStray := by
    rw [(Prod.mk.inj hstop).1]
    exact ⟨strayTokens.take 8, _, [⟨.symbol ';', ";", ⟨⟨2, 13, 30⟩, ⟨2, 14, 31⟩⟩⟩], _, [],
      rfl, rfl, rfl, by decide, rfl, rfl⟩
  have trailing := (h _ _ _ _ _ hp scan_strayText n hn lastStray (by decide +kernel) hbehind).1
  rw [(Prod.mk.inj hstop).2] at trailing
  exact absurd trailing List.not_mem_nil

end Schema

end SchemaDepot
