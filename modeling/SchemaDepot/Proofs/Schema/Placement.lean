import Mathlib.Data.List.Perm.Basic
import Mathlib.Data.List.TakeWhile
import SchemaDepot.Proofs.Schema.Walk
import SchemaDepot.Schema.Placement

/-! # Placing keeps every comment once

What `placeAll` does to a pool of notes, for any row of trees.

* `placeAll_perm`: the comments on the nodes and those left over are those of the pool.
* `Dressed`: what a node carries; `placeAll_dressed`: every node is dressed from the pool.
* `placeAll_outline`: contents and spans stay as they are.
* `not_startsBefore_of_left`: no node starts behind a note that is left over. -/

namespace SchemaDepot

/-- The comment as it is before it is placed. -/
def Comment.unplaced (c : Comment) : Comment := { c with placement := .leading }

namespace Placement

variable (m : Marker)

@[simp] theorem put_unplaced (placement : SchemaDepot.Placement) (n : Note) :
    (put placement n).unplaced = n.comment.unplaced := rfl

/-- The comments of a node: those of the pool that lead it, and those that trail it of what the
nodes below it have left. -/
def commentsAt (span : Span) (pool left : List Note) : List Comment :=
  (leadingAt span.start pool).map (put .leading) ++ (trailingAt span.stop left).map (put .trailing)

theorem placeAll_cons (pool : List Note) (content : Content) (span : Span) (cs : List Comment)
    (ds : List Directive) (children ns : List Node) :
    placeAll m pool (⟨content, span, cs, ds, children⟩ :: ns) =
      let inner := placeAll m (pool.dropWhile (·.startsBefore span.start)) children
      let others := placeAll m (notTrailingAt span.stop inner.2) ns
      (⟨content, span, commentsAt span pool inner.2,
        (commentsAt span pool inner.2).flatMap m.extract, inner.1⟩ :: others.1, others.2) := rfl

/-! ### Nothing is lost -/

theorem trailing_perm (p : Position) (pool : List Note) :
    (trailingAt p pool ++ notTrailingAt p pool).Perm pool := by
  have hsplit : pool.takeWhile (·.startsBefore p) ++ ((pool.dropWhile (·.startsBefore p)).takeWhile
      (·.trails p) ++ (pool.dropWhile (·.startsBefore p)).dropWhile (·.trails p)) = pool := by
    rw [List.takeWhile_append_dropWhile, List.takeWhile_append_dropWhile]
  conv_rhs => rw [← hsplit]
  unfold trailingAt notTrailingAt
  rw [← List.append_assoc, ← List.append_assoc]
  exact List.perm_append_comm.append_right _

theorem notTrailingAt_sublist (p : Position) (pool : List Note) :
    (notTrailingAt p pool).Sublist pool := by
  conv_rhs => rw [← List.takeWhile_append_dropWhile (p := (·.startsBefore p)) (l := pool)]
  exact (List.Sublist.refl _).append (List.dropWhile_sublist _)

/-- What is left over is part of the pool, in the same order. -/
theorem placeAll_sublist (pool : List Note) (ns : List Node) :
    (placeAll m pool ns).2.Sublist pool := by
  induction ns using Node.rowInduction generalizing pool with
  | nil => exact List.Sublist.refl _
  | cons content span cs ds children ns ihc ihn =>
    rw [placeAll_cons]
    exact ((ihn _).trans (notTrailingAt_sublist _ _)).trans
      ((ihc _).trans (List.dropWhile_sublist _))

/-- The comments that nodes in a row and below carry, as they were before they were placed. -/
def carried (ns : List Node) : List Comment :=
  ((Node.walks ns).flatMap Node.comments).map Comment.unplaced

theorem carried_cons (content : Content) (span : Span) (cs : List Comment) (ds : List Directive)
    (children ns : List Node) :
    carried (⟨content, span, cs, ds, children⟩ :: ns) =
      cs.map Comment.unplaced ++ (carried children ++ carried ns) := by
  simp [carried, Node.walk_eq]

/-- **No comment is lost or doubled**: what the nodes carry and what is left over is the pool. -/
theorem placeAll_perm (pool : List Note) (ns : List Node) :
    (carried (placeAll m pool ns).1 ++
      (placeAll m pool ns).2.map fun x => x.comment.unplaced).Perm
        (pool.map fun x => x.comment.unplaced) := by
  induction ns using Node.rowInduction generalizing pool with
  | nil => exact List.Perm.refl _
  | cons content span cs ds children ns ihc ihn =>
    rw [placeAll_cons]
    dsimp only
    have hc := ihc (pool.dropWhile (·.startsBefore span.start))
    generalize placeAll m (pool.dropWhile (·.startsBefore span.start)) children = inner at hc ⊢
    have hn := ihn (notTrailingAt span.stop inner.2)
    generalize placeAll m (notTrailingAt span.stop inner.2) ns = others at hn ⊢
    have ht := (trailing_perm span.stop inner.2).map fun x => x.comment.unplaced
    have hp : pool = leadingAt span.start pool ++ pool.dropWhile (·.startsBefore span.start) :=
      List.takeWhile_append_dropWhile.symm
    have hl := congrArg (List.map fun x => x.comment.unplaced) hp
    rw [carried_cons]
    rw [List.perm_iff_count] at hc hn ht ⊢
    intro c
    have hc := hc c
    have hn := hn c
    have ht := ht c
    have hl := congrArg (List.count c) hl
    simp only [commentsAt, List.map_append, List.map_map, List.count_append, Function.comp_def,
      put_unplaced] at hc hn ht hl ⊢
    omega

/-! ### What a node carries -/

/-- The comments of a node are notes of the pool in order: some that start before the node, then
some that trail it. Its directives are theirs. -/
def Dressed (pool : List Note) (n : Node) : Prop :=
  ∃ lead trail : List Note, (lead ++ trail).Sublist pool ∧
    n.comments = lead.map (put .leading) ++ trail.map (put .trailing) ∧
    (∀ x ∈ lead, x.startsBefore n.span.start) ∧ (∀ x ∈ trail, x.trails n.span.stop) ∧
    n.directives = n.comments.flatMap m.extract

variable {m}

theorem Dressed.mono {pool pool' : List Note} {n : Node} (h : Dressed m pool n)
    (hs : pool.Sublist pool') : Dressed m pool' n := by
  obtain ⟨lead, trail, hsub, hrest⟩ := h
  exact ⟨lead, trail, hsub.trans hs, hrest⟩

theorem Dressed.directives_eq {pool : List Note} {n : Node} (h : Dressed m pool n) :
    n.directives = n.comments.flatMap m.extract := by
  obtain ⟨-, -, -, -, -, -, hd⟩ := h
  exact hd

variable (m)

theorem dressed_commentsAt (content : Content) (span : Span) {pool left : List Note}
    (h : left.Sublist (pool.dropWhile (·.startsBefore span.start))) (children : List Node) :
    Dressed m pool ⟨content, span, commentsAt span pool left,
      (commentsAt span pool left).flatMap m.extract, children⟩ := by
  refine ⟨leadingAt span.start pool, trailingAt span.stop left, ?_, rfl, ?_, ?_, rfl⟩
  · have ht : (trailingAt span.stop left).Sublist (pool.dropWhile (·.startsBefore span.start)) :=
      ((List.takeWhile_sublist _).trans (List.dropWhile_sublist _)).trans h
    conv_rhs =>
      rw [← List.takeWhile_append_dropWhile (p := (·.startsBefore span.start)) (l := pool)]
    exact (List.Sublist.refl _).append ht
  · exact fun x hx => List.mem_takeWhile_imp hx
  · exact fun x hx => List.mem_takeWhile_imp hx

/-- **Every node is dressed from the pool.** -/
theorem placeAll_dressed (pool : List Note) (ns : List Node) :
    ∀ n ∈ Node.walks (placeAll m pool ns).1, Dressed m pool n := by
  induction ns using Node.rowInduction generalizing pool with
  | nil => exact fun n hn => absurd hn (by simp [placeAll])
  | cons content span cs ds children ns ihc ihn =>
    rw [placeAll_cons]
    have hinner := placeAll_sublist m (pool.dropWhile (·.startsBefore span.start)) children
    have hdrop : (pool.dropWhile (·.startsBefore span.start)).Sublist pool :=
      List.dropWhile_sublist _
    intro n hn
    simp only [Node.walks_cons, Node.walk_eq, List.cons_append, List.mem_cons,
      List.mem_append] at hn
    rcases hn with rfl | hn | hn
    · exact dressed_commentsAt m content span hinner _
    · exact (ihc _ n hn).mono hdrop
    · exact (ihn _ n hn).mono (((notTrailingAt_sublist _ _).trans hinner).trans hdrop)

/-- What a node declares, and where it stands. -/
def outline (n : Node) : Content × Span := (n.content, n.span)

/-- Placing changes neither what nodes declare nor where they stand. -/
theorem placeAll_outline (pool : List Note) (ns : List Node) :
    (Node.walks (placeAll m pool ns).1).map outline = (Node.walks ns).map outline := by
  induction ns using Node.rowInduction generalizing pool with
  | nil => rfl
  | cons content span cs ds children ns ihc ihn =>
    rw [placeAll_cons]
    simp only [Node.walks_cons, Node.walk_eq, List.cons_append, List.map_cons, List.map_append,
      ihc, ihn]
    rfl

/-! ### What is left over -/

/-- In a pool in order, the notes from the first that does not start before `p` on do not. -/
theorem not_startsBefore_of_mem_dropWhile {p : Position} {pool : List Note}
    (hs : pool.Pairwise fun x y => x.comment.span.start.offset < y.comment.span.start.offset)
    {x : Note} (hx : x ∈ pool.dropWhile (·.startsBefore p)) : ¬ x.startsBefore p := by
  induction pool with
  | nil => exact absurd hx (by simp)
  | cons y pool ih =>
    obtain ⟨hy, hpool⟩ := List.pairwise_cons.mp hs
    by_cases hb : y.startsBefore p
    · rw [List.dropWhile_cons_of_pos hb] at hx
      exact ih hpool hx
    · rw [List.dropWhile_cons_of_neg hb] at hx
      rcases List.mem_cons.mp hx with rfl | hx
      · exact hb
      · have := hy x hx
        simp only [Note.startsBefore, decide_eq_true_eq] at hb ⊢
        omega

/-- **No node starts behind a note that is left over**, if the pool is in order. -/
theorem not_startsBefore_of_left {pool : List Note}
    (hs : pool.Pairwise fun x y => x.comment.span.start.offset < y.comment.span.start.offset)
    {ns : List Node} {x : Note} (hx : x ∈ (placeAll m pool ns).2) :
    ∀ n ∈ Node.walks ns, ¬ x.startsBefore n.span.start := by
  induction ns using Node.rowInduction generalizing pool with
  | nil => exact fun n hn => absurd hn (by simp)
  | cons content span cs ds children ns ihc ihn =>
    rw [placeAll_cons] at hx
    have hdrop : (pool.dropWhile (·.startsBefore span.start)).Sublist pool :=
      List.dropWhile_sublist _
    have hinner := placeAll_sublist m (pool.dropWhile (·.startsBefore span.start)) children
    have hothers := notTrailingAt_sublist span.stop
      (placeAll m (pool.dropWhile (·.startsBefore span.start)) children).2
    -- what is left behind the whole row was left behind the children of its first tree
    have hleft := hothers.subset ((placeAll_sublist m _ ns).subset hx)
    intro n hn
    simp only [Node.walks_cons, Node.walk_eq, List.cons_append, List.mem_cons,
      List.mem_append] at hn
    rcases hn with rfl | hn | hn
    · exact not_startsBefore_of_mem_dropWhile hs (hinner.subset hleft)
    · exact ihc (hs.sublist hdrop) hleft n hn
    · exact ihn (hs.sublist (hothers.trans (hinner.trans hdrop))) hx n hn

end Placement

end SchemaDepot
