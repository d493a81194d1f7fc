import SchemaDepot.Proofs.Schema.Meaning
import SchemaDepot.Proofs.Token.Cut

/-! # Trees in order

The declarations of a text stand one behind the other, and those in a block stand inside of it.

* `Node.InOrder`: trees in a row between two offsets, each with the trees below it inside.
* `InOrder.apart`: a walk meets nodes in the order of their starts, and no two end at one point.
* `InOrder.mem_below`: what starts inside of a node is below it.
* `Grammar.Row.inOrder`, `Placement.placeAll_inOrder`: the declarations that the grammar reads are
  in order, and so they are with comments.
* `Node.allDeclarations`: the declarations of a tree.
* `Schema.allDeclarations_document`, `Schema.nodes_inOrder`: those of a text, and their order. -/

namespace SchemaDepot

namespace Node

/-- The trees stand one behind the other between two offsets, and each has those below it between
its start and its end. -/
inductive InOrder : Nat → Nat → List Node → Prop
  | nil (lo hi : Nat) : InOrder lo hi []
  | cons {lo hi : Nat} {n : Node} {ns : List Node} (start : lo ≤ n.span.start.offset)
      (filled : n.span.start.offset < n.span.stop.offset) (stop : n.span.stop.offset ≤ hi)
      (below : InOrder (n.span.start.offset + 1) (n.span.stop.offset - 1) n.children)
      (rest : InOrder n.span.stop.offset hi ns) : InOrder lo hi (n :: ns)

/-- A walk meets what is below a node. -/
theorem mem_walks_of_below {ns : List Node} {n k : Node} (hn : n ∈ walks ns)
    (hk : k ∈ walks n.children) : k ∈ walks ns := by
  induction ns using Node.rowInduction with
  | nil => exact absurd hn List.not_mem_nil
  | cons content span cs ds children ns ihc ihn =>
    simp only [walks_cons, walk_eq, List.cons_append, List.mem_cons, List.mem_append] at hn ⊢
    rcases hn with rfl | hn | hn
    · exact Or.inr (Or.inl hk)
    · exact Or.inr (Or.inl (ihc hn))
    · exact Or.inr (Or.inr (ihn hn))

namespace InOrder

variable {lo hi : Nat} {ns : List Node}

theorem bounds (h : InOrder lo hi ns) : ∀ n ∈ walks ns,
    lo ≤ n.span.start.offset ∧ n.span.start.offset < n.span.stop.offset ∧
      n.span.stop.offset ≤ hi := by
  induction h with
  | nil => exact fun n hn => absurd hn List.not_mem_nil
  | cons start filled stop below rest ihb ihr =>
    simp only [walks_cons, walk_eq, List.cons_append, List.forall_mem_cons,
      List.forall_mem_append]
    refine ⟨⟨start, filled, stop⟩, fun n hn => ?_, fun n hn => ?_⟩
    · have := ihb n hn
      omega
    · have := ihr n hn
      omega

/-- A walk meets the nodes in the order in which they start, and no two of them end at one point. -/
theorem apart (h : InOrder lo hi ns) : (walks ns).Pairwise fun n k =>
    n.span.start.offset < k.span.start.offset ∧ n.span.stop.offset ≠ k.span.stop.offset := by
  induction h with
  | nil => exact .nil
  | cons start filled stop below rest ihb ihr =>
    simp only [walks_cons, walk_eq, List.cons_append, List.pairwise_cons, List.pairwise_append,
      List.forall_mem_append]
    refine ⟨⟨fun k hk => ?_, fun k hk => ?_⟩, ihb, ihr, fun n hn k hk => ?_⟩
    · have := below.bounds k hk
      omega
    · have := rest.bounds k hk
      omega
    · have := below.bounds n hn
      have := rest.bounds k hk
      omega

/-- Two nodes are one, or the one that a walk meets first starts first. -/
theorem eq_or_lt (h : InOrder lo hi ns) {n k : Node} (hn : n ∈ walks ns) (hk : k ∈ walks ns) :
    n = k ∨ n.span.stop.offset ≠ k.span.stop.offset ∧
      (n.span.start.offset < k.span.start.offset ∨ k.span.start.offset < n.span.start.offset) := by
  have hall : ∀ ⦃n⦄, n ∈ walks ns → ∀ ⦃k⦄, k ∈ walks ns →
      n = k ∨ n.span.stop.offset ≠ k.span.stop.offset ∧
        (n.span.start.offset < k.span.start.offset ∨
          k.span.start.offset < n.span.start.offset) := by
    refine List.Pairwise.forall_of_forall_of_flip (fun _ _ => Or.inl rfl) ?_ ?_
    · exact h.apart.imp fun ⟨hstart, hstop⟩ => Or.inr ⟨hstop, Or.inl hstart⟩
    · exact h.apart.imp fun ⟨hstart, hstop⟩ => Or.inr ⟨hstop.symm, Or.inr hstart⟩
  exact hall hn hk

/-- What holds of a node and each that a walk meets later holds of two of which the first starts
before the second. -/
theorem of_start_lt (h : InOrder lo hi ns) {R : Node → Node → Prop} (hR : (walks ns).Pairwise R)
    {n k : Node} (hn : n ∈ walks ns) (hk : k ∈ walks ns)
    (hlt : n.span.start.offset < k.span.start.offset) : R n k := by
  have hall : ∀ ⦃n⦄, n ∈ walks ns → ∀ ⦃k⦄, k ∈ walks ns →
      n.span.start.offset < k.span.start.offset → R n k := by
    refine List.Pairwise.forall_of_forall_of_flip (fun _ _ h => absurd h (Nat.lt_irrefl _)) ?_ ?_
    · refine hR.imp ?_
      exact fun hr _ => hr
    · exact h.apart.imp fun h hlt => absurd h.1 (Nat.lt_asymm hlt)
  exact hall hn hk hlt

/-- The trees below a node are in order inside of it. -/
theorem below_of_mem (h : InOrder lo hi ns) {n : Node} (hn : n ∈ walks ns) :
    InOrder (n.span.start.offset + 1) (n.span.stop.offset - 1) n.children := by
  induction h with
  | nil => exact absurd hn List.not_mem_nil
  | cons start filled stop below rest ihb ihr =>
    simp only [walks_cons, walk_eq, List.cons_append, List.mem_cons, List.mem_append] at hn
    rcases hn with rfl | hn | hn
    · exact below
    · exact ihb hn
    · exact ihr hn

/-- What starts inside of a node is below it. -/
theorem mem_below (h : InOrder lo hi ns) {n k : Node} (hn : n ∈ walks ns) (hk : k ∈ walks ns)
    (hstart : n.span.start.offset < k.span.start.offset)
    (hstop : k.span.start.offset < n.span.stop.offset) : k ∈ walks n.children := by
  induction h with
  | nil => exact absurd hn List.not_mem_nil
  | cons start filled stop below rest ihb ihr =>
    simp only [walks_cons, walk_eq, List.cons_append, List.mem_cons, List.mem_append] at hn hk
    rcases hn with rfl | hn | hn <;> rcases hk with rfl | hk | hk
    · exact absurd hstart (Nat.lt_irrefl _)
    · exact hk
    · have := rest.bounds k hk
      omega
    · have := below.bounds n hn
      omega
    · exact ihb hn hk
    · have := below.bounds n hn
      have := rest.bounds k hk
      omega
    · have := rest.bounds n hn
      omega
    · have := below.bounds k hk
      have := rest.bounds n hn
      omega
    · exact ihr hn hk

end InOrder

end Node

namespace Grammar

open Token

/-- **Declarations in a row of tokens are in order.** -/
theorem Row.inOrder {ts : List Token} {ns : List Node} (h : Row ts ns) (hin : InOrder ts)
    {lo hi : Nat} (hts : ∀ t ∈ ts, lo ≤ t.span.start.offset ∧ t.span.stop.offset ≤ hi) :
    Node.InOrder lo hi ns := by
  induction h generalizing lo hi with
  | nil => exact .nil lo hi
  | skip t _ ih => exact ih hin.tail (List.forall_mem_cons.1 hts).2
  | @node first last inner ts content children ns hd below rest ihb ihr =>
    obtain ⟨filled, apart⟩ := hin
    simp only [List.cons_append, List.forall_mem_cons, List.forall_mem_append] at hts filled
    simp only [List.cons_append, List.pairwise_cons, List.pairwise_append, List.forall_mem_cons,
      List.forall_mem_append] at apart
    obtain ⟨⟨behindFirst, firstLast, -⟩, apartInner, ⟨behindLast, apartRest⟩, innerLast⟩ := apart
    obtain ⟨filledFirst, filledInner, filledLast, filledRest⟩ := filled
    have startLt := filledFirst.offset_lt
    have stopLt := filledLast.offset_lt
    have middle := firstLast.offset_le
    have whole : Span.between first.span.start last.span.stop =
        ⟨first.span.start, last.span.stop⟩ :=
      Span.between_of_le ((filledFirst.reaches.trans firstLast).trans filledLast.reaches).le
    rw [whole]
    refine .cons hts.1.1 (by show first.span.start.offset < last.span.stop.offset; omega)
      hts.2.2.1.2 (ihb ⟨filledInner, apartInner⟩ fun t ht => ?_)
      (ihr ⟨filledRest, apartRest⟩ fun t ht => ⟨(behindLast t ht).offset_le, (hts.2.2.2 t ht).2⟩)
    have front := (behindFirst t ht).offset_le
    have back := (innerLast t ht).1.offset_le
    show first.span.start.offset + 1 ≤ _ ∧ _ ≤ last.span.stop.offset - 1
    omega

end Grammar

namespace Placement

variable (m : Marker)

/-- Trees stay in order when comments are placed on them. -/
theorem placeAll_inOrder {lo hi : Nat} {ns : List Node} (h : Node.InOrder lo hi ns)
    (pool : List Note) : Node.InOrder lo hi (placeAll m pool ns).1 := by
  induction h generalizing pool with
  | nil => exact .nil _ _
  | @cons lo hi n ns start filled stop below rest ihb ihr =>
    obtain ⟨content, span, cs, ds, children⟩ := n
    exact .cons start filled stop (ihb _) (ihr _)

end Placement

/-- The declarations of a tree, in the order of a walk. -/
def Node.allDeclarations (root : Node) : List Node := root.walk.filter (·.content.isDeclaration)

namespace Schema

open Token Placement

theorem allDeclarations_document {ts : List Token} {nodes : List Node}
    (hrow : Grammar.Row (significant ts) nodes) (m : Marker) (final : Position) :
    (document m ts final nodes).allDeclarations = Node.walks (placedIn m ts nodes).1 := by
  have detached : ∀ n ∈ (detachedIn m ts nodes).flatMap
      fun c => Node.ofComment c :: (m.extract c).map Node.ofDirective,
      ¬ n.content.isDeclaration = true := by
    intro n hn
    obtain ⟨c, hc, hn⟩ := List.mem_flatMap.1 hn
    obtain ⟨x, -, rfl⟩ := List.mem_map.1 hc
    exact Bool.eq_false_iff.1 (isDeclaration_detachedNodes hn)
  unfold Node.allDeclarations
  rw [walk_document, List.filter_cons_of_neg (by exact Bool.false_ne_true), List.filter_append,
    List.filter_eq_self.2 fun n hn => (placedIn_start m hrow hn).1,
    List.filter_eq_nil_iff.2 detached, List.append_nil]

section Text
variable {text : String} {ts : List Token} {final : Position} {nodes : List Node}
  (hscan : scan text = .ok (ts, final)) (hrow : Grammar.Row (significant ts) nodes)
include hscan hrow

/-- **The declarations of a text are in order.** -/
theorem nodes_inOrder : Node.InOrder 0 final.offset nodes := by
  refine hrow.inOrder ((scan_inOrder hscan).sublist List.filter_sublist) fun t ht =>
    ⟨Nat.zero_le _, ?_⟩
  rw [scan_final hscan]
  exact (scan_within hscan t (List.mem_of_mem_filter ht)).2.2.offset_le

theorem placedIn_inOrder (m : Marker) : Node.InOrder 0 final.offset (placedIn m ts nodes).1 :=
  placeAll_inOrder m (nodes_inOrder hscan hrow) _

end Text

end Schema

end SchemaDepot
