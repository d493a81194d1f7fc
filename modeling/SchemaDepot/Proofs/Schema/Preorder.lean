import Mathlib.Algebra.GroupWithZero.Nat
import Mathlib.Data.List.Lex
import SchemaDepot.Proofs.Schema.Walk

/-! # The nodes of a tree, each once

A walk answers call by call, and a tree may have nodes that are alike, so the order of a walk is told
by addresses: the numbers of the children to go through from the root. A walk meets what stands at
the addresses of a tree in the lexicographic order of these, and then nothing more.

* `Walk.answer?`: what a call gives. `Walk.answer?_eq`: from any stack, the node of the recursive
  order that has the number of the call.
* `Node.descend?`: the node at an address. `Node.addressed`: all nodes with their addresses, in the
  order of these (`addressed_pairwise`), each once (`mem_addressed`).
* `Node.find_eq_some_iff`: what is found is the node with the least address of those with the name.
* `Node.walk_isPreorder`: all that is told of a walk. -/

namespace SchemaDepot

/-! ### Call by call -/

namespace Walk

/-- The walk behind one call. A walk that has ended stays as it is. -/
def step (w : Walk) : Walk := w.next?.elim w Prod.snd

/-- The walk behind so many calls. -/
def after (w : Walk) : Nat → Walk
  | 0 => w
  | k + 1 => w.step.after k

/-- The answer to the call that comes behind so many others. -/
def answer? (w : Walk) (k : Nat) : Option Node := (w.after k).next?.map Prod.fst

/-- A call gives the first of the nodes that are left. -/
theorem next?_map_fst (w : Walk) : w.next?.map Prod.fst = (Node.preorders w.pending).head? := by
  cases h : w.next? with
  | none => rw [pending_of_none h]; rfl
  | some next =>
    obtain ⟨ns, first, -⟩ := pending_of_some h
    rw [first, Node.preorders, Node.preorder_eq]
    rfl

/-- A call takes away the first of the nodes that are left. -/
theorem preorders_step (w : Walk) :
    Node.preorders w.step.pending = (Node.preorders w.pending).tail := by
  cases h : w.next? with
  | none => rw [step, h, Option.elim_none, pending_of_none h]; rfl
  | some next =>
    obtain ⟨ns, first, others⟩ := pending_of_some h
    rw [step, h, Option.elim_some, others, first, Node.preorders, Node.preorder_eq,
      Node.preorders_append]
    rfl

/-- So many calls take away so many of the nodes that are left. -/
theorem preorders_after (w : Walk) (k : Nat) :
    Node.preorders (w.after k).pending = (Node.preorders w.pending).drop k := by
  induction k generalizing w with
  | zero => rfl
  | succ k ih => rw [after, ih, preorders_step, List.drop_tail]

/-- **The calls of a walk give the nodes in its stack in pre-order**, and then nothing. -/
theorem answer?_eq (w : Walk) (k : Nat) : w.answer? k = (Node.preorders w.pending)[k]? := by
  rw [answer?, next?_map_fst, preorders_after, List.head?_drop]

end Walk

namespace Node

theorem answer?_walk (n : Node) (k : Nat) : (Walk.mk #[n]).answer? k = n.preorder[k]? := by
  rw [Walk.answer?_eq]
  show (preorders [n])[k]? = n.preorder[k]?
  rw [preorders_singleton]

/-! ### Addresses -/

/-- The node at an address: of the numbers of children, each leads from a node to one below it. -/
def descend? (n : Node) : List Nat → Option Node
  | [] => some n
  | i :: p => n.children[i]?.bind fun c => c.descend? p

mutual

/-- The nodes of a tree in pre-order, with their addresses. -/
def addressed : Node → List (List Nat × Node)
  | ⟨content, span, comments, directives, children⟩ =>
    ([], ⟨content, span, comments, directives, children⟩) :: addressedFrom 0 children

/-- The nodes of trees in a row with their addresses, the first tree having this number. -/
def addressedFrom : Nat → List Node → List (List Nat × Node)
  | _, [] => []
  | i, n :: ns => n.addressed.map (Prod.map (i :: ·) id) ++ addressedFrom (i + 1) ns

end

theorem addressed_eq (n : Node) : n.addressed = ([], n) :: addressedFrom 0 n.children := by
  cases n
  rfl

theorem map_snd_addressedFrom (i : Nat) (ns : List Node) :
    (addressedFrom i ns).map Prod.snd = preorders ns := by
  induction ns using rowInduction generalizing i with
  | nil => rfl
  | cons content span comments directives children ns below beside =>
    rw [addressedFrom, List.map_append, List.map_map, beside, preorders, preorder_eq,
      addressed_eq, ← below 0]
    rfl

/-- With the addresses left out this is the order of a walk. -/
theorem map_snd_addressed (n : Node) : n.addressed.map Prod.snd = n.preorder := by
  rw [addressed_eq, preorder_eq, List.map_cons, map_snd_addressedFrom]

theorem mem_addressedFrom {i : Nat} {ns : List Node} {p : List Nat} {m : Node} :
    (p, m) ∈ addressedFrom i ns ↔
      ∃ j q c, p = (i + j) :: q ∧ ns[j]? = some c ∧ (q, m) ∈ c.addressed := by
  induction ns generalizing i with
  | nil => simp [addressedFrom]
  | cons n ns ih =>
    rw [addressedFrom, List.mem_append, List.mem_map, ih]
    constructor
    · rintro (⟨⟨q, m⟩, hq, same⟩ | ⟨j, q, c, rfl, hc, hq⟩)
      · obtain ⟨rfl, rfl⟩ := Prod.mk.inj same
        exact ⟨0, q, n, rfl, rfl, hq⟩
      · exact ⟨j + 1, q, c, by rw [Nat.add_assoc, Nat.add_comm 1], hc, hq⟩
    · rintro ⟨_ | j, q, c, rfl, hc, hq⟩
      · cases hc
        exact .inl ⟨(q, m), hq, rfl⟩
      · exact .inr ⟨j, q, c, by rw [Nat.add_assoc, Nat.add_comm 1], hc, hq⟩

/-- **The nodes with their addresses** are those to which the addresses lead. -/
theorem mem_addressed {n m : Node} {p : List Nat} :
    (p, m) ∈ n.addressed ↔ n.descend? p = some m := by
  induction p generalizing n with
  | nil =>
    rw [addressed_eq, List.mem_cons, mem_addressedFrom, descend?]
    simp [eq_comm]
  | cons i p ih =>
    rw [addressed_eq, List.mem_cons, mem_addressedFrom, descend?, Option.bind_eq_some_iff]
    constructor
    · rintro (same | ⟨j, q, c, same, hc, hq⟩)
      · cases same
      · obtain ⟨rfl, rfl⟩ := List.cons.inj same
        exact ⟨c, by rwa [Nat.zero_add], ih.1 hq⟩
    · rintro ⟨c, hc, hp⟩
      exact .inr ⟨i, p, c, by rw [Nat.zero_add], hc, ih.2 hp⟩

/-- The address of the first is less than that of the second. -/
def IsBefore (a b : List Nat × Node) : Prop := a.1 < b.1

theorem addressed_pairwise_of {n : Node} (below : (addressedFrom 0 n.children).Pairwise IsBefore) :
    n.addressed.Pairwise IsBefore := by
  rw [addressed_eq, List.pairwise_cons]
  refine ⟨fun b hb => ?_, below⟩
  obtain ⟨j, q, c, here, -⟩ := mem_addressedFrom.1 hb
  show [] < b.1
  rw [here]
  exact List.Lex.nil

theorem addressedFrom_pairwise (i : Nat) (ns : List Node) :
    (addressedFrom i ns).Pairwise IsBefore := by
  induction ns using rowInduction generalizing i with
  | nil => exact .nil
  | cons content span comments directives children ns below beside =>
    rw [addressedFrom, List.pairwise_append, List.pairwise_map]
    refine ⟨(addressed_pairwise_of (below 0)).imp fun less => List.Lex.cons less,
      beside (i + 1), fun a ha b hb => ?_⟩
    -- the addresses in the first tree start with `i`, those in the others with more
    obtain ⟨a, -, rfl⟩ := List.mem_map.1 ha
    obtain ⟨j, q, c, here, -⟩ := mem_addressedFrom.1 hb
    show i :: a.1 < b.1
    rw [here]
    exact List.Lex.rel (by omega)

/-- **The nodes stand in the order of their addresses**: a node before those below it, and those
below a child before the next child. -/
theorem addressed_pairwise (n : Node) : n.addressed.Pairwise IsBefore :=
  addressed_pairwise_of (addressedFrom_pairwise 0 n.children)

/-- Two members that are alike stand at two addresses, and the walk meets both. -/
example :
    let point := Span.point Position.origin
    let member : Node := { content := .oneof "choice", span := point }
    let n : Node := { content := .message "A", span := point, children := [member, member] }
    n.addressed.map (Prod.map id name?) =
        [([], some "A"), ([0], some "choice"), ([1], some "choice")] ∧
      (List.range 4).map (fun k => ((Walk.mk #[n]).answer? k).map tag) =
        [some "message", some "oneof", some "oneof", none] := by
  decide

/-! ### What is told of a walk -/

/-- The number of the nodes of a tree by recursion on it. -/
theorem count_eq (n : Node) : n.count = 1 + (n.children.map count).sum := by
  rw [count, walk_eq, List.length_cons, walks, List.length_flatMap, Nat.add_comm]
  rfl

/-- The node has this tag and declares this name. -/
def Declares (tag name : String) (n : Node) : Prop := n.tag = tag ∧ n.name? = some name

/-- In the order of addresses the first fit is the one with the least address. -/
theorem find?_eq_some_iff {ms : List (List Nat × Node)} (ordered : ms.Pairwise IsBefore)
    {f : Node → Bool} {m : Node} : (ms.map Prod.snd).find? f = some m ↔
      ∃ p, (p, m) ∈ ms ∧ f m = true ∧ ∀ b ∈ ms, f b.2 = true → p ≤ b.1 := by
  induction ms with
  | nil => simp
  | cons a ms ih =>
    obtain ⟨first, ordered⟩ := List.pairwise_cons.1 ordered
    rw [List.map_cons, List.find?_cons]
    cases fits : f a.2 with
    | true =>
      constructor
      · rintro ⟨⟩
        exact ⟨a.1, List.mem_cons_self, fits,
          List.forall_mem_cons.2 ⟨fun _ => le_rfl, fun b hb _ => (first b hb).le⟩⟩
      · rintro ⟨p, hp, -, least⟩
        rcases List.mem_cons.1 hp with rfl | hp
        · rfl
        · exact absurd (first (p, m) hp) (not_lt.2 (least a List.mem_cons_self fits))
    | false =>
      have unfit : ¬ f a.2 = true := Bool.eq_false_iff.1 fits
      show (ms.map Prod.snd).find? f = some m ↔ _
      rw [ih ordered]
      constructor
      · rintro ⟨p, hp, hm, least⟩
        exact ⟨p, List.mem_cons_of_mem a hp, hm,
          List.forall_mem_cons.2 ⟨fun h => absurd h unfit, least⟩⟩
      · rintro ⟨p, hp, hm, least⟩
        rcases List.mem_cons.1 hp with rfl | hp
        · exact absurd hm unfit
        · exact ⟨p, hp, hm, fun b hb => least b (List.mem_cons_of_mem a hb)⟩

variable {n m : Node} {tag name : String}

theorem declares_iff : (n.tag == tag && n.name? == some name) = true ↔ n.Declares tag name := by
  rw [Bool.and_eq_true, beq_iff_eq, beq_iff_eq, Declares]

/-- **What is found** is the node with the least address of those with the tag and the name. -/
theorem find_eq_some_iff : n.find tag name = some m ↔ ∃ p, n.descend? p = some m ∧
    m.Declares tag name ∧ ∀ q k, n.descend? q = some k → k.Declares tag name → p ≤ q := by
  rw [find, walk_eq_preorder, ← map_snd_addressed, find?_eq_some_iff n.addressed_pairwise]
  simp only [Prod.forall, mem_addressed, declares_iff]

/-- Nothing is found where no address leads to a node with the tag and the name. -/
theorem find_eq_none_iff : n.find tag name = none ↔
    ∀ p m, n.descend? p = some m → ¬ m.Declares tag name := by
  rw [find, walk_eq_preorder, ← map_snd_addressed, List.find?_eq_none, List.forall_mem_map]
  simp only [Prod.forall, mem_addressed, declares_iff]

/-- **A tree is walked in pre-order**, and counted, searched and asked for directives in it. -/
structure IsWalkedInPreorder (n : Node) : Prop where
  /-- A node comes first, then what comes of its children, one after the other. -/
  recursive : n.preorder = n :: n.children.flatMap preorder
  /-- The calls give the nodes of this order one by one, and nothing from then on. -/
  calls : ∀ k, (Walk.mk #[n]).answer? k = n.preorder[k]?
  ends : ∀ k, (Walk.mk #[n]).answer? k = none ↔ n.count ≤ k
  walk_eq : n.walk = n.preorder
  /-- The nodes stand at addresses that get greater from one to the next, -/
  placed : n.preorder = n.addressed.map Prod.snd
  ordered : n.addressed.Pairwise IsBefore
  /-- and what an address leads to is among them. -/
  complete : ∀ p m, (p, m) ∈ n.addressed ↔ n.descend? p = some m
  count_eq : n.count = 1 + (n.children.map count).sum
  /-- The directives on a node come before the one that it is. -/
  allDirectives_eq : n.allDirectives =
    n.preorder.flatMap fun m => m.directives ++ m.content.directive?.toList
  /-- What is found has the least address of all that have the tag and the name. -/
  found : ∀ tag name m, n.find tag name = some m ↔ ∃ p, n.descend? p = some m ∧
    m.Declares tag name ∧ ∀ q k, n.descend? q = some k → k.Declares tag name → p ≤ q
  missing : ∀ tag name, n.find tag name = none ↔
    ∀ p m, n.descend? p = some m → ¬ m.Declares tag name

/-- **Every tree is walked in pre-order.** -/
theorem walk_isPreorder (n : Node) : n.IsWalkedInPreorder where
  recursive := by rw [preorder_eq, preorders_eq_flatMap]
  calls := n.answer?_walk
  ends k := by rw [answer?_walk, ← walk_eq_preorder, List.getElem?_eq_none_iff, count]
  walk_eq := n.walk_eq_preorder
  placed := n.map_snd_addressed.symm
  ordered := n.addressed_pairwise
  complete _ _ := mem_addressed
  count_eq := n.count_eq
  allDirectives_eq := by
    rw [allDirectives, walk_eq_preorder]
    exact List.flatMap_congr fun m _ => m.ownDirectives_eq
  found _ _ _ := find_eq_some_iff
  missing _ _ := find_eq_none_iff

end Node

end SchemaDepot
