import Mathlib.Data.List.Basic
import SchemaDepot.Schema.Node

/-! # What a walk meets

A walk goes through a stack of subtrees. It meets the nodes of the trees in the stack one tree after
the other, from the top down, in each tree the root before the nodes below it.

* `Node.rowInduction`: induction on trees in a row, by the children of the first and the others.
* `Node.preorder`: the nodes of a tree by recursion on it.
* `Walk.pending`: the trees in a stack, the next one first. `Walk.toList_eq_preorders`: what a walk
  meets from any stack.
* `Node.walks`: the walks of trees in a row.
* `Node.walk_eq`: a walk by recursion on the tree.
* `Node.ownDirectives_eq`: what a node adds to the directives of a walk. -/

namespace SchemaDepot

namespace Node

/-- What holds of no trees, and of a row if it holds of the children of its first tree and of the
other trees, holds of every row. -/
@[elab_as_elim]
theorem rowInduction {P : List Node → Prop} (nil : P [])
    (cons : ∀ content span comments directives children ns, P children → P ns →
      P (⟨content, span, comments, directives, children⟩ :: ns)) (ns : List Node) : P ns := by
  induction hn : sizes ns using Nat.strongRecOn generalizing ns with
  | ind k ih =>
    cases ns with
    | nil => exact nil
    | cons n ns =>
      obtain ⟨content, span, comments, directives, children⟩ := n
      simp only [sizes, size] at hn
      exact cons _ _ _ _ _ _ (ih (sizes children) (by omega) children rfl)
        (ih (sizes ns) (by omega) ns rfl)

mutual

/-- The nodes of a tree in pre-order: the root, then those of the trees below it, in order. -/
def preorder : Node → List Node
  | ⟨content, span, comments, directives, children⟩ =>
    ⟨content, span, comments, directives, children⟩ :: preorders children

/-- The nodes of trees in a row, tree by tree. -/
def preorders : List Node → List Node
  | [] => []
  | n :: ns => n.preorder ++ preorders ns

end

theorem preorder_eq (n : Node) : n.preorder = n :: preorders n.children := by
  cases n
  rfl

theorem preorders_singleton (n : Node) : preorders [n] = n.preorder := List.append_nil _

theorem preorders_eq_flatMap (ns : List Node) : preorders ns = ns.flatMap preorder := by
  induction ns with
  | nil => rfl
  | cons n ns ih => rw [preorders, ih, List.flatMap_cons]

theorem preorders_append (ns ms : List Node) :
    preorders (ns ++ ms) = preorders ns ++ preorders ms := by
  simp only [preorders_eq_flatMap, List.flatMap_append]

/-- The nodes of trees in a row, each before those below it. -/
def walks (ns : List Node) : List Node := ns.flatMap walk

end Node

namespace Walk

variable {w w' : Walk} {n : Node}

/-- The subtrees that are still to be visited, the next one first. -/
def pending (w : Walk) : List Node := w.stack.toList.reverse

/-- A walk that has ended has nothing left to visit. -/
theorem pending_of_none (h : w.next? = none) : w.pending = [] := by
  have empty : w.stack.back? = none := by
    cases top : w.stack.back? with
    | none => rfl
    | some n => simp [next?, top] at h
  rw [pending, Array.back?_eq_none_iff.1 empty]
  rfl

/-- The next node is the root of the first tree, whose children take its place. -/
theorem pending_of_some (h : w.next? = some (n, w')) :
    ∃ ns, w.pending = n :: ns ∧ w'.pending = n.children ++ ns := by
  obtain ⟨below, whole, rest⟩ := next?_eq_some h
  refine ⟨below.toList.reverse, ?_, ?_⟩
  · rw [pending, whole, Array.toList_push, List.reverse_append]
    rfl
  · rw [pending, rest, Array.toList_appendList, List.reverse_append, List.reverse_reverse]

/-- **The stack is worked off in pre-order**, whatever trees are in it. -/
theorem toList_eq_preorders (w : Walk) : w.toList = Node.preorders w.pending := by
  fun_induction toList w with
  | case1 w h => rw [pending_of_none h, Node.preorders]
  | case2 w n rest h ih =>
    obtain ⟨ns, first, others⟩ := pending_of_some h
    rw [ih, others, first, Node.preorders, Node.preorder_eq, Node.preorders_append]
    rfl

end Walk

namespace Node

/-- **A walk meets the nodes of a tree in pre-order.** -/
theorem walk_eq_preorder (n : Node) : n.walk = n.preorder := by
  rw [walk, Walk.toList_eq_preorders]
  exact preorders_singleton n

theorem walks_eq_preorders (ns : List Node) : walks ns = preorders ns := by
  rw [preorders_eq_flatMap]
  exact List.flatMap_congr fun n _ => n.walk_eq_preorder

@[simp] theorem walks_nil : walks [] = [] := rfl

@[simp] theorem walks_cons (n : Node) (ns : List Node) : walks (n :: ns) = n.walk ++ walks ns := rfl

@[simp] theorem walks_append (ns ms : List Node) : walks (ns ++ ms) = walks ns ++ walks ms :=
  List.flatMap_append

/-- A walk meets the root, then the nodes of the trees below it, in order. -/
theorem walk_eq (n : Node) : n.walk = n :: walks n.children := by
  rw [walk_eq_preorder, preorder_eq, walks_eq_preorders]

/-- A walk through trees of one node each meets these nodes. -/
theorem walks_of_children {ns : List Node} (h : ∀ n ∈ ns, n.children = []) : walks ns = ns := by
  induction ns with
  | nil => rfl
  | cons n ns ih =>
    rw [walks_cons, walk_eq, h n (by simp), ih fun m hm => h m (List.mem_cons_of_mem n hm)]
    rfl

end Node

/-- The directive that a node is, if it is one. -/
def Content.directive? : Content → Option Directive
  | directive d => some d
  | _ => none

/-- The directives on a node come before the one that it is. -/
theorem Node.ownDirectives_eq (n : Node) :
    n.ownDirectives = n.directives ++ n.content.directive?.toList := by
  rw [ownDirectives]
  cases n.content <;> rfl

end SchemaDepot
