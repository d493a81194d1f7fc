import SchemaDepot.Proofs.Schema.Comments

/-! # How deep the tree of a text nests

The grammar gives only blocks declarations below them, and no more levels of these than it lets
blocks nest. Placing comments changes nothing of that.

* `Node.Nests`: a tree has so many levels, and only blocks have declarations below them.
* `Reader.Yields`: what holds of all that a reader gives.
* `Grammar.block_nests`, `Grammar.file_nests`: the declarations that the grammar reads.
* `Schema.parse_nests`: the tree of a text. -/

namespace SchemaDepot

/-- The tree has at most so many levels, and only blocks have declarations below them. -/
def Node.Nests : Nat → Node → Prop
  | 0, _ => False
  | levels + 1, n =>
    (n.content.isBlock = false → n.children = []) ∧ ∀ c ∈ n.children, c.Nests levels

/-- A node without declarations below it is one level. -/
theorem Node.nests_of_bare {n : Node} (h : n.children = []) (levels : Nat) :
    n.Nests (levels + 1) := ⟨fun _ => h, h ▸ fun _ hc => absurd hc List.not_mem_nil⟩

/-- Only the blocks of a tree have declarations below them. -/
theorem Node.Nests.leaf {levels : Nat} {n : Node} (h : n.Nests levels) :
    ∀ x ∈ n.walk, x.content.isBlock = false → x.children = [] := by
  induction levels generalizing n with
  | zero => exact h.elim
  | succ levels ih =>
    rw [walk_eq, List.forall_mem_cons]
    refine ⟨h.1, fun x hx => ?_⟩
    obtain ⟨c, hc, hx⟩ := List.mem_flatMap.1 hx
    exact ih (h.2 c hc) x hx

namespace Reader

variable {α β : Type}

/-- The property holds of all that the reader gives. -/
def Yields (r : Reader α) (P : α → Prop) : Prop :=
  ∀ ⦃ts a rest⦄, r ts = .ok (a, rest) → P a

variable {P : β → Prop}

theorem Yields.pure {b : β} (h : P b) : Yields (Pure.pure b) P := by
  intro ts c rest hc
  obtain ⟨rfl, -⟩ := pure_ok hc
  exact h

/-- What the second reader gives, the first having given something that `Q` holds of. -/
theorem Yields.then {r : Reader α} {f : α → Reader β} {Q : α → Prop} (hr : Yields r Q)
    (hf : ∀ a, Q a → Yields (f a) P) : Yields (r >>= f) P := by
  intro ts b rest h
  obtain ⟨a, mid, h1, h2⟩ := bind_ok h
  exact hf a (hr h1) h2

/-- What the second reader gives, whatever the first has given. -/
theorem Yields.bind {r : Reader α} {f : α → Reader β} (hf : ∀ a, Yields (f a) P) :
    Yields (r >>= f) P := by
  intro ts b rest h
  obtain ⟨a, mid, -, h2⟩ := bind_ok h
  exact hf a h2

theorem Yields.ite {c : Prop} [Decidable c] {r s : Reader β} (hr : Yields r P) (hs : Yields s P) :
    Yields (if c then r else s) P := by
  split_ifs
  · exact hr
  · exact hs

theorem expected_yields (what : String) : Yields (expected what : Reader β) P := by
  intro ts b rest h
  cases h

theorem manyWithin_yields {ends : Token → Bool} {item : Reader β} (hi : Yields item P)
    (room : List Token) : Yields (manyWithin ends item room) fun bs => ∀ b ∈ bs, P b := by
  induction room with
  | nil => exact Yields.pure fun b hb => absurd hb List.not_mem_nil
  | cons _ room ih =>
    unfold manyWithin
    refine Yields.bind fun next => ?_
    split
    · exact Yields.pure fun b hb => absurd hb List.not_mem_nil
    · refine Yields.ite (Yields.pure fun b hb => absurd hb List.not_mem_nil)
        (Yields.ite (Yields.bind fun _ => ih) ?_)
      exact hi.then fun b hb => ih.then fun bs hbs =>
        Yields.pure (List.forall_mem_cons.2 ⟨hb, hbs⟩)

theorem many_yields {ends : Token → Bool} {item : Reader β} (hi : Yields item P) :
    Yields (many ends item) fun bs => ∀ b ∈ bs, P b := by
  unfold many
  exact Yields.bind fun room => manyWithin_yields hi room

end Reader

namespace Grammar

open Reader

/-! ### Declarations without a block -/

/-- The node has no declarations below it. -/
def Bare (n : Node) : Prop := n.children = []

theorem dialect_bare : Yields dialect Bare :=
  Yields.bind fun _ => Yields.bind fun _ => Yields.bind fun _ => Yields.bind fun _ =>
    Yields.pure rfl

theorem package_bare : Yields package Bare :=
  Yields.bind fun _ => Yields.bind fun _ => Yields.bind fun _ => Yields.pure rfl

theorem importFile_bare : Yields importFile Bare := by
  rw [importFile_eq]
  exact Yields.bind fun _ => Yields.bind fun _ => Yields.bind fun _ => Yields.bind fun _ =>
    Yields.bind fun _ => Yields.pure rfl

theorem setting_bare : Yields setting Bare :=
  Yields.bind fun _ => Yields.bind fun _ => Yields.bind fun _ => Yields.pure rfl

theorem field_bare (labelled : Bool) : Yields (field labelled) Bare := by
  rw [field_eq]
  exact Yields.bind fun _ => Yields.bind fun _ => Yields.bind fun _ => Yields.bind fun _ =>
    Yields.bind fun _ => Yields.bind fun _ => Yields.bind fun _ => Yields.bind fun _ =>
      Yields.pure rfl

theorem enumValue_bare : Yields enumValue Bare :=
  Yields.bind fun _ => Yields.bind fun _ => Yields.bind fun _ => Yields.bind fun _ =>
    Yields.bind fun _ => Yields.bind fun _ => Yields.pure rfl

theorem reserved_bare : Yields reserved Bare :=
  Yields.bind fun _ => Yields.bind fun _ => Yields.pure rfl

theorem plain_bare : ∀ r ∈ plain, Yields r Bare := by
  simp only [plain, List.forall_mem_cons]
  exact ⟨dialect_bare, package_bare, importFile_bare, setting_bare, enumValue_bare, reserved_bare,
    field_bare true, field_bare false, List.forall_mem_nil _⟩

/-! ### Declarations with a block -/

section Blocks
variable {levels : Nat} {block : Scope → Reader Block}
  (hb : ∀ scope, Yields (block scope) fun body => ∀ c ∈ body.1, c.Nests levels)
include hb

theorem fenced_nest : ∀ r ∈ fenced block, Yields r (Node.Nests (levels + 1)) := by
  intro r hr ts n rest h
  obtain ⟨content, first, header, mid, body, hc, -, -, rfl, hbody⟩ := fenced_hasBlock r hr h
  refine ⟨fun hleaf => absurd (hc.symm.trans hleaf) (by decide), ?_⟩
  rcases hbody with ⟨scope, h⟩ | ⟨-, hnone⟩
  · exact hb scope h
  · exact (Node.nests_of_bare hnone levels).2

omit hb in
theorem Bare.nests {r : Reader Node} (h : Yields r Bare) : Yields r (Node.Nests (levels + 1)) :=
  fun _ _ _ hr => Node.nests_of_bare (h hr) levels

theorem sorts_nest : ∀ r ∈ plain ++ fenced block, Yields r (Node.Nests (levels + 1)) :=
  List.forall_mem_append.2 ⟨fun r hr => Bare.nests (plain_bare r hr), fenced_nest hb⟩

theorem member_nests (scope : Scope) : Yields (member block scope) (Node.Nests (levels + 1)) :=
  member_of_sorts Yields.bind expected_yields (sorts_nest hb) scope

theorem declaration_nests : Yields (declaration block) (Node.Nests (levels + 1)) :=
  declaration_of_sorts Yields.bind expected_yields (sorts_nest hb)

end Blocks

/-- **A block has no more levels of declarations in it than blocks may nest.** -/
theorem block_nests (room : Nat) (scope : Scope) :
    Yields (block room scope) fun body => ∀ c ∈ body.1, c.Nests room := by
  induction room generalizing scope with
  | zero => exact fun ts body rest h => absurd h (block_zero_ne_ok scope ts _)
  | succ room ih =>
    intro ts body rest h
    obtain ⟨opening, mid, -, -, hmembers⟩ := block_ok h
    exact many_yields (member_nests ih scope) hmembers

/-- **The declarations of a file** have one level more than blocks may nest. -/
theorem file_nests : Yields file fun ns => ∀ n ∈ ns, n.Nests (maxNesting + 1) :=
  many_yields (declaration_nests (block_nests maxNesting))

end Grammar

/-! ### Comments -/

theorem Placement.placeAll_nests (m : Marker) {levels : Nat} {ns : List Node}
    (h : ∀ n ∈ ns, n.Nests levels) (pool : List Note) :
    ∀ n ∈ (placeAll m pool ns).1, n.Nests levels := by
  induction ns using Node.rowInduction generalizing pool levels with
  | nil => exact fun n hn => absurd hn List.not_mem_nil
  | cons content span cs ds children ns ihc ihn =>
    rw [placeAll_cons]
    rw [List.forall_mem_cons] at h ⊢
    refine ⟨?_, ihn h.2 _⟩
    cases levels with
    | zero => exact h.1.elim
    | succ levels =>
      refine ⟨fun hleaf => ?_, ihc h.1.2 _⟩
      have bare : children = [] := h.1.1 hleaf
      subst bare
      rfl

/-- **The tree of a text** has two levels more than blocks may nest, and only blocks have
declarations below them. -/
theorem Schema.parse_nests {m : Marker} {text : String} {root : Node}
    (h : parse m text = .ok root) : root.Nests (Grammar.maxNesting + 2) := by
  obtain ⟨ts, final, nodes, rest, -, hfile, rfl⟩ := parse_eq_ok.1 h
  refine ⟨fun hleaf => (by cases hleaf), ?_⟩
  rw [Placement.document_children, List.forall_mem_append]
  refine ⟨Placement.placeAll_nests m (Grammar.file_nests hfile) _, fun n hn => ?_⟩
  obtain ⟨c, -, hn⟩ := List.mem_flatMap.1 hn
  rcases List.mem_cons.1 hn with rfl | hn
  · exact Node.nests_of_bare rfl _
  · obtain ⟨d, -, rfl⟩ := List.mem_map.1 hn
    exact Node.nests_of_bare rfl _

end SchemaDepot
