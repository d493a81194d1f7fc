import SchemaDepot.Proofs.Schema.Nesting
import SchemaDepot.Proofs.Schema.Order

/-! # The braces of a block

The grammar gives a declaration others below it only behind a brace that opens its block.

* `Fenced`: trees in a row of tokens, with the braces before those below a declaration.
* `block_fence`, `declaration_heads`, `file_fenced`: what the grammar reads is of this shape.
* `Fenced.braced`: a brace stands between the start of a declaration and that of each one below. -/

namespace SchemaDepot.Grammar

open Reader

/-! ### Rows with braces -/

/-- The trees lie in the tokens, one behind the other. A declaration with others below it has a
block: a brace stands behind its first token, and the others lie between that and its last token. -/
inductive Fenced : List Token → List Node → Prop
  | nil (ts : List Token) : Fenced ts []
  | skip (t : Token) {ts : List Token} {ns : List Node} (rest : Fenced ts ns) : Fenced (t :: ts) ns
  | leaf {first last : Token} {inner ts : List Token} {content : Content} {ns : List Node}
      (rest : Fenced ts ns) :
      Fenced (first :: inner ++ last :: ts)
        (⟨content, Span.between first.span.start last.span.stop, [], [], []⟩ :: ns)
  | block {first opening last : Token} {header inner ts : List Token} {content : Content}
      {children ns : List Node} (isBlock : content.isBlock = true)
      (opens : isSymbol '{' opening = true) (below : Fenced inner children) (rest : Fenced ts ns) :
      Fenced (first :: (header ++ opening :: inner) ++ last :: ts)
        (⟨content, Span.between first.span.start last.span.stop, [], [], children⟩ :: ns)

/-- The tokens are one declaration: it may stand before others. -/
def Heads (ts : List Token) (n : Node) : Prop :=
  ∀ ⦃us ns⦄, Fenced us ns → Fenced (ts ++ us) (n :: ns)

/-- The tokens are a brace, declarations in a row, and the last token. -/
def IsFence (ts : List Token) (body : Block) : Prop :=
  ∃ opening inner, ts = opening :: inner ++ [body.2] ∧ isSymbol '{' opening = true ∧
    Fenced inner body.1

/-! ### What the grammar reads -/

/-- A declaration without others below it. -/
theorem heads_of_bare {r : Reader Node} (h : Gives r Declares) (bare : Yields r Bare) :
    Gives r Heads := by
  intro ts n rest hr
  obtain ⟨used, rfl, first, inner, last, content, children, rfl, rfl, -, -⟩ := h hr
  have none : children = [] := bare hr
  subst none
  refine ⟨_, rfl, fun us ns hus => ?_⟩
  rw [List.append_assoc]
  exact .leaf hus

section Blocks
variable {block : Scope → Reader Block} (hb : ∀ scope, Gives (block scope) IsFence)
include hb

theorem fenced_head : ∀ r ∈ fenced block, Gives r Heads := by
  intro r hr ts n rest h
  obtain ⟨content, first, header, mid, ⟨nodes, last⟩, hc, -, rfl, rfl, hbody⟩ :=
    fenced_hasBlock r hr h
  rcases hbody with ⟨scope, h⟩ | ⟨rfl, hnone⟩
  · obtain ⟨_, rfl, opening, inner, rfl, opens, below⟩ := hb scope h
    refine ⟨first :: (header ++ opening :: inner) ++ [last], by simp, fun us ns hus => ?_⟩
    rw [List.append_assoc]
    exact .block hc opens below hus
  · obtain rfl : nodes = [] := hnone
    refine ⟨first :: header ++ [last], by simp, fun us ns hus => ?_⟩
    rw [List.append_assoc]
    exact .leaf hus

theorem sorts_head : ∀ r ∈ plain ++ fenced block, Gives r Heads :=
  List.forall_mem_append.2
    ⟨fun r hr => heads_of_bare (plain_declares r hr) (plain_bare r hr), fenced_head hb⟩

theorem member_heads (scope : Scope) : Gives (member block scope) Heads :=
  member_gives (sorts_head hb) scope

theorem declaration_heads : Gives (declaration block) Heads :=
  declaration_gives (sorts_head hb)

end Blocks

theorem many_fenced {ends : Token → Bool} {item : Reader Node} (hi : Gives item Heads) :
    Gives (many ends item) Fenced :=
  many_gives hi (.nil []) (fun _ hused => hused.skip _) fun hfirst hused => hfirst hused

/-- **A block is a brace, declarations and a last token**, however deep blocks nest in it. -/
theorem block_fence (room : ℕ) (scope : Scope) : Gives (block room scope) IsFence := by
  induction room generalizing scope with
  | zero => exact fun ts body rest h => absurd h (block_zero_ne_ok scope ts _)
  | succ room ih =>
    intro ts body rest h
    obtain ⟨opening, mid, rfl, opens, hmembers⟩ := block_ok h
    obtain ⟨used, rfl, hused⟩ := many_fenced (member_heads ih scope) hmembers
    exact ⟨opening :: used ++ [body.2], by simp, opening, used, rfl, opens, hused⟩

/-- **The declarations of a file are fenced.** -/
theorem file_fenced {ts rest : List Token} {nodes : List Node} (h : file ts = .ok (nodes, rest)) :
    ∃ used, ts = used ++ rest ∧ Fenced used nodes :=
  many_fenced (declaration_heads (block_fence maxNesting)) h

/-! ### Braces before declarations -/

theorem Fenced.node_start {ts : List Token} {ns : List Node} (h : Fenced ts ns) :
    ∀ n ∈ Node.walks ns, ∃ t ∈ ts, n.span.start = t.span.start := by
  induction h with
  | nil ts => exact fun n hn => absurd hn List.not_mem_nil
  | skip t _ ih =>
    intro n hn
    obtain ⟨u, hu, he⟩ := ih n hn
    exact ⟨u, List.mem_cons_of_mem t hu, he⟩
  | @leaf first last inner ts content ns rest ih =>
    intro n hn
    simp only [Node.walks_cons, Node.walk_eq, Node.walks_nil, List.cons_append, List.nil_append,
      List.mem_cons] at hn
    rcases hn with rfl | hn
    · exact ⟨first, by simp, Span.between_start _ _⟩
    · obtain ⟨u, hu, he⟩ := ih n hn
      exact ⟨u, by simp [hu], he⟩
  | @block first opening last header inner ts content children ns isBlock opens below _ ihb ihr =>
    intro n hn
    simp only [Node.walks_cons, Node.walk_eq, List.cons_append, List.mem_cons,
      List.mem_append] at hn
    rcases hn with rfl | hn | hn
    · exact ⟨first, by simp, Span.between_start _ _⟩
    · obtain ⟨u, hu, he⟩ := ihb n hn
      exact ⟨u, by simp [hu], he⟩
    · obtain ⟨u, hu, he⟩ := ihr n hn
      exact ⟨u, by simp [hu], he⟩

/-- The first node is a block, and a brace stands between its start and that of the second. -/
def Braced (ts : List Token) (n k : Node) : Prop :=
  n.content.isBlock = true ∧ ∃ t ∈ ts, isSymbol '{' t = true ∧
    n.span.start.offset < t.span.start.offset ∧ t.span.start.offset < k.span.start.offset

theorem Braced.mono {us ts : List Token} {n k : Node} (h : Braced us n k) (hs : us.Sublist ts) :
    Braced ts n k := by
  obtain ⟨isBlock, t, ht, hbrace⟩ := h
  exact ⟨isBlock, t, hs.subset ht, hbrace⟩

/-- **A brace stands between the start of a declaration and that of each one below it**, and only
blocks have any below. -/
theorem Fenced.braced {ts : List Token} {ns : List Node} (h : Fenced ts ns)
    (hin : Token.InOrder ts) :
    ∀ n ∈ Node.walks ns, ∀ k ∈ Node.walks n.children, Braced ts n k := by
  induction h with
  | nil ts => exact fun n hn => absurd hn List.not_mem_nil
  | skip t _ ih => exact fun n hn k hk => (ih hin.tail n hn k hk).mono (List.sublist_cons_self _ _)
  | @leaf first last inner ts content ns rest ih =>
    have hrest : ts.Sublist (first :: inner ++ last :: ts) :=
      (List.sublist_cons_self _ _).trans (List.sublist_append_right _ _)
    intro n hn k hk
    simp only [Node.walks_cons, Node.walk_eq, Node.walks_nil, List.cons_append, List.nil_append,
      List.mem_cons] at hn
    rcases hn with rfl | hn
    · exact absurd hk List.not_mem_nil
    · exact (ih (hin.sublist hrest) n hn k hk).mono hrest
  | @block first opening last header inner ts content children ns isBlock opens below _ ihb ihr =>
    have hinner : inner.Sublist (first :: (header ++ opening :: inner) ++ last :: ts) := by
      refine List.Sublist.trans ?_ (List.sublist_append_left _ _)
      refine List.Sublist.trans ?_ (List.sublist_cons_self _ _)
      exact (List.sublist_cons_self _ _).trans (List.sublist_append_right _ _)
    have hrest : ts.Sublist (first :: (header ++ opening :: inner) ++ last :: ts) :=
      (List.sublist_cons_self _ _).trans (List.sublist_append_right _ _)
    intro n hn k hk
    simp only [Node.walks_cons, Node.walk_eq, List.cons_append, List.mem_cons,
      List.mem_append] at hn
    rcases hn with rfl | hn | hn
    · obtain ⟨u, hu, hstart⟩ := below.node_start k hk
      have order := hin.offset_lt
      simp only [List.cons_append, List.append_assoc, List.pairwise_cons, List.pairwise_append,
        List.mem_append, List.mem_cons] at order
      refine ⟨isBlock, opening, by simp, opens, ?_, ?_⟩
      · rw [Span.between_start]
        exact order.1 opening (by simp)
      · rw [hstart]
        exact order.2.2.1.1 u (by simp [hu])
    · exact (ihb (hin.sublist hinner) n hn k hk).mono hinner
    · exact (ihr (hin.sublist hrest) n hn k hk).mono hrest

end SchemaDepot.Grammar
