import SchemaDepot.Proofs.Schema.Advance
import SchemaDepot.Proofs.Schema.Walk

/-! # Where declarations stand among the tokens

The grammar reads a declaration off the front of the tokens. Its first and its last token give its
span, and the declarations in its block lie between these two.

* `Row`: the trees of a row lie in a list of tokens, one behind the other.
* `Declares`: a list of tokens is one declaration, from its first token to its last one.
* `block_row`, `declaration_declares`, `file_row`: what the grammar reads is of this shape. -/

namespace SchemaDepot

/-- The content is that of a declaration: not of the root, a comment or a directive. -/
def Content.isDeclaration : Content → Bool
  | root | comment _ | directive _ => false
  | _ => true

namespace Grammar

open Reader

/-! ### Rows of declarations -/

/-- The trees lie in the tokens, one behind the other. Each stands from one token to a later one,
carries nothing yet, and has its children in a row between these two. Other tokens may stand before,
between and behind them. -/
inductive Row : List Token → List Node → Prop
  | nil (ts : List Token) : Row ts []
  | skip (t : Token) {ts : List Token} {ns : List Node} (rest : Row ts ns) : Row (t :: ts) ns
  | node {first last : Token} {inner ts : List Token} {content : Content} {children ns : List Node}
      (isDeclaration : content.isDeclaration) (below : Row inner children) (rest : Row ts ns) :
      Row (first :: inner ++ last :: ts)
        (⟨content, Span.between first.span.start last.span.stop, [], [], children⟩ :: ns)

theorem Row.skips (us : List Token) {ts : List Token} {ns : List Node} (h : Row ts ns) :
    Row (us ++ ts) ns := by
  induction us with
  | nil => exact h
  | cons u us ih => exact ih.skip u

theorem Row.append {ts us : List Token} {ns ms : List Node} (h : Row ts ns) (h' : Row us ms) :
    Row (ts ++ us) (ns ++ ms) := by
  induction h with
  | nil ts => exact h'.skips ts
  | skip t _ ih => exact ih.skip t
  | node hd below _ _ ih =>
    rw [List.append_assoc, List.cons_append, List.cons_append, List.cons_append]
    exact .node hd below ih

theorem Row.append_tokens {ts : List Token} {ns : List Node} (h : Row ts ns) (us : List Token) :
    Row (ts ++ us) ns := by
  simpa using h.append (.nil us)

/-- The tokens are one declaration, from the first to the last of them. -/
def Declares (ts : List Token) (n : Node) : Prop :=
  ∃ first inner last content children, ts = first :: inner ++ [last] ∧
    n = ⟨content, Span.between first.span.start last.span.stop, [], [], children⟩ ∧
    content.isDeclaration ∧ Row inner children

theorem Declares.row {ts us : List Token} {n : Node} {ns : List Node} (h : Declares ts n)
    (hrest : Row us ns) : Row (ts ++ us) (n :: ns) := by
  obtain ⟨first, inner, last, content, children, rfl, rfl, hd, below⟩ := h
  rw [List.append_assoc]
  exact .node hd below hrest

/-- The tokens are a row of declarations and the last token behind them. -/
def IsBlock (ts : List Token) (body : Block) : Prop :=
  ∃ inner, ts = inner ++ [body.2] ∧ Row inner body.1

/-! ### Declarations without a block -/

theorem leaf_declares {content : Content} (hd : content.isDeclaration) {first last : Token}
    {ts mid rest : List Token} (hfirst : mid <:+ ts) (hlast : mid = last :: rest) :
    ∃ used, first :: ts = used ++ rest ∧ Declares used (leaf content first.span.start last) := by
  obtain ⟨inner, rfl⟩ := hfirst
  refine ⟨first :: inner ++ [last], by simp [hlast], first, inner, last, content, [], rfl, rfl, hd,
    .nil inner⟩

theorem dialect_declares : Gives dialect Declares := by
  intro ts n rest h
  unfold dialect at h
  obtain ⟨first, ts1, h1, h⟩ := bind_ok h
  obtain ⟨_, ts2, h2, h⟩ := bind_ok h
  obtain ⟨value, ts3, h3, h⟩ := bind_ok h
  obtain ⟨last, ts4, h4, h⟩ := bind_ok h
  obtain ⟨rfl, rfl⟩ := pure_ok h
  rw [token_ok h1]
  exact leaf_declares rfl ((literals_advances _ h3).trans (token_advances _ _ h2)) (token_ok h4)

theorem package_declares : Gives package Declares := by
  intro ts n rest h
  unfold package at h
  obtain ⟨first, ts1, h1, h⟩ := bind_ok h
  obtain ⟨name, ts2, h2, h⟩ := bind_ok h
  obtain ⟨last, ts3, h3, h⟩ := bind_ok h
  obtain ⟨rfl, rfl⟩ := pure_ok h
  rw [token_ok h1]
  exact leaf_declares rfl (dotted_advances _ h2) (token_ok h3)

theorem importFile_declares : Gives importFile Declares := by
  intro ts n rest h
  rw [importFile_eq] at h
  obtain ⟨first, ts1, h1, h⟩ := bind_ok h
  obtain ⟨isPublic, ts2, h2, h⟩ := bind_ok h
  obtain ⟨isWeak, ts3, h3, h⟩ := bind_ok h
  obtain ⟨path, ts4, h4, h⟩ := bind_ok h
  obtain ⟨last, ts5, h5, h⟩ := bind_ok h
  obtain ⟨rfl, rfl⟩ := pure_ok h
  rw [token_ok h1]
  have words := (weakness_advances isPublic h3).trans (acceptToken_advances _ h2)
  exact leaf_declares rfl ((literals_advances _ h4).trans words) (token_ok h5)

theorem setting_declares : Gives setting Declares := by
  intro ts n rest h
  unfold setting at h
  obtain ⟨first, ts1, h1, h⟩ := bind_ok h
  obtain ⟨⟨name, value⟩, ts2, h2, h⟩ := bind_ok h
  obtain ⟨last, ts3, h3, h⟩ := bind_ok h
  obtain ⟨rfl, rfl⟩ := pure_ok h
  rw [token_ok h1]
  exact leaf_declares rfl (assignment_advances h2) (token_ok h3)

theorem enumValue_declares : Gives enumValue Declares := by
  intro ts n rest h
  unfold enumValue at h
  obtain ⟨name, ts1, h1, h⟩ := bind_ok h
  obtain ⟨_, ts2, h2, h⟩ := bind_ok h
  obtain ⟨negative, ts3, h3, h⟩ := bind_ok h
  obtain ⟨number, ts4, h4, h⟩ := bind_ok h
  obtain ⟨options, ts5, h5, h⟩ := bind_ok h
  obtain ⟨last, ts6, h6, h⟩ := bind_ok h
  obtain ⟨rfl, rfl⟩ := pure_ok h
  rw [token_ok h1]
  have h45 := (compactOptions_advances h5).trans (integer_advances _ h4)
  exact leaf_declares rfl
    ((h45.trans (acceptToken_advances _ h3)).trans (token_advances _ _ h2)) (token_ok h6)

/-- What a field reads behind its label. -/
theorem fieldBody_ok {label : Option FieldLabel} {start : Position} {ts rest : List Token}
    {n : Node} (h : fieldBody start label ts = .ok (n, rest)) :
    ∃ content name before after last, content.isDeclaration ∧ name :: before <:+ ts ∧
      after <:+ before ∧ after = last :: rest ∧ n = leaf content start last := by
  obtain ⟨type, ts1, h1, h⟩ := bind_ok h
  obtain ⟨name, ts2, h2, h⟩ := bind_ok h
  obtain ⟨_, ts3, h3, h⟩ := bind_ok h
  obtain ⟨number, ts4, h4, h⟩ := bind_ok h
  obtain ⟨options, ts5, h5, h⟩ := bind_ok h
  obtain ⟨last, ts6, h6, h⟩ := bind_ok h
  obtain ⟨rfl, rfl⟩ := pure_ok h
  have h45 := (compactOptions_advances h5).trans (integer_advances _ h4)
  have hname := fieldType_advances h1
  rw [token_ok h2] at hname
  exact ⟨_, name, ts2, ts5, last, rfl, hname, h45.trans (token_advances _ _ h3), token_ok h6, rfl⟩

theorem field_declares (labelled : Bool) : Gives (field labelled) Declares := by
  intro ts n rest h
  rw [field_eq] at h
  obtain ⟨start, ts1, h1, h⟩ := bind_ok h
  cases h1
  obtain ⟨label, ts2, h2, h⟩ := bind_ok h
  have hs2 := labelIf_advances labelled h2
  obtain ⟨content, name, before, after, last, hd, hname, hafter, hlast, rfl⟩ := fieldBody_ok h
  -- the first token is the name or stands before it, so the last one stands behind it
  cases ts with
  | nil =>
    have := (hname.trans hs2).length_le
    simp at this
  | cons first us =>
    have htail : before <:+ us := by
      rcases List.suffix_cons_iff.mp (hname.trans hs2) with he | hsuffix
      · cases he
        exact List.suffix_rfl
      · exact (List.suffix_cons name before).trans hsuffix
    exact leaf_declares hd (hafter.trans htail) hlast

theorem ranges_ok {first : String} {brackets : Nat} {item items : List String} {last : Token}
    {ts rest : List Token} (h : ranges first brackets item ts = .ok ((items, last), rest)) :
    last :: rest <:+ ts := by
  induction ts generalizing brackets item items with
  | nil => cases h
  | cons t ts ih =>
    simp only [ranges] at h
    generalize (if isSymbol '[' t = true then brackets + 1
      else if isSymbol ']' t = true then brackets - 1 else brackets) = open_ at h
    split_ifs at h
    · cases h
      exact List.suffix_rfl
    · obtain ⟨⟨⟨items', last'⟩, rest'⟩, hrec, he⟩ := Lexeme.map_ok h
      cases he
      exact (ih hrec).trans (List.suffix_cons t ts)
    · exact (ih h).trans (List.suffix_cons t ts)

theorem reserved_declares : Gives reserved Declares := by
  intro ts n rest h
  unfold reserved at h
  obtain ⟨first, ts1, h1, h⟩ := bind_ok h
  obtain ⟨⟨items, last⟩, ts2, h2, h⟩ := bind_ok h
  obtain ⟨rfl, rfl⟩ := pure_ok h
  rw [token_ok h1]
  exact leaf_declares rfl (ranges_ok h2) rfl

theorem plain_declares : ∀ r ∈ plain, Gives r Declares := by
  simp only [plain, List.forall_mem_cons]
  exact ⟨dialect_declares, package_declares, importFile_declares, setting_declares,
    enumValue_declares, reserved_declares, field_declares true, field_declares false,
    List.forall_mem_nil _⟩

/-! ### Declarations with a block -/

theorem isDeclaration_of_isBlock {content : Content} (hc : content.isBlock = true)
    (hroot : content ≠ .root) : content.isDeclaration := by
  cases content with
  | root => exact absurd rfl hroot
  | message _ | enumeration _ | service _ | rpc _ | oneof _ | extension _ => rfl
  | _ => cases hc

section Blocks
variable {block : Scope → Reader Block} (hb : ∀ scope, Gives (block scope) IsBlock)
include hb

theorem fenced_declare : ∀ r ∈ fenced block, Gives r Declares := by
  intro r hr ts n rest h
  obtain ⟨content, first, header, mid, body, hc, hroot, rfl, rfl, hbody⟩ := fenced_hasBlock r hr h
  obtain ⟨inner, rfl, hrow⟩ : ∃ inner, mid = inner ++ body.2 :: rest ∧ Row inner body.1 := by
    rcases hbody with ⟨scope, h⟩ | ⟨rfl, hnone⟩
    · obtain ⟨_, rfl, inner, rfl, hrow⟩ := hb scope h
      exact ⟨inner, by simp, hrow⟩
    · exact ⟨[], rfl, hnone ▸ .nil []⟩
  exact ⟨first :: (header ++ inner) ++ [body.2], by simp, first, header ++ inner, body.2, content,
    body.1, rfl, rfl, isDeclaration_of_isBlock hc hroot, hrow.skips header⟩

theorem sorts_declare : ∀ r ∈ plain ++ fenced block, Gives r Declares :=
  List.forall_mem_append.2 ⟨plain_declares, fenced_declare hb⟩

theorem member_declares (scope : Scope) : Gives (member block scope) Declares :=
  member_gives (sorts_declare hb) scope

/-- A declaration of a file is made of the tokens that are taken for it. -/
theorem declaration_declares : Gives (declaration block) Declares :=
  declaration_gives (sorts_declare hb)

end Blocks

/-- Declarations that are read one after the other are a row. -/
theorem many_row {ends : Token → Bool} {item : Reader Node} (hi : Gives item Declares) :
    Gives (many ends item) Row :=
  many_gives hi (.nil []) (fun _ hrow => hrow.skip _) fun hdecl hrow => hdecl.row hrow

/-- **A block is a row of declarations between its braces**, however deep blocks nest in it. -/
theorem block_row (room : ℕ) (scope : Scope) : Gives (block room scope) IsBlock := by
  induction room generalizing scope with
  | zero => exact fun ts body rest h => absurd h (block_zero_ne_ok scope ts _)
  | succ room ih =>
    intro ts body rest h
    obtain ⟨opening, mid, rfl, -, hmembers⟩ := block_ok h
    obtain ⟨used, rfl, hrow⟩ := many_row (member_declares ih scope) hmembers
    exact ⟨opening :: used ++ [body.2], by simp, opening :: used, rfl, hrow.skip opening⟩

/-- **The declarations of a file are a row in its tokens.** -/
theorem file_row {ts rest : List Token} {nodes : List Node}
    (h : file ts = .ok (nodes, rest)) : Row ts nodes := by
  obtain ⟨used, rfl, hrow⟩ := many_row (declaration_declares (block_row maxNesting)) h
  exact hrow.append_tokens rest

/-! ### What is in a row -/

/-- Every node of a row is a declaration, and starts where one of the tokens does. -/
theorem Row.node_start {ts : List Token} {ns : List Node} (h : Row ts ns) :
    ∀ n ∈ Node.walks ns, n.content.isDeclaration ∧ ∃ t ∈ ts, n.span.start = t.span.start := by
  induction h with
  | nil ts => exact fun n hn => absurd hn (by simp)
  | skip t _ ih =>
    intro n hn
    obtain ⟨hd, u, hu, he⟩ := ih n hn
    exact ⟨hd, u, List.mem_cons_of_mem t hu, he⟩
  | @node first last inner ts content children ns hd below rest ihb ihr =>
    intro n hn
    simp only [Node.walks_cons, Node.walk_eq, List.cons_append, List.mem_cons,
      List.mem_append] at hn
    rcases hn with rfl | hn | hn
    · exact ⟨hd, first, by simp, Span.between_start _ _⟩
    · obtain ⟨hd', u, hu, he⟩ := ihb n hn
      exact ⟨hd', u, by simp [hu], he⟩
    · obtain ⟨hd', u, hu, he⟩ := ihr n hn
      exact ⟨hd', u, by simp [hu], he⟩

/-- What holds of the points of the tokens holds of those of every node. -/
theorem Row.forall_points {P : Position → Prop} {ts : List Token} {ns : List Node} (h : Row ts ns)
    (hts : ∀ t ∈ ts, P t.span.start ∧ P t.span.stop) :
    ∀ n ∈ Node.walks ns, P n.span.start ∧ P n.span.stop := by
  induction h with
  | nil ts => exact fun n hn => absurd hn (by simp)
  | skip t _ ih => exact ih (List.forall_mem_cons.1 hts).2
  | @node first last inner ts content children ns hd below rest ihb ihr =>
    simp only [List.cons_append, List.forall_mem_cons, List.forall_mem_append] at hts
    obtain ⟨hfirst, hinner, hlast, hrest⟩ := hts
    simp only [Node.walks_cons, Node.walk_eq, List.cons_append, List.forall_mem_cons,
      List.forall_mem_append]
    refine ⟨⟨?_, ?_⟩, ihb hinner, ihr hrest⟩
    · rw [Span.between_start]
      exact hfirst.1
    · unfold Span.between
      split_ifs
      · exact hfirst.1
      · exact hlast.2

end Grammar

end SchemaDepot
