import SchemaDepot.Proofs.Schema.Acceptance
import SchemaDepot.Proofs.Schema.Nesting
import SchemaDepot.Proofs.Schema.Row

/-! # What each declaration was read off

A declaration is read off a stretch of the tokens, and it would be read off that stretch by itself
just the same, wherever it stands and however deep.

* `Reader.Recognizes.alone`: what a reader takes, it takes by itself, too.
* `Phrase.Ends`: how phrases end; a declaration ends with a semicolon or a closing brace.
* `Grammar.Reads`: tokens that are one declaration; `Grammar.file_reads`: every declaration of a
  file, at any depth. -/

namespace SchemaDepot

open Computability

namespace Reader

open Phrase (never clear_never)

variable {α : Type} {r : Reader α} {L : Language Token} {P Q : List Token → α → Prop}

/-- What a reader takes are the tokens in front of what is left, so they have all properties of what
it takes. -/
theorem Gives.and (h : Gives r P) (h' : Gives r Q) : Gives r fun used a => P used a ∧ Q used a := by
  intro ts a rest hr
  obtain ⟨used, rfl, hP⟩ := h hr
  obtain ⟨used', same, hQ⟩ := h' hr
  obtain rfl := List.append_cancel_right same
  exact ⟨used, rfl, hP, hQ⟩

theorem Gives.imp (h : Gives r P) (hPQ : ∀ used a, P used a → Q used a) : Gives r Q := by
  intro ts a rest hr
  obtain ⟨used, hused, hP⟩ := h hr
  exact ⟨used, hused, hPQ used a hP⟩

/-- What holds of all tokens that can be taken holds of a list of tokens that is taken whole. -/
theorem Gives.whole (h : Gives r P) {ts : List Token} {a : α} (hr : r ts = .ok (a, [])) :
    P ts a := by
  obtain ⟨used, rfl, hP⟩ := h hr
  rwa [List.append_nil]

/-- **What a reader takes, it takes by itself, too**, if it looks at nothing behind that. -/
theorem Recognizes.alone (h : Recognizes r L never) :
    Gives r fun used a => used ∈ L ∧ r used = .ok (a, []) := by
  intro ts a rest hr
  obtain ⟨w, rfl, hw⟩ := h.sound hr
  obtain ⟨b, hb⟩ := h.complete w hw
  have same := hr.symm.trans (hb rest (clear_never rest))
  cases same
  have alone := hb [] (clear_never [])
  rw [List.append_nil] at alone
  exact ⟨w, rfl, hw, alone⟩

/-- Each of several items is made of some of the tokens that are taken for all. -/
theorem many_each {ends : Token → Bool} (hr : Gives r P) :
    Gives (many ends r) fun used xs => ∀ x ∈ xs, ∃ us, us <:+: used ∧ P us x := by
  have behind (us : List Token) {vs : List Token} {xs : List α}
      (each : ∀ x ∈ xs, ∃ ws, ws <:+: vs ∧ P ws x) :
      ∀ x ∈ xs, ∃ ws, ws <:+: us ++ vs ∧ P ws x := fun x hx =>
    (each x hx).imp fun _ found => found.imp_left fun within =>
      within.trans (List.suffix_append us vs).isInfix
  refine many_gives hr nofun (fun {t} _ _ _ each => behind [t] each) fun {v} _ _ _ hx each => ?_
  exact List.forall_mem_cons.2 ⟨⟨v, (List.prefix_append _ _).isInfix, hx⟩, behind v each⟩

end Reader

/-! ### How phrases end -/

namespace Phrase

open Reader (isSymbol)
open Grammar (Scope)

variable {L M : Language Token} {p : Token → Bool}

/-- Every phrase ends with a token of which `p` holds. -/
def Ends (L : Language Token) (p : Token → Bool) : Prop :=
  ∀ w ∈ L, ∃ us t, w = us ++ [t] ∧ p t = true

theorem ends_one (accepts : Token → Bool) : Ends (one accepts) accepts := by
  rintro w ⟨t, ht, rfl⟩
  exact ⟨[], t, rfl, ht⟩

theorem Ends.mul (h : Ends M p) (L : Language Token) : Ends (L * M) p := by
  rintro _ ⟨v, -, w, hw, rfl⟩
  obtain ⟨us, t, rfl, ht⟩ := h w hw
  exact ⟨v ++ us, t, (List.append_assoc v us [t]).symm, ht⟩

theorem Ends.or (hL : Ends L p) (hM : Ends M p) : Ends (L + M) p := by
  rintro w (hw | hw)
  · exact hL w hw
  · exact hM w hw

theorem Ends.le (h : Ends M p) (hLM : L ≤ M) : Ends L p := fun w hw => h w (hLM hw)

/-- The token ends declarations: a semicolon or a closing brace. -/
def isEnd (t : Token) : Bool := isSymbol ';' t || isSymbol '\x7d' t

theorem ends_semicolon : Ends (symbol ';') isEnd := by
  intro w hw
  obtain ⟨us, t, rfl, ht⟩ := ends_one _ w hw
  exact ⟨us, t, rfl, by rw [isEnd, ht, Bool.true_or]⟩

theorem ends_brace : Ends (symbol '\x7d') isEnd := by
  intro w hw
  obtain ⟨us, t, rfl, ht⟩ := ends_one _ w hw
  exact ⟨us, t, rfl, by rw [isEnd, ht, Bool.or_true]⟩

theorem ends_reserved (w : String) : Ends (reserved w) isEnd := by
  refine Ends.mul ?_ _
  rintro _ ⟨inner, last, rfl, hlast, -⟩
  exact ⟨inner, last, rfl, by rw [isEnd, hlast, Bool.true_or]⟩

theorem ends_block (leads : Scope → List String) (depth : Nat) (scope : Scope) :
    Ends (block leads depth scope) isEnd := by
  cases depth with
  | zero => exact nofun
  | succ depth => exact ends_brace.mul _

section Blocks
variable (leads : Scope → List String) {B : Scope → Language Token}
  (hB : ∀ scope, Ends (B scope) isEnd)
include hB

theorem ends_member (scope : Scope) : Ends (member leads B scope) isEnd := by
  have setting : Ends setting isEnd := ends_semicolon.mul _
  have named (kind : String) (scope : Scope) : Ends (named B kind scope) isEnd := (hB scope).mul _
  have field (scope : Scope) : Ends (field leads scope) isEnd :=
    ((ends_semicolon.mul _).mul _).or ((ends_semicolon.mul _).le avoiding_le)
  cases scope
  case message =>
    exact (((((setting.or (named _ _)).or (named _ _)).or ((hB _).mul _)).or (named _ _)).or
      ((ends_reserved _).or (ends_reserved _))).or (field _)
  case enumeration =>
    exact (setting.or (ends_reserved _)).or ((ends_semicolon.mul _).le avoiding_le)
  case service => exact setting.or ((ends_semicolon.or (hB _)).mul _)
  case rpc => exact setting
  case oneof => exact setting.or ((ends_semicolon.mul _).le avoiding_le)
  case extension => exact field _

theorem ends_declaration : Ends (declaration B) isEnd := by
  have leaf (L : Language Token) : Ends (L * symbol ';') isEnd := ends_semicolon.mul _
  have named (kind : String) (scope : Scope) : Ends (named B kind scope) isEnd := (hB scope).mul _
  exact (((((((leaf _).or (leaf _)).or (leaf _)).or (leaf _)).or (named _ _)).or
    (named _ _)).or (named _ _)).or ((hB _).mul _)

end Blocks

end Phrase

namespace Grammar

open Reader
open Phrase (never)

section Blocks
variable {block : Scope → Reader Block}

/-! ### The declarations in a block -/

variable (block) in
/-- The declarations below a node are those of a block among the tokens, or there are none. -/
def Below (ts : List Token) (n : Node) : Prop :=
  n.children = [] ∨ ∃ scope body mid, mid <:+: ts ∧ block scope mid = .ok (body, []) ∧
    n.children = body.1

theorem below_of_bare {r : Reader Node} (h : Gives r Declares) (bare : Yields r Bare) :
    Gives r (Below block) := by
  intro ts n rest hr
  obtain ⟨used, hused, -⟩ := h hr
  exact ⟨used, hused, Or.inl (bare hr)⟩

theorem plain_below : ∀ r ∈ plain, Gives r (Below block) := fun r hr =>
  below_of_bare (plain_declares r hr) (plain_bare r hr)

variable (hb : ∀ scope, Gives (block scope) fun mid body => block scope mid = .ok (body, []))
include hb

theorem fenced_below : ∀ r ∈ fenced block, Gives r (Below block) := by
  intro r hr ts n rest h
  obtain ⟨content, first, header, mid, body, -, -, rfl, rfl, hbody⟩ := fenced_hasBlock r hr h
  rcases hbody with ⟨scope, h⟩ | ⟨rfl, hnone⟩
  · obtain ⟨mid, rfl, alone⟩ := hb scope h
    refine ⟨first :: header ++ mid, by simp, Or.inr ⟨scope, body, mid, ?_, alone, rfl⟩⟩
    exact (List.suffix_append _ mid).isInfix
  · exact ⟨first :: header ++ [body.2], by simp, Or.inl hnone⟩

theorem readers_below : ∀ r ∈ plain ++ fenced block, Gives r (Below block) :=
  List.forall_mem_append.2 ⟨plain_below, fenced_below hb⟩

end Blocks

/-! ### Declarations at any depth -/

/-- The tokens by themselves are read as the declaration, in a block of some scope or in a file. -/
def Reads (ts : List Token) (n : Node) : Prop :=
  (∃ room scope, member (block room) scope ts = .ok (n, [])) ∨
    declaration (block maxNesting) ts = .ok (n, [])

theorem member_alone (room : Nat) (scope : Scope) :
    Gives (member (block room) scope) fun used n => member (block room) scope used = .ok (n, []) :=
  (member_recognizes (block_recognizes room) (begins_block _ room) scope).alone.imp
    fun _ _ h => h.2

theorem block_alone (room : Nat) (scope : Scope) :
    Gives (block room scope) fun mid body => block room scope mid = .ok (body, []) :=
  (block_recognizes room scope).alone.imp fun _ _ h => h.2

/-- What is read alone is made of these tokens; what is below it, of some of them. -/
theorem Below.reads {room : Nat} (hb : ∀ scope, Gives (block room scope) fun used body =>
      ∀ x ∈ Node.walks body.1, ∃ us, us <:+: used ∧ Reads us x)
    {ts : List Token} {n : Node} (alone : Reads ts n) (below : Below (block room) ts n) :
    ∀ x ∈ n.walk, ∃ us, us <:+: ts ∧ Reads us x := by
  rw [Node.walk_eq, List.forall_mem_cons]
  refine ⟨⟨ts, List.infix_rfl, alone⟩, fun x hx => ?_⟩
  rcases below with hnone | ⟨scope, body, mid, hmid, hbody, hchildren⟩
  · rw [hnone] at hx
    cases hx
  · rw [hchildren] at hx
    obtain ⟨us, hus, reads⟩ := (hb scope).whole hbody x hx
    exact ⟨us, hus.trans hmid, reads⟩

theorem many_reads {ends : Token → Bool} {r : Reader Node}
    (hr : Gives r fun used n => ∀ x ∈ n.walk, ∃ us, us <:+: used ∧ Reads us x) :
    Gives (many ends r) fun used ns => ∀ x ∈ Node.walks ns, ∃ us, us <:+: used ∧ Reads us x := by
  refine (many_each hr).imp fun used ns each x hx => ?_
  obtain ⟨n, hn, hx⟩ := List.mem_flatMap.1 hx
  obtain ⟨vs, hvs, below⟩ := each n hn
  obtain ⟨us, hus, reads⟩ := below x hx
  exact ⟨us, hus.trans hvs, reads⟩

/-- **The declarations in a block**, at any depth, are read off tokens of it. -/
theorem block_reads (room : Nat) (scope : Scope) : Gives (block room scope) fun used body =>
    ∀ x ∈ Node.walks body.1, ∃ us, us <:+: used ∧ Reads us x := by
  induction room generalizing scope with
  | zero =>
    intro ts body rest h
    obtain ⟨used, hused, -⟩ := block_row 0 scope h
    refine ⟨used, hused, fun x hx => ?_⟩
    obtain ⟨c, hc, -⟩ := List.mem_flatMap.1 hx
    exact (block_nests 0 scope h c hc).elim
  | succ room ih =>
    have item : Gives (member (block room) scope) fun used n =>
        ∀ x ∈ n.walk, ∃ us, us <:+: used ∧ Reads us x :=
      ((member_alone room scope).and
        (member_gives (readers_below (block_alone room)) scope)).imp
          fun _ _ ⟨alone, below⟩ => Below.reads ih (Or.inl ⟨room, scope, alone⟩) below
    intro ts body rest h
    obtain ⟨opening, mid, rfl, -, hmembers⟩ := block_ok h
    obtain ⟨used, rfl, each⟩ := many_reads item hmembers
    refine ⟨opening :: used ++ [body.2], by simp, fun x hx => ?_⟩
    obtain ⟨us, hus, reads⟩ := each x hx
    exact ⟨us, hus.trans ⟨[opening], [body.2], rfl⟩, reads⟩

theorem declarationOfFile_alone : Gives (declaration (block maxNesting)) fun used n =>
    declaration (block maxNesting) used = .ok (n, []) :=
  declarationOfFile_recognizes.alone.imp fun _ _ h => h.2

/-- **The declarations of a file**, at any depth, are read off its tokens. -/
theorem file_reads {ts rest : List Token} {nodes : List Node} (h : file ts = .ok (nodes, rest)) :
    ∀ x ∈ Node.walks nodes, ∃ us, us <:+: ts ∧ Reads us x := by
  have item : Gives (declaration (block maxNesting)) fun used n =>
      ∀ x ∈ n.walk, ∃ us, us <:+: used ∧ Reads us x :=
    (declarationOfFile_alone.and (declaration_gives (readers_below (block_alone maxNesting)))).imp
      fun _ _ ⟨alone, below⟩ => Below.reads (block_reads maxNesting) (Or.inr alone) below
  obtain ⟨used, rfl, each⟩ := many_reads item h
  intro x hx
  obtain ⟨us, hus, reads⟩ := each x hx
  exact ⟨us, hus.trans (List.prefix_append used rest).isInfix, reads⟩

/-- Those that stand in no block are read as declarations of a file. -/
theorem file_each {ts rest : List Token} {nodes : List Node} (h : file ts = .ok (nodes, rest)) :
    ∀ n ∈ nodes, ∃ us, us <:+: ts ∧ declaration (block maxNesting) us = .ok (n, []) := by
  obtain ⟨used, rfl, each⟩ := many_each declarationOfFile_alone h
  intro n hn
  obtain ⟨us, hus, alone⟩ := each n hn
  exact ⟨us, hus.trans (List.prefix_append used rest).isInfix, alone⟩

/-- Tokens that are read as a declaration are one from the first to the last of them. -/
theorem Reads.declares {ts : List Token} {n : Node} (h : Reads ts n) : Declares ts n := by
  rcases h with ⟨room, scope, h⟩ | h
  · exact (member_declares (block_row room) scope).whole h
  · exact (declaration_declares (block_row maxNesting)).whole h

/-- The last of them is a semicolon or a closing brace. -/
theorem Reads.ends {ts : List Token} {n : Node} (h : Reads ts n) :
    ∃ us t, ts = us ++ [t] ∧ Phrase.isEnd t = true := by
  rcases h with ⟨room, scope, h⟩ | h
  · exact Phrase.ends_member _ (Phrase.ends_block _ room) scope ts
      ((member_recognizes (block_recognizes room) (begins_block _ room) scope).alone.whole h).1
  · exact Phrase.ends_declaration (Phrase.ends_block _ maxNesting) ts
      (declarationOfFile_recognizes.alone.whole h).1

end Grammar

end SchemaDepot
