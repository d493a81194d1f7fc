import SchemaDepot.Proofs.Schema.Advance
import SchemaDepot.Proofs.Schema.Row
import SchemaDepot.Proofs.Token.Move

/-! # Moved declarations

The points of a text are mapped by a function `f`; contents and names stay.

* `Comment.move`, `Node.move`, ...: with other points.
* `Reader.Carries`: a reader does with moved tokens what another one does with the tokens as they
  are, and gives the same result, moved.
* `Grammar.file_carries`: so the grammar reads moved tokens. -/

namespace SchemaDepot

variable (f : Position → Position)

/-! ### Moving -/

/-- The comment, elsewhere. -/
def Comment.move (c : Comment) : Comment := { c with span := c.span.move f }

/-- The directive, elsewhere. -/
def Directive.move (d : Directive) : Directive := { d with span := d.span.move f }

/-- The content, elsewhere, if it knows where it stands. -/
def Content.move : Content → Content
  | .comment c => .comment (c.move f)
  | .directive d => .directive (d.move f)
  | content => content

namespace Node

mutual

/-- The tree, elsewhere, with all that it carries. -/
def move : Node → Node
  | ⟨content, span, comments, directives, children⟩ =>
    ⟨content.move f, span.move f, comments.map (Comment.move f), directives.map (Directive.move f),
      moves children⟩

/-- Trees in a row, elsewhere. -/
def moves : List Node → List Node
  | [] => []
  | n :: ns => n.move :: moves ns

end

@[simp] theorem move_content (n : Node) : (n.move f).content = n.content.move f := by cases n; rfl

@[simp] theorem move_span (n : Node) : (n.move f).span = n.span.move f := by cases n; rfl

@[simp] theorem move_children (n : Node) : (n.move f).children = moves f n.children := by
  cases n; rfl

theorem moves_eq_map (ns : List Node) : moves f ns = ns.map (move f) := by
  induction ns with
  | nil => rfl
  | cons n ns ih => rw [moves, ih, List.map_cons]

end Node

/-- The tokens before which reading stopped, elsewhere. -/
def Stop.move (s : Stop) : Stop := ⟨s.fault, s.rest.map (Token.move f)⟩

@[simp] theorem Stop.move_fault (s : Stop) : (s.move f).fault = s.fault := rfl

theorem Content.isDeclaration_move (content : Content) :
    (content.move f).isDeclaration = content.isDeclaration := by
  cases content <;> rfl

theorem Content.move_of_isDeclaration {content : Content} (h : content.isDeclaration) :
    content.move f = content := by
  cases content <;> first | rfl | cases h

namespace Reader

variable {α β γ δ : Type} {f} {g : α → β}

/-- What a reader gives for tokens, another one gives for the moved tokens, as `g` tells; and where
the first one stops, the other one does for the same reason. -/
structure Carries (f : Position → Position) (g : α → β) (r : Reader α) (s : Reader β) : Prop where
  ok : ∀ {ts a rest}, r ts = .ok (a, rest) →
    s (ts.map (Token.move f)) = .ok (g a, rest.map (Token.move f))
  error : ∀ {ts stop}, r ts = .error stop → s (ts.map (Token.move f)) = .error (stop.move f)

theorem Carries.of_eq {r : Reader α} {s : Reader β} (h : ∀ ts, s (ts.map (Token.move f)) =
    ((r ts).map (Prod.map g (List.map (Token.move f)))).mapError (Stop.move f)) :
    Carries f g r s := by
  constructor
  · intro ts a rest hr
    rw [h, hr]
    rfl
  · intro ts stop hr
    rw [h, hr]
    rfl

theorem Carries.eq {r : Reader α} {s : Reader β} (h : Carries f g r s) (ts : List Token) :
    s (ts.map (Token.move f)) =
      ((r ts).map (Prod.map g (List.map (Token.move f)))).mapError (Stop.move f) := by
  cases hr : r ts with
  | ok found => exact h.ok hr
  | error stop => exact h.error hr

theorem Carries.pure (a : α) : Carries f g (Pure.pure a) (Pure.pure (g a)) := by
  refine ⟨fun {ts b rest} h => ?_, nofun⟩
  obtain ⟨rfl, rfl⟩ := pure_ok h
  rfl

theorem Carries.pure_of_eq {a : α} {b : β} (h : g a = b) :
    Carries f g (Pure.pure a) (Pure.pure b) := h ▸ Carries.pure a

theorem bind_error {r : Reader α} {k : α → Reader β} {ts : List Token} {stop : Stop}
    (h : (r >>= k) ts = .error stop) :
    r ts = .error stop ∨ ∃ a mid, r ts = .ok (a, mid) ∧ k a mid = .error stop := by
  cases hr : r ts with
  | error stop' =>
    simp only [bind, StateT.bind, hr, Except.bind] at h
    cases h
    exact Or.inl rfl
  | ok found =>
    obtain ⟨a, mid⟩ := found
    simp only [bind, StateT.bind, hr, Except.bind] at h
    exact Or.inr ⟨a, mid, rfl, h⟩

/-- One reader after another. -/
theorem Carries.bind {h : γ → δ} {r : Reader α} {s : Reader β} {k : α → Reader γ}
    {l : β → Reader δ} (hr : Carries f g r s) (hk : ∀ a, Carries f h (k a) (l (g a))) :
    Carries f h (r >>= k) (s >>= l) := by
  constructor
  · intro ts c rest hc
    obtain ⟨a, mid, h1, h2⟩ := bind_ok hc
    simp only [Bind.bind, StateT.bind, hr.ok h1, Except.bind]
    exact (hk a).ok h2
  · intro ts stop hstop
    rcases bind_error hstop with h1 | ⟨a, mid, h1, h2⟩
    · simp only [Bind.bind, StateT.bind, hr.error h1, Except.bind]
    · simp only [Bind.bind, StateT.bind, hr.ok h1, Except.bind]
      exact (hk a).error h2

/-- One reader after another, where the first one gives nothing that moves. -/
theorem Carries.then {h : γ → δ} {r s : Reader α} {k : α → Reader γ} {l : α → Reader δ}
    (hr : Carries f id r s) (hk : ∀ a, Carries f h (k a) (l a)) :
    Carries f h (r >>= k) (s >>= l) := hr.bind hk

theorem Carries.ite {c : Prop} [Decidable c] {r r' : Reader α} {s s' : Reader β}
    (h : Carries f g r s) (h' : Carries f g r' s') :
    Carries f g (if c then r else r') (if c then s else s') := by
  split_ifs
  · exact h
  · exact h'

/-! ### Single tokens -/

theorem head?_map_move (ts : List Token) :
    (ts.map (Token.move f)).head? = ts.head?.map (Token.move f) := List.head?_map

theorem expected_carries (what : String) : Carries f g (expected what) (expected what) := by
  refine ⟨nofun, fun {ts stop} h => ?_⟩
  cases h
  simp only [expected, head?_map_move, Option.map_map]
  rfl

theorem peek_carries : Carries f (Option.map (Token.move f)) peek peek := by
  refine ⟨fun {ts a rest} h => ?_, nofun⟩
  cases h
  simp only [peek, head?_map_move]

theorem peekWord_carries : Carries f id peekWord peekWord := by
  refine ⟨fun {ts a rest} h => ?_, nofun⟩
  cases h
  cases ts <;> rfl

theorem get_carries : Carries f (List.map (Token.move f)) get get := by
  refine ⟨fun {ts a rest} h => ?_, nofun⟩
  cases h
  rfl

/-- A condition that does not depend on where a token stands. -/
def Placeless (accepts : Token → Bool) : Prop :=
  ∀ (f : Position → Position) (t : Token), accepts (t.move f) = accepts t

theorem token_carries {accepts : Token → Bool} (h : Placeless accepts) (what : String) :
    Carries f (Token.move f) (token accepts what) (token accepts what) := by
  constructor
  · intro ts t rest ht
    cases ts with
    | nil => cases ht
    | cons u us =>
      simp only [token] at ht
      split_ifs at ht with hu <;> cases ht
      simp only [List.map_cons, token, h f, if_pos hu]
  · intro ts stop ht
    cases ts with
    | nil => exact (expected_carries (g := Token.move f) what).error ht
    | cons u us =>
      simp only [token] at ht
      split_ifs at ht with hu
      simp only [List.map_cons, token, h f, if_neg hu]
      exact (expected_carries (g := Token.move f) what).error ht

theorem acceptToken_carries {accepts : Token → Bool} (h : Placeless accepts) :
    Carries f id (acceptToken accepts) (acceptToken accepts) := by
  constructor
  · intro ts b rest hb
    cases ts with
    | nil =>
      cases hb
      rfl
    | cons t ts =>
      simp only [List.map_cons, acceptToken, h f] at hb ⊢
      split_ifs at hb ⊢ <;> cases hb <;> rfl
  · intro ts stop hstop
    cases ts with
    | nil => cases hstop
    | cons t ts =>
      simp only [acceptToken] at hstop
      split_ifs at hstop

theorem isSymbol_placeless (c : Char) : Placeless (isSymbol c) := fun _ _ => rfl

theorem isWord_placeless (w : String) : Placeless (isWord w) := fun _ _ => rfl

theorem symbol_carries (c : Char) : Carries f (Token.move f) (symbol c) (symbol c) :=
  token_carries (isSymbol_placeless c) _

theorem word_carries (what : String) : Carries f (Token.move f) (word what) (word what) :=
  token_carries (fun _ _ => rfl) what

theorem keyword_carries (w : String) : Carries f (Token.move f) (keyword w) (keyword w) :=
  token_carries (isWord_placeless w) _

theorem accept_carries (c : Char) : Carries f id (accept c) (accept c) :=
  acceptToken_carries (isSymbol_placeless c)

theorem acceptWord_carries (w : String) : Carries f id (acceptWord w) (acceptWord w) :=
  acceptToken_carries (isWord_placeless w)

/-! ### Repetitions -/

section Repetitions
variable {item : Reader α} {item' : Reader β} (hi : Carries f g item item')
include hi

theorem follow_carries (sep : Char) (room : List Token) : Carries f (List.map g)
    (follow sep item room) (follow sep item' (room.map (Token.move f))) := by
  induction room with
  | nil => exact Carries.pure []
  | cons _ room ih =>
    exact (accept_carries sep).bind fun b => Carries.ite
      (hi.bind fun x => ih.bind fun xs => Carries.pure (x :: xs)) (Carries.pure [])

theorem followers_carries (sep : Char) :
    Carries f (List.map g) (followers sep item) (followers sep item') :=
  get_carries.bind fun room => follow_carries hi sep room

theorem chain_carries (sep : Char) :
    Carries f (List.map g) (chain sep item) (chain sep item') :=
  hi.bind fun x => (followers_carries hi sep).bind fun xs => Carries.pure (x :: xs)

theorem manyWithin_carries {ends : Token → Bool} (he : Placeless ends) (room : List Token) :
    Carries f (List.map g) (manyWithin ends item room)
      (manyWithin ends item' (room.map (Token.move f))) := by
  induction room with
  | nil => exact Carries.pure []
  | cons _ room ih =>
    refine peek_carries.bind fun next => ?_
    cases next with
    | none => exact Carries.pure []
    | some t =>
      simp only [Option.map_some, he f t, isSymbol_placeless ';' f t]
      exact Carries.ite (Carries.pure []) (Carries.ite
        ((accept_carries ';').bind fun _ => ih)
        (hi.bind fun x => ih.bind fun xs => Carries.pure (x :: xs)))

theorem many_carries {ends : Token → Bool} (he : Placeless ends) :
    Carries f (List.map g) (many ends item) (many ends item') :=
  get_carries.bind fun room => manyWithin_carries hi he room

end Repetitions

end Reader

namespace Grammar

open Reader

variable {f}

/-! ### Names and values -/

theorem dotted_carries (what : String) : Carries f id (dotted what) (dotted what) :=
  (accept_carries '.').bind fun _ => (chain_carries (word_carries what) '.').bind fun words => by
    simp only [List.map_map, id]
    exact Carries.pure _

theorem optionNamePart_carries : Carries f id optionNamePart optionNamePart :=
  (accept_carries '(').bind fun _ => Carries.ite
    ((dotted_carries _).bind fun _ => (symbol_carries ')').bind fun _ => Carries.pure _)
    ((word_carries _).bind fun _ => Carries.pure _)

theorem optionName_carries : Carries f id optionName optionName :=
  (chain_carries optionNamePart_carries '.').bind fun parts => by
    rw [List.map_id]
    exact Carries.pure _

theorem moreLiterals_carries : Carries f id moreLiterals moreLiterals := by
  refine ⟨fun {ts a rest} h => ?_, nofun⟩
  cases h
  simp only [moreLiterals, List.takeWhile_map, List.dropWhile_map, List.map_map]
  rfl

theorem literals_carries (what : String) : Carries f id (literals what) (literals what) :=
  (token_carries (fun _ _ => rfl) what).bind fun _ => moreLiterals_carries.bind fun _ =>
    Carries.pure _

theorem aggregateTail_carries (depth : Nat) :
    Carries f id (aggregateTail depth) (aggregateTail depth) := by
  refine Carries.of_eq fun ts => ?_
  induction ts generalizing depth with
  | nil => rfl
  | cons t ts ih =>
    have keeps : kept (t.move f) = kept t := rfl
    rw [List.map_cons, aggregateTail_cons, aggregateTail_cons]
    simp only [isSymbol_placeless _ f t, keeps]
    split_ifs
    all_goals first | rfl | rw [ih]; cases aggregateTail _ ts <;> rfl

theorem aggregate_carries : Carries f id aggregate aggregate :=
  (symbol_carries '\x7b').bind fun _ => (aggregateTail_carries 1).bind fun _ => Carries.pure _

theorem constant_carries : Carries f id constant constant := by
  refine peek_carries.bind fun next => ?_
  have kind : (next.map (Token.move f)).map Token.kind = next.map Token.kind := by
    cases next <;> rfl
  rw [kind]
  split
  · exact literals_carries _
  · exact (token_carries (fun _ _ => rfl) _).bind fun _ => Carries.pure _
  · exact (token_carries (fun _ _ => rfl) _).bind fun _ => Carries.pure _
  · exact (symbol_carries _).bind fun _ => (token_carries (fun _ _ => rfl) _).bind fun _ =>
      Carries.pure _
  · exact (symbol_carries _).bind fun _ => (token_carries (fun _ _ => rfl) _).bind fun _ =>
      Carries.pure _
  · exact dotted_carries _
  · exact aggregate_carries
  · exact expected_carries _

theorem assignment_carries : Carries f id assignment assignment :=
  optionName_carries.bind fun _ => (symbol_carries '=').bind fun _ => constant_carries.bind fun _ =>
    Carries.pure _

theorem compactOptions_carries : Carries f id compactOptions compactOptions :=
  (accept_carries '[').bind fun _ => Carries.ite
    ((chain_carries assignment_carries ',').bind fun options => by
      rw [List.map_id]
      exact (symbol_carries ']').bind fun _ => Carries.pure _)
    (Carries.pure [])

/-! ### Declarations without a block -/

section Declarations
variable (hf : Compatible f)
include hf

theorem leaf_move {content : Content} (hd : content.isDeclaration) (start : Position)
    (last : Token) :
    (leaf content start last).move f = leaf content (f start) (last.move f) := by
  have span := hf start last.span.stop
  simp only [leaf, Node.move, Content.move_of_isDeclaration f hd, ← span]
  rfl

theorem leaf_carries {content : Content} (hd : content.isDeclaration) (start : Position) :
    Carries f (Node.move f) (do return leaf content start (← symbol ';'))
      (do return leaf content (f start) (← symbol ';')) :=
  (symbol_carries ';').bind fun last => Carries.pure_of_eq (leaf_move hf hd start last)

theorem dialect_carries : Carries f (Node.move f) dialect dialect :=
  (token_carries (fun _ _ => rfl) _).bind fun first => (symbol_carries '=').bind fun _ =>
    (literals_carries _).bind fun _ => leaf_carries hf rfl first.span.start

theorem package_carries : Carries f (Node.move f) package package :=
  (keyword_carries _).bind fun first => (dotted_carries _).bind fun _ =>
    leaf_carries hf rfl first.span.start

omit hf in
theorem weakness_carries (isPublic : Bool) :
    Carries f id (weakness isPublic) (weakness isPublic) :=
  Carries.ite (Carries.pure _) (acceptWord_carries _)

theorem importFile_carries : Carries f (Node.move f) importFile importFile := by
  rw [importFile_eq]
  exact (keyword_carries _).bind fun first => (acceptWord_carries _).bind fun isPublic =>
    (weakness_carries isPublic).bind fun _ => (literals_carries _).bind fun _ =>
      leaf_carries hf rfl first.span.start

theorem setting_carries : Carries f (Node.move f) setting setting :=
  (keyword_carries _).bind fun first => assignment_carries.bind fun _ =>
    leaf_carries hf rfl first.span.start

omit hf in
theorem fieldLabel_carries : Carries f id fieldLabel fieldLabel :=
  (acceptWord_carries _).bind fun _ => Carries.ite (Carries.pure _)
    ((acceptWord_carries _).bind fun _ => Carries.ite (Carries.pure _)
      ((acceptWord_carries _).bind fun _ => Carries.ite (Carries.pure _) (Carries.pure _)))

omit hf in
theorem fieldType_carries : Carries f id fieldType fieldType :=
  (acceptWord_carries _).bind fun _ => Carries.ite
    ((accept_carries _).bind fun _ => Carries.ite
      ((dotted_carries _).bind fun _ => (symbol_carries _).bind fun _ =>
        (dotted_carries _).bind fun _ => (symbol_carries _).bind fun _ => Carries.pure _)
      ((followers_carries (word_carries _) '.').bind fun words => by
        simp only [List.map_map]
        exact Carries.pure _))
    (dotted_carries _)

omit hf in
theorem integer_carries (what : String) : Carries f id (integer what) (integer what) :=
  (token_carries (fun _ _ => rfl) what).bind fun _ => Carries.pure _

theorem fieldBody_carries (start : Position) (label : Option FieldLabel) :
    Carries f (Node.move f) (fieldBody start label) (fieldBody (f start) label) :=
  fieldType_carries.bind fun _ => (word_carries _).bind fun _ => (symbol_carries _).bind fun _ =>
    (integer_carries _).bind fun _ => compactOptions_carries.bind fun _ =>
      leaf_carries hf rfl start

theorem field_carries (labelled : Bool) :
    Carries f (Node.move f) (field labelled) (field labelled) := by
  refine Carries.of_eq fun ts => ?_
  cases ts with
  | nil => cases labelled <;> rfl
  | cons t ts =>
    -- the field starts where its first token does
    cases labelled with
    | false => exact (fieldBody_carries hf t.span.start none).eq (t :: ts)
    | true => exact (fieldLabel_carries.then (fieldBody_carries hf t.span.start)).eq (t :: ts)

theorem enumValue_carries : Carries f (Node.move f) enumValue enumValue :=
  (word_carries _).bind fun name => (symbol_carries _).bind fun _ =>
    (accept_carries _).bind fun _ => (integer_carries _).bind fun _ =>
      compactOptions_carries.bind fun _ => leaf_carries hf rfl name.span.start

omit hf in
theorem ranges_carries (first : String) (brackets : Nat) (item : List String) :
    Carries f (Prod.map id (Token.move f)) (ranges first brackets item)
      (ranges first brackets item) := by
  refine Carries.of_eq fun ts => ?_
  induction ts generalizing brackets item with
  | nil => rfl
  | cons t ts ih =>
    have text : (t.move f).text = t.text := rfl
    rw [List.map_cons, ranges, ranges]
    simp only [isSymbol_placeless _ f t, text, ih]
    split_ifs
    all_goals first | rfl | cases ranges _ _ _ ts <;> rfl

theorem reserved_carries : Carries f (Node.move f) reserved reserved :=
  (token_carries (fun _ _ => rfl) _).bind fun first => (ranges_carries _ _ _).bind fun found =>
    Carries.pure_of_eq (leaf_move hf rfl first.span.start found.2)

end Declarations

/-! ### Declarations with a block -/

section Blocks
variable (hf : Compatible f) {block block' : Scope → Reader Block}
  (hb : ∀ scope, Carries f (Prod.map (Node.moves f) (Token.move f)) (block scope) (block' scope))
include hf hb

omit hb in
theorem blockNode_move {content : Content} (hd : content.isDeclaration) (first : Token)
    (body : Block) : (blockNode content first body).move f =
      blockNode content (first.move f) (Prod.map (Node.moves f) (Token.move f) body) := by
  have span := hf first.span.start body.2.span.stop
  simp only [blockNode, Node.move, Content.move_of_isDeclaration f hd, ← span]
  rfl

theorem blockNode_carries {content : Content} (hd : content.isDeclaration) (first : Token)
    (scope : Scope) : Carries f (Node.move f) (do return blockNode content first (← block scope))
      (do return blockNode content (first.move f) (← block' scope)) :=
  (hb scope).bind fun body => Carries.pure_of_eq (blockNode_move hf hd first body)

theorem namedBlock_carries {kind what : String} {content : String → Content} {scope : Scope}
    (hd : ∀ name, (content name).isDeclaration) : Carries f (Node.move f)
      (namedBlock block kind what content scope) (namedBlock block' kind what content scope) :=
  (keyword_carries _).bind fun first => (word_carries _).bind fun name =>
    blockNode_carries hf hb (hd name.text) first scope

theorem extension_carries : Carries f (Node.move f) (extension block) (extension block') :=
  (keyword_carries _).bind fun first => (dotted_carries _).bind fun _ =>
    blockNode_carries hf hb rfl first .extension

omit hf hb in
theorem rpcType_carries : Carries f id rpcType rpcType := by
  have type (isStream : Bool) : Carries f id (do
      let type ← dotted "a message type"
      let _ ← symbol ')'
      return (type, isStream)) (do
      let type ← dotted "a message type"
      let _ ← symbol ')'
      return (type, isStream)) :=
    (dotted_carries _).bind fun _ => (symbol_carries _).bind fun _ => Carries.pure _
  exact (symbol_carries '(').bind fun _ => (acceptWord_carries _).bind fun _ =>
    Carries.ite ((accept_carries _).bind fun _ => Carries.ite (Carries.pure _) (type true))
      (type false)

omit hf in
theorem rpcBody_carries : Carries f (Prod.map (Node.moves f) (Token.move f)) (rpcBody block)
    (rpcBody block') := by
  have semicolon : Carries f (Prod.map (Node.moves f) (Token.move f))
      (do return (([] : List Node), ← symbol ';')) (do return ([], ← symbol ';')) :=
    (symbol_carries ';').bind fun last => Carries.pure _
  refine peek_carries.bind fun next => ?_
  cases next with
  | none => exact semicolon
  | some t => exact Carries.ite (hb .rpc) semicolon

theorem rpc_carries : Carries f (Node.move f) (rpc block) (rpc block') :=
  (keyword_carries _).bind fun first => (word_carries _).bind fun _ =>
    rpcType_carries.bind fun _ => (keyword_carries _).bind fun _ =>
    rpcType_carries.bind fun _ => (rpcBody_carries hb).bind fun body =>
      Carries.pure_of_eq (blockNode_move hf rfl first body)

theorem sorts_carry : List.Forall₂ (Carries f (Node.move f)) (plain ++ fenced block)
    (plain ++ fenced block') := by
  simp only [plain, fenced, List.cons_append, List.nil_append, List.forall₂_cons]
  exact ⟨dialect_carries hf, package_carries hf, importFile_carries hf, setting_carries hf,
    enumValue_carries hf, reserved_carries hf, field_carries hf true, field_carries hf false,
    namedBlock_carries hf hb fun _ => rfl, namedBlock_carries hf hb fun _ => rfl,
    namedBlock_carries hf hb fun _ => rfl, namedBlock_carries hf hb fun _ => rfl,
    extension_carries hf hb, rpc_carries hf hb, .nil⟩

theorem member_carries (scope : Scope) :
    Carries f (Node.move f) (member block scope) (member block' scope) :=
  member_related peekWord_carries.then expected_carries (sorts_carry hf hb) scope

theorem declaration_carries :
    Carries f (Node.move f) (declaration block) (declaration block') :=
  declaration_related peekWord_carries.then expected_carries (sorts_carry hf hb)

end Blocks

variable (hf : Compatible f)
include hf

theorem block_carries (room : Nat) (scope : Scope) :
    Carries f (Prod.map (Node.moves f) (Token.move f)) (block room scope) (block room scope) := by
  induction room generalizing scope with
  | zero =>
    refine Carries.of_eq fun ts => ?_
    have opening := (symbol_carries (f := f) '\x7b').eq ts
    cases hts : symbol '\x7b' ts <;> simp only [block, bind, Except.bind, opening, hts] <;> rfl
  | succ room ih =>
    exact (symbol_carries _).bind fun _ =>
      (many_carries (member_carries hf ih scope) (isSymbol_placeless _)).bind fun members =>
        (symbol_carries _).bind fun last =>
          Carries.pure_of_eq (by rw [← Node.moves_eq_map]; rfl)

/-- **The grammar reads moved tokens** as it reads the tokens, and moves what it gives. -/
theorem file_carries : Carries f (Node.moves f) file file := by
  have endless : Placeless fun _ => false := fun _ _ => rfl
  have rows := many_carries (declaration_carries hf (block_carries hf maxNesting)) endless
  rwa [← funext (Node.moves_eq_map f)] at rows

end Grammar

end SchemaDepot
