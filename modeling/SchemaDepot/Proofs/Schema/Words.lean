import SchemaDepot.Proofs.Schema.Nesting
import SchemaDepot.Proofs.Schema.Points

/-! # Declared names are words

A declaration that gives a name to something has a single word for it, and the words of a text start
with a letter or an underscore.

* `IsWord`: what the words of a text look like; `Token.isSpelled_of_scan`.
* `Reader.YieldsFrom`: what holds of all that a reader gives, if it reads such tokens.
* `Content.word?`: the name that a declaration gives; `Schema.parse_spelled`: these are words. -/

namespace SchemaDepot

/-- A letter or an underscore, and behind it letters, digits and underscores. -/
def IsWord (s : String) : Prop :=
  ∃ c cs, s.toList = c :: cs ∧ Lexeme.isWordStart c = true ∧ cs.all Lexeme.isWordPart = true

theorem isWordPart_of_isWordStart {c : Char} (h : Lexeme.isWordStart c = true) :
    Lexeme.isWordPart c = true := by
  simp only [Lexeme.isWordStart, Lexeme.isWordPart, Char.isAlphanum, Bool.or_eq_true] at h ⊢
  exact h.imp_left Or.inl

theorem IsWord.all {s : String} (h : IsWord s) : s.toList.all Lexeme.isWordPart = true := by
  obtain ⟨c, cs, hs, start, rest⟩ := h
  rw [hs, List.all_cons, isWordPart_of_isWordStart start, rest]
  rfl

/-! ### Tokens -/

namespace Token

/-- If the token is a word, then its text looks like one. -/
def IsSpelled (t : Token) : Prop := t.kind = .word → IsWord t.text

theorem numeralKind_ne_word (cs : List Char) : Lexeme.numeralKind cs ≠ some .word := by
  intro h
  unfold Lexeme.numeralKind at h
  split at h <;> split_ifs at h <;> cases h

/-- A lexeme that is a word looks like one. -/
theorem isWord_of_read {body : List Char} {lexeme : Taken (TokenKind × String)}
    (h : Lexeme.read body = .ok lexeme) (hkind : lexeme.value.1 = .word) :
    IsWord lexeme.value.2 := by
  unfold Lexeme.read at h
  split at h
  · cases h
  · cases h
    cases hkind
  · split at h <;> cases h
    cases hkind
  · next c cs _ _ =>
    split_ifs at h with quote digit start symbol
    · obtain ⟨t, -, rfl⟩ := Lexeme.map_ok h
      cases hkind
    · dsimp only at h
      split at h <;> cases h
      next kind found =>
        cases hkind
        exact absurd found (numeralKind_ne_word _)
    · cases h
      refine ⟨c, cs.takeWhile Lexeme.isWordPart, String.toList_ofList, start, ?_⟩
      exact List.all_eq_true.2 fun d hd => List.mem_takeWhile_imp hd
    · cases h
      cases hkind

/-- **The words of a text look like words.** -/
theorem isSpelled_of_scan {text : String} {ts : List Token} {final : Position}
    (h : scan text = .ok (ts, final)) : ∀ t ∈ ts, t.IsSpelled := by
  intro t ht hkind
  obtain ⟨q, body, lexeme, hread, rfl⟩ := scan_lexemes h t ht
  exact isWord_of_read hread hkind

end Token

/-! ### Readers -/

namespace Reader

variable {α β : Type}

/-- Of tokens that `Q` holds of, the reader makes what `P` holds of. -/
def YieldsFrom (Q : Token → Prop) (r : Reader α) (P : α → Prop) : Prop :=
  ∀ ⦃ts a rest⦄, (∀ t ∈ ts, Q t) → r ts = .ok (a, rest) → P a

variable {Q : Token → Prop} {P : β → Prop}

theorem Yields.from {r : Reader β} (h : Yields r P) : YieldsFrom Q r P := fun _ _ _ _ hr => h hr

/-- What the second reader gives, the first having given something that `R` holds of. -/
theorem YieldsFrom.then {r : Reader α} {f : α → Reader β} {R : α → Prop} (hr : YieldsFrom Q r R)
    (advances : Advances r) (hf : ∀ a, R a → YieldsFrom Q (f a) P) : YieldsFrom Q (r >>= f) P := by
  intro ts b rest hts h
  obtain ⟨a, mid, h1, h2⟩ := bind_ok h
  exact hf a (hr hts h1) (fun t ht => hts t ((advances h1).subset ht)) h2

/-- What the second reader gives, whatever the first has given. -/
theorem YieldsFrom.bind {r : Reader α} {f : α → Reader β} (advances : Advances r)
    (hf : ∀ a, YieldsFrom Q (f a) P) : YieldsFrom Q (r >>= f) P :=
  YieldsFrom.then (R := fun _ => True) (fun _ _ _ _ _ => trivial) advances fun a _ => hf a

theorem YieldsFrom.pure {b : β} (h : P b) : YieldsFrom Q (Pure.pure b) P := (Yields.pure h).from

theorem YieldsFrom.ite {c : Prop} [Decidable c] {r s : Reader β} (hr : YieldsFrom Q r P)
    (hs : YieldsFrom Q s P) : YieldsFrom Q (if c then r else s) P := by
  split_ifs
  · exact hr
  · exact hs

theorem Gives.advances {r : Reader α} {R : List Token → α → Prop} (h : Gives r R) :
    Advances r := by
  intro ts a rest hr
  obtain ⟨used, rfl, -⟩ := h hr
  exact List.suffix_append used rest

/-- A word looks like one. -/
theorem word_yieldsFrom (what : String) :
    YieldsFrom Token.IsSpelled (word what) fun t => IsWord t.text := by
  intro ts t rest hts h
  cases ts with
  | nil => cases h
  | cons u us =>
    simp only [word, token] at h
    split_ifs at h with hkind <;> cases h
    exact hts t List.mem_cons_self (by simpa using hkind)

theorem manyWithin_yieldsFrom {ends : Token → Bool} {item : Reader β} (hi : YieldsFrom Q item P)
    (advances : Advances item) (room : List Token) :
    YieldsFrom Q (manyWithin ends item room) fun bs => ∀ b ∈ bs, P b := by
  have none : ∀ b ∈ ([] : List β), P b := fun b hb => absurd hb List.not_mem_nil
  induction room with
  | nil => exact YieldsFrom.pure none
  | cons _ room ih =>
    unfold manyWithin
    refine YieldsFrom.bind peek_looks.advances fun next => ?_
    split
    · exact YieldsFrom.pure none
    · refine YieldsFrom.ite (YieldsFrom.pure none) (YieldsFrom.ite ?_ ?_)
      · exact YieldsFrom.bind (acceptToken_advances _) fun _ => ih
      · refine hi.then advances fun b hb => ?_
        -- Nothing is read behind the last item, so what the rest leaves does not matter.
        intro ts bs rest hts h
        obtain ⟨others, mid, h1, h2⟩ := bind_ok h
        obtain ⟨rfl, -⟩ := pure_ok h2
        exact List.forall_mem_cons.2 ⟨hb, ih hts h1⟩

theorem many_yieldsFrom {ends : Token → Bool} {item : Reader β} (hi : YieldsFrom Q item P)
    (advances : Advances item) : YieldsFrom Q (many ends item) fun bs => ∀ b ∈ bs, P b := by
  unfold many
  exact YieldsFrom.bind get_looks.advances fun room => manyWithin_yieldsFrom hi advances room

end Reader

/-! ### Declarations -/

/-- The name that a declaration gives to what it declares. -/
def Content.word? : Content → Option String
  | message name | enumeration name | service name | oneof name => some name
  | field f => some f.name
  | enumValue v => some v.name
  | rpc call => some call.name
  | _ => none

/-- The names given in a tree are words. -/
def Node.IsSpelled (n : Node) : Prop := ∀ x ∈ n.walk, ∀ w ∈ x.content.word?, IsWord w

/-- What is below a node is below those above it. -/
theorem Node.walk_trans {n x y : Node} (hx : x ∈ n.walk) (hy : y ∈ x.walk) : y ∈ n.walk := by
  rw [walk_eq] at hx
  rcases List.mem_cons.1 hx with rfl | hx
  · exact hy
  · obtain ⟨c, hc, hx⟩ := List.mem_flatMap.1 hx
    rw [walk_eq]
    exact List.mem_cons_of_mem _ (List.mem_flatMap.2 ⟨c, hc, walk_trans hx hy⟩)
termination_by n
decreasing_by
  cases n
  have := List.sizeOf_lt_of_mem hc
  simp at this ⊢
  omega

theorem Node.mem_walk_of_mem_children {n c : Node} (hc : c ∈ n.children) : c ∈ n.walk := by
  rw [walk_eq]
  refine List.mem_cons_of_mem _ (List.mem_flatMap.2 ⟨c, hc, ?_⟩)
  rw [walk_eq]
  exact List.mem_cons_self

namespace Grammar

open Reader

variable {content : Content} {name : String}

theorem leaf_nameless (h : content.word? = none) (start : Position) (last : Token) :
    (leaf content start last).IsSpelled := by
  rw [Node.IsSpelled, Node.walk_eq]
  refine List.forall_mem_singleton.2 fun w hw => ?_
  cases h.symm.trans hw

theorem leaf_spelled (h : content.word? = some name) (hname : IsWord name) (start : Position)
    (last : Token) : (leaf content start last).IsSpelled := by
  rw [Node.IsSpelled, Node.walk_eq]
  refine List.forall_mem_singleton.2 fun w hw => ?_
  cases h.symm.trans hw
  exact hname

theorem blockNode_spelled (h : ∀ w ∈ content.word?, IsWord w) (first : Token) {body : Block}
    (hbody : ∀ c ∈ body.1, c.IsSpelled) : (blockNode content first body).IsSpelled := by
  rw [Node.IsSpelled, Node.walk_eq, List.forall_mem_cons]
  refine ⟨h, fun x hx => ?_⟩
  obtain ⟨c, hc, hx⟩ := List.mem_flatMap.1 hx
  exact hbody c hc x hx

theorem dialect_spelled : Yields dialect Node.IsSpelled :=
  Yields.bind fun _ => Yields.bind fun _ => Yields.bind fun _ => Yields.bind fun _ =>
    Yields.pure (leaf_nameless rfl _ _)

theorem package_spelled : Yields package Node.IsSpelled :=
  Yields.bind fun _ => Yields.bind fun _ => Yields.bind fun _ =>
    Yields.pure (leaf_nameless rfl _ _)

theorem importFile_spelled : Yields importFile Node.IsSpelled := by
  rw [importFile_eq]
  exact Yields.bind fun _ => Yields.bind fun _ => Yields.bind fun _ => Yields.bind fun _ =>
    Yields.bind fun _ => Yields.pure (leaf_nameless rfl _ _)

theorem setting_spelled : Yields setting Node.IsSpelled :=
  Yields.bind fun _ => Yields.bind fun _ => Yields.bind fun _ =>
    Yields.pure (leaf_nameless rfl _ _)

theorem reserved_spelled : Yields reserved Node.IsSpelled :=
  Yields.bind fun _ => Yields.bind fun _ => Yields.pure (leaf_nameless rfl _ _)

theorem field_spelled (labelled : Bool) :
    YieldsFrom Token.IsSpelled (field labelled) Node.IsSpelled := by
  rw [field_eq]
  refine YieldsFrom.bind startOfNext_advances fun start =>
    YieldsFrom.bind (labelIf_advances labelled) fun label =>
      YieldsFrom.bind fieldType_advances fun _ => (word_yieldsFrom _).then
        (token_advances _ _) fun name hname => Yields.from ?_
  exact Yields.bind fun _ => Yields.bind fun _ => Yields.bind fun _ => Yields.bind fun _ =>
    Yields.pure (leaf_spelled rfl hname _ _)

theorem enumValue_spelled : YieldsFrom Token.IsSpelled enumValue Node.IsSpelled :=
  (word_yieldsFrom _).then (token_advances _ _) fun _ hname => Yields.from <|
    Yields.bind fun _ => Yields.bind fun _ => Yields.bind fun _ => Yields.bind fun _ =>
      Yields.bind fun _ => Yields.pure (leaf_spelled rfl hname _ _)

section Blocks
variable {block : Scope → Reader Block} (advances : ∀ scope, Advances (block scope))
  (hb : ∀ scope, YieldsFrom Token.IsSpelled (block scope) fun body => ∀ c ∈ body.1, c.IsSpelled)
include advances hb

theorem namedBlock_spelled {kind what : String} {content : String → Content} {scope : Scope}
    (hword : ∀ name, (content name).word? = some name) :
    YieldsFrom Token.IsSpelled (namedBlock block kind what content scope) Node.IsSpelled :=
  YieldsFrom.bind (token_advances _ _) fun first => (word_yieldsFrom _).then (token_advances _ _)
    fun name hname => (hb scope).then (advances scope) fun _ hbody => YieldsFrom.pure <|
      blockNode_spelled (fun w hw => by cases (hword name.text).symm.trans hw; exact hname) first
        hbody

theorem extension_spelled : YieldsFrom Token.IsSpelled (extension block) Node.IsSpelled :=
  YieldsFrom.bind (token_advances _ _) fun first => YieldsFrom.bind (dotted_advances _) fun _ =>
    (hb .extension).then (advances _) fun _ hbody => YieldsFrom.pure <|
      blockNode_spelled (fun w hw => by cases hw) first hbody

omit advances in
theorem rpcBody_spelled :
    YieldsFrom Token.IsSpelled (rpcBody block) fun body => ∀ c ∈ body.1, c.IsSpelled := by
  have semicolon : Yields (do return ([], ← symbol ';') : Reader Block) fun body =>
      ∀ c ∈ body.1, c.IsSpelled :=
    Yields.bind fun _ => Yields.pure fun _ hc => absurd hc List.not_mem_nil
  unfold rpcBody
  refine YieldsFrom.bind peek_looks.advances fun next => ?_
  split
  · exact YieldsFrom.ite (hb .rpc) semicolon.from
  · exact semicolon.from

omit advances in
theorem rpc_spelled : YieldsFrom Token.IsSpelled (rpc block) Node.IsSpelled := by
  unfold rpc
  refine YieldsFrom.bind (token_advances _ _) fun first => (word_yieldsFrom _).then
    (token_advances _ _) fun name hname => YieldsFrom.bind rpcType_advances fun _ =>
    YieldsFrom.bind (token_advances _ _) fun _ => YieldsFrom.bind rpcType_advances fun _ => ?_
  -- Nothing is read behind the body.
  intro ts n rest hts h
  obtain ⟨body, mid, hbody, h⟩ := bind_ok h
  obtain ⟨rfl, -⟩ := pure_ok h
  refine blockNode_spelled (fun w hw => ?_) first (rpcBody_spelled hb hts hbody)
  cases hw
  exact hname

theorem sorts_spelled :
    ∀ r ∈ plain ++ fenced block, YieldsFrom Token.IsSpelled r Node.IsSpelled := by
  simp only [plain, fenced, List.cons_append, List.nil_append, List.forall_mem_cons]
  exact ⟨dialect_spelled.from, package_spelled.from, importFile_spelled.from,
    setting_spelled.from, enumValue_spelled, reserved_spelled.from, field_spelled true,
    field_spelled false, namedBlock_spelled advances hb fun _ => rfl,
    namedBlock_spelled advances hb fun _ => rfl, namedBlock_spelled advances hb fun _ => rfl,
    namedBlock_spelled advances hb fun _ => rfl, extension_spelled advances hb, rpc_spelled hb,
    List.forall_mem_nil _⟩

theorem member_spelled (scope : Scope) :
    YieldsFrom Token.IsSpelled (member block scope) Node.IsSpelled :=
  member_of_sorts (YieldsFrom.bind peekWord_looks.advances)
    (fun what => (expected_yields what).from) (sorts_spelled advances hb) scope

theorem declaration_spelled :
    YieldsFrom Token.IsSpelled (declaration block) Node.IsSpelled :=
  declaration_of_sorts (YieldsFrom.bind peekWord_looks.advances)
    (fun what => (expected_yields what).from) (sorts_spelled advances hb)

end Blocks

theorem block_advances (room : Nat) (scope : Scope) : Advances (block room scope) :=
  (block_row room scope).advances

/-- **The names given in a block are words**, however deep blocks nest in it. -/
theorem block_spelled (room : Nat) (scope : Scope) :
    YieldsFrom Token.IsSpelled (block room scope) fun body => ∀ c ∈ body.1, c.IsSpelled := by
  induction room generalizing scope with
  | zero =>
    -- No block is read at all: none of its declarations has a level to be on.
    refine Yields.from fun ts body rest h c hc => ?_
    exact (block_nests 0 scope h c hc).elim
  | succ room ih =>
    have item := member_spelled (block_advances room) ih scope
    have advances := (member_declares (block_row room) scope).advances
    unfold block
    exact YieldsFrom.bind (token_advances _ _) fun _ => (many_yieldsFrom item advances).then
      (many_row (member_declares (block_row room) scope)).advances fun _ hmembers =>
        YieldsFrom.bind (token_advances _ _) fun _ => YieldsFrom.pure hmembers

/-- **The names given in a file are words.** -/
theorem file_spelled : YieldsFrom Token.IsSpelled file fun ns => ∀ n ∈ ns, n.IsSpelled :=
  many_yieldsFrom (declaration_spelled (block_advances maxNesting) (block_spelled maxNesting))
    (declaration_declares (block_row maxNesting)).advances

end Grammar

/-- **The names given in the tree of a text are words.** -/
theorem Schema.parse_spelled {m : Marker} {text : String} {root : Node}
    (h : parse m text = .ok root) : root.IsSpelled := by
  obtain ⟨ts, final, nodes, rest, hscan, hfile, rfl⟩ := parse_eq_ok.1 h
  have tokens : ∀ t ∈ Token.significant ts, t.IsSpelled := fun t ht =>
    Token.isSpelled_of_scan hscan t (List.mem_of_mem_filter ht)
  have read := Grammar.file_spelled tokens hfile
  rw [Node.IsSpelled, Placement.walk_document, List.forall_mem_cons, List.forall_mem_append]
  refine ⟨nofun, fun n hn => ?_, fun n hn => ?_⟩
  · obtain ⟨n', hn', content, -⟩ := Placement.exists_of_mem_placedIn m hn
    obtain ⟨top, htop, below⟩ := List.mem_flatMap.1 hn'
    rw [← content]
    exact read top htop n' below
  · obtain ⟨c, -, hn⟩ := List.mem_flatMap.1 hn
    rcases List.mem_cons.1 hn with rfl | hn
    · exact nofun
    · obtain ⟨d, -, rfl⟩ := List.mem_map.1 hn
      exact nofun

end SchemaDepot
