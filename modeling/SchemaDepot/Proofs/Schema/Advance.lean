import Mathlib.Data.List.Forall2
import SchemaDepot.Proofs.Token.Order
import SchemaDepot.Schema.Grammar

/-! # Readers take tokens off the front

* `Reader.bind_ok`: a reader that runs one reader after the other.
* `Reader.Gives`: what a reader gives is made of the tokens that it takes.
* `Reader.Looks`, `Reader.Advances`: readers that take nothing, or only off the front.
* `Reader.follow_gives`, `Reader.many_gives`: what holds of items that are read in a row.
* Names and values of the grammar advance (`dotted_advances`, `constant_advances`, ...).
* `Grammar.importFile_eq`, `Grammar.field_eq`: an import and a field, with what stands behind the
  words that may be missing as `importBody` and `fieldBody`.
* `Grammar.fenced_hasBlock`, `Grammar.block_ok`: what a declaration with a block and a block itself
  are read off.
* `Grammar.member_of_sorts`, `Grammar.declaration_of_sorts`: what holds of the reader of each sort
  of declaration holds of what a block and a file may hold. -/

namespace SchemaDepot

namespace Reader

variable {α β : Type}

/-! ### Readers leave a suffix -/

theorem bind_ok {r : Reader α} {f : α → Reader β} {ts rest : List Token} {b : β}
    (h : (r >>= f) ts = .ok (b, rest)) :
    ∃ a mid, r ts = .ok (a, mid) ∧ f a mid = .ok (b, rest) := by
  cases hr : r ts with
  | error stop =>
    simp only [bind, StateT.bind, hr, Except.bind] at h
    cases h
  | ok found =>
    obtain ⟨a, mid⟩ := found
    simp only [bind, StateT.bind, hr, Except.bind] at h
    exact ⟨a, mid, rfl, h⟩

theorem bind_of_ok {r : Reader α} {f : α → Reader β} {ts mid : List Token} {a : α}
    (h : r ts = .ok (a, mid)) : (r >>= f) ts = f a mid := by
  simp only [bind, StateT.bind, h, Except.bind]

theorem pure_ok {a b : α} {ts rest : List Token}
    (h : (pure a : Reader α) ts = .ok (b, rest)) : a = b ∧ ts = rest := by
  have same : (a, ts) = (b, rest) := Except.ok.inj h
  exact Prod.mk.inj same

theorem token_ok {accepts : Token → Bool} {what : String} {ts rest : List Token} {t : Token}
    (h : token accepts what ts = .ok (t, rest)) : ts = t :: rest := by
  cases ts with
  | nil => cases h
  | cons u us =>
    simp only [token] at h
    split_ifs at h
    · cases h
      rfl
    · cases h

theorem token_accepted {accepts : Token → Bool} {what : String} {ts rest : List Token} {t : Token}
    (h : token accepts what ts = .ok (t, rest)) : accepts t = true := by
  obtain rfl := token_ok h
  simp only [token] at h
  split_ifs at h with ht
  · exact ht
  · cases h

/-- What the reader gives is made of the tokens that it takes off the front, as `P` tells. -/
def Gives (r : Reader α) (P : List Token → α → Prop) : Prop :=
  ∀ ⦃ts a rest⦄, r ts = .ok (a, rest) → ∃ used, ts = used ++ rest ∧ P used a

/-- The reader takes nothing. -/
def Looks (r : Reader α) : Prop := ∀ ⦃ts a rest⦄, r ts = .ok (a, rest) → ts = rest

theorem peek_looks : Looks peek := by
  intro ts a rest h
  cases h
  rfl

theorem peekWord_looks : Looks peekWord := by
  intro ts a rest h
  cases h
  rfl

theorem get_looks : Looks (get : Reader (List Token)) := by
  intro ts a rest h
  cases h
  rfl

theorem Looks.bind_gives {r : Reader α} {f : α → Reader β} {P : List Token → β → Prop}
    (hr : Looks r) (hf : ∀ a, Gives (f a) P) : Gives (r >>= f) P := by
  intro ts b rest h
  obtain ⟨a, mid, h1, h2⟩ := bind_ok h
  rw [hr h1]
  exact hf a h2

theorem expected_gives (what : String) (P : List Token → α → Prop) :
    Gives (expected what : Reader α) P := by
  intro ts a rest h
  cases h

/-- The reader takes tokens off the front only. -/
def Advances (r : Reader α) : Prop := ∀ ⦃ts a rest⦄, r ts = .ok (a, rest) → rest <:+ ts

theorem Advances.pure (a : α) : Advances (Pure.pure a : Reader α) := by
  intro ts b rest h
  obtain ⟨-, rfl⟩ := pure_ok h
  exact List.suffix_rfl

theorem Advances.bind {r : Reader α} {f : α → Reader β} (hr : Advances r)
    (hf : ∀ a, Advances (f a)) : Advances (r >>= f) := by
  intro ts b rest h
  obtain ⟨a, mid, h1, h2⟩ := bind_ok h
  exact (hf a h2).trans (hr h1)

theorem Advances.ite {c : Prop} [Decidable c] {r s : Reader α} (hr : Advances r)
    (hs : Advances s) : Advances (if c then r else s) := by
  split_ifs
  · exact hr
  · exact hs

theorem expected_advances (what : String) : Advances (expected what : Reader α) := by
  intro ts a rest h
  cases h

theorem Looks.advances {r : Reader α} (hr : Looks r) : Advances r := by
  intro ts a rest h
  obtain rfl := hr h
  exact List.suffix_rfl

theorem token_advances (accepts : Token → Bool) (what : String) :
    Advances (token accepts what) := by
  intro ts t rest h
  rw [token_ok h]
  exact List.suffix_cons t rest

theorem acceptToken_advances (accepts : Token → Bool) : Advances (acceptToken accepts) := by
  intro ts b rest h
  cases ts with
  | nil =>
    cases h
    exact List.suffix_rfl
  | cons t us =>
    simp only [acceptToken] at h
    split_ifs at h <;> cases h
    · exact List.suffix_cons t _
    · exact List.suffix_rfl

theorem follow_advances (sep : Char) {item : Reader α} (hi : Advances item)
    (room : List Token) : Advances (follow sep item room) := by
  induction room with
  | nil => exact Advances.pure _
  | cons _ room ih =>
    exact (acceptToken_advances _).bind fun _ =>
      Advances.ite (hi.bind fun _ => ih.bind fun _ => Advances.pure _) (Advances.pure _)

theorem followers_advances (sep : Char) {item : Reader α} (hi : Advances item) :
    Advances (followers sep item) := by
  unfold followers
  exact get_looks.advances.bind fun room => follow_advances sep hi room

theorem chain_advances (sep : Char) {item : Reader α} (hi : Advances item) :
    Advances (chain sep item) := by
  unfold chain
  exact hi.bind fun _ => (followers_advances sep hi).bind fun _ => Advances.pure _

/-! ### Items in a row -/

section Follow
variable {sep : Char} {item : Reader α}

theorem follow_nil (room : List Token) : follow sep item room [] = .ok ([], []) := by
  cases room <;> rfl

theorem follow_cons (u : Token) (room : List Token) (t : Token) (ts : List Token) :
    follow sep item (u :: room) (t :: ts) =
      if isSymbol sep t then (do
        let x ← item
        let xs ← follow sep item room
        return x :: xs : Reader (List α)) ts
      else .ok ([], t :: ts) := by
  rw [follow]
  by_cases ht : isSymbol sep t = true
  · rw [bind_of_ok (if_pos ht : Reader.accept sep (t :: ts) = _), if_pos ht]
    rfl
  · rw [bind_of_ok (if_neg ht : Reader.accept sep (t :: ts) = _), if_neg ht]
    rfl

/-- **Items behind a `sep` each**: what holds of none, and of a row with a `sep` and an item in front
if it holds of the row, holds of them. -/
theorem follow_gives {P : List Token → α → Prop} {Q : List Token → List α → Prop}
    (room : List Token) (hi : Gives item P) (none : Q [] [])
    (next : ∀ {t v w x xs}, isSymbol sep t = true → P v x → Q w xs → Q (t :: (v ++ w)) (x :: xs)) :
    Gives (follow sep item room) Q := by
  induction room with
  | nil =>
    intro ts xs rest h
    obtain ⟨rfl, rfl⟩ := pure_ok h
    exact ⟨[], rfl, none⟩
  | cons u room ih =>
    intro ts xs rest h
    cases ts with
    | nil =>
      rw [follow_nil] at h
      cases h
      exact ⟨[], rfl, none⟩
    | cons t ts =>
      rw [follow_cons] at h
      split_ifs at h with between
      · obtain ⟨x, mid, hx, h⟩ := bind_ok h
        obtain ⟨others, left, hothers, h⟩ := bind_ok h
        obtain ⟨rfl, rfl⟩ := pure_ok h
        obtain ⟨v, rfl, hv⟩ := hi hx
        obtain ⟨w, rfl, hw⟩ := ih hothers
        exact ⟨t :: (v ++ w), by simp, next between hv hw⟩
      · cases h
        exact ⟨[], rfl, none⟩

end Follow

section Many
variable {ends : Token → Bool} {item : Reader α}

theorem manyWithin_nil (room : List Token) : manyWithin ends item room [] = .ok ([], []) := by
  cases room <;> rfl

theorem manyWithin_cons (u : Token) (room : List Token) (t : Token) (ts : List Token) :
    manyWithin ends item (u :: room) (t :: ts) =
      if ends t then .ok ([], t :: ts)
      else if isSymbol ';' t then manyWithin ends item room ts
      else (do
        let x ← item
        let xs ← manyWithin ends item room
        return x :: xs : Reader (List α)) (t :: ts) := by
  rw [manyWithin, bind_of_ok (rfl : peek _ = .ok (some t, _))]
  dsimp only
  split_ifs with hend hsemi
  · rfl
  · exact bind_of_ok (if_pos hsemi : Reader.accept ';' (t :: ts) = _)
  · rfl

variable {P : List Token → α → Prop} {Q : List Token → List α → Prop}

/-- **Items that are read in a row**: what holds of none, and of a row with a semicolon or an item in
front if it holds of the row, holds of them. -/
theorem manyWithin_gives (room : List Token) (hi : Gives item P) (none : Q [] [])
    (skip : ∀ {t w xs}, isSymbol ';' t = true → Q w xs → Q (t :: w) xs)
    (next : ∀ {v w x xs}, P v x → Q w xs → Q (v ++ w) (x :: xs)) :
    Gives (manyWithin ends item room) Q := by
  induction room with
  | nil =>
    intro ts xs rest h
    obtain ⟨rfl, rfl⟩ := pure_ok h
    exact ⟨[], rfl, none⟩
  | cons u room ih =>
    intro ts xs rest h
    cases ts with
    | nil =>
      rw [manyWithin_nil] at h
      cases h
      exact ⟨[], rfl, none⟩
    | cons t ts =>
      rw [manyWithin_cons] at h
      split_ifs at h with hend hsemi
      · cases h
        exact ⟨[], rfl, none⟩
      · obtain ⟨w, rfl, hw⟩ := ih h
        exact ⟨t :: w, rfl, skip hsemi hw⟩
      · obtain ⟨x, mid, hx, h⟩ := bind_ok h
        obtain ⟨others, left, hothers, h⟩ := bind_ok h
        obtain ⟨rfl, rfl⟩ := pure_ok h
        obtain ⟨v, he, hv⟩ := hi hx
        obtain ⟨w, rfl, hw⟩ := ih hothers
        exact ⟨v ++ w, by rw [he, List.append_assoc], next hv hw⟩

theorem many_gives (hi : Gives item P) (none : Q [] [])
    (skip : ∀ {t w xs}, isSymbol ';' t = true → Q w xs → Q (t :: w) xs)
    (next : ∀ {v w x xs}, P v x → Q w xs → Q (v ++ w) (x :: xs)) : Gives (many ends item) Q := by
  unfold many
  exact get_looks.bind_gives fun room => manyWithin_gives room hi none skip next

end Many

end Reader

namespace Grammar

open Reader

/-! ### Names and values -/

theorem dotted_advances (what : String) : Advances (dotted what) := by
  unfold dotted
  exact (acceptToken_advances _).bind fun _ =>
    (chain_advances '.' (token_advances _ _)).bind fun _ => Advances.pure _

theorem optionNamePart_advances : Advances optionNamePart := by
  unfold optionNamePart
  exact (acceptToken_advances _).bind fun _ => Advances.ite
    ((dotted_advances _).bind fun _ => (token_advances _ _).bind fun _ => Advances.pure _)
    ((token_advances _ _).bind fun _ => Advances.pure _)

theorem optionName_advances : Advances optionName := by
  unfold optionName
  exact (chain_advances '.' optionNamePart_advances).bind fun _ => Advances.pure _

theorem moreLiterals_advances : Advances moreLiterals := by
  intro ts a rest h
  cases h
  exact List.dropWhile_suffix _

theorem literals_advances (what : String) : Advances (literals what) := by
  unfold literals
  exact (token_advances _ _).bind fun _ => moreLiterals_advances.bind fun _ => Advances.pure _

theorem aggregateTail_cons (depth : Nat) (t : Token) (ts : List Token) :
    aggregateTail depth (t :: ts) =
      let inner := if isSymbol '\x7b' t then depth + 1 else if isSymbol '\x7d' t then depth - 1
        else depth
      if maxNesting < inner then .error ⟨.deepValue, t :: ts⟩
      else if inner = 0 then .ok ([kept t], ts)
      else (aggregateTail inner ts).map fun (parts, rest) => (kept t :: parts, rest) := rfl

theorem aggregateTail_advances (depth : Nat) : Advances (aggregateTail depth) := by
  intro ts
  induction ts generalizing depth with
  | nil =>
    intro parts rest h
    cases h
  | cons t ts ih =>
    intro parts rest h
    simp only [aggregateTail] at h
    generalize (if isSymbol '{' t = true then depth + 1
      else if isSymbol '}' t = true then depth - 1 else depth) = inner at h
    split_ifs at h
    · cases h
      exact List.suffix_cons t _
    · obtain ⟨⟨tail, rest'⟩, htail, he⟩ := Lexeme.map_ok h
      cases he
      exact (ih inner htail).trans (List.suffix_cons t ts)

theorem constant_advances : Advances constant := by
  unfold constant
  refine peek_looks.advances.bind fun next => ?_
  split
  · exact literals_advances _
  · exact (token_advances _ _).bind fun _ => Advances.pure _
  · exact (token_advances _ _).bind fun _ => Advances.pure _
  · exact (token_advances _ _).bind fun _ => (token_advances _ _).bind fun _ => Advances.pure _
  · exact (token_advances _ _).bind fun _ => (token_advances _ _).bind fun _ => Advances.pure _
  · exact dotted_advances _
  · unfold aggregate
    exact (token_advances _ _).bind fun _ =>
      (aggregateTail_advances 1).bind fun _ => Advances.pure _
  · exact expected_advances _

theorem assignment_advances : Advances assignment := by
  unfold assignment
  exact optionName_advances.bind fun _ => (token_advances _ _).bind fun _ =>
    constant_advances.bind fun _ => Advances.pure _

theorem compactOptions_advances : Advances compactOptions := by
  unfold compactOptions
  exact (acceptToken_advances _).bind fun _ => Advances.ite
    ((chain_advances ',' assignment_advances).bind fun _ =>
      (token_advances _ _).bind fun _ => Advances.pure _)
    (Advances.pure _)

theorem fieldLabel_advances : Advances fieldLabel := by
  unfold fieldLabel
  exact (acceptToken_advances _).bind fun _ => Advances.ite (Advances.pure _)
    ((acceptToken_advances _).bind fun _ => Advances.ite (Advances.pure _)
      ((acceptToken_advances _).bind fun _ => Advances.ite (Advances.pure _) (Advances.pure _)))

theorem fieldType_advances : Advances fieldType := by
  unfold fieldType
  exact (acceptToken_advances _).bind fun _ => Advances.ite
    ((acceptToken_advances _).bind fun _ => Advances.ite
      ((dotted_advances _).bind fun _ => (token_advances _ _).bind fun _ =>
        (dotted_advances _).bind fun _ => (token_advances _ _).bind fun _ => Advances.pure _)
      ((followers_advances '.' (token_advances _ _)).bind fun _ => Advances.pure _))
    (dotted_advances _)

theorem integer_advances (what : String) : Advances (integer what) := by
  unfold integer
  exact (token_advances _ _).bind fun _ => Advances.pure _

theorem rpcType_advances : Advances rpcType := by
  have htype : Advances (dotted "a message type") := dotted_advances _
  unfold rpcType
  exact (token_advances _ _).bind fun _ => (acceptToken_advances _).bind fun _ => Advances.ite
    ((acceptToken_advances _).bind fun _ => Advances.ite (Advances.pure _)
      (htype.bind fun _ => (token_advances _ _).bind fun _ => Advances.pure _))
    (htype.bind fun _ => (token_advances _ _).bind fun _ => Advances.pure _)

/-! ### Declarations that may start with a word more -/

/-- An import behind the words that tell what sort of import it is. -/
def importBody (first : Token) (isPublic isWeak : Bool) : Reader Node := do
  let path ← literals "an import path"
  return leaf (.importFile ⟨path, isPublic, isWeak⟩) first.span.start (← symbol ';')

/-- The word of a weak import, which no public one has. -/
def weakness (isPublic : Bool) : Reader Bool :=
  if isPublic then pure false else acceptWord "weak"

theorem weakness_advances (isPublic : Bool) : Advances (weakness isPublic) :=
  Advances.ite (Advances.pure _) (acceptToken_advances _)

theorem importFile_eq : importFile = (do
    let first ← keyword "import"
    let isPublic ← acceptWord "public"
    let isWeak ← weakness isPublic
    importBody first isPublic isWeak) := by
  unfold importFile
  congr! 4 with first isPublic
  cases isPublic <;> rfl

/-- A field behind its label. -/
def fieldBody (start : Position) (label : Option FieldLabel) : Reader Node := do
  let type ← fieldType
  let name ← word "a field name"
  let _ ← symbol '='
  let number ← integer "a field number"
  let options ← compactOptions
  return leaf (.field ⟨label, type, name.text, number, options⟩) start (← symbol ';')

/-- The label of a field, if it may have one. -/
def labelIf (labelled : Bool) : Reader (Option FieldLabel) :=
  if labelled then fieldLabel else pure none

theorem labelIf_advances (labelled : Bool) : Advances (labelIf labelled) :=
  Advances.ite fieldLabel_advances (Advances.pure _)

theorem startOfNext_advances : Advances startOfNext :=
  peek_looks.advances.bind fun _ => Advances.pure _

theorem field_eq (labelled : Bool) : field labelled = (do
    let start ← startOfNext
    let label ← labelIf labelled
    fieldBody start label) := by
  cases labelled <;> rfl

/-! ### Every sort of declaration -/

/-- The readers of declarations without a block. -/
def plain : List (Reader Node) :=
  [dialect, package, importFile, setting, enumValue, reserved, field true, field false]

/-- The readers of declarations with a block. -/
def fenced (block : Scope → Reader Block) : List (Reader Node) :=
  [message block, enumeration block, service block, oneof block, extension block, rpc block]

section Fence
variable {block : Scope → Reader Block} {ts rest : List Token}

variable (block) in
/-- The node is a declaration with a block, read off a first token, a header and the block. A call
may have a semicolon in the place of its block. -/
def HasBlock (ts : List Token) (n : Node) (rest : List Token) : Prop :=
  ∃ content first header mid body, content.isBlock = true ∧ content ≠ .root ∧
    ts = first :: (header ++ mid) ∧ n = blockNode content first body ∧
    ((∃ scope, block scope mid = .ok (body, rest)) ∨ mid = body.2 :: rest ∧ body.1 = [])

theorem namedBlock_hasBlock {kind what : String} {content : String → Content} {scope : Scope}
    {n : Node} (hc : ∀ name, (content name).isBlock = true ∧ content name ≠ .root)
    (h : namedBlock block kind what content scope ts = .ok (n, rest)) :
    HasBlock block ts n rest := by
  unfold namedBlock at h
  obtain ⟨first, ts1, h1, h⟩ := bind_ok h
  obtain ⟨name, ts2, h2, h⟩ := bind_ok h
  obtain ⟨body, ts3, h3, h⟩ := bind_ok h
  obtain ⟨rfl, rfl⟩ := pure_ok h
  obtain rfl := token_ok h1
  obtain rfl := token_ok h2
  exact ⟨_, first, [name], ts2, body, (hc _).1, (hc _).2, rfl, rfl, Or.inl ⟨scope, h3⟩⟩

theorem extension_hasBlock {n : Node} (h : extension block ts = .ok (n, rest)) :
    HasBlock block ts n rest := by
  unfold extension at h
  obtain ⟨first, ts1, h1, h⟩ := bind_ok h
  obtain ⟨extendee, ts2, h2, h⟩ := bind_ok h
  obtain ⟨body, ts3, h3, h⟩ := bind_ok h
  obtain ⟨rfl, rfl⟩ := pure_ok h
  obtain rfl := token_ok h1
  obtain ⟨header, rfl⟩ := dotted_advances _ h2
  exact ⟨.extension extendee, first, header, ts2, body, rfl, nofun, rfl, rfl, Or.inl ⟨.extension, h3⟩⟩

/-- A call has the options of a block, or a semicolon instead. -/
theorem rpcBody_cases {body : Block} (h : rpcBody block ts = .ok (body, rest)) :
    (∃ scope, block scope ts = .ok (body, rest)) ∨ ts = body.2 :: rest ∧ body.1 = [] := by
  have semicolon (h : (do return ([], ← symbol ';') : Reader Block) ts = .ok (body, rest)) :
      ts = body.2 :: rest ∧ body.1 = [] := by
    obtain ⟨last, ts1, h1, h⟩ := bind_ok h
    obtain ⟨rfl, rfl⟩ := pure_ok h
    exact ⟨token_ok h1, rfl⟩
  unfold rpcBody at h
  obtain ⟨next, mid, h1, h⟩ := bind_ok h
  obtain rfl := peek_looks h1
  cases next with
  | none => exact Or.inr (semicolon h)
  | some t =>
    dsimp only at h
    split_ifs at h
    · exact Or.inl ⟨.rpc, h⟩
    · exact Or.inr (semicolon h)

theorem rpc_hasBlock {n : Node} (h : rpc block ts = .ok (n, rest)) :
    HasBlock block ts n rest := by
  unfold rpc at h
  obtain ⟨first, ts1, h1, h⟩ := bind_ok h
  obtain ⟨name, ts2, h2, h⟩ := bind_ok h
  obtain ⟨⟨request, requestStream⟩, ts3, h3, h⟩ := bind_ok h
  obtain ⟨_, ts4, h4, h⟩ := bind_ok h
  obtain ⟨⟨response, responseStream⟩, ts5, h5, h⟩ := bind_ok h
  obtain ⟨body, ts6, h6, h⟩ := bind_ok h
  obtain ⟨rfl, rfl⟩ := pure_ok h
  obtain rfl := token_ok h1
  have types := ((rpcType_advances h5).trans (token_advances _ _ h4)).trans (rpcType_advances h3)
  obtain ⟨header, rfl⟩ := types.trans (token_advances _ _ h2)
  exact ⟨.rpc _, first, header, ts5, body, rfl, nofun, rfl, rfl, rpcBody_cases h6⟩

theorem fenced_hasBlock : ∀ r ∈ fenced block, ∀ ⦃ts n rest⦄, r ts = .ok (n, rest) →
    HasBlock block ts n rest := by
  simp only [fenced, List.forall_mem_cons]
  exact ⟨fun _ _ _ => namedBlock_hasBlock fun _ => ⟨rfl, nofun⟩,
    fun _ _ _ => namedBlock_hasBlock fun _ => ⟨rfl, nofun⟩,
    fun _ _ _ => namedBlock_hasBlock fun _ => ⟨rfl, nofun⟩,
    fun _ _ _ => namedBlock_hasBlock fun _ => ⟨rfl, nofun⟩,
    fun _ _ _ => extension_hasBlock, fun _ _ _ => rpc_hasBlock, List.forall_mem_nil _⟩

end Fence

/-- Where no block may nest any more, none is read. -/
theorem block_zero_ne_ok (scope : Scope) (ts : List Token) (body : Block × List Token) :
    block 0 scope ts ≠ .ok body := by
  intro h
  unfold block at h
  cases ht : symbol '{' ts with
  | error stop =>
    simp only [ht, bind, Except.bind] at h
    cases h
  | ok found =>
    simp only [ht, bind, Except.bind] at h
    cases h

/-- A block is read off a brace, what may be in it, and a last token. -/
theorem block_ok {room : Nat} {scope : Scope} {ts rest : List Token} {body : Block}
    (h : block (room + 1) scope ts = .ok (body, rest)) :
    ∃ opening mid, ts = opening :: mid ∧ isSymbol '{' opening = true ∧
      many (isSymbol '}') (member (block room) scope) mid =
        .ok (body.1, body.2 :: rest) := by
  unfold block at h
  obtain ⟨opening, ts1, h1, h⟩ := bind_ok h
  obtain ⟨members, ts2, h2, h⟩ := bind_ok h
  obtain ⟨closing, ts3, h3, h⟩ := bind_ok h
  obtain ⟨rfl, rfl⟩ := pure_ok h
  have opens := token_accepted h1
  obtain rfl := token_ok h1
  obtain rfl := token_ok h3
  exact ⟨opening, ts1, rfl, opens, h2⟩

section Related
variable {block block' : Scope → Reader Block} {R : Reader Node → Reader Node → Prop}
  (look : ∀ {next next' : Option String → Reader Node}, (∀ word, R (next word) (next' word)) →
    R (peekWord >>= next) (peekWord >>= next'))
  (fails : ∀ what, R (expected what) (expected what))
  (sorts : List.Forall₂ R (plain ++ fenced block) (plain ++ fenced block'))
include look fails sorts

/-- What a relation has for each sort of declaration, it has for what a block may hold: the reader
of one sort, that the next word tells. -/
theorem member_related (scope : Scope) : R (member block scope) (member block' scope) := by
  simp only [plain, fenced, List.cons_append, List.nil_append, List.forall₂_cons] at sorts
  obtain ⟨-, -, -, setting, enumValue, reserved, labelled, unlabelled, message, enumeration, -,
    oneof, extension, rpc, -⟩ := sorts
  cases scope with
  | message =>
    refine look fun next => ?_
    split
    · exact setting
    · exact message
    · exact enumeration
    · exact extension
    · exact oneof
    · exact reserved
    · exact reserved
    · exact labelled
  | enumeration =>
    refine look fun next => ?_
    split
    · exact setting
    · exact reserved
    · exact enumValue
    · exact fails _
  | service =>
    refine look fun next => ?_
    split
    · exact setting
    · exact rpc
    · exact fails _
  | rpc =>
    refine look fun next => ?_
    split
    · exact setting
    · exact fails _
  | oneof =>
    refine look fun next => ?_
    split
    · exact setting
    · exact unlabelled
  | extension => exact labelled

/-- The same for what a file may hold. -/
theorem declaration_related : R (declaration block) (declaration block') := by
  simp only [plain, fenced, List.cons_append, List.nil_append, List.forall₂_cons] at sorts
  obtain ⟨dialect, package, importFile, setting, -, -, -, -, message, enumeration, service, -,
    extension, -⟩ := sorts
  refine look fun next => ?_
  split
  · exact dialect
  · exact dialect
  · exact package
  · exact importFile
  · exact setting
  · exact message
  · exact enumeration
  · exact service
  · exact extension
  · exact fails _

end Related

section Sorts
variable {block : Scope → Reader Block} {M : Reader Node → Prop}
  (look : ∀ {next : Option String → Reader Node}, (∀ word, M (next word)) → M (peekWord >>= next))
  (fails : ∀ what, M (expected what)) (sorts : ∀ r ∈ plain ++ fenced block, M r)
include look fails sorts

/-- What holds of each sort of declaration holds of what a block may hold. -/
theorem member_of_sorts (scope : Scope) : M (member block scope) := by
  have same : List.Forall₂ (fun r _ => M r) (plain ++ fenced block) (plain ++ fenced block) :=
    List.forall₂_same.2 sorts
  exact member_related look fails same scope

/-- What holds of each sort of declaration holds of what a file may hold. -/
theorem declaration_of_sorts : M (declaration block) := by
  have same : List.Forall₂ (fun r _ => M r) (plain ++ fenced block) (plain ++ fenced block) :=
    List.forall₂_same.2 sorts
  exact declaration_related look fails same

end Sorts

section Gives
variable {block : Scope → Reader Block} {P : List Token → Node → Prop}

theorem member_gives (h : ∀ r ∈ plain ++ fenced block, Gives r P) (scope : Scope) :
    Gives (member block scope) P :=
  member_of_sorts peekWord_looks.bind_gives (fun what => expected_gives what P) h scope

theorem declaration_gives (h : ∀ r ∈ plain ++ fenced block, Gives r P) :
    Gives (declaration block) P :=
  declaration_of_sorts peekWord_looks.bind_gives (fun what => expected_gives what P) h

end Gives

end Grammar

end SchemaDepot
