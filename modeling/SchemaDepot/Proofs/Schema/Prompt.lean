import SchemaDepot.Proofs.Schema.Recognition
import SchemaDepot.Proofs.Schema.Row
import SchemaDepot.Proofs.Token.Lexicon

/-! # Readers stop at once

What a reader makes of tokens, whether it gives something or stops, is decided by the tokens in
front of those that are left and by the first of these. So nothing that stands behind the token at
which a reader stops has to do with it.

* `Reader.Prompt`: readers of this sort; `PromptAt.bind`, `Prompt.bind` and `Prompt.ite` for those
  that are put together.
* `Reader.followers_cons`, `Reader.many_cons`: repetitions without the room for their rounds, of
  which there is enough.
* `Grammar.block_prompt`, `Grammar.file_prompt`: the grammar. -/

namespace SchemaDepot

namespace Reader

variable {α β : Type}

/-- The tokens that are left, whether a reader has given something or has stopped. -/
def left : Except Stop (α × List Token) → List Token
  | .ok (_, rest) => rest
  | .error stop => stop.rest

/-- The same with other tokens left. -/
def leaving (rest : List Token) :
    Except Stop (α × List Token) → Except Stop (α × List Token)
  | .ok (a, _) => .ok (a, rest)
  | .error stop => .error ⟨stop.fault, rest⟩

/-- The reader takes the front of the tokens, and would do the same with others behind the first
that it leaves. -/
def PromptAt (r : Reader α) (ts : List Token) : Prop := ∃ used, ts = used ++ left (r ts) ∧
  ∀ rest : List Token, rest.head? = (left (r ts)).head? → r (used ++ rest) = leaving rest (r ts)

/-- The reader does so with any tokens. -/
def Prompt (r : Reader α) : Prop := ∀ ts, PromptAt r ts

theorem head?_append_congr {ts us : List Token} (h : ts.head? = us.head?) (vs : List Token) :
    (vs ++ ts).head? = (vs ++ us).head? := by
  cases vs with
  | nil => exact h
  | cons v vs => rfl

theorem bind_of_error {r : Reader α} {f : α → Reader β} {ts : List Token} {stop : Stop}
    (h : r ts = .error stop) : (r >>= f) ts = .error stop := by
  simp only [bind, StateT.bind, h, Except.bind]

/-! ### Readers that are put together -/

theorem PromptAt.bind {r : Reader α} {f : α → Reader β} {ts : List Token} (hr : PromptAt r ts)
    (hf : ∀ a mid, r ts = .ok (a, mid) → PromptAt (f a) mid) : PromptAt (r >>= f) ts := by
  unfold PromptAt
  obtain ⟨used, hts, same⟩ := hr
  cases h : r ts with
  | error stop =>
    rw [h] at hts same
    rw [bind_of_error h]
    exact ⟨used, hts, fun rest hrest => bind_of_error (same rest hrest)⟩
  | ok read =>
    obtain ⟨a, mid⟩ := read
    obtain ⟨used', hmid, same'⟩ := hf a mid h
    rw [h] at hts same
    rw [bind_of_ok h]
    refine ⟨used ++ used', ?_, fun rest hrest => ?_⟩
    · rw [List.append_assoc, ← hmid]
      exact hts
    · have head : (used' ++ rest).head? = mid.head? := by
        rw [head?_append_congr hrest, ← hmid]
      rw [List.append_assoc, bind_of_ok (same (used' ++ rest) head)]
      exact same' rest hrest

theorem Prompt.bind {r : Reader α} {f : α → Reader β} (hr : Prompt r) (hf : ∀ a, Prompt (f a)) :
    Prompt (r >>= f) := fun ts => (hr ts).bind fun a mid _ => hf a mid

theorem Prompt.pure (a : α) : Prompt (Pure.pure a : Reader α) :=
  fun _ => ⟨[], rfl, fun _ _ => rfl⟩

theorem Prompt.ite {c : Prop} [Decidable c] {r s : Reader α} (hr : Prompt r) (hs : Prompt s) :
    Prompt (if c then r else s) := by
  split_ifs
  · exact hr
  · exact hs

/-- The reader has read one token more, and else does what another one does. -/
theorem PromptAt.cons {r s : Reader α} {t : Token} {ts : List Token} (h : PromptAt s ts)
    (same : ∀ us, r (t :: us) = s us) : PromptAt r (t :: ts) := by
  obtain ⟨used, hts, hs⟩ := h
  refine ⟨t :: used, ?_, fun rest hrest => ?_⟩
  · rw [same, List.cons_append, ← hts]
  · rw [same] at hrest ⊢
    rw [List.cons_append, same, hs rest hrest]

/-- With this token next, the reader does what another one does. -/
theorem PromptAt.congr {r s : Reader α} {t : Token} {ts : List Token} (h : PromptAt s (t :: ts))
    (same : ∀ us, r (t :: us) = s (t :: us)) : PromptAt r (t :: ts) := by
  obtain ⟨used, hts, hs⟩ := h
  refine ⟨used, by rw [same, ← hts], fun rest hrest => ?_⟩
  rw [same] at hrest
  have next : (used ++ rest).head? = some t := by
    rw [head?_append_congr hrest, ← hts]
    rfl
  obtain ⟨us, hus⟩ := List.head?_eq_some_iff.1 next
  rw [same ts, hus, same, ← hus]
  exact hs rest hrest

/-- The reader makes something else of what another one gives. -/
theorem PromptAt.map {r : Reader α} {ts : List Token} (h : PromptAt r ts) (f : α → β) :
    PromptAt (fun us => (r us).map fun (a, rest) => (f a, rest)) ts := by
  obtain ⟨used, hts, hr⟩ := h
  have same : left ((r ts).map fun (a, rest) => (f a, rest)) = left (r ts) := by
    cases r ts <;> rfl
  refine ⟨used, by rwa [same], fun rest hrest => ?_⟩
  dsimp only at hrest ⊢
  rw [hr rest (same ▸ hrest)]
  cases r ts <;> rfl

/-- The reader takes nothing and only looks at the next token. -/
theorem PromptAt.stay {r : Reader α} {ts : List Token} (h : left (r ts) = ts)
    (same : ∀ rest : List Token, rest.head? = ts.head? → r rest = leaving rest (r ts)) :
    PromptAt r ts := ⟨[], h.symm, fun rest hrest => same rest (by rwa [h] at hrest)⟩

theorem PromptAt.nil {r : Reader α} (h : left (r []) = []) : PromptAt r [] :=
  .stay h fun rest hrest => by
    obtain rfl : rest = [] := List.head?_eq_none_iff.1 hrest
    cases hr : r [] with
    | error stop =>
      rw [hr] at h
      simp only [leaving, ← show stop.rest = [] from h]
    | ok read =>
      rw [hr] at h
      simp only [leaving, ← show read.2 = [] from h]

theorem peek_prompt : Prompt peek := fun ts => .stay rfl fun rest hrest => by
  rw [peek, hrest]
  rfl

theorem peekWord_prompt : Prompt peekWord := fun ts => .stay rfl fun rest hrest => by
  rw [peekWord, hrest]
  rfl

theorem stopped_prompt (fault : GrammarFault) :
    Prompt (fun ts => .error ⟨fault, ts⟩ : Reader α) := fun _ => .stay rfl fun _ _ => rfl

theorem expected_prompt (what : String) : Prompt (expected what : Reader α) :=
  fun ts => .stay rfl fun rest hrest => by
    rw [expected, hrest]
    rfl

theorem token_prompt (accepts : Token → Bool) (what : String) : Prompt (token accepts what)
  | [] => .nil rfl
  | t :: ts => by
    by_cases ht : accepts t = true
    · exact .cons (Prompt.pure t ts) fun us => if_pos ht
    · exact .congr (expected_prompt what (t :: ts)) fun us => if_neg ht

theorem acceptToken_prompt (accepts : Token → Bool) : Prompt (acceptToken accepts)
  | [] => .nil rfl
  | t :: ts => by
    by_cases ht : accepts t = true
    · exact .cons (Prompt.pure true ts) fun us => if_pos ht
    · exact .congr (Prompt.pure false (t :: ts)) fun us => if_neg ht

/-! ### Repetitions -/

section Follow
variable {sep : Char} {item : Reader α}

/-- As many rounds as there are tokens are enough. -/
theorem follow_room (hi : Advances item) {room room' ts : List Token}
    (enough : ts.length ≤ room.length) (enough' : ts.length ≤ room'.length) :
    follow sep item room ts = follow sep item room' ts := by
  induction room generalizing room' ts with
  | nil =>
    obtain rfl := List.eq_nil_of_length_eq_zero (Nat.le_zero.1 enough)
    rw [follow_nil, follow_nil]
  | cons u room ih =>
    cases ts with
    | nil => rw [follow_nil, follow_nil]
    | cons t ts =>
      cases room' with
      | nil => simp at enough'
      | cons u' room' =>
        rw [follow_cons, follow_cons]
        split_ifs with ht
        · cases hx : item ts with
          | error stop => rw [bind_of_error hx, bind_of_error hx]
          | ok read =>
            have := (hi hx).length_le
            simp only [List.length_cons] at enough enough'
            rw [bind_of_ok hx, bind_of_ok hx]
            have := ih (show read.2.length ≤ room.length by omega) (show _ ≤ room'.length by omega)
            simp only [bind, StateT.bind, this]
        · rfl

theorem followers_eq (ts : List Token) : followers sep item ts = follow sep item ts ts := rfl

/-- Items behind separators, without the room for them. -/
theorem followers_cons (hi : Advances item) (t : Token) (ts : List Token) :
    followers sep item (t :: ts) =
      if isSymbol sep t then (do
        let x ← item
        let xs ← followers sep item
        return x :: xs : Reader (List α)) ts
      else .ok ([], t :: ts) := by
  rw [followers_eq, follow_cons]
  split_ifs
  · cases hx : item ts with
    | error stop => rw [bind_of_error hx, bind_of_error hx]
    | ok read =>
      have enough := (hi hx).length_le
      rw [bind_of_ok hx, bind_of_ok hx]
      simp only [bind, StateT.bind, followers_eq, follow_room hi enough (Nat.le_refl _)]
  · rfl

theorem followers_prompt (hi : Prompt item) (advances : Advances item) :
    Prompt (followers sep item) := by
  intro ts
  induction hn : ts.length using Nat.strongRecOn generalizing ts with
  | ind n ih =>
    cases ts with
    | nil => exact .nil rfl
    | cons t ts =>
      have goes (us : List Token) : followers sep item (t :: us) = _ := followers_cons advances t us
      by_cases ht : isSymbol sep t = true
      · refine .cons ((hi ts).bind fun x mid hx => ?_) fun us => (goes us).trans (if_pos ht)
        have shorter := (advances hx).length_le
        simp only [List.length_cons] at hn
        exact (ih mid.length (by omega) mid rfl).bind fun xs mid' _ => Prompt.pure (x :: xs) mid'
      · exact .congr (Prompt.pure [] (t :: ts)) fun us => (goes us).trans (if_neg ht)

theorem chain_prompt (hi : Prompt item) (advances : Advances item) : Prompt (chain sep item) :=
  hi.bind fun _ => (followers_prompt hi advances).bind fun _ => Prompt.pure _

end Follow

section Many
variable {ends : Token → Bool} {item : Reader α}

/-- The reader takes a token or more of those it gives something for. -/
def Takes (r : Reader α) : Prop := ∀ ⦃ts a rest⦄, r ts = .ok (a, rest) → rest.length < ts.length

/-- As many rounds as there are tokens are enough. -/
theorem manyWithin_room (hi : Takes item) {room room' ts : List Token}
    (enough : ts.length ≤ room.length) (enough' : ts.length ≤ room'.length) :
    manyWithin ends item room ts = manyWithin ends item room' ts := by
  induction room generalizing room' ts with
  | nil =>
    obtain rfl := List.eq_nil_of_length_eq_zero (Nat.le_zero.1 enough)
    rw [manyWithin_nil, manyWithin_nil]
  | cons u room ih =>
    cases ts with
    | nil => rw [manyWithin_nil, manyWithin_nil]
    | cons t ts =>
      cases room' with
      | nil => simp at enough'
      | cons u' room' =>
        simp only [List.length_cons] at enough enough'
        rw [manyWithin_cons, manyWithin_cons]
        split_ifs
        · rfl
        · exact ih (by omega) (by omega)
        · cases hx : item (t :: ts) with
          | error stop => rw [bind_of_error hx, bind_of_error hx]
          | ok read =>
            have := hi hx
            simp only [List.length_cons] at this
            rw [bind_of_ok hx, bind_of_ok hx]
            have := ih (show read.2.length ≤ room.length by omega) (show _ ≤ room'.length by omega)
            simp only [bind, StateT.bind, this]

theorem many_eq (ts : List Token) : many ends item ts = manyWithin ends item ts ts := rfl

/-- Items up to an end, without the room for them. -/
theorem many_cons (hi : Takes item) (t : Token) (ts : List Token) :
    many ends item (t :: ts) =
      if ends t then .ok ([], t :: ts)
      else if isSymbol ';' t then many ends item ts
      else (do
        let x ← item
        let xs ← many ends item
        return x :: xs : Reader (List α)) (t :: ts) := by
  rw [many_eq, manyWithin_cons]
  split_ifs
  · rfl
  · rfl
  · cases hx : item (t :: ts) with
    | error stop => rw [bind_of_error hx, bind_of_error hx]
    | ok read =>
      have enough : read.2.length ≤ ts.length := by
        have := hi hx
        simp only [List.length_cons] at this
        omega
      rw [bind_of_ok hx, bind_of_ok hx]
      simp only [bind, StateT.bind, many_eq, manyWithin_room hi enough (Nat.le_refl _)]

theorem many_prompt (hi : Prompt item) (takes : Takes item) : Prompt (many ends item) := by
  intro ts
  induction hn : ts.length using Nat.strongRecOn generalizing ts with
  | ind n ih =>
    cases ts with
    | nil => exact .nil rfl
    | cons t ts =>
      have goes (us : List Token) : many ends item (t :: us) = _ := many_cons takes t us
      simp only [List.length_cons] at hn
      by_cases hend : ends t = true
      · exact .congr (Prompt.pure [] (t :: ts)) fun us => (goes us).trans (if_pos hend)
      by_cases hsemi : isSymbol ';' t = true
      · exact .cons (ih ts.length (by omega) ts rfl) fun us =>
          ((goes us).trans (if_neg hend)).trans (if_pos hsemi)
      · refine .congr ((hi (t :: ts)).bind fun x mid hx => ?_) fun us =>
          ((goes us).trans (if_neg hend)).trans (if_neg hsemi)
        have shorter := takes hx
        simp only [List.length_cons] at shorter
        exact (ih mid.length (by omega) mid rfl).bind fun xs mid' _ => Prompt.pure (x :: xs) mid'

end Many

end Reader

namespace Grammar

open Reader

/-! ### Names and values -/

theorem dotted_prompt (what : String) : Prompt (dotted what) :=
  (acceptToken_prompt _).bind fun _ =>
    (chain_prompt (token_prompt _ _) (token_advances _ _)).bind fun _ => Prompt.pure _

theorem optionNamePart_prompt : Prompt optionNamePart :=
  (acceptToken_prompt _).bind fun _ => .ite
    ((dotted_prompt _).bind fun _ => (token_prompt _ _).bind fun _ => Prompt.pure _)
    ((token_prompt _ _).bind fun _ => Prompt.pure _)

theorem optionName_prompt : Prompt optionName :=
  (chain_prompt optionNamePart_prompt optionNamePart_advances).bind fun _ => Prompt.pure _

/-- A run of literals ends where the next token is none. -/
theorem moreLiterals_prompt : Prompt moreLiterals := by
  intro ts
  refine ⟨ts.takeWhile isLiteral, List.takeWhile_append_dropWhile.symm, fun rest hrest => ?_⟩
  have here := run_append_iff (p := isLiteral) (ts.takeWhile isLiteral) (ts.dropWhile isLiteral)
  rw [List.takeWhile_append_dropWhile] at here
  obtain ⟨run, ends⟩ := here.1 ⟨rfl, rfl⟩
  obtain ⟨htake, hdrop⟩ := (run_append_iff _ _).2 ⟨run, hrest ▸ ends⟩
  simp only [moreLiterals, htake, hdrop, leaving]

theorem literals_prompt (what : String) : Prompt (literals what) :=
  (token_prompt _ _).bind fun _ => moreLiterals_prompt.bind fun _ => Prompt.pure _

theorem aggregateTail_prompt (depth : Nat) : Prompt (aggregateTail depth) := by
  intro ts
  induction ts generalizing depth with
  | nil => exact .nil rfl
  | cons t ts ih =>
    have goes := aggregateTail_cons depth t
    generalize (if isSymbol '\x7b' t then depth + 1 else if isSymbol '\x7d' t then depth - 1
      else depth) = inner at goes
    by_cases deep : maxNesting < inner
    · exact .congr (stopped_prompt .deepValue (t :: ts)) fun us => (goes us).trans (if_pos deep)
    by_cases closed : inner = 0
    · exact .cons (Prompt.pure [kept t] ts) fun us =>
        ((goes us).trans (if_neg deep)).trans (if_pos closed)
    · exact .cons ((ih inner).map (kept t :: ·)) fun us =>
        ((goes us).trans (if_neg deep)).trans (if_neg closed)

theorem aggregate_prompt : Prompt aggregate :=
  (token_prompt _ _).bind fun _ => (aggregateTail_prompt 1).bind fun _ => Prompt.pure _

theorem constant_prompt : Prompt constant := by
  refine peek_prompt.bind fun next => ?_
  have signed (c : Char) (sign : String) : Prompt (do
      let _ ← symbol c
      return sign ++ (← token isSignable "a number").text) :=
    (token_prompt _ _).bind fun _ => (token_prompt _ _).bind fun _ => Prompt.pure _
  have number : Prompt (do return (← token (fun _ => true) "a number").text) :=
    (token_prompt _ _).bind fun _ => Prompt.pure _
  split
  · exact literals_prompt _
  · exact number
  · exact number
  · exact signed '-' "-"
  · exact signed '+' "+"
  · exact dotted_prompt _
  · exact aggregate_prompt
  · exact expected_prompt _

theorem assignment_prompt : Prompt assignment :=
  optionName_prompt.bind fun _ => (token_prompt _ _).bind fun _ =>
    constant_prompt.bind fun _ => Prompt.pure _

theorem compactOptions_prompt : Prompt compactOptions :=
  (acceptToken_prompt _).bind fun _ => .ite
    ((chain_prompt assignment_prompt assignment_advances).bind fun _ =>
      (token_prompt _ _).bind fun _ => Prompt.pure _)
    (Prompt.pure _)

/-! ### Declarations without a block -/

/-- The semicolon that ends a declaration. -/
theorem ended_prompt (content : Content) (start : Position) :
    Prompt (do return leaf content start (← symbol ';')) :=
  (token_prompt _ _).bind fun _ => Prompt.pure _

theorem startOfNext_prompt : Prompt startOfNext := peek_prompt.bind fun _ => Prompt.pure _

theorem dialect_prompt : Prompt dialect :=
  (token_prompt _ _).bind fun _ => (token_prompt _ _).bind fun _ =>
    (literals_prompt _).bind fun _ => ended_prompt _ _

theorem package_prompt : Prompt package :=
  (token_prompt _ _).bind fun _ => (dotted_prompt _).bind fun _ => ended_prompt _ _

theorem weakness_prompt (isPublic : Bool) : Prompt (weakness isPublic) :=
  .ite (Prompt.pure false) (acceptToken_prompt _)

theorem importFile_prompt : Prompt importFile := by
  rw [importFile_eq]
  exact (token_prompt _ _).bind fun _ => (acceptToken_prompt _).bind fun isPublic =>
    (weakness_prompt isPublic).bind fun _ => (literals_prompt _).bind fun _ => ended_prompt _ _

theorem setting_prompt : Prompt setting :=
  (token_prompt _ _).bind fun _ => assignment_prompt.bind fun _ => ended_prompt _ _

theorem fieldLabel_prompt : Prompt fieldLabel :=
  (acceptToken_prompt _).bind fun _ => .ite (Prompt.pure _)
    ((acceptToken_prompt _).bind fun _ => .ite (Prompt.pure _)
      ((acceptToken_prompt _).bind fun _ => .ite (Prompt.pure _) (Prompt.pure _)))

theorem fieldType_prompt : Prompt fieldType :=
  (acceptToken_prompt _).bind fun _ => .ite
    ((acceptToken_prompt _).bind fun _ => .ite
      ((dotted_prompt _).bind fun _ => (token_prompt _ _).bind fun _ =>
        (dotted_prompt _).bind fun _ => (token_prompt _ _).bind fun _ => Prompt.pure _)
      ((followers_prompt (token_prompt _ _) (token_advances _ _)).bind fun _ => Prompt.pure _))
    (dotted_prompt _)

theorem integer_prompt (what : String) : Prompt (integer what) :=
  (token_prompt _ _).bind fun _ => Prompt.pure _

theorem labelIf_prompt (labelled : Bool) : Prompt (labelIf labelled) :=
  .ite fieldLabel_prompt (Prompt.pure none)

theorem field_prompt (labelled : Bool) : Prompt (field labelled) := by
  rw [field_eq]
  exact startOfNext_prompt.bind fun _ => (labelIf_prompt labelled).bind fun _ =>
    fieldType_prompt.bind fun _ => (token_prompt _ _).bind fun _ => (token_prompt _ _).bind fun _ =>
      (integer_prompt _).bind fun _ => compactOptions_prompt.bind fun _ => ended_prompt _ _

theorem enumValue_prompt : Prompt enumValue :=
  (token_prompt _ _).bind fun _ => (token_prompt _ _).bind fun _ =>
    (acceptToken_prompt _).bind fun _ => (integer_prompt _).bind fun _ =>
      compactOptions_prompt.bind fun _ => ended_prompt _ _

theorem ranges_prompt (first : String) (brackets : Nat) (item : List String) :
    Prompt (ranges first brackets item) := by
  intro ts
  induction ts generalizing brackets item with
  | nil => exact .nil rfl
  | cons t ts ih =>
    by_cases last : (isSymbol ';' t && brackets == 0) = true
    · exact .cons (Prompt.pure (addItem item [], t) ts) fun us => if_pos last
    by_cases next : (isSymbol ',' t && brackets == 0) = true
    · exact .cons ((ih 0 []).map fun read => (addItem item read.1, read.2)) fun us =>
        (if_neg last).trans (if_pos next)
    by_cases brace : (isSymbol '\x7b' t || isSymbol '\x7d' t) = true
    · exact .congr (stopped_prompt (.braceIn t.text first) (t :: ts)) fun us =>
        (if_neg last).trans ((if_neg next).trans (if_pos brace))
    · exact .cons (ih _ (item ++ [t.text])) fun us =>
        (if_neg last).trans ((if_neg next).trans (if_neg brace))

theorem reserved_prompt : Prompt reserved :=
  (token_prompt _ _).bind fun _ => (ranges_prompt _ 0 []).bind fun _ => Prompt.pure _

/-! ### Declarations with a block -/

section Blocks
variable {block : Scope → Reader Block} (hb : ∀ scope, Prompt (block scope))
include hb

theorem namedBlock_prompt (kind what : String) (content : String → Content) (scope : Scope) :
    Prompt (namedBlock block kind what content scope) :=
  (token_prompt _ _).bind fun _ => (token_prompt _ _).bind fun _ =>
    (hb scope).bind fun _ => Prompt.pure _

theorem extension_prompt : Prompt (extension block) :=
  (token_prompt _ _).bind fun _ => (dotted_prompt _).bind fun _ =>
    (hb .extension).bind fun _ => Prompt.pure _

omit hb in
theorem rpcType_prompt : Prompt rpcType := by
  have type : Prompt (dotted "a message type") := dotted_prompt _
  exact (token_prompt _ _).bind fun _ => (acceptToken_prompt _).bind fun _ => .ite
    ((acceptToken_prompt _).bind fun _ => .ite (Prompt.pure _)
      (type.bind fun _ => (token_prompt _ _).bind fun _ => Prompt.pure _))
    (type.bind fun _ => (token_prompt _ _).bind fun _ => Prompt.pure _)

theorem rpcBody_prompt : Prompt (rpcBody block) := by
  have none : Prompt (do return ([], ← symbol ';') : Reader Block) :=
    (token_prompt _ _).bind fun _ => Prompt.pure _
  refine peek_prompt.bind fun next => ?_
  cases next with
  | none => exact none
  | some t => exact .ite (hb .rpc) none

theorem rpc_prompt : Prompt (rpc block) :=
  (token_prompt _ _).bind fun _ => (token_prompt _ _).bind fun _ => rpcType_prompt.bind fun _ =>
    (token_prompt _ _).bind fun _ => rpcType_prompt.bind fun _ =>
      (rpcBody_prompt hb).bind fun _ => Prompt.pure _

theorem sorts_prompt : ∀ r ∈ plain ++ fenced block, Prompt r := by
  have named (kind what : String) (content : String → Content) (scope : Scope) :=
    namedBlock_prompt hb kind what content scope
  simp only [plain, fenced, List.cons_append, List.nil_append, List.forall_mem_cons]
  exact ⟨dialect_prompt, package_prompt, importFile_prompt, setting_prompt, enumValue_prompt,
    reserved_prompt, field_prompt true, field_prompt false, named _ _ _ _, named _ _ _ _,
    named _ _ _ _, named _ _ _ _, extension_prompt hb, rpc_prompt hb, List.forall_mem_nil _⟩

theorem member_prompt (scope : Scope) : Prompt (member block scope) :=
  member_of_sorts peekWord_prompt.bind expected_prompt (sorts_prompt hb) scope

theorem declaration_prompt : Prompt (declaration block) :=
  declaration_of_sorts peekWord_prompt.bind expected_prompt (sorts_prompt hb)

end Blocks

theorem takes_of_declares {r : Reader Node} (h : Gives r Declares) : Takes r := by
  intro ts n rest hr
  obtain ⟨used, rfl, first, inner, last, -, -, rfl, -⟩ := h hr
  simp only [List.length_append, List.length_cons]
  omega

theorem block_prompt (room : Nat) (scope : Scope) : Prompt (block room scope) := by
  induction room generalizing scope with
  | zero =>
    intro ts
    cases ts with
    | nil => exact .nil rfl
    | cons t ts =>
      have goes (us : List Token) : block 0 scope (t :: us) =
          if isSymbol '\x7b' t then .error ⟨.deepDeclarations, t :: us⟩
          else expected (named "\x7b") (t :: us) := by
        by_cases ht : isSymbol '\x7b' t = true
        · simp only [block, symbol, token, ht, if_true, bind, Except.bind]
        · simp [block, symbol, token, ht, expected, bind, Except.bind]
      by_cases ht : isSymbol '\x7b' t = true
      · exact .congr (stopped_prompt .deepDeclarations (t :: ts)) fun us =>
          (goes us).trans (if_pos ht)
      · exact .congr (expected_prompt _ (t :: ts)) fun us => (goes us).trans (if_neg ht)
  | succ room ih =>
    have members : Prompt (many (isSymbol '\x7d') (member (block room) scope)) := many_prompt
      (member_prompt ih scope)
      (takes_of_declares (member_declares (block_row room) scope))
    exact (token_prompt _ _).bind fun _ => members.bind fun _ =>
      (token_prompt _ _).bind fun _ => Prompt.pure _

/-- **A schema text stops being one at a token that is told by the tokens up to it.** -/
theorem file_prompt : Prompt file :=
  many_prompt (declaration_prompt (block_prompt maxNesting))
    (takes_of_declares (declaration_declares (block_row maxNesting)))

end Grammar

end SchemaDepot
