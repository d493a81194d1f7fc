import SchemaDepot.Proofs.Schema.Prompt
import SchemaDepot.Proofs.Schema.Spans
import SchemaDepot.Proofs.Token.Kept

/-! # The aggregates of a text

An option whose value is an aggregate keeps it as one text. The options of a declaration stand among
its tokens, and what is kept of an aggregate are its tokens.

* `Reader.Chained`: items with separators between them; `Reader.chain_chained`.
* `Grammar.Assigns`: the tokens of an option; `Grammar.Optioned`: those of the options of a
  declaration.
* `Grammar.Reads.lists`: the options of a declaration are among its tokens.
* `Schema.parse_keeps`: the aggregates of a text, scanned again. -/

namespace SchemaDepot

/-! ### The options of declarations -/

/-- The names and values of the options of a declaration, in order. -/
def Content.options : Content → List (String × String)
  | setting name value => [(name, value)]
  | field f => f.options.map fun o => (o.name, o.value)
  | enumValue v => v.options.map fun o => (o.name, o.value)
  | _ => []

theorem Content.options_of_isBlock {content : Content} (h : content.isBlock = true) :
    content.options = [] := by
  cases content with
  | setting _ _ | field _ | enumValue _ => cases h
  | _ => rfl

namespace Reader

variable {α : Type} {sep : Char} {item : Reader α} {P Q : List Token → α → Prop}

/-- The tokens are items with a `sep` between neighbours, each made of its tokens as `P` tells. -/
inductive Chained (sep : Char) (P : List Token → α → Prop) : List Token → List α → Prop
  | one {ts : List Token} {x : α} (item : P ts x) : Chained sep P ts [x]
  | cons {ts us : List Token} {mark : Token} {x : α} {xs : List α} (item : P ts x)
      (between : isSymbol sep mark = true) (rest : Chained sep P us xs) :
      Chained sep P (ts ++ mark :: us) (x :: xs)

theorem Chained.imp {ts : List Token} {xs : List α} (h : Chained sep P ts xs)
    (hPQ : ∀ us x, us <:+: ts → P us x → Q us x) : Chained sep Q ts xs := by
  induction h with
  | one item => exact .one (hPQ _ _ List.infix_rfl item)
  | @cons ts us mark x xs item between _ ih =>
    refine .cons (hPQ _ _ (List.prefix_append _ _).isInfix item) between (ih fun vs y hvs => ?_)
    exact hPQ vs y (hvs.trans ((List.suffix_cons mark us).trans (List.suffix_append _ _)).isInfix)

theorem follow_chained (hi : Gives item P) (room : List Token) :
    Gives (follow sep item room) fun used xs => used = [] ∧ xs = [] ∨
      ∃ mark us, used = mark :: us ∧ isSymbol sep mark = true ∧ Chained sep P us xs := by
  refine follow_gives room hi (Or.inl ⟨rfl, rfl⟩) fun {mark v w x xs} between first others => ?_
  refine Or.inr ⟨mark, v ++ w, rfl, between, ?_⟩
  rcases others with ⟨rfl, rfl⟩ | ⟨mark', us, rfl, between', others⟩
  · rw [List.append_nil]
    exact .one first
  · exact .cons first between' others

theorem chain_chained (hi : Gives item P) : Gives (chain sep item) (Chained sep P) := by
  intro ts xs rest h
  obtain ⟨x, mid, h1, h⟩ := bind_ok h
  obtain ⟨xs', mid', h2, h⟩ := bind_ok h
  obtain ⟨rfl, rfl⟩ := pure_ok h
  obtain ⟨v, rfl, first⟩ := hi h1
  obtain ⟨w, rfl, others⟩ := follow_chained hi mid h2
  refine ⟨v ++ w, (List.append_assoc v w _).symm, ?_⟩
  rcases others with ⟨rfl, rfl⟩ | ⟨mark, us, rfl, between, others⟩
  · rw [List.append_nil]
    exact .one first
  · exact .cons first between others

end Reader

namespace Grammar

open Reader

/-! ### Values -/

/-- What is kept of tokens up to a closing brace are these tokens. -/
theorem aggregateTail_kept (depth : Nat) :
    Gives (aggregateTail depth) fun used parts => parts = used.map kept := by
  intro ts
  induction ts generalizing depth with
  | nil =>
    intro parts rest h
    cases h
  | cons t ts ih =>
    intro parts rest h
    rw [aggregateTail_cons] at h
    generalize (if isSymbol '\x7b' t then depth + 1 else if isSymbol '\x7d' t then depth - 1
      else depth) = inner at h
    dsimp only at h
    split_ifs at h
    · cases h
      exact ⟨[t], rfl, rfl⟩
    · obtain ⟨⟨parts', rest'⟩, htail, he⟩ := Lexeme.map_ok h
      cases he
      obtain ⟨used, rfl, rfl⟩ := ih inner htail
      exact ⟨t :: used, rfl, rfl⟩

theorem aggregate_kept : Gives aggregate fun used value => value = Token.keep used := by
  intro ts value rest h
  obtain ⟨first, mid, h1, h⟩ := bind_ok h
  obtain ⟨parts, mid', h2, h⟩ := bind_ok h
  obtain ⟨rfl, rfl⟩ := pure_ok h
  have brace := kind_of_isSymbol (token_accepted h1)
  obtain rfl := token_ok h1
  obtain ⟨used, rfl, rfl⟩ := aggregateTail_kept 1 h2
  have itself : kept first = first.text := by simp [kept, isLiteral, brace]
  refine ⟨first :: used, rfl, ?_⟩
  show _ = " ".intercalate (kept first :: used.map kept)
  rw [itself]

/-- What is kept of an aggregate are its tokens. -/
theorem constant_kept :
    Gives constant fun used value => used ∈ Phrase.group maxNesting → value = Token.keep used := by
  intro ts value rest h
  obtain ⟨used, rfl, -⟩ := constant_recognizes.sound h
  refine ⟨used, rfl, fun braced => ?_⟩
  obtain ⟨t, us, rfl, brace⟩ := begins_group _ _ braced
  have same : constant (t :: us ++ rest) = aggregate (t :: us ++ rest) := by
    have kind : (t :: us ++ rest).head?.map Token.kind = some (.symbol '\x7b') :=
      congrArg some (kind_of_isSymbol brace)
    rw [constant, bind_of_ok (rfl : peek (t :: us ++ rest) = .ok (_, t :: us ++ rest)), kind]
    rfl
  rw [same] at h
  obtain ⟨used, hused, rfl⟩ := aggregate_kept h
  rw [List.append_cancel_right hused]

/-- The tokens are a name, an equals sign and a value. Of an aggregate, `Q` tells what is kept. -/
inductive Assigns (Q : List Token → String → Prop) : List Token → String × String → Prop
  | aggregate {ns ws : List Token} {equals : Token} {name value : String}
      (named : optionName (ns ++ equals :: ws) = .ok (name, equals :: ws))
      (assigned : isSymbol '=' equals = true) (braced : ws ∈ Phrase.group maxNesting)
      (kept : Q ws value) : Assigns Q (ns ++ equals :: ws) (name, value)
  | other {ns ws : List Token} {equals : Token} {name value : String}
      (named : optionName (ns ++ equals :: ws) = .ok (name, equals :: ws))
      (assigned : isSymbol '=' equals = true) (valued : ws ∈ Phrase.constant)
      (bare : ws ∉ Phrase.group maxNesting) : Assigns Q (ns ++ equals :: ws) (name, value)

theorem Assigns.imp {Q R : List Token → String → Prop} {ts : List Token} {o : String × String}
    (h : Assigns Q ts o) (hQR : ∀ ws value, ws <:+: ts → ws ∈ Phrase.group maxNesting →
      Q ws value → R ws value) : Assigns R ts o := by
  cases h with
  | @aggregate ns ws equals _ _ named assigned braced kept =>
    have part : ws <:+: ns ++ equals :: ws :=
      ((List.suffix_cons equals ws).trans (List.suffix_append ns _)).isInfix
    exact .aggregate named assigned braced (hQR ws _ part braced kept)
  | other named assigned valued bare => exact .other named assigned valued bare

theorem assignment_assigns : Gives assignment (Assigns fun ws value => value = Token.keep ws) := by
  intro ts o rest h
  obtain ⟨name, mid, h1, h⟩ := bind_ok h
  obtain ⟨equals, mid', h2, h⟩ := bind_ok h
  obtain ⟨value, mid'', h3, h⟩ := bind_ok h
  obtain ⟨rfl, rfl⟩ := pure_ok h
  have assigned := token_accepted h2
  obtain rfl := token_ok h2
  obtain ⟨ws, rfl, valued, kept⟩ := (constant_recognizes.sound.and constant_kept) h3
  -- the name is told by its tokens and the equals sign
  obtain ⟨ns, hns, same⟩ := optionName_prompt ts
  rw [h1] at hns same
  obtain rfl : ts = ns ++ equals :: (ws ++ _) := hns
  have named : optionName (ns ++ equals :: ws) = .ok (name, equals :: ws) := same _ rfl
  refine ⟨ns ++ equals :: ws, by simp, ?_⟩
  by_cases braced : ws ∈ Phrase.group maxNesting
  · exact .aggregate named assigned braced (kept braced)
  · exact .other named assigned valued braced

/-! ### Declarations -/

/-- The options are read off a part of the tokens, behind the word `option` up to a semicolon, or
between brackets; or there are none. -/
def Optioned (Q : List Token → String → Prop) (ts : List Token) (os : List (String × String)) :
    Prop :=
  os = [] ∨ ∃ front first inner last back, ts = front ++ first :: inner ++ last :: back ∧
    (isWord "option" first = true ∧ isSymbol ';' last = true ∨
      isSymbol '[' first = true ∧ isSymbol ']' last = true) ∧ Chained ',' (Assigns Q) inner os

theorem Optioned.imp {Q R : List Token → String → Prop} {ts : List Token}
    {os : List (String × String)} (h : Optioned Q ts os)
    (hQR : ∀ ws value, ws <:+: ts → ws ∈ Phrase.group maxNesting → Q ws value → R ws value) :
    Optioned R ts os := by
  rcases h with none | ⟨front, first, inner, last, back, rfl, ends, chained⟩
  · exact Or.inl none
  · refine Or.inr ⟨front, first, inner, last, back, rfl, ends, chained.imp fun us o hus ho => ?_⟩
    have part : inner <:+: front ++ first :: inner ++ last :: back :=
      ⟨front ++ [first], last :: back, by simp⟩
    exact ho.imp fun ws value hws => hQR ws value ((hws.trans hus).trans part)

/-- The options that the reader gives are among the tokens that it takes. -/
def Lists (used : List Token) (n : Node) : Prop :=
  Optioned (fun ws value => value = Token.keep ws) used n.content.options

theorem lists_of_none {r : Reader Node} (h : Gives r Declares)
    (none : Yields r fun n => n.content.options = []) : Gives r Lists := by
  intro ts n rest hr
  obtain ⟨used, hused, -⟩ := h hr
  exact ⟨used, hused, Or.inl (none hr)⟩

theorem setting_lists : Gives setting Lists := by
  intro ts n rest h
  obtain ⟨first, mid, h1, h⟩ := bind_ok h
  obtain ⟨⟨name, value⟩, mid', h2, h⟩ := bind_ok h
  obtain ⟨last, mid'', h3, h⟩ := bind_ok h
  obtain ⟨rfl, rfl⟩ := pure_ok h
  have ends := And.intro (token_accepted h1) (token_accepted h3)
  obtain rfl := token_ok h1
  obtain ⟨inner, rfl, assigns⟩ := assignment_assigns h2
  obtain rfl := token_ok h3
  exact ⟨first :: inner ++ [last], by simp,
    Or.inr ⟨[], first, inner, last, [], rfl, Or.inl ends, .one assigns⟩⟩

/-- Options in brackets. -/
theorem compactOptions_optioned : Gives compactOptions fun used os =>
    Optioned (fun ws value => value = Token.keep ws) used (os.map fun o => (o.name, o.value)) := by
  intro ts os rest h
  obtain ⟨accepted, mid, h1, next⟩ := bind_ok h
  clear h
  cases ts with
  | nil =>
    cases h1
    obtain ⟨rfl, rfl⟩ := pure_ok next
    exact ⟨[], rfl, Or.inl rfl⟩
  | cons first ts =>
    simp only [accept, acceptToken] at h1
    split_ifs at h1 with ht <;> cases h1
    · rw [if_pos rfl] at next
      obtain ⟨options, mid, h2, next⟩ := bind_ok next
      obtain ⟨last, mid', h3, next⟩ := bind_ok next
      obtain ⟨rfl, rfl⟩ := pure_ok next
      have closed := token_accepted h3
      obtain ⟨inner, rfl, chained⟩ := chain_chained assignment_assigns h2
      obtain rfl := token_ok h3
      refine ⟨first :: inner ++ [last], by simp,
        Or.inr ⟨[], first, inner, last, [], rfl, Or.inr ⟨ht, closed⟩, ?_⟩⟩
      rw [List.map_map]
      show Chained ',' _ inner (options.map id)
      rwa [List.map_id]
    · obtain ⟨rfl, rfl⟩ := pure_ok next
      exact ⟨[], rfl, Or.inl rfl⟩

/-- Other tokens may stand before the options and behind them. -/
theorem Optioned.within {Q : List Token → String → Prop} {ts : List Token}
    {os : List (String × String)} (h : Optioned Q ts os) (before behind : List Token) :
    Optioned Q (before ++ ts ++ behind) os := by
  rcases h with none | ⟨front, first, inner, last, back, rfl, ends, chained⟩
  · exact Or.inl none
  · exact Or.inr ⟨before ++ front, first, inner, last, back ++ behind, by simp, ends, chained⟩

theorem lists_of_advances {α : Type} {r : Reader α} {f : α → Reader Node} (hr : Advances r)
    (hf : ∀ a, Gives (f a) Lists) : Gives (r >>= f) Lists := by
  intro ts n rest h
  obtain ⟨a, mid, h1, h2⟩ := bind_ok h
  obtain ⟨before, rfl⟩ := hr h1
  obtain ⟨used, rfl, lists⟩ := hf a h2
  refine ⟨before ++ used, (List.append_assoc before used rest).symm, ?_⟩
  have := lists.within before []
  rwa [List.append_nil] at this

/-- The options of a field or a value of an enum stand before its last token. -/
theorem optionsToEnd_lists {content : List CompactOption → Content} (start : Position)
    (hc : ∀ os, (content os).options = os.map fun o => (o.name, o.value)) :
    Gives (do let options ← compactOptions; return leaf (content options) start (← symbol ';'))
      Lists := by
  intro ts n rest h
  obtain ⟨options, mid, h1, h⟩ := bind_ok h
  obtain ⟨last, mid', h2, h⟩ := bind_ok h
  obtain ⟨rfl, rfl⟩ := pure_ok h
  obtain ⟨used, rfl, optioned⟩ := compactOptions_optioned h1
  obtain rfl := token_ok h2
  refine ⟨used ++ [last], by simp, ?_⟩
  show Optioned _ _ (content options).options
  rw [hc]
  exact optioned.within [] [last]

theorem field_lists (labelled : Bool) : Gives (field labelled) Lists := by
  rw [field_eq]
  exact lists_of_advances startOfNext_advances fun start =>
    lists_of_advances (labelIf_advances labelled) fun _ =>
      lists_of_advances fieldType_advances fun _ =>
        lists_of_advances (token_advances _ _) fun _ =>
          lists_of_advances (token_advances _ _) fun _ =>
            lists_of_advances (integer_advances _) fun _ => optionsToEnd_lists start fun _ => rfl

theorem enumValue_lists : Gives enumValue Lists :=
  lists_of_advances (token_advances _ _) fun _ =>
    lists_of_advances (token_advances _ _) fun _ =>
      lists_of_advances (acceptToken_advances _) fun _ =>
        lists_of_advances (integer_advances _) fun _ => optionsToEnd_lists _ fun _ => rfl

theorem plain_lists : ∀ r ∈ plain, Gives r Lists := by
  have dialect := lists_of_none dialect_declares (Yields.bind fun _ => Yields.bind fun _ =>
    Yields.bind fun _ => Yields.bind fun _ => Yields.pure rfl)
  have package := lists_of_none package_declares (Yields.bind fun _ => Yields.bind fun _ =>
    Yields.bind fun _ => Yields.pure rfl)
  have importFile := lists_of_none importFile_declares <| importFile_eq ▸
    Yields.bind fun _ => Yields.bind fun _ => Yields.bind fun _ => Yields.bind fun _ =>
      Yields.bind fun _ => Yields.pure rfl
  have reserved := lists_of_none reserved_declares (Yields.bind fun _ => Yields.bind fun _ =>
    Yields.pure rfl)
  simp only [plain, List.forall_mem_cons]
  exact ⟨dialect, package, importFile, setting_lists, enumValue_lists, reserved, field_lists true,
    field_lists false, List.forall_mem_nil _⟩

/-- Declarations with a block have no options of their own. -/
theorem fenced_lists (room : Nat) : ∀ r ∈ fenced (block room), Gives r Lists := by
  intro r hr
  refine lists_of_none (fenced_declare (block_row room) r hr) fun ts n rest h => ?_
  obtain ⟨content, first, header, mid, body, hc, -, -, rfl, -⟩ := fenced_hasBlock r hr h
  exact Content.options_of_isBlock hc

/-- **The options of a declaration, at any depth, are among its tokens.** -/
theorem Reads.lists {ts : List Token} {n : Node} (h : Reads ts n) : Lists ts n := by
  have all (room : Nat) := List.forall_mem_append.2 ⟨plain_lists, fenced_lists room⟩
  rcases h with ⟨room, scope, h⟩ | h
  · exact (member_gives (all room) scope).whole h
  · exact (declaration_gives (all maxNesting)).whole h

end Grammar

namespace Schema

open Token Placement

theorem readable_of_scan {text : String} {ts : List Token} {final : Position}
    (hscan : scan text = .ok (ts, final)) : ∀ t ∈ significant ts, t.Readable := by
  intro t ht
  obtain ⟨ht, comment⟩ := List.mem_filter.1 ht
  obtain ⟨front, rest, -, -, stands⟩ := (scan_lossless hscan).2.1 t ht
  exact Or.inr ⟨by simpa using comment, _, _, stands⟩

/-- The options of a text are those among its tokens, and of each aggregate one text is kept, which
is scanned again as told. -/
def Keeps (text : String) (root : Node) : Prop :=
  ∃ ts final, scan text = .ok (ts, final) ∧ ∀ n ∈ root.allDeclarations, ∃ us,
    us <:+: significant ts ∧ n.Spans us ∧ Grammar.Optioned ReadAgain us n.content.options

/-- **The aggregates of a text can be scanned again** exactly if nothing in their literals is
spelled by its code point, and have the same tokens then exactly if no octal digit stands behind a
NUL; and this is so of any text that is quoted. -/
theorem parse_keeps {m : Marker} {text : String} {root : Node} (h : parse m text = .ok root) :
    Keeps text root ∧ ∀ s, (∃ t final, scan (Text.quoted s) = .ok ([t], final) ∧
      t.kind = .literal ∧ t.text = s) ↔ Text.Requotable s.toList := by
  refine ⟨?_, scan_quoted⟩
  obtain ⟨ts, final, nodes, rest, hscan, hfile, rfl⟩ := parse_eq_ok.1 h
  have hrow := Grammar.file_row hfile
  refine ⟨ts, final, hscan, fun n hn => ?_⟩
  rw [allDeclarations_document hrow] at hn
  obtain ⟨x, hx, bare, span⟩ := exists_bare_of_mem_placeAll m _ nodes n hn
  obtain ⟨us, hus, reads⟩ := Grammar.file_reads hfile x hx
  refine ⟨us, hus, spans_of_reads hscan hus reads bare span, ?_⟩
  have content : x.content = n.content := by
    cases x
    cases n
    exact (Node.mk.inj bare).1
  rw [← content]
  refine reads.lists.imp fun ws value hws braced kept => ?_
  rw [kept]
  refine readAgain_keep ?_ fun t ht => readable_of_scan hscan t ?_
  · obtain ⟨t, vs, rfl, -⟩ := Grammar.begins_group _ _ braced
    exact List.cons_ne_nil t vs
  · exact (hws.trans hus).subset ht

/-- A field with an aggregate that is scanned again as it was. -/
def quotedText : String :=
  "message A \x7b int32 x = 1 [(b).c = \x7b d: 'é\"' e < f: -.5 > \x7d]; \x7d"

theorem quotedText_keeps : ∃ root, parse {} quotedText = .ok root ∧ Keeps quotedText root ∧
    ∀ s, (∃ t final, scan (Text.quoted s) = .ok ([t], final) ∧ t.kind = .literal ∧ t.text = s) ↔
      Text.Requotable s.toList := by
  have found : (parse {} quotedText).toOption.map
      (·.allDeclarations.flatMap (·.content.options)) =
        some [("(b).c", "\x7b d : \"é\\\"\" e < f : - .5 > \x7d")] := by decide +kernel
  obtain ⟨root, hp, -⟩ := exists_parse found
  exact ⟨root, hp, parse_keeps hp⟩

/-- An aggregate with a bell. -/
def bellText : String := "option a = \x7b b: \"\\x07\" \x7d;"

/-- **Not every aggregate can be scanned again.** -/
theorem exists_lost : (∃ root, parse {} bellText = .ok root ∧
      root.allDeclarations.flatMap (·.content.options) =
        [("a", "\x7b b : \"\\u\x7b7\x7d\" \x7d")]) ∧
    (scan bellText).toOption.map (·.1.map fun t => (t.kind, t.text)) =
      some [(.word, "option"), (.word, "a"), (.symbol '=', "="), (.symbol '\x7b', "\x7b"),
        (.word, "b"), (.symbol ':', ":"), (.literal, "\x07"), (.symbol '\x7d', "\x7d"),
        (.symbol ';', ";")] ∧
    scan "\x7b b : \"\\u\x7b7\x7d\" \x7d" =
      .error ⟨.lexical .emptyHexEscape, ⟨1, 7, 6⟩, none⟩ :=
  ⟨exists_parse (by decide +kernel), by decide +kernel, by decide +kernel⟩

end Schema

end SchemaDepot
