import SchemaDepot.Proofs.Generate.Spelling

/-! # Which generated names are identifiers

The names in generated code are made of words, so they have the characters of identifiers. What they
may lack is a letter in front, and what they may be is a word that the language keeps for itself:
some of these can be written raw, and some name nothing even then.

* `IsIdentifier`: a name that may be given to something.
* `isIdentifier_joined`, `isIdentifier_valueName`: which names of the two customs are identifiers.
* `SourceKind.Allows`: which words give identifiers to members.
* `generate_identifiers`: which names of generated code are identifiers; `exists_no_identifier`: not
  all of them. -/

namespace SchemaDepot.Code

open Lexeme (isWordPart isWordStart)
open Naming

/-! ### Identifiers -/

/-- The words that the language keeps for itself. -/
def reservedWords : List String :=
  ["Self", "abstract", "as", "async", "await", "become", "box", "break", "const", "continue",
    "crate", "do", "dyn", "else", "enum", "extern", "false", "final", "fn", "for", "if", "impl",
    "in", "let", "loop", "macro", "match", "mod", "move", "mut", "override", "priv", "pub", "ref",
    "return", "self", "static", "struct", "super", "trait", "true", "try", "type", "typeof",
    "unsafe", "unsized", "use", "virtual", "where", "while", "yield"]

/-- Those of them that mean a place in a path, and so may not be written raw. -/
def pathWords : List String := ["crate", "self", "super", "Self"]

/-- A name that may be given to something: letters, digits and underscores, no digit first and not
an underscore alone, and no reserved word; or a reserved word written raw. -/
inductive IsIdentifier : String → Prop where
  | plain {name : String} : IsWord name → name ≠ "_" → name ∉ reservedWords → IsIdentifier name
  | raw {word : String} : word ∈ reservedWords → word ∉ pathWords → IsIdentifier ("r#" ++ word)

theorem toList_raw (word : String) : ("r#" ++ word).toList = 'r' :: '#' :: word.toList :=
  String.toList_append

/-- A name without a mark is not written raw. -/
theorem isIdentifier_of_all {name : String} (h : name.toList.all isWordPart = true) :
    IsIdentifier name ↔ IsWord name ∧ name ≠ "_" ∧ name ∉ reservedWords := by
  refine ⟨fun legal => ?_, fun ⟨word, more, free⟩ => .plain word more free⟩
  cases legal with
  | plain word more free => exact ⟨word, more, free⟩
  | raw _ _ =>
    rw [toList_raw] at h
    exact absurd (List.mem_cons_of_mem _ List.mem_cons_self) (hash_notMem h)

theorem isIdentifier_raw {word : String} :
    IsIdentifier ("r#" ++ word) ↔ word ∈ reservedWords ∧ word ∉ pathWords := by
  refine ⟨fun legal => ?_, fun ⟨kept, more⟩ => .raw kept more⟩
  generalize hname : "r#" ++ word = name at legal
  cases legal with
  | plain shaped _ _ =>
    refine absurd ?_ (hash_notMem shaped.all)
    rw [← hname, toList_raw]
    exact List.mem_cons_of_mem _ List.mem_cons_self
  | raw kept more =>
    rw [String.append_right_inj] at hname
    exact hname ▸ ⟨kept, more⟩

/-! ### Names of types and variants -/

/-- The first character of names, but for underscores, is a letter. -/
def startsWithLetter (path : List String) : Bool := (characters path).head?.any Char.isAlpha

theorem isWordStart_toUpper {c : Char} (h : (c != '_') = true) :
    isWordStart c.toUpper = c.isAlpha := by
  rcases isAlpha_or_fixed c with ⟨alpha, up, -⟩ | ⟨alpha, up, -⟩
  · rw [isWordStart, up, alpha, Bool.true_or]
  · rw [up, isWordStart, alpha, Bool.false_or, beq_eq_false_iff_ne]
    exact bne_iff_ne.1 h

section Path
variable {path : List String} (h : ∀ w ∈ path, IsWord w)
include h

theorem isWord_joined : IsWord (joined path) ↔ startsWithLetter path = true := by
  have start := head?_joined h
  have rest := all_joined h
  have kept : ∀ c ∈ (characters path).head?, (c != '_') = true := fun c hc =>
    (List.mem_filter.1 (List.mem_of_mem_head? hc)).2
  rw [startsWithLetter]
  cases first : (characters path).head? with
  | none =>
    rw [first] at start
    refine ⟨fun ⟨c, cs, hs, _⟩ => ?_, nofun⟩
    rw [hs] at start
    cases start
  | some c =>
    rw [first] at start
    obtain ⟨cs, hs⟩ := List.head?_eq_some_iff.1 start
    rw [Option.any_some, ← isWordStart_toUpper (kept c first)]
    rw [hs, List.all_cons, Bool.and_eq_true] at rest
    refine ⟨fun ⟨d, ds, hd, letter, _⟩ => ?_, fun letter => ⟨_, cs, hs, letter, rest.2⟩⟩
    rw [hs] at hd
    cases hd
    exact letter

/-- A whole name that starts with a letter starts with a capital. -/
theorem isUpper_joined (letter : startsWithLetter path = true) :
    (joined path).toList.head?.any isUpper = true := by
  rw [head?_joined h]
  rw [startsWithLetter] at letter
  cases first : (characters path).head? with
  | none => rw [first] at letter; cases letter
  | some c =>
    rw [first, Option.any_some] at letter
    rw [Option.map_some, Option.any_some, isUpper_toUpper, letter]

/-- **Which whole names are identifiers**: those that start with a letter, but for one that is
reserved. -/
theorem isIdentifier_joined :
    IsIdentifier (joined path) ↔ startsWithLetter path = true ∧ joined path ≠ "Self" := by
  rw [isIdentifier_of_all (all_joined h), isWord_joined h]
  refine and_congr_right fun letter => ?_
  have capital := isUpper_joined h letter
  have small : ∀ k ∈ reservedWords, k.toList.head?.any isUpper = true → k = "Self" := by decide
  constructor
  · rintro ⟨-, free⟩ same
    exact free (same ▸ by decide)
  · intro other
    refine ⟨fun alone => ?_, fun kept => other (small _ kept capital)⟩
    rw [alone] at capital
    exact absurd capital (by decide)

end Path

theorem isIdentifier_pascalCase {w : String} (h : IsWord w) :
    IsIdentifier (pascalCase w) ↔ startsWithLetter [w] = true ∧ pascalCase w ≠ "Self" := by
  rw [← joined_singleton]
  exact isIdentifier_joined (List.forall_mem_singleton.2 h)

/-! ### Names of fields and methods -/

theorem isWord_snakeCase {w : String} (h : IsWord w) : IsWord (snakeCase w) := by
  obtain ⟨c, cs, ds, -, start, hd, -⟩ := exists_snakeCase h
  have rest := all_snakeCase h
  rw [hd, List.all_cons, Bool.and_eq_true] at rest
  refine ⟨_, ds, hd, ?_, rest.2⟩
  rcases isAlpha_or_fixed c with ⟨-, -, low⟩ | ⟨-, -, low⟩
  · rw [isWordStart, low, Bool.true_or]
  · rwa [low]

/-- There are no capitals in snake case. -/
theorem snakeCase_ne {w : String} (h : IsWord w) : snakeCase w ≠ "Self" := by
  intro same
  have small := isUpper_snakeChars false h.all 'S'
  rw [← String.toList_ofList (l := snakeChars false w.toList)] at small
  exact absurd (small (by rw [← snakeCase, same]; decide)) (by decide)

/-- The words that name nothing in snake case, be they written raw or not. -/
def unspeakable : List String := ["crate", "self", "super"]

/-- **Which names of values are identifiers**: all but an underscore and those that mean a place in
a path. -/
theorem isIdentifier_valueName {w : String} (h : IsWord w) :
    IsIdentifier (valueName w) ↔ w ≠ "_" ∧ snakeCase w ∉ unspeakable := by
  have shaped := isWord_snakeCase h
  have capital := snakeCase_ne h
  rw [Ne, ← snakeCase_eq_underscore h, valueName, escapeKeyword]
  generalize snakeCase w = name at *
  have known : ∀ k ∈ keywords, k ∈ reservedWords ∧ k ≠ "_" ∧
      (k ∉ pathWords ↔ k ∉ unspeakable) := by decide
  have others : ∀ k ∈ reservedWords, k ∉ keywords → k ≠ "Self" → k ∈ unspeakable := by decide
  have reserved : ∀ k ∈ unspeakable, k ∈ reservedWords := by decide
  by_cases keyword : name ∈ keywords
  · obtain ⟨kept, more, same⟩ := known name keyword
    rw [if_pos (List.contains_iff_mem.2 keyword), isIdentifier_raw, same]
    constructor
    · rintro ⟨-, free⟩
      exact ⟨more, free⟩
    · rintro ⟨-, free⟩
      exact ⟨kept, free⟩
  · rw [if_neg (mt List.contains_iff_mem.1 keyword), isIdentifier_of_all shaped.all]
    constructor
    · rintro ⟨-, more, free⟩
      exact ⟨more, mt (reserved name) free⟩
    · rintro ⟨more, free⟩
      exact ⟨shaped, more, fun kept => free (others name kept keyword capital)⟩

/-! ### The names in generated code -/

/-- A word that gives an identifier to a member. -/
def SourceKind.Allows : SourceKind → String → Prop
  | message, w | service, w => w ≠ "_" ∧ snakeCase w ∉ unspeakable
  | enumeration, w | choice, w => startsWithLetter [w] = true ∧ pascalCase w ≠ "Self"

instance (kind : SourceKind) (w : String) : Decidable (kind.Allows w) := by
  cases kind <;> exact inferInstanceAs (Decidable (_ ∧ _))

theorem isIdentifier_memberName (kind : SourceKind) {w : String} (h : IsWord w) :
    IsIdentifier (kind.memberName w) ↔ kind.Allows w := by
  cases kind with
  | message | service => exact isIdentifier_valueName h
  | enumeration | choice => exact isIdentifier_pascalCase h

/-- The name of an item and the names in it are identifiers. -/
structure IsNamed (x : CodeItem) : Prop where
  name : IsIdentifier x.name
  members : ∀ name ∈ x.memberNames, IsIdentifier name

section Files
variable {m : Marker} {input : GeneratorInput} {own dependencies : List ParsedFile}

/-- **A name in generated code is an identifier just if the words it is made from allow that.** -/
theorem generate_identifiers (hown : parseFiles m input.files = .ok own)
    (hdependencies : parseFiles m input.dependencyFiles = .ok dependencies) :
    let symbols := symbolsOf (own ++ dependencies)
    ∃ out, generate m input = .ok out ∧
      out.files.map TextFile.content = own.map (fileText symbols input.includeServices) ∧
      ∀ parsed ∈ own,
        let sources := sourcesOfFile input.includeServices parsed
        itemsOfFile symbols input.includeServices parsed = sources.map (Source.item symbols) ∧
        ∀ s ∈ sources,
          (IsIdentifier (s.item symbols).name ↔
            startsWithLetter s.path = true ∧ s.codeName ≠ "Self") ∧
          (s.item symbols).memberNames = s.words.map s.kind.memberName ∧
          ∀ w ∈ s.words, IsIdentifier (s.kind.memberName w) ↔ s.kind.Allows w := by
  intro symbols
  obtain ⟨out, hout, texts⟩ := exists_generate_texts hown hdependencies
  refine ⟨out, hout, texts, fun parsed hparsed => ⟨itemsOfFile_eq symbols _ parsed, fun s hs => ?_⟩⟩
  have spelled := spelled_sourcesOfFile _ (spelled_of_parseFiles hown parsed hparsed) s hs
  refine ⟨?_, s.memberNames_item symbols, fun w hw =>
    isIdentifier_memberName s.kind (spelled.words w hw)⟩
  rw [s.name_item]
  exact isIdentifier_joined spelled.path

/-- Declarations of each kind, some of their names reserved words or without letters in front. -/
def orderText : String :=
  "message Order { string type = 1; oneof _pick { bool try = 2; } }\n" ++
    "enum Phase { _do = 0; }\n" ++
    "service Desk { rpc Yield (Order) returns (Order); }\n"

/-- A request to generate code for them. -/
def orderInput : GeneratorInput :=
  { files := [⟨"order.proto", orderText⟩], includeServices := true }

/-- Reserved words are no obstacle, as long as they can be written raw. -/
theorem isNamed_order : ∃ own out, parseFiles {} orderInput.files = .ok own ∧
    parseFiles {} orderInput.dependencyFiles = .ok [] ∧ generate {} orderInput = .ok out ∧
    out.files.map TextFile.content = own.map (fileText (symbolsOf (own ++ [])) true) ∧
    own.map (fun parsed => (itemsOfFile (symbolsOf (own ++ [])) true parsed).map fun x =>
      (x.name, x.memberNames)) =
      [[("Order", ["r#type", "_pick"]), ("OrderPick", ["Try"]), ("Phase", ["Do"]),
        ("Desk", ["r#yield"])]] ∧
    ∀ parsed ∈ own, ∀ x ∈ itemsOfFile (symbolsOf (own ++ [])) true parsed, IsNamed x := by
  obtain ⟨own, hown, names, allowed⟩ : ∃ own, parseFiles {} orderInput.files = .ok own ∧
      own.map (fun parsed => (itemsOfFile (symbolsOf (own ++ [])) true parsed).map fun x =>
        (x.name, x.memberNames)) =
        [[("Order", ["r#type", "_pick"]), ("OrderPick", ["Try"]), ("Phase", ["Do"]),
          ("Desk", ["r#yield"])]] ∧
      ∀ parsed ∈ own, ∀ s ∈ sourcesOfFile true parsed,
        (startsWithLetter s.path = true ∧ s.codeName ≠ "Self") ∧ ∀ w ∈ s.words, s.kind.Allows w :=
    exists_parsed_of_decide (by decide +kernel)
  have hnone : parseFiles {} orderInput.dependencyFiles = .ok [] := rfl
  obtain ⟨out, hout, texts, each⟩ := generate_identifiers hown hnone
  refine ⟨own, out, hown, hnone, hout, texts, names, fun parsed hparsed x hx => ?_⟩
  obtain ⟨items, named⟩ := each parsed hparsed
  rw [show itemsOfFile (symbolsOf (own ++ [])) true parsed = _ from items, List.mem_map] at hx
  obtain ⟨s, hs, rfl⟩ := hx
  obtain ⟨own, members⟩ := allowed parsed hparsed s hs
  obtain ⟨name, words, inside⟩ := named s hs
  refine ⟨name.2 own, ?_⟩
  rw [words, List.forall_mem_map]
  exact fun w hw => (inside w hw).2 (members w hw)

/-- A field that is called like the value a method is called on. -/
def selfText : String := "message A { string self = 1; }\n"

/-- A request to generate code for it. -/
def selfInput : GeneratorInput := { files := [⟨"a.proto", selfText⟩] }

/-- **Some names in generated code are no identifiers.** -/
theorem exists_no_identifier : ¬ ∀ (m : Marker) (input : GeneratorInput)
    (own dependencies : List ParsedFile), parseFiles m input.files = .ok own →
    parseFiles m input.dependencyFiles = .ok dependencies → ∀ parsed ∈ own,
      ∀ x ∈ itemsOfFile (symbolsOf (own ++ dependencies)) input.includeServices parsed,
        IsNamed x := by
  intro claim
  obtain ⟨own, hown, there⟩ : ∃ own, parseFiles {} selfInput.files = .ok own ∧
      "self" ∈ (own.flatMap (itemsOfFile (symbolsOf (own ++ [])) false)).flatMap
        CodeItem.memberNames :=
    exists_parsed_of_decide (by decide +kernel)
  obtain ⟨x, hx, name⟩ := List.mem_flatMap.1 there
  obtain ⟨parsed, hparsed, hx⟩ := List.mem_flatMap.1 hx
  have legal := (claim {} selfInput own [] hown rfl parsed hparsed x hx).members "self" name
  have plain : ("self").toList.all isWordPart = true := by decide
  exact ((isIdentifier_of_all plain).1 legal).2.2 (by decide)

end Files

end SchemaDepot.Code
