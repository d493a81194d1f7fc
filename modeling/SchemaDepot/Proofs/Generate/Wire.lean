import SchemaDepot.Proofs.Generate.Spelling
import SchemaDepot.Proofs.Text.Lines

/-! # Names on the wire

What generated types are serialized to has names as well. A field has its own, since an attribute
says it wherever the name in the source text is another one. A choice has no such attribute, and the
variants of a choice have one for all of them, which puts their names from Pascal case to snake case
again. So these two have their names only if nothing is lost on the way.

* `Naming.variantCase`: what becomes of the name of a variant; `Naming.isSnake`: the words that come
  back from Pascal case; `Naming.variantCase_pascalCase_eq_self_iff`.
* `CodeItem.wireNames`: the names that an item is serialized with; `Source.wireNames_item`: what
  they come from; `Source.wireNames_item_eq_words_iff`: when they are those of the members.
* `generate_wireNames`: this for generated files; `exists_renamed`: they are not always. -/

namespace SchemaDepot

open Lexeme (isWordPart isWordStart)

/-- Rows of what is given for the same elements are equal just if the same is given for each. -/
theorem filterMap_eq_iff {α β : Type} {f g : α → Option β} {xs : List α}
    (same : ∀ x ∈ xs, (f x).isSome = (g x).isSome) :
    xs.filterMap f = xs.filterMap g ↔ ∀ x ∈ xs, f x = g x := by
  induction xs with
  | nil => exact iff_of_true rfl nofun
  | cons x xs ih =>
    obtain ⟨first, others⟩ := List.forall_mem_cons.1 same
    rw [List.filterMap_cons, List.filterMap_cons, List.forall_mem_cons, ← ih others]
    cases hf : f x <;> cases hg : g x <;> simp [hf, hg] at first ⊢

namespace Naming

/-! ### Variants -/

/-- A character of the name of a variant, not the first: a capital has an underscore before it and
becomes small. -/
def unfolded (c : Char) : List Char := if isUpper c then ['_', c.toLower] else [c]

/-- The name of a variant, put to snake case character by character. -/
def variantChars : List Char → List Char
  | [] => []
  | c :: cs => c.toLower :: cs.flatMap unfolded

/-- The name of a variant as it is serialized, where snake case is asked for. -/
def variantCase (name : String) : String := String.ofList (variantChars name.toList)

/-- The name is made of pieces of small letters and digits, a letter first in each, with one
underscore between neighbours. -/
def isSnake (name : String) : Bool :=
  (Text.splitAt '_' name.toList).all fun piece =>
    piece.head?.any isLower && piece.all (!isUpper ·)

/-- The characters have no capital among them. -/
def IsSmall (cs : List Char) : Prop := ∀ c ∈ cs, isUpper c = false

theorem map_toLower_of_small {cs : List Char} (h : IsSmall cs) : cs.map Char.toLower = cs :=
  (List.map_congr_left fun c hc => toLower_eq_self (h c hc)).trans (List.map_id cs)

theorem flatMap_unfolded_of_small {cs : List Char} (h : IsSmall cs) : cs.flatMap unfolded = cs := by
  have each : cs.flatMap unfolded = cs.flatMap fun c => [c] :=
    List.flatMap_congr fun c hc => by rw [unfolded, h c hc, if_neg Bool.false_ne_true]
  rw [each, List.flatMap_singleton']

/-- A name that is serialized has no capitals. -/
theorem small_variantChars (cs : List Char) : IsSmall (variantChars cs) := by
  cases cs with
  | nil => nofun
  | cons c cs =>
    refine List.forall_mem_cons.2 ⟨isUpper_toLower c, fun d hd => ?_⟩
    obtain ⟨e, -, hd⟩ := List.mem_flatMap.1 hd
    unfold unfolded at hd
    split_ifs at hd with upper
    · rcases List.mem_cons.1 hd with rfl | hd
      · rfl
      · rw [List.mem_singleton.1 hd]
        exact isUpper_toLower e
    · rw [List.mem_singleton.1 hd]
      simpa using upper

/-- What a piece of a name becomes behind another: it keeps an underscore before it if a letter
stands in front. -/
def marked (piece : List Char) : List Char :=
  if piece.head?.any isLower then '_' :: piece else piece

/-- A small letter is one that has another form in upper case. -/
theorem isUpper_toUpper_of_small {c : Char} (h : isUpper c = false) :
    isUpper c.toUpper = isLower c := by
  rw [isUpper_toUpper, isAlpha_eq, h, Bool.false_or]

theorem capitalize_of_small {c : Char} {cs : List Char} (h : IsSmall cs) :
    capitalize (c :: cs) = c.toUpper :: cs := by
  rw [capitalize, map_toLower_of_small h, ite_self]

theorem flatMap_unfolded_capitalize {piece : List Char} (h : IsSmall piece) :
    (capitalize piece).flatMap unfolded = marked piece := by
  cases piece with
  | nil => rfl
  | cons c cs =>
    obtain ⟨first, others⟩ := List.forall_mem_cons.1 h
    have back : c.toUpper.toLower = c := (toLower_toUpper c).trans (toLower_eq_self first)
    rw [capitalize_of_small others, List.flatMap_cons, flatMap_unfolded_of_small others, unfolded,
      isUpper_toUpper_of_small first, back, marked, List.head?_cons, Option.any_some]
    split_ifs with lower
    · rfl
    · rw [toUpper_eq_self (Bool.eq_false_iff.2 lower)]
      rfl

theorem flatMap_flatMap_capitalize {pieces : List (List Char)} (h : ∀ p ∈ pieces, IsSmall p) :
    (pieces.flatMap capitalize).flatMap unfolded = pieces.flatMap marked := by
  rw [List.flatMap_assoc]
  exact List.flatMap_congr fun p hp => flatMap_unfolded_capitalize (h p hp)

/-- **Of the first piece nothing is lost**, and of the others the underscore if no letter stands in
front. -/
theorem variantChars_capitalize {c : Char} {cs : List Char} {pieces : List (List Char)}
    (first : IsSmall (c :: cs)) (others : ∀ p ∈ pieces, IsSmall p) :
    variantChars (((c :: cs) :: pieces).flatMap capitalize) =
      c :: cs ++ pieces.flatMap marked := by
  obtain ⟨hc, hcs⟩ := List.forall_mem_cons.1 first
  rw [List.flatMap_cons, capitalize_of_small hcs, List.cons_append, variantChars,
    toLower_toUpper, toLower_eq_self hc, List.flatMap_append,
    flatMap_unfolded_of_small hcs, flatMap_flatMap_capitalize others]
  rfl

theorem length_marked_le (piece : List Char) : (marked piece).length ≤ piece.length + 1 := by
  unfold marked
  split_ifs <;> simp

theorem length_flatMap_marked_le (pieces : List (List Char)) :
    (pieces.flatMap marked).length ≤ (pieces.flatMap ('_' :: ·)).length := by
  induction pieces with
  | nil => rfl
  | cons p pieces ih =>
    have := length_marked_le p
    simp only [List.flatMap_cons, List.length_append, List.length_cons]
    omega

/-- All underscores come back just if a letter stands in front of each piece. -/
theorem flatMap_marked_eq_iff {pieces : List (List Char)} :
    pieces.flatMap marked = pieces.flatMap ('_' :: ·) ↔
      ∀ p ∈ pieces, p.head?.any isLower = true := by
  induction pieces with
  | nil => exact iff_of_true rfl nofun
  | cons p pieces ih =>
    rw [List.flatMap_cons, List.flatMap_cons, List.forall_mem_cons, ← ih, marked]
    split_ifs with letter
    · simp [letter]
    · refine iff_of_false (fun same => ?_) fun both => letter both.1
      have := congrArg List.length same
      have := length_flatMap_marked_le pieces
      simp only [List.length_append, List.length_cons] at *
      omega

/-- A name without capitals comes back from its pieces just if a letter stands in front of each but
the first. -/
theorem variantChars_capitalize_eq_iff {c : Char} {cs : List Char} {pieces : List (List Char)}
    (small : ∀ p ∈ (c :: cs) :: pieces, IsSmall p) :
    variantChars (((c :: cs) :: pieces).flatMap capitalize) =
        c :: cs ++ pieces.flatMap ('_' :: ·) ↔ ∀ p ∈ pieces, p.head?.any isLower = true := by
  obtain ⟨first, others⟩ := List.forall_mem_cons.1 small
  rw [variantChars_capitalize first others, List.append_cancel_left_eq, flatMap_marked_eq_iff]

/-- What may begin a word is a small letter, a capital or an underscore. -/
theorem isLower_of_isWordStart {c : Char} (start : isWordStart c = true) (other : c ≠ '_')
    (small : isUpper c = false) : isLower c = true := by
  have letter : c.isAlpha = true := by simpa [isWordStart, other] using start
  rwa [isAlpha_eq, small, Bool.false_or] at letter

/-- The pieces of a name hold its characters, but for the underscores. -/
theorem mem_of_mem_piece {cs piece : List Char} (hp : piece ∈ Text.splitAt '_' cs) :
    ∀ c ∈ piece, c ∈ cs ∧ c ≠ '_' := by
  intro c hc
  have inside : c ∈ (Text.splitAt '_' cs).flatten := List.mem_flatten_of_mem hp hc
  rw [flatten_splitAt] at inside
  obtain ⟨there, other⟩ := List.mem_filter.1 inside
  exact ⟨there, by simpa using other⟩

section Word
variable {w : String} (h : IsWord w)
include h

/-- A name that is serialized starts with no underscore. -/
theorem head?_variantChars_pascalCase :
    (variantChars (pascalCase w).toList).head? ≠ some '_' := by
  have heads (cs : List Char) : (variantChars cs).head? = cs.head?.map Char.toLower := by
    cases cs <;> rfl
  rw [heads, toList_pascalCase, words_of_all h.all, head?_flatMap_capitalize, flatten_splitAt,
    Option.map_map]
  intro same
  obtain ⟨c, hc, low⟩ := Option.map_eq_some_iff.1 same
  have other : (c != '_') = true := (List.mem_filter.1 (List.mem_of_mem_head? hc)).2
  rw [Function.comp, toLower_toUpper] at low
  rcases isAlpha_or_fixed c with ⟨-, -, alpha⟩ | ⟨-, -, fixed⟩
  · rw [low] at alpha
    cases alpha
  · rw [fixed] at low
    rw [low] at other
    cases other

/-- **Which words come back from Pascal case**: those in snake case of which each piece starts with
a letter. -/
theorem variantCase_pascalCase_eq_self_iff :
    variantCase (pascalCase w) = w ↔ isSnake w = true := by
  have head := head?_variantChars_pascalCase h
  have inside := fun p => @mem_of_mem_piece w.toList p
  have joined := Text.joinWith_splitAt '_' w.toList
  have pascal : (pascalCase w).toList = (Text.splitAt '_' w.toList).flatMap capitalize := by
    rw [toList_pascalCase, words_of_all h.all]
  rw [← String.toList_inj, variantCase, String.toList_ofList, isSnake]
  rw [pascal] at head ⊢
  obtain ⟨c, cs, hw, start, -⟩ := h
  cases hsplit : Text.splitAt '_' w.toList with
  | nil => exact absurd hsplit (Text.splitAt_ne_nil _ _)
  | cons piece pieces =>
    rw [hsplit] at head inside joined
    rw [Text.joinWith_cons] at joined
    cases piece with
    | nil =>
      -- the word starts with an underscore
      rw [List.all_cons]
      refine iff_of_false (fun same => head ?_) (by simp)
      rw [same, ← joined]
      cases pieces with
      | nil =>
        rw [hw] at joined
        cases joined
      | cons p pieces => rfl
    | cons d ds =>
      obtain ⟨rfl, -⟩ : d = c ∧ ds ++ pieces.flatMap ('_' :: ·) = cs := by
        rw [hw] at joined
        exact List.cons.inj joined
      have other : d ≠ '_' := (inside _ List.mem_cons_self d List.mem_cons_self).2
      rw [List.all_eq_true]
      constructor
      · intro same
        have small : IsSmall w.toList := same ▸ small_variantChars _
        have each : ∀ p ∈ (d :: ds) :: pieces, IsSmall p := fun p hp e he =>
          small e (inside p hp e he).1
        rw [← joined, variantChars_capitalize_eq_iff each] at same
        have lower := isLower_of_isWordStart start other (each _ List.mem_cons_self d (by simp))
        have letters : ∀ p ∈ (d :: ds) :: pieces, p.head?.any isLower = true :=
          List.forall_mem_cons.2 ⟨lower, same⟩
        intro p hp
        rw [letters p hp, Bool.true_and, List.all_eq_true]
        exact fun e he => by simp [each p hp e he]
      · intro snake
        simp only [Bool.and_eq_true, List.all_eq_true, Bool.not_eq_true'] at snake
        rw [← joined, variantChars_capitalize_eq_iff fun p hp => (snake p hp).2]
        exact fun p hp => (snake p (List.mem_cons_of_mem _ hp)).1

/-- Which words stay the same in snake case: those without capitals. -/
theorem snakeCase_eq_self_iff : snakeCase w = w ↔ IsSmall w.toList := by
  constructor
  · intro same c hc
    rw [← same, snakeCase, String.toList_ofList] at hc
    exact isUpper_snakeChars false h.all c hc
  · intro small
    rw [snakeCase, snakeChars_eq_self, String.ofList_toList]
    exact fun c hc => ⟨small c hc, ne_separator (List.all_eq_true.1 h.all c hc)⟩

end Word

end Naming

/-! ### The names of members -/

/-- The name that a field is serialized with: what its attribute says, or its own without a mark. -/
def CodeField.wireName (f : CodeField) : String := f.rename.getD (Code.withoutRawMarks f.name)

/-- The names that the members of an item are serialized with. Methods are not serialized. -/
def CodeItem.wireNames : CodeItem → List String
  | struct _ _ _ fields => fields.map CodeField.wireName
  | enumeration _ _ _ _ variants => variants.map CodeVariant.rename
  | choice _ _ variants => variants.map fun (name, _) => Naming.variantCase name
  | service _ _ _ => []

namespace Code

open Naming

namespace SourceKind

/-- What the name of a member becomes when it is serialized. -/
def wireName? : SourceKind → Content → Option String
  | message, .field f => some f.name
  | message, .oneof name => some (snakeCase name)
  | choice, .field f => some (variantCase (pascalCase f.name))
  | enumeration, .enumValue v => some v.name
  | _, _ => none

/-- The member is one whose name stays: no choice in a message with a capital in its name, and no
member of a choice that does not come back from Pascal case. -/
def keepsName : SourceKind → Content → Bool
  | message, .oneof name => name.toList.all (!isUpper ·)
  | choice, .field f => isSnake f.name
  | _, _ => true

/-- What has a name in code is serialized. -/
theorem isSome_wireName? {kind : SourceKind} (hkind : kind ≠ service) (content : Content) :
    (kind.wireName? content).isSome = (kind.memberWord? content).isSome := by
  cases kind with
  | service => exact absurd rfl hkind
  | _ => cases content <;> simp only [wireName?, memberWord?, Option.isSome_some,
      Option.isSome_none]

/-- **Which members are serialized with their names.** -/
theorem wireName?_eq_iff {kind : SourceKind} (hkind : kind ≠ service) {content : Content}
    (word : ∀ w, kind.memberWord? content = some w → IsWord w) :
    kind.wireName? content = kind.memberWord? content ↔ kind.keepsName content = true := by
  cases kind with
  | service => exact absurd rfl hkind
  | message =>
    cases content with
    | oneof name =>
      rw [wireName?, memberWord?, keepsName, Option.some_inj, snakeCase_eq_self_iff (word name rfl)]
      simp [IsSmall]
    | _ => exact iff_of_true rfl rfl
  | choice =>
    cases content with
    | field f =>
      rw [wireName?, memberWord?, Option.some_inj]
      exact variantCase_pascalCase_eq_self_iff (word f.name rfl)
    | _ => exact iff_of_true rfl rfl
  | enumeration => cases content <;> exact iff_of_true rfl rfl

end SourceKind

namespace Source

variable {s : Source} (symbols : Symbols)

/-- What the name of a field says is not lost: an attribute says it, or the name without a mark. -/
theorem map_wireName_structField? (owner : String) {n : Node}
    (word : ∀ w, SourceKind.message.memberWord? n.content = some w → IsWord w) :
    (structField? symbols owner n).map CodeField.wireName =
      SourceKind.message.wireName? n.content := by
  rw [structField?]
  cases h : n.content with
  | field f =>
    rw [Option.map_some, CodeField.wireName]
    by_cases same : withoutRawMarks (valueName f.name) = f.name
    · rw [if_pos same, Option.getD_none]
      exact congrArg some same
    · rw [if_neg same]
      rfl
  | oneof name =>
    rw [Option.map_some]
    exact congrArg some (withoutRawMarks_valueName (word name (by rw [h]; rfl)))
  | _ => rfl

/-- **What the members of an item are serialized with comes from the members of its source.** -/
theorem wireNames_item (spelled : s.IsSpelled) :
    (s.item symbols).wireNames = s.members.filterMap fun n => s.kind.wireName? n.content := by
  unfold item
  cases hkind : s.kind with
  | message =>
    rw [structItem, CodeItem.wireNames, List.map_filterMap]
    refine List.filterMap_congr fun n hn => map_wireName_structField? symbols _ fun w hw => ?_
    exact spelled.words w (List.mem_filterMap.2 ⟨n, hn, by rw [hkind, hw]⟩)
  | enumeration =>
    rw [enumItem, CodeItem.wireNames, enumNumbers, List.map_map, List.map_filterMap]
    refine List.filterMap_congr fun n _ => ?_
    cases n.content <;> rfl
  | choice =>
    rw [choiceItem, CodeItem.wireNames, List.map_filterMap]
    refine List.filterMap_congr fun n _ => ?_
    rw [choiceVariant?]
    cases n.content <;> rfl
  | service => exact (List.filterMap_eq_nil_iff.2 fun n _ => rfl).symm

/-- Which members keep their names. -/
theorem IsSpelled.wireName?_eq_iff (spelled : s.IsSpelled) (hkind : s.kind ≠ .service) {n : Node}
    (hn : n ∈ s.members) : s.kind.wireName? n.content = s.kind.memberWord? n.content ↔
      s.kind.keepsName n.content = true :=
  SourceKind.wireName?_eq_iff hkind fun w hw =>
    spelled.words w (List.mem_filterMap.2 ⟨n, hn, hw⟩)

/-- **The members of an item are serialized with their names just if each has one that stays.** -/
theorem wireNames_item_eq_words_iff (spelled : s.IsSpelled) (hkind : s.kind ≠ .service) :
    (s.item symbols).wireNames = s.words ↔ ∀ n ∈ s.members, s.kind.keepsName n.content = true := by
  rw [wireNames_item symbols spelled, words,
    filterMap_eq_iff fun n _ => SourceKind.isSome_wireName? hkind n.content]
  exact forall₂_congr fun n hn => spelled.wireName?_eq_iff hkind hn

end Source

/-! ### Generated files -/

section Files
variable {m : Marker} {input : GeneratorInput} {own dependencies : List ParsedFile}

/-- **What generated types are serialized with**: a field with its name, a choice with its name in
snake case, and a member of a choice with its name in Pascal case and from there in snake case. So
the names stay just if no choice of a message has a capital in its name, and each member of a choice
comes back from Pascal case. -/
theorem generate_wireNames (hown : parseFiles m input.files = .ok own)
    (hdependencies : parseFiles m input.dependencyFiles = .ok dependencies) :
    let symbols := symbolsOf (own ++ dependencies)
    ∃ out, generate m input = .ok out ∧
      out.files.map TextFile.content = own.map (fileText symbols input.includeServices) ∧
      ∀ parsed ∈ own,
        let sources := sourcesOfFile input.includeServices parsed
        itemsOfFile symbols input.includeServices parsed = sources.map (Source.item symbols) ∧
        ∀ s ∈ sources, s.kind ≠ .service →
          (s.item symbols).wireNames =
            s.members.filterMap (fun n => s.kind.wireName? n.content) ∧
          (∀ n ∈ s.members, s.kind.wireName? n.content = s.kind.memberWord? n.content ↔
            s.kind.keepsName n.content = true) ∧
          ((s.item symbols).wireNames = s.words ↔
            ∀ n ∈ s.members, s.kind.keepsName n.content = true) := by
  intro symbols
  obtain ⟨out, hout, texts⟩ := exists_generate_texts hown hdependencies
  refine ⟨out, hout, texts, fun parsed hparsed => ⟨itemsOfFile_eq symbols _ parsed, ?_⟩⟩
  intro s hs hkind
  have spelled := spelled_sourcesOfFile _ (spelled_of_parseFiles hown parsed hparsed) s hs
  exact ⟨Source.wireNames_item symbols spelled, fun n hn => spelled.wireName?_eq_iff hkind hn,
    Source.wireNames_item_eq_words_iff symbols spelled hkind⟩

/-- A message with fields of all customs, and a choice in snake case. -/
def parcelText : String :=
  "message Parcel \x7b\n" ++
    "  string trackingNumber = 1;\n  string type = 2;\n  string _x__9 = 3;\n" ++
    "  oneof drop_off \x7b string locker_id2 = 4; bool try = 5; \x7d\n\x7d\n"

/-- A request to generate code for it. -/
def parcelInput : GeneratorInput := { files := [⟨"parcel.proto", parcelText⟩] }

/-- All of its names stay. -/
theorem wireNames_parcel : ∃ own out, parseFiles {} parcelInput.files = .ok own ∧
    parseFiles {} parcelInput.dependencyFiles = .ok [] ∧ generate {} parcelInput = .ok out ∧
    out.files.map TextFile.content = own.map (fileText (symbolsOf (own ++ [])) false) ∧
    own.map (fun parsed => (sourcesOfFile false parsed).map Source.words) =
      [[["trackingNumber", "type", "_x__9", "drop_off"], ["locker_id2", "try"]]] ∧
    ∀ parsed ∈ own, ∀ s ∈ sourcesOfFile false parsed, s.kind ≠ .service ∧
      (s.item (symbolsOf (own ++ []))).wireNames = s.words := by
  obtain ⟨own, hown, words, kept⟩ : ∃ own, parseFiles {} parcelInput.files = .ok own ∧
      own.map (fun parsed => (sourcesOfFile false parsed).map Source.words) =
        [[["trackingNumber", "type", "_x__9", "drop_off"], ["locker_id2", "try"]]] ∧
      ∀ parsed ∈ own, ∀ s ∈ sourcesOfFile false parsed, s.kind ≠ .service ∧
        ∀ n ∈ s.members, s.kind.keepsName n.content = true :=
    exists_parsed_of_decide (by decide +kernel)
  have hnone : parseFiles {} parcelInput.dependencyFiles = .ok [] := rfl
  obtain ⟨out, hout, texts, each⟩ := generate_wireNames hown hnone
  refine ⟨own, out, hown, hnone, hout, texts, words, fun parsed hparsed s hs => ?_⟩
  obtain ⟨hkind, stay⟩ := kept parsed hparsed s hs
  obtain ⟨-, -, same⟩ := (each parsed hparsed).2 s hs hkind
  exact ⟨hkind, same.2 stay⟩

/-- A choice and a member of it, both with capitals. -/
def payloadText : String := "message M { oneof payLoad { string userName = 1; } }\n"

/-- A request to generate code for it. -/
def payloadInput : GeneratorInput := { files := [⟨"m.proto", payloadText⟩] }

/-- **Some members are not serialized with their names.** -/
theorem exists_renamed : ¬ ∀ (m : Marker) (input : GeneratorInput)
    (own dependencies : List ParsedFile), parseFiles m input.files = .ok own →
    parseFiles m input.dependencyFiles = .ok dependencies → ∀ parsed ∈ own,
      ∀ s ∈ sourcesOfFile input.includeServices parsed, s.kind ≠ .service →
        (s.item (symbolsOf (own ++ dependencies))).wireNames = s.words := by
  intro claim
  obtain ⟨own, hown, parsed, hparsed, s, hs, hkind, renamed⟩ : ∃ own,
      parseFiles {} payloadInput.files = .ok own ∧
      ∃ parsed ∈ own, ∃ s ∈ sourcesOfFile false parsed, s.kind ≠ .service ∧
        (s.item (symbolsOf (own ++ []))).wireNames ≠ s.words :=
    exists_parsed_of_decide (by decide +kernel)
  exact renamed (claim {} payloadInput own [] hown rfl parsed hparsed s hs hkind)

end Files

end Code

end SchemaDepot
