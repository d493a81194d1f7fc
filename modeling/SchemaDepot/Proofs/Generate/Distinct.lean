import SchemaDepot.Proofs.Generate.Spelling

/-! # Which generated names are distinct

The names in generated code do not show everything about the words they are made from: capitals and
underscores move, and the names of messages around a declaration are put before its own without a
mark between them. Names that differ in anything else stay apart.

* `AreDistinct`: no name is given twice.
* `areDistinct_iff`: just if the names made from the declarations are distinct.
* `areDistinct_of_folded`: it suffices that letters and digits differ.
* `generate_distinct`: this for generated files; `exists_not_distinct`: it does not suffice that no
  scope declares a name twice. -/

namespace SchemaDepot

/-- No scope of a tree declares a name twice. -/
def Node.DeclaresOnce (n : Node) : Prop :=
  ∀ x ∈ n.walk, (x.children.filterMap fun c => c.content.word?).Nodup

instance (n : Node) : Decidable n.DeclaresOnce := by
  unfold Node.DeclaresOnce
  infer_instance

namespace Code

open Naming

/-! ### Distinct names -/

/-- No two items have one name, nor two members of one item. -/
structure AreDistinct (items : List CodeItem) : Prop where
  names : (items.map CodeItem.name).Nodup
  members : ∀ x ∈ items, x.memberNames.Nodup

/-- The custom that members are named by. -/
def SourceKind.custom : SourceKind → String → String
  | message | service => snakeCase
  | enumeration | choice => pascalCase

/-- What is made of some things is distinct, if something can be read off it that is. -/
theorem nodup_map_of_key {α β γ : Type} {f : α → β} {g : α → γ} {xs : List α} (key : β → γ)
    (h : ∀ x ∈ xs, key (f x) = g x) (distinct : (xs.map g).Nodup) : (xs.map f).Nodup := by
  refine List.Nodup.of_map key ?_
  have read : xs.map (key ∘ f) = xs.map g := List.map_congr_left h
  rwa [List.map_map, read]

section Words
variable {words : List String} (h : ∀ w ∈ words, IsWord w)
include h

/-- Raw marks do not tell names apart that are equal without them. -/
theorem nodup_map_valueName : (words.map valueName).Nodup ↔ (words.map snakeCase).Nodup := by
  have escaped : (words.map snakeCase).map escapeKeyword = words.map valueName := List.map_map
  refine ⟨fun distinct => List.Nodup.of_map escapeKeyword ?_, ?_⟩
  · rwa [escaped]
  · exact nodup_map_of_key withoutRawMarks fun w hw => withoutRawMarks_valueName (h w hw)

theorem nodup_map_memberName (kind : SourceKind) :
    (words.map kind.memberName).Nodup ↔ (words.map kind.custom).Nodup := by
  cases kind with
  | enumeration | choice => exact Iff.rfl
  | message | service => exact nodup_map_valueName h

end Words

section Sources
variable {sources : List Source} (spelled : ∀ s ∈ sources, s.IsSpelled) (symbols : Symbols)

theorem names_map_item :
    (sources.map (Source.item symbols)).map CodeItem.name = sources.map Source.codeName := by
  rw [List.map_map]
  exact List.map_congr_left fun s _ => s.name_item symbols

theorem memberNames_map_item : (sources.map (Source.item symbols)).map CodeItem.memberNames =
    sources.map fun s => s.words.map s.kind.memberName := by
  rw [List.map_map]
  exact List.map_congr_left fun s _ => s.memberNames_item symbols

include spelled

/-- **Generated names are distinct just if those made from the declarations are**: the whole names
in Pascal case, and the words of each declaration in the custom for its members. -/
theorem areDistinct_iff : AreDistinct (sources.map (Source.item symbols)) ↔
    (sources.map Source.codeName).Nodup ∧ ∀ s ∈ sources, (s.words.map s.kind.custom).Nodup := by
  have members : (∀ x ∈ sources.map (Source.item symbols), x.memberNames.Nodup) ↔
      ∀ s ∈ sources, (s.words.map s.kind.custom).Nodup := by
    rw [List.forall_mem_map]
    refine forall₂_congr fun s hs => ?_
    rw [s.memberNames_item, nodup_map_memberName (spelled s hs).words]
  refine ⟨fun ⟨names, distinct⟩ => ⟨?_, members.1 distinct⟩, fun ⟨names, distinct⟩ =>
    ⟨?_, members.2 distinct⟩⟩
  · rwa [names_map_item] at names
  · rwa [names_map_item]

/-- **Letters and digits tell generated names apart**: it suffices that whole names and the words of
each declaration differ when neither capitals nor underscores count. -/
theorem areDistinct_of_folded
    (names : (sources.map fun s => s.path.flatMap fun w => folded w.toList).Nodup)
    (members : ∀ s ∈ sources, (s.words.map fun w => folded w.toList).Nodup) :
    AreDistinct (sources.map (Source.item symbols)) := by
  rw [areDistinct_iff spelled]
  constructor
  · exact nodup_map_of_key (fun name => folded name.toList)
      (fun s hs => folded_joined (spelled s hs).path) names
  · intro s hs
    have words := (spelled s hs).words
    rw [← nodup_map_memberName words]
    exact nodup_map_of_key (fun name => folded (withoutRawMarks name).toList)
      (fun w hw => folded_memberName s.kind (words w hw)) (members s hs)

end Sources

/-! ### The names in generated code -/

section Files
variable {m : Marker} {input : GeneratorInput} {own dependencies : List ParsedFile}

/-- **Which names of a generated file are distinct**: they are made of words, and distinct just if
what is made of these is. -/
theorem generate_distinct (hown : parseFiles m input.files = .ok own)
    (hdependencies : parseFiles m input.dependencyFiles = .ok dependencies) :
    let symbols := symbolsOf (own ++ dependencies)
    ∃ out, generate m input = .ok out ∧
      out.files.map TextFile.content = own.map (fileText symbols input.includeServices) ∧
      ∀ parsed ∈ own,
        let items := itemsOfFile symbols input.includeServices parsed
        let sources := sourcesOfFile input.includeServices parsed
        items.map CodeItem.name = sources.map (fun s => joined s.path) ∧
        items.map CodeItem.memberNames = sources.map (fun s => s.words.map s.kind.memberName) ∧
        (AreDistinct items ↔ (sources.map fun s => joined s.path).Nodup ∧
          ∀ s ∈ sources, (s.words.map s.kind.custom).Nodup) ∧
        ((sources.map fun s => s.path.flatMap fun w => folded w.toList).Nodup →
          (∀ s ∈ sources, (s.words.map fun w => folded w.toList).Nodup) → AreDistinct items) := by
  intro symbols
  obtain ⟨out, hout, texts⟩ := exists_generate_texts hown hdependencies
  refine ⟨out, hout, texts, fun parsed hparsed => ?_⟩
  have spelled := spelled_sourcesOfFile input.includeServices
    (spelled_of_parseFiles hown parsed hparsed)
  rw [itemsOfFile_eq]
  exact ⟨names_map_item symbols, memberNames_map_item symbols, areDistinct_iff spelled symbols,
    areDistinct_of_folded spelled symbols⟩

/-- Declarations of several kinds inside one another. -/
def boxText : String := "message Box { message Lid { } Lid lid = 1; oneof a_b { bool b = 2; } }\n"

/-- A request to generate code for them. -/
def boxInput : GeneratorInput := { files := [⟨"box.proto", boxText⟩] }

/-- Words that differ in letters give distinct names. -/
theorem areDistinct_box : ∃ own out, parseFiles {} boxInput.files = .ok own ∧
    parseFiles {} boxInput.dependencyFiles = .ok [] ∧ generate {} boxInput = .ok out ∧
    out.files.map TextFile.content = own.map (fileText (symbolsOf (own ++ [])) false) ∧
    ∀ parsed ∈ own,
      (itemsOfFile (symbolsOf (own ++ [])) false parsed).map CodeItem.name =
        ["Box", "BoxLid", "BoxAB"] ∧
      AreDistinct (itemsOfFile (symbolsOf (own ++ [])) false parsed) := by
  obtain ⟨own, hown, distinct⟩ : ∃ own, parseFiles {} boxInput.files = .ok own ∧
      ∀ parsed ∈ own,
        ((sourcesOfFile false parsed).map fun s =>
          s.path.flatMap fun w => folded w.toList).Nodup ∧
        (∀ s ∈ sourcesOfFile false parsed, (s.words.map fun w => folded w.toList).Nodup) ∧
        (sourcesOfFile false parsed).map (fun s => joined s.path) =
          ["Box", "BoxLid", "BoxAB"] :=
    exists_parsed_of_decide (by decide +kernel)
  have hnone : parseFiles {} boxInput.dependencyFiles = .ok [] := rfl
  obtain ⟨out, hout, texts, each⟩ := generate_distinct hown hnone
  refine ⟨own, out, hown, hnone, hout, texts, fun parsed hparsed => ?_⟩
  obtain ⟨names, members, written⟩ := distinct parsed hparsed
  obtain ⟨called, -, -, enough⟩ := each parsed hparsed
  exact ⟨called.trans written, enough names members⟩

/-- A message inside another, and one whose name is both together. -/
def nestedText : String := "message A { message B { } }\nmessage A_B { }\n"

/-- A request to generate code for them. -/
def nestedInput : GeneratorInput := { files := [⟨"m.proto", nestedText⟩] }

/-- **Distinct names in each scope do not give distinct names in generated code.** -/
theorem exists_not_distinct : ¬ ∀ (m : Marker) (input : GeneratorInput)
    (own dependencies : List ParsedFile), parseFiles m input.files = .ok own →
    parseFiles m input.dependencyFiles = .ok dependencies →
    ∀ parsed ∈ own, parsed.2.DeclaresOnce →
      AreDistinct (itemsOfFile (symbolsOf (own ++ dependencies)) input.includeServices parsed) := by
  intro claim
  obtain ⟨own, hown, apart, parsed, hparsed, twice⟩ : ∃ own,
      parseFiles {} nestedInput.files = .ok own ∧ (∀ parsed ∈ own, parsed.2.DeclaresOnce) ∧
      ∃ parsed ∈ own, ¬ ((itemsOfFile (symbolsOf (own ++ [])) false parsed).map
        CodeItem.name).Nodup :=
    exists_parsed_of_decide (by decide +kernel)
  exact twice (claim {} nestedInput own [] hown rfl parsed hparsed (apart parsed hparsed)).names

end Files

end Code

end SchemaDepot
