import Mathlib.Data.List.Forall2
import SchemaDepot.Json.Reader

/-! # The parts of a document's text

The text of a document is a row of parts: brackets, commas, colons and scalars. Blanks may stand
before each.

* `Json.parts`: the parts of a document.
* `Json.Spaced`: a text is made of parts with blanks between them; `Spaced.row`: those of an array
  or an object, from those of its items or members.
* `spaced_compact`, `spaced_pretty`: the text of a document, on one line or indented, is made of its
  parts. -/

namespace SchemaDepot.Json

/-! ### Parts -/

/-- The parts of an array or an object behind its opening bracket, from those of what is in it. -/
def rowParts (closing : Char) : List (List (List Char)) → List (List Char)
  | [] => [[closing]]
  | [ps] => ps ++ [[closing]]
  | ps :: qs :: rows => ps ++ [','] :: rowParts closing (qs :: rows)

theorem rowParts_ne_nil (closing : Char) (rows : List (List (List Char))) :
    rowParts closing rows ≠ [] := by
  unfold rowParts
  split <;> simp

mutual

/-- The parts of the text of a document. -/
def parts : Json → List (List Char)
  | array items => ['['] :: rowParts ']' (itemParts items)
  | object members => ['\x7b'] :: rowParts '\x7d' (memberParts members)
  | j => [j.scalar.toList]

/-- The parts of each item of an array. -/
def itemParts : List Json → List (List (List Char))
  | [] => []
  | item :: items => item.parts :: itemParts items

/-- The parts of each member of an object. -/
def memberParts : List (String × Json) → List (List (List Char))
  | [] => []
  | (key, value) :: members => ((quote key).toList :: [':'] :: value.parts) :: memberParts members

end

theorem parts_ne_nil (j : Json) : j.parts ≠ [] := by
  cases j <;> simp [parts]

theorem ne_nil_of_mem_itemParts {items : List Json} : ∀ ps ∈ itemParts items, ps ≠ [] := by
  induction items with
  | nil => rintro ps ⟨⟩
  | cons item items ih =>
    intro ps hps
    rcases List.mem_cons.1 hps with rfl | hps
    · exact item.parts_ne_nil
    · exact ih ps hps

theorem ne_nil_of_mem_memberParts {members : List (String × Json)} :
    ∀ ps ∈ memberParts members, ps ≠ [] := by
  induction members with
  | nil => rintro ps ⟨⟩
  | cons member members ih =>
    intro ps hps
    rcases List.mem_cons.1 hps with rfl | hps
    · exact List.cons_ne_nil _ _
    · exact ih ps hps

/-! ### Texts made of parts -/

theorem nil_isBlank : ([] : List Char).all isBlank = true := rfl

/-- The text is made of the parts, with blanks before each of them or none. -/
inductive Spaced : List (List Char) → List Char → Prop
  | nil : Spaced [] []
  | cons {part blanks cs : List Char} {ps : List (List Char)} (hblanks : blanks.all isBlank = true)
    (rest : Spaced ps cs) : Spaced (part :: ps) (blanks ++ part ++ cs)

theorem Spaced.next {cs : List Char} {ps : List (List Char)} (part : List Char)
    (h : Spaced ps cs) : Spaced (part :: ps) (part ++ cs) := @Spaced.cons part [] cs ps rfl h

theorem Spaced.one (part : List Char) : Spaced [part] part := by
  simpa using Spaced.next part .nil

theorem Spaced.append {ps qs : List (List Char)} {cs ds : List Char} (h : Spaced ps cs)
    (h' : Spaced qs ds) : Spaced (ps ++ qs) (cs ++ ds) := by
  induction h with
  | nil => exact h'
  | cons hblanks _ ih =>
    rw [List.cons_append, List.append_assoc]
    exact .cons hblanks ih

/-- More blanks may stand in front. -/
theorem Spaced.behind {ps : List (List Char)} {blanks cs : List Char}
    (hblanks : blanks.all isBlank = true) (h : Spaced ps cs) (hps : ps ≠ []) :
    Spaced ps (blanks ++ cs) := by
  cases h with
  | nil => exact (hps rfl).elim
  | @cons part blanks' cs ps hblanks' rest =>
    rw [← List.append_assoc, ← List.append_assoc]
    refine .cons ?_ rest
    rw [List.all_append, hblanks, hblanks']
    rfl

theorem Spaced.split {ps qs : List (List Char)} {cs : List Char} (h : Spaced (ps ++ qs) cs) :
    ∃ ds es, cs = ds ++ es ∧ Spaced ps ds ∧ Spaced qs es := by
  induction ps generalizing cs with
  | nil => exact ⟨[], cs, rfl, .nil, h⟩
  | cons part ps ih =>
    cases h with
    | @cons _ blanks cs _ hblanks rest =>
      obtain ⟨ds, es, rfl, hds, hes⟩ := ih rest
      exact ⟨blanks ++ part ++ ds, es, (List.append_assoc _ _ _).symm, .cons hblanks hds, hes⟩

/-- **The parts of an array or an object** are those of what is in it, behind commas, and the
closing bracket; `gap` stands behind each comma, `last` before the bracket. -/
theorem Spaced.row (closing : Char) {gap last : List Char} (hgap : gap.all isBlank = true)
    (hlast : last.all isBlank = true) {rows : List (List (List Char))} {lines : List (List Char)}
    (h : List.Forall₂ Spaced rows lines) (hrows : ∀ ps ∈ rows, ps ≠ []) (hne : rows ≠ []) :
    Spaced (rowParts closing rows) ((',' :: gap).intercalate lines ++ last ++ [closing]) := by
  have ends : Spaced [[closing]] (last ++ [closing]) :=
    (Spaced.one [closing]).behind hlast (List.cons_ne_nil _ _)
  induction h with
  | nil => exact (hne rfl).elim
  | @cons ps line rows lines head tail ih =>
    cases tail with
    | nil =>
      rw [List.intercalate_singleton, List.append_assoc]
      exact head.append ends
    | @cons qs line' rows lines head' tail =>
      have others := ih (fun ps hps => hrows ps (List.mem_cons_of_mem _ hps)) (List.cons_ne_nil _ _)
      have comma := (others.behind hgap (rowParts_ne_nil closing _)).next [',']
      rw [List.intercalate_cons_cons]
      have := head.append comma
      simpa [rowParts, List.append_assoc] using this

/-! ### The text on one line -/

mutual

/-- **The compact text of a document is made of its parts.** -/
theorem spaced_compact : ∀ j : Json, Spaced j.parts j.compact.toList
  | array items => by
    have rows := spaced_compactItems items
    rw [compact, parts, String.toList_append, String.toList_append, String.toList_intercalate,
      List.append_assoc]
    refine Spaced.next ['['] ?_
    cases items with
    | nil => exact .one [']']
    | cons item items =>
      have := Spaced.row ']' nil_isBlank nil_isBlank rows
        ne_nil_of_mem_itemParts (by simp [itemParts])
      simpa using this
  | object members => by
    have rows := spaced_compactMembers members
    rw [compact, parts, String.toList_append, String.toList_append, String.toList_intercalate,
      List.append_assoc]
    refine Spaced.next ['\x7b'] ?_
    cases members with
    | nil => exact .one ['\x7d']
    | cons member members =>
      have := Spaced.row '\x7d' nil_isBlank nil_isBlank rows
        ne_nil_of_mem_memberParts (by simp [memberParts])
      simpa using this
  | null => .one _
  | bool b => .one _
  | number literal => .one _
  | string s => .one _
  | unpaired => .one _

theorem spaced_compactItems : ∀ items : List Json,
    List.Forall₂ Spaced (itemParts items) ((compactItems items).map String.toList)
  | [] => .nil
  | item :: items => .cons (spaced_compact item) (spaced_compactItems items)

theorem spaced_compactMembers : ∀ members : List (String × Json),
    List.Forall₂ Spaced (memberParts members) ((compactMembers members).map String.toList)
  | [] => .nil
  | (key, value) :: members => by
    refine .cons ?_ (spaced_compactMembers members)
    rw [String.toList_append, String.toList_append, List.append_assoc]
    exact ((spaced_compact value).next [':']).next _

end

/-! ### The indented text -/

theorem inner_isBlank {indent : String} (h : indent.toList.all isBlank = true) :
    (indent ++ "  ").toList.all isBlank = true := by
  rw [String.toList_append, List.all_append, h]
  rfl

/-- Lines between brackets are made of the parts of each of them. -/
theorem spaced_bracketed {opening closing indent : String} {o c : Char}
    (hopening : opening.toList = [o]) (hclosing : closing.toList = [c])
    (hindent : indent.toList.all isBlank = true) {rows : List (List (List Char))}
    {lines : List String} (h : List.Forall₂ Spaced rows (lines.map String.toList))
    (hrows : ∀ ps ∈ rows, ps ≠ []) :
    Spaced ([o] :: rowParts c rows) (bracketed opening closing indent lines).toList := by
  cases lines with
  | nil =>
    cases h
    rw [bracketed, List.isEmpty_nil, if_pos rfl, String.toList_append, hopening, hclosing]
    exact (Spaced.one [c]).next [o]
  | cons line lines =>
    have hinner := inner_isBlank hindent
    have indented : List.Forall₂ Spaced rows
        (((line :: lines).map ((indent ++ "  ") ++ ·)).map String.toList) := by
      rw [List.map_map, List.forall₂_map_right_iff]
      rw [List.forall₂_map_right_iff] at h
      refine ((List.forall₂_and_left _ _).2 ⟨hrows, h⟩).imp ?_
      rintro ps line ⟨hps, hline⟩
      rw [Function.comp_apply, String.toList_append]
      exact hline.behind hinner hps
    have nonempty : rows ≠ [] := by rintro rfl; cases h
    have hlast : ('\n' :: indent.toList).all isBlank = true := by
      rw [List.all_cons, hindent]
      rfl
    have hgap : ['\n'].all isBlank = true := by decide
    have row := Spaced.row c hgap hlast indented hrows nonempty
    have := (row.behind hgap (rowParts_ne_nil c rows)).next [o]
    have text : (bracketed opening closing indent (line :: lines)).toList = [o] ++ (['\n'] ++
        (([',', '\n'].intercalate (((line :: lines).map ((indent ++ "  ") ++ ·)).map
          String.toList)) ++ '\n' :: indent.toList ++ [c])) := by
      have newline : "\n".toList = ['\n'] := rfl
      have comma : ",\n".toList = [',', '\n'] := rfl
      simp only [bracketed, List.isEmpty_cons, Bool.false_eq_true, if_false, String.toList_append,
        String.toList_intercalate, hopening, hclosing, newline, comma, List.append_assoc,
        List.cons_append, List.nil_append]
    rw [text]
    exact this

mutual

/-- **The indented text of a document is made of its parts.** -/
theorem spaced_prettyFrom (indent : String) (hindent : indent.toList.all isBlank = true) :
    ∀ j : Json, Spaced j.parts (j.prettyFrom indent).toList
  | array items => by
    rw [prettyFrom, parts]
    exact spaced_bracketed rfl rfl hindent
      (spaced_prettyItems (indent ++ "  ") (inner_isBlank hindent) items) ne_nil_of_mem_itemParts
  | object members => by
    rw [prettyFrom, parts]
    exact spaced_bracketed rfl rfl hindent
      (spaced_prettyMembers (indent ++ "  ") (inner_isBlank hindent) members)
      ne_nil_of_mem_memberParts
  | null => .one _
  | bool b => .one _
  | number literal => .one _
  | string s => .one _
  | unpaired => .one _

theorem spaced_prettyItems (indent : String) (hindent : indent.toList.all isBlank = true) :
    ∀ items : List Json,
      List.Forall₂ Spaced (itemParts items) ((prettyItems indent items).map String.toList)
  | [] => .nil
  | item :: items =>
    .cons (spaced_prettyFrom indent hindent item) (spaced_prettyItems indent hindent items)

theorem spaced_prettyMembers (indent : String) (hindent : indent.toList.all isBlank = true) :
    ∀ members : List (String × Json),
      List.Forall₂ Spaced (memberParts members) ((prettyMembers indent members).map String.toList)
  | [] => .nil
  | (key, value) :: members => by
    refine .cons ?_ (spaced_prettyMembers indent hindent members)
    have hgap : [' '].all isBlank = true := by decide
    have inner := (spaced_prettyFrom indent hindent value).behind hgap value.parts_ne_nil
    rw [String.toList_append, String.toList_append, List.append_assoc]
    exact (inner.next [':']).next _

end

/-- The text of a document, indented by two blanks, is made of its parts. -/
theorem spaced_pretty (j : Json) : Spaced j.parts j.pretty.toList :=
  spaced_prettyFrom "" rfl j

end SchemaDepot.Json
