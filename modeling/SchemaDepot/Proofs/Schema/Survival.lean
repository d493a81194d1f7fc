import SchemaDepot.Proofs.Schema.Decode
import SchemaDepot.Proofs.Schema.Nesting
import SchemaDepot.Proofs.Schema.Points

/-! # Which trees survive as documents

The tree of a text is written as a document and read back. The document nests three times as deep as
the tree, so a text that is parsed may have blocks nested too deep for its document.

* `Position.fits_of_within`: the points of a text fit into words.
* `Schema.parse_survives`: the tree of a text is read back just if its document does not nest too
  deep; how deep that is, by the levels of the tree.
* `Schema.parse_deepText`: a text with fewer nested blocks than the grammar takes, and its tree is
  not read back. -/

namespace SchemaDepot

/-- Lines and columns count at most one more than bytes. -/
theorem Position.advanceOver_le (p : Position) (cs : List Char)
    (h : p.line ≤ p.offset + 1 ∧ p.column ≤ p.offset + 1) :
    (p.advanceOver cs).line ≤ (p.advanceOver cs).offset + 1 ∧
      (p.advanceOver cs).column ≤ (p.advanceOver cs).offset + 1 := by
  induction cs generalizing p with
  | nil => exact h
  | cons c cs ih =>
    have := c.utf8Size_pos
    refine ih (p.advance c) ?_
    unfold advance
    split_ifs <;> simp only <;> omega

/-- The points of a text fit into words, if its size does. -/
theorem Position.fits_of_within {text : String} (hsize : text.utf8ByteSize + 1 < 2 ^ 32)
    {p : Position} (h : p.Within text) : p.Fits := by
  obtain ⟨⟨cs, rfl⟩, hstop⟩ := h
  have small := advanceOver_le origin cs ⟨Nat.le_refl _, Nat.le_refl _⟩
  have below := hstop.offset_le
  have stop := advanceOver_offset origin text.toList
  rw [utf8Len_toList] at stop
  have start : origin.offset = 0 := rfl
  refine ⟨?_, ?_, ?_⟩ <;> omega

theorem Node.levels_le_of_nests {levels : Nat} {n : Node} (h : n.Nests levels) :
    n.levels ≤ levels := by
  have row (ns : List Node) (bound : Nat) (hns : ∀ c ∈ ns, c.levels ≤ bound) :
      rowLevels ns ≤ bound := by
    induction ns with
    | nil => exact Nat.zero_le _
    | cons c ns ih =>
      rw [List.forall_mem_cons] at hns
      exact Nat.max_le.2 ⟨hns.1, ih hns.2⟩
  induction levels generalizing n with
  | zero => exact h.elim
  | succ levels ih =>
    have := row n.children levels fun c hc => ih (h.2 c hc)
    rw [levels_eq]
    omega

namespace Schema

variable {m : Marker} {text : String} {root : Node}

/-- Every node in the tree of a text can be written so that it is read back. -/
theorem parse_fits (h : parse m text = .ok root) (hsize : text.utf8ByteSize + 1 < 2 ^ 32) :
    ∀ n ∈ root.walk, n.Fits := by
  have fits {s : Span} (hs : s.Within text) : s.Fits :=
    ⟨Position.fits_of_within hsize hs.1, Position.fits_of_within hsize hs.2⟩
  intro n hn
  have within := parse_within h n hn
  exact {
    span := fits within.span
    comments := fun c hc => fits (within.comments c hc)
    directives := fun d hd => fits (within.directives d hd)
    leaf := (parse_nests h).leaf n hn }

/-- **Which trees survive as documents.** The document of the tree of a text, on one line or
indented, is read as what it is; and the tree is read back from it just if it does not nest too
deep. It nests three times as deep as the tree or up to two levels more, and the tree has up to two
levels more than blocks may nest. -/
theorem parse_survives (h : parse m text = .ok root) (hsize : text.utf8ByteSize + 1 < 2 ^ 32)
    {document : String}
    (hdocument : document = root.toJson.compact ∨ document = root.toJson.pretty) :
    Json.read document = some root.toJson ∧
    Node.read? document = (if root.toJson.depth ≤ Json.maxDepth then some root else none) ∧
    3 * root.levels ≤ root.toJson.depth ∧ root.toJson.depth ≤ 3 * root.levels + 2 ∧
    root.levels ≤ Grammar.maxNesting + 2 := by
  have fits := parse_fits h hsize
  obtain ⟨read, back⟩ := Node.read?_toJson fits hdocument
  obtain ⟨deep, shallow⟩ := Node.depth_toJson_bounds fun n hn => (fits n hn).leaf
  exact ⟨read, back, deep, shallow, Node.levels_le_of_nests (parse_nests h)⟩

/-- A message in a message, with comments, a field with an option, and characters that have to be
escaped. -/
def nestedText : String :=
  "// @a:b:c \"\\\nmessage A \x7b\n  message B \x7b\n" ++
    "    int32 x = 1 [d = '\t\\x07\"'];\n  \x7d\n\x7d\n// é"

theorem parse_nestedText : ∃ root, parse {} nestedText = .ok root ∧
    nestedText.utf8ByteSize + 1 < 2 ^ 32 ∧ Json.read root.toJson.pretty = some root.toJson ∧
    Node.read? root.toJson.pretty =
      (if root.toJson.depth ≤ Json.maxDepth then some root else none) ∧
    3 * root.levels ≤ root.toJson.depth ∧ root.toJson.depth ≤ 3 * root.levels + 2 ∧
    root.levels ≤ Grammar.maxNesting + 2 := by
  have parsed : (parse {} nestedText).toBool = true := by decide +kernel
  have size : nestedText.utf8ByteSize + 1 < 2 ^ 32 := by decide +kernel
  cases hp : parse {} nestedText with
  | error fault =>
    rw [hp] at parsed
    cases parsed
  | ok root => exact ⟨root, rfl, size, parse_survives hp size (Or.inr rfl)⟩

/-- The characters of 42 messages in one another. -/
def deepChars : List Char :=
  (List.replicate 42 "message M\x7b".toList).flatten ++ List.replicate 42 '\x7d'

/-- Messages in one another, 42 of them. -/
def deepText : String := String.ofList deepChars

/-- **A text with 42 blocks in one another** is parsed, and its tree does not survive. -/
theorem parse_deepText : ∃ root, parse {} deepText = .ok root ∧
    Node.read? root.toJson.compact = none ∧ Node.read? root.toJson.pretty = none := by
  have chars : deepText.toList = deepChars := String.toList_ofList
  have size : deepText.utf8ByteSize + 1 < 2 ^ 32 := by
    rw [← utf8Len_toList, chars]
    decide +kernel
  have scanned : Token.scan deepText = Token.scanFrom Position.origin deepChars := by
    rw [Token.scan_of_bare (by rw [chars]; decide +kernel), chars]
  have parsed : (parse {} deepText).map (fun root => decide (Json.maxDepth < root.toJson.depth)) =
      .ok true := by
    rw [parse_eq, scanned]
    decide +kernel
  obtain ⟨root, hp, deep⟩ := Lexeme.map_ok parsed
  have fits := parse_fits hp size
  have lost : ¬ root.toJson.depth ≤ Json.maxDepth := Nat.not_le.2 (of_decide_eq_true deep)
  have compact := (Node.read?_toJson fits (Or.inl rfl)).2
  have pretty := (Node.read?_toJson fits (Or.inr rfl)).2
  rw [if_neg lost] at compact pretty
  exact ⟨root, hp, compact, pretty⟩

end Schema

end SchemaDepot
