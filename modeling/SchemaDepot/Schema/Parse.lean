import SchemaDepot.Schema.Grammar
import SchemaDepot.Schema.Placement
import SchemaDepot.Token.Scan

/-! # From text to schema

* `Schema.parse`: the tree of a schema text, with its comments placed and the directives of one
  namespace read.
* `Schema.packageName?`, `Schema.imports`: what a file says about itself. -/

namespace SchemaDepot

/-- The point before which reading stopped; `final` is the point after the text. -/
def Stop.place (s : Stop) (final : Position) : Position :=
  match s.rest with
  | [] => final
  | t :: _ => t.span.start

namespace Schema

/-- The declarations that significant tokens form; `final` is the point after the text. -/
def declarations (ts : List Token) (final : Position) : Except SyntaxFault (List Node) :=
  match Grammar.file ts with
  | .ok (nodes, _) => .ok nodes
  | .error stop => .error ⟨.grammatical stop.fault, stop.place final, none⟩

/-- The tree of declarations with the comments of `ts` placed; `final` is the point after the
text. -/
def document (m : Marker) (ts : List Token) (final : Position) (nodes : List Node) : Node :=
  let placed := Placement.placeAll m (Note.ofTokens none ts) nodes
  { content := .root, span := Span.between Position.origin final,
    children := placed.1 ++ placed.2.flatMap (Placement.detachedNodes m) }

/-- The tree of a schema text. -/
def parse (m : Marker) (text : String) : Except SyntaxFault Node := do
  let (ts, final) ← Token.scan text
  let nodes ← declarations (Token.significant ts) final
  return document m ts final nodes

theorem parse_eq (m : Marker) (text : String) :
    parse m text = match Token.scan text with
      | .error fault => .error fault
      | .ok (ts, final) => match Grammar.file (Token.significant ts) with
        | .ok (nodes, _) => .ok (document m ts final nodes)
        | .error stop => .error ⟨.grammatical stop.fault, stop.place final, none⟩ := by
  unfold parse
  cases Token.scan text with
  | error fault => rfl
  | ok found =>
    simp only [bind, Except.bind, declarations]
    cases Grammar.file (Token.significant found.1) <;> rfl

/-- A text is parsed if it has tokens and the grammar reads declarations off the significant
ones. -/
theorem parse_eq_ok {m : Marker} {text : String} {root : Node} : parse m text = .ok root ↔
    ∃ ts final nodes rest, Token.scan text = .ok (ts, final) ∧
      Grammar.file (Token.significant ts) = .ok (nodes, rest) ∧
      root = document m ts final nodes := by
  rw [parse_eq]
  constructor
  · intro h
    cases hscan : Token.scan text with
    | error fault =>
      rw [hscan] at h
      cases h
    | ok found =>
      obtain ⟨ts, final⟩ := found
      cases hfile : Grammar.file (Token.significant ts) with
      | error stop =>
        simp only [hscan, hfile] at h
        cases h
      | ok read =>
        obtain ⟨nodes, rest⟩ := read
        simp only [hscan, hfile, Except.ok.injEq] at h
        exact ⟨ts, final, nodes, rest, rfl, hfile, h.symm⟩
  · rintro ⟨ts, final, nodes, rest, hscan, hfile, rfl⟩
    simp only [hscan, hfile]

/-- The name in the first package statement of a file. -/
def packageName? (root : Node) : Option String :=
  root.children.findSome? fun n =>
    match n.content with
    | .package name => some name
    | _ => none

/-- The imports of a file, in order. -/
def imports (root : Node) : List Import :=
  root.children.filterMap fun n =>
    match n.content with
    | .importFile target => some target
    | _ => none

end Schema

end SchemaDepot
