import SchemaDepot.Json.Reader
import SchemaDepot.Schema.Node

/-! # Reading schema trees from JSON documents

A record is an object whose members stand in any order, or an array of its values in order. Members
that are not asked for are skipped; one that is asked for may stand once. A tree below the root is
read from a document that has to be strict as a whole, and whose depth is limited.

* `Node.ofJson?`: the tree of a document. -/

namespace SchemaDepot

/-- How deep arrays and objects may nest in the document of a tree. -/
def Json.maxDepth : Nat := 127

/-- The values of a record, in the order of `names`; `none` where a value is missing. -/
def Json.record? (names : List String) : Json → Option (List (Option Json))
  | .object members => names.mapM fun name =>
    match members.filter (·.1 == name) with
    | [] => some none
    | [(_, j)] => some (some j)
    | _ => none
  | .array items =>
    if items.length ≤ names.length then
      some (items.map some ++ List.replicate (names.length - items.length) none)
    else none
  | _ => none

/-- A string. -/
def Json.string? : Json → Option String
  | .string s => some s
  | _ => none

/-- A truth value. -/
def Json.bool? : Json → Option Bool
  | .bool b => some b
  | _ => none

/-- A natural number below a bound, written as digits. -/
def Json.natBelow? (bound : Nat) : Json → Option Nat
  | .number literal =>
    if literal.toList.all Char.isDigit then
      let n := literal.toList.foldl (fun n d => n * 10 + (d.toNat - '0'.toNat)) 0
      if n < bound then some n else none
    else none
  | _ => none

/-- The items of an array, each read by `item`. -/
def Json.arrayOf? {α : Type} (item : Json → Option α) : Json → Option (List α)
  | .array items => items.mapM item
  | _ => none

/-- A point. -/
def Position.ofJson? (j : Json) : Option Position := do
  match ← j.record? ["line", "column", "byte_offset"] with
  | [some line, some column, some offset] =>
    let word := Nat.pow 2 32
    return ⟨← line.natBelow? word, ← column.natBelow? word, ← offset.natBelow? (word * word)⟩
  | _ => none

/-- A stretch. -/
def Span.ofJson? (j : Json) : Option Span := do
  match ← j.record? ["start", "end"] with
  | [some start, some stop] => return ⟨← Position.ofJson? start, ← Position.ofJson? stop⟩
  | _ => none

/-- A word for one of several cases: a string, or an object with the word as its only key and
nothing as its value. Below the root, an empty object is nothing too. -/
def Json.word? (below : Bool) : Json → Option String
  | .string s => some s
  | .object [(key, .null)] => some key
  | .object [(key, .object [])] => if below then some key else none
  | _ => none

/-- A kind of comment. -/
def CommentKind.ofWord? : String → Option CommentKind
  | "line" => some .line
  | "block" => some .block
  | _ => none

/-- A placement. -/
def Placement.ofWord? : String → Option Placement
  | "leading" => some .leading
  | "trailing" => some .trailing
  | "detached" => some .detached
  | _ => none

/-- A label. -/
def FieldLabel.ofWord? : String → Option FieldLabel
  | "optional" => some .optional
  | "required" => some .required
  | "repeated" => some .repeated
  | _ => none

/-- A comment. -/
def Comment.ofJson? (below : Bool) (j : Json) : Option Comment := do
  match ← j.record? ["kind", "placement", "text", "span"] with
  | [some kind, some placement, some text, some span] =>
    return ⟨← (← kind.word? below) |> CommentKind.ofWord?,
      ← (← placement.word? below) |> Placement.ofWord?, ← text.string?, ← Span.ofJson? span⟩
  | _ => none

/-- A directive. -/
def Directive.ofJson? (j : Json) : Option Directive := do
  match ← j.record? ["option", "value", "span"] with
  | [some option, some value, some span] =>
    return ⟨← option.string?, ← value.string?, ← Span.ofJson? span⟩
  | _ => none

/-- An option in brackets. -/
def CompactOption.ofJson? (j : Json) : Option CompactOption := do
  match ← j.record? ["name", "value"] with
  | [some name, some value] => return ⟨← name.string?, ← value.string?⟩
  | _ => none

/-- The label of a field: null or a word. An object may lack it. -/
def FieldLabel.ofJson? (record : Json) : Option Json → Option (Option FieldLabel)
  | some .null => some none
  | some j => do return some (← (← j.word? true) |> FieldLabel.ofWord?)
  | none =>
    match record with
    | .object _ => some none
    | _ => none

namespace Content

/-- The tags of contents, in the order in which a number can stand for them. -/
def jsonTags : List String :=
  ["root", "syntax", "package", "import", "option", "message", "field", "enum", "enum_value",
    "service", "rpc", "one_of", "extend", "reserved", "comment", "directive"]

/-- The tag of a content and its record without the tag. Below the root, a number can stand for
the tag. -/
def split? (below : Bool) : Json → Option (String × Json)
  | .object members =>
    match members.filter (·.1 == "node") with
    | [(_, tag)] => do return (← tagOf? tag, .object (members.filter (·.1 != "node")))
    | _ => none
  | .array (tag :: items) => do return (← tagOf? tag, .array items)
  | _ => none
where
  /-- The tag that a value names. -/
  tagOf? (j : Json) : Option String :=
    match j with
    | .string s => some s
    | j => if below then (j.natBelow? jsonTags.length).bind (jsonTags[·]?) else none

/-- The content with a tag and no block, from its record. -/
def leafOfJson? (tag : String) (j : Json) : Option Content := do
  match tag with
  | "syntax" =>
    match ← j.record? ["keyword", "value"] with
    | [some keyword, some value] => return .dialect (← keyword.string?) (← value.string?)
    | _ => none
  | "package" =>
    match ← j.record? ["name"] with
    | [some name] => return .package (← name.string?)
    | _ => none
  | "import" =>
    match ← j.record? ["path", "public", "weak"] with
    | [some path, some isPublic, some isWeak] =>
      return .importFile ⟨← path.string?, ← isPublic.bool?, ← isWeak.bool?⟩
    | _ => none
  | "option" =>
    match ← j.record? ["name", "value"] with
    | [some name, some value] => return .setting (← name.string?) (← value.string?)
    | _ => none
  | "field" =>
    match ← j.record? ["label", "type_name", "name", "number", "options"] with
    | [label, some type, some name, some number, some options] =>
      return .field ⟨← FieldLabel.ofJson? j label, ← type.string?, ← name.string?, ← number.string?,
        ← options.arrayOf? CompactOption.ofJson?⟩
    | _ => none
  | "enum_value" =>
    match ← j.record? ["name", "number", "options"] with
    | [some name, some number, some options] =>
      return .enumValue ⟨← name.string?, ← number.string?,
        ← options.arrayOf? CompactOption.ofJson?⟩
    | _ => none
  | "reserved" =>
    match ← j.record? ["keyword", "items"] with
    | [some keyword, some items] =>
      return .reserved (← keyword.string?) (← items.arrayOf? Json.string?)
    | _ => none
  | "comment" => return .comment (← Comment.ofJson? true j)
  | "directive" => return .directive (← Directive.ofJson? j)
  | _ => none

/-- The content with a tag and a block, and the document of the block. -/
def blockOfJson? (tag : String) (j : Json) : Option (Content × Json) := do
  match tag with
  | "root" =>
    match ← j.record? ["children"] with
    | [some children] => return (.root, children)
    | _ => none
  | "rpc" =>
    match ← j.record? ["name", "request_type", "request_stream", "response_type",
      "response_stream", "children"] with
    | [some name, some request, some requestStream, some response, some responseStream,
        some children] =>
      return (.rpc ⟨← name.string?, ← request.string?, ← requestStream.bool?, ← response.string?,
        ← responseStream.bool?⟩, children)
    | _ => none
  | "extend" =>
    match ← j.record? ["extendee", "children"] with
    | [some extendee, some children] => return (.extension (← extendee.string?), children)
    | _ => none
  | _ =>
    match ← j.record? ["name", "children"] with
    | [some name, some children] =>
      let name ← name.string?
      match tag with
      | "message" => return (.message name, children)
      | "enum" => return (.enumeration name, children)
      | "service" => return (.service name, children)
      | "one_of" => return (.oneof name, children)
      | _ => none
    | _ => none

/-- The tag is that of a content without a block. -/
def isLeafTag (tag : String) : Bool :=
  ["syntax", "package", "import", "option", "field", "enum_value", "reserved", "comment",
    "directive"].contains tag

end Content

namespace Node

/-- The array in a record that may be missing, but not null. -/
def optionalArray? {α : Type} (item : Json → Option α) : Option Json → Option (List α)
  | none => some []
  | some j => j.arrayOf? item

/-- The tree of a document in which at most `room` records nest. -/
def ofJsonWithin? : Nat → Bool → Json → Option Node
  | 0, _, _ => none
  | room + 1, below, j => do
    match ← j.record? ["kind", "span", "comments", "directives"] with
    | [some kind, some span, comments, directives] =>
      let span ← Span.ofJson? span
      let comments ← optionalArray? (Comment.ofJson? below) comments
      let directives ← optionalArray? Directive.ofJson? directives
      if !below && !(kind.isStrict && kind.depth < Json.maxDepth) then none
      else
        let (tag, record) ← Content.split? below kind
        if Content.isLeafTag tag then
          return ⟨← Content.leafOfJson? tag record, span, comments, directives, []⟩
        else
          let (content, block) ← Content.blockOfJson? tag record
          let children ← block.arrayOf? (ofJsonWithin? room true)
          return ⟨content, span, comments, directives, children⟩
    | _ => none

/-- The tree of a document. -/
def ofJson? (j : Json) : Option Node := ofJsonWithin? (j.depth + 1) false j

/-- The tree that a text holds as a document. -/
def read? (text : String) : Option Node := do ofJson? (← Json.read text)

end Node

end SchemaDepot
