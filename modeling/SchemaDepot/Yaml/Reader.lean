import SchemaDepot.Yaml.Node
import SchemaDepot.Yaml.Scan

/-! # Reading YAML documents

* `Reading`: what is left of the tokens, and what stands for nodes and tags.
* `Yaml.node?`: the node in front of the tokens.
* `Yaml.read?`: the document of a text. -/

namespace SchemaDepot.Yaml

/-- What is left of the tokens, what handles stand for, and the names of nodes, the last first, with
the nodes that are complete, by the number of names before. -/
structure Reading where
  tokens : List Token
  starts : List (String × String) := []
  names : List String := []
  nodes : List (Nat × Node) := []

namespace Reading

/-- The tokens without the first. -/
def next (s : Reading) : Reading := { s with tokens := s.tokens.tail }

/-- The node that a name stands for, which is missing until it is complete. -/
def find? (name : String) (s : Reading) : Option Node :=
  if s.names.contains name then
    some ((s.nodes.lookup (s.names.length - 1 - s.names.idxOf name)).getD .missing)
  else none

/-- What stands before a node: the number of its name, and its tag. -/
abbrev Properties : Type := Option Nat × Option Tag

/-- The properties in front of the tokens: a name, a tag, or both. -/
def properties? (s : Reading) : Option (Properties × Reading) := do
  let number := s.names.length
  match s.tokens with
  | .name k :: .tag t :: tokens | .tag t :: .name k :: tokens =>
    return ((some number, ← t.resolve? s.starts), { s with tokens, names := k :: s.names })
  | .name k :: tokens => return ((some number, none), { s with tokens, names := k :: s.names })
  | .tag t :: tokens => return ((none, ← t.resolve? s.starts), { s with tokens })
  | _ => return ((none, none), s)

/-- The node is complete. -/
def complete (number : Option Nat) (node : Node) (s : Reading) : Reading :=
  match number with
  | some i => { s with nodes := (i, node) :: s.nodes }
  | none => s

/-- A key, a value or the end of the block is next. -/
def isAtEntryEnd (s : Reading) : Bool :=
  match s.tokens with
  | .key :: _ | .value :: _ | .blockEnd :: _ => true
  | _ => false

/-- An item, or what ends an entry, is next. -/
def isAtItemEnd (s : Reading) : Bool :=
  match s.tokens with
  | .dash :: _ => true
  | _ => s.isAtEntryEnd

/-- A comma or a closing bracket is next. -/
def isAtPartEnd (s : Reading) : Bool :=
  match s.tokens with
  | .comma :: _ | .listEnd :: _ | .tableEnd :: _ => true
  | _ => false

end Reading

/-! ### Nodes -/

mutual

/-- The node in front, in at most `n` levels. A block may start only where `mayBlock` says so, and
items without a block of their own only where `mayBare` does. -/
def node? : Nat → Bool → Bool → Reading → Option (Node × Reading)
  | 0, _, _, _ => none
  | n + 1, mayBlock, mayBare, s => do
    match s.tokens with
    | .alias name :: _ => return (← s.find? name, s.next)
    | _ =>
      let ((number, tag), s) ← s.properties?
      let (node, s) ← content? n mayBlock mayBare (number, tag) s
      return (node, s.complete number node)

/-- The node in front behind its properties. If there are any, it may be empty. -/
def content? : Nat → Bool → Bool → Reading.Properties → Reading → Option (Node × Reading)
  | 0, _, _, _, _ => none
  | n + 1, mayBlock, mayBare, (number, tag), s =>
    match s.tokens, mayBlock, mayBare with
    | .scalar text isPlain :: _, _, _ => some (.ofScalar isPlain tag text, s.next)
    | .listStart :: _, _, _ => (parts? n s.next).map fun (items, s) => (.list items, s)
    | .tableStart :: _, _, _ => do
      let (nodes, s) ← pairs? n s.next
      return (← Node.tableOf? nodes, s)
    | .blockItems :: _, true, _ => (items? n s.next).map fun (items, s) => (.list items, s)
    | .blockEntries :: _, true, _ => do
      let (nodes, s) ← entries? n s.next
      return (← Node.tableOf? nodes, s)
    | .dash :: _, _, true => (bareItems? n s).map fun (items, s) => (.list items, s)
    | _, _, _ =>
      if number.isSome || tag.isSome then some (.ofScalar true tag "", s) else none

/-- The items of a block up to its end. -/
def items? : Nat → Reading → Option (List Node × Reading)
  | 0, _ => none
  | n + 1, s => do
    match s.tokens with
    | .blockEnd :: _ => return ([], s.next)
    | .dash :: _ =>
      let s := s.next
      let isEmpty := match s.tokens with
        | .dash :: _ | .blockEnd :: _ => true
        | _ => false
      let (item, s) ← if isEmpty then some (.nothing, s) else node? n true false s
      let (items, s) ← items? n s
      return (item :: items, s)
    | _ => none

/-- The items in front that have no block of their own. -/
def bareItems? : Nat → Reading → Option (List Node × Reading)
  | 0, _ => none
  | n + 1, s => do
    match s.tokens with
    | .dash :: _ =>
      let s := s.next
      let (item, s) ← if s.isAtItemEnd then some (.nothing, s) else node? n true false s
      let (items, s) ← bareItems? n s
      return (item :: items, s)
    | _ => return ([], s)

/-- The key or the value in front, in a block, if there is one. -/
def entryPart? : Nat → Reading → Option (Node × Reading)
  | 0, _ => none
  | n + 1, s => if s.isAtEntryEnd then some (.nothing, s) else node? n true true s

/-- The keys and values of a block in turn, up to its end. -/
def entries? : Nat → Reading → Option (List Node × Reading)
  | 0, _ => none
  | n + 1, s =>
    match s.tokens with
    | .blockEnd :: _ => some ([], s.next)
    | .key :: _ => do
      let (key, s) ← entryPart? n s.next
      values? n key s
    | .value :: _ => values? n .nothing s
    | _ => none

/-- A key, its value, and the keys and values behind them. -/
def values? : Nat → Node → Reading → Option (List Node × Reading)
  | 0, _, _ => none
  | n + 1, key, s => do
    let (value, s) ← match s.tokens with
      | .value :: _ => entryPart? n s.next
      | _ => some (.nothing, s)
    let (nodes, s) ← entries? n s
    return (key :: value :: nodes, s)

/-- The value in front, in brackets, if there is one. -/
def bracketValue? : Nat → Reading → Option (Node × Reading)
  | 0, _ => none
  | n + 1, s =>
    match s.tokens with
    | .value :: _ =>
      if s.next.isAtPartEnd then some (.nothing, s.next) else node? n false false s.next
    | _ => some (.nothing, s)

/-- The items of a list in brackets up to the end. A comma may stand behind the last. -/
def parts? : Nat → Reading → Option (List Node × Reading)
  | 0, _ => none
  | n + 1, s => do
    match s.tokens with
    | .listEnd :: _ => return ([], s.next)
    | _ =>
      let (item, s) ← match s.tokens with
        | .key :: _ => entry? n s.next
        | _ => node? n false false s
      match s.tokens with
      | .listEnd :: _ => return ([item], s.next)
      | .comma :: _ =>
        let (items, s) ← parts? n s.next
        return (item :: items, s)
      | _ => none

/-- A key behind its mark and its value, which make a table of their own. A sign in place of the key
is passed over. -/
def entry? : Nat → Reading → Option (Node × Reading)
  | 0, _ => none
  | n + 1, s => do
    let isEmpty := match s.tokens with
      | .value :: _ | .comma :: _ | .listEnd :: _ => true
      | _ => false
    let (key, s) ← if isEmpty then some (.nothing, s.next) else node? n false false s
    let (value, s) ← bracketValue? n s
    return (← Node.tableOf? [key, value], s)

/-- The keys and values of a table in brackets in turn, up to the end. A comma may stand behind the
last. -/
def pairs? : Nat → Reading → Option (List Node × Reading)
  | 0, _ => none
  | n + 1, s => do
    match s.tokens with
    | .tableEnd :: _ => return ([], s.next)
    | _ =>
      let (key, value, s) ← pair? n s
      match s.tokens with
      | .tableEnd :: _ => return ([key, value], s.next)
      | .comma :: _ =>
        let (nodes, s) ← pairs? n s.next
        return (key :: value :: nodes, s)
      | _ => none

/-- A key in brackets and its value; a node without a mark has none. -/
def pair? : Nat → Reading → Option (Node × Node × Reading)
  | 0, _ => none
  | n + 1, s => do
    match s.tokens with
    | .key :: _ =>
      let s := s.next
      let isEmpty := match s.tokens with
        | .value :: _ | .comma :: _ | .tableEnd :: _ => true
        | _ => false
      let (key, s) ← if isEmpty then some (.nothing, s) else node? n false false s
      let (value, s) ← bracketValue? n s
      return (key, value, s)
    | .value :: _ =>
      let (value, s) ← bracketValue? n s
      return (.nothing, value, s)
    | _ =>
      let (key, s) ← node? n false false s
      return (key, .nothing, s)

end

/-! ### Documents -/

/-- The tokens behind the marks of ends in front. -/
def skipEnds : List Token → List Token
  | .documentEnd :: tokens => skipEnds tokens
  | tokens => tokens

/-- What handles stand for after the directives in front, and the tokens behind these. Only the last
directive counts; but the version is said once at most. -/
def directives? (hasVersion : Bool) (starts : List (String × String)) :
    List Token → Option (List (String × String) × List Token)
  | .directive .version :: tokens => if hasVersion then none else directives? true [] tokens
  | .directive (.start handle start) :: tokens => directives? hasVersion [(handle, start)] tokens
  | tokens => some (starts, tokens)

/-- The node of the document in front. Behind a mark, it may be empty. -/
def document? (tokens : List Token) : Option (Node × Reading) := do
  let (starts, rest) ← directives? false [] tokens
  let levels := 4 * tokens.length + 4
  match rest with
  | .documentStart :: rest =>
    let s : Reading := { tokens := rest, starts }
    match rest with
    | .directive _ :: _ | .documentStart :: _ | .documentEnd :: _ | [] => return (.nothing, s)
    | _ => node? levels true false s
  | rest =>
    if rest.length = tokens.length then node? levels true false { tokens, starts } else none

/-- The document of a text, if it holds one; nothing, if it holds more or is malformed. -/
def read? (text : String) : Option (Option Node) := do
  let tokens := skipEnds (← tokens? text)
  if tokens.isEmpty then return none
  else
    let (node, s) ← document? tokens
    if (skipEnds s.tokens).isEmpty then return some node else none

end SchemaDepot.Yaml
