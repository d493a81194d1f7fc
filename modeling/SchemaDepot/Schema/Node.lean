import SchemaDepot.Comment

/-! # Schema trees

A schema is a tree of declarations. A node holds what it declares, where it stands, the comments
and directives attached to it, and the declarations in its block.

* `Walk`: the nodes of a tree one by one, a node before those below it, with a stack of the subtrees
  still to visit.
* `Node.walk`, `Node.count`, `Node.allDirectives`, `Node.find`: what a walk meets. -/

namespace SchemaDepot

/-- An import of another file. -/
structure Import where
  path : String
  isPublic : Bool
  isWeak : Bool
deriving DecidableEq

/-- How often a field occurs. -/
inductive FieldLabel where
  | optional
  | required
  | repeated
deriving DecidableEq

/-- An option in brackets behind a field or an enum value. -/
structure CompactOption where
  name : String
  value : String
deriving DecidableEq

/-- A field of a message: its label, its type, its name, its number as written, and options. -/
structure Field where
  label : Option FieldLabel
  type : String
  name : String
  number : String
  options : List CompactOption
deriving DecidableEq

/-- A value of an enum: its name, its number as written, and options. -/
structure EnumValue where
  name : String
  number : String
  options : List CompactOption
deriving DecidableEq

/-- A call of a service: the messages sent and received, alone or as streams. -/
structure Rpc where
  name : String
  request : String
  requestStream : Bool
  response : String
  responseStream : Bool
deriving DecidableEq

/-- What a node declares, apart from the declarations in its block. -/
inductive Content where
  | root
  | dialect (keyword value : String)
  | package (name : String)
  | importFile (target : Import)
  | setting (name value : String)
  | message (name : String)
  | field (field : Field)
  | enumeration (name : String)
  | enumValue (value : EnumValue)
  | service (name : String)
  | rpc (call : Rpc)
  | oneof (name : String)
  | extension (extendee : String)
  | reserved (keyword : String) (items : List String)
  | comment (comment : Comment)
  | directive (directive : Directive)
deriving DecidableEq

/-- A node of a schema tree. -/
structure Node where
  content : Content
  span : Span
  comments : List Comment := []
  directives : List Directive := []
  children : List Node := []

/-- The name that a node declares, for the contents that have one. -/
def Content.name? : Content → Option String
  | message name | enumeration name | service name | oneof name | package name => some name
  | setting name _ => some name
  | field f => some f.name
  | enumValue v => some v.name
  | rpc call => some call.name
  | _ => none

/-- The word for what a node declares. -/
def Content.tag : Content → String
  | root => "root"
  | dialect .. => "syntax"
  | package _ => "package"
  | importFile _ => "import"
  | setting .. => "option"
  | message _ => "message"
  | field _ => "field"
  | enumeration _ => "enum"
  | enumValue _ => "enum_value"
  | service _ => "service"
  | rpc _ => "rpc"
  | oneof _ => "oneof"
  | extension _ => "extend"
  | reserved .. => "reserved"
  | comment _ => "comment"
  | directive _ => "directive"

/-- The content can have a block. -/
def Content.isBlock : Content → Bool
  | root | message _ | enumeration _ | service _ | rpc _ | oneof _ | extension _ => true
  | _ => false

namespace Node

/-- The name that the node declares, if it has one. -/
def name? (n : Node) : Option String := n.content.name?

/-- The word for what the node declares. -/
def tag (n : Node) : String := n.content.tag

mutual

/-- The number of nodes in a tree. -/
def size : Node → Nat
  | ⟨_, _, _, _, children⟩ => 1 + sizes children

/-- The number of nodes in a row of trees. -/
def sizes : List Node → Nat
  | [] => 0
  | n :: ns => n.size + sizes ns

end

theorem size_eq (n : Node) : n.size = 1 + sizes n.children := by
  cases n
  rfl

theorem sizes_append (ns ms : List Node) : sizes (ns ++ ms) = sizes ns + sizes ms := by
  induction ns with
  | nil => simp [sizes]
  | cons n ns ih => simp only [List.cons_append, sizes, ih]; omega

theorem sizes_reverse (ns : List Node) : sizes ns.reverse = sizes ns := by
  induction ns with
  | nil => rfl
  | cons n ns ih => simp only [List.reverse_cons, sizes_append, sizes, ih]; omega

end Node

/-- A walk in progress: the subtrees that are still to be visited, the next one on top. -/
structure Walk where
  stack : Array Node

namespace Walk

/-- The next node, and the walk from there. The children go on the stack from the last to the first,
so that the first of them is the next one. -/
def next? (w : Walk) : Option (Node × Walk) := do
  let n ← w.stack.back?
  return (n, ⟨w.stack.pop ++ n.children.reverse⟩)

theorem next?_eq_some {w w' : Walk} {n : Node} (h : w.next? = some (n, w')) :
    ∃ below : Array Node, w.stack = below.push n ∧ w'.stack = below ++ n.children.reverse := by
  obtain ⟨m, top, given⟩ := Option.bind_eq_some_iff.1 h
  obtain ⟨below, whole⟩ := Array.back?_eq_some_iff.1 top
  obtain ⟨rfl, rfl⟩ := Prod.mk.inj (Option.some.inj given)
  refine ⟨below, whole, ?_⟩
  show w.stack.pop ++ m.children.reverse = below ++ m.children.reverse
  rw [whole, Array.pop_push]

theorem next?_sizes {w w' : Walk} {n : Node} (h : w.next? = some (n, w')) :
    Node.sizes w'.stack.toList < Node.sizes w.stack.toList := by
  obtain ⟨below, whole, rest⟩ := next?_eq_some h
  rw [whole, rest, Array.toList_push, Array.toList_appendList, Node.sizes_append,
    Node.sizes_append, Node.sizes_reverse, Node.sizes, Node.sizes, Node.size_eq]
  omega

/-- The nodes that the walk meets from here on. -/
def toList (w : Walk) : List Node :=
  match _h : w.next? with
  | none => []
  | some (n, rest) => n :: rest.toList
termination_by Node.sizes w.stack.toList
decreasing_by exact next?_sizes _h

end Walk

namespace Node

/-- The nodes of the tree, each before those below it. -/
def walk (n : Node) : List Node := (Walk.mk #[n]).toList

/-- The number of nodes that a walk meets. -/
def count (n : Node) : Nat := n.walk.length

/-- The directives of one node, with the one that it is, if it is one. -/
def ownDirectives (n : Node) : List Directive :=
  n.directives ++ match n.content with
    | .directive d => [d]
    | _ => []

/-- The directives of the tree, in the order of a walk. -/
def allDirectives (n : Node) : List Directive := n.walk.flatMap ownDirectives

/-- The first node of a walk with this tag and name. -/
def find (n : Node) (tag name : String) : Option Node :=
  n.walk.find? fun m => m.tag == tag && m.name? == some name

end Node

end SchemaDepot
