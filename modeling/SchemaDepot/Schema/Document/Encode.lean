import SchemaDepot.Json.Basic
import SchemaDepot.Schema.Node

/-! # Schema trees as JSON documents

`Node.toJson` writes a tree: the content under `kind`, tagged by `node`, with the declarations in a
block as `children`; comments and directives only where there are any. -/

namespace SchemaDepot

open Json (nat)

/-- A point as an object. -/
def Position.toJson (p : Position) : Json :=
  .object [("line", nat p.line), ("column", nat p.column), ("byte_offset", nat p.offset)]

/-- A stretch as an object. -/
def Span.toJson (s : Span) : Json :=
  .object [("start", s.start.toJson), ("end", s.stop.toJson)]

/-- The word for a kind of comment. -/
def CommentKind.word : CommentKind → String
  | line => "line"
  | block => "block"

/-- The word for a placement. -/
def Placement.word : Placement → String
  | leading => "leading"
  | trailing => "trailing"
  | detached => "detached"

/-- The word for a label. -/
def FieldLabel.word : FieldLabel → String
  | optional => "optional"
  | required => "required"
  | repeated => "repeated"

namespace Comment

/-- The members of a comment as an object. -/
def members (c : Comment) : List (String × Json) :=
  [("kind", .string c.kind.word), ("placement", .string c.placement.word), ("text", .string c.text),
    ("span", c.span.toJson)]

/-- A comment as an object. -/
def toJson (c : Comment) : Json := .object c.members

end Comment

namespace Directive

/-- The members of a directive as an object. -/
def members (d : Directive) : List (String × Json) :=
  [("option", .string d.option), ("value", .string d.value), ("span", d.span.toJson)]

/-- A directive as an object. -/
def toJson (d : Directive) : Json := .object d.members

end Directive

/-- Options in brackets as an array. -/
def CompactOption.listToJson (options : List CompactOption) : Json :=
  .array (options.map fun o => .object [("name", .string o.name), ("value", .string o.value)])

namespace Content

/-- The tag of a content in a document. It is the word for it, except that of a choice. -/
def jsonTag : Content → String
  | oneof _ => "one_of"
  | c => c.tag

/-- The members of a content, its tag and its block apart. -/
def members : Content → List (String × Json)
  | root => []
  | dialect keyword value => [("keyword", .string keyword), ("value", .string value)]
  | package name | message name | enumeration name | service name | oneof name =>
    [("name", .string name)]
  | importFile target => [("path", .string target.path), ("public", .bool target.isPublic),
      ("weak", .bool target.isWeak)]
  | setting name value => [("name", .string name), ("value", .string value)]
  | field f =>
    [("label", Json.ofOption (f.label.map FieldLabel.word)), ("type_name", .string f.type),
      ("name", .string f.name), ("number", .string f.number),
      ("options", CompactOption.listToJson f.options)]
  | enumValue v => [("name", .string v.name), ("number", .string v.number),
      ("options", CompactOption.listToJson v.options)]
  | rpc call => [("name", .string call.name), ("request_type", .string call.request),
      ("request_stream", .bool call.requestStream), ("response_type", .string call.response),
      ("response_stream", .bool call.responseStream)]
  | extension extendee => [("extendee", .string extendee)]
  | reserved keyword items => [("keyword", .string keyword), ("items", Json.strings items)]
  | comment c => c.members
  | directive d => d.members

end Content

namespace Node

/-- The members of a node that are left out when they are empty. -/
def attachments (comments : List Comment) (directives : List Directive) : List (String × Json) :=
  (if comments.isEmpty then [] else [("comments", .array (comments.map Comment.toJson))]) ++
    (if directives.isEmpty then [] else [("directives", .array (directives.map Directive.toJson))])

mutual

/-- A tree as a document. -/
def toJson : Node → Json
  | ⟨content, span, comments, directives, children⟩ =>
    let block := if content.isBlock then [("children", .array (listToJson children))] else []
    .object ([("kind", .object (("node", .string content.jsonTag) :: content.members ++ block)),
      ("span", span.toJson)] ++ attachments comments directives)

/-- Trees as documents. -/
def listToJson : List Node → List Json
  | [] => []
  | n :: ns => n.toJson :: listToJson ns

end

end Node

end SchemaDepot
