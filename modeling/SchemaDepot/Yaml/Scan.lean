import SchemaDepot.Yaml.Token

/-! # Scanning YAML documents

* `Scanner.step?`: the next token.
* `Yaml.tokens?`: the tokens of a text. -/

namespace SchemaDepot.Yaml

namespace Scanner

/-- The place behind the blanks, line ends and comments. Outside brackets a key may start in another
line. -/
def skipGap? (s : Scanner) : Option Scanner := do
  let after ← s.cursor.gap? true (s.margin - 1)
  let isBehind := s.cursor.line < after.line && !s.inBrackets
  return { s with cursor := after, mayStartKey := s.mayStartKey || isBehind }

/-- The place where the next token starts, with the blocks that end before it. -/
def approach? (s : Scanner) : Option Scanner := do
  let s ← (← s.skipGap?).expire?
  return s.closeBlocks (s.cursor.column + 1)

/-! ### Documents -/

/-- The next token is a directive. -/
def directive? (s : Scanner) : Option Scanner := do
  let s ← (s.closeBlocks 0).dismiss?
  let (directive, c) ← Directive.read? s.cursor
  return { (s.moveTo c).push (.directive directive) with mayStartKey := false }

/-- The next token is a mark that starts or ends a document. Behind the latter, the line is over. -/
def mark? (s : Scanner) : Option Scanner := do
  let s ← (s.closeBlocks 0).dismiss?
  let isEnd := s.cursor.rest.head? == some '.'
  let c := s.cursor.skip 3
  let c ← if isEnd then c.lineRest? else some c
  if isEnd && !c.endsLine then none
  else
    let t := if isEnd then Token.documentEnd else .documentStart
    return { (s.moveTo c).push t with mayStartKey := false }

/-! ### Brackets -/

/-- The next token is an opening bracket. -/
def openBracket? (t : Token) (s : Scanner) : Option Scanner := do
  let s ← s.nominate.indentMore.enter?
  let c ← s.cursor.next.lineRest?
  return { (s.moveTo c).push t with mayStartKey := true }

/-- The next token is a closing bracket. If there is another around it, a colon may follow at
once. -/
def closeBracket? (t : Token) (s : Scanner) : Option Scanner := do
  let s := (← s.dismiss?).leave.endBareEntry
  let c ← s.cursor.next.lineRest?
  let s := if s.inBrackets then { s with adjacent := some c.index } else s
  return { (s.moveTo c).push t with mayStartKey := false }

/-- The next token is a comma. -/
def comma? (s : Scanner) : Option Scanner := do
  let s := (← s.dismiss?).endBareEntry
  let c ← s.cursor.next.lineRest?
  return { (s.moveTo c).push .comma with mayStartKey := true }

/-! ### Marks in blocks -/

/-- The next token is the dash of an item. -/
def dash? (s : Scanner) : Option Scanner := do
  if s.inBrackets || !s.mayStartKey then none
  else
    let behind := s.cursor.next
    let c ← behind.lineRest?
    let hasTab := (behind.rest.takeWhile isBlank).contains '\t'
    if hasTab && c.rest.head? == some '-' && endsWord c.rest.tail then none
    else
      let s := (s.openBlock s.cursor.column s.tokens.length .blockItems).moveTo c
      let s := if c.rest.head? == some '\n' || startsBracket c.rest then s.indentMore else s
      return { (← s.dismiss?).push .dash with mayStartKey := true }

/-- The place behind the spaces, line ends and comments that must follow the mark of a key, in at
most `n` steps. -/
def keyGap : Nat → Cursor → Cursor
  | 0, c => c
  | n + 1, c =>
    match c.rest with
    | ' ' :: _ | '\n' :: _ => keyGap n c.next
    | '#' :: _ => keyGap n c.lineEnd
    | _ => c

/-- The next token is the mark of a key. No tab follows it. -/
def key? (s : Scanner) : Option Scanner := do
  if !s.inBrackets && !s.mayStartKey then none
  else
    let behind := s.cursor.next
    let c := keyGap behind.rest.length behind
    if c.index == behind.index || c.rest.head? == some '\t' then none
    else
      let s := s.openBlock s.cursor.column s.tokens.length .blockEntries
      let s := { s with hasTable := s.hasTable || s.inBrackets }
      return { ((← s.dismiss?).moveTo c).push .key with mayStartKey := !s.inBrackets }

/-- The place behind a colon. A tab alone does not separate it from a word. -/
def afterColon? (c : Cursor) : Option Cursor :=
  if c.rest.head? == some '\t' then do
    let after ← c.lineRest?
    let isWord := (after.rest.head?).any isWordChar
    if !(c.rest.takeWhile isBlank).contains ' ' && isWord then none else some after
  else some c

/-- The next token is a colon. The candidate is a key, if there is one. In brackets, an entry that
no table is around starts a table of its own. -/
def value? (s : Scanner) : Option Scanner := do
  let column := s.cursor.column
  let line := s.cursor.line
  let s := { s with inBareEntry := s.inBrackets && !s.hasTable }
  let s := s.moveTo (← afterColon? s.cursor.next)
  if s.candidate.isPossible then
    let { position, start, .. } := s.candidate
    if s.inBareEntry && start.line < line then none
    else
      let s := s.insert position .key
      let s := if s.inBareEntry then s.insert position .tableStart else s
      let s := (s.openBlock start.column position .blockEntries).indentMore
      let candidate := { s.candidate with isPossible := false }
      return { s.push .value with candidate, mayStartKey := false }
  else if !s.inBrackets && !s.mayStartKey then none
  else
    let s := if s.inBareEntry then s.push .tableStart else s
    let s := (s.openBlock column s.tokens.length .blockEntries).indentMore
    return { s.push .value with mayStartKey := !s.inBrackets }

/-! ### Nodes -/

/-- The next token is a name for a node, or an alias. -/
def name? (token : String → Token) (s : Scanner) : Option Scanner :=
  let word := s.cursor.rest.tail.takeWhile fun c =>
    !isBlank c && c != '\n' && !isBracket c && c != '\uFEFF'
  if word.isEmpty then none
  else
    let named := s.nominate.moveTo (s.cursor.skip (word.length + 1))
    some { named.push (token (String.ofList word)) with mayStartKey := false }

/-- The next token is a tag. -/
def tag? (s : Scanner) : Option Scanner := do
  let (tag, rest) ← Tag.read? s.inBrackets s.cursor.rest
  return { (s.nominate.moveTo (s.cursor.goTo rest)).push (.tag tag) with mayStartKey := false }

/-- The next token is a block of lines. -/
def block? (s : Scanner) : Option Scanner := do
  let s := s.nominate.indentLess
  let (text, c) ← Yaml.block? s.margin s.cursor
  return { (s.moveTo c).push (.scalar text false) with mayStartKey := true }

/-- The next token is a quoted scalar. A colon may follow at once. -/
def quoted? (s : Scanner) : Option Scanner := do
  let (text, c) ← Yaml.quoted? s.inBrackets s.margin s.cursor
  let s ← { s.nominate.moveTo c with mayStartKey := false }.skipGap?
  return { s.push (.scalar text false) with adjacent := some s.cursor.index }

/-- The next token is a plain scalar. If it ends before another line, a key may start there. -/
def plain? (s : Scanner) : Option Scanner := do
  let s := s.nominate.indentLess
  let (text, c) ← Yaml.plain? s.inBrackets s.margin s.cursor
  return { (s.moveTo c).push (.scalar text true) with mayStartKey := c.isLeading }

/-! ### The text -/

/-- A colon separates a key from its value if a blank follows it, or in brackets another bracket, or
if it may follow at once. -/
def isColon (behind : List Char) (s : Scanner) : Bool :=
  endsWord behind ||
    (s.inBrackets && (startsBracket behind || s.adjacent == some s.cursor.index))

/-- The token that starts at the place, which is not behind all text. -/
def step? (s : Scanner) : Option Scanner :=
  if s.cursor.column == 0 && s.cursor.rest.head? == some '%' then s.directive?
  else if s.cursor.isAtMark then s.mark?
  else if s.cursor.column + 1 < s.margin then none
  else
    match s.cursor.rest with
    | '[' :: _ => s.openBracket? .listStart
    | '{' :: _ => { s with hasTable := true }.openBracket? .tableStart
    | ']' :: _ => s.closeBracket? .listEnd
    | '}' :: _ => s.closeBracket? .tableEnd
    | ',' :: _ => s.comma?
    | '*' :: _ => s.name? .alias
    | '&' :: _ => s.name? .name
    | '!' :: _ => s.tag?
    | '"' :: _ | '\'' :: _ => s.quoted?
    | '%' :: _ | '@' :: _ | '\x60' :: _ => none
    | c :: cs =>
      if c == '-' && endsWord cs then s.dash?
      else if c == '?' && endsWord cs then s.key?
      else if c == ':' && s.isColon cs then s.value?
      else if (c == '|' || c == '>') && !s.inBrackets then s.block?
      else s.plain?
    | [] => none

/-- The text is over. -/
def finish? (s : Scanner) : Option Scanner :=
  if (s.candidate :: s.outer).any fun c => c.isPossible && c.isRequired then none
  else some (s.closeBlocks 0)

/-- The rest of the text is scanned, in at most `n` steps. -/
def run? : Nat → Scanner → Option Scanner
  | 0, _ => none
  | n + 1, s => do
    let s ← s.approach?
    if s.cursor.rest.isEmpty then s.finish? else run? n (← s.step?)

end Scanner

/-- The tokens of a text, which a zero ends. -/
def tokens? (text : String) : Option (List Token) := do
  let cs := unifyLines (text.toList.takeWhile (· != '\x00'))
  let s ← Scanner.run? (cs.length + 2) { cursor := { rest := cs } }
  return s.tokens.reverse

end SchemaDepot.Yaml
