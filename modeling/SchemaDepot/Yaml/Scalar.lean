import SchemaDepot.Text.CodePoint
import SchemaDepot.Yaml.Basic

/-! # Scalars

A scalar is plain, quoted, or a block of lines. One that goes on over the end of a line has a space
there; of several line ends, one less than there are stays. The `margin` of a scalar is one more
than the column of the block around it.

* `Yaml.plain?`, `Yaml.quoted?`, `Yaml.block?`: the scalar at a place, and the place behind it. -/

namespace SchemaDepot.Yaml

/-! ### Words -/

/-- What stands between the words of a scalar: blanks, or line ends. -/
def betweenWords (before after : Cursor) : List Char :=
  match after.line - before.line with
  | 0 => before.rest.takeWhile isBlank
  | 1 => [' ']
  | n + 1 => List.replicate n '\n'

/-- The characters of a plain scalar in front, up to a blank or the end of the line. -/
def plainWord (inBrackets : Bool) : List Char → List Char
  | [] => []
  | c :: cs =>
    if isBlank c || c == '\n' || (inBrackets && isBracket c) then []
    else if c == ':' && (endsWord cs || (inBrackets && startsBracket cs)) then []
    else c :: plainWord inBrackets cs

/-- The words of a plain scalar, at most `n`, and the place behind them. Behind `separator` there
must be another one for it to count. -/
def plainWords? (inBrackets : Bool) (margin : Nat) :
    Nat → List Char → Cursor → Option (List Char × Cursor)
  | 0, _, c => some ([], c)
  | n + 1, separator, c =>
    let word := plainWord inBrackets c.rest
    if c.isAtMark || c.rest.head? == some '#' then some ([], c)
    else if inBrackets && c.rest.head? == some '-' && startsBracket c.rest.tail then none
    else do
      let text := if word.isEmpty then [] else separator ++ word
      let behind := c.skip word.length
      if behind.rest.isEmpty || !endsWord behind.rest then return (text, behind)
      else
        let after ← behind.gap? false margin
        if !inBrackets && after.column < margin then return (text, after)
        else
          let (more, c) ← plainWords? inBrackets margin n (betweenWords behind after) after
          return (text ++ more, c)

/-- The plain scalar at a place. -/
def plain? (inBrackets : Bool) (margin : Nat) (c : Cursor) : Option (String × Cursor) := do
  let (text, after) ← plainWords? inBrackets margin (c.rest.length + 1) [] c
  if text.isEmpty || (inBrackets && c.column < margin) then none
  else return (String.ofList text, after)

/-! ### Quoted scalars -/

/-- The characters that one letter behind a backslash stands for. -/
def escapes : List (Char × Char) :=
  [('0', '\x00'), ('a', '\x07'), ('b', '\x08'), ('t', '\t'), ('\t', '\t'), ('n', '\n'),
    ('v', '\x0b'), ('f', '\x0c'), ('r', '\r'), ('e', '\x1b'), (' ', ' '), ('"', '"'), ('/', '/'),
    ('\\', '\\'), ('N', '\u0085'), ('_', '\u00a0'), ('L', '\u2028'), ('P', '\u2029')]

/-- The character that the text behind a backslash denotes. -/
def escaped? : List Char → Option (Char × List Char)
  | 'x' :: cs => Text.codePoint? 2 cs
  | 'u' :: cs => Text.codePoint? 4 cs
  | 'U' :: cs => Text.codePoint? 8 cs
  | c :: cs => (escapes.find? (·.1 == c)).map fun (_, e) => (e, cs)
  | [] => none

/-- The characters between quotes up to a blank, the end of the line or the closing quote, in at
most `n` steps, the place behind them, and whether they end with a backslash before the line
does. -/
def quotedWord? (quote : Char) : Nat → Cursor → Option (List Char × Cursor × Bool)
  | 0, _ => none
  | n + 1, c =>
    match c.rest with
    | [] => some ([], c, false)
    | x :: rest =>
      if isBlank x || x == '\n' then some ([], c, false)
      else if x == quote then
        if quote == '\'' && rest.head? == some quote then do
          let (more, after) ← quotedWord? quote n (c.skip 2)
          return (quote :: more, after)
        else some ([], c, false)
      else if quote == '"' && x == '\\' then
        if rest.head? == some '\n' then some ([], c.skip 2, true)
        else do
          let (e, rest) ← escaped? rest
          let (more, after) ← quotedWord? quote n (c.goTo rest)
          return (e :: more, after)
      else do
        let (more, after) ← quotedWord? quote n c.next
        return (x :: more, after)

/-- The place behind the blanks and line ends between quotes. No tab may start a line in a column
before `least`. -/
def quotedGap? (least : Nat) : Nat → Cursor → Option Cursor
  | 0, c => some c
  | n + 1, c =>
    match c.rest with
    | '\t' :: _ => if c.isLeading && c.column < least then none else quotedGap? least n c.next
    | ' ' :: _ | '\n' :: _ => quotedGap? least n c.next
    | _ => some c

/-- The text up to the closing quote, in at most `n` words, and the place behind that. -/
def quotedText? (quote : Char) (least : Nat) : Nat → Cursor → Option (List Char × Cursor)
  | 0, _ => none
  | n + 1, c =>
    if c.rest.isEmpty || c.isAtMark || c.column < least then none
    else do
      let (word, behind, isJoined) ← quotedWord? quote (c.rest.length + 1) c
      if behind.rest.head? == some quote then return (word, behind.next)
      else
        let after ← quotedGap? least behind.rest.length behind
        let between :=
          if isJoined then List.replicate (after.line - behind.line) '\n'
          else betweenWords behind after
        let (more, c) ← quotedText? quote least n after
        return (word ++ between ++ more, c)

/-- What may follow a quoted scalar that started in a line: the end of the line, a colon in the same
line, or in brackets a colon or what ends a part. -/
def mayFollowQuoted (inBrackets : Bool) (line : Nat) (c : Cursor) : Bool :=
  match c.rest with
  | ':' :: _ => inBrackets || line == c.line
  | x :: _ => x == '\n' || (inBrackets && (x == ',' || x == ']' || x == '}'))
  | [] => true

/-- The quoted scalar at a place. Its further lines start in columns from `margin - 1` on. -/
def quoted? (inBrackets : Bool) (margin : Nat) (c : Cursor) : Option (String × Cursor) := do
  match c.rest with
  | quote :: rest =>
    let (text, after) ← quotedText? quote (margin - 1) (rest.length + 1) c.next
    let after ← after.lineRest?
    if mayFollowQuoted inBrackets c.line after then return (String.ofList text, after) else none
  | [] => none

/-! ### Blocks of lines -/

/-- What becomes of the line ends behind a block: none stays, one, or all. -/
inductive Chomping where
  | strip
  | clip
  | keep
deriving DecidableEq

/-- The header of a block: what becomes of the line ends, and how many spaces more than around it
its lines start with, if that is said. -/
structure BlockHeader where
  chomping : Chomping := .clip
  more : Option Nat := none

/-- The header with what one character says. -/
def BlockHeader.add? (h : BlockHeader) (c : Char) : Option BlockHeader :=
  if c == '-' && h.chomping == .clip then some { h with chomping := .strip }
  else if c == '+' && h.chomping == .clip then some { h with chomping := .keep }
  else if c.isDigit && c != '0' && h.more.isNone then
    some { h with more := some (c.toNat - '0'.toNat) }
  else none

/-- The header at a place, and the end of its line. -/
def BlockHeader.read? (c : Cursor) : Option (BlockHeader × Cursor) := do
  let signs := c.rest.takeWhile fun x => !isBlank x && x != '\n'
  let header ← signs.foldlM add? {}
  let after ← (c.skip signs.length).lineRest?
  if after.endsLine then return (header, after) else none

/-- The place behind the spaces in front and the lines that hold only spaces, at most `n`, and the
last column that the spaces lead to. -/
def firstColumn : Nat → Nat → Cursor → Nat × Cursor
  | 0, last, c => (last, c)
  | n + 1, last, c =>
    let c := c.skipWhile (· == ' ')
    let last := max last c.column
    if c.rest.head? == some '\n' then firstColumn n last c.next else (last, c)

/-- The place behind at most `column` spaces and the lines, at most `n`, that hold no more than
these. -/
def skipEmptyLines (column : Nat) : Nat → Cursor → Cursor
  | 0, c => c
  | n + 1, c =>
    let spaces := (c.rest.takeWhile (· == ' ')).length
    let c := c.skip (min spaces (column - c.column))
    if c.rest.head? == some '\n' then skipEmptyLines column n c.next else c

/-- The lines from a place on that start in its column, at most `n`, each with the number of line
ends behind it, and the place behind them. -/
def blockLines (column : Nat) : Nat → Cursor → List (List Char × Nat) × Cursor
  | 0, c => ([], c)
  | n + 1, c =>
    if c.column ≠ column || c.rest.isEmpty || c.isAtMark then ([], c)
    else
      let line := c.rest.takeWhile (· != '\n')
      let behind := c.lineEnd
      let after := if behind.rest.isEmpty then behind
        else skipEmptyLines column behind.rest.length behind.next
      let (lines, c) := blockLines column n after
      ((line, after.line - behind.line) :: lines, c)

/-- The line ends between two lines of a block. If it is folded, they mean a space or one less than
there are, unless one of the lines starts with a blank. -/
def betweenLines (isFolded : Bool) (before : List Char) (ends : Nat) (after : List Char) :
    List Char :=
  if isFolded && !(before.head?).any isBlank && !(after.head?).any isBlank then
    if ends = 1 then [' '] else List.replicate (ends - 1) '\n'
  else List.replicate ends '\n'

/-- The lines of a block in one text. -/
def joinLines (isFolded : Bool) : List (List Char × Nat) → List Char
  | (line, ends) :: (after, n) :: rest =>
    line ++ betweenLines isFolded line ends after ++ joinLines isFolded ((after, n) :: rest)
  | [(line, _)] => line
  | [] => []

/-- How many of the line ends behind a block stay. A last line without an end has one if the text
ends there. -/
def Chomping.keptEnds (chomping : Chomping) (ends : Nat) (endsText : Bool) : Nat :=
  let one := min ends 1 + endsText.toNat
  match chomping with
  | strip => 0
  | clip => one
  | keep => one + (ends - 1)

/-- The text of a block that is over before it has a line, with `ends` line ends, of which one is
that of its header. -/
def Chomping.emptyText (chomping : Chomping) (ends : Nat) : List Char :=
  match chomping with
  | strip => []
  | clip => List.replicate (min ends 1) '\n'
  | keep => List.replicate (if ends ≤ 1 then ends else ends - 1) '\n'

/-- The text of the block whose header ends at `header`, and the place behind it; its lines start at
`first`, or where lines are not indented enough. -/
def blockText (isFolded : Bool) (chomping : Chomping) (column : Nat) (header first : Cursor) :
    List Char × Cursor :=
  if first.rest.isEmpty then (chomping.emptyText (first.line - header.line), first)
  else
    let empty := first.line - header.line - 1
    let (lines, after) := blockLines column (first.rest.length + 1) first
    let endsText := after.rest.isEmpty && max column 1 ≤ after.column
    match lines.getLast? with
    | some (_, ends) =>
      (List.replicate empty '\n' ++ joinLines isFolded lines ++
        List.replicate (chomping.keptEnds ends endsText) '\n', after)
    | none => (List.replicate (if chomping == .keep then empty else 0) '\n', after)

/-- The block of lines at a place. Its lines start in the column of the first, or in the one that
the header says, from `margin` on. -/
def block? (margin : Nat) (c : Cursor) : Option (String × Cursor) := do
  let (header, headerEnd) ← BlockHeader.read? c.next
  let start := headerEnd.next
  if start.rest.head? == some '\t' then none
  else
    let (column, first) := match header.more with
      | some more =>
        let column := margin - 1 + more
        (column, skipEmptyLines column (start.rest.length + 1) start)
      | none => firstColumn (start.rest.length + 1) margin start
    if !first.rest.isEmpty && first.column < column && margin ≤ first.column then none
    else
      let isFolded := c.rest.head? == some '>'
      let (text, after) := blockText isFolded header.chomping column headerEnd first
      return (String.ofList text, after)

end SchemaDepot.Yaml
