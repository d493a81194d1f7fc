import SchemaDepot.SyntaxFault
import SchemaDepot.Text.Blank
import SchemaDepot.Text.CodePoint
import SchemaDepot.Token

/-! # Lexemes

A schema text is a row of lexemes with blanks between them. A lexeme is read off the front of the
text by its first one or two characters.

* `Taken`: what was read off the front of a text.
* `Lexeme.read`: the lexeme at the front of a text; `Lexeme.read_source`: its characters are the
  front of the text, and there is at least one of them. -/

namespace SchemaDepot

/-- What was read off the front of a text: its value, the characters that it took, and the text
after them. -/
structure Taken (α : Type) where
  value : α
  source : List Char
  rest : List Char

namespace Lexeme

/-- An ASCII letter or the underscore. -/
def isWordStart (c : Char) : Bool := c.isAlpha || c == '_'

/-- An ASCII letter, an ASCII digit or the underscore. -/
def isWordPart (c : Char) : Bool := c.isAlphanum || c == '_'

/-- The characters that are tokens by themselves. -/
def symbols : List Char := "=;\x7b\x7d[]()<>,.:-+/".toList

/-! ### Numerals -/

/-- The mark before the exponent of a decimal numeral. -/
def isExponentMark (c : Char) : Bool := c == 'e' || c == 'E'

/-- A plus or a minus. -/
def isSign (c : Char) : Bool := c == '+' || c == '-'

/-- A decimal, octal or hexadecimal digit. -/
def isHexDigit (c : Char) : Bool :=
  c.isDigit || ('a' ≤ c && c ≤ 'f') || ('A' ≤ c && c ≤ 'F')

/-- The longest run of digits, letters, dots and underscores, with a sign only after an exponent
mark; `last` is the character before it. -/
def numeralRun (last : Char) : List Char → List Char × List Char
  | [] => ([], [])
  | c :: cs =>
    if isWordPart c || c == '.' || (isSign c && isExponentMark last) then
      (numeralRun c cs).map (c :: ·) id
    else ([], c :: cs)

/-- The part of a decimal numeral after its digits: nothing, or a mark, a sign or none, and
digits. -/
def isExponent : List Char → Bool
  | [] => true
  | c :: cs =>
    let digits := match cs with
      | s :: rest => if isSign s then rest else cs
      | [] => []
    isExponentMark c && !digits.isEmpty && digits.all Char.isDigit

/-- Digits around at most one dot, at least one of them, and an exponent or none. -/
def isDecimal (cs : List Char) : Bool :=
  let whole := cs.takeWhile Char.isDigit
  match cs.dropWhile Char.isDigit with
  | '.' :: rest =>
    let fraction := rest.takeWhile Char.isDigit
    !(whole.isEmpty && fraction.isEmpty) && isExponent (rest.dropWhile Char.isDigit)
  | rest => !whole.isEmpty && isExponent rest

/-- The class of a run that starts like a numeral. -/
def numeralKind : List Char → Option TokenKind
  | '0' :: 'x' :: digits | '0' :: 'X' :: digits =>
    if !digits.isEmpty && digits.all isHexDigit then some .integer else none
  | cs =>
    if cs.all Char.isDigit then some .integer
    else if isDecimal cs then some .decimal
    else none

/-- The numeral that starts with `c`, before `cs`. -/
def numeral (c : Char) (cs : List Char) : List Char × List Char :=
  match c, cs with
  | '0', 'x' :: rest =>
    ('0' :: 'x' :: rest.takeWhile (fun d => isWordPart d || d == '.'),
      rest.dropWhile (fun d => isWordPart d || d == '.'))
  | '0', 'X' :: rest =>
    ('0' :: 'X' :: rest.takeWhile (fun d => isWordPart d || d == '.'),
      rest.dropWhile (fun d => isWordPart d || d == '.'))
  | c, cs => (numeralRun c cs).map (c :: ·) id

theorem numeralRun_append (last : Char) (cs : List Char) :
    (numeralRun last cs).1 ++ (numeralRun last cs).2 = cs := by
  induction cs generalizing last with
  | nil => rfl
  | cons c cs ih =>
    simp only [numeralRun]
    split
    · simpa using ih c
    · rfl

theorem numeral_source (c : Char) (cs : List Char) :
    ∃ s, (numeral c cs).1 = c :: s ∧ s ++ (numeral c cs).2 = cs := by
  unfold numeral
  split
  · exact ⟨_, rfl, by simp⟩
  · exact ⟨_, rfl, by simp⟩
  · exact ⟨_, rfl, numeralRun_append _ _⟩

/-! ### Literals -/

/-- A digit below eight. -/
def isOctalDigit (c : Char) : Bool := '0' ≤ c && c ≤ '7'

/-- The character that at least one and at most `width` digits of a base denote. -/
def codePoint (base width : Nat) (isDigit : Char → Bool) (cs : List Char) :
    Except LexicalFault (Taken Char) :=
  let digits := (cs.take width).takeWhile isDigit
  if digits.isEmpty then .error .emptyHexEscape
  else
    match (Text.hexNumber? base digits).bind Text.charOf? with
    | some c => .ok ⟨c, digits, cs.drop digits.length⟩
    | none => .error .notACodePoint

/-- The character that one character behind a backslash denotes. -/
def simpleEscape : Char → Option Char
  | 'n' => some '\n'
  | 't' => some '\t'
  | 'r' => some '\r'
  | 'a' => some '\x07'
  | 'b' => some '\x08'
  | 'f' => some '\x0c'
  | 'v' => some '\x0b'
  | '\\' => some '\\'
  | '\'' => some '\''
  | '"' => some '"'
  | '?' => some '?'
  | _ => none

/-- How many hexadecimal digits there may be behind a backslash and a letter. -/
def hexWidth : Char → Option Nat
  | 'x' | 'X' => some 2
  | 'u' => some 4
  | 'U' => some 8
  | _ => none

/-- What the characters behind a backslash denote. -/
def escape : List Char → Except LexicalFault (Taken Char)
  | [] => .error .unterminatedLiteral
  | c :: cs =>
    match simpleEscape c, hexWidth c with
    | some d, _ => .ok ⟨d, [c], cs⟩
    | none, some width =>
      (codePoint 16 width isHexDigit cs).map fun t => { t with source := c :: t.source }
    | none, none =>
      if isOctalDigit c then codePoint 8 3 isOctalDigit (c :: cs) else .error (.unknownEscape c)

theorem map_ok {ε α β : Type} {f : α → β} {x : Except ε α} {y : β} (h : x.map f = .ok y) :
    ∃ a, x = .ok a ∧ f a = y := by
  cases x with
  | error => simp [Except.map] at h
  | ok a => exact ⟨a, rfl, by simpa [Except.map] using h⟩

theorem codePoint_source {base width : Nat} {isDigit : Char → Bool} {cs : List Char}
    {t : Taken Char} (h : codePoint base width isDigit cs = .ok t) :
    t.source ≠ [] ∧ t.source ++ t.rest = cs := by
  simp only [codePoint] at h
  split at h
  · simp at h
  · rename_i hd
    split at h
    · cases h
      have front : (cs.take width).takeWhile isDigit <+: cs :=
        (List.takeWhile_prefix _).trans (List.take_prefix _ _)
      exact ⟨fun e => hd (List.isEmpty_iff.2 e), List.prefix_iff_eq_append.1 front⟩
    · simp at h

theorem escape_source {cs : List Char} {t : Taken Char} (h : escape cs = .ok t) :
    t.source ≠ [] ∧ t.source ++ t.rest = cs := by
  cases cs with
  | nil => simp [escape] at h
  | cons c cs =>
    simp only [escape] at h
    split at h
    · cases h
      simp
    · obtain ⟨u, hu, rfl⟩ := map_ok h
      simp [(codePoint_source hu).2]
    · split at h
      · exact codePoint_source h
      · simp at h

theorem escape_length_lt {cs : List Char} {t : Taken Char} (h : escape cs = .ok t) :
    t.rest.length < cs.length := by
  obtain ⟨hne, rfl⟩ := escape_source h
  have := List.length_pos_iff.2 hne
  simp only [List.length_append]
  omega

/-- What a literal denotes up to its closing quote, which is taken too. -/
def literalBody (quote : Char) : List Char → Except LexicalFault (Taken (List Char))
  | [] => .error .unterminatedLiteral
  | c :: cs =>
    if c = quote then .ok ⟨[], [c], cs⟩
    else if c = '\n' then .error .unterminatedLiteral
    else if c = '\\' then
      match _h : escape cs with
      | .error fault => .error fault
      | .ok e =>
        (literalBody quote e.rest).map fun t =>
          ⟨e.value :: t.value, c :: e.source ++ t.source, t.rest⟩
    else (literalBody quote cs).map fun t => ⟨c :: t.value, c :: t.source, t.rest⟩
termination_by cs => cs.length
decreasing_by
  · have := escape_length_lt _h
    simp only [List.length_cons]
    omega
  · simp

theorem literalBody_source {quote : Char} {cs : List Char} {t : Taken (List Char)}
    (h : literalBody quote cs = .ok t) : t.source ++ t.rest = cs := by
  fun_induction literalBody quote cs generalizing t with
  | case1 => simp at h
  | case2 cs =>
    cases h
    rfl
  | case3 => simp at h
  | case4 => simp at h
  | case5 cs e he _ _ ih =>
    obtain ⟨u, hu, rfl⟩ := map_ok h
    simp [ih hu, (escape_source he).2]
  | case6 c cs _ _ _ ih =>
    obtain ⟨u, hu, rfl⟩ := map_ok h
    simp [ih hu]

/-! ### Comments -/

/-- The text before the first `*/`, and the text after it. -/
def commentBody : List Char → Option (List Char × List Char)
  | [] => none
  | '*' :: '/' :: rest => some ([], rest)
  | c :: cs => (commentBody cs).map fun (body, rest) => (c :: body, rest)

theorem commentBody_append {cs body rest : List Char} (h : commentBody cs = some (body, rest)) :
    body ++ '*' :: '/' :: rest = cs := by
  fun_induction commentBody cs generalizing body with
  | case1 => simp at h
  | case2 =>
    cases h
    rfl
  | case3 c cs _ ih =>
    simp only [Option.map_eq_some_iff, Prod.mk.injEq] at h
    obtain ⟨⟨b, r⟩, hb, rfl, rfl⟩ := h
    simp [ih hb]

/-! ### Lexemes -/

/-- The lexeme at the front of `cs`; its value is its class and its text. -/
def read : List Char → Except LexicalFault (Taken (TokenKind × String))
  | [] => .error .unterminatedLiteral
  | '/' :: '/' :: cs =>
    let body := cs.takeWhile (· != '\n')
    .ok ⟨(.lineComment, String.ofList (Text.dropEndWhile (· == '\r') body)), '/' :: '/' :: body,
      cs.dropWhile (· != '\n')⟩
  | '/' :: '*' :: cs =>
    match commentBody cs with
    | some (body, rest) =>
      .ok ⟨(.blockComment, String.ofList body), '/' :: '*' :: body ++ ['*', '/'], rest⟩
    | none => .error .unterminatedComment
  | c :: cs =>
    if c = '"' || c = '\'' then
      (literalBody c cs).map fun t => ⟨(.literal, String.ofList t.value), c :: t.source, t.rest⟩
    else if c.isDigit || (c == '.' && (cs.head?.map Char.isDigit).getD false) then
      let run := numeral c cs
      match numeralKind run.1 with
      | some kind => .ok ⟨(kind, String.ofList run.1), run.1, run.2⟩
      | none => .error (.badNumeral (String.ofList run.1))
    else if isWordStart c then
      let word := c :: cs.takeWhile isWordPart
      .ok ⟨(.word, String.ofList word), word, cs.dropWhile isWordPart⟩
    else if symbols.contains c then .ok ⟨(.symbol c, c.toString), [c], cs⟩
    else .error (.strayCharacter c)

/-- **A lexeme takes the front of the text**, and at least its first character. -/
theorem read_source {c : Char} {cs : List Char} {t : Taken (TokenKind × String)}
    (h : read (c :: cs) = .ok t) : ∃ s, t.source = c :: s ∧ s ++ t.rest = cs := by
  unfold read at h
  split at h
  · rename_i e
    cases e
  · rename_i e
    cases e
    cases h
    exact ⟨_, rfl, by simp⟩
  · rename_i e
    cases e
    split at h
    · rename_i hb
      cases h
      exact ⟨_, rfl, by simp [commentBody_append hb]⟩
    · simp at h
  · rename_i e
    cases e
    split at h
    · obtain ⟨u, hu, rfl⟩ := map_ok h
      exact ⟨_, rfl, literalBody_source hu⟩
    split at h
    · dsimp only at h
      split at h
      · cases h
        exact numeral_source _ _
      · simp at h
    split at h
    · cases h
      exact ⟨_, rfl, by simp⟩
    split at h
    · cases h
      exact ⟨[], rfl, rfl⟩
    · simp at h

theorem read_length_lt {cs : List Char} {t : Taken (TokenKind × String)} (h : read cs = .ok t) :
    t.rest.length < cs.length := by
  cases cs with
  | nil => simp [read] at h
  | cons c cs =>
    obtain ⟨s, -, rfl⟩ := read_source h
    simp only [List.length_cons, List.length_append]
    omega

end Lexeme

end SchemaDepot
