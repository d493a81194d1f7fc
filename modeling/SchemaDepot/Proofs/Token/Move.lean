import SchemaDepot.Proofs.Token.Order

/-! # Moved tokens

The points of a text are mapped by a function `f`; kinds and texts stay.

* `Token.move`: a token with other points; `Compatible`: `f` takes stretches to stretches.
* `Position.shift`: so many lines and bytes further on.
* `Token.scanFrom_shift`: a text that starts further on has the same tokens, further on. -/

namespace SchemaDepot

section Move
variable (f : Position → Position)

/-- The stretch between the two points to which its ends move. -/
def Span.move (s : Span) : Span := ⟨f s.start, f s.stop⟩

/-- The token, elsewhere. -/
def Token.move (t : Token) : Token := { t with span := t.span.move f }

/-- Points are mapped so that the stretch between two of them is the moved stretch. -/
def Compatible : Prop := ∀ p q, Span.between (f p) (f q) = (Span.between p q).move f

end Move

/-! ### Further on -/

namespace Position

/-- The point so many lines and bytes further on, in the same column. -/
def shift (lines bytes : Nat) (p : Position) : Position :=
  ⟨p.line + lines, p.column, p.offset + bytes⟩

variable {lines bytes : Nat}

theorem shift_inj {p q : Position} : p.shift lines bytes = q.shift lines bytes ↔ p = q := by
  cases p
  cases q
  simp [shift]

theorem shift_advance (p : Position) (c : Char) :
    (p.shift lines bytes).advance c = (p.advance c).shift lines bytes := by
  unfold advance shift
  split_ifs <;> simp only [mk.injEq, true_and] <;> omega

theorem shift_advanceOver (p : Position) (cs : List Char) :
    (p.shift lines bytes).advanceOver cs = (p.advanceOver cs).shift lines bytes := by
  induction cs generalizing p with
  | nil => rfl
  | cons c cs ih =>
    show ((p.shift lines bytes).advance c).advanceOver cs = _
    rw [shift_advance, ih]
    rfl

theorem shift_before (p q : Position) :
    (p.shift lines bytes).before (q.shift lines bytes) = p.before q := by
  have same (m n k : Nat) : (m + k == n + k) = (m == n) := by
    rw [Bool.eq_iff_iff]
    simp
  have less (m n k : Nat) : decide (m + k < n + k) = decide (m < n) := by simp
  show before ⟨p.line + lines, p.column, p.offset + bytes⟩
    ⟨q.line + lines, q.column, q.offset + bytes⟩ = _
  simp only [before, less, same]

theorem shift_compatible : Compatible (shift lines bytes) := by
  intro p q
  unfold Span.between Span.move
  rw [shift_before]
  split_ifs <;> rfl

end Position

namespace Token

/-! ### Scanning, lexeme by lexeme -/

/-- The point behind the blanks at the front of a text. -/
def afterBlanks (p : Position) (cs : List Char) : Position :=
  p.advanceOver (cs.takeWhile Text.isBlank)

/-- The token that a lexeme is at a point. -/
def ofLexeme (p : Position) (lexeme : Taken (TokenKind × String)) : Token :=
  ⟨lexeme.value.1, lexeme.value.2, Span.between p (p.advanceOver lexeme.source)⟩

/-- A scan, by the text behind the blanks at the front. -/
theorem scanFrom_eq (p : Position) (cs : List Char) : scanFrom p cs =
    if cs.dropWhile Text.isBlank = [] then .ok ([], afterBlanks p cs)
    else match Lexeme.read (cs.dropWhile Text.isBlank) with
      | .error fault => .error ⟨.lexical fault, afterBlanks p cs, none⟩
      | .ok lexeme =>
        (scanFrom ((afterBlanks p cs).advanceOver lexeme.source) lexeme.rest).map
          fun (ts, final) => (ofLexeme (afterBlanks p cs) lexeme :: ts, final) := by
  rw [scanFrom]
  simp only [List.isEmpty_iff]
  split_ifs
  · rfl
  · split <;> next h => rw [h]; rfl

theorem scanFrom_lexeme {cs : List Char} (h : cs.dropWhile Text.isBlank ≠ [])
    {lexeme : Taken (TokenKind × String)}
    (hread : Lexeme.read (cs.dropWhile Text.isBlank) = .ok lexeme) (p : Position) :
    scanFrom p cs = (scanFrom ((afterBlanks p cs).advanceOver lexeme.source) lexeme.rest).map
      fun (ts, final) => (ofLexeme (afterBlanks p cs) lexeme :: ts, final) := by
  rw [scanFrom_eq, if_neg h, hread]

/-- A text that can be scanned is blank, or a lexeme stands behind the blanks at its front. -/
theorem scanFrom_cases {p : Position} {cs : List Char} {ts : List Token} {final : Position}
    (h : scanFrom p cs = .ok (ts, final)) :
    (cs.dropWhile Text.isBlank = [] ∧ ts = [] ∧ final = afterBlanks p cs) ∨
    ∃ lexeme us, cs.dropWhile Text.isBlank ≠ [] ∧
      Lexeme.read (cs.dropWhile Text.isBlank) = .ok lexeme ∧ lexeme.rest.length < cs.length ∧
      scanFrom ((afterBlanks p cs).advanceOver lexeme.source) lexeme.rest = .ok (us, final) ∧
        ts = ofLexeme (afterBlanks p cs) lexeme :: us := by
  rw [scanFrom_eq] at h
  split_ifs at h with hbody
  · cases h
    exact Or.inl ⟨hbody, rfl, rfl⟩
  · split at h
    · cases h
    · next lexeme hread =>
      obtain ⟨⟨us, stop⟩, hus, he⟩ := Lexeme.map_ok h
      cases he
      have shorter := Lexeme.read_length_lt hread
      have := (List.dropWhile_suffix (l := cs) Text.isBlank).length_le
      exact Or.inr ⟨lexeme, us, hbody, hread, by omega, hus, rfl⟩

/-- **A text that starts further on has the same tokens**, further on. -/
theorem scanFrom_shift {lines bytes : Nat} {p : Position} {cs : List Char} {ts : List Token}
    {final : Position} (h : scanFrom p cs = .ok (ts, final)) :
    scanFrom (p.shift lines bytes) cs =
      .ok (ts.map (move (Position.shift lines bytes)), final.shift lines bytes) := by
  have blanks (p : Position) (cs : List Char) :
      afterBlanks (p.shift lines bytes) cs = (afterBlanks p cs).shift lines bytes :=
    Position.shift_advanceOver p _
  have token (p : Position) (lexeme : Taken (TokenKind × String)) :
      ofLexeme (p.shift lines bytes) lexeme =
        (ofLexeme p lexeme).move (Position.shift lines bytes) := by
    unfold ofLexeme
    rw [Position.shift_advanceOver, Position.shift_compatible]
    rfl
  induction hn : cs.length using Nat.strongRecOn generalizing p cs ts with
  | ind n ih =>
    rcases scanFrom_cases h with ⟨hbody, rfl, rfl⟩ | ⟨lexeme, us, hbody, hread, hlt, hus, rfl⟩
    · rw [scanFrom_eq, if_pos hbody, blanks]
      rfl
    · rw [scanFrom_lexeme hbody hread, blanks, token, Position.shift_advanceOver,
        ih lexeme.rest.length (by omega) hus rfl]
      rfl

end Token

end SchemaDepot
