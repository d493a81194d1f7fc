import SchemaDepot.Proofs.Marker.Places
import SchemaDepot.Proofs.Token.Lexicon

/-! # No character of a text is lost

A text is a row of lexemes with blanks between them, and the span of a token says which characters
its lexeme has.

* `Span.Over`: the stretch over some characters; `Span.slice`: the text of a stretch.
* `Token.Laid`: tokens laid out one behind the other over characters, up to a rest of them.
* `Token.scanFrom_eq_ok_iff`, `Token.scan_eq_error_iff`: what is scanned is laid out, up
  to the end of the text or to the first lexeme that cannot be read.
* `Token.scan_lossless`: the tokens of a text. -/

namespace SchemaDepot

open Position

/-! ### Stretches -/

/-- There is one point behind the front of a text. -/
theorem Position.after_iff {front : List Char} {p : Position} :
    p.After front ↔ p = origin.advanceOver front := by
  constructor
  · rintro ⟨line, column, offset⟩
    obtain ⟨line', column', offset'⟩ := after_origin front
    cases p
    cases h : origin.advanceOver front
    simp_all
  · rintro rfl
    exact after_origin front

/-- The stretch over `lexeme`, which stands behind `front`. -/
structure Span.Over (front lexeme : List Char) (s : Span) : Prop where
  start : s.start.After front
  stop : s.stop.After (front ++ lexeme)

theorem Span.over_iff {front lexeme : List Char} {s : Span} : s.Over front lexeme ↔
    s = ⟨origin.advanceOver front, (origin.advanceOver front).advanceOver lexeme⟩ := by
  rw [← advanceOver_append]
  constructor
  · rintro ⟨start, stop⟩
    rw [← after_iff.1 start, ← after_iff.1 stop]
  · rintro rfl
    exact ⟨after_origin _, after_origin _⟩

/-- The part of a text from the offset of one point to that of another. -/
def Span.slice (text : String) (s : Span) : String :=
  String.Pos.Raw.extract text ⟨s.start.offset⟩ ⟨s.stop.offset⟩

theorem Span.Over.slice {text : String} {front lexeme rest : List Char} {s : Span}
    (h : s.Over front lexeme) (htext : text.toList = front ++ lexeme ++ rest) :
    s.slice text = String.ofList lexeme := by
  rw [Span.slice, h.start.offset, h.stop.offset, ← String.ofList_toList (s := text), htext,
    String.utf8Len_append, String.extract_of_valid]

namespace Token

/-! ### Tokens over characters -/

/-- The tokens lie over the characters behind `front`, with blanks between them, up to a rest. -/
inductive Laid : List Char → List Char → List Token → List Char → Prop
  | blank {front gap rest : List Char} (blank : ∀ c ∈ gap, Text.isBlank c = true) :
      Laid front (gap ++ rest) [] rest
  | token {front gap lexeme cs rest : List Char} {t : Token} {ts : List Token}
      (blank : ∀ c ∈ gap, Text.isBlank c = true)
      (stands : Lexeme.Stands t.kind t.text lexeme cs) (there : t.span.Over (front ++ gap) lexeme)
      (tail : Laid (front ++ gap ++ lexeme) cs ts rest) :
      Laid front (gap ++ lexeme ++ cs) (t :: ts) rest

/-- Every token lies over a lexeme, at its place in the text. -/
theorem Laid.exists_over {front cs : List Char} {ts : List Token} {rest : List Char}
    (h : Laid front cs ts rest) : ∀ t ∈ ts, ∃ before lexeme behind,
      front ++ cs = before ++ lexeme ++ behind ∧ t.span.Over before lexeme ∧
        Lexeme.Stands t.kind t.text lexeme behind := by
  induction h with
  | blank => exact fun t ht => by cases ht
  | @token front gap lexeme cs rest t ts _ stands there _ ih =>
    have whole : front ++ (gap ++ lexeme ++ cs) = front ++ gap ++ lexeme ++ cs := by simp
    rw [whole]
    exact List.forall_mem_cons.2 ⟨⟨_, _, _, rfl, there, stands⟩, ih⟩

/-- A lexeme is scanned where it stands. -/
theorem scanFrom_stands {kind : TokenKind} {text : String} {lexeme cs : List Char}
    (h : Lexeme.Stands kind text lexeme cs) (p : Position) : scanFrom p (lexeme ++ cs) =
      (scanFrom (p.advanceOver lexeme) cs).map
        fun (us, final) => (⟨kind, text, ⟨p, p.advanceOver lexeme⟩⟩ :: us, final) := by
  have read := Lexeme.read_of_stands h
  obtain ⟨c, ds, rfl, hc⟩ := h.exists_cons
  have gapless : (c :: ds ++ cs).dropWhile Text.isBlank = c :: ds ++ cs := by simp [hc]
  have start : afterBlanks p (c :: ds ++ cs) = p := by simp [afterBlanks, hc, advanceOver]
  rw [scanFrom_lexeme (by rw [gapless]; exact List.cons_ne_nil _ _) (by rw [gapless]; exact read),
    start]
  show (scanFrom (p.advanceOver (c :: ds)) cs).map (fun found => (Token.mk kind text
    (Span.between p (p.advanceOver (c :: ds))) :: found.1, found.2)) = _
  rw [Span.between_of_le (Reaches.le ⟨_, rfl⟩)]

/-- **What is laid out is scanned**, and then the rest. -/
theorem scanFrom_laid {front cs : List Char} {ts : List Token} {rest : List Char}
    (h : Laid front cs ts rest) : ∃ done, cs = done ++ rest ∧
      scanFrom (origin.advanceOver front) cs =
        (scanFrom (origin.advanceOver (front ++ done)) rest).map
          fun (us, final) => (ts ++ us, final) := by
  induction h with
  | @blank front gap rest blank =>
    refine ⟨gap, rfl, ?_⟩
    rw [scanFrom_blanks blank, ← advanceOver_append]
    exact (congrFun Except.map_id _).symm
  | @token front gap lexeme cs rest t ts blank stands there _ ih =>
    obtain ⟨done, rfl, hscan⟩ := ih
    refine ⟨gap ++ lexeme ++ done, by simp, ?_⟩
    have token : (⟨t.kind, t.text, ⟨origin.advanceOver (front ++ gap),
        (origin.advanceOver (front ++ gap)).advanceOver lexeme⟩⟩ : Token) = t := by
      rw [← Span.over_iff.1 there]
    rw [List.append_assoc gap, scanFrom_blanks blank, ← advanceOver_append, scanFrom_stands stands,
      token, ← advanceOver_append, hscan]
    simp only [← List.append_assoc]
    cases scanFrom (origin.advanceOver (front ++ gap ++ lexeme ++ done)) rest <;> rfl

/-- **Every text has tokens laid out over it**, up to its end or to the first lexeme that cannot be
read, where no blank stands. -/
theorem exists_laid (front cs : List Char) : ∃ ts done rest, cs = done ++ rest ∧
    Laid front cs ts rest ∧ (rest = [] ∨ ∃ c ds cause, rest = c :: ds ∧
      Text.isBlank c = false ∧ Lexeme.read rest = .error cause) := by
  induction hn : cs.length using Nat.strongRecOn generalizing front cs with
  | ind n ih =>
    obtain ⟨gap, body, rfl, blank, filled⟩ : ∃ gap body, cs = gap ++ body ∧
        (∀ c ∈ gap, Text.isBlank c = true) ∧ ∀ c ∈ body.head?, Text.isBlank c = false := by
      refine ⟨_, _, (List.takeWhile_append_dropWhile (p := Text.isBlank)).symm, ?_⟩
      exact run_takeWhile Text.isBlank _
    cases body with
    | nil => exact ⟨[], gap, [], rfl, .blank blank, Or.inl rfl⟩
    | cons c ds =>
      cases read : Lexeme.read (c :: ds) with
      | error cause =>
        exact ⟨[], gap, c :: ds, rfl, .blank blank, Or.inr ⟨c, ds, cause, rfl, filled c rfl, read⟩⟩
      | ok lexeme =>
        obtain ⟨whole, stands⟩ := Lexeme.read_eq_ok_iff.1 read
        have shorter := Lexeme.read_length_lt read
        rw [List.length_append] at hn
        obtain ⟨ts, done, rest, hrest, laid, stop⟩ :=
          ih lexeme.rest.length (by omega) (front ++ gap ++ lexeme.source) lexeme.rest rfl
        have there : (ofLexeme (origin.advanceOver (front ++ gap)) lexeme).span.Over
            (front ++ gap) lexeme.source := Span.over_iff.2 (ofLexeme_span _ _)
        refine ⟨ofLexeme (origin.advanceOver (front ++ gap)) lexeme :: ts,
          gap ++ lexeme.source ++ done, rest, ?_, ?_, stop⟩
        · rw [← whole, hrest]
          simp
        · rw [← whole, ← List.append_assoc]
          exact .token blank stands there laid

theorem scanFrom_nil (p : Position) : scanFrom p [] = .ok ([], p) := by
  rw [scanFrom_eq, if_pos List.dropWhile_nil]
  rfl

theorem scanFrom_error {c : Char} {cs : List Char} {cause : LexicalFault}
    (hc : Text.isBlank c = false) (read : Lexeme.read (c :: cs) = .error cause) (p : Position) :
    scanFrom p (c :: cs) = .error ⟨.lexical cause, p, none⟩ := by
  have gapless : (c :: cs).dropWhile Text.isBlank = c :: cs := by simp [hc]
  rw [scanFrom_eq, gapless, if_neg (List.cons_ne_nil _ _), read]
  simp [afterBlanks, hc, advanceOver]

/-- **The tokens of a text are those that lie over it.** -/
theorem scanFrom_eq_ok_iff {front cs : List Char} {ts : List Token} {final : Position} :
    scanFrom (origin.advanceOver front) cs = .ok (ts, final) ↔
      Laid front cs ts [] ∧ final.After (front ++ cs) := by
  constructor
  · intro h
    obtain ⟨us, -, rest, -, laid, stop⟩ := exists_laid front cs
    obtain ⟨done, rfl, hscan⟩ := scanFrom_laid laid
    rw [hscan] at h
    rcases stop with rfl | ⟨c, ds, cause, rfl, hc, read⟩
    · rw [scanFrom_nil] at h
      cases h
      rw [List.append_nil, List.append_nil] at *
      exact ⟨laid, after_origin _⟩
    · rw [scanFrom_error hc read] at h
      cases h
  · rintro ⟨laid, hfinal⟩
    obtain ⟨done, rfl, hscan⟩ := scanFrom_laid laid
    rw [hscan, scanFrom_nil, after_iff.1 hfinal, List.append_nil]
    simp [Except.map]

/-- **A scan that fails stops at the first lexeme that cannot be read**, behind tokens that are
laid out and behind the blanks after them. -/
theorem scanFrom_eq_error_iff {front cs : List Char} {fault : SyntaxFault} :
    scanFrom (origin.advanceOver front) cs = .error fault ↔
    ∃ ts done c rest cause, cs = done ++ c :: rest ∧ Laid front cs ts (c :: rest) ∧
      Text.isBlank c = false ∧ Lexeme.read (c :: rest) = .error cause ∧
        fault = ⟨.lexical cause, origin.advanceOver (front ++ done), none⟩ := by
  constructor
  · intro h
    obtain ⟨us, -, rest, -, laid, stop⟩ := exists_laid front cs
    obtain ⟨done, rfl, hscan⟩ := scanFrom_laid laid
    rw [hscan] at h
    rcases stop with rfl | ⟨c, ds, cause, rfl, hc, read⟩
    · rw [scanFrom_nil] at h
      cases h
    · rw [scanFrom_error hc read] at h
      cases h
      exact ⟨us, done, c, ds, cause, rfl, laid, hc, read, rfl⟩
  · rintro ⟨ts, done, c, rest, cause, rfl, laid, hc, read, rfl⟩
    obtain ⟨done', same, hscan⟩ := scanFrom_laid laid
    obtain rfl := List.append_cancel_right same
    rw [hscan, scanFrom_error hc read]
    rfl

/-! ### Texts -/

/-- The byte order mark at the front of a text, or nothing if there is none. -/
def mark (text : String) : List Char :=
  if text.toList.head? = some '\uFEFF' then ['\uFEFF'] else []

theorem mark_cases (text : String) : mark text = [] ∨ mark text = ['\uFEFF'] := by
  unfold mark
  split_ifs
  · exact Or.inr rfl
  · exact Or.inl rfl

/-- What stands behind the mark is scanned. -/
theorem scan_eq_scanFrom (text : String) : ∃ cs, text.toList = mark text ++ cs ∧
    scan text = scanFrom (origin.advanceOver (mark text)) cs := by
  unfold mark
  split_ifs with marked
  · obtain ⟨cs, hcs⟩ := List.head?_eq_some_iff.1 marked
    exact ⟨cs, hcs, scan_of_mark hcs⟩
  · exact ⟨text.toList, rfl, scan_of_bare marked⟩

/-- The fault of a text of which some tokens can be read, and behind these and blanks none: no
lexeme stands there. -/
inductive Unreadable (text : String) : SyntaxFault → Prop
  | intro {done rest : List Char} {c : Char} {ts : List Token} {cause : LexicalFault}
      {place : Position} (source : text.toList = mark text ++ (done ++ c :: rest))
      (laid : Laid (mark text) (done ++ c :: rest) ts (c :: rest))
      (filled : Text.isBlank c = false)
      (none : ∀ kind word lexeme behind, Lexeme.Stands kind word lexeme behind →
        lexeme ++ behind ≠ c :: rest)
      (read : Lexeme.read (c :: rest) = .error cause)
      (there : place.After (mark text ++ done)) : Unreadable text ⟨.lexical cause, place, .none⟩

/-- **A scan fails where the first token cannot be read.** -/
theorem scan_eq_error_iff {text : String} {fault : SyntaxFault} :
    scan text = .error fault ↔ Unreadable text fault := by
  obtain ⟨cs, hcs, hscan⟩ := scan_eq_scanFrom text
  rw [hscan, scanFrom_eq_error_iff]
  constructor
  · rintro ⟨ts, done, c, rest, cause, rfl, laid, filled, read, rfl⟩
    refine .intro hcs laid filled (fun kind word lexeme behind stands same => ?_) read
      (after_origin _)
    have := Lexeme.read_of_stands stands
    rw [same, read] at this
    cases this
  · rintro ⟨source, laid, filled, -, read, there⟩
    obtain rfl := List.append_cancel_left (hcs.symm.trans source)
    exact ⟨_, _, _, _, _, rfl, laid, filled, read, by rw [after_iff.1 there]⟩

/-- A token of a text as it stands there: its lexeme is the slice of its span, at the point that the
span says, and is one of its class and with its text before what follows. -/
def StandsIn (text : String) (t : Token) : Prop :=
  ∃ front rest, text.toList = front ++ (t.span.slice text).toList ++ rest ∧
    t.span.Over front (t.span.slice text).toList ∧
    Lexeme.Stands t.kind t.text (t.span.slice text).toList rest

/-- **No character of a text is lost.** A text that can be scanned is a byte order mark or none, and
the lexemes of its tokens with blanks between them; each lexeme is the slice of the span of its
token, and spans and the final point count lines, columns and bytes as they are in the text. -/
theorem scan_lossless {text : String} {ts : List Token} {final : Position}
    (h : scan text = .ok (ts, final)) :
    (∃ mark cs, text.toList = mark ++ cs ∧ (mark = [] ∨ mark = ['\uFEFF']) ∧
      Laid mark cs ts []) ∧ (∀ t ∈ ts, t.StandsIn text) ∧ final.After text.toList := by
  obtain ⟨cs, htext, hscan⟩ := scan_eq_scanFrom text
  rw [hscan] at h
  obtain ⟨laid, hfinal⟩ := scanFrom_eq_ok_iff.1 h
  refine ⟨⟨mark text, cs, htext, mark_cases text, laid⟩, fun t ht => ?_, htext ▸ hfinal⟩
  obtain ⟨front, lexeme, rest, hcs, there, stands⟩ := laid.exists_over t ht
  rw [← htext] at hcs
  have slice := there.slice hcs
  refine ⟨front, rest, ?_, ?_, ?_⟩ <;> rw [slice, String.toList_ofList]
  · exact hcs
  · exact there
  · exact stands

/-- A byte order mark, a word, a symbol, numerals, a literal, and comments of both classes. -/
def mixedText : String := "\uFEFFa = .5 0x1e+2 'é\\'';/* * */ // b\r\n"

theorem mixedText_lossless : ∃ ts final, scan mixedText = .ok (ts, final) ∧
    (∃ mark cs, mixedText.toList = mark ++ cs ∧ (mark = [] ∨ mark = ['\uFEFF']) ∧
      Laid mark cs ts []) ∧ (∀ t ∈ ts, t.StandsIn mixedText) ∧ final.After mixedText.toList := by
  have scans : (scan mixedText).toOption.isSome = true := by decide +kernel
  cases h : scan mixedText with
  | error fault =>
    rw [h] at scans
    cases scans
  | ok found => exact ⟨found.1, found.2, rfl, scan_lossless h⟩

end Token

end SchemaDepot
