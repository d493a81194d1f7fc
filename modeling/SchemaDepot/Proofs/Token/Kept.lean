import SchemaDepot.Proofs.Token.Requoting

/-! # Tokens that are kept as text and scanned again

Tokens are kept as one text, with blanks between them and the literals among them in quotes. The
text can be scanned unless a character of a literal is spelled by its code point, and has the same
tokens if an octal digit stands behind no NUL, either.

* `Token.keep`: the text; `Token.reread`: the tokens that are scanned of it.
* `Token.scan_keep`: tokens that are kept and scanned again.
* `Token.ReadAgain`, `Token.scan_quoted`: which are the same. -/

namespace SchemaDepot

open Position

/-! ### Tokens that are kept -/

/-- A lexeme that is neither a literal nor a comment is its text. -/
theorem Lexeme.Stands.source_eq {kind : TokenKind} {text : String} {s rest : List Char}
    (h : Stands kind text s rest) (literal : kind ≠ .literal) (comment : kind.isComment = false) :
    s = text.toList := by
  cases h with
  | word | numeral => exact String.toList_ofList.symm
  | literal => exact absurd rfl literal
  | @symbol c => simp
  | lineComment => cases comment
  | blockComment => cases comment

namespace Token

open Grammar (kept isLiteral)

/-- Tokens as one text. -/
def keep (ts : List Token) : String := " ".intercalate (ts.map kept)

/-- The token is a literal in which a character is spelled by its code point. -/
def isLost (t : Token) : Bool := isLiteral t && t.text.toList.any Text.isSpelled

/-- The token that is read where one was kept, if it is not lost. -/
def reread (t : Token) : Token :=
  if isLiteral t then { t with text := String.ofList (Text.reread t.text.toList) } else t

/-- The token is a literal, or can stand in a text and is no comment. -/
def Readable (t : Token) : Prop :=
  isLiteral t = true ∨
    t.isComment = false ∧ ∃ lexeme rest, Lexeme.Stands t.kind t.text lexeme rest

variable {t : Token} {ts : List Token} {front gap : List Char}

theorem kept_literal (h : isLiteral t = true) : ∃ cs, (kept t).toList = '"' :: cs := by
  rw [kept, if_pos h, Text.quoted, String.toList_ofList]
  exact ⟨_, rfl⟩

theorem kept_stands (h : t.Readable) (found : t.isLost = false) {behind : List Char}
    (blank : ∀ c ∈ behind.head?, Text.isBlank c = true) :
    Lexeme.Stands t.reread.kind t.reread.text (kept t).toList behind := by
  unfold kept reread
  by_cases literal : isLiteral t = true
  · rw [isLost, literal, Bool.true_and] at found
    have read := Lexeme.read_quoted t.text behind
    rw [found, if_neg Bool.false_ne_true] at read
    have kind : t.kind = .literal := by simpa [isLiteral] using literal
    have stands := Lexeme.stands_of_read read
    rw [if_pos literal, if_pos literal, kind]
    dsimp only at stands ⊢
    exact stands
  · obtain ⟨comment, lexeme, rest, stands⟩ := h.resolve_left literal
    have kind : t.kind ≠ .literal := by simpa [isLiteral] using literal
    rw [if_neg literal, if_neg literal, ← stands.source_eq kind comment]
    refine stands.before_blank (fun line => ?_) blank
    rw [isComment, line] at comment
    cases comment

theorem read_of_isLost (h : t.isLost = true) (behind : List Char) :
    Lexeme.read ((kept t).toList ++ behind) = .error .emptyHexEscape := by
  obtain ⟨literal, lost⟩ := Bool.and_eq_true_iff.1 h
  rw [kept, if_pos literal, Lexeme.read_quoted, if_pos lost]

theorem keep_singleton (t : Token) : (keep [t]).toList = (kept t).toList := by simp [keep]

theorem keep_cons_cons (t u : Token) (ts : List Token) : (keep (t :: u :: ts)).toList =
    (kept t).toList ++ ' ' :: (keep (u :: ts)).toList := by
  simp [keep, String.toList_intercalate]

theorem keep_cons (t : Token) (ts : List Token) :
    ∃ behind, (keep (t :: ts)).toList = (kept t).toList ++ behind := by
  cases ts with
  | nil => exact ⟨[], by rw [keep_singleton, List.append_nil]⟩
  | cons u ts => exact ⟨_, keep_cons_cons t u ts⟩

/-- A token that is not lost is laid out where it was kept. -/
theorem Laid.cons_kept {cs : List Char} {us : List Token} (h : t.Readable)
    (found : t.isLost = false) (blank : ∀ c ∈ gap, Text.isBlank c = true)
    (behind : ∀ c ∈ cs.head?, Text.isBlank c = true)
    (tail : Laid (front ++ gap ++ (kept t).toList) cs us []) :
    ∃ u, Agree t.reread u ∧ Laid front (gap ++ (kept t).toList ++ cs) (u :: us) [] := by
  let start := origin.advanceOver (front ++ gap)
  let u : Token := ⟨t.reread.kind, t.reread.text, ⟨start, start.advanceOver (kept t).toList⟩⟩
  have there : u.span.Over (front ++ gap) (kept t).toList := Span.over_iff.2 rfl
  exact ⟨u, ⟨rfl, rfl⟩, .token blank (kept_stands h found behind) there tail⟩

/-- Tokens of which none is lost are laid out over their text. -/
theorem exists_laid_keep (blank : ∀ c ∈ gap, Text.isBlank c = true)
    (readable : ∀ u ∈ t :: ts, u.Readable) (found : ∀ u ∈ t :: ts, u.isLost = false) :
    ∃ us, Laid front (gap ++ (keep (t :: ts)).toList) us [] ∧
      List.Forall₂ Agree ((t :: ts).map reread) us := by
  induction ts generalizing t front gap with
  | nil =>
    have none : Laid (front ++ gap ++ (kept t).toList) [] [] [] := .blank (List.forall_mem_nil _)
    obtain ⟨v, agree, laid⟩ := Laid.cons_kept (readable t List.mem_cons_self)
      (found t List.mem_cons_self) blank (fun c hc => by cases hc) none
    rw [List.append_nil, ← keep_singleton] at laid
    exact ⟨[v], laid, .cons agree .nil⟩
  | cons u ts ih =>
    obtain ⟨us, tail, others⟩ := @ih u (front ++ gap ++ (kept t).toList) [' ']
      (List.forall_mem_singleton.2 rfl) (fun v hv => readable v (List.mem_cons_of_mem _ hv))
      fun v hv => found v (List.mem_cons_of_mem _ hv)
    obtain ⟨v, agree, laid⟩ := Laid.cons_kept (readable t List.mem_cons_self)
      (found t List.mem_cons_self) blank (fun c hc => by cases hc; rfl) tail
    rw [keep_cons_cons, ← List.append_assoc]
    exact ⟨v :: us, laid, .cons agree others⟩

theorem scanFrom_of_isLost (blank : ∀ c ∈ gap, Text.isBlank c = true) (lost : t.isLost = true)
    (p : Position) (behind : List Char) : scanFrom p (gap ++ ((kept t).toList ++ behind)) =
      .error ⟨.lexical .emptyHexEscape, p.advanceOver gap, none⟩ := by
  have read := read_of_isLost lost behind
  obtain ⟨cs, hcs⟩ := kept_literal (Bool.and_eq_true_iff.1 lost).1
  rw [hcs] at read ⊢
  rw [scanFrom_blanks blank]
  exact scanFrom_error (by decide) read _

/-- Tokens of which one is lost cannot be scanned. -/
theorem scanFrom_keep_of_isLost (blank : ∀ c ∈ gap, Text.isBlank c = true)
    (readable : ∀ u ∈ t :: ts, u.Readable) (lost : ∃ u ∈ t :: ts, u.isLost = true)
    (p : Position) : ∃ place, scanFrom p (gap ++ (keep (t :: ts)).toList) =
      .error ⟨.lexical .emptyHexEscape, place, none⟩ := by
  induction ts generalizing t gap p with
  | nil =>
    obtain ⟨u, hu, lost⟩ := lost
    obtain rfl := List.mem_singleton.1 hu
    have := scanFrom_of_isLost blank lost p []
    rw [List.append_nil, ← keep_singleton] at this
    exact ⟨_, this⟩
  | cons u ts ih =>
    rw [keep_cons_cons]
    by_cases first : t.isLost = true
    · exact ⟨_, scanFrom_of_isLost blank first p _⟩
    · have others : ∃ v ∈ u :: ts, v.isLost = true := by
        obtain ⟨v, hv, lost⟩ := lost
        rcases List.mem_cons.1 hv with rfl | hv
        · exact absurd lost first
        · exact ⟨v, hv, lost⟩
      rw [Bool.not_eq_true] at first
      obtain ⟨place, fails⟩ := @ih u [' '] (List.forall_mem_singleton.2 rfl)
        (fun v hv => readable v (List.mem_cons_of_mem _ hv)) others
        ((p.advanceOver gap).advanceOver (kept t).toList)
      have stands := @kept_stands t (readable t List.mem_cons_self) first
        (' ' :: (keep (u :: ts)).toList) fun c hc => by cases hc; rfl
      rw [List.singleton_append] at fails
      rw [scanFrom_blanks blank, scanFrom_stands stands, fails]
      exact ⟨place, rfl⟩

/-- What is kept does not begin with a byte order mark. -/
theorem keep_bare (readable : t.Readable) (ts : List Token) :
    (keep (t :: ts)).toList.head? ≠ some '\uFEFF' := by
  obtain ⟨behind, hkeep⟩ := keep_cons t ts
  rw [hkeep]
  by_cases literal : isLiteral t = true
  · obtain ⟨cs, hcs⟩ := kept_literal literal
    rw [hcs]
    exact fun h => absurd (Option.some.inj h) (by decide)
  · obtain ⟨comment, lexeme, rest, stands⟩ := readable.resolve_left literal
    have bare := stands.head_ne_mark
    obtain ⟨c, cs, rfl, -⟩ := stands.exists_cons
    rw [kept, if_neg literal, ← stands.source_eq (by simpa [isLiteral] using literal) comment]
    exact bare

/-- **Tokens that are kept as one text and scanned again** are as they are reread, unless one of
them is lost. -/
theorem scan_keep (readable : ∀ u ∈ t :: ts, u.Readable) :
    if (t :: ts).any isLost then
      ∃ place, scan (keep (t :: ts)) = .error ⟨.lexical .emptyHexEscape, place, none⟩
    else ∃ us final, scan (keep (t :: ts)) = .ok (us, final) ∧
      List.Forall₂ Agree ((t :: ts).map reread) us := by
  have start := scan_of_bare (keep_bare (readable t List.mem_cons_self) ts)
  rw [start]
  split_ifs with lost
  · exact scanFrom_keep_of_isLost (List.forall_mem_nil _) readable (List.any_eq_true.1 lost) origin
  · have found : ∀ u ∈ t :: ts, u.isLost = false := by simpa using lost
    obtain ⟨us, laid, agree⟩ := @exists_laid_keep t ts [] [] (List.forall_mem_nil _) readable found
    exact ⟨us, _, scanFrom_eq_ok_iff.2 ⟨laid, after_origin _⟩, agree⟩

theorem agree_iff_of_reread {u : Token} (h : Agree t.reread u) : Agree t u ↔
    (isLiteral t = true → ∀ d, Lexeme.isOctalDigit d = true →
      ¬ ['\x00', d] <:+: t.text.toList) := by
  unfold reread at h
  split_ifs at h with literal
  · have text : String.ofList (Text.reread t.text.toList) = u.text := h.2
    rw [← Text.reread_eq_iff]
    refine ⟨fun agree _ => ?_, fun same => ⟨h.1, ?_⟩⟩
    · rw [← String.toList_ofList (l := Text.reread t.text.toList), text, ← agree.2]
    · rw [← text, same literal, String.ofList_toList]
  · exact iff_of_true h fun hl => absurd hl literal

theorem forall₂_agree_iff_of_reread {us : List Token} (h : List.Forall₂ Agree (ts.map reread) us) :
    List.Forall₂ Agree ts us ↔ ∀ t ∈ ts, isLiteral t = true →
      ∀ d, Lexeme.isOctalDigit d = true → ¬ ['\x00', d] <:+: t.text.toList := by
  induction ts generalizing us with
  | nil =>
    cases h
    exact iff_of_true .nil nofun
  | cons t ts ih =>
    cases h with
    | cons first others =>
      rw [List.forall₂_cons, agree_iff_of_reread first, ih others, List.forall_mem_cons]

/-- The tokens are scanned again from their text exactly if no character of a literal is spelled by
its code point, and are the same then exactly if all literals are requotable. -/
structure ReadAgain (ts : List Token) (text : String) : Prop where
  kept : text = keep ts
  read : (∃ us final, scan text = .ok (us, final)) ↔
    ∀ t ∈ ts, isLiteral t = true → ∀ c ∈ t.text.toList, Text.isSpelled c = false
  same : (∃ us final, scan text = .ok (us, final) ∧ List.Forall₂ Agree ts us) ↔
    ∀ t ∈ ts, isLiteral t = true → Text.Requotable t.text.toList

theorem readAgain_keep (filled : ts ≠ []) (readable : ∀ u ∈ ts, u.Readable) :
    ReadAgain ts (keep ts) := by
  obtain ⟨t, ts, rfl⟩ := List.exists_cons_of_ne_nil filled
  have lost : (t :: ts).any isLost = false ↔ ∀ u ∈ t :: ts, isLiteral u = true →
      ∀ c ∈ u.text.toList, Text.isSpelled c = false := by
    simp only [List.any_eq_false, isLost, Bool.and_eq_true, not_and, Bool.not_eq_true]
  have scanned := scan_keep readable
  cases hany : (t :: ts).any isLost with
  | true =>
    rw [hany, if_pos rfl] at scanned
    obtain ⟨place, fails⟩ := scanned
    have not := mt lost.2 (by rw [hany]; decide)
    refine ⟨rfl, iff_of_false ?_ not, iff_of_false ?_ fun h => not fun u hu hl => ?_⟩
    · rintro ⟨us, final, h⟩
      rw [fails] at h
      cases h
    · rintro ⟨us, final, h, -⟩
      rw [fails] at h
      cases h
    · simpa using (h u hu hl).unspelled
  | false =>
    rw [hany, if_neg Bool.false_ne_true] at scanned
    obtain ⟨us, final, scans, agree⟩ := scanned
    refine ⟨rfl, iff_of_true ⟨us, final, scans⟩ (lost.1 hany), ?_⟩
    have same := forall₂_agree_iff_of_reread agree
    constructor
    · rintro ⟨vs, final', h, again⟩ u hu hl
      rw [scans] at h
      cases h
      exact ⟨by simpa using lost.1 hany u hu hl, same.1 again u hu hl⟩
    · exact fun h => ⟨us, final, scans, same.2 fun u hu hl => (h u hu hl).apart⟩

/-- **A quoted text is scanned as a literal with that text exactly if it is requotable.** -/
theorem scan_quoted (s : String) : (∃ t final, scan (Text.quoted s) = .ok ([t], final) ∧
    t.kind = .literal ∧ t.text = s) ↔ Text.Requotable s.toList := by
  let literal : Token := ⟨.literal, s, Span.point origin⟩
  have again := readAgain_keep (List.cons_ne_nil literal [])
    (List.forall_mem_singleton.2 (Or.inl rfl))
  have keep : keep [literal] = Text.quoted s := String.toList_inj.1 (keep_singleton literal)
  have same := again.same
  rw [keep, List.forall_mem_singleton] at same
  refine Iff.trans ?_ (same.trans ⟨fun h => h rfl, fun h _ => h⟩)
  constructor
  · rintro ⟨t, final, scans, kind, text⟩
    exact ⟨[t], final, scans, .cons ⟨kind.symm, text.symm⟩ .nil⟩
  · rintro ⟨us, final, scans, agree⟩
    cases agree with
    | cons first none =>
      cases none
      exact ⟨_, final, scans, first.1.symm, first.2.symm⟩

end Token

end SchemaDepot
