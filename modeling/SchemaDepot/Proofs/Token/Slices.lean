import SchemaDepot.Proofs.Schema.Meaning
import SchemaDepot.Proofs.Token.Lossless

/-! # Slices of a text have tokens of their own

The part of a text from the first to the last of some tokens is a text by itself, with the same
tokens. Nor does a lexeme depend on the text around it once a newline stands behind it: the lexemes
of a text may be written on lines of their own, and texts one behind the other.

* `Token.Laid.split`, `Token.Laid.cut`, `Token.Laid.elsewhere`: tokens that are laid out, in parts
  and at another place.
* `Token.scan_slice`: the tokens of a slice agree with those of the text over it.
* `Token.onLines`: the lexemes of tokens, a newline behind each; `Token.Laid.exists_onLines`.
* `Token.scan_local`: the tokens of lexemes on lines, and of two texts with a newline between. -/

namespace SchemaDepot

open Position

namespace Lexeme

/-- No lexeme begins with a byte order mark. -/
theorem Stands.head_ne_mark {kind : TokenKind} {text : String} {s rest : List Char}
    (h : Stands kind text s rest) : s.head? ≠ some '\uFEFF' := by
  intro hs
  obtain ⟨cs, rfl⟩ := List.head?_eq_some_iff.1 hs
  have hread := read_of_stands h
  have number : startsNumeral '\uFEFF' (cs ++ rest) = false := by simp [startsNumeral]
  have slash : ¬ '\uFEFF' = '/' := by decide
  rw [List.cons_append, read_cons fun h => absurd h slash, if_neg (by decide), number,
    if_neg Bool.false_ne_true, if_neg (by decide), if_neg (by decide)] at hread
  cases hread

/-- A lexeme of any class may stand before a newline. -/
theorem Stands.before_newline {kind : TokenKind} {text : String} {s rest : List Char}
    (h : Stands kind text s rest) (behind : List Char) :
    Stands kind text s ('\n' :: behind) := by
  have alone : Stands kind text s [] := h.before nofun
  have read := read_of_stands alone
  rw [List.append_nil] at read
  exact stands_of_read (read_line read)

end Lexeme

namespace Token

variable {front cs rest : List Char} {t : Token} {ts us : List Token}

/-! ### Parts of a row -/

/-- Tokens in a row are laid out in two parts. -/
theorem Laid.split (h : Laid front cs (ts ++ us) rest) : ∃ done left, cs = done ++ left ∧
    Laid front cs ts left ∧ Laid (front ++ done) left us rest := by
  induction ts generalizing front cs with
  | nil => exact ⟨[], cs, rfl, .blank (List.forall_mem_nil _), by rwa [List.append_nil]⟩
  | cons t ts ih =>
    cases h with
    | @token _ gap lexeme cs _ _ _ blank stands there tail =>
      obtain ⟨done, left, rfl, first, second⟩ := ih tail
      exact ⟨gap ++ lexeme ++ done, left, by simp, .token blank stands there first,
        by simpa using second⟩

/-- The first token stands behind blanks. -/
theorem Laid.behind_blanks (h : Laid front cs (t :: ts) rest) : ∃ gap left, cs = gap ++ left ∧
    t.span.start.After (front ++ gap) ∧ left.head? ≠ some '\uFEFF' ∧
      Laid (front ++ gap) left (t :: ts) rest := by
  cases h with
  | @token _ gap lexeme cs _ _ _ blank stands there tail =>
    refine ⟨gap, lexeme ++ cs, by simp, there.start, ?_, ?_⟩
    · have := stands.head_ne_mark
      obtain ⟨c, ds, rfl, -⟩ := stands.exists_cons
      exact this
    · exact .token (List.forall_mem_nil _) stands (by rwa [List.append_nil])
        (by rwa [List.append_nil])

/-- **Tokens stay the same if the text is cut behind the last of them.** -/
theorem Laid.cut (h : Laid front cs (ts ++ [t]) rest) : ∃ done behind, cs = done ++ behind ∧
    t.span.stop.After (front ++ done) ∧ Laid front done (ts ++ [t]) [] := by
  induction ts generalizing front cs with
  | nil =>
    cases h with
    | @token _ gap lexeme cs _ _ _ blank stands there tail =>
      refine ⟨gap ++ lexeme, cs, rfl, by simpa using there.stop, ?_⟩
      have last : Laid (front ++ gap ++ lexeme) [] [] [] := .blank (List.forall_mem_nil _)
      have alone : Lexeme.Stands t.kind t.text lexeme [] := stands.before nofun
      have := Laid.token blank alone there last
      rwa [List.append_nil] at this
  | cons u ts ih =>
    cases h with
    | @token _ gap lexeme cs _ _ _ blank stands there tail =>
      obtain ⟨done, behind, rfl, stop, laid⟩ := ih tail
      refine ⟨gap ++ lexeme ++ done, behind, by simp, by simpa using stop, ?_⟩
      exact .token blank (stands.before fun c hc => by cases done with
        | nil => cases hc
        | cons d done => exact hc) there laid

/-- **Tokens stay the same at another place.** -/
theorem Laid.elsewhere (h : Laid front cs ts rest) (front' : List Char) :
    ∃ us, Laid front' cs us rest ∧ List.Forall₂ Agree ts us := by
  induction h generalizing front' with
  | blank blank => exact ⟨[], .blank blank, .nil⟩
  | @token front gap lexeme cs rest t ts blank stands _ _ ih =>
    obtain ⟨us, laid, agree⟩ := ih (front' ++ gap ++ lexeme)
    let u : Token := ⟨t.kind, t.text,
      ⟨origin.advanceOver (front' ++ gap), (origin.advanceOver (front' ++ gap)).advanceOver lexeme⟩⟩
    exact ⟨u :: us, .token blank stands (Span.over_iff.2 rfl) laid, .cons ⟨rfl, rfl⟩ agree⟩

/-! ### Slices -/

/-- Tokens of which some are left out, from the first to the last of some that are kept. -/
theorem exists_of_infix_filter {α : Type} {p : α → Bool} {xs inner : List α} {first last : α}
    (h : first :: inner ++ [last] <:+: xs.filter p) : ∃ pre mid post,
      xs = pre ++ (first :: mid ++ [last] ++ post) ∧
        (first :: mid ++ [last]).filter p = first :: inner ++ [last] := by
  obtain ⟨a, b, hab⟩ := h
  obtain ⟨front, post, rfl, hfront, -⟩ := List.filter_eq_append_iff.1 hab.symm
  obtain ⟨pre, kept, rfl, -, hkept⟩ := List.filter_eq_append_iff.1 hfront
  obtain ⟨pre', kept, rfl, -, hfirst, hkept⟩ := List.filter_eq_cons_iff.1 hkept
  obtain ⟨mid, kept, rfl, hmid, hkept⟩ := List.filter_eq_append_iff.1 hkept
  obtain ⟨mid', post', rfl, hdropped, hlast, -⟩ := List.filter_eq_cons_iff.1 hkept
  refine ⟨pre ++ pre', mid ++ mid', post' ++ post, by simp, ?_⟩
  have dropped : mid'.filter p = [] := List.filter_eq_nil_iff.2 hdropped
  simp [hfirst, hlast, hmid, dropped]

theorem Agree.isComment_eq {t u : Token} (h : Agree t u) : t.isComment = u.isComment := by
  unfold isComment
  rw [h.1]

theorem forall₂_significant (h : List.Forall₂ Agree ts us) :
    List.Forall₂ Agree (significant ts) (significant us) := by
  induction h with
  | nil => exact .nil
  | @cons t u ts us first _ ih =>
    unfold significant at ih ⊢
    cases hc : u.isComment with
    | true => simpa [first.isComment_eq, hc] using ih
    | false => simpa [first.isComment_eq, hc] using ⟨first, ih⟩

/-- **A slice of a text has the tokens of the text over it**, if it starts and ends with tokens that
are no comments. -/
theorem scan_slice {text : String} {final : Position} (hscan : scan text = .ok (ts, final))
    {first last : Token} {inner : List Token}
    (hus : first :: inner ++ [last] <:+: significant ts) :
    ∃ vs final', scan ((Span.mk first.span.start last.span.stop).slice text) = .ok (vs, final') ∧
      List.Forall₂ Agree (first :: inner ++ [last]) (significant vs) := by
  obtain ⟨pre, mid, post, rfl, hmid⟩ := exists_of_infix_filter hus
  obtain ⟨cs, htext, hfrom⟩ := scan_eq_scanFrom text
  obtain ⟨laid, -⟩ := scanFrom_eq_ok_iff.1 (hfrom ▸ hscan)
  -- the characters from the first to the last token
  obtain ⟨done, cs, rfl, -, laid⟩ := laid.split
  obtain ⟨_, left, rfl, laid, -⟩ := laid.split
  obtain ⟨gap, cs', hcs', start, bare, laid⟩ := laid.behind_blanks
  obtain ⟨slice, behind, rfl, stop, laid⟩ := @Laid.cut _ _ _ _ (first :: mid) laid
  have there : (Span.mk first.span.start last.span.stop).Over (mark text ++ done ++ gap) slice :=
    ⟨start, stop⟩
  have split : text.toList = mark text ++ done ++ gap ++ slice ++ behind := by
    rw [htext, hcs']
    simp
  rw [there.slice split]
  obtain ⟨vs, laid, agree⟩ := laid.elsewhere []
  refine ⟨vs, origin.advanceOver slice, ?_, ?_⟩
  · have bare : (String.ofList slice).toList.head? ≠ some '\uFEFF' := by
      rw [String.toList_ofList]
      intro hs
      obtain ⟨ds, rfl⟩ := List.head?_eq_some_iff.1 hs
      exact bare rfl
    rw [scan_of_bare bare, String.toList_ofList]
    exact (@scanFrom_eq_ok_iff [] slice _ _).2 ⟨laid, after_origin _⟩
  · rw [← hmid]
    exact forall₂_significant agree

/-! ### Lexemes on lines -/

/-- The lexemes of tokens of a text, with a newline behind each. -/
def onLines (text : String) (ts : List Token) : String :=
  String.join (ts.map fun t => t.span.slice text ++ "\n")

/-- Two tokens, each of a text of its own, are the same but for their places there: their classes,
their texts, and their lexemes. -/
structure SameIn (text text' : String) (t u : Token) : Prop where
  agree : Agree t u
  lexeme : u.span.slice text' = t.span.slice text

variable {text : String}

theorem toList_onLines_cons (text : String) (t : Token) (ts : List Token) :
    (onLines text (t :: ts)).toList =
      (t.span.slice text).toList ++ '\n' :: (onLines text ts).toList := by
  simp [onLines, String.toList_join]

/-- **Lexemes on lines of their own are the lexemes of the same tokens.** Blanks may stand before
the first. -/
theorem Laid.exists_onLines (h : Laid front cs ts rest) (htext : text.toList = front ++ cs)
    {whole : String} {front' gap' : List Char} (blank' : ∀ c ∈ gap', Text.isBlank c = true)
    (hwhole : whole.toList = front' ++ (gap' ++ (onLines text ts).toList)) :
    ∃ us, Laid front' (gap' ++ (onLines text ts).toList) us [] ∧
      List.Forall₂ (SameIn text whole) ts us := by
  induction h generalizing front' gap' with
  | blank => exact ⟨[], .blank blank', .nil⟩
  | @token front gap lexeme cs rest t ts _ stands there _ ih =>
    have slice : t.span.slice text = String.ofList lexeme := there.slice (by rw [htext]; simp; rfl)
    rw [toList_onLines_cons, slice, String.toList_ofList] at hwhole ⊢
    -- the newline behind the lexeme is the gap before the next
    obtain ⟨us, tail, same⟩ := @ih (by rw [htext]; simp) (front' ++ gap' ++ lexeme) ['\n']
      (List.forall_mem_singleton.2 (by decide)) (by rw [hwhole]; simp)
    let start := origin.advanceOver (front' ++ gap')
    let u : Token := ⟨t.kind, t.text, ⟨start, start.advanceOver lexeme⟩⟩
    have there' : u.span.Over (front' ++ gap') lexeme := Span.over_iff.2 rfl
    have split : whole.toList =
        front' ++ gap' ++ lexeme ++ '\n' :: (onLines text ts).toList := by
      rw [hwhole]
      simp
    refine ⟨u :: us, ?_, .cons ⟨⟨rfl, rfl⟩, (there'.slice split).trans slice.symm⟩ same⟩
    rw [← List.append_assoc]
    exact .token blank' (stands.before_newline _) there' tail

/-- Lexemes on lines do not begin with a byte order mark. -/
theorem Laid.onLines_bare (h : Laid front cs ts rest) (htext : text.toList = front ++ cs) :
    (onLines text ts).toList.head? ≠ some '\uFEFF' := by
  cases h with
  | blank => exact nofun
  | @token _ gap lexeme cs _ t ts _ stands there _ =>
    have slice : t.span.slice text = String.ofList lexeme := there.slice (by rw [htext]; simp; rfl)
    have bare := stands.head_ne_mark
    rw [toList_onLines_cons, slice, String.toList_ofList]
    obtain ⟨c, ds, rfl, -⟩ := stands.exists_cons
    exact bare

/-- The lexemes of a text on lines of their own can be scanned, to the tokens of the text. -/
theorem scan_onLines {final : Position} (h : scan text = .ok (ts, final)) :
    ∃ us last, scan (onLines text ts) = .ok (us, last) ∧
      List.Forall₂ (SameIn text (onLines text ts)) ts us := by
  obtain ⟨cs, htext, hscan⟩ := scan_eq_scanFrom text
  obtain ⟨laid, -⟩ := scanFrom_eq_ok_iff.1 (hscan ▸ h)
  obtain ⟨us, again, same⟩ :=
    @Laid.exists_onLines _ _ _ _ _ laid htext (onLines text ts) [] [] (List.forall_mem_nil _) rfl
  refine ⟨us, origin.advanceOver (onLines text ts).toList, ?_, same⟩
  rw [scan_of_bare (laid.onLines_bare htext)]
  exact (@scanFrom_eq_ok_iff [] _ _ _).2 ⟨again, after_origin _⟩

/-- **Tokens are local.** The lexemes of a text on lines of their own have the tokens of the text,
and two texts with a newline between them have the tokens of the first, and then those of the
second further on. -/
theorem scan_local :
    (∀ text ts final, scan text = .ok (ts, final) → ∃ us last,
      scan (onLines text ts) = .ok (us, last) ∧
        List.Forall₂ (SameIn text (onLines text ts)) ts us) ∧
    ∀ a b ts us final last, scan a = .ok (ts, final) → scan b = .ok (us, last) →
      b.toList.head? ≠ some '\uFEFF' →
        scan (a ++ "\n" ++ b) = .ok (ts ++ us.map (move (Position.behind a)), last.behind a) :=
  ⟨fun _ _ _ => scan_onLines, fun _ _ _ _ _ _ => scan_cut⟩

/-- A word, a numeral and a symbol without blanks between them, and a comment up to the end. -/
def denseText : String := "x-.5e+1;// 'y"

/-- Lexemes of all classes, and two texts of which the first ends with a comment. -/
theorem scan_local_dense : ∃ ts us vs ws final final' last last',
    scan mixedText = .ok (ts, final) ∧ ts.length = 10 ∧
    scan (onLines mixedText ts) = .ok (vs, last) ∧
    List.Forall₂ (SameIn mixedText (onLines mixedText ts)) ts vs ∧
    scan denseText = .ok (us, final') ∧ us.length = 5 ∧
    denseText.toList.head? ≠ some '\uFEFF' ∧
    scan (mixedText ++ "\n" ++ denseText) = .ok (ts ++ ws, last') ∧
    List.Forall₂ Agree us ws := by
  have scans (text : String) (n : Nat)
      (h : (scan text).toOption.map (·.1.length) = some n) :
      ∃ ts final, scan text = .ok (ts, final) ∧ ts.length = n := by
    cases hscan : scan text with
    | error fault =>
      rw [hscan] at h
      cases h
    | ok found =>
      rw [hscan] at h
      exact ⟨found.1, found.2, rfl, Option.some.inj h⟩
  obtain ⟨ts, final, hts, ten⟩ := scans mixedText 10 (by decide +kernel)
  obtain ⟨us, final', hus, five⟩ := scans denseText 5 (by decide +kernel)
  have bare : denseText.toList.head? ≠ some '\uFEFF' := by decide
  obtain ⟨vs, last, hvs, same⟩ := scan_local.1 mixedText ts final hts
  have joined := scan_local.2 mixedText denseText ts us final final' hts hus bare
  exact ⟨ts, us, vs, _, final, final', last, _, hts, ten, hvs, same, hus, five, bare, joined,
    List.forall₂_map_right_iff.2 (List.forall₂_same.2 fun _ _ => ⟨rfl, rfl⟩)⟩

end Token

end SchemaDepot
