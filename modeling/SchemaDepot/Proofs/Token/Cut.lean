import Mathlib.Data.List.TakeWhile
import Mathlib.Data.String.Basic
import SchemaDepot.Proofs.Token.Move

/-! # A newline cuts a text

What stands before a newline is read without a look at what stands behind it: the lexemes of a text
that can be scanned end before the end of the text, and a newline behind it lengthens none of them.

* `Lexeme.read_line`: a lexeme of a text is one of the text with a line behind it.
* `Position.behind`: where the points of a text are if another one stands in front of it;
  `Position.Within.lt_behind`: the points of that one stand above them.
* `Token.scan_cut`: the tokens of two texts with a newline between them are those of the first, and
  those of the second further on. -/

namespace SchemaDepot

section Runs
variable {α : Type} {p : α → Bool} {ys : List α} (h : ∀ y ∈ ys.head?, p y = false)
include h

/-- A run does not go on in what stands behind a list if that does not begin with one. -/
theorem takeWhile_append_of_head (xs : List α) : (xs ++ ys).takeWhile p = xs.takeWhile p := by
  induction xs with
  | nil =>
    cases ys with
    | nil => rfl
    | cons y ys => exact List.takeWhile_cons_of_neg (by simp [h y rfl])
  | cons x xs ih => rw [List.cons_append, List.takeWhile_cons, List.takeWhile_cons, ih]

theorem dropWhile_append_of_head (xs : List α) : (xs ++ ys).dropWhile p = xs.dropWhile p ++ ys := by
  induction xs with
  | nil =>
    cases ys with
    | nil => rfl
    | cons y ys => exact List.dropWhile_cons_of_neg (by simp [h y rfl])
  | cons x xs ih =>
    rw [List.cons_append, List.dropWhile_cons, List.dropWhile_cons, ih]
    split_ifs <;> rfl

end Runs

/-- The same with a line behind the text. -/
def Taken.beforeLine {α : Type} (t : Taken α) (ds : List Char) : Taken α :=
  { t with rest := t.rest ++ '\n' :: ds }

namespace Lexeme

variable {ds : List Char}

/-! ### Runs of characters -/

theorem takeWhile_line {p : Char → Bool} (hp : p '\n' = false) (cs : List Char) :
    (cs ++ '\n' :: ds).takeWhile p = cs.takeWhile p :=
  takeWhile_append_of_head (by simpa using hp) cs

theorem dropWhile_line {p : Char → Bool} (hp : p '\n' = false) (cs : List Char) :
    (cs ++ '\n' :: ds).dropWhile p = cs.dropWhile p ++ '\n' :: ds :=
  dropWhile_append_of_head (by simpa using hp) cs

theorem numeralRun_line (last : Char) (cs : List Char) :
    numeralRun last (cs ++ '\n' :: ds) =
      ((numeralRun last cs).1, (numeralRun last cs).2 ++ '\n' :: ds) := by
  induction cs generalizing last with
  | nil => rfl
  | cons c cs ih =>
    simp only [List.cons_append, numeralRun, ih]
    split_ifs <;> rfl

/-- A numeral that is not hexadecimal is a run. -/
theorem numeral_eq_run {c : Char} {cs : List Char}
    (h : ¬(c = '0' ∧ (cs.head? = some 'x' ∨ cs.head? = some 'X'))) :
    numeral c cs = (numeralRun c cs).map (c :: ·) id := by
  unfold numeral
  split
  · exact absurd ⟨rfl, Or.inl rfl⟩ h
  · exact absurd ⟨rfl, Or.inr rfl⟩ h
  · rfl

theorem numeral_line (c : Char) (cs : List Char) :
    numeral c (cs ++ '\n' :: ds) = ((numeral c cs).1, (numeral c cs).2 ++ '\n' :: ds) := by
  have run (h : ¬(c = '0' ∧ (cs.head? = some 'x' ∨ cs.head? = some 'X'))) :
      numeral c (cs ++ '\n' :: ds) = ((numeral c cs).1, (numeral c cs).2 ++ '\n' :: ds) := by
    have h' : ¬(c = '0' ∧ ((cs ++ '\n' :: ds).head? = some 'x' ∨
        (cs ++ '\n' :: ds).head? = some 'X')) := by
      cases cs with
      | nil => simp
      | cons d cs => exact h
    rw [numeral_eq_run h, numeral_eq_run h', numeralRun_line]
    rfl
  have taken (cs : List Char) : (cs ++ '\n' :: ds).takeWhile (fun d => isWordPart d || d == '.') =
      cs.takeWhile fun d => isWordPart d || d == '.' := takeWhile_line (by decide) cs
  have left (cs : List Char) : (cs ++ '\n' :: ds).dropWhile (fun d => isWordPart d || d == '.') =
      cs.dropWhile (fun d => isWordPart d || d == '.') ++ '\n' :: ds :=
    dropWhile_line (by decide) cs
  by_cases h : c = '0' ∧ (cs.head? = some 'x' ∨ cs.head? = some 'X')
  · obtain ⟨rfl, hx⟩ := h
    cases cs with
    | nil => simp at hx
    | cons d cs =>
      simp only [List.head?_cons, Option.some.injEq] at hx
      rcases hx with rfl | rfl <;> simp only [List.cons_append, numeral, taken, left]
  · exact run h

/-! ### Literals and comments -/

theorem take_takeWhile_line {p : Char → Bool} (hp : p '\n' = false) (width : Nat)
    (cs : List Char) :
    ((cs ++ '\n' :: ds).take width).takeWhile p = (cs.take width).takeWhile p := by
  induction width generalizing cs with
  | zero => rfl
  | succ width ih =>
    cases cs with
    | nil => exact List.takeWhile_cons_of_neg (by simp [hp])
    | cons c cs =>
      rw [List.cons_append, List.take_succ_cons, List.take_succ_cons, List.takeWhile_cons,
        List.takeWhile_cons, ih]

theorem codePoint_line {base width : Nat} {isDigit : Char → Bool} (hdigit : isDigit '\n' = false)
    {cs : List Char} {t : Taken Char} (h : codePoint base width isDigit cs = .ok t) :
    codePoint base width isDigit (cs ++ '\n' :: ds) = .ok (t.beforeLine ds) := by
  unfold codePoint at h ⊢
  rw [take_takeWhile_line hdigit]
  dsimp only at h ⊢
  split_ifs at h ⊢
  have short : ((cs.take width).takeWhile isDigit).length ≤ cs.length :=
    ((List.takeWhile_prefix _).trans (List.take_prefix _ _)).length_le
  split at h
  · cases h
    rw [List.drop_append_of_le_length short]
    rfl
  · cases h

theorem escape_line {cs : List Char} {t : Taken Char} (h : escape cs = .ok t) :
    escape (cs ++ '\n' :: ds) = .ok (t.beforeLine ds) := by
  cases cs with
  | nil => cases h
  | cons c cs =>
    simp only [List.cons_append, escape] at h ⊢
    split at h
    · cases h
      rfl
    · obtain ⟨u, hu, rfl⟩ := map_ok h
      rw [codePoint_line (by decide) hu]
      rfl
    · split_ifs at h ⊢
      rw [← List.cons_append]
      exact codePoint_line (by decide) h

theorem literalBody_line {quote : Char} {cs : List Char} {t : Taken (List Char)}
    (h : literalBody quote cs = .ok t) :
    literalBody quote (cs ++ '\n' :: ds) = .ok (t.beforeLine ds) := by
  fun_induction literalBody quote cs generalizing t with
  | case1 => cases h
  | case2 cs =>
    cases h
    rw [List.cons_append, literalBody, if_pos rfl]
    rfl
  | case3 => cases h
  | case4 => cases h
  | case5 cs e he hq hn ih =>
    obtain ⟨u, hu, rfl⟩ := map_ok h
    rw [List.cons_append, literalBody, if_neg hq, if_neg hn, if_pos rfl]
    split
    · next fault hfault =>
      rw [escape_line he] at hfault
      cases hfault
    · next e' he' =>
      rw [escape_line he] at he'
      cases he'
      rw [show (e.beforeLine ds).rest = e.rest ++ '\n' :: ds from rfl, ih hu]
      rfl
  | case6 c cs hq hn hb ih =>
    obtain ⟨u, hu, rfl⟩ := map_ok h
    rw [List.cons_append, literalBody, if_neg hq, if_neg hn, if_neg hb, ih hu]
    rfl

theorem commentBody_line {cs body rest : List Char} (h : commentBody cs = some (body, rest)) :
    commentBody (cs ++ '\n' :: ds) = some (body, rest ++ '\n' :: ds) := by
  fun_induction commentBody cs generalizing body with
  | case1 => cases h
  | case2 =>
    cases h
    rfl
  | case3 c cs hno ih =>
    simp only [Option.map_eq_some_iff, Prod.mk.injEq] at h
    obtain ⟨⟨b, r⟩, hb, rfl, rfl⟩ := h
    have hno' : ∀ rest, c = '*' → cs ++ '\n' :: ds = '/' :: rest → False := by
      intro rest hc he
      cases cs with
      | nil => cases he
      | cons d cs =>
        cases he
        exact hno cs hc rfl
    rw [List.cons_append, commentBody, ih hb]
    · rfl
    · exact hno'

/-! ### Lexemes -/

/-- No lexeme begins with a slash and one more character if none does without a line behind it. -/
theorem slash_line {c d : Char} {cs : List Char} (hd : d ≠ '\n')
    (h : ∀ rest, c = '/' → cs = d :: rest → False) :
    ∀ rest, c = '/' → cs ++ '\n' :: ds = d :: rest → False := by
  intro rest hc he
  cases cs with
  | nil =>
    cases he
    exact hd rfl
  | cons e cs =>
    cases he
    exact h cs hc rfl

/-- **A lexeme ends before a newline** that stands behind the text in which it is read. -/
theorem read_line {cs : List Char} {t : Taken (TokenKind × String)} (h : read cs = .ok t) :
    read (cs ++ '\n' :: ds) = .ok (t.beforeLine ds) := by
  unfold read at h
  split at h
  · cases h
  · next cs =>
    cases h
    show read ('/' :: '/' :: (cs ++ '\n' :: ds)) = _
    rw [read, takeWhile_line (by decide), dropWhile_line (by decide)]
    rfl
  · next cs =>
    show read ('/' :: '*' :: (cs ++ '\n' :: ds)) = _
    rw [read]
    split at h
    · next body rest hb =>
      cases h
      rw [commentBody_line hb]
      rfl
    · cases h
  · next c cs hline hblock =>
    have head : ((cs ++ '\n' :: ds).head?.map Char.isDigit).getD false =
        (cs.head?.map Char.isDigit).getD false := by
      cases cs <;> rfl
    rw [List.cons_append, read]
    · simp only [head, numeral_line]
      split_ifs at h ⊢
      · obtain ⟨u, hu, rfl⟩ := map_ok h
        rw [literalBody_line hu]
        rfl
      · dsimp only at h
        split at h
        · cases h
          rfl
        · cases h
      · cases h
        rw [takeWhile_line (by decide), dropWhile_line (by decide)]
        rfl
      · cases h
        rfl
    · exact slash_line (by decide) hline
    · exact slash_line (by decide) hblock

end Lexeme

namespace Token

/-- Blanks at the front of a text only move the point where the rest stands. -/
theorem scanFrom_blanks {bs : List Char} (h : ∀ c ∈ bs, Text.isBlank c = true) (p : Position)
    (ds : List Char) : scanFrom p (bs ++ ds) = scanFrom (p.advanceOver bs) ds := by
  have start : afterBlanks p (bs ++ ds) = afterBlanks (p.advanceOver bs) ds := by
    rw [afterBlanks, List.takeWhile_append_of_pos h, Position.advanceOver_append, afterBlanks]
  rw [scanFrom_eq, scanFrom_eq, start, List.dropWhile_append_of_pos h]

theorem source_append_rest {cs : List Char} {lexeme : Taken (TokenKind × String)}
    (h : Lexeme.read cs = .ok lexeme) : lexeme.source ++ lexeme.rest = cs := by
  cases cs with
  | nil => cases h
  | cons c cs =>
    obtain ⟨s, hs, rfl⟩ := Lexeme.read_source h
    rw [hs, List.cons_append]

/-- A scan ends at the point behind the text. -/
theorem scanFrom_final {p : Position} {cs : List Char} {ts : List Token} {final : Position}
    (h : scanFrom p cs = .ok (ts, final)) : final = p.advanceOver cs := by
  induction hn : cs.length using Nat.strongRecOn generalizing p cs ts with
  | ind n ih =>
    have split := List.takeWhile_append_dropWhile (p := Text.isBlank) (l := cs)
    rcases scanFrom_cases h with ⟨hbody, -, rfl⟩ | ⟨lexeme, us, hbody, hread, hlt, hus, -⟩
    · rw [hbody, List.append_nil] at split
      rw [afterBlanks, split]
    · rw [ih lexeme.rest.length (by omega) hus rfl, afterBlanks, ← Position.advanceOver_append,
        ← Position.advanceOver_append, source_append_rest hread, split]

/-- The tokens end before a scan does. -/
theorem scanFrom_reaches {p : Position} {cs : List Char} {ts : List Token} {final : Position}
    (h : scanFrom p cs = .ok (ts, final)) : ∀ t ∈ ts, t.span.stop.Reaches final := by
  induction hn : cs.length using Nat.strongRecOn generalizing p cs ts with
  | ind n ih =>
    rcases scanFrom_ok h with ⟨rfl, -⟩ | ⟨t, us, rest, rfl, -, -, hlt, hus⟩
    · exact fun t ht => absurd ht List.not_mem_nil
    · exact List.forall_mem_cons.2 ⟨⟨rest, scanFrom_final hus⟩, ih rest.length (by omega) hus rfl⟩

/-- **A newline cuts a scan**: the tokens of a text stay the same with a line behind it, and those
of the line are scanned from there. -/
theorem scanFrom_cut {p : Position} {cs : List Char} {ts : List Token} {final : Position}
    (h : scanFrom p cs = .ok (ts, final)) (ds : List Char) :
    scanFrom p (cs ++ '\n' :: ds) =
      (scanFrom (final.advance '\n') ds).map fun (us, last) => (ts ++ us, last) := by
  induction hn : cs.length using Nat.strongRecOn generalizing p cs ts with
  | ind n ih =>
    rcases scanFrom_cases h with ⟨hbody, rfl, -⟩ | ⟨lexeme, us, hbody, hread, hlt, hus, rfl⟩
    · have blank : ∀ c ∈ cs ++ ['\n'], Text.isBlank c = true := by
        simp only [List.forall_mem_append, List.forall_mem_singleton]
        exact ⟨List.dropWhile_eq_nil_iff.1 hbody, by decide⟩
      rw [show cs ++ '\n' :: ds = (cs ++ ['\n']) ++ ds by simp, scanFrom_blanks blank,
        Position.advanceOver_append, ← scanFrom_final h]
      exact (congrFun Except.map_id _).symm
    · have filled : (cs.dropWhile Text.isBlank).isEmpty = false := by simpa using hbody
      have taken : (cs ++ '\n' :: ds).takeWhile Text.isBlank = cs.takeWhile Text.isBlank := by
        rw [List.takeWhile_append, if_neg]
        have split := congrArg List.length
          (List.takeWhile_append_dropWhile (p := Text.isBlank) (l := cs))
        have := List.length_pos_of_ne_nil hbody
        rw [List.length_append] at split
        omega
      have left : (cs ++ '\n' :: ds).dropWhile Text.isBlank =
          cs.dropWhile Text.isBlank ++ '\n' :: ds := by
        rw [List.dropWhile_append, filled, if_neg Bool.false_ne_true]
      have read : Lexeme.read (cs.dropWhile Text.isBlank ++ '\n' :: ds) =
          .ok (lexeme.beforeLine ds) := Lexeme.read_line hread
      rw [← left] at read
      rw [scanFrom_lexeme (by rw [left]; simp) read, afterBlanks, taken]
      show ((scanFrom _ (lexeme.rest ++ '\n' :: ds)).map _) = _
      rw [show (lexeme.beforeLine ds).source = lexeme.source from rfl]
      rw [← afterBlanks, ih lexeme.rest.length (by omega) hus rfl]
      cases scanFrom (final.advance '\n') ds <;> rfl

end Token

/-! ### Texts -/

namespace Position

theorem advanceOver_line (p : Position) (cs : List Char) :
    (p.advanceOver cs).line = p.line + cs.count '\n' := by
  induction cs generalizing p with
  | nil => rfl
  | cons c cs ih =>
    show ((p.advance c).advanceOver cs).line = _
    rw [ih, advance, List.count_cons]
    by_cases hc : c = '\n'
    · simp [hc]
      omega
    · simp [hc]

theorem advanceOver_offset (p : Position) (cs : List Char) :
    (p.advanceOver cs).offset = p.offset + String.utf8Len cs := by
  induction cs generalizing p with
  | nil => rfl
  | cons c cs ih =>
    show ((p.advance c).advanceOver cs).offset = _
    rw [ih, offset_advance, String.utf8Len_cons]
    omega

end Position

/-- What is added to the points of a text that stands behind `text` and a newline. -/
def Position.behind (text : String) : Position → Position :=
  shift (text.toList.count '\n' + 1) (text.utf8ByteSize + 1)

theorem Position.behind_compatible (text : String) : Compatible (behind text) := shift_compatible

theorem utf8Len_toList (text : String) : String.utf8Len text.toList = text.utf8ByteSize := by
  rw [← String.utf8ByteSize_ofList, String.ofList_toList]

theorem Position.origin_behind (text : String) :
    (origin.advanceOver text.toList).advance '\n' = origin.behind text := by
  unfold advance behind shift
  rw [if_pos rfl, advanceOver_line, advanceOver_offset, utf8Len_toList]
  simp only [origin, mk.injEq, true_and]
  constructor
  · omega
  · rw [Nat.add_assoc]
    rfl

/-- A point between the start and the end of a text. -/
def Position.Within (text : String) (p : Position) : Prop :=
  origin.Reaches p ∧ p.Reaches (origin.advanceOver text.toList)

/-- The points of a text stand above the points of the text behind it, and before them. -/
theorem Position.Within.lt_behind {a b : String} {p q : Position} (hp : p.Within a)
    (hq : q.Within b) : p.line < (q.behind a).line ∧ p.offset < (q.behind a).offset := by
  have line := le_iff.1 hp.2.le
  have offset := hp.2.offset_le
  have first := le_iff.1 hq.1.le
  rw [advanceOver_line] at line
  rw [advanceOver_offset, utf8Len_toList] at offset
  simp only [behind, shift, origin] at *
  omega

namespace Token

theorem scan_of_mark {text : String} {cs : List Char} (h : text.toList = '\uFEFF' :: cs) :
    scan text = scanFrom (Position.origin.advance '\uFEFF') cs := by
  rw [scan, h]
  rfl

theorem scan_of_bare {text : String} (h : text.toList.head? ≠ some '\uFEFF') :
    scan text = scanFrom Position.origin text.toList := by
  unfold scan
  split
  · next cs hcs =>
    rw [hcs] at h
    exact absurd rfl h
  · rfl

/-- A text is scanned from its start, or from behind the mark there. -/
theorem scan_from (text : String) : ∃ p cs, Position.origin.Reaches p ∧
    p.advanceOver cs = Position.origin.advanceOver text.toList ∧ scan text = scanFrom p cs := by
  by_cases marked : text.toList.head? = some '\uFEFF'
  · obtain ⟨cs, hcs⟩ := List.head?_eq_some_iff.1 marked
    exact ⟨_, cs, ⟨['\uFEFF'], rfl⟩, by rw [hcs]; rfl, scan_of_mark hcs⟩
  · exact ⟨_, _, Position.Reaches.rfl, rfl, scan_of_bare marked⟩

theorem scan_final {text : String} {ts : List Token} {final : Position}
    (h : scan text = .ok (ts, final)) : final = Position.origin.advanceOver text.toList := by
  obtain ⟨p, cs, -, reached, hscan⟩ := scan_from text
  rw [hscan] at h
  rw [scanFrom_final h, reached]

/-- The tokens of a text stand between its start and its end. -/
theorem scan_within {text : String} {ts : List Token} {final : Position}
    (h : scan text = .ok (ts, final)) :
    ∀ t ∈ ts, t.span.start.Within text ∧ t.span.stop.Within text := by
  obtain ⟨p, cs, hstart, -, hscan⟩ := scan_from text
  intro t ht
  have filled := ((scan_inOrder h).filled t ht).reaches
  have final_eq := scan_final h
  rw [hscan] at h
  have before := hstart.trans ((scanFrom_inOrder h).2 t ht)
  have behind := scanFrom_reaches h t ht
  rw [final_eq] at behind
  exact ⟨⟨before, filled.trans behind⟩, before.trans filled, behind⟩

/-- **The tokens of two texts with a newline between them** are those of the first, and those of the
second behind it. -/
theorem scan_cut {a b : String} {ts us : List Token} {final last : Position}
    (ha : scan a = .ok (ts, final)) (hb : scan b = .ok (us, last))
    (bare : b.toList.head? ≠ some '\uFEFF') : scan (a ++ "\n" ++ b) =
      .ok (ts ++ us.map (move (Position.behind a)), last.behind a) := by
  have joined : (a ++ "\n" ++ b).toList = a.toList ++ '\n' :: b.toList := by
    simp [String.toList_append]
  rw [scan_of_bare bare] at hb
  -- where the first text is scanned from, with or without a mark, the rest is the same
  have cut {p : Position} {cs : List Char} (h : scanFrom p cs = .ok (ts, final))
      (reached : p.advanceOver cs = Position.origin.advanceOver a.toList) :
      scanFrom p (cs ++ '\n' :: b.toList) =
        .ok (ts ++ us.map (move (Position.behind a)), last.behind a) := by
    rw [scanFrom_cut h, scanFrom_final h, reached, Position.origin_behind]
    show (scanFrom (Position.origin.shift _ _) _).map _ = _
    rw [scanFrom_shift hb]
    rfl
  by_cases marked : a.toList.head? = some '\uFEFF'
  · obtain ⟨cs, hcs⟩ := List.head?_eq_some_iff.1 marked
    rw [scan_of_mark hcs] at ha
    rw [scan_of_mark (by rw [joined, hcs, List.cons_append])]
    exact cut ha (by rw [hcs]; rfl)
  · rw [scan_of_bare marked] at ha
    rw [scan_of_bare, joined]
    · exact cut ha rfl
    · rw [joined]
      cases htext : a.toList with
      | nil => simp
      | cons c cs =>
        rw [htext] at marked
        exact marked

end Token

end SchemaDepot
