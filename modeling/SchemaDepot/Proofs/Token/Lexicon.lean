import SchemaDepot.Proofs.Token.Cut

/-! # The lexicon

Which characters are a lexeme, of which class and with which text, said without an order of reading.
A lexeme looks at one character behind it at most: at one that could go on a word or a numeral, at a
digit behind a dot, and at what would make a slash a comment.

* `Lexeme.Stands`: the lexemes of each class, and what may stand behind them.
* `Lexeme.read_eq_ok_iff`: the lexeme that is read at the front of a text is the one that stands
  there.
* `Lexeme.Stands.before`, `Lexeme.Stands.before_blank`: what else a lexeme may stand before. -/

namespace SchemaDepot

/-- A run ends where it says: all of its characters belong to it, and the next one does not. -/
theorem run_append_iff {α : Type} {p : α → Bool} (s rest : List α) :
    ((s ++ rest).takeWhile p = s ∧ (s ++ rest).dropWhile p = rest) ↔
      (∀ c ∈ s, p c = true) ∧ ∀ c ∈ rest.head?, p c = false := by
  constructor
  · rintro ⟨htake, hdrop⟩
    refine ⟨fun c hc => List.mem_takeWhile_imp (l := s ++ rest) (htake.symm ▸ hc), fun c hc => ?_⟩
    have := List.head?_dropWhile_not p (s ++ rest)
    rw [hdrop, Option.mem_def.1 hc] at this
    simpa using this
  · rintro ⟨hs, hrest⟩
    have hnone : rest.takeWhile p = [] ∧ rest.dropWhile p = rest := by
      cases rest with
      | nil => exact ⟨rfl, rfl⟩
      | cons c rest =>
        have hc : ¬ p c = true := by simpa using hrest c rfl
        exact ⟨List.takeWhile_cons_of_neg hc, List.dropWhile_cons_of_neg hc⟩
    rw [List.takeWhile_append_of_pos hs, List.dropWhile_append_of_pos hs, hnone.1, hnone.2,
      List.append_nil]
    exact ⟨rfl, rfl⟩

/-- The run that is taken off a row ends where it says. -/
theorem run_takeWhile {α : Type} (p : α → Bool) (xs : List α) :
    (∀ c ∈ xs.takeWhile p, p c = true) ∧ ∀ c ∈ (xs.dropWhile p).head?, p c = false := by
  refine (run_append_iff (xs.takeWhile p) (xs.dropWhile p)).1 ?_
  rw [List.takeWhile_append_dropWhile]
  exact ⟨rfl, rfl⟩

namespace Lexeme

/-! ### Numerals -/

/-- The numeral begins like a hexadecimal one. -/
def isHexadecimal : List Char → Bool
  | '0' :: 'x' :: _ | '0' :: 'X' :: _ => true
  | _ => false

/-- The character goes on a run of which `last` is the last character. -/
def goesOnBehind (last c : Char) : Bool :=
  isWordPart c || c == '.' || (isSign c && isExponentMark last)

/-- The character goes on the numeral: a letter, a digit, an underscore or a dot, or a sign behind
the exponent mark of one that is not hexadecimal. -/
def goesOn (s : List Char) (c : Char) : Bool :=
  if isHexadecimal s then isWordPart c || c == '.' else goesOnBehind (s.getLastD ' ') c

/-- The characters begin like a numeral: with a digit, or with a dot and a digit. -/
def startsNumeral (c : Char) (cs : List Char) : Bool :=
  c.isDigit || (c == '.' && (cs.head?.map Char.isDigit).getD false)

theorem numeralRun_append_iff {last : Char} {s rest : List Char} :
    numeralRun last (s ++ rest) = (s, rest) ↔
      numeralRun last s = (s, []) ∧ ∀ c ∈ rest.head?, goesOnBehind (s.getLastD last) c = false := by
  induction s generalizing last with
  | nil =>
    cases rest with
    | nil => simp [numeralRun]
    | cons c rest =>
      show (if goesOnBehind last c then (numeralRun c rest).map (c :: ·) id else ([], c :: rest)) =
        _ ↔ _
      cases h : goesOnBehind last c <;> simp [numeralRun, Prod.ext_iff, h]
  | cons c s ih =>
    rw [List.cons_append, numeralRun, numeralRun, List.getLastD_cons]
    split_ifs
    · have step (run : List Char × List Char) (left : List Char) :
          run.map (c :: ·) id = (c :: s, left) ↔ run = (s, left) := by
        simp [Prod.ext_iff]
      rw [step, step]
      exact ih
    · simp

theorem isHexadecimal_iff {c : Char} {cs : List Char} : isHexadecimal (c :: cs) = true ↔
    c = '0' ∧ (cs.head? = some 'x' ∨ cs.head? = some 'X') := by
  unfold isHexadecimal
  split
  · next h => simp_all
  · next h => simp_all
  · next hx hX =>
    cases cs with
    | nil => simp
    | cons d cs =>
      simp only [Bool.false_eq_true, List.head?_cons, Option.some.injEq, false_iff, not_and, not_or]
      rintro rfl
      exact ⟨fun hd => hx cs (by rw [hd]), fun hd => hX cs (by rw [hd])⟩

theorem numeral_of_not_hexadecimal {c : Char} {cs : List Char}
    (h : isHexadecimal (c :: cs) = false) : numeral c cs = (numeralRun c cs).map (c :: ·) id :=
  numeral_eq_run fun hx => by simp [isHexadecimal_iff.2 hx] at h

theorem numeral_hexadecimal {x : Char} (hx : x = 'x' ∨ x = 'X') (cs : List Char) :
    numeral '0' (x :: cs) = ('0' :: x :: cs.takeWhile (fun d => isWordPart d || d == '.'),
      cs.dropWhile (fun d => isWordPart d || d == '.')) := by
  rcases hx with rfl | rfl <;> rfl

/-- **A numeral ends where no character goes on.** -/
theorem numeral_append_iff {c : Char} {cs rest : List Char} :
    numeral c (cs ++ rest) = (c :: cs, rest) ↔
      numeral c cs = (c :: cs, []) ∧ ∀ d ∈ rest.head?, goesOn (c :: cs) d = false := by
  cases short : isHexadecimal (c :: cs) with
  | true =>
    obtain ⟨rfl, hx⟩ := isHexadecimal_iff.1 short
    obtain ⟨x, cs, rfl⟩ : ∃ x ds, cs = x :: ds := by
      cases cs with
      | nil => simp at hx
      | cons x ds => exact ⟨x, ds, rfl⟩
    replace hx : x = 'x' ∨ x = 'X' := by simpa using hx
    have here := run_append_iff (p := fun d => isWordPart d || d == '.') cs rest
    have alone := run_append_iff (p := fun d => isWordPart d || d == '.') cs []
    simp only [List.append_nil, List.head?_nil, Option.not_mem_none, false_imp_iff, implies_true,
      and_true] at alone
    unfold goesOn
    simp only [List.cons_append, numeral_hexadecimal hx, Prod.mk.injEq, List.cons.injEq, true_and,
      short, if_true, here, alone]
  | false =>
    cases long : isHexadecimal (c :: (cs ++ rest)) with
    | false =>
      have step (run : List Char × List Char) (left : List Char) :
          run.map (c :: ·) id = (c :: cs, left) ↔ run = (cs, left) := by
        simp [Prod.ext_iff]
      rw [numeral_of_not_hexadecimal short, numeral_of_not_hexadecimal long, step, step,
        numeralRun_append_iff]
      unfold goesOn
      rw [short, List.getLastD_cons]
      rfl
    | true =>
      -- a zero before the letter of a hexadecimal numeral is no numeral by itself
      obtain ⟨rfl, hx⟩ := isHexadecimal_iff.1 long
      obtain rfl : cs = [] := by
        cases cs with
        | nil => rfl
        | cons d cs =>
          have : isHexadecimal ('0' :: d :: cs) = true := isHexadecimal_iff.2 ⟨rfl, hx⟩
          simp [this] at short
      obtain ⟨x, rest, rfl⟩ : ∃ x ds, rest = x :: ds := by
        cases rest with
        | nil => simp at hx
        | cons x ds => exact ⟨x, ds, rfl⟩
      replace hx : x = 'x' ∨ x = 'X' := by simpa using hx
      have goes : goesOn ['0'] x = true := by rcases hx with rfl | rfl <;> decide
      simp [numeral_hexadecimal hx, goes]

/-! ### Literals and comments -/

/-- A run of bounded length looks at the next character only, and whether that belongs to it. -/
theorem takeWhile_take_before {p : Char → Bool} {width : Nat} {cs rest : List Char}
    (h : ∀ c ∈ rest.head?, p c = true → c ∈ (cs.drop ((cs.take width).takeWhile p).length).head?) :
    (((cs.take width).takeWhile p ++ rest).take width).takeWhile p =
      (cs.take width).takeWhile p := by
  induction width generalizing cs with
  | zero => rfl
  | succ width ih =>
    cases cs with
    | nil =>
      cases rest with
      | nil => rfl
      | cons d rest => exact List.takeWhile_cons_of_neg fun hd => by cases h d rfl hd
    | cons c cs =>
      rw [List.take_succ_cons, List.takeWhile_cons] at h ⊢
      split_ifs with hc
      · rw [if_pos hc, List.length_cons, List.drop_succ_cons] at h
        rw [List.cons_append, List.take_succ_cons, List.takeWhile_cons_of_pos hc, ih h]
      · rw [if_neg hc] at h
        cases rest with
        | nil => rfl
        | cons d rest =>
          refine List.takeWhile_cons_of_neg fun hd => hc ?_
          cases h d rfl hd
          exact hd

/-- Behind the digits of an escape only the next character counts, which could be one more. -/
theorem codePoint_before {base width : Nat} {isDigit : Char → Bool} {cs : List Char}
    {t : Taken Char} (h : codePoint base width isDigit cs = .ok t) {rest : List Char}
    (hrest : rest.head? = t.rest.head?) :
    codePoint base width isDigit (t.source ++ rest) = .ok { t with rest } := by
  simp only [codePoint] at h
  split_ifs at h with hd
  split at h
  · next c hc =>
    cases h
    have digits := takeWhile_take_before fun c hc _ => hrest ▸ hc
    simp only [codePoint, digits, if_neg hd, hc, List.drop_left]
  · cases h

theorem escape_before {cs : List Char} {t : Taken Char} (h : escape cs = .ok t)
    {rest : List Char} (hrest : rest.head? = t.rest.head?) :
    escape (t.source ++ rest) = .ok { t with rest } := by
  cases cs with
  | nil => cases h
  | cons c cs =>
    simp only [escape] at h
    split at h
    · next d hd =>
      cases h
      simp [escape, hd]
    · next width hd hwidth =>
      obtain ⟨u, hu, rfl⟩ := map_ok h
      simp only [List.cons_append, escape, hd, hwidth, codePoint_before hu hrest]
      rfl
    · next hd hwidth =>
      split_ifs at h with octal
      obtain ⟨hne, hsource⟩ := codePoint_source h
      obtain ⟨d, ds, hds⟩ := List.exists_cons_of_ne_nil hne
      obtain rfl : d = c := by
        rw [hds, List.cons_append] at hsource
        exact (List.cons.inj hsource).1
      have := codePoint_before h hrest
      rw [hds, List.cons_append] at this
      rw [hds, List.cons_append, escape, hd, hwidth]
      simp only [octal, if_true, this]

/-- The last character of a literal is its quote. -/
theorem exists_literalBody_source {quote : Char} {cs : List Char} {t : Taken (List Char)}
    (h : literalBody quote cs = .ok t) : ∃ inner, t.source = inner ++ [quote] := by
  fun_induction literalBody quote cs generalizing t with
  | case1 => cases h
  | case2 cs =>
    cases h
    exact ⟨[], rfl⟩
  | case3 => cases h
  | case4 => cases h
  | case5 cs e he hq hn ih =>
    obtain ⟨u, hu, rfl⟩ := map_ok h
    obtain ⟨inner, hinner⟩ := ih hu
    exact ⟨'\\' :: e.source ++ inner, by simp [hinner]⟩
  | case6 c cs hq hn hb ih =>
    obtain ⟨u, hu, rfl⟩ := map_ok h
    obtain ⟨inner, hinner⟩ := ih hu
    exact ⟨c :: inner, by simp [hinner]⟩

/-- A literal ends at its quote, whatever stands behind. -/
theorem literalBody_before {quote : Char} {cs : List Char} {t : Taken (List Char)}
    (h : literalBody quote cs = .ok t) (rest : List Char) :
    literalBody quote (t.source ++ rest) = .ok { t with rest } := by
  fun_induction literalBody quote cs generalizing t with
  | case1 => cases h
  | case2 cs =>
    cases h
    rw [List.singleton_append, literalBody, if_pos rfl]
  | case3 => cases h
  | case4 => cases h
  | case5 cs e he hq hn ih =>
    obtain ⟨u, hu, rfl⟩ := map_ok h
    have behind : (u.source ++ rest).head? = e.rest.head? := by
      obtain ⟨inner, hinner⟩ := exists_literalBody_source hu
      rw [← literalBody_source hu, hinner]
      cases inner <;> rfl
    simp only [List.cons_append, List.append_assoc]
    rw [literalBody, if_neg hq, if_neg hn, if_pos rfl]
    split
    · next fault hfault =>
      rw [escape_before he behind] at hfault
      cases hfault
    · next e' he' =>
      rw [escape_before he behind] at he'
      cases he'
      rw [ih hu]
      rfl
  | case6 c cs hq hn hb ih =>
    obtain ⟨u, hu, rfl⟩ := map_ok h
    rw [List.cons_append, literalBody, if_neg hq, if_neg hn, if_neg hb, ih hu]
    rfl

theorem commentBody_cons {c : Char} {cs : List Char} (h : ¬(c = '*' ∧ cs.head? = some '/')) :
    commentBody (c :: cs) = (commentBody cs).map fun (body, rest) => (c :: body, rest) := by
  rw [commentBody]
  rintro rest rfl rfl
  exact h ⟨rfl, rfl⟩

/-- **A comment ends at the first `*/`.** -/
theorem commentBody_eq_some_iff (body rest : List Char) :
    commentBody (body ++ '*' :: '/' :: rest) = some (body, rest) ↔
      ¬ ['*', '/'] <:+: body ++ ['*'] := by
  induction body with
  | nil => exact iff_of_true rfl (by decide)
  | cons c body ih =>
    have first : ['*', '/'] <+: c :: (body ++ ['*']) ↔ c = '*' ∧ body.head? = some '/' := by
      cases body <;> simp [eq_comm]
    rw [List.cons_append, List.cons_append, List.infix_cons_iff, first, not_or, ← ih]
    by_cases h : c = '*' ∧ body.head? = some '/'
    · obtain ⟨rfl, hbody⟩ := h
      obtain ⟨body, rfl⟩ := List.head?_eq_some_iff.1 hbody
      simp [commentBody]
    · have h' : ¬(c = '*' ∧ (body ++ '*' :: '/' :: rest).head? = some '/') := by
        cases body with
        | nil => simp
        | cons d body => exact h
      rw [commentBody_cons h']
      simp [h, Prod.ext_iff]

/-! ### Lexemes -/

/-- A lexeme of a class and with a text, as it is written, before the rest of a text. -/
inductive Stands : TokenKind → String → List Char → List Char → Prop
  | word {c : Char} {cs rest : List Char} (start : isWordStart c = true)
      (part : ∀ d ∈ cs, isWordPart d = true) (ends : ∀ d ∈ rest.head?, isWordPart d = false) :
      Stands .word (String.ofList (c :: cs)) (c :: cs) rest
  | numeral {kind : TokenKind} {c : Char} {cs rest : List Char}
      (start : startsNumeral c cs = true) (run : numeral c cs = (c :: cs, []))
      (classified : numeralKind (c :: cs) = some kind)
      (ends : ∀ d ∈ rest.head?, goesOn (c :: cs) d = false) :
      Stands kind (String.ofList (c :: cs)) (c :: cs) rest
  | literal {quote : Char} {inner chars rest : List Char} (mark : quote = '"' ∨ quote = '\'')
      (denotes : literalBody quote (inner ++ [quote]) = .ok ⟨chars, inner ++ [quote], []⟩) :
      Stands .literal (String.ofList chars) (quote :: inner ++ [quote]) rest
  | symbol {c : Char} {rest : List Char} (mem : c ∈ symbols)
      (dot : c = '.' → ∀ d ∈ rest.head?, d.isDigit = false)
      (slash : c = '/' → ∀ d ∈ rest.head?, d ≠ '/' ∧ d ≠ '*') :
      Stands (.symbol c) c.toString [c] rest
  | lineComment {body rest : List Char} (line : '\n' ∉ body) (ends : ∀ d ∈ rest.head?, d = '\n') :
      Stands .lineComment (String.ofList (Text.dropEndWhile (· == '\r') body))
        ('/' :: '/' :: body) rest
  | blockComment {body rest : List Char} (first : ¬ ['*', '/'] <:+: body ++ ['*']) :
      Stands .blockComment (String.ofList body) ('/' :: '*' :: body ++ ['*', '/']) rest

/-- Reading by the first character, if that does not open a comment. -/
theorem read_cons {c : Char} {cs : List Char} (h : c = '/' → ∀ d ∈ cs.head?, d ≠ '/' ∧ d ≠ '*') :
    read (c :: cs) =
      if c = '"' ∨ c = '\'' then (literalBody c cs).map fun t =>
        ⟨(.literal, String.ofList t.value), c :: t.source, t.rest⟩
      else if startsNumeral c cs then
        match numeralKind (numeral c cs).1 with
        | some kind =>
          .ok ⟨(kind, String.ofList (numeral c cs).1), (numeral c cs).1, (numeral c cs).2⟩
        | none => .error (.badNumeral (String.ofList (numeral c cs).1))
      else if isWordStart c then
        .ok ⟨(.word, String.ofList (c :: cs.takeWhile isWordPart)), c :: cs.takeWhile isWordPart,
          cs.dropWhile isWordPart⟩
      else if c ∈ symbols then .ok ⟨(.symbol c, c.toString), [c], cs⟩
      else .error (.strayCharacter c) := by
  rw [read]
  · refine if_congr ?_ rfl (if_congr Iff.rfl rfl (if_congr Iff.rfl rfl (if_congr ?_ rfl rfl)))
    · rw [Bool.or_eq_true, decide_eq_true_eq, decide_eq_true_eq]
    · exact List.contains_iff_mem
  · rintro cs' rfl rfl
    exact (h rfl '/' rfl).1 rfl
  · rintro cs' rfl rfl
    exact (h rfl '*' rfl).2 rfl

theorem isAlpha_iff {c : Char} : c.isAlpha = true ↔
    65 ≤ c.toNat ∧ c.toNat ≤ 90 ∨ 97 ≤ c.toNat ∧ c.toNat ≤ 122 := by
  have letters : c.isAlpha = (decide (65 ≤ c.toNat ∧ c.toNat ≤ 90) ||
    (decide (97 ≤ c.toNat) && decide (c.toNat ≤ 122))) := rfl
  rw [letters, Bool.or_eq_true, Bool.and_eq_true]
  simp only [decide_eq_true_eq]

theorem isDigit_iff {c : Char} : c.isDigit = true ↔ 48 ≤ c.toNat ∧ c.toNat ≤ 57 := by
  have digits : c.isDigit = (decide (48 ≤ c.toNat) && decide (c.toNat ≤ 57)) := rfl
  rw [digits, Bool.and_eq_true]
  simp only [decide_eq_true_eq]

theorem isDigit_of_isWordStart {c : Char} (h : isWordStart c = true) : c.isDigit = false := by
  simp only [isWordStart, Bool.or_eq_true, beq_iff_eq] at h
  rcases h with h | rfl
  · rw [Bool.eq_false_iff, ne_eq, isDigit_iff]
    rw [isAlpha_iff] at h
    omega
  · decide

/-- A character that begins a word begins no other lexeme. -/
theorem not_mark_of_isWordStart {c : Char} (h : isWordStart c = true) :
    ¬(c = '"' ∨ c = '\'') ∧ c ≠ '.' ∧ c ≠ '/' := by
  refine ⟨?_, ?_, ?_⟩
  · rintro (rfl | rfl) <;> exact absurd h (by decide)
  · rintro rfl
    exact absurd h (by decide)
  · rintro rfl
    exact absurd h (by decide)

/-- A symbol begins no other lexeme, but for a dot and a slash. -/
theorem not_mark_of_mem_symbols (c : Char) (h : c ∈ symbols) :
    ¬(c = '"' ∨ c = '\'') ∧ c.isDigit = false ∧ isWordStart c = false := by
  have all : symbols.all (fun c => !(c == '"' || c == '\'') && (!c.isDigit && !isWordStart c)) =
      true := by decide
  simpa using List.all_eq_true.1 all c h

theorem not_mark_of_startsNumeral {c : Char} {cs : List Char} (h : startsNumeral c cs = true) :
    ¬(c = '"' ∨ c = '\'') ∧ c ≠ '/' := by
  have first : c.isDigit = true ∨ c = '.' := by
    simp only [startsNumeral, Bool.or_eq_true, Bool.and_eq_true, beq_iff_eq] at h
    exact h.imp id And.left
  refine ⟨?_, ?_⟩
  · rintro (rfl | rfl) <;> exact absurd first (by decide)
  · rintro rfl
    exact absurd first (by decide)

/-- What is read as a numeral stands there. -/
theorem stands_numeral {c : Char} {cs : List Char} {kind : TokenKind}
    (number : startsNumeral c cs = true)
    (classified : numeralKind (numeral c cs).1 = some kind) :
    Stands kind (String.ofList (numeral c cs).1) (numeral c cs).1 (numeral c cs).2 := by
  obtain ⟨s, hs, hrest⟩ := numeral_source c cs
  obtain ⟨run, ends⟩ := numeral_append_iff.1 (by rw [hrest, ← hs])
  rw [hs] at classified
  rw [hs]
  refine .numeral ?_ run classified ends
  cases s with
  | nil =>
    -- a dot alone is no numeral
    by_cases dot : c = '.'
    · subst dot
      have : numeralKind ['.'] = none := by decide
      rw [this] at classified
      cases classified
    · simpa [startsNumeral, dot] using number
  | cons d s =>
    rw [← hrest] at number
    exact number

/-- What is read as a comment stands there. -/
theorem stands_comment {d : Char} {cs : List Char} {t : Taken (TokenKind × String)}
    (mark : d ≠ '/' → d = '*') (h : read ('/' :: d :: cs) = .ok t) :
    Stands t.value.1 t.value.2 t.source t.rest := by
  by_cases line : d = '/'
  · subst line
    cases h
    obtain ⟨own, ends⟩ := run_takeWhile (· != '\n') cs
    exact .lineComment (fun hn => by simpa using own _ hn) fun d hd => by simpa using ends d hd
  · obtain rfl := mark line
    rw [read] at h
    split at h
    · next body rest hbody =>
      cases h
      refine .blockComment ((commentBody_eq_some_iff body rest).1 ?_)
      rw [commentBody_append hbody, hbody]
    · cases h

/-- **What is read stands there.** -/
theorem stands_of_read {cs : List Char} {t : Taken (TokenKind × String)} (h : read cs = .ok t) :
    Stands t.value.1 t.value.2 t.source t.rest := by
  cases cs with
  | nil => cases h
  | cons c cs =>
  by_cases slash : c = '/' → ∀ d ∈ cs.head?, d ≠ '/' ∧ d ≠ '*'
  · rw [read_cons slash] at h
    split_ifs at h with quote number word symbol
    · obtain ⟨u, hu, rfl⟩ := map_ok h
      obtain ⟨inner, hinner⟩ := exists_literalBody_source hu
      have alone := literalBody_before hu []
      rw [List.append_nil, hinner] at alone
      rw [hinner]
      exact .literal quote alone
    · split at h
      · next kind classified =>
        cases h
        exact stands_numeral number classified
      · cases h
    · cases h
      obtain ⟨part, ends⟩ := run_takeWhile isWordPart cs
      exact .word word part ends
    · cases h
      refine .symbol symbol ?_ slash
      rintro rfl d hd
      simpa [startsNumeral, Option.mem_def.1 hd] using number
  · push Not at slash
    obtain ⟨rfl, d, hd, mark⟩ := slash
    obtain ⟨cs, rfl⟩ := List.head?_eq_some_iff.1 hd
    exact stands_comment mark h

/-- **What stands there is read.** -/
theorem read_of_stands {kind : TokenKind} {text : String} {s rest : List Char}
    (h : Stands kind text s rest) : read (s ++ rest) = .ok ⟨(kind, text), s, rest⟩ := by
  cases h with
  | @word c cs _ start part ends =>
    obtain ⟨quote, dot, slash⟩ := not_mark_of_isWordStart start
    have number : startsNumeral c (cs ++ rest) = false := by
      simp [startsNumeral, isDigit_of_isWordStart start, dot]
    obtain ⟨taken, left⟩ := (run_append_iff _ _).2 ⟨part, ends⟩
    rw [List.cons_append, read_cons fun h => absurd h slash, if_neg quote, number,
      if_neg Bool.false_ne_true, if_pos start, taken, left]
  | @numeral kind c cs _ start run classified ends =>
    obtain ⟨quote, slash⟩ := not_mark_of_startsNumeral start
    have number : startsNumeral c (cs ++ rest) = true := by
      cases cs with
      | nil =>
        have digit : c.isDigit = true := by simpa [startsNumeral] using start
        simp [startsNumeral, digit]
      | cons d cs => exact start
    rw [List.cons_append, read_cons fun h => absurd h slash, if_neg quote, if_pos number,
      numeral_append_iff.2 ⟨run, ends⟩]
    simp only [classified]
  | @literal quote inner chars _ mark denotes =>
    have slash : quote ≠ '/' := by rcases mark with rfl | rfl <;> decide
    have taken := literalBody_before denotes rest
    rw [List.cons_append, List.cons_append, read_cons fun h => absurd h slash, if_pos mark, taken]
    rfl
  | @symbol c _ mem dot slash =>
    obtain ⟨quote, digit, word⟩ := not_mark_of_mem_symbols c mem
    have number : startsNumeral c rest = false := by
      cases rest with
      | nil => simp [startsNumeral, digit]
      | cons d rest =>
        by_cases hc : c = '.'
        · simp [startsNumeral, digit, dot hc d rfl]
        · simp [startsNumeral, digit, hc]
    rw [List.singleton_append, read_cons slash, if_neg quote, number, word, if_pos mem]
    rfl
  | @lineComment body _ line ends =>
    obtain ⟨taken, left⟩ := (run_append_iff (p := (· != '\n')) body rest).2
      ⟨fun c hc => by simpa using ne_of_mem_of_not_mem hc line,
        fun c hc => by simpa using ends c hc⟩
    rw [List.cons_append, List.cons_append, read, taken, left]
  | @blockComment body _ first =>
    have taken := (commentBody_eq_some_iff body rest).2 first
    rw [List.append_assoc]
    show read ('/' :: '*' :: (body ++ '*' :: '/' :: rest)) = _
    rw [read, taken]

/-- **The lexeme that is read at the front of a text is the one that stands there.** -/
theorem read_eq_ok_iff {cs : List Char} {t : Taken (TokenKind × String)} :
    read cs = .ok t ↔
      t.source ++ t.rest = cs ∧ Stands t.value.1 t.value.2 t.source t.rest :=
  ⟨fun h => ⟨Token.source_append_rest h, stands_of_read h⟩, fun ⟨hcs, h⟩ => hcs ▸ read_of_stands h⟩

/-! ### What stands behind a lexeme -/

theorem isWordPart_of_isBlank {c : Char} (h : Text.isBlank c = true) : isWordPart c = false := by
  rw [Bool.eq_false_iff]
  intro hc
  simp only [isWordPart, Char.isAlphanum, Bool.or_eq_true, beq_iff_eq, isAlpha_iff,
    isDigit_iff] at hc
  simp only [Text.isBlank, Bool.or_eq_true, Bool.and_eq_true, decide_eq_true_eq,
    beq_iff_eq] at h
  rcases hc with hc | rfl
  · omega
  · exact absurd h (by decide)

namespace Stands

variable {kind : TokenKind} {text : String} {s rest behind : List Char}

/-- A lexeme looks at the next character only. -/
theorem before (h : Stands kind text s rest) (hhead : ∀ c ∈ behind.head?, c ∈ rest.head?) :
    Stands kind text s behind := by
  cases h with
  | word start part ends => exact .word start part fun d hd => ends d (hhead d hd)
  | numeral start run classified ends =>
    exact .numeral start run classified fun d hd => ends d (hhead d hd)
  | literal mark denotes => exact .literal mark denotes
  | symbol mem dot slash =>
    exact .symbol mem (fun h d hd => dot h d (hhead d hd)) fun h d hd => slash h d (hhead d hd)
  | lineComment line ends => exact .lineComment line fun d hd => ends d (hhead d hd)
  | blockComment first => exact .blockComment first

/-- A lexeme other than a line comment may stand before a blank. -/
theorem before_blank (h : Stands kind text s rest) (hkind : kind ≠ .lineComment)
    (hblank : ∀ c ∈ behind.head?, Text.isBlank c = true) : Stands kind text s behind := by
  have word (d : Char) (hd : d ∈ behind.head?) := isWordPart_of_isBlank (hblank d hd)
  have other (d : Char) (hd : d ∈ behind.head?) (c : Char) (hc : Text.isBlank c = false) :
      d ≠ c := by
    rintro rfl
    rw [hblank d hd] at hc
    cases hc
  cases h with
  | word start part ends => exact .word start part word
  | @numeral _ c cs _ start run classified ends =>
    refine .numeral start run classified fun d hd => ?_
    have dot := other d hd '.' (by decide)
    have plus := other d hd '+' (by decide)
    have minus := other d hd '-' (by decide)
    simp [goesOn, goesOnBehind, isSign, word d hd, dot, plus, minus]
  | literal mark denotes => exact .literal mark denotes
  | symbol mem dot slash =>
    refine .symbol mem (fun _ d hd => ?_) fun _ d hd => ⟨other d hd _ (by decide),
      other d hd _ (by decide)⟩
    have := word d hd
    simp only [isWordPart, Char.isAlphanum, Bool.or_eq_false_iff] at this
    exact this.1.2
  | lineComment => exact absurd rfl hkind
  | blockComment first => exact .blockComment first

/-- A lexeme takes a character that is not blank. -/
theorem exists_cons (h : Stands kind text s rest) :
    ∃ c cs, s = c :: cs ∧ Text.isBlank c = false := by
  have part {c : Char} (hc : isWordPart c = true) : Text.isBlank c = false := by
    cases hblank : Text.isBlank c with
    | false => rfl
    | true => rw [isWordPart_of_isBlank hblank] at hc; cases hc
  cases h with
  | @word c cs _ start =>
    refine ⟨c, cs, rfl, part ?_⟩
    simp only [isWordStart, isWordPart, Char.isAlphanum, Bool.or_eq_true] at start ⊢
    exact start.imp Or.inl id
  | @numeral _ c cs _ start =>
    refine ⟨c, cs, rfl, ?_⟩
    simp only [startsNumeral, Bool.or_eq_true, Bool.and_eq_true, beq_iff_eq] at start
    rcases start with digit | ⟨rfl, -⟩
    · exact part (by simp [isWordPart, Char.isAlphanum, digit])
    · decide
  | @literal quote inner _ _ mark =>
    exact ⟨quote, _, rfl, by rcases mark with rfl | rfl <;> decide⟩
  | @symbol c _ mem =>
    have all : symbols.all (fun c => !Text.isBlank c) = true := by decide
    exact ⟨c, [], rfl, by simpa using List.all_eq_true.1 all c mem⟩
  | lineComment => exact ⟨'/', _, rfl, by decide⟩
  | blockComment => exact ⟨'/', _, rfl, by decide⟩

end Stands

end Lexeme

end SchemaDepot
