import SchemaDepot.Proofs.Text.Utf8
import SchemaDepot.Toml.Quoted

/-! # Quoted texts are read back

A text is written in one of four forms of quotes, whichever needs the fewest escapes. Whatever
characters it has, what is between the quotes is read as the text: quotes that are not escaped are
too few to close, and at the end they are told from those that do.

* `Quoted.Writes`: characters stand for others between quotes of a form.
* `Quoted.body_of_writes`: they are read as these, up to the quotes that close.
* `Quoted.writes_escape`, `Quoted.writes_self`: texts with escapes, and those without.
* `Quoted.decode_encode`: a quoted text is read back. -/

namespace SchemaDepot.Toml.Quoted

variable {f : Form} {c : Char} {cs w rest : List Char}

/-- How many quotes may stand without an escape one behind the other. -/
def Form.most (f : Form) : Nat := if f.isLong then 2 else 0

/-- Characters `w` between quotes of a form stand for a text, where at most `room` quotes may stand
in front without an escape. -/
inductive Writes (f : Form) : Nat → List Char → List Char → Prop where
  | nil (room : Nat) : Writes f room [] []
  | quote {room : Nat} {w cs : List Char} :
      (∀ rest, piece? f (f.quote :: rest) = some ([f.quote], rest)) → Writes f room w cs →
      Writes f (room + 1) (f.quote :: w) (f.quote :: cs)
  | piece (room : Nat) (p : List Char) {w cs : List Char} {c : Char} :
      p ≠ [] → p.head? ≠ some f.quote →
      (∀ rest, piece? f (p ++ rest) = some ([c], rest)) → Writes f f.most w cs →
      Writes f room (p ++ w) (c :: cs)

/-! ### Reading -/

/-- How many quotes stand in front. -/
def leading (f : Form) (cs : List Char) : Nat := (cs.takeWhile (· == f.quote)).length

theorem leading_of_head?_ne (h : cs.head? ≠ some f.quote) : leading f cs = 0 := by
  cases cs with
  | nil => rfl
  | cons c cs =>
    have other : (c == f.quote) = false := by simpa using h
    rw [leading, List.takeWhile_cons_of_neg (by simp [other])]
    rfl

theorem leading_cons (cs : List Char) : leading f (f.quote :: cs) = leading f cs + 1 := by
  rw [leading, List.takeWhile_cons_of_pos (by simp)]
  rfl

theorem leading_replicate (k : Nat) (cs : List Char) :
    leading f (List.replicate k f.quote ++ cs) = k + leading f cs := by
  induction k with
  | zero => rw [List.replicate_zero, List.nil_append, Nat.zero_add]
  | succ k ih =>
    rw [List.replicate_succ, List.cons_append, leading_cons, ih]
    omega

/-- How many quotes close. -/
def Form.count (f : Form) : Nat := if f.isLong then 3 else 1

theorem leading_delimiter (h : rest.head? ≠ some f.quote) :
    leading f (f.delimiter ++ rest) = f.count := by
  rw [Form.delimiter, leading_replicate, leading_of_head?_ne h, Nat.add_zero, Form.count]

/-- The quotes in front are those that may stand there, or the closing ones are among them. -/
theorem leading_of_writes {room : Nat} (hw : Writes f room w cs) (h : rest.head? ≠ some f.quote) :
    leading f (w ++ (f.delimiter ++ rest)) ≤ room ∨
      f.count ≤ leading f (w ++ (f.delimiter ++ rest)) ∧
      leading f (w ++ (f.delimiter ++ rest)) ≤ f.count + room := by
  induction hw with
  | nil room =>
    rw [List.nil_append, leading_delimiter h]
    omega
  | quote _ _ ih =>
    rw [List.cons_append, leading_cons]
    omega
  | @piece room p w cs c filled first _ _ _ =>
    rw [List.append_assoc, leading_of_head?_ne]
    · omega
    · rwa [List.head?_append_of_ne_nil _ filled]

theorem closing?_eq (f : Form) (cs : List Char) : closing? f cs =
    if leading f cs < f.count then none
    else if f.isLong then some (List.replicate (min (leading f cs) 5 - 3) f.quote,
      cs.drop (min (leading f cs) 5))
    else some ([], cs.drop 1) := by
  rw [closing?, Form.count]
  show (if f.isLong then if 3 ≤ leading f cs then _ else _
    else if 1 ≤ leading f cs then _ else _) = _
  split_ifs <;> first | rfl | omega

theorem closing?_delimiter (h : rest.head? ≠ some f.quote) :
    closing? f (f.delimiter ++ rest) = some ([], rest) := by
  rw [closing?_eq, leading_delimiter h, if_neg (Nat.lt_irrefl _), Form.count, Form.delimiter]
  cases f.isLong <;> rfl

/-- Where quotes close, one more in front belongs to the text, if it is not the sixth. -/
theorem closing?_quote (long : f.isLong = true) (few : leading f cs ≤ 4) {last : List Char}
    (h : closing? f cs = some (last, rest)) :
    closing? f (f.quote :: cs) = some (f.quote :: last, rest) := by
  rw [closing?_eq, if_pos long] at h ⊢
  split_ifs at h with enough
  cases h
  have count : f.count = 3 := if_pos long
  have most : min (leading f cs) 5 = leading f cs := by omega
  have next : min (leading f cs + 1) 5 = leading f cs + 1 := by omega
  have more : leading f cs + 1 - 3 = leading f cs - 3 + 1 := by omega
  rw [leading_cons, if_neg (by omega), most, next, more, List.replicate_succ, List.drop_succ_cons]

theorem body?_of_closing {last : List Char} (h : closing? f cs = some (last, rest)) {n : Nat}
    (hn : 0 < n) : body? f n cs = some (last, rest) := by
  obtain ⟨n, rfl⟩ := Nat.exists_eq_add_of_lt hn
  rw [Nat.zero_add, body?, h]

theorem body?_of_piece {c : Char} {p text : List Char} {n : Nat}
    (few : leading f (p ++ cs) < f.count) (h : piece? f (p ++ cs) = some ([c], cs))
    (more : body? f n cs = some (text, rest)) :
    body? f (n + 1) (p ++ cs) = some (c :: text, rest) := by
  rw [body?, closing?_eq, if_pos few]
  simp only [h, more, bind, Option.bind_some]
  rfl

/-- **What is between quotes is read as the text that it stands for.** -/
theorem body_of_writes {room : Nat} (hw : Writes f room w cs) (hroom : room ≤ f.most)
    (h : rest.head? ≠ some f.quote) {n : Nat} (hn : w.length < n) :
    body? f n (w ++ (f.delimiter ++ rest)) = some (cs, rest) := by
  induction hw generalizing n with
  | nil room => exact body?_of_closing (closing?_delimiter h) (by omega)
  | @quote room w cs reads hw ih =>
    rw [List.length_cons] at hn
    obtain ⟨n, rfl⟩ : ∃ m, n = m + 1 := ⟨n - 1, by omega⟩
    have long : f.isLong = true := by
      by_contra short
      rw [Form.most, if_neg short] at hroom
      omega
    have count : f.count = 3 := if_pos long
    have most : f.most = 2 := if_pos long
    have front := leading_of_writes hw h
    have read := @ih (by omega) n (by omega)
    cases hc : closing? f (w ++ (f.delimiter ++ rest)) with
    | some closed =>
      obtain ⟨last, left⟩ := closed
      rw [body?_of_closing hc (by omega)] at read
      cases read
      exact body?_of_closing (closing?_quote long (by omega) hc) (by omega)
    | none =>
      have few : leading f (w ++ (f.delimiter ++ rest)) < f.count := by
        by_contra enough
        rw [closing?_eq, if_neg enough, if_pos long] at hc
        cases hc
      refine @body?_of_piece f _ rest _ [f.quote] cs n ?_ (reads _) read
      show leading f (f.quote :: (w ++ (f.delimiter ++ rest))) < f.count
      rw [leading_cons]
      omega
  | @piece room p w cs c filled first reads hw ih =>
    have shorter : w.length + 1 ≤ (p ++ w).length := by
      have := List.length_pos_of_ne_nil filled
      rw [List.length_append]
      omega
    obtain ⟨n, rfl⟩ : ∃ m, n = m + 1 := ⟨n - 1, by omega⟩
    rw [List.append_assoc]
    refine body?_of_piece ?_ (reads _) (ih (Nat.le_refl _) (by omega))
    rw [leading_of_head?_ne (by rwa [List.head?_append_of_ne_nil _ filled]), Form.count]
    split_ifs <;> omega

/-! ### Writing -/

/-- A character that stands for itself. -/
theorem piece?_self (plain : isPlain c = true ∨ f.isLong = true ∧ c = '\n')
    (free : f.escapes = true → c ≠ '\\') (rest : List Char) :
    piece? f (c :: rest) = some ([c], rest) := by
  have bare : (f.escapes && c == '\\') = false := by
    rw [Bool.and_eq_false_imp]
    exact fun h => beq_eq_false_iff_ne.2 (free h)
  simp only [piece?, bare, Bool.false_eq_true, if_false]
  rcases plain with plain | ⟨long, rfl⟩
  · rw [if_pos plain]
  · rw [if_neg (by decide), if_pos long]
    rfl

/-- A backslash escapes unless the line ends behind it. -/
theorem piece?_escaped (esc : f.escapes = true) {cs : List Char}
    (here : (newline? (skipSpaces cs)).isSome = false) :
    piece? f ('\\' :: cs) = (escaped? cs).map fun (c, rest) => ([c], rest) := by
  simp [piece?, esc, here]

theorem hexNumber?_hexDigit : ∀ n < 128,
    Text.hexNumber? 16 ['0', '0', hexDigit (n / 16), hexDigit (n % 16)] = some n := by
  decide +kernel

/-- A control is read back from its code point. -/
theorem escaped?_hexDigits (low : c.toNat < 128) (rest : List Char) :
    escaped? ('u' :: '0' :: '0' :: hexDigit (c.toNat / 16) :: hexDigit (c.toNat % 16) :: rest) =
      some (c, rest) := by
  rw [escaped?, Text.codePoint?]
  simp only [List.take_succ_cons, List.take_zero, List.drop_succ_cons, List.drop_zero,
    List.length_cons, List.length_nil, hexNumber?_hexDigit _ low, Text.charOf?_toNat, bind,
    Option.bind_some]
  rfl

/-- **A character is read back from its escape.** -/
theorem piece?_escapeChar (esc : f.escapes = true) (c : Char) (rest : List Char) :
    piece? f (escapeChar f.isLong c ++ rest) = some ([c], rest) := by
  unfold escapeChar
  split_ifs with h1 h2 h3 long h4 h5 h6 plain
  · subst h1; exact piece?_escaped esc rfl
  · subst h2; exact piece?_escaped esc rfl
  · subst h3; exact piece?_self (Or.inr ⟨long, rfl⟩) (fun _ => by decide) rest
  · subst h3; exact piece?_escaped esc rfl
  · subst h4; exact piece?_escaped esc rfl
  · subst h5; exact piece?_escaped esc rfl
  · subst h6; exact piece?_escaped esc rfl
  · exact piece?_self (Or.inl plain) (fun _ => h6) rest
  · refine (piece?_escaped esc rfl).trans (congrArg (Option.map _) (escaped?_hexDigits ?_ rest))
    have control : isPlain c = false := eq_false_of_ne_true plain
    simp only [isPlain, Bool.or_eq_false_iff, Bool.and_eq_false_imp, decide_eq_true_eq,
      bne_eq_false_iff_eq] at control
    omega

theorem escapeChar_ne_nil (isLong : Bool) (c : Char) : escapeChar isLong c ≠ [] := by
  unfold escapeChar
  split_ifs <;> exact List.cons_ne_nil _ _

/-- An escape begins with a backslash, and what is none with the character. -/
theorem head?_escapeChar (isLong : Bool) (c : Char) :
    (escapeChar isLong c).head? = some '\\' ∨
      (escapeChar isLong c).head? = some c ∧ (isPlain c = true ∨ c = '\n') := by
  unfold escapeChar
  split_ifs <;> simp [*]

/-- **Texts with escapes.** -/
theorem writes_escape (esc : f.escapes = true) (run : Nat) (cs : List Char) :
    Writes f (f.most - run) (escape f.isLong f.most run cs) cs := by
  have double : f.quote = '"' := of_decide_eq_true esc
  induction cs generalizing run with
  | nil => exact .nil _
  | cons c cs ih =>
    rw [escape]
    split_ifs with quote few
    · have room : f.most - run = f.most - (run + 1) + 1 := by omega
      rw [quote, room, ← double]
      refine .quote (fun rest => ?_) (ih (run + 1))
      rw [double]
      exact piece?_self (Or.inl (by decide)) (fun _ => by decide) rest
    · refine .piece _ ['\\', '"'] (List.cons_ne_nil _ _) (by simp [double]) (fun rest => ?_)
        (ih 0)
      rw [quote]
      exact piece?_escaped esc rfl
    · refine .piece _ _ (escapeChar_ne_nil _ c) ?_ (piece?_escapeChar esc c) (ih 0)
      rw [double]
      rcases head?_escapeChar f.isLong c with head | ⟨head, -⟩ <;> simp [head, quote]

theorem le_longestRun (c : Char) (run : Nat) (cs : List Char) : run ≤ longestRun c run cs := by
  induction cs generalizing run with
  | nil => exact Nat.le_refl _
  | cons d ds ih =>
    rw [longestRun]
    split_ifs
    · exact (Nat.le_succ run).trans (ih (run + 1))
    · exact Nat.le_max_left _ _

/-- **Texts without escapes**: no run of quotes in them is long enough to close. -/
theorem writes_self (esc : f.escapes = false) {run : Nat}
    (plain : ∀ c ∈ cs, isPlain c = true ∨ f.isLong = true ∧ c = '\n')
    (few : longestRun f.quote run cs ≤ f.most) : Writes f (f.most - run) cs cs := by
  induction cs generalizing run with
  | nil => exact .nil _
  | cons c cs ih =>
    obtain ⟨own, others⟩ := List.forall_mem_cons.1 plain
    have reads := piece?_self own fun h => absurd (h.symm.trans esc) Bool.false_ne_true.symm
    rw [longestRun] at few
    split_ifs at few with quote
    · have := le_longestRun f.quote (run + 1) cs
      have room : f.most - run = f.most - (run + 1) + 1 := by omega
      subst quote
      rw [room]
      exact .quote reads (ih others few)
    · exact .piece _ [c] (List.cons_ne_nil _ _) (by simpa using quote) reads
        (ih others ((Nat.le_max_right _ _).trans few))

/-! ### Forms -/

/-- What stands for a text between quotes of a form, but for a line end behind the opening ones. -/
def written (f : Form) (cs : List Char) : List Char :=
  if f.escapes then escape f.isLong f.most 0 cs else cs

/-- A form is one of the four, and what is written in it stands for the text. -/
structure Form.Suits (f : Form) (cs : List Char) : Prop where
  quote : f.quote = '"' ∨ f.quote = '\''
  writes : Writes f f.most (written f cs) cs
  /-- Only where the text has a line end, something else than a plain character can be first. -/
  first : ∀ c ∈ (written f cs).head?, isPlain c = true ∨ '\n' ∈ cs

theorem suits_of_escapes {f : Form} (esc : f.escapes = true) (cs : List Char) : f.Suits cs where
  quote := Or.inl (of_decide_eq_true esc)
  writes := by
    rw [written, if_pos esc]
    exact writes_escape esc 0 cs
  first c hc := by
    rw [written, if_pos esc] at hc
    cases cs with
    | nil => cases hc
    | cons d ds =>
      rw [escape] at hc
      split_ifs at hc
      · cases hc
        exact Or.inl (by decide)
      · cases hc
        exact Or.inl (by decide)
      · rw [List.head?_append_of_ne_nil _ (escapeChar_ne_nil _ d)] at hc
        rcases head?_escapeChar f.isLong d with head | ⟨head, plain | rfl⟩ <;> rw [head] at hc <;>
          cases hc
        · exact Or.inl (by decide)
        · exact Or.inl plain
        · exact Or.inr List.mem_cons_self

theorem suits_of_self {f : Form} (single : f.quote = '\'')
    (plain : ∀ c ∈ cs, isPlain c = true ∨ f.isLong = true ∧ c = '\n')
    (few : longestRun f.quote 0 cs ≤ f.most) : f.Suits cs := by
  have esc : f.escapes = false := decide_eq_false (by rw [single]; decide)
  have same : written f cs = cs := by rw [written, esc, if_neg Bool.false_ne_true]
  constructor
  case quote => exact Or.inr single
  case writes =>
    rw [same]
    exact writes_self esc plain few
  case first =>
    rw [same]
    intro c hc
    have mem := List.mem_of_mem_head? hc
    rcases plain c mem with plain | ⟨-, rfl⟩
    · exact Or.inl plain
    · exact Or.inr mem

theorem longestRun_of_notMem {c : Char} (h : c ∉ cs) : longestRun c 0 cs = 0 := by
  induction cs with
  | nil => rfl
  | cons d ds ih =>
    rw [List.mem_cons, not_or] at h
    rw [longestRun, if_neg (Ne.symm h.1), ih h.2, Nat.max_self]

theorem plain_of_bare (bare : (!cs.any needsEscape) = true) :
    ∀ c ∈ cs, isPlain c = true ∨ c = '\n' := by
  intro c hc
  rw [Bool.not_eq_true', List.any_eq_false] at bare
  have free := bare c hc
  rw [needsEscape] at free
  by_cases plain : isPlain c = true
  · exact Or.inl plain
  · simp only [plain, Bool.not_false, Bool.true_and, bne_iff_ne, ne_eq, not_not] at free
    exact Or.inr free

/-- **The form that a text is written in suits it.** -/
theorem suits_formOf (cs : List Char) : (formOf cs).Suits cs := by
  unfold formOf
  simp only
  split_ifs with h1 h2 h3 h4 h5
  · exact suits_of_escapes rfl cs
  · rw [Bool.and_eq_true, Bool.and_eq_true] at h2
    obtain ⟨⟨bare, single⟩, oneLine⟩ := h2
    have noQuote : '\'' ∉ cs := by simpa using single
    have noLine : '\n' ∉ cs := by simpa using oneLine
    refine suits_of_self rfl (fun c hc => ?_) (longestRun_of_notMem noQuote).le
    refine Or.inl ((plain_of_bare bare c hc).resolve_right ?_)
    rintro rfl
    exact noLine hc
  · exact suits_of_escapes rfl cs
  · rw [Bool.and_eq_true] at h4
    exact suits_of_self rfl (fun c hc => (plain_of_bare h4.1 c hc).imp_right fun h => ⟨rfl, h⟩)
      (of_decide_eq_true h4.2)
  · exact suits_of_escapes rfl cs
  · exact suits_of_escapes rfl cs

theorem opening?_short {q : Char} (h : q = '"' ∨ q = '\'') (hcs : ∀ ds, cs ≠ q :: q :: ds) :
    opening? (q :: cs) = some (⟨q, false⟩, cs) := by
  unfold opening?
  split
  case h_1 same =>
    obtain ⟨rfl, rfl⟩ := List.cons.inj same
    exact absurd rfl (hcs _)
  case h_2 same =>
    obtain ⟨rfl, rfl⟩ := List.cons.inj same
    rfl
  case h_3 same =>
    obtain ⟨rfl, rfl⟩ := List.cons.inj same
    exact absurd rfl (hcs _)
  case h_4 same =>
    obtain ⟨rfl, rfl⟩ := List.cons.inj same
    rfl
  case h_5 _ double _ single =>
    rcases h with rfl | rfl
    · exact absurd rfl (double cs)
    · exact absurd rfl (single cs)

theorem opening?_long {q : Char} (h : q = '"' ∨ q = '\'') (cs : List Char) :
    opening? (q :: q :: q :: cs) = some (⟨q, true⟩, (newline? cs).getD cs) := by
  rcases h with rfl | rfl <;> rfl

theorem newline?_of_plain (h : ∀ c ∈ cs.head?, isPlain c = true) : newline? cs = none := by
  unfold newline?
  split
  · exact absurd (h _ rfl) (by decide)
  · exact absurd (h _ rfl) (by decide)
  · rfl

theorem toList_encode (s : String) : (encode s).toList =
    (formOf s.toList).delimiter ++ (content (formOf s.toList) s.toList ++
      (formOf s.toList).delimiter) := by
  rw [encode, String.toList_ofList, List.append_assoc]

theorem exists_encode (s : String) :
    ∃ q cs, (encode s).toList = q :: cs ∧ (q = '"' ∨ q = '\'') := by
  have quote := (suits_formOf s.toList).quote
  have whole := toList_encode s
  generalize content (formOf s.toList) s.toList ++ (formOf s.toList).delimiter = rest at whole
  rw [Form.delimiter] at whole
  cases hlong : (formOf s.toList).isLong <;> rw [hlong] at whole <;> exact ⟨_, _, whole, quote⟩

theorem head?_of_writes (h : Writes f 0 w cs) : w.head? ≠ some f.quote := by
  generalize hroom : 0 = room at h
  cases h with
  | nil => nofun
  | quote => cases hroom
  | piece _ _ filled first =>
    rwa [List.head?_append_of_ne_nil _ filled]

/-- What the quotes of a form open. -/
theorem opening?_content {f : Form} (suits : f.Suits cs) (h : rest.head? ≠ some f.quote) :
    opening? (f.delimiter ++ (content f cs ++ (f.delimiter ++ rest))) = some (f,
      written f cs ++ (f.delimiter ++ rest)) := by
  have whole : content f cs =
      (if f.isLong && cs.contains '\n' then ['\n'] else []) ++ written f cs := rfl
  obtain ⟨q, isLong⟩ := f
  cases isLong with
  | false =>
    refine opening?_short suits.quote fun ds same => ?_
    have same : written ⟨q, false⟩ cs ++ q :: rest = q :: q :: ds := same
    cases hw : written ⟨q, false⟩ cs with
    | nil =>
      rw [hw, List.nil_append, List.cons.injEq] at same
      exact h (same.2 ▸ rfl)
    | cons c w =>
      have first := head?_of_writes suits.writes
      rw [hw, List.cons_append, List.cons.injEq] at same
      exact first (by rw [hw, same.1]; rfl)
  | true =>
    show opening? (q :: q :: q :: (content ⟨q, true⟩ cs ++ (Form.delimiter ⟨q, true⟩ ++ rest))) = _
    rw [opening?_long suits.quote, whole]
    by_cases mem : '\n' ∈ cs
    · have start : (true && cs.contains '\n') = true := by simpa using mem
      rw [if_pos start]
      rfl
    · have start : (true && cs.contains '\n') = false := by simpa using mem
      rw [start, if_neg Bool.false_ne_true, List.nil_append, newline?_of_plain]
      · rfl
      · intro c hc
        cases hw : written ⟨q, true⟩ cs with
        | nil =>
          rw [hw] at hc
          cases hc
          rcases suits.quote with rfl | rfl <;> decide
        | cons d w =>
          rw [hw] at hc
          refine (suits.first c ?_).resolve_right mem
          rw [hw]
          exact hc

/-- **A quoted text is read back.** -/
theorem decode_encode (s : String) {rest : List Char}
    (h : ∀ c ∈ rest.head?, c ≠ '"' ∧ c ≠ '\'') :
    decode? ((encode s).toList ++ rest) = some (s, rest) := by
  have suits := suits_formOf s.toList
  have next : rest.head? ≠ some (formOf s.toList).quote := by
    intro head
    obtain ⟨double, single⟩ := h _ head
    rcases suits.quote with quote | quote
    · exact double quote
    · exact single quote
  rw [toList_encode, List.append_assoc, List.append_assoc, decode?, opening?_content suits next]
  simp only [bind, Option.bind_some]
  rw [body_of_writes suits.writes (Nat.le_refl _) next]
  · simp
  · rw [List.length_append]
    omega

end SchemaDepot.Toml.Quoted
