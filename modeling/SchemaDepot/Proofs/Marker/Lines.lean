import Mathlib.Data.List.Forall2
import Mathlib.Data.List.ReduceOption
import Mathlib.Data.List.TakeWhile
import SchemaDepot.Marker
import SchemaDepot.Proofs.Token.Order

/-! # The marks of a comment

A mark is a place in a line where a marker stands. Which lines of a comment yield a directive, and
which one, is told by their marks alone.

* `Mark`, `Mark.StandsIn`: the parts of a mark, and where in a line it may stand.
* `Marker.partsAt_parts`, `Marker.exists_of_partsAt`: the parts behind an at sign are those of the
  mark there.
* `Marker.find_eq_none`, `Marker.find_eq_some`: a line is searched for its leftmost mark.
* `Marker.Tells`: what a line tells by its leftmost mark with a value; `Marker.Hides`: a mark with a
  blank value stands before that one.
* `Marker.extract_tells`: a comment yields what its lines tell, but for lines that hide it. -/

namespace SchemaDepot

/-! ### Trimming -/

namespace Text

theorem dropEndWhile_eq_nil {α : Type} {p : α → Bool} {xs : List α} :
    dropEndWhile p xs = [] ↔ ∀ x ∈ xs, p x = true := by
  rw [dropEndWhile, List.reverse_eq_nil_iff, List.dropWhile_eq_nil_iff]
  simp only [List.mem_reverse]

theorem trimChars_eq_nil {cs : List Char} : trimChars cs = [] ↔ ∀ c ∈ cs, isBlank c = true := by
  rw [trimChars, trimEndChars, dropEndWhile_eq_nil]
  refine ⟨fun h => List.dropWhile_eq_nil_iff.1 ?_, fun h c hc =>
    h c ((List.dropWhile_suffix _).subset hc)⟩
  -- what is left of the blanks in front starts with no blank
  by_contra hne
  exact absurd (h _ (List.head_mem hne)) (by simp [List.head_dropWhile_not isBlank hne])

/-- Trimming at the end leaves the blanks in front. -/
theorem trimEndChars_eq {cs : List Char} (h : trimChars cs ≠ []) :
    trimEndChars cs = cs.takeWhile isBlank ++ trimChars cs := by
  have split := List.takeWhile_append_dropWhile (p := isBlank) (l := cs)
  have ends : ((cs.dropWhile isBlank).reverse.dropWhile isBlank).isEmpty = false := by
    simpa [trimChars, trimEndChars, dropEndWhile] using h
  conv_lhs => rw [← split]
  rw [trimEndChars, dropEndWhile, List.reverse_append, List.dropWhile_append, ends,
    if_neg Bool.false_ne_true, List.reverse_append, List.reverse_reverse]
  rfl

end Text

/-! ### Marks -/

/-- A marker in a line: what stands before its at sign, its namespace, its option, its value as
written, and what stands behind it. -/
structure Mark where
  before : List Char
  space : List Char
  option : List Char
  value : List Char
  after : List Char

/-- A namespace that counts: the one that is prescribed, or any if there is none. -/
def Marker.Accepts (m : Marker) (space : List Char) : Prop :=
  match (m.space.getD "").toList with
  | [] => space ≠ [] ∧ ∀ c ∈ space, isSpacePart c = true
  | wanted => space = wanted

namespace Mark

/-- What stands behind the at sign, up to the end of the value. -/
def tail (k : Mark) : List Char := k.space ++ ':' :: k.option ++ ':' :: k.value

/-- The parts of the mark behind its at sign. -/
def parts (k : Mark) : Marker.Parts := ⟨k.space ++ ':' :: k.option ++ [':'], k.option, k.value⟩

/-- The value is blank. -/
def IsBlank (k : Mark) : Prop := ∀ c ∈ k.value, Text.isBlank c = true

/-- The mark has a namespace that counts, an option without colons and blanks, and as its value the
longest run without colons and ends of lines. -/
structure Reads (m : Marker) (k : Mark) : Prop where
  accepted : m.Accepts k.space
  option_ne_nil : k.option ≠ []
  option : ∀ c ∈ k.option, c ≠ ':' ∧ Text.isBlank c = false
  value_ne_nil : k.value ≠ []
  value : ∀ c ∈ k.value, c ≠ ':' ∧ c ≠ '\r' ∧ c ≠ '\n'
  ended : ∀ c ∈ k.after.head?, c = ':' ∨ c = '\r' ∨ c = '\n'

/-- The mark stands in the line, at its start or behind a character that could not continue a word;
`last` is the character before the line, if there is one. -/
structure StandsIn (m : Marker) (last : Option Char) (line : List Char) (k : Mark) : Prop where
  line_eq : line = k.before ++ '@' :: (k.tail ++ k.after)
  opens : ∀ c ∈ k.before.getLast?.or last, Marker.isSeparator c = true
  reads : k.Reads m

/-- The mark is one of those of which `P` holds, and none of these stands further left. -/
def IsLeftmost (P : Mark → Prop) (k : Mark) : Prop :=
  P k ∧ ∀ j, P j → k.before.length ≤ j.before.length

end Mark

namespace Marker

variable (m : Marker)

/-! ### The parts of a mark -/

theorem spaceAt_append {space rest : List Char} (h : m.Accepts space) :
    m.spaceAt (space ++ ':' :: rest) = some space := by
  unfold Accepts at h
  unfold spaceAt
  cases hw : (m.space.getD "").toList with
  | nil =>
    simp only [hw] at h ⊢
    obtain ⟨hne, hall⟩ := h
    have run : (space ++ ':' :: rest).takeWhile isSpacePart = space := by
      rw [List.takeWhile_append_of_pos hall, List.takeWhile_cons_of_neg (by decide),
        List.append_nil]
    simp only [run, List.isEmpty_iff, if_neg hne]
  | cons c wanted =>
    simp only [hw] at h ⊢
    subst h
    exact if_pos (List.isPrefixOf_iff_prefix.2 (List.prefix_append _ _))

theorem accepts_of_spaceAt {cs space : List Char} (h : m.spaceAt cs = some space) :
    m.Accepts space ∧ ∃ rest, cs = space ++ rest := by
  unfold spaceAt at h
  unfold Accepts
  cases hw : (m.space.getD "").toList with
  | nil =>
    simp only [hw] at h ⊢
    split_ifs at h with hne
    cases h
    exact ⟨⟨fun he => hne (List.isEmpty_iff.2 he), fun c hc => List.mem_takeWhile_imp hc⟩,
      cs.dropWhile isSpacePart, List.takeWhile_append_dropWhile.symm⟩
  | cons c wanted =>
    simp only [hw] at h ⊢
    split_ifs at h with front
    cases h
    obtain ⟨rest, hrest⟩ := List.isPrefixOf_iff_prefix.1 front
    exact ⟨rfl, rest, hrest.symm⟩

/-- Behind the at sign of a mark its parts are found. -/
theorem partsAt_parts {k : Mark} (h : k.Reads m) :
    m.partsAt (k.tail ++ k.after) = some k.parts := by
  have optionRun : (k.option ++ ':' :: (k.value ++ k.after)).takeWhile
      (fun c => c != ':' && !Text.isBlank c) = k.option := by
    rw [List.takeWhile_append_of_pos, List.takeWhile_cons_of_neg (by decide), List.append_nil]
    intro c hc
    simp [h.option c hc]
  have valueRun : (k.value ++ k.after).takeWhile
      (fun c => c != ':' && c != '\r' && c != '\n') = k.value := by
    rw [List.takeWhile_append_of_pos]
    · cases ha : k.after with
      | nil => exact List.append_nil _
      | cons c after =>
        have ended := h.ended c (by rw [ha]; rfl)
        rw [List.takeWhile_cons_of_neg, List.append_nil]
        rcases ended with rfl | rfl | rfl <;> decide
    · intro c hc
      simp [h.value c hc]
  have line : k.tail ++ k.after =
      k.space ++ ':' :: (k.option ++ ':' :: (k.value ++ k.after)) := by simp [Mark.tail]
  simp only [partsAt, line, m.spaceAt_append h.accepted, Option.bind_eq_bind, Option.bind_some,
    List.drop_left, optionRun, List.isEmpty_iff, if_neg h.option_ne_nil, valueRun,
    if_neg h.value_ne_nil]
  rfl

/-- Parts that are found behind an at sign are those of a mark. -/
theorem exists_of_partsAt {cs : List Char} {parts : Parts} (h : m.partsAt cs = some parts) :
    ∃ k : Mark, k.Reads m ∧ k.before = [] ∧ cs = k.tail ++ k.after ∧ parts = k.parts := by
  simp only [partsAt, Option.bind_eq_bind, Option.bind_eq_some_iff] at h
  obtain ⟨space, hspace, h⟩ := h
  obtain ⟨accepted, behind, rfl⟩ := m.accepts_of_spaceAt hspace
  rw [List.drop_left] at h
  split at h
  · next cs =>
    have optionSplit := List.takeWhile_append_dropWhile
      (p := fun c => c != ':' && !Text.isBlank c) (l := cs)
    have option : ∀ c ∈ cs.takeWhile (fun c => c != ':' && !Text.isBlank c),
        c ≠ ':' ∧ Text.isBlank c = false := fun c hc => by
      simpa using List.mem_takeWhile_imp hc
    generalize cs.takeWhile (fun c => c != ':' && !Text.isBlank c) = opt at h optionSplit option
    rw [← optionSplit, List.drop_left] at h
    split_ifs at h with hopt
    split at h
    · next rest hrest =>
      have valueSplit := List.takeWhile_append_dropWhile
        (p := fun c => c != ':' && c != '\r' && c != '\n') (l := rest)
      have value : ∀ c ∈ rest.takeWhile (fun c => c != ':' && c != '\r' && c != '\n'),
          c ≠ ':' ∧ c ≠ '\r' ∧ c ≠ '\n' := fun c hc => by
        simpa [and_assoc] using List.mem_takeWhile_imp hc
      have ended : ∀ c ∈ (rest.dropWhile (fun c => c != ':' && c != '\r' && c != '\n')).head?,
          c = ':' ∨ c = '\r' ∨ c = '\n' := fun c hc => by
        have := List.head?_dropWhile_not (fun c => c != ':' && c != '\r' && c != '\n') rest
        rw [hc] at this
        by_contra hnone
        simp_all
      split_ifs at h with hval
      cases h
      refine ⟨⟨[], space, opt, _, _⟩, ⟨accepted, fun he => hopt (List.isEmpty_iff.2 he), option,
        fun he => hval (List.isEmpty_iff.2 he), value, ended⟩, rfl, ?_, rfl⟩
      rw [Mark.tail, List.append_assoc _ _ (List.dropWhile _ _), List.cons_append, valueSplit,
        List.append_assoc, List.cons_append, ← hrest, optionSplit]
    · cases h
  · cases h

/-! ### The leftmost mark -/

/-- Whether a mark may start behind what stands before a line. -/
def opens (last : Option (Char × Position)) : Bool := (last.map Prod.fst).all isSeparator

theorem find_cons (last : Option (Char × Position)) (p : Position) (c : Char) (cs : List Char) :
    m.find last p (c :: cs) =
      match if c == '@' && opens last then m.partsAt cs else none with
      | some parts =>
        match last with
        | some ('@', q) => some (q, p, parts)
        | _ => some (p, p, parts)
      | none => m.find (some (c, p)) (p.advance c) cs := by
  rcases last with _ | ⟨d, q⟩ <;> rfl

/-- The parts at the front of a line are those of a mark that stands there. -/
theorem front_eq_some {last : Option (Char × Position)} {c : Char} {cs : List Char}
    {parts : Parts} :
    (if c == '@' && opens last then m.partsAt cs else none) = some parts ↔
      ∃ k : Mark, k.StandsIn m (last.map Prod.fst) (c :: cs) ∧ k.before = [] ∧
        parts = k.parts := by
  constructor
  · intro h
    split_ifs at h with hc
    simp only [Bool.and_eq_true, beq_iff_eq, opens, Option.all_eq_true] at hc
    obtain ⟨rfl, hopens⟩ := hc
    obtain ⟨k, reads, hbefore, rfl, hparts⟩ := m.exists_of_partsAt h
    exact ⟨k, ⟨by rw [hbefore]; rfl, by rw [hbefore]; exact hopens, reads⟩, hbefore, hparts⟩
  · rintro ⟨k, ⟨line, hopens, reads⟩, hbefore, rfl⟩
    rw [hbefore] at line hopens
    cases line
    have front : opens last = true := (Option.all_eq_true _ _).2 hopens
    rw [front, if_pos (by decide)]
    exact m.partsAt_parts reads

/-- A mark in a line that does not stand at its front stands behind its first character. -/
theorem standsIn_cons {last : Option Char} {c d : Char} {cs before : List Char} {k : Mark}
    (hbefore : k.before = d :: before) : k.StandsIn m last (c :: cs) ↔
      d = c ∧ ({ k with before } : Mark).StandsIn m (some c) cs := by
  have opening : (d :: before).getLast?.or last = before.getLast?.or (some d) := by
    rw [List.getLast?_cons]
    cases before.getLast? <;> rfl
  constructor
  · rintro ⟨line, hopens, reads⟩
    rw [hbefore] at line hopens
    rw [opening] at hopens
    cases line
    exact ⟨rfl, rfl, hopens, reads.accepted, reads.option_ne_nil, reads.option,
      reads.value_ne_nil, reads.value, reads.ended⟩
  · rintro ⟨rfl, line, hopens, reads⟩
    refine ⟨by rw [hbefore, line]; rfl, by rw [hbefore, opening]; exact hopens, reads.accepted,
      reads.option_ne_nil, reads.option, reads.value_ne_nil, reads.value, reads.ended⟩

/-- **Nothing is found exactly in a line without marks.** -/
theorem find_eq_none {last : Option (Char × Position)} {p : Position} {cs : List Char} :
    m.find last p cs = none ↔ ∀ k : Mark, ¬ k.StandsIn m (last.map Prod.fst) cs := by
  induction cs generalizing last p with
  | nil =>
    refine ⟨fun _ k hk => ?_, fun _ => rfl⟩
    have := hk.line_eq
    simp at this
  | cons c cs ih =>
    rw [find_cons]
    cases hfront : if c == '@' && opens last then m.partsAt cs else none with
    | some parts =>
      obtain ⟨k, hk, -⟩ := m.front_eq_some.1 hfront
      refine ⟨fun h => ?_, fun h => absurd hk (h k)⟩
      dsimp only at h
      split at h <;> cases h
    | none =>
      dsimp only
      rw [ih]
      constructor
      · intro h k hk
        cases hbefore : k.before with
        | nil =>
          have := m.front_eq_some.2 ⟨k, hk, hbefore, rfl⟩
          rw [hfront] at this
          cases this
        | cons d before => exact h _ ((m.standsIn_cons hbefore).1 hk).2
      · intro h k hk
        exact h { k with before := c :: k.before } ((m.standsIn_cons rfl).2 ⟨rfl, hk⟩)

/-- Behind `front`, `twin` is the at sign right before a mark if there is one, else nothing. -/
def Twins (front twin : List Char) : Prop :=
  twin = ['@'] ∨ twin = [] ∧ front.getLast? ≠ some '@'

theorem Twins.append_left {pre front twin : List Char} (h : Twins front twin)
    (hpre : front ++ twin = [] → pre.getLast? ≠ some '@') : Twins (pre ++ front) twin := by
  refine h.imp_right fun ⟨hnone, hfront⟩ => ⟨hnone, ?_⟩
  cases front with
  | nil => simpa using hpre (by simpa using hnone)
  | cons c front => rwa [List.getLast?_append_of_ne_nil _ (List.cons_ne_nil c front)]

/-- **What is found in a line is its leftmost mark.** Behind the character `last`, which stands at
`base`, a line stands at `p`. -/
theorem find_eq_some {last : Option (Char × Position)} {base p : Position} {cs : List Char}
    {start sign : Position} {parts : Parts} (h : m.find last p cs = some (start, sign, parts))
    (hlast : ∀ d q, last = some (d, q) → q = base)
    (hp : p = base.advanceOver (last.map Prod.fst).toList) :
    ∃ k : Mark, Mark.IsLeftmost (·.StandsIn m (last.map Prod.fst) cs) k ∧ parts = k.parts ∧
      sign = p.advanceOver k.before ∧ ∃ front twin,
        (last.map Prod.fst).toList ++ k.before = front ++ twin ∧ Twins front twin ∧
          start = base.advanceOver front := by
  induction cs generalizing last base p with
  | nil => cases h
  | cons c cs ih =>
    rw [find_cons] at h
    cases hfront : if c == '@' && opens last then m.partsAt cs else none with
    | some found =>
      rw [hfront] at h
      dsimp only at h
      obtain ⟨k, hk, hbefore, rfl⟩ := m.front_eq_some.1 hfront
      refine ⟨k, ⟨hk, fun j _ => by rw [hbefore]; exact Nat.zero_le _⟩, ?_⟩
      rw [hbefore]
      split at h
      · next q _ =>
        cases h
        exact ⟨rfl, rfl, [], ['@'], rfl, Or.inl rfl, hlast _ _ rfl⟩
      · next hother =>
        cases h
        refine ⟨rfl, rfl, _, [], rfl, Or.inr ⟨rfl, ?_⟩, hp⟩
        rcases last with _ | ⟨d, q⟩
        · simp
        · have hd : d ≠ '@' := fun hd => hother q (by rw [hd])
          simpa using hd
    | none =>
      rw [hfront] at h
      obtain ⟨k, ⟨hk, hleft⟩, hparts, hsign, front, twin, hbefore, htwin, hstart⟩ :=
        ih h (by rintro _ _ ⟨⟩; rfl) rfl
      refine ⟨{ k with before := c :: k.before }, ⟨(m.standsIn_cons rfl).2 ⟨rfl, hk⟩, ?_⟩, hparts,
        hsign, (last.map Prod.fst).toList ++ front, twin, ?_, ?_, ?_⟩
      · intro j hj
        cases hbefore : j.before with
        | nil =>
          have := m.front_eq_some.2 ⟨j, hj, hbefore, rfl⟩
          rw [hfront] at this
          cases this
        | cons d before =>
          have := hleft _ ((m.standsIn_cons hbefore).1 hj).2
          simpa using this
      · rw [List.append_assoc, ← hbefore]
        rfl
      · exact htwin.append_left fun hnil => absurd (hbefore.trans hnil) (List.cons_ne_nil _ _)
      · rw [Position.advanceOver_append, ← hp]
        exact hstart

/-! ### What lines tell -/

/-- Two marks at one place of a line have the same parts. -/
theorem parts_eq {last : Option Char} {line : List Char} {j k : Mark}
    (hj : j.StandsIn m last line) (hk : k.StandsIn m last line)
    (h : j.before.length = k.before.length) : j.parts = k.parts := by
  have tails := (List.append_inj (hj.line_eq.symm.trans hk.line_eq) h).2
  have found := m.partsAt_parts hj.reads
  rw [(List.cons.inj tails).2, m.partsAt_parts hk.reads] at found
  exact (Option.some.inj found).symm

/-- What a line tells: the option and the value of its leftmost mark with a value that is not
blank, or nothing if it has none. -/
def Tells (line : List Char) : Option (String × String) → Prop
  | none => ∀ k : Mark, k.StandsIn m none line → k.IsBlank
  | some (option, value) => ∃ k : Mark,
      Mark.IsLeftmost (fun k => k.StandsIn m none line ∧ ¬ k.IsBlank) k ∧
        option = String.ofList k.option ∧ value = String.ofList (Text.trimChars k.value)

/-- The leftmost mark of the line has a blank value, and another one has not. -/
def Hides (line : List Char) : Prop :=
  ∃ k : Mark, Mark.IsLeftmost (·.StandsIn m none line) k ∧ k.IsBlank ∧
    ∃ j : Mark, j.StandsIn m none line ∧ ¬ j.IsBlank

/-- The option and the value of a directive. -/
def said (d : Directive) : String × String := (d.option, d.value)

theorem ofLine_of_find {p start sign : Position} {line : List Char} {k : Mark}
    (h : m.find none p line = some (start, sign, k.parts)) :
    (k.IsBlank → m.ofLine p line = none) ∧ (¬ k.IsBlank → m.ofLine p line =
      some ⟨String.ofList k.option, String.ofList (Text.trimChars k.value),
        Span.between start (sign.advanceOver ('@' :: k.space ++ ':' :: k.option ++ [':'] ++
          Text.trimEndChars k.value))⟩) := by
  have blank : (Text.trimChars k.value).isEmpty = true ↔ k.IsBlank := by
    rw [List.isEmpty_iff, Text.trimChars_eq_nil]
    rfl
  simp only [ofLine, h, Option.bind_eq_bind, Option.bind_some]
  constructor
  · intro hk
    exact if_pos (blank.2 hk)
  · intro hk
    exact (if_neg fun he => hk (blank.1 he)).trans (by simp [Mark.parts])

/-- **A line yields what it tells**, or nothing if it hides that. -/
theorem ofLine_tells (p : Position) (line : List Char) :
    (m.Hides line → m.ofLine p line = none) ∧
      (¬ m.Hides line → m.Tells line ((m.ofLine p line).map said)) := by
  cases hfind : m.find none p line with
  | none =>
    have bare := m.find_eq_none.1 hfind
    have nothing : m.ofLine p line = none := by simp [ofLine, hfind]
    rw [nothing]
    exact ⟨fun _ => rfl, fun _ k hk => absurd hk (bare k)⟩
  | some found =>
    obtain ⟨start, sign, parts⟩ := found
    obtain ⟨k, ⟨hk, hleft⟩, rfl, -⟩ :=
      m.find_eq_some hfind (by rintro _ _ ⟨⟩) rfl
    obtain ⟨ofBlank, ofFilled⟩ := m.ofLine_of_find hfind
    by_cases blank : k.IsBlank
    · rw [ofBlank blank]
      refine ⟨fun _ => rfl, fun hhides j hj => ?_⟩
      by_contra hblank
      exact hhides ⟨k, ⟨hk, hleft⟩, blank, j, hj, hblank⟩
    · rw [ofFilled blank]
      constructor
      · rintro ⟨j, ⟨hj, hleftj⟩, blankj, -⟩
        -- both are leftmost, so they are one mark
        have same := m.parts_eq hj hk (Nat.le_antisymm (hleftj k hk) (hleft j hj))
        have value : j.value = k.value := congrArg Parts.value same
        exact absurd (fun c hc => blankj c (value ▸ hc)) blank
      · exact fun _ => ⟨k, ⟨⟨hk, blank⟩, fun j hj => hleft j hj.1⟩, rfl, rfl⟩

end Marker

/-! ### Comments -/

/-- The lines of a comment that count: of a line comment only the first. -/
def Comment.lines (c : Comment) : List (List Char) :=
  match c.kind with
  | .line => (Text.splitAt '\n' c.text.toList).take 1
  | .block => Text.splitAt '\n' c.text.toList

namespace Marker

variable (m : Marker)

/-- The point where the text of a comment starts, behind the two characters that open it. -/
def textStart (c : Comment) : Position :=
  ⟨c.span.start.line, c.span.start.column + 2, c.span.start.offset + 2⟩

theorem extract_eq (c : Comment) : m.extract c = m.ofLines (textStart c) c.lines := rfl

/-- **The directives of lines**, one for each line that tells something, unless it hides that. -/
theorem ofLines_tells (p : Position) (lines : List (List Char)) :
    ∃ found : List (Option (String × String)),
      List.Forall₂ (fun line one => (m.Hides line → one = none) ∧
        (¬ m.Hides line → m.Tells line one)) lines found ∧
      (m.ofLines p lines).map said = found.reduceOption := by
  induction lines generalizing p with
  | nil => exact ⟨[], .nil, rfl⟩
  | cons line lines ih =>
    obtain ⟨found, hfound, heq⟩ := ih ((p.advanceOver line).advance '\n')
    obtain ⟨hidden, told⟩ := m.ofLine_tells p line
    refine ⟨(m.ofLine p line).map said :: found, .cons ⟨fun h => ?_, told⟩ hfound, ?_⟩
    · rw [hidden h]
      rfl
    · rw [ofLines, List.map_append, heq]
      cases m.ofLine p line with
      | none => rw [Option.map_none, List.reduceOption_cons_of_none]; rfl
      | some d => rw [Option.map_some, List.reduceOption_cons_of_some]; rfl

/-- **A comment yields one directive for each line that tells something**, from top to bottom, but
for lines that hide it behind a mark with a blank value: these yield nothing. -/
theorem extract_tells (m : Marker) (c : Comment) :
    ∃ found : List (Option (String × String)),
      List.Forall₂ (fun line one => (m.Hides line → one = none) ∧
        (¬ m.Hides line → m.Tells line one)) c.lines found ∧
      (m.extract c).map said = found.reduceOption :=
  m.ofLines_tells (textStart c) c.lines

/-- A line comment with a mark whose value is blank, and another one behind it. -/
def hidingComment : Comment :=
  ⟨.line, .leading, " @x:a: :@x:b:c", Span.point Position.origin⟩

/-- **Not every line with a mark yields a directive.** -/
theorem exists_mark_hidden : ¬ ∀ (m : Marker) (c : Comment),
    ∃ found : List (Option (String × String)), List.Forall₂ m.Tells c.lines found ∧
      (m.extract c).map said = found.reduceOption := by
  intro h
  obtain ⟨found, told, heq⟩ := h ⟨some "x"⟩ hidingComment
  have nothing : Marker.extract ⟨some "x"⟩ hidingComment = [] := by decide +kernel
  have single : hidingComment.lines = [" @x:a: :@x:b:c".toList] := by decide +kernel
  rw [single, List.forall₂_cons_left_iff] at told
  obtain ⟨one, rest, tells, -, rfl⟩ := told
  rw [nothing] at heq
  cases one with
  | some d => rw [List.reduceOption_cons_of_some] at heq; cases heq
  | none =>
    -- the second mark of the line
    have stands : Mark.StandsIn ⟨some "x"⟩ none " @x:a: :@x:b:c".toList
        ⟨" @x:a: :".toList, ['x'], ['b'], ['c'], []⟩ :=
      ⟨by decide, by rintro _ ⟨⟩; decide, rfl, by decide,
        fun c hc => by rw [List.mem_singleton.1 hc]; decide, by decide, by simp, by simp⟩
    exact absurd (tells _ stands 'c' (List.mem_singleton_self _)) (by decide)

end Marker

end SchemaDepot
