import SchemaDepot.Proofs.Marker.Lines
import SchemaDepot.Proofs.Schema.Points

/-! # The places of directives

A directive is spelled in the text of its comment, and its span says where: it ends with the value
and starts at the at sign, or at another at sign right before that.

* `Position.After`: the line, the column and the offset behind the front of a text.
* `Directive.Spelled`: how a directive is written; `Directive.LiesIn`: where among characters.
* `Marker.ofLine_liesIn`, `Marker.extract_liesIn`: directives of a line and of a comment.
* `Token.scan_slices`: every token is a slice of its text.
* `Schema.parse_places`: the directives of the tree of a text. -/

namespace SchemaDepot

open Position

/-! ### Points -/

/-- The point behind the characters at the front of a text: lines and columns are counted from 1,
columns in characters, and the offset is the number of bytes in UTF-8. -/
structure Position.After (front : List Char) (p : Position) : Prop where
  line : p.line = front.count '\n' + 1
  column : p.column = (front.reverse.takeWhile (· != '\n')).length + 1
  offset : p.offset = String.utf8Len front

theorem Position.after_origin (front : List Char) : (origin.advanceOver front).After front := by
  refine ⟨?_, ?_, ?_⟩
  · rw [advanceOver_line, Nat.add_comm]
    rfl
  · induction front using List.reverseRecOn with
    | nil => rfl
    | append_singleton front c ih =>
      rw [advanceOver_append, List.reverse_append]
      show ((origin.advanceOver front).advance c).column = _
      by_cases hc : c = '\n'
      · simp [advance, hc]
      · simp [advance, hc, ih]
  · rw [advanceOver_offset]
    exact Nat.zero_add _

/-! ### Lines -/

/-- The characters spell the directive: an at sign, a namespace that counts, a colon, the option, a
colon, blanks or none, and the value. -/
def Directive.Spelled (m : Marker) (d : Directive) (cs : List Char) : Prop :=
  ∃ space gap, m.Accepts space ∧ (∀ c ∈ gap, Text.isBlank c = true) ∧
    cs = '@' :: space ++ ':' :: d.option.toList ++ ':' :: gap ++ d.value.toList

/-- The directive is spelled among characters that stand at `p`, behind `front` and `twin`. Its span
goes from the end of `front` to that of the spelling. -/
def Directive.LiesIn (m : Marker) (p : Position) (cs front twin : List Char) (d : Directive) :
    Prop :=
  ∃ mark behind, cs = front ++ twin ++ mark ++ behind ∧ d.Spelled m mark ∧
    d.span = ⟨p.advanceOver front, p.advanceOver (front ++ twin ++ mark)⟩

theorem Directive.LiesIn.within {m : Marker} {p : Position} {pre cs front twin : List Char}
    {d : Directive} (h : d.LiesIn m (p.advanceOver pre) cs front twin) (post : List Char) :
    d.LiesIn m p (pre ++ cs ++ post) (pre ++ front) twin := by
  obtain ⟨mark, behind, rfl, spelled, hspan⟩ := h
  refine ⟨mark, behind ++ post, by simp, spelled, ?_⟩
  rw [hspan, ← advanceOver_append, ← advanceOver_append]
  simp

namespace Marker

variable (m : Marker)

/-- The directive of a line lies at a mark, or at the at sign right before one. -/
theorem ofLine_liesIn {p : Position} {line : List Char} {d : Directive}
    (h : m.ofLine p line = some d) :
    ∃ front twin, Twins front twin ∧ d.LiesIn m p line front twin := by
  cases hfind : m.find none p line with
  | none =>
    rw [ofLine, hfind] at h
    cases h
  | some found =>
    obtain ⟨start, sign, parts⟩ := found
    obtain ⟨k, ⟨hk, -⟩, rfl, rfl, front, twin, hbefore, htwin, rfl⟩ :=
      m.find_eq_some hfind (by rintro _ _ ⟨⟩) rfl
    replace hbefore : k.before = front ++ twin := hbefore
    obtain ⟨ofBlank, ofFilled⟩ := m.ofLine_of_find hfind
    by_cases blank : k.IsBlank
    · rw [ofBlank blank] at h
      cases h
    rw [ofFilled blank] at h
    cases h
    obtain ⟨gap, hgap, hvalue⟩ : ∃ gap, (∀ c ∈ gap, Text.isBlank c = true) ∧
        Text.trimEndChars k.value = gap ++ Text.trimChars k.value :=
      ⟨_, fun c hc => List.mem_takeWhile_imp hc,
        Text.trimEndChars_eq fun he => blank (Text.trimChars_eq_nil.1 he)⟩
    obtain ⟨cut, hcut⟩ := Text.dropEndWhile_prefix Text.isBlank k.value
    replace hcut : Text.trimEndChars k.value ++ cut = k.value := hcut
    refine ⟨front, twin, htwin,
      '@' :: k.space ++ ':' :: k.option ++ [':'] ++ Text.trimEndChars k.value, cut ++ k.after,
      ?_, ⟨k.space, gap, hk.reads.accepted, hgap, ?_⟩, ?_⟩
    · conv_lhs => rw [hk.line_eq, Mark.tail, hbefore, ← hcut]
      simp
    · simp [hvalue]
    · rw [← advanceOver_append, hbefore, Span.between_of_le]
      refine (Reaches.le ?_)
      exact advanceOver_reaches (by rw [List.append_assoc]; exact List.prefix_append _ _) p

/-- A directive of lines is that of one of them, behind whole lines. -/
theorem exists_line_of_mem_ofLines {p : Position} {lines : List (List Char)} {d : Directive}
    (h : d ∈ m.ofLines p lines) : ∃ pre line post,
      Text.joinWith '\n' lines = pre ++ line ++ post ∧ pre.getLast? ≠ some '@' ∧
        m.ofLine (p.advanceOver pre) line = some d := by
  induction lines generalizing p with
  | nil => cases h
  | cons line lines ih =>
    rcases List.mem_append.1 h with h | h
    · obtain ⟨post, hpost⟩ : line <+: Text.joinWith '\n' (line :: lines) := by
        cases lines with
        | nil => exact List.prefix_rfl
        | cons next lines => exact List.prefix_append _ _
      exact ⟨[], line, post, hpost.symm, by simp, Option.mem_toList.1 h⟩
    · obtain ⟨pre, line', post, hjoin, hlast, hd⟩ := ih h
      refine ⟨line ++ '\n' :: pre, line', post, ?_, ?_, ?_⟩
      · cases lines with
        | nil => cases h
        | cons next lines =>
          rw [Text.joinWith, hjoin]
          · simp
          · exact List.cons_ne_nil _ _
      · cases pre with
        | nil => simp
        | cons c pre =>
          rw [List.getLast?_append_of_ne_nil _ (List.cons_ne_nil _ _)]
          rwa [List.getLast?_cons_cons]
      · rw [advanceOver_append]
        exact hd

/-- **A directive lies in the text of its comment**, which stands behind two characters there. -/
theorem extract_liesIn {c : Comment} {mark : Char} (hmark : mark = '/' ∨ mark = '*')
    {d : Directive} (h : d ∈ m.extract c) : ∃ front twin, Twins front twin ∧
      d.LiesIn m (c.span.start.advanceOver ['/', mark]) c.text.toList front twin := by
  have behind : textStart c = c.span.start.advanceOver ['/', mark] := by
    rcases hmark with rfl | rfl <;> rfl
  obtain ⟨rest, hrest⟩ : Text.joinWith '\n' c.lines <+: c.text.toList := by
    unfold Comment.lines
    cases c.kind with
    | line => exact joinWith_take_prefix _
    | block => exact Text.joinWith_splitAt '\n' _ ▸ List.prefix_refl _
  rw [extract_eq, behind] at h
  obtain ⟨pre, line, post, hjoin, hlast, hd⟩ := m.exists_line_of_mem_ofLines h
  obtain ⟨front, twin, htwin, lies⟩ := m.ofLine_liesIn hd
  refine ⟨pre ++ front, twin, htwin.append_left fun _ => hlast, ?_⟩
  rw [← hrest, hjoin, List.append_assoc (pre ++ line)]
  exact lies.within _

end Marker

/-! ### Slices of a text -/

namespace Token

/-- Every token is a slice of the characters that are scanned. -/
theorem scanFrom_slices {p : Position} {cs : List Char} {ts : List Token} {final : Position}
    (h : scanFrom p cs = .ok (ts, final)) : ∀ t ∈ ts, ∃ before lexeme rest,
      cs = before ++ lexeme.source ++ rest ∧ Lexeme.read (lexeme.source ++ rest) = .ok lexeme ∧
        t = ofLexeme (p.advanceOver before) lexeme := by
  induction hn : cs.length using Nat.strongRecOn generalizing p cs ts with
  | ind n ih =>
    have split := List.takeWhile_append_dropWhile (p := Text.isBlank) (l := cs)
    rcases scanFrom_cases h with ⟨-, rfl, -⟩ | ⟨lexeme, us, -, hread, hlt, hus, rfl⟩
    · exact fun t ht => by cases ht
    · have body := source_append_rest hread
      rw [← body] at hread split
      refine List.forall_mem_cons.2 ⟨⟨_, lexeme, lexeme.rest, ?_, hread, rfl⟩, fun t ht => ?_⟩
      · rw [List.append_assoc, split]
      · obtain ⟨before, lexeme', rest, hcs, hread', rfl⟩ :=
          ih lexeme.rest.length (by omega) hus rfl t ht
        refine ⟨cs.takeWhile Text.isBlank ++ lexeme.source ++ before, lexeme', rest, ?_, hread', ?_⟩
        · conv_lhs => rw [← split, hcs]
          simp
        · rw [advanceOver_append, advanceOver_append]
          rfl

/-- **Every token is a slice of its text.** -/
theorem scan_slices {text : String} {ts : List Token} {final : Position}
    (h : scan text = .ok (ts, final)) : ∀ t ∈ ts, ∃ before lexeme rest,
      text.toList = before ++ lexeme.source ++ rest ∧
        Lexeme.read (lexeme.source ++ rest) = .ok lexeme ∧
          t = ofLexeme (origin.advanceOver before) lexeme := by
  by_cases marked : text.toList.head? = some '\uFEFF'
  · obtain ⟨cs, hcs⟩ := List.head?_eq_some_iff.1 marked
    rw [scan_of_mark hcs] at h
    intro t ht
    obtain ⟨before, lexeme, rest, rfl, hread, rfl⟩ := scanFrom_slices h t ht
    exact ⟨'\uFEFF' :: before, lexeme, rest, hcs, hread, rfl⟩
  · rw [scan_of_bare marked] at h
    exact scanFrom_slices h

end Token

/-! ### Trees -/

/-- The directive is spelled in a text, behind `front` and `twin`, and its span goes from the end of
`front` to that of the spelling. -/
def Directive.SpelledIn (m : Marker) (text front twin : List Char) (d : Directive) : Prop :=
  ∃ mark behind, text = front ++ twin ++ mark ++ behind ∧ d.Spelled m mark ∧
    d.span.start.After front ∧ d.span.stop.After (front ++ twin ++ mark)

theorem Directive.LiesIn.spelledIn {m : Marker} {text front twin : List Char} {d : Directive}
    (h : d.LiesIn m origin text front twin) : d.SpelledIn m text front twin := by
  obtain ⟨mark, behind, htext, spelled, hspan⟩ := h
  refine ⟨mark, behind, htext, spelled, ?_, ?_⟩
  · rw [hspan]
    exact after_origin _
  · rw [hspan]
    exact after_origin _

namespace Schema

open Token Placement

/-- A directive of a comment of a text lies in that comment and is spelled there. -/
theorem directive_places {text : String} {ts : List Token} {final : Position}
    (hscan : scan text = .ok (ts, final)) {t : Token} (ht : t ∈ ts) {c : Comment}
    (hkind : t.isComment) (hspan : c.span = t.span) (htext : c.text = t.text) {m : Marker}
    {d : Directive} (hd : d ∈ m.extract c) : d.span.Inside c.span.start c.span.stop ∧
      ∃ front twin, Marker.Twins front twin ∧ d.SpelledIn m text.toList front twin := by
  obtain ⟨before, lexeme, rest, hslice, hread, rfl⟩ := scan_slices hscan t ht
  obtain ⟨mark, tail, hmark, hsource⟩ := comment_source hread hkind
  rw [ofLexeme_span] at hspan
  replace htext : c.text = lexeme.value.2 := htext
  have hstop : c.span.stop =
      c.span.start.advanceOver ('/' :: mark :: c.text.toList ++ tail) := by
    rw [hspan, htext, hsource]
  refine ⟨m.extract_inside hmark hstop d hd, ?_⟩
  obtain ⟨front, twin, htwin, lies⟩ := m.extract_liesIn hmark hd
  refine ⟨before ++ ['/', mark] ++ front, twin, htwin.append_left fun _ => ?_, ?_⟩
  · rcases hmark with rfl | rfl <;> simp
  · rw [hspan] at lies
    rw [← advanceOver_append] at lies
    have := (lies.within (tail ++ rest)).spelledIn
    rw [hslice, hsource, ← htext]
    simpa using this

/-- **Directives stand where their spans say.** Each one comes from a comment of the tree and lies
in it. Its span ends with its value, and starts at the at sign before its namespace, or at another
at sign right before that; line, column and offset are those in the text. -/
theorem parse_places {m : Marker} {text : String} {root : Node} (h : parse m text = .ok root) :
    ∀ d ∈ root.allDirectives, ∃ c ∈ root.allComments, d ∈ m.extract c ∧
      d.span.Inside c.span.start c.span.stop ∧
        ∃ front twin, Marker.Twins front twin ∧ d.SpelledIn m text.toList front twin := by
  obtain ⟨ts, final, nodes, hscan, hrow, rfl⟩ := parse_ok h
  intro d hd
  rw [allDirectives_document m hrow final] at hd
  obtain ⟨c, hc, hd⟩ := List.mem_flatMap.1 hd
  have hmem : c.unplaced ∈ comments ts :=
    (allComments_document_perm m hrow final).mem_iff.1 (List.mem_map_of_mem hc)
  obtain ⟨t, ht, hct⟩ := mem_comments.1 hmem
  obtain ⟨hkind, hspan, -⟩ := comment?_eq_some hct
  exact ⟨c, hc, hd, directive_places hscan ht hkind hspan (comment?_text hct) hd⟩

/-- A comment in which a second at sign stands before a mark. -/
def twinText : String := "// @@x:a:b\nmessage A \x7b\x7d"

/-- The directive of `twinText`. -/
def twinDirective : Directive := ⟨"a", "b", ⟨⟨1, 4, 3⟩, ⟨1, 11, 10⟩⟩⟩

theorem exists_parse_twinText :
    ∃ root, parse {} twinText = .ok root ∧ twinDirective ∈ root.allDirectives := by
  have found : (parse {} twinText).toOption.map (·.allDirectives.contains twinDirective) =
      some true := by
    decide +kernel
  obtain ⟨root, hp, hd⟩ := exists_parse found
  exact ⟨root, hp, List.contains_iff_mem.1 hd⟩

theorem twinDirective_places : ∃ root, parse {} twinText = .ok root ∧
    ∃ c ∈ root.allComments, twinDirective ∈ Marker.extract {} c ∧
      twinDirective.span.Inside c.span.start c.span.stop ∧ ∃ front twin,
        Marker.Twins front twin ∧ twinDirective.SpelledIn {} twinText.toList front twin := by
  obtain ⟨root, hp, hd⟩ := exists_parse_twinText
  exact ⟨root, hp, parse_places hp twinDirective hd⟩

/-- **Not every directive starts at the at sign before its namespace.** -/
theorem exists_twin : ¬ ∀ (m : Marker) (text : String) (root : Node), parse m text = .ok root →
    ∀ d ∈ root.allDirectives, ∃ front, d.SpelledIn m text.toList front [] := by
  intro h
  obtain ⟨root, hp, hd⟩ := exists_parse_twinText
  obtain ⟨front, mark, behind, htext, ⟨space, gap, accepted, -, hmark⟩, hstart, hstop⟩ :=
    h _ _ _ hp _ hd
  rw [List.append_nil] at htext hstop
  -- the characters from the start to the end of the span
  have fronts : ∀ cs ∈ twinText.toList.inits,
      (String.utf8Len cs = 3 → cs = ['/', '/', ' ']) ∧ (String.utf8Len cs = 10 →
        cs = ['/', '/', ' ', '@', '@', 'x', ':', 'a', ':', 'b']) := by decide +kernel
  have hfront := (fronts front ((List.mem_inits _ _).2 ⟨mark ++ behind, by
    rw [htext, List.append_assoc]⟩)).1 hstart.offset.symm
  have hwhole := (fronts (front ++ mark) ((List.mem_inits _ _).2 ⟨behind, htext.symm⟩)).2
    hstop.offset.symm
  rw [hfront, hmark] at hwhole
  cases space with
  | nil => exact accepted.1 rfl
  | cons c space =>
    -- the second at sign would be the first character of the namespace
    have hc : c = '@' := by
      simp only [List.cons_append, List.nil_append, List.cons.injEq] at hwhole
      exact hwhole.2.2.2.2.1
    exact absurd (accepted.2 c List.mem_cons_self) (by rw [hc]; decide)

end Schema

end SchemaDepot
