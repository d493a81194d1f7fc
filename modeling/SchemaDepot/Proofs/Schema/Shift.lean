import SchemaDepot.Proofs.Schema.Comments
import SchemaDepot.Proofs.Schema.Move

/-! # Comments further on

A text that stands so many lines and bytes further on has the same comments and directives, and each
has its place on the same declaration.

* `Marker.extract_shift`: the directives of a comment.
* `Note.ofTokens_append`, `Note.ofTokens_resume`: the notes of tokens with others in front.
* `Placement.placeAll_resume`: placing such notes on declarations further on. -/

namespace SchemaDepot

variable {lines bytes : Nat}

/-! ### Directives -/

namespace Marker

variable (m : Marker)

theorem find_shift (lines bytes : Nat) (last : Option (Char × Position)) (p : Position)
    (cs : List Char) :
    m.find (last.map (Prod.map id (Position.shift lines bytes))) (p.shift lines bytes) cs =
      (m.find last p cs).map fun (start, sign, parts) =>
        (start.shift lines bytes, sign.shift lines bytes, parts) := by
  induction cs generalizing last p with
  | nil => rfl
  | cons c cs ih =>
    have next := ih (some (c, p)) (p.advance c)
    rw [← Position.shift_advance] at next
    -- whether a marker starts here does not depend on where this is
    cases last with
    | none =>
      simp only [Option.map_none, find]
      generalize (if (c == '@' && true) = true then m.partsAt cs else none) = found
      cases found with
      | none => exact next
      | some parts => rfl
    | some before =>
      obtain ⟨d, q⟩ := before
      simp only [Option.map_some, Prod.map, id, find]
      generalize (if (c == '@' && isSeparator d) = true then m.partsAt cs else none) = found
      cases found with
      | none => exact next
      | some parts =>
        by_cases hd : d = '@'
        · subst hd
          rfl
        · simp [hd]

theorem ofLine_shift (p : Position) (line : List Char) :
    m.ofLine (p.shift lines bytes) line =
      (m.ofLine p line).map (Directive.move (Position.shift lines bytes)) := by
  have found := m.find_shift lines bytes none p line
  rw [Option.map_none] at found
  simp only [ofLine, found]
  cases m.find none p line with
  | none => rfl
  | some place =>
    obtain ⟨start, sign, parts⟩ := place
    simp only [Option.map_some, bind, Option.bind, Position.shift_advanceOver,
      Position.shift_compatible start]
    split_ifs <;> rfl

theorem ofLines_shift (p : Position) (ls : List (List Char)) :
    m.ofLines (p.shift lines bytes) ls =
      (m.ofLines p ls).map (Directive.move (Position.shift lines bytes)) := by
  induction ls generalizing p with
  | nil => rfl
  | cons line ls ih =>
    rw [ofLines, ofLines, Position.shift_advanceOver, Position.shift_advance, ih, ofLine_shift,
      List.map_append]
    cases m.ofLine p line <;> rfl

/-- The directives of a comment further on. -/
theorem extract_shift (c : Comment) : m.extract (c.move (Position.shift lines bytes)) =
    (m.extract c).map (Directive.move (Position.shift lines bytes)) := by
  have start : (⟨c.span.start.line + lines, c.span.start.column + 2,
      c.span.start.offset + bytes + 2⟩ : Position) =
      Position.shift lines bytes
        ⟨c.span.start.line, c.span.start.column + 2, c.span.start.offset + 2⟩ := by
    simp only [Position.shift, Position.mk.injEq, true_and]
    omega
  unfold extract
  rw [← ofLines_shift, ← start]
  rfl

end Marker

/-! ### Notes -/

namespace Note

/-- The note further on, with other tokens in front, of which the last significant one ends at
`last`. -/
def resume (f : Position → Position) (last : Option Position) (x : Note) : Note :=
  ⟨x.comment.move f, (x.follows.map f).or last⟩

theorem comment?_move (f : Position → Position) (t : Token) :
    (t.move f).comment? = t.comment?.map (Comment.move f) := by
  obtain ⟨kind, text, span⟩ := t
  cases kind <;> rfl

theorem ofTokens_resume (f : Position → Position) (last : Option Position) (us : List Token) :
    ofTokens last (us.map (Token.move f)) = (ofTokens none us).map (resume f last) := by
  have resumed (seen : Option Position) : ofTokens ((seen.map f).or last) (us.map (Token.move f)) =
      (ofTokens seen us).map (resume f last) := by
    induction us generalizing seen with
    | nil => rfl
    | cons t us ih =>
      rw [List.map_cons, ofTokens, ofTokens, comment?_move]
      cases t.comment? with
      | none => exact ih (some t.span.stop)
      | some c => exact congrArg (List.cons _) (ih seen)
  exact resumed none

/-- Behind other tokens the notes follow the last significant one of these, as far as no significant
token comes before them. -/
theorem ofTokens_append (last : Option Position) (ts : List Token) :
    ∃ last', (last' = last ∨ ∃ t ∈ ts, last' = some t.span.stop) ∧
      ∀ us, ofTokens last (ts ++ us) = ofTokens last ts ++ ofTokens last' us := by
  induction ts generalizing last with
  | nil => exact ⟨last, Or.inl rfl, fun us => rfl⟩
  | cons t ts ih =>
    simp only [List.cons_append, ofTokens]
    cases t.comment? with
    | none =>
      obtain ⟨last', hlast, happend⟩ := ih (some t.span.stop)
      refine ⟨last', Or.inr ?_, happend⟩
      rcases hlast with rfl | ⟨u, hu, rfl⟩
      · exact ⟨t, List.mem_cons_self, rfl⟩
      · exact ⟨u, List.mem_cons_of_mem t hu, rfl⟩
    | some c =>
      obtain ⟨last', hlast, happend⟩ := ih last
      refine ⟨last', hlast.imp_right ?_, fun us => by simp only [happend, List.cons_append]⟩
      rintro ⟨u, hu, rfl⟩
      exact ⟨u, List.mem_cons_of_mem t hu, rfl⟩

variable {last : Option Position}

theorem startsBefore_resume (p : Position) (x : Note) :
    (x.resume (Position.shift lines bytes) last).startsBefore (p.shift lines bytes) =
      x.startsBefore p := by
  simp [startsBefore, resume, Comment.move, Span.move, Position.shift]

theorem trails_resume {p : Position} (h : last ≠ some (p.shift lines bytes)) (x : Note) :
    (x.resume (Position.shift lines bytes) last).trails (p.shift lines bytes) = x.trails p := by
  have line : ((x.comment.span.start.shift lines bytes).line == (p.shift lines bytes).line) =
      (x.comment.span.start.line == p.line) := by
    rw [Bool.eq_iff_iff]
    simp [Position.shift]
  have follows : (((x.follows.map (Position.shift lines bytes)).or last) ==
      some (p.shift lines bytes)) = (x.follows == some p) := by
    rw [Bool.eq_iff_iff, beq_iff_eq, beq_iff_eq]
    cases x.follows with
    | none => simpa using h
    | some q => simpa using Position.shift_inj
  simp only [trails, resume, Comment.move, Span.move, follows, line]

end Note

namespace Placement

/-! ### Placing -/

variable {last : Option Position}

theorem startsBefore_comp_resume (p : Position) :
    (fun x : Note => x.startsBefore (p.shift lines bytes)) ∘
      Note.resume (Position.shift lines bytes) last = fun x => x.startsBefore p :=
  funext fun x => Note.startsBefore_resume p x

theorem trails_comp_resume {p : Position} (h : last ≠ some (p.shift lines bytes)) :
    (fun x : Note => x.trails (p.shift lines bytes)) ∘
      Note.resume (Position.shift lines bytes) last = fun x => x.trails p :=
  funext fun x => Note.trails_resume h x

theorem commentsAt_resume {span : Span} (h : last ≠ some (span.stop.shift lines bytes))
    (pool left : List Note) :
    commentsAt (span.move (Position.shift lines bytes))
      (pool.map (Note.resume (Position.shift lines bytes) last))
      (left.map (Note.resume (Position.shift lines bytes) last)) =
      (commentsAt span pool left).map (Comment.move (Position.shift lines bytes)) := by
  simp only [commentsAt, leadingAt, trailingAt, Span.move, List.dropWhile_map, List.takeWhile_map,
    startsBefore_comp_resume, trails_comp_resume h, List.map_append, List.map_map]
  rfl

theorem notTrailingAt_resume {p : Position} (h : last ≠ some (p.shift lines bytes))
    (pool : List Note) :
    notTrailingAt (p.shift lines bytes) (pool.map (Note.resume (Position.shift lines bytes) last)) =
      (notTrailingAt p pool).map (Note.resume (Position.shift lines bytes) last) := by
  simp only [notTrailingAt, List.dropWhile_map, List.takeWhile_map, startsBefore_comp_resume,
    trails_comp_resume h, List.map_append]

variable (m : Marker)

theorem flatMap_extract_shift (cs : List Comment) :
    (cs.map (Comment.move (Position.shift lines bytes))).flatMap m.extract =
      (cs.flatMap m.extract).map (Directive.move (Position.shift lines bytes)) := by
  simp only [List.flatMap_map, List.map_flatMap, Marker.extract_shift]

/-- **Comments and declarations further on**, with other tokens in front: each comment has its place
on the same declaration, if no declaration ends where these tokens do. -/
theorem placeAll_resume (pool : List Note) (ns : List Node)
    (h : ∀ n ∈ Node.walks ns, last ≠ some (n.span.stop.shift lines bytes)) :
    placeAll m (pool.map (Note.resume (Position.shift lines bytes) last))
      (Node.moves (Position.shift lines bytes) ns) =
      (Node.moves (Position.shift lines bytes) (placeAll m pool ns).1,
        (placeAll m pool ns).2.map (Note.resume (Position.shift lines bytes) last)) := by
  induction ns using Node.rowInduction generalizing pool with
  | nil => rfl
  | cons content span cs ds children ns ihc ihn =>
    simp only [Node.walks_cons, Node.walk_eq, List.cons_append, List.forall_mem_cons,
      List.forall_mem_append] at h
    obtain ⟨hstop, hchildren, hothers⟩ := h
    have dropped : (pool.map (Note.resume (Position.shift lines bytes) last)).dropWhile
        (·.startsBefore (span.start.shift lines bytes)) =
        (pool.dropWhile (·.startsBefore span.start)).map
          (Note.resume (Position.shift lines bytes) last) := by
      rw [List.dropWhile_map, startsBefore_comp_resume]
    rw [Node.moves, Node.move, placeAll_cons, placeAll_cons]
    simp only [show (span.move (Position.shift lines bytes)).start = span.start.shift lines bytes
        from rfl, show (span.move (Position.shift lines bytes)).stop = span.stop.shift lines bytes
        from rfl, dropped, ihc _ hchildren, commentsAt_resume hstop, flatMap_extract_shift,
      notTrailingAt_resume hstop, ihn _ hothers]
    rfl

end Placement

end SchemaDepot
