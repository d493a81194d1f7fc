import Mathlib.Data.List.Basic
import SchemaDepot.Token.Scan

/-! # The order of tokens

A scan reads a text from left to right, so its tokens stand one behind the other.

* `Position.Reaches`: from one point over some characters to another; it implies the order `≤` of
  points (`Reaches.le`).
* `Token.InOrder`: every token takes at least one character, and of two tokens the later one starts
  at or behind the end of the earlier one.
* `scan_inOrder`: the tokens of a text are in order. -/

namespace SchemaDepot

namespace Position

/-! ### Points -/

instance : LE Position where
  le p q := q.before p = false

theorem le_iff {p q : Position} : p ≤ q ↔ p.line < q.line ∨ p.line = q.line ∧
    (p.column < q.column ∨ p.column = q.column ∧ p.offset ≤ q.offset) := by
  show q.before p = false ↔ _
  simp only [before, Bool.or_eq_false_iff, Bool.and_eq_false_iff, decide_eq_false_iff_not,
    beq_eq_false_iff_ne]
  omega

theorem le_rfl {p : Position} : p ≤ p := by
  rw [le_iff]
  omega

theorem le_trans {p q r : Position} (h : p ≤ q) (h' : q ≤ r) : p ≤ r := by
  rw [le_iff] at *
  omega

theorem le_advance (p : Position) (c : Char) : p ≤ p.advance c := by
  rw [le_iff]
  unfold advance
  split_ifs <;> simp

theorem offset_advance (p : Position) (c : Char) :
    (p.advance c).offset = p.offset + c.utf8Size := by
  unfold advance
  split_ifs <;> rfl

/-- From `p` one comes to `q` over some characters. -/
def Reaches (p q : Position) : Prop := ∃ cs, q = p.advanceOver cs

/-- From `p` one comes to `q` over one character or more. -/
def Passes (p q : Position) : Prop := ∃ c cs, q = p.advanceOver (c :: cs)

theorem advanceOver_append (p : Position) (cs ds : List Char) :
    p.advanceOver (cs ++ ds) = (p.advanceOver cs).advanceOver ds := List.foldl_append

theorem Reaches.rfl {p : Position} : p.Reaches p := ⟨[], by rfl⟩

theorem Reaches.trans {p q r : Position} (h : p.Reaches q) (h' : q.Reaches r) : p.Reaches r := by
  obtain ⟨cs, rfl⟩ := h
  obtain ⟨ds, rfl⟩ := h'
  exact ⟨cs ++ ds, (advanceOver_append p cs ds).symm⟩

theorem Passes.reaches {p q : Position} (h : p.Passes q) : p.Reaches q := by
  obtain ⟨c, cs, rfl⟩ := h
  exact ⟨c :: cs, rfl⟩

theorem Reaches.le {p q : Position} (h : p.Reaches q) : p ≤ q := by
  obtain ⟨cs, rfl⟩ := h
  induction cs generalizing p with
  | nil => exact le_rfl
  | cons c cs ih => exact le_trans (le_advance p c) ih

theorem Reaches.offset_le {p q : Position} (h : p.Reaches q) : p.offset ≤ q.offset := by
  obtain ⟨cs, rfl⟩ := h
  induction cs generalizing p with
  | nil => exact Nat.le_refl _
  | cons c cs ih =>
    have := offset_advance p c
    have : (p.advance c).offset ≤ ((p.advance c).advanceOver cs).offset := ih
    show p.offset ≤ ((p.advance c).advanceOver cs).offset
    omega

theorem Reaches.trans_passes {p q r : Position} (h : p.Reaches q) (h' : q.Passes r) :
    p.Passes r := by
  obtain ⟨cs, rfl⟩ := h
  obtain ⟨d, ds, rfl⟩ := h'
  cases cs with
  | nil => exact ⟨d, ds, by rfl⟩
  | cons c cs => exact ⟨c, cs ++ d :: ds, (advanceOver_append p (c :: cs) (d :: ds)).symm⟩

theorem not_advance_le (p : Position) (c : Char) : ¬ p.advance c ≤ p := by
  rw [le_iff]
  unfold advance
  split_ifs <;> simp

theorem Passes.not_le {p q : Position} (h : p.Passes q) : ¬ q ≤ p := by
  obtain ⟨c, cs, rfl⟩ := h
  have hle : p.advance c ≤ p.advanceOver (c :: cs) := Reaches.le ⟨cs, rfl⟩
  exact fun hq => not_advance_le p c (le_trans hle hq)

theorem Passes.offset_lt {p q : Position} (h : p.Passes q) : p.offset < q.offset := by
  obtain ⟨c, cs, rfl⟩ := h
  have hc := offset_advance p c
  have hpos := c.utf8Size_pos
  have hcs : (p.advance c).Reaches (p.advanceOver (c :: cs)) := ⟨cs, rfl⟩
  have := hcs.offset_le
  omega

end Position

theorem Span.between_of_le {p q : Position} (h : p ≤ q) : Span.between p q = ⟨p, q⟩ := by
  unfold between
  rw [if_neg]
  intro hb
  exact Bool.false_ne_true (h.symm.trans hb)

theorem Span.between_start (p q : Position) : (Span.between p q).start = p := by
  unfold between
  split_ifs <;> rfl

namespace Token

/-! ### Tokens in order -/

/-- The tokens stand one behind the other, and each takes a character or more. -/
structure InOrder (ts : List Token) : Prop where
  filled : ∀ t ∈ ts, t.span.start.Passes t.span.stop
  apart : ts.Pairwise fun t u => t.span.stop.Reaches u.span.start

theorem InOrder.sublist {ts us : List Token} (h : InOrder ts) (hs : us.Sublist ts) :
    InOrder us :=
  ⟨fun t ht => h.filled t (hs.subset ht), h.apart.sublist hs⟩

theorem InOrder.tail {t : Token} {ts : List Token} (h : InOrder (t :: ts)) : InOrder ts :=
  h.sublist (List.sublist_cons_self t ts)

theorem InOrder.offset_lt {ts : List Token} (h : InOrder ts) :
    ts.Pairwise fun t u => t.span.start.offset < u.span.start.offset := by
  refine h.apart.imp_of_mem fun {t u} ht _ hr => ?_
  have h1 := (h.filled t ht).offset_lt
  have h2 := hr.offset_le
  omega

/-- Of two tokens in order, one stands behind the other. -/
theorem InOrder.trichotomy {ts : List Token} (h : InOrder ts) {t u : Token} (ht : t ∈ ts)
    (hu : u ∈ ts) :
    t = u ∨ t.span.stop.Reaches u.span.start ∨ u.span.stop.Reaches t.span.start := by
  have hall : ∀ ⦃t⦄, t ∈ ts → ∀ ⦃u⦄, u ∈ ts →
      t = u ∨ t.span.stop.Reaches u.span.start ∨ u.span.stop.Reaches t.span.start := by
    refine List.Pairwise.forall_of_forall_of_flip (fun _ _ => Or.inl rfl) ?_ ?_
    · exact h.apart.imp fun hr => Or.inr (Or.inl hr)
    · exact h.apart.imp fun hr => Or.inr (Or.inr hr)
  exact hall ht hu

/-- Of two tokens in order, the one that starts first ends before the other starts. -/
theorem InOrder.reaches_of_lt {ts : List Token} (h : InOrder ts) {t u : Token} (ht : t ∈ ts)
    (hu : u ∈ ts) (hlt : t.span.start.offset < u.span.start.offset) :
    t.span.stop.Reaches u.span.start := by
  rcases h.trichotomy ht hu with rfl | hr | hr
  · omega
  · exact hr
  · have h1 := (h.filled u hu).offset_lt
    have h2 := hr.offset_le
    omega

/-- A token ends before another one starts exactly if it starts first. -/
theorem InOrder.stop_le_start_iff {ts : List Token} (h : InOrder ts) {t u : Token} (ht : t ∈ ts)
    (hu : u ∈ ts) :
    t.span.stop ≤ u.span.start ↔ t.span.start.offset < u.span.start.offset := by
  refine ⟨fun hle => ?_, fun hlt => (h.reaches_of_lt ht hu hlt).le⟩
  rcases h.trichotomy ht hu with rfl | hr | hr
  · exact absurd hle (h.filled t ht).not_le
  · have h1 := (h.filled t ht).offset_lt
    have h2 := hr.offset_le
    omega
  · -- the other token stands before, so its start cannot be behind the end of this one
    have hpass := ((h.filled u hu).reaches.trans hr).trans_passes (h.filled t ht)
    exact absurd hle hpass.not_le

/-! ### Scanning -/

/-- A scan that gives tokens has read a lexeme for the first of them, behind the blanks in front. -/
theorem scanFrom_ok {p : Position} {cs : List Char} {ts : List Token} {final : Position}
    (h : scanFrom p cs = .ok (ts, final)) :
    (ts = [] ∧ p.Reaches final) ∨
      ∃ t us rest, ts = t :: us ∧ p.Reaches t.span.start ∧ t.span.start.Passes t.span.stop ∧
        rest.length < cs.length ∧ scanFrom t.span.stop rest = .ok (us, final) := by
  rw [scanFrom] at h
  have hstart : p.Reaches (p.advanceOver (cs.takeWhile Text.isBlank)) := ⟨_, rfl⟩
  have hlen : (cs.dropWhile Text.isBlank).length ≤ cs.length :=
    (List.dropWhile_suffix Text.isBlank).length_le
  dsimp only at h
  split_ifs at h with hbody
  · cases h
    exact Or.inl ⟨rfl, hstart⟩
  · split at h
    · cases h
    · next lexeme hread =>
      obtain ⟨⟨us, stop⟩, hus, he⟩ := Lexeme.map_ok h
      obtain ⟨c, body, hb⟩ := List.exists_cons_of_ne_nil (fun e => hbody (List.isEmpty_iff.2 e))
      obtain ⟨s, hs, -⟩ := Lexeme.read_source (hb ▸ hread)
      have hpass : (p.advanceOver (cs.takeWhile Text.isBlank)).Passes
          ((p.advanceOver (cs.takeWhile Text.isBlank)).advanceOver lexeme.source) :=
        ⟨c, s, by rw [hs]⟩
      have hrest := Lexeme.read_length_lt hread
      cases he
      refine Or.inr ⟨_, us, lexeme.rest, rfl, ?_, ?_, by omega, ?_⟩
      · rw [Span.between_of_le hpass.reaches.le]
        exact hstart
      · rw [Span.between_of_le hpass.reaches.le]
        exact hpass
      · rw [Span.between_of_le hpass.reaches.le]
        exact hus

/-- The tokens behind a point are in order, and none of them starts before it. -/
theorem scanFrom_inOrder {p : Position} {cs : List Char} {ts : List Token} {final : Position}
    (h : scanFrom p cs = .ok (ts, final)) :
    InOrder ts ∧ ∀ t ∈ ts, p.Reaches t.span.start := by
  induction hn : cs.length using Nat.strongRecOn generalizing p cs ts with
  | ind n ih =>
    rcases scanFrom_ok h with ⟨rfl, -⟩ | ⟨t, us, rest, rfl, hstart, hpass, hlt, hus⟩
    · exact ⟨⟨by simp, List.Pairwise.nil⟩, by simp⟩
    · obtain ⟨hin, hfrom⟩ := ih rest.length (by omega) hus rfl
      refine ⟨⟨?_, List.pairwise_cons.mpr ⟨hfrom, hin.apart⟩⟩, ?_⟩
      · intro u hu
        rcases List.mem_cons.mp hu with rfl | hu
        · exact hpass
        · exact hin.filled u hu
      · intro u hu
        rcases List.mem_cons.mp hu with rfl | hu
        · exact hstart
        · exact (hstart.trans hpass.reaches).trans (hfrom u hu)

/-- **The tokens of a text are in order.** -/
theorem scan_inOrder {text : String} {ts : List Token} {final : Position}
    (h : scan text = .ok (ts, final)) : InOrder ts := by
  unfold scan at h
  split at h
  · exact (scanFrom_inOrder h).1
  · exact (scanFrom_inOrder h).1

end Token

end SchemaDepot
