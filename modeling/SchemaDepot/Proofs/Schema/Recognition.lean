import SchemaDepot.Proofs.Schema.Advance
import SchemaDepot.Proofs.Schema.Phrase

/-! # Readers that recognize a language

* `Recognizes`: what a reader takes are the phrases of a language, and what it gives for a phrase
  does not depend on the tokens behind it, unless one of them would go on.
* `Recognizes.bind`, `Recognizes.accept`, `Recognizes.look`: readers that are put together.
* `followers_recognizes`, `many_recognizes`: repetitions; `many_append`: what is read of one row of
  items and another behind it. -/

namespace SchemaDepot

open Computability Phrase

namespace Phrase

open Reader (isSymbol isWord)

variable {L M N : Language Token} {p q : Token → Bool}

/-- One phrase more in front of a row of them. -/
theorem append_mem_kstar {v w : List Token} (hv : v ∈ L) (hw : w ∈ L∗) : v ++ w ∈ L∗ :=
  (mul_kstar_le_kstar : L * L∗ ≤ L∗) (Language.append_mem_mul hv hw)

/-! ### How phrases begin -/

/-- No token. -/
def never (_ : Token) : Bool := false

/-- Every phrase begins with a token of which `p` holds. -/
def Begins (L : Language Token) (p : Token → Bool) : Prop :=
  ∀ w ∈ L, ∃ t us, w = t :: us ∧ p t = true

theorem begins_one (accepts : Token → Bool) : Begins (one accepts) accepts := by
  rintro w ⟨t, ht, rfl⟩
  exact ⟨t, [], rfl, ht⟩

theorem Begins.mul (h : Begins L p) (M : Language Token) : Begins (L * M) p := by
  rintro w ⟨a, ha, b, -, rfl⟩
  obtain ⟨t, us, rfl, ht⟩ := h a ha
  exact ⟨t, us ++ b, rfl, ht⟩

theorem Begins.add (hL : Begins L p) (hM : Begins M q) :
    Begins (L + M) fun t => p t || q t := by
  rintro w (hw | hw)
  · obtain ⟨t, us, rfl, ht⟩ := hL w hw
    exact ⟨t, us, rfl, by simp [ht]⟩
  · obtain ⟨t, us, rfl, ht⟩ := hM w hw
    exact ⟨t, us, rfl, by simp [ht]⟩

theorem Begins.or (hL : Begins L p) (hM : Begins M p) : Begins (L + M) p := by
  rintro w (hw | hw)
  · exact hL w hw
  · exact hM w hw

theorem Begins.maybe_mul (hL : Begins L p) (hM : Begins M q) :
    Begins (maybe L * M) fun t => p t || q t := by
  rintro w ⟨a, rfl | ha, b, hb, rfl⟩
  · obtain ⟨t, us, rfl, ht⟩ := hM b hb
    exact ⟨t, us, rfl, by simp [ht]⟩
  · obtain ⟨t, us, rfl, ht⟩ := hL a ha
    exact ⟨t, us ++ b, rfl, by simp [ht]⟩

theorem Begins.imp (h : Begins L p) (hpq : ∀ t, p t = true → q t = true) : Begins L q := by
  intro w hw
  obtain ⟨t, us, rfl, ht⟩ := h w hw
  exact ⟨t, us, rfl, hpq t ht⟩

theorem Begins.nil_notMem (h : Begins L p) : [] ∉ L := by
  intro hw
  obtain ⟨t, us, he, -⟩ := h [] hw
  cases he

theorem Begins.head (h : Begins L p) {t : Token} {w : List Token} (hw : t :: w ∈ L) :
    p t = true := by
  obtain ⟨u, us, he, hu⟩ := h _ hw
  cases he
  exact hu

theorem Begins.clear (h : Begins L p) (apart : ∀ t, p t = true → q t = false) {w : List Token}
    (hw : w ∈ L) (rest : List Token) : Clear q (w ++ rest) := by
  obtain ⟨t, us, rfl, ht⟩ := h w hw
  intro u hu
  cases hu
  exact apart t ht

/-- Any number of phrases in a row begin like one of them, or like what stands behind. -/
theorem Begins.clear_kstar (h : Begins L p) (apart : ∀ t, p t = true → q t = false)
    {w : List Token} (hw : w ∈ L∗) {rest : List Token} (hrest : Clear q rest) :
    Clear q (w ++ rest) := by
  obtain ⟨words, rfl, hwords⟩ := hw
  cases words with
  | nil => exact hrest
  | cons v words =>
    rw [List.flatten_cons, List.append_assoc]
    exact h.clear apart (hwords v List.mem_cons_self) _

theorem clear_never (ts : List Token) : Clear never ts := fun _ _ => rfl

theorem clear_nil (p : Token → Bool) : Clear p [] := nofun

/-! ### Phrases that avoid a beginning -/

theorem avoiding_of_begins (h : Begins L q) (apart : ∀ t, q t = true → p t = false) :
    avoiding p L = L := by
  ext w
  refine ⟨And.left, fun hw => ⟨hw, ?_⟩⟩
  have := h.clear apart hw []
  rwa [List.append_nil] at this

theorem avoiding_kstar (h : Begins L q) (apart : ∀ t, q t = true → p t = false) :
    avoiding p L∗ = L∗ := by
  ext w
  refine ⟨And.left, fun hw => ⟨hw, ?_⟩⟩
  have := h.clear_kstar apart hw (clear_nil p)
  rwa [List.append_nil] at this

theorem avoiding_add : avoiding p (L + M) = avoiding p L + avoiding p M := by
  ext w
  exact or_and_right

theorem avoiding_avoiding : avoiding p (avoiding q L) = avoiding (fun t => p t || q t) L := by
  ext w
  constructor
  · rintro ⟨⟨hw, hq⟩, hp⟩
    exact ⟨hw, fun t ht => Bool.or_eq_false_iff.2 ⟨hp t ht, hq t ht⟩⟩
  · rintro ⟨hw, hpq⟩
    exact ⟨⟨hw, fun t ht => (Bool.or_eq_false_iff.1 (hpq t ht)).2⟩,
      fun t ht => (Bool.or_eq_false_iff.1 (hpq t ht)).1⟩

theorem avoiding_one : avoiding p 1 = 1 := by
  ext w
  refine ⟨And.left, ?_⟩
  rintro rfl
  exact ⟨rfl, clear_nil p⟩

theorem avoiding_zero : avoiding p 0 = 0 := by
  ext w
  exact and_iff_left_of_imp fun h => absurd h (Language.notMem_zero w)

theorem isOneOf_cons (w : String) (ws : List String) :
    isOneOf (w :: ws) = fun t => isWord w t || isOneOf ws t := by
  funext t
  rw [isOneOf, List.contains_cons, Bool.and_or_distrib_left]
  rfl

theorem avoiding_isOneOf_nil : avoiding (isOneOf []) L = L := by
  ext w
  exact and_iff_left fun t _ => Bool.and_false _

/-- The phrases that begin with a token of which `p` holds. -/
def beginning (p : Token → Bool) (L : Language Token) : Language Token :=
  {w | w ∈ L ∧ ∃ t ∈ w.head?, p t = true}

theorem begins_beginning : Begins (beginning p L) p := by
  rintro w ⟨-, t, ht, hp⟩
  cases w with
  | nil => cases ht
  | cons u us =>
    cases ht
    exact ⟨t, us, rfl, hp⟩

theorem beginning_of_begins (h : Begins L p) : beginning p L = L := by
  ext w
  refine ⟨And.left, fun hw => ⟨hw, ?_⟩⟩
  obtain ⟨t, us, rfl, ht⟩ := h w hw
  exact ⟨t, rfl, ht⟩

theorem beginning_any_mul (M : Language Token) :
    beginning p (one (fun _ => true) * M) = one p * M := by
  ext w
  constructor
  · rintro ⟨⟨_, ⟨t, -, rfl⟩, v, hv, rfl⟩, u, hu, hp⟩
    cases hu
    exact ⟨[t], ⟨t, hp, rfl⟩, v, hv, rfl⟩
  · rintro ⟨_, ⟨t, ht, rfl⟩, v, hv, rfl⟩
    exact ⟨⟨[t], ⟨t, rfl, rfl⟩, v, hv, rfl⟩, t, rfl, ht⟩

end Phrase

namespace Reader

variable {α β : Type} {L M N : Language Token} {p q : Token → Bool}

/-! ### Recognition -/

/-- What the reader takes are the phrases of `L`. What it gives for one of them is the same whatever
stands behind it, unless that begins with a token of which `more` holds. -/
structure Recognizes (r : Reader α) (L : Language Token) (more : Token → Bool) : Prop where
  sound : Gives r fun w _ => w ∈ L
  complete : ∀ w ∈ L, ∃ a, ∀ rest, Clear more rest → r (w ++ rest) = .ok (a, rest)

theorem Recognizes.of_eq {r : Reader α} (h : Recognizes r L p) (hLM : L = M) :
    Recognizes r M p := hLM ▸ h

theorem Recognizes.weaken {r : Reader α} (h : Recognizes r L p)
    (hpq : ∀ t, p t = true → q t = true) : Recognizes r L q := by
  refine ⟨h.sound, fun w hw => ?_⟩
  obtain ⟨a, ha⟩ := h.complete w hw
  refine ⟨a, fun rest hrest => ha rest fun t ht => ?_⟩
  have hq := hrest t ht
  cases hp : p t with
  | false => rfl
  | true => rw [hpq t hp] at hq; cases hq

theorem Recognizes.pure (a : α) : Recognizes (Pure.pure a : Reader α) 1 p := by
  refine ⟨fun ts b rest h => ?_, ?_⟩
  · obtain ⟨-, rfl⟩ := pure_ok h
    exact ⟨[], rfl, rfl⟩
  · rintro w rfl
    exact ⟨a, fun rest _ => rfl⟩

theorem expected_recognizes (what : String) : Recognizes (expected what : Reader α) 0 p :=
  ⟨expected_gives what _, nofun⟩

theorem token_recognizes (accepts : Token → Bool) (what : String) :
    Recognizes (token accepts what) (one accepts) p := by
  refine ⟨fun ts t rest h => ?_, ?_⟩
  · have hts := token_ok h
    subst hts
    have accepted : accepts t = true := by
      simp only [token] at h
      split_ifs at h with ht
      · exact ht
      · cases h
    exact ⟨[t], rfl, t, accepted, rfl⟩
  · rintro w ⟨t, ht, rfl⟩
    exact ⟨t, fun rest _ => if_pos ht⟩

/-- One reader after another, where no phrase of the second goes on with one of the first. -/
theorem Recognizes.bind {r : Reader α} {f : α → Reader β} (hr : Recognizes r L p)
    (hf : ∀ a, Recognizes (f a) M q)
    (apart : ∀ w ∈ M, ∀ rest, Clear q rest → Clear p (w ++ rest)) :
    Recognizes (r >>= f) (L * M) q := by
  refine ⟨fun ts b rest h => ?_, ?_⟩
  · obtain ⟨a, mid, h1, h2⟩ := bind_ok h
    obtain ⟨v, rfl, hv⟩ := hr.sound h1
    obtain ⟨w, rfl, hw⟩ := (hf a).sound h2
    exact ⟨v ++ w, (List.append_assoc v w rest).symm, v, hv, w, hw, rfl⟩
  · rintro _ ⟨v, hv, w, hw, rfl⟩
    obtain ⟨a, ha⟩ := hr.complete v hv
    obtain ⟨b, hb⟩ := (hf a).complete w hw
    refine ⟨b, fun rest hrest => ?_⟩
    rw [List.append_assoc, bind_of_ok (ha (w ++ rest) (apart w hw rest hrest))]
    exact hb rest hrest

/-- One reader that looks at nothing behind what it takes, and another one after it. -/
theorem Recognizes.then {r : Reader α} {f : α → Reader β} (hr : Recognizes r L never)
    (hf : ∀ a, Recognizes (f a) M q) : Recognizes (r >>= f) (L * M) q :=
  hr.bind hf fun w _ rest _ => clear_never (w ++ rest)

/-- A reader whose result is only given another form. -/
theorem Recognizes.map {r : Reader α} (hr : Recognizes r L p) (g : α → β) :
    Recognizes (r >>= fun a => Pure.pure (g a)) L p := by
  refine (hr.bind (fun a => Recognizes.pure (g a)) ?_).of_eq (mul_one L)
  rintro w rfl rest hrest
  exact hrest

/-- A token that may be there decides how to go on. -/
theorem Recognizes.accept {f : Bool → Reader α}
    (hr : Recognizes (f true) M p) (hs : Recognizes (f false) N p)
    (empty : [] ∈ N → ∀ t, q t = true → p t = true) :
    Recognizes (acceptToken q >>= f) (one q * M + avoiding q N) p := by
  refine ⟨fun ts a rest h => ?_, ?_⟩
  · obtain ⟨b, mid, h1, h2⟩ := bind_ok h
    cases ts with
    | nil =>
      cases h1
      obtain ⟨w, he, hw⟩ := hs.sound h2
      obtain ⟨rfl, rfl⟩ := List.append_eq_nil_iff.1 he.symm
      exact ⟨[], rfl, Or.inr ⟨hw, clear_nil q⟩⟩
    | cons t ts =>
      simp only [acceptToken] at h1
      split_ifs at h1 with ht <;> cases h1
      · obtain ⟨w, rfl, hw⟩ := hr.sound h2
        exact ⟨t :: w, rfl, Or.inl ⟨[t], ⟨t, ht, rfl⟩, w, hw, rfl⟩⟩
      · obtain ⟨w, he, hw⟩ := hs.sound h2
        refine ⟨w, he, Or.inr ⟨hw, fun u hu => ?_⟩⟩
        cases w with
        | nil => cases hu
        | cons v w =>
          cases hu
          cases he
          exact Bool.eq_false_iff.2 ht
  · rintro w (⟨_, ⟨t, ht, rfl⟩, w, hw, rfl⟩ | ⟨hw, clear⟩)
    · obtain ⟨a, ha⟩ := hr.complete w hw
      refine ⟨a, fun rest hrest => ?_⟩
      rw [bind_of_ok (if_pos ht : acceptToken q (t :: (w ++ rest)) = _)]
      exact ha rest hrest
    · obtain ⟨a, ha⟩ := hs.complete w hw
      refine ⟨a, fun rest hrest => ?_⟩
      have passed : acceptToken q (w ++ rest) = .ok (false, w ++ rest) := by
        cases w with
        | cons t w =>
          exact if_neg (by rw [clear t rfl]; exact Bool.false_ne_true)
        | nil =>
          cases rest with
          | nil => rfl
          | cons t rest =>
            refine if_neg fun ht => ?_
            have hp := hrest t rfl
            rw [empty hw t ht] at hp
            cases hp
      rw [bind_of_ok passed]
      exact ha rest hrest

/-- A token that may be there, and the same behind it in both cases. -/
theorem acceptToken_recognizes (accepts : Token → Bool) :
    Recognizes (acceptToken accepts) (maybe (one accepts)) accepts := by
  refine ⟨fun ts b rest h => ?_, ?_⟩
  · cases ts with
    | nil =>
      cases h
      exact ⟨[], rfl, Or.inl rfl⟩
    | cons t ts =>
      simp only [acceptToken] at h
      split_ifs at h with ht <;> cases h
      · exact ⟨[t], rfl, Or.inr ⟨t, ht, rfl⟩⟩
      · exact ⟨[], rfl, Or.inl rfl⟩
  · rintro w (rfl | ⟨t, ht, rfl⟩)
    · refine ⟨false, fun rest hrest => ?_⟩
      cases rest with
      | nil => rfl
      | cons t rest => exact if_neg (by rw [hrest t rfl]; exact Bool.false_ne_true)
    · exact ⟨true, fun rest _ => if_pos ht⟩

/-- A look at the next token decides how to go on. -/
theorem Recognizes.look {γ : Type} {r : Reader γ} {g : Option Token → γ} {f : γ → Reader α}
    {C : Option Token → Language Token} (hr : ∀ ts, r ts = .ok (g ts.head?, ts))
    (hf : ∀ next, Recognizes (f (g next)) (C next) p) (filled : ∀ next, [] ∉ C next) :
    Recognizes (r >>= f) {w | w ∈ C w.head?} p := by
  refine ⟨fun ts a rest h => ?_, fun w hw => ?_⟩
  · rw [bind_of_ok (hr ts)] at h
    obtain ⟨w, he, hw⟩ := (hf ts.head?).sound h
    refine ⟨w, he, ?_⟩
    cases w with
    | nil => exact absurd hw (filled _)
    | cons t w =>
      cases he
      exact hw
  · have hw : w ∈ C w.head? := hw
    obtain ⟨a, ha⟩ := (hf w.head?).complete w hw
    refine ⟨a, fun rest hrest => ?_⟩
    have head : (w ++ rest).head? = w.head? := by
      cases w with
      | nil => exact absurd hw (filled _)
      | cons t w => rfl
    rw [bind_of_ok (hr _), head]
    exact ha rest hrest

/-- A look that does not matter for what is taken. -/
theorem Recognizes.glance {γ : Type} {r : Reader γ} {g : Option Token → γ} {f : γ → Reader α}
    (hr : ∀ ts, r ts = .ok (g ts.head?, ts)) (hf : ∀ c, Recognizes (f c) L p) (filled : [] ∉ L) :
    Recognizes (r >>= f) L p :=
  Recognizes.look hr (fun next => hf (g next)) fun _ => filled

/-! ### Ways by words -/

/-- A way to go on: the word that it begins with, what reads it, and its phrases. -/
structure Way (α : Type) where
  lead : String
  reader : Reader α
  phrase : Language Token

/-- The first of the ways that begins with the next word, or something else. -/
def choose (other : Option String → Reader α) : List (Way α) → Option String → Reader α
  | [], next => other next
  | w :: ways, next => if next = some w.lead then w.reader else choose other ways next

/-- The phrases of a way are those that its reader takes behind its word. -/
def Way.Fits (w : Way α) (p : Token → Bool) : Prop :=
  ∃ L, Recognizes w.reader L p ∧ [] ∉ L ∧ w.phrase = beginning (isWord w.lead) L

theorem Way.fits_of_begins {k : String} {r : Reader α} (h : Recognizes r L p)
    (hb : Begins L (isWord k)) : Way.Fits ⟨k, r, L⟩ p :=
  ⟨L, h, hb.nil_notMem, (beginning_of_begins hb).symm⟩

theorem Way.fits_of_any {k : String} {r : Reader α}
    (h : Recognizes r (one (fun _ => true) * M) p) : Way.Fits ⟨k, r, Phrase.keyword k * M⟩ p :=
  ⟨_, h, ((begins_one _).mul _).nil_notMem, (beginning_any_mul M).symm⟩

/-- The text of the next token, if that is a word. -/
def nextWord (next : Option Token) : Option String :=
  next.bind fun t => if t.kind == .word then some t.text else none

theorem peekWord_apply (ts : List Token) : peekWord ts = .ok (nextWord ts.head?, ts) := rfl

theorem nextWord_eq_some {k : String} {ts : List Token} :
    nextWord ts.head? = some k ↔ ∃ t ∈ ts.head?, isWord k t = true := by
  cases ts with
  | nil => simp [nextWord]
  | cons t ts =>
    by_cases h : t.kind = .word <;> simp [nextWord, isWord, h]

theorem Recognizes.byWord {k : String} {r : Reader α} {s : Option String → Reader α}
    (hr : Recognizes r L p) (filledL : [] ∉ L) (hs : Recognizes (peekWord >>= s) M p)
    (filledM : [] ∉ M) :
    Recognizes (peekWord >>= fun next => if next = some k then r else s next)
      (beginning (isWord k) L + avoiding (isWord k) M) p := by
  have same : ∀ ts : List Token, (peekWord >>= fun next => if next = some k then r else s next) ts =
      if ∃ t ∈ ts.head?, isWord k t = true then r ts else (peekWord >>= s) ts := by
    intro ts
    rw [bind_of_ok (peekWord_apply ts), bind_of_ok (peekWord_apply ts)]
    by_cases hk : ∃ t ∈ ts.head?, isWord k t = true
    · rw [if_pos (nextWord_eq_some.2 hk), if_pos hk]
    · rw [if_neg (mt nextWord_eq_some.1 hk), if_neg hk]
  have head : ∀ {w rest : List Token}, w ≠ [] → (w ++ rest).head? = w.head? := by
    intro w rest hw
    cases w with
    | nil => exact absurd rfl hw
    | cons t w => rfl
  refine ⟨fun ts a rest h => ?_, ?_⟩
  · rw [same] at h
    split_ifs at h with hk
    · obtain ⟨w, rfl, hw⟩ := hr.sound h
      rw [head fun he => filledL (he ▸ hw)] at hk
      exact ⟨w, rfl, Or.inl ⟨hw, hk⟩⟩
    · obtain ⟨w, rfl, hw⟩ := hs.sound h
      rw [head fun he => filledM (he ▸ hw)] at hk
      exact ⟨w, rfl, Or.inr ⟨hw, fun t ht => Bool.eq_false_iff.2 fun hp => hk ⟨t, ht, hp⟩⟩⟩
  · rintro w (⟨hw, hk⟩ | ⟨hw, clear⟩)
    · obtain ⟨a, ha⟩ := hr.complete w hw
      refine ⟨a, fun rest hrest => ?_⟩
      rw [same, head fun he => filledL (he ▸ hw), if_pos hk]
      exact ha rest hrest
    · obtain ⟨a, ha⟩ := hs.complete w hw
      refine ⟨a, fun rest hrest => ?_⟩
      rw [same, head fun he => filledM (he ▸ hw), if_neg]
      · exact ha rest hrest
      · rintro ⟨t, ht, hp⟩
        rw [clear t ht] at hp
        cases hp

theorem begins_sum {ways : List (Way α)} (hways : ∀ w ∈ ways, w.Fits p) :
    Begins (ways.map Way.phrase).sum (isOneOf (ways.map Way.lead)) := by
  induction ways with
  | nil => exact nofun
  | cons w ways ih =>
    obtain ⟨L, -, -, hphrase⟩ := hways w List.mem_cons_self
    rw [List.map_cons, List.sum_cons, List.map_cons, isOneOf_cons, hphrase]
    exact begins_beginning.add (ih fun v hv => hways v (List.mem_cons_of_mem w hv))

/-- **Ways with words of their own**: what is taken are their phrases, and those of something else
that do not begin with one of the words. -/
theorem choose_recognizes {other : Option String → Reader α} {ways : List (Way α)}
    (hways : ∀ w ∈ ways, w.Fits p) (apart : (ways.map Way.lead).Nodup)
    (ho : Recognizes (peekWord >>= other) M p) (filled : [] ∉ M) :
    Recognizes (peekWord >>= choose other ways)
      ((ways.map Way.phrase).sum + avoiding (isOneOf (ways.map Way.lead)) M) p := by
  induction ways with
  | nil =>
    refine ho.of_eq ?_
    rw [List.map_nil, List.sum_nil, zero_add]
    exact avoiding_isOneOf_nil.symm
  | cons w ways ih =>
    rw [List.map_cons, List.nodup_cons] at apart
    have hrest : ∀ v ∈ ways, v.Fits p := fun v hv => hways v (List.mem_cons_of_mem w hv)
    obtain ⟨L, hL, filledL, hphrase⟩ := hways w List.mem_cons_self
    have begins := begins_sum hrest
    have filledRest :
        [] ∉ (ways.map Way.phrase).sum + avoiding (isOneOf (ways.map Way.lead)) M := by
      rintro (h | h)
      · exact begins.nil_notMem h
      · exact filled h.1
    refine (hL.byWord filledL (ih hrest apart.2) filledRest).of_eq ?_
    -- no other way begins with the word of the first
    have others : avoiding (isWord w.lead) (ways.map Way.phrase).sum =
        (ways.map Way.phrase).sum := by
      refine avoiding_of_begins begins fun t ht => Bool.eq_false_iff.2 fun hw => apart.1 ?_
      have text : t.text = w.lead := by simpa using (Bool.and_eq_true_iff.1 hw).2
      rw [← text]
      simpa using (Bool.and_eq_true_iff.1 ht).2
    rw [avoiding_add, others, avoiding_avoiding, List.map_cons, List.map_cons, List.sum_cons,
      isOneOf_cons, hphrase, add_assoc]

/-! ### Repetitions -/

section Follow
variable {sep : Char} {item : Reader α}

theorem follow_sound (hi : Gives item fun w _ => w ∈ L) (room : List Token) :
    Gives (follow sep item room) fun w _ => w ∈ (Phrase.symbol sep * L)∗ := by
  refine follow_gives room hi (Language.nil_mem_kstar _) fun {t v w x xs} between hv hw => ?_
  have first : t :: v ∈ Phrase.symbol sep * L := ⟨[t], ⟨t, between, rfl⟩, v, hv, rfl⟩
  exact Phrase.append_mem_kstar first hw

theorem follow_of_words (hi : Recognizes item L p)
    (apart : ∀ t, isSymbol sep t = true → p t = false)
    (words : List (List Token)) (hwords : ∀ w ∈ words, w ∈ Phrase.symbol sep * L) :
    ∃ xs, ∀ rest room : List Token, Clear (fun t => p t || isSymbol sep t) rest →
      (words.flatten ++ rest).length ≤ room.length →
      follow sep item room (words.flatten ++ rest) = .ok (xs, rest) := by
  induction words with
  | nil =>
    refine ⟨[], fun rest room hrest _ => ?_⟩
    cases room with
    | nil => rfl
    | cons _ room =>
      have passed : Reader.accept sep rest = .ok (false, rest) := by
        cases rest with
        | nil => rfl
        | cons t rest => exact if_neg (by simpa using And.right (by simpa using hrest t rfl))
      unfold follow
      exact bind_of_ok passed
  | cons w words ih =>
    obtain ⟨xs, hxs⟩ := ih fun v hv => hwords v (List.mem_cons_of_mem w hv)
    obtain ⟨_, ⟨t, ht, rfl⟩, v, hv, rfl⟩ := hwords w List.mem_cons_self
    obtain ⟨x, hx⟩ := hi.complete v hv
    refine ⟨x :: xs, fun rest room hrest hroom => ?_⟩
    -- behind the item comes another separator, or what stands behind all items
    have clear : Clear p (words.flatten ++ rest) :=
      ((begins_one _).mul L).clear_kstar apart
        ⟨words, rfl, fun v hv => hwords v (List.mem_cons_of_mem _ hv)⟩
        fun u hu => (Bool.or_eq_false_iff.1 (hrest u hu)).1
    have split : (([t] ++ v) :: words).flatten ++ rest = t :: (v ++ (words.flatten ++ rest)) := by
      simp
    rw [split] at hroom ⊢
    cases room with
    | nil => simp at hroom
    | cons _ room =>
      have enough : (words.flatten ++ rest).length ≤ room.length := by
        simp only [List.length_cons, List.length_append] at hroom ⊢
        omega
      unfold follow
      rw [bind_of_ok (if_pos ht : Reader.accept sep (t :: (v ++ (words.flatten ++ rest))) = _)]
      show (item >>= _) _ = _
      rw [bind_of_ok (hx _ clear), bind_of_ok (hxs rest room hrest enough)]
      rfl

theorem followers_recognizes (hi : Recognizes item L p)
    (apart : ∀ t, isSymbol sep t = true → p t = false) :
    Recognizes (followers sep item) (Phrase.symbol sep * L)∗ fun t => p t || isSymbol sep t := by
  refine ⟨fun ts xs rest h => follow_sound hi.sound ts h, ?_⟩
  rintro _ ⟨words, rfl, hwords⟩
  obtain ⟨xs, hxs⟩ := follow_of_words hi apart words hwords
  exact ⟨xs, fun rest hrest => hxs rest _ hrest (Nat.le_refl _)⟩

theorem chain_recognizes (hi : Recognizes item L p)
    (apart : ∀ t, isSymbol sep t = true → p t = false) :
    Recognizes (chain sep item) (separated sep L) fun t => p t || isSymbol sep t := by
  refine hi.bind (fun x => (followers_recognizes hi apart).map _) fun w hw rest hrest => ?_
  exact ((begins_one _).mul L).clear_kstar apart hw
    fun t ht => (Bool.or_eq_false_iff.1 (hrest t ht)).1

end Follow

section Many
variable {ends : Token → Bool} {item : Reader α}

/-- Items and semicolons in a row are phrases for them in a row. -/
theorem manyWithin_sound (hi : Gives item fun w _ => w ∈ L) (room : List Token) :
    Gives (manyWithin ends item room) fun w _ => w ∈ (Phrase.symbol ';' + L)∗ :=
  manyWithin_gives room hi (Language.nil_mem_kstar _)
    (fun ht hw => Phrase.append_mem_kstar (v := [_]) (Or.inl ⟨_, ht, rfl⟩) hw)
    fun hv hw => Phrase.append_mem_kstar (Or.inr hv) hw

/-- What a row of phrases adds to what is read behind it. -/
theorem manyWithin_of_words (hi : Recognizes item L never)
    (begins : Begins L fun t => !(ends t || isSymbol ';' t))
    (semicolon : ∀ t, isSymbol ';' t = true → ends t = false) (words : List (List Token))
    (hwords : ∀ w ∈ words, w ∈ Phrase.symbol ';' + L) :
    ∃ xs, ∀ rest room : List Token, (words.flatten ++ rest).length ≤ room.length →
      ∃ room' : List Token, rest.length ≤ room'.length ∧
        manyWithin ends item room (words.flatten ++ rest) =
          (manyWithin ends item room' rest).map fun (ys, left) => (xs ++ ys, left) := by
  induction words with
  | nil =>
    refine ⟨[], fun rest room hroom => ⟨room, hroom, ?_⟩⟩
    show manyWithin ends item room rest = _
    cases manyWithin ends item room rest <;> rfl
  | cons w words ih =>
    obtain ⟨xs, hxs⟩ := ih fun v hv => hwords v (List.mem_cons_of_mem w hv)
    rcases hwords w List.mem_cons_self with ⟨t, ht, rfl⟩ | hw
    · refine ⟨xs, fun rest room hroom => ?_⟩
      cases room with
      | nil => simp at hroom
      | cons _ room =>
        obtain ⟨room', hroom', he⟩ := hxs rest room (by simpa using hroom)
        refine ⟨room', hroom', ?_⟩
        rw [← he, List.flatten_cons, List.append_assoc, List.singleton_append, manyWithin_cons,
          semicolon t ht, if_neg Bool.false_ne_true, if_pos ht]
    · obtain ⟨x, hx⟩ := hi.complete w hw
      obtain ⟨t, us, rfl, ht⟩ := begins w hw
      obtain ⟨hends, hsemi⟩ : ends t = false ∧ isSymbol ';' t = false := by simpa using ht
      refine ⟨x :: xs, fun rest room hroom => ?_⟩
      cases room with
      | nil => simp at hroom
      | cons _ room =>
        have enough : (words.flatten ++ rest).length ≤ room.length := by
          simp only [List.flatten_cons, List.cons_append, List.length_cons,
            List.length_append] at hroom ⊢
          omega
        obtain ⟨room', hroom', he⟩ := hxs rest room enough
        refine ⟨room', hroom', ?_⟩
        have read := hx (words.flatten ++ rest) (clear_never _)
        rw [List.cons_append] at read
        rw [List.flatten_cons, List.append_assoc, List.cons_append, manyWithin_cons, hends, hsemi,
          if_neg Bool.false_ne_true, if_neg Bool.false_ne_true, bind_of_ok read]
        simp only [bind, StateT.bind, he]
        cases manyWithin ends item room' rest <;> rfl

/-- Items read where the next token ends them: none. -/
theorem manyWithin_of_clear {rest : List Token} (h : Clear (fun t => !ends t) rest)
    (room : List Token) : manyWithin ends item room rest = .ok ([], rest) := by
  cases room with
  | nil => rfl
  | cons _ room =>
    cases rest with
    | nil => rfl
    | cons t rest =>
      have ht : ends t = true := by simpa using h t rfl
      rw [manyWithin_cons, if_pos ht]

theorem many_recognizes (hi : Recognizes item L never)
    (begins : Begins L fun t => !(ends t || isSymbol ';' t))
    (semicolon : ∀ t, isSymbol ';' t = true → ends t = false) :
    Recognizes (many ends item) (Phrase.symbol ';' + L)∗ fun t => !ends t := by
  refine ⟨fun ts xs rest h => manyWithin_sound hi.sound ts h, ?_⟩
  rintro _ ⟨words, rfl, hwords⟩
  obtain ⟨xs, hxs⟩ := manyWithin_of_words hi begins semicolon words hwords
  refine ⟨xs, fun rest hrest => ?_⟩
  obtain ⟨room', -, he⟩ := hxs rest (words.flatten ++ rest) (Nat.le_refl _)
  rw [manyWithin_of_clear hrest] at he
  rw [show xs = xs ++ [] from (List.append_nil xs).symm]
  exact he

/-- Items that nothing ends are read to the last token. -/
theorem manyWithin_to_end (hi : Gives item fun w _ => w ∈ L) (filled : [] ∉ L)
    {room ts rest : List Token} {xs : List α} (enough : ts.length ≤ room.length)
    (h : manyWithin (fun _ => false) item room ts = .ok (xs, rest)) : rest = [] := by
  induction room generalizing ts xs with
  | nil =>
    obtain rfl := List.eq_nil_of_length_eq_zero (Nat.le_zero.1 enough)
    exact (pure_ok h).2.symm
  | cons _ room ih =>
    cases ts with
    | nil => exact (pure_ok h).2.symm
    | cons t ts =>
      rw [manyWithin_cons, if_neg Bool.false_ne_true] at h
      split_ifs at h with hsemi
      · exact ih (by simpa using enough) h
      · obtain ⟨x, mid, h1, h⟩ := bind_ok h
        obtain ⟨xs', left, h2, h⟩ := bind_ok h
        obtain ⟨-, rfl⟩ := pure_ok h
        obtain ⟨w, he, hw⟩ := hi h1
        have taken : w ≠ [] := fun hnil => filled (hnil ▸ hw)
        have shorter := congrArg List.length he
        have := List.length_pos_of_ne_nil taken
        simp only [List.length_cons, List.length_append] at shorter enough
        exact ih (by omega) h2

/-- **Two rows of items**, one behind the other, give the items of both. -/
theorem many_append (hi : Recognizes item L never)
    (begins : Begins L fun t => !isSymbol ';' t) {v w : List Token} {xs ys : List α}
    (hv : many (fun _ => false) item v = .ok (xs, []))
    (hw : many (fun _ => false) item w = .ok (ys, [])) :
    many (fun _ => false) item (v ++ w) = .ok (xs ++ ys, []) := by
  obtain ⟨_, he, vs, rfl, hvs⟩ := manyWithin_sound hi.sound v hv
  obtain ⟨_, he', ws, rfl, hws⟩ := manyWithin_sound hi.sound w hw
  rw [List.append_nil] at he he'
  subst he he'
  have begins : Begins L fun t => !((fun _ : Token => false) t || isSymbol ';' t) := begins
  have semicolon : ∀ t, isSymbol ';' t = true → (fun _ : Token => false) t = false := fun _ _ => rfl
  obtain ⟨xs', hxs⟩ := manyWithin_of_words hi begins semicolon vs hvs
  obtain ⟨ys', hys⟩ := manyWithin_of_words hi begins semicolon ws hws
  -- both rows read by themselves are read to their ends, where nothing is left
  have alone : ∀ (zs zs' : List α) (us : List Token),
      (∃ room', manyWithin (fun _ => false) item us us =
        (manyWithin (fun _ => false) item room' []).map fun (ys, left) => (zs' ++ ys, left)) →
      many (fun _ => false) item us = .ok (zs, []) → zs' = zs := by
    rintro zs zs' us ⟨room', he⟩ h
    rw [manyWithin_of_clear (clear_nil _)] at he
    have same := he.symm.trans h
    simp only [Except.map, List.append_nil] at same
    cases same
    rfl
  have hxs' : xs' = xs := by
    obtain ⟨room', -, he⟩ := hxs [] vs.flatten (by simp)
    rw [List.append_nil] at he
    exact alone xs xs' _ ⟨room', he⟩ hv
  have hys' : ys' = ys := by
    obtain ⟨room', -, he⟩ := hys [] ws.flatten (by simp)
    rw [List.append_nil] at he
    exact alone ys ys' _ ⟨room', he⟩ hw
  obtain ⟨room', hroom', he⟩ := hxs ws.flatten _ (Nat.le_refl _)
  obtain ⟨room'', -, he''⟩ := hys [] room' (by simpa using hroom')
  rw [manyWithin_of_clear (clear_nil _), List.append_nil] at he''
  show manyWithin _ item _ _ = _
  rw [he, he'', hxs', hys']
  simp [Except.map]

end Many

end Reader

end SchemaDepot
