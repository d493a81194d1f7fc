import SchemaDepot.Proofs.Schema.Leaves

/-! # Fields, values of enums and ranges

* `fieldType_recognizes`: the word `map` begins a map only with a bracket behind it.
* `labelled_recognizes`, `fieldBody_recognizes`: a field; a label is always read as one.
* `enumValue_recognizes`, `reserved_recognizes`: the rest of what stands in a block without one. -/

namespace SchemaDepot

open Computability

namespace Phrase

open Reader (isSymbol isWord kind_of_isWord kind_of_isSymbol)

variable {L : Language Token} {p : Token → Bool}

/-- Phrases begin as `p` tells, or they do not. -/
theorem beginning_add_avoiding : beginning p L + avoiding p L = L := by
  ext w
  refine ⟨Or.rec And.left And.left, fun hw => ?_⟩
  by_cases h : ∃ t ∈ w.head?, p t = true
  · exact Or.inl ⟨hw, h⟩
  · exact Or.inr ⟨hw, fun t ht => Bool.eq_false_iff.2 fun hp => h ⟨t, ht, hp⟩⟩

/-- Words with dots between them that begin with the word `k`. -/
theorem beginning_dotted (k : String) :
    beginning (isWord k) dotted = keyword k * (symbol '.' * word)∗ := by
  ext w
  constructor
  · rintro ⟨⟨_, rfl | ⟨dot, hdot, rfl⟩, _, ⟨_, ⟨t, -, rfl⟩, v, hv, rfl⟩, rfl⟩, u, hu, hk⟩
    · cases hu
      exact ⟨[t], ⟨t, hk, rfl⟩, v, hv, rfl⟩
    · cases hu
      simp [isWord, kind_of_isSymbol hdot] at hk
  · rintro ⟨_, ⟨t, hk, rfl⟩, v, hv, rfl⟩
    have word : isAnyWord t = true := by simp [isAnyWord, (kind_of_isWord hk).1]
    exact ⟨⟨[], Or.inl rfl, _, ⟨[t], ⟨t, word, rfl⟩, v, hv, rfl⟩, rfl⟩, t, rfl, hk⟩

/-- The words that can be the label of a field. -/
def labels : List String := ["optional", "required", "repeated"]

theorem isOneOf_append (v w : List String) :
    isOneOf (v ++ w) = fun t => isOneOf v t || isOneOf w t := by
  funext t
  simp only [isOneOf, List.contains_append, Bool.and_or_distrib_left]

theorem isWord_eq_false_of_isOneOf {k : String} {ks : List String} (hk : k ∉ ks) {t : Token}
    (ht : isOneOf ks t = true) : isWord k t = false := by
  refine Bool.eq_false_iff.2 fun hw => hk ?_
  rw [← (kind_of_isWord hw).2]
  simpa using (Bool.and_eq_true_iff.1 ht).2

theorem isOneOf_apart {v w : List String} (h : ∀ k ∈ w, k ∉ v) (t : Token)
    (ht : isOneOf w t = true) : isOneOf v t = false := by
  simp only [isOneOf, Bool.and_eq_true, List.contains_iff_mem] at ht
  simp [isOneOf, ht.1, h t.text ht.2]

theorem begins_keywords (ks : List String) : Begins (ks.map keyword).sum (isOneOf ks) := by
  induction ks with
  | nil => exact nofun
  | cons k ks ih =>
    rw [List.map_cons, List.sum_cons, isOneOf_cons]
    exact (begins_one _).add ih

theorem label_eq : label = (labels.map keyword).sum := by
  simp only [labels, List.map_cons, List.map_nil, List.sum_cons, List.sum_nil, add_zero,
    ← add_assoc]
  rfl

theorem begins_label : Begins label (isOneOf labels) := label_eq ▸ begins_keywords labels

/-- The token can begin the type of a field. -/
def isNameStart (t : Token) : Bool := isSymbol '.' t || isAnyWord t

theorem isNameStart_of_isWord {k : String} (t : Token) (h : isWord k t = true) :
    isNameStart t = true := by
  simp [isNameStart, isAnyWord, (kind_of_isWord h).1]

theorem begins_fieldType : Begins fieldType isNameStart := by
  have map : Begins (keyword "map" * symbol '<' * dotted * symbol ',' * dotted * symbol '>')
      (isWord "map") := (((((begins_one _).mul _).mul _).mul _).mul _).mul _
  exact (map.imp isNameStart_of_isWord).or Grammar.begins_dotted

theorem begins_bareField : Begins bareField isNameStart :=
  ((((begins_fieldType.mul _).mul _).mul _).mul _).mul _

end Phrase

namespace Grammar

open Reader
open Phrase (Begins Clear never begins_one)

/-! ### Fields -/

theorem fieldType_recognizes :
    Recognizes fieldType Phrase.fieldType fun t => isSymbol '.' t || isSymbol '<' t := by
  have dot : ∀ t, isSymbol '.' t = true → (isSymbol '.' t || isSymbol '<' t) = true := by simp_all
  have map : Recognizes (do
      let key ← dotted "a map key type"
      let _ ← symbol ','
      let value ← dotted "a map value type"
      let _ ← symbol '>'
      return "map<" ++ key ++ ", " ++ value ++ ">")
      (Phrase.dotted * (Phrase.symbol ',' * (Phrase.dotted * Phrase.symbol '>'))) never :=
    (dotted_recognizes _).bind (fun _ => (token_recognizes _ _).then fun _ =>
      (dotted_recognizes _).bind (fun _ => (token_recognizes _ _).map _) fun w hw rest _ =>
        (begins_one _).clear (isSymbol_apart (by decide)) hw rest)
      fun w hw rest _ => ((begins_one _).mul _).clear (isSymbol_apart (by decide)) hw rest
  have name : Recognizes (do
      let words ← followers '.' (word "a type name")
      return ".".intercalate ("map" :: words.map Token.text))
      (Phrase.symbol '.' * Phrase.word)∗ (isSymbol '.') :=
    Recognizes.map (followers_recognizes (token_recognizes _ _) fun _ _ => rfl) _
  have bracket := Recognizes.accept (q := isSymbol '<')
    (f := fun b => if b then _ else _) (map.weaken nofun) (name.weaken dot)
    fun _ t ht => by simp [ht]
  refine Recognizes.of_eq (Recognizes.accept bracket ((dotted_recognizes _).weaken dot)
    fun h => absurd h begins_dotted.nil_notMem) ?_
  have noBracket : Phrase.avoiding (isSymbol '<') (Phrase.symbol '.' * Phrase.word)∗ = _ :=
    Phrase.avoiding_kstar ((begins_one _).mul _) (isSymbol_apart (by decide))
  have split := Phrase.beginning_add_avoiding (L := Phrase.dotted) (p := isWord "map")
  rw [Phrase.beginning_dotted] at split
  rw [noBracket, mul_add, add_assoc]
  refine (congrArg _ split).trans ?_
  simp only [Phrase.fieldType, mul_assoc]
  rfl

theorem integer_recognizes (what : String) : Recognizes (integer what) Phrase.integer never :=
  (token_recognizes _ what).map _

/-- Options in brackets or none, and the semicolon that ends a declaration. -/
theorem compactOptions_end_recognizes {α : Type} (g : List CompactOption → Token → α) :
    Recognizes (do
      let options ← compactOptions
      return g options (← symbol ';'))
      (Phrase.maybe Phrase.compactOptions * Phrase.symbol ';') never :=
  compactOptions_recognizes.bind (fun _ => (token_recognizes _ _).map _) fun w hw rest _ =>
    (begins_one _).clear (isSymbol_apart (by decide)) hw rest

/-- What stands behind the label of a field. -/
theorem fieldBody_recognizes (start : Position) (label : Option FieldLabel) :
    Recognizes (fieldBody start label) Phrase.bareField never := by
  refine Recognizes.of_eq (fieldType_recognizes.bind (fun _ => (token_recognizes _ _).then fun _ =>
    (token_recognizes _ _).then fun _ => (integer_recognizes _).then fun _ =>
      compactOptions_end_recognizes _) fun w hw rest _ => ?_) ?_
  · refine ((begins_one _).mul _).clear (fun t ht => ?_) hw rest
    simp [isSymbol, kind_of_isAnyWord ht]
  · simp only [Phrase.bareField, Phrase.word, Phrase.symbol, mul_assoc]
    rfl

/-- A label may stand before anything; what begins like one begins with one. -/
theorem fieldLabel_recognizes {f : Option FieldLabel → Reader Node} {L : Language Token}
    (hf : ∀ label, Recognizes (f label) L never) (filled : [] ∉ L) :
    Recognizes (fieldLabel >>= f)
      (Phrase.label * L + Phrase.avoiding (Phrase.isOneOf Phrase.labels) L) never := by
  -- one label more, tried before the others
  have more (k : String) {ks : List String} {s : Reader (Option FieldLabel)} (label : FieldLabel)
      (hk : k ∉ ks) (hs : Recognizes (s >>= f)
        ((ks.map Phrase.keyword).sum * L + Phrase.avoiding (Phrase.isOneOf ks) L) never) :
      Recognizes ((do if ← acceptWord k then return some label else s) >>= f)
        (((k :: ks).map Phrase.keyword).sum * L +
          Phrase.avoiding (Phrase.isOneOf (k :: ks)) L) never := by
    have begins := (Phrase.begins_keywords ks).mul L
    rw [bind_assoc]
    refine Recognizes.of_eq (Recognizes.accept (hf (some label)) hs ?_) ?_
    · rintro (h | h)
      · exact absurd h begins.nil_notMem
      · exact absurd h.1 filled
    · have others := Phrase.avoiding_of_begins begins fun t =>
        Phrase.isWord_eq_false_of_isOneOf hk
      rw [Phrase.avoiding_add, others, Phrase.avoiding_avoiding, Phrase.isOneOf_cons, List.map_cons,
        List.sum_cons, add_mul, add_assoc]
      rfl
  have none : Recognizes ((return none) >>= f)
      (0 * L + Phrase.avoiding (Phrase.isOneOf []) L) never := by
    rw [zero_mul, zero_add, Phrase.avoiding_isOneOf_nil]
    exact hf none
  rw [Phrase.label_eq]
  exact more "optional" .optional (by decide) <| more "required" .required (by decide) <|
    more "repeated" .repeated (by decide) none

/-- The reader of fields that may have a label. -/
theorem labelled_recognizes : Recognizes (field true) (Phrase.label * Phrase.bareField +
    Phrase.avoiding (Phrase.isOneOf Phrase.labels) Phrase.bareField) never := by
  refine Recognizes.glance (g := fun next => (next.map (·.span.start)).getD Position.origin)
    (fun _ => rfl) (fun start => ?_) ?_
  · exact fieldLabel_recognizes (fun _ => fieldBody_recognizes _ _) Phrase.begins_bareField.nil_notMem
  · rintro (h | h)
    · exact (Phrase.begins_label.mul _).nil_notMem h
    · exact Phrase.begins_bareField.nil_notMem h.1

/-- The reader of fields without a label. -/
theorem unlabelled_recognizes : Recognizes (field false) Phrase.bareField never := by
  refine Recognizes.glance (g := fun next => (next.map (·.span.start)).getD Position.origin)
    (fun _ => rfl) (fun start => ?_) Phrase.begins_bareField.nil_notMem
  simp only [Bool.false_eq_true, if_false, pure_bind]
  exact fieldBody_recognizes _ _

/-! ### Values of enums -/

theorem enumValue_recognizes : Recognizes enumValue Phrase.enumValue never := by
  have number (name : Token) (negative : Bool) : Recognizes (do
      let number ← integer "an enum number"
      let number := if negative then "-" ++ number else number
      let options ← compactOptions
      return leaf (.enumValue ⟨name.text, number, options⟩) name.span.start (← symbol ';'))
      (Phrase.integer * (Phrase.maybe Phrase.compactOptions * Phrase.symbol ';')) never :=
    (integer_recognizes _).then fun _ => compactOptions_end_recognizes fun _ _ => _
  refine Recognizes.of_eq ((token_recognizes _ _).then fun name =>
    (token_recognizes _ _).then fun _ =>
      (acceptToken_recognizes _).bind (number name) fun w hw rest _ => ?_) ?_
  · exact (begins_one _).mul _ |>.clear (fun t ht => by simp_all [isSymbol]) hw rest
  · simp only [Phrase.enumValue, Phrase.word, Phrase.symbol, mul_assoc]
    rfl

/-! ### Ranges -/

theorem nil_notMem_rangesWithin (brackets : Nat) : [] ∉ Phrase.rangesWithin brackets := by
  rintro ⟨inner, last, he, -⟩
  simp at he

/-- Ranges are at their end, or they go on behind a token. -/
theorem cons_mem_rangesWithin {brackets : Nat} {t : Token} {w : List Token} :
    t :: w ∈ Phrase.rangesWithin brackets ↔
      (isSymbol ';' t = true ∧ brackets = 0 ∧ w = []) ∨
      (¬(isSymbol ';' t = true ∧ brackets = 0) ∧ Phrase.isPlain t = true ∧
        w ∈ Phrase.rangesWithin (Phrase.openAfter brackets [t])) := by
  constructor
  · rintro ⟨inner, last, he, hlast, hopen, hplain, hsemi⟩
    cases inner with
    | nil =>
      cases he
      exact Or.inl ⟨hlast, hopen, rfl⟩
    | cons u inner =>
      cases he
      refine Or.inr ⟨fun h => hsemi [] t inner rfl h.1 h.2, hplain t List.mem_cons_self, inner,
        last, rfl, hlast, hopen, fun u hu => hplain u (List.mem_cons_of_mem t hu), ?_⟩
      rintro before u after rfl hu
      exact hsemi (t :: before) u after rfl hu
  · rintro (⟨ht, rfl, rfl⟩ | ⟨hgo, hplain, inner, last, rfl, hlast, hopen, hplains, hsemi⟩)
    · exact ⟨[], t, rfl, ht, rfl, nofun, fun before u after he => by simp at he⟩
    · refine ⟨t :: inner, last, rfl, hlast, hopen, ?_, ?_⟩
      · intro u hu
        rcases List.mem_cons.1 hu with rfl | hu
        · exact hplain
        · exact hplains u hu
      · rintro before u after he hu
        cases before with
        | nil =>
          cases he
          exact fun h => hgo ⟨hu, h⟩
        | cons v before =>
          cases he
          exact hsemi before u after rfl hu

/-- What ranges do with a token that does not end them. -/
theorem ranges_cons {brackets : Nat} {t : Token} (first : String) (item : List String)
    (ht : ¬(isSymbol ';' t = true ∧ brackets = 0)) (hplain : Phrase.isPlain t = true) :
    ∃ (item' : List String) (g : List String × Token → List String × Token), ∀ ts,
      ranges first brackets item (t :: ts) =
        (ranges first (Phrase.openAfter brackets [t]) item' ts).map (Prod.map g id) := by
  have hno : (isSymbol ';' t && brackets == 0) = false := by simpa using ht
  by_cases hcomma : (isSymbol ',' t && brackets == 0) = true
  · obtain ⟨hc, hb⟩ := Bool.and_eq_true_iff.1 hcomma
    obtain rfl : brackets = 0 := by simpa using hb
    refine ⟨[], Prod.map (addItem item) id, fun ts => ?_⟩
    have inside : Phrase.openAfter 0 [t] = 0 := by
      simp [Phrase.openAfter, isSymbol_apart (by decide : ',' ≠ '[') t hc,
        isSymbol_apart (by decide : ',' ≠ ']') t hc]
    rw [ranges, hno, hcomma, inside]
    rfl
  · refine ⟨item ++ [t.text], id, fun ts => ?_⟩
    obtain ⟨hopen, hclose⟩ := isPlain_eq_true.1 hplain
    rw [ranges, hno, Bool.eq_false_iff.2 hcomma, hopen, hclose]
    simp only [Bool.false_eq_true, if_false, Bool.or_false]
    exact (congrFun Except.map_id _).symm

/-- A brace among ranges is a fault. -/
theorem isPlain_of_ranges {first : String} {brackets : Nat} {item : List String} {t : Token}
    {ts rest : List Token} {found : List String × Token}
    (h : ranges first brackets item (t :: ts) = .ok (found, rest)) :
    Phrase.isPlain t = true := by
  have brace {c : Char} (hsemi : c ≠ ';') (hcomma : c ≠ ',') (hc : isSymbol c t = true)
      (hor : (isSymbol '\x7b' t || isSymbol '\x7d' t) = true) : False := by
    rw [ranges, isSymbol_apart hsemi t hc, isSymbol_apart hcomma t hc, hor] at h
    cases h
  rw [isPlain_eq_true, Bool.eq_false_iff, Bool.eq_false_iff]
  refine ⟨fun hopen => ?_, fun hclose => ?_⟩
  · exact brace (by decide) (by decide) hopen (by rw [hopen, Bool.true_or])
  · exact brace (by decide) (by decide) hclose (by rw [hclose, Bool.or_true])

theorem ranges_gives (first : String) (brackets : Nat) (item : List String) :
    Gives (ranges first brackets item) fun w _ => w ∈ Phrase.rangesWithin brackets := by
  intro ts
  induction ts generalizing brackets item with
  | nil =>
    intro found rest h
    cases h
  | cons t ts ih =>
    intro found rest h
    by_cases hend : isSymbol ';' t = true ∧ brackets = 0
    · obtain ⟨ht, rfl⟩ := hend
      rw [ranges, ht] at h
      cases h
      exact ⟨[t], rfl, cons_mem_rangesWithin.2 (Or.inl ⟨ht, rfl, rfl⟩)⟩
    · have hplain := isPlain_of_ranges h
      obtain ⟨item', g, he⟩ := ranges_cons first item hend hplain
      rw [he] at h
      obtain ⟨⟨found', rest'⟩, htail, he⟩ := Lexeme.map_ok h
      cases he
      obtain ⟨w, rfl, hw⟩ := ih _ item' htail
      exact ⟨t :: w, rfl, cons_mem_rangesWithin.2 (Or.inr ⟨hend, hplain, hw⟩)⟩

theorem ranges_of_mem (first : String) {w : List Token} {brackets : Nat} (item : List String)
    (hw : w ∈ Phrase.rangesWithin brackets) :
    ∃ found, ∀ rest, ranges first brackets item (w ++ rest) = .ok (found, rest) := by
  induction w generalizing brackets item with
  | nil => exact absurd hw (nil_notMem_rangesWithin brackets)
  | cons t w ih =>
    rcases cons_mem_rangesWithin.1 hw with ⟨ht, rfl, rfl⟩ | ⟨hend, hplain, hw⟩
    · refine ⟨(addItem item [], t), fun rest => ?_⟩
      rw [List.cons_append, ranges, ht]
      rfl
    · obtain ⟨item', g, he⟩ := ranges_cons first item hend hplain
      obtain ⟨found, hfound⟩ := ih item' hw
      refine ⟨g found, fun rest => ?_⟩
      rw [List.cons_append, he, hfound]
      rfl

theorem reserved_recognizes : Recognizes reserved
    (Phrase.one (fun _ => true) * Phrase.rangesWithin 0) never :=
  (token_recognizes _ _).then fun first => Recognizes.map
    ⟨ranges_gives _ 0 [], fun w hw => by
      obtain ⟨found, hfound⟩ := ranges_of_mem first.text [] hw
      exact ⟨found, fun rest _ => hfound rest⟩⟩ _

end Grammar

end SchemaDepot
