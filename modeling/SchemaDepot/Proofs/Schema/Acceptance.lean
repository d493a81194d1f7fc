import Mathlib.Order.CompletePartialOrder
import SchemaDepot.Proofs.Schema.Fields
import SchemaDepot.Schema.Parse

/-! # The parser accepts exactly its grammar

* `rpcType_recognizes`, `rpc_recognizes`, ...: declarations with a block, told what a block is.
* `member_recognizes`, `declaration_recognizes`: what may stand in a block of a scope or in a file
  is decided by the next word.
* `block_recognizes`: blocks, by induction on how deep they may nest.
* `Schema.parse_accepts`: a text is parsed if and only if it scans and its significant tokens are a
  phrase for a whole schema.
* `Schema.mem_file_of_parse`: then they are one in the grammar that is free of context, too; not
  every phrase of that one is read (`optionValueText_notRead`). -/

namespace SchemaDepot

open Computability

namespace Phrase

open Reader (isSymbol isWord kind_of_isSymbol)

variable {L M : Language Token} {p : Token → Bool}

theorem beginning_mul (h : [] ∉ L) : beginning p (L * M) = beginning p L * M := by
  ext w
  constructor
  · rintro ⟨⟨v, hv, u, hu, rfl⟩, t, ht, hp⟩
    cases v with
    | nil => exact absurd hv h
    | cons s v => exact ⟨s :: v, ⟨hv, t, ht, hp⟩, u, hu, rfl⟩
  · rintro ⟨v, ⟨hv, t, ht, hp⟩, u, hu, rfl⟩
    cases v with
    | nil => cases ht
    | cons s v => exact ⟨⟨s :: v, hv, u, hu, rfl⟩, t, ht, hp⟩

/-- Behind a word come further ones with a dot each, a name that begins with a dot, or nothing. -/
theorem kstar_add_dotted : (symbol '.' * word)∗ + dotted = 1 + dotted := by
  rw [← Language.one_add_self_mul_kstar_eq_kstar (symbol '.' * word), add_assoc]
  congr 1
  simp only [dotted, maybe, separated, add_mul, mul_assoc, add_left_comm, add_idem]

/-! ### Without leads there are more phrases -/

section Leads
open Grammar (Scope)

variable (leads : Scope → List String)

theorem avoiding_le : avoiding p L ≤ L := fun _ hw => hw.1

theorem field_le (scope : Scope) : field leads scope ≤ field (fun _ => []) scope := by
  unfold field
  rw [avoiding_isOneOf_nil]
  gcongr
  exact avoiding_le

theorem member_le {B C : Scope → Language Token} (h : ∀ scope, B scope ≤ C scope) (scope : Scope) :
    member leads B scope ≤ member (fun _ => []) C scope := by
  have named (kind : String) (scope : Scope) : named B kind scope ≤ named C kind scope := by
    unfold named
    gcongr
    exact h scope
  have extension : extension B ≤ extension C := by
    unfold extension
    gcongr
    exact h .extension
  cases scope
  case message =>
    have blocks := add_le_add (add_le_add (add_le_add (add_le_add (le_refl setting)
      (named "message" .message)) (named "enum" .enumeration)) extension) (named "oneof" .oneof)
    exact add_le_add (add_le_add blocks le_rfl) (field_le leads .message)
  case enumeration => exact add_le_add le_rfl (avoiding_le.trans avoiding_isOneOf_nil.ge)
  case service =>
    refine add_le_add le_rfl ?_
    show Phrase.rpc B ≤ Phrase.rpc C
    unfold Phrase.rpc
    gcongr
    exact h .rpc
  case rpc => exact le_rfl
  case oneof => exact add_le_add le_rfl (avoiding_le.trans avoiding_isOneOf_nil.ge)
  case extension => exact field_le leads _

theorem block_le (depth : Nat) (scope : Scope) :
    block leads depth scope ≤ block (fun _ => []) depth scope := by
  induction depth generalizing scope with
  | zero => exact le_rfl
  | succ depth ih =>
    unfold block
    gcongr
    exact member_le leads ih scope

theorem file_le : file leads ≤ file fun _ => [] := by
  unfold file declaration named extension
  gcongr <;> exact block_le leads _ _

end Leads

end Phrase

namespace Grammar

open Reader
open Phrase (Begins Clear never begins_one)

theorem rpcType_recognizes : Recognizes rpcType Phrase.rpcType never := by
  have type (isStream : Bool) : Recognizes (do
      let type ← dotted "a message type"
      let _ ← symbol ')'
      return (type, isStream)) (Phrase.dotted * Phrase.symbol ')') never :=
    (dotted_recognizes _).bind (fun _ => (token_recognizes _ _).map _) fun w hw rest _ =>
      (begins_one _).clear (isSymbol_apart (by decide)) hw rest
  have begins : Begins (Phrase.dotted * Phrase.symbol ')') _ := begins_dotted.mul _
  have stream := Recognizes.accept (q := isSymbol ')')
    (f := fun b => if b then _ else _) ((Recognizes.pure ("stream", false)) : Recognizes _ _ never)
    (type true) fun h => absurd h begins.nil_notMem
  refine Recognizes.of_eq ((token_recognizes _ _).then fun _ => Recognizes.accept stream
    (type false) fun h => absurd h begins.nil_notMem) ?_
  -- the word alone is a type; with a name behind it, it says that there is a stream
  have noEnd : Phrase.avoiding (isSymbol ')') (Phrase.dotted * Phrase.symbol ')') = _ :=
    Phrase.avoiding_of_begins begins fun t ht => by
      rcases Bool.or_eq_true_iff.1 ht with h | h
      · exact isSymbol_apart (by decide) t h
      · simp [isSymbol, kind_of_isAnyWord h]
  have split := Phrase.beginning_add_avoiding (L := Phrase.dotted * Phrase.symbol ')')
    (p := isWord "stream")
  rw [Phrase.beginning_mul begins_dotted.nil_notMem, Phrase.beginning_dotted] at split
  have types : Phrase.keyword "stream" * (1 + Phrase.dotted) * Phrase.symbol ')' +
      Phrase.avoiding (isWord "stream") (Phrase.dotted * Phrase.symbol ')') =
      Phrase.maybe (Phrase.keyword "stream") * Phrase.dotted * Phrase.symbol ')' := by
    rw [← Phrase.kstar_add_dotted, add_comm _ Phrase.dotted, mul_add, add_mul, add_assoc, split,
      Phrase.maybe, add_mul, add_mul, one_mul, add_comm]
  rw [noEnd, mul_one, Phrase.rpcType, mul_assoc, mul_assoc, ← mul_assoc (Phrase.maybe _), ← types,
    mul_add (Phrase.keyword _), mul_one, add_mul, mul_assoc, mul_add (Phrase.one (isWord _))]
  rfl

section Blocks
variable {block : Scope → Reader Block} {B : Scope → Language Token}
  (hb : ∀ scope, Recognizes (block scope) (B scope) never)
  (begins : ∀ scope, Begins (B scope) (isSymbol '\x7b'))
include hb

theorem namedBlock_recognizes (kind what : String) (content : String → Content) (scope : Scope) :
    Recognizes (namedBlock block kind what content scope) (Phrase.named B kind scope) never :=
  Recognizes.of_eq ((token_recognizes _ _).then fun _ => (token_recognizes _ _).then fun _ =>
    (hb scope).map _) (mul_assoc _ _ _).symm

include begins

theorem extension_recognizes : Recognizes (extension block) (Phrase.extension B) never := by
  refine Recognizes.of_eq ((token_recognizes _ _).then fun _ => (dotted_recognizes _).bind
    (fun _ => (hb .extension).map _) fun w hw rest _ => ?_) (mul_assoc _ _ _).symm
  exact (begins .extension).clear (isSymbol_apart (by decide)) hw rest

theorem rpcBody_recognizes :
    Recognizes (rpcBody block) (Phrase.symbol ';' + B .rpc) never := by
  have semicolon : Recognizes (do return (([] : List Node), ← symbol ';')) (Phrase.symbol ';')
      never := (token_recognizes _ _).map _
  let choice (next : Option Token) : Language Token :=
    if ∃ t ∈ next, isSymbol '\x7b' t = true then B .rpc else Phrase.symbol ';'
  have filled (next : Option Token) : [] ∉ choice next := by
    unfold choice
    split_ifs
    · exact (begins .rpc).nil_notMem
    · exact (begins_one _).nil_notMem
  refine (Recognizes.look (g := fun next => next) (C := choice) (fun _ => rfl) (fun next => ?_)
    filled).of_eq ?_
  · unfold choice
    rcases next with _ | t
    · exact semicolon
    · by_cases ht : isSymbol '\x7b' t = true
      · simpa [ht] using hb .rpc
      · simpa [ht] using semicolon
  · have opens := begins .rpc
    ext w
    cases w with
    | nil => exact iff_of_false (filled none) (by
        rintro (h | h)
        · exact (begins_one _).nil_notMem h
        · exact opens.nil_notMem h)
    | cons t w =>
      show t :: w ∈ choice (some t) ↔ _
      by_cases ht : isSymbol '\x7b' t = true
      · have hsemi : t :: w ∉ Phrase.symbol ';' := fun h => by
          have := isSymbol_apart (by decide : ';' ≠ '\x7b') t ((begins_one _).head h)
          simp_all
        simp only [choice, Option.mem_def, Option.some.injEq, exists_eq_left', ht, if_true]
        exact ⟨Or.inr, Or.rec (fun h => absurd h hsemi) id⟩
      · have hblock : t :: w ∉ B .rpc := fun h => ht (opens.head h)
        simp only [choice, Option.mem_def, Option.some.injEq, exists_eq_left', ht]
        exact ⟨Or.inl, Or.rec id fun h => absurd h hblock⟩

theorem rpc_recognizes : Recognizes (rpc block) (Phrase.rpc B) never := by
  refine Recognizes.of_eq ((token_recognizes _ _).then fun _ => (token_recognizes _ _).then fun _ =>
    rpcType_recognizes.then fun _ => (token_recognizes _ _).then fun _ =>
    rpcType_recognizes.then fun _ => (rpcBody_recognizes hb begins).map _) ?_
  simp only [Phrase.rpc, mul_assoc]
  rfl

end Blocks

/-! ### Ways by the next word -/

section Ways
variable (block : Scope → Reader Block) (B : Scope → Language Token)

/-- What is read in a block of a scope by its first word. -/
def ways : Scope → List (Way Node)
  | .message => [⟨"option", setting, Phrase.setting⟩,
      ⟨"message", message block, Phrase.named B "message" .message⟩,
      ⟨"enum", enumeration block, Phrase.named B "enum" .enumeration⟩,
      ⟨"extend", extension block, Phrase.extension B⟩,
      ⟨"oneof", oneof block, Phrase.named B "oneof" .oneof⟩,
      ⟨"reserved", reserved, Phrase.reserved "reserved"⟩,
      ⟨"extensions", reserved, Phrase.reserved "extensions"⟩]
  | .enumeration => [⟨"option", setting, Phrase.setting⟩,
      ⟨"reserved", reserved, Phrase.reserved "reserved"⟩]
  | .service => [⟨"option", setting, Phrase.setting⟩, ⟨"rpc", rpc block, Phrase.rpc B⟩]
  | .rpc | .oneof => [⟨"option", setting, Phrase.setting⟩]
  | .extension => []

/-- What is read in a block of a scope if the first word says nothing. -/
def other : Scope → Option String → Reader Node
  | .message, _ | .extension, _ => field true
  | .enumeration, some _ => enumValue
  | .enumeration, none => expected "an enum value"
  | .service, _ => expected "'rpc' or 'option'"
  | .rpc, _ => expected "an rpc option"
  | .oneof, _ => field false

/-- The phrases for that. -/
def otherPhrase : Scope → Language Token
  | .message | .extension => Phrase.label * Phrase.bareField +
      Phrase.avoiding (Phrase.isOneOf Phrase.labels) Phrase.bareField
  | .enumeration => Phrase.enumValue
  | .service | .rpc => 0
  | .oneof => Phrase.bareField

/-- What is read in a file by the first word. -/
def fileWays : List (Way Node) :=
  [⟨"syntax", dialect, Phrase.keyword "syntax" * (Phrase.symbol '=' * (Phrase.literals *
      Phrase.symbol ';'))⟩,
    ⟨"edition", dialect, Phrase.keyword "edition" * (Phrase.symbol '=' * (Phrase.literals *
      Phrase.symbol ';'))⟩,
    ⟨"package", package, Phrase.package⟩, ⟨"import", importFile, Phrase.importFile⟩,
    ⟨"option", setting, Phrase.setting⟩,
    ⟨"message", message block, Phrase.named B "message" .message⟩,
    ⟨"enum", enumeration block, Phrase.named B "enum" .enumeration⟩,
    ⟨"service", service block, Phrase.named B "service" .service⟩,
    ⟨"extend", extension block, Phrase.extension B⟩]

theorem member_eq (scope : Scope) :
    member block scope = peekWord >>= choose (other scope) (ways block B scope) := by
  cases scope
  case extension => rfl
  all_goals
    funext ts
    simp only [member, bind_of_ok (peekWord_apply ts)]
    generalize nextWord ts.head? = next
    simp only [ways, choose]
    split <;> simp_all [other]

theorem declaration_eq : declaration block = peekWord >>=
    choose (fun _ => expected "a top-level declaration") (fileWays block B) := by
  funext ts
  simp only [declaration, bind_of_ok (peekWord_apply ts)]
  generalize nextWord ts.head? = next
  simp only [fileWays, choose]
  split <;> simp_all

theorem setting_fits : Way.Fits ⟨"option", setting, Phrase.setting⟩ never :=
  Way.fits_of_begins setting_recognizes (((begins_one _).mul _).mul _)

theorem reserved_fits (w : String) : Way.Fits ⟨w, reserved, Phrase.reserved w⟩ never :=
  Way.fits_of_any reserved_recognizes

variable {block B} (hb : ∀ scope, Recognizes (block scope) (B scope) never)
  (begins : ∀ scope, Begins (B scope) (isSymbol '\x7b'))
include hb

theorem namedBlock_fits (kind what : String) (content : String → Content) (scope : Scope) :
    Way.Fits ⟨kind, namedBlock block kind what content scope, Phrase.named B kind scope⟩ never :=
  Way.fits_of_begins (namedBlock_recognizes hb kind what content scope)
    (((begins_one _).mul _).mul _)

include begins

theorem extension_fits :
    Way.Fits ⟨"extend", extension block, Phrase.extension B⟩ never :=
  Way.fits_of_begins (extension_recognizes hb begins) (((begins_one _).mul _).mul _)

theorem rpc_fits : Way.Fits ⟨"rpc", rpc block, Phrase.rpc B⟩ never :=
  Way.fits_of_begins (rpc_recognizes hb begins)
    (((((begins_one _).mul _).mul _).mul _).mul _ |>.mul _)

theorem ways_fit (scope : Scope) : ∀ w ∈ ways block B scope, w.Fits never := by
  cases scope <;> simp only [ways, List.forall_mem_cons]
  case message => exact ⟨setting_fits, namedBlock_fits hb _ _ _ _, namedBlock_fits hb _ _ _ _,
    extension_fits hb begins, namedBlock_fits hb _ _ _ _, reserved_fits _, reserved_fits _, nofun⟩
  case enumeration => exact ⟨setting_fits, reserved_fits _, nofun⟩
  case service => exact ⟨setting_fits, rpc_fits hb begins, nofun⟩
  case rpc => exact ⟨setting_fits, nofun⟩
  case oneof => exact ⟨setting_fits, nofun⟩
  case extension => exact nofun

theorem fileWays_fit : ∀ w ∈ fileWays block B, w.Fits never := by
  simp only [fileWays, List.forall_mem_cons]
  exact ⟨Way.fits_of_any dialect_recognizes, Way.fits_of_any dialect_recognizes,
    Way.fits_of_begins package_recognizes (((begins_one _).mul _).mul _),
    Way.fits_of_begins importFile_recognizes ((((begins_one _).mul _).mul _).mul _), setting_fits,
    namedBlock_fits hb _ _ _ _, namedBlock_fits hb _ _ _ _, namedBlock_fits hb _ _ _ _,
    extension_fits hb begins, nofun⟩

end Ways

/-- A reader that does not depend on the next word. -/
theorem anyWord_recognizes {r : Reader Node} {L : Language Token} (h : Recognizes r L never)
    (filled : [] ∉ L) : Recognizes (peekWord >>= fun _ => r) L never :=
  Recognizes.glance peekWord_apply (fun _ => h) filled

theorem begins_enumValue : Begins Phrase.enumValue Phrase.isAnyWord :=
  (((((begins_one _).mul _).mul _).mul _).mul _).mul _

theorem nil_notMem_otherPhrase (scope : Scope) : [] ∉ otherPhrase scope := by
  cases scope
  case message | extension =>
    rintro (h | h)
    · exact (Phrase.begins_label.mul _).nil_notMem h
    · exact Phrase.begins_bareField.nil_notMem h.1
  case enumeration => exact begins_enumValue.nil_notMem
  case oneof => exact Phrase.begins_bareField.nil_notMem
  case service | rpc => exact Language.notMem_zero _

theorem other_recognizes (scope : Scope) :
    Recognizes (peekWord >>= other scope) (otherPhrase scope) never := by
  cases scope
  case message => exact anyWord_recognizes labelled_recognizes (nil_notMem_otherPhrase .message)
  case extension => exact anyWord_recognizes labelled_recognizes (nil_notMem_otherPhrase .message)
  case oneof => exact anyWord_recognizes unlabelled_recognizes (nil_notMem_otherPhrase .oneof)
  case service | rpc => exact anyWord_recognizes (expected_recognizes _) (Language.notMem_zero _)
  case enumeration =>
    -- a value of an enum begins with a word, whichever
    let C (next : Option Token) : Language Token :=
      if (nextWord next).isSome then Phrase.enumValue else 0
    have look : Recognizes (peekWord >>= other .enumeration) {w | w ∈ C w.head?} never := by
      refine Recognizes.look peekWord_apply (fun next => ?_) (fun next => ?_)
      · unfold C
        cases nextWord next with
        | none => exact expected_recognizes _
        | some _ => exact enumValue_recognizes
      · unfold C
        split_ifs
        · exact nil_notMem_otherPhrase .enumeration
        · exact Language.notMem_zero _
    refine look.of_eq ?_
    ext w
    show w ∈ C w.head? ↔ w ∈ Phrase.enumValue
    unfold C
    split_ifs with h
    · exact Iff.rfl
    · refine iff_of_false (Language.notMem_zero w) fun hw => h ?_
      obtain ⟨t, us, rfl, ht⟩ := begins_enumValue w hw
      simp [nextWord, kind_of_isAnyWord ht]

/-- What is read by the first word, and what is read if that says nothing, make up a scope. -/
theorem ways_phrases (block : Scope → Reader Block) (B : Scope → Language Token) (scope : Scope) :
    ((ways block B scope).map Way.phrase).sum +
      Phrase.avoiding (Phrase.isOneOf ((ways block B scope).map Way.lead)) (otherPhrase scope) =
      Phrase.member Phrase.leads B scope := by
  -- a label is none of the words that begin something else in a message
  have labelled : Phrase.avoiding (Phrase.isOneOf ["option", "message", "enum", "extend", "oneof",
      "reserved", "extensions"]) (Phrase.label * Phrase.bareField +
      Phrase.avoiding (Phrase.isOneOf Phrase.labels) Phrase.bareField) =
      Phrase.field Phrase.leads .message := by
    have apart := Phrase.avoiding_of_begins (Phrase.begins_label.mul Phrase.bareField)
      (Phrase.isOneOf_apart (v := ["option", "message", "enum", "extend", "oneof", "reserved",
        "extensions"]) (w := Phrase.labels) (by decide))
    rw [Phrase.avoiding_add, apart, Phrase.avoiding_avoiding, ← Phrase.isOneOf_append]
    rfl
  cases scope <;>
    simp only [ways, otherPhrase, Phrase.member, List.map_cons, List.map_nil, List.sum_cons,
      List.sum_nil, add_zero, zero_add, add_assoc]
  case message => rw [labelled]
  case enumeration | oneof => rfl
  case service | rpc => rw [Phrase.avoiding_zero, add_zero]
  case extension => exact Phrase.avoiding_isOneOf_nil

/-- **What may stand in a block of a scope**, if blocks are what `B` says. -/
theorem member_recognizes {block : Scope → Reader Block} {B : Scope → Language Token}
    (hb : ∀ scope, Recognizes (block scope) (B scope) never)
    (begins : ∀ scope, Begins (B scope) (isSymbol '\x7b')) (scope : Scope) :
    Recognizes (member block scope) (Phrase.member Phrase.leads B scope) never := by
  rw [member_eq block B]
  refine (choose_recognizes (ways_fit hb begins scope) ?_ (other_recognizes scope)
    (nil_notMem_otherPhrase scope)).of_eq (ways_phrases block B scope)
  cases scope <;> simp only [ways, List.map_cons, List.map_nil] <;> decide

theorem declaration_recognizes {block : Scope → Reader Block} {B : Scope → Language Token}
    (hb : ∀ scope, Recognizes (block scope) (B scope) never)
    (begins : ∀ scope, Begins (B scope) (isSymbol '\x7b')) :
    Recognizes (declaration block) (Phrase.declaration B) never := by
  rw [declaration_eq block B]
  refine (choose_recognizes (fileWays_fit hb begins)
    (by simp only [fileWays, List.map_cons, List.map_nil]; decide)
    (anyWord_recognizes (expected_recognizes _) (Language.notMem_zero _))
    (Language.notMem_zero _)).of_eq ?_
  simp only [fileWays, List.map_cons, List.map_nil, List.sum_cons, List.sum_nil, add_zero,
    Phrase.avoiding_zero, Phrase.declaration, Phrase.dialect, add_mul, mul_assoc, add_assoc]

theorem begins_block (leads : Scope → List String) (depth : Nat) (scope : Scope) :
    Begins (Phrase.block leads depth scope) (isSymbol '\x7b') := by
  cases depth with
  | zero => exact nofun
  | succ depth => exact ((begins_one _).mul _).mul _

theorem begins_keyword (k : String) (L : Language Token) :
    Begins (Phrase.keyword k * L) Phrase.isNameStart :=
  ((begins_one _).mul L).imp Phrase.isNameStart_of_isWord

theorem begins_setting : Begins Phrase.setting Phrase.isNameStart := (begins_keyword _ _).mul _

theorem begins_named (B : Scope → Language Token) (kind : String) (scope : Scope) :
    Begins (Phrase.named B kind scope) Phrase.isNameStart := (begins_keyword _ _).mul _

theorem begins_extension (B : Scope → Language Token) :
    Begins (Phrase.extension B) Phrase.isNameStart := (begins_keyword _ _).mul _

theorem begins_field (leads : Scope → List String) (scope : Scope) :
    Begins (Phrase.field leads scope) Phrase.isNameStart := by
  have labelled : Begins (Phrase.label * Phrase.bareField) Phrase.isNameStart :=
    (Phrase.begins_label.mul _).imp fun t ht => by
      rw [Phrase.isNameStart, (Bool.and_eq_true_iff.1 ht).1, Bool.or_true]
  exact labelled.or fun w hw => Phrase.begins_bareField w hw.1

theorem begins_member (leads : Scope → List String) (B : Scope → Language Token) (scope : Scope) :
    Begins (Phrase.member leads B scope) Phrase.isNameStart := by
  have named := begins_named B
  have reserved (w : String) : Begins (Phrase.reserved w) Phrase.isNameStart := begins_keyword _ _
  have rpc : Begins (Phrase.rpc B) Phrase.isNameStart :=
    ((((begins_keyword _ _).mul _).mul _).mul _).mul _
  cases scope
  case message =>
    exact (((((begins_setting.or (named _ _)).or (named _ _)).or (begins_extension B)).or
      (named _ _)).or ((reserved _).or (reserved _))).or (begins_field _ _)
  case enumeration =>
    refine (begins_setting.or (reserved _)).or fun w hw => ?_
    refine begins_enumValue.imp (fun t ht => ?_) w hw.1
    rw [Phrase.isNameStart, ht, Bool.or_true]
  case service => exact begins_setting.or rpc
  case rpc => exact begins_setting
  case oneof => exact begins_setting.or fun w hw => Phrase.begins_bareField w hw.1
  case extension => exact begins_field _ _

theorem begins_declaration (B : Scope → Language Token) :
    Begins (Phrase.declaration B) Phrase.isNameStart := by
  have named := begins_named B
  have package : Begins Phrase.package Phrase.isNameStart := (begins_keyword _ _).mul _
  have importFile : Begins Phrase.importFile Phrase.isNameStart :=
    ((begins_keyword _ _).mul _).mul _
  have dialect : Begins Phrase.dialect Phrase.isNameStart := by
    have kinds : Begins (Phrase.keyword "syntax" + Phrase.keyword "edition") Phrase.isNameStart :=
      ((begins_one _).imp Phrase.isNameStart_of_isWord).or
        ((begins_one _).imp Phrase.isNameStart_of_isWord)
    exact ((kinds.mul _).mul _).mul _
  exact ((((((dialect.or package).or importFile).or begins_setting).or (named _ _)).or
    (named _ _)).or (named _ _)).or (begins_extension B)

/-- What can begin a declaration ends no block, nor is it an empty statement. -/
theorem isSymbol_eq_false_of_isNameStart {c : Char} (hc : c ≠ '.') {t : Token}
    (ht : Phrase.isNameStart t = true) : isSymbol c t = false := by
  rcases Bool.or_eq_true_iff.1 ht with h | h
  · exact isSymbol_apart hc.symm t h
  · simp [isSymbol, kind_of_isAnyWord h]

/-- **Blocks**, by how deep they may nest. -/
theorem block_recognizes (depth : Nat) (scope : Scope) :
    Recognizes (block depth scope) (Phrase.block Phrase.leads depth scope) never := by
  induction depth generalizing scope with
  | zero =>
    refine ⟨fun ts a rest h => ?_, nofun⟩
    simp only [block, bind, Except.bind] at h
    split at h <;> cases h
  | succ depth ih =>
    have begins := (begins_member Phrase.leads (Phrase.block Phrase.leads depth) scope).imp
      (q := fun t => !(isSymbol '\x7d' t || isSymbol ';' t)) fun t ht => by
        rw [isSymbol_eq_false_of_isNameStart (by decide) ht,
          isSymbol_eq_false_of_isNameStart (by decide) ht]
        rfl
    refine Recognizes.of_eq ((token_recognizes _ _).then fun _ => (many_recognizes
      (member_recognizes ih (begins_block _ depth) scope) begins
      (isSymbol_apart (by decide))).bind (fun _ => (token_recognizes _ _).map _)
        fun w hw rest _ => ?_) (mul_assoc _ _ _).symm
    exact (begins_one _).clear (fun t ht => by rw [ht]; rfl) hw rest

theorem declarationOfFile_recognizes : Recognizes (declaration (block maxNesting))
    (Phrase.declaration (Phrase.block Phrase.leads maxNesting)) never :=
  declaration_recognizes (block_recognizes _) (begins_block _ _)

/-- No declaration begins with a semicolon. -/
theorem declaration_apart (B : Scope → Language Token) :
    Begins (Phrase.declaration B) fun t => !isSymbol ';' t :=
  (begins_declaration B).imp fun t ht => by
    rw [isSymbol_eq_false_of_isNameStart (by decide) ht]
    rfl

/-- **A whole schema** is read to its end. -/
theorem file_recognizes : Recognizes file (Phrase.file Phrase.leads) fun _ => true :=
  many_recognizes declarationOfFile_recognizes (declaration_apart _) fun _ _ => rfl

theorem file_to_end {ts rest : List Token} {nodes : List Node} (h : file ts = .ok (nodes, rest)) :
    rest = [] :=
  manyWithin_to_end declarationOfFile_recognizes.sound (begins_declaration _).nil_notMem
    (Nat.le_refl _) h

theorem file_accepts (ts : List Token) :
    (∃ nodes, file ts = .ok (nodes, [])) ↔ ts ∈ Phrase.file Phrase.leads := by
  constructor
  · rintro ⟨nodes, h⟩
    obtain ⟨w, rfl, hw⟩ := file_recognizes.sound h
    rwa [List.append_nil]
  · intro h
    obtain ⟨nodes, hnodes⟩ := file_recognizes.complete ts h
    exact ⟨nodes, by simpa using hnodes [] (Phrase.clear_nil _)⟩

end Grammar

namespace Schema

/-- **The parser accepts exactly its grammar**: it succeeds if and only if the text scans and its
tokens without the comments are a phrase for a whole schema. -/
theorem parse_accepts (m : Marker) (text : String) :
    (∃ root, parse m text = .ok root) ↔
      ∃ ts final, Token.scan text = .ok (ts, final) ∧
        Token.significant ts ∈ Phrase.file Phrase.leads := by
  constructor
  · rintro ⟨root, h⟩
    obtain ⟨ts, final, nodes, rest, hscan, hfile, -⟩ := parse_eq_ok.1 h
    obtain rfl := Grammar.file_to_end hfile
    exact ⟨ts, final, hscan, (Grammar.file_accepts _).1 ⟨nodes, hfile⟩⟩
  · rintro ⟨ts, final, hscan, hts⟩
    obtain ⟨nodes, hfile⟩ := (Grammar.file_accepts _).2 hts
    exact ⟨_, parse_eq_ok.2 ⟨ts, final, nodes, [], hscan, hfile, rfl⟩⟩

/-- What is parsed is a phrase also where fields and values of enums may begin with any word. -/
theorem mem_file_of_parse {m : Marker} {text : String} {root : Node} (h : parse m text = .ok root) :
    ∃ ts final, Token.scan text = .ok (ts, final) ∧
      Token.significant ts ∈ Phrase.file fun _ => [] := by
  obtain ⟨ts, final, nodes, rest, hscan, hfile, -⟩ := parse_eq_ok.1 h
  obtain rfl := Grammar.file_to_end hfile
  exact ⟨ts, final, hscan, Phrase.file_le _ ((Grammar.file_accepts _).1 ⟨nodes, hfile⟩)⟩

/-- An enum with one value is a phrase for a schema, if its value may have the name it has. -/
theorem enum_mem_file {leads : Grammar.Scope → List String}
    {kind name opening value equals number semi closing : Token}
    (hkind : Reader.isWord "enum" kind) (hname : Phrase.isAnyWord name)
    (hopening : Reader.isSymbol '\x7b' opening) (hvalue : Phrase.isAnyWord value)
    (free : Phrase.isOneOf (leads .enumeration) value = false)
    (hequals : Reader.isSymbol '=' equals) (hnumber : number.kind = .integer)
    (hsemi : Reader.isSymbol ';' semi) (hclosing : Reader.isSymbol '\x7d' closing) :
    [kind, name, opening, value, equals, number, semi, closing] ∈ Phrase.file leads := by
  have alone {L : Language Token} {w : List Token} (hw : w ∈ L) : w ∈ L∗ :=
    ⟨[w], by simp, by simpa using hw⟩
  have value : [value] ++ [equals] ++ [] ++ [number] ++ [] ++ [semi] ∈ Phrase.enumValue :=
    ⟨_, ⟨_, ⟨_, ⟨_, ⟨_, ⟨value, hvalue, rfl⟩, _, ⟨equals, hequals, rfl⟩, rfl⟩, _, Or.inl rfl, rfl⟩,
      _, ⟨number, by simp [hnumber], rfl⟩, rfl⟩, _, Or.inl rfl, rfl⟩, _, ⟨semi, hsemi, rfl⟩, rfl⟩
  have member : _ ∈ Phrase.symbol ';' + Phrase.member leads (Phrase.block leads 127) .enumeration :=
    Or.inr (Or.inr ⟨value, by rintro t ⟨⟩; exact free⟩)
  have block : [opening] ++ _ ++ [closing] ∈ Phrase.block leads 128 .enumeration :=
    ⟨_, ⟨_, ⟨opening, hopening, rfl⟩, _, alone member, rfl⟩, _, ⟨closing, hclosing, rfl⟩, rfl⟩
  have named : [kind] ++ [name] ++ _ ∈
      Phrase.named (Phrase.block leads Grammar.maxNesting) "enum" .enumeration :=
    ⟨_, ⟨_, ⟨kind, hkind, rfl⟩, _, ⟨name, hname, rfl⟩, rfl⟩, _, block, rfl⟩
  have declaration : _ ∈ Phrase.symbol ';' +
      Phrase.declaration (Phrase.block leads Grammar.maxNesting) :=
    Or.inr (Or.inl (Or.inl (Or.inr named)))
  exact alone declaration

/-- An enum with a value that is named like the keyword of an option. -/
def optionValueText : String := "enum E \x7b option = 1; \x7d"

/-- The enum is a phrase for a schema if a value may have any name, but it is not read as one. -/
theorem optionValueText_notRead : (∃ ts final, Token.scan optionValueText = .ok (ts, final) ∧
    Token.significant ts ∈ Phrase.file fun _ => []) ∧
    ¬ ∃ root, parse {} optionValueText = .ok root := by
  constructor
  · have tokens : (Token.scan optionValueText).toOption.map
        (fun found => (Token.significant found.1).map fun t => (t.kind, t.text)) =
        some [(.word, "enum"), (.word, "E"), (.symbol '\x7b', "\x7b"), (.word, "option"),
          (.symbol '=', "="), (.integer, "1"), (.symbol ';', ";"), (.symbol '\x7d', "\x7d")] := by
      decide +kernel
    cases hscan : Token.scan optionValueText with
    | error fault => rw [hscan] at tokens; cases tokens
    | ok found =>
      obtain ⟨ts, final⟩ := found
      refine ⟨ts, final, rfl, ?_⟩
      rw [hscan] at tokens
      have tokens : (Token.significant ts).map _ = _ := Option.some.inj tokens
      generalize Token.significant ts = us at tokens ⊢
      simp only [List.map_eq_cons_iff, List.map_eq_nil_iff, Prod.mk.injEq] at tokens
      obtain ⟨_, _, rfl, ⟨k1, t1⟩, _, _, rfl, ⟨k2, -⟩, _, _, rfl, ⟨k3, -⟩, _, _, rfl, ⟨k4, -⟩,
        _, _, rfl, ⟨k5, -⟩, _, _, rfl, ⟨k6, -⟩, _, _, rfl, ⟨k7, -⟩, _, _, rfl, ⟨k8, -⟩, rfl⟩ :=
        tokens
      apply enum_mem_file <;>
        simp [Reader.isWord, Reader.isSymbol, Phrase.isAnyWord, Phrase.isOneOf, *]
  · have failed : (parse {} optionValueText).toBool = false := by decide +kernel
    rintro ⟨root, h⟩
    rw [h] at failed
    cases failed

end Schema

end SchemaDepot
