import Mathlib.Data.String.Basic
import SchemaDepot.Proofs.Registry.Answers

/-! # Names of versions, written and read

The name of a version is written with an at sign between its two parts, and a reference is read by
its last at sign. So a text is read as the name that it writes whenever the version in it has no at
sign, while more than that is asked of a version that is published.

* `VersionId.IsPublishable`: a version may be published under this name; `checkModule_eq_ok`,
  `checkVersion_eq_ok`: what the two checks of a publication come to.
* `Reference.Names`: a text is a reference to a name; `read_eq_ok_iff`, `read_eq_error_iff`: this
  is what the reader takes.
* `Reference.Names.isPublishable_iff`: what is left to ask of a name that a reference has. -/

namespace SchemaDepot

/-! ### Names -/

namespace VersionId

/-- A module may be published under this name: it is not blank and holds no at sign. -/
structure IsModuleName (name : String) : Prop where
  inked : Text.isBlankText name = false
  noAt : '@' ∉ name.toList

/-- A version may be published under this name: it is not empty and holds neither at signs nor
blanks. -/
structure IsVersionName (name : String) : Prop where
  nonempty : name ≠ ""
  noAt : '@' ∉ name.toList
  noBlank : ∀ c ∈ name.toList, Text.isBlank c = false

/-- A version of a module may be published under this name. -/
structure IsPublishable (id : VersionId) : Prop where
  module : IsModuleName id.module
  version : IsVersionName id.version

variable {name : String} {e : Error}

theorem isModuleName_iff : isModuleName name = true ↔ IsModuleName name := by
  simp only [isModuleName, Bool.and_eq_true, Bool.not_eq_true', List.all_eq_true, bne_iff_ne]
  constructor
  · rintro ⟨inked, noAt⟩
    exact ⟨inked, fun h => noAt '@' h rfl⟩
  · rintro ⟨inked, noAt⟩
    exact ⟨inked, fun c hc same => noAt (same ▸ hc)⟩

theorem isVersionName_iff : isVersionName name = true ↔ IsVersionName name := by
  simp only [isVersionName, Bool.and_eq_true, Bool.not_eq_true', List.all_eq_true, bne_iff_ne,
    String.isEmpty_eq_false_iff]
  constructor
  · rintro ⟨nonempty, each⟩
    exact ⟨nonempty, fun h => (each '@' h).1 rfl, fun c hc => (each c hc).2⟩
  · rintro ⟨nonempty, noAt, noBlank⟩
    exact ⟨nonempty, fun c hc => ⟨fun same => noAt (same ▸ hc), noBlank c hc⟩⟩

theorem checkModule_eq_ok : checkModule name = .ok () ↔ IsModuleName name := by
  rw [← isModuleName_iff, checkModule]
  split <;> simp [*]

theorem checkModule_eq_error :
    checkModule name = .error e ↔ ¬ IsModuleName name ∧ e = .invalidModuleName name := by
  rw [← isModuleName_iff, checkModule]
  split <;> simp [*, eq_comm]

theorem checkVersion_eq_ok : checkVersion name = .ok () ↔ IsVersionName name := by
  rw [← isVersionName_iff, checkVersion]
  split <;> simp [*]

theorem checkVersion_eq_error :
    checkVersion name = .error e ↔ ¬ IsVersionName name ∧ e = .invalidVersion name := by
  rw [← isVersionName_iff, checkVersion]
  split <;> simp [*, eq_comm]

/-- The name of a version is not blank. -/
theorem IsVersionName.inked (h : IsVersionName name) : Text.isBlankText name = false := by
  obtain ⟨c, hc⟩ := List.exists_mem_of_ne_nil name.toList
    fun none => h.nonempty (String.toList_eq_nil_iff.1 none)
  exact List.all_eq_false.2 ⟨c, hc, by simp [h.noBlank c hc]⟩

theorem toList_display (id : VersionId) :
    id.display.toList = id.module.toList ++ '@' :: id.version.toList := by
  simp [display]

end VersionId

/-! ### References -/

namespace Reference

/-- **The text is a reference to this name**: it writes the name, the at sign between its parts is
the last one, and neither part is blank. -/
structure Names (text : String) (id : VersionId) : Prop where
  display : text = id.display
  last : '@' ∉ id.version.toList
  module : Text.isBlankText id.module = false
  version : Text.isBlankText id.version = false

section Split
variable {cs before after : List Char}

theorem splitLast_eq_none : splitLast cs = none ↔ '@' ∉ cs := by
  induction cs with
  | nil => simp [splitLast]
  | cons c cs ih =>
    rw [splitLast, List.mem_cons, not_or, ← ih]
    cases splitLast cs with
    | some split => simp
    | none => by_cases h : c = '@' <;> simp [h, eq_comm]

theorem splitLast_append (unique : '@' ∉ after) :
    splitLast (before ++ '@' :: after) = some (before, after) := by
  induction before with
  | nil => simp [splitLast, splitLast_eq_none.2 unique]
  | cons c cs ih => simp [splitLast, ih]

/-- **A text is split at its last at sign.** -/
theorem splitLast_eq_some : splitLast cs = some (before, after) ↔
    cs = before ++ '@' :: after ∧ '@' ∉ after := by
  refine ⟨fun h => ?_, fun ⟨source, unique⟩ => source ▸ splitLast_append unique⟩
  induction cs generalizing before with
  | nil => cases h
  | cons c cs ih =>
    rw [splitLast] at h
    split at h
    · next front back further =>
      cases h
      obtain ⟨rfl, unique⟩ := ih further
      exact ⟨rfl, unique⟩
    · next nowhere =>
      split at h
      · next here =>
        cases h
        exact ⟨here ▸ rfl, splitLast_eq_none.1 nowhere⟩
      · cases h

end Split

variable {text : String} {id id' : VersionId} {ref : Reference} {e : Error}

theorem Names.read (h : Names text id) : read text = .ok ⟨text, id⟩ := by
  have split : splitLast text.toList = some (id.module.toList, id.version.toList) := by
    rw [h.display, id.toList_display]
    exact splitLast_append h.last
  have inked : (id.module.toList.all Text.isBlank || id.version.toList.all Text.isBlank) = false :=
    Bool.or_eq_false_iff.2 ⟨h.module, h.version⟩
  simp only [Reference.read, split, inked, String.ofList_toList]
  rfl

theorem names_of_read (h : Reference.read text = .ok ref) : Names text ref.id := by
  unfold Reference.read at h
  split at h
  · cases h
  · next before after hsplit =>
    obtain ⟨source, unique⟩ := splitLast_eq_some.1 hsplit
    split at h
    · cases h
    · next inked =>
      cases h
      rw [Bool.or_eq_true, not_or, Bool.not_eq_true, Bool.not_eq_true] at inked
      constructor
      case display => rw [← String.toList_inj, VersionId.toList_display, source]; simp
      case last => simpa using unique
      case module => simpa [Text.isBlankText] using inked.1
      case version => simpa [Text.isBlankText] using inked.2

/-- **What the reader takes**: each reference, for the name that it writes. -/
theorem read_eq_ok_iff : Reference.read text = .ok ref ↔ ref.text = text ∧ Names text ref.id := by
  constructor
  · intro h
    have named := names_of_read h
    have same := Except.ok.inj (h.symm.trans named.read)
    exact ⟨congrArg Reference.text same, named⟩
  · rintro ⟨rfl, named⟩
    exact named.read

/-- **What the reader refuses**: all other texts. -/
theorem read_eq_error_iff : Reference.read text = .error e ↔
    (∀ id, ¬ Names text id) ∧ e = .invalidReference text := by
  constructor
  · refine fun h => ⟨fun id named => ?_, read_error h⟩
    rw [named.read] at h
    cases h
  · rintro ⟨none, rfl⟩
    cases h : Reference.read text with
    | ok ref => exact absurd (names_of_read h) (none ref.id)
    | error e => rw [read_error h]

/-- A text is a reference to one name only. -/
theorem Names.unique (h : Names text id) (h' : Names text id') : id = id' :=
  congrArg Reference.id (Except.ok.inj (h.read.symm.trans h'.read))

/-- A name under which a version may be published is referred to by the text that writes it. -/
theorem names_display (h : id.IsPublishable) : Names id.display id :=
  ⟨rfl, h.version.noAt, h.module.inked, h.version.inked⟩

/-- **What is left to ask of a name that a reference has**: no at sign in the module, and no blank
in the version. -/
theorem Names.isPublishable_iff (h : Names text id) : id.IsPublishable ↔
    '@' ∉ id.module.toList ∧ ∀ c ∈ id.version.toList, Text.isBlank c = false := by
  constructor
  · exact fun fine => ⟨fine.module.noAt, fine.version.noBlank⟩
  · rintro ⟨noAt, noBlank⟩
    refine ⟨⟨h.module, noAt⟩, ⟨fun empty => ?_, h.last, noBlank⟩⟩
    have inked := h.version
    rw [empty] at inked
    cases inked

end Reference

end SchemaDepot
