import SchemaDepot.Proofs.Registry.Compilation
import SchemaDepot.Proofs.Registry.Filing
import SchemaDepot.Proofs.Registry.Names
import SchemaDepot.Proofs.Schema.Faults

/-! # What a publication does

A request is judged part by part, and the first part that is wrong is told; then the store is asked
whether the version is there. A request that is refused leaves all versions and all entries as they
are. One that is taken adds its version and notes it in the entry of its module, and leaves the
rest.

* `PublishRequest.IsFine`: nothing is wrong with a request; `PublishRequest.IsFaulty`: what is wrong
  first; `check_eq_ok_iff`, `check_eq_error_iff`: this is what the check tells.
* `PublishRequest.Registers`: what a publication leaves of a store, if it is taken.
* `Registry.Publishes`: all that a publication does to a registry; `Registry.publish_publishes`. -/

namespace SchemaDepot

/-! ### Refusals -/

section Refusals
variable {ε α β : Type} {e : ε}

theorem check_then_eq_error {x : Except ε Unit} {f : Unit → Except ε β} :
    x >>= f = .error e ↔ x = .error e ∨ x = .ok () ∧ f () = .error e := by
  cases x <;> simp [bind, Except.bind]

/-- **A row is refused for its first element that is.** -/
theorem forM_eq_error_iff {f : α → Except ε Unit} {xs : List α} : xs.forM f = .error e ↔
    ∃ before x after, xs = before ++ x :: after ∧ (∀ y ∈ before, f y = .ok ()) ∧
      f x = .error e := by
  induction xs with
  | nil =>
    refine ⟨nofun, ?_⟩
    rintro ⟨before, x, after, source, -⟩
    exact absurd source.symm (by simp)
  | cons x xs ih =>
    rw [show (x :: xs).forM f = f x >>= fun _ => xs.forM f from rfl, check_then_eq_error, ih]
    constructor
    · rintro (here | ⟨fine, before, y, after, rfl, others, there⟩)
      · exact ⟨[], x, xs, rfl, by simp, here⟩
      · exact ⟨x :: before, y, after, rfl, List.forall_mem_cons.2 ⟨fine, others⟩, there⟩
    · rintro ⟨before, y, after, source, others, there⟩
      cases before with
      | nil =>
        cases source
        exact Or.inl there
      | cons b before =>
        cases source
        obtain ⟨fine, others⟩ := List.forall_mem_cons.1 others
        exact Or.inr ⟨fine, before, y, after, rfl, others, there⟩

end Refusals

/-! ### Requests -/

namespace PublishRequest

/-- Nothing is wrong with the request, if directives of this namespace count. -/
structure IsFine (m : Marker) (q : PublishRequest) : Prop where
  module : VersionId.IsModuleName q.module
  version : VersionId.IsVersionName q.version
  files : ∀ f ∈ q.files, f.IsSchema m
  references : ∀ text ∈ q.dependencies, ∃ id, Reference.Names text id

/-- **What is wrong with the request**: the first of its parts that is, and of its files and its
references the first one. -/
inductive IsFaulty (m : Marker) (q : PublishRequest) : Error → Prop where
  | module : ¬ VersionId.IsModuleName q.module → IsFaulty m q (.invalidModuleName q.module)
  | version : VersionId.IsModuleName q.module → ¬ VersionId.IsVersionName q.version →
    IsFaulty m q (.invalidVersion q.version)
  | file {before after : List TextFile} {f : TextFile} {fault : SyntaxFault} :
    VersionId.IsModuleName q.module → VersionId.IsVersionName q.version →
    q.files = before ++ f :: after → (∀ g ∈ before, g.IsSchema m) →
    Schema.parse m f.content = .error fault →
    IsFaulty m q (.malformed (fault.inFile f.path))
  | reference {before after : List String} {text : String} :
    VersionId.IsModuleName q.module → VersionId.IsVersionName q.version →
    (∀ f ∈ q.files, f.IsSchema m) → q.dependencies = before ++ text :: after →
    (∀ other ∈ before, ∃ id, Reference.Names other id) → (∀ id, ¬ Reference.Names text id) →
    IsFaulty m q (.invalidReference text)

variable {reader : SchemaReader} {q : PublishRequest} {e : Error}

theorem checkFile_eq (reader : SchemaReader) (f : TextFile) :
    checkFile reader f = match Schema.parse reader.marker f.content with
      | .ok _ => .ok ()
      | .error fault => .error (.malformed (fault.inFile f.path)) := by
  unfold checkFile SchemaReader.validate SchemaReader.parse
  cases Schema.parse reader.marker f.content <;> rfl

theorem checkFile_eq_ok {f : TextFile} :
    checkFile reader f = .ok () ↔ f.IsSchema reader.marker := by
  rw [checkFile_eq, TextFile.IsSchema]
  cases Schema.parse reader.marker f.content <;> simp

theorem checkFile_eq_error {f : TextFile} : checkFile reader f = .error e ↔
    ∃ fault, Schema.parse reader.marker f.content = .error fault ∧
      e = .malformed (fault.inFile f.path) := by
  rw [checkFile_eq]
  cases Schema.parse reader.marker f.content <;> simp [eq_comm]

theorem checkReference_eq_ok {text : String} :
    checkReference text = .ok () ↔ ∃ id, Reference.Names text id := by
  unfold checkReference
  constructor
  · intro h
    obtain ⟨ref, hread, -⟩ := exists_of_bind_ok h
    exact ⟨ref.id, Reference.names_of_read hread⟩
  · rintro ⟨id, named⟩
    rw [named.read]
    rfl

theorem checkReference_eq_error {text : String} : checkReference text = .error e ↔
    (∀ id, ¬ Reference.Names text id) ∧ e = .invalidReference text := by
  rw [← Reference.read_eq_error_iff, checkReference]
  cases Reference.read text <;> simp [bind, Except.bind, pure, Except.pure]

/-- **The check lets a request in with which nothing is wrong.** -/
theorem check_eq_ok_iff : q.check reader = .ok () ↔ q.IsFine reader.marker := by
  constructor
  · intro h
    obtain ⟨⟨⟩, module, h⟩ := exists_of_bind_ok h
    obtain ⟨⟨⟩, version, h⟩ := exists_of_bind_ok h
    obtain ⟨⟨⟩, files, references⟩ := exists_of_bind_ok h
    exact {
      module := VersionId.checkModule_eq_ok.1 module
      version := VersionId.checkVersion_eq_ok.1 version
      files := fun f hf => checkFile_eq_ok.1 (forM_eq_ok_iff.1 files f hf)
      references := fun text ht => checkReference_eq_ok.1 (forM_eq_ok_iff.1 references text ht) }
  · intro fine
    have files : q.files.forM (checkFile reader) = .ok () :=
      forM_eq_ok_iff.2 fun f hf => checkFile_eq_ok.2 (fine.files f hf)
    have references : q.dependencies.forM checkReference = .ok () :=
      forM_eq_ok_iff.2 fun text ht => checkReference_eq_ok.2 (fine.references text ht)
    rw [check, VersionId.checkModule_eq_ok.2 fine.module,
      VersionId.checkVersion_eq_ok.2 fine.version, files, references]
    rfl

/-- **The check tells what is wrong first.** -/
theorem check_eq_error_iff : q.check reader = .error e ↔ q.IsFaulty reader.marker e := by
  unfold check
  simp only [check_then_eq_error, VersionId.checkModule_eq_ok, VersionId.checkModule_eq_error,
    VersionId.checkVersion_eq_ok, VersionId.checkVersion_eq_error, forM_eq_ok_iff,
    forM_eq_error_iff, checkFile_eq_ok, checkFile_eq_error, checkReference_eq_ok,
    checkReference_eq_error]
  constructor
  · rintro (⟨module, rfl⟩ | ⟨module, ⟨version, rfl⟩ | ⟨version, file | ⟨files, reference⟩⟩⟩)
    · exact .module module
    · exact .version module version
    · obtain ⟨before, f, after, source, fine, fault, malformed, rfl⟩ := file
      exact .file module version source fine malformed
    · obtain ⟨before, text, after, source, fine, unnamed, rfl⟩ := reference
      exact .reference module version files source fine unnamed
  · intro faulty
    cases faulty with
    | module module => exact Or.inl ⟨module, rfl⟩
    | version module version => exact Or.inr ⟨module, Or.inl ⟨version, rfl⟩⟩
    | file module version source fine malformed =>
      exact Or.inr ⟨module, Or.inr ⟨version, Or.inl ⟨_, _, _, source, fine, _, malformed, rfl⟩⟩⟩
    | reference module version files source fine unnamed =>
      exact Or.inr ⟨module, Or.inr ⟨version, Or.inr ⟨files, _, _, _, source, fine, unnamed, rfl⟩⟩⟩

/-- A file is told of by its path, and before a reference. -/
example :
    let q : PublishRequest :=
      { module := "m", version := "1", files := [⟨"a.proto", ""⟩, ⟨"b.proto", "message A"⟩],
        dependencies := ["n"] }
    (q.check {}).mapError Error.message =
      .error "Syntax error at 1:10: b.proto: expected '\x7b', found end of input" := by
  decide +kernel

theorem IsFaulty.unique {m : Marker} {e' : Error} (h : q.IsFaulty m e) (h' : q.IsFaulty m e') :
    e = e' :=
  Except.error.inj ((@check_eq_error_iff ⟨m, .error⟩ q e).2 h |>.symm.trans
    (check_eq_error_iff.2 h'))

theorem IsFine.not_isFaulty {m : Marker} (fine : q.IsFine m) : ¬ q.IsFaulty m e := by
  intro faulty
  have taken := (@check_eq_ok_iff ⟨m, .error⟩ q).2 fine
  rw [check_eq_error_iff.2 faulty] at taken
  cases taken

end PublishRequest

/-! ### Stores -/

theorem Store.createVersion_of_version? {s : Store} {u v : Version}
    (h : s.version? v.id = some u) : s.createVersion v = .error (.alreadyExists v.id) := by
  rw [createVersion, h]

namespace PublishRequest

/-- **What a publication leaves of a store**, if it is taken and gives a version. -/
structure Registers (q : PublishRequest) (s : Store) (v : Version) (s' : Store) : Prop where
  /-- The version is the one that was asked for, under the checksums of its files. -/
  id : v.id = q.id
  files : v.files = q.files
  dependencies : v.dependencies = q.dependencies
  source : v.source = q.source
  verifies : v.verify = true
  /-- It can be read, behind all versions that were there. -/
  stored : s'.getVersion q.id = .ok v
  versions : s'.versions = s.versions ++ [v]
  /-- Its module has an entry, with the description of the request, or else with the one that it
  had. -/
  entered : ∃ m, s'.getModule q.module = .ok m ∧ m.name = q.module ∧
    m.description = q.description.or (s.description? q.module)
  /-- All else is as it was. -/
  otherVersions : ∀ id, id ≠ q.id → s'.version? id = s.version? id
  otherModules : ∀ name, name ≠ q.module → s'.getModule name = s.getModule name

section Run
variable {reader : SchemaReader} {q : PublishRequest} {e : Error} {s : Store}

theorem run_publish_of_faulty (faulty : q.IsFaulty reader.marker e) :
    (q.publish reader).run s = (.error e, s) := by
  rw [publish, check_eq_error_iff.2 faulty]
  rfl

/-- The store is asked only for a request with which nothing is wrong. -/
theorem run_publish_of_taken (fine : q.IsFine reader.marker)
    (taken : ∃ v, s.version? q.id = some v) :
    (q.publish reader).run s = (.error (.alreadyExists q.id), s.readClock.2) := by
  obtain ⟨v, taken⟩ := taken
  have refused : s.readClock.2.createVersion (q.toVersion s.readClock.1) =
      .error (.alreadyExists q.id) := Store.createVersion_of_version? taken
  rw [publish, check_eq_ok_iff.2 fine]
  simp only [store_eq, Procedure.run, create, refused]

/-- What is left of the entry of the module. -/
theorem entered_of_free (fine : q.IsFine reader.marker) (free : s.version? q.id = none) :
    ∃ m, ((q.publish reader).run s).2.getModule q.module = .ok m ∧ m.name = q.module ∧
      m.description = q.description.or (s.description? q.module) := by
  have mine : (Operation.publish q).Free reader s := by
    rintro _ ⟨⟩
    exact ⟨check_eq_ok_iff.2 fine, free⟩
  have left := Operation.described?_run mine
  rw [Operation.calls, Procedure.run_map] at left
  obtain ⟨m, hm, described⟩ := Option.map_eq_some_iff.1 left
  refine ⟨m, Store.getModule_eq_ok.2 hm, Store.module?_name hm, described.trans ?_⟩
  rw [Store.description?_eq]
  rfl

theorem registers_of_free (fine : q.IsFine reader.marker) (free : s.version? q.id = none) :
    ∃ v, ((q.publish reader).run s).1 = .ok v ∧
      q.Registers s v ((q.publish reader).run s).2 := by
  have entered := entered_of_free fine free
  have frame := Store.frame_apply (.operation reader (.publish q)) s
  rw [Update.apply, Operation.calls, Procedure.run_map] at frame
  obtain ⟨s', m, time, time', created, -, after⟩ := run_publish (check_eq_ok_iff.2 fine) free
  have comes := q.publish_comesTo reader s
  generalize (q.publish reader).run s = left at *
  obtain ⟨answer, final⟩ := left
  cases comes with
  | refused refused =>
    rw [check_eq_ok_iff.2 fine] at refused
    cases refused
  | beaten taken =>
    rw [free] at taken
    cases taken
  | published _ _ stored =>
    refine ⟨_, rfl, ?_⟩
    have own : final.version? q.id = some (q.toVersion s.clock) :=
      (stored q.id).trans (if_pos rfl)
    have kept : final.version? q.id = s'.version? q.id := by
      rw [show final = _ from after]
      rfl
    have same : q.toVersion time = q.toVersion s.clock := by
      have there := Store.version?_of_createVersion created q.id
      rw [if_pos (q.toVersion_id time)] at there
      exact Option.some.inj (there.symm.trans (kept.symm.trans own))
    have versions : final.versions = s.versions ++ [q.toVersion time] := by
      rw [show final = _ from after, (Store.createVersion_eq_ok created).2]
      exact Store.versions_ensureModule ..
    constructor
    case id | files | dependencies | source => rfl
    case verifies => exact Version.verify_sealed _
    case stored => exact Store.getVersion_of_version? own
    case versions => rw [versions, same]
    case entered => exact entered
    case otherVersions => exact fun id other => frame.1 id (Ne.symm other)
    case otherModules =>
      intro name other
      rw [Store.getModule, Store.getModule, frame.2 name (Ne.symm other)]

end Run

end PublishRequest

/-! ### Registries -/

theorem Schema.Faulty.file_eq {text : String} {fault : SyntaxFault} (h : Faulty text fault) :
    fault.file = none := by
  cases h with
  | unreadable h =>
    cases h
    rfl
  | unexpected | unfinished => rfl

/-- The fault of a file has its own place, and tells the path in front. -/
theorem SyntaxFault.detail_inFile {fault : SyntaxFault} (h : fault.file = none) (path : String) :
    (fault.inFile path).detail = path ++ ": " ++ fault.detail := by
  rw [detail, detail, h]
  rfl

namespace Registry

/-- **All that a publication does to a registry.** -/
structure Publishes (r : Registry) (q : PublishRequest) : Prop where
  /-- It is taken exactly if nothing is wrong with it and its version is not there. -/
  taken_iff : (∃ v, (r.publish q).2 = .ok v) ↔
    q.IsFine r.reader.marker ∧ r.store.version? q.id = none
  /-- Otherwise the answer is what is wrong with it first, and last of all that its version is
  there. -/
  refused_iff : ∀ e, (r.publish q).2 = .error e ↔ q.IsFaulty r.reader.marker e ∨
    q.IsFine r.reader.marker ∧ (∃ v, r.store.version? q.id = some v) ∧
      e = .alreadyExists q.id
  /-- What is told of a file is its first fault, at its place and behind its path; it is the first
  file with a fault. -/
  malformed : ∀ fault, (r.publish q).2 = .error (.malformed fault) → ∃ before f after own,
    q.files = before ++ f :: after ∧ (∀ g ∈ before, g.IsSchema r.reader.marker) ∧
      Schema.parse r.reader.marker f.content = .error own ∧ fault.place = own.place ∧
      fault.detail = f.path ++ ": " ++ own.detail
  /-- What is refused leaves all versions and all entries as they are. -/
  unchanged : ∀ e, (r.publish q).2 = .error e →
    (r.publish q).1.store.versions = r.store.versions ∧
      (r.publish q).1.store.modules = r.store.modules
  /-- What is taken is registered. -/
  registers : ∀ v, (r.publish q).2 = .ok v → q.Registers r.store v (r.publish q).1.store
  /-- Nothing but the store is touched. -/
  rest : (r.publish q).1 = { r with store := (r.publish q).1.store }

variable {r : Registry} {q : PublishRequest}

/-- What a publication may come to. -/
theorem publish_cases (r : Registry) (q : PublishRequest) :
    (∃ e, q.IsFaulty r.reader.marker e ∧ r.publish q = (r, .error e)) ∨
    (q.IsFine r.reader.marker ∧ (∃ v, r.store.version? q.id = some v) ∧
      r.publish q = ({ r with store := r.store.readClock.2 }, .error (.alreadyExists q.id))) ∨
    (q.IsFine r.reader.marker ∧ r.store.version? q.id = none ∧
      ∃ v s', r.publish q = ({ r with store := s' }, .ok v) ∧ q.Registers r.store v s') := by
  cases hcheck : q.check r.reader with
  | error e =>
    have faulty := PublishRequest.check_eq_error_iff.1 hcheck
    refine Or.inl ⟨e, faulty, ?_⟩
    rw [publish, perform, PublishRequest.run_publish_of_faulty faulty]
  | ok _ =>
    have fine := PublishRequest.check_eq_ok_iff.1 hcheck
    cases hv : r.store.version? q.id with
    | some v =>
      refine Or.inr (Or.inl ⟨fine, ⟨v, rfl⟩, ?_⟩)
      rw [publish, perform, PublishRequest.run_publish_of_taken fine ⟨v, hv⟩]
    | none =>
      obtain ⟨v, answer, registers⟩ := PublishRequest.registers_of_free fine hv
      exact Or.inr (Or.inr ⟨fine, rfl, v, _, Prod.ext rfl answer, registers⟩)

theorem exists_publish_eq_ok : (∃ v, (r.publish q).2 = .ok v) ↔
    q.IsFine r.reader.marker ∧ r.store.version? q.id = none := by
  rcases r.publish_cases q with ⟨e, faulty, eq⟩ | ⟨fine, ⟨u, there⟩, eq⟩ |
    ⟨fine, free, v, s', eq, -⟩ <;> rw [eq]
  · exact iff_of_false (by simp) fun ⟨fine, _⟩ => fine.not_isFaulty faulty
  · exact iff_of_false (by simp) fun ⟨_, free⟩ => by simp [free] at there
  · exact iff_of_true ⟨v, rfl⟩ ⟨fine, free⟩

theorem exists_publish_of_check (taken : q.check r.reader = .ok ())
    (free : r.store.version? q.id = none) : ∃ v, (r.publish q).2 = .ok v :=
  exists_publish_eq_ok.2 ⟨PublishRequest.check_eq_ok_iff.1 taken, free⟩

theorem publish_eq_error_iff {e : Error} : (r.publish q).2 = .error e ↔
    q.IsFaulty r.reader.marker e ∨ q.IsFine r.reader.marker ∧
      (∃ v, r.store.version? q.id = some v) ∧ e = .alreadyExists q.id := by
  rcases r.publish_cases q with ⟨e', faulty, eq⟩ | ⟨fine, there, eq⟩ |
    ⟨fine, free, v, s', eq, -⟩ <;> rw [eq]
  · constructor
    · rintro ⟨⟩
      exact Or.inl faulty
    · rintro (faulty' | ⟨fine, -⟩)
      · exact congrArg Except.error (faulty.unique faulty')
      · exact absurd faulty fine.not_isFaulty
  · constructor
    · rintro ⟨⟩
      exact Or.inr ⟨fine, there, rfl⟩
    · rintro (faulty | ⟨-, -, rfl⟩)
      · exact absurd faulty fine.not_isFaulty
      · rfl
  · refine iff_of_false nofun ?_
    rintro (faulty | ⟨-, ⟨u, there⟩, -⟩)
    · exact fine.not_isFaulty faulty
    · simp [free] at there

theorem publish_unchanged {e : Error} (h : (r.publish q).2 = .error e) :
    (r.publish q).1.store.versions = r.store.versions ∧
      (r.publish q).1.store.modules = r.store.modules := by
  rcases r.publish_cases q with ⟨e', -, eq⟩ | ⟨-, -, eq⟩ | ⟨-, -, v, s', eq, -⟩ <;> rw [eq] at h ⊢
  · exact ⟨rfl, rfl⟩
  · exact ⟨rfl, rfl⟩
  · cases h

theorem publish_registers {v : Version} (h : (r.publish q).2 = .ok v) :
    q.Registers r.store v (r.publish q).1.store := by
  rcases r.publish_cases q with ⟨e', -, eq⟩ | ⟨-, -, eq⟩ | ⟨-, -, v', s', eq, registers⟩ <;>
    rw [eq] at h ⊢ <;> cases h
  exact registers

/-- What is wrong with a file is told by its path and at its own place. -/
theorem exists_file_of_isFaulty {m : Marker} {fault : SyntaxFault}
    (h : q.IsFaulty m (.malformed fault)) : ∃ before f after own, q.files = before ++ f :: after ∧
      (∀ g ∈ before, g.IsSchema m) ∧ Schema.parse m f.content = .error own ∧
      fault.place = own.place ∧ fault.detail = f.path ++ ": " ++ own.detail := by
  cases h with
  | file module version source fine malformed =>
    have unnamed := (Schema.parse_faulty malformed).file_eq
    exact ⟨_, _, _, _, source, fine, malformed, rfl, SyntaxFault.detail_inFile unnamed _⟩

/-- **What a publication does**, to every registry and for every request. -/
theorem publish_publishes (r : Registry) (q : PublishRequest) : r.Publishes q where
  taken_iff := exists_publish_eq_ok
  refused_iff _ := publish_eq_error_iff
  malformed fault h := by
    rcases publish_eq_error_iff.1 h with faulty | ⟨-, -, ⟨⟩⟩
    exact exists_file_of_isFaulty faulty
  unchanged _ := publish_unchanged
  registers _ := publish_registers
  rest := rfl

end Registry

end SchemaDepot
