import SchemaDepot.Proofs.Compile.Onward
import SchemaDepot.Proofs.Compile.Request
import SchemaDepot.Proofs.Generate.Emission
import SchemaDepot.Proofs.Registry.Publication
import SchemaDepot.Proofs.Registry.Permanence
import SchemaDepot.Proofs.Registry.Union
import SchemaDepot.Registry.Basic

/-! # What was published can be compiled

A publication lets in schemas alone, whatever directives count for it, and the generators that come
with the library fail for nothing but what is no schema. So they give their files for every version
that resolves among versions that were published.

* `Version.IsPublished`: a publication gave the version; `isPublished_iff`: what that comes to.
* `Store.HoldsPublished`: all versions that can be read were published; `HoldsPublished.publish`,
  `Traffic.holdsPublished_run`: publications by themselves and side by side keep this.
* `Store.HoldsPublished.isSchema`: every file of a resolution is a schema.
* `GeneratorInput.IsCompiled`: the results of both generators for an input;
  `Registry.compileVersion_isCompiled`: a version that resolves comes to them.
* `Registry.compileVersion_cacheTellsApart`: of the cache, the results rest on the hash alone. -/

namespace SchemaDepot

/-! ### Publications -/

/-- **A publication gave the version**: of some request, under some way to read schemas, in some
store. -/
def Version.IsPublished (v : Version) : Prop :=
  ∃ (reader : SchemaReader) (q : PublishRequest) (s : Store),
    ((q.publish reader).run s).1 = .ok v

namespace PublishRequest

variable {reader : SchemaReader} {q : PublishRequest} {s : Store} {v : Version}

/-- The version is read back from the store that it was put into, whose versions stay as they
are. -/
theorem run_enter (entered : (s.module? q.module).isSome) (stored : s.version? q.id = some v) :
    (q.enter.run s).1 = .ok v ∧ ∀ id, (q.enter.run s).2.version? id = s.version? id := by
  obtain ⟨m, -, read⟩ := Store.getModule_of_isSome entered
  rw [enter, Procedure.run, read]
  exact ⟨Store.getVersion_of_version? stored, fun _ => rfl⟩

/-- **What a publication comes to.** -/
inductive ComesTo (reader : SchemaReader) (q : PublishRequest) (s : Store) :
    Except Error Version → Store → Prop where
  /-- It is refused for its request, -/
  | refused {e : Error} : q.check reader = .error e → ComesTo reader q s (.error e) s
  /-- or since the version is there, -/
  | beaten {s' : Store} : (s.version? q.id).isSome → (∀ id, s'.version? id = s.version? id) →
    ComesTo reader q s (.error (.alreadyExists q.id)) s'
  /-- or it puts the version that was asked for into the store. -/
  | published {s' : Store} : q.check reader = .ok () → s.version? q.id = none →
    (∀ id, s'.version? id = if q.id = id then some (q.toVersion s.clock) else s.version? id) →
    ComesTo reader q s (.ok (q.toVersion s.clock)) s'

theorem publish_comesTo (reader : SchemaReader) (q : PublishRequest) (s : Store) :
    ComesTo reader q s ((q.publish reader).run s).1 ((q.publish reader).run s).2 := by
  rw [publish]
  cases hcheck : q.check reader with
  | error e => exact .refused hcheck
  | ok _ =>
    simp only [store_eq, Procedure.run, create]
    cases hc : s.readClock.2.createVersion (q.toVersion s.readClock.1) with
    | error e =>
      obtain ⟨taken, rfl⟩ := Store.createVersion_eq_error hc
      exact .beaten taken fun _ => rfl
    | ok s' =>
      have stored := Store.version?_of_createVersion hc
      obtain ⟨given, kept⟩ := run_enter (Store.isSome_module?_of_createVersion hc)
        ((stored q.id).trans (if_pos rfl))
      rw [given]
      exact .published hcheck (Store.createVersion_eq_ok hc).1 fun id =>
        (kept id).trans (stored id)

end PublishRequest

theorem Version.isPublished_iff {v : Version} : v.IsPublished ↔
    ∃ (reader : SchemaReader) (q : PublishRequest) (time : Nat),
      q.check reader = .ok () ∧ v = q.toVersion time := by
  constructor
  · rintro ⟨reader, q, s, h⟩
    have comes := q.publish_comesTo reader s
    rw [h] at comes
    cases comes with
    | published fine => exact ⟨reader, q, s.clock, fine, rfl⟩
  · rintro ⟨reader, q, time, fine, rfl⟩
    refine ⟨reader, q, { clock := time }, ?_⟩
    have comes := q.publish_comesTo reader { clock := time }
    generalize (q.publish reader).run { clock := time } = left at comes ⊢
    obtain ⟨answer, s'⟩ := left
    cases comes with
    | refused refused =>
      rw [fine] at refused
      cases refused
    | beaten taken => cases taken
    | published => rfl

/-- Every version that can be read was published. -/
def Store.HoldsPublished (s : Store) : Prop :=
  ∀ id v, s.version? id = some v → v.IsPublished

theorem Store.holdsPublished_empty : empty.HoldsPublished := by
  rintro id v ⟨⟩

/-- **A publication puts only a published version into a store.** -/
theorem Store.HoldsPublished.publish {s : Store} (h : s.HoldsPublished) (reader : SchemaReader)
    (q : PublishRequest) : ((q.publish reader).run s).2.HoldsPublished := by
  have comes := q.publish_comesTo reader s
  intro id v hv
  generalize (q.publish reader).run s = left at comes hv
  obtain ⟨answer, s'⟩ := left
  cases comes with
  | refused => exact h id v hv
  | beaten _ kept => exact h id v (kept id ▸ hv)
  | published fine _ stored =>
    rw [stored] at hv
    split at hv
    · cases hv
      exact Version.isPublished_iff.2 ⟨reader, q, s.clock, fine, rfl⟩
    · exact h id v hv

/-- **Operations side by side put only published versions into a store.** -/
theorem Traffic.holdsPublished_run {s : Store} (h : s.HoldsPublished) (reader : SchemaReader)
    (os : List Operation) (turns : List Nat) :
    ((start reader os s).run turns).store.HoldsPublished := by
  intro id v hv
  obtain ⟨own, consistent, -⟩ :=
    (consistent_start reader (admits_all s os)).run (admits_all s os) turns
  rcases consistent.stored id v hv with old | ⟨i, q, hq, -, hown⟩
  · exact h id v old
  · have owns := consistent.owner hq hown
    obtain ⟨time, hv⟩ := owns.own
    exact Version.isPublished_iff.2 ⟨reader, q, time, owns.fine, hv⟩

/-! ### Schemas -/

theorem forM_eq_ok_iff {α ε : Type} {f : α → Except ε Unit} {xs : List α} :
    xs.forM f = .ok () ↔ ∀ x ∈ xs, f x = .ok () := by
  induction xs with
  | nil => exact iff_of_true rfl (by rintro x ⟨⟩)
  | cons x xs ih =>
    rw [List.forall_mem_cons, ← ih]
    constructor
    · intro h
      obtain ⟨⟨⟩, first, rest⟩ := exists_of_bind_ok h
      exact ⟨first, rest⟩
    · rintro ⟨first, rest⟩
      show (f x >>= fun _ => xs.forM f) = .ok ()
      rw [first]
      exact rest

/-- A file that may be published is a schema, whatever directives count. -/
theorem PublishRequest.isSchema_of_checkFile {reader : SchemaReader} {f : TextFile}
    (h : checkFile reader f = .ok ()) (m : Marker) : f.IsSchema m := by
  suffices f.IsSchema reader.marker from TextFile.isSchema_iff.1 this
  cases hparse : Schema.parse reader.marker f.content with
  | ok root => exact ⟨root, hparse⟩
  | error fault =>
    have refused : reader.validate f.content = .error (.malformed fault) := by
      simp only [SchemaReader.validate, SchemaReader.parse, hparse]
      rfl
    rw [checkFile, refused] at h
    cases h

/-- **Every file of a published version is a schema**, whatever directives count. -/
theorem Version.IsPublished.isSchema {v : Version} (h : v.IsPublished) (m : Marker) :
    ∀ f ∈ v.files, f.IsSchema m := by
  obtain ⟨reader, q, time, fine, rfl⟩ := isPublished_iff.1 h
  obtain ⟨-, -, fine⟩ := exists_of_bind_ok fine
  obtain ⟨-, -, fine⟩ := exists_of_bind_ok fine
  obtain ⟨⟨⟩, files, -⟩ := exists_of_bind_ok fine
  exact fun f hf => PublishRequest.isSchema_of_checkFile (forM_eq_ok_iff.1 files f hf) m

/-- A file of a resolution comes from the version itself or from one that is stored. -/
theorem Resolver.exists_version_of_mem {r : Resolver} {s : Store} {v : Version}
    {needed : Resolution} {f : TextFile} (h : r.resolve s.getVersion v = .ok needed)
    (hf : f ∈ needed.files) : ∃ u, f ∈ u.files ∧ (u = v ∨ s.version? u.id = some u) := by
  have nodup := nodup_root_versions h
  obtain ⟨-, rfl⟩ := (resolve_eq_ok (isReadable_of_ok h)).1 h
  set versions := (List.range r.limit).flatMap (r.found s v)
  have others : ∀ u ∈ versions, u.id ≠ v.id := fun u hu same =>
    (List.nodup_cons.1 nodup).1 (same ▸ List.mem_map_of_mem hu)
  rw [(Resolution.ofVersions_unites others).files] at hf
  obtain ⟨x, hx, rfl⟩ := List.mem_map.1 hf
  have own : ∀ {u : Version}, x ∈ FileUnion.filesOf u → x.file ∈ u.files := by
    intro u hu
    obtain ⟨f', hf', rfl⟩ := List.mem_map.1 hu
    exact hf'
  rcases List.mem_append.1 (FileUnion.mem_of_mem_firstOnes hx) with hx | hx
  · exact ⟨v, own hx, Or.inl rfl⟩
  · obtain ⟨u, hu, hx⟩ := List.mem_flatMap.1 hx
    obtain ⟨k, -, hk⟩ := List.mem_flatMap.1 hu
    exact ⟨u, own hx, Or.inr (version?_of_mem_found hk)⟩

/-- **Every file of a resolution is a schema**, if only published versions are stored. -/
theorem Store.HoldsPublished.isSchema {s : Store} {r : Resolver} {id : VersionId}
    {needed : Resolution} (h : s.HoldsPublished) (found : s.resolve r id = .ok needed)
    (m : Marker) : ∀ f ∈ needed.files, f.IsSchema m := by
  obtain ⟨v, hv, found⟩ := exists_of_bind_ok found
  intro f hf
  obtain ⟨u, hu, rfl | stored⟩ := Resolver.exists_version_of_mem found hf
  · exact (h id u (Store.getVersion_eq_ok.1 hv)).isSchema m f hu
  · exact (h u.id u stored).isSchema m f hu

/-! ### Results -/

/-- The result is a success, for the language, with these files. -/
structure CompileResult.Gives (r : CompileResult) (language : String) (out : GeneratorOutput) :
    Prop where
  language : r.language = language
  success : r.success = true
  error : r.error = none
  files : r.files = out.files
  packageFiles : r.packageFiles = out.packageFiles

namespace GeneratorInput

/-- The results are those of both generators for an input: each gives what its generator emits. -/
inductive IsBuilt (m : Marker) (input : GeneratorInput) : List CompileResult → Prop where
  | intro {code descriptor : GeneratorOutput} {x y : CompileResult} :
    Code.generate m input = .ok code → Code.Covers input code → x.Gives "rust" code →
    Descriptor.generate m input = .ok descriptor → Descriptor.Covers m input descriptor →
    y.Gives "descriptor" descriptor → IsBuilt m input [x, y]

/-- **An input was compiled by both generators**, with these results. -/
structure IsCompiled (m : Marker) (input : GeneratorInput) (c : Compiler)
    (results : List CompileResult) : Prop where
  /-- There are two successes, -/
  success : results.map CompileResult.success = [true, true]
  /-- with what the generators emit, unless the compiler has mistaken the work for other work. -/
  built : c.CacheTellsApart → input.IsBuilt m results

end GeneratorInput

namespace Backends

variable {m : Marker} {input : GeneratorInput} {language : String} {backend : Backend}

/-- What a language comes to whose generator gives files. -/
theorem gives_of_outcome? {backends : Backends} {out : GeneratorOutput} {r : CompileResult}
    {failure : Option Failure} (hb : backends.find? language = some backend)
    (hrun : backend.run 0 input = .output out)
    (h : backends.outcome? input language = some (r.core, failure)) : r.Gives language out := by
  rw [outcome?, hb] at h
  simp only [hrun, Run.conclude, Option.map_some, Option.some.injEq, Ticket.outcomeOf] at h
  obtain ⟨core, -⟩ := Prod.mk.inj h
  have fields : ∀ {α : Type} (f : CompileResult → α), f r.core = f _ :=
    fun f => congrArg f core.symm
  exact ⟨fields CompileResult.language, fields CompileResult.success, fields CompileResult.error,
    fields CompileResult.files, fields CompileResult.packageFiles⟩

/-- **Both languages come to a success for schemas.** -/
theorem isCompiled_of_concludes {c : Compiler}
    (schemas : ∀ f ∈ input.files ++ input.dependencyFiles, f.IsSchema m) (sound : c.Sound)
    (hb : c.backends = builtIn m) {outcomes : List Compiler.Outcome}
    (each : List.Forall₂ (c.Concludes input) ["rust", "descriptor"] outcomes) :
    input.IsCompiled m c (outcomes.map Prod.fst) := by
  obtain _ | ⟨hx, _ | ⟨hy, _ | _⟩⟩ := each
  have code : c.backends.find? "rust" = some (rust m) := hb ▸ rfl
  have descriptor : c.backends.find? "descriptor" = some (Backends.descriptor m) := hb ▸ rfl
  constructor
  case success =>
    have first := hx.success sound code (run_builtIn_eq_output (hb ▸ code) schemas)
    have second := hy.success sound descriptor (run_builtIn_eq_output (hb ▸ descriptor) schemas)
    exact congrArg₂ (fun a b => [a, b]) first second
  case built =>
    intro apart
    have det : c.backends.IsDeterministic := hb ▸ builtIn_isDeterministic m
    obtain ⟨files, hfiles⟩ := Code.exists_generate_iff.2 schemas
    obtain ⟨documents, hdocuments⟩ := Descriptor.exists_generate_iff.2 schemas
    exact .intro hfiles (Code.covers_of_generate hfiles)
      (gives_of_outcome? code (run_ofFunction hfiles 0) (hx.outcome? sound det apart))
      hdocuments (Descriptor.covers_of_generate hdocuments)
      (gives_of_outcome? descriptor (run_ofFunction hdocuments 0) (hy.outcome? sound det apart))

end Backends

/-! ### Versions -/

namespace Registry

/-- **A version is compiled by both generators that come with the library**, whatever the compiler
has done before and does besides. -/
structure Compiles (r : Registry) (m : Marker) (settings : CompilerOptions) (id : VersionId)
    (options : Options) (includeServices : Bool) (input : GeneratorInput) : Prop where
  /-- No generator fails, however often it was called before. -/
  runs : ∀ language backend, (Backends.builtIn m).find? language = some backend →
    ∀ n, ∃ out, backend.run n input = .output out
  /-- If a permit is free and the request was not cancelled, it comes to both results. -/
  request : ∀ es c, (Compiler.new (.builtIn m) settings).run es = some c → r.compiler = some c →
    0 < c.free → c.requests ∉ c.cancelled →
    ∃ c' results, r.compileVersion id ["rust", "descriptor"] options includeServices =
      ({ r with compiler := some c' }, .ok results) ∧ input.IsCompiled m c' results
  /-- A call for them among others takes only so many steps, -/
  bounded : ∀ as s, (Service.new (.builtIn m) settings).run as = some s →
    ∃ n, ∀ bs s', s.run bs = some s' → (∀ b ∈ bs, b.isProgress = true) → bs.length ≤ n
  /-- goes on by itself until it has returned, -/
  goesOn : ∀ as s call, (Service.new (.builtIn m) settings).run as = some s → call ∈ s.calls →
    call.hasReturned s.compiler = false → s.GoesOn
  /-- and answers with both results then, if it was not cancelled and no job ran out of time. -/
  answer : ∀ as s call, (Service.new (.builtIn m) settings).run as = some s → call ∈ s.calls →
    call.input = input → call.languages = ["rust", "descriptor"] →
    call.hasReturned s.compiler = true →
    (∀ slot ∈ call.slots, Service.IsUndisturbed as s call slot.2) →
    ∀ order, order.Perm (List.range 2) → ∃ results,
      call.answer? s.compiler order = some (.ok results) ∧ input.IsCompiled m s.compiler results

variable {r : Registry} {id : VersionId} {needed : Resolution}

/-- **What was published can be compiled.** -/
theorem compileVersion_isCompiled (published : r.store.HoldsPublished)
    (found : r.resolve id = .ok needed) (m : Marker) (settings : CompilerOptions)
    (options : Options) (includeServices : Bool) :
    r.Compiles m settings id options includeServices (needed.toInput options includeServices) := by
  set input := needed.toInput options includeServices
  have schemas : ∀ f ∈ input.files ++ input.dependencyFiles, f.IsSchema m :=
    published.isSchema found m
  constructor
  case runs => exact fun _ _ hb => Backends.run_builtIn_eq_output hb schemas
  case request =>
    intro es c reached hc free live
    have hb : c.backends = .builtIn m := (Compiler.run_frame reached).1
    have each := Compiler.compileEach_concludes ["rust", "descriptor"] free live
      (Compiler.run_manned reached)
      fun _ _ h n => Backends.run_builtIn_ne_never (hb ▸ h) n input
    obtain ⟨es', reached'⟩ :=
      Compiler.compileEach_reached reached input ["rust", "descriptor"] .never
    refine ⟨_, _, ?_, Backends.isCompiled_of_concludes schemas (Compiler.run_sound reached')
      (Compiler.run_frame reached').1 each⟩
    simp only [compileVersion, compile, getCompiler, hc, found]
    rfl
  case bounded => exact fun as s h => (Service.run_proceeds h).bounded
  case goesOn =>
    exact fun as s call h hcall running =>
      Service.run_goesOn h (fun _ _ => Backends.run_builtIn_ne_never) hcall running
  case answer =>
    intro as s call h hcall asked hlanguages returned undisturbed order horder
    have hs := Service.run_settled h
    obtain ⟨es, hes, -⟩ := Service.run_events h
    have length : call.slots.length = 2 := by
      have := congrArg List.length hlanguages
      rwa [Call.languages, List.length_map] at this
    have slots : call.slots ≠ [] := by
      rintro none
      rw [none] at length
      cases length
    have each : List.Forall₂ (s.compiler.Concludes input) ["rust", "descriptor"]
        (call.slots.map fun slot => s.compiler.outcome slot.1 slot.2.place?) := by
      rw [← hlanguages, Call.languages, List.forall₂_map_left_iff, List.forall₂_map_right_iff,
        List.forall₂_same, ← asked]
      intro slot hslot
      have settled := List.all_eq_true.1 returned slot hslot
      exact (hs.slotAnswered hcall hslot settled).concludes h (undisturbed slot hslot)
    have compiled := Backends.isCompiled_of_concludes schemas hs.sound
      (Compiler.run_frame hes).1 each
    rw [List.map_map] at compiled
    exact ⟨_, Call.answer?_eq slots returned (length ▸ horder), compiled⟩

/-- The compiler that is left takes no job for another if the hash under the fingerprints takes no
input for another. -/
theorem compileVersion_cacheTellsApart {backends : Backends} {settings : CompilerOptions}
    {es : List Event} {c c' : Compiler} {languages : List String} {options : Options}
    {includeServices : Bool} (reached : (Compiler.new backends settings).run es = some c)
    (hc : r.compiler = some c)
    (left : (r.compileVersion id languages options includeServices).1.compiler = some c')
    (hash : c'.HashesApart) : c'.CacheTellsApart := by
  obtain ⟨es', reached'⟩ : ∃ es', (Compiler.new backends settings).run es' = some c' := by
    simp only [compileVersion, compile, getCompiler, hc, Option.some.injEq] at left
    subst left
    cases r.resolve id with
    | error e => exact ⟨es, reached⟩
    | ok needed =>
      dsimp only [Compiler.compileAll]
      split
      · exact ⟨es, reached⟩
      · exact Compiler.compileEach_reached reached _ languages .never
  exact fun _ => Compiler.run_tellsApart reached' hash

/-- A version with a nested message and a service and one with an enum that has aliases, published
for the markers of one namespace and compiled for those of another. -/
theorem compileVersion_isCompiled_shop :
    let core : PublishRequest :=
      { module := "core", version := "1.0.0",
        files := [⟨"core.proto", "enum Size{S=0;M=1;L=1;}"⟩] }
    let shop : PublishRequest :=
      { module := "shop", version := "1",
        files := [⟨"shop.proto", "message Item{message Tag{string t=1;}repeated Tag tags=1;}"⟩,
          ⟨"api.proto", "service Api{rpc Get(Item)returns(Item);}"⟩],
        dependencies := ["core@1.0.0"] }
    let c := Compiler.new (.builtIn ⟨some "other"⟩) ⟨2, 1000, true⟩
    let start : Registry := { reader := { marker := ⟨some "buf"⟩ }, compiler := some c }
    let r := ((start.publish core).1.publish shop).1
    let needed : Resolution := ⟨⟨"shop", "1"⟩, shop.files, core.files, [⟨"core", "1.0.0"⟩], []⟩
    let options := [("pretty", "false")]
    r.store.HoldsPublished ∧ r.resolve ⟨"shop", "1"⟩ = .ok needed ∧
      ∃ c' results, r.compileVersion ⟨"shop", "1"⟩ ["rust", "descriptor"] options true =
          ({ r with compiler := some c' }, .ok results) ∧ c'.CacheTellsApart ∧
        (needed.toInput options true).IsCompiled ⟨some "other"⟩ c' results := by
  intro core shop c start r needed options
  have published : r.store.HoldsPublished :=
    (Store.holdsPublished_empty.publish start.reader core).publish start.reader shop
  have found : r.resolve ⟨"shop", "1"⟩ = .ok needed := by decide +kernel
  have compiles := compileVersion_isCompiled published found ⟨some "other"⟩ ⟨2, 1000, true⟩
    options true
  have distinct : (r.compileVersion ⟨"shop", "1"⟩ ["rust", "descriptor"] options
      true).1.compiler.all (fun c => c.tickets.all fun k => c.tickets.all fun k' =>
        k.input == k'.input && k.language == k'.language || k.fingerprint != k'.fingerprint) =
      true := by
    decide +kernel
  obtain ⟨c', results, answer, compiled⟩ :=
    compiles.request [] c rfl rfl (by decide) (by decide)
  refine ⟨published, found, c', results, answer, fun _ k hk k' hk' same => ?_, compiled⟩
  rw [answer] at distinct
  simpa [same] using List.all_eq_true.1 (List.all_eq_true.1 distinct k hk) k' hk'

end Registry

end SchemaDepot
