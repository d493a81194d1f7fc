import SchemaDepot.Compile.Answers
import SchemaDepot.Proofs.Compile.Cache

/-! # What a language comes to

A language comes to what one run of its generator means, or to a failure if it has none, unless its
job is stopped from outside.

* `CompileResult.IsCoherent`: a result is a success or says what went wrong; `Fits.isCoherent`:
  every job ends with such a result.
* `Phase.IsStoppedBy`: a job that was stopped from outside was cancelled or ran out of time;
  `run_isStoppedBy`: in every run.
* `Backends.outcome?`: what a language comes to by itself; `Sound.outcome_alone`: what its job ends
  with among others; `compileEach_outcome?`: what a new compiler gives that has no other job. -/

namespace SchemaDepot

/-! ### Results -/

/-- **A result is a success without an error, or has an error in words and no files.** -/
structure CompileResult.IsCoherent (r : CompileResult) : Prop where
  success : r.success = true ↔ r.error = none
  failed : r.success = false →
    (∃ error, r.error = some error ∧ Text.isBlankText error = false) ∧ r.files = [] ∧
      r.packageFiles = []

theorem CompileResult.isCoherent_succeeded (language : String)
    (files packageFiles : List TextFile) :
    (succeeded language files packageFiles).IsCoherent :=
  ⟨iff_of_true rfl rfl, by rintro ⟨⟩⟩

theorem CompileResult.isCoherent_failed {error : String} (language : String)
    (h : Text.isBlankText error = false) : (failed language error).IsCoherent :=
  ⟨by simp [failed], fun _ => ⟨⟨error, rfl, h⟩, rfl, rfl⟩⟩

theorem Text.isBlankText_append (s t : String) :
    isBlankText (s ++ t) = (isBlankText s && isBlankText t) := by
  rw [isBlankText, String.toList_append, List.all_append]
  rfl

theorem Error.message_generatorUnavailable (language : String) :
    Text.isBlankText (Error.generatorUnavailable language).message = false := by
  have start : Text.isBlankText "Generator unavailable for language '" = false := by
    decide +kernel
  show Text.isBlankText ("Generator unavailable for language '" ++ language ++ "'") = false
  simp only [Text.isBlankText_append, start, Bool.false_and]

/-- A failure that a run of a generator means has words, and does not come from outside. -/
theorem Run.conclude_error {run : Run} {failure : Failure}
    (h : run.conclude = some (.error failure)) :
    Text.isBlankText failure.message = false ∧ failure.isForced = false := by
  cases run with
  | output | never => cases h
  | error message =>
    cases h
    refine ⟨?_, rfl⟩
    show Text.isBlankText
      (if Text.isBlankText message then "generator returned an empty error" else message) = false
    split
    · decide +kernel
    · next blank => exact Bool.eq_false_iff.2 blank
  | panic message =>
    cases h
    have start : Text.isBlankText "generator panicked: " = false := by decide +kernel
    refine ⟨?_, rfl⟩
    show Text.isBlankText ("generator panicked: " ++ message.getD "unknown panic payload") = false
    rw [Text.isBlankText_append, start, Bool.false_and]

/-- Every reason for which a job can fail has words. -/
theorem Ticket.MayFail.message {k : Ticket} {failure : Failure} (h : k.MayFail failure) :
    Text.isBlankText failure.message = false := by
  rcases h with rfl | ⟨micros, rfl⟩ | ⟨n, hrun⟩
  · have words : Failure.cancelled.message = "Compilation cancelled" := rfl
    rw [words]
    decide +kernel
  · have start : Text.isBlankText "generator timed out after " = false := by decide +kernel
    show Text.isBlankText ("generator timed out after " ++ Text.duration micros) = false
    rw [Text.isBlankText_append, start, Bool.false_and]
  · exact (Run.conclude_error hrun).1

namespace Compiler

variable {c c' d : Compiler} {i j : Nat} {t t' : Task} {k : Ticket} {e : Event}
  {backends : Backends} {options : CompilerOptions} {es : List Event}

/-- **What a job ends with is coherent**, and its error is the reason in words. -/
theorem Fits.isCoherent {r : CompileResult} {failure : Option Failure} (h : c.Fits k r failure) :
    r.IsCoherent ∧ (r.success = true ↔ failure = none) ∧
      ∀ f ∈ failure, r.error = some f.message := by
  cases h with
  | made hr =>
    obtain ⟨n, out, -, rfl⟩ := hr
    have coherent := CompileResult.isCoherent_succeeded k.language out.files out.packageFiles
    exact ⟨⟨coherent.success, coherent.failed⟩, iff_of_true rfl rfl, by rintro f ⟨⟩⟩
  | cached _ hr =>
    obtain ⟨k', -, -, n, out, -, rfl⟩ := hr
    have coherent := CompileResult.isCoherent_succeeded k'.language out.files out.packageFiles
    exact ⟨⟨coherent.success, coherent.failed⟩, iff_of_true rfl rfl, by rintro f ⟨⟩⟩
  | failed hf =>
    refine ⟨CompileResult.isCoherent_failed k.language hf.message, by simp [CompileResult.failed],
      ?_⟩
    rintro f ⟨⟩
    rfl

/-! ### Jobs that are stopped -/

end Compiler

/-- What stopped a job in the phase has happened: its request was cancelled, or it ran out of
time. -/
def Phase.IsStoppedBy (cancelled timedOut : Prop) : Phase → Prop
  | refused => cancelled
  | ending _ (some failure) | ended _ (some failure) =>
    (failure = .cancelled → cancelled) ∧ ∀ micros, failure = .timedOut micros → timedOut
  | _ => True

theorem Phase.IsStoppedBy.imp {cancelled cancelled' timedOut : Prop} {phase : Phase}
    (h : phase.IsStoppedBy cancelled timedOut) (himp : cancelled → cancelled') :
    phase.IsStoppedBy cancelled' timedOut := by
  unfold IsStoppedBy at h ⊢
  split
  · exact himp h
  · exact ⟨fun hf => himp (h.1 hf), h.2⟩
  · exact ⟨fun hf => himp (h.1 hf), h.2⟩
  · trivial

namespace Compiler

variable {c c' d : Compiler} {i j : Nat} {t t' : Task} {k : Ticket} {e : Event}
  {backends : Backends} {options : CompilerOptions} {es : List Event}

/-- A turn stops a job only if that has happened. -/
theorem Turn.isStoppedBy (h : c.Turn i t e t' d) (he : e ∈ es)
    (ht : t.phase.IsStoppedBy (c.isCancelled t = true) (.timeOut i ∈ es)) :
    t'.phase.IsStoppedBy (c.isCancelled t = true) (.timeOut i ∈ es) := by
  cases h with
  | left => exact ht
  | refused _ hcancelled => exact hcancelled
  | givenUp hp =>
    rw [hp] at ht
    exact ⟨fun _ => ht, by rintro micros ⟨⟩⟩
  | timedOut => exact ⟨by rintro ⟨⟩, fun _ _ => he⟩
  | abandoned _ hcancelled => exact ⟨fun _ => hcancelled, by rintro micros ⟨⟩⟩
  | @taken run outcome _ hconclude _ =>
    rcases outcome with failure | out
    · have unforced := (Run.conclude_error hconclude).2
      refine ⟨?_, fun micros => ?_⟩ <;> rintro rfl <;> cases unforced
    · show (if c.options.cacheEnabled then Phase.keeping _ else .ending _ _).IsStoppedBy _ _
      split <;> trivial
  | @finished result failure hp =>
    rw [hp] at ht
    cases failure <;> exact ht
  | granted | started | hit | missed | dispatched | answered | kept => trivial

/-- What was cancelled stays cancelled. -/
theorem Does.cancelled_subset (h : c.Does e c') : c.cancelled ⊆ c'.cancelled := by
  cases h with
  | cancelled => exact List.subset_cons_self _ _
  | turned _ hturn => exact hturn.frame.2.2.2 ▸ List.Subset.refl _
  | _ => exact List.Subset.refl _

/-- **A job that was stopped was cancelled or ran out of time**, in every run. -/
theorem run_isStoppedBy (h : (new backends options).run es = some c) :
    ∀ (i : Nat) (t : Task), c.tasks[i]? = some t →
      t.phase.IsStoppedBy (t.request ∈ c.cancelled) (.timeOut i ∈ es) := by
  refine run_induction (P := fun c => ∀ (i : Nat) (t : Task), c.tasks[i]? = some t →
    t.phase.IsStoppedBy (t.request ∈ c.cancelled) (.timeOut i ∈ es)) ?_ h (by rintro i t ⟨⟩)
  intro c e c' he hc hdoes i t' ht'
  have stays : ∀ t : Task, t.request ∈ c.cancelled → t.request ∈ c'.cancelled := fun t ht =>
    hdoes.cancelled_subset ht
  rcases hdoes.task_after ht' with ⟨t, ht, rfl | ⟨d, hturn⟩⟩ | ⟨_, _, _, _, -, -, -, rfl⟩
  · exact (hc i t' ht).imp (stays t')
  · have same : t'.request = t.request := congrArg Ticket.request hturn.ticket
    have cancelled : c.isCancelled t = true ↔ t.request ∈ c.cancelled := by simp [isCancelled]
    rw [same]
    have before := (hc i t ht).imp cancelled.2
    exact (hturn.isStoppedBy he before).imp fun h => stays t (cancelled.1 h)
  · trivial

/-- A job that is not cancelled and does not run out of time ends by itself. -/
theorem unforced_of_isStoppedBy {r : CompileResult} {failure : Option Failure}
    {cancelled timedOut : Prop} (h : (Phase.ended r failure).IsStoppedBy cancelled timedOut)
    (hcancelled : ¬cancelled) (htimedOut : ¬timedOut) : ∀ f ∈ failure, f.isForced = false := by
  rintro f ⟨⟩
  cases f with
  | cancelled => exact (hcancelled (h.1 rfl)).elim
  | timedOut micros => exact (htimedOut (h.2 micros rfl)).elim
  | _ => rfl

end Compiler

/-! ### A language by itself -/

/-- **What a language comes to by itself**; nothing, if its generator does not end. -/
def Backends.outcome? (backends : Backends) (input : GeneratorInput) (language : String) :
    Option Compiler.Outcome :=
  match backends.find? language with
  | none => some (.failed language (Error.generatorUnavailable language).message, some .unavailable)
  | some backend =>
    let k : Ticket := ⟨"", language, input.fingerprint language, 0, backend, input⟩
    ((backend.run 0 input).conclude).map k.outcomeOf

namespace Compiler

variable {c c' d : Compiler} {i j : Nat} {t t' : Task} {k : Ticket} {e : Event}
  {backends : Backends} {options : CompilerOptions} {es : List Event}

/-- **A job that ends by itself ends with what its language comes to by itself.** -/
theorem Sound.outcome_alone {r : CompileResult} {failure : Option Failure} (hc : c.Sound)
    (ht : c.tasks[i]? = some t) (hp : t.phase = .ended r failure)
    (det : c.backends.IsDeterministic) (apart : c.options.cacheEnabled = true → c.TellsApart)
    (byItself : ∀ f ∈ failure, f.isForced = false) :
    c.backends.outcome? t.input t.job.language = some (r.core, failure) := by
  obtain ⟨outcome, hrun, hcore, hfailure⟩ := hc.outcome ht hp det apart byItself
  obtain ⟨-, hfingerprint, hb⟩ := hc.ticket i _ (getElem?_tickets ht)
  have found : c.backends.find? t.job.language = some t.backend := hb
  have same : t.ticket.outcomeOf = Ticket.outcomeOf ⟨"", t.job.language,
      t.input.fingerprint t.job.language, 0, t.backend, t.input⟩ :=
    outcomeOf_congr rfl hfingerprint
  rw [Backends.outcome?, found]
  simp only [hrun, Option.map_some]
  rw [hcore, hfailure, ← same]

/-- **A new compiler without a cache** gives for a single language what that comes to by itself. -/
theorem compileEach_outcome? {input : GeneratorInput} {language : String} {outcome : Outcome}
    (off : options.cacheEnabled = false) (h : backends.outcome? input language = some outcome) :
    ∃ plain, ((new backends options).compileEach input [language] .never).2 =
      [(plain, outcome.2)] ∧ plain.core = outcome.1.core := by
  unfold Backends.outcome? at h
  cases hb : backends.find? language with
  | none =>
    rw [hb] at h
    cases h
    refine ⟨.failed language (Error.generatorUnavailable language).message, ?_, rfl⟩
    let c := new backends options
    have nothing : ((c.step .open).getD c).step (.enqueue c.requests language input) = none :=
      congrArg (Option.map _) hb
    have queue : enqueueAll c.requests input [language] ((c.step .open).getD c) =
        ((c.step .open).getD c, [(language, none)]) := by
      simp only [enqueueAll, nothing]
    simp only [compileEach, reduceCtorEq, if_false]
    rw [queue]
    rfl
  | some backend =>
    rw [hb] at h
    obtain ⟨outcome, hconclude, rfl⟩ := Option.map_eq_some_iff.1 h
    let k : Ticket := ⟨jobId 0, language, input.fingerprint language, 0, backend, input⟩
    have same : Ticket.outcomeOf ⟨"", language, input.fingerprint language, 0, backend, input⟩ =
        k.outcomeOf := outcomeOf_congr rfl rfl
    refine ⟨firstResult (k.outcomeOf outcome).1, ?_, ?_⟩
    · rw [compileEach_alone off hb hconclude, same]
    · rw [same]
      rfl

end Compiler

end SchemaDepot
