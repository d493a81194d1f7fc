import SchemaDepot.Proofs.Compile.Outcomes
import SchemaDepot.Proofs.Compile.Progress

/-! # What calls return

A call returns one result for each of its languages, in their order, whatever the order in which
they were settled. What becomes of one language does not depend on the others.

* `CompileResult.assemble_eq`: results that come in any order are put in the order of the languages.
* `Service.SlotAnswered`: what is known of a language that is settled; `Settled.slotAnswered`.
* `Compiler.CacheTellsApart`: the cache takes no job for another; `run_cacheTellsApart`: this rests
  on the hash alone.
* `Service.Reports`: what a result says; `Service.IsIsolated`: it is that of the language alone.
* `Service.ReturnsInOrder`: all that a caller can rely on; `run_returnsInOrder`: this holds after
  every run. -/

namespace SchemaDepot

/-! ### Results in order -/

namespace CompileResult

theorem getElem?_foldl_set {results : List CompileResult} {arrived : List (Nat × CompileResult)}
    {slots : List (Option CompileResult)} (hlength : slots.length = results.length)
    (h : ∀ x ∈ arrived, results[x.1]? = some x.2) (i : Nat) :
    (arrived.foldl (fun slots (position, result) => slots.set position (some result)) slots)[i]? =
      if i ∈ arrived.map Prod.fst then results[i]?.map some else slots[i]? := by
  induction arrived generalizing slots with
  | nil => rfl
  | cons x arrived ih =>
    obtain ⟨position, result⟩ := x
    have hx : results[position]? = some result := h _ List.mem_cons_self
    have within : position < slots.length := hlength ▸ (List.getElem?_eq_some_iff.1 hx).1
    rw [List.foldl_cons, List.map_cons,
      ih (by simpa using hlength) fun y hy => h y (List.mem_cons_of_mem _ hy)]
    by_cases later : i ∈ arrived.map Prod.fst
    · rw [if_pos later, if_pos (List.mem_cons_of_mem _ later)]
    · rw [if_neg later]
      by_cases now : position = i
      · subst now
        rw [if_pos List.mem_cons_self, hx]
        exact List.getElem?_set_self within
      · rw [if_neg fun hmem => (List.mem_cons.1 hmem).elim (fun same => now same.symm) later]
        exact List.getElem?_set_ne now

/-- **Results that come in any order are put in the order of the languages.** -/
theorem assemble_eq {languages : List String} {results : List CompileResult} {order : List Nat}
    (hlength : results.length = languages.length)
    (horder : order.Perm (List.range results.length)) :
    assemble languages (order.filterMap fun position =>
      results[position]?.map fun result => (position, result)) = results := by
  set arrived := order.filterMap fun position =>
    results[position]?.map fun result => (position, result) with harrived
  have own : ∀ x ∈ arrived, results[x.1]? = some x.2 := by
    rintro ⟨position, result⟩ hx
    obtain ⟨p, -, hp⟩ := List.mem_filterMap.1 hx
    obtain ⟨r, hr, heq⟩ := Option.map_eq_some_iff.1 hp
    cases heq
    exact hr
  have all : ∀ i, i < results.length → i ∈ arrived.map Prod.fst := by
    intro i hi
    refine List.mem_map.2 ⟨(i, results[i]), List.mem_filterMap.2 ⟨i, ?_, ?_⟩, rfl⟩
    · exact horder.mem_iff.2 (List.mem_range.2 hi)
    · rw [List.getElem?_eq_getElem hi]
      rfl
  have filled : arrived.foldl (fun slots (position, result) => slots.set position (some result))
      (List.replicate languages.length none) = results.map some := by
    refine List.ext_getElem? fun i => ?_
    rw [getElem?_foldl_set (by rw [List.length_replicate, hlength]) own, List.getElem?_map]
    split
    · rfl
    · next absent =>
      have beyond : results.length ≤ i := Nat.le_of_not_lt fun hi => absent (all i hi)
      rw [List.getElem?_eq_none beyond,
        List.getElem?_eq_none (by rw [List.length_replicate, ← hlength]; exact beyond)]
      rfl
  show (((arrived.foldl _ _ : List (Option CompileResult)).zip languages).map _) = results
  rw [filled]
  refine List.ext_getElem (by simp [hlength]) fun i _ _ => ?_
  simp

end CompileResult

namespace Call

variable {c : Compiler} {call : Call} {order : List Nat}

/-- The results for the languages of a call that has returned. -/
def results (c : Compiler) (call : Call) : List CompileResult :=
  call.slots.map fun slot => (c.outcome slot.1 slot.2.place?).1

theorem outcome?_of_settled {position : Nat} {slot : String × Slot}
    (h : call.slots[position]? = some slot) (settled : slot.2.isSettled c = true) :
    call.outcome? c position = some (c.outcome slot.1 slot.2.place?) := by
  simp only [outcome?, h, Option.bind_eq_bind, Option.bind_some, settled, if_true]

/-- **A call that has returned answers with its results**, in whatever order they came. -/
theorem answer?_eq (hslots : call.slots ≠ []) (h : call.hasReturned c = true)
    (horder : order.Perm (List.range call.slots.length)) :
    call.answer? c order = some (.ok (call.results c)) := by
  have nonempty : call.slots.isEmpty = false := by simpa using hslots
  have arrived : ∀ position,
      ((call.outcome? c position).map fun outcome => (position, outcome.1)) =
        (call.results c)[position]?.map fun result => (position, result) := by
    intro position
    rw [results, List.getElem?_map]
    cases hslot : call.slots[position]? with
    | none => simp only [outcome?, hslot, Option.bind_eq_bind, Option.bind_none, Option.map_none]
    | some slot =>
      have settled := List.all_eq_true.1 h slot (List.mem_of_getElem? hslot)
      rw [outcome?_of_settled hslot settled]
      rfl
  simp only [answer?, nonempty, Bool.false_eq_true, if_false, h, if_true, arrived]
  rw [CompileResult.assemble_eq (by simp [results, languages]) (by simpa [results] using horder)]

end Call

/-! ### Jobs by name -/

namespace Service

variable {s s' : Service} {as : List Activity}

theorem Settled.getStatus (hs : s.Settled) {i : Nat} {t : Task}
    (ht : s.compiler.tasks[i]? = some t) : s.compiler.getStatus t.job.id = .ok t.job := by
  have hid : ∀ (j : Nat) (t' : Task), s.compiler.tasks[j]? = some t' →
      t'.job.id = Compiler.jobId j := fun j t' ht' =>
    (hs.sound.ticket j _ (Compiler.getElem?_tickets ht')).1
  have hjob : s.compiler.jobs[i]? = some t.job := by rw [Compiler.jobs, List.getElem?_map, ht]; rfl
  obtain ⟨hi, heq⟩ := List.getElem?_eq_some_iff.1 hjob
  have found : s.compiler.jobs.find? (·.id == t.job.id) = some t.job := by
    refine List.find?_eq_some_iff_getElem.2 ⟨by simp, i, hi, heq, fun j hj => ?_⟩
    obtain ⟨t', ht', hjob'⟩ := Option.map_eq_some_iff.1
      ((List.getElem?_map ..).symm.trans (List.getElem?_eq_getElem (Nat.lt_trans hj hi)))
    have apart : Compiler.jobId j ≠ Compiler.jobId i := fun same =>
      Nat.ne_of_lt hj (jobId_injective same)
    rw [← hjob', hid j t' ht', hid i t ht]
    simpa using apart
  rw [Compiler.getStatus, found]

/-- A job that has ended is found by its name, now and later. -/
theorem Settled.getStatus_later (hs : s.Settled) {i : Nat} {t : Task}
    (ht : s.compiler.tasks[i]? = some t) (terminal : t.job.status.isTerminal = true)
    (h : s.run as = some s') : s'.compiler.getStatus t.job.id = .ok t.job := by
  have hs' : s'.Settled := run_induction (fun _ _ _ hs hacts => hacts.settled hs) h hs
  obtain ⟨job, hjob, before⟩ := hs.later h (mem_jobs.2 ⟨i, t, ht, rfl⟩)
  obtain rfl := before.ended terminal
  obtain ⟨i', t', ht', same⟩ := mem_jobs.1 hjob
  exact same ▸ hs'.getStatus ht'

/-! ### Languages that are settled -/

/-- **What is known of a language that is settled**: it has no generator, or its job has ended. -/
inductive SlotAnswered (s : Service) (call : Call) (language : String) :
    Slot → Compiler.Outcome → Prop where
  | unavailable : s.compiler.backends.find? language = none →
    SlotAnswered s call language .unavailable
      (.failed language (Error.generatorUnavailable language).message, some .unavailable)
  | ended {place : Nat} {t : Task} {r : CompileResult} {failure : Option Failure} :
    s.compiler.tasks[place]? = some t → t.phase = .ended r failure → t.job.language = language →
    t.input = call.input → t.request = call.token →
    SlotAnswered s call language (.queued place) (r, failure)

theorem Settled.slotAnswered (hs : s.Settled) {call : Call} (hcall : call ∈ s.calls)
    {slot : String × Slot} (hslot : slot ∈ call.slots)
    (settled : slot.2.isSettled s.compiler = true) :
    s.SlotAnswered call slot.1 slot.2 (s.compiler.outcome slot.1 slot.2.place?) := by
  obtain ⟨language, slot⟩ := slot
  cases slot with
  | idle => cases settled
  | unavailable => exact .unavailable (hs.slot call hcall _ hslot)
  | queued place =>
    obtain ⟨t, ht, hlanguage, hinput, hrequest⟩ := hs.exists_task hcall hslot
    cases hp : t.phase with
    | ended r failure =>
      have given : s.compiler.outcome language (Slot.queued place).place? = (r, failure) := by
        simp only [Slot.place?, Compiler.outcome, ht, Option.map_some, hp]
      rw [given]
      exact .ended ht hp hlanguage hinput hrequest
    | _ =>
      simp only [Slot.isSettled, Compiler.hasEnded, ht, Option.map_some, hp] at settled
      cases settled

/-- **What a result says of a language.** -/
structure Reports (s : Service) (language : String) (r : CompileResult) : Prop where
  /-- It is a success without an error, or has an error in words and no files. -/
  coherent : r.IsCoherent
  /-- It has no job exactly if the language has no generator. -/
  job : r.job = none ↔ s.compiler.backends.find? language = none
  /-- Its job is found by its name, now and later; it has ended, with this result. -/
  status : ∀ id, r.job = some id → ∃ job, job.status.isTerminal = true ∧ job.result = some r ∧
    ∀ as s', s.run as = some s' → s'.compiler.getStatus id = .ok job

theorem SlotAnswered.reports {call : Call} {language : String} {slot : Slot}
    {outcome : Compiler.Outcome} (h : s.SlotAnswered call language slot outcome) (hs : s.Settled) :
    s.Reports language outcome.1 := by
  cases h with
  | unavailable hb =>
    refine ⟨CompileResult.isCoherent_failed language (Error.message_generatorUnavailable language),
      iff_of_true rfl hb, ?_⟩
    rintro id ⟨⟩
  | @ended place t r failure ht hp hlanguage =>
    obtain ⟨shown, sound⟩ := hs.sound.task place t ht
    rw [hp] at sound
    obtain ⟨plain, fits, rfl⟩ := sound
    have hb : s.compiler.backends.find? language = some t.backend :=
      hlanguage ▸ (hs.sound.ticket place _ (Compiler.getElem?_tickets ht)).2.2
    have coherent := fits.isCoherent.1
    refine ⟨⟨coherent.success, coherent.failed⟩, by simp [hb], ?_⟩
    rintro id ⟨⟩
    have terminal : t.job.status.isTerminal = true := by
      rw [shown, hp]
      show ((Job.new _ _ _).start.1.finish _).1.status.isTerminal = true
      rw [Job.finish_start_new]
      exact Job.finalStatus_isTerminal _
    exact ⟨t.job, terminal, Compiler.shown_of_ended hs.sound ht hp,
      fun as s' h => hs.getStatus_later ht terminal h⟩

end Service

/-! ### A language among others -/

/-- The fingerprints tell the jobs apart, as far as the cache goes by them. -/
def Compiler.CacheTellsApart (c : Compiler) : Prop :=
  c.options.cacheEnabled = true → c.TellsApart

namespace Service

variable {s s' : Service} {as : List Activity} {backends : Backends} {options : CompilerOptions}

/-- The cache takes no job for another if the hash under the fingerprints takes no input for
another. -/
theorem run_cacheTellsApart (h : (new backends options).run as = some s)
    (hash : s.compiler.HashesApart) : s.compiler.CacheTellsApart :=
  fun _ => (run_settled h).sound.tellsApart hash

/-- The call was not cancelled, and the job of one of its languages did not run out of time. -/
def IsUndisturbed (as : List Activity) (s : Service) (call : Call) (slot : Slot) : Prop :=
  call.token ∉ s.compiler.cancelled ∧
    ∀ place, slot = .queued place → .work (.timeOut place) ∉ as

/-- The result of a language names it. -/
theorem SlotAnswered.language {call : Call} {language : String} {slot : Slot}
    {outcome : Compiler.Outcome} (h : s.SlotAnswered call language slot outcome) (hs : s.Settled)
    (apart : s.compiler.CacheTellsApart) : outcome.1.language = language := by
  cases h with
  | unavailable => rfl
  | @ended place t r failure ht hp hlanguage =>
    have sound := (hs.sound.task place t ht).2
    rw [hp] at sound
    obtain ⟨plain, fits, rfl⟩ := sound
    have member := List.mem_of_getElem? (Compiler.getElem?_tickets ht)
    cases fits with
    | made hr =>
      obtain ⟨n, out, -, rfl⟩ := hr
      exact hlanguage
    | cached on hr =>
      obtain ⟨k, hk, same, n, out, -, rfl⟩ := hr
      exact (apart on k hk _ member same).2.trans hlanguage
    | failed => exact hlanguage

/-- **What becomes of a language that is not disturbed is what it comes to by itself.** -/
theorem SlotAnswered.alone {call : Call} {language : String} {slot : Slot}
    {outcome : Compiler.Outcome} (h : s.SlotAnswered call language slot outcome)
    (hrun : (new backends options).run as = some s) (det : backends.IsDeterministic)
    (apart : s.compiler.CacheTellsApart) (undisturbed : IsUndisturbed as s call slot) :
    backends.outcome? call.input language = some (outcome.1.core, outcome.2) := by
  obtain ⟨es, hes, timeOuts⟩ := run_events hrun
  obtain rfl : s.compiler.backends = backends := (Compiler.run_frame hes).1
  cases h with
  | unavailable hb =>
    rw [Backends.outcome?, hb]
    rfl
  | @ended place t r failure ht hp hlanguage hinput hrequest =>
    have stopped := Compiler.run_isStoppedBy hes place t ht
    rw [hp] at stopped
    have byItself := Compiler.unforced_of_isStoppedBy stopped (hrequest ▸ undisturbed.1)
      fun hmem => undisturbed.2 place rfl (timeOuts place hmem)
    rw [← hlanguage, ← hinput]
    exact (run_settled hrun).sound.outcome_alone ht hp det apart byItself

end Service

/-- The answer to a caller who asked for this language alone, by its result. -/
def Backends.answer (backends : Backends) (language : String) (r : CompileResult) :
    Except Error CompileResult :=
  if r.success then .ok r
  else if (backends.find? language).isNone then .error (.generatorUnavailable language)
  else .error (.generatorFailed language (r.error.getD ""))

namespace Service

variable {s s' : Service} {as : List Activity} {backends : Backends} {options : CompilerOptions}

/-- **A result is that of its language alone**, up to its job and whether the cache had it: in any
other run of a service with these generators, and in a new compiler without a cache. -/
structure IsIsolated (backends : Backends) (input : GeneratorInput) (language : String)
    (r : CompileResult) : Prop where
  /-- So answers a call for this language alone, in whatever a service does besides. -/
  elsewhere : ∀ options as s call slot, (new backends options).run as = some s → call ∈ s.calls →
    call.slots = [(language, slot)] → call.input = input → call.hasReturned s.compiler = true →
    s.compiler.CacheTellsApart → IsUndisturbed as s call slot →
    ∃ r', call.answer? s.compiler [0] = some (.ok [r']) ∧ r'.core = r.core ∧
      call.single? s.compiler = some (backends.answer language r')
  /-- So answers a compiler that does nothing else. -/
  alone : ∀ options, options.cacheEnabled = false → ∃ r',
    ((Compiler.new backends options).compileAll input [language] .never).2 = .ok [r'] ∧
    r'.core = r.core ∧
    ((Compiler.new backends options).compileSingle input language .never).2 =
      backends.answer language r'

theorem answerFor_eq {input : GeneratorInput} {language : String} {r : CompileResult}
    {failure : Option Failure} (h : backends.outcome? input language = some (r.core, failure)) :
    Compiler.answerFor language (r, failure) = backends.answer language r := by
  have success : r.success = r.core.success := rfl
  have error : r.error = r.core.error := rfl
  unfold Backends.outcome? at h
  cases hb : backends.find? language with
  | none =>
    rw [hb] at h
    obtain ⟨hcore, rfl⟩ := Prod.mk.inj (Option.some.inj h)
    rw [Backends.answer, success, ← hcore, hb]
    rfl
  | some backend =>
    rw [hb] at h
    obtain ⟨outcome, hconclude, heq⟩ := Option.map_eq_some_iff.1 h
    rcases outcome with f | out
    · obtain ⟨hcore, rfl⟩ := Prod.mk.inj heq
      rw [Backends.answer, success, error, ← hcore, hb]
      -- Of the reasons for a failure, a run of a generator means only these two.
      cases hrun : backend.run 0 input <;> rw [hrun] at hconclude <;> cases hconclude <;> rfl
    · obtain ⟨hcore, rfl⟩ := Prod.mk.inj heq
      rw [Backends.answer, success, ← hcore]
      rfl

/-- **What a language comes to by itself, it comes to alone.** -/
theorem isIsolated_of_outcome? (det : backends.IsDeterministic) {input : GeneratorInput}
    {language : String} {r : CompileResult} {failure : Option Failure}
    (h : backends.outcome? input language = some (r.core, failure)) :
    IsIsolated backends input language r where
  elsewhere options as s call slot hrun hcall hslots hinput returned apart undisturbed := by
    have member : (language, slot) ∈ call.slots := hslots ▸ List.mem_cons_self
    have settled := List.all_eq_true.1 returned _ member
    have answered := (run_settled hrun).slotAnswered hcall member settled
    set outcome := s.compiler.outcome language slot.place? with houtcome
    have itself := answered.alone hrun det apart undisturbed
    rw [hinput, h] at itself
    obtain ⟨hcore, hfailure⟩ := Prod.mk.inj (Option.some.inj itself)
    refine ⟨outcome.1, ?_, hcore.symm, ?_⟩
    · rw [Call.answer?_eq (by simp [hslots]) returned (by simp [hslots]), Call.results, hslots]
      rfl
    · have given : call.outcome? s.compiler 0 = some outcome :=
        Call.outcome?_of_settled (by rw [hslots]; rfl) settled
      rw [Call.single?, hslots]
      simp only [given, Option.map_some]
      rw [← answerFor_eq (hcore ▸ hfailure ▸ h)]
  alone options off := by
    obtain ⟨r', each, hcore⟩ := Compiler.compileEach_outcome? off h
    have same : r'.core = r.core := hcore
    refine ⟨r', ?_, same, ?_⟩
    · show Except.ok (((Compiler.new backends options).compileEach input [language]
        .never).2.map Prod.fst) = _
      rw [each]
      rfl
    · rw [← answerFor_eq (same ▸ h)]
      simp only [Compiler.compileSingle]
      rw [each]
      cases failure <;> rfl

/-! ### All together -/

end Service

/-- What is asked of a call. -/
def Call.asked (call : Call) : Nat × GeneratorInput × List String :=
  (call.token, call.input, call.languages)

/-- What is asked, if a call is made. -/
def Activity.asked? : Activity → Option (Nat × GeneratorInput × List String)
  | call token input languages => some (token, input, languages)
  | _ => none

namespace Service

variable {s s' : Service} {as : List Activity} {backends : Backends} {options : CompilerOptions}

theorem asked_set {calls : List Call} {call : Call} {k position : Nat} {language : String}
    {slot : Slot} (hcall : calls[k]? = some call)
    (hslot : call.slots[position]? = some (language, .idle)) :
    (calls.set k { call with
      slots := call.slots.set position (language, slot) }).map Call.asked =
      calls.map Call.asked := by
  have same : { call with slots := call.slots.set position (language, slot) }.asked =
      call.asked := by
    obtain ⟨within, heq⟩ := List.getElem?_eq_some_iff.1 hslot
    have languages : (call.slots.set position (language, slot)).map Prod.fst =
        call.slots.map Prod.fst := by
      refine List.ext_getElem (by simp) fun i _ _ => ?_
      by_cases own : position = i
      · subst own
        simp [heq]
      · simp [List.getElem_set_ne own]
    simp only [Call.asked, Call.languages, languages]
  obtain ⟨hk, rfl⟩ := List.getElem?_eq_some_iff.1 hcall
  rw [List.map_set, same, ← List.map_set, List.set_getElem_self]

/-- A call keeps what was asked of it. -/
theorem run_asked (h : s.run as = some s') :
    s'.calls.map Call.asked = s.calls.map Call.asked ++ as.filterMap Activity.asked? := by
  induction as generalizing s with
  | nil =>
    cases h
    rw [List.filterMap_nil, List.append_nil]
  | cons a as ih =>
    obtain ⟨d, hstep, hrun⟩ := Option.bind_eq_some_iff.1 h
    have hd : d.calls.map Call.asked = s.calls.map Call.asked ++ a.asked?.toList := by
      cases acts_of_step hstep with
      | @called token input languages =>
        have new : (Call.new token input languages).asked = (token, input, languages) := by
          simp [Call.asked, Call.new, Call.languages, Function.comp_def]
        rw [List.map_append, List.map_singleton, new]
        rfl
      | queued hcall hslot | unavailable hcall hslot =>
        rw [asked_set hcall hslot]
        exact (List.append_nil _).symm
      | worked => exact (List.append_nil _).symm
    rw [ih hrun, hd, List.append_assoc]
    cases ha : a.asked? <;> simp [ha]

/-- **All that callers can rely on**, whatever calls share a service and in whatever order their
jobs take their steps. -/
structure ReturnsInOrder (backends : Backends) (options : CompilerOptions) (as : List Activity)
    (s : Service) : Prop where
  /-- The calls are those that were made, in that order. -/
  asked : s.calls.map Call.asked = as.filterMap Activity.asked?
  /-- They come to an end. -/
  proceeds : s.Proceeds (max 1 options.maxConcurrency)
  /-- A call that has returned has a result for each of its languages, in their order, whatever the
  order in which these were settled. Each names its language and is that of the language alone,
  unless something outside disturbs it or the cache takes one job for another. -/
  answers : ∀ call ∈ s.calls, call.languages ≠ [] → call.hasReturned s.compiler = true →
    ∀ order, order.Perm (List.range call.languages.length) →
    ∃ results, call.answer? s.compiler order = some (.ok results) ∧
      results.length = call.languages.length ∧
      ∀ (i : Nat) (language : String) (slot : Slot), call.slots[i]? = some (language, slot) →
        ∃ r, results[i]? = some r ∧ s.Reports language r ∧
          (s.compiler.CacheTellsApart → r.language = language ∧
            (IsUndisturbed as s call slot → IsIsolated backends call.input language r))

/-- **Calls return their results in order, complete and apart from one another.** -/
theorem run_returnsInOrder (det : backends.IsDeterministic)
    (h : (new backends options).run as = some s) : s.ReturnsInOrder backends options as := by
  have hs := run_settled h
  refine ⟨run_asked h, run_proceeds h, fun call hcall hlanguages returned order horder => ?_⟩
  have hlength : call.languages.length = call.slots.length := List.length_map _
  have hslots : call.slots ≠ [] := fun none => hlanguages (by rw [Call.languages, none]; rfl)
  refine ⟨call.results s.compiler, Call.answer?_eq hslots returned (hlength ▸ horder), by
    rw [Call.results, List.length_map, hlength], fun i language slot hslot => ?_⟩
  have member := List.mem_of_getElem? hslot
  have answered := hs.slotAnswered hcall member (List.all_eq_true.1 returned _ member)
  refine ⟨_, by rw [Call.results, List.getElem?_map, hslot]; rfl, answered.reports hs,
    fun apart => ⟨answered.language hs apart, fun undisturbed => ?_⟩⟩
  exact isIsolated_of_outcome? det (answered.alone h det apart undisturbed)

/-- A generator that gives files, one that fails and does not say why, and one that panics. -/
def mixedBackends : Backends :=
  [("echo", .ofFunction "" fun input => .ok ⟨input.files, []⟩),
    ("blank", .ofFunction "" fun _ => .error " "), ("boom", { run := fun _ _ => .panic none })]

/-- A call for all of them, for one twice, and for a language without a generator. The languages are
settled in another order. -/
def mixedCall : List Activity :=
  [.call 0 {} ["echo", "none", "boom", "blank", "echo"], .takeUp 0 4, .takeUp 0 1, .takeUp 0 2,
    .work (.acquire 0), .takeUp 0 0, .work (.acquire 1), .work (.start 0), .work (.start 1),
    .work (.lookUp 0), .work (.lookUp 1), .work (.dispatch 0), .work (.dispatch 1), .takeUp 0 3,
    .work (.workerEnds 1), .work (.take 1), .work (.finish 1), .work (.workerEnds 0),
    .work (.take 0), .work (.keep 0), .work (.acquire 2), .work (.finish 0), .work (.start 2),
    .work (.lookUp 2), .work (.acquire 3), .work (.start 3), .work (.lookUp 3),
    .work (.dispatch 3), .work (.workerEnds 3), .work (.take 3), .work (.finish 3),
    .work (.finish 2)]

theorem mixedCall_returnsInOrder : ∃ s, (new mixedBackends ⟨2, 1000, true⟩).run mixedCall = some s ∧
    s.calls.all (·.hasReturned s.compiler) = true ∧
    s.calls.map (fun call => (call.results s.compiler).map fun r => (r.job, r.success)) =
      [[(some "job-3", true), (none, false), (some "job-2", false), (some "job-4", false),
        (some "job-1", true)]] ∧
    s.ReturnsInOrder mixedBackends ⟨2, 1000, true⟩ mixedCall := by
  have runs : ((new mixedBackends ⟨2, 1000, true⟩).run mixedCall).any (fun s =>
      s.calls.all (·.hasReturned s.compiler) &&
        s.calls.map (fun call => (call.results s.compiler).map fun r => (r.job, r.success)) ==
          [[(some "job-3", true), (none, false), (some "job-2", false), (some "job-4", false),
            (some "job-1", true)]]) = true := by
    decide +kernel
  have det : mixedBackends.IsDeterministic := by
    intro language backend hb n m input
    obtain ⟨entry, hentry, rfl⟩ := Option.map_eq_some_iff.1 hb
    have member := List.mem_of_find?_eq_some hentry
    simp only [mixedBackends, List.mem_cons, List.not_mem_nil, or_false] at member
    rcases member with rfl | rfl | rfl <;> rfl
  obtain ⟨s, hs, done⟩ := (Option.any_eq_true _ _).1 runs
  obtain ⟨returned, results⟩ := Bool.and_eq_true_iff.1 done
  exact ⟨s, hs, returned, by simpa using results, run_returnsInOrder det hs⟩

end Service

end SchemaDepot
