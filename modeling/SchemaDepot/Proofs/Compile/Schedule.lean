import SchemaDepot.Proofs.Compile.Returns

/-! # Requests are calls

What a compiler does for a request is what a service does for a call that nothing comes between:
its languages are taken up in order, then its jobs take their steps one after the other. So what
holds of calls side by side holds of requests, and a request gives what its call answers.

* `Service.Leads`: some run leads from one service to another.
* `Service.compileEach_leads`: a request is a call.
* `Service.compileAll_isCall`, `Service.compileSingle_isCall`: what the caller gets is what the call
  answers. -/

namespace SchemaDepot

/-- How far a language has come that was taken up, by the place of its job. -/
def Slot.ofPlace : Option Nat → Slot
  | none => .unavailable
  | some place => .queued place

theorem Slot.place?_ofPlace (place : Option Nat) : (ofPlace place).place? = place := by
  cases place <;> rfl

namespace Service

/-- Some run leads from one service to the other. -/
def Leads (s s' : Service) : Prop := ∃ as, s.run as = some s'

variable {s s' s'' : Service} {c c' : Compiler} {calls : List Call}

theorem Leads.refl (s : Service) : s.Leads s := ⟨[], rfl⟩

theorem run_append (s : Service) (as bs : List Activity) :
    s.run (as ++ bs) = (s.run as).bind fun d => d.run bs := by
  induction as generalizing s with
  | nil => rfl
  | cons a as ih =>
    rw [List.cons_append, run_cons, run_cons, Option.bind_assoc]
    simp only [ih]

theorem Leads.trans (h : s.Leads s') (h' : s'.Leads s'') : s.Leads s'' := by
  obtain ⟨as, has⟩ := h
  obtain ⟨bs, hbs⟩ := h'
  refine ⟨as ++ bs, ?_⟩
  rw [run_append, has]
  exact hbs

theorem Leads.of_step {a : Activity} (h : s.step a = some s') : s.Leads s' := by
  refine ⟨[a], ?_⟩
  rw [run_cons, h]
  rfl

/-! ### Steps of the compiler -/

/-- An event that queues no job is an activity. -/
theorem Leads.of_event {e : Event} (h : c.step e = some c')
    (he : ∀ request language input, e ≠ .enqueue request language input) :
    Leads ⟨c, calls⟩ ⟨c', calls⟩ := by
  refine .of_step (a := .work e) ?_
  cases e with
  | enqueue => exact (he _ _ _ rfl).elim
  | _ => exact congrArg (Option.map fun compiler => Service.mk compiler calls) h

theorem Leads.getD_event {e : Event}
    (he : ∀ request language input, e ≠ .enqueue request language input) :
    Leads ⟨c, calls⟩ ⟨(c.step e).getD c, calls⟩ := by
  cases h : c.step e with
  | none => exact .refl _
  | some c' => exact .of_event h he

theorem next?_queues_none {i : Nat} {e : Event} (h : c.next? i = some e) (request : Nat)
    (language : String) (input : GeneratorInput) : e ≠ .enqueue request language input := by
  obtain ⟨t, -, h⟩ := Option.bind_eq_some_iff.1 h
  rintro rfl
  dsimp only at h
  repeat' split at h
  all_goals cases h

theorem advance_leads (i n : Nat) (c : Compiler) :
    Leads ⟨c, calls⟩ ⟨Compiler.advance i n c, calls⟩ := by
  induction n generalizing c with
  | zero => exact .refl _
  | succ n ih =>
    rw [Compiler.advance]
    split
    · exact .refl _
    · next e he =>
      split
      · exact .refl _
      · next h => exact (Leads.of_event h (next?_queues_none he)).trans (ih _)

theorem advanceAll_leads (places : List Nat) (c : Compiler) :
    Leads ⟨c, calls⟩ ⟨c.advanceAll places, calls⟩ := by
  induction places generalizing c with
  | nil => exact .refl _
  | cons i places ih => exact (advance_leads i Compiler.maxEvents c).trans (ih _)

theorem settle_leads (places : List Nat) (n : Nat) (c : Compiler) :
    Leads ⟨c, calls⟩ ⟨Compiler.settle places n c, calls⟩ := by
  induction n generalizing c with
  | zero => exact .refl _
  | succ n ih =>
    rw [Compiler.settle]
    split
    · exact .refl _
    · split
      · exact .refl _
      · next h =>
        exact (Leads.of_event h (by rintro _ _ _ ⟨⟩)).trans
          ((advanceAll_leads places _).trans (ih _))

/-! ### Taking up the languages -/

/-- The next language of the last call is taken up. -/
theorem step_takeUp (c : Compiler) (calls : List Call) (token : Nat) (input : GeneratorInput)
    (language : String) (done rest : List (String × Slot)) :
    step ⟨c, calls ++ [⟨token, input, done ++ (language, .idle) :: rest⟩]⟩
        (.takeUp calls.length done.length) =
      let call : Call := ⟨token, input, done ++ (language, .idle) :: rest⟩
      some ⟨(takeUp c call language).1,
        calls ++ [⟨token, input, done ++ (language, (takeUp c call language).2) :: rest⟩]⟩ := by
  simp [step]

/-- **The languages of the last call are taken up in order.** -/
theorem enqueueAll_leads (token : Nat) (input : GeneratorInput) (languages : List String)
    (done : List (String × Slot)) (c : Compiler) :
    Leads ⟨c, calls ++ [⟨token, input, done ++ languages.map fun l => (l, .idle)⟩]⟩
      ⟨(c.enqueueAll token input languages).1, calls ++ [⟨token, input, done ++
        (c.enqueueAll token input languages).2.map fun q => (q.1, .ofPlace q.2)⟩]⟩ := by
  induction languages generalizing c done with
  | nil => exact .refl _
  | cons language languages ih =>
    have first := step_takeUp c calls token input language done
      (languages.map fun l => (l, .idle))
    rw [List.map_cons]
    refine (Leads.of_step first).trans ?_
    rw [Compiler.enqueueAll, takeUp]
    cases h : c.step (.enqueue token language input) with
    | none =>
      have rest := ih (done ++ [(language, .unavailable)]) c
      simp only [List.append_assoc, List.singleton_append] at rest
      exact rest
    | some queued =>
      have rest := ih (done ++ [(language, .queued c.tasks.length)]) queued
      simp only [List.append_assoc, List.singleton_append] at rest
      exact rest

theorem enqueueAll_languages (token : Nat) (input : GeneratorInput) (languages : List String)
    (c : Compiler) : (c.enqueueAll token input languages).2.map Prod.fst = languages := by
  induction languages generalizing c with
  | nil => rfl
  | cons language languages ih =>
    rw [Compiler.enqueueAll]
    split
    · exact congrArg (language :: ·) (ih c)
    · exact congrArg (language :: ·) (ih _)

/-! ### Requests -/

/-- **A request is a call**, whose languages come to the outcomes of the request. -/
theorem compileEach_leads (s : Service) (input : GeneratorInput) (languages : List String)
    (cancellation : Cancellation) :
    ∃ call : Call, call.input = input ∧ call.languages = languages ∧
      s.Leads ⟨(s.compiler.compileEach input languages cancellation).1, s.calls ++ [call]⟩ ∧
      (s.compiler.compileEach input languages cancellation).2 = call.slots.map fun slot =>
        (s.compiler.compileEach input languages cancellation).1.outcome slot.1 slot.2.place? := by
  obtain ⟨c, calls⟩ := s
  have cancelled : ∀ calls (d : Compiler), Leads ⟨d, calls⟩ ⟨d.cancel c.requests, calls⟩ :=
    fun _ d => .getD_event (by rintro _ _ _ ⟨⟩)
  have before : ∀ calls (d : Compiler), Leads ⟨d, calls⟩
      ⟨if cancellation = .before then d.cancel c.requests else d, calls⟩ := by
    intro calls d
    split
    · exact cancelled calls d
    · exact .refl _
  have stuck : ∀ calls places (d : Compiler), Leads ⟨d, calls⟩
      ⟨if cancellation = .stuck then (d.cancel c.requests).advanceAll places else d, calls⟩ := by
    intro calls places d
    split
    · exact (cancelled calls d).trans (advanceAll_leads places _)
    · exact .refl _
  have opened : Leads ⟨c, calls⟩ ⟨(c.step .open).getD c, calls⟩ :=
    .getD_event (by rintro _ _ _ ⟨⟩)
  have made : ∀ d : Compiler, Leads ⟨d, calls⟩
      ⟨d, calls ++ [.new c.requests input languages]⟩ := fun d =>
    .of_step (a := .call c.requests input languages) rfl
  let d : Compiler := if cancellation = .before then ((c.step .open).getD c).cancel c.requests
    else (c.step .open).getD c
  let queued := (d.enqueueAll c.requests input languages).2
  refine ⟨⟨c.requests, input, queued.map fun q => (q.1, .ofPlace q.2)⟩, rfl, ?_, ?_, ?_⟩
  · rw [Call.languages, List.map_map]
    exact enqueueAll_languages c.requests input languages d
  · exact opened.trans <| (before _ _).trans <| (made d).trans <|
      (enqueueAll_leads c.requests input languages [] d).trans <|
      (advanceAll_leads _ _).trans <| (stuck _ _ _).trans <| settle_leads _ _ _
  · rw [List.map_map]
    refine List.map_congr_left fun q _ => ?_
    show Compiler.outcome _ q.1 q.2 = Compiler.outcome _ q.1 (Slot.ofPlace q.2).place?
    rw [Slot.place?_ofPlace]
    rfl

/-- **What the caller of a request for several languages gets is what its call answers**, in
whatever order the results come. -/
theorem compileAll_isCall (s : Service) (input : GeneratorInput) (languages : List String)
    (cancellation : Cancellation) :
    ∃ call : Call, call.input = input ∧ call.languages = languages ∧
      s.Leads ⟨(s.compiler.compileAll input languages cancellation).1, s.calls ++ [call]⟩ ∧
      (call.hasReturned (s.compiler.compileAll input languages cancellation).1 = true →
        ∀ order, order.Perm (List.range languages.length) →
          call.answer? (s.compiler.compileAll input languages cancellation).1 order =
            some (s.compiler.compileAll input languages cancellation).2) := by
  cases languages with
  | nil =>
    exact ⟨.new s.compiler.requests input [], rfl, rfl,
      .of_step (a := .call s.compiler.requests input []) rfl, fun _ _ _ => rfl⟩
  | cons language languages =>
    obtain ⟨call, hinput, hlanguages, leads, outcomes⟩ :=
      s.compileEach_leads input (language :: languages) cancellation
    refine ⟨call, hinput, hlanguages, leads, fun returned order horder => ?_⟩
    have hslots : call.slots ≠ [] := fun none => by simp [Call.languages, none] at hlanguages
    have hlength : call.slots.length = (language :: languages).length := by
      rw [← hlanguages, Call.languages, List.length_map]
    have given : (s.compiler.compileAll input (language :: languages) cancellation).2 =
        .ok ((s.compiler.compileEach input (language :: languages) cancellation).2.map Prod.fst) :=
      rfl
    rw [Call.answer?_eq hslots returned (hlength ▸ horder), given, outcomes, List.map_map]
    rfl

/-- **What the caller of a request for one language gets is what its call answers.** -/
theorem compileSingle_isCall (s : Service) (input : GeneratorInput) (language : String)
    (cancellation : Cancellation) :
    ∃ call : Call, call.input = input ∧ call.languages = [language] ∧
      s.Leads ⟨(s.compiler.compileSingle input language cancellation).1, s.calls ++ [call]⟩ ∧
      (call.hasReturned (s.compiler.compileSingle input language cancellation).1 = true →
        call.single? (s.compiler.compileSingle input language cancellation).1 =
          some (s.compiler.compileSingle input language cancellation).2) := by
  obtain ⟨call, hinput, hlanguages, leads, outcomes⟩ :=
    s.compileEach_leads input [language] cancellation
  obtain ⟨slot, hslots⟩ : ∃ slot, call.slots = [(language, slot)] := by
    obtain ⟨⟨_, slot⟩, hslots, rfl⟩ := List.map_eq_singleton_iff.1 hlanguages
    exact ⟨slot, hslots⟩
  rw [hslots, List.map_singleton] at outcomes
  set answer := s.compiler.compileEach input [language] cancellation with hanswer
  set outcome := answer.1.outcome language slot.place? with houtcome
  have single : s.compiler.compileSingle input language cancellation =
      (answer.1, Compiler.answerFor language outcome) := by
    have alone : answer = (answer.1, [outcome]) := Prod.ext rfl outcomes
    rw [Compiler.compileSingle, ← hanswer, alone]
    rcases outcome with ⟨result, _ | failure⟩ <;> rfl
  refine ⟨call, hinput, hlanguages, by rw [single]; exact leads, fun returned => ?_⟩
  rw [single] at returned ⊢
  have settled : slot.isSettled answer.1 = true :=
    List.all_eq_true.1 returned _ (hslots ▸ List.mem_singleton_self _)
  have first : call.slots[0]? = some (language, slot) := by rw [hslots]; rfl
  have given : call.outcome? answer.1 0 = some outcome := Call.outcome?_of_settled first settled
  rw [Call.single?, hslots]
  exact congrArg (Option.map (Compiler.answerFor language)) given

end Service

end SchemaDepot
