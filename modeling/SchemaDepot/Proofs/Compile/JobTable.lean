import Mathlib.Data.List.Nodup
import Mathlib.Data.List.Perm.Basic
import SchemaDepot.Compile.Calls
import SchemaDepot.Proofs.Compile.Jobs

/-! # The table of jobs

Whatever calls share a compiler, and in whatever order their jobs take their steps, the table of
jobs shows only what a job may look like, and each job only moves on.

* `Service.Acts`: the ways in which an activity changes a compiler with its calls.
* `Service.Settled`: the jobs in the table are those of the calls; `run_settled`: this holds after
  every run.
* `Service.TableIsLegal`: what the table shows, now and later on; `Service.run_tableIsLegal`. -/

namespace SchemaDepot

/-! ### Activities -/

namespace Service

/-- **The ways in which an activity changes a compiler with its calls.** -/
inductive Acts (s : Service) : Activity → Service → Prop where
  | called {token : Nat} {input : GeneratorInput} {languages : List String} :
    Acts s (.call token input languages) { s with calls := s.calls ++ [.new token input languages] }
  | queued {k position : Nat} {call : Call} {language : String} {backend : Backend} :
    s.calls[k]? = some call → call.slots[position]? = some (language, .idle) →
    s.compiler.backends.find? language = some backend →
    Acts s (.takeUp k position)
      { compiler := s.compiler.enqueue call.token language backend call.input
        calls := s.calls.set k { call with
          slots := call.slots.set position (language, .queued s.compiler.tasks.length) } }
  | unavailable {k position : Nat} {call : Call} {language : String} :
    s.calls[k]? = some call → call.slots[position]? = some (language, .idle) →
    s.compiler.backends.find? language = none →
    Acts s (.takeUp k position)
      { s with calls := s.calls.set k { call with
          slots := call.slots.set position (language, .unavailable) } }
  | worked {e : Event} {c : Compiler} : (∀ request language input,
      e ≠ .enqueue request language input) → s.compiler.step e = some c →
    Acts s (.work e) { s with compiler := c }

variable {s s' : Service} {a : Activity}

theorem acts_of_step (h : s.step a = some s') : s.Acts a s' := by
  cases a with
  | call token input languages =>
    cases h
    exact .called
  | takeUp k position =>
    obtain ⟨call, hcall, h⟩ := Option.bind_eq_some_iff.1 h
    split at h
    · next language hslot =>
      cases hb : s.compiler.backends.find? language with
      | some backend =>
        have queue : takeUp s.compiler call language =
            (s.compiler.enqueue call.token language backend call.input,
              .queued s.compiler.tasks.length) := by
          simp [takeUp, Compiler.step, hb]
        rw [queue] at h
        cases h
        exact .queued hcall hslot hb
      | none =>
        have nothing : takeUp s.compiler call language = (s.compiler, .unavailable) := by
          simp [takeUp, Compiler.step, hb]
        rw [nothing] at h
        cases h
        exact .unavailable hcall hslot hb
    · cases h
  | work e =>
    have worked : (∀ request language input, e ≠ .enqueue request language input) →
        (s.compiler.step e).map (fun compiler => { s with compiler }) = some s' →
        s.Acts (.work e) s' := by
      intro hne h
      obtain ⟨c, hc, rfl⟩ := Option.map_eq_some_iff.1 h
      exact .worked hne hc
    cases e with
    | enqueue => cases h
    | _ => exact worked (by rintro _ _ _ ⟨⟩) h

theorem run_cons (s : Service) (a : Activity) (as : List Activity) :
    s.run (a :: as) = (s.step a).bind fun d => d.run as := rfl

/-- **What every activity keeps, every run keeps.** -/
theorem run_induction {P : Service → Prop} {as : List Activity}
    (keep : ∀ s a s', P s → s.Acts a s' → P s') (h : s.run as = some s') (hs : P s) : P s' := by
  induction as generalizing s with
  | nil =>
    cases h
    exact hs
  | cons a as ih =>
    obtain ⟨d, hstep, hrun⟩ := Option.bind_eq_some_iff.1 h
    exact ih hrun (keep _ _ _ hs (acts_of_step hstep))

end Service

/-! ### Jobs of calls -/

/-- What a slot says is so. -/
def Compiler.SlotSound (c : Compiler) (call : Call) (language : String) : Slot → Prop
  | .idle => True
  | .unavailable => c.backends.find? language = none
  | .queued place =>
    ∃ k, c.tickets[place]? = some k ∧ k.language = language ∧ k.input = call.input ∧
      k.request = call.token

theorem Compiler.SlotSound.mono {c c' : Compiler} {e : Event} {call : Call} {language : String}
    {slot : Slot} (hc : c.SlotSound call language slot) (h : c.Does e c') :
    c'.SlotSound call language slot := by
  cases slot with
  | idle => trivial
  | unavailable => exact (congrArg (Backends.find? · language) h.frame.1).trans hc
  | queued place =>
    obtain ⟨k, hk, same⟩ := hc
    exact ⟨k, h.ticket_after hk, same⟩

theorem perm_flatMap_set {α β : Type} {f : α → List β} {xs : List α} {k : Nat} {x y : α}
    {bs : List β} (hx : xs[k]? = some x) (hy : (f y).Perm (bs ++ f x)) :
    ((xs.set k y).flatMap f).Perm (bs ++ xs.flatMap f) := by
  induction xs generalizing k with
  | nil => cases hx
  | cons z zs ih =>
    cases k with
    | zero =>
      cases hx
      have := hy.append_right (zs.flatMap f)
      rwa [List.append_assoc] at this
    | succ k =>
      show (f z ++ (zs.set k y).flatMap f).Perm (bs ++ (f z ++ zs.flatMap f))
      exact ((ih hx).append_left (f z)).trans (List.perm_append_comm_assoc _ _ _)

namespace Service

variable {s s' : Service} {a : Activity}

/-- **The jobs in the table are those of the calls**, each of one language of one call. -/
structure Settled (s : Service) : Prop where
  sound : s.compiler.Sound
  places : (s.calls.flatMap Call.places).Perm (List.range s.compiler.tasks.length)
  slot : ∀ call ∈ s.calls, ∀ x ∈ call.slots, s.compiler.SlotSound call x.1 x.2

theorem settled_new (backends : Backends) (options : CompilerOptions) :
    (new backends options).Settled where
  sound := Compiler.sound_new backends options
  places := .nil
  slot := by rintro call ⟨⟩

theorem places_new (token : Nat) (input : GeneratorInput) (languages : List String) :
    (Call.new token input languages).places = [] := by
  simp [Call.places, Call.new, Slot.place?, List.flatMap_map]

/-- The slots of a call when one of them is replaced by a sound one. -/
theorem slot_set {c : Compiler} {calls : List Call} {call : Call} {k position : Nat}
    {language : String} {slot : Slot} (hcall : calls[k]? = some call)
    (old : ∀ call ∈ calls, ∀ x ∈ call.slots, c.SlotSound call x.1 x.2)
    (new : c.SlotSound call language slot) :
    ∀ call' ∈ calls.set k { call with slots := call.slots.set position (language, slot) },
      ∀ x ∈ call'.slots, c.SlotSound call' x.1 x.2 := by
  intro call' hcall' x hx
  rcases List.mem_or_eq_of_mem_set hcall' with hmem | rfl
  · exact old call' hmem x hx
  · rcases List.mem_or_eq_of_mem_set hx with hmem | rfl
    · have := old call (List.mem_of_getElem? hcall) x hmem
      cases hslot : x.2 <;> rw [hslot] at this <;> exact this
    · cases slot <;> exact new

/-- The places of the jobs when a slot is replaced by one with other places. -/
theorem places_set {calls : List Call} {call : Call} {k position : Nat} {language : String}
    {slot : Slot} (hcall : calls[k]? = some call)
    (hslot : call.slots[position]? = some (language, .idle)) :
    ((calls.set k { call with
      slots := call.slots.set position (language, slot) }).flatMap Call.places).Perm
      (slot.place?.toList ++ calls.flatMap Call.places) := by
  refine perm_flatMap_set hcall (perm_flatMap_set hslot ?_)
  simp [Slot.place?]

/-- **Every activity keeps this.** -/
theorem Acts.settled (h : s.Acts a s') (hs : s.Settled) : s'.Settled := by
  cases h with
  | @called token input languages =>
    refine ⟨hs.sound, ?_, ?_⟩
    · rw [List.flatMap_append, List.flatMap_singleton, places_new, List.append_nil]
      exact hs.places
    · intro call hcall x hx
      rcases List.mem_append.1 hcall with old | new
      · exact hs.slot call old x hx
      · obtain rfl := List.mem_singleton.1 new
        obtain ⟨language, -, rfl⟩ := List.mem_map.1 hx
        trivial
  | @queued k position call language backend hcall hslot hb =>
    have does : s.compiler.Does (.enqueue call.token language call.input) _ := .enqueued hb
    refine ⟨does.sound hs.sound, ?_, ?_⟩
    · show ((s.calls.set k _).flatMap Call.places).Perm
        (List.range (s.compiler.tasks ++ [_]).length)
      rw [List.length_append, List.length_singleton, List.range_succ]
      refine (places_set hcall hslot).trans ?_
      exact (hs.places.cons _).trans (List.perm_append_singleton _ _).symm
    · refine slot_set hcall (fun call' hcall' x hx => (hs.slot call' hcall' x hx).mono does) ?_
      refine ⟨s.compiler.nextTicket call.token language backend call.input, ?_, rfl, rfl, rfl⟩
      rw [Compiler.tickets_enqueue, ← Compiler.length_tickets]
      exact List.getElem?_concat_length
  | @unavailable k position call language hcall hslot hb =>
    exact ⟨hs.sound, (places_set hcall hslot).trans hs.places, slot_set hcall hs.slot hb⟩
  | @worked e c hne hstep =>
    have hdoes := Compiler.does_of_step hstep
    refine ⟨hdoes.sound hs.sound, ?_, fun call hcall x hx => (hs.slot call hcall x hx).mono hdoes⟩
    rw [← Compiler.length_tickets, hdoes.tickets_eq hne, Compiler.length_tickets]
    exact hs.places

/-- **This holds after every run** of a new compiler. -/
theorem run_settled {backends : Backends} {options : CompilerOptions} {as : List Activity}
    (h : (new backends options).run as = some s) : s.Settled :=
  run_induction (fun _ _ _ hs hacts => hacts.settled hs) h (settled_new backends options)

/-! ### The table -/

/-- **What the table of jobs shows.** -/
structure TableIsLegal (s : Service) : Prop where
  consistent : ∀ job ∈ s.jobs, job.IsConsistent
  ids_nodup : (s.jobs.map Job.id).Nodup
  /-- A result names the language of its job. One from the cache could name another language only if
  a job for that had the same fingerprint. -/
  language : ∀ job ∈ s.jobs, ∀ r, job.result = some r → r.language = job.language ∨
    r.cacheHit = true ∧ ∃ job' ∈ s.jobs, job'.fingerprint = job.fingerprint ∧
      job'.language = r.language
  /-- An activity moves a job by one stage or leaves it as it is. -/
  next : ∀ a s', s.step a = some s' → ∀ job ∈ s.jobs, ∃ job' ∈ s'.jobs, job'.id = job.id ∧
    (job' = job ∨ job.status.canMoveTo job'.status = true)
  /-- No job is lost, goes back, or changes when it has ended. -/
  later : ∀ as s', s.run as = some s' → ∀ job ∈ s.jobs, ∃ job' ∈ s'.jobs, job.Precedes job'
  /-- When all calls have returned, the table has one job for each of their languages that has a
  generator, which has ended, and no other. -/
  returned : (∀ call ∈ s.calls, call.hasReturned s.compiler = true) →
    (∀ job ∈ s.jobs, job.status.isTerminal = true) ∧
    (s.calls.flatMap Call.places).Perm (List.range s.jobs.length) ∧
    ∀ call ∈ s.calls, ∀ x ∈ call.slots,
      x.2 = .unavailable ∧ s.compiler.backends.find? x.1 = none ∨
      ∃ place job, x.2 = .queued place ∧ (s.compiler.backends.find? x.1).isSome = true ∧
        s.jobs[place]? = some job ∧ job.language = x.1 ∧
        job.fingerprint = call.input.fingerprint x.1

theorem mem_jobs {job : Job} :
    job ∈ s.jobs ↔ ∃ (i : Nat) (t : Task), s.compiler.tasks[i]? = some t ∧ t.job = job := by
  rw [jobs, Compiler.jobs, List.mem_map]
  constructor
  · rintro ⟨t, ht, rfl⟩
    obtain ⟨i, hi⟩ := List.mem_iff_getElem?.1 ht
    exact ⟨i, t, hi, rfl⟩
  · rintro ⟨i, t, ht, rfl⟩
    exact ⟨t, List.mem_of_getElem? ht, rfl⟩

theorem jobId_injective : Function.Injective Compiler.jobId := by
  intro n m h
  have digits : Nat.toDigits 10 (n + 1) = Nat.toDigits 10 (m + 1) := by
    have := congrArg String.toList h
    simpa [Compiler.jobId, String.toList_append, Nat.toString_eq_repr, Nat.toList_repr] using this
  have := congrArg (Nat.ofDigitChars 10 · 0) digits
  simp only [Nat.ofDigitChars_toDigits (b := 10) (by decide) (by decide)] at this
  omega

theorem Settled.ids (hs : s.Settled) :
    s.jobs.map Job.id = (List.range s.compiler.tasks.length).map Compiler.jobId := by
  refine List.ext_getElem (by simp [jobs, Compiler.jobs]) fun i hi _ => ?_
  have hlt : i < s.compiler.tasks.length := by simpa [jobs, Compiler.jobs] using hi
  have ht := List.getElem?_eq_getElem hlt
  have hid : s.compiler.tasks[i].job.id = Compiler.jobId i :=
    (hs.sound.ticket i _ (Compiler.getElem?_tickets ht)).1
  simpa [jobs, Compiler.jobs] using hid

/-- An activity leaves the compiler as it is, or is an event of it. -/
theorem Acts.compiler (h : s.Acts a s') :
    s'.compiler = s.compiler ∨ ∃ e, s.compiler.step e = some s'.compiler := by
  cases h with
  | called => exact Or.inl rfl
  | @queued _ _ call language _ _ _ hb =>
    exact Or.inr ⟨.enqueue call.token language call.input, congrArg (Option.map _) hb⟩
  | unavailable => exact Or.inl rfl
  | worked _ hstep => exact Or.inr ⟨_, hstep⟩

theorem Acts.job (h : s.Acts a s') (hs : s.Settled) {job : Job} (hjob : job ∈ s.jobs) :
    ∃ job' ∈ s'.jobs, job.Precedes job' ∧
      (job' = job ∨ job.status.canMoveTo job'.status = true) := by
  obtain ⟨i, t, ht, rfl⟩ := mem_jobs.1 hjob
  rcases h.compiler with same | ⟨e, hstep⟩
  · exact ⟨t.job, mem_jobs.2 ⟨i, t, by rw [same, ht], rfl⟩, .refl _, Or.inl rfl⟩
  · obtain ⟨t', ht', turn⟩ := (Compiler.does_of_step hstep).task_before ht
    refine ⟨t'.job, mem_jobs.2 ⟨i, t', ht', rfl⟩, ?_⟩
    rcases turn with rfl | ⟨d, hturn⟩
    · exact ⟨.refl _, Or.inl rfl⟩
    · have shown := (hs.sound.task i t ht).1
      exact ⟨hturn.precedes shown, (hturn.job shown).imp_right And.left⟩

theorem Settled.later (hs : s.Settled) {as : List Activity} (h : s.run as = some s') {job : Job}
    (hjob : job ∈ s.jobs) : ∃ job' ∈ s'.jobs, job.Precedes job' := by
  have kept : s'.Settled ∧ ∃ job' ∈ s'.jobs, job.Precedes job' := by
    refine run_induction (P := fun s => s.Settled ∧ ∃ job' ∈ s.jobs, job.Precedes job') ?_ h
      ⟨hs, job, hjob, .refl job⟩
    rintro s a s' ⟨hs, job', hjob', before⟩ hacts
    obtain ⟨job'', hjob'', after, -⟩ := hacts.job hs hjob'
    exact ⟨hacts.settled hs, job'', hjob'', before.trans after⟩
  exact kept.2

theorem Settled.terminal_of_hasEnded (hs : s.Settled) {place : Nat}
    (h : s.compiler.hasEnded place = true) :
    ∃ job, s.jobs[place]? = some job ∧ job.status.isTerminal = true := by
  unfold Compiler.hasEnded at h
  split at h
  · next result failure hphase =>
    obtain ⟨t, ht, hp⟩ := Option.map_eq_some_iff.1 hphase
    refine ⟨t.job, by rw [jobs, Compiler.jobs, List.getElem?_map, ht]; rfl, ?_⟩
    have shown := (hs.sound.task place t ht).1
    rw [Task.IsShown, hp] at shown
    rw [shown]
    show ((Job.new _ _ _).start.1.finish result).1.status.isTerminal = true
    rw [Job.finish_start_new]
    exact Job.finalStatus_isTerminal result
  · cases h

theorem Settled.returned (hs : s.Settled)
    (h : ∀ call ∈ s.calls, call.hasReturned s.compiler = true) :
    ∀ job ∈ s.jobs, job.status.isTerminal = true := by
  intro job hjob
  obtain ⟨i, t, ht, rfl⟩ := mem_jobs.1 hjob
  have member : i ∈ s.calls.flatMap Call.places :=
    hs.places.mem_iff.2 (List.mem_range.2 (List.getElem?_eq_some_iff.1 ht).1)
  obtain ⟨call, hcall, hplace⟩ := List.mem_flatMap.1 member
  obtain ⟨x, hx, hslot⟩ := List.mem_flatMap.1 hplace
  have queued : x.2 = .queued i := by
    cases hx2 : x.2 <;> rw [hx2] at hslot <;> simp_all [Slot.place?]
  have settled := List.all_eq_true.1 (h call hcall) x hx
  rw [queued] at settled
  obtain ⟨job, hjob, terminal⟩ := hs.terminal_of_hasEnded settled
  rw [jobs, Compiler.jobs, List.getElem?_map, ht] at hjob
  cases hjob
  exact terminal

/-- A language that is queued has its job, of this call. -/
theorem Settled.exists_task (hs : s.Settled) {call : Call} (hcall : call ∈ s.calls)
    {language : String} {place : Nat} (hslot : (language, .queued place) ∈ call.slots) :
    ∃ t, s.compiler.tasks[place]? = some t ∧ t.job.language = language ∧ t.input = call.input ∧
      t.request = call.token := by
  obtain ⟨k, hk, hlanguage, hinput, hrequest⟩ := hs.slot call hcall _ hslot
  obtain ⟨t, ht, rfl⟩ := Option.map_eq_some_iff.1 ((List.getElem?_map ..).symm.trans hk)
  exact ⟨t, ht, hlanguage, hinput, hrequest⟩

/-- A language that no job was asked for can be taken up. -/
theorem exists_takeUp {k position : Nat} {call : Call} {language : String}
    (hcall : s.calls[k]? = some call) (hslot : call.slots[position]? = some (language, .idle)) :
    ∃ s', s.step (.takeUp k position) = some s' := by
  simp only [step, hcall, Option.bind_eq_bind, Option.bind_some, hslot]
  exact ⟨_, rfl⟩

theorem Settled.slot_returned (hs : s.Settled)
    (h : ∀ call ∈ s.calls, call.hasReturned s.compiler = true) {call : Call}
    (hcall : call ∈ s.calls) {x : String × Slot} (hx : x ∈ call.slots) :
    x.2 = .unavailable ∧ s.compiler.backends.find? x.1 = none ∨
      ∃ place job, x.2 = .queued place ∧ (s.compiler.backends.find? x.1).isSome = true ∧
        s.jobs[place]? = some job ∧ job.language = x.1 ∧
        job.fingerprint = call.input.fingerprint x.1 := by
  have settled := List.all_eq_true.1 (h call hcall) x hx
  obtain ⟨language, slot⟩ := x
  cases slot with
  | idle => cases settled
  | unavailable => exact Or.inl ⟨rfl, hs.slot call hcall _ hx⟩
  | queued place =>
    obtain ⟨t, ht, hlanguage, hinput, -⟩ := hs.exists_task hcall hx
    obtain ⟨-, hfingerprint, hbackend⟩ := hs.sound.ticket place _ (Compiler.getElem?_tickets ht)
    refine Or.inr ⟨place, t.job, rfl, ?_, ?_, hlanguage, ?_⟩
    · have found : s.compiler.backends.find? language = some t.backend := hlanguage ▸ hbackend
      rw [found]
      rfl
    · rw [jobs, Compiler.jobs, List.getElem?_map, ht]
      rfl
    · rw [← hinput, ← hlanguage]
      exact hfingerprint

/-- **The table of jobs is legal** after whatever happens to a new compiler with its calls. -/
theorem run_tableIsLegal {backends : Backends} {options : CompilerOptions} {as : List Activity}
    (h : (new backends options).run as = some s) : s.TableIsLegal := by
  have hs := run_settled h
  refine ⟨?_, ?_, ?_, ?_, fun as s' h job => hs.later h, fun returned => ⟨hs.returned returned, ?_,
    fun call hcall x => hs.slot_returned returned hcall⟩⟩
  · intro job hjob
    obtain ⟨i, t, ht, rfl⟩ := mem_jobs.1 hjob
    exact hs.sound.consistent ht
  · rw [hs.ids]
    exact List.nodup_range.map jobId_injective
  · intro job hjob r hr
    obtain ⟨i, t, ht, rfl⟩ := mem_jobs.1 hjob
    obtain ⟨plain, failure, fits, -, rfl⟩ := hs.sound.result ht hr
    refine fits.language.imp_right fun ⟨hit, k', hk', same⟩ => ⟨hit, ?_⟩
    obtain ⟨t', ht', rfl⟩ := List.mem_map.1 hk'
    exact ⟨t'.job, List.mem_map_of_mem ht', same⟩
  · intro a s' hstep job hjob
    obtain ⟨job', hjob', before, moves⟩ := (acts_of_step hstep).job hs hjob
    exact ⟨job', hjob', before.id, moves⟩
  · rw [jobs, Compiler.jobs, List.length_map]
    exact hs.places

/-- A call for a language without a generator and twice for one with a generator, which gives files
for the first job and is spared by the second. -/
def echoTwice : List Activity :=
  [.call 0 {} ["echo", "none", "echo"], .takeUp 0 2, .takeUp 0 1, .work (.acquire 0), .takeUp 0 0,
    .work (.start 0), .work (.lookUp 0), .work (.dispatch 0), .work (.workerEnds 0),
    .work (.acquire 1), .work (.take 0), .work (.keep 0), .work (.start 1), .work (.finish 0),
    .work (.lookUp 1), .work (.finish 1)]

theorem echoTwice_tableIsLegal : ∃ s,
    (new [("echo", .ofFunction "" fun input => .ok ⟨input.files, []⟩)] ⟨1, 1000, true⟩).run
      echoTwice = some s ∧ s.calls.all (·.hasReturned s.compiler) = true ∧
      s.jobs.map Job.cacheHit = [false, true] ∧ s.TableIsLegal := by
  have runs : ((new [("echo", .ofFunction "" fun input => .ok ⟨input.files, []⟩)]
      ⟨1, 1000, true⟩).run echoTwice).any (fun s => s.calls.all (·.hasReturned s.compiler) &&
        s.jobs.map Job.cacheHit == [false, true]) = true := by
    decide +kernel
  obtain ⟨s, hs, done⟩ := (Option.any_eq_true _ _).1 runs
  obtain ⟨returned, hits⟩ := Bool.and_eq_true_iff.1 done
  exact ⟨s, hs, returned, by simpa using hits, run_tableIsLegal hs⟩

end Service

end SchemaDepot
