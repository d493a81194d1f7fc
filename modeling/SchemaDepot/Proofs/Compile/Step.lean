import Mathlib.Data.List.Basic
import SchemaDepot.Compile.Machine

/-! # The steps of a compiler

What an event of the machine does is said once, and every invariant is read off from that.

* `Compiler.Turn`: the ways in which a task goes on, with what that does to the cache, the permits
  and the generators.
* `Compiler.Does`: the ways in which an event changes a compiler; `does_of_step`: there are no
  others.
* `run_induction`: what every event keeps, every run keeps. -/

namespace SchemaDepot

namespace Compiler

/-! ### One event -/

/-- **The ways in which a task goes on**: the event, the task afterwards, and the compiler but for
that task. -/
inductive Turn (c : Compiler) (i : Nat) (t : Task) : Event → Task → Compiler → Prop where
  | refused : t.phase = .waiting → c.isCancelled t = true →
    Turn c i t (.refuse i) { t with phase := .refused } c
  | granted : t.phase = .waiting → c.isCancelled t = false → 0 < c.free →
    Turn c i t (.acquire i) { t with phase := .granted } { c with free := c.free - 1 }
  | givenUp : t.phase = .refused →
    Turn c i t (.start i) { t with job := t.job.start.1, phase := t.failing .cancelled } c
  | started : t.phase = .granted →
    Turn c i t (.start i) { t with job := t.job.start.1, phase := .ready } c
  | hit {result : CompileResult} : t.phase = .ready → c.cached? t.job.fingerprint = some result →
    Turn c i t (.lookUp i) { t with phase := .ending { result with cacheHit := true } none }
      { c with free := c.free + 1 }
  | missed : t.phase = .ready → c.cached? t.job.fingerprint = none →
    Turn c i t (.lookUp i) { t with phase := .missed } c
  | dispatched : t.phase = .missed →
    Turn c i t (.dispatch i) { t with phase := .executing }
      { c with
        workers := c.workers ++ [⟨i, t.backend.run (c.calls.count t.job.language) t.input⟩]
        calls := c.calls ++ [t.job.language] }
  | answered {w : Worker} : c.workers.find? (·.task == i) = some w → t.phase = .executing →
    w.run ≠ .never →
    Turn c i t (.workerEnds i) { t with phase := .answered w.run }
      { c with workers := c.workers.filter (·.task != i), free := c.free + 1 }
  | left {w : Worker} : c.workers.find? (·.task == i) = some w → t.phase ≠ .executing →
    Turn c i t (.workerEnds i) t
      { c with workers := c.workers.filter (·.task != i), free := c.free + 1 }
  | taken {run : Run} {outcome : Except Failure GeneratorOutput} : t.phase = .answered run →
    run.conclude = some outcome → c.isCancelled t = false →
    Turn c i t (.take i) { t with phase := t.taking c.options.cacheEnabled outcome } c
  | timedOut : t.phase = .executing → c.isCancelled t = false →
    Turn c i t (.timeOut i) { t with phase := t.failing (.timedOut c.options.timeout) } c
  | abandoned : t.phase = .executing ∨ (∃ run, t.phase = .answered run) →
    c.isCancelled t = true →
    Turn c i t (.abandon i) { t with phase := t.failing .cancelled } c
  | kept {result : CompileResult} : t.phase = .keeping result →
    Turn c i t (.keep i) { t with phase := .ending result none }
      (c.store t.job.fingerprint result)
  | finished {result : CompileResult} {failure : Option Failure} :
    t.phase = .ending result failure →
    Turn c i t (.finish i)
      { t with
        job := (t.job.finish { result with job := some t.job.id }).1
        phase := .ended { result with job := some t.job.id } failure } c

/-- **The ways in which an event changes a compiler.** -/
inductive Does (c : Compiler) : Event → Compiler → Prop where
  | opened : Does c .open { c with requests := c.requests + 1 }
  | enqueued {request : Nat} {language : String} {input : GeneratorInput} {backend : Backend} :
    c.backends.find? language = some backend →
    Does c (.enqueue request language input) (c.enqueue request language backend input)
  | cancelled {request : Nat} :
    Does c (.cancel request) { c with cancelled := request :: c.cancelled }
  | cleared : Does c .clear c.clearCache
  | turned {e : Event} {i : Nat} {t t' : Task} {d : Compiler} : c.tasks[i]? = some t →
    c.Turn i t e t' d → Does c e { d with tasks := c.tasks.set i t' }

variable {c c' d : Compiler} {i j : Nat} {t t' : Task} {e : Event}

theorem update_eq (ht : c.tasks[i]? = some t) (f : Task → Task) :
    c.update i f = { c with tasks := c.tasks.set i (f t) } := by
  rw [update, List.modify_eq_set_getElem?, ht]
  rfl

theorem toPhase_eq (hd : d.tasks = c.tasks) (ht : c.tasks[i]? = some t) (phase : Phase) :
    d.toPhase i phase = { d with tasks := c.tasks.set i { t with phase } } := by
  rw [← hd] at ht ⊢
  exact update_eq ht _

theorem set_self (ht : c.tasks[i]? = some t) : c.tasks.set i t = c.tasks := by
  obtain ⟨hi, rfl⟩ := List.getElem?_eq_some_iff.1 ht
  exact List.set_getElem_self hi

/-- What an event does to a task is one of the ways in which it goes on. -/
theorem turn_of_stepTask (he : taskOf e = some i) (ht : c.tasks[i]? = some t)
    (h : c.stepTask i t e = some c') :
    ∃ t' d, c.Turn i t e t' d ∧ c' = { d with tasks := c.tasks.set i t' } := by
  have hphase := toPhase_eq (d := c) rfl ht
  cases e <;> cases he <;> simp only [stepTask] at h
  case refuse =>
    split at h
    · next hp =>
      split at h <;> cases h
      exact ⟨_, _, .refused hp ‹_›, hphase _⟩
    · cases h
  case acquire =>
    split at h
    · next hp =>
      split at h
      · cases h
      · next hc =>
        split at h <;> cases h
        exact ⟨_, _, .granted hp (Bool.eq_false_iff.2 hc) ‹_›, by rw [hphase]⟩
    · cases h
  case start =>
    split at h <;> cases h
    · next hp => exact ⟨_, _, .givenUp hp, update_eq ht _⟩
    · next hp => exact ⟨_, _, .started hp, update_eq ht _⟩
  case lookUp =>
    split at h
    · next hp =>
      split at h <;> cases h
      · next hc => exact ⟨_, _, .hit hp hc, by rw [hphase]⟩
      · next hc => exact ⟨_, _, .missed hp hc, hphase _⟩
    · cases h
  case dispatch =>
    split at h <;> cases h
    next hp => exact ⟨_, _, .dispatched hp, by rw [hphase]⟩
  case workerEnds =>
    split at h
    · cases h
    · next w hw =>
      split at h <;> cases h
      · next hp hrun =>
        exact ⟨_, _, .answered hw hp hrun, toPhase_eq (by rfl) ht _⟩
      · next hp _ => exact ⟨_, _, .left hw hp, by rw [set_self ht]⟩
  case take =>
    split at h
    · next hp =>
      split at h
      · next hc =>
        split at h <;> cases h
        exact ⟨_, _, .taken hp hc (Bool.eq_false_iff.2 ‹_›), hphase _⟩
      · cases h
    · cases h
  case timeOut =>
    split at h
    · next hp =>
      split at h <;> cases h
      exact ⟨_, _, .timedOut hp (Bool.eq_false_iff.2 ‹_›), hphase _⟩
    · cases h
  case abandon =>
    split at h
    · next hp =>
      split at h <;> cases h
      exact ⟨_, _, .abandoned (Or.inl hp) ‹_›, hphase _⟩
    · next hp =>
      split at h <;> cases h
      exact ⟨_, _, .abandoned (Or.inr ⟨_, hp⟩) ‹_›, hphase _⟩
    · cases h
  case keep =>
    split at h <;> cases h
    next hp => exact ⟨_, _, .kept hp, toPhase_eq (by rfl) ht _⟩
  case finish =>
    split at h <;> cases h
    next hp => exact ⟨_, _, .finished hp, update_eq ht _⟩

/-- **An event changes a compiler in no other way.** -/
theorem does_of_step (h : c.step e = some c') : c.Does e c' := by
  have task : ∀ i, taskOf e = some i → (do
      let i ← taskOf e
      let t ← c.tasks[i]?
      c.stepTask i t e) = some c' → c.Does e c' := by
    intro i hi h
    obtain ⟨i', hi', h⟩ := Option.bind_eq_some_iff.1 h
    obtain ⟨t, ht, h⟩ := Option.bind_eq_some_iff.1 h
    obtain ⟨t', d, hturn, rfl⟩ := turn_of_stepTask hi' ht h
    exact .turned ht hturn
  cases e <;> simp only [step] at h
  case «open» => cases h; exact .opened
  case enqueue request language input =>
    obtain ⟨backend, hb, rfl⟩ := Option.map_eq_some_iff.1 h
    exact .enqueued hb
  case cancel => cases h; exact .cancelled
  case clear => cases h; exact .cleared
  all_goals exact task _ rfl h

/-! ### Many events -/

theorem run_cons (c : Compiler) (e : Event) (es : List Event) :
    c.run (e :: es) = (c.step e).bind fun d => d.run es := rfl

theorem run_append (c : Compiler) (es fs : List Event) :
    c.run (es ++ fs) = (c.run es).bind fun d => d.run fs := by
  induction es generalizing c with
  | nil => rfl
  | cons e es ih =>
    rw [List.cons_append, run_cons, run_cons, Option.bind_assoc]
    simp only [ih]

/-- **What every event keeps, every run keeps.** -/
theorem run_induction {P : Compiler → Prop} {es : List Event}
    (keep : ∀ c e c', e ∈ es → P c → c.Does e c' → P c') (h : c.run es = some c') (hc : P c) :
    P c' := by
  induction es generalizing c with
  | nil =>
    cases h
    exact hc
  | cons e es ih =>
    obtain ⟨d, hstep, hrun⟩ := Option.bind_eq_some_iff.1 h
    have hd : P d := keep _ _ _ List.mem_cons_self hc (does_of_step hstep)
    exact ih (fun c e c' he => keep c e c' (List.mem_cons_of_mem _ he)) hrun hd

/-- What an event brings about and every event keeps, a run with that event brings about. -/
theorem run_mem_induction {P : Compiler → Prop} {es : List Event} (he : e ∈ es)
    (now : ∀ c c', Does c e c' → P c') (keep : ∀ c e c', P c → Does c e c' → P c')
    (h : c.run es = some c') : P c' := by
  induction es generalizing c with
  | nil => cases he
  | cons e' es ih =>
    obtain ⟨d, hstep, hrun⟩ := Option.bind_eq_some_iff.1 h
    rcases List.mem_cons.1 he with rfl | later
    · exact run_induction (fun c e c' _ => keep c e c') hrun (now _ _ (does_of_step hstep))
    · exact ih later hrun

/-! ### What never changes -/

theorem Turn.frame (h : c.Turn i t e t' d) : d.tasks = c.tasks ∧ d.backends = c.backends ∧
    d.options = c.options ∧ d.cancelled = c.cancelled := by
  cases h <;> exact ⟨rfl, rfl, rfl, rfl⟩

end Compiler

/-- What a task is about, which never changes. -/
structure Ticket where
  id : String
  language : String
  fingerprint : Fingerprint
  request : Nat
  backend : Backend
  input : GeneratorInput

/-- What the task is about. -/
def Task.ticket (t : Task) : Ticket where
  id := t.job.id
  language := t.job.language
  fingerprint := t.job.fingerprint
  request := t.request
  backend := t.backend
  input := t.input

theorem Job.transition_same (job : Job) (target : JobStatus) :
    (job.transition target).1.id = job.id ∧ (job.transition target).1.language = job.language ∧
      (job.transition target).1.fingerprint = job.fingerprint := by
  unfold transition
  split <;> exact ⟨rfl, rfl, rfl⟩

theorem Job.finish_same (job : Job) (r : CompileResult) :
    (job.finish r).1.id = job.id ∧ (job.finish r).1.language = job.language ∧
      (job.finish r).1.fingerprint = job.fingerprint := by
  simp only [finish, transition]
  by_cases h : job.status.canMoveTo (finalStatus r) = true
  · rw [if_pos h]
    exact ⟨rfl, rfl, rfl⟩
  · rw [if_neg h]
    exact ⟨rfl, rfl, rfl⟩

namespace Compiler

variable {c c' d : Compiler} {i j : Nat} {t t' : Task} {e : Event}

theorem Turn.ticket (h : c.Turn i t e t' d) : t'.ticket = t.ticket := by
  cases h with
  | givenUp | started =>
    obtain ⟨hid, hlanguage, hfingerprint⟩ := t.job.transition_same .running
    simp only [Task.ticket, Job.start, hid, hlanguage, hfingerprint]
  | @finished result failure =>
    obtain ⟨hid, hlanguage, hfingerprint⟩ :=
      t.job.finish_same { result with job := some t.job.id }
    simp only [Task.ticket, hid, hlanguage, hfingerprint]
  | _ => rfl

/-- What the tasks are about. -/
def tickets (c : Compiler) : List Ticket := c.tasks.map Task.ticket

/-- What the job of a language for a request is about, if it is queued next. -/
def nextTicket (c : Compiler) (request : Nat) (language : String) (backend : Backend)
    (input : GeneratorInput) : Ticket where
  id := jobId c.tasks.length
  language
  fingerprint := input.fingerprint language
  request
  backend
  input

theorem tickets_enqueue (request : Nat) (language : String) (backend : Backend)
    (input : GeneratorInput) : (c.enqueue request language backend input).tickets =
      c.tickets ++ [c.nextTicket request language backend input] := List.map_append

theorem tickets_set (ht : c.tasks[i]? = some t) (h : t'.ticket = t.ticket) :
    { d with tasks := c.tasks.set i t' }.tickets = c.tickets := by
  show (c.tasks.set i t').map Task.ticket = c.tasks.map Task.ticket
  rw [List.map_set, h, ← List.map_set, set_self ht]

/-- Tasks only join. -/
theorem Does.tickets_prefix (h : c.Does e c') : c.tickets <+: c'.tickets := by
  cases h with
  | enqueued => exact tickets_enqueue .. ▸ List.prefix_append _ _
  | turned ht hturn => exact (tickets_set ht hturn.ticket).symm ▸ List.prefix_refl _
  | _ => exact List.prefix_refl _

theorem Does.tickets_eq (h : c.Does e c')
    (hne : ∀ request language input, e ≠ .enqueue request language input) :
    c'.tickets = c.tickets := by
  cases h with
  | enqueued => exact (hne _ _ _ rfl).elim
  | turned ht hturn => exact tickets_set ht hturn.ticket
  | _ => rfl

theorem length_tickets (c : Compiler) : c.tickets.length = c.tasks.length := List.length_map _

theorem Does.ticket_after {k : Ticket} (h : c.Does e c') (hk : c.tickets[i]? = some k) :
    c'.tickets[i]? = some k := by
  obtain ⟨joined, hjoined⟩ := h.tickets_prefix
  rw [← hjoined, List.getElem?_append_left (List.getElem?_eq_some_iff.1 hk).1, hk]

theorem Does.frame (h : c.Does e c') : c'.backends = c.backends ∧ c'.options = c.options := by
  cases h with
  | turned _ hturn => exact ⟨hturn.frame.2.1, hturn.frame.2.2.1⟩
  | _ => exact ⟨rfl, rfl⟩

theorem getElem?_concat {α : Type} {xs : List α} {x y : α} {i : Nat} :
    (xs ++ [x])[i]? = some y ↔ xs[i]? = some y ∨ i = xs.length ∧ x = y := by
  grind

theorem run_frame {es : List Event} (h : c.run es = some c') :
    c'.backends = c.backends ∧ c'.options = c.options := by
  refine run_induction (P := fun d => d.backends = c.backends ∧ d.options = c.options) ?_ h
    ⟨rfl, rfl⟩
  rintro d e d' - ⟨hbackends, hoptions⟩ hdoes
  exact ⟨hdoes.frame.1.trans hbackends, hdoes.frame.2.trans hoptions⟩

/-- A task after an event was there before, or is the one that joined. -/
theorem Does.task_after (h : c.Does e c') (ht : c'.tasks[i]? = some t') :
    (∃ t, c.tasks[i]? = some t ∧ (t' = t ∨ ∃ d, c.Turn i t e t' d)) ∨
      ∃ request language input backend, c.backends.find? language = some backend ∧
        e = .enqueue request language input ∧ i = c.tasks.length ∧
        t' = { job := Job.new (jobId i) language (input.fingerprint language), request, backend,
               input } := by
  cases h with
  | @enqueued request language input backend hb =>
    rcases getElem?_concat.1 ht with ht | ⟨rfl, rfl⟩
    · exact Or.inl ⟨t', ht, Or.inl rfl⟩
    · exact Or.inr ⟨request, language, input, backend, hb, rfl, rfl, rfl⟩
  | @turned e k s s' d hs hturn =>
    by_cases hk : k = i
    · subst hk
      have : s' = t' := by
        rw [List.getElem?_set_self (List.getElem?_eq_some_iff.1 hs).1] at ht
        exact Option.some.inj ht
      exact Or.inl ⟨s, hs, Or.inr ⟨d, this ▸ hturn⟩⟩
    · rw [List.getElem?_set_ne hk] at ht
      exact Or.inl ⟨t', ht, Or.inl rfl⟩
  | _ => exact Or.inl ⟨t', ht, Or.inl rfl⟩

/-- A task before an event is there afterwards, perhaps one turn further. -/
theorem Does.task_before (h : c.Does e c') (ht : c.tasks[i]? = some t) :
    ∃ t', c'.tasks[i]? = some t' ∧ (t' = t ∨ ∃ d, c.Turn i t e t' d) := by
  cases h with
  | enqueued => exact ⟨t, getElem?_concat.2 (Or.inl ht), Or.inl rfl⟩
  | @turned e k s s' d hs hturn =>
    by_cases hk : k = i
    · subst hk
      obtain rfl : s = t := Option.some.inj (hs.symm.trans ht)
      exact ⟨s', List.getElem?_set_self (List.getElem?_eq_some_iff.1 hs).1, Or.inr ⟨d, hturn⟩⟩
    · exact ⟨t, (List.getElem?_set_ne hk).trans ht, Or.inl rfl⟩
  | _ => exact ⟨t, ht, Or.inl rfl⟩

/-! ### The cache and the generators -/

/-- The cache changes when a job keeps its result, and when it is emptied. -/
theorem Does.cache (h : c.Does e c') : c'.cache = c.cache ∨ e = .clear ∧ c'.cache = [] ∨
    ∃ i t result, e = .keep i ∧ c.tasks[i]? = some t ∧ t.phase = .keeping result ∧
      c'.cache = (t.job.fingerprint, result) :: c.cache.filter (·.1 != t.job.fingerprint) := by
  cases h with
  | cleared => exact Or.inr (Or.inl ⟨rfl, rfl⟩)
  | @turned e i t t' d ht hturn =>
    cases hturn with
    | @kept result hp => exact Or.inr (Or.inr ⟨i, t, result, rfl, ht, hp, rfl⟩)
    | _ => exact Or.inl rfl
  | _ => exact Or.inl rfl

/-- A generator joins when a job calls it; all others were there before. -/
theorem Does.worker (h : c.Does e c') {w : Worker} (hw : w ∈ c'.workers) : w ∈ c.workers ∨
    ∃ t, c.tasks[w.task]? = some t ∧
      w.run = t.backend.run (c.calls.count t.job.language) t.input := by
  cases h with
  | @turned e i t t' d ht hturn =>
    cases hturn with
    | dispatched =>
      rcases List.mem_append.1 hw with hw | hw
      · exact Or.inl hw
      · obtain rfl := List.mem_singleton.1 hw
        exact Or.inr ⟨t, ht, rfl⟩
    | answered | left => exact Or.inl (List.mem_filter.1 hw).1
    | _ => exact Or.inl hw
  | _ => exact Or.inl hw

end Compiler

end SchemaDepot
