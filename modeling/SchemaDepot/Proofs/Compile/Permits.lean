import Mathlib.Data.List.Nodup
import SchemaDepot.Proofs.Compile.Step

/-! # Permits

A permit is free, or held by a job that has not called its generator yet, or by a generator that
executes. A generator keeps its permit until it ends, also if its job waits no longer.

* `Compiler.holders`: the jobs that hold a permit themselves.
* `Turn.permits`: a turn moves a permit from one of the three to another, or none.
* `Compiler.PermitsConserved`: what that means for a compiler; `run_permitsConserved`: it holds
  after every run. -/

namespace SchemaDepot

namespace Phase

/-- A job in the phase holds a permit that its generator has not taken over. -/
def holdsPermit : Phase → Bool
  | granted | ready | missed => true
  | _ => false

/-- The job will not call its generator any more. -/
def isPastCall : Phase → Bool
  | executing | answered _ | keeping _ | ending .. | ended .. => true
  | _ => false

/-- The job has ended. -/
def isOver : Phase → Bool
  | ended .. => true
  | _ => false

end Phase

namespace Compiler

/-- How many jobs hold a permit before they call their generators. -/
def holders (c : Compiler) : Nat := c.tasks.countP (·.phase.holdsPermit)

/-- **Permits are neither lost nor made**: what holds of a compiler with so many of them. -/
structure PermitsConserved (bound : Nat) (c : Compiler) : Prop where
  total : c.free + c.holders + c.workers.length = bound
  /-- No more generators execute at once than there are permits, those that nobody waits for any
  more included. -/
  workers_le : c.workers.length ≤ bound
  /-- A job has at most one generator that executes. -/
  distinct : (c.workers.map Worker.task).Nodup
  /-- The generator that a job waits for executes. -/
  awaited : ∀ (i : Nat) (t : Task), c.tasks[i]? = some t → t.phase = .executing →
    ∃ w ∈ c.workers, w.task = i
  /-- A job that waits no longer leaves its generator executing, and the permit with it. -/
  left : ∀ i c', c.step (.timeOut i) = some c' ∨ c.step (.abandon i) = some c' →
    c'.workers = c.workers ∧ c'.free = c.free
  /-- A permit comes back when a generator ends, or when the cache makes it needless. -/
  freed : ∀ e c', c.step e = some c' → c.free < c'.free →
    ∃ i, e = .workerEnds i ∧ c'.workers.length < c.workers.length ∨
      e = .lookUp i ∧ c'.holders < c.holders
  /-- When no generator executes and every job has ended, all permits are free. -/
  restored : c.workers = [] → (∀ t ∈ c.tasks, t.phase.isOver = true) → c.free = bound

variable {c c' d : Compiler} {i : Nat} {t t' : Task} {e : Event}

/-! ### The workers of a compiler -/

/-- Each worker is that of one job, which has called it and calls no other. -/
structure Manned (c : Compiler) : Prop where
  distinct : (c.workers.map Worker.task).Nodup
  called : ∀ w ∈ c.workers, ∃ t, c.tasks[w.task]? = some t ∧ t.phase.isPastCall = true
  awaited : ∀ (i : Nat) (t : Task), c.tasks[i]? = some t → t.phase = .executing →
    ∃ w ∈ c.workers, w.task = i

/-- A job that calls no generator any more never does so again. -/
theorem Turn.isPastCall (h : c.Turn i t e t' d) (hp : t.phase.isPastCall = true) :
    t'.phase.isPastCall = true := by
  cases h with
  | left => exact hp
  | dispatched | answered | timedOut | abandoned | kept | finished => rfl
  | @taken run outcome =>
    rcases outcome with failure | out
    · rfl
    · show (if c.options.cacheEnabled then Phase.keeping _ else .ending _ _).isPastCall = true
      split <;> rfl
  | refused hq _ | granted hq _ | givenUp hq | started hq | hit hq _ | missed hq _ =>
    rw [hq] at hp
    cases hp

theorem Manned.length_filter (hm : c.Manned) {w : Worker}
    (hw : c.workers.find? (·.task == i) = some w) :
    (c.workers.filter (·.task != i)).length + 1 = c.workers.length := by
  have own : w.task = i := by simpa using List.find?_some hw
  have member : i ∈ c.workers.map Worker.task :=
    own ▸ List.mem_map_of_mem (List.mem_of_find?_eq_some hw)
  have others : (c.workers.filter (·.task != i)).map Worker.task =
      (c.workers.map Worker.task).erase i := by
    rw [hm.distinct.erase_eq_filter, List.filter_map]
    rfl
  have := List.length_erase_add_one member
  rwa [← others, List.length_map, List.length_map] at this

/-- A job that is about to call its generator has none that executes. -/
theorem Manned.notMem_of_missed (hm : c.Manned) (ht : c.tasks[i]? = some t)
    (hp : t.phase = .missed) : i ∉ c.workers.map Worker.task := by
  intro hi
  obtain ⟨w, hw, rfl⟩ := List.mem_map.1 hi
  obtain ⟨t', ht', past⟩ := hm.called w hw
  obtain rfl : t' = t := Option.some.inj (ht'.symm.trans ht)
  rw [hp] at past
  cases past

theorem manned_new (backends : Backends) (options : CompilerOptions) :
    (new backends options).Manned where
  distinct := .nil
  called := by rintro w ⟨⟩
  awaited := by rintro i t ⟨⟩

/-- Who executes after a turn executed before, or was called just now. -/
theorem Turn.mem_workers (h : c.Turn i t e t' d) {w : Worker} (hw : w ∈ d.workers) :
    w ∈ c.workers ∨ w.task = i ∧ t'.phase.isPastCall = true := by
  cases h with
  | dispatched =>
    rcases List.mem_append.1 hw with hw | hw
    · exact Or.inl hw
    · obtain rfl := List.mem_singleton.1 hw
      exact Or.inr ⟨rfl, rfl⟩
  | answered | left => exact Or.inl (List.mem_filter.1 hw).1
  | _ => exact Or.inl hw

/-- A worker of another job is not touched by a turn. -/
theorem Turn.mem_workers_of_ne (h : c.Turn i t e t' d) {w : Worker} (hw : w ∈ c.workers)
    (hne : w.task ≠ i) : w ∈ d.workers := by
  cases h with
  | dispatched => exact List.mem_append_left _ hw
  | answered | left => exact List.mem_filter.2 ⟨hw, by simpa using hne⟩
  | _ => exact hw

theorem Turn.distinct (h : c.Turn i t e t' d) (ht : c.tasks[i]? = some t) (hm : c.Manned) :
    (d.workers.map Worker.task).Nodup := by
  cases h with
  | dispatched hp =>
    rw [List.map_append]
    have apart : i ∉ c.workers.map Worker.task := hm.notMem_of_missed ht hp
    exact List.nodup_append.2 ⟨hm.distinct, List.nodup_singleton _, fun j hj j' hj' same => by
      obtain rfl := List.mem_singleton.1 hj'
      exact apart (same ▸ hj)⟩
  | answered | left => exact hm.distinct.sublist (List.filter_sublist.map _)
  | _ => exact hm.distinct

/-- A job that waits for its generator has one that executes. -/
theorem Turn.awaited (h : c.Turn i t e t' d) (hp : t'.phase = .executing) :
    ∃ w ∈ d.workers, w.task = i := by
  cases h with
  | dispatched => exact ⟨_, List.mem_append_right _ (List.mem_singleton_self _), rfl⟩
  | left _ hne => exact (hne hp).elim
  | @taken run outcome =>
    rcases outcome with failure | out
    · cases hp
    · have : (if c.options.cacheEnabled then Phase.keeping _ else .ending _ _) = .executing := hp
      split at this <;> cases this
  | _ => cases hp

/-- **Every event keeps this.** -/
theorem Does.manned (h : c.Does e c') (hm : c.Manned) : c'.Manned := by
  cases h with
  | opened | cancelled | cleared => exact ⟨hm.distinct, hm.called, hm.awaited⟩
  | enqueued =>
    refine ⟨hm.distinct, fun w hw => ?_, fun i t ht hp => ?_⟩
    · obtain ⟨t, ht, past⟩ := hm.called w hw
      exact ⟨t, getElem?_concat.2 (Or.inl ht), past⟩
    · rcases getElem?_concat.1 ht with ht | ⟨-, rfl⟩
      · exact hm.awaited i t ht hp
      · cases hp
  | @turned e i t t' d ht hturn =>
    have hlt := (List.getElem?_eq_some_iff.1 ht).1
    refine ⟨hturn.distinct ht hm, fun w hw => ?_, fun j s hs hp => ?_⟩
    · by_cases own : w.task = i
      · refine ⟨t', by rw [own]; exact List.getElem?_set_self hlt, ?_⟩
        rcases hturn.mem_workers hw with old | ⟨-, past⟩
        · obtain ⟨s, hs, past⟩ := hm.called w old
          obtain rfl : s = t := Option.some.inj (hs.symm.trans (own ▸ ht))
          exact hturn.isPastCall past
        · exact past
      · obtain ⟨s, hs, past⟩ := hm.called w
          ((hturn.mem_workers hw).resolve_right fun h => own h.1)
        exact ⟨s, (List.getElem?_set_ne fun same => own same.symm).trans hs, past⟩
    · by_cases own : i = j
      · subst own
        have same : (c.tasks.set i t')[i]? = some s := hs
        rw [List.getElem?_set_self hlt] at same
        cases same
        exact hturn.awaited hp
      · have same : (c.tasks.set i t')[j]? = some s := hs
        rw [List.getElem?_set_ne own] at same
        obtain ⟨w, hw, rfl⟩ := hm.awaited j s same hp
        exact ⟨w, hturn.mem_workers_of_ne hw fun h => own h.symm, rfl⟩

/-! ### Conservation -/

theorem countP_set_add {α : Type} {p : α → Bool} {xs : List α} {k : Nat} {x y : α}
    (h : xs[k]? = some x) :
    (xs.set k y).countP p + (p x).toNat = xs.countP p + (p y).toNat := by
  obtain ⟨hk, rfl⟩ := List.getElem?_eq_some_iff.1 h
  have counted : p xs[k] = true → 0 < xs.countP p := fun hp =>
    List.countP_pos_iff.2 ⟨_, List.getElem_mem hk, hp⟩
  rw [List.countP_set hk]
  cases hx : p xs[k] <;> cases hy : p y <;> simp only [hx, Bool.false_eq_true, if_true, if_false,
    Bool.toNat_true, Bool.toNat_false, forall_true_left] at counted ⊢ <;> omega

theorem holders_set (d : Compiler) (t' : Task) (ht : c.tasks[i]? = some t) :
    { d with tasks := c.tasks.set i t' }.holders + t.phase.holdsPermit.toNat =
      c.holders + t'.phase.holdsPermit.toNat :=
  countP_set_add ht

/-- **A turn moves a permit**, or leaves all of them where they are. -/
theorem Turn.permits (h : c.Turn i t e t' d) (hm : c.Manned) :
    d.free + t'.phase.holdsPermit.toNat + d.workers.length =
      c.free + t.phase.holdsPermit.toNat + c.workers.length := by
  cases h with
  | granted hp hfree =>
    rw [hp]
    simp only [Phase.holdsPermit, Bool.toNat_true, Bool.toNat_false]
    omega
  | hit hp _ =>
    rw [hp]
    simp only [Phase.holdsPermit, Bool.toNat_true, Bool.toNat_false]
  | dispatched hp =>
    rw [hp, List.length_append, List.length_singleton]
    simp only [Phase.holdsPermit, Bool.toNat_true, Bool.toNat_false]
    omega
  | answered hw hp _ =>
    have := hm.length_filter hw
    rw [hp]
    simp only [Phase.holdsPermit, Bool.toNat_false]
    omega
  | left hw _ =>
    have := hm.length_filter hw
    show c.free + 1 + _ + (c.workers.filter _).length = _
    omega
  | @taken run outcome hp _ _ =>
    rw [hp]
    rcases outcome with failure | out
    · rfl
    · show c.free + (if c.options.cacheEnabled then Phase.keeping _
        else .ending _ _).holdsPermit.toNat + _ = _
      split <;> rfl
  | abandoned hp _ =>
    rcases hp with hp | ⟨run, hp⟩ <;> rw [hp] <;> rfl
  | refused hp _ | givenUp hp | started hp | missed hp _ | timedOut hp | kept hp | finished hp =>
    rw [hp]
    rfl

/-- **Every event conserves the permits.** -/
theorem Does.permits (h : c.Does e c') (hm : c.Manned) :
    c'.free + c'.holders + c'.workers.length = c.free + c.holders + c.workers.length := by
  cases h with
  | opened | cancelled | cleared => rfl
  | enqueued =>
    show c.free + (c.tasks ++ [_]).countP _ + _ = c.free + c.tasks.countP _ + _
    rw [List.countP_append]
    rfl
  | @turned e i t t' d ht hturn =>
    have moved := hturn.permits hm
    have counted := holders_set d t' ht
    show d.free + _ + d.workers.length = _
    omega

theorem Turn.freed (h : c.Turn i t e t' d) (hm : c.Manned) (hfree : c.free < d.free) :
    e = .workerEnds i ∧ d.workers.length < c.workers.length ∨
      e = .lookUp i ∧ d.workers = c.workers := by
  cases h with
  | hit => exact Or.inr ⟨rfl, rfl⟩
  | answered hw | left hw =>
    refine Or.inl ⟨rfl, ?_⟩
    show (c.workers.filter _).length < _
    have := hm.length_filter hw
    omega
  | granted => exact absurd hfree (Nat.not_lt.2 (Nat.sub_le _ _))
  | _ => exact absurd hfree (Nat.lt_irrefl _)

/-- A permit that comes back was that of a generator, or of a job that the cache helped. -/
theorem Does.freed (h : c.Does e c') (hm : c.Manned) (hfree : c.free < c'.free) :
    ∃ i, e = .workerEnds i ∧ c'.workers.length < c.workers.length ∨
      e = .lookUp i ∧ c'.holders < c.holders := by
  have conserved := h.permits hm
  cases h with
  | opened | cancelled | cleared | enqueued => exact absurd hfree (Nat.lt_irrefl _)
  | @turned e i t t' d ht hturn =>
    refine ⟨i, (hturn.freed hm hfree).imp_right fun ⟨looks, same⟩ => ⟨looks, ?_⟩⟩
    have fewer : c.free < d.free := hfree
    have moved : d.free + { d with tasks := c.tasks.set i t' }.holders + d.workers.length =
      c.free + c.holders + c.workers.length := conserved
    have equal := congrArg List.length same
    omega

/-- A job that turns away from its generator leaves it as it is. -/
theorem step_left (h : c.step (.timeOut i) = some c' ∨ c.step (.abandon i) = some c') :
    c'.workers = c.workers ∧ c'.free = c.free := by
  rcases h with h | h <;> cases does_of_step h with
  | turned _ hturn => cases hturn; exact ⟨rfl, rfl⟩

theorem holders_eq_zero (h : ∀ t ∈ c.tasks, t.phase.isOver = true) : c.holders = 0 := by
  refine List.countP_eq_zero.2 fun t ht => ?_
  have ended := h t ht
  cases hp : t.phase <;> rw [hp] at ended <;> cases ended
  exact Bool.false_ne_true

variable {backends : Backends} {options : CompilerOptions} {es : List Event}

theorem run_manned (h : (new backends options).run es = some c) : c.Manned :=
  run_induction (fun _ _ _ _ hm hdoes => hdoes.manned hm) h (manned_new backends options)

theorem run_permits (h : (new backends options).run es = some c) :
    c.free + c.holders + c.workers.length = max 1 options.maxConcurrency := by
  have kept : c.Manned ∧ c.free + c.holders + c.workers.length = max 1 options.maxConcurrency := by
    refine run_induction (P := fun c => c.Manned ∧
      c.free + c.holders + c.workers.length = max 1 options.maxConcurrency) ?_ h
      ⟨manned_new backends options, rfl⟩
    rintro c e c' - ⟨hm, total⟩ hdoes
    exact ⟨hdoes.manned hm, (hdoes.permits hm).trans total⟩
  exact kept.2

/-- **Permits are conserved**, whatever the jobs of a compiler are, in whatever order they take
their steps, and however they end. -/
theorem run_permitsConserved (h : (new backends options).run es = some c) :
    c.PermitsConserved (max 1 options.maxConcurrency) := by
  have hm := run_manned h
  have total := run_permits h
  refine ⟨total, by omega, hm.distinct, hm.awaited, fun i c' => step_left, fun e c' hstep =>
    (does_of_step hstep).freed hm, fun nobody ended => ?_⟩
  rw [nobody, holders_eq_zero ended] at total
  exact total

/-- The only permit stays with a generator that its job has given up. -/
def givenUpEvents : List Event :=
  [.enqueue 0 "stuck" {}, .enqueue 1 "stuck" {}, .acquire 0, .start 0, .lookUp 0, .dispatch 0,
    .timeOut 0, .finish 0]

theorem givenUpEvents_permitsConserved :
    ∃ c, (new [("stuck", { run := fun _ _ => .never })] ⟨0, 1000, true⟩).run givenUpEvents =
        some c ∧ c.jobs.map Job.status = [.failed, .pending] ∧ c.free = 0 ∧
      c.workers.map Worker.task = [0] ∧ (c.step (.acquire 1)).isNone ∧ c.PermitsConserved 1 := by
  have runs : ((new [("stuck", { run := fun _ _ => .never })] ⟨0, 1000, true⟩).run
      givenUpEvents).any (fun c => c.jobs.map Job.status == [.failed, .pending] && c.free == 0 &&
        c.workers.map Worker.task == [0] && (c.step (.acquire 1)).isNone) = true := by
    decide +kernel
  obtain ⟨c, hc, done⟩ := (Option.any_eq_true _ _).1 runs
  simp only [Bool.and_eq_true, beq_iff_eq] at done
  obtain ⟨⟨⟨ended, none⟩, worker⟩, stuck⟩ := done
  exact ⟨c, hc, ended, none, worker, stuck, run_permitsConserved hc⟩

end Compiler

end SchemaDepot
