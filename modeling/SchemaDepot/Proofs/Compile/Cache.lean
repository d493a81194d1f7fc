import SchemaDepot.Proofs.Compile.Alone
import SchemaDepot.Proofs.Compile.Jobs
import SchemaDepot.Proofs.Generate.Fingerprint

/-! # The cache of results

A cache changes nothing but how often generators run: a job that ends by itself ends as it does in a
compiler without a cache.

* `Backends.IsDeterministic`, `Compiler.TellsApart`: generators have no memory, and fingerprints
  tell the jobs apart.
* `Compiler.HashesApart`: the hash tells apart what was hashed for the jobs; `Sound.tellsApart`,
  `run_tellsApart`: then the fingerprints tell the jobs apart.
* `Fits.outcome`: what a job ends with is what one run of its generator means.
* `Compiler.cached_of_succeeded`, `Compiler.isSpared_of_cached`: a success leaves a result in the
  cache, and a job that finds one does not run its generator.
* `Sound.core_uncached`, `Sound.hit`: a job ends as it does without a cache; one that comes later
  is spared.
* `Compiler.CacheIsInvisible`: all that a cache may do; `run_cacheIsInvisible`. -/

namespace SchemaDepot

/-- Generators have no memory: how often one was called before does not count. -/
def Backends.IsDeterministic (backends : Backends) : Prop :=
  ∀ language backend, backends.find? language = some backend →
    ∀ n m input, backend.run n input = backend.run m input

theorem Backends.isDeterministic_of_ofFunction {backends : Backends}
    (h : ∀ entry ∈ backends, ∃ description f, entry.2 = .ofFunction description f) :
    backends.IsDeterministic := by
  intro language backend hb n m input
  obtain ⟨entry, hentry, rfl⟩ := Option.map_eq_some_iff.1 hb
  obtain ⟨description, f, heq⟩ := h entry (List.mem_of_find?_eq_some hentry)
  rw [heq]
  rfl

/-- The backends that come with the library have no memory. -/
theorem Backends.builtIn_isDeterministic (m : Marker) : (builtIn m).IsDeterministic :=
  isDeterministic_of_ofFunction fun entry h => by
    rcases List.mem_cons.1 h with rfl | h
    · exact ⟨_, _, rfl⟩
    · obtain rfl := List.mem_singleton.1 h
      exact ⟨_, _, rfl⟩

/-- The job was stopped from outside: cancelled, or out of time. -/
def Failure.isForced : Failure → Bool
  | cancelled | timedOut _ => true
  | _ => false

namespace Phase

/-- The job has its result, and that is a success. -/
def hasSucceeded : Phase → Bool
  | ending _ none | ended _ none => true
  | _ => false

/-- The generator of the job was called, or the job has a result that did not come from the
cache. -/
def hasCalled : Phase → Bool
  | executing | answered _ => true
  | keeping result => !result.cacheHit
  | ending result _ | ended result _ => !result.cacheHit
  | _ => false

/-- The generator of the job was not called and will not be: the job has not looked into the cache
yet, it got its result from there, or it was cancelled. -/
def isSpared : Phase → Bool
  | waiting | refused | granted | ready => true
  | ending result none | ended result none => result.cacheHit
  | ending _ (some failure) | ended _ (some failure) => failure == .cancelled
  | _ => false

end Phase

namespace Compiler

/-- Jobs with one fingerprint have the same input and the same language. -/
def TellsApart (c : Compiler) : Prop :=
  ∀ k ∈ c.tickets, ∀ k' ∈ c.tickets, k.fingerprint = k'.fingerprint →
    k.input = k'.input ∧ k.language = k'.language

/-- What was hashed for the fingerprints of the jobs. -/
def hashed (c : Compiler) : List (List UInt8) :=
  c.tickets.map fun k => k.input.hashed k.language

/-- **The hash takes none of this for another**, and each text in it is shorter than `2 ^ 64`
bytes. -/
structure HashesApart (c : Compiler) : Prop where
  free : Sha256.CollisionFree {bytes | bytes ∈ c.hashed}
  short : ∀ k ∈ c.tickets, ∀ s ∈ k.input.texts k.language, s.utf8ByteSize < 2 ^ 64

instance (c : Compiler) : Decidable c.HashesApart :=
  decidable_of_iff (Sha256.CollisionFree {bytes | bytes ∈ c.hashed} ∧
      ∀ k ∈ c.tickets, ∀ s ∈ k.input.texts k.language, s.utf8ByteSize < 2 ^ 64)
    ⟨fun ⟨free, short⟩ => ⟨free, short⟩, fun h => ⟨h.free, h.short⟩⟩

/-- The job at a place does not exist yet, or was not started. -/
def IsPending (c : Compiler) (i : Nat) : Prop :=
  ∀ t, c.tasks[i]? = some t → t.job.status = .pending

/-- **All that a cache may do**, in a compiler after a run. -/
structure CacheIsInvisible (backends : Backends) (es : List Event) (c : Compiler) : Prop where
  /-- A job that ends by itself ends as if it were alone in a compiler without a cache. -/
  alone : ∀ options, options.cacheEnabled = false → ∀ (i : Nat) (t : Task) r failure,
    c.tasks[i]? = some t → t.phase = .ended r failure → (∀ f ∈ failure, f.isForced = false) →
    ∃ plain, ((new backends options).compileAll t.input [t.job.language] .never).2 =
      .ok [plain] ∧ r.core = plain.core
  /-- It ends as it does among any other jobs in a compiler without a cache. -/
  uncached : ∀ options es' c', options.cacheEnabled = false →
    (new backends options).run es' = some c' → ∀ (i i' : Nat) (t t' : Task) r r' failure failure',
    c.tasks[i]? = some t → c'.tasks[i']? = some t' → t'.input = t.input →
    t'.job.language = t.job.language → t.phase = .ended r failure →
    t'.phase = .ended r' failure' → (∀ f ∈ failure, f.isForced = false) →
    (∀ f ∈ failure', f.isForced = false) → r.core = r'.core ∧ failure = failure'
  /-- The table shows what the job ended with. -/
  shown : ∀ (i : Nat) (t : Task) r failure, c.tasks[i]? = some t → t.phase = .ended r failure →
    t.job.result = some r
  /-- The cache has only successes of generators, marked neither with a job nor as its own. -/
  entries : ∀ entry ∈ c.cache, ∃ k ∈ c.tickets, k.fingerprint = entry.1 ∧
    k.input.fingerprint k.language = entry.1 ∧ backends.find? k.language = some k.backend ∧
    ∃ out, (∀ n, k.backend.run n k.input = .output out) ∧ entry.2 = k.success out ∧
      entry.2.success = true ∧ entry.2.job = none ∧ entry.2.cacheHit = false
  /-- The cache changes only if it is emptied or if a job keeps the success of its generator. -/
  changes : ∀ e c', c.step e = some c' → c'.cache = c.cache ∨ e = .clear ∧ c'.cache = [] ∨
    ∃ i t result, e = .keep i ∧ c.tasks[i]? = some t ∧ t.phase = .keeping result ∧
      c'.cache = (t.job.fingerprint, result) :: c.cache.filter (·.1 != t.job.fingerprint)
  /-- A job that fails keeps nothing. -/
  failed : ∀ (i : Nat) (t : Task) r failure, c.tasks[i]? = some t →
    t.phase = .ended r (some failure) → .keep i ∉ es
  /-- While the cache is not emptied, a job that starts after one of the same input and language
  has started and succeeded gets its result from the cache, unless it is cancelled before; its
  generator is never called. -/
  hit : ∀ es₁ es₂ c₁ c₂, c.run es₁ = some c₁ → c₁.run es₂ = some c₂ → .clear ∉ es₁ ++ es₂ →
    ∀ (i j : Nat) (t t' : Task) r r' failure, c.IsPending i → c₁.tasks[i]? = some t →
    t.phase = .ended r none → c₁.IsPending j → c₂.tasks[j]? = some t' → t'.input = t.input →
    t'.job.language = t.job.language → t'.phase = .ended r' failure →
    failure ≠ some .cancelled →
    failure = none ∧ r'.cacheHit = true ∧ .dispatch j ∉ es ++ es₁ ++ es₂

variable {c c' d : Compiler} {i j : Nat} {t t' : Task} {k : Ticket} {e : Event}
  {backends : Backends} {options : CompilerOptions} {es : List Event}

/-! ### The hash under the fingerprints -/

/-- **Fingerprints tell the jobs apart if the hash does.** -/
theorem Sound.tellsApart (hc : c.Sound) (hash : c.HashesApart) : c.TellsApart := by
  have own : ∀ k ∈ c.tickets, k.fingerprint = k.input.fingerprint k.language := fun k hk => by
    obtain ⟨i, hi⟩ := List.mem_iff_getElem?.1 hk
    exact (hc.ticket i k hi).2.1
  have member : ∀ k ∈ c.tickets, k.input.hashed k.language ∈ c.hashed :=
    fun k hk => List.mem_map_of_mem hk
  intro k hk k' hk' same
  rw [own k hk, own k' hk'] at same
  exact GeneratorInput.eq_of_fingerprint hash.free (member k hk) (member k' hk') (hash.short k hk)
    (hash.short k' hk') same

theorem run_tellsApart (h : (new backends options).run es = some c) (hash : c.HashesApart) :
    c.TellsApart := (run_sound h).tellsApart hash

/-! ### What a job ends with -/

theorem eq_output_of_conclude {run : Run} {out : GeneratorOutput}
    (h : run.conclude = some (.ok out)) : run = .output out := by
  cases run <;> cases h
  rfl

/-- **What a job ends with by itself** is what one run of its generator means. -/
theorem Fits.outcome {r : CompileResult} {failure : Option Failure} (h : c.Fits k r failure)
    (hc : c.Sound) (hk : k ∈ c.tickets) (det : c.backends.IsDeterministic)
    (apart : c.options.cacheEnabled = true → c.TellsApart)
    (byItself : ∀ f ∈ failure, f.isForced = false) :
    ∃ outcome, (k.backend.run 0 k.input).conclude = some outcome ∧
      r.core = (k.outcomeOf outcome).1 ∧ failure = (k.outcomeOf outcome).2 := by
  have ticket : ∀ k ∈ c.tickets, k.fingerprint = k.input.fingerprint k.language ∧
      c.backends.find? k.language = some k.backend := fun k hk => by
    obtain ⟨i, hi⟩ := List.mem_iff_getElem?.1 hk
    exact (hc.ticket i k hi).2
  have same := det k.language k.backend (ticket k hk).2
  cases h with
  | made hr =>
    obtain ⟨n, out, hrun, rfl⟩ := hr
    exact ⟨.ok out, same n 0 k.input ▸ hrun, rfl, rfl⟩
  | cached on hr =>
    obtain ⟨k', hk', hfingerprint, n, out, hrun, rfl⟩ := hr
    obtain ⟨hinput, hlanguage⟩ := apart on k' hk' k hk hfingerprint
    have hbackend : k'.backend = k.backend := by
      have := (ticket k' hk').2
      rw [hlanguage, (ticket k hk).2] at this
      exact (Option.some.inj this).symm
    refine ⟨.ok out, ?_, ?_, rfl⟩
    · rw [same 0 n, ← hbackend, ← hinput, hrun]
    · show k'.success out = k.success out
      rw [Ticket.success, Ticket.success, hlanguage, hfingerprint]
  | @failed failure hf =>
    rcases hf with rfl | ⟨micros, rfl⟩ | ⟨n, hrun⟩
    · cases byItself _ rfl
    · cases byItself _ rfl
    · exact ⟨.error failure, same n 0 k.input ▸ hrun, rfl, rfl⟩

/-- The same, said of a task in the table. -/
theorem Sound.outcome {r : CompileResult} {failure : Option Failure} (hc : c.Sound)
    (ht : c.tasks[i]? = some t) (hp : t.phase = .ended r failure)
    (det : c.backends.IsDeterministic) (apart : c.options.cacheEnabled = true → c.TellsApart)
    (byItself : ∀ f ∈ failure, f.isForced = false) :
    ∃ outcome, (t.backend.run 0 t.input).conclude = some outcome ∧
      r.core = (t.ticket.outcomeOf outcome).1 ∧ failure = (t.ticket.outcomeOf outcome).2 := by
  have sound := (hc.task i t ht).2
  rw [hp] at sound
  obtain ⟨plain, fits, rfl⟩ := sound
  exact fits.outcome hc (List.mem_of_getElem? (getElem?_tickets ht)) det apart byItself

theorem outcomeOf_congr {k' : Ticket} (hlanguage : k'.language = k.language)
    (hfingerprint : k'.fingerprint = k.fingerprint) : k'.outcomeOf = k.outcomeOf := by
  funext outcome
  cases outcome <;> simp only [Ticket.outcomeOf, Ticket.success, hlanguage, hfingerprint]

/-! ### Phases -/

theorem Turn.hasSucceeded (h : c.Turn i t e t' d) (hp : t.phase.hasSucceeded = true) :
    t'.phase.hasSucceeded = true := by
  cases h with
  | left => exact hp
  | kept => rfl
  | @finished result failure hq =>
    rw [hq] at hp
    cases failure with
    | none => rfl
    | some failure => cases hp
  | abandoned hq _ =>
    rcases hq with hq | ⟨run, hq⟩ <;> rw [hq] at hp <;> cases hp
  | refused hq _ | granted hq _ | givenUp hq | started hq | hit hq _ | missed hq _
  | dispatched hq | answered _ hq _ | taken hq _ _ | timedOut hq =>
    rw [hq] at hp
    cases hp

theorem Turn.hasCalled (h : c.Turn i t e t' d) (hp : t.phase.hasCalled = true) :
    t'.phase.hasCalled = true := by
  cases h with
  | left => exact hp
  | dispatched | answered | timedOut | abandoned => rfl
  | @taken run outcome =>
    rcases outcome with failure | out
    · rfl
    · show (if c.options.cacheEnabled then Phase.keeping _ else .ending _ _).hasCalled = true
      split <;> rfl
  | kept hq | finished hq =>
    rw [hq] at hp
    exact hp
  | refused hq _ | granted hq _ | givenUp hq | started hq | hit hq _ | missed hq _ =>
    rw [hq] at hp
    cases hp

/-- A job that the cache can help is spared. -/
theorem Turn.isSpared (h : c.Turn i t e t' d)
    (hcached : (c.cached? t.job.fingerprint).isSome = true) (hp : t.phase.isSpared = true) :
    t'.phase.isSpared = true := by
  cases h with
  | left => exact hp
  | refused | granted | givenUp | started | hit => rfl
  | missed _ none =>
    rw [none] at hcached
    cases hcached
  | @finished result failure hq =>
    rw [hq] at hp
    cases failure <;> exact hp
  | abandoned hq _ =>
    rcases hq with hq | ⟨run, hq⟩ <;> rw [hq] at hp <;> cases hp
  | dispatched hq | answered _ hq _ | taken hq _ _ | timedOut hq | kept hq =>
    rw [hq] at hp
    cases hp

/-- What tasks keep, every event keeps of the task at a place. -/
theorem Does.task_keeps {P : Phase → Prop} (h : c.Does e c')
    (keep : ∀ t t' d, c.Turn i t e t' d → P t.phase → P t'.phase)
    (hP : ∃ t, c.tasks[i]? = some t ∧ P t.phase) : ∃ t', c'.tasks[i]? = some t' ∧ P t'.phase := by
  obtain ⟨t, ht, hp⟩ := hP
  obtain ⟨t', ht', rfl | ⟨d, hturn⟩⟩ := h.task_before ht
  · exact ⟨t', ht', hp⟩
  · exact ⟨t', ht', keep t t' d hturn hp⟩

/-- A job that has kept its result has succeeded. -/
theorem succeeded_of_keep (he : .keep i ∈ es) (h : c.run es = some c') :
    ∃ t, c'.tasks[i]? = some t ∧ t.phase.hasSucceeded = true := by
  refine run_mem_induction (P := fun c => ∃ t, c.tasks[i]? = some t ∧ t.phase.hasSucceeded = true)
    he ?_ ?_ h
  · rintro c c' hdoes
    cases hdoes with
    | turned ht hturn =>
      cases hturn with
      | kept => exact ⟨_, List.getElem?_set_self (List.getElem?_eq_some_iff.1 ht).1, rfl⟩
  · intro c e c' hP hdoes
    exact hdoes.task_keeps (P := fun p => p.hasSucceeded = true)
      (fun _ _ _ hturn => hturn.hasSucceeded) hP

/-- A job that has called its generator does not get its result from the cache. -/
theorem called_of_dispatch (he : .dispatch i ∈ es) (h : c.run es = some c') :
    ∃ t, c'.tasks[i]? = some t ∧ t.phase.hasCalled = true := by
  refine run_mem_induction (P := fun c => ∃ t, c.tasks[i]? = some t ∧ t.phase.hasCalled = true)
    he ?_ ?_ h
  · rintro c c' hdoes
    cases hdoes with
    | turned ht hturn =>
      cases hturn with
      | dispatched => exact ⟨_, List.getElem?_set_self (List.getElem?_eq_some_iff.1 ht).1, rfl⟩
  · intro c e c' hP hdoes
    exact hdoes.task_keeps (P := fun p => p.hasCalled = true)
      (fun _ _ _ hturn => hturn.hasCalled) hP

/-! ### Hits -/

theorem cached_isSome_iff {fingerprint : Fingerprint} :
    (c.cached? fingerprint).isSome = true ↔
      c.options.cacheEnabled = true ∧ ∃ entry ∈ c.cache, entry.1 = fingerprint := by
  unfold cached?
  split_ifs with on <;> simp [on]

/-- A cache that is not emptied keeps a result for each fingerprint. -/
theorem Does.cached_isSome {fingerprint : Fingerprint} (h : c.Does e c') (hne : e ≠ .clear)
    (hcached : (c.cached? fingerprint).isSome = true) :
    (c'.cached? fingerprint).isSome = true := by
  rw [cached_isSome_iff] at hcached ⊢
  obtain ⟨on, entry, hentry, rfl⟩ := hcached
  refine ⟨h.frame.2 ▸ on, ?_⟩
  rcases h.cache with same | ⟨clear, -⟩ | ⟨i, t, result, -, -, -, stored⟩
  · exact ⟨entry, same ▸ hentry, rfl⟩
  · exact (hne clear).elim
  · rw [stored]
    by_cases own : entry.1 = t.job.fingerprint
    · exact ⟨_, List.mem_cons_self, own.symm⟩
    · exact ⟨entry, List.mem_cons_of_mem _ (List.mem_filter.2 ⟨hentry, by simpa using own⟩), rfl⟩

/-- A job that succeeds finds a result in the cache, or puts its own there. -/
theorem Does.cached_of_succeeded (h : c.Does e c') (hne : e ≠ .clear)
    (on : c.options.cacheEnabled = true) (ht' : c'.tasks[i]? = some t')
    (hp' : t'.phase.hasSucceeded = true) (before : ∀ t, c.tasks[i]? = some t →
      t.phase.hasSucceeded = true → (c.cached? t.job.fingerprint).isSome = true) :
    (c'.cached? t'.job.fingerprint).isSome = true := by
  rcases h.task_after ht' with ⟨t, ht, rfl | ⟨d, hturn⟩⟩ | ⟨_, _, _, _, -, -, -, rfl⟩
  · exact h.cached_isSome hne (before t' ht hp')
  · have same : t'.job.fingerprint = t.job.fingerprint := congrArg Ticket.fingerprint hturn.ticket
    by_cases was : t.phase.hasSucceeded = true
    · exact same ▸ h.cached_isSome hne (before t ht was)
    · cases hturn with
      | left => exact (was hp').elim
      | hit _ hcached =>
        refine h.cached_isSome hne ?_
        rw [hcached]
        rfl
      | kept =>
        cases h with
        | @turned _ _ s _ _ hs hturn =>
          cases hturn with
          | kept =>
            obtain rfl : s = t := Option.some.inj (hs.symm.trans ht)
            exact cached_isSome_iff.2 ⟨on, _, List.mem_cons_self, rfl⟩
      | @taken run outcome =>
        rcases outcome with failure | out
        · cases hp'
        · rw [Task.taking, if_pos on] at hp'
          cases hp'
      | @finished result failure hq =>
        rw [hq] at was
        cases failure with
        | none => exact (was rfl).elim
        | some failure => cases hp'
      | _ => cases hp'
  · cases hp'

theorem Sound.phase_of_pending (hc : c.Sound) (ht : c.tasks[i]? = some t)
    (hpending : t.job.status = .pending) :
    t.phase = .waiting ∨ t.phase = .refused ∨ t.phase = .granted := by
  have shown := (hc.task i t ht).1
  rw [shown] at hpending
  cases hp : t.phase with
  | waiting => exact Or.inl rfl
  | refused => exact Or.inr (Or.inl rfl)
  | granted => exact Or.inr (Or.inr rfl)
  | ended result failure =>
    rw [hp] at hpending
    have ended : ((Job.new _ _ _).start.1.finish result).1.status = .pending := hpending
    rw [Job.finish_start_new] at ended
    have := Job.finalStatus_isTerminal result
    rw [show Job.finalStatus result = .pending from ended] at this
    cases this
  | _ => rw [hp] at hpending; cases hpending

/-- **A success leaves a result in the cache**, until that is emptied. -/
theorem cached_of_succeeded (hc : c.Sound) (on : c.options.cacheEnabled = true)
    (hi : c.IsPending i) (h : c.run es = some c') (hclear : .clear ∉ es)
    (ht : c'.tasks[i]? = some t) (hp : t.phase.hasSucceeded = true) :
    (c'.cached? t.job.fingerprint).isSome = true := by
  have kept : c'.options.cacheEnabled = true ∧ ∀ t, c'.tasks[i]? = some t →
      t.phase.hasSucceeded = true → (c'.cached? t.job.fingerprint).isSome = true := by
    refine run_induction (P := fun c => c.options.cacheEnabled = true ∧ ∀ t,
      c.tasks[i]? = some t → t.phase.hasSucceeded = true →
        (c.cached? t.job.fingerprint).isSome = true) ?_ h ⟨on, fun t ht hp => ?_⟩
    · rintro c e c' he ⟨on, before⟩ hdoes
      refine ⟨hdoes.frame.2 ▸ on, fun t' ht' hp' => ?_⟩
      exact hdoes.cached_of_succeeded (fun clear => hclear (clear ▸ he)) on ht' hp' before
    · rcases hc.phase_of_pending ht (hi t ht) with hq | hq | hq <;> rw [hq] at hp <;> cases hp
  exact kept.2 t ht hp

/-- **A job that finds a result is spared.** -/
theorem isSpared_of_cached (hc : c.Sound) (hj : c.IsPending j) {fingerprint : Fingerprint}
    (hcached : (c.cached? fingerprint).isSome = true) (h : c.run es = some c')
    (hclear : .clear ∉ es) (ht : c'.tasks[j]? = some t)
    (hfingerprint : t.job.fingerprint = fingerprint) : t.phase.isSpared = true := by
  have spared : (c'.cached? fingerprint).isSome = true ∧ ∀ t, c'.tasks[j]? = some t →
      t.job.fingerprint = fingerprint → t.phase.isSpared = true := by
    refine run_induction (P := fun c => (c.cached? fingerprint).isSome = true ∧ ∀ t,
      c.tasks[j]? = some t → t.job.fingerprint = fingerprint → t.phase.isSpared = true) ?_ h
      ⟨hcached, fun t ht _ => ?_⟩
    · rintro c e c' he ⟨hcached, before⟩ hdoes
      refine ⟨hdoes.cached_isSome (fun clear => hclear (clear ▸ he)) hcached, ?_⟩
      intro t' ht' hfingerprint
      rcases hdoes.task_after ht' with ⟨t, ht, rfl | ⟨d, hturn⟩⟩ | ⟨_, _, _, _, -, -, -, rfl⟩
      · exact before t' ht hfingerprint
      · have same : t'.job.fingerprint = t.job.fingerprint :=
          congrArg Ticket.fingerprint hturn.ticket
        rw [same] at hfingerprint
        exact hturn.isSpared (hfingerprint ▸ hcached) (before t ht hfingerprint)
      · rfl
    · rcases hc.phase_of_pending ht (hj t ht) with hq | hq | hq <;> rw [hq] <;> rfl
  exact spared.2 t ht hfingerprint

/-! ### Jobs with and without a cache -/

theorem tickets_fingerprint (hc : c.Sound) (ht : c.tasks[i]? = some t) :
    t.job.fingerprint = t.input.fingerprint t.job.language :=
  (hc.ticket i _ (getElem?_tickets ht)).2.1

theorem shown_of_ended (hc : c.Sound) (ht : c.tasks[i]? = some t) {r : CompileResult}
    {failure : Option Failure} (hp : t.phase = .ended r failure) : t.job.result = some r := by
  have shown := (hc.task i t ht).1
  rw [Task.IsShown, hp] at shown
  rw [shown]
  show ((Job.new _ _ _).start.1.finish r).1.result = some r
  rw [Job.finish_start_new]

/-- A job that ends by itself ends as the only one of a compiler without a cache. -/
theorem Sound.core_alone {r : CompileResult} {failure : Option Failure} (hc : c.Sound)
    (det : c.backends.IsDeterministic) (apart : c.TellsApart) (off : options.cacheEnabled = false)
    (ht : c.tasks[i]? = some t) (hp : t.phase = .ended r failure)
    (byItself : ∀ f ∈ failure, f.isForced = false) :
    ∃ plain, ((new c.backends options).compileAll t.input [t.job.language] .never).2 =
      .ok [plain] ∧ r.core = plain.core := by
  obtain ⟨outcome, hrun, hcore, -⟩ := hc.outcome ht hp det (fun _ => apart) byItself
  obtain ⟨-, hfingerprint, hb⟩ := hc.ticket i _ (getElem?_tickets ht)
  refine ⟨_, compileAll_alone off hb hrun, ?_⟩
  have same : t.ticket.outcomeOf = Ticket.outcomeOf ⟨jobId 0, t.job.language,
      t.input.fingerprint t.job.language, 0, t.backend, t.input⟩ :=
    outcomeOf_congr rfl hfingerprint
  rw [hcore, same]
  cases outcome <;> rfl

/-- Jobs of one input and language that end by themselves, in two compilers of which the second
has no cache, end alike. -/
theorem Sound.core_uncached {r r' : CompileResult} {failure failure' : Option Failure}
    (hc : c.Sound) (hc' : c'.Sound) (same : c'.backends = c.backends)
    (det : c.backends.IsDeterministic) (apart : c.TellsApart)
    (off : c'.options.cacheEnabled = false) (ht : c.tasks[i]? = some t)
    (ht' : c'.tasks[j]? = some t') (hinput : t'.input = t.input)
    (hlanguage : t'.job.language = t.job.language) (hp : t.phase = .ended r failure)
    (hp' : t'.phase = .ended r' failure') (byItself : ∀ f ∈ failure, f.isForced = false)
    (byItself' : ∀ f ∈ failure', f.isForced = false) : r.core = r'.core ∧ failure = failure' := by
  have disabled : c'.options.cacheEnabled ≠ true := Bool.eq_false_iff.1 off
  obtain ⟨outcome, hrun, hcore, hfailure⟩ := hc.outcome ht hp det (fun _ => apart) byItself
  obtain ⟨outcome', hrun', hcore', hfailure'⟩ := hc'.outcome ht' hp' (same ▸ det)
    (fun on => (disabled on).elim) byItself'
  have hbackend : t'.backend = t.backend := by
    have hb := (hc.ticket i _ (getElem?_tickets ht)).2.2
    have hb' := (hc'.ticket j _ (getElem?_tickets ht')).2.2
    rw [same] at hb'
    have : c.backends.find? t.job.language = some t'.backend := hlanguage ▸ hb'
    exact Option.some.inj (this.symm.trans hb)
  have houtcome : outcome' = outcome := by
    rw [hbackend, hinput, hrun] at hrun'
    exact (Option.some.inj hrun').symm
  have hticket : t'.ticket.outcomeOf = t.ticket.outcomeOf := by
    refine outcomeOf_congr hlanguage ?_
    show t'.job.fingerprint = t.job.fingerprint
    rw [tickets_fingerprint hc ht, tickets_fingerprint hc' ht', hinput, hlanguage]
  rw [hcore, hcore', hfailure, hfailure', hticket, houtcome]
  exact ⟨rfl, rfl⟩

/-- A job that starts after one of the same input and language has succeeded gets its result from
the cache, unless it is cancelled. -/
theorem Sound.hit {r r' : CompileResult} {failure : Option Failure} {es₁ es₂ : List Event}
    {c₁ c₂ : Compiler} (hc : c.Sound) (on : c.options.cacheEnabled = true)
    (h₁ : c.run es₁ = some c₁) (h₂ : c₁.run es₂ = some c₂) (hclear : .clear ∉ es₁ ++ es₂)
    (hi : c.IsPending i) (ht : c₁.tasks[i]? = some t) (hp : t.phase = .ended r none)
    (hj : c₁.IsPending j) (ht' : c₂.tasks[j]? = some t') (hinput : t'.input = t.input)
    (hlanguage : t'.job.language = t.job.language) (hp' : t'.phase = .ended r' failure)
    (uncancelled : failure ≠ some .cancelled) : failure = none ∧ r'.cacheHit = true := by
  rw [List.mem_append, not_or] at hclear
  have hc₁ := hc.run h₁
  have hcached := cached_of_succeeded hc on hi h₁ hclear.1 ht (by rw [hp]; rfl)
  have hfingerprint : t'.job.fingerprint = t.job.fingerprint := by
    rw [tickets_fingerprint hc₁ ht, tickets_fingerprint (hc₁.run h₂) ht', hinput, hlanguage]
  have spared := isSpared_of_cached hc₁ hj hcached h₂ hclear.2 ht' hfingerprint
  rw [hp'] at spared
  cases failure with
  | some f => exact (uncancelled (congrArg some (beq_iff_eq.1 spared))).elim
  | none => exact ⟨rfl, spared⟩

/-- The generator of a job that got its result from the cache was never called. -/
theorem not_dispatched_of_hit {r : CompileResult} {failure : Option Failure}
    (h : c.run es = some c') (ht : c'.tasks[i]? = some t) (hp : t.phase = .ended r failure)
    (hit : r.cacheHit = true) : .dispatch i ∉ es := by
  intro hdispatch
  obtain ⟨t', ht', called⟩ := called_of_dispatch hdispatch h
  obtain rfl : t' = t := Option.some.inj (ht'.symm.trans ht)
  rw [hp] at called
  have : (!r.cacheHit) = true := called
  rw [hit] at this
  cases this

/-- A job that fails never kept a result. -/
theorem not_kept_of_failed {r : CompileResult} {failure : Failure} (h : c.run es = some c')
    (ht : c'.tasks[i]? = some t) (hp : t.phase = .ended r (some failure)) : .keep i ∉ es := by
  intro hkeep
  obtain ⟨t', ht', succeeded⟩ := succeeded_of_keep hkeep h
  obtain rfl : t' = t := Option.some.inj (ht'.symm.trans ht)
  rw [hp] at succeeded
  cases succeeded

/-- What is in the cache, every run of a generator gives. -/
theorem Sound.entry (hc : c.Sound) (det : c.backends.IsDeterministic)
    {entry : Fingerprint × CompileResult} (hentry : entry ∈ c.cache) :
    ∃ k ∈ c.tickets, k.fingerprint = entry.1 ∧ k.input.fingerprint k.language = entry.1 ∧
      c.backends.find? k.language = some k.backend ∧
      ∃ out, (∀ n, k.backend.run n k.input = .output out) ∧ entry.2 = k.success out ∧
        entry.2.success = true ∧ entry.2.job = none ∧ entry.2.cacheHit = false := by
  obtain ⟨k, hk, hfingerprint, n, out, hrun, heq⟩ := hc.cache entry hentry
  obtain ⟨i, hi⟩ := List.mem_iff_getElem?.1 hk
  obtain ⟨-, hinput, hb⟩ := hc.ticket i k hi
  refine ⟨k, hk, hfingerprint, hinput.symm.trans hfingerprint, hb, out, fun m => ?_, heq, ?_⟩
  · rw [det k.language k.backend hb m n]
    exact eq_output_of_conclude hrun
  · rw [heq]
    exact ⟨rfl, rfl, rfl⟩

/-! ### All together -/

/-- **The cache is invisible**, whatever the jobs of a compiler are and in whatever order they take
their steps. -/
theorem run_cacheIsInvisible (on : options.cacheEnabled = true) (det : backends.IsDeterministic)
    (h : (new backends options).run es = some c) (apart : c.TellsApart) :
    c.CacheIsInvisible backends es := by
  have hc := run_sound h
  obtain ⟨hbackends, hoptions⟩ := run_frame h
  obtain rfl : c.backends = backends := hbackends
  have enabled : c.options.cacheEnabled = true := hoptions ▸ on
  constructor
  case alone =>
    exact fun off hoff i t r failure ht hp byItself =>
      hc.core_alone det apart hoff ht hp byItself
  case uncached =>
    intro off es' c' hoff h' i i' t t' r r' failure failure' ht ht' hinput hlanguage hp hp' hf hf'
    obtain ⟨hbackends', hoptions'⟩ := run_frame h'
    have disabled : c'.options.cacheEnabled = false := hoptions' ▸ hoff
    exact hc.core_uncached (run_sound h') hbackends' det apart disabled ht ht' hinput hlanguage hp
      hp' hf hf'
  case shown => exact fun i t r failure ht hp => shown_of_ended hc ht hp
  case entries => exact fun entry hentry => hc.entry det hentry
  case changes => exact fun e c' hstep => (does_of_step hstep).cache
  case failed => exact fun i t r failure ht hp => not_kept_of_failed h ht hp
  case hit =>
    intro es₁ es₂ c₁ c₂ h₁ h₂ hclear i j t t' r r' failure hi ht hp hj ht' hinput hlanguage hp'
      uncancelled
    have whole : (new c.backends options).run (es ++ es₁ ++ es₂) = some c₂ := by
      rw [run_append, run_append, h, Option.bind_some, h₁, Option.bind_some, h₂]
    obtain ⟨succeeded, fromCache⟩ := hc.hit enabled h₁ h₂ hclear hi ht hp hj ht' hinput hlanguage
      hp' uncancelled
    exact ⟨succeeded, fromCache, not_dispatched_of_hit whole ht' hp' fromCache⟩

/-- Two jobs of one input, the second of which is spared, and one that fails. -/
def echoEvents : List Event :=
  [.enqueue 0 "echo" {}, .enqueue 1 "echo" {}, .enqueue 1 "fail" {}, .acquire 0, .start 0,
    .lookUp 0, .dispatch 0, .workerEnds 0, .acquire 2, .take 0, .keep 0, .finish 0, .start 2,
    .lookUp 2, .dispatch 2, .workerEnds 2, .take 2, .finish 2, .acquire 1, .start 1, .lookUp 1,
    .finish 1]

theorem echoEvents_cacheIsInvisible :
    let backends : Backends := [("echo", .ofFunction "" fun input => .ok ⟨input.files, []⟩),
      ("fail", .ofFunction "" fun _ => .error "no")]
    ∃ c, (new backends ⟨1, 1000, true⟩).run echoEvents = some c ∧
      c.jobs.map Job.cacheHit = [false, true, false] ∧ c.TellsApart ∧
      c.CacheIsInvisible backends echoEvents := by
  intro backends
  have runs : ((new backends ⟨1, 1000, true⟩).run echoEvents).any (fun c =>
      c.jobs.map Job.cacheHit == [false, true, false] &&
        decide c.HashesApart) = true := by
    decide +kernel
  obtain ⟨c, hc, done⟩ := (Option.any_eq_true _ _).1 runs
  obtain ⟨hits, hash⟩ := Bool.and_eq_true_iff.1 done
  have apart : c.TellsApart := run_tellsApart hc (of_decide_eq_true hash)
  have det : backends.IsDeterministic := Backends.isDeterministic_of_ofFunction fun entry h => by
    rcases List.mem_cons.1 h with rfl | h
    · exact ⟨"", fun input => .ok ⟨input.files, []⟩, rfl⟩
    · obtain rfl := List.mem_singleton.1 h
      exact ⟨"", fun _ => .error "no", rfl⟩
  exact ⟨c, hc, by simpa using hits, apart, run_cacheIsInvisible rfl det hc apart⟩

end Compiler

end SchemaDepot
