import Mathlib.Data.List.Perm.Subperm
import Mathlib.Data.Prod.Lex
import Mathlib.Order.WellFounded
import SchemaDepot.Proofs.Registry.Levels
import SchemaDepot.Registry.Reads

/-! # Whichever read ends first

Reads of one level are out side by side, and their answers arrive in any order. Neither what a level
comes to nor what a resolution gives shows the order.

* `Settles`: what a level comes to, said of the answers by place; `settles_mapM`, `gather_order`.
* `Inquiry.IsSound`: what holds of a resolution at work.
* `Inquiry.promise`: what a resolution at work will come to; `promise_inquire`: at first that is the
  resolution as read in order.
* `Inquiry.toGo`: what is left to do.
* `turn_spec`: a read that ends keeps the first two and lessens the third; `run_spec`: so do many.
* `Resolver.EndsAlike`: all this for whole schedules; `reads_inAnyOrder`. -/

namespace SchemaDepot

/-! ### One level -/

/-- **What a level comes to**, by the answer for the reference at each place: the versions in order,
if each reference has one, and else what the first reference without one says. -/
def Settles (level : List Reference) (answer : Nat → Except Error Version) :
    Except Error (List Version) → Prop
  | .ok versions => (List.range level.length).map answer = versions.map Except.ok
  | .error e => ∃ place ref cause, level[place]? = some ref ∧ answer place = .error cause ∧
      (∀ before < place, ∃ u, answer before = .ok u) ∧
      e = if cause.isNotFound then .dependencyNotFound ref.text cause else cause

section Level
variable {level : List Reference} {answer : Nat → Except Error Version}

theorem settle_eq_ok {ref : Reference} {a : Except Error Version} {u : Version} :
    settle ref (some a) = .ok u ↔ a = .ok u := by
  cases a with
  | ok w => exact Iff.rfl
  | error e => exact ⟨nofun, nofun⟩

theorem refusal_settle_eq_some {ref : Reference} {a : Except Error Version} {e : Error} :
    refusal (settle ref (some a)) = some e ↔ ∃ cause, a = .error cause ∧
      e = if cause.isNotFound then .dependencyNotFound ref.text cause else cause := by
  cases a with
  | ok w => exact ⟨nofun, nofun⟩
  | error cause =>
    constructor
    · intro h
      exact ⟨cause, rfl, (Option.some.inj h).symm⟩
    · rintro ⟨_, ⟨rfl⟩, rfl⟩
      rfl

theorem exists_of_refusal_settle {ref : Reference} {a : Except Error Version}
    (h : refusal (settle ref (some a)) = none) : ∃ u, a = .ok u := by
  cases a with
  | ok u => exact ⟨u, rfl⟩
  | error cause => cases h

/-- The first place at which something is found, with nothing at the places before it. -/
theorem exists_of_findSome?_zipIdx {α β : Type} {xs : List α} {f : α × Nat → Option β} {b : β}
    (h : xs.zipIdx.findSome? f = some b) : ∃ place x, xs[place]? = some x ∧ f (x, place) = some b ∧
      ∀ before < place, ∃ y, f (y, before) = none := by
  obtain ⟨earlier, ⟨x, place⟩, later, hsplit, hfound, hearlier⟩ := List.findSome?_eq_some_iff.1 h
  have here : xs.zipIdx[earlier.length]? = some (x, place) := by
    rw [hsplit, List.getElem?_append_right (Nat.le_refl _), Nat.sub_self]
    rfl
  obtain ⟨y, hy, same⟩ := Option.map_eq_some_iff.1 (List.getElem?_zipIdx.symm.trans here)
  obtain ⟨rfl, rfl⟩ := Prod.mk.inj same
  rw [Nat.zero_add] at hfound
  refine ⟨earlier.length, y, hy, hfound, fun before hbefore => ?_⟩
  have there : xs.zipIdx[before]? = some earlier[before] := by
    rw [hsplit, List.getElem?_append_left hbefore, List.getElem?_eq_getElem hbefore]
  obtain ⟨z, -, hz⟩ := Option.map_eq_some_iff.1 (List.getElem?_zipIdx.symm.trans there)
  have none := hearlier earlier[before] (List.getElem_mem hbefore)
  rw [← hz, Nat.zero_add] at none
  exact ⟨z, none⟩

/-- Settled place by place, a level comes to what it should. -/
theorem settles_mapM :
    Settles level answer (level.zipIdx.mapM fun p => settle p.1 (some (answer p.2))) := by
  cases hresult : level.zipIdx.mapM fun p => settle p.1 (some (answer p.2)) with
  | ok versions =>
    show (List.range level.length).map answer = versions.map Except.ok
    rw [List.range_eq_range', ← List.zipIdx_map_snd, List.map_map]
    have each := mapM_eq_ok_iff.1 hresult
    clear hresult
    generalize level.zipIdx = pairs at each
    induction each with
    | nil => rfl
    | cons hp _ ih =>
      have first := settle_eq_ok.1 hp
      rw [List.map_cons, List.map_cons, ih, ← first]
      rfl
  | error e =>
    rw [mapM_eq] at hresult
    split at hresult
    · next e' hfirst =>
      obtain rfl := Except.error.inj hresult
      obtain ⟨place, ref, href, hrefused, hbefore⟩ := exists_of_findSome?_zipIdx hfirst
      obtain ⟨cause, hcause, rfl⟩ := refusal_settle_eq_some.1 hrefused
      refine ⟨place, ref, cause, href, hcause, fun before hlt => ?_, rfl⟩
      obtain ⟨ref', accepted⟩ := hbefore before hlt
      exact exists_of_refusal_settle accepted
    · cases hresult

/-- **A level comes to the same in whatever order its answers arrive.** -/
theorem gather_order {order : List Nat} (h : order.Perm (List.range level.length)) :
    gather level (order.map fun place => (place, answer place)) =
      level.zipIdx.mapM fun p => settle p.1 (some (answer p.2)) := by
  refine gather_eq (fun p => answer p.2) ?_ fun p hp => ?_
  · rw [List.map_map]
    show (order.map id).Nodup
    rw [List.map_id, h.nodup_iff]
    exact List.nodup_range
  · have place : p.2 < level.length := by
      have := List.snd_lt_of_mem_zipIdx hp
      omega
    exact List.mem_map.2 ⟨p.2, h.mem_iff.2 (List.mem_range.2 place), rfl⟩

end Level

/-! ### A resolution at work -/

/-- **What holds of a resolution at work**: no answer has arrived twice, each is that to the read for
the reference at its place, and some are missing. -/
def Inquiry.IsSound (fetch : VersionId → Except Error Version) : Inquiry → Prop
  | .reading level arrived _ _ _ => (arrived.map Prod.fst).Nodup ∧
      (∀ a ∈ arrived, a ∈ readAll fetch level) ∧ arrived.length < level.length
  | .ended _ => True

/-- **What a resolution at work will come to**: the level is read in order, and those below it. -/
def Inquiry.promise (r : Resolver) (fetch : VersionId → Except Error Version) (v : Version) :
    Inquiry → Except Error Resolution
  | .reading level _ above seen room => readOn above seen room (gather level (readAll fetch level))
  | .ended result => result
where
  /-- From the versions of a level on. -/
  readOn (above : List Version) (seen : List VersionId) (room : Nat)
      (found : Except Error (List Version)) : Except Error Resolution := do
    let versions ← found
    let next ← r.references versions
    let below ← r.levels fetch v.id room seen next
    return .ofVersions v (above ++ versions ++ below)

/-- What is left to do: levels, and reads of this level. -/
def Inquiry.toGo : Inquiry → Nat ×ₗ Nat
  | .reading level arrived _ _ room => toLex (room + 1, level.length - arrived.length)
  | .ended _ => toLex (0, 0)

namespace Resolver

section Work
variable {r : Resolver} {fetch : VersionId → Except Error Version} {v : Version}
  {level : List Reference} {arrived : List (Nat × Except Error Version)} {above : List Version}
  {seen : List VersionId} {room : Nat} {refs : List Reference} {place : Nat}

/-! ### Reads are sent out -/

theorem sendOut_of_nil (h : (unseen seen refs).1 = []) :
    r.sendOut v above room seen refs = .ended (.ok (.ofVersions v above)) := by
  unfold sendOut
  split
  · rfl
  · next level seen' not_nil heq =>
    rw [heq] at h
    exact (not_nil h).elim

theorem sendOut_zero (h : (unseen seen refs).1 ≠ []) :
    r.sendOut v above 0 seen refs = .ended (.error (.dependencyTooDeep v.id r.limit)) := by
  unfold sendOut
  split
  · next seen' heq => exact (h (by rw [heq])).elim
  · rfl

theorem sendOut_succ (h : (unseen seen refs).1 ≠ []) :
    r.sendOut v above (room + 1) seen refs =
      .reading (unseen seen refs).1 [] above (unseen seen refs).2 room := by
  unfold sendOut
  split
  · next seen' heq => exact (h (by rw [heq])).elim
  · next level seen' _ heq => rw [heq]

/-- **After reads are sent out** there is a level to read, or the resolution is at its end. -/
theorem sendOut_cases : (∃ result, r.sendOut v above room seen refs = .ended result) ∨
    ∃ level seen' room', level ≠ [] ∧ room = room' + 1 ∧
      r.sendOut v above room seen refs = .reading level [] above seen' room' := by
  by_cases h : (unseen seen refs).1 = []
  · exact Or.inl ⟨_, sendOut_of_nil h⟩
  · cases room with
    | zero => exact Or.inl ⟨_, sendOut_zero h⟩
    | succ room => exact Or.inr ⟨_, _, room, h, rfl, sendOut_succ h⟩

theorem isSound_sendOut : (r.sendOut v above room seen refs).IsSound fetch := by
  rcases @sendOut_cases r v above seen room refs with
    ⟨result, h⟩ | ⟨level, seen', room', ne, -, h⟩
  · rw [h]
    trivial
  · rw [h]
    exact ⟨List.nodup_nil, by simp, List.length_pos_iff.2 ne⟩

theorem promise_sendOut : (r.sendOut v above room seen refs).promise r fetch v =
    (r.levels fetch v.id room seen refs).map fun below => .ofVersions v (above ++ below) := by
  by_cases h : (unseen seen refs).1 = []
  · rw [sendOut_of_nil h, levels_of_nil h]
    show _ = Except.ok (Resolution.ofVersions v (above ++ []))
    rw [List.append_nil]
    rfl
  · cases room with
    | zero =>
      rw [sendOut_zero h, levels_zero h]
      rfl
    | succ room =>
      rw [sendOut_succ h, levels_succ h, Inquiry.promise]
      cases gather (unseen seen refs).1 (readAll fetch (unseen seen refs).1) with
      | error e => rfl
      | ok versions =>
        simp only [Inquiry.promise.readOn, bind, Except.bind, pure, Except.pure]
        cases r.references versions with
        | error e => rfl
        | ok next =>
          dsimp only
          cases r.levels fetch v.id room (unseen seen refs).2 next with
          | error e => rfl
          | ok below =>
            show Except.ok _ = Except.ok _
            rw [List.append_assoc]

/-- **At first** a resolution will come to what reading in order gives. -/
theorem promise_inquire : (r.inquire v).promise r fetch v = r.resolve fetch v := by
  unfold inquire resolve
  cases v.references with
  | error e => rfl
  | ok refs =>
    show (r.sendOut v [] r.limit [v.id] refs).promise r fetch v = _
    rw [promise_sendOut]
    rfl

theorem isSound_inquire : (r.inquire v).IsSound fetch := by
  unfold inquire
  cases v.references with
  | error e => trivial
  | ok refs => exact isSound_sendOut

theorem toGo_sendOut (n : Nat) : (r.sendOut v above room seen refs).toGo < toLex (room + 1, n) := by
  rcases @sendOut_cases r v above seen room refs with
    ⟨result, h⟩ | ⟨level, seen', room', -, rfl, h⟩
  · rw [h]
    exact Prod.Lex.toLex_lt_toLex.2 (Or.inl (Nat.succ_pos room))
  · rw [h]
    exact Prod.Lex.toLex_lt_toLex.2 (Or.inl (Nat.lt_succ_self (room' + 1)))

/-! ### A level is concluded -/

/-- After a level the resolution is at its end, or reads are sent out for the next one. -/
theorem conclude_cases : (∃ result, r.conclude v level arrived above seen room = .ended result) ∨
    ∃ above' refs, r.conclude v level arrived above seen room =
      r.sendOut v above' room seen refs := by
  unfold conclude
  cases gather level arrived with
  | error e => exact Or.inl ⟨_, rfl⟩
  | ok versions =>
    dsimp only
    cases r.references versions with
    | error e => exact Or.inl ⟨_, rfl⟩
    | ok next => exact Or.inr ⟨_, next, rfl⟩

theorem isSound_conclude : (r.conclude v level arrived above seen room).IsSound fetch := by
  rcases @conclude_cases r v level arrived above seen room with ⟨result, h⟩ | ⟨above', refs, h⟩
  · rw [h]
    trivial
  · rw [h]
    exact isSound_sendOut

theorem toGo_conclude (n : Nat) :
    (r.conclude v level arrived above seen room).toGo < toLex (room + 1, n) := by
  rcases @conclude_cases r v level arrived above seen room with ⟨result, h⟩ | ⟨above', refs, h⟩
  · rw [h]
    exact Prod.Lex.toLex_lt_toLex.2 (Or.inl (Nat.succ_pos room))
  · rw [h]
    exact toGo_sendOut n

/-- With all answers there, a level is concluded as if they had come in order. -/
theorem promise_conclude (h : arrived.Perm (readAll fetch level)) :
    (r.conclude v level arrived above seen room).promise r fetch v =
      (Inquiry.reading level [] above seen room).promise r fetch v := by
  have same : gather level arrived = gather level (readAll fetch level) := by
    rw [gather_perm h, gather_perm (List.Perm.refl _)]
  rw [conclude, same, Inquiry.promise]
  cases gather level (readAll fetch level) with
  | error e => rfl
  | ok versions =>
    simp only [Inquiry.promise.readOn, bind, Except.bind, pure, Except.pure]
    cases r.references versions with
    | error e => rfl
    | ok next =>
      dsimp only
      rw [promise_sendOut]
      cases r.levels fetch v.id room seen next <;> rfl

/-! ### One read ends -/

theorem isOut_reading : (Inquiry.reading level arrived above seen room).isOut place ↔
    place < level.length ∧ place ∉ arrived.map Prod.fst := by
  simp [Inquiry.isOut]

/-- The end of a read that is not out changes nothing. -/
theorem turn_of_not_isOut {q : Inquiry} (h : ¬ q.isOut place) : r.turn fetch v q place = q := by
  cases q with
  | ended result => rfl
  | reading level arrived above seen room =>
    rw [isOut_reading] at h
    unfold turn
    dsimp only
    split
    · rfl
    · next ref href =>
      have within := (List.getElem?_eq_some_iff.1 href).1
      have known : place ∈ arrived.map Prod.fst := by tauto
      rw [if_pos (List.contains_iff_mem.2 known)]

/-- The end of a read that is out brings its answer; if that was the last one missing, the level
is concluded. -/
theorem turn_of_isOut (h : (Inquiry.reading level arrived above seen room).isOut place) :
    ∃ answer ∈ readAll fetch level, answer.1 = place ∧
      r.turn fetch v (.reading level arrived above seen room) place =
        if (arrived ++ [answer]).length = level.length
        then r.conclude v level (arrived ++ [answer]) above seen room
        else .reading level (arrived ++ [answer]) above seen room := by
  obtain ⟨within, missing⟩ := isOut_reading.1 h
  have href : level[place]? = some level[place] := List.getElem?_eq_getElem within
  refine ⟨(place, fetch level[place].id), ?_, rfl, ?_⟩
  · exact List.mem_map.2 ⟨(level[place], place), List.mk_mem_zipIdx_iff_getElem?.2 href, rfl⟩
  · unfold turn
    simp only [href, List.contains_iff_mem, missing, if_false]

/-- Answers of which none came twice and none is missing are all answers. -/
theorem perm_readAll (places : (arrived.map Prod.fst).Nodup)
    (answers : ∀ a ∈ arrived, a ∈ readAll fetch level) (all : arrived.length = level.length) :
    arrived.Perm (readAll fetch level) := by
  have count : (readAll fetch level).length = level.length := by simp [readAll]
  have among : arrived.Subperm (readAll fetch level) :=
    List.subperm_of_subset (List.Nodup.of_map Prod.fst places) answers
  exact among.perm_of_length_le (by omega)

/-- **A read that ends** keeps a resolution sound, keeps what it will come to, and leaves less to
do. -/
theorem turn_spec {q : Inquiry} (hq : q.IsSound fetch) (h : q.isOut place) :
    (r.turn fetch v q place).IsSound fetch ∧
      (r.turn fetch v q place).promise r fetch v = q.promise r fetch v ∧
      (r.turn fetch v q place).toGo < q.toGo := by
  cases q with
  | ended result => cases h
  | reading level arrived above seen room =>
    obtain ⟨places, answers, some_missing⟩ := hq
    obtain ⟨answer, hanswer, rfl, hturn⟩ := @turn_of_isOut r fetch v _ _ _ _ _ _ h
    have missing := (isOut_reading.1 h).2
    have places' : ((arrived ++ [answer]).map Prod.fst).Nodup := by
      rw [List.map_append, List.nodup_append]
      refine ⟨places, List.nodup_singleton _, fun p hp p' hp' same => missing ?_⟩
      rw [List.map_singleton, List.mem_singleton] at hp'
      rwa [← hp', ← same]
    have answers' : ∀ a ∈ arrived ++ [answer], a ∈ readAll fetch level := by
      intro a ha
      rcases List.mem_append.1 ha with ha | ha
      · exact answers a ha
      · rwa [List.mem_singleton.1 ha]
    rw [hturn]
    split
    · next all =>
      exact ⟨isSound_conclude, promise_conclude (perm_readAll places' answers' all),
        toGo_conclude _⟩
    · next others =>
      rw [List.length_append, List.length_singleton] at others
      refine ⟨⟨places', answers', ?_⟩, rfl, ?_⟩
      · rw [List.length_append, List.length_singleton]
        omega
      · refine Prod.Lex.toLex_lt_toLex.2 (Or.inr ⟨rfl, ?_⟩)
        show level.length - (arrived ++ [answer]).length < level.length - arrived.length
        rw [List.length_append, List.length_singleton]
        omega

/-- As long as a resolution is not at its end, some read is out. -/
theorem exists_isOut {q : Inquiry} (hq : q.IsSound fetch) (h : q.result? = none) :
    ∃ place, q.isOut place := by
  cases q with
  | ended result => cases h
  | reading level arrived above seen room =>
    obtain ⟨-, -, some_missing⟩ := hq
    by_contra none
    have all : ∀ place ∈ List.range level.length, place ∈ arrived.map Prod.fst := by
      intro place hplace
      by_contra missing
      exact none ⟨place, isOut_reading.2 ⟨List.mem_range.1 hplace, missing⟩⟩
    have count := (List.subperm_of_subset List.nodup_range all).length_le
    rw [List.length_range, List.length_map] at count
    omega

/-! ### Schedules -/

/-- **Along a schedule** a resolution stays sound, and so does what it will come to. -/
theorem run_spec {q : Inquiry} (hq : q.IsSound fetch) (places : List Nat) :
    (r.run fetch v q places).IsSound fetch ∧
      (r.run fetch v q places).promise r fetch v = q.promise r fetch v := by
  induction places generalizing q with
  | nil => exact ⟨hq, rfl⟩
  | cons place places ih =>
    show (r.run fetch v (r.turn fetch v q place) places).IsSound fetch ∧
      (r.run fetch v (r.turn fetch v q place) places).promise r fetch v = _
    by_cases h : q.isOut place
    · obtain ⟨sound, promise, -⟩ := @turn_spec r fetch v place q hq h
      rw [← promise]
      exact ih sound
    · rw [turn_of_not_isOut h]
      exact ih hq

theorem run_concat (q : Inquiry) (places : List Nat) (place : Nat) :
    r.run fetch v q (places ++ [place]) = r.turn fetch v (r.run fetch v q places) place :=
  List.foldl_concat ..

theorem promise_of_result? {q : Inquiry} {result : Except Error Resolution}
    (h : q.result? = some result) : q.promise r fetch v = result := by
  cases q with
  | reading => cases h
  | ended result' => exact Option.some.inj h

end Work

/-- **Every schedule of reads leads to the same end**: that of a resolution which reads level by level
in order. A schedule tells the place of the read that ends next. -/
structure EndsAlike (r : Resolver) (fetch : VersionId → Except Error Version) (v : Version) :
    Prop where
  /-- At whatever end a resolution arrives, it is this one. -/
  same : ∀ places result, (r.run fetch v (r.inquire v) places).result? = some result →
    result = r.resolve fetch v
  /-- Before that, some read is still out, -/
  goesOn : ∀ places, (r.run fetch v (r.inquire v) places).result? = none →
    ∃ place, (r.run fetch v (r.inquire v) places).isOut place
  /-- and whichever of those that are out ends next, each time, the end is reached. -/
  ends : ∀ next : Nat → Nat,
    (∀ n, (r.run fetch v (r.inquire v) ((List.range n).map next)).result? = none →
      (r.run fetch v (r.inquire v) ((List.range n).map next)).isOut (next n)) →
    ∃ n, (r.run fetch v (r.inquire v) ((List.range n).map next)).result? =
      some (r.resolve fetch v)

theorem endsAlike (r : Resolver) (fetch : VersionId → Except Error Version) (v : Version) :
    r.EndsAlike fetch v := by
  have along : ∀ places, (r.run fetch v (r.inquire v) places).IsSound fetch ∧
      (r.run fetch v (r.inquire v) places).promise r fetch v = r.resolve fetch v := by
    intro places
    rw [← promise_inquire]
    exact run_spec isSound_inquire places
  have same : ∀ places result, (r.run fetch v (r.inquire v) places).result? = some result →
      result = r.resolve fetch v := by
    intro places result h
    rw [← (along places).2, promise_of_result? h]
  refine ⟨same, fun places h => exists_isOut (along places).1 h, fun next fair => ?_⟩
  -- If no end were reached, what is left to do would become less for ever.
  obtain ⟨n, hn⟩ := WellFounded.not_rel_apply_succ (r := (· < ·)) fun n =>
    (r.run fetch v (r.inquire v) ((List.range n).map next)).toGo
  cases hresult : (r.run fetch v (r.inquire v) ((List.range n).map next)).result? with
  | some result => exact ⟨n, by rw [hresult, same _ result hresult]⟩
  | none =>
    have less := (turn_spec (r := r) (v := v) (along _).1 (fair n hresult)).2.2
    rw [← run_concat, ← List.map_singleton, ← List.map_append, ← List.range_succ] at less
    exact absurd less hn

end Resolver

/-- **The order in which reads end does not show**, neither in what a level comes to nor in what a
resolution gives. -/
theorem reads_inAnyOrder :
    (∀ level answer, ∃ result, Settles level answer result ∧
      ∀ order : List Nat, order.Perm (List.range level.length) →
        gather level (order.map fun place => (place, answer place)) = result) ∧
    ∀ (r : Resolver) (fetch : VersionId → Except Error Version) (v : Version),
      r.EndsAlike fetch v :=
  ⟨fun _ _ => ⟨_, settles_mapM, fun _ h => gather_order h⟩, Resolver.endsAlike⟩

/-- Two references lead nowhere; the one that stands first is told, although its answer comes last. -/
example :
    let core : Version := { module := "core", version := "1" }
    let app : Version :=
      { module := "app", version := "1", dependencies := ["core@1", "core@2", "ghost@1"] }
    let s := (Store.empty.createVersions [core]).1
    let r : Resolver := {}
    (r.run s.getVersion app (r.inquire app) [2, 0, 1]).result? =
      some (.error (.dependencyNotFound "core@2" (.versionNotFound ⟨"core", "2"⟩))) := by
  decide +kernel

end SchemaDepot
