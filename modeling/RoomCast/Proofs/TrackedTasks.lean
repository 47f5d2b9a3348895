import RoomCast.Proofs.GracefulStop

namespace RoomCast

namespace TaskPool

/-- A later pool. Tasks go on, new ones are started, and what is tracked stays the same. -/
structure Onward (p q : TaskPool) : Prop where
  tracked : q.tracked = p.tracked
  length : p.tasks.length ≤ q.tasks.length
  ended : ∀ i < p.tasks.length, p.isOver i = true → q.isOver i = true

variable {p q : TaskPool}

theorem Onward.refl (p : TaskPool) : p.Onward p :=
  ⟨rfl, le_refl _, fun _ _ h => h⟩

theorem Onward.trans {r : TaskPool} (h : p.Onward q) (h' : q.Onward r) : p.Onward r :=
  ⟨h'.tracked.trans h.tracked, h.length.trans h'.length,
    fun i hi hover => h'.ended i (lt_of_lt_of_le hi h.length) (h.ended i hi hover)⟩

theorem spawn_onward (p : TaskPool) (kind : TaskKind) : p.Onward (p.spawn kind).1 := by
  refine ⟨rfl, ?_, fun i hi hover => ?_⟩
  · rw [spawn, List.length_append]
    omega
  · rw [isOver] at hover ⊢
    rw [spawn, List.getElem?_append_left hi]
    exact hover

theorem later_settle_onward (p : TaskPool) (time : Nat) :
    p.Onward ({ p with now := time } : TaskPool).settle := by
  refine ⟨rfl, ?_, fun i _ hover => ?_⟩
  · rw [settle, List.length_map]
  · rw [isOver] at hover ⊢
    rw [settle_getElem?]
    cases hi : p.tasks[i]? with
    | none => rfl
    | some task =>
      rw [hi, Option.all_some] at hover
      rw [Option.map_some, Option.all_some, BackgroundTask.settle_over hover]
      exact hover

theorem runBelow_onward (limit : Nat) (stop : TaskPool → Bool) (rounds : Nat) (p : TaskPool) :
    p.Onward (runBelow limit stop rounds p) := by
  induction rounds generalizing p with
  | zero => exact Onward.refl p
  | succ rounds ih =>
    rw [runBelow]
    split
    next => exact Onward.refl p
    next =>
      split
      next => exact Onward.refl p
      next time _ =>
        split
        next => exact (p.later_settle_onward time).trans (ih _)
        next => exact Onward.refl p

theorem advance_onward (p : TaskPool) (duration : Nat) : p.Onward (p.advance duration) := by
  have hstart : p.Onward p.settle := p.later_settle_onward p.now
  exact (hstart.trans (runBelow_onward _ _ _ _)).trans (later_settle_onward _ _)

/-- A pool that has been given the signal and is left alone. -/
theorem shutdown_advance (p : TaskPool) (duration : Nat) :
    p.shutdown.advance duration = p.after duration := by
  have hrounds : p.unfinished 0 < p.shutdown.settle.tasks.length + 1 := by
    have hlength : p.shutdown.settle.tasks.length = p.tasks.length := by
      rw [settle, List.length_map, shutdown]
    rw [hlength]
    exact Nat.lt_succ_of_le (p.unfinished_le 0)
  obtain ⟨last, _, hlast, hrun, _⟩ :=
    @runBelow_after p (duration + 1) (fun _ => false) _ 0 hrounds (by omega)
  rw [← shutdown_settle] at hrun
  rw [advance]
  calc ({ runBelow (p.now + duration + 1) (fun _ => false) (p.shutdown.settle.tasks.length + 1)
          p.shutdown.settle with now := p.now + duration } : TaskPool).settle
      = ({ p.after last with now := p.now + duration } : TaskPool).settle := by rw [Nat.add_assoc, hrun]
    _ = p.after duration := settle_after (by omega)

/-- The history of a pool, with the tasks that were handed over for tracking and not taken back. -/
inductive Tracking : TaskPool → List Nat → Prop where
  | start : Tracking .empty []
  | spawn {p handed} (h : Tracking p handed) (kind : TaskKind) : Tracking (p.spawn kind).1 handed
  | track {p handed} (h : Tracking p handed) (i : Nat) (hi : i < p.tasks.length) :
      Tracking (p.track i) (handed ++ [i])
  | take {p handed} (h : Tracking p handed) : Tracking p.takeTracked.1 []
  | settle {p handed} (h : Tracking p handed) : Tracking p.settle handed
  | advance {p handed} (h : Tracking p handed) (duration : Nat) : Tracking (p.advance duration) handed
  | shutdown {p handed} (h : Tracking p handed) : Tracking p.shutdown handed

/-- What is tracked was handed over, and what was handed over is tracked or has ended. -/
structure Accounted (p : TaskPool) (handed : List Nat) : Prop where
  started : ∀ i ∈ handed, i < p.tasks.length
  only : ∀ i ∈ p.tracked, i ∈ handed
  kept : ∀ i ∈ handed, p.isOver i = false → i ∈ p.tracked

theorem Onward.accounted {handed : List Nat} (h : p.Onward q) (hp : p.Accounted handed) :
    q.Accounted handed := by
  refine ⟨fun i hi => lt_of_lt_of_le (hp.started i hi) h.length, ?_, fun i hi hover => ?_⟩
  · rw [h.tracked]
    exact hp.only
  · rw [h.tracked]
    refine hp.kept i hi ?_
    rw [← Bool.not_eq_true] at hover ⊢
    exact fun hover' => hover (h.ended i (hp.started i hi) hover')

theorem Accounted.track {handed : List Nat} (h : p.Accounted handed) {i : Nat} (hi : i < p.tasks.length) :
    (p.track i).Accounted (handed ++ [i]) := by
  constructor
  · intro j hj
    rcases List.mem_append.mp hj with hj | hj
    · exact h.started j hj
    · rw [List.mem_singleton.mp hj]
      exact hi
  · intro j hj
    rcases List.mem_append.mp hj with hj | hj
    · exact List.mem_append_left _ (h.only j (List.mem_filter.mp hj).1)
    · exact List.mem_append_right _ hj
  · intro j hj hover
    have hover' : p.isOver j = false := hover
    rcases List.mem_append.mp hj with hj | hj
    · have hkept : j ∈ p.tracked.filter fun j => !p.isOver j :=
        List.mem_filter.mpr ⟨h.kept j hj hover', by simp [hover']⟩
      exact List.mem_append_left _ hkept
    · exact List.mem_append_right _ hj

theorem Tracking.accounted {handed : List Nat} (h : Tracking p handed) : p.Accounted handed := by
  induction h with
  | start => exact ⟨by simp, by simp [empty], by simp⟩
  | spawn _ kind ih => exact (spawn_onward _ kind).accounted ih
  | track _ i hi ih => exact ih.track hi
  | take => exact ⟨by simp, by simp [takeTracked], by simp⟩
  | settle _ ih => exact (later_settle_onward _ _).accounted ih
  | advance _ duration ih => exact (advance_onward _ duration).accounted ih
  | shutdown _ ih => exact ⟨ih.started, ih.only, ih.kept⟩

theorem endsIn_of_over {i : Nat} (h : p.isOver i = true) : p.endsIn i = 0 := by
  cases hi : p.tasks[i]? with
  | none => simp [endsIn, hi]
  | some task =>
    rw [isOver, hi, Option.all_some] at h
    rw [endsIn_of hi, BackgroundTask.endsIn_of_isOver h]

/-- What was forgotten does not change how long a stop waits. -/
theorem Accounted.wait {handed : List Nat} (h : p.Accounted handed) (extra : List Nat) :
    ⨆ i ∈ extra ++ p.tracked, p.endsIn i = ⨆ i ∈ extra ++ handed, p.endsIn i := by
  refine le_antisymm (iSup₂_le fun i hi => ?_) (iSup₂_le fun i hi => ?_)
  · refine le_iSup₂_of_le i ?_ le_rfl
    exact List.mem_append.mpr ((List.mem_append.mp hi).imp_right (h.only i))
  · cases hover : p.isOver i with
    | true =>
      rw [endsIn_of_over hover]
      exact bot_le
    | false =>
      refine le_iSup₂_of_le i ?_ le_rfl
      exact List.mem_append.mpr ((List.mem_append.mp hi).imp_right fun hi => h.kept i hi hover)

/-- A task that a stop waits for and that has not ended yet was not forgotten. -/
theorem Accounted.awaited_late {handed : List Nat} (h : p.Accounted handed) {extra : List Nat} {i : Nat}
    (hi : i ∈ extra ++ handed) {task : BackgroundTask} (htask : p.tasks[i]? = some task) {limit : Nat}
    (hlate : limit < task.endsIn p.now) : i ∈ extra ++ p.tracked := by
  have hrunning : p.isOver i = false := by
    rw [← Bool.not_eq_true]
    intro hover
    rw [← endsIn_of htask, endsIn_of_over hover] at hlate
    exact not_lt_bot hlate
  exact List.mem_append.mpr ((List.mem_append.mp hi).imp_right fun hi => h.kept i hi hrunning)

end TaskPool

/-- A graceful stop waits until the last of its tasks has ended by itself, but no longer than the timeout,
and aborts the others then. -/
theorem graceful_waits_for_the_last {p : TaskPool} {handed : List Nat} (h : p.Tracking handed)
    (extra : List Nat) (timeout : Option Nat)
    (apart : p.Apart (extra ++ handed) (timeout.getD TaskPool.defaultTimeout)) :
    let limit := timeout.getD TaskPool.defaultTimeout
    let awaited := extra ++ handed
    let q := p.graceful extra timeout
    q.stopping = true ∧ q.tracked = [] ∧
      (q.now : ℕ∞) = p.now + min (limit : ℕ∞) (⨆ i ∈ awaited, p.endsIn i) ∧
      (∀ i ∈ awaited, ∀ task, p.tasks[i]? = some task →
        (task.endsIn p.now ≤ limit → q.tasks[i]? = some task.ended) ∧
        (limit < task.endsIn p.now → q.now = p.now + limit ∧
          q.tasks[i]? = some { task with state := .dropped })) ∧
      (∀ i, i ∉ awaited → q.tasks[i]? = (p.shutdown.advance (q.now - p.now)).tasks[i]?) ∧
      ∀ i ∈ handed, p.isOver i = false → i ∈ p.tracked := by
  intro limit awaited q
  have hp : p.Accounted handed := h.accounted
  have hsub : ∀ i ∈ extra ++ p.tracked, i ∈ awaited := fun i hi =>
    List.mem_append.mpr ((List.mem_append.mp hi).imp_right (hp.only i))
  obtain ⟨elapsed, htime, hq⟩ :=
    @TaskPool.waitOut_eq { p with tracked := [] } (extra ++ p.tracked) limit fun i hi => apart i (hsub i hi)
  rw [← TaskPool.graceful_eq_waitOut] at hq
  have hwait : (elapsed : ℕ∞) = min (limit : ℕ∞) (⨆ i ∈ awaited, p.endsIn i) :=
    htime.trans (congrArg _ (hp.wait extra))
  have hnow : q.now = p.now + elapsed := by rw [show q = _ from hq]; rfl
  have htasks : ∀ i, q.tasks[i]? = p.tasks[i]?.map fun task =>
      if i ∈ extra ++ p.tracked then (task.after p.now elapsed).abort else task.after p.now elapsed := by
    intro i
    rw [show q = _ from hq, TaskPool.abort_getElem?, TaskPool.after_getElem?, Option.map_map]
    rfl
  refine ⟨by rw [show q = _ from hq]; rfl, by rw [show q = _ from hq]; rfl, ?_, ?_, ?_, hp.kept⟩
  · rw [hnow, Nat.cast_add, hwait]
  · intro i hi task htask
    rw [htasks, htask, Option.map_some]
    constructor
    · intro hends
      have hover : task.endsIn p.now ≤ elapsed := by
        rw [hwait]
        exact le_min hends (TaskPool.le_wait hi htask)
      rw [BackgroundTask.after_over hover, BackgroundTask.abort_over task.ended_isOver, ite_self]
    · intro hlate
      have hlimit : elapsed = limit := by
        rw [min_eq_left (hlate.le.trans (TaskPool.le_wait hi htask))] at hwait
        exact_mod_cast hwait
      have hmem : i ∈ extra ++ p.tracked := hp.awaited_late hi htask hlate
      have hgoes : (task.after p.now elapsed).isOver = false := by
        rw [← Bool.not_eq_true, BackgroundTask.after_isOver, not_le, hlimit]
        exact hlate
      refine ⟨by rw [hnow, hlimit], ?_⟩
      rw [if_pos hmem, BackgroundTask.abort_early hgoes, BackgroundTask.kind_after]
  · intro i hi
    have hi' : i ∉ extra ++ p.tracked := fun hmem => hi (hsub i hmem)
    have hsince : q.now - p.now = elapsed := by omega
    rw [htasks, hsince, TaskPool.shutdown_advance, TaskPool.after_getElem?]
    simp only [if_neg hi']

/-- The task that was tracked first has ended and was forgotten. Of the others one lingers for a while after the
signal, and one would sleep for longer than the stop waits. -/
theorem straggler_is_aborted :
    let p := ((TaskPool.empty.spawn .ready).1.track 0).settle
    let p := (p.spawn (.linger 30)).1.track 1
    let p := ((p.spawn (.sleep 300)).1.track 2).advance 50
    let q := p.graceful [] (some 100)
    p.Tracking [0, 1, 2] ∧ p.Apart ([] ++ [0, 1, 2]) 100 ∧ p.tracked = [1, 2] ∧ q.now = 150 ∧
      q.tasks[1]? = some ⟨.linger 30, .done⟩ ∧ q.tasks[2]? = some ⟨.sleep 300, .dropped⟩ := by
  intro p₁ p₂ p q
  have hp : p.Tracking [0, 1, 2] :=
    .advance (.track (.spawn (.track (.spawn (.settle (.track (.spawn .start _) 0 (by decide))) _) 1
      (by decide)) _) 2 (by decide)) 50
  have htasks : p.tasks =
      [⟨.ready, .done⟩, ⟨.linger 30, .waiting⟩, ⟨.sleep 300, .sleeping 300⟩] := by decide
  have hnow : p.now = 50 := by decide
  have hready : (⟨.ready, .done⟩ : BackgroundTask).endsIn 50 = 0 := rfl
  have hlinger : (⟨.linger 30, .waiting⟩ : BackgroundTask).endsIn 50 = (30 : Nat) := rfl
  have hsleep : (⟨.sleep 300, .sleeping 300⟩ : BackgroundTask).endsIn 50 = (250 : Nat) := rfl
  have apart : p.Apart ([] ++ [0, 1, 2]) 100 := by
    intro i hi task htask _
    rw [htasks] at htask
    simp only [List.nil_append, List.mem_cons, List.not_mem_nil, or_false] at hi
    rw [hnow]
    rcases hi with rfl | rfl | rfl <;> cases htask
    · rw [hready]
      decide
    · rw [hlinger]
      decide
    · rw [hsleep]
      decide
  obtain ⟨_, _, _, hends, _, _⟩ := graceful_waits_for_the_last hp [] (some 100) apart
  have hfirst := (hends 1 (by decide) ⟨.linger 30, .waiting⟩ (by rw [htasks]; rfl)).1
  have hsecond := (hends 2 (by decide) ⟨.sleep 300, .sleeping 300⟩ (by rw [htasks]; rfl)).2
  rw [hnow, hlinger] at hfirst
  rw [hnow, hsleep] at hsecond
  obtain ⟨hlate, hdropped⟩ := hsecond (by decide)
  exact ⟨hp, apart, by decide, hlate, hfirst (by decide), hdropped⟩

end RoomCast
