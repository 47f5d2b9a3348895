import RoomCast.Proofs.TaskEnding

namespace RoomCast

attribute [ext] TaskPool

namespace TaskPool

/-- How long after a stop signal that is given now a task ends by itself. What is no task has ended. -/
def endsIn (p : TaskPool) (i : Nat) : ℕ∞ := (p.tasks[i]?.map (·.endsIn p.now)).getD 0

/-- The pool some time after a stop signal that is given now, if no task is aborted. -/
def after (p : TaskPool) (elapsed : Nat) : TaskPool :=
  { p with now := p.now + elapsed, tasks := p.tasks.map (·.after p.now elapsed), stopping := true }

/-- No task that has not ended does so when the timeout is just over. -/
def Apart (p : TaskPool) (awaited : List Nat) (limit : Nat) : Prop :=
  ∀ i ∈ awaited, ∀ task, p.tasks[i]? = some task → task.isOver = false → task.endsIn p.now ≠ limit

def unfinished (p : TaskPool) (elapsed : Nat) : Nat :=
  (p.tasks.filter fun task => (elapsed : ℕ∞) < task.endsIn p.now).length

variable {p : TaskPool}

theorem endsIn_of {i : Nat} {task : BackgroundTask} (h : p.tasks[i]? = some task) :
    p.endsIn i = task.endsIn p.now := by
  rw [endsIn, h, Option.map_some, Option.getD_some]

theorem after_isOver {elapsed i : Nat} : (p.after elapsed).isOver i = true ↔ p.endsIn i ≤ elapsed := by
  cases h : p.tasks[i]? with
  | none => simp [isOver, after, endsIn, h]
  | some task => simp [isOver, after, endsIn, h, BackgroundTask.after_isOver]

theorem settle_after {elapsed later : Nat} (h : elapsed ≤ later) :
    ({ p.after elapsed with now := p.now + later } : TaskPool).settle = p.after later := by
  refine TaskPool.ext rfl ?_ rfl rfl
  have htask : ∀ task ∈ p.tasks, (task.after p.now elapsed).settle (p.now + later) true =
      task.after p.now later := by
    intro task _
    rw [BackgroundTask.settle_stopping, BackgroundTask.after_after h]
  rw [settle, after, after, List.map_map]
  exact List.map_congr_left htask

/-- Settling does not change what a task will be after the signal. -/
theorem settle_then_after (p : TaskPool) (elapsed : Nat) : p.settle.after elapsed = p.after elapsed := by
  refine TaskPool.ext rfl ?_ rfl rfl
  have htask : ∀ task ∈ p.tasks, (task.settle p.now p.stopping).after p.now elapsed =
      task.after p.now elapsed := by
    intro task _
    obtain ⟨hkind, hends, hended, _⟩ := task.settle_keeps p.now p.stopping
    exact BackgroundTask.after_congr hkind hends hended
  rw [settle, after, after, List.map_map]
  exact List.map_congr_left htask

theorem shutdown_settle (p : TaskPool) : p.shutdown.settle = p.after 0 := by
  refine TaskPool.ext rfl ?_ rfl rfl
  exact List.map_congr_left fun task _ => task.settle_stopping p.now

section Rounds

theorem nextDue_none {elapsed : Nat} (h : (p.after elapsed).nextDue = none) :
    ∀ task ∈ p.tasks, elapsed < task.endsIn p.now → task.endsIn p.now = ⊤ := by
  intro task hmem hlate
  rw [nextDue, List.min?_eq_none_iff, List.filterMap_eq_nil_iff] at h
  have hdue := h _ (List.mem_map_of_mem hmem)
  cases hends : task.endsIn p.now with
  | top => rfl
  | coe n =>
    have hn : elapsed < n := by
      rw [hends] at hlate
      exact_mod_cast hlate
    have hsome : (task.after p.now elapsed).due = some (p.now + n) :=
      BackgroundTask.after_due.mpr ⟨n, hends, hn, rfl⟩
    cases hdue.symm.trans hsome

theorem nextDue_some {elapsed time : Nat} (h : (p.after elapsed).nextDue = some time) :
    ∃ n, time = p.now + n ∧ elapsed < n ∧ (∃ task ∈ p.tasks, task.endsIn p.now = n) ∧
      ∀ task ∈ p.tasks, elapsed < task.endsIn p.now → n ≤ task.endsIn p.now := by
  obtain ⟨hmem, hleast⟩ := List.min?_eq_some_iff.mp h
  obtain ⟨task', hmem', hdue⟩ := List.mem_filterMap.mp hmem
  obtain ⟨task, htask, rfl⟩ := List.mem_map.mp hmem'
  obtain ⟨n, hends, hn, htime⟩ := BackgroundTask.after_due.mp hdue
  refine ⟨n, htime, hn, ⟨task, htask, hends⟩, fun other hother hlate => ?_⟩
  cases hends' : other.endsIn p.now with
  | top => exact le_top
  | coe m =>
    have hm : elapsed < m := by
      rw [hends'] at hlate
      exact_mod_cast hlate
    have hsome : (other.after p.now elapsed).due = some (p.now + m) :=
      BackgroundTask.after_due.mpr ⟨m, hends', hm, rfl⟩
    have hle : time ≤ p.now + m :=
      hleast _ (List.mem_filterMap.mpr ⟨_, List.mem_map_of_mem hother, hsome⟩)
    have hnm : n ≤ m := by omega
    exact_mod_cast hnm

theorem unfinished_lt {elapsed n : Nat} {task : BackgroundTask} (hn : elapsed < n)
    (hmem : task ∈ p.tasks) (hends : task.endsIn p.now = n) : p.unfinished n < p.unfinished elapsed := by
  have hkeep : (p.tasks.filter fun task => (n : ℕ∞) < task.endsIn p.now) =
      (p.tasks.filter fun task => (elapsed : ℕ∞) < task.endsIn p.now).filter
        fun task => (n : ℕ∞) < task.endsIn p.now := by
    rw [List.filter_filter]
    refine List.filter_congr fun other _ => ?_
    have hlater : (n : ℕ∞) < other.endsIn p.now → (elapsed : ℕ∞) < other.endsIn p.now := by
      intro hlate
      exact lt_trans (by exact_mod_cast hn) hlate
    by_cases hlate : (n : ℕ∞) < other.endsIn p.now
    · simp [hlate, hlater hlate]
    · simp [hlate]
  rw [unfinished, unfinished, hkeep, List.length_filter_lt_length_iff_exists]
  refine ⟨task, ?_, by simp [hends]⟩
  have hlate : (elapsed : ℕ∞) < task.endsIn p.now := by
    rw [hends]
    exact_mod_cast hn
  exact List.mem_filter.mpr ⟨hmem, by simpa using hlate⟩

/-- Where the rounds end: the stop holds, or no task ends before the limit any more. Until the last round it did
not hold. -/
theorem runBelow_after (limit : Nat) (stop : TaskPool → Bool) {rounds : Nat} :
    ∀ {elapsed : Nat}, p.unfinished elapsed < rounds → elapsed < limit →
    ∃ last, elapsed ≤ last ∧ last < limit ∧
      runBelow (p.now + limit) stop rounds (p.after elapsed) = p.after last ∧
      (stop (p.after last) = true ∨
        ∀ task ∈ p.tasks, last < task.endsIn p.now → limit ≤ task.endsIn p.now) ∧
      (last = elapsed ∨ ∃ before < last, stop (p.after before) = false ∧
        ∀ task ∈ p.tasks, before < task.endsIn p.now → last ≤ task.endsIn p.now) := by
  induction rounds with
  | zero =>
    intro elapsed hleft
    omega
  | succ rounds ih =>
    intro elapsed hleft hlimit
    rw [runBelow]
    by_cases hstop : stop (p.after elapsed) = true
    · rw [if_pos hstop]
      exact ⟨elapsed, le_refl _, hlimit, rfl, Or.inl hstop, Or.inl rfl⟩
    rw [if_neg hstop]
    cases hnext : (p.after elapsed).nextDue with
    | none =>
      refine ⟨elapsed, le_refl _, hlimit, rfl, Or.inr fun task hmem hlate => ?_, Or.inl rfl⟩
      rw [nextDue_none hnext task hmem hlate]
      exact le_top
    | some time =>
      obtain ⟨n, rfl, hn, ⟨task, hmem, hends⟩, hleast⟩ := nextDue_some hnext
      by_cases hbelow : n < limit
      · have hfewer : p.unfinished n < p.unfinished elapsed := unfinished_lt hn hmem hends
        obtain ⟨last, hlast, hlt, hrun, hrest, hwhy⟩ := @ih n (by omega) hbelow
        refine ⟨last, by omega, hlt, ?_, hrest, Or.inr ?_⟩
        · simp only [Nat.add_lt_add_iff_left, if_pos hbelow]
          rw [settle_after hn.le, hrun]
        · rcases hwhy with rfl | hwhy
          · exact ⟨elapsed, hn, by simpa using hstop, hleast⟩
          · exact hwhy
      · refine ⟨elapsed, le_refl _, hlimit, ?_, Or.inr fun other hother hlate => ?_, Or.inl rfl⟩
        · simp only [Nat.add_lt_add_iff_left, if_neg hbelow]
        · have hlim : (limit : ℕ∞) ≤ n := by
            have hle : limit ≤ n := by omega
            exact_mod_cast hle
          exact hlim.trans (hleast other hother hlate)

theorem unfinished_le (p : TaskPool) (elapsed : Nat) : p.unfinished elapsed ≤ p.tasks.length :=
  List.length_filter_le _ _

end Rounds

section Abort

theorem abort_getElem? (p : TaskPool) (numbers : List Nat) (i : Nat) :
    (p.abort numbers).tasks[i]? =
      p.tasks[i]?.map fun task => if i ∈ numbers then task.abort else task := by
  rw [abort, List.getElem?_mapIdx]

theorem after_getElem? (p : TaskPool) (elapsed i : Nat) :
    (p.after elapsed).tasks[i]? = p.tasks[i]?.map (·.after p.now elapsed) := by
  rw [after, List.getElem?_map]

theorem settle_getElem? (p : TaskPool) (i : Nat) :
    p.settle.tasks[i]? = p.tasks[i]?.map (·.settle p.now p.stopping) := by
  rw [settle, List.getElem?_map]

theorem abort_over {numbers : List Nat} (h : numbers.all p.isOver = true) : p.abort numbers = p := by
  refine TaskPool.ext rfl (List.ext_getElem? fun i => ?_) rfl rfl
  rw [abort_getElem?]
  cases hi : p.tasks[i]? with
  | none => rfl
  | some task =>
    rw [Option.map_some]
    split
    next hmem =>
      have hover : p.isOver i = true := List.all_eq_true.mp h i hmem
      rw [isOver, hi, Option.all_some] at hover
      rw [BackgroundTask.abort_over hover]
    next => rfl

theorem abort_settle {numbers : List Nat} {elapsed : Nat} (f : BackgroundTask → BackgroundTask)
    (hleft : ∀ task, (f task).settle (p.now + elapsed) true = task.after p.now elapsed)
    (hcut : ∀ i ∈ numbers, ∀ task, p.tasks[i]? = some task →
      (f task).abort.settle (p.now + elapsed) true = (task.after p.now elapsed).abort) :
    (({ p.after elapsed with tasks := p.tasks.map f } : TaskPool).abort numbers).settle =
      (p.after elapsed).abort numbers := by
  refine TaskPool.ext rfl (List.ext_getElem? fun i => ?_) rfl rfl
  rw [settle_getElem?, abort_getElem?, abort_getElem?, after_getElem?, List.getElem?_map]
  cases hi : p.tasks[i]? with
  | none => rfl
  | some task =>
    simp only [Option.map_some, Option.some.injEq]
    split
    next hmem => exact hcut i hmem task hi
    next => exact hleft task

end Abort

section Wait

variable {awaited : List Nat} {elapsed : Nat}

theorem le_wait {i : Nat} {task : BackgroundTask} (hmem : i ∈ awaited) (hi : p.tasks[i]? = some task) :
    task.endsIn p.now ≤ ⨆ i ∈ awaited, p.endsIn i := by
  rw [← endsIn_of hi]
  exact le_iSup₂_of_le i hmem le_rfl

theorem all_over_iff :
    awaited.all (p.after elapsed).isOver = true ↔ ⨆ i ∈ awaited, p.endsIn i ≤ elapsed := by
  rw [List.all_eq_true, iSup₂_le_iff]
  exact forall₂_congr fun i _ => after_isOver

theorem exists_late (h : ¬awaited.all (p.after elapsed).isOver = true) :
    ∃ i ∈ awaited, ∃ task, p.tasks[i]? = some task ∧ elapsed < task.endsIn p.now := by
  rw [List.all_eq_true] at h
  simp only [after_isOver, not_forall, not_le] at h
  obtain ⟨i, hmem, hlate⟩ := h
  cases hi : p.tasks[i]? with
  | none => simp [endsIn, hi] at hlate
  | some task => exact ⟨i, hmem, task, hi, by rwa [endsIn_of hi] at hlate⟩

end Wait

section Graceful

theorem over_at_once {awaited : List Nat} (h : awaited.all p.settle.isOver = true) :
    ⨆ i ∈ awaited, p.endsIn i ≤ 0 := by
  refine iSup₂_le fun i hmem => ?_
  have hover : p.settle.isOver i = true := List.all_eq_true.mp h i hmem
  cases hi : p.tasks[i]? with
  | none => simp [endsIn, hi]
  | some task =>
    rw [isOver, settle_getElem?, hi, Option.map_some, Option.all_some] at hover
    rw [endsIn_of hi, BackgroundTask.endsIn_of_settled hover]

variable {awaited : List Nat} {limit : Nat}

theorem cut_at_once (apart : p.Apart awaited 0) :
    (p.settle.shutdown.abort awaited).settle = (p.after 0).abort awaited := by
  refine @abort_settle p awaited 0 (·.settle p.now p.stopping) (fun task => ?_)
    fun i hmem task hi => ?_
  · obtain ⟨hkind, hends, hended, _⟩ := task.settle_keeps p.now p.stopping
    rw [Nat.add_zero, BackgroundTask.settle_stopping]
    exact BackgroundTask.after_congr hkind hends hended
  · obtain ⟨hkind, _, _, _⟩ := task.settle_keeps p.now p.stopping
    cases hdone : task.isOver with
    | true =>
      have hends : task.endsIn p.now ≤ (0 : Nat) := by
        rw [BackgroundTask.endsIn_of_isOver hdone, Nat.cast_zero]
      rw [BackgroundTask.settle_over hdone, BackgroundTask.abort_over hdone,
        BackgroundTask.settle_over hdone, BackgroundTask.after_over hends,
        BackgroundTask.ended_of_isOver hdone, BackgroundTask.abort_over hdone]
    | false =>
      have hlate : task.endsIn p.now ≠ 0 := apart i hmem task hi hdone
      refine BackgroundTask.abort_settle hkind (fun hend => ?_) (fun _ => ?_) _
      · exact absurd (BackgroundTask.endsIn_of_settled hend) hlate
      · exact pos_iff_ne_zero.mpr hlate

theorem cut_later {last : Nat} (hlast : last < limit) (apart : p.Apart awaited limit)
    (hquiet : ∀ task ∈ p.tasks, last < task.endsIn p.now → limit ≤ task.endsIn p.now) :
    (({ p.after last with now := p.now + limit } : TaskPool).abort awaited).settle =
      (p.after limit).abort awaited := by
  refine @abort_settle p awaited limit (·.after p.now last) (fun task => ?_) fun i hmem task hi => ?_
  · rw [BackgroundTask.settle_stopping, BackgroundTask.after_after hlast.le]
  refine BackgroundTask.abort_settle BackgroundTask.kind_after (fun hdone => ?_) (fun hgoes => ?_) _
  · have hends : task.endsIn p.now ≤ last := BackgroundTask.after_isOver.mp hdone
    have hends' : task.endsIn p.now ≤ limit := hends.trans (by exact_mod_cast hlast.le)
    rw [BackgroundTask.after_over hends, BackgroundTask.after_over hends']
  · have hlate : last < task.endsIn p.now := by
      rw [← Bool.not_eq_true, BackgroundTask.after_isOver, not_le] at hgoes
      exact hgoes
    have hrunning : task.isOver = false := by
      rw [← Bool.not_eq_true]
      intro hdone
      rw [BackgroundTask.endsIn_of_isOver hdone] at hlate
      exact not_lt_bot hlate
    exact lt_of_le_of_ne (hquiet task (List.mem_of_getElem? hi) hlate)
      (apart i hmem task hi hrunning).symm

/-- Gives the stop signal, and waits for some tasks but not for the tracked ones. -/
def waitOut (p : TaskPool) (awaited : List Nat) (limit : Nat) : TaskPool :=
  let start := p.settle.shutdown
  if awaited.all start.isOver then start.settle
  else if limit = 0 then (start.abort awaited).settle
  else
    let last := runBelow (p.now + limit) (fun q => awaited.all q.isOver) (p.tasks.length + 1) start.settle
    if awaited.all last.isOver then last.settle
    else ({ last with now := p.now + limit }.abort awaited).settle

theorem graceful_eq_waitOut (p : TaskPool) (extra : List Nat) (timeout : Option Nat) :
    p.graceful extra timeout = ({ p with tracked := [] } : TaskPool).waitOut (extra ++ p.tracked)
      (timeout.getD defaultTimeout) := by
  have hlength : p.settle.tasks.length = p.tasks.length := by rw [settle, List.length_map]
  have hzero : p.now + timeout.getD defaultTimeout = p.now ↔ timeout.getD defaultTimeout = 0 := by omega
  rw [waitOut]
  simp only [← hzero]
  rw [← hlength]
  rfl

/-- A stop waits until all that it waits for has ended, or the timeout is over. Then it aborts what is left. -/
theorem waitOut_eq (apart : p.Apart awaited limit) :
    ∃ elapsed : Nat, (elapsed : ℕ∞) = min (limit : ℕ∞) (⨆ i ∈ awaited, p.endsIn i) ∧
      p.waitOut awaited limit = (p.after elapsed).abort awaited := by
  have hstart : p.settle.shutdown.settle = p.after 0 := by
    rw [shutdown_settle, settle_then_after]
  rw [waitOut]
  by_cases hover : awaited.all p.settle.shutdown.isOver = true
  · have hnone : ⨆ i ∈ awaited, p.endsIn i ≤ 0 := over_at_once hover
    have hall : awaited.all (p.after 0).isOver = true := all_over_iff.mpr hnone
    refine ⟨0, ?_, ?_⟩
    · rw [nonpos_iff_eq_zero.mp hnone, min_zero, Nat.cast_zero]
    · simp only [if_pos hover]
      rw [hstart, abort_over hall]
  simp only [if_neg hover]
  by_cases hlimit : limit = 0
  · subst hlimit
    refine ⟨0, by rw [Nat.cast_zero, zero_min], ?_⟩
    rw [if_pos rfl, cut_at_once apart]
  simp only [if_neg hlimit]
  have hrounds : p.unfinished 0 < p.tasks.length + 1 := Nat.lt_succ_of_le (p.unfinished_le 0)
  obtain ⟨last, _, hlast, hrun, hrest, hwhy⟩ := runBelow_after limit
    (fun q => awaited.all q.isOver) hrounds (by omega)
  rw [hstart, hrun]
  by_cases hall : awaited.all (p.after last).isOver = true
  · have hmost : ⨆ i ∈ awaited, p.endsIn i ≤ last := all_over_iff.mp hall
    have hleast : (last : ℕ∞) ≤ ⨆ i ∈ awaited, p.endsIn i := by
      rcases hwhy with rfl | ⟨before, _, hstop, hnext⟩
      · exact bot_le
      · obtain ⟨i, hmem, task, hi, hlate⟩ := exists_late (by simpa using hstop)
        exact (hnext task (List.mem_of_getElem? hi) hlate).trans (le_wait hmem hi)
    have hsame : ⨆ i ∈ awaited, p.endsIn i = (last : ℕ∞) := le_antisymm hmost hleast
    refine ⟨last, ?_, ?_⟩
    · rw [hsame, min_eq_right]
      exact_mod_cast hlast.le
    · rw [if_pos hall, abort_over hall]
      exact settle_after (le_refl last)
  · have hquiet : ∀ task ∈ p.tasks, last < task.endsIn p.now → limit ≤ task.endsIn p.now :=
      hrest.resolve_left hall
    obtain ⟨i, hmem, task, hi, hlate⟩ := exists_late hall
    have hmost : (limit : ℕ∞) ≤ ⨆ i ∈ awaited, p.endsIn i :=
      (hquiet task (List.mem_of_getElem? hi) hlate).trans (le_wait hmem hi)
    refine ⟨limit, (min_eq_left hmost).symm, ?_⟩
    rw [if_neg hall, cut_later hlast apart hquiet]

end Graceful

end TaskPool

end RoomCast
