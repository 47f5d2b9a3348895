import Mathlib.Data.ENat.Lattice
import Mathlib.Order.CompletePartialOrder
import RoomCast.BackgroundTasks

namespace RoomCast

namespace BackgroundTask

/-- How long after a stop signal that is given now a task ends by itself, if it ever does. -/
def endsIn (task : BackgroundTask) (now : Nat) : ℕ∞ :=
  match task.state, task.kind with
  | .done, _ => 0
  | .dropped, _ => 0
  | .sleeping due, _ => ((due - now : Nat) : ℕ∞)
  | _, .untilStop => 0
  | _, .linger duration => duration
  | .fresh, .ready => 0
  | .fresh, .crash => 0
  | .fresh, .sleep duration => duration
  | _, _ => ⊤

def ended (task : BackgroundTask) : BackgroundTask :=
  match task.state, task.kind with
  | .dropped, _ => task
  | .fresh, .crash => { task with state := .dropped }
  | _, _ => { task with state := .done }

/-- A task that is left to itself, some time after a stop signal. -/
def after (task : BackgroundTask) (signal elapsed : Nat) : BackgroundTask :=
  if task.endsIn signal ≤ elapsed then task.ended
  else if task.endsIn signal = ⊤ then { task with state := .waiting }
  else { task with state := .sleeping (signal + (task.endsIn signal).toNat) }

/-- How many steps a task can have left at most. -/
def rank (task : BackgroundTask) : Nat :=
  match task.state with
  | .fresh => 3
  | .waiting => 2
  | .sleeping _ => 1
  | .done => 0
  | .dropped => 0

variable {task task' : BackgroundTask} {now signal elapsed : Nat} {stopping : Bool}

section Steps

theorem step_keeps (h : task.step now stopping = some task') : task'.kind = task.kind ∧
    task'.endsIn now = task.endsIn now ∧ task'.ended = task.ended ∧ task'.rank < task.rank := by
  obtain ⟨kind, state⟩ := task
  cases state with
  | done => simp [step] at h
  | dropped => simp [step] at h
  | sleeping due =>
    simp only [step] at h
    split at h
    next hdue =>
      cases h
      simp [endsIn, ended, rank, hdue]
    next => simp at h
  | waiting =>
    simp only [step] at h
    split at h
    next =>
      cases h
      cases kind <;> simp_all [endsIn, ended, rank, onStop]
    next => simp at h
  | fresh => cases kind <;> cases h <;> simp [endsIn, ended, rank]

theorem step_none_of_rank (h : task.rank = 0) (now : Nat) (stopping : Bool) :
    task.step now stopping = none := by
  obtain ⟨kind, state⟩ := task
  cases state <;> simp_all [step, rank]

theorem rank_le (task : BackgroundTask) : task.rank ≤ 3 := by
  rw [rank]
  split <;> omega

def next (task : BackgroundTask) (now : Nat) (stopping : Bool) : BackgroundTask :=
  (task.step now stopping).getD task

theorem next_cases (task : BackgroundTask) (now : Nat) (stopping : Bool) :
    (task.step now stopping = none ∧ task.next now stopping = task) ∨
      task.step now stopping = some (task.next now stopping) := by
  cases h : task.step now stopping with
  | none => exact Or.inl ⟨rfl, by simp [next, h]⟩
  | some task' => exact Or.inr (by simp [next, h])

theorem settle_eq (task : BackgroundTask) (now : Nat) (stopping : Bool) :
    task.settle now stopping =
      ((task.next now stopping).next now stopping).next now stopping := rfl

/-- What settling leaves has the end of the task, and can take no step. -/
theorem settle_keeps (task : BackgroundTask) (now : Nat) (stopping : Bool) :
    let task' := task.settle now stopping
    task'.kind = task.kind ∧ task'.endsIn now = task.endsIn now ∧ task'.ended = task.ended ∧
      task'.step now stopping = none := by
  have once : ∀ t : BackgroundTask, (t.next now stopping).kind = t.kind ∧
      (t.next now stopping).endsIn now = t.endsIn now ∧ (t.next now stopping).ended = t.ended ∧
      ((t.next now stopping).rank + 1 ≤ t.rank ∨
        (t.next now stopping).step now stopping = none) := by
    intro t
    rcases t.next_cases now stopping with ⟨hnone, hsame⟩ | hstep
    · rw [hsame]
      exact ⟨rfl, rfl, rfl, Or.inr hnone⟩
    · obtain ⟨hkind, hends, hended, hrank⟩ := step_keeps hstep
      exact ⟨hkind, hends, hended, Or.inl hrank⟩
  have still : ∀ t : BackgroundTask, t.step now stopping = none → t.next now stopping = t := by
    intro t ht
    rw [next, ht, Option.getD_none]
  obtain ⟨hkind₁, hends₁, hended₁, h₁⟩ := once task
  obtain ⟨hkind₂, hends₂, hended₂, h₂⟩ := once (task.next now stopping)
  obtain ⟨hkind₃, hends₃, hended₃, h₃⟩ := once ((task.next now stopping).next now stopping)
  rw [settle_eq]
  refine ⟨by rw [hkind₃, hkind₂, hkind₁], by rw [hends₃, hends₂, hends₁],
    by rw [hended₃, hended₂, hended₁], ?_⟩
  rcases h₁ with h₁ | h₁
  · rcases h₂ with h₂ | h₂
    · rcases h₃ with h₃ | h₃
      · have hmost : task.rank ≤ 3 := task.rank_le
        exact step_none_of_rank (by omega) now stopping
      · exact h₃
    · rw [still _ h₂]
      exact h₂
  · rw [still _ h₁, still _ h₁]
    exact h₁

end Steps

section After

theorem after_over (h : task.endsIn signal ≤ elapsed) : task.after signal elapsed = task.ended :=
  if_pos h

theorem after_never (h : task.endsIn signal = ⊤) :
    task.after signal elapsed = { task with state := .waiting } := by
  have hlate : ¬(⊤ : ℕ∞) ≤ elapsed := by simp
  rw [after, h, if_neg hlate, if_pos rfl]

theorem after_early {n : Nat} (h : task.endsIn signal = n) (hn : elapsed < n) :
    task.after signal elapsed = { task with state := .sleeping (signal + n) } := by
  have hlate : ¬(n : ℕ∞) ≤ elapsed := by
    rw [Nat.cast_le]
    omega
  have hsome : (n : ℕ∞) ≠ ⊤ := ENat.natCast_ne_top n
  rw [after, h, if_neg hlate, if_neg hsome, ENat.toNat_natCast]

theorem after_cases (task : BackgroundTask) (signal elapsed : Nat) :
    (task.endsIn signal ≤ elapsed ∧ task.after signal elapsed = task.ended) ∨
    (task.endsIn signal = ⊤ ∧ task.after signal elapsed = { task with state := .waiting }) ∨
    (∃ n : Nat, task.endsIn signal = n ∧ elapsed < n ∧
      task.after signal elapsed = { task with state := .sleeping (signal + n) }) := by
  by_cases hover : task.endsIn signal ≤ elapsed
  · exact Or.inl ⟨hover, after_over hover⟩
  · cases hends : task.endsIn signal with
    | top => exact Or.inr (Or.inl ⟨rfl, after_never hends⟩)
    | coe n =>
      have hn : elapsed < n := by
        rw [hends, Nat.cast_le] at hover
        omega
      exact Or.inr (Or.inr ⟨n, rfl, hn, after_early hends hn⟩)

theorem ended_isOver (task : BackgroundTask) : task.ended.isOver = true := by
  obtain ⟨kind, state⟩ := task
  cases state <;> cases kind <;> simp [ended, isOver]

theorem ended_endsIn (task : BackgroundTask) (now : Nat) : task.ended.endsIn now = 0 := by
  obtain ⟨kind, state⟩ := task
  cases state <;> cases kind <;> simp [ended, endsIn]

theorem ended_ended (task : BackgroundTask) : task.ended.ended = task.ended := by
  obtain ⟨kind, state⟩ := task
  cases state <;> cases kind <;> simp [ended]

theorem ended_of_pos (h : 0 < task.endsIn now) : task.ended = { task with state := .done } := by
  obtain ⟨kind, state⟩ := task
  cases state <;> cases kind <;> simp_all [ended, endsIn]

theorem waiting_of_never (h : task.endsIn now = ⊤) (later : Nat) :
    ({ task with state := .waiting } : BackgroundTask).endsIn later = ⊤ := by
  obtain ⟨kind, state⟩ := task
  cases state <;> cases kind <;> simp_all [endsIn]

theorem endsIn_sleeping (task : BackgroundTask) (due now : Nat) :
    ({ task with state := .sleeping due } : BackgroundTask).endsIn now = ((due - now : Nat) : ℕ∞) := by
  cases task
  rfl

theorem after_isOver : (task.after signal elapsed).isOver = true ↔ task.endsIn signal ≤ elapsed := by
  rcases task.after_cases signal elapsed with ⟨hends, he⟩ | ⟨hends, he⟩ | ⟨n, hends, hn, he⟩
  · simp [he, hends, ended_isOver]
  · simp [he, hends, isOver]
  · have hlate : ¬n ≤ elapsed := by omega
    simp [he, hends, isOver, hlate]

theorem after_due {time : Nat} : (task.after signal elapsed).due = some time ↔
    ∃ n : Nat, task.endsIn signal = n ∧ elapsed < n ∧ time = signal + n := by
  rcases task.after_cases signal elapsed with ⟨hends, he⟩ | ⟨hends, he⟩ | ⟨n, hends, hn, he⟩
  · have hnone : task.ended.due = none := by
      obtain ⟨kind, state⟩ := task
      cases state <;> cases kind <;> rfl
    rw [he, hnone]
    constructor
    · intro h
      cases h
    · rintro ⟨n, hn, hlate, _⟩
      rw [hn, Nat.cast_le] at hends
      omega
  · simp [he, hends, due]
  · have hdue : (task.after signal elapsed).due = some (signal + n) := by rw [he, due]
    rw [hdue, hends]
    constructor
    · intro h
      cases h
      exact ⟨n, rfl, hn, rfl⟩
    · rintro ⟨n', hn', _, rfl⟩
      rw [Nat.cast_inj] at hn'
      rw [hn']

/-- What is left of the wait after some of it. -/
theorem endsIn_after {later : Nat} (h : elapsed ≤ later) :
    (task.after signal elapsed).endsIn (signal + later) = task.endsIn signal - later := by
  rcases task.after_cases signal elapsed with ⟨hends, he⟩ | ⟨hends, he⟩ | ⟨n, hends, hn, he⟩
  · have hover : task.endsIn signal ≤ later := hends.trans (Nat.cast_le.mpr h)
    rw [he, ended_endsIn, tsub_eq_zero_of_le hover]
  · rw [he, hends, waiting_of_never hends, ENat.top_sub_natCast]
  · have hleft : signal + n - (signal + later) = n - later := by omega
    rw [he, hends, endsIn_sleeping, hleft, ENat.natCast_sub]

theorem ended_after : (task.after signal elapsed).ended = task.ended := by
  rcases task.after_cases signal elapsed with ⟨_, he⟩ | ⟨hends, he⟩ | ⟨n, hends, hn, he⟩
  · rw [he, ended_ended]
  · have hpos : 0 < task.endsIn signal := by simp [hends]
    rw [he, ended_of_pos hpos, ended]
  · have hpos : 0 < task.endsIn signal := by
      have hn0 : 0 < n := by omega
      rw [hends]
      exact_mod_cast hn0
    rw [he, ended_of_pos hpos, ended]

theorem kind_after : (task.after signal elapsed).kind = task.kind := by
  rcases task.after_cases signal elapsed with ⟨_, he⟩ | ⟨_, he⟩ | ⟨n, _, _, he⟩
  · rw [he, ended]
    split <;> rfl
  · rw [he]
  · rw [he]

theorem after_congr {other : BackgroundTask} (hkind : other.kind = task.kind)
    (hends : other.endsIn signal = task.endsIn signal) (hended : other.ended = task.ended) :
    other.after signal elapsed = task.after signal elapsed := by
  rw [after, after, hends, hended, hkind]

theorem after_after {later : Nat} (h : elapsed ≤ later) :
    (task.after signal elapsed).after (signal + later) 0 = task.after signal later := by
  have hleft : (task.after signal elapsed).endsIn (signal + later) = task.endsIn signal - later :=
    endsIn_after h
  rcases task.after_cases signal later with ⟨hends, he⟩ | ⟨hends, he⟩ | ⟨n, hends, hn, he⟩
  · have hover : (task.after signal elapsed).endsIn (signal + later) ≤ (0 : Nat) := by
      rw [hleft, tsub_eq_zero_of_le hends, Nat.cast_zero]
    rw [after_over hover, ended_after, he]
  · rw [hends, ENat.top_sub_natCast] at hleft
    rw [after_never hleft, he, kind_after]
  · rw [hends, ← ENat.natCast_sub] at hleft
    have hdue : signal + later + (n - later) = signal + n := by omega
    rw [after_early hleft (by omega), he, kind_after, hdue]

theorem rest_after (h : task.step now true = none) : task.after now 0 = task := by
  obtain ⟨kind, state⟩ := task
  cases state with
  | fresh => cases kind <;> simp [step] at h
  | waiting => cases kind <;> simp_all [step, onStop, after, endsIn]
  | sleeping due =>
    have hdue : now < due := by simpa [step] using h
    have hn : now + (due - now) = due := by omega
    rw [after_early (n := due - now) rfl (by omega), hn]
  | done => simp [after, endsIn, ended]
  | dropped => simp [after, endsIn, ended]

theorem settle_stopping (task : BackgroundTask) (now : Nat) :
    task.settle now true = task.after now 0 := by
  obtain ⟨hkind, hends, hended, hrest⟩ := task.settle_keeps now true
  rw [← rest_after hrest]
  exact after_congr hkind hends hended

end After

section Over

theorem endsIn_of_isOver (h : task.isOver = true) (now : Nat) : task.endsIn now = 0 := by
  obtain ⟨kind, state⟩ := task
  cases state <;> simp_all [isOver, endsIn]

/-- A task that ends without waiting has no time left, whether or not the signal was given. -/
theorem endsIn_of_settled (h : (task.settle now stopping).isOver = true) : task.endsIn now = 0 := by
  obtain ⟨_, hends, _, _⟩ := task.settle_keeps now stopping
  rw [← hends]
  exact endsIn_of_isOver h now

theorem ended_of_isOver (h : task.isOver = true) : task.ended = task := by
  obtain ⟨kind, state⟩ := task
  cases state <;> simp_all [isOver, ended]

theorem settle_over (h : task.isOver = true) (now : Nat) (stopping : Bool) :
    task.settle now stopping = task := by
  have hrank : task.rank = 0 := by
    obtain ⟨kind, state⟩ := task
    cases state <;> simp_all [isOver, rank]
  have hnext : task.next now stopping = task := by
    rw [next, step_none_of_rank hrank, Option.getD_none]
  rw [settle_eq, hnext, hnext, hnext]

theorem abort_over (h : task.isOver = true) : task.abort = task :=
  if_pos h

theorem abort_early (h : task.isOver = false) : task.abort = { task with state := .dropped } := by
  rw [abort, h]
  rfl

theorem abort_settle (hkind : task'.kind = task.kind)
    (hover : task'.isOver = true → task' = task.after signal elapsed)
    (hearly : task'.isOver = false → elapsed < task.endsIn signal) (now : Nat) :
    task'.abort.settle now true = (task.after signal elapsed).abort := by
  cases h : task'.isOver with
  | true => rw [abort_over h, settle_over h, ← hover h, abort_over h]
  | false =>
    have hlate : (task.after signal elapsed).isOver = false := by
      rw [← Bool.not_eq_true, after_isOver, not_le]
      exact hearly h
    have hdropped : ({ task' with state := .dropped } : BackgroundTask).isOver = true := rfl
    rw [abort_early h, abort_early hlate, settle_over hdropped, hkind, kind_after]

end Over

end BackgroundTask

end RoomCast
