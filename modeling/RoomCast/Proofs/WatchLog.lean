import Mathlib.Data.List.Pairwise
import RoomCast.Heartbeat

namespace RoomCast

/-- What happens to a connection under watch: its heartbeat starts, it gives a sign of life, something
other than its heartbeat closes it, or its heartbeat takes a step. -/
inductive WatchEvent where
  | start
  | keepAlive
  | close
  | beat
deriving DecidableEq, Repr

/-- What has happened, oldest first, with the times. -/
abbrev WatchLog := List (Nat × WatchEvent)

namespace WatchLog

def lastSign (first : Nat) : WatchLog → Nat
  | [] => first
  | (time, .keepAlive) :: log => lastSign time log
  | _ :: log => lastSign first log

/-- The checks of a heartbeat that nothing else has disturbed, each with its time and that of the last
sign of life before it. -/
def checks (first : Nat) : WatchLog → List (Nat × Nat)
  | [] => []
  | (_, .start) :: log => checks first log
  | (time, .keepAlive) :: log => checks time log
  | (_, .close) :: _ => []
  | (time, .beat) :: log => (time, first) :: checks first log

/-- When something other than the heartbeat has first closed the connection. -/
def closing : WatchLog → Option Nat
  | [] => none
  | (time, .close) :: _ => some time
  | _ :: log => closing log

def signs (first : Nat) : WatchLog → List Nat
  | [] => [first]
  | (time, .keepAlive) :: log => first :: signs time log
  | _ :: log => signs first log

end WatchLog

/-- Whether a check finds the last sign of life too old. -/
def Missed (interval : Nat) (check : Nat × Nat) : Prop := interval < check.1 - check.2

/-- A check at a time is the first that finds the last sign of life too old. -/
def FirstMissed (interval : Nat) (checks : List (Nat × Nat)) (time : Nat) : Prop :=
  ∃ k sign : Nat, checks[k]? = some (time, sign) ∧ Missed interval (time, sign) ∧
    ∀ (j : Nat) c, j < k → checks[j]? = some c → ¬Missed interval c

/-- Checks that come at the multiples of an interval after a start. -/
def OnSchedule (start interval : Nat) (checks : List (Nat × Nat)) : Prop :=
  ∀ k c, checks[k]? = some c → c.1 = start + (k + 1) * interval

theorem OnSchedule.snoc {start interval : Nat} {checks : List (Nat × Nat)} {c : Nat × Nat}
    (h : OnSchedule start interval checks) (hc : c.1 = start + (checks.length + 1) * interval) :
    OnSchedule start interval (checks ++ [c]) := by
  intro k c' hk
  rcases Nat.lt_trichotomy k checks.length with hlt | rfl | hgt
  · rw [List.getElem?_append_left hlt] at hk
    exact h k c' hk
  · simp only [List.getElem?_concat_length, Option.some.injEq] at hk
    rw [← hk, hc]
  · rw [List.getElem?_eq_none (by simp; omega)] at hk
    simp at hk

theorem not_firstMissed {interval : Nat} {checks : List (Nat × Nat)} (h : ∀ c ∈ checks, ¬Missed interval c)
    (time : Nat) : ¬FirstMissed interval checks time := by
  rintro ⟨k, sign, hk, hmissed, _⟩
  exact h _ (List.mem_of_getElem? hk) hmissed

theorem firstMissed_snoc {interval : Nat} {found : List (Nat × Nat)} {last : Nat × Nat}
    (hpassed : ∀ c ∈ found, ¬Missed interval c) (hmissed : Missed interval last) (time : Nat) :
    FirstMissed interval (found ++ [last]) time ↔ last.1 = time := by
  constructor
  · rintro ⟨k, sign, hk, hm, _⟩
    rcases List.mem_append.mp (List.mem_of_getElem? hk) with hin | hlast
    · exact absurd hm (hpassed _ hin)
    · rw [← List.mem_singleton.mp hlast]
  · rintro rfl
    refine ⟨found.length, last.2, List.getElem?_concat_length, hmissed, fun j c hj hc => ?_⟩
    rw [List.getElem?_append_left hj] at hc
    exact hpassed c (List.mem_of_getElem? hc)

namespace WatchLog

variable (first : Nat) (log more : WatchLog)

theorem lastSign_append : lastSign first (log ++ more) = lastSign (lastSign first log) more := by
  induction log generalizing first with
  | nil => rfl
  | cons e log ih =>
    obtain ⟨time, e⟩ := e
    cases e <;> exact ih _

theorem lastSign_snoc (time : Nat) (e : WatchEvent) : lastSign first (log ++ [(time, e)]) =
    if e = .keepAlive then time else lastSign first log := by
  rw [lastSign_append]
  cases e <;> rfl

theorem closing_append : closing (log ++ more) = (closing log).or (closing more) := by
  induction log with
  | nil => rfl
  | cons e log ih =>
    obtain ⟨time, e⟩ := e
    cases e with
    | close => rfl
    | _ => exact ih

theorem closing_snoc {e : WatchEvent} (he : e ≠ .close) (time : Nat) :
    closing (log ++ [(time, e)]) = closing log := by
  rw [closing_append]
  cases e with
  | close => exact absurd rfl he
  | _ => exact Option.or_none ..

theorem mem_of_closing {time : Nat} (h : closing log = some time) : (time, .close) ∈ log := by
  induction log with
  | nil => simp [closing] at h
  | cons e log ih =>
    obtain ⟨t, e⟩ := e
    cases e with
    | close =>
      simp only [closing, Option.some.injEq] at h
      exact h ▸ List.mem_cons_self
    | _ => exact List.mem_cons_of_mem _ (ih h)

theorem checks_append (h : closing log = none) :
    checks first (log ++ more) = checks first log ++ checks (lastSign first log) more := by
  induction log generalizing first with
  | nil => rfl
  | cons e log ih =>
    obtain ⟨time, e⟩ := e
    cases e with
    | close => simp [closing] at h
    | beat => exact congrArg ((time, first) :: ·) (ih first h)
    | _ => exact ih _ h

theorem checks_append_closed (h : closing log ≠ none) :
    checks first (log ++ more) = checks first log := by
  induction log generalizing first with
  | nil => exact absurd rfl h
  | cons e log ih =>
    obtain ⟨time, e⟩ := e
    cases e with
    | close => rfl
    | beat => exact congrArg ((time, first) :: ·) (ih first h)
    | _ => exact ih _ h

theorem checks_snoc {e : WatchEvent} (he : e ≠ .beat) (time : Nat) :
    checks first (log ++ [(time, e)]) = checks first log := by
  by_cases h : closing log = none
  · rw [checks_append first log _ h]
    cases e with
    | beat => exact absurd rfl he
    | _ => exact List.append_nil _
  · exact checks_append_closed first log _ h

theorem checks_beat (h : closing log = none) (time : Nat) :
    checks first (log ++ [(time, .beat)]) = checks first log ++ [(time, lastSign first log)] :=
  checks_append first log _ h

variable {first : Nat} {log : WatchLog}

theorem lastSign_silent (h : ∀ e ∈ log, e.2 ≠ .keepAlive) : lastSign first log = first := by
  induction log with
  | nil => rfl
  | cons e log ih =>
    obtain ⟨time, e⟩ := e
    have hlog : ∀ e ∈ log, e.2 ≠ .keepAlive := fun e he => h e (List.mem_cons_of_mem _ he)
    cases e with
    | keepAlive => exact absurd rfl (h _ List.mem_cons_self)
    | _ => exact ih hlog

theorem checks_silent (h : ∀ e ∈ log, e.2 ≠ .keepAlive) {c : Nat × Nat}
    (hc : c ∈ checks first log) : c.2 = first := by
  induction log with
  | nil => simp [checks] at hc
  | cons e log ih =>
    obtain ⟨time, e⟩ := e
    have hlog : ∀ e ∈ log, e.2 ≠ .keepAlive := fun e he => h e (List.mem_cons_of_mem _ he)
    cases e with
    | keepAlive => exact absurd rfl (h _ List.mem_cons_self)
    | start => exact ih hlog hc
    | close => simp [checks] at hc
    | beat =>
      rcases List.mem_cons.mp hc with rfl | hc
      · rfl
      · exact ih hlog hc

theorem first_le_lastSign (h : (first :: log.map Prod.fst).Pairwise (· ≤ ·)) :
    first ≤ lastSign first log := by
  induction log generalizing first with
  | nil => exact Nat.le_refl _
  | cons e log ih =>
    obtain ⟨time, e⟩ := e
    have hskip := h.sublist ((List.sublist_cons_self time _).cons_cons first)
    obtain ⟨hfirst, hlater⟩ := List.pairwise_cons.mp h
    cases e with
    | keepAlive => exact Nat.le_trans (hfirst time List.mem_cons_self) (ih hlater)
    | _ => exact ih hskip

theorem sign_le_lastSign (h : (first :: log.map Prod.fst).Pairwise (· ≤ ·)) {c : Nat × Nat}
    (hc : c ∈ checks first log) : c.2 ≤ lastSign first log := by
  induction log generalizing first with
  | nil => simp [checks] at hc
  | cons e log ih =>
    obtain ⟨time, e⟩ := e
    have hskip := h.sublist ((List.sublist_cons_self time _).cons_cons first)
    obtain ⟨_, hlater⟩ := List.pairwise_cons.mp h
    cases e with
    | keepAlive => exact ih hlater hc
    | start => exact ih hskip hc
    | close => simp [checks] at hc
    | beat =>
      rcases List.mem_cons.mp hc with rfl | hc
      · change first ≤ lastSign first log
        exact first_le_lastSign hskip
      · exact ih hskip hc

theorem signs_cons (first : Nat) (log : WatchLog) :
    ∃ later, signs first log = first :: later ∧ ∀ t ∈ later, t ∈ log.map Prod.fst := by
  induction log generalizing first with
  | nil => exact ⟨[], rfl, by simp⟩
  | cons e log ih =>
    obtain ⟨time, e⟩ := e
    cases e with
    | keepAlive =>
      obtain ⟨later, hl, hin⟩ := ih time
      refine ⟨time :: later, congrArg (first :: ·) hl, fun t ht => ?_⟩
      rcases List.mem_cons.mp ht with rfl | ht
      · exact List.mem_cons_self
      · exact List.mem_cons_of_mem _ (hin t ht)
    | _ =>
      obtain ⟨later, hl, hin⟩ := ih first
      exact ⟨later, hl, fun t ht => List.mem_cons_of_mem _ (hin t ht)⟩

/-- When signs of life, and the present, follow on each other within an interval, no check misses one. -/
theorem checks_steady {interval now : Nat}
    (h : (first :: log.map Prod.fst).Pairwise (· ≤ ·)) (hpast : ∀ t ∈ log.map Prod.fst, t ≤ now)
    (hs : (signs first log ++ [now]).IsChain fun a b => b - a ≤ interval) {c : Nat × Nat}
    (hc : c ∈ checks first log) : ¬Missed interval c := by
  induction log generalizing first with
  | nil => simp [checks] at hc
  | cons e log ih =>
    obtain ⟨time, e⟩ := e
    have hskip := h.sublist ((List.sublist_cons_self time _).cons_cons first)
    obtain ⟨_, hlater⟩ := List.pairwise_cons.mp h
    have hpast' : ∀ t ∈ log.map Prod.fst, t ≤ now := fun t ht => hpast t (List.mem_cons_of_mem _ ht)
    cases e with
    | keepAlive =>
      obtain ⟨later, hl, _⟩ := signs_cons time log
      refine ih hlater hpast' ?_ hc
      rw [signs, hl] at hs
      rw [hl]
      exact (List.isChain_cons_cons.mp hs).2
    | start => exact ih hskip hpast' hs hc
    | close => simp [checks] at hc
    | beat =>
      rcases List.mem_cons.mp hc with rfl | hc
      · -- the next sign of life, or the present, is not before the check
        obtain ⟨later, hl, hin⟩ := signs_cons first log
        have hafter : ∀ t ∈ later ++ [now], time ≤ t := by
          intro t ht
          rcases List.mem_append.mp ht with ht | ht
          · exact (List.pairwise_cons.mp hlater).1 t (hin t ht)
          · exact List.mem_singleton.mp ht ▸ hpast time List.mem_cons_self
        change (signs first log ++ [now]).IsChain _ at hs
        rw [hl] at hs
        obtain ⟨next, rest, hnext⟩ := List.exists_cons_of_ne_nil
          (List.append_ne_nil_of_right_ne_nil later (List.cons_ne_nil now []))
        rw [List.cons_append, hnext] at hs
        have hle := hafter next (hnext ▸ List.mem_cons_self)
        have hclose := (List.isChain_cons_cons.mp hs).1
        change ¬interval < time - first
        omega
      · exact ih hskip hpast' hs hc

theorem mem_start_snoc (log : WatchLog) {e : WatchEvent} (he : e ≠ .start) (time t : Nat) :
    (t, WatchEvent.start) ∈ log ++ [(time, e)] ↔ (t, .start) ∈ log := by
  simp [Ne.symm he]

end WatchLog

end RoomCast
