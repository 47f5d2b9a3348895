import RoomCast.Proofs.TimeoutCount
import RoomCast.Proofs.WatchLog

namespace RoomCast

def HeartbeatWatch.CanBeat (w : HeartbeatWatch) (time : Nat) : Prop :=
  w.heartbeat.bind (·.step w.connection time w.interval) ≠ none

/-- A connection and its heartbeat, with all that has happened to them in order. Time does not go by while
the heartbeat has a step to take. -/
inductive HeartbeatRun (id : ConnectionId) (limits : ConnectionLimits) (created interval : Nat) :
    WatchLog → HeartbeatWatch → Prop where
  | create : HeartbeatRun id limits created interval []
      ⟨created, interval, .create id limits created, none⟩
  | pass {log : WatchLog} {w : HeartbeatWatch} (time : Nat) :
      HeartbeatRun id limits created interval log w → w.now ≤ time →
      (∀ t, w.now ≤ t → t < time → ¬w.CanBeat t) →
      HeartbeatRun id limits created interval log { w with now := time }
  | other {log : WatchLog} {w : HeartbeatWatch} (c : Connection) :
      HeartbeatRun id limits created interval log w → c.closed = w.connection.closed →
      c.heartbeat = w.connection.heartbeat →
      HeartbeatRun id limits created interval log { w with connection := c }
  | start {log : WatchLog} {w : HeartbeatWatch} :
      HeartbeatRun id limits created interval log w → w.heartbeat = none →
      HeartbeatRun id limits created interval (log ++ [(w.now, .start)])
        (.create w.connection w.now w.interval)
  | keepAlive {log : WatchLog} {w : HeartbeatWatch} :
      HeartbeatRun id limits created interval log w →
      HeartbeatRun id limits created interval (log ++ [(w.now, .keepAlive)])
        { w with connection := w.connection.keepAlive w.now }
  | close {log : WatchLog} {w : HeartbeatWatch} :
      HeartbeatRun id limits created interval log w →
      HeartbeatRun id limits created interval (log ++ [(w.now, .close)])
        { w with connection := w.connection.close.1 }
  | beat {log : WatchLog} {w : HeartbeatWatch} :
      HeartbeatRun id limits created interval log w → w.CanBeat w.now →
      HeartbeatRun id limits created interval (log ++ [(w.now, .beat)]) w.settle

namespace HeartbeatWatch

variable {w : HeartbeatWatch} {since : Nat}

theorem canBeat_iff (time : Nat) : w.CanBeat time ↔ ∃ since, w.heartbeat = some (.waiting since) ∧
    (w.connection.closed = true ∨ since + w.interval ≤ time) := by
  constructor
  · intro hb
    obtain ⟨⟨h', c'⟩, hstep⟩ := Option.ne_none_iff_exists'.mp hb
    obtain ⟨h, hw, hstep⟩ := Option.bind_eq_some_iff.mp hstep
    obtain ⟨since, rfl⟩ := Heartbeat.step_waiting hstep
    refine ⟨since, hw, ?_⟩
    by_contra hwaits
    obtain ⟨hopen, hearly⟩ := not_or.mp hwaits
    simp [Heartbeat.step, hopen, Nat.lt_of_not_le hearly] at hstep
  · rintro ⟨since, hw, hgoes⟩
    rw [CanBeat, hw, Option.bind_some, Heartbeat.step]
    by_cases hclosed : w.connection.closed = true
    · simp [hclosed]
    · have hdue : ¬time < since + w.interval := Nat.not_lt.mpr (hgoes.resolve_left hclosed)
      rw [if_neg hclosed, if_neg hdue]
      split <;> simp

theorem due_cases (hwaits : ¬w.CanBeat w.now) : (w.due = none ∧ ∀ t, ¬w.CanBeat t) ∨
    ∃ time, w.due = some time ∧ w.now < time ∧ ∀ t, w.CanBeat t ↔ time ≤ t := by
  cases hw : w.heartbeat with
  | none => exact .inl ⟨by simp [due, hw], fun t => by simp [canBeat_iff, hw]⟩
  | some heartbeat =>
    cases heartbeat with
    | ended how time =>
      exact .inl ⟨by simp [due, hw, Heartbeat.due], fun t => by simp [canBeat_iff, hw]⟩
    | waiting since =>
      have hcan : ∀ t, w.CanBeat t ↔ w.connection.closed = true ∨ since + w.interval ≤ t := by
        intro t
        simp [canBeat_iff, hw]
      obtain ⟨hopen, hearly⟩ := not_or.mp (fun hgoes => hwaits ((hcan w.now).mpr hgoes))
      refine .inr ⟨since + w.interval, by simp [due, hw, Heartbeat.due], Nat.lt_of_not_le hearly,
        fun t => ?_⟩
      rw [hcan, or_iff_right hopen]

theorem settle_cases (hw : w.heartbeat = some (.waiting since)) (hb : w.CanBeat w.now) :
    (w.connection.closed = true ∧ w.settle = { w with heartbeat := some (.ended .closed w.now) }) ∨
    (w.connection.closed = false ∧ since + w.interval ≤ w.now ∧
      ((¬Missed w.interval (w.now, w.connection.heartbeat) ∧
          w.settle = { w with heartbeat := some (.waiting w.now) }) ∨
        (Missed w.interval (w.now, w.connection.heartbeat) ∧
          w.settle = { w with
            heartbeat := some (.ended .timedOut w.now)
            connection := { w.connection with closed := true } }))) := by
  obtain ⟨_, hsame, hgoes⟩ := (canBeat_iff w.now).mp hb
  cases Option.some.inj (hw.symm.trans hsame)
  by_cases hclosed : w.connection.closed = true
  · left
    simp [settle, hw, Heartbeat.step, hclosed]
  · right
    have hopen : w.connection.closed = false := by simpa using hclosed
    have hdue := hgoes.resolve_left hclosed
    refine ⟨hopen, hdue, ?_⟩
    by_cases hm : Missed w.interval (w.now, w.connection.heartbeat)
    · right
      have hdead : w.connection.isAlive w.now w.interval = false := by
        rw [Connection.isAlive, hopen, Bool.not_false, Bool.true_and, decide_eq_false_iff_not]
        exact Nat.not_le.mpr hm
      simp [settle, hw, Heartbeat.step, hopen, Nat.not_lt.mpr hdue, hdead, hm, Connection.close]
    · left
      have halive : w.connection.isAlive w.now w.interval = true := by
        rw [Connection.isAlive, hopen, Bool.not_false, Bool.true_and, decide_eq_true_iff]
        exact Nat.not_lt.mp hm
      simp [settle, hw, Heartbeat.step, hopen, Nat.not_lt.mpr hdue, halive, hm]

end HeartbeatWatch

/-- Since its heartbeat started a watch waits for the next check, has missed a sign of life at its last
one, or has found the connection closed. -/
inductive WatchPhase (start interval : Nat) (checks : List (Nat × Nat)) (closing : Option Nat)
    (w : HeartbeatWatch) : Prop where
  | waiting (passed : ∀ c ∈ checks, ¬Missed interval c)
      (heartbeat : w.heartbeat = some (.waiting (start + checks.length * interval)))
      (closed : w.connection.closed = true ↔ closing ≠ none)
      (late : w.now ≤ start + (checks.length + 1) * interval)
      (closes : ∀ t, closing = some t → w.now = max start t)
  | timedOut (found : List (Nat × Nat)) (last : Nat × Nat) (split : checks = found ++ [last])
      (passed : ∀ c ∈ found, ¬Missed interval c) (missed : Missed interval last)
      (heartbeat : w.heartbeat = some (.ended .timedOut last.1))
      (closed : w.connection.closed = true)
  | closed (time : Nat) (passed : ∀ c ∈ checks, ¬Missed interval c) (closes : closing = some time)
      (heartbeat : w.heartbeat = some (.ended .closed (max start time)))

section Phase

variable {start interval : Nat} {checks : List (Nat × Nat)} {closing : Option Nat}
  {w : HeartbeatWatch}

theorem WatchPhase.keep (h : WatchPhase start interval checks closing w) {c : Connection}
    (hclosed : c.closed = w.connection.closed) :
    WatchPhase start interval checks closing { w with connection := c } := by
  cases h with
  | waiting passed heartbeat closed late closes =>
    exact .waiting passed heartbeat (hclosed ▸ closed) late closes
  | timedOut found last split passed missed heartbeat closed =>
    exact .timedOut found last split passed missed heartbeat (hclosed.trans closed)
  | closed time passed closes heartbeat => exact .closed time passed closes heartbeat

theorem WatchPhase.close (h : WatchPhase start interval checks closing w) (hstart : start ≤ w.now) :
    WatchPhase start interval checks (closing.or (some w.now))
      { w with connection := w.connection.close.1 } := by
  have hclosed : w.connection.close.1.closed = true := w.connection.close_closed
  cases h with
  | waiting passed heartbeat closed late closes =>
    have hmarked : closing.or (some w.now) ≠ none := by
      cases closing <;> simp
    refine .waiting passed heartbeat (iff_of_true hclosed hmarked) late fun t ht => ?_
    cases closing with
    | none =>
      cases Option.some.inj ht
      exact (Nat.max_eq_right hstart).symm
    | some t' => exact closes t ht
  | timedOut found last split passed missed heartbeat closed =>
    exact .timedOut found last split passed missed heartbeat hclosed
  | closed time passed closes heartbeat =>
    refine .closed time passed ?_ heartbeat
    rw [closes]
    rfl

theorem WatchPhase.beat (h : WatchPhase start w.interval checks closing w) (hb : w.CanBeat w.now) :
    (closing ≠ none ∧ WatchPhase start w.interval checks closing w.settle) ∨
    (closing = none ∧ w.now = start + (checks.length + 1) * w.interval ∧
      WatchPhase start w.interval (checks ++ [(w.now, w.connection.heartbeat)]) none w.settle) := by
  obtain ⟨since, hw, -⟩ := (HeartbeatWatch.canBeat_iff w.now).mp hb
  cases h with
  | timedOut found last split passed missed heartbeat closed => simp [heartbeat] at hw
  | closed time passed closes heartbeat => simp [heartbeat] at hw
  | waiting passed heartbeat closed late closes =>
    rcases HeartbeatWatch.settle_cases heartbeat hb with ⟨hclosed, hs⟩ | ⟨hopen, hdue, hfound⟩
    · obtain ⟨t, ht⟩ := Option.ne_none_iff_exists'.mp (closed.mp hclosed)
      have hends : w.settle.heartbeat = some (.ended .closed (max start t)) := by
        rw [hs, closes t ht]
      exact .inl ⟨closed.mp hclosed, .closed t passed ht hends⟩
    · have hundisturbed : closing = none := by
        by_contra hn
        rw [closed.mpr hn] at hopen
        simp at hopen
      have hnow : w.now = start + (checks.length + 1) * w.interval := by
        rw [Nat.add_one_mul] at late ⊢
        omega
      refine .inr ⟨hundisturbed, hnow, ?_⟩
      rcases hfound with ⟨hpassed, hs⟩ | ⟨hmissed, hs⟩
      · refine hs ▸ .waiting (fun c hc => ?_) ?_ (by simp [hopen]) ?_ (by simp)
        · rcases List.mem_append.mp hc with hin | hlast
          · exact passed c hin
          · exact List.mem_singleton.mp hlast ▸ hpassed
        · rw [List.length_append, List.length_singleton, ← hnow]
        · rw [List.length_append, List.length_singleton, Nat.add_one_mul, ← Nat.add_assoc, ← hnow]
          exact Nat.le_add_right ..
      · exact hs ▸ .timedOut checks _ rfl passed hmissed rfl rfl

/-- Time goes by until the heartbeat has a step to take, which it has at the next check at the latest. -/
theorem WatchPhase.pass (h : WatchPhase start w.interval checks closing w) {time : Nat}
    (hle : w.now ≤ time) (hwaits : ∀ t, w.now ≤ t → t < time → ¬w.CanBeat t) :
    WatchPhase start w.interval checks closing { w with now := time } := by
  cases h with
  | timedOut found last split passed missed heartbeat closed =>
    exact .timedOut found last split passed missed heartbeat closed
  | closed t passed closes heartbeat => exact .closed t passed closes heartbeat
  | waiting passed heartbeat closed late closes =>
    rcases Nat.eq_or_lt_of_le hle with rfl | hlt
    · exact .waiting passed heartbeat closed late closes
    · have hundisturbed : closing = none := by
        by_contra hn
        exact hwaits w.now le_rfl hlt
          ((HeartbeatWatch.canBeat_iff _).mpr ⟨_, heartbeat, .inl (closed.mpr hn)⟩)
      refine .waiting passed heartbeat closed ?_ (by simp [hundisturbed])
      by_contra hover
      have hbeat := hwaits (time - 1) (by omega) (by omega)
      refine hbeat ((HeartbeatWatch.canBeat_iff _).mpr ⟨_, heartbeat, .inr ?_⟩)
      have hlate := Nat.lt_of_not_le hover
      rw [Nat.add_one_mul] at hlate
      change start + _ + w.interval ≤ time - 1
      change start + (_ + w.interval) < time at hlate
      omega

end Phase

inductive WatchStage (created interval : Nat) (log : WatchLog) (w : HeartbeatWatch) : Prop where
  | unstarted (heartbeat : w.heartbeat = none) (start : ∀ t, (t, .start) ∉ log)
      (checks : log.checks created = [])
      (closed : w.connection.closed = true ↔ log.closing ≠ none)
  | started (start : Nat) (started : ∀ t, (t, .start) ∈ log ↔ t = start)
      (schedule : OnSchedule start interval (log.checks created))
      (phase : WatchPhase start interval (log.checks created) log.closing w)

/-- What every run keeps. -/
structure WatchKept (created interval : Nat) (log : WatchLog) (w : HeartbeatWatch) : Prop where
  spaced : w.interval = interval
  sign : w.connection.heartbeat = log.lastSign created
  ordered : (created :: log.map Prod.fst).Pairwise (· ≤ ·)
  past : ∀ t ∈ created :: log.map Prod.fst, t ≤ w.now
  stage : WatchStage created interval log w

variable {created interval : Nat} {log : WatchLog} {w : HeartbeatWatch}

theorem WatchStage.aside {w' : HeartbeatWatch} (h : WatchStage created interval log w) {e : WatchEvent}
    (hs : e ≠ .start) (hb : e ≠ .beat) (time : Nat) (hheartbeat : w'.heartbeat = w.heartbeat)
    (hclosed : (w.connection.closed = true ↔ log.closing ≠ none) →
      (w'.connection.closed = true ↔ WatchLog.closing (log ++ [(time, e)]) ≠ none))
    (hphase : ∀ start, (start, .start) ∈ log →
      WatchPhase start interval (log.checks created) log.closing w →
      WatchPhase start interval (log.checks created) (WatchLog.closing (log ++ [(time, e)])) w') :
    WatchStage created interval (log ++ [(time, e)]) w' := by
  have hstart := log.mem_start_snoc hs time
  have hchecks := WatchLog.checks_snoc created log hb time
  cases h with
  | unstarted heartbeat start checks closed =>
    exact .unstarted (hheartbeat.trans heartbeat) (fun t ht => start t ((hstart t).mp ht))
      (hchecks.trans checks) (hclosed closed)
  | started start started schedule phase =>
    have hnext := hphase start ((started start).mpr rfl) phase
    exact .started start (fun t => (hstart t).trans (started t)) (hchecks ▸ schedule) (hchecks ▸ hnext)

theorem WatchKept.later (h : WatchKept created interval log w) (e : WatchEvent) :
    (created :: (log ++ [(w.now, e)]).map Prod.fst).Pairwise (· ≤ ·) ∧
      ∀ t ∈ created :: (log ++ [(w.now, e)]).map Prod.fst, t ≤ w.now := by
  rw [List.map_append, ← List.cons_append]
  constructor
  · refine List.pairwise_append.mpr ⟨h.ordered, List.pairwise_singleton .., fun t ht t' ht' => ?_⟩
    exact List.mem_singleton.mp ht' ▸ h.past t ht
  · intro t ht
    rcases List.mem_append.mp ht with hin | hlast
    · exact h.past t hin
    · exact (List.mem_singleton.mp hlast).le

theorem WatchKept.event_past (h : WatchKept created interval log w) {t : Nat} {e : WatchEvent}
    (ht : (t, e) ∈ log) : t ≤ w.now :=
  h.past t (List.mem_cons_of_mem _ (List.mem_map_of_mem ht))

theorem WatchKept.pass (h : WatchKept created interval log w) {time : Nat} (hle : w.now ≤ time)
    (hwaits : ∀ t, w.now ≤ t → t < time → ¬w.CanBeat t) :
    WatchKept created interval log { w with now := time } := by
  obtain ⟨rfl, hsign, hordered, hpast, hstage⟩ := h
  refine ⟨rfl, hsign, hordered, fun t ht => (hpast t ht).trans hle, ?_⟩
  cases hstage with
  | unstarted heartbeat start checks closed => exact .unstarted heartbeat start checks closed
  | started start started schedule phase =>
    exact .started start started schedule (phase.pass hle hwaits)

theorem WatchKept.other (h : WatchKept created interval log w) {c : Connection}
    (hclosed : c.closed = w.connection.closed) (hheartbeat : c.heartbeat = w.connection.heartbeat) :
    WatchKept created interval log { w with connection := c } := by
  refine ⟨h.spaced, hheartbeat.trans h.sign, h.ordered, h.past, ?_⟩
  cases h.stage with
  | unstarted heartbeat start checks closed =>
    exact .unstarted heartbeat start checks (hclosed ▸ closed)
  | started start started schedule phase =>
    exact .started start started schedule (phase.keep hclosed)

theorem WatchKept.start (h : WatchKept created interval log w) (hi : 0 < interval)
    (hnone : w.heartbeat = none) : WatchKept created interval (log ++ [(w.now, .start)])
      (.create w.connection w.now w.interval) := by
  obtain ⟨hordered, hpast⟩ := h.later .start
  have hsign := WatchLog.lastSign_snoc created log w.now .start
  refine ⟨h.spaced, h.sign.trans hsign.symm, hordered, hpast, ?_⟩
  cases h.stage with
  | unstarted _ start checks closed =>
    have hempty := (WatchLog.checks_snoc created log (e := .start) (by simp) w.now).trans checks
    have hcloses := WatchLog.closing_snoc log (e := .start) (by simp) w.now
    refine .started w.now (fun t => by simp [start]) (by simp [hempty, OnSchedule]) ?_
    rw [hempty, hcloses]
    refine .waiting (by simp) ?_ closed (Nat.le_add_right ..) fun t ht => ?_
    · have hpos : w.interval ≠ 0 := h.spaced ▸ Nat.ne_of_gt hi
      simp [HeartbeatWatch.create, Heartbeat.start, hpos]
    · exact (Nat.max_eq_left (h.event_past (WatchLog.mem_of_closing log ht))).symm
  | started _ _ _ phase =>
    cases phase with
    | waiting _ heartbeat => simp [hnone] at heartbeat
    | timedOut _ _ _ _ _ heartbeat => simp [hnone] at heartbeat
    | closed _ _ _ heartbeat => simp [hnone] at heartbeat

theorem WatchKept.keepAlive (h : WatchKept created interval log w) :
    WatchKept created interval (log ++ [(w.now, .keepAlive)])
      { w with connection := w.connection.keepAlive w.now } := by
  obtain ⟨hordered, hpast⟩ := h.later .keepAlive
  have hsign := WatchLog.lastSign_snoc created log w.now .keepAlive
  have hcloses := WatchLog.closing_snoc log (e := .keepAlive) (by simp) w.now
  refine ⟨h.spaced, hsign.symm, hordered, hpast, ?_⟩
  refine h.stage.aside (by simp) (by simp) w.now rfl ?_ fun start _ phase => ?_
  · rw [hcloses]
    exact id
  · rw [hcloses]
    exact phase.keep rfl

theorem WatchKept.close (h : WatchKept created interval log w) :
    WatchKept created interval (log ++ [(w.now, .close)])
      { w with connection := w.connection.close.1 } := by
  obtain ⟨hordered, hpast⟩ := h.later .close
  have hsame : w.connection.close.1.heartbeat = w.connection.heartbeat := by
    rw [w.connection.close_cases]
  have hsign := WatchLog.lastSign_snoc created log w.now .close
  have hcloses : WatchLog.closing (log ++ [(w.now, .close)]) = log.closing.or (some w.now) :=
    WatchLog.closing_append log _
  refine ⟨h.spaced, (hsame.trans h.sign).trans hsign.symm, hordered, hpast, ?_⟩
  refine h.stage.aside (by simp) (by simp) w.now rfl (fun _ => ?_) fun start hstart phase => ?_
  · have hclosed : w.connection.close.1.closed = true := w.connection.close_closed
    refine iff_of_true hclosed ?_
    rw [hcloses]
    cases log.closing <;> simp
  · rw [hcloses]
    exact phase.close (h.event_past hstart)

theorem WatchKept.beat (h : WatchKept created interval log w) (hb : w.CanBeat w.now) :
    WatchKept created interval (log ++ [(w.now, .beat)]) w.settle := by
  obtain ⟨hordered, hpast⟩ := h.later .beat
  have hsign := WatchLog.lastSign_snoc created log w.now .beat
  have hstart := log.mem_start_snoc (e := .beat) (by simp) w.now
  have hcloses := WatchLog.closing_snoc log (e := .beat) (by simp) w.now
  obtain ⟨since, hw, -⟩ := (HeartbeatWatch.canBeat_iff w.now).mp hb
  have hkept : w.settle.now = w.now ∧ w.settle.interval = w.interval ∧
      w.settle.connection.heartbeat = w.connection.heartbeat := by
    rcases HeartbeatWatch.settle_cases hw hb with ⟨-, hs⟩ | ⟨-, -, ⟨-, hs⟩ | ⟨-, hs⟩⟩
    all_goals rw [hs]; exact ⟨rfl, rfl, rfl⟩
  obtain ⟨hnow, hspaced, hsame⟩ := hkept
  obtain ⟨rfl, hheard, -, -, hstage⟩ := h
  refine ⟨hspaced, (hsame.trans hheard).trans hsign.symm, hordered, hnow.symm ▸ hpast, ?_⟩
  cases hstage with
  | unstarted heartbeat => simp [heartbeat] at hw
  | started start started schedule phase =>
    rcases phase.beat hb with ⟨hclosing, hphase⟩ | ⟨hnone, hdue, hphase⟩
    · have hchecks := WatchLog.checks_append_closed created log [(w.now, .beat)] hclosing
      refine .started start (fun t => (hstart t).trans (started t)) (hchecks ▸ schedule) ?_
      rw [hchecks, hcloses]
      exact hphase
    · have hchecks := WatchLog.checks_beat created log hnone w.now
      rw [← hheard] at hchecks
      refine .started start (fun t => (hstart t).trans (started t)) ?_ ?_
      · exact hchecks ▸ schedule.snoc hdue
      · rw [hchecks, hcloses, hnone]
        exact hphase

theorem run_kept {id : ConnectionId} {limits : ConnectionLimits}
    (h : HeartbeatRun id limits created interval log w) (hi : 0 < interval) :
    WatchKept created interval log w := by
  induction h with
  | create =>
    refine ⟨rfl, rfl, by simp, by simp, .unstarted rfl (by simp) rfl ?_⟩
    simp [Connection.create, WatchLog.closing]
  | pass time _ hle hwaits ih => exact ih.pass hle hwaits
  | other c _ hclosed hheartbeat ih => exact ih.other hclosed hheartbeat
  | start _ hnone ih => exact ih.start hi hnone
  | keepAlive _ ih => exact ih.keepAlive
  | close _ ih => exact ih.close
  | beat _ hb ih => exact ih.beat hb

theorem WatchKept.phase (h : WatchKept created interval log w) {start : Nat}
    (hstart : (start, .start) ∈ log) : OnSchedule start interval (log.checks created) ∧
      WatchPhase start interval (log.checks created) log.closing w := by
  cases h.stage with
  | unstarted _ never _ _ => exact absurd hstart (never start)
  | started start' started schedule phase =>
    cases (started start).mp hstart
    exact ⟨schedule, phase⟩

section Advance

variable {id : ConnectionId} {limits : ConnectionLimits}

theorem settle_run (h : HeartbeatRun id limits created interval log w) (hi : 0 < interval) :
    ∃ beats : WatchLog, (∀ e ∈ beats, e.2 = .beat) ∧
      HeartbeatRun id limits created interval (log ++ beats) w.settle ∧ w.settle.now = w.now ∧
      ¬w.settle.CanBeat w.now := by
  by_cases hb : w.CanBeat w.now
  · refine ⟨[(w.now, .beat)], by simp, h.beat hb, ?_⟩
    have hpos : 0 < w.interval := (run_kept h hi).spaced ▸ hi
    obtain ⟨since, hw, -⟩ := (HeartbeatWatch.canBeat_iff w.now).mp hb
    rcases HeartbeatWatch.settle_cases hw hb with ⟨-, hs⟩ | ⟨hopen, -, ⟨-, hs⟩ | ⟨-, hs⟩⟩
    · exact ⟨by rw [hs], by simp [HeartbeatWatch.canBeat_iff, hs]⟩
    · refine ⟨by rw [hs], ?_⟩
      rw [HeartbeatWatch.canBeat_iff, hs]
      rintro ⟨_, hw', hclosed | hdue⟩
      · exact absurd hclosed (by simp [hopen])
      · cases hw'
        change w.now + w.interval ≤ w.now at hdue
        omega
    · exact ⟨by rw [hs], by simp [HeartbeatWatch.canBeat_iff, hs]⟩
  · have hs : w.settle = w := by
      have hnone := not_not.mp hb
      rw [HeartbeatWatch.settle, hnone]
    refine ⟨[], by simp, ?_⟩
    rw [List.append_nil, hs]
    exact ⟨h, rfl, hb⟩

theorem checkUntil_run (limit rounds : Nat) (h : HeartbeatRun id limits created interval log w)
    (hi : 0 < interval) (hwaits : ¬w.CanBeat w.now) (hle : w.now ≤ limit)
    (hrounds : limit - w.now < rounds) :
    ∃ beats : WatchLog, (∀ e ∈ beats, e.2 = .beat) ∧
      HeartbeatRun id limits created interval (log ++ beats) (w.checkUntil limit rounds) ∧
      (w.checkUntil limit rounds).now ≤ limit ∧
      ∀ t, t ≤ limit → ¬(w.checkUntil limit rounds).CanBeat t := by
  induction rounds generalizing log w with
  | zero => exact absurd hrounds (Nat.not_lt_zero _)
  | succ rounds ih =>
    have stays : w.checkUntil limit (rounds + 1) = w → (∀ t, t ≤ limit → ¬w.CanBeat t) →
        ∃ beats : WatchLog, (∀ e ∈ beats, e.2 = .beat) ∧
          HeartbeatRun id limits created interval (log ++ beats) (w.checkUntil limit (rounds + 1)) ∧
          (w.checkUntil limit (rounds + 1)).now ≤ limit ∧
          ∀ t, t ≤ limit → ¬(w.checkUntil limit (rounds + 1)).CanBeat t := by
      intro hsame hnever
      refine ⟨[], by simp, ?_⟩
      rw [List.append_nil, hsame]
      exact ⟨h, hle, hnever⟩
    rcases HeartbeatWatch.due_cases hwaits with ⟨hdue, hnever⟩ | ⟨time, hdue, hearly, hcan⟩
    · exact stays (by rw [HeartbeatWatch.checkUntil, hdue]) fun t _ => hnever t
    · by_cases hin : time ≤ limit
      · -- time goes on to the next check, which is made
        have hnext := h.pass time hearly.le fun t _ ht hb => absurd ((hcan t).mp hb) (Nat.not_le.mpr ht)
        obtain ⟨beats, hbeats, hrun, hnow, hsettled⟩ := settle_run hnext hi
        rw [← hnow] at hsettled
        have hfewer : limit - ({ w with now := time } : HeartbeatWatch).settle.now < rounds := by
          rw [hnow]
          change limit - time < rounds
          omega
        obtain ⟨more, hmore, hrun', hafter⟩ := ih hrun hsettled (hnow ▸ hin) hfewer
        refine ⟨beats ++ more, fun e he => ?_, ?_⟩
        · exact (List.mem_append.mp he).elim (hbeats e) (hmore e)
        · rw [← List.append_assoc, HeartbeatWatch.checkUntil, hdue]
          simp only [if_pos hin]
          exact ⟨hrun', hafter⟩
      · refine stays (by simp [HeartbeatWatch.checkUntil, hdue, hin]) fun t ht hb => ?_
        have hlate := (hcan t).mp hb
        omega

/-- Whatever has happened, time can go on by any duration, and nothing but checks happens then. -/
theorem advance_run (h : HeartbeatRun id limits created interval log w) (hi : 0 < interval)
    (duration : Nat) : ∃ beats : WatchLog, (∀ e ∈ beats, e.2 = .beat) ∧
      HeartbeatRun id limits created interval (log ++ beats) (w.advance duration) ∧
      (w.advance duration).now = w.now + duration := by
  obtain ⟨first, hfirst, hrun, hnow, hsettled⟩ := settle_run h hi
  rw [← hnow] at hsettled
  obtain ⟨checks, hchecks, hrun, hle, hdone⟩ := checkUntil_run (w.settle.now + duration)
    (duration + 1) hrun hi hsettled (Nat.le_add_right ..) (by omega)
  have hlater := hrun.pass (w.settle.now + duration) hle fun t _ ht => hdone t ht.le
  obtain ⟨last, hlast, hrun, hend, _⟩ := settle_run hlater hi
  refine ⟨first ++ checks ++ last, fun e he => ?_, ?_, ?_⟩
  · rcases List.mem_append.mp he with he | he
    · exact (List.mem_append.mp he).elim (hfirst e) (hchecks e)
    · exact hlast e he
  · rw [← List.append_assoc, ← List.append_assoc]
    exact hrun
  · exact hend.trans (congrArg (· + duration) hnow)

end Advance

theorem WatchPhase.timedOut_iff {start : Nat} {checks : List (Nat × Nat)} {closing : Option Nat}
    (h : WatchPhase start interval checks closing w) (time : Nat) :
    w.heartbeat = some (.ended .timedOut time) ↔ FirstMissed interval checks time := by
  cases h with
  | waiting passed heartbeat => exact iff_of_false (by simp [heartbeat]) (not_firstMissed passed time)
  | timedOut found last split passed missed heartbeat =>
    rw [split, firstMissed_snoc passed missed, heartbeat]
    simp
  | closed t passed closes heartbeat =>
    exact iff_of_false (by simp [heartbeat]) (not_firstMissed passed time)

theorem WatchKept.check_le (h : WatchKept created interval log w) {c : Nat × Nat}
    (hc : c ∈ log.checks created) (hpassed : ¬Missed interval c) :
    c.1 ≤ log.lastSign created + interval := by
  have hsign := WatchLog.sign_le_lastSign h.ordered hc
  have hage : c.1 - c.2 ≤ interval := Nat.not_lt.mp hpassed
  omega

/-- The check that closes a connection comes within two intervals of the last sign of life, if that was
given after the start. -/
theorem WatchKept.closing_window (h : WatchKept created interval log w) {start : Nat}
    (hstart : (start, .start) ∈ log) {early late : WatchLog} (hlog : log = early ++ late)
    (hsilent : ∀ e ∈ late, e.2 ≠ .keepAlive) (hearly : ∀ c ∈ early.checks created, ¬Missed interval c)
    (hle : start ≤ early.lastSign created) {time : Nat}
    (htime : w.heartbeat = some (.ended .timedOut time)) :
    early.lastSign created + interval < time ∧ time ≤ early.lastSign created + 2 * interval := by
  obtain ⟨hschedule, hphase⟩ := h.phase hstart
  obtain ⟨k, sign, hk, hmissed, hpassed⟩ := (hphase.timedOut_iff time).mp htime
  have hlast : log.lastSign created = early.lastSign created := by
    rw [hlog, WatchLog.lastSign_append, WatchLog.lastSign_silent hsilent]
  have hknown : sign = early.lastSign created := by
    have hin := List.mem_of_getElem? hk
    by_cases hopen : early.closing = none
    · rw [hlog, WatchLog.checks_append created early late hopen] at hin
      rcases List.mem_append.mp hin with hin | hin
      · exact absurd hmissed (hearly _ hin)
      · exact WatchLog.checks_silent hsilent hin
    · rw [hlog, WatchLog.checks_append_closed created early late hopen] at hin
      exact absurd hmissed (hearly _ hin)
  have hage : interval < time - early.lastSign created := hknown ▸ hmissed
  have hdue : time = start + (k + 1) * interval := hschedule k _ hk
  rw [Nat.add_one_mul] at hdue
  refine ⟨by omega, ?_⟩
  cases k with
  | zero => omega
  | succ j =>
    -- the check before this one was passed, and so was not long after the last sign
    have hlt : j < (log.checks created).length := by
      have := (List.getElem?_eq_some_iff.mp hk).1
      omega
    have hj := List.getElem?_eq_getElem hlt
    have hbefore := hschedule j _ hj
    have hnear := h.check_le (List.mem_of_getElem? hj) (hpassed j _ (Nat.lt_succ_self j) hj)
    omega

theorem WatchKept.closed_in_time (h : WatchKept created interval log w) {start : Nat}
    (hstart : (start, .start) ∈ log) (hclosing : log.closing = none)
    (hle : start ≤ log.lastSign created) (hlate : log.lastSign created + 2 * interval < w.now) :
    ∃ time, w.heartbeat = some (.ended .timedOut time) := by
  obtain ⟨hschedule, hphase⟩ := h.phase hstart
  cases hphase with
  | timedOut found last _ _ _ heartbeat _ => exact ⟨last.1, heartbeat⟩
  | closed t _ closes _ => simp [hclosing] at closes
  | waiting passed _ _ late _ =>
    exfalso
    cases hn : (log.checks created).length with
    | zero =>
      rw [hn] at late
      omega
    | succ j =>
      have hlt : j < (log.checks created).length := by omega
      have hj := List.getElem?_eq_getElem hlt
      have hlast := hschedule j _ hj
      have hin := List.mem_of_getElem? hj
      have hnear := h.check_le hin (passed _ hin)
      rw [hn, Nat.add_one_mul] at late
      omega

/-- A heartbeat checks at the multiples of its interval, and closes the connection, counting one timeout,
at the first check whose last sign of life is older than the interval. -/
theorem heartbeat_closes_at_first_missed_check {id : ConnectionId} {limits : ConnectionLimits}
    {created interval : Nat} {log : WatchLog} {w : HeartbeatWatch}
    (h : HeartbeatRun id limits created interval log w) (hi : 0 < interval) {start : Nat}
    (hstart : (start, .start) ∈ log) :
    let checks := log.checks created
    let counted := (w.heartbeat.map (·.timeouts)).getD 0
    (∀ k c, checks[k]? = some c → c.1 = start + (k + 1) * interval) ∧
    (∀ time, w.heartbeat = some (.ended .timedOut time) ↔
      FirstMissed interval checks time) ∧
    (∀ time, w.heartbeat = some (.ended .timedOut time) →
      w.connection.closed = true ∧ counted = 1) ∧
    ((∀ c ∈ checks, ¬Missed interval c) → counted = 0 ∧
      (log.closing = none → w.connection.closed = false ∧
        w.now ≤ start + (checks.length + 1) * interval) ∧
      ∀ time, log.closing = some time →
        w.heartbeat = some (.ended .closed (max start time)) ∨
          w.now = max start time ∧ w.settle.heartbeat = some (.ended .closed w.now)) ∧
    ((log.signs created ++ [w.now]).IsChain (fun a b => b - a ≤ interval) →
      ∀ time, w.heartbeat ≠ some (.ended .timedOut time)) ∧
    (∀ (early late : WatchLog) (silent : Nat), log = early ++ late →
      early.lastSign created = silent → start ≤ silent → (∀ e ∈ late, e.2 ≠ .keepAlive) →
      (∀ c ∈ early.checks created, ¬Missed interval c) →
        (∀ time : Nat, w.heartbeat = some (.ended .timedOut time) →
          silent + interval < time ∧ time ≤ silent + 2 * interval) ∧
        (log.closing = none → silent + 2 * interval < w.now →
          ∃ time, w.heartbeat = some (.ended .timedOut time))) ∧
    (∀ duration, ∃ later : WatchLog, (∀ e ∈ later, e.2 = .beat) ∧
      HeartbeatRun id limits created interval (log ++ later) (w.advance duration) ∧
      (w.advance duration).now = w.now + duration) ∧
    ∀ (settings : Settings) (identities : IdentitySource) (showsFigures : Bool)
      (events : List ServerTrace.ShutdownEvent),
      let srv := ((ServerTrace.start (.create settings identities showsFigures)).undergoAll events).server
      srv.figures.timeouts = srv.sessions.countP Session.timedOut := by
  intro checks counted
  have hkept := run_kept h hi
  obtain ⟨hschedule, hphase⟩ := hkept.phase hstart
  have htimedOut := hphase.timedOut_iff
  refine ⟨hschedule, htimedOut, fun time hw => ?_, fun hpassed => ?_, fun hsteady time hw => ?_,
    fun early late silent hlog hlast hle hsilent hearly => ?_, advance_run h hi,
    fun settings identities showsFigures events => ?_⟩
  · cases hphase with
    | waiting _ heartbeat => simp [heartbeat] at hw
    | timedOut _ _ _ _ _ _ closed => exact ⟨closed, by simp [counted, hw, Heartbeat.timeouts]⟩
    | closed _ _ _ heartbeat => simp [heartbeat] at hw
  · cases hphase with
    | waiting _ heartbeat closed late closes =>
      refine ⟨by simp [counted, heartbeat, Heartbeat.timeouts], fun hnone => ⟨?_, late⟩,
        fun t ht => .inr ⟨closes t ht, ?_⟩⟩
      · simpa [hnone] using closed
      · have hclosed := closed.mpr (by simp [ht])
        simp [HeartbeatWatch.settle, heartbeat, Heartbeat.step, hclosed]
    | timedOut found last split _ missed =>
      refine absurd missed (hpassed last ?_)
      change last ∈ log.checks created
      simp [split]
    | closed t _ closes heartbeat =>
      refine ⟨by simp [counted, heartbeat, Heartbeat.timeouts], fun hnone => ?_, fun t' ht' => ?_⟩
      · simp [hnone] at closes
      · cases Option.some.inj (closes.symm.trans ht')
        exact .inl heartbeat
  · obtain ⟨k, sign, hk, hmissed, _⟩ := (htimedOut time).mp hw
    have hpast : ∀ t ∈ log.map Prod.fst, t ≤ w.now :=
      fun t ht => hkept.past t (List.mem_cons_of_mem _ ht)
    exact WatchLog.checks_steady hkept.ordered hpast hsteady (List.mem_of_getElem? hk) hmissed
  · subst hlast
    have hsame : log.lastSign created = early.lastSign created := by
      rw [hlog, WatchLog.lastSign_append, WatchLog.lastSign_silent hsilent]
    refine ⟨fun time hw => hkept.closing_window hstart hlog hsilent hearly hle hw, fun hclosing => ?_⟩
    rw [← hsame] at hle ⊢
    exact hkept.closed_in_time hstart hclosing hle
  · have hfresh : (Server.create settings identities showsFigures).TimeoutsTold :=
      ⟨rfl, fun s hs => absurd hs List.not_mem_nil⟩
    exact (ServerTrace.undergoAll_told (t := .start _) hfresh events).counted

/-- A connection that is silent from its creation is alive at the first check, when its age is the
interval, and is closed at the second. -/
theorem silent_connection_closed_at_second_check :
    let w := (HeartbeatWatch.create (.create ⟨7⟩ ⟨1, 4, 2⟩ 0) 0 60).advance 150
    ∃ log : WatchLog, HeartbeatRun ⟨7⟩ ⟨1, 4, 2⟩ 0 60 log w ∧ 0 < 60 ∧ (0, .start) ∈ log ∧
      FirstMissed 60 (log.checks 0) 120 ∧ w.connection.closed = true ∧
      (w.heartbeat.map (·.timeouts)).getD 0 = 1 := by
  intro w
  have hstarted : HeartbeatRun ⟨7⟩ ⟨1, 4, 2⟩ 0 60 [(0, .start)]
      (.create (.create ⟨7⟩ ⟨1, 4, 2⟩ 0) 0 60) := .start .create rfl
  obtain ⟨later, _, hrun, _⟩ := advance_run hstarted (by decide) 150
  have hends : w.heartbeat = some (.ended .timedOut 120) := by decide +kernel
  have hin : (0, .start) ∈ [(0, WatchEvent.start)] ++ later := by simp
  obtain ⟨_, hfirst, hclosed, _⟩ := heartbeat_closes_at_first_missed_check hrun (by decide) hin
  exact ⟨_, hrun, by decide, hin, (hfirst 120).mp hends, hclosed 120 hends⟩

end RoomCast
