import RoomCast.Proofs.ServerSettling

namespace RoomCast

def ReaderState.toil : ReaderState → Nat
  | .reading => 1
  | .holding _ => 5
  | .ended => 0

def WriterState.toil : WriterState → Nat
  | .idle => 2
  | .writing _ _ => 3
  | .closing _ => 1
  | .ended => 0

def HandlerState.toil : HandlerState → Nat
  | .starting => 3
  | .running => 1
  | .ended => 0

theorem ReaderState.toil_le (r : ReaderState) : r.toil ≤ 5 := by
  cases r <;> simp [toil]

theorem WriterState.toil_le (w : WriterState) : w.toil ≤ 3 := by
  cases w <;> simp [toil]

theorem HandlerState.toil_le (h : HandlerState) : h.toil ≤ 3 := by
  cases h <;> simp [toil]

def Heartbeat.toil (now interval : Nat) : Heartbeat → Nat
  | .waiting since => if now < since + interval then 1 else 2
  | .ended _ _ => 0

theorem Heartbeat.toil_waiting_pos (now interval since : Nat) :
    0 < (Heartbeat.waiting since).toil now interval := by
  simp only [toil]
  split <;> omega

theorem Heartbeat.toil_le (now interval : Nat) (h : Heartbeat) : h.toil now interval ≤ 2 := by
  unfold toil
  split
  next => split <;> omega
  next => omega

theorem Heartbeat.step_toil {h h' : Heartbeat} {c c' : Connection} {now interval : Nat}
    (hi : 0 < interval) (hs : h.step c now interval = some (h', c')) :
    h'.toil now interval < h.toil now interval := by
  unfold step at hs
  split at hs
  next => simp at hs
  next since =>
    have hpos := toil_waiting_pos now interval since
    split at hs
    next =>
      cases Option.some.inj hs
      exact hpos
    next =>
      split at hs
      next => simp at hs
      next hdue =>
        split at hs
        next =>
          -- the timer is set anew, and is not due before the interval has passed
          cases Option.some.inj hs
          simp only [toil, if_neg hdue, if_pos (show now < now + interval by omega)]
          omega
        next =>
          cases Option.some.inj hs
          exact hpos

theorem ReaderState.toil_held (r : ReaderState) (h : r ≠ .ended) :
    r.toil = 1 + 4 * r.held.length ∧ r.held.length ≤ 1 := by
  cases r with
  | reading => exact ⟨rfl, Nat.zero_le 1⟩
  | holding e => exact ⟨rfl, Nat.le_refl 1⟩
  | ended => exact absurd rfl h

namespace Session

/-- A bound on the steps that the tasks of a session have left while time stands still: a message is
read, handled and answered, and the answer is written. -/
def toil (s : Session) (c : Connection) (now interval : Nat) : Nat :=
  5 * s.incoming.length + 3 * s.inbound.length + 2 * c.outbound.length + s.reader.toil +
    s.writer.toil + s.handler.toil + (s.heartbeat.map (·.toil now interval)).getD 0

section Tasks

variable {s s' : Session} {c c' : Connection} {now interval limit : Nat}

theorem readerStep_reads (h : s.readerStep c = some (s', c')) : s.reader ≠ .ended := by
  intro hr
  simp [readerStep, hr] at h

theorem readerStep_frees {e : Envelope} (hr : s.reader = .holding e)
    (h : s.readerStep c = some (s', c')) : s'.reader.held = [] := by
  simp only [readerStep, hr] at h
  split at h
  next => cases Option.some.inj h; rfl
  next =>
    split at h
    next hroom =>
      cases Option.some.inj h
      simp [handOver, hroom, ReaderState.held]
    next => simp at h

theorem readerStep_toil (h : s.readerStep c = some (s', c')) :
    s'.toil c' now interval < s.toil c now interval := by
  have hreads := s.reader.toil_held (readerStep_reads h)
  rcases readerStep_cases h with ⟨rfl, rfl⟩ | ⟨message, rest, shown, _, hi, _, _, _, rfl, rfl⟩ |
    ⟨e, inbound, reader, incoming, _, hwaits, hreader, rfl, rfl, hfrom⟩
  · have hended : ReaderState.ended.toil = 0 := rfl
    simp only [toil, c.close_outbound, hended, List.length_nil]
    omega
  · simp only [toil, hi, List.length_cons]
    omega
  · have hlength := congrArg List.length hwaits
    have hheld := reader.toil_held hreader
    simp only [List.length_append, List.length_singleton] at hlength
    rcases hfrom with ⟨hr, rfl⟩ | ⟨message, _, hi, _, _⟩
    · have hfree : reader.held = [] := readerStep_frees hr h
      have hheavy : s.reader.toil = 5 := by rw [hr]; rfl
      rw [hfree, List.length_nil] at hlength hheld
      simp only [toil]
      omega
    · simp only [toil, hi, List.length_cons]
      omega

theorem writerStep_begins {since : Nat} (h : s.writerStep c now limit = some (s', c'))
    (hc : s'.writer = .closing since) : 1 < s.writer.toil := by
  unfold writerStep at h
  split at h
  next => simp at h
  next hw => rw [hw]; decide
  next hw => rw [hw]; exact Nat.lt_of_sub_eq_succ rfl
  next =>
    -- a wire that is being closed is next found closed
    split at h
    next => cases Option.some.inj h; cases hc
    next => cases Option.some.inj h; cases hc
    next =>
      split at h
      next => cases Option.some.inj h; cases hc
      next => simp at h

theorem writerStep_toil (h : s.writerStep c now limit = some (s', c')) :
    s'.toil c' now interval < s.toil c now interval := by
  rcases writerStep_cases h with ⟨rfl, rfl⟩ | ⟨frame, rest, hw, hq, rfl, rfl⟩ |
    ⟨frame, since, hw, rfl, rfl⟩ | ⟨since, shown, hw, rfl, rfl⟩
  · have hbegins := writerStep_begins h rfl
    have hclosing : (WriterState.closing now).toil = 1 := rfl
    simp only [toil, c.close_outbound, hclosing]
    omega
  · have hless : (WriterState.writing frame now).toil < WriterState.idle.toil + 2 := Nat.lt_succ_self 3
    simp only [toil, hw, hq, List.length_cons]
    omega
  · have hless : WriterState.idle.toil < (WriterState.writing frame since).toil := Nat.lt_succ_self 2
    simp only [toil, hw]
    omega
  · have hless : WriterState.ended.toil < (WriterState.closing since).toil := Nat.zero_lt_one
    simp only [toil, hw, Connection.dropQueue, List.length_nil]
    omega

theorem heartbeatStep_toil (hi : 0 < interval)
    (h : s.heartbeatStep c now interval = some (s', c')) :
    s'.toil c' now interval < s.toil c now interval := by
  have hqueue : c'.outbound = c.outbound := by
    rcases (heartbeatStep_cases h).2 with rfl | rfl
    · rfl
    · exact c.close_outbound
  unfold heartbeatStep at h
  split at h
  next => simp at h
  next heartbeat c₁ hs =>
    cases Option.some.inj h
    obtain ⟨old, hold, hstep⟩ := Option.bind_eq_some_iff.mp hs
    have hless := old.step_toil hi hstep
    simp only [toil, hqueue, hold, Option.map_some, Option.getD_some]
    omega

end Tasks

end Session

theorem Heartbeat.start_toil (now interval : Nat) :
    ((Heartbeat.start now interval).map (·.toil now interval)).getD 0 ≤ 1 := by
  unfold start
  split
  next => exact Nat.zero_le 1
  next =>
    simp only [Option.map_some, Option.getD_some, toil]
    rw [if_pos (by omega)]

namespace Server

/-- Heartbeats are started only when there is an interval between their checks. -/
def Beating (srv : Server) : Prop :=
  ∀ s ∈ srv.sessions, s.heartbeat ≠ none → 0 < srv.settings.socket.heartbeatIntervalMs

def toil (srv : Server) : Nat :=
  total ((srv.sessions.zip srv.registry.roster).map fun pair =>
    pair.1.toil pair.2 srv.now srv.settings.socket.heartbeatIntervalMs)

section Move

variable {srv srv' : Server} {i : Nat} {s s' : Session} {c c' : Connection}

theorem TaskMove.now (h : srv.TaskMove i s c srv' s' c') : srv'.now = srv.now := by
  cases h <;> rfl

theorem TaskMove.toil_lt (h : srv.TaskMove i s c srv' s' c')
    (hbeat : s.heartbeat ≠ none → 0 < srv.settings.socket.heartbeatIntervalMs) :
    s'.toil c' srv.now srv.settings.socket.heartbeatIntervalMs <
      s.toil c srv.now srv.settings.socket.heartbeatIntervalMs := by
  cases h with
  | task moved =>
    rcases moved with hr | hw | hb
    · exact Session.readerStep_toil hr
    · exact Session.writerStep_toil hw
    · refine Session.heartbeatStep_toil (hbeat fun hn => ?_) hb
      simp [Session.heartbeatStep, hn] at hb
  | start fresh =>
    have hstart := Heartbeat.start_toil srv.now srv.settings.socket.heartbeatIntervalMs
    simp only [Session.toil, fresh, HandlerState.toil]
    omega
  | finish runs leaves =>
    have hqueue : (c.close.1.takeRooms).2.outbound = c.outbound := c.close_outbound
    simp only [Session.toil, hqueue, runs, HandlerState.toil, List.length_nil]
    omega
  | handle runs goes waits seat answered =>
    have hqueue : c'.outbound.length ≤ c.outbound.length + 1 := by
      rcases answered.outbound with ho | ho <;> simp [ho]
    simp only [Session.toil, waits, List.length_cons]
    omega

theorem TaskMove.beating (h : srv.TaskMove i s c srv' s' c')
    (hbeat : s.heartbeat ≠ none → 0 < srv.settings.socket.heartbeatIntervalMs)
    (hn : s'.heartbeat ≠ none) : 0 < srv.settings.socket.heartbeatIntervalMs := by
  cases h with
  | task moved =>
    refine hbeat fun hnone => ?_
    rcases moved with hr | hw | hb
    · rcases Session.readerStep_cases hr with ⟨rfl, _⟩ | ⟨_, _, _, _, _, _, _, _, rfl, _⟩ |
        ⟨_, _, _, _, _, _, _, rfl, _⟩ <;> exact hn hnone
    · rcases Session.writerStep_cases hw with ⟨rfl, _⟩ | ⟨_, _, _, _, rfl, _⟩ | ⟨_, _, _, rfl, _⟩ |
        ⟨_, _, _, rfl, _⟩ <;> exact hn hnone
    · simp [Session.heartbeatStep, hnone] at hb
  | start fresh =>
    by_contra hzero
    exact hn (by simp [Heartbeat.start, Nat.eq_zero_of_not_pos hzero])
  | finish runs leaves => exact hbeat hn
  | handle runs goes waits seat answered => exact hbeat hn

theorem SessionStep.mem_sessions (h : srv.SessionStep srv' i s s' c c') {t : Session}
    (ht : t ∈ srv'.sessions) : t ∈ srv.sessions ∨ t = s' := by
  rw [h.sessions] at ht
  exact List.mem_or_eq_of_mem_set ht

theorem SessionStep.toil_eq (h : srv.SessionStep srv' i s s' c c') (hnow : srv'.now = srv.now) :
    srv'.toil + s.toil c srv.now srv.settings.socket.heartbeatIntervalMs =
      srv.toil + s'.toil c' srv.now srv.settings.socket.heartbeatIntervalMs := by
  have hpair : (srv.sessions.zip srv.registry.roster)[i]? = some (s, c) :=
    List.getElem?_zip_eq_some.mpr ⟨h.session, h.connection⟩
  rw [toil, toil, h.sessions, h.roster_set, hnow, h.rest.1,
    zip_set_of_some h.session h.connection]
  exact total_map_set (fun pair : Session × Connection =>
    pair.1.toil pair.2 srv.now srv.settings.socket.heartbeatIntervalMs) hpair (s', c')

end Move

variable {srv srv' : Server}

/-- Every step of a task leaves less to do. -/
theorem Tasked.toil_lt {i : Nat} (hs : srv.Housed) (hb : srv.Beating) (h : srv.Tasked srv' i) :
    srv'.toil < srv.toil ∧ srv'.Housed ∧ srv'.Beating := by
  obtain ⟨s, s', c, c', hsc, hmove⟩ := h
  have hstep := hmove.sessionStep hs hsc
  have hbeat := hb s (List.mem_of_getElem? hstep.session)
  have hless := hmove.toil_lt hbeat
  have hrest := hstep.toil_eq hmove.now
  refine ⟨by omega, hstep.housed hs, fun t ht hn => ?_⟩
  rw [hstep.rest.1]
  rcases hstep.mem_sessions ht with ht | rfl
  · exact hb t ht hn
  · exact hmove.beating hbeat hn

theorem sessionStep?_tasked {i : Nat} (hs : srv.Housed) (h : srv.sessionStep? i = some srv') :
    srv.Tasked srv' i := by
  rcases sessionStep?_cases h with h | h | h | h
  · exact writerStep_tasked h
  · exact heartbeatStep_tasked h
  · exact readerStep_tasked h
  · exact handlerStep_tasked hs h

theorem sessionsStep?_tasked (hs : srv.Housed) (h : srv.sessionsStep? = some srv') :
    ∃ i, srv.Tasked srv' i := by
  obtain ⟨i, _, hi⟩ := List.exists_of_findSome?_eq_some h
  exact ⟨i, sessionStep?_tasked hs hi⟩

theorem runSessions_settles (n : Nat) (hs : srv.Housed) (hb : srv.Beating) (hn : srv.toil ≤ n) :
    (runSessions n srv).sessionsStep? = none := by
  induction n generalizing srv with
  | zero =>
    cases h : srv.sessionsStep? with
    | none => exact h
    | some srv' =>
      obtain ⟨i, hi⟩ := sessionsStep?_tasked hs h
      exact absurd (hi.toil_lt hs hb).1 (by omega)
  | succ n ih =>
    unfold runSessions
    cases h : srv.sessionsStep? with
    | none => exact h
    | some srv' =>
      obtain ⟨i, hi⟩ := sessionsStep?_tasked hs h
      obtain ⟨hless, hs', hb'⟩ := hi.toil_lt hs hb
      exact ih hs' hb' (by omega)

theorem toil_le_sessionWork (hs : srv.Housed) : srv.toil ≤ total (srv.sessions.map srv.sessionWork) := by
  have hfirst : (srv.sessions.zip srv.registry.roster).map Prod.fst = srv.sessions :=
    List.map_fst_zip (Nat.le_of_eq hs.seats)
  have hwork : total (srv.sessions.map srv.sessionWork) =
      total ((srv.sessions.zip srv.registry.roster).map fun pair => srv.sessionWork pair.1) := by
    rw [← hfirst, List.map_map]
    simp only [hfirst]
    rfl
  rw [hwork]
  refine total_map_le fun pair hpair => ?_
  obtain ⟨i, hi⟩ := List.mem_iff_getElem?.mp hpair
  obtain ⟨hsession, hconnection⟩ := List.getElem?_zip_eq_some.mp hi
  have hseat := (hs.seated i _ _ hsession hconnection).1
  have hqueued : srv.registry.connection? pair.1.seat = some pair.2 := by
    rw [Registry.connection?, hseat, hconnection]
  have hreader := pair.1.reader.toil_le
  have hwriter := pair.1.writer.toil_le
  have hhandler := pair.1.handler.toil_le
  simp only [sessionWork, hqueued, Session.toil]
  cases pair.1.heartbeat with
  | none =>
    simp only [Option.map_none, Option.getD_none]
    omega
  | some heartbeat =>
    have hbeat := heartbeat.toil_le srv.now srv.settings.socket.heartbeatIntervalMs
    simp only [Option.map_some, Option.getD_some]
    omega

/-- When sessions have settled, no task of any can take a step. -/
theorem settleSessions_settles (hs : srv.Housed) (hb : srv.Beating) :
    srv.settleSessions.sessionsStep? = none :=
  runSessions_settles _ hs hb (toil_le_sessionWork hs)

end Server

end RoomCast
