import RoomCast.Proofs.Shutdown

namespace RoomCast

def Session.timedOut (s : Session) : Bool :=
  match s.heartbeat with
  | some (.ended .timedOut _) => true
  | _ => false

theorem Session.timedOut_congr {s s' : Session} (h : s'.heartbeat = s.heartbeat) :
    s'.timedOut = s.timedOut := by
  rw [timedOut, timedOut, h]

theorem Heartbeat.step_waiting {h h' : Heartbeat} {c c' : Connection} {now interval : Nat}
    (hstep : h.step c now interval = some (h', c')) : ∃ since, h = .waiting since := by
  cases h with
  | waiting since => exact ⟨since, rfl⟩
  | ended how time => simp [step] at hstep

/-- One step of a heartbeat counts one timeout if it closes the connection, and otherwise none. -/
theorem Session.heartbeatStep_timeouts {s s' : Session} {c c' : Connection} {now interval : Nat}
    (h : s.heartbeatStep c now interval = some (s', c')) :
    s.timedOut = false ∧ (s'.heartbeat.map (·.timeouts)).getD 0 = if s'.timedOut then 1 else 0 := by
  unfold heartbeatStep at h
  split at h
  next => simp at h
  next heartbeat d hs =>
    cases Option.some.inj h
    obtain ⟨old, hold, hstep⟩ := Option.bind_eq_some_iff.mp hs
    obtain ⟨since, rfl⟩ := Heartbeat.step_waiting hstep
    refine ⟨by simp [timedOut, hold], ?_⟩
    match heartbeat with
    | .waiting _ => rfl
    | .ended .timedOut _ => rfl
    | .ended .closed _ => rfl

namespace Server

/-- As many timeouts are counted as sessions have timed out; those whose handler has not started have no
heartbeat yet. -/
structure TimeoutsTold (srv : Server) : Prop where
  counted : srv.figures.timeouts = srv.sessions.countP Session.timedOut
  unstarted : ∀ s ∈ srv.sessions, s.handler = .starting → s.heartbeat = none

variable {srv srv' : Server} {i : Nat} {s s' : Session} {c : Connection}

theorem session?_session (h : srv.session? i = some (s, c)) : srv.sessions[i]? = some s := by
  unfold session? at h
  split at h
  next => simp at h
  next t ht =>
    obtain ⟨_, _, he⟩ := Option.map_eq_some_iff.mp h
    rw [ht, (Prod.mk.inj he).1]

theorem TimeoutsTold.set (h : srv.TimeoutsTold) (hi : srv.sessions[i]? = some s)
    (hsessions : srv'.sessions = srv.sessions.set i s')
    (hcounted : srv'.figures.timeouts + (if s.timedOut then 1 else 0) =
      srv.figures.timeouts + if s'.timedOut then 1 else 0)
    (hunstarted : s'.handler = .starting → s'.heartbeat = none) : srv'.TimeoutsTold := by
  obtain ⟨hlt, hget⟩ := List.getElem?_eq_some_iff.mp hi
  refine ⟨?_, fun t ht => ?_⟩
  · have hold := h.counted
    have hpos : s.timedOut = true → 0 < srv.sessions.countP Session.timedOut :=
      fun hs => List.countP_pos_iff.mpr ⟨s, List.mem_of_getElem? hi, hs⟩
    rw [hsessions, List.countP_set hlt, hget]
    by_cases hs : s.timedOut = true
    · have := hpos hs
      rw [if_pos hs] at hcounted ⊢
      omega
    · rw [if_neg hs] at hcounted ⊢
      omega
  · rw [hsessions] at ht
    rcases List.mem_or_eq_of_mem_set ht with hin | rfl
    · exact h.unstarted t hin
    · exact hunstarted

theorem TimeoutsTold.keep (h : srv.TimeoutsTold) (hi : srv.sessions[i]? = some s)
    (hsessions : srv'.sessions = srv.sessions.set i s')
    (hsame : s'.heartbeat = s.heartbeat ∧ (s'.handler = .starting → s.handler = .starting))
    (hfigures : srv'.figures.timeouts = srv.figures.timeouts) : srv'.TimeoutsTold := by
  refine h.set hi hsessions ?_ fun hs => ?_
  · rw [Session.timedOut_congr hsame.1, hfigures]
  · rw [hsame.1]
    exact h.unstarted s (List.mem_of_getElem? hi) (hsame.2 hs)

theorem TimeoutsTold.congr (h : srv.TimeoutsTold) (hsessions : srv'.sessions = srv.sessions)
    (hfigures : srv'.figures = srv.figures) : srv'.TimeoutsTold :=
  ⟨by rw [hfigures, hsessions]; exact h.counted, by rw [hsessions]; exact h.unstarted⟩

theorem TimeoutsTold.updateSession (h : srv.TimeoutsTold) (i : Nat) {f : Session → Session}
    (hf : ∀ s : Session, s.Told (f s)) : (srv.updateSession i f).TimeoutsTold := by
  cases hi : srv.sessions[i]? with
  | none =>
    rw [Server.updateSession, List.modify_eq_self (List.getElem?_eq_none_iff.mp hi)]
    exact h
  | some s =>
    obtain ⟨_, hhandler, hheartbeat⟩ := (hf s).tasks
    exact h.keep hi (modify_of_some hi f) ⟨hheartbeat, fun hs => hhandler ▸ hs⟩ rfl

theorem TimeoutsTold.readerStep (h : srv.TimeoutsTold) (hstep : srv.readerStep i = some srv') :
    srv'.TimeoutsTold := by
  obtain ⟨s, c, s', c', hsc, hread, rfl⟩ := readerStep_some hstep
  have hi := session?_session hsc
  rcases Session.readerStep_cases hread with
    ⟨rfl, _⟩ | ⟨_, _, _, _, _, _, _, _, rfl, _⟩ | ⟨_, _, _, _, _, _, _, rfl, _, _⟩
  all_goals exact h.keep hi rfl ⟨rfl, fun hs => hs⟩ rfl

theorem TimeoutsTold.writerStep (h : srv.TimeoutsTold) (hstep : srv.writerStep i = some srv') :
    srv'.TimeoutsTold := by
  obtain ⟨s, c, s', c', hsc, hwrite, rfl⟩ := writerStep_some hstep
  have hi := session?_session hsc
  rcases Session.writerStep_cases hwrite with
    ⟨rfl, _⟩ | ⟨_, _, _, _, rfl, _⟩ | ⟨_, _, _, rfl, _⟩ | ⟨_, _, _, rfl, _⟩
  all_goals exact h.keep hi rfl ⟨rfl, fun hs => hs⟩ rfl

theorem TimeoutsTold.heartbeatStep (h : srv.TimeoutsTold) (hstep : srv.heartbeatStep i = some srv') :
    srv'.TimeoutsTold := by
  obtain ⟨s, c, s', c', hsc, hbeat, rfl⟩ := heartbeatStep_some hstep
  have hi := session?_session hsc
  obtain ⟨hbefore, hadded⟩ := Session.heartbeatStep_timeouts hbeat
  refine h.set hi rfl ?_ fun hs => ?_
  · simp only [hbefore, hadded]
    rfl
  · -- a heartbeat that takes a step has been started, and so has its handler
    obtain ⟨⟨heartbeat, rfl⟩, _⟩ := Session.heartbeatStep_cases hbeat
    have hnone := h.unstarted s (List.mem_of_getElem? hi) hs
    simp [Session.heartbeatStep, hnone] at hbeat

theorem TimeoutsTold.handlerStep (h : srv.TimeoutsTold) (hstep : srv.handlerStep i = some srv') :
    srv'.TimeoutsTold := by
  obtain ⟨s, c, hsc, hcases⟩ := handlerStep_some hstep
  have hi := session?_session hsc
  rcases hcases with ⟨hstarts, rfl⟩ | ⟨_, _, rfl⟩ | ⟨_, _, e, rest, _, rfl⟩
  · have hnone := h.unstarted s (List.mem_of_getElem? hi) hstarts
    have hbefore : s.timedOut = false := by simp [Session.timedOut, hnone]
    have hafter : Session.timedOut { s with
        handler := .running
        heartbeat := Heartbeat.start srv.now srv.settings.socket.heartbeatIntervalMs } = false := by
      by_cases hi : srv.settings.socket.heartbeatIntervalMs = 0 <;>
        simp [Session.timedOut, Heartbeat.start, hi]
    refine h.set hi rfl ?_ fun hs => absurd hs (by simp)
    rw [hbefore, hafter]
    rfl
  · refine h.keep hi rfl ⟨rfl, fun hs => absurd hs (by simp)⟩ ?_
    simp only [endHandler]
    split <;> rfl
  · exact h.keep hi rfl ⟨rfl, fun hs => hs⟩ rfl

theorem TimeoutsTold.openSession (h : srv.TimeoutsTold) (id : ConnectionId) (answersPings : Bool)
    (wire : WireMode) : (srv.openSession id answersPings wire).1.TimeoutsTold := by
  have hopened : ∃ s, (srv.openSession id answersPings wire).1.sessions = srv.sessions ++ [s] ∧
      s.heartbeat = none := by
    refine ⟨_, rfl, ?_⟩
    split <;> rfl
  obtain ⟨s, hsessions, hnone⟩ := hopened
  refine ⟨?_, fun t ht ho => ?_⟩
  · rw [hsessions, List.countP_append, List.countP_singleton]
    have hnew : s.timedOut = false := by simp [Session.timedOut, hnone]
    simp only [hnew, Bool.false_eq_true, ↓reduceIte, Nat.add_zero]
    exact h.counted
  · rw [hsessions] at ht
    rcases List.mem_append.mp ht with hin | hnew
    · exact h.unstarted t hin ho
    · rw [List.mem_singleton.mp hnew, hnone]

end Server

namespace ServerTrace

variable {t : ServerTrace}

theorem move_told (h : t.server.TimeoutsTold) {next : Option Server}
    (hnext : ∀ srv, next = some srv → srv.TimeoutsTold) : (t.move next).server.TimeoutsTold := by
  cases next with
  | none => exact h
  | some srv => exact hnext srv rfl

theorem moveMerge_told (h : t.server.TimeoutsTold) (next : Option MergeMove) :
    (t.moveMerge next).server.TimeoutsTold := by
  match next with
  | none => exact h
  | some (m, none) => exact h.congr rfl rfl
  | some (m, some commit) => exact h.congr rfl rfl

theorem step_told (h : t.server.TimeoutsTold) (e : ServerEvent) :
    (t.step e).server.TimeoutsTold := by
  cases e with
  | publishAll form => cases hp : Publish.toAll? form <;> simpa [step, accept, hp] using h
  | publishRoom form => cases hp : Publish.toRoom? form <;> simpa [step, accept, hp] using h
  | forward =>
    simp only [step, forward]
    split
    next => exact h
    next => exact h.congr rfl rfl
  | takeItem lane => exact moveMerge_told h _
  | fire timer => exact moveMerge_told h _
  | takeExpiry lane => exact moveMerge_told h _
  | pipeline m =>
    refine move_told h fun srv hm => ?_
    obtain ⟨r, _, rfl⟩ := Option.map_eq_some_iff.mp hm
    exact h.congr rfl rfl
  | clock time => exact h.congr rfl rfl
  | connect id answersPings wire => exact h.openSession id answersPings wire
  | arrive i message => exact h.updateSession i fun s => ⟨⟨rfl, rfl⟩, ⟨rfl, rfl, rfl⟩, rfl⟩
  | finish i => exact h.updateSession i fun s => ⟨⟨rfl, rfl⟩, ⟨rfl, rfl, rfl⟩, rfl⟩
  | rewire i wire => exact h.updateSession i fun s => ⟨⟨rfl, rfl⟩, ⟨rfl, rfl, rfl⟩, rfl⟩
  | read i => exact move_told h fun srv hs => h.readerStep hs
  | write i => exact move_told h fun srv hs => h.writerStep hs
  | beat i => exact move_told h fun srv hs => h.heartbeatStep hs
  | serve i => exact move_told h fun srv hs => h.handlerStep hs

theorem undergo_told (h : t.server.TimeoutsTold) (e : ShutdownEvent) :
    (t.undergo e).server.TimeoutsTold := by
  cases e with
  | serve e => exact step_told h e
  | endMerge =>
    simp only [undergo, Server.endMerge]
    split
    next => exact h.congr rfl rfl
    next => exact h
  | endRegistry =>
    simp only [undergo, Server.endRegistry]
    split
    next => exact h.congr rfl rfl
    next => exact h
  | _ => exact h.congr rfl rfl

theorem undergoAll_told (h : t.server.TimeoutsTold) (events : List ShutdownEvent) :
    (t.undergoAll events).server.TimeoutsTold := by
  induction events generalizing t with
  | nil => exact h
  | cons e events ih => exact ih (undergo_told h e)

end ServerTrace

end RoomCast
