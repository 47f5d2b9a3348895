import RoomCast.Proofs.HandlerMembership
import RoomCast.Proofs.MergeTimers
import RoomCast.Proofs.RegistryDelivery
import RoomCast.Proofs.SessionFrames
import RoomCast.Server

namespace RoomCast

namespace Registry

/-- The connection on one seat has changed, and perhaps the tables. -/
structure SeatStep (r r' : Registry) (seat : Nat) (c c' : Connection) : Prop where
  sound : r'.Sound
  pipeline : SamePipeline r r'
  roster : ∀ i : Nat, r'.roster[i]? = if seat = i then some c' else r.roster[i]?

theorem samePipeline_trans {r r' r'' : Registry} (h : SamePipeline r r') (h' : SamePipeline r' r'') :
    SamePipeline r r'' := by
  obtain ⟨shards, roster, rfl, hl⟩ := h
  obtain ⟨shards', roster', rfl, hl'⟩ := h'
  exact ⟨shards', roster', rfl, hl'.trans hl⟩

theorem samePipeline_refl (r : Registry) : SamePipeline r r := ⟨r.shards, r.roster, rfl, rfl⟩

theorem samePipeline_update (r : Registry) (seat : Nat) (f : Connection → Connection) :
    SamePipeline r (r.updateConnection seat f) := ⟨r.shards, _, rfl, rfl⟩

theorem seatStep_tables {r r' : Registry} (hs : r'.Sound) (hp : SamePipeline r r')
    (hr : r'.roster = r.roster) {seat : Nat} {c : Connection} (hc : r.roster[seat]? = some c) :
    SeatStep r r' seat c c := by
  refine ⟨hs, hp, fun i => ?_⟩
  rw [hr]
  by_cases hi : seat = i
  · rw [if_pos hi, ← hi, hc]
  · rw [if_neg hi]

theorem seatStep_update {r r' : Registry} (hs : r'.Sound) (hp : SamePipeline r r')
    (hr : r'.roster = r.roster) {seat : Nat} {c : Connection} (hc : r.roster[seat]? = some c)
    {f : Connection → Connection} (hf : (f c).id = c.id) :
    SeatStep r (r'.updateConnection seat f) seat c (f c) := by
  have hc' : r'.roster[seat]? = some c := by rw [hr, hc]
  refine ⟨?_, samePipeline_trans hp (samePipeline_update r' seat f), fun i => ?_⟩
  · refine hs.of_roster rfl ?_
    intro i d hd
    rw [updateConnection_getElem? hc']
    by_cases hi : seat = i
    · subst hi
      rw [if_pos rfl]
      cases Option.some.inj (hc'.symm.trans hd)
      exact ⟨f c, rfl, hf⟩
    · rw [if_neg hi]
      exact ⟨d, hd, rfl⟩
  · rw [updateConnection_getElem? hc', hr]

theorem leaveRooms_pipeline (r : Registry) (rooms : List String) (id : ConnectionId) :
    SamePipeline r (r.leaveRooms rooms id) := by
  induction rooms generalizing r with
  | nil => exact samePipeline_refl r
  | cons name rooms ih =>
    exact samePipeline_trans (samePipeline_setShard r id _) (ih (r.leaveRoom name id).1)

structure Answered (c c' : Connection) : Prop where
  id : c'.id = c.id
  closed : c'.closed = c.closed
  receiving : c'.receiving = c.receiving
  outbound : c'.outbound = c.outbound ∨ c'.outbound = c.outbound ++ [pongFrame]

theorem answered_ping (c : Connection) (now : Nat) :
    Answered c ((c.keepAlive now).send pongFrame).1 := by
  unfold Connection.send
  split
  next => exact ⟨rfl, rfl, rfl, Or.inl rfl⟩
  next =>
    split
    next => exact ⟨rfl, rfl, rfl, Or.inl rfl⟩
    next =>
      split
      next => exact ⟨rfl, rfl, rfl, Or.inl rfl⟩
      next => exact ⟨rfl, rfl, rfl, Or.inr rfl⟩

theorem answered_recordJoin (c : Connection) (room : String) : Answered c (c.recordJoin room).1 := by
  unfold Connection.recordJoin
  split <;> exact ⟨rfl, rfl, rfl, Or.inl rfl⟩

theorem answered_recordLeave (c : Connection) (room : String) :
    Answered c (c.recordLeave room).1 := by
  unfold Connection.recordLeave
  split <;> exact ⟨rfl, rfl, rfl, Or.inl rfl⟩

theorem serve_seatStep {r : Registry} (hs : r.Sound) {seat : Nat} {c : Connection}
    (hc : r.roster[seat]? = some c) (now : Nat) (request : ClientRequest) :
    ∃ c', SeatStep r (r.serve seat now request) seat c c' ∧ Answered c c' := by
  have idle : ∃ c', SeatStep r r seat c c' ∧ Answered c c' :=
    ⟨c, seatStep_tables hs (samePipeline_refl r) rfl hc, rfl, rfl, rfl, Or.inl rfl⟩
  cases request with
  | ping =>
    refine ⟨_, ?_, answered_ping c now⟩
    exact seatStep_update (f := fun c => ((c.keepAlive now).send pongFrame).1) hs
      (samePipeline_refl r) rfl hc (answered_ping c now).id
  | join room =>
    simp only [serve, join, connection?, hc]
    split
    next => exact idle
    next =>
      split
      next => exact idle
      next =>
        have hj := joinRoom_sound hs room c.id
        have hp : SamePipeline r (r.joinRoom room c.id).1 := samePipeline_setShard r c.id _
        split
        next r' he =>
          rw [he] at hj hp
          have hr : r'.roster = r.roster := (congrArg (fun x => x.1.roster) he).symm
          have ha := answered_recordJoin c room
          exact ⟨_, seatStep_update hj hp hr hc ha.id, ha⟩
        next r' cause he =>
          rw [he] at hj hp
          have hr : r'.roster = r.roster := (congrArg (fun x => x.1.roster) he).symm
          exact ⟨c, seatStep_tables hj hp hr hc, rfl, rfl, rfl, Or.inl rfl⟩
  | leave room =>
    simp only [serve, leave, connection?, hc]
    split
    next =>
      refine ⟨_, ?_, answered_recordLeave c room⟩
      exact seatStep_update (leaveRoom_sound hs room c.id) (samePipeline_setShard r c.id _) rfl hc
        (answered_recordLeave c room).id
    next => exact idle

theorem handle_seatStep {r : Registry} (hs : r.Sound) {seat : Nat} {c : Connection}
    (hc : r.roster[seat]? = some c) (now : Nat) (e : Envelope) :
    ∃ c', SeatStep r (r.handle seat now e) seat c c' ∧ Answered c c' := by
  rw [handle_eq]
  cases ClientRequest.ofFrame e with
  | none => exact ⟨c, seatStep_tables hs (samePipeline_refl r) rfl hc, rfl, rfl, rfl, Or.inl rfl⟩
  | some request => exact serve_seatStep hs hc now request

theorem teardown_seatStep {r : Registry} (hs : r.Sound) {seat : Nat} {c : Connection}
    (hc : r.roster[seat]? = some c) :
    SeatStep r (r.teardown seat).1 seat c (c.close.1.takeRooms).2 := by
  have hid : (c.close.1.takeRooms).2.id = c.id := by rw [c.close_takeRooms]
  have hstep := seatStep_update (f := fun c => (c.close.1.takeRooms).2) hs (samePipeline_refl r) rfl
    hc hid
  obtain ⟨hs', hr, _, _⟩ := leaveRooms_members hstep.sound c.rooms c.id
  have hpipe := leaveRooms_pipeline (r.updateConnection seat fun c => (c.close.1.takeRooms).2) c.rooms
    c.id
  rw [teardown_eq hc]
  refine ⟨removeConnection_sound hs' c.id, ?_, fun i => ?_⟩
  · exact samePipeline_trans (samePipeline_trans hstep.pipeline hpipe)
      (samePipeline_setShard _ c.id _)
  · rw [← hstep.roster i, ← hr]
    rfl

end Registry

/-- Every session sits on the seat of its number, and its connection fits. -/
structure Server.Housed (srv : Server) : Prop where
  registry : srv.registry.Sound
  seats : srv.sessions.length = srv.registry.roster.length
  seated : ∀ (i : Nat) (s : Session) (c : Connection), srv.sessions[i]? = some s →
    srv.registry.roster[i]? = some c → s.seat = i ∧ s.Fits c

/-- A running server: its parts are sound, each session sits on the seat of its number, and its
connection fits. -/
structure Server.Sound (srv : Server) : Prop where
  registry : srv.registry.Sound
  fitted : srv.registry.Fitted srv.settings.registry
  merge : srv.merge.Sound
  timed : srv.merge.Timed
  running : srv.merge.cancelled = false ∧ srv.merge.stopped = false
  seats : srv.sessions.length = srv.registry.roster.length
  seated : ∀ (i : Nat) (s : Session) (c : Connection), srv.sessions[i]? = some s →
    srv.registry.roster[i]? = some c → s.seat = i ∧ s.Fits c

theorem Server.Sound.housed {srv : Server} (h : srv.Sound) : srv.Housed :=
  ⟨h.registry, h.seats, h.seated⟩

namespace Server

structure SessionStep (srv srv' : Server) (i : Nat) (s s' : Session) (c c' : Connection) : Prop where
  rest : srv'.settings = srv.settings ∧ srv'.merge = srv.merge ∧ srv'.stopping = srv.stopping
  session : srv.sessions[i]? = some s
  sessions : srv'.sessions = srv.sessions.set i s'
  connection : srv.registry.roster[i]? = some c
  seat : Registry.SeatStep srv.registry srv'.registry i c c'
  same : s'.id = s.id ∧ s'.seat = s.seat
  fits : s'.Fits c'
  closed : c.closed = true → c'.closed = true
  pushes : c'.closed = false → s'.pushes c' = s.pushes c

inductive TaskMove (srv : Server) (i : Nat) (s : Session) (c : Connection) :
    Server → Session → Connection → Prop where
  | task {s' : Session} {c' : Connection} {figures : SessionCounters}
      (moved : s.readerStep c = some (s', c') ∨
        s.writerStep c srv.now srv.settings.socket.writeTimeoutMs.toNat = some (s', c') ∨
        s.heartbeatStep c srv.now srv.settings.socket.heartbeatIntervalMs = some (s', c')) :
      TaskMove srv i s c { srv.putSession i s' c' with figures := figures } s' c'
  | start (fresh : s.handler = .starting) :
      TaskMove srv i s c (srv.startHandler i s)
        { s with
          handler := .running
          heartbeat := Heartbeat.start srv.now srv.settings.socket.heartbeatIntervalMs } c
  | finish (runs : s.handler = .running) (leaves : c.closed = true ∨ srv.stopping = true) :
      TaskMove srv i s c (srv.endHandler i s) { s with handler := .ended, inbound := [] }
        (c.close.1.takeRooms).2
  | handle {e : Envelope} {rest : List Envelope} {c' : Connection} (runs : s.handler = .running)
      (goes : c.closed = false ∧ srv.stopping = false) (waits : s.inbound = e :: rest)
      (seat : Registry.SeatStep srv.registry (srv.registry.handle s.seat srv.now e) i c c')
      (answered : Registry.Answered c c') :
      TaskMove srv i s c { srv with
        registry := srv.registry.handle s.seat srv.now e
        sessions := srv.sessions.set i { s with inbound := rest } } { s with inbound := rest } c'

def Tasked (srv srv' : Server) (i : Nat) : Prop :=
  ∃ s s' c c', srv.session? i = some (s, c) ∧ srv.TaskMove i s c srv' s' c'

section Steps

variable {srv srv' : Server} {i : Nat}

theorem readerStep_some (h : srv.readerStep i = some srv') : ∃ s c s' c',
    srv.session? i = some (s, c) ∧ s.readerStep c = some (s', c') ∧ srv' = srv.putSession i s' c' := by
  unfold readerStep at h
  split at h
  next => simp at h
  next s c hsc =>
    obtain ⟨⟨s', c'⟩, hstep, rfl⟩ := Option.map_eq_some_iff.mp h
    exact ⟨s, c, s', c', hsc, hstep, rfl⟩

theorem writerStep_some (h : srv.writerStep i = some srv') : ∃ s c s' c',
    srv.session? i = some (s, c) ∧
    s.writerStep c srv.now srv.settings.socket.writeTimeoutMs.toNat = some (s', c') ∧
    srv' = srv.putSession i s' c' := by
  unfold writerStep at h
  split at h
  next => simp at h
  next s c hsc =>
    obtain ⟨⟨s', c'⟩, hstep, rfl⟩ := Option.map_eq_some_iff.mp h
    exact ⟨s, c, s', c', hsc, hstep, rfl⟩

theorem heartbeatStep_some (h : srv.heartbeatStep i = some srv') : ∃ s c s' c',
    srv.session? i = some (s, c) ∧
    s.heartbeatStep c srv.now srv.settings.socket.heartbeatIntervalMs = some (s', c') ∧
    srv' = { srv.putSession i s' c' with
      figures := { srv.figures with
        timeouts := srv.figures.timeouts + (s'.heartbeat.map (·.timeouts)).getD 0 } } := by
  unfold heartbeatStep at h
  split at h
  next => simp at h
  next s c hsc =>
    obtain ⟨⟨s', c'⟩, hstep, rfl⟩ := Option.map_eq_some_iff.mp h
    exact ⟨s, c, s', c', hsc, hstep, rfl⟩

theorem handlerStep_some (h : srv.handlerStep i = some srv') : ∃ s c,
    srv.session? i = some (s, c) ∧
    ((s.handler = .starting ∧ srv' = srv.startHandler i s) ∨
      (s.handler = .running ∧ (c.closed = true ∨ srv.stopping = true) ∧ srv' = srv.endHandler i s) ∨
      (s.handler = .running ∧ (c.closed = false ∧ srv.stopping = false) ∧
        ∃ e rest, s.inbound = e :: rest ∧ srv' = { srv with
          registry := srv.registry.handle s.seat srv.now e
          sessions := srv.sessions.set i { s with inbound := rest } })) := by
  unfold handlerStep at h
  split at h
  next => simp at h
  next s c hsc =>
    refine ⟨s, c, hsc, ?_⟩
    split at h
    next hh => exact .inl ⟨hh, (Option.some.inj h).symm⟩
    next => simp at h
    next hh =>
      split at h
      next hover => exact .inr (.inl ⟨hh, by simpa using hover, (Option.some.inj h).symm⟩)
      next hgoes =>
        split at h
        next => simp at h
        next e rest hwaits =>
          exact .inr (.inr ⟨hh, by simpa using hgoes, e, rest, hwaits, (Option.some.inj h).symm⟩)

theorem readerStep_tasked (h : srv.readerStep i = some srv') : srv.Tasked srv' i := by
  obtain ⟨s, c, s', c', hsc, hstep, rfl⟩ := readerStep_some h
  exact ⟨s, s', c, c', hsc, .task (.inl hstep)⟩

theorem writerStep_tasked (h : srv.writerStep i = some srv') : srv.Tasked srv' i := by
  obtain ⟨s, c, s', c', hsc, hstep, rfl⟩ := writerStep_some h
  exact ⟨s, s', c, c', hsc, .task (.inr (.inl hstep))⟩

theorem heartbeatStep_tasked (h : srv.heartbeatStep i = some srv') : srv.Tasked srv' i := by
  obtain ⟨s, c, s', c', hsc, hstep, rfl⟩ := heartbeatStep_some h
  exact ⟨s, s', c, c', hsc, .task (.inr (.inr hstep))⟩

end Steps

theorem Housed.session? {srv : Server} (hs : srv.Housed) {i : Nat} {s : Session} {c : Connection}
    (h : srv.session? i = some (s, c)) :
    srv.sessions[i]? = some s ∧ srv.registry.roster[i]? = some c ∧ s.seat = i ∧ s.Fits c := by
  unfold Server.session? at h
  split at h
  next => simp at h
  next t ht =>
    obtain ⟨d, hd, he⟩ := Option.map_eq_some_iff.mp h
    obtain ⟨rfl, rfl⟩ := Prod.mk.inj he
    have hlt : i < srv.registry.roster.length := hs.seats ▸ (List.getElem?_eq_some_iff.mp ht).1
    have hseat := (hs.seated i t _ ht (List.getElem?_eq_getElem hlt)).1
    rw [Registry.connection?, hseat] at hd
    obtain ⟨h1, h2⟩ := hs.seated i t d ht hd
    exact ⟨ht, hd, h1, h2⟩

theorem Sound.session? {srv : Server} (hs : srv.Sound) {i : Nat} {s : Session} {c : Connection}
    (h : srv.session? i = some (s, c)) :
    srv.sessions[i]? = some s ∧ srv.registry.roster[i]? = some c ∧ s.seat = i ∧ s.Fits c :=
  hs.housed.session? h

theorem handlerStep_tasked {srv srv' : Server} (hs : srv.Housed) {i : Nat}
    (h : srv.handlerStep i = some srv') : srv.Tasked srv' i := by
  obtain ⟨s, c, hsc, hcases⟩ := handlerStep_some h
  obtain ⟨_, hc, hseat, _⟩ := hs.session? hsc
  rcases hcases with ⟨hh, rfl⟩ | ⟨hh, hover, rfl⟩ | ⟨hh, hgoes, e, rest, hwaits, rfl⟩
  · exact ⟨s, _, c, c, hsc, .start hh⟩
  · exact ⟨s, _, c, _, hsc, .finish hh hover⟩
  · obtain ⟨c', hstep, ha⟩ := Registry.handle_seatStep hs.registry hc srv.now e
    rw [← hseat] at hstep
    exact ⟨s, _, c, c', hsc, .handle hh hgoes hwaits (hseat ▸ hstep) ha⟩

theorem putSession_step {srv : Server} (hs : srv.Housed) {i : Nat} {s s' : Session}
    {c c' : Connection} (h : srv.session? i = some (s, c)) (hk : Session.Kept s s' c c') :
    SessionStep srv (srv.putSession i s' c') i s s' c c' := by
  obtain ⟨hsession, hc, hseat, _⟩ := hs.session? h
  have hstep := Registry.seatStep_update (f := fun _ => c') hs.registry
    (Registry.samePipeline_refl srv.registry) rfl hc hk.id
  refine ⟨⟨rfl, rfl, rfl⟩, hsession, rfl, hc, ?_, hk.same, hk.fits, hk.closed, fun ho => ?_⟩
  · rw [putSession, hk.same.2, hseat]
    exact hstep
  · rw [Session.pushes, hk.frames ho]
    rfl

theorem TaskMove.sessionStep {srv srv' : Server} (hs : srv.Housed) {i : Nat} {s s' : Session}
    {c c' : Connection} (h : srv.session? i = some (s, c)) (hm : srv.TaskMove i s c srv' s' c') :
    SessionStep srv srv' i s s' c c' := by
  obtain ⟨hsession, hc, hseat, hfits⟩ := hs.session? h
  cases hm with
  | task moved =>
    have hkept : Session.Kept s s' c c' := by
      rcases moved with hr | hw | hb
      · exact Session.readerStep_kept hfits hr
      · exact Session.writerStep_kept hfits hw
      · exact Session.heartbeatStep_kept hfits hb
    have hput := putSession_step hs h hkept
    exact ⟨hput.rest, hput.session, hput.sessions, hput.connection, hput.seat, hput.same, hput.fits,
      hput.closed, hput.pushes⟩
  | start fresh =>
    have hid : srv.registry.addConnection s.id s.seat = srv.registry.addConnection c.id i := by
      rw [hfits.id, hseat]
    refine ⟨⟨rfl, rfl, rfl⟩, hsession, rfl, hc, ?_, ⟨rfl, rfl⟩, ?_, fun hc => hc, fun _ => rfl⟩
    · rw [startHandler, hid]
      exact Registry.seatStep_tables (Registry.addConnection_sound hs.registry hc)
        (Registry.samePipeline_setShard _ _ _) rfl hc
    · exact ⟨hfits.id, hfits.queue, hfits.writer⟩
  | finish runs leaves =>
    have hstep := Registry.teardown_seatStep hs.registry hc
    have hclosed : (c.close.1.takeRooms).2.closed = true := by rw [c.close_takeRooms]
    refine ⟨⟨rfl, rfl, rfl⟩, hsession, rfl, hc, ?_, ⟨rfl, rfl⟩, ?_, fun _ => hclosed, fun ho => ?_⟩
    · rw [endHandler, hseat]
      exact hstep
    · refine ⟨?_, fun _ => hclosed, fun _ => hclosed⟩
      rw [c.close_takeRooms]
      exact hfits.id
    · exact absurd (hclosed.symm.trans ho) (by simp)
  | handle runs goes waits seat ha =>
    refine ⟨⟨rfl, rfl, rfl⟩, hsession, rfl, hc, seat, ⟨rfl, rfl⟩, ?_, ?_, fun _ => ?_⟩
    · refine ⟨hfits.id.trans ha.id.symm, fun hr => ?_, fun hq => ?_⟩
      · exact ha.closed.trans (hfits.queue (ha.receiving ▸ hr))
      · exact ha.closed.trans (hfits.writer hq)
    · exact fun hc => ha.closed.trans hc
    · -- a `PONG` may have been queued, and that is no push
      rcases ha.outbound with ho | ho
      · simp [Session.pushes, Session.enqueued, ho]
      · simp [Session.pushes, Session.enqueued, ho, isPush_pong]

end Server

end RoomCast
