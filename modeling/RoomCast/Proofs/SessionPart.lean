import RoomCast.Proofs.MembershipAgreement
import RoomCast.Proofs.ServerSessions
import RoomCast.Proofs.SessionStream

namespace RoomCast

def Connection.answer (c : Connection) (now : Nat) : ClientRequest → Connection
  | .ping => ((c.keepAlive now).send pongFrame).1
  | .join room => if c.roomLimit ≤ c.rooms.length then c else (c.recordJoin room).1
  | .leave room => (c.recordLeave room).1

def Connection.handle (c : Connection) (now : Nat) (e : Envelope) : Connection :=
  match ClientRequest.ofFrame e with
  | some request => c.answer now request
  | none => c

theorem Connection.recordJoin_member {c : Connection} {room : String}
    (h : c.isMember room = true) : (c.recordJoin room).1 = c := by
  rw [recordJoin, if_pos h]

theorem Connection.recordLeave_stranger {c : Connection} {room : String}
    (h : c.isMember room = false) : (c.recordLeave room).1 = c := by
  rw [recordLeave, if_neg (by simp [h])]

theorem Connection.handle_answered (c : Connection) (now : Nat) (e : Envelope) :
    Registry.Answered c (c.handle now e) := by
  have idle : Registry.Answered c c := ⟨rfl, rfl, rfl, Or.inl rfl⟩
  unfold handle
  split
  next request _ =>
    cases request with
    | ping => exact Registry.answered_ping c now
    | join room =>
      rw [answer]
      split
      next => exact idle
      next => exact Registry.answered_recordJoin c room
    | leave room => exact Registry.answered_recordLeave c room
  next => exact idle

namespace Registry

/-- The connection on one seat has changed with what the tables hold under its identity: the seat, and
the rooms, which are those of the connection. -/
structure SeatEffect (r r' : Registry) (i : Nat) (c c' : Connection) (seat : Option Nat) : Prop where
  sound : r'.Sound
  pipeline : SamePipeline r r'
  roster : ∀ j : Nat, r'.roster[j]? = if i = j then some c' else r.roster[j]?
  id : c'.id = c.id
  seats : ∀ id, r'.seatOf id = if id = c.id then seat else r.seatOf id
  members : ∀ room id, r'.IsMember room id ↔
    if id = c.id then room ∈ c'.rooms else r.IsMember room id

theorem SeatEffect.ids {r r' : Registry} {i : Nat} {c c' : Connection} {seat : Option Nat}
    (h : SeatEffect r r' i c c' seat) (hc : r.roster[i]? = some c) :
    r'.roster.map (·.id) = r.roster.map (·.id) := by
  apply List.ext_getElem?
  intro j
  rw [List.getElem?_map, List.getElem?_map, h.roster]
  by_cases hj : i = j
  · rw [if_pos hj, ← hj, hc, Option.map_some, Option.map_some, h.id]
  · rw [if_neg hj]

section Effects

variable {r : Registry} (hs : r.Sound) {i : Nat} {c : Connection} (hc : r.roster[i]? = some c)
  (ha : ∀ room, room ∈ c.rooms ↔ r.IsMember room c.id) (hn : c.rooms.Nodup)

include hs hc ha in
theorem update_effect {f : Connection → Connection} (hf : (f c).standing = c.standing) :
    SeatEffect r (r.updateConnection i f) i c (f c) (r.seatOf c.id) := by
  obtain ⟨hid, _, hrooms⟩ := Connection.standing_inj hf
  have hstep := seatStep_update hs (samePipeline_refl r) rfl hc hid
  refine ⟨hstep.sound, hstep.pipeline, hstep.roster, hid, fun id => ?_, fun room id => ?_⟩
  · by_cases he : id = c.id
    · rw [if_pos he, he]
      rfl
    · rw [if_neg he]
      rfl
  · by_cases he : id = c.id
    · rw [if_pos he, he, hrooms]
      exact (ha room).symm
    · rw [if_neg he]
      rfl

include hs hc ha in
theorem refl_effect : SeatEffect r r i c c (r.seatOf c.id) := by
  have h := update_effect hs hc ha (f := id) rfl
  rwa [updateConnection, List.modify_id] at h

include hs hc ha in
theorem register_effect : SeatEffect r (r.addConnection c.id i) i c c (some i) := by
  have hstep := seatStep_tables (addConnection_sound hs hc) (samePipeline_setShard r c.id _) rfl hc
  refine ⟨hstep.sound, hstep.pipeline, hstep.roster, rfl, fun id => ?_, fun room id => ?_⟩
  · rw [seatOf_addConnection hs]
    by_cases he : id = c.id
    · rw [if_pos he, if_pos he.symm]
    · rw [if_neg he, if_neg (Ne.symm he)]
  · rw [isMember_addConnection hs]
    by_cases he : id = c.id
    · rw [if_pos he, he]
      exact (ha room).symm
    · rw [if_neg he]

include hs hc ha in
theorem handle_getElem? (now : Nat) (e : Envelope) :
    (r.handle i now e).roster[i]? = some (c.handle now e) := by
  have updated : ∀ (r' : Registry) (f : Connection → Connection), r'.roster = r.roster →
      (r'.updateConnection i f).roster[i]? = some (f c) := by
    intro r' f hr
    rw [updateConnection_getElem? (hr ▸ hc), if_pos rfl]
  rw [handle_eq, Connection.handle]
  cases ClientRequest.ofFrame e with
  | none => exact hc
  | some request =>
    cases request with
    | ping => exact updated r _ rfl
    | join room =>
      simp only [serve, join, connection?, hc, Connection.answer]
      split
      next => exact hc
      next =>
        split
        next hm =>
          rw [Connection.recordJoin_member hm]
          exact hc
        next hm =>
          -- the shard does not have the member either, and takes it
          have hnot : ¬r.IsMember room c.id := fun h =>
            hm (by simpa [Connection.isMember] using (ha room).mpr h)
          rcases joinRoom_cases hs room c.id with ⟨hin, _⟩ | ⟨_, hok, _⟩
          · exact absurd hin hnot
          · have hj : r.joinRoom room c.id = ((r.joinRoom room c.id).1, .ok ()) := by rw [← hok]
            rw [hj]
            exact updated _ _ rfl
    | leave room =>
      simp only [serve, leave, connection?, hc, Connection.answer]
      split
      next => exact updated _ _ rfl
      next hm =>
        rw [Connection.recordLeave_stranger (by simpa using hm)]
        exact hc

include hs hc ha hn in
theorem handle_effect (now : Nat) (e : Envelope) :
    SeatEffect r (r.handle i now e) i c (c.handle now e) (r.seatOf c.id) := by
  obtain ⟨_, hstep, _⟩ := handle_seatStep hs hc now e
  obtain ⟨c', managed, _, _⟩ := handle_managed hs hc ha hn now e
  have hsame : c' = c.handle now e := by
    have hroster := managed.roster i
    rw [if_pos rfl, handle_getElem? hs hc ha] at hroster
    exact (Option.some.inj hroster).symm
  subst hsame
  refine ⟨managed.sound, hstep.pipeline, managed.roster, managed.id, fun id => ?_, fun room id => ?_⟩
  · rw [managed.seats]
    by_cases he : id = c.id
    · rw [if_pos he, he]
    · rw [if_neg he]
  · by_cases he : id = c.id
    · rw [if_pos he, he]
      exact (managed.members room).symm
    · rw [if_neg he]
      exact managed.others room id he

include hs hc ha in
theorem teardown_effect :
    SeatEffect r (r.teardown i).1 i c (c.close.1.takeRooms).2 none := by
  have hstep := teardown_seatStep hs hc
  obtain ⟨_, _, _, _, _, hseats, hmembers⟩ := teardown_cleared hs hc ha
  refine ⟨hstep.sound, hstep.pipeline, hstep.roster, ?_, fun id => ?_, fun room id => ?_⟩
  · rw [c.close_takeRooms]
  · rw [hseats]
    by_cases he : id = c.id
    · rw [if_pos he, if_pos he.symm]
    · rw [if_neg he, if_neg (Ne.symm he)]
  · rw [hmembers]
    by_cases he : id = c.id
    · simp [he, Connection.takeRooms]
    · simp [he]

end Effects

end Registry

/-- What can happen to one session. -/
inductive SessionEvent where
  | say (message : ClientMessage)
  | finish
  | rewire (wire : WireMode)
  | read
  | write
  | beat
  | serve
deriving DecidableEq

/-- The part of a session in its server: the session, its connection, and the seat under which its
identity is held. -/
structure SessionPart where
  session : Session
  connection : Connection
  seat : Option Nat

/-- What a session sees of its server besides its own part. -/
structure Surroundings where
  settings : Settings
  now : Nat
  stopping : Bool

namespace SessionPart

def move (p : SessionPart) : Option (Session × Connection) → SessionPart
  | none => p
  | some (s, c) => { p with session := s, connection := c }

def serve (around : Surroundings) (i : Nat) (p : SessionPart) : SessionPart :=
  match p.session.handler with
  | .starting =>
    { p with
      session := { p.session with
        handler := .running
        heartbeat := Heartbeat.start around.now around.settings.socket.heartbeatIntervalMs }
      seat := some i }
  | .ended => p
  | .running =>
    if p.connection.closed || around.stopping then
      ⟨{ p.session with handler := .ended, inbound := [] }, (p.connection.close.1.takeRooms).2, none⟩
    else
      match p.session.inbound with
      | [] => p
      | e :: rest =>
        { p with
          session := { p.session with inbound := rest }
          connection := p.connection.handle around.now e }

/-- What a step of the handler asks of the registry. -/
def asks (around : Surroundings) (i : Nat) (p : SessionPart) : Option MembershipEvent :=
  match p.session.handler with
  | .starting => some (.register i)
  | .ended => none
  | .running =>
    if p.connection.closed || around.stopping then some (.teardown i)
    else p.session.inbound.head?.map (.handle i around.now)

theorem serve_cases (around : Surroundings) (i : Nat) (p : SessionPart) :
    (p.session.handler = .starting ∧ p.asks around i = some (.register i) ∧
      p.serve around i = { p with
        session := { p.session with
          handler := .running
          heartbeat := Heartbeat.start around.now around.settings.socket.heartbeatIntervalMs }
        seat := some i }) ∨
    (p.session.handler = .running ∧ (p.connection.closed = true ∨ around.stopping = true) ∧
      p.asks around i = some (.teardown i) ∧ p.serve around i =
        ⟨{ p.session with handler := .ended, inbound := [] }, (p.connection.close.1.takeRooms).2,
          none⟩) ∨
    (∃ e rest, p.session.handler = .running ∧ p.connection.closed = false ∧
      around.stopping = false ∧ p.session.inbound = e :: rest ∧
      p.asks around i = some (.handle i around.now e) ∧ p.serve around i = { p with
        session := { p.session with inbound := rest }
        connection := p.connection.handle around.now e }) ∨
    ((p.session.handler = .ended ∨ (p.session.handler = .running ∧ p.connection.closed = false ∧
      around.stopping = false ∧ p.session.inbound = [])) ∧
      p.asks around i = none ∧ p.serve around i = p) := by
  unfold asks serve
  cases hh : p.session.handler with
  | starting => exact Or.inl ⟨rfl, rfl, rfl⟩
  | ended => exact Or.inr (Or.inr (Or.inr ⟨Or.inl rfl, rfl, rfl⟩))
  | running =>
    by_cases hd : p.connection.closed || around.stopping
    · refine Or.inr (Or.inl ⟨rfl, by simpa using hd, ?_⟩)
      simp [hd]
    · obtain ⟨hclosed, hstopping⟩ := Bool.or_eq_false_iff.mp (Bool.eq_false_of_not_eq_true hd)
      simp only [hclosed, hstopping, Bool.or_self, Bool.false_eq_true, if_false]
      cases hi : p.session.inbound with
      | nil => exact Or.inr (Or.inr (Or.inr ⟨by simp, rfl, rfl⟩))
      | cons e rest =>
        refine Or.inr (Or.inr (Or.inl ⟨e, rest, ?_⟩))
        simp

def step (around : Surroundings) (i : Nat) (p : SessionPart) : SessionEvent → SessionPart
  | .say message =>
    if p.session.isReading then
      { p with session := { p.session with incoming := p.session.incoming ++ [message] } }
    else p
  | .finish => { p with session := { p.session with finished := true } }
  | .rewire wire => { p with session := { p.session with wire := wire } }
  | .read => p.move (p.session.readerStep p.connection)
  | .write =>
    p.move (p.session.writerStep p.connection around.now
      around.settings.socket.writeTimeoutMs.toNat)
  | .beat =>
    p.move (p.session.heartbeatStep p.connection around.now
      around.settings.socket.heartbeatIntervalMs)
  | .serve => p.serve around i

end SessionPart

namespace Server

def surroundings (srv : Server) : Surroundings := ⟨srv.settings, srv.now, srv.stopping⟩

/-- The server after an event of a session; a task that has to wait does nothing. -/
def follow (srv : Server) (i : Nat) : SessionEvent → Server
  | .say message => (srv.say? i message).getD srv
  | .finish => srv.finish i
  | .rewire wire => srv.rewire i wire
  | .read => (srv.readerStep i).getD srv
  | .write => (srv.writerStep i).getD srv
  | .beat => (srv.heartbeatStep i).getD srv
  | .serve => (srv.handlerStep i).getD srv

def part? (srv : Server) (i : Nat) : Option SessionPart :=
  (srv.session? i).map fun (s, c) => ⟨s, c, srv.registry.seatOf c.id⟩

structure Hosts (srv : Server) (i : Nat) (p : SessionPart) : Prop where
  sound : srv.registry.Sound
  session : srv.sessions[i]? = some p.session
  connection : srv.registry.roster[i]? = some p.connection
  seat : p.seat = srv.registry.seatOf p.connection.id
  place : p.session.seat = i
  fits : p.session.Fits p.connection
  agree : ∀ room, room ∈ p.connection.rooms ↔ srv.registry.IsMember room p.connection.id
  nodup : p.connection.rooms.Nodup

structure PartStep (srv srv' : Server) (i : Nat) (p p' : SessionPart) : Prop where
  around : srv'.surroundings = srv.surroundings
  sessions : srv'.sessions = srv.sessions.set i p'.session
  registry : Registry.SeatEffect srv.registry srv'.registry i p.connection p'.connection p'.seat

section Hosts

variable {srv : Server} {i : Nat} {p : SessionPart} (h : srv.Hosts i p)

include h in
theorem Hosts.session? : srv.session? i = some (p.session, p.connection) := by
  simp only [Server.session?, h.session, Registry.connection?, h.place, h.connection, Option.map_some]

include h in
theorem Hosts.part? : srv.part? i = some p := by
  simp only [Server.part?, h.session?, Option.map_some, ← h.seat]

include h in
theorem Hosts.aside {srv' : Server} (haround : srv'.surroundings = srv.surroundings)
    (hr : srv'.registry = srv.registry) {s' : Session}
    (hsessions : srv'.sessions = srv.sessions.set i s') :
    PartStep srv srv' i p { p with session := s' } := by
  refine ⟨haround, hsessions, ?_⟩
  rw [hr, h.seat]
  exact Registry.refl_effect h.sound h.connection h.agree

include h in
theorem Hosts.stay : PartStep srv srv i p p := h.aside rfl rfl (set_same h.session).symm

include h in
theorem Hosts.update (f : Session → Session) :
    PartStep srv (srv.updateSession i f) i p { p with session := f p.session } := by
  refine h.aside ?_ ?_ (modify_of_some h.session f)
  · rfl
  · rfl

include h in
theorem Hosts.put {s' : Session} {c' : Connection}
    (hk : Session.TaskStep p.session s' p.connection c') {srv' : Server}
    (haround : srv'.surroundings = srv.surroundings)
    (hsessions : srv'.sessions = srv.sessions.set i s')
    (hr : srv'.registry = srv.registry.updateConnection s'.seat fun _ => c') :
    PartStep srv srv' i p { p with session := s', connection := c' } := by
  refine ⟨haround, hsessions, ?_⟩
  have hplace : s'.seat = i := hk.kept.same.2.trans h.place
  rw [hr, hplace, h.seat]
  exact Registry.update_effect (f := fun _ => c') h.sound h.connection h.agree hk.standing

include h in
/-- A step of the handler is what it asks of the registry, and what it makes of the session. -/
theorem Hosts.serve_eq : ∃ figures, srv.follow i .serve = { srv with
    registry := (p.asks srv.surroundings i).elim srv.registry srv.registry.after
    sessions := srv.sessions.set i (p.serve srv.surroundings i).session
    figures := figures } := by
  have hstay : ∃ figures, srv = { srv with
      registry := srv.registry
      sessions := srv.sessions.set i p.session
      figures := figures } := ⟨srv.figures, by rw [set_same h.session]⟩
  simp only [follow, handlerStep, h.session?]
  rcases p.serve_cases srv.surroundings i with ⟨hh, ha, hp⟩ | ⟨hh, hd, ha, hp⟩ |
    ⟨e, rest, hh, hc, hn, hi, ha, hp⟩ | ⟨hh, ha, hp⟩
  · simp only [hh, ha, hp, Option.elim_some, Option.getD_some, startHandler, Registry.after,
      h.connection, h.fits.id, h.place]
    exact ⟨_, rfl⟩
  · have hdone : (p.connection.closed || srv.stopping) = true := by
      rw [Bool.or_eq_true]
      exact hd
    simp only [hh, ha, hp, hdone, if_true, Option.elim_some, Option.getD_some, endHandler,
      Registry.after, h.place]
    exact ⟨_, rfl⟩
  · have hgoes : (p.connection.closed || srv.stopping) = false := Bool.or_eq_false_iff.mpr ⟨hc, hn⟩
    simp only [hh, ha, hp, hgoes, hi, Bool.false_eq_true, if_false, Option.elim_some,
      Option.getD_some, Registry.after, h.place]
    exact ⟨_, rfl⟩
  · rcases hh with hh | ⟨hh, hc, hn, hi⟩
    · simp only [hh, ha, hp]
      exact hstay
    · have hgoes : (p.connection.closed || srv.stopping) = false :=
        Bool.or_eq_false_iff.mpr ⟨hc, hn⟩
      simp only [hh, ha, hp, hgoes, hi, Bool.false_eq_true, if_false]
      exact hstay

include h in
theorem Hosts.serve : PartStep srv (srv.follow i .serve) i p (p.serve srv.surroundings i) := by
  obtain ⟨figures, he⟩ := h.serve_eq
  rw [he]
  refine ⟨rfl, rfl, ?_⟩
  rcases p.serve_cases srv.surroundings i with ⟨_, ha, hp⟩ | ⟨_, _, ha, hp⟩ |
    ⟨e, rest, _, _, _, _, ha, hp⟩ | ⟨_, ha, hp⟩ <;> rw [ha, hp]
  · have hregister : srv.registry.after (.register i) = srv.registry.addConnection p.connection.id i := by
      simp only [Registry.after, h.connection]
    simp only [Option.elim_some, hregister]
    exact Registry.register_effect h.sound h.connection h.agree
  · exact Registry.teardown_effect h.sound h.connection h.agree
  · simp only [h.seat]
    exact Registry.handle_effect h.sound h.connection h.agree h.nodup srv.now e
  · simp only [h.seat]
    exact Registry.refl_effect h.sound h.connection h.agree

include h in
theorem Hosts.follow (e : SessionEvent) :
    PartStep srv (srv.follow i e) i p (p.step srv.surroundings i e) := by
  cases e with
  | say message =>
    simp only [Server.follow, say?, h.session, Option.any_some, SessionPart.step]
    split
    next => exact h.update _
    next => exact h.stay
  | finish => exact h.update _
  | rewire wire => exact h.update _
  | read =>
    simp only [Server.follow, readerStep, h.session?, SessionPart.step]
    cases hstep : p.session.readerStep p.connection with
    | none => exact h.stay
    | some sc => exact h.put (Session.readerStep_task h.fits hstep) rfl rfl rfl
  | write =>
    simp only [Server.follow, writerStep, h.session?, SessionPart.step, surroundings]
    cases hstep : p.session.writerStep p.connection srv.now
      srv.settings.socket.writeTimeoutMs.toNat with
    | none => exact h.stay
    | some sc => exact h.put (Session.writerStep_task h.fits hstep) rfl rfl rfl
  | beat =>
    simp only [Server.follow, heartbeatStep, h.session?, SessionPart.step, surroundings]
    cases hstep : p.session.heartbeatStep p.connection srv.now
      srv.settings.socket.heartbeatIntervalMs with
    | none => exact h.stay
    | some sc => exact h.put (Session.heartbeatStep_task h.fits hstep) rfl rfl rfl
  | serve => exact h.serve

end Hosts

end Server

end RoomCast
