import RoomCast.Proofs.ServerRun
import RoomCast.Proofs.SessionPart

namespace RoomCast

/-- What can happen to a server with its sessions. -/
inductive LifeEvent where
  | connect (id : ConnectionId) (answersPings : Bool) (wire : WireMode)
  | own (i : Nat) (e : SessionEvent)
  | elapse (duration : Nat)
  | push (job : PushJob)
  | move (m : PipelineMove)
  | stop
  | stopWorkers
deriving DecidableEq

/-- A server with what each client has said so far, and the frames that each handler has handled. -/
structure LifeTrace where
  server : Server
  said : Nat → List ClientMessage
  handled : Nat → List Envelope

def MembershipEvent.frame? : MembershipEvent → Option Envelope
  | .handle _ _ e => some e
  | _ => none

/-- What an event adds to the stream of a client, which goes on until the client ends it. -/
def SessionPart.saying (p : SessionPart) : SessionEvent → List ClientMessage
  | .say message => if p.session.finished then [] else [message]
  | _ => []

/-- What an event adds to the frames that a handler has handled. -/
def SessionPart.handling (around : Surroundings) (i : Nat) (p : SessionPart) :
    SessionEvent → List Envelope
  | .serve => ((p.asks around i).bind (·.frame?)).toList
  | _ => []

def note {α : Type} (lists : Nat → List α) (i : Nat) (xs : List α) : Nat → List α :=
  fun j => if j = i then lists j ++ xs else lists j

theorem note_self {α : Type} (lists : Nat → List α) (i : Nat) (xs : List α) :
    note lists i xs i = lists i ++ xs := if_pos rfl

theorem note_other {α : Type} (lists : Nat → List α) {i j : Nat} (h : j ≠ i) (xs : List α) :
    note lists i xs j = lists j := if_neg h

namespace LifeTrace

def start (settings : Settings) (identities : IdentitySource) (showsFigures : Bool) : LifeTrace :=
  ⟨.create settings identities showsFigures, fun _ => [], fun _ => []⟩

def putRegistry (t : LifeTrace) (r : Registry) : LifeTrace :=
  { t with server := { t.server with registry := r } }

/-- The trace after an event. An identity that has been given out is not given again, and nothing
happens to a session that there is not. -/
def step (t : LifeTrace) : LifeEvent → LifeTrace
  | .connect id answersPings wire =>
    if id ∈ t.server.registry.roster.map (·.id) then t
    else { t with server := (t.server.openSession id answersPings wire).1 }
  | .own i e =>
    match t.server.part? i with
    | none => t
    | some p =>
      { server := t.server.follow i e
        said := note t.said i (p.saying e)
        handled := note t.handled i (p.handling t.server.surroundings i e) }
  | .elapse duration => { t with server := { t.server with now := t.server.now + duration } }
  | .push job => t.putRegistry (t.server.registry.push job).1
  | .move m => t.putRegistry ((t.server.registry.move m).getD t.server.registry)
  | .stop => { t with server := t.server.stop }
  | .stopWorkers =>
    if t.server.registry.cancelled then t.putRegistry t.server.registry.stopWorkers else t

def run (t : LifeTrace) (events : List LifeEvent) : LifeTrace := events.foldl step t

end LifeTrace

/-- Where a handler stands among the events of membership. -/
def HandlerState.Phase (events : List MembershipEvent) (seat : Nat) : HandlerState → Prop
  | .starting => .register seat ∉ events
  | .running => Live events seat
  | .ended => ¬Live events seat

theorem HandlerState.Phase.spared {events : List MembershipEvent} {seat : Nat} {h : HandlerState}
    (hp : h.Phase events seat) {e : MembershipEvent} (he : e.Spares seat) :
    h.Phase (events ++ [e]) seat := by
  cases h with
  | starting =>
    have hp' : .register seat ∉ events := hp
    simp [Phase, hp', Ne.symm he.1]
  | running => exact (he.live events).mpr hp
  | ended => exact fun hl => hp ((he.live events).mp hl)

structure Session.Seated (i : Nat) (said : List ClientMessage) (handled : List Envelope)
    (s : Session) (c : Connection) : Prop where
  place : s.seat = i
  fits : s.Fits c
  quits : s.Quits c
  stream : s.Stream said handled

namespace SessionPart

variable {i : Nat} {said : List ClientMessage} {handled : List Envelope} {p : SessionPart}

theorem seated_serve (h : p.session.Seated i said handled p.connection) (around : Surroundings) :
    (p.serve around i).session.Seated i said
      (handled ++ ((p.asks around i).bind (·.frame?)).toList) (p.serve around i).connection := by
  rcases p.serve_cases around i with ⟨hh, ha, hp⟩ | ⟨hh, _, ha, hp⟩ | ⟨e, rest, hh, hc, _, hi, ha, hp⟩ |
    ⟨_, ha, hp⟩ <;> rw [ha, hp]
  · simp only [Option.bind_some, MembershipEvent.frame?, Option.toList_none, List.append_nil]
    refine ⟨h.place, ⟨h.fits.id, h.fits.queue, h.fits.writer⟩, fun hq => ?_, h.stream.order, ?_⟩
    · exact h.quits (hq.imp id fun hn => absurd hn (by simp))
    · exact fun hr _ => h.stream.taken hr (by simp [hh])
  · simp only [Option.bind_some, MembershipEvent.frame?, Option.toList_none, List.append_nil]
    have hclosed : (p.connection.close.1.takeRooms).2.closed = true := by
      rw [p.connection.close_takeRooms]
    refine ⟨h.place, ⟨?_, fun _ => hclosed, fun _ => hclosed⟩, fun _ => hclosed, ?_⟩
    · rw [p.connection.close_takeRooms]
      exact h.fits.id
    · exact h.stream.close (Or.inr rfl) (Or.inr rfl)
  · simp only [Option.bind_some, MembershipEvent.frame?, Option.toList_some]
    have hanswered := p.connection.handle_answered around.now e
    refine ⟨h.place, ⟨h.fits.id.trans hanswered.id.symm, fun hr => ?_, fun hw => ?_⟩, fun hq => ?_,
      h.stream.handle hi⟩
    · exact hanswered.closed.trans (h.fits.queue (hanswered.receiving ▸ hr))
    · exact hanswered.closed.trans (h.fits.writer hw)
    · exact hanswered.closed.trans (h.quits hq)
  · rw [Option.bind_none, Option.toList_none, List.append_nil]
    exact h

theorem seated_say (h : p.session.Seated i said handled p.connection) (around : Surroundings)
    (message : ClientMessage) :
    (p.step around i (.say message)).session.Seated i (said ++ p.saying (.say message)) handled
      (p.step around i (.say message)).connection := by
  by_cases hf : p.session.finished = true
  · simp only [step, saying, Session.isReading, hf, Bool.not_true, Bool.and_false,
      Bool.false_eq_true, if_false, if_true, List.append_nil]
    exact h
  · have hgoes : p.saying (.say message) = [message] := if_neg hf
    rw [hgoes, step]
    split
    next => exact ⟨h.place, ⟨h.fits.id, h.fits.queue, h.fits.writer⟩, h.quits, h.stream.say message⟩
    next hr =>
      have hended : p.session.reader = .ended := by simpa [Session.isReading, hf] using hr
      exact ⟨h.place, h.fits, h.quits, h.stream.unheard hended message⟩

theorem seated_aside (h : p.session.Seated i said handled p.connection) {s' : Session}
    (hsame : s'.id = p.session.id ∧ s'.seat = p.session.seat) (hw : s'.writer = p.session.writer)
    (hr : s'.reader = p.session.reader) (hh : s'.handler = p.session.handler)
    (hi : s'.inbound = p.session.inbound) (ht : s'.incoming = p.session.incoming) :
    s'.Seated i said handled p.connection := by
  refine ⟨hsame.2.trans h.place, ⟨hsame.1.trans h.fits.id, h.fits.queue, hw ▸ h.fits.writer⟩, ?_,
    h.stream.congr hi ht hr hh⟩
  rw [Session.Quits, hr, hh]
  exact h.quits

theorem seated_move (h : p.session.Seated i said handled p.connection)
    {next : Option (Session × Connection)} (ht : ∀ s' c', next = some (s', c') →
      Session.TaskStep p.session s' p.connection c') :
    (p.move next).session.Seated i said handled (p.move next).connection := by
  cases next with
  | none => exact h
  | some sc =>
    have htask := ht sc.1 sc.2 rfl
    exact ⟨htask.kept.same.2.trans h.place, htask.kept.fits, htask.quits h.quits,
      htask.stream _ _ h.stream⟩

theorem seated_step (h : p.session.Seated i said handled p.connection) (around : Surroundings)
    (e : SessionEvent) :
    (p.step around i e).session.Seated i (said ++ p.saying e) (handled ++ p.handling around i e)
      (p.step around i e).connection := by
  have quiet : ∀ {s : Session} {c : Connection}, s.Seated i said handled c →
      s.Seated i (said ++ []) (handled ++ []) c := by
    intro s c h
    rwa [List.append_nil, List.append_nil]
  cases e with
  | say message =>
    have hsaid := seated_say h around message
    rw [← List.append_nil handled] at hsaid
    exact hsaid
  | finish => exact quiet (seated_aside h ⟨rfl, rfl⟩ rfl rfl rfl rfl rfl)
  | rewire wire => exact quiet (seated_aside h ⟨rfl, rfl⟩ rfl rfl rfl rfl rfl)
  | read => exact quiet (seated_move h fun s' c' hs => Session.readerStep_task h.fits hs)
  | write => exact quiet (seated_move h fun s' c' hs => Session.writerStep_task h.fits hs)
  | beat => exact quiet (seated_move h fun s' c' hs => Session.heartbeatStep_task h.fits hs)
  | serve =>
    have hserved := seated_serve h around
    rw [← List.append_nil said] at hserved
    exact hserved

theorem step_standing (h : p.session.Seated i said handled p.connection) (around : Surroundings)
    {e : SessionEvent} (he : e ≠ .serve) :
    (p.step around i e).seat = p.seat ∧
      (p.step around i e).connection.standing = p.connection.standing ∧
      (p.step around i e).session.handler = p.session.handler := by
  have task : ∀ {next : Option (Session × Connection)}, (∀ s' c', next = some (s', c') →
      Session.TaskStep p.session s' p.connection c') →
      (p.move next).seat = p.seat ∧ (p.move next).connection.standing = p.connection.standing ∧
        (p.move next).session.handler = p.session.handler := by
    intro next ht
    cases next with
    | none => exact ⟨rfl, rfl, rfl⟩
    | some sc => exact ⟨rfl, (ht _ _ rfl).standing, (ht _ _ rfl).handler⟩
  cases e with
  | say message =>
    rw [step]
    split <;> exact ⟨rfl, rfl, rfl⟩
  | finish => exact ⟨rfl, rfl, rfl⟩
  | rewire wire => exact ⟨rfl, rfl, rfl⟩
  | read => exact task fun s' c' hstep => Session.readerStep_task h.fits hstep
  | write => exact task fun s' c' hstep => Session.writerStep_task h.fits hstep
  | beat => exact task fun s' c' hstep => Session.heartbeatStep_task h.fits hstep
  | serve => exact absurd rfl he

end SessionPart

/-- Events of membership that have led to the registry of a server, with each handler where it stands in
them. -/
structure Server.Attended (events : List MembershipEvent) (srv : Server) : Prop where
  registry : RoomCast.Attended events srv.registry
  phase : ∀ (i : Nat) (s : Session), srv.sessions[i]? = some s → s.handler.Phase events i

theorem touch_spares (i j : Nat) : MembershipEvent.Spares (.touch i .close) j :=
  ⟨by simp, by simp, rfl⟩

theorem Attended.effect {events : List MembershipEvent} {r r' : Registry} (h : Attended events r)
    {i : Nat} {c c' : Connection} (hc : r.roster[i]? = some c)
    (he : r.SeatEffect r' i c c' (r.seatOf c.id)) (hst : c'.standing = c.standing) :
    Attended (events ++ [.touch i .close]) r' := by
  obtain ⟨_, _, hrooms⟩ := Connection.standing_inj hst
  have hk := h.kept i c hc
  refine h.at_seat hc (fun j _ => touch_spares i j) he.sound he.roster he.id ?_ ?_ ?_ (by simp)
  · intro id hne
    rw [he.seats, if_neg hne]
  · intro room id hne
    rw [he.members, if_neg hne]
  · refine hk.spared (touch_spares i i) hst ?_ fun room => ?_
    · rw [he.seats, if_pos rfl]
    · rw [he.members, if_pos rfl, hrooms]
      exact hk.agree room

theorem Connection.of_bare {c c' : Connection} (h : c'.bare = c.bare) :
    c'.closed = c.closed ∧ c'.receiving = c.receiving := by
  have hclosed := congrArg Connection.closed h
  have hreceiving := congrArg Connection.receiving h
  exact ⟨hclosed, hreceiving⟩

namespace LifeTrace

/-- What holds at every time: the registry is attended, and each session sits on the seat of its number
with its stream. -/
structure Kept (t : LifeTrace) : Prop where
  attended : ∃ events, t.server.Attended events
  paired : t.server.sessions.length = t.server.registry.roster.length
  seated : ∀ (i : Nat) (s : Session) (c : Connection), t.server.sessions[i]? = some s →
    t.server.registry.roster[i]? = some c → s.Seated i (t.said i) (t.handled i) c
  unheard : ∀ i, t.server.sessions.length ≤ i → t.said i = [] ∧ t.handled i = []

theorem start_kept (settings : Settings) (identities : IdentitySource) (showsFigures : Bool) :
    (start settings identities showsFigures).Kept := by
  refine ⟨⟨[], create_attended settings.registry, ?_⟩, rfl, ?_, fun _ _ => ⟨rfl, rfl⟩⟩
  · intro i s hs
    simp [start, Server.create] at hs
  · intro i s c hs
    simp [start, Server.create] at hs

section Kept

variable {t : LifeTrace} (h : t.Kept)

include h in
theorem Kept.hosts {i : Nat} {s : Session} {c : Connection} (hs : t.server.sessions[i]? = some s)
    (hc : t.server.registry.roster[i]? = some c) :
    t.server.Hosts i ⟨s, c, t.server.registry.seatOf c.id⟩ := by
  obtain ⟨events, ha⟩ := h.attended
  have hk := ha.registry.kept i c hc
  have hseated := h.seated i s c hs hc
  exact ⟨ha.registry.sound, hs, hc, rfl, hseated.place, hseated.fits, hk.agree, hk.nodup⟩

include h in
theorem Kept.connection {i : Nat} {s : Session} (hs : t.server.sessions[i]? = some s) :
    ∃ c, t.server.registry.roster[i]? = some c := by
  have hlt : i < t.server.registry.roster.length :=
    h.paired ▸ (List.getElem?_eq_some_iff.mp hs).1
  exact ⟨_, List.getElem?_eq_getElem hlt⟩

include h in
theorem Kept.session?_iff {i : Nat} {s : Session} {c : Connection} :
    t.server.session? i = some (s, c) ↔
      t.server.sessions[i]? = some s ∧ t.server.registry.roster[i]? = some c := by
  constructor
  · intro hsc
    unfold Server.session? at hsc
    split at hsc
    next => simp at hsc
    next s' hs =>
      obtain ⟨d, hd⟩ := h.connection hs
      obtain ⟨c', hc, he⟩ := Option.map_eq_some_iff.mp hsc
      obtain ⟨rfl, rfl⟩ := Prod.mk.inj he
      rw [(h.seated i _ d hs hd).place] at hc
      exact ⟨hs, hc⟩
  · rintro ⟨hs, hc⟩
    exact (h.hosts hs hc).session?

include h in
theorem Kept.part?_cases (i : Nat) :
    (t.server.sessions[i]? = none ∧ t.server.part? i = none) ∨
      ∃ p, t.server.part? i = some p ∧ t.server.Hosts i p := by
  cases hs : t.server.sessions[i]? with
  | none => exact Or.inl ⟨rfl, by simp only [Server.part?, Server.session?, hs, Option.map_none]⟩
  | some s =>
    obtain ⟨c, hc⟩ := h.connection hs
    exact Or.inr ⟨_, (h.hosts hs hc).part?, h.hosts hs hc⟩

include h in
theorem Kept.aside {t' : LifeTrace} (hsaid : t'.said = t.said) (hhandled : t'.handled = t.handled)
    (hsessions : t'.server.sessions = t.server.sessions)
    (hshards : t'.server.registry.shards = t.server.registry.shards)
    (hbare : t'.server.registry.roster.map Connection.bare =
      t.server.registry.roster.map Connection.bare) : t'.Kept := by
  obtain ⟨events, ha⟩ := h.attended
  have hst := congrArg (List.map Connection.standing) hbare
  rw [List.map_map, List.map_map] at hst
  refine ⟨⟨events ++ [.touch 0 .close], ha.registry.aside (touch_spares 0) hshards hst, ?_⟩, ?_, ?_, ?_⟩
  · intro i s hs
    exact (ha.phase i s (hsessions ▸ hs)).spared (touch_spares 0 i)
  · have hlen := congrArg List.length hbare
    rw [List.length_map, List.length_map] at hlen
    rw [hsessions, h.paired, hlen]
  · intro i s c' hs hc'
    obtain ⟨c, hc, he⟩ := getElem?_of_map_eq hbare.symm hc'
    have hseated := h.seated i s c (hsessions ▸ hs) hc
    obtain ⟨hclosed, hreceiving⟩ := Connection.of_bare he
    rw [hsaid, hhandled]
    refine ⟨hseated.place, ⟨?_, ?_, ?_⟩, ?_, hseated.stream⟩
    · exact hseated.fits.id.trans (Connection.id_of_bare he)
    · rw [← hreceiving, ← hclosed]
      exact hseated.fits.queue
    · rw [← hclosed]
      exact hseated.fits.writer
    · rw [Session.Quits, ← hclosed]
      exact hseated.quits
  · intro i hi
    rw [hsaid, hhandled]
    exact h.unheard i (hsessions ▸ hi)

include h in
theorem Kept.putRegistry {r : Registry} (hshards : r.shards = t.server.registry.shards)
    (hbare : r.roster.map Connection.bare = t.server.registry.roster.map Connection.bare) :
    (t.putRegistry r).Kept :=
  h.aside rfl rfl rfl hshards hbare

end Kept

theorem sessions_at {srv srv' : Server} {i : Nat} {p p' : SessionPart} (hp : srv.Hosts i p)
    (hstep : Server.PartStep srv srv' i p p') (j : Nat) :
    srv'.sessions[j]? = if i = j then some p'.session else srv.sessions[j]? := by
  rw [hstep.sessions, getElem?_set_of_some hp.session]

theorem attended_task {events : List MembershipEvent} {srv : Server} (ha : srv.Attended events)
    {i : Nat} {p : SessionPart} (hp : srv.Hosts i p) {said : List ClientMessage}
    {handled : List Envelope} (hseated : p.session.Seated i said handled p.connection)
    {e : SessionEvent} (he : e ≠ .serve) :
    (srv.follow i e).Attended (events ++ [.touch i .close]) := by
  have hstep := hp.follow e
  obtain ⟨hseat, hst, hhandler⟩ := p.step_standing hseated srv.surroundings he
  rw [hp.seat] at hseat
  refine ⟨ha.registry.effect hp.connection (hseat ▸ hstep.registry) hst, fun j s hs => ?_⟩
  rw [sessions_at hp hstep] at hs
  by_cases hj : i = j
  · rw [if_pos hj] at hs
    cases Option.some.inj hs
    rw [hhandler, ← hj]
    exact (ha.phase i p.session hp.session).spared (touch_spares i i)
  · rw [if_neg hj] at hs
    exact (ha.phase j s hs).spared (touch_spares i j)

theorem attended_serve {events : List MembershipEvent} {srv : Server} (ha : srv.Attended events)
    {i : Nat} {p : SessionPart} (hp : srv.Hosts i p) :
    ∃ events', (srv.follow i .serve).Attended events' := by
  have hstep := hp.serve
  obtain ⟨figures, heq⟩ := hp.serve_eq
  have hphase := ha.phase i p.session hp.session
  have hlt := (List.getElem?_eq_some_iff.mp hp.connection).1
  -- an event that is about this seat, with the phase of the handler after it
  have asked : ∀ e : MembershipEvent, p.asks srv.surroundings i = some e →
      MayFollow events srv.registry e → (∀ j, i ≠ j → e.Spares j) →
      (p.serve srv.surroundings i).session.handler.Phase (events ++ [e]) i →
      ∃ events', (srv.follow i .serve).Attended events' := by
    intro e hasks hmay hspares hnext
    refine ⟨events ++ [e], ?_, fun j s hs => ?_⟩
    · rw [heq, hasks]
      exact ha.registry.event hmay
    · rw [sessions_at hp hstep] at hs
      by_cases hj : i = j
      · rw [if_pos hj] at hs
        cases Option.some.inj hs
        exact hj ▸ hnext
      · rw [if_neg hj] at hs
        exact (ha.phase j s hs).spared (hspares j hj)
  rcases p.serve_cases srv.surroundings i with ⟨hh, hasks, hserve⟩ | ⟨hh, _, hasks, hserve⟩ |
    ⟨e, rest, hh, _, _, _, hasks, hserve⟩ | ⟨_, hasks, hserve⟩
  · rw [hh] at hphase
    refine asked _ hasks ⟨hlt, hphase⟩ (fun j hj => ⟨by simpa using hj, by simp, rfl⟩) ?_
    rw [hserve]
    have hnew : .teardown i ∉ events := fun hm => hphase (ha.registry.order i hm)
    simp [HandlerState.Phase, Live, hnew]
  · rw [hh] at hphase
    refine asked _ hasks hphase (fun j hj => ⟨by simp, by simpa using hj, rfl⟩) ?_
    rw [hserve]
    simp [HandlerState.Phase, Live]
  · rw [hh] at hphase
    refine asked _ hasks hphase
      (fun j hj => ⟨by simp, by simp, by simp [MembershipEvent.requestOf, hj]⟩) ?_
    rw [hserve]
    have hlive : Live events i := hphase
    simp [hh, HandlerState.Phase, Live, hlive.1, hlive.2]
  · refine ⟨events, ?_, fun j s hs => ?_⟩
    · rw [heq, hasks]
      exact ha.registry
    · rw [hstep.sessions, hserve, set_same hp.session] at hs
      exact ha.phase j s hs

theorem step_own {t : LifeTrace} {i : Nat} {p : SessionPart} (hp : t.server.part? i = some p)
    (e : SessionEvent) : (t.step (.own i e)).server = t.server.follow i e ∧
      (t.step (.own i e)).said = note t.said i (p.saying e) ∧
      (t.step (.own i e)).handled =
        note t.handled i (p.handling t.server.surroundings i e) := by
  simp only [step, hp, and_self]

theorem step_own_none {t : LifeTrace} {i : Nat} (hn : t.server.part? i = none) (e : SessionEvent) :
    t.step (.own i e) = t := by
  simp only [step, hn]

theorem Kept.own {t : LifeTrace} (h : t.Kept) (i : Nat) (e : SessionEvent) :
    (t.step (.own i e)).Kept := by
  rcases h.part?_cases i with ⟨_, hnone⟩ | ⟨p, hpart, hp⟩
  · rw [step_own_none hnone]
    exact h
  obtain ⟨hserver, hsaid, hhandled⟩ := step_own hpart e
  have hstep := hp.follow e
  have hseated := h.seated i p.session p.connection hp.session hp.connection
  have hlength : (t.server.follow i e).sessions.length = t.server.sessions.length := by
    rw [hstep.sessions, List.length_set]
  refine ⟨?_, ?_, ?_, ?_⟩
  · obtain ⟨events, ha⟩ := h.attended
    rw [hserver]
    by_cases he : e = .serve
    · subst he
      exact attended_serve ha hp
    · exact ⟨_, attended_task ha hp hseated he⟩
  · have hids := congrArg List.length (hstep.registry.ids hp.connection)
    rw [List.length_map, List.length_map] at hids
    rw [hserver, hlength, hids, h.paired]
  · intro j s c hs hc
    rw [hserver, sessions_at hp hstep] at hs
    rw [hserver, hstep.registry.roster] at hc
    rw [hsaid, hhandled]
    by_cases hj : i = j
    · subst hj
      rw [if_pos rfl] at hs hc
      cases Option.some.inj hs
      cases Option.some.inj hc
      rw [note_self, note_self]
      exact p.seated_step hseated t.server.surroundings e
    · rw [if_neg hj] at hs hc
      rw [note_other _ (Ne.symm hj), note_other _ (Ne.symm hj)]
      exact h.seated j s c hs hc
  · intro j hj
    rw [hserver, hlength] at hj
    have hne : j ≠ i := by
      have hlt := (List.getElem?_eq_some_iff.mp hp.session).1
      omega
    rw [hsaid, hhandled, note_other _ hne, note_other _ hne]
    exact h.unheard j hj

theorem openSession_cases (srv : Server) (id : ConnectionId) (answersPings : Bool) (wire : WireMode) :
    ∃ s c, (srv.openSession id answersPings wire).1 = { srv with
        registry := (srv.registry.seatConnection c).1
        sessions := srv.sessions ++ [s] } ∧
      c.standing = (Connection.create id srv.settings.socket.limits srv.now).standing ∧
      s.handler ≠ .running ∧ s.Seated srv.registry.roster.length [] [] c := by
  by_cases hr : srv.settings.socket.limits.canRun = true
  · simp only [Server.openSession, if_pos hr]
    refine ⟨_, _, rfl, rfl, by simp [Session.create], rfl, ⟨rfl, fun hn => Bool.noConfusion hn,
      False.elim⟩, ?_, List.nil_prefix, fun _ _ => ⟨[], rfl, by simp, rfl⟩⟩
    simp [Session.Quits, Session.create]
  · simp only [Server.openSession, if_neg hr]
    have hclosed :
        (Connection.create id srv.settings.socket.limits srv.now).close.1.dropQueue.closed = true := by
      rw [Connection.close_cases]
      rfl
    refine ⟨_, _, rfl, Session.close_standing _, by simp [Session.abandon], rfl,
      ⟨?_, fun _ => hclosed, fun _ => hclosed⟩, fun _ => hclosed, List.nil_prefix,
      fun hn => absurd rfl hn⟩
    rw [Connection.close_cases]
    rfl

theorem Kept.connect {t : LifeTrace} (h : t.Kept) (id : ConnectionId) (answersPings : Bool)
    (wire : WireMode) : (t.step (.connect id answersPings wire)).Kept := by
  by_cases hid : id ∈ t.server.registry.roster.map (·.id)
  · simp only [step, if_pos hid]
    exact h
  simp only [step, if_neg hid]
  obtain ⟨s, c, heq, hst, hhandler, hseated⟩ := openSession_cases t.server id answersPings wire
  rw [heq]
  have hpaired := h.paired
  refine ⟨?_, ?_, ?_, ?_⟩
  · obtain ⟨events, ha⟩ := h.attended
    have hconnect := ha.registry.connect hid t.server.settings.socket.limits t.server.now
    have hspares : ∀ j, MembershipEvent.Spares
        (.connect id t.server.settings.socket.limits t.server.now) j := fun j => ⟨by simp, by simp, rfl⟩
    refine ⟨_, hconnect.aside (touch_spares 0) rfl ?_, fun j s' hs => ?_⟩
    · simp [Registry.seatConnection, Registry.after, hst]
    · refine HandlerState.Phase.spared ?_ (touch_spares 0 j)
      refine HandlerState.Phase.spared ?_ (hspares j)
      rcases getElem?_snoc_cases hs with hs | ⟨hj, rfl⟩
      · exact ha.phase j s' hs
      · -- nothing has been about the new seat
        have hnew := (ha.registry.entered j (by omega)).1
        cases hh : s'.handler with
        | starting => exact hnew
        | running => exact absurd hh hhandler
        | ended => exact fun hl => hnew hl.1
  · simp [Registry.seatConnection, hpaired]
  · intro j s' c' hs hc
    change (t.server.sessions ++ [s])[j]? = some s' at hs
    change (t.server.registry.roster ++ [c])[j]? = some c' at hc
    rcases getElem?_snoc_cases hs with hs | ⟨hj, rfl⟩ <;>
      rcases getElem?_snoc_cases hc with hc | ⟨hj', rfl⟩
    · exact h.seated j s' c' hs hc
    · exact absurd (List.getElem?_eq_some_iff.mp hs).1 (by omega)
    · exact absurd (List.getElem?_eq_some_iff.mp hc).1 (by omega)
    · obtain ⟨hsaid, hhandled⟩ := h.unheard j (Nat.le_of_eq hj.symm)
      have hnew : s'.Seated j (t.said j) (t.handled j) c' := by
        rw [hsaid, hhandled, hj']
        exact hseated
      exact hnew
  · intro j hj
    exact h.unheard j (by simp at hj; omega)

theorem Kept.step {t : LifeTrace} (h : t.Kept) (e : LifeEvent) : (t.step e).Kept := by
  cases e with
  | connect id answersPings wire => exact h.connect id answersPings wire
  | own i e => exact h.own i e
  | elapse duration => exact h.aside rfl rfl rfl rfl rfl
  | push job =>
    obtain ⟨hshards, hroster⟩ := t.server.registry.push_tables job
    exact h.putRegistry hshards (by rw [hroster])
  | move m =>
    simp only [LifeTrace.step]
    cases hm : t.server.registry.move m with
    | none => exact h.putRegistry rfl rfl
    | some r =>
      have hu := (Registry.move_step hm).unmoved
      exact h.putRegistry hu.shards hu.bare
  | stop => exact h.aside rfl rfl rfl rfl rfl
  | stopWorkers =>
    simp only [LifeTrace.step]
    split
    next => exact h.putRegistry rfl rfl
    next => exact h

theorem run_kept {t : LifeTrace} (h : t.Kept) (events : List LifeEvent) : (t.run events).Kept := by
  induction events using List.reverseRecOn with
  | nil => exact h
  | append_singleton events e ih =>
    rw [run, List.foldl_append]
    exact ih.step e

section Endings

variable {t : LifeTrace} (h : t.Kept) {i : Nat} {s : Session} {c : Connection}
  (hs : t.server.sessions[i]? = some s)

include h hs in
/-- Whichever task ends first, the connection is closed. -/
theorem Kept.closed (hc : t.server.registry.roster[i]? = some c)
    (hq : s.reader = .ended ∨ s.writer.HasQuit ∨ s.handler = .ended) : c.closed = true := by
  have hseated := h.seated i s c hs hc
  rcases hq with hq | hq | hq
  · exact hseated.quits (Or.inl hq)
  · exact hseated.fits.writer hq
  · exact hseated.quits (Or.inr hq)

include h hs in
/-- An identity whose handler has ended is held by no shard, and in no room. -/
theorem Kept.cleared (he : s.handler = .ended) {shard : Shard}
    (hshard : shard ∈ t.server.registry.shards) :
    shard.connections.get? s.id = none ∧ ∀ room, s.id ∉ (shard.roomOf room).members := by
  obtain ⟨c, hc⟩ := h.connection hs
  obtain ⟨events, ha⟩ := h.attended
  have hid : s.id = c.id := (h.seated i s c hs hc).fits.id
  have hk := ha.registry.kept i c hc
  have hphase := ha.phase i s hs
  rw [he] at hphase
  have hdead : ¬Live events i := hphase
  obtain ⟨k, hk'⟩ := List.mem_iff_getElem?.mp hshard
  rw [hid]
  constructor
  · cases hg : shard.connections.get? c.id with
    | none => rfl
    | some seat =>
      have hseat : t.server.registry.seatOf c.id = some seat := by
        rw [Registry.seatOf, ha.registry.sound.shardFor_of_seat hk' hg]
        exact hg
      obtain ⟨c', hc', hid'⟩ := ha.registry.sound.seated c.id seat hseat
      rw [ha.registry.seat_unique hc hc' hid'] at hseat
      exact absurd (hk.registered.mp hseat) hdead
  · intro room hm
    have hmember : t.server.registry.IsMember room c.id := by
      rw [Registry.IsMember, ha.registry.sound.shardFor_of_member hk' hm]
      exact hm
    have hin := (hk.agree room).mpr hmember
    rw [hk.idle hdead] at hin
    exact List.not_mem_nil hin

theorem handling_quiet {around : Surroundings} {p : SessionPart} {e : SessionEvent}
    (he : e ≠ .serve) : p.handling around i e = [] := by
  cases e with
  | serve => exact absurd rfl he
  | _ => rfl

include h hs in
/-- A handler that has ended stays so, and handles nothing any more. -/
theorem Kept.step_ended (he : s.handler = .ended) (e : LifeEvent) :
    ∃ s', (t.step e).server.sessions[i]? = some s' ∧ s'.handler = .ended ∧
      (t.step e).handled i = t.handled i := by
  cases e with
  | connect id answersPings wire =>
    simp only [LifeTrace.step]
    split
    next => exact ⟨s, hs, he, rfl⟩
    next =>
      refine ⟨s, ?_, he, rfl⟩
      rw [Server.openSession, List.getElem?_append_left (List.getElem?_eq_some_iff.mp hs).1, hs]
  | own j e =>
    rcases h.part?_cases j with ⟨_, hnone⟩ | ⟨p, hpart, hp⟩
    · rw [step_own_none hnone]
      exact ⟨s, hs, he, rfl⟩
    obtain ⟨hserver, _, hhandled⟩ := step_own hpart e
    rw [hserver, hhandled, sessions_at hp (hp.follow e)]
    by_cases hj : j = i
    · subst hj
      rw [if_pos rfl, note_self]
      have hsame : p.session.handler = .ended := by
        rw [← he, Option.some.inj (hp.session.symm.trans hs)]
      refine ⟨_, rfl, ?_⟩
      by_cases hserve : e = .serve
      · subst hserve
        have hidle : p.asks t.server.surroundings j = none ∧ p.serve t.server.surroundings j = p := by
          simp only [SessionPart.asks, SessionPart.serve, hsame, and_self]
        simp only [SessionPart.step, SessionPart.handling, hidle, hsame, Option.bind_none,
          Option.toList_none, List.append_nil, and_self]
      · have hseated := h.seated j p.session p.connection hp.session hp.connection
        rw [(p.step_standing hseated t.server.surroundings hserve).2.2, handling_quiet hserve,
          List.append_nil]
        exact ⟨hsame, rfl⟩
    · rw [if_neg hj, note_other _ (Ne.symm hj)]
      exact ⟨s, hs, he, rfl⟩
  | elapse duration => exact ⟨s, hs, he, rfl⟩
  | push job => exact ⟨s, hs, he, rfl⟩
  | move m => exact ⟨s, hs, he, rfl⟩
  | stop => exact ⟨s, hs, he, rfl⟩
  | stopWorkers =>
    simp only [LifeTrace.step]
    split <;> exact ⟨s, hs, he, rfl⟩

include h hs in
theorem Kept.run_ended (he : s.handler = .ended) (events : List LifeEvent) :
    ∃ s', (t.run events).server.sessions[i]? = some s' ∧ s'.handler = .ended ∧
      (t.run events).handled i = t.handled i := by
  induction events using List.reverseRecOn with
  | nil => exact ⟨s, hs, he, rfl⟩
  | append_singleton events e ih =>
    obtain ⟨s₁, hs₁, he₁, hsame⟩ := ih
    obtain ⟨s₂, hs₂, he₂, hstep⟩ := (run_kept h events).step_ended hs₁ he₁ e
    rw [run, List.foldl_append]
    exact ⟨s₂, hs₂, he₂, hstep.trans hsame⟩

end Endings

end LifeTrace

end RoomCast
