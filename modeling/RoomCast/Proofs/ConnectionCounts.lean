import RoomCast.Proofs.RegistryUnion
import RoomCast.Proofs.Shutdown
import RoomCast.Service

namespace RoomCast

namespace Registry

theorem connectionCount_congr {r r' : Registry} (hs : r.Sound) (hs' : r'.Sound)
    (h : ∀ id, r'.seatOf id = r.seatOf id) : r'.connectionCount = r.connectionCount := by
  have hsame : r'.identities = r.identities := by
    ext id
    rw [mem_identities hs', mem_identities hs, h]
  rw [connectionCount_eq_card hs', connectionCount_eq_card hs, hsame]

theorem connectionCount_succ {r r' : Registry} (hs : r.Sound) (hs' : r'.Sound) {id : ConnectionId}
    {seat : Nat} (hnone : r.seatOf id = none)
    (h : ∀ x, r'.seatOf x = if id = x then some seat else r.seatOf x) :
    r'.connectionCount = r.connectionCount + 1 := by
  have hnew : id ∉ r.identities := by
    rw [mem_identities hs, hnone]
    simp
  have hinsert : r'.identities = insert id r.identities := by
    ext x
    rw [mem_identities hs', Finset.mem_insert, mem_identities hs, h]
    by_cases hx : id = x
    · simp [hx]
    · simp [hx, Ne.symm hx]
  rw [connectionCount_eq_card hs', connectionCount_eq_card hs, hinsert,
    Finset.card_insert_of_notMem hnew]

theorem teardown_held {r : Registry} (hs : r.Sound) {seat : Nat} {c : Connection}
    (hc : r.roster[seat]? = some c) : (r.teardown seat).2 = (r.seatOf c.id).isSome := by
  obtain ⟨_, _, hseats, _⟩ := left_members hs seat c
  rw [← hseats]
  simp only [teardown, connection?, hc]
  rfl

end Registry

structure SessionCounters.Same (c c' : SessionCounters) : Prop where
  opened : c'.opened = c.opened
  ended : c'.ended = c.ended
  active : c'.active = c.active

namespace Server

/-- A handler tears its connection down; it is counted if its shard still held it. -/
def tearDown (srv : Server) (s : Session) : Server :=
  let (registry, held) := srv.registry.teardown s.seat
  { srv with
    registry := registry
    figures := if held then
      { srv.figures with ended := srv.figures.ended + 1, active := srv.figures.active - 1 }
      else srv.figures }

theorem endHandler_eq (srv : Server) (i : Nat) (s : Session) :
    srv.endHandler i s = { srv.tearDown s with
      sessions := srv.sessions.set i { s with handler := .ended, inbound := [] } } := rfl

theorem answerService_health (srv : Server) :
    (srv.answerService ⟨"GET", "/health", none, ""⟩).2 = ⟨200, .health srv.health⟩ := by
  have hpath : (HttpRequest.mk "GET" "/health" none "").path = "/health" := by decide +kernel
  simp [answerService, hpath, answerGet]

/-- Nothing that is counted has changed: the shards hold the same identities, and the handlers stand
where they stood. -/
structure Aside (srv srv' : Server) : Prop where
  housed : srv'.Housed
  seats : ∀ id, srv'.registry.seatOf id = srv.registry.seatOf id
  length : srv'.sessions.length = srv.sessions.length
  sits : ∀ i s' c', srv'.Sits i s' c' → ∃ s c, srv.Sits i s c ∧ s'.id = s.id ∧
    s'.handler = s.handler ∧ (c.closed = true → c'.closed = true)
  figures : srv.figures.Same srv'.figures

theorem openSession_id (srv : Server) (id : ConnectionId) (answersPings : Bool) (wire : WireMode) :
    (srv.openSession id answersPings wire).1.sessions.map (·.id) = srv.sessions.map (·.id) ++ [id] := by
  by_cases hr : srv.settings.socket.limits.canRun = true
  · simp [openSession, if_pos hr, Session.create]
  · simp [openSession, if_neg hr, Session.create, Session.abandon]

section TearDown

variable {srv : Server} {i : Nat} {s : Session} {c : Connection}

theorem tearDown_seats (hs : srv.Housed) (h : srv.Sits i s c) (id : ConnectionId) :
    (srv.tearDown s).registry.seatOf id = if s.id = id then none else srv.registry.seatOf id := by
  obtain ⟨hseat, hfits⟩ := hs.seated i s c h.1 h.2
  change (srv.registry.teardown s.seat).1.seatOf id = _
  rw [hseat, hfits.id]
  exact (Registry.teardown_tables hs.registry h.2).1 id

theorem tearDown_figures (hs : srv.Housed) (h : srv.Sits i s c) :
    (srv.tearDown s).figures = if (srv.registry.seatOf s.id).isSome then
      { srv.figures with ended := srv.figures.ended + 1, active := srv.figures.active - 1 }
      else srv.figures := by
  obtain ⟨hseat, hfits⟩ := hs.seated i s c h.1 h.2
  rw [hfits.id, ← Registry.teardown_held hs.registry h.2, ← hseat]
  rfl

end TearDown

section Steps

variable {srv srv' : Server} {i : Nat} {s s' : Session} {c c' : Connection}

theorem aside_tables (hs : srv.Housed) (hshards : srv'.registry.shards = srv.registry.shards)
    (hbare : srv'.registry.roster.map Connection.bare = srv.registry.roster.map Connection.bare)
    (hsessions : srv'.sessions = srv.sessions) (hfigures : srv'.figures = srv.figures) :
    Aside srv srv' := by
  have hsound : srv'.registry.Sound := by
    refine hs.registry.of_roster hshards fun seat c hc => ?_
    obtain ⟨c', hc', hb⟩ := getElem?_of_map_eq hbare hc
    have hid := congrArg Connection.id hb
    exact ⟨c', hc', hid⟩
  obtain ⟨_, hseats, hseated⟩ := hs.withRegistry hsound hbare
  have hhoused : srv'.Housed := by
    refine ⟨hsound, hsessions ▸ hseats, ?_⟩
    rw [hsessions]
    exact hseated
  refine ⟨hhoused, (Registry.shards_congr hshards).2.1, by rw [hsessions], fun i s' c' hsits => ?_, ?_⟩
  · obtain ⟨c, hc, hb⟩ := getElem?_of_map_eq hbare.symm hsits.2
    have hsame := congrArg Connection.closed hb
    simp only [Connection.bare] at hsame
    exact ⟨s', c, ⟨hsessions ▸ hsits.1, hc⟩, rfl, rfl, fun hclosed => hsame.symm.trans hclosed⟩
  · rw [hfigures]
    exact ⟨rfl, rfl, rfl⟩

theorem aside_refl (hs : srv.Housed) : Aside srv srv := aside_tables hs rfl rfl rfl rfl

theorem SessionStep.sits_cases (hstep : srv.SessionStep srv' i s s' c c') {j : Nat} {t : Session}
    {d : Connection} (h : srv'.Sits j t d) :
    (j = i ∧ t = s' ∧ d = c') ∨ (j ≠ i ∧ srv.Sits j t d) := by
  obtain ⟨ht, hd⟩ := h
  rw [hstep.session_at] at ht
  rw [hstep.seat.roster] at hd
  by_cases hj : i = j
  · rw [if_pos hj] at ht hd
    exact Or.inl ⟨hj.symm, (Option.some.inj ht).symm, (Option.some.inj hd).symm⟩
  · rw [if_neg hj] at ht hd
    exact Or.inr ⟨Ne.symm hj, ht, hd⟩

theorem SessionStep.aside (hstep : srv.SessionStep srv' i s s' c c') (hs : srv.Housed)
    (hseats : ∀ id, srv'.registry.seatOf id = srv.registry.seatOf id) (hh : s'.handler = s.handler)
    (hfigures : srv.figures.Same srv'.figures) : Aside srv srv' := by
  refine ⟨hstep.housed hs, hseats, ?_, fun j t d hsits => ?_, hfigures⟩
  · rw [hstep.sessions, List.length_set]
  · rcases hstep.sits_cases hsits with ⟨rfl, rfl, rfl⟩ | ⟨_, hsits⟩
    · exact ⟨s, c, ⟨hstep.session, hstep.connection⟩, hstep.same.1, hh, hstep.closed⟩
    · exact ⟨t, d, hsits, rfl, rfl, id⟩

theorem aside_task {figures : SessionCounters} (hs : srv.Housed)
    (h : srv.session? i = some (s, c))
    (moved : s.readerStep c = some (s', c') ∨
      s.writerStep c srv.now srv.settings.socket.writeTimeoutMs.toNat = some (s', c') ∨
      s.heartbeatStep c srv.now srv.settings.socket.heartbeatIntervalMs = some (s', c'))
    (hfigures : srv.figures.Same figures) :
    Aside srv { srv.putSession i s' c' with figures := figures } := by
  have hmove : srv.TaskMove i s c { srv.putSession i s' c' with figures := figures } s' c' :=
    .task moved
  obtain ⟨_, _, _, hfits⟩ := hs.session? h
  exact (hmove.sessionStep hs h).aside hs (fun _ => rfl) (task_rooms hfits moved).1 hfigures

theorem readerStep_aside (hs : srv.Housed) (h : srv.readerStep i = some srv') : Aside srv srv' := by
  obtain ⟨s, c, s', c', hsc, hstep, rfl⟩ := readerStep_some h
  exact aside_task hs hsc (.inl hstep) ⟨rfl, rfl, rfl⟩

theorem writerStep_aside (hs : srv.Housed) (h : srv.writerStep i = some srv') : Aside srv srv' := by
  obtain ⟨s, c, s', c', hsc, hstep, rfl⟩ := writerStep_some h
  exact aside_task hs hsc (.inr (.inl hstep)) ⟨rfl, rfl, rfl⟩

theorem heartbeatStep_aside (hs : srv.Housed) (h : srv.heartbeatStep i = some srv') :
    Aside srv srv' := by
  obtain ⟨s, c, s', c', hsc, hstep, rfl⟩ := heartbeatStep_some h
  exact aside_task hs hsc (.inr (.inr hstep)) ⟨rfl, rfl, rfl⟩

theorem handlerStep_cases (hs : srv.Housed) (h : srv.handlerStep i = some srv') :
    ∃ s s' c c', srv.SessionStep srv' i s s' c c' ∧
      ((s.handler = .starting ∧ s'.handler = .running ∧ srv' = srv.startHandler i s) ∨
        (s.handler = .running ∧ s'.handler = .ended ∧ c'.closed = true ∧ srv' = srv.endHandler i s) ∨
        (s.handler = .running ∧ s'.handler = .running ∧ Aside srv srv')) := by
  obtain ⟨s, c, hsc, hcases⟩ := handlerStep_some h
  obtain ⟨_, hc, hseat, _⟩ := hs.session? hsc
  rcases hcases with ⟨hh, rfl⟩ | ⟨hh, hover, rfl⟩ | ⟨hh, hgoes, e, rest, hwaits, rfl⟩
  · have hmove : srv.TaskMove i s c (srv.startHandler i s) _ c := .start hh
    exact ⟨s, _, c, c, hmove.sessionStep hs hsc, Or.inl ⟨hh, rfl, rfl⟩⟩
  · have hmove : srv.TaskMove i s c (srv.endHandler i s) _ _ := .finish hh hover
    refine ⟨s, _, c, _, hmove.sessionStep hs hsc, Or.inr (Or.inl ⟨hh, rfl, ?_, rfl⟩)⟩
    rw [c.close_takeRooms]
  · obtain ⟨c', hstep, ha⟩ := Registry.handle_seatStep hs.registry hc srv.now e
    have hc' : (srv.registry.handle i srv.now e).roster[i]? = some c' := by
      rw [hstep.roster, if_pos rfl]
    have hseats := (Registry.handle_follows hs.registry hc hc').seats
    have hseated : Registry.SeatStep srv.registry (srv.registry.handle s.seat srv.now e) i c c' := by
      rw [hseat]
      exact hstep
    have hmove := TaskMove.handle hh hgoes hwaits hseated ha
    have hsession := hmove.sessionStep hs hsc
    rw [← hseat] at hseats
    exact ⟨s, _, c, c', hsession, Or.inr (Or.inr ⟨hh, hh,
      hsession.aside hs hseats rfl ⟨rfl, rfl, rfl⟩⟩)⟩

theorem handlerStep_closed (hs : srv.Housed) (h : srv.Sits i s c) (hclosed : c.closed = true)
    (hnone : srv.handlerStep i = none) : s.handler = .ended := by
  rw [handlerStep, hs.session?_of h] at hnone
  cases hh : s.handler with
  | starting => simp [hh] at hnone
  | running => simp [hh, hclosed] at hnone
  | ended => rfl

theorem tearDown_step (hs : srv.Housed) (hi : srv.sessions[i]? = some s)
    (hc : srv.registry.roster[i]? = some c) :
    srv.SessionStep (srv.tearDown s) i s s c (c.close.1.takeRooms).2 := by
  obtain ⟨hseat, hfits⟩ := hs.seated i s c hi hc
  have hclosed : (c.close.1.takeRooms).2.closed = true := by rw [c.close_takeRooms]
  have hid : (c.close.1.takeRooms).2.id = c.id := by rw [c.close_takeRooms]
  refine ⟨⟨rfl, rfl, rfl⟩, hi, (set_same hi).symm, hc, ?_, ⟨rfl, rfl⟩, ?_, fun _ => hclosed,
    fun ho => ?_⟩
  · rw [tearDown, hseat]
    exact Registry.teardown_seatStep hs.registry hc
  · exact ⟨hfits.id.trans hid.symm, fun _ => hclosed, fun _ => hclosed⟩
  · exact absurd (hclosed.symm.trans ho) (by simp)

end Steps

end Server

namespace ServerTrace

variable {t : ServerTrace}

theorem moveMerge_aside (hs : t.server.Housed) (next : Option MergeMove) :
    t.server.Aside (t.moveMerge next).server := by
  match next with
  | none => exact Server.aside_refl hs
  | some (m, none) => exact Server.aside_tables hs rfl rfl rfl rfl
  | some (m, some commit) =>
    obtain ⟨hshards, hroster⟩ := t.server.registry.push_tables ⟨commit.target, commit.payload⟩
    exact Server.aside_tables hs hshards (congrArg _ hroster) rfl rfl

theorem move_aside (hs : t.server.Housed) {next : Option Server}
    (h : ∀ srv, next = some srv → t.server.Aside srv) : t.server.Aside (t.move next).server := by
  cases next with
  | none => exact Server.aside_refl hs
  | some srv => exact h srv rfl

theorem updateSession_aside (hs : t.server.Housed) (i : Nat) {f : Session → Session}
    (hf : ∀ s : Session, s.Told (f s)) : t.server.Aside (t.server.updateSession i f) := by
  refine ⟨(updateSession_stepped hs i hf).housed hs, fun _ => rfl, List.length_modify .., ?_,
    ⟨rfl, rfl, rfl⟩⟩
  intro j s' c hsits
  have hmodified := hsits.1
  rw [Server.updateSession, List.getElem?_modify] at hmodified
  obtain ⟨s, hs', rfl⟩ := Option.map_eq_some_iff.mp hmodified
  refine ⟨s, c, ⟨hs', hsits.2⟩, ?_⟩
  by_cases hj : i = j
  · simp only [if_pos hj]
    exact ⟨(hf s).same.1, (hf s).tasks.2.1, id⟩
  · simp [hj]

def ShutdownEvent.Counts : ShutdownEvent → Prop
  | .serve (.connect _ _ _) => True
  | .serve (.serve _) => True
  | _ => False

theorem undergo_aside (hs : t.server.Housed) {e : ShutdownEvent} (he : ¬e.Counts) :
    t.server.Aside (t.undergo e).server := by
  have idle := Server.aside_refl hs
  cases e with
  | serve e =>
    cases e with
    | publishAll form =>
      cases hp : Publish.toAll? form <;> simpa [undergo, step, accept, hp] using idle
    | publishRoom form =>
      cases hp : Publish.toRoom? form <;> simpa [undergo, step, accept, hp] using idle
    | forward =>
      simp only [undergo, step, ServerTrace.forward]
      split
      next => exact idle
      next => exact Server.aside_tables hs rfl rfl rfl rfl
    | takeItem lane => exact moveMerge_aside hs _
    | fire timer => exact moveMerge_aside hs _
    | takeExpiry lane => exact moveMerge_aside hs _
    | pipeline m =>
      refine move_aside hs fun srv h => ?_
      obtain ⟨r, hr, rfl⟩ := Option.map_eq_some_iff.mp h
      have hu := (Registry.move_step hr).unmoved
      exact Server.aside_tables hs hu.shards hu.bare rfl rfl
    | clock time => exact Server.aside_tables hs rfl rfl rfl rfl
    | connect id answersPings wire => exact absurd trivial he
    | arrive i message =>
      exact updateSession_aside hs i fun s => ⟨⟨rfl, rfl⟩, ⟨rfl, rfl, rfl⟩, rfl⟩
    | finish i => exact updateSession_aside hs i fun s => ⟨⟨rfl, rfl⟩, ⟨rfl, rfl, rfl⟩, rfl⟩
    | rewire i wire => exact updateSession_aside hs i fun s => ⟨⟨rfl, rfl⟩, ⟨rfl, rfl, rfl⟩, rfl⟩
    | read i => exact move_aside hs fun srv h => Server.readerStep_aside hs h
    | write i => exact move_aside hs fun srv h => Server.writerStep_aside hs h
    | beat i => exact move_aside hs fun srv h => Server.heartbeatStep_aside hs h
    | serve i => exact absurd trivial he
  | offer item => exact Server.aside_tables hs rfl rfl rfl rfl
  | push job =>
    obtain ⟨hshards, hroster⟩ := t.server.registry.push_tables job
    exact Server.aside_tables hs hshards (congrArg _ hroster) rfl rfl
  | stopMerge => exact Server.aside_tables hs rfl rfl rfl rfl
  | stopRegistry => exact Server.aside_tables hs rfl rfl rfl rfl
  | stop => exact Server.aside_tables hs rfl rfl rfl rfl
  | endMerge =>
    simp only [undergo, Server.endMerge]
    split
    next => exact Server.aside_tables hs rfl rfl rfl rfl
    next => exact idle
  | endRegistry =>
    simp only [undergo, Server.endRegistry]
    split
    next => exact Server.aside_tables hs rfl rfl rfl rfl
    next => exact idle

end ServerTrace

/-- What can happen to a server whose sessions are torn down from outside as well. -/
inductive CountEvent where
  | undergo (e : ServerTrace.ShutdownEvent)
  | tearDown (session : Nat)

/-- A server with the sessions whose handlers have registered, those that have been torn down, as often
as they were, and those for which an ended connection has been counted. -/
structure CountTrace where
  trace : ServerTrace
  registered : List Nat
  tornDown : List Nat
  counted : List Nat

namespace CountTrace

def server (k : CountTrace) : Server := k.trace.server

def start (srv : Server) : CountTrace := ⟨.start srv, [], [], []⟩

def note (k : CountTrace) (i : Nat) (srv : Server) (registers leaves : Bool) : CountTrace where
  trace := { k.trace with server := srv }
  registered := if registers then k.registered ++ [i] else k.registered
  tornDown := if leaves then k.tornDown ++ [i] else k.tornDown
  counted := k.counted ++ List.replicate (srv.figures.ended - k.server.figures.ended) i

def handlerIs (srv : Server) (i : Nat) (h : HandlerState) : Bool :=
  srv.sessions[i]?.any fun s => s.handler = h

def serve (k : CountTrace) (i : Nat) : CountTrace :=
  match k.server.handlerStep i with
  | none => k
  | some srv => k.note i srv (handlerIs k.server i .starting) (handlerIs srv i .ended)

def tearDown (k : CountTrace) (i : Nat) : CountTrace :=
  match k.server.sessions[i]? with
  | none => k
  | some s => k.note i (k.server.tearDown s) false true

/-- The trace after an event. An identity that a session has is not given to another. -/
def step (k : CountTrace) : CountEvent → CountTrace
  | .undergo (.serve (.connect id answersPings wire)) =>
    if id ∈ k.server.sessions.map (·.id) then k
    else { k with trace := k.trace.undergo (.serve (.connect id answersPings wire)) }
  | .undergo (.serve (.serve i)) => k.serve i
  | .undergo e => { k with trace := k.trace.undergo e }
  | .tearDown i => k.tearDown i

def run (k : CountTrace) (events : List CountEvent) : CountTrace := events.foldl step k

structure Stands (k : CountTrace) (i : Nat) (s : Session) (c : Connection) : Prop where
  held : k.server.registry.seatOf s.id ≠ none ↔ i ∈ k.registered ∧ i ∉ k.counted
  starting : s.handler = .starting → i ∉ k.registered
  running : s.handler = .running → i ∈ k.registered
  ended : s.handler = .ended → i ∈ k.registered → i ∈ k.counted
  closed : i ∈ k.tornDown → c.closed = true

/-- What is counted has been counted once for each session that it is about. -/
structure Tallied (k : CountTrace) : Prop where
  opened : k.server.figures.opened = k.registered.length
  ended : k.server.figures.ended = k.counted.length
  active : k.server.figures.active + k.server.figures.ended = k.server.figures.opened
  connections : k.server.figures.active = k.server.registry.connectionCount
  registered : k.registered.Nodup
  counted : k.counted.Nodup
  within : ∀ i ∈ k.counted, i ∈ k.registered ∧ i ∈ k.tornDown

structure Kept (k : CountTrace) : Prop where
  housed : k.server.Housed
  distinct : ∀ i j s t c d, k.server.Sits i s c → k.server.Sits j t d → s.id = t.id → i = j
  stands : ∀ i s c, k.server.Sits i s c → k.Stands i s c
  known : ∀ i, i ∈ k.registered ∨ i ∈ k.tornDown → i < k.server.sessions.length
  tallied : k.Tallied

variable {k : CountTrace} {i : Nat} {s s' : Session} {c c' : Connection} {srv : Server}

theorem start_kept (settings : Settings) (identities : IdentitySource) (showsFigures : Bool) :
    (start (.create settings identities showsFigures)).Kept := by
  have hsound := Server.create_sound settings identities showsFigures
  have empty : ∀ i s c,
      ¬Server.Sits (start (.create settings identities showsFigures)).server i s c := by
    intro i s c hsits
    simp [CountTrace.server, start, ServerTrace.start, Server.create, Server.Sits] at hsits
  have hcount := (Registry.counts_zero hsound.registry (fun id => ?_) fun room id hm => ?_).1
  · refine ⟨hsound.housed, fun i _ s _ c _ hsits => absurd hsits (empty i s c),
      fun i s c hsits => absurd hsits (empty i s c), fun i h => ?_, ?_⟩
    · simp [start] at h
    · refine ⟨rfl, rfl, rfl, hcount.symm, List.nodup_nil, List.nodup_nil, fun i hi => ?_⟩
      cases hi
  · by_contra hn
    obtain ⟨i, s, c, hsits, _⟩ :=
      (Server.create_accounted settings identities showsFigures).seats id hn
    exact empty i s c hsits
  · obtain ⟨i, s, c, hsits, _⟩ :=
      (Server.create_accounted settings identities showsFigures).members room id hm
    exact empty i s c hsits

/-- What counts nothing leaves the books as they are. -/
theorem Kept.aside (h : k.Kept) {t : ServerTrace} (ha : k.server.Aside t.server) :
    Kept { k with trace := t } := by
  obtain ⟨hopened, hended, hactive⟩ := ha.figures
  refine ⟨ha.housed, fun i j s' t' c' d' hi hj hid => ?_, fun i s' c' hi => ?_, fun i hi => ?_, ?_⟩
  · obtain ⟨s, c, hs, hsid, _⟩ := ha.sits i s' c' hi
    obtain ⟨t, d, ht, htid, _⟩ := ha.sits j t' d' hj
    exact h.distinct i j s t c d hs ht (hsid.symm.trans (hid.trans htid))
  · obtain ⟨s, c, hs, hsid, hh, hclosed⟩ := ha.sits i s' c' hi
    have hstands := h.stands i s c hs
    refine ⟨?_, fun he => ?_, fun he => ?_, fun he => ?_, fun hdown => hclosed (hstands.closed hdown)⟩
    · exact hsid ▸ (ha.seats s.id).symm ▸ hstands.held
    · exact hstands.starting (hh.symm.trans he)
    · exact hstands.running (hh.symm.trans he)
    · exact hstands.ended (hh.symm.trans he)
  · exact Nat.lt_of_lt_of_eq (h.known i hi) ha.length.symm
  · have hcount := Registry.connectionCount_congr h.housed.registry ha.housed.registry ha.seats
    have hold := h.tallied
    refine ⟨hopened.trans hold.opened, hended.trans hold.ended, ?_, ?_, hold.registered, hold.counted,
      hold.within⟩
    · have hsum := hold.active
      change t.server.figures.active + t.server.figures.ended = t.server.figures.opened
      rw [hactive, hended, hopened, hsum]
    · exact hactive.trans (hold.connections.trans hcount.symm)

theorem Kept.connect (h : k.Kept) {id : ConnectionId} (hid : id ∉ k.server.sessions.map (·.id))
    (answersPings : Bool) (wire : WireMode) :
    Kept { k with trace := k.trace.undergo (.serve (.connect id answersPings wire)) } := by
  have hhoused := h.housed.openSession id answersPings wire
  have hlast := k.server.openSession_id id answersPings wire
  obtain ⟨s₁, c₁, he, _, hf, hfresh⟩ := k.server.openSession_eq id answersPings wire
  rw [he] at hlast
  have hs₁ : s₁.id = id := by simpa using hlast
  change Kept { k with trace := { k.trace with
    server := (k.server.openSession id answersPings wire).1 } }
  rw [he] at hhoused ⊢
  have hlen := h.housed.seats
  have either : ∀ {i s c}, Server.Sits { k.server with
      registry := (k.server.registry.seatConnection c₁).1
      sessions := k.server.sessions ++ [s₁] } i s c →
      k.server.Sits i s c ∨ (i = k.server.sessions.length ∧ s = s₁ ∧ c = c₁) := by
    intro i s c hsits
    rcases getElem?_snoc_cases hsits.1 with hs | ⟨hi, rfl⟩ <;>
      rcases getElem?_snoc_cases hsits.2 with hc | ⟨hi', rfl⟩
    · exact Or.inl ⟨hs, hc⟩
    · exact absurd (List.getElem?_eq_some_iff.mp hs).1 (by omega)
    · exact absurd (List.getElem?_eq_some_iff.mp hc).1 (by omega)
    · exact Or.inr ⟨hi, rfl, rfl⟩
  have unused : ∀ {i s c}, k.server.Sits i s c → s.id ≠ s₁.id := by
    intro i s c hsits hsame
    exact hid (List.mem_map.mpr ⟨s, List.mem_of_getElem? hsits.1, hsame.trans hs₁⟩)
  refine ⟨hhoused, fun i j s t c d hi hj hsame => ?_, fun i s c hi => ?_, fun i hi => ?_, ?_⟩
  · rcases either hi with hold | ⟨rfl, rfl, rfl⟩ <;> rcases either hj with hold' | ⟨rfl, rfl, rfl⟩
    · exact h.distinct i j s t c d hold hold' hsame
    · exact absurd hsame (unused hold)
    · exact absurd hsame.symm (unused hold')
    · rfl
  · rcases either hi with hold | ⟨rfl, rfl, rfl⟩
    · have hstands := h.stands i s c hold
      exact ⟨hstands.held, hstands.starting, hstands.running, hstands.ended, hstands.closed⟩
    · have hout : k.server.sessions.length ∉ k.registered ∧ k.server.sessions.length ∉ k.tornDown :=
        ⟨fun hin => Nat.lt_irrefl _ (h.known _ (Or.inl hin)),
          fun hin => Nat.lt_irrefl _ (h.known _ (Or.inr hin))⟩
      refine ⟨⟨fun hn => ?_, fun hin => absurd hin.1 hout.1⟩, fun _ => hout.1, fun hh => ?_,
        fun _ hin => absurd hin hout.1, fun hin => absurd hin hout.2⟩
      · -- a seat would be that of an earlier session with this identity
        obtain ⟨seat, hseat⟩ := Option.ne_none_iff_exists'.mp hn
        obtain ⟨t, d, hsits, hsame⟩ := h.housed.sits_of_seatOf hseat
        exact absurd hsame (unused hsits)
      · rcases hfresh.handler with hnew | ⟨hover, _⟩
        · exact absurd (hnew.symm.trans hh) (by simp)
        · exact absurd (hover.symm.trans hh) (by simp)
  · have hlt := h.known i hi
    change i < (k.server.sessions ++ [s₁]).length
    rw [List.length_append]
    exact Nat.lt_add_right _ hlt
  · exact ⟨h.tallied.opened, h.tallied.ended, h.tallied.active, h.tallied.connections,
      h.tallied.registered, h.tallied.counted, h.tallied.within⟩

theorem Stands.other {j : Nat} {t : Session} {d : Connection} (h : k.Stands j t d) (hj : j ≠ i)
    (hseat : srv.registry.seatOf t.id = k.server.registry.seatOf t.id) (registers leaves : Bool) :
    (k.note i srv registers leaves).Stands j t d := by
  have hregistered : j ∈ (k.note i srv registers leaves).registered ↔ j ∈ k.registered := by
    cases registers <;> simp [note, hj]
  have hdown : j ∈ (k.note i srv registers leaves).tornDown ↔ j ∈ k.tornDown := by
    cases leaves <;> simp [note, hj]
  have hcounted : j ∈ (k.note i srv registers leaves).counted ↔ j ∈ k.counted := by
    simp [note, hj]
  refine ⟨?_, fun hh => ?_, fun hh => ?_, fun hh hin => ?_, fun hin => ?_⟩
  · rw [hregistered, hcounted, ← h.held, ← hseat]
    rfl
  · exact fun hin => h.starting hh (hregistered.mp hin)
  · exact hregistered.mpr (h.running hh)
  · exact hcounted.mpr (h.ended hh (hregistered.mp hin))
  · exact h.closed (hdown.mp hin)

theorem Kept.note (h : k.Kept) (hstep : k.server.SessionStep srv i s s' c c')
    (hseats : ∀ id, s.id ≠ id → srv.registry.seatOf id = k.server.registry.seatOf id)
    {registers leaves : Bool} (hown : (k.note i srv registers leaves).Stands i s' c')
    (htallied : (k.note i srv registers leaves).Tallied) : (k.note i srv registers leaves).Kept := by
  have hsits : k.server.Sits i s c := ⟨hstep.session, hstep.connection⟩
  have before : ∀ {j t d}, srv.Sits j t d → ∃ t₀ d₀, k.server.Sits j t₀ d₀ ∧ t.id = t₀.id := by
    intro j t d hj
    rcases hstep.sits_cases hj with ⟨rfl, rfl, rfl⟩ | ⟨_, hj⟩
    · exact ⟨s, c, hsits, hstep.same.1⟩
    · exact ⟨t, d, hj, rfl⟩
  have hi : i < k.server.sessions.length := (List.getElem?_eq_some_iff.mp hstep.session).1
  refine ⟨hstep.housed h.housed, fun j l t u d e hj hl hsame => ?_, fun j t d hj => ?_, fun j hj => ?_,
    htallied⟩
  · obtain ⟨t₀, d₀, hj₀, ht⟩ := before hj
    obtain ⟨u₀, e₀, hl₀, hu⟩ := before hl
    exact h.distinct j l t₀ u₀ d₀ e₀ hj₀ hl₀ (ht.symm.trans (hsame.trans hu))
  · rcases hstep.sits_cases hj with ⟨rfl, rfl, rfl⟩ | ⟨hne, hj⟩
    · exact hown
    · have hother : s.id ≠ t.id := fun hsame => hne (h.distinct i j s t c d hsits hj hsame).symm
      exact (h.stands j t d hj).other hne (hseats t.id hother) registers leaves
  · change j < srv.sessions.length
    rw [hstep.sessions, List.length_set]
    by_cases hne : j = i
    · exact hne ▸ hi
    · refine h.known j ?_
      cases registers <;> cases leaves <;> simpa [CountTrace.note, hne] using hj

theorem Tallied.register (h : k.Tallied) (hout : i ∉ k.registered)
    (hfigures : srv.figures = { k.server.figures with
      opened := k.server.figures.opened + 1
      active := k.server.figures.active + 1 })
    (hcount : srv.registry.connectionCount = k.server.registry.connectionCount + 1) :
    (k.note i srv true false).counted = k.counted ∧ (k.note i srv true false).Tallied := by
  have hcounted : (k.note i srv true false).counted = k.counted := by
    simp [CountTrace.note, hfigures]
  have hopened := h.opened
  have hsum := h.active
  have hconnections := h.connections
  refine ⟨hcounted, ?_, ?_, ?_, ?_, ?_, hcounted ▸ h.counted, fun j hj => ?_⟩
  · change srv.figures.opened = (k.registered ++ [i]).length
    rw [hfigures, List.length_append, List.length_singleton, ← hopened]
  · change srv.figures.ended = _
    rw [hcounted, hfigures, ← h.ended]
  · change srv.figures.active + srv.figures.ended = srv.figures.opened
    rw [hfigures]
    simp only
    omega
  · change srv.figures.active = srv.registry.connectionCount
    rw [hfigures, hcount, ← hconnections]
  · change (k.registered ++ [i]).Nodup
    rw [← List.concat_eq_append]
    exact h.registered.concat hout
  · rw [hcounted] at hj
    exact ⟨List.mem_append_left _ (h.within j hj).1, (h.within j hj).2⟩

theorem Tallied.pass (h : k.Tallied) (hfigures : srv.figures = k.server.figures)
    (hcount : srv.registry.connectionCount = k.server.registry.connectionCount) :
    (k.note i srv false true).counted = k.counted ∧ (k.note i srv false true).Tallied := by
  have hcounted : (k.note i srv false true).counted = k.counted := by
    simp [CountTrace.note, hfigures]
  refine ⟨hcounted, ?_, ?_, ?_, ?_, h.registered, hcounted ▸ h.counted, fun j hj => ?_⟩
  · exact (congrArg SessionCounters.opened hfigures).trans h.opened
  · rw [hcounted]
    exact (congrArg SessionCounters.ended hfigures).trans h.ended
  · change srv.figures.active + srv.figures.ended = srv.figures.opened
    rw [hfigures, h.active]
  · change srv.figures.active = srv.registry.connectionCount
    rw [hfigures, hcount, h.connections]
  · rw [hcounted] at hj
    exact ⟨(h.within j hj).1, List.mem_append_left _ (h.within j hj).2⟩

theorem Tallied.depart (h : k.Tallied) (hin : i ∈ k.registered) (hnot : i ∉ k.counted)
    (hfigures : srv.figures = { k.server.figures with
      ended := k.server.figures.ended + 1
      active := k.server.figures.active - 1 })
    (hcount : k.server.registry.connectionCount = srv.registry.connectionCount + 1) :
    (k.note i srv false true).counted = k.counted ++ [i] ∧ (k.note i srv false true).Tallied := by
  have hcounted : (k.note i srv false true).counted = k.counted ++ [i] := by
    simp [CountTrace.note, hfigures]
  have hsum := h.active
  have hconnections := h.connections
  refine ⟨hcounted, ?_, ?_, ?_, ?_, h.registered, ?_, fun j hj => ?_⟩
  · exact (congrArg SessionCounters.opened hfigures).trans h.opened
  · change srv.figures.ended = _
    rw [hcounted, hfigures, List.length_append, List.length_singleton, ← h.ended]
  · change srv.figures.active + srv.figures.ended = srv.figures.opened
    rw [hfigures]
    simp only
    omega
  · change srv.figures.active = srv.registry.connectionCount
    rw [hfigures]
    simp only
    omega
  · rw [hcounted, ← List.concat_eq_append]
    exact h.counted.concat hnot
  · rw [hcounted] at hj
    rcases List.mem_append.mp hj with hj | hj
    · exact ⟨(h.within j hj).1, List.mem_append_left _ (h.within j hj).2⟩
    · rw [List.mem_singleton.mp hj]
      exact ⟨hin, List.mem_append_right _ (List.mem_singleton_self i)⟩

theorem Kept.unregistered (h : k.Kept) (hsits : k.server.Sits i s c) (fresh : s.handler = .starting) :
    k.server.registry.seatOf s.id = none := by
  have hstands := h.stands i s c hsits
  by_contra hn
  exact hstands.starting fresh (hstands.held.mp hn).1

theorem Kept.startHandler (h : k.Kept)
    (hstep : k.server.SessionStep (k.server.startHandler i s) i s s' c c')
    (fresh : s.handler = .starting) (runs : s'.handler = .running) :
    (k.note i (k.server.startHandler i s) true false).Kept := by
  have hstands := h.stands i s c ⟨hstep.session, hstep.connection⟩
  have hout := hstands.starting fresh
  have hnone := h.unregistered ⟨hstep.session, hstep.connection⟩ fresh
  have hseats : ∀ id, (k.server.startHandler i s).registry.seatOf id =
      if s.id = id then some s.seat else k.server.registry.seatOf id :=
    fun id => Registry.seatOf_addConnection h.housed.registry s.id id s.seat
  have hcount := Registry.connectionCount_succ h.housed.registry hstep.seat.sound hnone hseats
  obtain ⟨hcounted, htallied⟩ := h.tallied.register hout rfl hcount
  have hin : i ∈ (k.note i (k.server.startHandler i s) true false).registered :=
    List.mem_append_right _ (List.mem_singleton_self i)
  refine h.note hstep (fun id hne => (hseats id).trans (if_neg hne))
    ⟨⟨fun _ => ⟨hin, ?_⟩, fun _ => ?_⟩, fun hh => ?_, fun _ => hin, fun hh => ?_, fun hdown => ?_⟩
    htallied
  · rw [hcounted]
    exact fun hin => hout (h.tallied.within i hin).1
  · rw [hstep.same.1]
    exact Option.isSome_iff_ne_none.mp (((hseats s.id).trans (if_pos rfl)) ▸ rfl)
  · exact absurd (runs.symm.trans hh) (by simp)
  · exact absurd (runs.symm.trans hh) (by simp)
  · exact hstep.closed (hstands.closed hdown)

theorem Kept.tearDown_books (h : k.Kept) (hstep : k.server.SessionStep srv i s s' c c')
    (hregistry : srv.registry = (k.server.tearDown s).registry)
    (hfigures : srv.figures = (k.server.tearDown s).figures) :
    (i ∈ k.registered → i ∈ (k.note i srv false true).counted) ∧
      (k.note i srv false true).Tallied := by
  have hsits : k.server.Sits i s c := ⟨hstep.session, hstep.connection⟩
  have hheld := (h.stands i s c hsits).held
  have hseats := Server.tearDown_seats h.housed hsits
  have hchanged := Server.tearDown_figures h.housed hsits
  rw [← hregistry] at hseats
  rw [← hfigures] at hchanged
  cases hs : k.server.registry.seatOf s.id with
  | none =>
    rw [hs] at hchanged
    have hcount : srv.registry.connectionCount = k.server.registry.connectionCount := by
      refine Registry.connectionCount_congr h.housed.registry hstep.seat.sound fun id => ?_
      rw [hseats]
      by_cases hid : s.id = id
      · rw [if_pos hid, ← hid, hs]
      · rw [if_neg hid]
    obtain ⟨hcounted, htallied⟩ := h.tallied.pass (i := i) hchanged hcount
    refine ⟨fun hin => ?_, htallied⟩
    rw [hcounted]
    by_contra hnot
    exact hheld.mpr ⟨hin, hnot⟩ hs
  | some seat =>
    rw [hs] at hchanged
    have hback : ∀ id, k.server.registry.seatOf id =
        if s.id = id then some seat else srv.registry.seatOf id := by
      intro id
      rw [hseats]
      by_cases hid : s.id = id
      · rw [if_pos hid, ← hid, hs]
      · rw [if_neg hid, if_neg hid]
    have hcount := Registry.connectionCount_succ hstep.seat.sound h.housed.registry
      ((hseats s.id).trans (if_pos rfl)) hback
    obtain ⟨hin, hnot⟩ := hheld.mp (by simp [hs])
    obtain ⟨hcounted, htallied⟩ := h.tallied.depart hin hnot hchanged hcount
    refine ⟨fun _ => ?_, htallied⟩
    rw [hcounted]
    exact List.mem_append_right _ (List.mem_singleton_self i)

theorem Kept.tearDown (h : k.Kept) (hstep : k.server.SessionStep srv i s s' c c')
    (hregistry : srv.registry = (k.server.tearDown s).registry)
    (hfigures : srv.figures = (k.server.tearDown s).figures) (hclosed : c'.closed = true)
    (hh : s'.handler = s.handler ∨ s'.handler = .ended) : (k.note i srv false true).Kept := by
  have hsits : k.server.Sits i s c := ⟨hstep.session, hstep.connection⟩
  have hstands := h.stands i s c hsits
  have hseats := Server.tearDown_seats h.housed hsits
  rw [← hregistry] at hseats
  obtain ⟨hleft, htallied⟩ := h.tearDown_books hstep hregistry hfigures
  refine h.note hstep (fun id hne => (hseats id).trans (if_neg hne))
    ⟨⟨fun hn => ?_, fun hin => absurd (hleft hin.1) hin.2⟩, fun he => ?_, fun he => ?_,
      fun _ => hleft, fun _ => hclosed⟩ htallied
  · rw [hstep.same.1] at hn
    exact absurd ((hseats s.id).trans (if_pos rfl)) hn
  · rcases hh with hh | hended
    · exact hstands.starting (hh.symm.trans he)
    · exact absurd (hended.symm.trans he) (by simp)
  · rcases hh with hh | hended
    · exact hstands.running (hh.symm.trans he)
    · exact absurd (hended.symm.trans he) (by simp)

theorem Kept.serve (h : k.Kept) (i : Nat) : (k.serve i).Kept := by
  unfold CountTrace.serve
  split
  next => exact h
  next srv hsrv =>
    obtain ⟨s, s', c, c', hstep, hcases⟩ := Server.handlerStep_cases h.housed hsrv
    have hbefore : ∀ state, handlerIs k.server i state = decide (s.handler = state) := by
      intro state
      simp [handlerIs, hstep.session]
    have hafter : ∀ state, handlerIs srv i state = decide (s'.handler = state) := by
      intro state
      rw [handlerIs, hstep.session_at, if_pos rfl]
      rfl
    rw [hbefore, hafter]
    rcases hcases with ⟨fresh, runs, rfl⟩ | ⟨runs, ends, hclosed, rfl⟩ | ⟨runs, goes, haside⟩
    · simp only [fresh, runs]
      exact h.startHandler hstep fresh runs
    · simp only [ends, runs]
      have hregistry := congrArg Server.registry (k.server.endHandler_eq i s)
      have hfigures := congrArg Server.figures (k.server.endHandler_eq i s)
      exact h.tearDown hstep hregistry hfigures hclosed (Or.inr ends)
    · simp only [runs, goes]
      have hsame : k.note i srv false false = { k with trace := { k.trace with server := srv } } := by
        simp [CountTrace.note, haside.figures.ended]
      exact hsame ▸ h.aside haside

theorem Kept.leave (h : k.Kept) (i : Nat) : (k.tearDown i).Kept := by
  unfold CountTrace.tearDown
  split
  next => exact h
  next s hs =>
    obtain ⟨c, hsits⟩ := h.housed.sits hs
    have hstep := Server.tearDown_step h.housed hs hsits.2
    refine h.tearDown hstep rfl rfl ?_ (Or.inl rfl)
    rw [Connection.close_takeRooms]

theorem Kept.step (h : k.Kept) (e : CountEvent) : (k.step e).Kept := by
  cases e with
  | tearDown i => exact h.leave i
  | undergo e =>
    by_cases he : e.Counts
    · match e with
      | .serve (.connect id answersPings wire) =>
        simp only [CountTrace.step]
        split
        next => exact h
        next hid => exact h.connect hid answersPings wire
      | .serve (.serve i) => exact h.serve i
    · have hsame : k.step (.undergo e) = { k with trace := k.trace.undergo e } := by
        cases e with
        | serve e =>
          cases e with
          | connect id answersPings wire => exact absurd trivial he
          | serve i => exact absurd trivial he
          | _ => rfl
        | _ => rfl
      exact hsame ▸ h.aside (ServerTrace.undergo_aside h.housed he)

theorem run_kept (h : k.Kept) (events : List CountEvent) : (k.run events).Kept := by
  induction events generalizing k with
  | nil => exact h
  | cons e events ih => exact ih (h.step e)

/-- When no session can take a step, every teardown of a registered session has been counted. -/
theorem Kept.counted_of_settled (h : k.Kept) (hsettled : k.server.sessionsStep? = none)
    (hin : i ∈ k.registered) (hdown : i ∈ k.tornDown) : i ∈ k.counted := by
  have hlt := h.known i (Or.inl hin)
  have hlt' : i < k.server.registry.roster.length := h.housed.seats ▸ hlt
  have hsits : k.server.Sits i k.server.sessions[i] k.server.registry.roster[i] :=
    ⟨List.getElem?_eq_getElem hlt, List.getElem?_eq_getElem hlt'⟩
  have hstands := h.stands i _ _ hsits
  -- it has left a closed connection, on which a handler does not go on
  have hover := Server.handlerStep_closed h.housed hsits (hstands.closed hdown)
    (Server.sessionsStep?_none hsettled hsits.1)
  exact hstands.ended hover hin

theorem Kept.active_of_settled (h : k.Kept) (hsettled : k.server.sessionsStep? = none) :
    k.server.figures.active = (k.registered.toFinset \ k.tornDown.toFinset).card := by
  have hold := h.tallied
  have hsame : k.registered.toFinset \ k.tornDown.toFinset =
      k.registered.toFinset \ k.counted.toFinset := by
    ext i
    simp only [Finset.mem_sdiff, List.mem_toFinset, and_congr_right_iff, not_iff_not]
    exact fun hin => ⟨h.counted_of_settled hsettled hin, fun hc => (hold.within i hc).2⟩
  have hsub : k.counted.toFinset ⊆ k.registered.toFinset := by
    intro i hi
    exact List.mem_toFinset.mpr (hold.within i (List.mem_toFinset.mp hi)).1
  rw [hsame, Finset.card_sdiff_of_subset hsub, List.toFinset_card_of_nodup hold.registered,
    List.toFinset_card_of_nodup hold.counted, ← hold.opened, ← hold.ended, ← hold.active,
    Nat.add_sub_cancel]

end CountTrace

open CountTrace in
/-- The counters of connections agree at every moment of every run, and a session is counted at most once
when it is opened and once when it has ended. -/
theorem connection_counts_agree (settings : Settings) (identities : IdentitySource)
    (showsFigures : Bool) (events : List CountEvent) :
    let k := (start (.create settings identities showsFigures)).run events
    let figures := k.server.figures
    (figures.ended ≤ figures.opened ∧ figures.active = figures.opened - figures.ended) ∧
    figures.active = k.server.registry.connectionCount ∧
    (∃ report, (k.server.answerService ⟨"GET", "/health", none, ""⟩).2 = ⟨200, .health report⟩ ∧
      report.connections = figures.active) ∧
    (figures.opened = k.registered.length ∧ k.registered.Nodup) ∧
    (figures.ended = k.counted.length ∧ k.counted.Nodup) ∧
    (k.server.sessionsStep? = none →
      figures.active = (k.registered.toFinset \ k.tornDown.toFinset).card) := by
  intro k figures
  have h : k.Kept := run_kept (start_kept settings identities showsFigures) events
  have hold := h.tallied
  have hsum : figures.active + figures.ended = figures.opened := hold.active
  refine ⟨⟨by omega, by omega⟩, hold.connections, ?_, ⟨hold.opened, hold.registered⟩,
    ⟨hold.ended, hold.counted⟩, h.active_of_settled⟩
  exact ⟨k.server.health, k.server.answerService_health, hold.connections.symm⟩

open CountTrace in
/-- One session is torn down twice from outside and then by its handler, another before it registers; a
third goes on. -/
theorem connection_counts_torn_down_twice :
    let events : List CountEvent := [.undergo (.serve (.connect ⟨7⟩ true .open)),
      .undergo (.serve (.connect ⟨8⟩ true .open)), .undergo (.serve (.connect ⟨9⟩ true .open)),
      .undergo (.serve (.serve 0)), .tearDown 1, .undergo (.serve (.serve 2)), .tearDown 0, .tearDown 0,
      .undergo (.serve (.serve 1)), .undergo (.serve (.serve 0)), .undergo (.serve (.serve 1)),
      .undergo (.serve (.beat 0)), .undergo (.serve (.beat 1)), .undergo (.serve (.read 0)),
      .undergo (.serve (.read 1)), .undergo (.serve (.write 0)), .undergo (.serve (.write 0)),
      .undergo (.serve (.write 1)), .undergo (.serve (.write 1))]
    let k := (start (.create .defaults ⟨1⟩ true)).run events
    k.tornDown = [1, 0, 0, 0, 1] ∧ k.counted = [0, 1] ∧ k.server.figures = ⟨3, 2, 1, 0⟩ ∧
      k.server.sessionsStep? = none ∧
      k.server.figures.active = (k.registered.toFinset \ k.tornDown.toFinset).card := by
  intro events k
  have hsettled : k.server.sessionsStep? = none :=
    Option.isNone_iff_eq_none.mp (by decide +kernel)
  obtain ⟨_, _, _, _, _, hactive⟩ := connection_counts_agree .defaults ⟨1⟩ true events
  exact ⟨by decide +kernel, by decide +kernel, by decide +kernel, hsettled, hactive hsettled⟩

end RoomCast
