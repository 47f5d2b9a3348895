import RoomCast.Proofs.ServerSessions

namespace RoomCast

/-- What can happen to a server that is not stopped. -/
inductive ServerEvent where
  | publishAll (form : PublishForm)
  | publishRoom (form : PublishForm)
  /-- The next item of what has been accepted goes to the merge layer. -/
  | forward
  | takeItem (lane : Nat)
  | fire (timer : Nat)
  | takeExpiry (lane : Nat)
  | pipeline (m : PipelineMove)
  /-- The clock shows a time; nothing rests on its never being set back. -/
  | clock (time : Nat)
  | connect (id : ConnectionId) (answersPings : Bool) (wire : WireMode)
  | arrive (session : Nat) (message : ClientMessage)
  | finish (session : Nat)
  | rewire (session : Nat) (wire : WireMode)
  | read (session : Nat)
  | write (session : Nat)
  | beat (session : Nat)
  | serve (session : Nat)

/-- A server with the items that have been accepted and not yet handed to the merge layer, the publishes
that have been accepted, and the batches that have been committed. -/
structure ServerTrace where
  server : Server
  intake : List MergeItem
  published : List (PublishForm × Publish)
  commits : List Commit

def Publish.mergeItems (p : Publish) : List MergeItem := p.items.map fun item => ⟨p.key, item⟩

namespace ServerTrace

def start (srv : Server) : ServerTrace := ⟨srv, [], [], []⟩

def accept (t : ServerTrace) (form : PublishForm) : Option Publish → ServerTrace
  | none => t
  | some p => { t with intake := t.intake ++ p.mergeItems, published := t.published ++ [(form, p)] }

def forward (t : ServerTrace) : ServerTrace :=
  match t.intake with
  | [] => t
  | item :: rest =>
    { t with
      server := { t.server with merge := (t.server.merge.push item).1 }
      intake := rest }

/-- A step of the merge layer; a batch that it commits goes to the registry. -/
def moveMerge (t : ServerTrace) : Option MergeMove → ServerTrace
  | none => t
  | some (merge, none) => { t with server := { t.server with merge := merge } }
  | some (merge, some commit) =>
    { t with
      server := { t.server with merge := merge }.takeCommit commit
      commits := t.commits ++ [commit] }

def move (t : ServerTrace) : Option Server → ServerTrace
  | none => t
  | some srv => { t with server := srv }

def step (t : ServerTrace) : ServerEvent → ServerTrace
  | .publishAll form => t.accept form (Publish.toAll? form)
  | .publishRoom form => t.accept form (Publish.toRoom? form)
  | .forward => t.forward
  | .takeItem lane => t.moveMerge (t.server.merge.takeItem lane t.server.now)
  | .fire timer => t.moveMerge (t.server.merge.fire timer t.server.now)
  | .takeExpiry lane => t.moveMerge (t.server.merge.takeExpiry lane)
  | .pipeline m => t.move ((t.server.registry.move m).map fun r => { t.server with registry := r })
  | .clock time => { t with server := { t.server with now := time } }
  | .connect id answersPings wire => { t with server := (t.server.openSession id answersPings wire).1 }
  | .arrive session message => { t with server := t.server.arrive session message }
  | .finish session => { t with server := t.server.finish session }
  | .rewire session wire => { t with server := t.server.rewire session wire }
  | .read session => t.move (t.server.readerStep session)
  | .write session => t.move (t.server.writerStep session)
  | .beat session => t.move (t.server.heartbeatStep session)
  | .serve session => t.move (t.server.handlerStep session)

def run (t : ServerTrace) (events : List ServerEvent) : ServerTrace := events.foldl step t

end ServerTrace

def MergeLayer.Stepped (m m' : MergeLayer) (commit : Option Commit) : Prop :=
  (∃ i now, m.takeItem i now = some (m', commit)) ∨ (∃ k now, m.fire k now = some (m', commit)) ∨
    ∃ i, m.takeExpiry i = some (m', commit)

theorem MergeLayer.Stepped.moved {m m' : MergeLayer} {commit : Option Commit}
    (h : m.Stepped m' commit) : m.Moved m' commit := by
  rcases h with ⟨_, _, h⟩ | ⟨_, _, h⟩ | ⟨_, h⟩
  · exact takeItem_moved h
  · exact fire_moved h
  · exact takeExpiry_moved h

theorem MergeLayer.Stepped.timed {m m' : MergeLayer} {commit : Option Commit}
    (h : m.Stepped m' commit) (ht : m.Timed) (hs : m.Sound) : m'.Timed := by
  rcases h with ⟨_, _, h⟩ | ⟨_, _, h⟩ | ⟨_, h⟩
  · exact ht.takeItem hs h
  · exact ht.fire h
  · exact ht.takeExpiry hs h

structure Session.Told (s s' : Session) : Prop where
  same : s'.id = s.id ∧ s'.seat = s.seat
  tasks : s'.writer = s.writer ∧ s'.handler = s.handler ∧ s'.heartbeat = s.heartbeat
  shown : s'.shown = s.shown

namespace ServerTrace

inductive Stepped (t : ServerTrace) : ServerTrace → Prop where
  | idle : Stepped t t
  | accept {form : PublishForm} {p : Publish}
      (accepted : Publish.toAll? form = some p ∨ Publish.toRoom? form = some p) :
      Stepped t { t with
        intake := t.intake ++ p.mergeItems
        published := t.published ++ [(form, p)] }
  | forward {item : MergeItem} {rest : List MergeItem} (waits : t.intake = item :: rest) :
      Stepped t { t with
        server := { t.server with merge := (t.server.merge.push item).1 }
        intake := rest }
  | merge {m : MergeLayer} (moved : t.server.merge.Stepped m none) :
      Stepped t { t with server := { t.server with merge := m } }
  | commit {m : MergeLayer} {commit : Commit} (moved : t.server.merge.Stepped m (some commit)) :
      Stepped t { t with
        server := { t.server with merge := m }.takeCommit commit
        commits := t.commits ++ [commit] }
  | pipeline {r : Registry} (moved : t.server.registry.PipelineStep r) :
      Stepped t { t with server := { t.server with registry := r } }
  | clock {time : Nat} : Stepped t { t with server := { t.server with now := time } }
  | connect {id : ConnectionId} {answersPings : Bool} {wire : WireMode} :
      Stepped t { t with server := (t.server.openSession id answersPings wire).1 }
  | session {srv : Server} {i : Nat} {s s' : Session} {c c' : Connection}
      (moved : t.server.SessionStep srv i s s' c c')
      (how : t.server.TaskMove i s c srv s' c' ∨
        s.Told s' ∧ c' = c ∧ srv.registry = t.server.registry) :
      Stepped t { t with server := srv }

theorem moveMerge_stepped {t : ServerTrace} {next : Option MergeMove}
    (h : ∀ m commit, next = some (m, commit) → t.server.merge.Stepped m commit) :
    Stepped t (t.moveMerge next) := by
  match next with
  | none => exact .idle
  | some (m, none) => exact .merge (h m none rfl)
  | some (m, some commit) => exact .commit (h m (some commit) rfl)

theorem accept_stepped {t : ServerTrace} {form : PublishForm} {p : Option Publish}
    (h : Publish.toAll? form = p ∨ Publish.toRoom? form = p) : Stepped t (t.accept form p) := by
  cases p with
  | none => exact .idle
  | some p => exact .accept h

theorem move_stepped {t : ServerTrace} (hs : t.server.Housed) {next : Option Server} {i : Nat}
    (h : ∀ srv, next = some srv → t.server.Tasked srv i) : Stepped t (t.move next) := by
  cases next with
  | none => exact .idle
  | some srv =>
    obtain ⟨_, _, _, _, hsc, hmove⟩ := h srv rfl
    exact .session (hmove.sessionStep hs hsc) (Or.inl hmove)

theorem updateSession_stepped {t : ServerTrace} (hs : t.server.Housed) (i : Nat)
    {f : Session → Session} (hf : ∀ s : Session, s.Told (f s)) :
    Stepped t { t with server := t.server.updateSession i f } := by
  cases hi : t.server.sessions[i]? with
  | none =>
    rw [Server.updateSession, List.modify_eq_self (List.getElem?_eq_none_iff.mp hi)]
    exact .idle
  | some s =>
    have hlt : i < t.server.registry.roster.length :=
      hs.seats ▸ (List.getElem?_eq_some_iff.mp hi).1
    have hc := List.getElem?_eq_getElem hlt
    have htold := hf s
    obtain ⟨_, hfits⟩ := hs.seated i s _ hi hc
    have hstep : t.server.SessionStep (t.server.updateSession i f) i s (f s)
        t.server.registry.roster[i] t.server.registry.roster[i] := by
      refine ⟨⟨rfl, rfl, rfl⟩, hi, modify_of_some hi f, hc, ?_, htold.same, ?_, fun h => h, fun _ => ?_⟩
      · exact Registry.seatStep_tables hs.registry (Registry.samePipeline_refl _) rfl hc
      · exact ⟨htold.same.1.trans hfits.id, hfits.queue, htold.tasks.1 ▸ hfits.writer⟩
      · rw [Session.pushes, Session.pushes, Session.enqueued, Session.enqueued, htold.tasks.1,
          htold.shown]
    exact .session hstep (Or.inr ⟨htold, rfl, rfl⟩)

theorem step_stepped {t : ServerTrace} (hs : t.server.Housed) (e : ServerEvent) :
    Stepped t (t.step e) := by
  cases e with
  | publishAll form => exact accept_stepped (Or.inl rfl)
  | publishRoom form => exact accept_stepped (Or.inr rfl)
  | forward =>
    simp only [step, ServerTrace.forward]
    split
    next => exact .idle
    next item rest hq => exact .forward hq
  | takeItem lane => exact moveMerge_stepped fun m commit h => Or.inl ⟨lane, _, h⟩
  | fire timer => exact moveMerge_stepped fun m commit h => Or.inr (Or.inl ⟨timer, _, h⟩)
  | takeExpiry lane => exact moveMerge_stepped fun m commit h => Or.inr (Or.inr ⟨lane, h⟩)
  | pipeline m =>
    simp only [step]
    cases hm : t.server.registry.move m with
    | none => exact .idle
    | some r => exact .pipeline (Registry.move_step hm)
  | clock time => exact .clock
  | connect id answersPings wire => exact .connect
  | arrive session message => exact updateSession_stepped hs session fun s => ⟨⟨rfl, rfl⟩, ⟨rfl, rfl, rfl⟩, rfl⟩
  | finish session => exact updateSession_stepped hs session fun s => ⟨⟨rfl, rfl⟩, ⟨rfl, rfl, rfl⟩, rfl⟩
  | rewire session wire => exact updateSession_stepped hs session fun s => ⟨⟨rfl, rfl⟩, ⟨rfl, rfl, rfl⟩, rfl⟩
  | read session => exact move_stepped hs fun srv h => Server.readerStep_tasked h
  | write session => exact move_stepped hs fun srv h => Server.writerStep_tasked h
  | beat session => exact move_stepped hs fun srv h => Server.heartbeatStep_tasked h
  | serve session => exact move_stepped hs fun srv h => Server.handlerStep_tasked hs h

end ServerTrace

def Commit.target (commit : Commit) : PushTarget :=
  match commit.key with
  | .broadcast => .all
  | .room name => .room name

theorem Server.takeCommit_eq (srv : Server) (commit : Commit) :
    srv.takeCommit commit =
      { srv with registry := (srv.registry.push ⟨commit.target, commit.payload⟩).1 } := rfl

structure Session.Fresh (s : Session) (c : Connection) : Prop where
  queued : s.enqueued c = []
  rooms : c.rooms = []
  heartbeat : s.heartbeat = none
  handler : s.handler = .starting ∨ s.handler = .ended ∧ c.closed = true

namespace Server

theorem create_sound (settings : Settings) (identities : IdentitySource) (showsFigures : Bool) :
    (create settings identities showsFigures).Sound := by
  refine ⟨Registry.create_sound _, Registry.create_fitted _, MergeLayer.create_sound _,
    MergeLayer.create_timed _, ⟨rfl, rfl⟩, rfl, ?_⟩
  intro i s c hs
  cases hs

theorem Sound.withMerge {srv : Server} (h : srv.Sound) {m : MergeLayer} (hs : m.Sound) (ht : m.Timed)
    (hr : m.cancelled = false ∧ m.stopped = false) : Sound { srv with merge := m } :=
  ⟨h.registry, h.fitted, hs, ht, hr, h.seats, h.seated⟩

theorem Housed.withRegistry {srv : Server} (h : srv.Housed) {r : Registry} (hs : r.Sound)
    (hr : r.roster.map Connection.bare = srv.registry.roster.map Connection.bare) :
    Housed { srv with registry := r } := by
  refine ⟨hs, ?_, ?_⟩
  · have hl := congrArg List.length hr
    simp only [List.length_map] at hl
    exact h.seats.trans hl.symm
  · intro i s c hi hc
    obtain ⟨d, hd, hb⟩ := getElem?_of_map_eq hr.symm hc
    obtain ⟨hseat, hfits⟩ := h.seated i s d hi hd
    have hid := congrArg Connection.id hb
    have hreceiving := congrArg Connection.receiving hb
    have hclosed := congrArg Connection.closed hb
    simp only [Connection.bare] at hid hreceiving hclosed
    exact ⟨hseat, hfits.id.trans hid, fun h => hclosed ▸ hfits.queue (hreceiving.trans h),
      fun h => hclosed ▸ hfits.writer h⟩

theorem Sound.withRegistry {srv : Server} (h : srv.Sound) {r : Registry} (hs : r.Sound)
    (hf : r.Fitted srv.settings.registry)
    (hr : r.roster.map Connection.bare = srv.registry.roster.map Connection.bare) :
    Sound { srv with registry := r } := by
  obtain ⟨_, hseats, hseated⟩ := h.housed.withRegistry hs hr
  exact ⟨hs, hf, h.merge, h.timed, h.running, hseats, hseated⟩

theorem Sound.push {srv : Server} (h : srv.Sound) (item : MergeItem) :
    Sound { srv with merge := (srv.merge.push item).1 } := by
  obtain ⟨lane, hl, ⟨_, he⟩ | ⟨_, he⟩⟩ :=
    MergeLayer.push_cases h.merge h.running.1 h.running.2 item <;> rw [he]
  · exact h.withMerge ⟨h.merge.rooms_served, h.merge.distinct, h.merge.home⟩ h.timed h.running
  · exact h.withMerge (h.merge.queue hl) (h.timed.queue hl item) h.running

theorem Sound.moveMerge {srv : Server} (h : srv.Sound) {m : MergeLayer} {commit : Option Commit}
    (hm : srv.merge.Stepped m commit) : Sound { srv with merge := m } := by
  have hr := hm.moved.running
  exact h.withMerge (hm.moved.sound h.merge) (hm.timed h.timed h.merge)
    ⟨hr.1.trans h.running.1, hr.2.trans h.running.2⟩

theorem Housed.push {srv : Server} (h : srv.Housed) (job : PushJob) :
    Housed { srv with registry := (srv.registry.push job).1 } := by
  obtain ⟨hshards, hroster⟩ := srv.registry.push_tables job
  refine h.withRegistry ?_ (by rw [hroster])
  exact h.registry.of_roster hshards fun seat c hc => ⟨c, by rw [hroster, hc], rfl⟩

theorem Sound.takeCommit {srv : Server} (h : srv.Sound) (commit : Commit) :
    (srv.takeCommit commit).Sound := by
  obtain ⟨hregistry, hseats, hseated⟩ := h.housed.push ⟨commit.target, commit.payload⟩
  exact ⟨hregistry, Registry.push_fitted h.fitted _, h.merge, h.timed, h.running, hseats, hseated⟩

theorem Housed.seat {srv : Server} (h : srv.Housed) {s : Session} {c : Connection}
    (hseat : s.seat = srv.registry.roster.length) (hf : s.Fits c) :
    Housed { srv with
      registry := (srv.registry.seatConnection c).1
      sessions := srv.sessions ++ [s] } := by
  refine ⟨Registry.seatConnection_sound h.registry c, ?_, fun i t d ht hd => ?_⟩
  · simp [Registry.seatConnection, h.seats]
  · have hlen := h.seats
    change (srv.sessions ++ [s])[i]? = some t at ht
    change (srv.registry.roster ++ [c])[i]? = some d at hd
    rcases getElem?_snoc_cases ht with ht | ⟨hi, rfl⟩ <;>
      rcases getElem?_snoc_cases hd with hd | ⟨hi', rfl⟩
    · exact h.seated i t d ht hd
    · exact absurd (List.getElem?_eq_some_iff.mp ht).1 (by omega)
    · exact absurd (List.getElem?_eq_some_iff.mp hd).1 (by omega)
    · exact ⟨hseat.trans hi'.symm, hf⟩

theorem openSession_eq (srv : Server) (id : ConnectionId) (answersPings : Bool) (wire : WireMode) :
    ∃ s c, (srv.openSession id answersPings wire).1 = { srv with
        registry := (srv.registry.seatConnection c).1
        sessions := srv.sessions ++ [s] } ∧
      s.seat = srv.registry.roster.length ∧ s.Fits c ∧ s.Fresh c := by
  by_cases hr : srv.settings.socket.limits.canRun = true
  · simp only [openSession, if_pos hr]
    refine ⟨_, _, rfl, rfl, ?_, rfl, rfl, rfl, Or.inl rfl⟩
    exact ⟨rfl, fun hn => Bool.noConfusion hn, False.elim⟩
  · simp only [openSession, if_neg hr]
    have hclosed :
        (Connection.create id srv.settings.socket.limits srv.now).close.1.dropQueue.closed = true := by
      rw [Connection.close_cases]
      rfl
    refine ⟨_, _, rfl, rfl, ?_, rfl, by rw [Connection.close_cases]; rfl, rfl,
      Or.inr ⟨rfl, hclosed⟩⟩
    exact ⟨by rw [Connection.close_cases]; rfl, fun _ => hclosed, fun _ => hclosed⟩

theorem Housed.openSession {srv : Server} (h : srv.Housed) (id : ConnectionId) (answersPings : Bool)
    (wire : WireMode) : (srv.openSession id answersPings wire).1.Housed := by
  obtain ⟨s, c, he, hseat, hf, _⟩ := srv.openSession_eq id answersPings wire
  rw [he]
  exact h.seat hseat hf

theorem Sound.openSession {srv : Server} (h : srv.Sound) (id : ConnectionId) (answersPings : Bool)
    (wire : WireMode) : (srv.openSession id answersPings wire).1.Sound := by
  obtain ⟨hregistry, hseats, hseated⟩ := h.housed.openSession id answersPings wire
  refine ⟨hregistry, ?_, h.merge, h.timed, h.running, hseats, hseated⟩
  exact Registry.SamePipeline.fitted ⟨srv.registry.shards, _, rfl, rfl⟩ h.fitted

theorem SessionStep.session_at {srv srv' : Server} {i : Nat} {s s' : Session} {c c' : Connection}
    (h : srv.SessionStep srv' i s s' c c') (j : Nat) :
    srv'.sessions[j]? = if i = j then some s' else srv.sessions[j]? := by
  rw [h.sessions, getElem?_set_of_some h.session]

theorem SessionStep.roster_set {srv srv' : Server} {i : Nat} {s s' : Session} {c c' : Connection}
    (h : srv.SessionStep srv' i s s' c c') :
    srv'.registry.roster = srv.registry.roster.set i c' := by
  apply List.ext_getElem?
  intro j
  rw [h.seat.roster, getElem?_set_of_some h.connection]

theorem SessionStep.housed {srv srv' : Server} {i : Nat} {s s' : Session} {c c' : Connection}
    (hstep : srv.SessionStep srv' i s s' c c') (h : srv.Housed) : srv'.Housed := by
  refine ⟨hstep.seat.sound, ?_, ?_⟩
  · rw [hstep.sessions, hstep.roster_set, List.length_set, List.length_set, h.seats]
  · intro j t d ht hd
    rw [hstep.session_at] at ht
    rw [hstep.seat.roster] at hd
    by_cases hj : i = j
    · rw [if_pos hj] at ht hd
      cases Option.some.inj ht
      cases Option.some.inj hd
      obtain ⟨hseat, _⟩ := h.seated i s c hstep.session hstep.connection
      exact ⟨hstep.same.2.trans (hseat.trans hj), hstep.fits⟩
    · rw [if_neg hj] at ht hd
      exact h.seated j t d ht hd

theorem SessionStep.sound {srv srv' : Server} {i : Nat} {s s' : Session} {c c' : Connection}
    (hstep : srv.SessionStep srv' i s s' c c') (h : srv.Sound) : srv'.Sound := by
  obtain ⟨hsettings, hmerge, _⟩ := hstep.rest
  obtain ⟨hregistry, hseats, hseated⟩ := hstep.housed h.housed
  refine ⟨hregistry, ?_, hmerge ▸ h.merge, hmerge ▸ h.timed, hmerge ▸ h.running, hseats, hseated⟩
  rw [hsettings]
  exact hstep.seat.pipeline.fitted h.fitted

end Server

theorem ServerTrace.Stepped.sound {t t' : ServerTrace} (hstep : t.Stepped t') (h : t.server.Sound) :
    t'.server.Sound := by
  cases hstep with
  | idle => exact h
  | accept accepted => exact h
  | forward waits => exact h.push _
  | merge moved => exact h.moveMerge moved
  | commit moved => exact (h.moveMerge moved).takeCommit _
  | pipeline moved =>
    have hu := moved.unmoved
    exact h.withRegistry (hu.sound h.registry) (moved.fitted h.fitted) hu.bare
  | clock => exact ⟨h.registry, h.fitted, h.merge, h.timed, h.running, h.seats, h.seated⟩
  | connect => exact h.openSession _ _ _
  | session moved => exact moved.sound h

theorem ServerTrace.run_sound {t : ServerTrace} (h : t.server.Sound) (events : List ServerEvent) :
    (t.run events).server.Sound := by
  induction events generalizing t with
  | nil => exact h
  | cons e events ih => exact ih ((step_stepped h.housed e).sound h)

/-- The settings stay, and no session is ever taken out. -/
theorem ServerTrace.Stepped.kept {t t' : ServerTrace} (hstep : t.Stepped t') :
    t'.server.settings = t.server.settings ∧
      t.server.sessions.length ≤ t'.server.sessions.length := by
  cases hstep with
  | idle => exact ⟨rfl, Nat.le_refl _⟩
  | accept accepted => exact ⟨rfl, Nat.le_refl _⟩
  | forward waits => exact ⟨rfl, Nat.le_refl _⟩
  | merge moved => exact ⟨rfl, Nat.le_refl _⟩
  | commit moved => exact ⟨rfl, Nat.le_refl _⟩
  | pipeline moved => exact ⟨rfl, Nat.le_refl _⟩
  | clock => exact ⟨rfl, Nat.le_refl _⟩
  | @connect id answersPings wire =>
    obtain ⟨s, c, he, _⟩ := t.server.openSession_eq id answersPings wire
    rw [he]
    refine ⟨rfl, ?_⟩
    rw [List.length_append]
    exact Nat.le_add_right _ _
  | session moved => exact ⟨moved.rest.1, by rw [moved.sessions, List.length_set]⟩

theorem ServerTrace.run_settings {t : ServerTrace} (h : t.server.Sound) (events : List ServerEvent) :
    (t.run events).server.settings = t.server.settings := by
  induction events generalizing t with
  | nil => rfl
  | cons e events ih =>
    have hstep := step_stepped h.housed e
    exact (ih (hstep.sound h)).trans hstep.kept.1

namespace ServerTrace

/-- All timers have fired, and nothing is on its way. -/
structure Idle (t : ServerTrace) : Prop where
  intake : t.intake = []
  timers : t.server.merge.timers = []
  lanes : ∀ lane ∈ t.server.merge.lanes, lane.input = [] ∧ lane.expiries = []
  registry : t.server.registry.Quiet

end ServerTrace

end RoomCast
