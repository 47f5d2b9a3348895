import RoomCast.Proofs.SessionHoldings
import RoomCast.Proofs.SessionSettling

namespace RoomCast

namespace MergeLayer

/-- The workers have ended, and nothing waits for them. -/
structure Spent (m : MergeLayer) : Prop where
  cancelled : m.cancelled = true
  timers : m.timers = []
  lanes : ∀ lane ∈ m.lanes, lane.input = [] ∧ lane.expiries = []

theorem shutdown_cancelled {m : MergeLayer} (h : m.cancelled = true) : m.shutdown = m := by
  rw [shutdown, ← h]

theorem push_refused {m : MergeLayer} (h : m.cancelled = true) (item : MergeItem) :
    m.push item = (m, .error .shutDown) := by
  simp [push, h]

theorem push_signals (m : MergeLayer) (item : MergeItem) :
    (m.push item).1.cancelled = m.cancelled ∧ (m.push item).1.stopped = m.stopped := by
  unfold push
  split
  next => exact ⟨rfl, rfl⟩
  next =>
    split
    next => exact ⟨rfl, rfl⟩
    next => split <;> exact ⟨rfl, rfl⟩

theorem stopWorkers_spent {m : MergeLayer} (h : m.cancelled = true) : m.stopWorkers.Spent := by
  refine ⟨h, rfl, fun lane hl => ?_⟩
  obtain ⟨old, _, rfl⟩ := List.mem_map.mp hl
  exact ⟨rfl, rfl⟩

theorem Spent.still {m m' : MergeLayer} {commit : Option Commit} (h : m.Spent)
    (hm : m.Stepped m' commit) : False := by
  rcases hm with ⟨i, now, hm⟩ | ⟨k, now, hm⟩ | ⟨i, hm⟩
  · obtain ⟨lane, item, rest, hi, hin, _⟩ := takeItem_cases hm
    have hnone := (h.lanes lane (List.mem_of_getElem? hi)).1
    cases hin.symm.trans hnone
  · obtain ⟨t, lane, hk, _⟩ := fire_cases hm
    rw [h.timers] at hk
    cases hk
  · obtain ⟨lane, t, rest, hi, hx, _⟩ := takeExpiry_cases hm
    have hnone := (h.lanes lane (List.mem_of_getElem? hi)).2
    cases hx.symm.trans hnone

/-- Settling ends the workers of a layer that has been given the signal, and commits nothing. -/
theorem settle_cancelled {m : MergeLayer} (h : m.cancelled = true) (now : Nat) :
    m.settle now = (if m.stopped then m else m.stopWorkers, []) := by
  rw [settle, work]
  generalize total (m.lanes.map fun lane => 3 * lane.input.length + lane.expiries.length) +
    2 * m.timers.length = n
  have ended : ∀ m' : MergeLayer, m'.stopped = true → run now n m' = (m', []) := by
    intro m' hm'
    cases n <;> simp [run, step?, hm']
  by_cases hs : m.stopped = true
  · simp [run, step?, hs]
  · simp [run, step?, hs, h, ended m.stopWorkers rfl]

end MergeLayer

namespace Registry

structure Spent (r : Registry) : Prop where
  cancelled : r.cancelled = true
  quiet : r.Quiet

theorem shutdown_cancelled {r : Registry} (h : r.cancelled = true) : r.shutdown = r := by
  rw [shutdown, ← h]

theorem push_refused {r : Registry} (h : r.cancelled = true) (job : PushJob) :
    r.push job = (r, .error .shutDown) := by
  simp [push, h]

theorem push_signals (r : Registry) (job : PushJob) :
    (r.push job).1.cancelled = r.cancelled ∧ (r.push job).1.stopped = r.stopped := by
  rcases r.push_cases job with ⟨he, _⟩ | he | ⟨_, he⟩ <;> rw [he] <;> exact ⟨rfl, rfl⟩

theorem stopWorkers_spent {r : Registry} (h : r.cancelled = true) : r.stopWorkers.Spent := by
  refine ⟨h, rfl, rfl, fun lane hl => ?_⟩
  obtain ⟨old, _, rfl⟩ := List.mem_map.mp hl
  exact ⟨rfl, rfl⟩

theorem SamePipeline.spent {r r' : Registry} (h : SamePipeline r r') (hs : r.Spent) : r'.Spent := by
  obtain ⟨shards, roster, rfl, _⟩ := h
  exact ⟨hs.cancelled, hs.quiet.queue, hs.quiet.offerings, hs.quiet.lanes⟩

theorem SamePipeline.signals {r r' : Registry} (h : SamePipeline r r') :
    r'.cancelled = r.cancelled ∧ r'.stopped = r.stopped := by
  obtain ⟨shards, roster, rfl, _⟩ := h
  exact ⟨rfl, rfl⟩

theorem settle_cancelled {r : Registry} (h : r.cancelled = true) :
    r.settle = if r.stopped then r else r.stopWorkers := by
  rw [settle, work]
  generalize (3 * r.lanes.length + 2) * r.queue.length +
    (3 * r.lanes.length + 2) * r.offerings.length + total (r.lanes.map ShardLane.work) = n
  have ended : ∀ r' : Registry, r'.stopped = true → run n r' = r' := by
    intro r' hr'
    cases n <;> simp [run, step?, hr']
  by_cases hs : r.stopped = true
  · simp [run, step?, hs]
  · simp [run, step?, hs, h, ended r.stopWorkers rfl]

theorem counts_zero {r : Registry} (hs : r.Sound) (hseats : ∀ id, r.seatOf id = none)
    (hmembers : ∀ room id, ¬r.IsMember room id) : r.connectionCount = 0 ∧ r.roomCount = 0 := by
  refine ⟨total_map_zero fun s hmem => ?_, total_map_zero fun s hmem => ?_⟩
  · obtain ⟨k, hk⟩ := List.mem_iff_getElem?.mp hmem
    cases hc : s.connections with
    | nil => simp [Shard.connectionCount, hc]
    | cons entry rest =>
      have hin : s.connections.get? entry.1 = some entry.2 := by
        refine Table.get?_of_mem (hs.shard_sound k s hk).connections_distinct ?_
        rw [hc]
        exact List.mem_cons_self
      have hseat := hseats entry.1
      rw [seatOf, hs.shardFor_of_seat hk hin, hin] at hseat
      cases hseat
  · obtain ⟨k, hk⟩ := List.mem_iff_getElem?.mp hmem
    have hshard := hs.shard_sound k s hk
    cases hr : s.rooms with
    | nil => simp [Shard.roomCount, hr]
    | cons entry rest =>
      have hin : s.rooms.get? entry.1 = some entry.2 := by
        refine Table.get?_of_mem hshard.rooms_distinct ?_
        rw [hr]
        exact List.mem_cons_self
      obtain ⟨id, hid⟩ := List.exists_mem_of_ne_nil _ (hshard.rooms_inhabited _ _ hin)
      have hroom : id ∈ (s.roomOf entry.1).members := by
        rw [Shard.roomOf, hin]
        exact hid
      refine absurd ?_ (hmembers entry.1 id)
      rw [IsMember, hs.shardFor_of_member hk hroom]
      exact hroom

end Registry

namespace Server

def endMerge (srv : Server) : Server :=
  if srv.merge.cancelled && !srv.merge.stopped then { srv with merge := srv.merge.stopWorkers }
  else srv

def endRegistry (srv : Server) : Server :=
  if srv.registry.cancelled && !srv.registry.stopped then
    { srv with registry := srv.registry.stopWorkers }
  else srv

/-- No task can take a step before time passes. -/
structure Settled (srv : Server) : Prop where
  merge : srv.merge.step? srv.now = none
  registry : srv.registry.step? = none
  sessions : srv.sessionsStep? = none

structure Refuses (srv : Server) : Prop where
  merge : ∀ item, srv.merge.push item = (srv.merge, .error .shutDown)
  registry : ∀ job, srv.registry.push job = (srv.registry, .error .shutDown)

structure TornDown (srv : Server) : Prop where
  sessions : ∀ i s c, srv.Sits i s c → s.handler = .ended ∧ c.closed = true ∧ c.rooms = []
  connections : srv.registry.connectionCount = 0
  rooms : srv.registry.roomCount = 0

/-- Workers end only after the signal, which is given to all at once, and leave nothing that waits. -/
structure Heeds (srv : Server) : Prop where
  signal : srv.stopping = true → srv.merge.cancelled = true ∧ srv.registry.cancelled = true
  merge : srv.merge.stopped = true → srv.merge.Spent
  registry : srv.registry.stopped = true → srv.registry.Spent

/-- What holds of a server whatever happens to it. -/
structure Upheld (srv : Server) : Prop where
  housed : srv.Housed
  accounted : srv.Accounted
  beating : srv.Beating
  heeds : srv.Heeds

structure Over (srv : Server) : Prop where
  stopping : srv.stopping = true
  merge : srv.merge.stopped = true
  registry : srv.registry.stopped = true

theorem create_upheld (settings : Settings) (identities : IdentitySource) (showsFigures : Bool) :
    (create settings identities showsFigures).Upheld := by
  refine ⟨(create_sound settings identities showsFigures).housed,
    create_accounted settings identities showsFigures, ?_, ?_⟩
  · intro s hs
    simp [create] at hs
  · exact ⟨fun h => (by cases h), fun h => (by cases h), fun h => (by cases h)⟩

section Sessions

variable {srv srv' : Server} {i : Nat} {s s' : Session} {c c' : Connection}

theorem Housed.session?_of (hs : srv.Housed) (h : srv.Sits i s c) :
    srv.session? i = some (s, c) := by
  have hseat := (hs.seated i s c h.1 h.2).1
  simp only [Server.session?, h.1, Registry.connection?, hseat, h.2, Option.map_some]

theorem handlerStep_stopping (hs : srv.Housed) (hstop : srv.stopping = true) (h : srv.Sits i s c)
    (hnone : srv.handlerStep i = none) : s.handler = .ended := by
  rw [handlerStep, hs.session?_of h] at hnone
  cases hh : s.handler with
  | starting => simp [hh] at hnone
  | running => simp [hh, hstop] at hnone
  | ended => rfl

theorem sessionsStep?_none (h : srv.sessionsStep? = none) (hi : srv.sessions[i]? = some s) :
    srv.handlerStep i = none := by
  have hlt := (List.getElem?_eq_some_iff.mp hi).1
  have hstep := List.findSome?_eq_none_iff.mp h i (List.mem_range.mpr hlt)
  simp only [sessionStep?, hi, Option.orElse_eq_none] at hstep
  exact hstep.2.2.2.1

theorem TaskMove.queue (h : srv.TaskMove i s c srv' s' c') (hstop : srv.stopping = true) :
    c'.outbound <:+ c.outbound := by
  have hclose : c.close.1.outbound <:+ c.outbound := by
    rw [c.close_outbound]
  cases h with
  | task moved =>
    rcases moved with hr | hw | hb
    · rcases Session.readerStep_cases hr with ⟨_, rfl⟩ | ⟨_, _, _, _, _, _, _, _, _, rfl⟩ |
        ⟨_, _, _, _, _, _, _, _, rfl, _⟩
      · exact hclose
      · exact List.suffix_rfl
      · exact List.suffix_rfl
    · rcases Session.writerStep_cases hw with ⟨_, rfl⟩ | ⟨frame, rest, _, hq, _, rfl⟩ |
        ⟨_, _, _, _, rfl⟩ | ⟨_, _, _, _, rfl⟩
      · exact hclose
      · rw [hq]
        exact List.suffix_cons frame rest
      · exact List.suffix_rfl
      · exact List.nil_suffix
    · rcases (Session.heartbeatStep_cases hb).2 with rfl | rfl
      · exact List.suffix_rfl
      · exact hclose
  | start fresh => exact List.suffix_rfl
  | finish runs leaves => exact hclose
  | handle runs goes waits seat answered => exact absurd (hstop.symm.trans goes.2) (by simp)

end Sessions

/-- When all handlers have ended, the tables are empty. -/
theorem tornDown_of_ended {srv : Server} (hs : srv.Housed) (ha : srv.Accounted)
    (hended : ∀ i s c, srv.Sits i s c → s.handler = .ended) : srv.TornDown := by
  have unheld : ∀ {i s c id}, srv.Sits i s c → ¬s.Holds id := by
    intro i s c id hsits hown
    have hh := (hended i s c hsits).symm.trans hown.1
    cases hh
  have hcounts := Registry.counts_zero hs.registry (fun id => ?_) (fun room id hm => ?_)
  · exact ⟨fun i s c hsits => ⟨hended i s c hsits, ha.cleared i s c hsits (hended i s c hsits)⟩,
      hcounts.1, hcounts.2⟩
  · by_contra hn
    obtain ⟨i, s, c, hsits, hown⟩ := ha.seats id hn
    exact unheld hsits hown
  · obtain ⟨i, s, c, hsits, hown, _⟩ := ha.members room id hm
    exact unheld hsits hown

theorem Over.settled {srv : Server} (h : srv.Over) (hs : srv.sessionsStep? = none) : srv.Settled :=
  ⟨by simp [MergeLayer.step?, h.merge], by simp [Registry.step?, h.registry], hs⟩

theorem Settled.over {srv : Server} (h : srv.Settled) (hu : srv.Heeds) (hstop : srv.stopping = true) :
    srv.Over := by
  obtain ⟨hmerge, hregistry⟩ := hu.signal hstop
  refine ⟨hstop, ?_, ?_⟩
  · by_contra hn
    have hstep := h.merge
    simp [MergeLayer.step?, hn, hmerge] at hstep
  · by_contra hn
    have hstep := h.registry
    simp [Registry.step?, hn, hregistry] at hstep

theorem Settled.tornDown {srv : Server} (h : srv.Settled) (hu : srv.Upheld)
    (hstop : srv.stopping = true) : srv.TornDown :=
  tornDown_of_ended hu.housed hu.accounted fun _ _ _ hsits =>
    handlerStep_stopping hu.housed hstop hsits (sessionsStep?_none h.sessions hsits.1)

theorem Heeds.refuses {srv : Server} (h : srv.Heeds) (hstop : srv.stopping = true) : srv.Refuses := by
  obtain ⟨hmerge, hregistry⟩ := h.signal hstop
  exact ⟨fun item => MergeLayer.push_refused hmerge item,
    fun job => Registry.push_refused hregistry job⟩

theorem Heeds.withRegistry {srv : Server} (h : srv.Heeds) {r : Registry}
    (hcancelled : r.cancelled = srv.registry.cancelled)
    (hspent : r.stopped = true → r.Spent) : Heeds { srv with registry := r } :=
  ⟨fun hstop => ⟨(h.signal hstop).1, hcancelled.trans (h.signal hstop).2⟩, h.merge, hspent⟩

theorem Heeds.withMerge {srv : Server} (h : srv.Heeds) {m : MergeLayer}
    (hcancelled : m.cancelled = srv.merge.cancelled)
    (hspent : m.stopped = true → m.Spent) : Heeds { srv with merge := m } :=
  ⟨fun hstop => ⟨hcancelled.trans (h.signal hstop).1, (h.signal hstop).2⟩, hspent, h.registry⟩

theorem Heeds.offer {srv : Server} (h : srv.Heeds) (item : MergeItem) :
    Heeds { srv with merge := (srv.merge.push item).1 } := by
  obtain ⟨hcancelled, hstopped⟩ := srv.merge.push_signals item
  refine h.withMerge hcancelled fun hs => ?_
  have hspent := h.merge (hstopped.symm.trans hs)
  rw [MergeLayer.push_refused hspent.cancelled]
  exact hspent

theorem Heeds.push {srv : Server} (h : srv.Heeds) (job : PushJob) :
    Heeds { srv with registry := (srv.registry.push job).1 } := by
  obtain ⟨hcancelled, hstopped⟩ := srv.registry.push_signals job
  refine h.withRegistry hcancelled fun hs => ?_
  have hspent := h.registry (hstopped.symm.trans hs)
  rw [Registry.push_refused hspent.cancelled]
  exact hspent

theorem Heeds.moveMerge {srv : Server} (h : srv.Heeds) {m : MergeLayer} {commit : Option Commit}
    (hm : srv.merge.Stepped m commit) : Heeds { srv with merge := m } := by
  obtain ⟨hcancelled, hstopped⟩ := hm.moved.running
  exact h.withMerge hcancelled fun hs => ((h.merge (hstopped.symm.trans hs)).still hm).elim

theorem Heeds.movePipeline {srv : Server} (h : srv.Heeds) {r : Registry}
    (hm : srv.registry.PipelineStep r) : Heeds { srv with registry := r } := by
  obtain ⟨_, hcancelled, hstopped⟩ := hm.unmoved.signals
  exact h.withRegistry hcancelled fun hs =>
    ((h.registry (hstopped.symm.trans hs)).quiet.step hm).elim

theorem SessionStep.heeds {srv srv' : Server} {i : Nat} {s s' : Session} {c c' : Connection}
    (hstep : srv.SessionStep srv' i s s' c c') (h : srv.Heeds) : srv'.Heeds := by
  obtain ⟨_, hmerge, hstopping⟩ := hstep.rest
  obtain ⟨hcancelled, hstopped⟩ := hstep.seat.pipeline.signals
  refine ⟨fun hstop => ?_, fun hs => ?_, fun hs => ?_⟩
  · rw [hmerge, hcancelled]
    exact h.signal (hstopping.symm.trans hstop)
  · rw [hmerge] at hs ⊢
    exact h.merge hs
  · exact hstep.seat.pipeline.spent (h.registry (hstopped.symm.trans hs))

theorem Upheld.withMerge {srv : Server} (h : srv.Upheld) {m : MergeLayer}
    (hm : Heeds { srv with merge := m }) : Upheld { srv with merge := m } :=
  ⟨⟨h.housed.registry, h.housed.seats, h.housed.seated⟩,
    ⟨h.accounted.seats, h.accounted.members, h.accounted.cleared⟩, h.beating, hm⟩

theorem Upheld.withRegistry {srv : Server} (h : srv.Upheld) {r : Registry}
    (hshards : r.shards = srv.registry.shards) (hroster : r.roster = srv.registry.roster)
    (hr : Heeds { srv with registry := r }) : Upheld { srv with registry := r } := by
  have hbare := congrArg (List.map Connection.bare) hroster
  have hsound := h.housed.registry.of_roster hshards fun _ c hc => ⟨c, hroster ▸ hc, rfl⟩
  exact ⟨h.housed.withRegistry hsound hbare, h.accounted.withRegistry hshards hbare, h.beating, hr⟩

theorem endMerge_upheld {srv : Server} (h : srv.Upheld) : srv.endMerge.Upheld := by
  unfold endMerge
  split
  next hs =>
    have hcancelled : srv.merge.cancelled = true := (Bool.and_eq_true_iff.mp hs).1
    exact h.withMerge (h.heeds.withMerge rfl fun _ => MergeLayer.stopWorkers_spent hcancelled)
  next => exact h

theorem endRegistry_upheld {srv : Server} (h : srv.Upheld) : srv.endRegistry.Upheld := by
  unfold endRegistry
  split
  next hs =>
    have hcancelled : srv.registry.cancelled = true := (Bool.and_eq_true_iff.mp hs).1
    exact h.withRegistry rfl rfl
      (h.heeds.withRegistry rfl fun _ => Registry.stopWorkers_spent hcancelled)
  next => exact h

theorem stopMerge_upheld {srv : Server} (h : srv.Upheld) :
    Upheld { srv with merge := srv.merge.shutdown } := by
  refine h.withMerge ⟨fun hstop => ⟨rfl, (h.heeds.signal hstop).2⟩, fun hs => ?_, h.heeds.registry⟩
  have hspent := h.heeds.merge hs
  exact ⟨rfl, hspent.timers, hspent.lanes⟩

theorem stopRegistry_upheld {srv : Server} (h : srv.Upheld) :
    Upheld { srv with registry := srv.registry.shutdown } := by
  refine h.withRegistry rfl rfl
    ⟨fun hstop => ⟨(h.heeds.signal hstop).1, rfl⟩, h.heeds.merge, fun hs => ?_⟩
  exact ⟨rfl, (h.heeds.registry hs).quiet.queue, (h.heeds.registry hs).quiet.offerings,
    (h.heeds.registry hs).quiet.lanes⟩

theorem stop_upheld {srv : Server} (h : srv.Upheld) : srv.stop.Upheld := by
  have hboth := stopRegistry_upheld (stopMerge_upheld h)
  exact ⟨⟨hboth.housed.registry, hboth.housed.seats, hboth.housed.seated⟩,
    ⟨hboth.accounted.seats, hboth.accounted.members, hboth.accounted.cleared⟩, hboth.beating,
    fun _ => ⟨rfl, rfl⟩, hboth.heeds.merge, hboth.heeds.registry⟩

end Server

namespace ServerTrace

variable {t t' : ServerTrace}

theorem Stepped.housed (hstep : t.Stepped t') (h : t.server.Housed) : t'.server.Housed := by
  cases hstep with
  | idle => exact h
  | accept accepted => exact h
  | forward waits => exact ⟨h.registry, h.seats, h.seated⟩
  | merge moved => exact ⟨h.registry, h.seats, h.seated⟩
  | @commit m commit moved =>
    have hm : Server.Housed { t.server with merge := m } := ⟨h.registry, h.seats, h.seated⟩
    exact hm.push ⟨commit.target, commit.payload⟩
  | pipeline moved => exact h.withRegistry (moved.unmoved.sound h.registry) moved.unmoved.bare
  | clock => exact ⟨h.registry, h.seats, h.seated⟩
  | connect => exact h.openSession _ _ _
  | session moved how => exact moved.housed h

theorem Stepped.beating (hstep : t.Stepped t') (h : t.server.Beating) : t'.server.Beating := by
  cases hstep with
  | idle => exact h
  | accept accepted => exact h
  | forward waits => exact h
  | merge moved => exact h
  | commit moved => exact h
  | pipeline moved => exact h
  | clock => exact h
  | @connect id answersPings wire =>
    obtain ⟨s, c, he, _, _, hfresh⟩ := t.server.openSession_eq id answersPings wire
    rw [he]
    intro x hx hn
    rcases List.mem_append.mp hx with hx | hx
    · exact h x hx hn
    · cases List.mem_singleton.mp hx
      exact absurd hfresh.heartbeat hn
  | @session srv i s s' c c' moved how =>
    have hbeat := h s (List.mem_of_getElem? moved.session)
    intro x hx hn
    rw [moved.rest.1]
    rcases moved.mem_sessions hx with hx | rfl
    · exact h x hx hn
    · rcases how with hmove | ⟨htold, _, _⟩
      · exact hmove.beating hbeat hn
      · exact hbeat (htold.tasks.2.2 ▸ hn)

theorem Stepped.heeds (hstep : t.Stepped t') (h : t.server.Heeds) : t'.server.Heeds := by
  cases hstep with
  | idle => exact h
  | accept accepted => exact h
  | forward waits => exact h.offer _
  | merge moved => exact h.moveMerge moved
  | commit moved => exact (h.moveMerge moved).push _
  | pipeline moved => exact h.movePipeline moved
  | clock => exact ⟨h.signal, h.merge, h.registry⟩
  | @connect id answersPings wire =>
    obtain ⟨s, c, he, _⟩ := t.server.openSession_eq id answersPings wire
    have hsame : Registry.SamePipeline t.server.registry (t.server.registry.seatConnection c).1 :=
      ⟨t.server.registry.shards, _, rfl, rfl⟩
    have hseated := h.withRegistry hsame.signals.1 fun hs =>
      hsame.spent (h.registry (hsame.signals.2.symm.trans hs))
    rw [he]
    exact ⟨hseated.signal, hseated.merge, hseated.registry⟩
  | session moved how => exact moved.heeds h

theorem Stepped.stopping (hstep : t.Stepped t') : t'.server.stopping = t.server.stopping := by
  cases hstep with
  | connect =>
    obtain ⟨s, c, he, _⟩ := t.server.openSession_eq _ _ _
    rw [he]
  | session moved how => exact moved.rest.2.2
  | _ => rfl

theorem Stepped.upheld (hstep : t.Stepped t') (h : t.server.Upheld) : t'.server.Upheld :=
  ⟨hstep.housed h.housed, hstep.accounted h.housed h.accounted, hstep.beating h.beating,
    hstep.heeds h.heeds⟩

/-- What can happen to a server, the stop signal included. -/
inductive ShutdownEvent where
  | serve (e : ServerEvent)
  | offer (item : MergeItem)
  | push (job : PushJob)
  /-- The merge layer is given the signal by itself, as it is before the registry and the sessions. -/
  | stopMerge
  | stopRegistry
  | stop
  | endMerge
  | endRegistry

/-- The server after an event; a signal that has been found is not found again. -/
def undergo (t : ServerTrace) : ShutdownEvent → ServerTrace
  | .serve e => t.step e
  | .offer item => { t with server := { t.server with merge := (t.server.merge.push item).1 } }
  | .push job => { t with server := { t.server with registry := (t.server.registry.push job).1 } }
  | .stopMerge => { t with server := { t.server with merge := t.server.merge.shutdown } }
  | .stopRegistry => { t with server := { t.server with registry := t.server.registry.shutdown } }
  | .stop => { t with server := t.server.stop }
  | .endMerge => { t with server := t.server.endMerge }
  | .endRegistry => { t with server := t.server.endRegistry }

def undergoAll (t : ServerTrace) (events : List ShutdownEvent) : ServerTrace :=
  events.foldl undergo t

theorem undergoAll_append (t : ServerTrace) (events later : List ShutdownEvent) :
    t.undergoAll (events ++ later) = (t.undergoAll events).undergoAll later :=
  List.foldl_append

theorem undergo_upheld (h : t.server.Upheld) (e : ShutdownEvent) : (t.undergo e).server.Upheld := by
  cases e with
  | serve e => exact (step_stepped h.housed e).upheld h
  | offer item => exact h.withMerge (h.heeds.offer item)
  | push job =>
    obtain ⟨hshards, hroster⟩ := t.server.registry.push_tables job
    exact h.withRegistry hshards hroster (h.heeds.push job)
  | stopMerge => exact Server.stopMerge_upheld h
  | stopRegistry => exact Server.stopRegistry_upheld h
  | stop => exact Server.stop_upheld h
  | endMerge => exact Server.endMerge_upheld h
  | endRegistry => exact Server.endRegistry_upheld h

theorem undergoAll_upheld (h : t.server.Upheld) (events : List ShutdownEvent) :
    (t.undergoAll events).server.Upheld := by
  induction events generalizing t with
  | nil => exact h
  | cons e events ih => exact ih (undergo_upheld h e)

theorem undergo_stopping (h : t.server.Upheld) (hstop : t.server.stopping = true)
    (e : ShutdownEvent) : (t.undergo e).server.stopping = true := by
  cases e with
  | serve e => exact (step_stepped h.housed e).stopping.trans hstop
  | offer item => exact hstop
  | push job => exact hstop
  | stopMerge => exact hstop
  | stopRegistry => exact hstop
  | stop => rfl
  | endMerge =>
    simp only [undergo, Server.endMerge]
    split <;> exact hstop
  | endRegistry =>
    simp only [undergo, Server.endRegistry]
    split <;> exact hstop

theorem undergoAll_stopping (h : t.server.Upheld) (hstop : t.server.stopping = true)
    (events : List ShutdownEvent) : (t.undergoAll events).server.stopping = true := by
  induction events generalizing t with
  | nil => exact hstop
  | cons e events ih => exact ih (undergo_upheld h e) (undergo_stopping h hstop e)

/-- From one moment to another no batch has been committed, nothing has changed on its way to the
connections, and no frame has been queued for any of them. -/
structure Silent (t t' : ServerTrace) : Prop where
  commits : t'.commits = t.commits
  merge : t'.server.merge = t.server.merge
  pipeline : Registry.SamePipeline t.server.registry t'.server.registry
  queues : ∀ (seat : Nat) (c : Connection), t'.server.registry.roster[seat]? = some c →
    c.outbound <:+ ((t.server.registry.roster[seat]?).map (·.outbound)).getD []

theorem silent_of_roster (hcommits : t'.commits = t.commits)
    (hmerge : t'.server.merge = t.server.merge)
    (hregistry : t'.server.registry = t.server.registry) : Silent t t' := by
  refine ⟨hcommits, hmerge, hregistry ▸ Registry.samePipeline_refl _, fun seat c hc => ?_⟩
  rw [← hregistry, hc]
  exact List.suffix_rfl

theorem silent_refl (t : ServerTrace) : Silent t t := silent_of_roster rfl rfl rfl

theorem Silent.trans {t'' : ServerTrace} (h : Silent t t') (h' : Silent t' t'') : Silent t t'' := by
  refine ⟨h'.commits.trans h.commits, h'.merge.trans h.merge,
    Registry.samePipeline_trans h.pipeline h'.pipeline, fun seat c hc => ?_⟩
  have hlater := h'.queues seat c hc
  cases hmid : t'.server.registry.roster[seat]? with
  | none =>
    rw [hmid, Option.map_none, Option.getD_none, List.suffix_nil] at hlater
    rw [hlater]
    exact List.nil_suffix
  | some d =>
    rw [hmid, Option.map_some, Option.getD_some] at hlater
    exact hlater.trans (h.queues seat d hmid)

theorem Stepped.silent (hstep : t.Stepped t') (h : t.server.Heeds) (hover : t.server.Over) :
    Silent t t' := by
  have hmerge := h.merge hover.merge
  have hregistry := h.registry hover.registry
  cases hstep with
  | idle => exact silent_refl t
  | accept accepted => exact silent_of_roster rfl rfl rfl
  | forward waits =>
    refine silent_of_roster rfl ?_ rfl
    rw [MergeLayer.push_refused hmerge.cancelled]
  | merge moved => exact (hmerge.still moved).elim
  | commit moved => exact (hmerge.still moved).elim
  | pipeline moved => exact (hregistry.quiet.step moved).elim
  | clock => exact silent_of_roster rfl rfl rfl
  | @connect id answersPings wire =>
    -- a new connection has an empty queue
    obtain ⟨s, c, he, _, _, hfresh⟩ := t.server.openSession_eq id answersPings wire
    rw [he]
    refine ⟨rfl, rfl, ⟨t.server.registry.shards, _, rfl, rfl⟩, fun seat d hd => ?_⟩
    rcases getElem?_snoc_cases hd with hd | ⟨_, rfl⟩
    · rw [hd]
      exact List.suffix_rfl
    · rw [(List.append_eq_nil_iff.mp hfresh.queued).2]
      exact List.nil_suffix
  | @session srv i s s' c c' moved how =>
    have hqueue : c'.outbound <:+ c.outbound := by
      rcases how with hmove | ⟨_, rfl, _⟩
      · exact hmove.queue hover.stopping
      · exact List.suffix_rfl
    refine ⟨rfl, moved.rest.2.1, moved.seat.pipeline, fun seat d hd => ?_⟩
    have hd' := (moved.seat.roster seat).symm.trans hd
    by_cases hi : i = seat
    · subst hi
      rw [if_pos rfl] at hd'
      cases Option.some.inj hd'
      rw [moved.connection]
      exact hqueue
    · rw [if_neg hi] at hd'
      rw [hd']
      exact List.suffix_rfl

/-- When all is over, no event commits or queues anything. -/
theorem undergo_silent (h : t.server.Upheld) (hover : t.server.Over) (e : ShutdownEvent) :
    Silent t (t.undergo e) := by
  obtain ⟨hmerge, hregistry⟩ := h.heeds.signal hover.stopping
  cases e with
  | serve e => exact (step_stepped h.housed e).silent h.heeds hover
  | offer item =>
    refine silent_of_roster rfl ?_ rfl
    simp only [undergo, MergeLayer.push_refused hmerge]
  | push job =>
    refine silent_of_roster rfl rfl ?_
    simp only [undergo, Registry.push_refused hregistry]
  | stopMerge => exact silent_of_roster rfl (MergeLayer.shutdown_cancelled hmerge) rfl
  | stopRegistry => exact silent_of_roster rfl rfl (Registry.shutdown_cancelled hregistry)
  | stop =>
    exact silent_of_roster rfl (MergeLayer.shutdown_cancelled hmerge)
      (Registry.shutdown_cancelled hregistry)
  | endMerge =>
    refine silent_of_roster rfl ?_ ?_ <;> simp [undergo, Server.endMerge, hover.merge]
  | endRegistry =>
    refine silent_of_roster rfl ?_ ?_ <;> simp [undergo, Server.endRegistry, hover.registry]

theorem Silent.over (hsilent : Silent t t') (hover : t.server.Over)
    (hstop : t'.server.stopping = true) : t'.server.Over :=
  ⟨hstop, hsilent.merge ▸ hover.merge, hsilent.pipeline.signals.2.trans hover.registry⟩

theorem undergoAll_silent (h : t.server.Upheld) (hover : t.server.Over)
    (events : List ShutdownEvent) : Silent t (t.undergoAll events) := by
  induction events generalizing t with
  | nil => exact silent_refl t
  | cons e events ih =>
    have hsilent := undergo_silent h hover e
    exact hsilent.trans (ih (undergo_upheld h e)
      (hsilent.over hover (undergo_stopping h hover.stopping e)))

/-- Some events lead from here to there, the end of the workers included. -/
def Ends (t t' : ServerTrace) : Prop := ∃ events, t.undergoAll events = t'

theorem ends_step (t : ServerTrace) (e : ShutdownEvent) : Ends t (t.undergo e) := ⟨[e], rfl⟩

theorem Ends.trans {t'' : ServerTrace} (h : Ends t t') (h' : Ends t' t'') : Ends t t'' := by
  obtain ⟨events, rfl⟩ := h
  obtain ⟨events', rfl⟩ := h'
  exact ⟨events ++ events', undergoAll_append t events events'⟩

theorem Leads.ends (h : Leads t t') : Ends t t' := by
  obtain ⟨events, rfl⟩ := h
  exact ⟨events.map .serve, List.foldl_map⟩

theorem settleMerge_stopped {srv : Server} (h : srv.merge.cancelled = true) :
    srv.settleMerge.merge.stopped = true := by
  rw [Server.settleMerge, MergeLayer.settle_cancelled h]
  cases hs : srv.merge.stopped with
  | true => exact hs
  | false => rfl

theorem settleRegistry_stopped {srv : Server} (h : srv.registry.cancelled = true) :
    srv.settleRegistry.registry.stopped = true := by
  rw [Server.settleRegistry, Registry.settle_cancelled h]
  cases hs : srv.registry.stopped with
  | true => exact hs
  | false => rfl

theorem settleMerge_cancelled {srv : Server} (h : srv.merge.cancelled = true) :
    srv.settleMerge = srv.endMerge := by
  rw [Server.settleMerge, MergeLayer.settle_cancelled h, Server.endMerge, h]
  cases srv.merge.stopped <;> rfl

theorem settleRegistry_cancelled {srv : Server} (h : srv.registry.cancelled = true) :
    srv.settleRegistry = srv.endRegistry := by
  rw [Server.settleRegistry, Registry.settle_cancelled h, Server.endRegistry, h]
  cases srv.registry.stopped <;> rfl

theorem Ends.upheld (h : Ends t t') (hu : t.server.Upheld) (hstop : t.server.stopping = true) :
    t'.server.Upheld ∧ t'.server.stopping = true := by
  obtain ⟨events, rfl⟩ := h
  exact ⟨undergoAll_upheld hu events, undergoAll_stopping hu hstop events⟩

/-- Settling is something that can happen, and leaves no task a step. -/
theorem ends_settle (h : t.server.Upheld) (hstop : t.server.stopping = true) :
    Ends t { t with server := t.server.settle } ∧ t.server.settle.Settled := by
  have hsessions : Ends t { t with server := t.server.settleSessions } :=
    (leads_runSessions _ t).ends
  obtain ⟨hu₁, hs₁⟩ := hsessions.upheld h hstop
  have hmerge := ends_step { t with server := t.server.settleSessions } .endMerge
  simp only [undergo, ← settleMerge_cancelled (hu₁.heeds.signal hs₁).1] at hmerge
  obtain ⟨hu₂, hs₂⟩ := hmerge.upheld hu₁ hs₁
  have hregistry := ends_step { t with server := t.server.settleSessions.settleMerge } .endRegistry
  simp only [undergo, ← settleRegistry_cancelled (hu₂.heeds.signal hs₂).2] at hregistry
  obtain ⟨hu₃, hs₃⟩ := hregistry.upheld hu₂ hs₂
  have hwritten : Ends { t with server := t.server.settleSessions.settleMerge.settleRegistry }
      { t with server := t.server.settle } := (leads_runSessions _ _).ends
  refine ⟨((hsessions.trans hmerge).trans hregistry).trans hwritten, ?_⟩
  -- the workers have ended before the sessions settle again
  have hover : t.server.settleSessions.settleMerge.settleRegistry.Over := by
    refine ⟨hs₃, ?_, ?_⟩
    · exact settleMerge_stopped (hu₁.heeds.signal hs₁).1
    · exact settleRegistry_stopped (hu₂.heeds.signal hs₂).2
  obtain ⟨events, he⟩ := hwritten
  have hsilent := undergoAll_silent (t := { t with
    server := t.server.settleSessions.settleMerge.settleRegistry }) hu₃ hover events
  rw [he] at hsilent
  exact (hsilent.over hover (Ends.upheld ⟨events, he⟩ hu₃ hs₃).2).settled
    (Server.settleSessions_settles hu₃.housed hu₃.beating)

end ServerTrace

open ServerTrace in
/-- From the stop signal on every push is refused. Once the tasks have settled every session is torn down,
and whatever follows, nothing is committed or queued. -/
theorem Server.shutdown_is_final (settings : Settings) (identities : IdentitySource)
    (showsFigures : Bool) (before : List ShutdownEvent) :
    let stopped := (start (.create settings identities showsFigures)).undergoAll (before ++ [.stop])
    (∃ events, (stopped.undergoAll events).server = stopped.server.settle ∧
      stopped.server.settle.Settled) ∧
    ∀ events,
      let t := stopped.undergoAll events
      t.server.Refuses ∧
      (t.server.Settled → t.server.TornDown ∧
        ∀ later more, (t.undergoAll later).Silent ((t.undergoAll later).undergoAll more)) := by
  intro stopped
  have hstopped : stopped = ((start (.create settings identities showsFigures)).undergoAll
      before).undergo .stop := undergoAll_append _ before [.stop]
  have hupheld : stopped.server.Upheld := by
    rw [hstopped]
    exact undergo_upheld (undergoAll_upheld (create_upheld settings identities showsFigures) before)
      .stop
  have hstop : stopped.server.stopping = true := by
    rw [hstopped]
    rfl
  refine ⟨?_, fun events => ?_⟩
  · obtain ⟨⟨events, he⟩, hsettled⟩ := ends_settle hupheld hstop
    exact ⟨events, by rw [he], hsettled⟩
  · intro t
    have hu : t.server.Upheld := undergoAll_upheld hupheld events
    have hs : t.server.stopping = true := undergoAll_stopping hupheld hstop events
    refine ⟨hu.heeds.refuses hs, fun hsettled => ⟨hsettled.tornDown hu hs, fun later more => ?_⟩⟩
    have hover := hsettled.over hu.heeds hs
    have hlater := undergoAll_silent hu hover later
    exact undergoAll_silent (undergoAll_upheld hu later)
      (hlater.over hover (undergoAll_stopping hu hs later)) more

open ServerTrace in
/-- The signal finds a session in a room and another that has not begun, an open batch, and pushes on
their way. -/
theorem Server.busy_server_stops :
    let settings : Settings :=
      { Settings.defaults with registry := ⟨2, 4, 1, 4, 1⟩, merge := ⟨1, 4, 5, 2⟩ }
    let sessions : List ServerEvent := [.connect ⟨7⟩ true .open, .serve 0,
      .arrive 0 (.text "\x7b\"type\":\"JOIN\",\"data\":\x7b\"room\":\"a\"\x7d\x7d"), .read 0, .serve 0,
      .connect ⟨8⟩ true .stalled, .arrive 1 .pong]
    let before : List ShutdownEvent := sessions.map .serve ++
      [.offer ⟨.broadcast, ⟨"1"⟩⟩, .serve (.takeItem 0), .push ⟨.all, ⟨[⟨"2"⟩]⟩⟩,
        .serve (.pipeline .take), .push ⟨.room "a", ⟨[⟨"3"⟩]⟩⟩]
    let busy := (start (.create settings ⟨1⟩ false)).undergoAll before
    let stopped := (start (.create settings ⟨1⟩ false)).undergoAll (before ++ [.stop])
    (busy.server.registry.connectionCount = 1 ∧ busy.server.registry.roomCount = 1 ∧
      busy.server.merge.timers.length = 1 ∧ busy.server.registry.offerings.length = 1 ∧
      busy.server.registry.queue.length = 1) ∧
    stopped.server.settle.TornDown := by
  intro settings sessions before busy stopped
  obtain ⟨⟨events, he, hsettled⟩, hfinal⟩ := shutdown_is_final settings ⟨1⟩ false before
  refine ⟨by decide +kernel, ?_⟩
  have htorn := (hfinal events).2
  rw [he] at htorn
  exact (htorn hsettled).1

end RoomCast
