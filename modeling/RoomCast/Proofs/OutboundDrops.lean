import RoomCast.Proofs.MembershipAgreement

namespace RoomCast

theorem Connection.send_dropped (c : Connection) (frame : String) :
    (c.send frame).1.dropped =
      c.dropped + if (c.send frame).2 = .error .queueFull then 1 else 0 := by
  unfold Connection.send
  split
  next => rfl
  next =>
    split
    next => rfl
    next => split <;> rfl

theorem Connection.send_keepAlive (c : Connection) (frame : String) (now : Nat) :
    (c.keepAlive now).send frame = ((c.send frame).1.keepAlive now, (c.send frame).2) := by
  have hopen : (c.keepAlive now).closed = c.closed := rfl
  have htakes : (c.keepAlive now).receiving = c.receiving := rfl
  unfold Connection.send
  rw [hopen, htakes]
  by_cases hclosed : c.closed = true
  · simp [hclosed]
  · by_cases hlost : (!c.receiving) = true
    · simp [hclosed, hlost]
    · by_cases hfull : c.capacity ≤ c.outbound.length <;>
        simp [hclosed, hlost, hfull, Connection.keepAlive]

theorem fullSeats_of_some {roster : Roster} {seat : Nat} {c : Connection}
    (hc : roster[seat]? = some c) (frame : String) :
    (fullSeats roster frame [seat]).length =
      if (c.send frame).2 = .error .queueFull then 1 else 0 := by
  by_cases hf : (c.send frame).2 = .error .queueFull <;> simp [fullSeats, hc, hf]

theorem fullSeats_of_none {roster : Roster} {seat : Nat} (hc : roster[seat]? = none)
    (frame : String) : fullSeats roster frame [seat] = [] := by
  simp [fullSeats, hc]

def Roster.dropped (roster : Roster) : Nat := total (roster.map (·.dropped))

theorem Roster.dropped_set {roster : Roster} {seat : Nat} {c : Connection}
    (hc : roster[seat]? = some c) (c' : Connection) :
    Roster.dropped (roster.set seat c') + c.dropped = Roster.dropped roster + c'.dropped :=
  total_map_set (fun c : Connection => c.dropped) hc c'

theorem Roster.dropped_offer (roster : Roster) (seats : List Nat) (frame : String) :
    Roster.dropped (roster.offer seats frame).roster =
      Roster.dropped roster + (roster.offer seats frame).dropped := by
  have fold : ∀ (seats : List Nat) (o : Offered),
      Roster.dropped (seats.foldl (Offered.step frame) o).roster + o.dropped =
        Roster.dropped o.roster + (seats.foldl (Offered.step frame) o).dropped := by
    intro seats
    induction seats with
    | nil => exact fun o => rfl
    | cons seat seats ih =>
      intro o
      have htail := ih (Offered.step frame o seat)
      have hhead : Roster.dropped (Offered.step frame o seat).roster + o.dropped =
          Roster.dropped o.roster + (Offered.step frame o seat).dropped := by
        cases hc : o.roster[seat]? with
        | none => rw [Offered.step_unseated hc]
        | some c =>
          obtain ⟨hroster, _, hdropped⟩ := @Offered.step_seated frame o seat c hc
          have hset := dropped_set hc (c.send frame).1
          have hsend := c.send_dropped frame
          rw [hroster, hdropped]
          omega
      rw [List.foldl_cons]
      omega
  simpa [Roster.offer] using fold seats ⟨roster, 0, 0⟩

namespace Registry

theorem updateConnection_dropped (r : Registry) (seat : Nat) {f : Connection → Connection}
    (hf : ∀ c, (f c).dropped = c.dropped) :
    Roster.dropped (r.updateConnection seat f).roster = Roster.dropped r.roster := by
  cases hc : r.roster[seat]? with
  | none => rw [updateConnection, List.modify_eq_self (List.getElem?_eq_none_iff.mp hc)]
  | some c =>
    have hset := Roster.dropped_set hc (f c)
    have hkept := hf c
    change Roster.dropped (r.roster.modify seat f) = _
    rw [modify_of_some hc]
    omega

theorem updateConnection_sends (r : Registry) (seat : Nat) {f : Connection → Connection}
    {frame : String} (hf : ∀ c, (f c).dropped = (c.send frame).1.dropped) :
    Roster.dropped (r.updateConnection seat f).roster =
      Roster.dropped r.roster + (fullSeats r.roster frame [seat]).length := by
  cases hc : r.roster[seat]? with
  | none =>
    rw [updateConnection, List.modify_eq_self (List.getElem?_eq_none_iff.mp hc),
      fullSeats_of_none hc]
    rfl
  | some c =>
    have hset := Roster.dropped_set hc (f c)
    have hsent := (hf c).trans (c.send_dropped frame)
    change Roster.dropped (r.roster.modify seat f) = _
    rw [modify_of_some hc, fullSeats_of_some hc]
    omega

/-- The frames dropped so far, as the connections and as the registry count them. -/
def dropBooks (r : Registry) : Nat × Nat := (Roster.dropped r.roster, r.counters.outboundDrops)

theorem leaveRooms_dropBooks (r : Registry) (rooms : List String) (id : ConnectionId) :
    (r.leaveRooms rooms id).dropBooks = r.dropBooks := by
  induction rooms generalizing r with
  | nil => rfl
  | cons room rooms ih => exact ih (r.leaveRoom room id).1

theorem join_dropBooks (r : Registry) (seat : Nat) (room : String) :
    (r.join seat room).dropBooks = r.dropBooks := by
  have hrecord : ∀ c : Connection, (c.recordJoin room).1.dropped = c.dropped := by
    intro c
    unfold Connection.recordJoin
    split <;> rfl
  unfold join
  split
  next => rfl
  next c hc =>
    split
    next => rfl
    next =>
      split
      next => rfl
      next =>
        split
        next r' hjoin =>
          have hr' : r' = (r.joinRoom room c.id).1 := by rw [hjoin]
          have hkept := r'.updateConnection_dropped seat hrecord
          rw [hr'] at hkept ⊢
          exact congrArg (·, r.counters.outboundDrops) hkept
        next r' _ hjoin =>
          have hr' : r' = (r.joinRoom room c.id).1 := by rw [hjoin]
          rw [hr']
          rfl

theorem leave_dropBooks (r : Registry) (seat : Nat) (room : String) :
    (r.leave seat room).dropBooks = r.dropBooks := by
  have hrecord : ∀ c : Connection, (c.recordLeave room).1.dropped = c.dropped := by
    intro c
    unfold Connection.recordLeave
    split <;> rfl
  unfold leave
  split
  next => rfl
  next c hc =>
    split
    next =>
      exact congrArg (·, r.counters.outboundDrops)
        ((r.leaveRoom room c.id).1.updateConnection_dropped seat hrecord)
    next => rfl

theorem teardown_dropBooks (r : Registry) (seat : Nat) :
    (r.teardown seat).1.dropBooks = r.dropBooks := by
  have hclose : ∀ c : Connection, (c.close.1.takeRooms).2.dropped = c.dropped :=
    fun c => by rw [c.close_takeRooms]
  cases hc : r.roster[seat]? with
  | none =>
    simp only [teardown, connection?, hc]
  | some c =>
    rw [teardown_eq hc]
    refine (leaveRooms_dropBooks _ c.rooms c.id).trans ?_
    exact congrArg (·, r.counters.outboundDrops) (r.updateConnection_dropped seat hclose)

theorem ping_dropBooks (r : Registry) (seat now : Nat) :
    (r.ping seat now).dropBooks =
      (Roster.dropped r.roster + (fullSeats r.roster pongFrame [seat]).length,
        r.counters.outboundDrops) := by
  refine congrArg (·, r.counters.outboundDrops) (r.updateConnection_sends seat fun c => ?_)
  rw [c.send_keepAlive]
  rfl

theorem PipelineStep.dropBooks {r r' : Registry} (h : PipelineStep r r') :
    Roster.dropped r'.roster + r.counters.outboundDrops =
      Roster.dropped r.roster + r'.counters.outboundDrops := by
  cases h with
  | take waits free => rfl
  | finish offers behind => rfl
  | accept offers next permit served room => rfl
  | skip offers next full => rfl
  | pick serves waits free => rfl
  | @deliver k i lane s job serves shard taken =>
    have hoffer := Roster.dropped_offer r.roster (s.seats job.target) job.frame
    simp only [Shard.broadcast]
    omega

end Registry

def MembershipEvent.reply : MembershipEvent → Option (Nat × String)
  | .handle seat _ e =>
    if ClientRequest.ofFrame e = some .ping then some (seat, pongFrame) else none
  | .touch seat (.send frame) => some (seat, frame)
  | _ => none

namespace Registry

/-- How many frames are dropped at an event that no worker counts. -/
def uncounted (r : Registry) (e : MembershipEvent) : Nat :=
  match e.reply with
  | some (seat, frame) => (fullSeats r.roster frame [seat]).length
  | none => 0

/-- How many frames are dropped over some events that no worker counts. -/
def uncountedIn (r : Registry) : List MembershipEvent → Nat
  | [] => 0
  | e :: events => r.uncounted e + (r.after e).uncountedIn events

theorem handle_drops (r : Registry) (seat now : Nat) (e : Envelope) :
    (r.handle seat now e).dropBooks =
      (Roster.dropped r.roster + r.uncounted (.handle seat now e), r.counters.outboundDrops) := by
  rw [handle_eq]
  cases hreq : ClientRequest.ofFrame e with
  | none => simp [uncounted, MembershipEvent.reply, hreq, dropBooks]
  | some request =>
    cases request with
    | ping =>
      have hreply : MembershipEvent.reply (.handle seat now e) = some (seat, pongFrame) := by
        simp [MembershipEvent.reply, hreq]
      rw [uncounted, hreply]
      exact r.ping_dropBooks seat now
    | join room =>
      have hreply : MembershipEvent.reply (.handle seat now e) = none := by
        simp [MembershipEvent.reply, hreq]
      rw [uncounted, hreply]
      exact r.join_dropBooks seat room
    | leave room =>
      have hreply : MembershipEvent.reply (.handle seat now e) = none := by
        simp [MembershipEvent.reply, hreq]
      rw [uncounted, hreply]
      exact r.leave_dropBooks seat room

theorem touch_drops (r : Registry) (seat : Nat) (op : ConnectionOp) :
    Roster.dropped (r.after (.touch seat op)).roster =
      Roster.dropped r.roster + r.uncounted (.touch seat op) := by
  cases op with
  | send frame => exact r.updateConnection_sends seat fun c => rfl
  | receive =>
    refine r.updateConnection_dropped seat fun c => ?_
    simp only [ConnectionOp.apply, Connection.receive]
    split <;> rfl
  | keepAlive now => exact r.updateConnection_dropped seat fun c => rfl
  | close =>
    refine r.updateConnection_dropped seat fun c => ?_
    simp only [ConnectionOp.apply, Connection.close]
    split <;> rfl
  | dropQueue => exact r.updateConnection_dropped seat fun c => rfl

/-- An event changes both accounts by the same, but for the frames that no worker counts. -/
theorem after_drops (r : Registry) (e : MembershipEvent) :
    Roster.dropped (r.after e).roster + r.counters.outboundDrops =
      Roster.dropped r.roster + (r.after e).counters.outboundDrops + r.uncounted e := by
  cases e with
  | connect id limits now =>
    have happ := total_append (r.roster.map (·.dropped)) [0]
    simp only [Registry.after, seatConnection, uncounted, MembershipEvent.reply, Roster.dropped,
      List.map_append]
    exact congrArg (· + r.counters.outboundDrops) happ
  | register seat =>
    simp only [Registry.after]
    split <;> rfl
  | handle seat now e =>
    obtain ⟨hdropped, hcounted⟩ := Prod.mk.inj (r.handle_drops seat now e)
    simp only [Registry.after, hdropped, hcounted]
    omega
  | teardown seat =>
    obtain ⟨hdropped, hcounted⟩ := Prod.mk.inj (r.teardown_dropBooks seat)
    simp only [Registry.after, hdropped, hcounted, uncounted, MembershipEvent.reply]
    omega
  | touch seat op =>
    have hcounted : (r.after (.touch seat op)).counters = r.counters := rfl
    rw [hcounted, r.touch_drops seat op]
    omega
  | push job =>
    rcases r.push_cases job with ⟨he, _⟩ | he | ⟨_, he⟩ <;> simp only [Registry.after, he] <;> rfl
  | move m =>
    simp only [Registry.after, uncounted, MembershipEvent.reply]
    cases hstep : r.move m with
    | none => rfl
    | some r' => exact (move_step hstep).dropBooks

theorem run_drops (r : Registry) (events : List MembershipEvent) :
    Roster.dropped (events.foldl Registry.after r).roster + r.counters.outboundDrops =
      Roster.dropped r.roster + (events.foldl Registry.after r).counters.outboundDrops +
        r.uncountedIn events := by
  induction events generalizing r with
  | nil => rfl
  | cons e events ih =>
    have htail := ih (r.after e)
    have hhead := r.after_drops e
    rw [List.foldl_cons, uncountedIn]
    omega

/-- After any events, the connections have dropped as many frames as the registry has counted, and
the answers that found a full queue besides. -/
theorem outbound_drops_miss_answers (settings : RegistrySettings) (events : List MembershipEvent) :
    let start := create settings
    let r := events.foldl Registry.after start
    Roster.dropped r.roster = r.counters.outboundDrops + start.uncountedIn events ∧
      (r.counters.outboundDrops = Roster.dropped r.roster ↔ start.uncountedIn events = 0) := by
  intro start r
  have hrun := run_drops start events
  have hzero : Roster.dropped start.roster = 0 ∧ start.counters.outboundDrops = 0 := ⟨rfl, rfl⟩
  have heq : Roster.dropped r.roster = r.counters.outboundDrops + start.uncountedIn events := by
    rw [hzero.1, hzero.2] at hrun
    simpa using hrun
  exact ⟨heq, by omega⟩

/-- The second of two pings finds the first answer in a queue for one frame. -/
theorem second_answer_not_counted :
    let events : List MembershipEvent := [.connect ⟨7⟩ ⟨1, 1, 1⟩ 0, .register 0,
      .handle 0 5 ⟨"PING", none⟩, .handle 0 6 ⟨"PING", none⟩]
    let r := events.foldl Registry.after (create ⟨3, 1, 1, 1, 1⟩)
    r.counters.outboundDrops = 0 ∧ Roster.dropped r.roster = 1 := by
  decide +kernel

end Registry

end RoomCast
