import Mathlib.Data.Finset.Card
import RoomCast.Proofs.RoomTables
import RoomCast.Proofs.RosterOffer

namespace RoomCast

namespace Connection

def Takes (c : Connection) : Prop :=
  c.closed = false ∧ c.receiving = true ∧ c.outbound.length < c.capacity

def Full (c : Connection) : Prop :=
  c.closed = false ∧ c.receiving = true ∧ c.capacity ≤ c.outbound.length

instance (c : Connection) : Decidable c.Takes := inferInstanceAs (Decidable (_ ∧ _))

instance (c : Connection) : Decidable c.Full := inferInstanceAs (Decidable (_ ∧ _))

theorem send_cases (c : Connection) (frame : String) :
    (c.Takes ∧ ¬c.Full ∧ c.send frame = ({ c with outbound := c.outbound ++ [frame] }, .ok ())) ∨
    (c.Full ∧ ¬c.Takes ∧
      c.send frame = ({ c with dropped := c.dropped + 1 }, .error .queueFull)) ∨
    (¬c.Takes ∧ ¬c.Full ∧ c.send frame = (c, .error .connectionClosed)) := by
  cases hclosed : c.closed with
  | true => exact Or.inr (Or.inr ⟨by simp [Takes, hclosed], by simp [Full, hclosed], by simp [send, hclosed]⟩)
  | false =>
    cases hreceiving : c.receiving with
    | false =>
      exact Or.inr (Or.inr ⟨by simp [Takes, hreceiving], by simp [Full, hreceiving],
        by simp [send, hclosed, hreceiving]⟩)
    | true =>
      by_cases hfull : c.capacity ≤ c.outbound.length
      · exact Or.inr (Or.inl ⟨⟨hclosed, hreceiving, hfull⟩, fun h => absurd hfull (Nat.not_le.mpr h.2.2),
          by simp [send, hclosed, hreceiving, hfull]⟩)
      · exact Or.inl ⟨⟨hclosed, hreceiving, Nat.not_le.mp hfull⟩, fun h => hfull h.2.2,
          by simp [send, hclosed, hreceiving, hfull]⟩

theorem send_ok_iff (c : Connection) (frame : String) : (c.send frame).2 = .ok () ↔ c.Takes := by
  rcases c.send_cases frame with ⟨ht, _, hs⟩ | ⟨_, ht, hs⟩ | ⟨ht, _, hs⟩ <;> simp [hs, ht]

theorem send_full_iff (c : Connection) (frame : String) :
    (c.send frame).2 = .error .queueFull ↔ c.Full := by
  rcases c.send_cases frame with ⟨_, hf, hs⟩ | ⟨hf, _, hs⟩ | ⟨_, hf, hs⟩ <;> simp [hs, hf]

end Connection

/-- Something that happens to a shard, or to the connections that there are. -/
inductive ShardEvent where
  /-- A connection is made; no shard holds it yet. -/
  | connect (c : Connection)
  /-- A connection becomes another one in everything but its identity. -/
  | change (seat : Nat) (c : Connection)
  | add (seat : Nat)
  | remove (id : ConnectionId)
  | join (name : String) (id : ConnectionId)
  | leave (name : String) (id : ConnectionId)
  | broadcast (target : PushTarget) (frame : String)

/-- A shard with all connections that have been made, and its count of frames that were dropped. -/
structure ShardRun where
  shard : Shard
  roster : Roster
  drops : Nat

namespace ShardRun

def start (index : Nat) : ShardRun := ⟨.empty index, [], 0⟩

def step (t : ShardRun) : ShardEvent → ShardRun
  | .connect c => { t with roster := t.roster ++ [c] }
  | .change seat c => { t with roster := t.roster.modify seat fun old => { c with id := old.id } }
  | .add seat =>
    match t.roster[seat]? with
    | none => t
    | some c => { t with shard := t.shard.after (.add c.id seat) }
  | .remove id => { t with shard := t.shard.after (.remove id) }
  | .join name id => { t with shard := t.shard.after (.join name id) }
  | .leave name id => { t with shard := t.shard.after (.leave name id) }
  | .broadcast target frame =>
    let o := t.shard.broadcast t.roster target frame
    { t with roster := o.roster, drops := t.drops + o.dropped }

def run (t : ShardRun) (events : List ShardEvent) : ShardRun := events.foldl step t

/-- Who is registered is so under the identity of the connection on that seat. -/
structure Seated (t : ShardRun) : Prop where
  alone : t.shard.Alone
  seated : ∀ id seat, t.shard.connections.get? id = some seat → ∃ c, t.roster[seat]? = some c ∧ c.id = id

theorem start_seated (index : Nat) : (start index).Seated :=
  ⟨Shard.empty_sound index _, fun id seat h => by simp [start, Shard.empty, Table.get?] at h⟩

theorem Seated.of_roster {t : ShardRun} (h : t.Seated) {roster : Roster} (drops : Nat)
    (keeps : ∀ (seat : Nat) (c : Connection), t.roster[seat]? = some c →
      ∃ c', roster[seat]? = some c' ∧ c'.id = c.id) : Seated ⟨t.shard, roster, drops⟩ := by
  refine ⟨h.alone, fun id seat hg => ?_⟩
  obtain ⟨c, hc, rfl⟩ := h.seated id seat hg
  exact keeps seat c hc

theorem Seated.of_after {t : ShardRun} (h : t.Seated) {call : ShardCall}
    (fewer : ∀ id seat, (t.shard.after call).connections.get? id = some seat →
      t.shard.connections.get? id = some seat) :
    Seated { t with shard := t.shard.after call } :=
  ⟨h.alone.after call, fun id seat hg => h.seated id seat (fewer id seat hg)⟩

theorem Seated.step {t : ShardRun} (h : t.Seated) (e : ShardEvent) : (t.step e).Seated := by
  cases e with
  | connect c =>
    refine h.of_roster _ fun seat old hold => ⟨old, ?_, rfl⟩
    exact List.getElem?_append_left (List.getElem?_eq_some_iff.mp hold).1 ▸ hold
  | change place c =>
    refine h.of_roster _ fun seat old hold => ?_
    rw [List.getElem?_modify, hold]
    by_cases hp : place = seat
    · exact ⟨{ c with id := old.id }, by simp [hp], rfl⟩
    · exact ⟨old, by simp [hp], rfl⟩
  | add seat =>
    unfold ShardRun.step
    cases hc : t.roster[seat]? with
    | none => simpa [hc] using h
    | some c =>
      simp only [hc]
      -- an earlier connection of the identity loses its place, and nobody else does
      refine ⟨h.alone.after (.add c.id seat), fun id place hg => ?_⟩
      rw [Shard.after, Shard.addConnection, Table.get?_put] at hg
      by_cases hid : c.id = id
      · rw [if_pos hid] at hg
        cases hg
        exact ⟨c, hc, hid⟩
      · rw [if_neg hid] at hg
        exact h.seated id place hg
  | remove id =>
    refine h.of_after fun other seat hg => ?_
    rw [Shard.after, Shard.removeConnection, Table.get?_remove h.alone.connections_distinct] at hg
    by_cases hid : id = other
    · simp [hid] at hg
    · simpa [hid] using hg
  | join name id =>
    refine h.of_after fun other seat hg => ?_
    rwa [Shard.after, Shard.joinRoom_connections] at hg
  | leave name id =>
    refine h.of_after fun other seat hg => ?_
    rwa [Shard.after, Shard.leaveRoom_connections] at hg
  | broadcast target frame =>
    refine h.of_roster _ fun seat c hc => ?_
    obtain ⟨c', hc', he⟩ := getElem?_of_map_eq (offer_bare t.roster (t.shard.seats target) frame) hc
    exact ⟨c', hc', Connection.id_of_bare he⟩

theorem Seated.run {t : ShardRun} (h : t.Seated) (events : List ShardEvent) : (t.run events).Seated := by
  induction events generalizing t with
  | nil => exact h
  | cons e events ih => exact ih (h.step e)

/-- Whether the connection on a seat is registered under its identity, and a push is for it. -/
def Reaches (t : ShardRun) (target : PushTarget) (seat : Nat) (c : Connection) : Prop :=
  t.shard.connections.get? c.id = some seat ∧ t.shard.Concerns c.id target

instance (t : ShardRun) (target : PushTarget) (seat : Nat) (c : Connection) :
    Decidable (t.Reaches target seat c) :=
  inferInstanceAs (Decidable (_ ∧ _))

section Broadcast

variable {t : ShardRun} (h : t.Seated) (target : PushTarget) (frame : String)

include h in
theorem Seated.seats_nodup : (t.shard.seats target).Nodup := by
  refine Shard.seats_nodup h.alone (fun id other seat hid hother => ?_) target
  obtain ⟨c, hc, rfl⟩ := h.seated id seat hid
  obtain ⟨c', hc', rfl⟩ := h.seated other seat hother
  rw [Option.some.inj (hc.symm.trans hc')]

include h in
theorem Seated.mem_seats {seat : Nat} {c : Connection} (hc : t.roster[seat]? = some c) :
    seat ∈ t.shard.seats target ↔ t.Reaches target seat c := by
  rw [Shard.mem_seats h.alone.connections_distinct]
  constructor
  · rintro ⟨id, hg, hconcerns⟩
    obtain ⟨c', hc', rfl⟩ := h.seated id seat hg
    cases Option.some.inj (hc.symm.trans hc')
    exact ⟨hg, hconcerns⟩
  · exact fun hr => ⟨c.id, hr⟩

include h in
theorem Seated.broadcast_seat {seat : Nat} {c : Connection} (hc : t.roster[seat]? = some c) :
    (t.shard.broadcast t.roster target frame).roster[seat]? =
      some (if t.Reaches target seat c then (c.send frame).1 else c) := by
  rw [Shard.broadcast, offer_getElem? _ (h.seats_nodup target), hc]
  by_cases hr : t.Reaches target seat c
  · simp [hr, (h.mem_seats target hc).mpr hr]
  · simp [hr, mt (h.mem_seats target hc).mp hr]

def answerers (t : ShardRun) (target : PushTarget) (frame : String) (outcome : Except SendError Unit) :
    Finset Nat :=
  (answering outcome t.roster frame (t.shard.seats target)).toFinset

include h in
theorem Seated.mem_answerers {outcome : Except SendError Unit} {seat : Nat} :
    seat ∈ t.answerers target frame outcome ↔
      ∃ c, t.roster[seat]? = some c ∧ t.Reaches target seat c ∧ (c.send frame).2 = outcome := by
  rw [answerers, List.mem_toFinset, answering, List.mem_filter]
  cases hc : t.roster[seat]? with
  | none => simp
  | some c => simp [h.mem_seats target hc]

include h in
theorem Seated.card_answerers (outcome : Except SendError Unit) :
    (t.answerers target frame outcome).card =
      (answering outcome t.roster frame (t.shard.seats target)).length :=
  List.toFinset_card_of_nodup ((h.seats_nodup target).filter _)

end Broadcast

/-- A broadcast gives each registered connection that it is for the frame once, or counts it as dropped,
in whatever order the seats are visited, and changes nothing else. -/
theorem broadcast_exact_and_isolated (index : Nat) (events : List ShardEvent) (target : PushTarget)
    (frame : String) :
    let t := (start index).run events
    let o := t.shard.broadcast t.roster target frame
    (∀ order : List Nat, order.Perm (t.shard.seats target) → t.roster.offer order frame = o) ∧
    o.roster.length = t.roster.length ∧
    (∀ (seat : Nat) (c : Connection), t.roster[seat]? = some c → o.roster[seat]? = some
      (if t.Reaches target seat c ∧ c.Takes then { c with outbound := c.outbound ++ [frame] }
        else if t.Reaches target seat c ∧ c.Full then { c with dropped := c.dropped + 1 }
        else c)) ∧
    (∃ extended full : Finset Nat,
      (∀ seat, seat ∈ extended ↔
        ∃ c, t.roster[seat]? = some c ∧ t.Reaches target seat c ∧ c.Takes) ∧
      (∀ seat, seat ∈ full ↔ ∃ c, t.roster[seat]? = some c ∧ t.Reaches target seat c ∧ c.Full) ∧
      o.delivered = extended.card ∧ o.dropped = full.card ∧
      t.step (.broadcast target frame) = ⟨t.shard, o.roster, t.drops + full.card⟩) ∧
    ∀ (index' : Nat) (events' : List ShardEvent) (target' : PushTarget) (seat seat' : Nat)
      (c : Connection),
      let t' := (start index').run events'
      t.roster[seat]? = some c → t'.roster[seat']? = some c →
      (t.Reaches target seat c ↔ t'.Reaches target' seat' c) →
      (t'.shard.broadcast t'.roster target' frame).roster[seat']? = o.roster[seat]? := by
  intro t o
  have ht : t.Seated := (start_seated index).run events
  have hn := ht.seats_nodup target
  have hdelivered : o.delivered = (t.answerers target frame (.ok ())).card :=
    (offer_delivered t.roster hn frame).trans (ht.card_answerers target frame _).symm
  have hdropped : o.dropped = (t.answerers target frame (.error .queueFull)).card :=
    (offer_dropped t.roster hn frame).trans (ht.card_answerers target frame _).symm
  refine ⟨fun order hp => offer_perm t.roster hp hn frame, ?_, fun seat c hc => ?_,
    ⟨_, _, fun seat => ?_, fun seat => ?_, hdelivered, hdropped, ?_⟩, ?_⟩
  · have hlen := congrArg List.length (offer_bare t.roster (t.shard.seats target) frame)
    rwa [List.length_map, List.length_map] at hlen
  · rw [ht.broadcast_seat target frame hc]
    by_cases hr : t.Reaches target seat c
    · -- one that is reached fares by its own state
      rcases c.send_cases frame with ⟨htakes, hfull, hs⟩ | ⟨hfull, htakes, hs⟩ | ⟨htakes, hfull, hs⟩ <;>
        simp [hr, htakes, hfull, hs]
    · simp [hr]
  · rw [ht.mem_answerers]
    simp only [Connection.send_ok_iff]
  · rw [ht.mem_answerers]
    simp only [Connection.send_full_iff]
  · rw [← hdropped]
    rfl
  · intro index' events' target' seat seat' c t' hc hc' hsame
    have ht' : t'.Seated := (start_seated index').run events'
    rw [ht'.broadcast_seat target' frame hc', ht.broadcast_seat target frame hc]
    simp only [hsame]

/-- A room of five: one takes the frame, while another is full, one closed, one gone and one not
registered. It fares as it would alone. -/
theorem lobby_broadcast_spares_open_member :
    let one : Connection := .create ⟨1⟩ ⟨1, 1, 1⟩ 0
    let full : Connection := { Connection.create ⟨2⟩ ⟨1, 1, 1⟩ 0 with outbound := ["old"] }
    let closed : Connection := { Connection.create ⟨3⟩ ⟨1, 1, 1⟩ 0 with closed := true }
    let gone : Connection := (Connection.create ⟨4⟩ ⟨1, 1, 1⟩ 0).dropQueue
    let t := (start 0).run [.connect full, .connect closed, .connect gone, .connect one, .add 0, .add 1,
      .add 2, .add 3, .join "lobby" ⟨1⟩, .join "lobby" ⟨2⟩, .join "lobby" ⟨3⟩, .join "lobby" ⟨4⟩,
      .join "lobby" ⟨5⟩]
    let alone := (start 7).run [.connect one, .add 0]
    t.roster.offer [0, 1, 2, 3] "hi" = t.shard.broadcast t.roster (.room "lobby") "hi" ∧
      (t.shard.broadcast t.roster (.room "lobby") "hi").roster[3]? =
        some { one with outbound := ["hi"] } ∧
      (alone.shard.broadcast alone.roster .all "hi").roster[0]? =
        (t.shard.broadcast t.roster (.room "lobby") "hi").roster[3]? := by
  intro one full closed gone t alone
  obtain ⟨order, _, seats, _, apart⟩ := broadcast_exact_and_isolated 0 [.connect full, .connect closed,
    .connect gone, .connect one, .add 0, .add 1, .add 2, .add 3, .join "lobby" ⟨1⟩, .join "lobby" ⟨2⟩,
    .join "lobby" ⟨3⟩, .join "lobby" ⟨4⟩, .join "lobby" ⟨5⟩] (.room "lobby") "hi"
  have hone : t.roster[3]? = some one := by decide +kernel
  have halone : alone.roster[0]? = some one := by decide +kernel
  have hreach : t.Reaches (.room "lobby") 3 one := by decide +kernel
  have hreach' : alone.Reaches .all 0 one := by decide +kernel
  refine ⟨order [0, 1, 2, 3] (by decide +kernel), ?_, ?_⟩
  · rw [seats 3 one hone, if_pos ⟨hreach, by decide +kernel⟩]
    rfl
  · exact apart 7 [.connect one, .add 0] .all 3 0 one hone halone (iff_of_true hreach hreach')

end ShardRun

end RoomCast
