import RoomCast.Proofs.ConnectionCounts
import RoomCast.Proofs.OutboundQueue
import RoomCast.Proofs.RoomTables
import RoomCast.Proofs.SessionPart

namespace RoomCast

namespace Table

variable {κ α : Type} [DecidableEq κ] {t : Table κ α} {key other : κ}

/-- Changes what a key has, or takes it out. -/
def edit (key : κ) (f : α → Option α) : Table κ α → Table κ α
  | [] => []
  | (k, a) :: t =>
    if k = key then
      match f a with
      | none => t
      | some b => (key, b) :: t
    else (k, a) :: edit key f t

theorem edit_none {f : α → Option α} (h : t.get? key = none) : t.edit key f = t := by
  induction t with
  | nil => rfl
  | cons entry t ih =>
    obtain ⟨k, a⟩ := entry
    by_cases hk : k = key
    · simp [get?, hk] at h
    · simp only [get?, hk, ↓reduceIte] at h
      simp [edit, hk, ih h]

theorem edit_remove {f : α → Option α} {a : α} (h : t.get? key = some a) (hf : f a = none) :
    t.edit key f = t.remove key := by
  induction t with
  | nil => rfl
  | cons entry t ih =>
    obtain ⟨k, a'⟩ := entry
    by_cases hk : k = key
    · simp only [get?, hk, ↓reduceIte, Option.some.injEq] at h
      simp [edit, remove, hk, h, hf]
    · simp only [get?, hk, ↓reduceIte] at h
      simp [edit, remove, hk, ih h]

theorem edit_put {f : α → Option α} {a b : α} (h : t.get? key = some a) (hf : f a = some b) :
    t.edit key f = t.put key b := by
  induction t with
  | nil => simp [get?] at h
  | cons entry t ih =>
    obtain ⟨k, a'⟩ := entry
    by_cases hk : k = key
    · simp only [get?, hk, ↓reduceIte, Option.some.injEq] at h
      simp [edit, put, hk, h, hf]
    · simp only [get?, hk, ↓reduceIte] at h
      simp [edit, put, hk, ih h]

theorem edit_comm (t : Table κ α) (hne : key ≠ other) (f g : α → Option α) :
    (t.edit key f).edit other g = (t.edit other g).edit key f := by
  induction t with
  | nil => rfl
  | cons entry t ih =>
    obtain ⟨k, a⟩ := entry
    by_cases hk : k = key
    · subst hk
      cases hf : f a <;> simp [edit, hne, hf]
    · by_cases ho : k = other
      · subst ho
        cases hg : g a <;> simp [edit, hk, hg]
      · simp [edit, hk, ho, ih]

theorem remove_none (h : t.get? key = none) : t.remove key = t := by
  induction t with
  | nil => rfl
  | cons entry t ih =>
    obtain ⟨k, a⟩ := entry
    by_cases hk : k = key
    · simp [get?, hk] at h
    · simp only [get?, hk, ↓reduceIte] at h
      simp [remove, hk, ih h]

end Table

def Room.without (id : ConnectionId) (room : Room) : Option Room :=
  if id ∉ room.members then some room
  else if room.members.filter (· ≠ id) = [] then none
  else some ⟨room.members.filter (· ≠ id)⟩

namespace Shard

theorem leaveRoom_edit (s : Shard) (name : String) (id : ConnectionId) :
    (s.leaveRoom name id).1 = { s with rooms := s.rooms.edit name (Room.without id) } := by
  cases hg : s.rooms.get? name with
  | none =>
    rw [Table.edit_none hg]
    simp [leaveRoom, hg]
  | some room =>
    have hroom := roomOf_some hg
    rcases s.leaveRoom_cases name id with ⟨hm, he⟩ | ⟨hm, hl, he⟩ | ⟨hm, hl, he⟩ <;>
      rw [hroom] at hm <;> rw [he]
    · rw [Table.edit_put hg (if_pos hm), Table.put_same hg]
    · rw [hroom] at hl
      rw [Table.edit_remove hg (by rw [Room.without, if_neg (not_not.mpr hm), if_pos hl])]
    · rw [hroom] at hl ⊢
      rw [Table.edit_put hg (by rw [Room.without, if_neg (not_not.mpr hm), if_neg hl])]

theorem leaveRoom_comm (s : Shard) (name other : String) (id : ConnectionId) :
    ((s.leaveRoom name id).1.leaveRoom other id).1 =
      ((s.leaveRoom other id).1.leaveRoom name id).1 := by
  by_cases hne : name = other
  · rw [hne]
  · simp only [leaveRoom_edit]
    rw [Table.edit_comm s.rooms hne]

def leaveRooms (s : Shard) (rooms : List String) (id : ConnectionId) : Shard :=
  rooms.foldl (fun s room => (s.leaveRoom room id).1) s

theorem leaveRooms_perm (s : Shard) {order rooms : List String} (hp : order.Perm rooms)
    (id : ConnectionId) : s.leaveRooms order id = s.leaveRooms rooms id :=
  hp.foldl_eq' (fun name _ other _ s => s.leaveRoom_comm name other id) s

end Shard

namespace Registry

theorem setShard_setShard (r : Registry) (id : ConnectionId) (s s' : Shard) :
    (r.setShard id s).setShard id s' = r.setShard id s' := by
  have hroute : (r.setShard id s).route id = r.route id := route_setShard ..
  simp only [setShard] at hroute ⊢
  rw [hroute, List.set_set]

theorem leaveRooms_shard {r : Registry} (h : 0 < r.shards.length) (rooms : List String)
    (id : ConnectionId) : r.leaveRooms rooms id = r.setShard id ((r.shardFor id).leaveRooms rooms id) := by
  induction rooms generalizing r with
  | nil => exact (setShard_self h id).symm
  | cons name rooms ih =>
    have hlen : 0 < (r.leaveRoom name id).1.shards.length := by
      rwa [leaveRoom, setShard_shards_length]
    have hshard : (r.leaveRoom name id).1.shardFor id = ((r.shardFor id).leaveRoom name id).1 := by
      rw [leaveRoom, shardFor_setShard h, if_pos rfl]
    change (r.leaveRoom name id).1.leaveRooms rooms id = _
    rw [ih hlen, hshard, leaveRoom, setShard_setShard]
    rfl

theorem leaveRooms_perm {r : Registry} (h : 0 < r.shards.length) {order rooms : List String}
    (hp : order.Perm rooms) (id : ConnectionId) : r.leaveRooms order id = r.leaveRooms rooms id := by
  rw [leaveRooms_shard h, leaveRooms_shard h, Shard.leaveRooms_perm _ hp]

/-- A teardown that visits some rooms in some order. -/
def teardownIn (r : Registry) (seat : Nat) (order : List String) : Registry × Bool :=
  match r.connection? seat with
  | none => (r, false)
  | some c =>
    let closed := r.updateConnection seat fun c => (c.close.1.takeRooms).2
    let (r, held) := (closed.leaveRooms order c.id).removeConnection c.id
    (r, held.isSome)

section Teardown

variable {r : Registry} {seat : Nat} {c : Connection} (hc : r.roster[seat]? = some c)

include hc in
theorem teardown_in : r.teardown seat = r.teardownIn seat c.rooms := by
  simp only [teardown, teardownIn, connection?, hc]
  rfl

include hc in
theorem teardownIn_perm (h : 0 < r.shards.length) {order : List String} (hp : order.Perm c.rooms) :
    r.teardownIn seat order = r.teardown seat := by
  rw [teardown_in hc]
  simp only [teardownIn, connection?, hc]
  have hlen : 0 < (r.updateConnection seat fun c => (c.close.1.takeRooms).2).shards.length := h
  rw [leaveRooms_perm hlen hp]

include hc in
/-- A connection that is closed, in no room and not registered has nothing left to be torn down. -/
theorem teardown_cleared_again (hs : r.Sound) (hclosed : c.closed = true) (hrooms : c.rooms = [])
    (hseat : r.seatOf c.id = none) : r.teardown seat = (r, false) := by
  have hsame : (c.close.1.takeRooms).2 = c := by
    rw [c.close_takeRooms, ← hclosed, ← hrooms]
  have hroster : (r.updateConnection seat fun c => (c.close.1.takeRooms).2) = r := by
    have hset := modify_of_some hc fun c => (c.close.1.takeRooms).2
    rw [updateConnection, hset, hsame, set_same hc]
  have hremoved : r.removeConnection c.id = (r, none) := by
    have hshard : (r.shardFor c.id).removeConnection c.id = (r.shardFor c.id, none) := by
      rw [Shard.removeConnection, Table.remove_none hseat]
      exact congrArg _ hseat
    simp only [removeConnection, hshard, setShard_self hs.shards_nonempty]
  rw [teardown_in hc, hrooms]
  simp only [teardownIn, connection?, hc, hroster]
  change ((r.removeConnection c.id).1, (r.removeConnection c.id).2.isSome) = _
  rw [hremoved]
  rfl

end Teardown

section Shards

variable {r : Registry} (hs : r.Sound) {k : Nat} {s : Shard} (hk : r.shards[k]? = some s)

include hs hk in
theorem Sound.seat_shard (id : ConnectionId) :
    s.connections.get? id = if r.route id = k then r.seatOf id else none := by
  by_cases hroute : r.route id = k
  · have hshard := shardFor_eq hs.shards_nonempty id
    rw [hroute, hk] at hshard
    rw [if_pos hroute, seatOf, ← Option.some.inj hshard]
  · rw [if_neg hroute]
    cases hg : s.connections.get? id with
    | none => rfl
    | some seat => exact absurd ((hs.shard_sound k s hk).connections_home id seat hg) hroute

include hs hk in
theorem Sound.member_shard (room : String) (id : ConnectionId) :
    id ∈ (s.roomOf room).members ↔ r.route id = k ∧ r.IsMember room id := by
  constructor
  · intro hm
    refine ⟨(hs.shard_sound k s hk).members_home room id hm, ?_⟩
    rwa [IsMember, hs.shardFor_of_member hk hm]
  · rintro ⟨hroute, hm⟩
    have hshard := shardFor_eq hs.shards_nonempty id
    rw [hroute, hk] at hshard
    rwa [IsMember, ← Option.some.inj hshard] at hm

end Shards

end Registry

theorem Shard.Sound.no_room_iff {s : Shard} {home : ConnectionId → Prop} (hs : s.Sound home)
    (name : String) : s.rooms.get? name = none ↔ (s.roomOf name).members = [] := by
  have halone : s.Alone := ⟨hs.connections_distinct, hs.rooms_distinct, fun _ _ _ => trivial,
    fun _ _ _ => trivial, hs.members_nodup, hs.rooms_inhabited⟩
  rw [halone.no_room_iff, List.eq_nil_iff_forall_not_mem]

/-- When one member leaves all rooms, those vanish that it has been alone in. -/
theorem Shard.no_room_without {s s' : Shard} {home home' : ConnectionId → Prop} (hs : s.Sound home)
    (hs' : s'.Sound home') {id : ConnectionId} (name : String)
    (hmembers : ∀ x, x ∈ (s'.roomOf name).members ↔ x ≠ id ∧ x ∈ (s.roomOf name).members) :
    s'.rooms.get? name = none ↔
      s.rooms.get? name = none ∨ (s.roomOf name).members = [id] := by
  rw [hs.no_room_iff, hs'.no_room_iff, List.eq_nil_iff_forall_not_mem]
  constructor
  · intro hnone
    have hsub : (s.roomOf name).members ⊆ [id] := by
      intro x hx
      by_contra hne
      exact hnone x ((hmembers x).mpr ⟨fun he => hne (he ▸ List.mem_singleton_self id), hx⟩)
    obtain ⟨n, hn⟩ := List.subset_singleton_iff.mp hsub
    have hone : n ≤ 1 := List.nodup_replicate.mp (hn ▸ hs.members_nodup name)
    rcases Nat.le_one_iff_eq_zero_or_eq_one.mp hone with rfl | rfl
    · exact Or.inl hn
    · exact Or.inr hn
  · rintro (hempty | halone) x hx
    · have hin := ((hmembers x).mp hx).2
      rw [hempty] at hin
      exact List.not_mem_nil hin
    · obtain ⟨hne, hin⟩ := (hmembers x).mp hx
      rw [halone] at hin
      exact hne (List.mem_singleton.mp hin)

theorem Attended.seat_none {events : List MembershipEvent} {r : Registry} (h : Attended events r)
    {seat : Nat} {c : Connection} (hc : r.roster[seat]? = some c) (hdead : ¬Live events seat) :
    r.seatOf c.id = none := by
  cases hseat : r.seatOf c.id with
  | none => rfl
  | some other =>
    obtain ⟨d, hd, hid⟩ := h.sound.seated c.id other hseat
    cases h.seat_unique hc hd hid
    exact absurd ((h.kept seat c hc).registered.mp hseat) hdead

theorem Attended.closed_stays {events : List MembershipEvent} {r : Registry} (h : Attended events r)
    {e : MembershipEvent} (hm : MayFollow events r e) {seat : Nat} {c : Connection}
    (hc : r.roster[seat]? = some c) (hclosed : c.closed = true) :
    ∃ c', (r.after e).roster[seat]? = some c' ∧ c'.closed = true := by
  cases e with
  | connect id limits now =>
    refine ⟨c, ?_, hclosed⟩
    change (r.roster ++ [Connection.create id limits now])[seat]? = some c
    rw [List.getElem?_append_left (List.getElem?_eq_some_iff.mp hc).1, hc]
  | register other =>
    refine ⟨c, ?_, hclosed⟩
    rw [Registry.after]
    split <;> exact hc
  | handle other now e =>
    obtain ⟨d, hd⟩ := h.seat_of_live hm
    have hkept := h.kept other d hd
    have heffect := Registry.handle_effect h.sound hd hkept.agree hkept.nodup now e
    rw [Registry.after, heffect.roster]
    by_cases ho : other = seat
    · subst ho
      cases Option.some.inj (hc.symm.trans hd)
      exact ⟨_, if_pos rfl, (c.handle_answered now e).closed.trans hclosed⟩
    · exact ⟨c, by rw [if_neg ho, hc], hclosed⟩
  | teardown other =>
    obtain ⟨d, hd⟩ := h.seat_of_live hm
    rw [Registry.after, (Registry.teardown_seatStep h.sound hd).roster]
    by_cases ho : other = seat
    · exact ⟨_, if_pos ho, by rw [d.close_takeRooms]⟩
    · exact ⟨c, by rw [if_neg ho, hc], hclosed⟩
  | touch other op =>
    rw [Registry.after, Registry.updateConnection, List.getElem?_modify, hc]
    by_cases ho : other = seat
    · exact ⟨op.apply c, by simp [ho], (op.apply_closed c).mpr (Or.inl hclosed)⟩
    · exact ⟨c, by simp [ho], hclosed⟩
  | push job =>
    refine ⟨c, ?_, hclosed⟩
    rw [Registry.after, (r.push_tables job).2, hc]
  | move m =>
    rw [Registry.after]
    cases hstep : r.move m with
    | none => exact ⟨c, hc, hclosed⟩
    | some r' =>
      obtain ⟨c', hc', hbare⟩ := getElem?_of_map_eq (Registry.move_step hstep).unmoved.bare hc
      have hsame := congrArg Connection.closed hbare
      simp only [Connection.bare] at hsame
      exact ⟨c', hc', hsame.trans hclosed⟩

/-- What has been torn down once has nothing left to be torn down. -/
theorem torn_down_for_good {settings : RegistrySettings} {events : List MembershipEvent}
    {r : Registry} (h : MembershipRun settings events r) {seat : Nat}
    (hdown : .teardown seat ∈ events) : r.teardown seat = (r, false) := by
  have hclosed : ∃ c, r.roster[seat]? = some c ∧ c.closed = true := by
    induction h with
    | start => exact absurd hdown List.not_mem_nil
    | @event events r e hrun hm ih =>
      have hattended := run_attended hrun
      rcases List.mem_append.mp hdown with hbefore | hnow
      · obtain ⟨c, hc, hclosed⟩ := ih hbefore
        exact hattended.closed_stays hm hc hclosed
      · cases List.mem_singleton.mp hnow
        obtain ⟨c, hc⟩ := hattended.seat_of_live hm
        have hroster := (Registry.teardown_seatStep hattended.sound hc).roster seat
        rw [if_pos rfl] at hroster
        exact ⟨_, hroster, by rw [c.close_takeRooms]⟩
  obtain ⟨c, hc, hclosed⟩ := hclosed
  have hattended := run_attended h
  have hdead : ¬Live events seat := fun hl => hl.2 hdown
  exact Registry.teardown_cleared_again hc hattended.sound hclosed
    ((hattended.kept seat c hc).idle hdead) (hattended.seat_none hc hdead)

/-- What a teardown does to a shard: the identity is gone from both of its tables, with the rooms that it
was alone in. -/
structure Shard.Cleared (s s' : Shard) (id : ConnectionId) : Prop where
  connections : ∀ x, s'.connections.get? x = if x = id then none else s.connections.get? x
  members : ∀ room x, x ∈ (s'.roomOf room).members ↔ x ≠ id ∧ x ∈ (s.roomOf room).members
  rooms : ∀ room, s'.rooms.get? room = none ↔
    s.rooms.get? room = none ∨ (s.roomOf room).members = [id]

theorem Registry.SeatEffect.cleared {r r' : Registry} {i : Nat} {c c' : Connection} (hs : r.Sound)
    (h : SeatEffect r r' i c c' none) (hrooms : c'.rooms = []) {k : Nat} {s : Shard}
    (hk : r.shards[k]? = some s) : ∃ s', r'.shards[k]? = some s' ∧ s.Cleared s' c.id := by
  have hlen : r'.shards.length = r.shards.length := by
    obtain ⟨_, _, rfl, hl⟩ := h.pipeline
    exact hl
  have hroute : ∀ id, r'.route id = r.route id := fun id => by rw [route, route, hlen]
  have hlt : k < r'.shards.length := hlen ▸ (List.getElem?_eq_some_iff.mp hk).1
  have hk' := List.getElem?_eq_getElem hlt
  have hmembers : ∀ room x, x ∈ (r'.shards[k].roomOf room).members ↔
      x ≠ c.id ∧ x ∈ (s.roomOf room).members := by
    intro room x
    rw [h.sound.member_shard hk', hs.member_shard hk, hroute, h.members]
    by_cases hx : x = c.id
    · simp [hx, hrooms]
    · simp [hx]
  refine ⟨_, hk', ⟨fun x => ?_, hmembers, fun room => ?_⟩⟩
  · rw [h.sound.seat_shard hk', hs.seat_shard hk, hroute, h.seats]
    by_cases hx : x = c.id
    · simp [hx]
    · simp [hx]
  · exact Shard.no_room_without (hs.shard_sound k s hk) (h.sound.shard_sound k _ hk') room
      (hmembers room)

/-- A teardown closes its connection and takes it out of all its rooms and of its shard, in whatever
order; it is counted once, and changes no other connection. -/
theorem teardown_removes_one_connection_once {settings : RegistrySettings}
    {events : List MembershipEvent} {srv : Server} (h : MembershipRun settings events srv.registry)
    {s : Session} {c : Connection} (hc : srv.registry.roster[s.seat]? = some c) :
    let srv' := srv.tearDown s
    (∀ order : List String, order.Perm c.rooms →
      srv.registry.teardownIn s.seat order = srv.registry.teardown s.seat) ∧
    (∀ i : Nat, srv'.registry.roster[i]? =
      if s.seat = i then some { c with closed := true, rooms := [] } else srv.registry.roster[i]?) ∧
    (∀ (k : Nat) (shard : Shard), srv.registry.shards[k]? = some shard →
      ∃ shard', srv'.registry.shards[k]? = some shard' ∧ shard.Cleared shard' c.id) ∧
    srv'.registry = { srv.registry with
      shards := srv'.registry.shards
      roster := srv'.registry.roster } ∧
    (Live events s.seat → srv'.figures = { srv.figures with
      ended := srv.figures.ended + 1
      active := srv.figures.active - 1 }) ∧
    (¬Live events s.seat → srv'.figures = srv.figures) ∧
    srv'.tearDown s = srv' ∧
    ∀ (later : List MembershipEvent) (after : Server),
      MembershipRun settings (events ++ .teardown s.seat :: later) after.registry →
        after.tearDown s = after := by
  intro srv'
  have hattended := run_attended h
  have hs := hattended.sound
  have hkept := hattended.kept s.seat c hc
  have heffect := Registry.teardown_effect hs hc hkept.agree
  have hroster := heffect.roster
  rw [c.close_takeRooms] at hroster
  have hheld := Registry.teardown_held hs hc
  have hstays : ∀ other : Server, other.registry.teardown s.seat = (other.registry, false) →
      other.tearDown s = other := by
    intro other hnone
    simp [Server.tearDown, hnone]
  refine ⟨fun order hp => ?_, hroster, fun k shard hk => heffect.cleared hs rfl hk, ?_, fun hl => ?_,
    fun hdead => ?_, hstays srv' ?_, fun later after hafter => hstays after ?_⟩
  · exact Registry.teardownIn_perm hc hs.shards_nonempty hp
  · change (srv.registry.teardown s.seat).1 = { srv.registry with
      shards := (srv.registry.teardown s.seat).1.shards
      roster := (srv.registry.teardown s.seat).1.roster }
    obtain ⟨shards, roster, he, _⟩ := heffect.pipeline
    rw [he]
  · rw [hkept.registered.mpr hl] at hheld
    simp [srv', Server.tearDown, hheld]
  · rw [hattended.seat_none hc hdead] at hheld
    simp [srv', Server.tearDown, hheld]
  · have hagain := hroster s.seat
    rw [if_pos rfl] at hagain
    have hgone := heffect.seats c.id
    rw [if_pos rfl] at hgone
    exact Registry.teardown_cleared_again hagain heffect.sound rfl rfl hgone
  · exact torn_down_for_good hafter (by simp)

/-- A connection that shares one room and is alone in another takes the second one with it. -/
theorem shared_room_outlives_its_member :
    let join (room : String) : Envelope := ⟨"JOIN", some ⟨"\x7b\"room\":\"" ++ room ++ "\"\x7d"⟩⟩
    let events : List MembershipEvent := [.connect ⟨7⟩ ⟨1, 4, 2⟩ 0, .register 0,
      .connect ⟨10⟩ ⟨1, 4, 2⟩ 0, .register 1,
      .handle 0 5 (join "a"), .handle 0 6 (join "b"), .handle 1 7 (join "a")]
    let r := events.foldl Registry.after (.create ⟨3, 1, 1, 1, 1⟩)
    let srv : Server := { Server.create .defaults ⟨1⟩ true with registry := r }
    let s := Session.create ⟨7⟩ 0 4 true .open
    MembershipRun ⟨3, 1, 1, 1, 1⟩ events r ∧ r.roster[s.seat]? ≠ none ∧
      r.teardownIn 0 ["b", "a"] = r.teardown 0 ∧ (srv.tearDown s).figures.ended = 1 ∧
      (srv.tearDown s).tearDown s = srv.tearDown s ∧
      ∃ shard, (srv.tearDown s).registry.shards[1]? = some shard ∧
        shard.rooms.get? "a" ≠ none ∧ shard.rooms.get? "b" = none := by
  intro join events r srv s
  have hrun : MembershipRun ⟨3, 1, 1, 1, 1⟩ events r := by
    have hstart : MembershipRun ⟨3, 1, 1, 1, 1⟩ [] (.create ⟨3, 1, 1, 1, 1⟩) := .start
    have hseated := (((hstart.event (.connect ⟨7⟩ ⟨1, 4, 2⟩ 0) List.not_mem_nil).event
      (.register 0) ⟨by decide, by simp⟩).event
      (.connect ⟨10⟩ ⟨1, 4, 2⟩ 0) (by simp +decide [MayFollow])).event
      (.register 1) ⟨by decide +kernel, by simp⟩
    have hjoined := ((hseated.event (.handle 0 5 (join "a")) (by simp [MayFollow, Live])).event
      (.handle 0 6 (join "b")) (by simp [MayFollow, Live])).event
      (.handle 1 7 (join "a")) (by simp [MayFollow, Live])
    simpa only [r, events, List.foldl_cons, List.foldl_nil, List.nil_append, List.cons_append]
      using hjoined
  have hseat : (r.roster[0]?).map (fun c => (c.id, c.rooms)) = some (⟨7⟩, ["a", "b"]) := by
    decide +kernel
  have htables : (r.shards[1]?).map (fun s => (s.roomOf "a").members) = some [⟨7⟩, ⟨10⟩] ∧
      (r.shards[1]?).map (fun s => (s.roomOf "b").members) = some [⟨7⟩] := by
    decide +kernel
  clear_value r
  obtain ⟨c, hc, he⟩ := Option.map_eq_some_iff.mp hseat
  obtain ⟨hid, hrooms⟩ := Prod.mk.inj he
  obtain ⟨shard, hk, hshared⟩ := Option.map_eq_some_iff.mp htables.1
  have halone : (shard.roomOf "b").members = [⟨7⟩] := by simpa [hk] using htables.2
  have hlive : Live events 0 := by simp [Live, events]
  obtain ⟨horder, _, hshards, _, hcount, _, hagain, _⟩ :=
    @teardown_removes_one_connection_once _ events srv hrun s c hc
  obtain ⟨shard', hk', hcleared⟩ := hshards 1 shard hk
  have hother : ⟨10⟩ ∈ (shard'.roomOf "a").members :=
    (hcleared.members "a" ⟨10⟩).mpr ⟨by simp [hid], by simp [hshared]⟩
  refine ⟨hrun, by simp [s, Session.create, hc], horder _ ?_, ?_, hagain, shard', hk', fun hnone => ?_, ?_⟩
  · rw [hrooms]
    exact List.Perm.swap ..
  · rw [hcount hlive]
    rfl
  · rw [Shard.roomOf, hnone] at hother
    exact List.not_mem_nil hother
  · exact (hcleared.rooms "b").mpr (.inr (hid ▸ halone))

end RoomCast
