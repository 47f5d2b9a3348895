import Mathlib.Data.List.Nodup
import RoomCast.Proofs.TableLookup
import RoomCast.Shard

namespace RoomCast

namespace Room

theorem insert_cases (room : Room) (id : ConnectionId) :
    (id ∈ room.members ∧ room.insert id = (room, false)) ∨
    (id ∉ room.members ∧ room.insert id =
      (⟨insertOrdered (fun a b => decide (a.value < b.value)) id room.members⟩, true)) := by
  by_cases hm : id ∈ room.members
  · exact Or.inl ⟨hm, by simp [insert, hm]⟩
  · exact Or.inr ⟨hm, by simp [insert, hm]⟩

theorem remove_cases (room : Room) (id : ConnectionId) :
    (id ∈ room.members ∧ room.remove id = (⟨room.members.filter (· ≠ id)⟩, true)) ∨
    (id ∉ room.members ∧ room.remove id = (room, false)) := by
  by_cases hm : id ∈ room.members
  · exact Or.inl ⟨hm, by simp [remove, hm]⟩
  · exact Or.inr ⟨hm, by simp [remove, hm]⟩

end Room

namespace Shard

/-- No key occurs twice, no room is kept empty, and only identities of this shard occur. -/
structure Sound (s : Shard) (home : ConnectionId → Prop) : Prop where
  connections_distinct : s.connections.Distinct
  rooms_distinct : s.rooms.Distinct
  connections_home : ∀ id seat, s.connections.get? id = some seat → home id
  members_home : ∀ name id, id ∈ (s.roomOf name).members → home id
  members_nodup : ∀ name, (s.roomOf name).members.Nodup
  rooms_inhabited : ∀ name room, s.rooms.get? name = some room → room.members ≠ []

theorem empty_sound (index : Nat) (home : ConnectionId → Prop) : (empty index).Sound home := by
  refine ⟨Table.distinct_nil, Table.distinct_nil, ?_, ?_, ?_, ?_⟩ <;>
    simp [empty, roomOf, Table.get?, Room.empty]

theorem roomOf_put (s : Shard) (name other : String) (room : Room) :
    roomOf { s with rooms := s.rooms.put name room } other =
      if name = other then room else s.roomOf other := by
  by_cases hn : name = other <;> simp [roomOf, Table.get?_put, hn]

theorem roomOf_remove {s : Shard} (hd : s.rooms.Distinct) (name other : String) :
    roomOf { s with rooms := s.rooms.remove name } other =
      if name = other then .empty else s.roomOf other := by
  by_cases hn : name = other <;> simp [roomOf, Table.get?_remove hd, hn]

theorem roomOf_some {s : Shard} {name : String} {room : Room} (h : s.rooms.get? name = some room) :
    s.roomOf name = room := by
  simp [roomOf, h]

theorem roomOf_none {s : Shard} {name : String} (h : s.rooms.get? name = none) :
    s.roomOf name = .empty := by
  simp [roomOf, h]

theorem openRoom_roomOf (s : Shard) (name : String) :
    (s.openRoom name).roomOf name = s.roomOf name := by
  unfold openRoom
  split
  next => rfl
  next h => rw [roomOf_put, if_pos rfl, roomOf_none h]

theorem openRoom_put (s : Shard) (name : String) (room : Room) :
    { s.openRoom name with rooms := (s.openRoom name).rooms.put name room } =
      { s with rooms := s.rooms.put name room } := by
  unfold openRoom
  split
  next => rfl
  next => rw [Table.put_put]

theorem joinRoom_cases (s : Shard) (name : String) (id : ConnectionId) :
    (id ∈ (s.roomOf name).members ∧ s.joinRoom name id = (s, .error (.alreadyMember name))) ∨
    (id ∉ (s.roomOf name).members ∧ ∃ room : Room,
      s.joinRoom name id = ({ s with rooms := s.rooms.put name room }, .ok ()) ∧
      room.members =
        insertOrdered (fun a b => decide (a.value < b.value)) id (s.roomOf name).members) := by
  have joined : s.joinRoom name id = ({ s with rooms := s.rooms.put name ((s.roomOf name).insert id).1 },
      if ((s.roomOf name).insert id).2 then .ok () else .error (.alreadyMember name)) := by
    simp only [joinRoom, openRoom_roomOf, openRoom_put]
  rcases (s.roomOf name).insert_cases id with ⟨hm, he⟩ | ⟨hm, he⟩
  · refine Or.inl ⟨hm, ?_⟩
    cases hg : s.rooms.get? name with
    | none => simp [roomOf_none hg, Room.empty] at hm
    | some room =>
      -- a room with a member is in the table, and is put back as it was
      rw [joined, he, roomOf_some hg, Table.put_same hg]
      rfl
  · exact Or.inr ⟨hm, _, by rw [joined, he]; rfl, rfl⟩

/-- A member is taken out of a room that holds it, and out of no other; the last takes the room with
it. -/
theorem leaveRoom_cases (s : Shard) (name : String) (id : ConnectionId) :
    (id ∉ (s.roomOf name).members ∧ s.leaveRoom name id = (s, .error (.notAMember name))) ∨
    (id ∈ (s.roomOf name).members ∧ (s.roomOf name).members.filter (· ≠ id) = [] ∧
      s.leaveRoom name id = ({ s with rooms := s.rooms.remove name }, .ok ())) ∨
    (id ∈ (s.roomOf name).members ∧ (s.roomOf name).members.filter (· ≠ id) ≠ [] ∧
      s.leaveRoom name id =
        ({ s with rooms := s.rooms.put name ⟨(s.roomOf name).members.filter (· ≠ id)⟩ }, .ok ())) := by
  cases hg : s.rooms.get? name with
  | none => exact Or.inl ⟨by simp [roomOf_none hg, Room.empty], by simp [leaveRoom, hg]⟩
  | some room =>
    rw [roomOf_some hg]
    rcases room.remove_cases id with ⟨hm, he⟩ | ⟨hm, he⟩
    · by_cases hl : room.members.filter (· ≠ id) = []
      · exact Or.inr (Or.inl ⟨hm, hl, by simp only [leaveRoom, hg, he, hl]; simp⟩)
      · exact Or.inr (Or.inr ⟨hm, hl, by simp only [leaveRoom, hg, he, hl]; simp⟩)
    · exact Or.inl ⟨hm, by simp [leaveRoom, hg, he]⟩

theorem joinRoom_connections (s : Shard) (name : String) (id : ConnectionId) :
    (s.joinRoom name id).1.connections = s.connections := by
  rcases s.joinRoom_cases name id with ⟨_, he⟩ | ⟨_, _, he, _⟩ <;> rw [he]

theorem leaveRoom_connections (s : Shard) (name : String) (id : ConnectionId) :
    (s.leaveRoom name id).1.connections = s.connections := by
  rcases s.leaveRoom_cases name id with ⟨_, he⟩ | ⟨_, _, he⟩ | ⟨_, _, he⟩ <;> rw [he]

theorem mem_joinRoom {s s' : Shard} {name : String} {id : ConnectionId}
    (h : s.joinRoom name id = (s', .ok ())) (other : String) (x : ConnectionId) :
    x ∈ (s'.roomOf other).members ↔ (other = name ∧ x = id) ∨ x ∈ (s.roomOf other).members := by
  rcases s.joinRoom_cases name id with ⟨_, he⟩ | ⟨_, room, he, hr⟩
  · simp [he] at h
  · rw [he] at h
    obtain ⟨rfl, _⟩ := Prod.mk.inj h
    rw [roomOf_put]
    by_cases hn : name = other
    · subst hn
      simp [hr, mem_insertOrdered]
    · simp [hn, Ne.symm hn]

theorem mem_leaveRoom {s s' : Shard} (hd : s.rooms.Distinct) {name : String} {id : ConnectionId}
    (h : s.leaveRoom name id = (s', .ok ())) (other : String) (x : ConnectionId) :
    x ∈ (s'.roomOf other).members ↔ x ∈ (s.roomOf other).members ∧ ¬(other = name ∧ x = id) := by
  rcases s.leaveRoom_cases name id with ⟨_, he⟩ | ⟨_, hl, he⟩ | ⟨_, _, he⟩ <;> rw [he] at h
  · simp at h
  · obtain ⟨rfl, _⟩ := Prod.mk.inj h
    rw [roomOf_remove hd]
    by_cases hn : name = other
    · subst hn
      have hx : x ∉ (s.roomOf name).members.filter (· ≠ id) := by
        rw [hl]
        exact List.not_mem_nil
      simpa [Room.empty] using hx
    · simp [hn, Ne.symm hn]
  · obtain ⟨rfl, _⟩ := Prod.mk.inj h
    rw [roomOf_put]
    by_cases hn : name = other
    · subst hn
      simp
    · simp [hn, Ne.symm hn]

theorem addConnection_sound {s : Shard} {home : ConnectionId → Prop} (hs : s.Sound home)
    {id : ConnectionId} (hid : home id) (seat : Nat) : (s.addConnection id seat).Sound home := by
  refine ⟨hs.connections_distinct.put id seat, hs.rooms_distinct, ?_, hs.members_home,
    hs.members_nodup, hs.rooms_inhabited⟩
  intro other seat' ho
  rw [addConnection, Table.get?_put] at ho
  by_cases he : id = other
  · exact he ▸ hid
  · exact hs.connections_home other seat' (by simpa [he] using ho)

theorem removeConnection_sound {s : Shard} {home : ConnectionId → Prop} (hs : s.Sound home)
    (id : ConnectionId) : (s.removeConnection id).1.Sound home := by
  refine ⟨hs.connections_distinct.remove id, hs.rooms_distinct, ?_, hs.members_home,
    hs.members_nodup, hs.rooms_inhabited⟩
  intro other seat ho
  rw [removeConnection, Table.get?_remove hs.connections_distinct] at ho
  by_cases he : id = other
  · simp [he] at ho
  · exact hs.connections_home other seat (by simpa [he] using ho)

theorem Sound.put {s : Shard} {home : ConnectionId → Prop} (hs : s.Sound home) (name : String)
    {room : Room} (hn : room.members.Nodup) (hh : ∀ id ∈ room.members, home id)
    (hi : room.members ≠ []) : Sound { s with rooms := s.rooms.put name room } home := by
  refine ⟨hs.connections_distinct, hs.rooms_distinct.put name room, hs.connections_home, ?_, ?_, ?_⟩
  · intro other x hx
    rw [roomOf_put] at hx
    by_cases he : name = other
    · exact hh x (by simpa [he] using hx)
    · exact hs.members_home other x (by simpa [he] using hx)
  · intro other
    rw [roomOf_put]
    split
    next => exact hn
    next => exact hs.members_nodup other
  · intro other room' ho
    rw [Table.get?_put] at ho
    by_cases he : name = other
    · simp only [he, ↓reduceIte, Option.some.injEq] at ho
      exact ho ▸ hi
    · exact hs.rooms_inhabited other room' (by simpa [he] using ho)

theorem Sound.remove {s : Shard} {home : ConnectionId → Prop} (hs : s.Sound home) (name : String) :
    Sound { s with rooms := s.rooms.remove name } home := by
  refine ⟨hs.connections_distinct, hs.rooms_distinct.remove name, hs.connections_home, ?_, ?_, ?_⟩
  · intro other x hx
    rw [roomOf_remove hs.rooms_distinct] at hx
    by_cases he : name = other
    · simp [he, Room.empty] at hx
    · exact hs.members_home other x (by simpa [he] using hx)
  · intro other
    rw [roomOf_remove hs.rooms_distinct]
    split
    next => exact List.nodup_nil
    next => exact hs.members_nodup other
  · intro other room' ho
    rw [Table.get?_remove hs.rooms_distinct] at ho
    by_cases he : name = other
    · simp [he] at ho
    · exact hs.rooms_inhabited other room' (by simpa [he] using ho)

theorem joinRoom_sound {s : Shard} {home : ConnectionId → Prop} (hs : s.Sound home) (name : String)
    {id : ConnectionId} (hid : home id) : (s.joinRoom name id).1.Sound home := by
  rcases s.joinRoom_cases name id with ⟨_, he⟩ | ⟨hm, room, he, hr⟩ <;> rw [he]
  · exact hs
  · refine hs.put name ?_ ?_ ?_
    · rw [hr]
      exact nodup_insertOrdered _ (hs.members_nodup name) hm
    · intro x hx
      rw [hr, mem_insertOrdered] at hx
      rcases hx with rfl | hx
      · exact hid
      · exact hs.members_home name x hx
    · have hx : id ∈ room.members := by rw [hr, mem_insertOrdered]; exact Or.inl rfl
      exact List.ne_nil_of_mem hx

theorem leaveRoom_sound {s : Shard} {home : ConnectionId → Prop} (hs : s.Sound home) (name : String)
    (id : ConnectionId) : (s.leaveRoom name id).1.Sound home := by
  rcases s.leaveRoom_cases name id with ⟨_, he⟩ | ⟨_, _, he⟩ | ⟨_, hl, he⟩ <;> rw [he]
  · exact hs
  · exact hs.remove name
  · refine hs.put name ((hs.members_nodup name).filter _) ?_ hl
    intro x hx
    exact hs.members_home name x (List.mem_filter.mp hx).1

def Concerns (s : Shard) (id : ConnectionId) : PushTarget → Prop
  | .all => True
  | .room name => id ∈ (s.roomOf name).members

instance (s : Shard) (id : ConnectionId) : (target : PushTarget) → Decidable (s.Concerns id target)
  | .all => inferInstanceAs (Decidable True)
  | .room name => inferInstanceAs (Decidable (id ∈ (s.roomOf name).members))

theorem mem_seats {s : Shard} (hd : s.connections.Distinct) (target : PushTarget) (seat : Nat) :
    seat ∈ s.seats target ↔ ∃ id, s.connections.get? id = some seat ∧ s.Concerns id target := by
  cases target with
  | all =>
    constructor
    · intro h
      obtain ⟨⟨id, _⟩, hp, rfl⟩ := List.mem_map.mp h
      exact ⟨id, Table.get?_of_mem hd hp, trivial⟩
    · rintro ⟨id, hg, _⟩
      exact List.mem_map.mpr ⟨(id, seat), Table.mem_of_get? hg, rfl⟩
  | room name =>
    constructor
    · intro h
      obtain ⟨id, hm, hg⟩ := List.mem_filterMap.mp h
      exact ⟨id, hg, hm⟩
    · rintro ⟨id, hg, hm⟩
      exact List.mem_filterMap.mpr ⟨id, hm, hg⟩

theorem seats_nodup {s : Shard} {home : ConnectionId → Prop} (hs : s.Sound home)
    (once : ∀ id other seat, s.connections.get? id = some seat →
      s.connections.get? other = some seat → id = other) (target : PushTarget) :
    (s.seats target).Nodup := by
  cases target with
  | all =>
    refine List.Nodup.map_on ?_ (List.Nodup.of_map _ hs.connections_distinct)
    rintro ⟨id, seat⟩ hp ⟨other, _⟩ ho rfl
    have h1 := Table.get?_of_mem hs.connections_distinct hp
    have h2 := Table.get?_of_mem hs.connections_distinct ho
    rw [once id other seat h1 h2]
  | room name =>
    exact List.Nodup.filterMap (fun id other seat h ho => once id other seat h ho)
      (hs.members_nodup name)

end Shard

end RoomCast
