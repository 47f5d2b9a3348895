import Mathlib.Data.Finset.Card
import Mathlib.Data.List.Induction
import RoomCast.Proofs.ShardTables

namespace RoomCast

inductive ShardCall where
  | add (id : ConnectionId) (seat : Nat)
  | remove (id : ConnectionId)
  | join (name : String) (id : ConnectionId)
  | leave (name : String) (id : ConnectionId)
deriving DecidableEq

/-- The membership that a call would begin or end. -/
def ShardCall.membership : ShardCall → Option (String × ConnectionId)
  | .join name id => some (name, id)
  | .leave name id => some (name, id)
  | _ => none

namespace Shard

def after (s : Shard) : ShardCall → Shard
  | .add id seat => s.addConnection id seat
  | .remove id => (s.removeConnection id).1
  | .join name id => (s.joinRoom name id).1
  | .leave name id => (s.leaveRoom name id).1

def afterAll (s : Shard) (calls : List ShardCall) : Shard := calls.foldl after s

abbrev Alone (s : Shard) : Prop := s.Sound fun _ => True

theorem Alone.after {s : Shard} (hs : s.Alone) (c : ShardCall) : (s.after c).Alone := by
  cases c with
  | add id seat => exact addConnection_sound hs trivial seat
  | remove id => exact removeConnection_sound hs id
  | join name id => exact joinRoom_sound hs name trivial
  | leave name id => exact leaveRoom_sound hs name id

theorem Alone.afterAll {s : Shard} (hs : s.Alone) (calls : List ShardCall) :
    (s.afterAll calls).Alone := by
  induction calls using List.reverseRecOn with
  | nil => exact hs
  | append_singleton calls c ih =>
    rw [Shard.afterAll, List.foldl_append]
    exact ih.after c

theorem mem_after_join (s : Shard) (name : String) (id : ConnectionId) (other : String)
    (x : ConnectionId) : x ∈ ((s.joinRoom name id).1.roomOf other).members ↔
      (other = name ∧ x = id) ∨ x ∈ (s.roomOf other).members := by
  rcases s.joinRoom_cases name id with ⟨hm, he⟩ | ⟨_, room, he, _⟩
  · rw [he]
    refine ⟨Or.inr, ?_⟩
    rintro (⟨rfl, rfl⟩ | hx)
    · exact hm
    · exact hx
  · have hok : s.joinRoom name id = ((s.joinRoom name id).1, .ok ()) := by rw [he]
    exact mem_joinRoom hok other x

theorem mem_after_leave {s : Shard} (hs : s.Alone) (name : String) (id : ConnectionId)
    (other : String) (x : ConnectionId) : x ∈ ((s.leaveRoom name id).1.roomOf other).members ↔
      x ∈ (s.roomOf other).members ∧ ¬(other = name ∧ x = id) := by
  have left : (s.leaveRoom name id).2 = .ok () →
      (x ∈ ((s.leaveRoom name id).1.roomOf other).members ↔
        x ∈ (s.roomOf other).members ∧ ¬(other = name ∧ x = id)) := fun hok =>
    mem_leaveRoom hs.rooms_distinct (by rw [← hok]) other x
  rcases s.leaveRoom_cases name id with ⟨hm, he⟩ | ⟨_, _, he⟩ | ⟨_, _, he⟩
  · rw [he]
    refine ⟨fun hx => ⟨hx, ?_⟩, And.left⟩
    rintro ⟨rfl, rfl⟩
    exact hm hx
  · exact left (by rw [he])
  · exact left (by rw [he])

section Tables

variable {s : Shard} (hs : s.Alone)

include hs in
theorem Alone.mem_rooms {entry : String × Room} (he : entry ∈ s.rooms) : entry.2.members ≠ [] :=
  hs.rooms_inhabited entry.1 entry.2 (Table.get?_of_mem hs.rooms_distinct he)

include hs in
theorem Alone.room_iff (name : String) :
    name ∈ s.rooms.map Prod.fst ↔ (s.roomOf name).members ≠ [] := by
  rw [Table.mem_keys_iff hs.rooms_distinct]
  constructor
  · rintro ⟨room, hg⟩
    rw [roomOf_some hg]
    exact hs.rooms_inhabited name room hg
  · intro hne
    cases hg : s.rooms.get? name with
    | some room => exact ⟨room, rfl⟩
    | none => simp [roomOf_none hg, Room.empty] at hne

include hs in
theorem Alone.no_room_iff (name : String) :
    s.rooms.get? name = none ↔ ∀ x, x ∉ (s.roomOf name).members := by
  constructor
  · intro hg x hx
    simp [roomOf_none hg, Room.empty] at hx
  · intro hnone
    cases hg : s.rooms.get? name with
    | none => rfl
    | some room =>
      rw [roomOf_some hg] at hnone
      exact absurd (List.eq_nil_iff_forall_not_mem.mpr hnone) (hs.rooms_inhabited name room hg)

end Tables

theorem joinRoom_outcome (s : Shard) (name : String) (id : ConnectionId) :
    ((s.joinRoom name id).2 = .error (.alreadyMember name) ↔ id ∈ (s.roomOf name).members) ∧
      ((s.joinRoom name id).2 = .ok () ↔ id ∉ (s.roomOf name).members) := by
  rcases s.joinRoom_cases name id with ⟨hm, he⟩ | ⟨hm, _, he, _⟩
  · simp [he, hm]
  · simp [he, hm]

theorem leaveRoom_outcome (s : Shard) (name : String) (id : ConnectionId) :
    ((s.leaveRoom name id).2 = .error (.notAMember name) ↔ id ∉ (s.roomOf name).members) ∧
      ((s.leaveRoom name id).2 = .ok () ↔ id ∈ (s.roomOf name).members) := by
  rcases s.leaveRoom_cases name id with ⟨hm, he⟩ | ⟨hm, _, he⟩ | ⟨hm, _, he⟩
  · simp [he, hm]
  · simp [he, hm]
  · simp [he, hm]

theorem joinRoom_refused {s : Shard} {name : String} {id : ConnectionId} {e : RegistryError}
    (h : (s.joinRoom name id).2 = .error e) : (s.joinRoom name id).1 = s := by
  rcases s.joinRoom_cases name id with ⟨_, he⟩ | ⟨_, _, he, _⟩
  · rw [he]
  · rw [he] at h
    simp at h

theorem leaveRoom_refused {s : Shard} {name : String} {id : ConnectionId} {e : RegistryError}
    (h : (s.leaveRoom name id).2 = .error e) : (s.leaveRoom name id).1 = s := by
  rcases s.leaveRoom_cases name id with ⟨_, he⟩ | ⟨_, _, he⟩ | ⟨_, _, he⟩
  · rw [he]
  · rw [he] at h
    simp at h
  · rw [he] at h
    simp at h

/-- A shard that differs from another in one more membership. -/
structure OneMore (name : String) (id : ConnectionId) (s s' : Shard) : Prop where
  connections : s'.connections = s.connections
  new : id ∉ (s.roomOf name).members
  members : ∀ other x, x ∈ (s'.roomOf other).members ↔
    (other = name ∧ x = id) ∨ x ∈ (s.roomOf other).members

theorem oneMore_join {s : Shard} {name : String} {id : ConnectionId}
    (h : id ∉ (s.roomOf name).members) : OneMore name id s (s.joinRoom name id).1 :=
  ⟨joinRoom_connections s name id, h, mem_after_join s name id⟩

theorem OneMore.after {name : String} {id : ConnectionId} {s s' : Shard}
    (h : OneMore name id s s') (hs : s.Alone) (hs' : s'.Alone) {c : ShardCall}
    (hc : c.membership ≠ some (name, id)) : OneMore name id (s.after c) (s'.after c) := by
  cases c with
  | add other seat => exact ⟨congrArg (Table.put other seat) h.connections, h.new, h.members⟩
  | remove other => exact ⟨congrArg (Table.remove other) h.connections, h.new, h.members⟩
  | join room x =>
    have hne : ¬(name = room ∧ id = x) := by
      rintro ⟨rfl, rfl⟩
      exact hc rfl
    refine ⟨?_, ?_, fun other y => ?_⟩
    · simp only [Shard.after, joinRoom_connections, h.connections]
    · simp only [Shard.after, mem_after_join]
      exact not_or.mpr ⟨hne, h.new⟩
    · simp only [Shard.after, mem_after_join, h.members]
      exact or_left_comm
  | leave room x =>
    -- leaving takes a membership out of both, and it is not the one that differs
    have hne : ¬(name = room ∧ id = x) := by
      rintro ⟨rfl, rfl⟩
      exact hc rfl
    refine ⟨?_, ?_, fun other y => ?_⟩
    · simp only [Shard.after, leaveRoom_connections, h.connections]
    · simp only [Shard.after, mem_after_leave hs]
      exact fun hm => h.new hm.1
    · simp only [Shard.after, mem_after_leave hs, mem_after_leave hs', h.members]
      constructor
      · rintro ⟨hy | hy, hleft⟩
        · exact Or.inl hy
        · exact Or.inr ⟨hy, hleft⟩
      · rintro (⟨rfl, rfl⟩ | ⟨hy, hleft⟩)
        · exact ⟨Or.inl ⟨rfl, rfl⟩, hne⟩
        · exact ⟨Or.inr hy, hleft⟩

theorem OneMore.afterAll {name : String} {id : ConnectionId} {s s' : Shard}
    (h : OneMore name id s s') (hs : s.Alone) (hs' : s'.Alone) {calls : List ShardCall}
    (hc : ∀ c ∈ calls, c.membership ≠ some (name, id)) :
    OneMore name id (s.afterAll calls) (s'.afterAll calls) := by
  induction calls generalizing s s' with
  | nil => exact h
  | cons c calls ih =>
    have hhead := h.after hs hs' (hc c List.mem_cons_self)
    exact ih hhead (hs.after c) (hs'.after c) fun d hd => hc d (List.mem_cons_of_mem c hd)

theorem OneMore.leave {name : String} {id : ConnectionId} {s s' : Shard}
    (h : OneMore name id s s') (hs' : s'.Alone) :
    (s'.leaveRoom name id).2 = .ok () ∧
      (s'.leaveRoom name id).1.connections = s.connections ∧
      ∀ other x, x ∈ ((s'.leaveRoom name id).1.roomOf other).members ↔
        x ∈ (s.roomOf other).members := by
  have hmem : id ∈ (s'.roomOf name).members := (h.members name id).mpr (Or.inl ⟨rfl, rfl⟩)
  refine ⟨(s'.leaveRoom_outcome name id).2.mpr hmem, ?_, fun other x => ?_⟩
  · rw [leaveRoom_connections, h.connections]
  · rw [mem_after_leave hs', h.members]
    constructor
    · rintro ⟨hx | hx, hleft⟩
      · exact absurd hx hleft
      · exact hx
    · intro hx
      refine ⟨Or.inr hx, ?_⟩
      rintro ⟨rfl, rfl⟩
      exact h.new hx

/-- A shard has a room for every name that has a member. Refused calls change nothing, and leaving undoes
joining whatever other memberships did between. -/
theorem room_table_law (index : Nat) (calls : List ShardCall) :
    let s := (empty index).afterAll calls
    (∀ entry ∈ s.rooms, entry.2.members ≠ []) ∧
    (∃ names : Finset String, (∀ name, name ∈ names ↔ (s.roomOf name).members ≠ []) ∧
      s.roomCount = names.card) ∧
    (∀ name id,
      ((s.joinRoom name id).2 = .error (.alreadyMember name) ↔ id ∈ (s.roomOf name).members) ∧
      ((s.joinRoom name id).2 = .ok () ↔ id ∉ (s.roomOf name).members) ∧
      ((s.leaveRoom name id).2 = .error (.notAMember name) ↔ id ∉ (s.roomOf name).members) ∧
      ((s.leaveRoom name id).2 = .ok () ↔ id ∈ (s.roomOf name).members) ∧
      (∀ e, (s.joinRoom name id).2 = .error e → (s.joinRoom name id).1 = s) ∧
      (∀ e, (s.leaveRoom name id).2 = .error e → (s.leaveRoom name id).1 = s)) ∧
    ∀ (name : String) (id : ConnectionId) (between : List ShardCall),
      (s.joinRoom name id).2 = .ok () → (∀ c ∈ between, c.membership ≠ some (name, id)) →
      let never := s.afterAll between
      let joined := (s.joinRoom name id).1.afterAll between
      let left := joined.leaveRoom name id
      left.2 = .ok () ∧ left.1.connections = never.connections ∧
        (∀ other x, x ∈ (left.1.roomOf other).members ↔ x ∈ (never.roomOf other).members) ∧
        (∀ other, left.1.rooms.get? other = none ↔ never.rooms.get? other = none) ∧
        (left.1.rooms.get? name = none ↔ ∀ x ∈ (joined.roomOf name).members, x = id) := by
  intro s
  have hs : s.Alone := Alone.afterAll (empty_sound index _) calls
  refine ⟨fun entry he => hs.mem_rooms he, ⟨(s.rooms.map Prod.fst).toFinset, fun name => ?_, ?_⟩,
    fun name id => ?_, ?_⟩
  · rw [List.mem_toFinset]
    exact hs.room_iff name
  · rw [List.toFinset_card_of_nodup hs.rooms_distinct, List.length_map]
    rfl
  · obtain ⟨hrefused, hjoined⟩ := s.joinRoom_outcome name id
    obtain ⟨hnone, hleft⟩ := s.leaveRoom_outcome name id
    exact ⟨hrefused, hjoined, hnone, hleft, fun e => joinRoom_refused, fun e => leaveRoom_refused⟩
  · intro name id between hok hother never joined left
    have hnew := (s.joinRoom_outcome name id).2.mp hok
    have hjoined : joined.Alone := (hs.after (.join name id)).afterAll between
    have hnever : never.Alone := hs.afterAll between
    -- beside each other, the shard that was joined and the one that was not differ in that alone
    have hmore : OneMore name id never joined :=
      (oneMore_join hnew).afterAll hs (hs.after (.join name id)) hother
    obtain ⟨hleft, hconnections, hmembers⟩ := hmore.leave hjoined
    have hgone : left.1.Alone := hjoined.after (.leave name id)
    refine ⟨hleft, hconnections, hmembers, fun other => ?_, ?_⟩
    · rw [hgone.no_room_iff, hnever.no_room_iff]
      exact forall_congr' fun x => not_congr (hmembers other x)
    · rw [hgone.no_room_iff]
      have hlast : ∀ x, x ∈ (left.1.roomOf name).members ↔ x ∈ (joined.roomOf name).members ∧ x ≠ id := by
        intro x
        rw [mem_after_leave hjoined]
        simp
      constructor
      · intro hempty x hx
        by_contra hne
        exact hempty x ((hlast x).mpr ⟨hx, hne⟩)
      · intro hall x hx
        obtain ⟨hmem, hne⟩ := (hlast x).mp hx
        exact hne (hall x hmem)

/-- One joins a lobby while another is there, who leaves it before; so the room goes with the one. -/
theorem last_member_takes_room :
    let s := (empty 3).afterAll [.join "lobby" ⟨2⟩]
    let between : List ShardCall := [.add ⟨1⟩ 0, .join "den" ⟨1⟩, .leave "lobby" ⟨2⟩, .remove ⟨1⟩]
    let left := ((s.joinRoom "lobby" ⟨1⟩).1.afterAll between).leaveRoom "lobby" ⟨1⟩
    (s.joinRoom "lobby" ⟨1⟩).2 = .ok () ∧ left.2 = .ok () ∧ left.1.rooms.get? "lobby" = none ∧
      left.1.rooms = [("den", ⟨[⟨1⟩]⟩)] := by
  intro s between left
  have hjoin : (s.joinRoom "lobby" ⟨1⟩).2 = .ok () := by decide +kernel
  obtain ⟨_, _, _, hundo⟩ := room_table_law 3 [.join "lobby" ⟨2⟩]
  obtain ⟨hleft, _, _, _, hgone⟩ := hundo "lobby" ⟨1⟩ between hjoin (by decide +kernel)
  exact ⟨hjoin, hleft, hgone.mpr (by decide +kernel), by decide +kernel⟩

end Shard

end RoomCast
