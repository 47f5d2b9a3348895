import Mathlib.Data.Finset.Card
import RoomCast.Handler
import RoomCast.Proofs.RegistryTables
import RoomCast.Proofs.RosterOffer

namespace RoomCast

def ClientRequest.ofFrame (e : Envelope) : Option ClientRequest :=
  match ClientRequest.ofEnvelope e with
  | .ok request => request
  | .error _ => none

/-- The rooms of a connection after a request, when it may join so many. -/
def ClientRequest.apply (limit : Nat) (rooms : Finset String) : ClientRequest → Finset String
  | .ping => rooms
  | .join room => if rooms.card < limit then insert room rooms else rooms
  | .leave room => rooms.erase room

namespace Registry

def serve (r : Registry) (seat now : Nat) : ClientRequest → Registry
  | .ping => r.ping seat now
  | .join room => r.join seat room
  | .leave room => r.leave seat room

theorem handle_eq (r : Registry) (seat now : Nat) (e : Envelope) :
    r.handle seat now e = match ClientRequest.ofFrame e with
      | some request => r.serve seat now request
      | none => r := by
  unfold handle ClientRequest.ofFrame
  cases ClientRequest.ofEnvelope e with
  | error cause => rfl
  | ok request =>
    cases request with
    | none => rfl
    | some request => cases request <;> rfl

/-- A connection and the rooms of its identity have changed together, and nothing else has. -/
structure Managed (r r' : Registry) (seat : Nat) (c c' : Connection) : Prop where
  sound : r'.Sound
  roster : ∀ i : Nat, r'.roster[i]? = if seat = i then some c' else r.roster[i]?
  id : c'.id = c.id
  limit : c'.roomLimit = c.roomLimit
  seats : ∀ id, r'.seatOf id = r.seatOf id
  members : ∀ room, room ∈ c'.rooms ↔ r'.IsMember room c.id
  others : ∀ room id, id ≠ c.id → (r'.IsMember room id ↔ r.IsMember room id)

section Requests

variable {r : Registry} (hs : r.Sound) {seat : Nat} {c : Connection}
  (hc : r.roster[seat]? = some c) (ha : ∀ room, room ∈ c.rooms ↔ r.IsMember room c.id)
  (hn : c.rooms.Nodup)

include hc in
theorem updateConnection_getElem? (f : Connection → Connection) (i : Nat) :
    (r.updateConnection seat f).roster[i]? = if seat = i then some (f c) else r.roster[i]? := by
  rw [updateConnection, modify_of_some hc, getElem?_set_of_some hc]

include hs hc ha in
theorem managed_refl : Managed r r seat c c := by
  refine ⟨hs, ?_, rfl, rfl, fun _ => rfl, ha, fun _ _ _ => Iff.rfl⟩
  intro i
  by_cases hi : seat = i
  · rw [if_pos hi, ← hi, hc]
  · rw [if_neg hi]

include hc in
theorem managed_update {r' : Registry} (hs' : r'.Sound) (hroster : r'.roster = r.roster)
    (hseats : ∀ id, r'.seatOf id = r.seatOf id) {f : Connection → Connection}
    (hid : ∀ c, (f c).id = c.id) (hlimit : (f c).roomLimit = c.roomLimit)
    (hmembers : ∀ room, room ∈ (f c).rooms ↔ r'.IsMember room c.id)
    (hothers : ∀ room id, id ≠ c.id → (r'.IsMember room id ↔ r.IsMember room id)) :
    Managed r (r'.updateConnection seat f) seat c (f c) := by
  refine ⟨updateConnection_sound hs' seat hid, ?_, hid c, hlimit, hseats, hmembers, hothers⟩
  intro i
  rw [updateConnection_getElem? (hroster ▸ hc) f i, hroster]

include hs hc ha hn in
theorem ping_managed (now : Nat) : ∃ c', Managed r (r.serve seat now .ping) seat c c' ∧
    c'.rooms.Nodup ∧ c'.rooms.toFinset = ClientRequest.ping.apply c.roomLimit c.rooms.toFinset := by
  have hbare : ((c.keepAlive now).send pongFrame).1.bare = (c.keepAlive now).bare :=
    (c.keepAlive now).send_bare pongFrame
  have hlimit := congrArg Connection.roomLimit hbare
  have hrooms : ((c.keepAlive now).send pongFrame).1.rooms = c.rooms := by
    have h := congrArg Connection.rooms hbare
    exact h
  refine ⟨((c.keepAlive now).send pongFrame).1, ?_, hrooms ▸ hn, by rw [hrooms]; rfl⟩
  refine managed_update hc hs rfl (fun _ => rfl) ?_ hlimit ?_ (fun _ _ _ => Iff.rfl)
  · exact fun c => (c.keepAlive now).send_id pongFrame
  · intro room
    rw [hrooms]
    exact ha room

include hs hc ha hn in
theorem join_managed (now : Nat) (room : String) :
    ∃ c', Managed r (r.serve seat now (.join room)) seat c c' ∧ c'.rooms.Nodup ∧
      c'.rooms.toFinset = (ClientRequest.join room).apply c.roomLimit c.rooms.toFinset := by
  have hcard : c.rooms.toFinset.card = c.rooms.length := List.toFinset_card_of_nodup hn
  simp only [serve, join, connection?, hc]
  by_cases hfull : c.roomLimit ≤ c.rooms.length
  · rw [if_pos hfull]
    refine ⟨c, managed_refl hs hc ha, hn, ?_⟩
    rw [ClientRequest.apply, if_neg (by omega)]
  · rw [if_neg hfull]
    by_cases hm : room ∈ c.rooms
    · rw [if_pos (by simp [Connection.isMember, hm])]
      refine ⟨c, managed_refl hs hc ha, hn, ?_⟩
      rw [ClientRequest.apply, if_pos (by omega), Finset.insert_eq_of_mem (List.mem_toFinset.mpr hm)]
    · rw [if_neg (by simp [Connection.isMember, hm])]
      have hrecord : (c.recordJoin room).1.rooms =
          insertOrdered (fun a b => decide (a < b)) room c.rooms := by
        simp [Connection.recordJoin, Connection.isMember, hm]
      have hkept : ∀ c : Connection,
          (c.recordJoin room).1.id = c.id ∧ (c.recordJoin room).1.roomLimit = c.roomLimit := by
        intro c
        unfold Connection.recordJoin
        split <;> exact ⟨rfl, rfl⟩
      rcases joinRoom_cases hs room c.id with ⟨hin, _⟩ | ⟨_, hok, hmem⟩
      · exact absurd ((ha room).mpr hin) hm
      · have hj : r.joinRoom room c.id = ((r.joinRoom room c.id).1, .ok ()) := by rw [← hok]
        rw [hj]
        refine ⟨(c.recordJoin room).1, ?_, ?_, ?_⟩
        · refine managed_update hc (joinRoom_sound hs room c.id) rfl (seatOf_joinRoom hs room c.id)
            (fun c => (hkept c).1) (hkept c).2 ?_ ?_
          · intro other
            rw [hrecord, mem_insertOrdered, hmem, ha]
            simp
          · intro other id hne
            rw [hmem]
            simp [hne]
        · rw [hrecord]
          exact nodup_insertOrdered _ hn hm
        · rw [ClientRequest.apply, if_pos (by omega), hrecord]
          ext other
          simp [mem_insertOrdered]

include hs hc ha hn in
theorem leave_managed (now : Nat) (room : String) :
    ∃ c', Managed r (r.serve seat now (.leave room)) seat c c' ∧ c'.rooms.Nodup ∧
      c'.rooms.toFinset = (ClientRequest.leave room).apply c.roomLimit c.rooms.toFinset := by
  simp only [serve, leave, connection?, hc]
  by_cases hm : room ∈ c.rooms
  · rw [if_pos (by simp [Connection.isMember, hm])]
    have hrecord : (c.recordLeave room).1.rooms = c.rooms.filter (· ≠ room) := by
      simp [Connection.recordLeave, Connection.isMember, hm]
    have hkept : ∀ c : Connection,
        (c.recordLeave room).1.id = c.id ∧ (c.recordLeave room).1.roomLimit = c.roomLimit := by
      intro c
      unfold Connection.recordLeave
      split <;> exact ⟨rfl, rfl⟩
    refine ⟨(c.recordLeave room).1, ?_, hrecord ▸ hn.filter _, ?_⟩
    · refine managed_update hc (leaveRoom_sound hs room c.id) rfl (seatOf_leaveRoom hs room c.id)
        (fun c => (hkept c).1) (hkept c).2 ?_ ?_
      · intro other
        rw [hrecord, isMember_leaveRoom hs, ← ha]
        simp
      · intro other id hne
        rw [isMember_leaveRoom hs]
        simp [hne]
    · rw [ClientRequest.apply, hrecord]
      ext other
      simp [and_comm]
  · rw [if_neg (by simp [Connection.isMember, hm])]
    refine ⟨c, managed_refl hs hc ha, hn, ?_⟩
    rw [ClientRequest.apply, Finset.erase_eq_of_notMem (by simpa using hm)]

include hs hc ha hn in
theorem handle_managed (now : Nat) (e : Envelope) :
    ∃ c', Managed r (r.handle seat now e) seat c c' ∧ c'.rooms.Nodup ∧
      c'.rooms.toFinset =
        (ClientRequest.ofFrame e).toList.foldl (ClientRequest.apply c.roomLimit) c.rooms.toFinset := by
  rw [handle_eq]
  cases ClientRequest.ofFrame e with
  | none => exact ⟨c, managed_refl hs hc ha, hn, rfl⟩
  | some request =>
    cases request with
    | ping => exact ping_managed hs hc ha hn now
    | join room => exact join_managed hs hc ha hn now room
    | leave room => exact leave_managed hs hc ha hn now room

end Requests

def leaveRooms (r : Registry) (rooms : List String) (id : ConnectionId) : Registry :=
  rooms.foldl (fun r room => (r.leaveRoom room id).1) r

theorem leaveRooms_members {r : Registry} (hs : r.Sound) (rooms : List String) (id : ConnectionId) :
    (r.leaveRooms rooms id).Sound ∧ (r.leaveRooms rooms id).roster = r.roster ∧
      (∀ x, (r.leaveRooms rooms id).seatOf x = r.seatOf x) ∧
      ∀ room x, (r.leaveRooms rooms id).IsMember room x ↔
        r.IsMember room x ∧ ¬(room ∈ rooms ∧ x = id) := by
  induction rooms generalizing r with
  | nil => exact ⟨hs, rfl, fun _ => rfl, fun room x => by simp [leaveRooms]⟩
  | cons name rooms ih =>
    obtain ⟨hs', hr, hseat, hmem⟩ := ih (leaveRoom_sound hs name id)
    refine ⟨hs', hr, fun x => (hseat x).trans (seatOf_leaveRoom hs name id x), ?_⟩
    intro room x
    have he : r.leaveRooms (name :: rooms) id = (r.leaveRoom name id).1.leaveRooms rooms id := rfl
    rw [he, hmem, isMember_leaveRoom hs, List.mem_cons]
    tauto

theorem teardown_eq {r : Registry} {seat : Nat} {c : Connection} (hc : r.roster[seat]? = some c) :
    (r.teardown seat).1 = (((r.updateConnection seat fun c =>
      (c.close.1.takeRooms).2).leaveRooms c.rooms c.id).removeConnection c.id).1 := by
  simp only [teardown, connection?, hc]
  rfl

theorem left_members {r : Registry} (hs : r.Sound) (seat : Nat) (c : Connection) :
    let closed := r.updateConnection seat fun c => (c.close.1.takeRooms).2
    let left := closed.leaveRooms c.rooms c.id
    left.Sound ∧ left.roster = closed.roster ∧ (∀ x, left.seatOf x = r.seatOf x) ∧
      ∀ room x, left.IsMember room x ↔ r.IsMember room x ∧ ¬(room ∈ c.rooms ∧ x = c.id) :=
  leaveRooms_members (updateConnection_sound hs seat fun c => by rw [c.close_takeRooms]) c.rooms c.id

/-- A torn down connection is in no room and holds no seat, and nothing else has changed. -/
theorem teardown_cleared {r : Registry} (hs : r.Sound) {seat : Nat} {c : Connection}
    (hc : r.roster[seat]? = some c) (ha : ∀ room, room ∈ c.rooms ↔ r.IsMember room c.id) :
    ∃ c', (r.teardown seat).1.Sound ∧
      (∀ i : Nat, (r.teardown seat).1.roster[i]? = if seat = i then some c' else r.roster[i]?) ∧
      c'.id = c.id ∧ c'.rooms = [] ∧
      (∀ id, (r.teardown seat).1.seatOf id = if c.id = id then none else r.seatOf id) ∧
      ∀ room id, (r.teardown seat).1.IsMember room id ↔ id ≠ c.id ∧ r.IsMember room id := by
  have hclose : ∀ c : Connection, (c.close.1.takeRooms).2.id = c.id :=
    fun c => by rw [c.close_takeRooms]
  obtain ⟨hs', hr, hseat, hmem⟩ := left_members hs seat c
  have he := teardown_eq hc
  refine ⟨(c.close.1.takeRooms).2, he ▸ removeConnection_sound hs' c.id, ?_, hclose c, rfl, ?_, ?_⟩
  · intro i
    rw [he]
    change ((r.updateConnection seat _).leaveRooms c.rooms c.id).roster[i]? = _
    rw [hr, updateConnection_getElem? hc]
  · intro id
    rw [he, seatOf_removeConnection hs', hseat]
  · intro room id
    rw [he, isMember_removeConnection hs', hmem]
    by_cases hid : id = c.id
    · subst hid
      simp [ha]
    · simp [hid]

end Registry

end RoomCast
