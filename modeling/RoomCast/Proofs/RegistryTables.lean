import RoomCast.Proofs.ShardTables
import RoomCast.Registry

namespace RoomCast

namespace Registry

def seatOf (r : Registry) (id : ConnectionId) : Option Nat := (r.shardFor id).connections.get? id

def IsMember (r : Registry) (name : String) (id : ConnectionId) : Prop :=
  id ∈ ((r.shardFor id).roomOf name).members

instance (r : Registry) (name : String) (id : ConnectionId) : Decidable (r.IsMember name id) :=
  inferInstanceAs (Decidable (id ∈ ((r.shardFor id).roomOf name).members))

/-- Every shard holds identities of its own only, and a seat belongs to the connection under whose
identity it is held. -/
structure Sound (r : Registry) : Prop where
  shards_nonempty : 0 < r.shards.length
  shard_sound : ∀ (k : Nat) (s : Shard), r.shards[k]? = some s → s.Sound fun id => r.route id = k
  seated : ∀ id seat, r.seatOf id = some seat → ∃ c, r.roster[seat]? = some c ∧ c.id = id

theorem route_lt {r : Registry} (h : 0 < r.shards.length) (id : ConnectionId) :
    r.route id < r.shards.length := by
  have hm := Nat.mod_lt id.value.toNat (y := max r.shards.length 1) (by omega)
  unfold route ConnectionId.shard
  omega

theorem shardFor_eq {r : Registry} (h : 0 < r.shards.length) (id : ConnectionId) :
    r.shards[r.route id]? = some (r.shardFor id) := by
  simp [shardFor, List.getD, List.getElem?_eq_getElem (route_lt h id)]

theorem Sound.of_shard {r : Registry} (hs : r.Sound) (id : ConnectionId) :
    (r.shardFor id).Sound fun x => r.route x = r.route id :=
  hs.shard_sound _ _ (shardFor_eq hs.shards_nonempty id)

theorem Sound.shardFor_of_seat {r : Registry} (hs : r.Sound) {k : Nat} {s : Shard}
    {id : ConnectionId} {seat : Nat} (hk : r.shards[k]? = some s)
    (h : s.connections.get? id = some seat) : r.shardFor id = s := by
  have hh := (hs.shard_sound k s hk).connections_home id seat h
  have he := shardFor_eq hs.shards_nonempty id
  rw [hh] at he
  exact Option.some.inj (he.symm.trans hk)

theorem Sound.shardFor_of_member {r : Registry} (hs : r.Sound) {k : Nat} {s : Shard}
    {id : ConnectionId} {name : String} (hk : r.shards[k]? = some s)
    (h : id ∈ (s.roomOf name).members) : r.shardFor id = s := by
  have hh := (hs.shard_sound k s hk).members_home name id h
  have he := shardFor_eq hs.shards_nonempty id
  rw [hh] at he
  exact Option.some.inj (he.symm.trans hk)

theorem seat_injective {r : Registry} (hs : r.Sound) {id other : ConnectionId} {seat : Nat}
    (h : r.seatOf id = some seat) (ho : r.seatOf other = some seat) : id = other := by
  obtain ⟨c, hc, hid⟩ := hs.seated id seat h
  obtain ⟨c', hc', hid'⟩ := hs.seated other seat ho
  have he := Option.some.inj (hc.symm.trans hc')
  rw [← hid, ← hid', he]

theorem create_shard {settings : RegistrySettings} {k : Nat} {s : Shard}
    (h : (create settings).shards[k]? = some s) : s = .empty k := by
  simp only [create, List.getElem?_map] at h
  obtain ⟨j, hj, rfl⟩ := Option.map_eq_some_iff.mp h
  obtain ⟨_, he⟩ := List.getElem?_eq_some_iff.mp hj
  simp only [List.getElem_range] at he
  rw [he]

theorem create_shardFor (settings : RegistrySettings) (id : ConnectionId) :
    (create settings).shardFor id = .empty ((create settings).route id) := by
  have hne : 0 < (create settings).shards.length := by
    simp only [create, List.length_map, List.length_range]
    omega
  exact create_shard (shardFor_eq hne id)

theorem create_sound (settings : RegistrySettings) : (create settings).Sound := by
  refine ⟨?_, ?_, ?_⟩
  · simp only [create, List.length_map, List.length_range]
    omega
  · intro k s h
    rw [create_shard h]
    exact Shard.empty_sound _ _
  · intro id seat h
    rw [seatOf, create_shardFor] at h
    simp [Shard.empty, Table.get?] at h

section SetShard

variable {r : Registry} (h : 0 < r.shards.length) (id other : ConnectionId) (s : Shard)

omit h in
theorem setShard_shards_length : (r.setShard id s).shards.length = r.shards.length :=
  List.length_set

omit h in
theorem route_setShard : (r.setShard id s).route other = r.route other := by
  unfold route
  rw [setShard_shards_length]

include h in
theorem shardFor_setShard : (r.setShard id s).shardFor other =
    if r.route id = r.route other then s else r.shardFor other := by
  have he := shardFor_eq (r := r.setShard id s) (by rwa [setShard_shards_length]) other
  rw [route_setShard] at he
  by_cases hr : r.route id = r.route other
  · rw [if_pos hr]
    simp only [setShard, ← hr, List.getElem?_set_self (route_lt h id), Option.some.injEq] at he
    exact he.symm
  · rw [if_neg hr]
    simp only [setShard, List.getElem?_set_ne hr, shardFor_eq h, Option.some.injEq] at he
    exact he.symm

include h in
theorem setShard_self : r.setShard id (r.shardFor id) = r := by
  have he : r.shards.set (r.route id) (r.shardFor id) = r.shards := by
    apply List.ext_getElem?
    intro k
    by_cases hk : r.route id = k
    · subst hk
      rw [List.getElem?_set_self (route_lt h id), shardFor_eq h]
    · rw [List.getElem?_set_ne hk]
  simp [setShard, he]

end SetShard

theorem Sound.setShard {r : Registry} (hs : r.Sound) (id : ConnectionId) {s : Shard}
    (hsound : s.Sound fun x => r.route x = r.route id)
    (hseat : ∀ other seat, r.route other = r.route id → s.connections.get? other = some seat →
      ∃ c, r.roster[seat]? = some c ∧ c.id = other) : (r.setShard id s).Sound := by
  refine ⟨by rw [setShard_shards_length]; exact hs.shards_nonempty, ?_, ?_⟩
  · intro k t hk
    have hroute : (fun x => (r.setShard id s).route x = k) = fun x => r.route x = k := by
      funext x
      rw [route_setShard]
    rw [hroute]
    by_cases he : r.route id = k
    · subst he
      simp only [Registry.setShard, List.getElem?_set_self (route_lt hs.shards_nonempty id),
        Option.some.injEq] at hk
      exact hk ▸ hsound
    · simp only [Registry.setShard, List.getElem?_set_ne he] at hk
      exact hs.shard_sound k t hk
  · intro other seat ho
    rw [seatOf, shardFor_setShard hs.shards_nonempty] at ho
    by_cases he : r.route id = r.route other
    · rw [if_pos he] at ho
      exact hseat other seat he.symm ho
    · rw [if_neg he] at ho
      exact hs.seated other seat ho

theorem seatOf_addConnection {r : Registry} (hs : r.Sound) (id other : ConnectionId) (seat : Nat) :
    (r.addConnection id seat).seatOf other = if id = other then some seat else r.seatOf other := by
  rw [addConnection, seatOf, shardFor_setShard hs.shards_nonempty]
  by_cases he : r.route id = r.route other
  · have hf : r.shardFor id = r.shardFor other := by simp [shardFor, he]
    rw [if_pos he, Shard.addConnection, Table.get?_put, hf, seatOf]
  · have hne : id ≠ other := fun h => he (h ▸ rfl)
    rw [if_neg he, if_neg hne, seatOf]

theorem isMember_addConnection {r : Registry} (hs : r.Sound) (id other : ConnectionId) (seat : Nat)
    (name : String) : (r.addConnection id seat).IsMember name other ↔ r.IsMember name other := by
  rw [addConnection, IsMember, shardFor_setShard hs.shards_nonempty]
  by_cases he : r.route id = r.route other
  · have hf : r.shardFor id = r.shardFor other := by simp [shardFor, he]
    rw [if_pos he, IsMember, ← hf]
    rfl
  · rw [if_neg he, IsMember]

theorem addConnection_sound {r : Registry} (hs : r.Sound) {seat : Nat} {c : Connection}
    (hc : r.roster[seat]? = some c) : (r.addConnection c.id seat).Sound := by
  refine hs.setShard c.id (Shard.addConnection_sound (hs.of_shard c.id) rfl seat) ?_
  intro other seat' hr ho
  rw [Shard.addConnection, Table.get?_put] at ho
  by_cases he : c.id = other
  · simp only [he, ↓reduceIte, Option.some.injEq] at ho
    exact ⟨c, ho ▸ hc, he⟩
  · have hf : r.shardFor c.id = r.shardFor other := by simp [shardFor, hr]
    exact hs.seated other seat' (by simpa [he, hf, seatOf] using ho)

theorem seatOf_removeConnection {r : Registry} (hs : r.Sound) (id other : ConnectionId) :
    (r.removeConnection id).1.seatOf other = if id = other then none else r.seatOf other := by
  change (r.setShard id _).seatOf other = _
  rw [seatOf, shardFor_setShard hs.shards_nonempty]
  by_cases he : r.route id = r.route other
  · have hf : r.shardFor id = r.shardFor other := by simp [shardFor, he]
    rw [if_pos he, seatOf, ← hf]
    exact Table.get?_remove (hs.of_shard id).connections_distinct id other
  · have hne : id ≠ other := fun h => he (h ▸ rfl)
    rw [if_neg he, if_neg hne, seatOf]

theorem isMember_removeConnection {r : Registry} (hs : r.Sound) (id other : ConnectionId)
    (name : String) : (r.removeConnection id).1.IsMember name other ↔ r.IsMember name other := by
  change (r.setShard id _).IsMember name other ↔ _
  rw [IsMember, shardFor_setShard hs.shards_nonempty]
  by_cases he : r.route id = r.route other
  · have hf : r.shardFor id = r.shardFor other := by simp [shardFor, he]
    rw [if_pos he, IsMember, ← hf]
    rfl
  · rw [if_neg he, IsMember]

theorem removeConnection_sound {r : Registry} (hs : r.Sound) (id : ConnectionId) :
    (r.removeConnection id).1.Sound := by
  refine hs.setShard id (Shard.removeConnection_sound (hs.of_shard id) id) ?_
  intro other seat hr ho
  have hg := Table.get?_remove (hs.of_shard id).connections_distinct id other
  replace ho := hg.symm.trans ho
  by_cases he : id = other
  · simp [he] at ho
  · have hf : r.shardFor id = r.shardFor other := by simp [shardFor, hr]
    rw [if_neg he, hf] at ho
    exact hs.seated other seat ho

theorem rooms_setShard {r : Registry} (hs : r.Sound) (id other : ConnectionId) {s : Shard}
    (hc : s.connections = (r.shardFor id).connections) :
    (r.setShard id s).seatOf other = r.seatOf other := by
  rw [seatOf, shardFor_setShard hs.shards_nonempty]
  by_cases he : r.route id = r.route other
  · have hf : r.shardFor id = r.shardFor other := by simp [shardFor, he]
    rw [if_pos he, hc, hf, seatOf]
  · rw [if_neg he, seatOf]

theorem rooms_setShard_sound {r : Registry} (hs : r.Sound) (id : ConnectionId) {s : Shard}
    (hsound : s.Sound fun x => r.route x = r.route id)
    (hc : s.connections = (r.shardFor id).connections) : (r.setShard id s).Sound := by
  refine hs.setShard id hsound ?_
  intro other seat hr ho
  have hf : r.shardFor id = r.shardFor other := by simp [shardFor, hr]
  exact hs.seated other seat (by rwa [hc, hf] at ho)

theorem seatOf_joinRoom {r : Registry} (hs : r.Sound) (name : String) (id other : ConnectionId) :
    (r.joinRoom name id).1.seatOf other = r.seatOf other :=
  rooms_setShard hs id other (Shard.joinRoom_connections _ name id)

theorem seatOf_leaveRoom {r : Registry} (hs : r.Sound) (name : String) (id other : ConnectionId) :
    (r.leaveRoom name id).1.seatOf other = r.seatOf other :=
  rooms_setShard hs id other (Shard.leaveRoom_connections _ name id)

theorem joinRoom_sound {r : Registry} (hs : r.Sound) (name : String) (id : ConnectionId) :
    (r.joinRoom name id).1.Sound :=
  rooms_setShard_sound hs id (Shard.joinRoom_sound (hs.of_shard id) name rfl)
    (Shard.joinRoom_connections _ name id)

theorem leaveRoom_sound {r : Registry} (hs : r.Sound) (name : String) (id : ConnectionId) :
    (r.leaveRoom name id).1.Sound :=
  rooms_setShard_sound hs id (Shard.leaveRoom_sound (hs.of_shard id) name id)
    (Shard.leaveRoom_connections _ name id)

/-- Joining is refused to a member and changes nothing then; else it adds that one membership. -/
theorem joinRoom_cases {r : Registry} (hs : r.Sound) (name : String) (id : ConnectionId) :
    (r.IsMember name id ∧ r.joinRoom name id = (r, .error (.alreadyMember name))) ∨
    (¬r.IsMember name id ∧ (r.joinRoom name id).2 = .ok () ∧ ∀ other x,
      (r.joinRoom name id).1.IsMember other x ↔ (other = name ∧ x = id) ∨ r.IsMember other x) := by
  rcases (r.shardFor id).joinRoom_cases name id with ⟨hm, he⟩ | ⟨hm, room, he, _⟩
  · refine Or.inl ⟨hm, ?_⟩
    simp only [joinRoom, he, setShard_self hs.shards_nonempty]
  · refine Or.inr ⟨hm, by simp [joinRoom, he], ?_⟩
    intro other x
    have hset : (r.joinRoom name id).1 = r.setShard id ((r.shardFor id).joinRoom name id).1 := rfl
    rw [hset, IsMember, shardFor_setShard hs.shards_nonempty]
    by_cases hr : r.route id = r.route x
    · have hf : r.shardFor id = r.shardFor x := by simp [shardFor, hr]
      rw [if_pos hr, he, Shard.mem_joinRoom he, hf, IsMember]
    · have hne : x ≠ id := fun h => hr (h ▸ rfl)
      rw [if_neg hr, IsMember]
      simp [hne]

/-- Leaving is refused to one who is no member and changes nothing then; else it ends that one
membership. -/
theorem leaveRoom_cases {r : Registry} (hs : r.Sound) (name : String) (id : ConnectionId) :
    (¬r.IsMember name id ∧ r.leaveRoom name id = (r, .error (.notAMember name))) ∨
    (r.IsMember name id ∧ (r.leaveRoom name id).2 = .ok () ∧ ∀ other x,
      (r.leaveRoom name id).1.IsMember other x ↔ r.IsMember other x ∧ ¬(other = name ∧ x = id)) := by
  have accepted : ∀ s', (r.shardFor id).leaveRoom name id = (s', .ok ()) → ∀ other x,
      (r.leaveRoom name id).1.IsMember other x ↔ r.IsMember other x ∧ ¬(other = name ∧ x = id) := by
    intro s' he other x
    have hset : (r.leaveRoom name id).1 = r.setShard id ((r.shardFor id).leaveRoom name id).1 := rfl
    rw [hset, IsMember, shardFor_setShard hs.shards_nonempty]
    by_cases hr : r.route id = r.route x
    · have hf : r.shardFor id = r.shardFor x := by simp [shardFor, hr]
      rw [if_pos hr, he, Shard.mem_leaveRoom (hs.of_shard id).rooms_distinct he, hf, IsMember]
    · have hne : x ≠ id := fun h => hr (h ▸ rfl)
      rw [if_neg hr, IsMember]
      simp [hne]
  rcases (r.shardFor id).leaveRoom_cases name id with ⟨hm, he⟩ | ⟨hm, _, he⟩ | ⟨hm, _, he⟩
  · refine Or.inl ⟨hm, ?_⟩
    simp only [leaveRoom, he, setShard_self hs.shards_nonempty]
  · exact Or.inr ⟨hm, by simp [leaveRoom, he], accepted _ he⟩
  · exact Or.inr ⟨hm, by simp [leaveRoom, he], accepted _ he⟩

theorem isMember_leaveRoom {r : Registry} (hs : r.Sound) (name other : String)
    (id x : ConnectionId) : (r.leaveRoom name id).1.IsMember other x ↔
      r.IsMember other x ∧ ¬(other = name ∧ x = id) := by
  rcases leaveRoom_cases hs name id with ⟨hm, he⟩ | ⟨_, _, hmem⟩
  · rw [he]
    refine ⟨fun h => ⟨h, ?_⟩, And.left⟩
    rintro ⟨rfl, rfl⟩
    exact hm h
  · exact hmem other x

theorem Sound.of_roster {r r' : Registry} (hs : r.Sound) (hshards : r'.shards = r.shards)
    (hroster : ∀ (seat : Nat) (c : Connection), r.roster[seat]? = some c →
      ∃ c', r'.roster[seat]? = some c' ∧ c'.id = c.id) : r'.Sound := by
  have hroute : ∀ id, r'.route id = r.route id := fun id => by unfold route; rw [hshards]
  have hfor : ∀ id, r'.shardFor id = r.shardFor id := fun id => by
    unfold shardFor
    rw [hroute, hshards]
  refine ⟨by rw [hshards]; exact hs.shards_nonempty, ?_, ?_⟩
  · intro k s hk
    simp only [hroute]
    exact hs.shard_sound k s (hshards ▸ hk)
  · intro id seat h
    rw [seatOf, hfor] at h
    obtain ⟨c, hc, hid⟩ := hs.seated id seat h
    obtain ⟨c', hc', hid'⟩ := hroster seat c hc
    exact ⟨c', hc', hid'.trans hid⟩

theorem updateConnection_sound {r : Registry} (hs : r.Sound) (seat : Nat)
    {f : Connection → Connection} (hf : ∀ c, (f c).id = c.id) :
    (r.updateConnection seat f).Sound := by
  refine hs.of_roster rfl ?_
  intro i c hc
  simp only [updateConnection, List.getElem?_modify, hc, Option.map_eq_map, Option.map_some]
  by_cases hi : seat = i
  · exact ⟨f c, by simp [hi], hf c⟩
  · exact ⟨c, by simp [hi], rfl⟩

theorem seatConnection_sound {r : Registry} (hs : r.Sound) (c : Connection) :
    (r.seatConnection c).1.Sound := by
  refine hs.of_roster rfl ?_
  intro i c' hc
  refine ⟨c', ?_, rfl⟩
  rw [seatConnection, List.getElem?_append_left (List.getElem?_eq_some_iff.mp hc).1, hc]

end Registry

end RoomCast
