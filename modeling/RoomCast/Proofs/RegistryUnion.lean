import Mathlib.Data.Finset.Card
import Mathlib.Data.List.Nodup
import RoomCast.Proofs.RegistryTables

namespace RoomCast

theorem total_length_flatMap {α β : Type} (f : α → List β) (xs : List α) :
    total (xs.map fun x => (f x).length) = (xs.flatMap f).length := by
  induction xs with
  | nil => rfl
  | cons x xs ih => simp [total, ih]

/-- Lists whose elements know the place of their list have none in common. -/
theorem nodup_flatMap_home {α β : Type} (f : α → List β) (home : β → Nat) {xs : List α}
    (h : ∀ (k : Nat) (x : α), xs[k]? = some x → (f x).Nodup ∧ ∀ y ∈ f x, home y = k) :
    (xs.flatMap f).Nodup := by
  rw [List.nodup_flatMap]
  constructor
  · intro x hx
    obtain ⟨k, hk⟩ := List.mem_iff_getElem?.mp hx
    exact (h k x hk).1
  · rw [List.pairwise_iff_getElem]
    intro i j hi hj hij y hy hy'
    have h1 := (h i _ (List.getElem?_eq_getElem hi)).2 y hy
    have h2 := (h j _ (List.getElem?_eq_getElem hj)).2 y hy'
    omega

namespace Registry

def identities (r : Registry) : Finset ConnectionId :=
  (r.shards.flatMap fun s => s.connections.map Prod.fst).toFinset

def membersOf (r : Registry) (name : String) : Finset ConnectionId :=
  (r.shards.flatMap fun s => (s.roomOf name).members).toFinset

theorem connectionCount_eq_card {r : Registry} (hs : r.Sound) :
    r.connectionCount = r.identities.card := by
  have hn : (r.shards.flatMap fun s => s.connections.map Prod.fst).Nodup := by
    refine nodup_flatMap_home _ r.route ?_
    intro k s hk
    have hsound := hs.shard_sound k s hk
    refine ⟨hsound.connections_distinct, ?_⟩
    intro id hid
    obtain ⟨⟨id, seat⟩, hp, rfl⟩ := List.mem_map.mp hid
    exact hsound.connections_home id seat (Table.get?_of_mem hsound.connections_distinct hp)
  have hcount : r.shards.map Shard.connectionCount =
      r.shards.map fun s => (s.connections.map Prod.fst).length := by
    simp [Shard.connectionCount]
  rw [connectionCount, hcount, total_length_flatMap, identities, List.toFinset_card_of_nodup hn]

theorem memberCount_eq_card {r : Registry} (hs : r.Sound) (name : String) :
    r.memberCount name = (r.membersOf name).card := by
  have hn : (r.shards.flatMap fun s => (s.roomOf name).members).Nodup := by
    refine nodup_flatMap_home _ r.route ?_
    intro k s hk
    have hsound := hs.shard_sound k s hk
    exact ⟨hsound.members_nodup name, hsound.members_home name⟩
  have hcount : (r.shards.map fun s => s.memberCount name) =
      r.shards.map fun s => (s.roomOf name).members.length := rfl
  rw [memberCount, hcount, total_length_flatMap, membersOf, List.toFinset_card_of_nodup hn]

theorem mem_identities {r : Registry} (hs : r.Sound) (id : ConnectionId) :
    id ∈ r.identities ↔ ∃ seat, r.seatOf id = some seat := by
  simp only [identities, List.mem_toFinset, List.mem_flatMap]
  constructor
  · rintro ⟨s, hmem, hid⟩
    obtain ⟨k, hk⟩ := List.mem_iff_getElem?.mp hmem
    obtain ⟨⟨id, seat⟩, hp, rfl⟩ := List.mem_map.mp hid
    have hg := Table.get?_of_mem (hs.shard_sound k s hk).connections_distinct hp
    exact ⟨seat, by rwa [seatOf, hs.shardFor_of_seat hk hg]⟩
  · rintro ⟨seat, h⟩
    refine ⟨r.shardFor id, List.mem_of_getElem? (shardFor_eq hs.shards_nonempty id), ?_⟩
    exact List.mem_map.mpr ⟨(id, seat), Table.mem_of_get? h, rfl⟩

theorem mem_membersOf {r : Registry} (hs : r.Sound) (name : String) (id : ConnectionId) :
    id ∈ r.membersOf name ↔ r.IsMember name id := by
  simp only [membersOf, List.mem_toFinset, List.mem_flatMap]
  constructor
  · rintro ⟨s, hmem, hid⟩
    obtain ⟨k, hk⟩ := List.mem_iff_getElem?.mp hmem
    rwa [IsMember, hs.shardFor_of_member hk hid]
  · intro h
    exact ⟨r.shardFor id, List.mem_of_getElem? (shardFor_eq hs.shards_nonempty id), h⟩

end Registry

end RoomCast
