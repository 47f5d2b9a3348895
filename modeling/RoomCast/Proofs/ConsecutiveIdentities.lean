import Mathlib.Data.Int.CardIntervalMod
import Mathlib.Data.List.Nodup
import Mathlib.Data.Nat.Count
import RoomCast.Identity

namespace RoomCast

/-- How many of some identities belong to one of the shards. -/
def sharedTo (shards shard : Nat) (ids : List ConnectionId) : Nat :=
  ids.countP fun id => id.shard shards = shard

/-- Among consecutive numbers each remainder comes once in every round, and perhaps once more. -/
theorem count_remainder (start : Nat) {n i : Nat} (hi : i < n) (count : Nat) :
    let share := (List.range count).countP fun j => (start + j) % n = i
    count / n ≤ share ∧ share ≤ count / n + 1 := by
  intro share
  have hn : 0 < n := Nat.zero_lt_of_lt hi
  -- the first of the numbers with this remainder, in the first round or the one behind it
  have hfirst : start + (i + (n - start % n)) ≡ i [MOD n] := by
    have hdiv := Nat.div_add_mod start n
    have hlt := Nat.mod_lt start hn
    have hsum : start + (i + (n - start % n)) = i + n * (start / n + 1) := by
      rw [Nat.mul_add]
      omega
    rw [hsum]
    exact Nat.add_mul_mod_self_left i n _
  have hturn : ∀ j, (start + j) % n = i ↔ j ≡ i + (n - start % n) [MOD n] := by
    intro j
    have hown : i % n = i := Nat.mod_eq_of_lt hi
    constructor
    · intro h
      have hsame : start + j ≡ i [MOD n] := h.trans hown.symm
      exact Nat.ModEq.add_left_cancel' start (hsame.trans hfirst.symm)
    · intro h
      have hsame : start + j ≡ i [MOD n] := (Nat.ModEq.add_left start h).trans hfirst
      exact Eq.trans hsame hown
  have hshare : share = count.count (· ≡ i + (n - start % n) [MOD n]) := by
    rw [Nat.count]
    exact List.countP_congr fun j _ => by simp [hturn j]
  rw [hshare, Nat.count_modEq_card count hn]
  split <;> omega

namespace IdentitySource

def ahead (source : IdentitySource) (n : Nat) : ConnectionId := ⟨source.next + UInt64.ofNat n⟩

theorem ahead_succ (source : IdentitySource) (n : Nat) :
    source.ahead (n + 1) = ahead ⟨source.next + 1⟩ n := by
  rw [ahead, ahead, Nat.add_comm, UInt64.ofNat_add, ← UInt64.add_assoc]
  rfl

theorem toNat_ahead (source : IdentitySource) (n : Nat) :
    (source.ahead n).value.toNat = (source.next.toNat + n) % 2 ^ 64 := by
  rw [ahead, UInt64.toNat_add, UInt64.toNat_ofNat', Nat.add_mod_mod]

theorem ahead_injective (source : IdentitySource) {m n : Nat} (hm : m < 2 ^ 64) (hn : n < 2 ^ 64)
    (h : source.ahead m = source.ahead n) : m = n := by
  have hvalue := congrArg (fun id : ConnectionId => id.value.toNat) h
  simp only [toNat_ahead] at hvalue
  have hmod : m ≡ n [MOD 2 ^ 64] := Nat.ModEq.add_left_cancel' source.next.toNat hvalue
  exact hmod.eq_of_lt_of_lt hm hn

theorem takeMany_eq (source : IdentitySource) (count : Nat) :
    source.takeMany count = ((List.range count).map source.ahead, ⟨(source.ahead count).value⟩) := by
  induction count generalizing source with
  | zero => simp [takeMany, ahead]
  | succ count ih =>
    have hrest : source.ahead ∘ Nat.succ = ahead ⟨source.next + 1⟩ := funext source.ahead_succ
    have hfirst : source.ahead 0 = ⟨source.next⟩ := by simp [ahead]
    rw [takeMany, take]
    simp only [ih, List.range_succ_eq_map, List.map_cons, List.map_map, hrest, hfirst,
      source.ahead_succ]

theorem takeMany_succ (source : IdentitySource) (count : Nat) :
    source.takeMany (count + 1) =
      ((source.takeMany count).1 ++ [(source.takeMany count).2.take.1],
        (source.takeMany count).2.take.2) := by
  have hnext : (source.ahead (count + 1)).value = (source.ahead count).value + 1 := by
    rw [ahead, ahead, UInt64.ofNat_add, ← UInt64.add_assoc]
    rfl
  simp only [takeMany_eq, take, List.range_succ, List.map_append, List.map_cons, List.map_nil, hnext]

theorem takeMany_nodup (source : IdentitySource) {count : Nat} (h : count ≤ 2 ^ 64) :
    (source.takeMany count).1.Nodup := by
  rw [takeMany_eq]
  refine List.nodup_range.map_on fun m hm n hn he => ?_
  have hm' := List.mem_range.mp hm
  have hn' := List.mem_range.mp hn
  exact source.ahead_injective (by omega) (by omega) he

/-- Until the words have run out, a shard gets one identity of each round and perhaps one more. -/
theorem takeMany_shared (source : IdentitySource) {count : Nat}
    (h : source.next.toNat + count ≤ 2 ^ 64) {shards shard : Nat} (hs : shard < max shards 1) :
    let share := sharedTo shards shard (source.takeMany count).1
    count / max shards 1 ≤ share ∧ share ≤ count / max shards 1 + 1 := by
  intro share
  have hshare : share =
      (List.range count).countP fun j => (source.next.toNat + j) % max shards 1 = shard := by
    change sharedTo shards shard (source.takeMany count).1 = _
    rw [takeMany_eq, sharedTo, List.countP_map]
    refine List.countP_congr fun j hj => ?_
    have hj' := List.mem_range.mp hj
    have hvalue : (source.next.toNat + j) % 2 ^ 64 = source.next.toNat + j :=
      Nat.mod_eq_of_lt (by omega)
    simp only [Function.comp_apply, ConnectionId.shard, toNat_ahead, hvalue]
  rw [hshare]
  exact count_remainder source.next.toNat hs count

-- behind the greatest word the remainders do not go on in turn
example : (takeMany 2 ⟨18446744073709551615⟩).1.map (·.shard 3) = [0, 0] := by decide

end IdentitySource

end RoomCast
