import Mathlib.Data.Nat.Digits.Defs
import RoomCast.Proofs.MergeConservation

namespace RoomCast

section Words

/-- A step of the hash in words of 64 bits, unless the product or the sum would not fit one. -/
def hashStep? (workers hash : UInt64) (b : UInt8) : Option UInt64 :=
  if hash.toNat * 33 < 2 ^ 64 ∧ hash.toNat * 33 + b.toNat < 2 ^ 64 then
    some ((hash * 33 + b.toUInt64) % workers)
  else none

/-- The worker of a room in words of 64 bits, unless a step would not fit one; no workers count as one. -/
def hashWord? (room : String) (workers : UInt64) : Option UInt64 :=
  room.toUTF8.toList.foldlM (hashStep? (if workers = 0 then 1 else workers)) 0

/-- The number whose digits in base 33 are the bytes of a name, the first of them the highest. -/
def namePolynomial (room : String) : Nat :=
  Nat.ofDigits 33 (room.toUTF8.toList.map UInt8.toNat).reverse

theorem toNat_served (workers : UInt64) :
    (if workers = 0 then 1 else workers).toNat = max workers.toNat 1 := by
  by_cases h : workers = 0
  · subst h
    rfl
  · have hpos : workers.toNat ≠ 0 := fun hz => h (UInt64.toNat_inj.mp hz)
    rw [if_neg h]
    omega

theorem hashStep_fits {workers : UInt64} {n k : Nat} (hn : workers.toNat = n)
    (h : 33 * (n - 1) + 255 < 2 ^ 64) (hk : k < n) (b : UInt8) :
    hashStep? workers (.ofNat k) b = some (.ofNat ((k * 33 + b.toNat) % n)) := by
  have hb : b.toNat < 256 := b.toNat_lt
  have hsum : k * 33 + b.toNat < 2 ^ 64 := by omega
  have hhash : (UInt64.ofNat k).toNat = k := by
    rw [UInt64.toNat_ofNat']
    exact Nat.mod_eq_of_lt (by omega)
  rw [hashStep?, hhash, if_pos ⟨by omega, hsum⟩]
  refine congrArg some (UInt64.toNat_inj.mp ?_)
  have hproduct : (UInt64.ofNat k * 33).toNat = k * 33 := by
    rw [UInt64.toNat_mul, hhash]
    exact Nat.mod_eq_of_lt (show k * 33 < 2 ^ 64 by omega)
  have hmod : (k * 33 + b.toNat) % n < 2 ^ 64 := lt_of_le_of_lt (Nat.mod_le _ _) hsum
  rw [UInt64.toNat_mod, UInt64.toNat_add, hproduct, hn, UInt64.toNat_ofNat', Nat.mod_eq_of_lt hmod]
  exact congrArg (· % n) (Nat.mod_eq_of_lt hsum)

/-- No step of a run over some bytes leaves the words. The hash stays below the number of workers. -/
theorem hashSteps_fit {workers : UInt64} {n k : Nat} (hn : workers.toNat = n)
    (h : 33 * (n - 1) + 255 < 2 ^ 64) (hk : k < n) (bytes : List UInt8) :
    bytes.foldlM (hashStep? workers) (.ofNat k) =
      some (.ofNat (bytes.foldl (fun h b => (h * 33 + b.toNat) % n) k)) := by
  induction bytes generalizing k with
  | nil => rfl
  | cons b bytes ih =>
    rw [List.foldlM_cons, hashStep_fits hn h hk b, List.foldl_cons]
    exact ih (Nat.mod_lt _ (by omega))

end Words

section Polynomials

/-- Reducing at every step leaves what reducing once at the end leaves. -/
theorem foldl_mod (n k : Nat) (bytes : List UInt8) :
    bytes.foldl (fun h b => (h * 33 + b.toNat) % n) (k % n) =
      bytes.foldl (fun h b => h * 33 + b.toNat) k % n := by
  induction bytes generalizing k with
  | nil => rfl
  | cons b bytes ih =>
    have hstep : (k % n * 33 + b.toNat) % n = (k * 33 + b.toNat) % n := by
      rw [Nat.add_mod, Nat.mod_mul_mod, ← Nat.add_mod]
    rw [List.foldl_cons, List.foldl_cons, hstep, ih]

theorem foldl_digits (bytes : List UInt8) :
    bytes.foldl (fun h b => h * 33 + b.toNat) 0 = Nat.ofDigits 33 (bytes.map UInt8.toNat).reverse := by
  rw [Nat.ofDigits_eq_foldr, List.foldr_reverse, List.foldl_map]
  congr 1
  funext h b
  rw [Nat.cast_id, Nat.add_comm, Nat.mul_comm]

theorem roomWorker_polynomial (room : String) (workers : Nat) :
    roomWorker room workers = namePolynomial room % max workers 1 := by
  have hmod := foldl_mod (max workers 1) 0 room.toUTF8.toList
  rw [Nat.zero_mod, foldl_digits] at hmod
  exact hmod

end Polynomials

namespace MergeLayer

inductive Reached (settings : MergeSettings) : MergeLayer → Prop where
  | create : Reached settings (.create settings)
  | push {m : MergeLayer} (item : MergeItem) : Reached settings m → Reached settings (m.push item).1
  | take {m m' : MergeLayer} {commit : Option Commit} {i now : Nat} :
      m.takeItem i now = some (m', commit) → Reached settings m → Reached settings m'
  | fire {m m' : MergeLayer} {commit : Option Commit} {k now : Nat} :
      m.fire k now = some (m', commit) → Reached settings m → Reached settings m'
  | attend {m m' : MergeLayer} {commit : Option Commit} {i : Nat} :
      m.takeExpiry i = some (m', commit) → Reached settings m → Reached settings m'
  | shutdown {m : MergeLayer} : Reached settings m → Reached settings m.shutdown
  | stop {m : MergeLayer} : Reached settings m → Reached settings m.stopWorkers

theorem push_width (m : MergeLayer) (item : MergeItem) :
    (m.push item).1.lanes.length = m.lanes.length := by
  rw [push]
  split
  next => rfl
  next =>
    split
    next => rfl
    next => split <;> simp

theorem Reached.width {settings : MergeSettings} {m : MergeLayer} (h : m.Reached settings) :
    m.lanes.length = max settings.workerCount.toNat 1 + 1 := by
  induction h with
  | create => exact List.length_replicate
  | @push m item _ ih => exact (m.push_width item).trans ih
  | take hm _ ih =>
    obtain ⟨_, _, _, _, _, _, he⟩ := takeItem_cases hm
    rw [he]
    simpa using ih
  | fire hm _ ih =>
    obtain ⟨_, _, _, _, _, _, _, he⟩ := fire_cases hm
    rw [he]
    simpa using ih
  | attend hm _ ih =>
    obtain ⟨_, _, _, _, _, _, he⟩ := takeExpiry_cases hm
    rw [he]
    simpa using ih
  | shutdown _ ih => exact ih
  | stop _ ih => exact (List.length_map _).trans ih

end MergeLayer

/-- In words the worker of a room is found without any step that leaves them. It is what the number
spelled by the name leaves, and every layer has a lane for it. -/
theorem room_hash_stays_in_words (room : String) {workers : UInt64}
    (h : 33 * (workers.toNat - 1) + 255 < 2 ^ 64) :
    hashWord? room workers = some (.ofNat (roomWorker room workers.toNat)) ∧
    roomWorker room workers.toNat < max workers.toNat 1 ∧
    roomWorker room workers.toNat = namePolynomial room % max workers.toNat 1 ∧
    ∀ (settings : MergeSettings) (m : MergeLayer), settings.workerCount = workers →
      m.Reached settings → m.roomWorkers = max workers.toNat 1 ∧
        ∃ lane, m.lanes.tail[roomWorker room m.roomWorkers]? = some lane ∧
          m.lanes[m.laneOf (.room room)]? = some lane := by
  refine ⟨?_, roomWorker_lt room _, roomWorker_polynomial room _, ?_⟩
  · have hbound : 33 * (max workers.toNat 1 - 1) + 255 < 2 ^ 64 := by omega
    have hpos : 0 < max workers.toNat 1 := Nat.lt_of_lt_of_le Nat.zero_lt_one (Nat.le_max_right _ _)
    exact hashSteps_fit (toNat_served workers) hbound hpos room.toUTF8.toList
  · rintro settings m rfl hm
    have hwidth := hm.width
    have hworkers : m.roomWorkers = max settings.workerCount.toNat 1 := by
      rw [MergeLayer.roomWorkers]
      omega
    have hlt := roomWorker_lt room m.roomWorkers
    have hin : roomWorker room m.roomWorkers < m.lanes.tail.length := by
      rw [List.length_tail]
      omega
    refine ⟨hworkers, _, List.getElem?_eq_getElem hin, ?_⟩
    rw [← List.getElem?_eq_getElem hin, List.getElem?_tail]
    rfl

/-- A name beyond ASCII among as many workers as fit. -/
theorem room_hash_greatest_count :
    33 * ((558992244657865193 : UInt64).toNat - 1) + 255 < 2 ^ 64 ∧
    hashWord? "é" 558992244657865193 = some 6604 := by
  have h : 33 * ((558992244657865193 : UInt64).toNat - 1) + 255 < 2 ^ 64 := by decide
  obtain ⟨hword, _, hpoly, _⟩ := room_hash_stays_in_words "é" h
  have hname : namePolynomial "é" = 6604 := by decide +kernel
  rw [hpoly, hname] at hword
  exact ⟨h, hword⟩

end RoomCast
