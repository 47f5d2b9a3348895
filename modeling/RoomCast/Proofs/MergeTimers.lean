import RoomCast.Proofs.MergeConservation

namespace RoomCast

def BatchTimer.IsFor (t : BatchTimer) (lane : Nat) (key : BatchKey) (number : Nat) : Prop :=
  t.lane = lane ∧ t.key = key ∧ t.number = number

namespace MergeLayer

def Timed (m : MergeLayer) : Prop :=
  ∀ (i : Nat) (lane : MergeLane) (key : BatchKey) (batch : Batch), m.lanes[i]? = some lane →
    lane.worker.batches.get? key = some batch →
    ∃ t, (t ∈ m.timers ∨ t ∈ lane.expiries) ∧ t.IsFor i key batch.number

theorem create_timed (settings : MergeSettings) : (create settings).Timed := by
  intro i lane key batch hl hb
  rw [(List.mem_replicate.mp (List.mem_of_getElem? hl)).2] at hb
  simp [MergeWorker.create, Table.get?] at hb

theorem mem_abortTimer {timers : List BatchTimer} {t : BatchTimer} (ht : t ∈ timers) {lane : Nat}
    {key : BatchKey} {number : Nat} (hne : ¬t.IsFor lane key number) :
    t ∈ abortTimer timers lane key number := by
  refine List.mem_filter.mpr ⟨ht, ?_⟩
  rw [Bool.not_eq_true', Bool.eq_false_iff]
  intro hf
  simp only [Bool.and_eq_true, decide_eq_true_eq] at hf
  exact hne ⟨hf.1.1, hf.1.2, hf.2⟩

theorem Timed.queue {m : MergeLayer} (h : m.Timed) {lane : MergeLane} {i : Nat}
    (hl : m.lanes[i]? = some lane) (item : MergeItem) :
    Timed { m with lanes := m.lanes.set i { lane with input := lane.input ++ [item] } } := by
  intro j other key batch hj hb
  rcases lane_of_set hj with ⟨rfl, rfl⟩ | ⟨_, hj⟩
  · exact h i lane key batch hl hb
  · exact h j other key batch hj hb

theorem timersAfter_gathered {m : MergeLayer} {i now : Nat} {lane : MergeLane} {item : MergeItem}
    (h : (lane.worker.onItem item).2 = .gathered) : m.timersAfter i now lane item = m.timers := by
  unfold timersAfter
  rw [h]

theorem timersAfter_opened {m : MergeLayer} {i now n : Nat} {lane : MergeLane} {item : MergeItem}
    (h : (lane.worker.onItem item).2 = .opened n) :
    m.timersAfter i now lane item = m.timers ++ [⟨i, item.key, n, now + m.delay⟩] := by
  unfold timersAfter
  rw [h]

theorem mem_timersAfter {m : MergeLayer} {t : BatchTimer} (ht : t ∈ m.timers) {i now : Nat}
    {lane : MergeLane} {item : MergeItem} (hne : ¬(t.lane = i ∧ t.key = item.key)) :
    t ∈ m.timersAfter i now lane item := by
  unfold timersAfter
  split
  next =>
    refine mem_abortTimer ht ?_
    exact fun hf => hne ⟨hf.1, hf.2.1⟩
  next => exact List.mem_append_left _ ht
  next => exact ht

theorem Timed.takeItem {m m' : MergeLayer} {commit : Option Commit} {i now : Nat} (h : m.Timed)
    (hs : m.Sound) (hm : m.takeItem i now = some (m', commit)) : m'.Timed := by
  obtain ⟨lane, item, rest, hi, _, _, rfl⟩ := takeItem_cases hm
  have hd := hs.distinct i lane hi
  intro j other key batch hj hb
  rcases lane_of_set hj with ⟨rfl, rfl⟩ | ⟨hne, hj⟩
  · by_cases hk : item.key = key
    · subst hk
      rcases lane.worker.onItem_cases item with ⟨_, _, _, he⟩ | ⟨old, hg, _, he⟩ | ⟨_, _, he⟩ |
        ⟨hg, _, he⟩
      · simp [he, Table.get?_remove hd] at hb
      · have htimers : m.timersAfter i now lane item = m.timers :=
          timersAfter_gathered (congrArg Prod.snd he)
        simp only [he, Table.get?_put, ↓reduceIte, Option.some.injEq] at hb
        obtain ⟨t, ht, hf⟩ := h i lane item.key old hi hg
        exact ⟨t, by rwa [htimers], hb ▸ hf⟩
      · simp [he, Table.get?_remove hd] at hb
      · have htimers : m.timersAfter i now lane item =
            m.timers ++ [⟨i, item.key, lane.worker.opened + 1, now + m.delay⟩] :=
          timersAfter_opened (congrArg Prod.snd he)
        simp only [he, Table.get?_put, ↓reduceIte, Option.some.injEq] at hb
        refine ⟨⟨i, item.key, lane.worker.opened + 1, now + m.delay⟩, ?_, rfl, rfl, hb ▸ rfl⟩
        rw [htimers]
        exact Or.inl (List.mem_append_right _ (List.mem_singleton.mpr rfl))
    · have hold : lane.worker.batches.get? key = some batch := by
        rwa [MergeWorker.onItem_get?_ne hd hk] at hb
      obtain ⟨t, ht, hf⟩ := h i lane key batch hi hold
      refine ⟨t, ?_, hf⟩
      rcases ht with ht | ht
      · exact Or.inl (mem_timersAfter ht fun hn => hk (hn.2.symm.trans hf.2.1))
      · exact Or.inr ht
  · obtain ⟨t, ht, hf⟩ := h j other key batch hj hb
    refine ⟨t, ?_, hf⟩
    rcases ht with ht | ht
    · exact Or.inl (mem_timersAfter ht fun hn => hne (hn.1.symm.trans hf.1))
    · exact Or.inr ht

theorem Timed.fire {m m' : MergeLayer} {commit : Option Commit} {k now : Nat} (h : m.Timed)
    (hm : m.fire k now = some (m', commit)) : m'.Timed := by
  obtain ⟨t, lane, ht, _, hl, _, _, rfl⟩ := fire_cases hm
  -- the timer that fires passes to its worker, and every other still runs
  have moved : ∀ other ∈ m.timers, other = t ∨ other ∈ m.timers.eraseIdx k := by
    intro other ho
    obtain ⟨j, hj⟩ := List.mem_iff_getElem?.mp ho
    by_cases hk : j = k
    · subst hk
      exact Or.inl (Option.some.inj (hj.symm.trans ht))
    · exact Or.inr (List.mem_eraseIdx_iff_getElem?.mpr ⟨j, hk, hj⟩)
  intro j other key batch hj hb
  rcases lane_of_set hj with ⟨rfl, rfl⟩ | ⟨hne, hj⟩
  · obtain ⟨own, ho, hf⟩ := h t.lane lane key batch hl hb
    refine ⟨own, ?_, hf⟩
    rcases ho with ho | ho
    · rcases moved own ho with rfl | ho
      · exact Or.inr (List.mem_append_right _ (List.mem_singleton.mpr rfl))
      · exact Or.inl ho
    · exact Or.inr (List.mem_append_left _ ho)
  · obtain ⟨own, ho, hf⟩ := h j other key batch hj hb
    refine ⟨own, ?_, hf⟩
    rcases ho with ho | ho
    · rcases moved own ho with rfl | ho
      · exact absurd hf.1 hne
      · exact Or.inl ho
    · exact Or.inr ho

theorem Timed.takeExpiry {m m' : MergeLayer} {commit : Option Commit} {i : Nat} (h : m.Timed)
    (hs : m.Sound) (hm : m.takeExpiry i = some (m', commit)) : m'.Timed := by
  obtain ⟨lane, t, rest, hi, hx, _, rfl⟩ := takeExpiry_cases hm
  have hd := hs.distinct i lane hi
  intro j other key batch hj hb
  rcases lane_of_set hj with ⟨rfl, rfl⟩ | ⟨_, hj⟩
  · -- a batch that is still open is not the one whose timer has been attended to
    have hold : lane.worker.batches.get? key = some batch ∧ ¬t.IsFor i key batch.number := by
      rcases lane.worker.onExpiry_cases t.key t.number with ⟨old, hg, hn, he⟩ | ⟨hstale, he⟩
      · rw [he] at hb
        simp only [Table.get?_remove hd] at hb
        by_cases hk : t.key = key
        · simp [hk] at hb
        · exact ⟨by simpa [hk] using hb, fun hf => hk hf.2.1⟩
      · rw [he] at hb
        refine ⟨hb, ?_⟩
        rintro ⟨_, rfl, hn⟩
        exact hstale batch hb hn.symm
    obtain ⟨own, ho, hf⟩ := h i lane key batch hi hold.1
    refine ⟨own, ?_, hf⟩
    rcases ho with ho | ho
    · exact Or.inl ho
    · rw [hx] at ho
      rcases List.mem_cons.mp ho with rfl | ho
      · exact absurd hf hold.2
      · exact Or.inr ho
  · exact h j other key batch hj hb

/-- Where no timer is left, no batch is open. -/
theorem Timed.openItems_nil {m : MergeLayer} (h : m.Timed) (ht : m.timers = [])
    (hx : ∀ lane ∈ m.lanes, lane.expiries = []) (key : BatchKey) : m.openItems key = [] := by
  unfold openItems
  split
  next => rfl
  next lane hl =>
    cases hb : lane.worker.batches.get? key with
    | none => exact MergeWorker.openItems_none hb
    | some batch =>
      obtain ⟨t, hm, _⟩ := h _ lane key batch hl hb
      rw [ht, hx lane (List.mem_of_getElem? hl)] at hm
      rcases hm with hm | hm <;> exact absurd hm List.not_mem_nil

end MergeLayer

end RoomCast
