import RoomCast.Proofs.MergeDeadlines
import RoomCast.Proofs.WorkerApart

namespace RoomCast

/-- What a layer holds for a destination: the fragments that wait, those of the open batch, when timers that
run are due, and of each timer that has fired whether it is that of the open batch. -/
structure Share where
  waiting : List Fragment
  gathered : Option (List Fragment)
  due : List Nat
  fired : List Bool

namespace Share

def push (s : Share) (f : Fragment) : Share := { s with waiting := s.waiting ++ [f] }

/-- The worker takes the fragment that has waited longest; a batch opened by it is due later. -/
def take (s : Share) (bound later : Nat) (key : BatchKey) : Share × Option Commit :=
  match s.waiting with
  | [] => (s, none)
  | f :: rest =>
    match gather bound s.gathered f with
    | (gathered, some items) =>
      (⟨rest, gathered, [], s.fired.map fun _ => false⟩, some ⟨key, ⟨items⟩, .size⟩)
    | (gathered, none) =>
      (⟨rest, gathered, if s.gathered.isSome then s.due else [later], s.fired⟩, none)

def fire (s : Share) : Share := { s with due := [], fired := s.fired ++ [true] }

def attend (s : Share) (key : BatchKey) : Share × Option Commit :=
  match s.fired with
  | [] => (s, none)
  | false :: rest => ({ s with fired := rest }, none)
  | true :: rest =>
    ({ s with gathered := none, fired := rest.map fun _ => false },
      s.gathered.map fun items => ⟨key, ⟨items⟩, .timer⟩)

end Share

/-- What a lane holds for a destination, with the timers of the layer. -/
def MergeLane.share (lane : MergeLane) (timers : List BatchTimer) (key : BatchKey) : Share where
  waiting := fragmentsFor lane.input key
  gathered := lane.worker.gathered key
  due := (timers.filter (·.key = key)).map (·.due)
  fired := (lane.expiries.filter (·.key = key)).map fun x =>
    (lane.worker.batches.get? key).any (·.number = x.number)

def MergeLayer.share (m : MergeLayer) (key : BatchKey) : Share :=
  match m.lanes[m.laneOf key]? with
  | none => ⟨[], none, [], []⟩
  | some lane => lane.share m.timers key

namespace MergeLayer

theorem share_of_lane {m : MergeLayer} {lane : MergeLane} {key : BatchKey}
    (h : m.lanes[m.laneOf key]? = some lane) : m.share key = lane.share m.timers key := by
  simp [share, h]

theorem share_set {m m' : MergeLayer} {i : Nat} {lane lane' home : MergeLane} {key : BatchKey}
    (hi : m.lanes[i]? = some lane) (hset : m'.lanes = m.lanes.set i lane')
    (hhome : m.lanes[m.laneOf key]? = some home) :
    m'.share key = (if m.laneOf key = i then lane' else home).share m'.timers key := by
  have hlen : m'.lanes.length = m.lanes.length := by rw [hset, List.length_set]
  apply share_of_lane
  rw [laneOf_congr hlen, hset, getElem?_set_of_some hi]
  by_cases hk : m.laneOf key = i
  · simp [hk]
  · rw [if_neg hk, if_neg (Ne.symm hk), hhome]

/-- A change to one lane does not concern a destination of which that lane, and the timers, hold the same as
before. -/
theorem share_set_same {m m' : MergeLayer} (hs : m.Sound) {i : Nat} {lane lane' : MergeLane}
    {key : BatchKey} (hi : m.lanes[i]? = some lane) (hset : m'.lanes = m.lanes.set i lane')
    (htimers : m'.timers.filter (·.key = key) = m.timers.filter (·.key = key))
    (hlane : lane'.share m.timers key = lane.share m.timers key) : m'.share key = m.share key := by
  obtain ⟨home, hhome⟩ := hs.lane_exists key
  have hsame : ∀ l : MergeLane, l.share m'.timers key = l.share m.timers key := fun l => by
    simp only [MergeLane.share, htimers]
  rw [share_set hi hset hhome, share_of_lane hhome, hsame]
  split
  next hk =>
    rw [hk, hi] at hhome
    rw [hlane, Option.some.inj hhome]
  next => rfl

theorem filter_timersAfter_ne {m : MergeLayer} {i now : Nat} {lane : MergeLane} {item : MergeItem}
    {key : BatchKey} (hne : item.key ≠ key) :
    (m.timersAfter i now lane item).filter (·.key = key) = m.timers.filter (·.key = key) := by
  unfold timersAfter
  split
  next =>
    rw [abortTimer, List.filter_filter]
    refine List.filter_congr fun x _ => ?_
    by_cases hx : x.key = key
    · simp [hx, Ne.symm hne]
    · simp [hx]
  next => simp [hne]
  next => rfl

end MergeLayer

namespace TimedTrace

/-- Whatever a layer holds is held in the lane of its destination, and sizes are as they were set. -/
structure Homed (settings : MergeSettings) (t : TimedTrace) : Prop where
  kept : t.Kept settings
  capacity : t.layer.capacity = settings.channelSize.toNat
  width : t.layer.lanes.length = max settings.workerCount.toNat 1 + 1
  fired_home : ∀ (i : Nat) (lane : MergeLane), t.layer.lanes[i]? = some lane →
    ∀ x ∈ lane.expiries, t.layer.laneOf x.key = i

theorem start_homed (settings : MergeSettings) : (start settings).Homed settings := by
  refine ⟨start_kept settings, rfl, by simp [start, MergeLayer.create], fun i lane hl x hx => ?_⟩
  rw [(List.mem_replicate.mp (List.mem_of_getElem? hl)).2] at hx
  exact absurd hx List.not_mem_nil

section Homes

variable {settings : MergeSettings} {t : TimedTrace} (h : t.Kept settings)

include h in
theorem Kept.item_home {i : Nat} {lane : MergeLane} (hl : t.layer.lanes[i]? = some lane)
    {item : MergeItem} (hm : item ∈ lane.input) : t.layer.laneOf item.key = i := by
  by_contra hne
  have hnone := (List.append_eq_nil_iff.mp (h.sound.home i lane item.key hl hne)).2
  have hitem : item.item ∈ lane.waitingItems item.key :=
    List.mem_map.mpr ⟨item, List.mem_filter.mpr ⟨hm, by simp⟩, rfl⟩
  rw [hnone] at hitem
  exact absurd hitem List.not_mem_nil

include h in
theorem Kept.batch_home {i : Nat} {lane : MergeLane} (hl : t.layer.lanes[i]? = some lane)
    {key : BatchKey} {batch : Batch} (hb : lane.worker.batches.get? key = some batch) :
    t.layer.laneOf key = i := by
  by_contra hne
  have hnone := (List.append_eq_nil_iff.mp (h.sound.home i lane key hl hne)).1
  obtain ⟨r, hr, _, _, hlen⟩ := (h.lanes i lane hl).opened key batch hb
  have hfirst := ((h.lanes i lane hl).timely _ r hr).first
  -- an open batch has taken an item
  rw [MergeWorker.openItems_some hb] at hnone
  rw [hnone, List.length_nil, List.length_eq_zero_iff] at hlen
  simp [hlen] at hfirst

include h in
theorem Kept.timer_home {x : BatchTimer} (hx : x ∈ t.layer.timers) :
    x.lane = t.layer.laneOf x.key ∧ ∃ (lane : MergeLane) (batch : Batch),
      t.layer.lanes[t.layer.laneOf x.key]? = some lane ∧
        lane.worker.batches.get? x.key = some batch ∧ batch.number = x.number := by
  obtain ⟨lane, batch, _, hl, hb, hn, _⟩ := h.open_of_timer hx
  have hhome := h.batch_home hl hb
  exact ⟨hhome.symm, lane, batch, hhome ▸ hl, hb, hn⟩

include h in
theorem Kept.fired_le {i : Nat} {lane : MergeLane} (hl : t.layer.lanes[i]? = some lane)
    {x : BatchTimer} (hx : x ∈ lane.expiries) : x.number ≤ lane.worker.opened := by
  obtain ⟨_, r, hr, _⟩ := (h.lanes i lane hl).fired x hx
  exact (h.lanes i lane hl).numbers _ r hr

end Homes

namespace Homed

variable {settings : MergeSettings} {t : TimedTrace}

theorem of_set (h : t.Homed settings) {t' : TimedTrace} (hkept : t'.Kept settings)
    (hcapacity : t'.layer.capacity = t.layer.capacity) {i : Nat} {lane' : MergeLane}
    (hset : t'.layer.lanes = t.layer.lanes.set i lane')
    (hfired : ∀ x ∈ lane'.expiries, t.layer.laneOf x.key = i) : t'.Homed settings := by
  have hlen : t'.layer.lanes.length = t.layer.lanes.length := by rw [hset, List.length_set]
  refine ⟨hkept, hcapacity.trans h.capacity, hlen.trans h.width, fun j lane hj x hx => ?_⟩
  rw [MergeLayer.laneOf_congr hlen]
  rw [hset] at hj
  rcases MergeLayer.lane_of_set hj with ⟨rfl, rfl⟩ | ⟨_, hj⟩
  · exact hfired x hx
  · exact h.fired_home j lane hj x hx

theorem step (h : t.Homed settings) (e : TimedEvent) : (t.step e).Homed settings := by
  have hkept := h.kept.step e
  cases e with
  | push item =>
    obtain ⟨lane, hl, ⟨_, he⟩ | ⟨_, he⟩⟩ := MergeLayer.push_cases h.kept.sound h.kept.running.1
      h.kept.running.2 item
    · simp only [TimedTrace.step, he] at hkept ⊢
      exact ⟨hkept, h.capacity, h.width, h.fired_home⟩
    · simp only [TimedTrace.step, he] at hkept ⊢
      exact h.of_set hkept rfl rfl (h.fired_home _ lane hl)
  | take i =>
    cases hm : t.layer.takeItem i t.now with
    | none => simpa only [TimedTrace.step, hm] using h
    | some move =>
      simp only [TimedTrace.step, hm] at hkept ⊢
      obtain ⟨lane, item, rest, hi, _, _, he⟩ := MergeLayer.takeItem_cases hm
      rw [he] at hkept ⊢
      exact h.of_set hkept rfl rfl (h.fired_home i lane hi)
  | fire k =>
    cases hm : t.layer.fire k t.now with
    | none => simpa only [TimedTrace.step, hm] using h
    | some move =>
      simp only [TimedTrace.step, hm] at hkept ⊢
      obtain ⟨x, lane, hk, _, hl, _, _, he⟩ := MergeLayer.fire_cases hm
      rw [he] at hkept ⊢
      refine h.of_set hkept rfl rfl fun y hy => ?_
      rcases List.mem_append.mp hy with hy | hy
      · exact h.fired_home x.lane lane hl y hy
      · rw [List.mem_singleton.mp hy]
        exact (h.kept.timer_home (List.mem_of_getElem? hk)).1.symm
  | attend i =>
    cases hm : t.layer.takeExpiry i with
    | none => simpa only [TimedTrace.step, hm] using h
    | some move =>
      simp only [TimedTrace.step, hm] at hkept ⊢
      obtain ⟨lane, x, rest, hi, hx, _, he⟩ := MergeLayer.takeExpiry_cases hm
      rw [he] at hkept ⊢
      refine h.of_set hkept rfl rfl fun y hy => h.fired_home i lane hi y ?_
      rw [hx]
      exact List.mem_cons_of_mem x hy
  | tick =>
    by_cases hs : t.Settled
    · simp only [TimedTrace.step, if_pos hs] at hkept ⊢
      exact ⟨hkept, h.capacity, h.width, h.fired_home⟩
    · simpa only [TimedTrace.step, if_neg hs] using h

theorem push_share (h : t.Homed settings) {item : MergeItem} (hok : (t.layer.push item).2 = .ok ())
    (key : BatchKey) : (t.layer.push item).1.share key =
      if item.key = key then (t.layer.share key).push item.item else t.layer.share key := by
  obtain ⟨lane, hl, ⟨_, he⟩ | ⟨_, he⟩⟩ := MergeLayer.push_cases h.kept.sound h.kept.running.1
    h.kept.running.2 item
  · simp [he] at hok
  · rw [he]
    by_cases hk : item.key = key
    · subst hk
      rw [MergeLayer.share_set hl rfl hl, MergeLayer.share_of_lane hl]
      simp [MergeLane.share, Share.push, fragmentsFor_append, fragmentsFor_self]
    · rw [if_neg hk]
      refine MergeLayer.share_set_same h.kept.sound hl rfl rfl ?_
      simp [MergeLane.share, fragmentsFor_append, fragmentsFor_ne hk]

theorem push_refused (h : t.Homed settings) {item : MergeItem}
    (hno : (t.layer.push item).2 ≠ .ok ()) (key : BatchKey) :
    (t.layer.push item).1.share key = t.layer.share key := by
  obtain ⟨lane, hl, ⟨_, he⟩ | ⟨_, he⟩⟩ := MergeLayer.push_cases h.kept.sound h.kept.running.1
    h.kept.running.2 item
  · rw [he]
    rfl
  · simp [he] at hno

section Take

variable {i : Nat} {lane : MergeLane} {item : MergeItem} {rest : List MergeItem}
  {m' : MergeLayer} {commit : Option Commit}

theorem take_other (h : t.Homed settings) (hm : t.layer.takeItem i t.now = some (m', commit))
    (hi : t.layer.lanes[i]? = some lane) (hin : lane.input = item :: rest) {key : BatchKey}
    (hne : item.key ≠ key) : m'.share key = t.layer.share key := by
  obtain ⟨lane₁, item₁, rest₁, hi₁, hin₁, _, rfl⟩ := MergeLayer.takeItem_cases hm
  obtain rfl := Option.some.inj (hi₁.symm.trans hi)
  obtain ⟨rfl, rfl⟩ := List.cons.inj (hin₁.symm.trans hin)
  have hd := h.kept.sound.distinct i lane₁ hi
  refine MergeLayer.share_set_same h.kept.sound hi rfl (MergeLayer.filter_timersAfter_ne hne) ?_
  simp [MergeLane.share, MergeWorker.gathered, MergeWorker.onItem_get?_ne hd hne, hin,
    fragmentsFor_cons_ne hne]

theorem filter_timers_closed (h : t.Homed settings) {key : BatchKey}
    (hl : t.layer.lanes[t.layer.laneOf key]? = some lane)
    (hb : lane.worker.batches.get? key = none) : t.layer.timers.filter (·.key = key) = [] := by
  refine List.filter_eq_nil_iff.mpr fun x hx hk => ?_
  obtain rfl := of_decide_eq_true hk
  obtain ⟨_, home, batch, hhome, hbatch, _⟩ := h.kept.timer_home hx
  obtain rfl := Option.some.inj (hl.symm.trans hhome)
  simp [hb] at hbatch

theorem filter_abortTimer (h : t.Homed settings) {key : BatchKey} {batch : Batch}
    (hl : t.layer.lanes[t.layer.laneOf key]? = some lane)
    (hb : lane.worker.batches.get? key = some batch) :
    (MergeLayer.abortTimer t.layer.timers (t.layer.laneOf key) key batch.number).filter
      (·.key = key) = [] := by
  refine List.filter_eq_nil_iff.mpr fun x hx hk => ?_
  obtain rfl := of_decide_eq_true hk
  -- a timer of the destination is that of its open batch, which is the one that has been ended
  obtain ⟨hx, hkept⟩ := List.mem_filter.mp hx
  obtain ⟨hlane, home, own, hhome, hown, hn⟩ := h.kept.timer_home hx
  obtain rfl := Option.some.inj (hl.symm.trans hhome)
  obtain rfl := Option.some.inj (hb.symm.trans hown)
  simp [hlane, hn] at hkept

theorem take_own (h : t.Homed settings) (hm : t.layer.takeItem i t.now = some (m', commit))
    (hi : t.layer.lanes[i]? = some lane) (hin : lane.input = item :: rest) :
    i = t.layer.laneOf item.key ∧ (m'.share item.key, commit) =
      (t.layer.share item.key).take (max settings.maxBatchSize.toNat 1)
        (t.now + settings.maxDelayMs.toNat) item.key := by
  obtain ⟨lane₁, item₁, rest₁, hi₁, hin₁, rfl, rfl⟩ := MergeLayer.takeItem_cases hm
  obtain rfl := Option.some.inj (hi₁.symm.trans hi)
  obtain ⟨rfl, rfl⟩ := List.cons.inj (hin₁.symm.trans hin)
  obtain rfl := h.kept.item_home hi (hin ▸ List.mem_cons_self)
  refine ⟨rfl, ?_⟩
  have hd := h.kept.sound.distinct _ lane₁ hi
  have hsize := (h.kept.lanes _ lane₁ hi).size
  rw [MergeLayer.share_set hi rfl hi, if_pos rfl, MergeLayer.share_of_lane hi, ← hsize, ← h.kept.delay]
  rcases lane₁.worker.onItem_cases item₁ with ⟨batch, hb, hfull, he⟩ | ⟨batch, hb, hroom, he⟩ |
    ⟨hb, hfull, he⟩ | ⟨hb, hroom, he⟩
  · rw [MergeLayer.timersAfter_filled (congrArg Prod.snd he) hb]
    simp [he, MergeLane.share, MergeWorker.gathered, Share.take, gather, hin, fragmentsFor_cons_self,
      hb, hfull, Table.get?_remove hd, ItemOutcome.commit?, h.filter_abortTimer hi hb]
  · rw [MergeLayer.timersAfter_gathered (congrArg Prod.snd he)]
    simp [he, MergeLane.share, MergeWorker.gathered, Share.take, gather, hin, fragmentsFor_cons_self,
      hb, Nat.not_le.mpr hroom, Table.get?_put, ItemOutcome.commit?]
  · rw [MergeLayer.timersAfter_single (congrArg Prod.snd he) hb]
    simp [he, MergeLane.share, MergeWorker.gathered, Share.take, gather, hin, fragmentsFor_cons_self,
      hb, hfull, Table.get?_remove hd, ItemOutcome.commit?, h.filter_timers_closed hi hb]
  · rw [MergeLayer.timersAfter_opened (congrArg Prod.snd he)]
    -- every timer that has fired is of an earlier batch than the new one
    have hstale : (lane₁.expiries.filter (·.key = item₁.key)).map
          (fun x => decide (lane₁.worker.opened + 1 = x.number)) =
        (lane₁.expiries.filter (·.key = item₁.key)).map fun _ => false := by
      refine List.map_congr_left fun x hx => decide_eq_false ?_
      have hle := h.kept.fired_le hi (List.mem_filter.mp hx).1
      omega
    simpa [he, MergeLane.share, MergeWorker.gathered, Share.take, gather, hin, fragmentsFor_cons_self,
      hb, Nat.not_le.mpr hroom, Table.get?_put, ItemOutcome.commit?, h.filter_timers_closed hi hb] using hstale

end Take

section Fire

variable {k : Nat} {x : BatchTimer} {m' : MergeLayer} {commit : Option Commit}

theorem fire_other (h : t.Homed settings) (hm : t.layer.fire k t.now = some (m', commit))
    (hk : t.layer.timers[k]? = some x) {key : BatchKey} (hne : x.key ≠ key) :
    m'.share key = t.layer.share key := by
  obtain ⟨x₁, lane, hk₁, _, hl, _, _, rfl⟩ := MergeLayer.fire_cases hm
  obtain rfl := Option.some.inj (hk₁.symm.trans hk)
  have htimers := filter_eraseIdx_of_neg (p := fun y => decide (y.key = key)) hk (by simpa using hne)
  refine MergeLayer.share_set_same h.kept.sound hl rfl htimers ?_
  simp [MergeLane.share, hne]

theorem filter_eraseIdx_timer (h : t.Homed settings) (hk : t.layer.timers[k]? = some x) :
    (t.layer.timers.eraseIdx k).filter (·.key = x.key) = [] := by
  refine List.filter_eq_nil_iff.mpr fun y hy hkey => ?_
  have hkey := of_decide_eq_true hkey
  have honce := ((perm_eraseIdx_of_some hk).pairwise_iff
    fun {_ _} hxy hl => (hxy hl.symm).symm).mp h.kept.once
  -- both would be of the open batch, and a batch has one timer
  obtain ⟨hlane, lane, batch, hl, hb, hn⟩ := h.kept.timer_home (List.mem_of_getElem? hk)
  obtain ⟨hlane', lane', batch', hl', hb', hn'⟩ :=
    h.kept.timer_home ((List.eraseIdx_sublist _ k).subset hy)
  rw [hkey] at hlane' hl' hb'
  obtain rfl := Option.some.inj (hl.symm.trans hl')
  obtain rfl := Option.some.inj (hb.symm.trans hb')
  exact (List.pairwise_cons.mp honce).1 y hy (hlane.trans hlane'.symm) (hn.symm.trans hn')

theorem filter_timers_sole (h : t.Homed settings) (hk : t.layer.timers[k]? = some x) :
    t.layer.timers.filter (·.key = x.key) = [x] := by
  have hperm := (perm_eraseIdx_of_some hk).filter (·.key = x.key)
  rw [List.filter_cons_of_pos (by simp), h.filter_eraseIdx_timer hk] at hperm
  exact List.perm_singleton.mp hperm

theorem fire_own (h : t.Homed settings) (hm : t.layer.fire k t.now = some (m', commit))
    (hk : t.layer.timers[k]? = some x) : m'.share x.key = (t.layer.share x.key).fire := by
  obtain ⟨x₁, lane, hk₁, _, hl, _, _, rfl⟩ := MergeLayer.fire_cases hm
  obtain rfl := Option.some.inj (hk₁.symm.trans hk)
  obtain ⟨hlane, home, batch, hhome, hb, hn⟩ := h.kept.timer_home (List.mem_of_getElem? hk)
  rw [hlane] at hl
  obtain rfl := Option.some.inj (hl.symm.trans hhome)
  rw [MergeLayer.share_set (hlane ▸ hl) rfl hl, if_pos hlane.symm, MergeLayer.share_of_lane hl]
  simp [MergeLane.share, Share.fire, h.filter_eraseIdx_timer hk, hb, hn, MergeWorker.gathered]

end Fire

section Attend

variable {i : Nat} {lane : MergeLane} {x : BatchTimer} {rest : List BatchTimer}
  {m' : MergeLayer} {commit : Option Commit}

theorem attend_other (h : t.Homed settings) (hm : t.layer.takeExpiry i = some (m', commit))
    (hi : t.layer.lanes[i]? = some lane) (hx : lane.expiries = x :: rest) {key : BatchKey}
    (hne : x.key ≠ key) : m'.share key = t.layer.share key := by
  obtain ⟨lane₁, x₁, rest₁, hi₁, hx₁, _, rfl⟩ := MergeLayer.takeExpiry_cases hm
  obtain rfl := Option.some.inj (hi₁.symm.trans hi)
  obtain ⟨rfl, rfl⟩ := List.cons.inj (hx₁.symm.trans hx)
  have hd := h.kept.sound.distinct i lane₁ hi
  refine MergeLayer.share_set_same h.kept.sound hi rfl rfl ?_
  simp [MergeLane.share, MergeWorker.gathered, MergeWorker.onExpiry_get?_ne hd hne, hx, hne]

theorem attend_own (h : t.Homed settings) (hm : t.layer.takeExpiry i = some (m', commit))
    (hi : t.layer.lanes[i]? = some lane) (hx : lane.expiries = x :: rest) :
    i = t.layer.laneOf x.key ∧
      (m'.share x.key, commit) = (t.layer.share x.key).attend x.key := by
  obtain ⟨lane₁, x₁, rest₁, hi₁, hx₁, rfl, rfl⟩ := MergeLayer.takeExpiry_cases hm
  obtain rfl := Option.some.inj (hi₁.symm.trans hi)
  obtain ⟨rfl, rfl⟩ := List.cons.inj (hx₁.symm.trans hx)
  obtain rfl := h.fired_home i lane₁ hi x₁ (hx ▸ List.mem_cons_self)
  refine ⟨rfl, ?_⟩
  have hd := h.kept.sound.distinct _ lane₁ hi
  rw [MergeLayer.share_set hi rfl hi, if_pos rfl, MergeLayer.share_of_lane hi]
  rcases lane₁.worker.onExpiry_cases x₁.key x₁.number with ⟨batch, hb, hn, he⟩ | ⟨hstale, he⟩
  · simp [he, MergeLane.share, MergeWorker.gathered, Share.attend, hx, hb, hn, Table.get?_remove hd]
  · have hflag : (lane₁.worker.batches.get? x₁.key).any (·.number = x₁.number) = false := by
      cases hb : lane₁.worker.batches.get? x₁.key with
      | none => rfl
      | some batch => simpa using hstale batch hb
    simp [he, MergeLane.share, Share.attend, hx, hflag]

end Attend

end Homed

end TimedTrace

end RoomCast
