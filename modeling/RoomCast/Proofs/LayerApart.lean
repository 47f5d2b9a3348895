import RoomCast.Proofs.MergeShares

namespace RoomCast

def TimedEvent.push? : TimedEvent → Option MergeItem
  | .push item => some item
  | _ => none

namespace TimedTrace

/-- The destination that an event is about if it happens; passing time is about none. -/
def concern? (t : TimedTrace) : TimedEvent → Option BatchKey
  | .push item => some item.key
  | .take i => (t.layer.lanes[i]?).bind fun lane => lane.input.head?.map (·.key)
  | .fire k => if (t.layer.fire k t.now).isSome then (t.layer.timers[k]?).map (·.key) else none
  | .attend i => (t.layer.lanes[i]?).bind fun lane => lane.expiries.head?.map (·.key)
  | .tick => none

/-- What is left of an event where there are no other destinations: time passes as it did, and the timer of
the destination is the first one. -/
def left? (t : TimedTrace) (key : BatchKey) : TimedEvent → Option TimedEvent
  | .tick => if t.Settled then some .tick else none
  | .fire k => if t.concern? (.fire k) = some key then some (.fire 0) else none
  | e => if t.concern? e = some key then some e else none

/-- The same run without the events of other destinations. -/
def only (t : TimedTrace) (key : BatchKey) : List TimedEvent → List TimedEvent
  | [] => []
  | e :: events => (t.left? key e).toList ++ (t.step e).only key events

def commit? (t : TimedTrace) : TimedEvent → Option Commit
  | .take i => (t.layer.takeItem i t.now).bind (·.2)
  | .fire k => (t.layer.fire k t.now).bind (·.2)
  | .attend i => (t.layer.takeExpiry i).bind (·.2)
  | _ => none

def commits (t : TimedTrace) : List TimedEvent → List (Nat × Commit)
  | [] => []
  | e :: events => (t.commit? e).toList.map (t.now, ·) ++ (t.step e).commits events

def pushes (t : TimedTrace) : List TimedEvent → List (Nat × MergeItem)
  | [] => []
  | e :: events => e.push?.toList.map (t.now, ·) ++ (t.step e).pushes events

/-- No item of the destination is refused in a run: whenever one is pushed, the queue of its worker has
room. -/
def Admits (t : TimedTrace) (key : BatchKey) : List TimedEvent → Prop
  | [] => True
  | e :: events =>
    (∀ item ∈ e.push?, item.key = key → (t.layer.push item).2 = .ok ()) ∧ (t.step e).Admits key events

instance decidableAdmits (key : BatchKey) : (t : TimedTrace) → (events : List TimedEvent) →
    Decidable (t.Admits key events)
  | _, [] => inferInstanceAs (Decidable True)
  | t, e :: events =>
    have := decidableAdmits key (t.step e) events
    inferInstanceAs (Decidable (_ ∧ _))

end TimedTrace

structure MergeLayer.Dedicated (m : MergeLayer) (key : BatchKey) : Prop where
  input : ∀ lane ∈ m.lanes, ∀ item ∈ lane.input, item.key = key
  expiries : ∀ lane ∈ m.lanes, ∀ x ∈ lane.expiries, x.key = key
  timers : ∀ x ∈ m.timers, x.key = key

namespace MergeLayer

theorem create_dedicated (settings : MergeSettings) (key : BatchKey) :
    (create settings).Dedicated key := by
  have hnew : ∀ lane ∈ (create settings).lanes, lane = ⟨[], [], .create settings.maxBatchSize.toNat⟩ :=
    fun lane hl => (List.mem_replicate.mp hl).2
  refine ⟨fun lane hl => ?_, fun lane hl => ?_, by simp [create]⟩ <;> simp [hnew lane hl]

theorem Dedicated.set {m m' : MergeLayer} {key : BatchKey} (h : m.Dedicated key) {i : Nat}
    {lane' : MergeLane} (hset : m'.lanes = m.lanes.set i lane')
    (hinput : ∀ item ∈ lane'.input, item.key = key) (hexpiries : ∀ x ∈ lane'.expiries, x.key = key)
    (htimers : ∀ x ∈ m'.timers, x.key = key) : m'.Dedicated key := by
  refine ⟨fun lane hl => ?_, fun lane hl => ?_, htimers⟩ <;> rw [hset] at hl <;>
    rcases List.mem_or_eq_of_mem_set hl with hl | rfl
  · exact h.input lane hl
  · exact hinput
  · exact h.expiries lane hl
  · exact hexpiries

theorem Dedicated.share {m : MergeLayer} {key : BatchKey} (h : m.Dedicated key) {lane : MergeLane}
    (hl : m.lanes[m.laneOf key]? = some lane) : m.share key =
      ⟨lane.input.map (·.item), lane.worker.gathered key, m.timers.map (·.due),
        lane.expiries.map fun x => (lane.worker.batches.get? key).any (·.number = x.number)⟩ := by
  have hmem := List.mem_of_getElem? hl
  have hinput : lane.input.filter (·.key = key) = lane.input :=
    List.filter_eq_self.mpr fun x hx => decide_eq_true (h.input lane hmem x hx)
  have hexpiries : lane.expiries.filter (·.key = key) = lane.expiries :=
    List.filter_eq_self.mpr fun x hx => decide_eq_true (h.expiries lane hmem x hx)
  have htimers : m.timers.filter (·.key = key) = m.timers :=
    List.filter_eq_self.mpr fun x hx => decide_eq_true (h.timers x hx)
  rw [share_of_lane hl, MergeLane.share, fragmentsFor, hinput, hexpiries, htimers]

theorem step?_eq_none {m : MergeLayer} {now : Nat} (hr : m.cancelled = false ∧ m.stopped = false)
    (hquiet : ∀ lane ∈ m.lanes, lane.input = [] ∧ lane.expiries = [])
    (hlate : ∀ x ∈ m.timers, now < x.due) : m.step? now = none := by
  have hfired : m.firedLane? = none := by
    refine List.findIdx?_eq_none_iff.mpr fun lane hl => ?_
    simp [(hquiet lane hl).2]
  have htake : ∀ i, m.takeItem i now = none := by
    intro i
    cases hi : m.lanes[i]? with
    | none => simp [takeItem, hi]
    | some lane => simp [takeItem, hi, (hquiet lane (List.mem_of_getElem? hi)).1]
  have hfire : m.fireFirst now none = none := by
    refine List.findSome?_eq_none_iff.mpr fun k _ => ?_
    cases hk : m.timers[k]? with
    | none => simp [fire, hk]
    | some x => simp [fire, hk, hlate x (List.mem_of_getElem? hk)]
  simp [step?, hr.1, hr.2, hfired, htake, hfire, List.findSome?_eq_none_iff]

end MergeLayer

namespace TimedTrace

theorem commit?_fire (t : TimedTrace) (k : Nat) : t.commit? (.fire k) = none := by
  cases hm : t.layer.fire k t.now with
  | none => simp [commit?, hm]
  | some move =>
    obtain ⟨_, _, _, _, _, _, hnone, _⟩ := MergeLayer.fire_cases hm
    simp [commit?, hm, hnone]

theorem step_dedicated {settings : MergeSettings} {t : TimedTrace} (ht : t.Homed settings)
    {key : BatchKey} (h : t.layer.Dedicated key) {e : TimedEvent}
    (he : ∀ item, e = .push item → item.key = key) : (t.step e).layer.Dedicated key := by
  cases e with
  | push item =>
    obtain ⟨lane, hl, ⟨_, hp⟩ | ⟨_, hp⟩⟩ := MergeLayer.push_cases ht.kept.sound ht.kept.running.1
      ht.kept.running.2 item <;> simp only [step, hp]
    · exact ⟨h.input, h.expiries, h.timers⟩
    · have hmem := List.mem_of_getElem? hl
      refine h.set rfl (fun x hx => ?_) (h.expiries lane hmem) h.timers
      rcases List.mem_append.mp hx with hx | hx
      · exact h.input lane hmem x hx
      · exact List.mem_singleton.mp hx ▸ he item rfl
  | take i =>
    cases hm : t.layer.takeItem i t.now with
    | none => simpa only [step, hm] using h
    | some move =>
      obtain ⟨lane, item, rest, hi, hin, _, hmove⟩ := MergeLayer.takeItem_cases hm
      have hmem := List.mem_of_getElem? hi
      simp only [step, hm, hmove]
      refine h.set rfl (fun x hx => h.input lane hmem x (hin ▸ List.mem_cons_of_mem item hx))
        (h.expiries lane hmem) fun x hx => ?_
      rcases t.layer.timersAfter_cases i t.now lane item with hsub | hnew
      · exact h.timers x (hsub.subset hx)
      · have hx : x ∈ t.layer.timersAfter i t.now lane item := hx
        rw [hnew] at hx
        rcases List.mem_append.mp hx with hx | hx
        · exact h.timers x hx
        · rw [List.mem_singleton.mp hx]
          exact h.input lane hmem item (hin ▸ List.mem_cons_self)
  | fire k =>
    cases hm : t.layer.fire k t.now with
    | none => simpa only [step, hm] using h
    | some move =>
      obtain ⟨x, lane, hk, _, hl, _, _, hmove⟩ := MergeLayer.fire_cases hm
      have hmem := List.mem_of_getElem? hl
      simp only [step, hm, hmove]
      refine h.set rfl (h.input lane hmem) (fun y hy => ?_) fun y hy =>
        h.timers y ((List.eraseIdx_sublist _ k).subset hy)
      rcases List.mem_append.mp hy with hy | hy
      · exact h.expiries lane hmem y hy
      · exact List.mem_singleton.mp hy ▸ h.timers x (List.mem_of_getElem? hk)
  | attend i =>
    cases hm : t.layer.takeExpiry i with
    | none => simpa only [step, hm] using h
    | some move =>
      obtain ⟨lane, x, rest, hi, hx, _, hmove⟩ := MergeLayer.takeExpiry_cases hm
      have hmem := List.mem_of_getElem? hi
      simp only [step, hm, hmove]
      exact h.set rfl (h.input lane hmem)
        (fun y hy => h.expiries lane hmem y (hx ▸ List.mem_cons_of_mem x hy)) h.timers
  | tick =>
    by_cases hs : t.Settled
    · simpa only [step, if_pos hs] using h
    · simpa only [step, if_neg hs] using h

theorem commits_append (t : TimedTrace) (xs ys : List TimedEvent) :
    t.commits (xs ++ ys) = t.commits xs ++ (t.run xs).commits ys := by
  induction xs generalizing t with
  | nil => rfl
  | cons e xs ih =>
    rw [List.cons_append, commits, commits, ih, List.append_assoc]
    rfl

theorem pushes_append (t : TimedTrace) (xs ys : List TimedEvent) :
    t.pushes (xs ++ ys) = t.pushes xs ++ (t.run xs).pushes ys := by
  induction xs generalizing t with
  | nil => rfl
  | cons e xs ih =>
    rw [List.cons_append, pushes, pushes, ih, List.append_assoc]
    rfl

/-- A run beside the run without other destinations: both hold the same for the destination. -/
structure Mirrors (settings : MergeSettings) (key : BatchKey) (t t' : TimedTrace) : Prop where
  full : t.Homed settings
  sole : t'.Homed settings
  dedicated : t'.layer.Dedicated key
  now : t'.now = t.now
  share : t'.layer.share key = t.layer.share key

namespace Mirrors

variable {settings : MergeSettings} {key : BatchKey} {t t' : TimedTrace}

theorem laneOf (h : Mirrors settings key t t') : t'.layer.laneOf key = t.layer.laneOf key :=
  MergeLayer.laneOf_congr (h.sole.width.trans h.full.width.symm) key

theorem pass (h : Mirrors settings key t t') {e : TimedEvent} (hnow : (t.step e).now = t.now)
    (hshare : (t.step e).layer.share key = t.layer.share key) : Mirrors settings key (t.step e) t' :=
  ⟨h.full.step e, h.sole, h.dedicated, h.now.trans hnow.symm, h.share.trans hshare.symm⟩

theorem push_other (h : Mirrors settings key t t') {item : MergeItem} (hne : item.key ≠ key) :
    Mirrors settings key (t.step (.push item)) t' := by
  refine h.pass rfl ?_
  by_cases hok : (t.layer.push item).2 = .ok ()
  · exact (h.full.push_share hok key).trans (if_neg hne)
  · exact h.full.push_refused hok key

theorem push_ok (h : Mirrors settings key t t') {item : MergeItem} (hkey : item.key = key)
    (hok : (t.layer.push item).2 = .ok ()) : (t'.layer.push item).2 = .ok () := by
  subst hkey
  obtain ⟨lane, hl, ⟨_, he⟩ | ⟨hroom, _⟩⟩ := MergeLayer.push_cases h.full.kept.sound
    h.full.kept.running.1 h.full.kept.running.2 item
  · simp [he] at hok
  obtain ⟨lane', hl', ⟨hfull, _⟩ | ⟨_, he'⟩⟩ := MergeLayer.push_cases h.sole.kept.sound
    h.sole.kept.running.1 h.sole.kept.running.2 item
  · -- the full queue would hold no more than the one that had room
    have hle := List.length_filter_le (fun x : MergeItem => decide (x.key = item.key)) lane.input
    have hwaiting := congrArg (fun s : Share => s.waiting.length) h.share
    simp only [h.dedicated.share hl', MergeLayer.share_of_lane hl, MergeLane.share, fragmentsFor,
      List.length_map] at hwaiting
    rw [h.sole.capacity, ← h.full.capacity] at hfull
    omega
  · rw [he']

theorem push_own (h : Mirrors settings key t t') {item : MergeItem} (hkey : item.key = key)
    (hok : (t.layer.push item).2 = .ok ()) :
    Mirrors settings key (t.step (.push item)) (t'.step (.push item)) := by
  refine ⟨h.full.step _, h.sole.step _, step_dedicated h.sole h.dedicated ?_, h.now, ?_⟩
  · rintro _ ⟨⟩
    exact hkey
  · simp only [step, h.sole.push_share (h.push_ok hkey hok) key, h.full.push_share hok key, h.share]

theorem sole_take (h : Mirrors settings key t t') (hw : (t.layer.share key).waiting ≠ []) :
    ∃ m' commit lane item rest, t'.layer.takeItem (t.layer.laneOf key) t'.now = some (m', commit) ∧
      t'.layer.lanes[t.layer.laneOf key]? = some lane ∧ lane.input = item :: rest ∧
      item.key = key := by
  obtain ⟨lane, hl⟩ := h.sole.kept.sound.lane_exists key
  rw [← h.share, h.dedicated.share hl] at hw
  rw [h.laneOf] at hl
  obtain ⟨item, rest, hin⟩ := List.exists_cons_of_ne_nil (List.map_eq_nil_iff.not.mp hw)
  cases hm : t'.layer.takeItem (t.layer.laneOf key) t'.now with
  | none => simp [MergeLayer.takeItem_ready hl hm] at hin
  | some move =>
    exact ⟨_, _, lane, item, rest, rfl, hl, hin,
      h.dedicated.input lane (List.mem_of_getElem? hl) item (hin ▸ List.mem_cons_self)⟩

theorem sole_attend (h : Mirrors settings key t t') (hf : (t.layer.share key).fired ≠ []) :
    ∃ m' commit lane x rest, t'.layer.takeExpiry (t.layer.laneOf key) = some (m', commit) ∧
      t'.layer.lanes[t.layer.laneOf key]? = some lane ∧ lane.expiries = x :: rest ∧
      x.key = key := by
  obtain ⟨lane, hl⟩ := h.sole.kept.sound.lane_exists key
  rw [← h.share, h.dedicated.share hl] at hf
  rw [h.laneOf] at hl
  obtain ⟨x, rest, hx⟩ := List.exists_cons_of_ne_nil (List.map_eq_nil_iff.not.mp hf)
  cases hm : t'.layer.takeExpiry (t.layer.laneOf key) with
  | none => simp [MergeLayer.takeExpiry_ready hl hm] at hx
  | some move =>
    exact ⟨_, _, lane, x, rest, rfl, hl, hx,
      h.dedicated.expiries lane (List.mem_of_getElem? hl) x (hx ▸ List.mem_cons_self)⟩

theorem sole_fire (h : Mirrors settings key t t') {k : Nat} {move : MergeMove} {x : BatchTimer}
    (hm : t.layer.fire k t.now = some move) (hk : t.layer.timers[k]? = some x) (hkey : x.key = key) :
    ∃ m' commit y, t'.layer.fire 0 t'.now = some (m', commit) ∧ t'.layer.timers[0]? = some y ∧
      y.key = key := by
  subst hkey
  obtain ⟨x₁, lane, hk₁, hdue, hl, hroom, _, _⟩ := MergeLayer.fire_cases hm
  obtain rfl := Option.some.inj (hk₁.symm.trans hk)
  rw [(h.full.kept.timer_home (List.mem_of_getElem? hk)).1] at hl
  obtain ⟨lane', hl'⟩ := h.sole.kept.sound.lane_exists x₁.key
  have hshare := h.share
  rw [h.dedicated.share hl', MergeLayer.share_of_lane hl] at hshare
  have hdues := congrArg Share.due hshare
  simp only [MergeLane.share, h.full.filter_timers_sole hk, List.map_cons, List.map_nil] at hdues
  -- the destination has one timer in either run, and the two are due at the same time
  obtain ⟨y, rest, htimers, hy, _⟩ := List.map_eq_cons_iff.mp hdues
  have hmem : y ∈ t'.layer.timers := htimers ▸ List.mem_cons_self
  have hkey := h.dedicated.timers y hmem
  have hlate : ¬t'.now < y.due := by rw [h.now, hy]; omega
  have hroom' : ¬MergeLayer.expiryCapacity ≤ lane'.expiries.length := by
    have hfired := congrArg (fun s : Share => s.fired.length) hshare
    have hle := List.length_filter_le (fun y : BatchTimer => decide (y.key = x₁.key)) lane.expiries
    simp only [MergeLane.share, List.length_map] at hfired
    omega
  have hhome : t'.layer.lanes[y.lane]? = some lane' := by
    rw [(h.sole.kept.timer_home hmem).1, hkey]
    exact hl'
  have hfirst : t'.layer.timers[0]? = some y := by rw [htimers]; rfl
  cases hm' : t'.layer.fire 0 t'.now with
  | none => simp [MergeLayer.fire, hfirst, hlate, hhome, hroom'] at hm'
  | some move => exact ⟨_, _, y, rfl, hfirst, hkey⟩

theorem take_own (h : Mirrors settings key t t') {i : Nat} {m' : MergeLayer} {commit : Option Commit}
    {lane : MergeLane} {item : MergeItem} {rest : List MergeItem}
    (hm : t.layer.takeItem i t.now = some (m', commit)) (hi : t.layer.lanes[i]? = some lane)
    (hin : lane.input = item :: rest) (hkey : item.key = key) :
    Mirrors settings key (t.step (.take i)) (t'.step (.take i)) ∧
      t'.commit? (.take i) = t.commit? (.take i) := by
  subst hkey
  obtain ⟨rfl, hown⟩ := h.full.take_own hm hi hin
  have hw : (t.layer.share item.key).waiting ≠ [] := by
    rw [MergeLayer.share_of_lane hi, MergeLane.share, hin, fragmentsFor_cons_self]
    exact List.cons_ne_nil _ _
  obtain ⟨m'', commit', lane', item', rest', hm', hi', hin', hkey'⟩ := h.sole_take hw
  obtain ⟨_, hown'⟩ := h.sole.take_own hm' hi' hin'
  rw [hkey', h.share, h.now, ← hown] at hown'
  obtain ⟨hshare, hcommit⟩ := Prod.mk.inj hown'
  refine ⟨⟨h.full.step _, h.sole.step _, step_dedicated h.sole h.dedicated (by simp), ?_, ?_⟩, ?_⟩
  · simpa only [step, hm, hm'] using h.now
  · simpa only [step, hm, hm'] using hshare
  · simpa only [commit?, hm, hm', Option.bind_some] using hcommit

theorem fire_own (h : Mirrors settings key t t') {k : Nat} {m' : MergeLayer} {commit : Option Commit}
    {x : BatchTimer} (hm : t.layer.fire k t.now = some (m', commit))
    (hk : t.layer.timers[k]? = some x) (hkey : x.key = key) :
    Mirrors settings key (t.step (.fire k)) (t'.step (.fire 0)) ∧
      t'.commit? (.fire 0) = t.commit? (.fire k) := by
  obtain ⟨m'', commit', y, hm', hk', hkey'⟩ := h.sole_fire hm hk hkey
  have hown := h.full.fire_own hm hk
  have hown' := h.sole.fire_own hm' hk'
  rw [hkey] at hown
  rw [hkey', h.share, ← hown] at hown'
  refine ⟨⟨h.full.step _, h.sole.step _, step_dedicated h.sole h.dedicated (by simp), ?_, ?_⟩,
    (t'.commit?_fire 0).trans (t.commit?_fire k).symm⟩
  · simpa only [step, hm, hm'] using h.now
  · simpa only [step, hm, hm'] using hown'

theorem attend_own (h : Mirrors settings key t t') {i : Nat} {m' : MergeLayer} {commit : Option Commit}
    {lane : MergeLane} {x : BatchTimer} {rest : List BatchTimer}
    (hm : t.layer.takeExpiry i = some (m', commit)) (hi : t.layer.lanes[i]? = some lane)
    (hx : lane.expiries = x :: rest) (hkey : x.key = key) :
    Mirrors settings key (t.step (.attend i)) (t'.step (.attend i)) ∧
      t'.commit? (.attend i) = t.commit? (.attend i) := by
  subst hkey
  obtain ⟨rfl, hown⟩ := h.full.attend_own hm hi hx
  have hf : (t.layer.share x.key).fired ≠ [] := by
    rw [MergeLayer.share_of_lane hi]
    simp [MergeLane.share, hx]
  obtain ⟨m'', commit', lane', x', rest', hm', hi', hx', hkey'⟩ := h.sole_attend hf
  obtain ⟨_, hown'⟩ := h.sole.attend_own hm' hi' hx'
  rw [hkey', h.share, ← hown] at hown'
  obtain ⟨hshare, hcommit⟩ := Prod.mk.inj hown'
  refine ⟨⟨h.full.step _, h.sole.step _, step_dedicated h.sole h.dedicated (by simp), ?_, ?_⟩, ?_⟩
  · simpa only [step, hm, hm'] using h.now
  · simpa only [step, hm, hm'] using hshare
  · simpa only [commit?, hm, hm', Option.bind_some] using hcommit

theorem settled (h : Mirrors settings key t t') (hs : t.Settled) : t'.Settled := by
  obtain ⟨hquiet, hlate⟩ := MergeLayer.step?_none h.full.kept.running h.full.kept.hosted hs
  obtain ⟨lane, hl⟩ := h.full.kept.sound.lane_exists key
  obtain ⟨lane', hl'⟩ := h.sole.kept.sound.lane_exists key
  have hshare := h.share
  obtain ⟨hinput, hexpiries⟩ := hquiet lane (List.mem_of_getElem? hl)
  rw [h.dedicated.share hl', MergeLayer.share_of_lane hl, MergeLane.share, hinput, hexpiries] at hshare
  have hin : lane'.input = [] := List.map_eq_nil_iff.mp (congrArg Share.waiting hshare)
  have hx : lane'.expiries = [] := List.map_eq_nil_iff.mp (congrArg Share.fired hshare)
  refine MergeLayer.step?_eq_none h.sole.kept.running (fun other hother => ?_) fun x hx => ?_
  · -- what another lane held would be of another destination
    obtain ⟨i, hi⟩ := List.mem_iff_getElem?.mp hother
    constructor
    · refine List.eq_nil_iff_forall_not_mem.mpr fun item hitem => ?_
      obtain rfl := h.dedicated.input other hother item hitem
      rw [h.sole.kept.item_home hi hitem, hi] at hl'
      obtain rfl := Option.some.inj hl'
      simp [hin] at hitem
    · refine List.eq_nil_iff_forall_not_mem.mpr fun x hfired => ?_
      obtain rfl := h.dedicated.expiries other hother x hfired
      rw [h.sole.fired_home i other hi x hfired, hi] at hl'
      obtain rfl := Option.some.inj hl'
      simp [hx] at hfired
  · have hdues : t'.layer.timers.map (·.due) =
        (t.layer.timers.filter (·.key = key)).map (·.due) := congrArg Share.due hshare
    obtain ⟨y, hy, heq⟩ := List.mem_map.mp (hdues ▸ List.mem_map.mpr ⟨x, hx, rfl⟩)
    have hlt := hlate y (List.mem_filter.mp hy).1
    rw [h.now]
    omega

structure Matched (settings : MergeSettings) (key : BatchKey) (t t' : TimedTrace) (e : TimedEvent)
    (own : List TimedEvent) : Prop where
  next : Mirrors settings key (t.step e) (t'.run own)
  commits : t'.commits own = ((t.commit? e).toList.map (t.now, ·)).filter (·.2.key = key)
  pushes : t'.pushes own = (e.push?.toList.map (t.now, ·)).filter (·.2.key = key)

section Stamped

variable {α : Type} {keyOf : α → BatchKey} {o : Option α}

theorem filter_stamped_nil (now : Nat) (h : ∀ a, o = some a → keyOf a ≠ key) :
    (o.toList.map (now, ·)).filter (fun p => keyOf p.2 = key) = [] := by
  cases o with
  | none => rfl
  | some a => simp [h a rfl]

theorem filter_stamped_self (now : Nat) (h : ∀ a, o = some a → keyOf a = key) :
    (o.toList.map (now, ·)).filter (fun p => keyOf p.2 = key) = o.toList.map (now, ·) := by
  cases o with
  | none => rfl
  | some a => simp [h a rfl]

end Stamped

theorem matched_none {e : TimedEvent} (hm : Mirrors settings key (t.step e) t')
    (hc : ∀ c, t.commit? e = some c → c.key ≠ key) (hp : ∀ item, e.push? = some item → item.key ≠ key) :
    Matched settings key t t' e [] :=
  ⟨hm, (filter_stamped_nil t.now hc).symm, (filter_stamped_nil t.now hp).symm⟩

theorem matched_some {e e' : TimedEvent} (hnow : t'.now = t.now)
    (hm : Mirrors settings key (t.step e) (t'.step e')) (hsame : t'.commit? e' = t.commit? e)
    (hc : ∀ c, t.commit? e = some c → c.key = key) (hpush : e'.push? = e.push?)
    (hp : ∀ item, e.push? = some item → item.key = key) : Matched settings key t t' e [e'] := by
  refine ⟨hm, ?_, ?_⟩
  · rw [filter_stamped_self t.now hc, TimedTrace.commits, TimedTrace.commits, List.append_nil, hsame, hnow]
  · rw [filter_stamped_self t.now hp, TimedTrace.pushes, TimedTrace.pushes, List.append_nil, hpush, hnow]

/-- A step about one destination is matched by its counterpart there, and by none elsewhere. -/
theorem matched_step (h : Mirrors settings key t t') {e o : TimedEvent} {k : BatchKey}
    (hleft : t.left? key e = if k = key then some o else none) (hnow : (t.step e).now = t.now)
    (hkeyed : ∀ c, t.commit? e = some c → c.key = k) (hpush : e.push? = none) (hpush' : o.push? = none)
    (hother : k ≠ key → (t.step e).layer.share key = t.layer.share key)
    (hown : k = key → Mirrors settings key (t.step e) (t'.step o) ∧ t'.commit? o = t.commit? e) :
    Matched settings key t t' e (t.left? key e).toList := by
  rw [hleft]
  by_cases hk : k = key
  · obtain ⟨hnext, hsame⟩ := hown hk
    rw [if_pos hk]
    exact matched_some h.now hnext hsame (fun c hc => (hkeyed c hc).trans hk) (hpush'.trans hpush.symm)
      (by simp [hpush])
  · rw [if_neg hk]
    exact matched_none (h.pass hnow (hother hk)) (fun c hc hck => hk ((hkeyed c hc).symm.trans hck))
      (by simp [hpush])

theorem matched_wait (h : Mirrors settings key t t') {e : TimedEvent} (hleft : t.left? key e = none)
    (hstep : t.step e = t) (hcommit : t.commit? e = none) (hpush : e.push? = none) :
    Matched settings key t t' e (t.left? key e).toList := by
  rw [hleft]
  exact matched_none (hstep.symm ▸ h) (by simp [hcommit]) (by simp [hpush])

theorem matched_take (h : Mirrors settings key t t') (i : Nat) :
    Matched settings key t t' (.take i) (t.left? key (.take i)).toList := by
  cases hm : t.layer.takeItem i t.now with
  | none =>
    refine h.matched_wait ?_ (by simp only [step, hm]) (by simp [commit?, hm]) rfl
    cases hi : t.layer.lanes[i]? with
    | none => simp [left?, concern?, hi]
    | some lane => simp [left?, concern?, hi, MergeLayer.takeItem_ready hi hm]
  | some move =>
    obtain ⟨m', commit⟩ := move
    obtain ⟨lane, item, rest, hi, hin, hcommit, _⟩ := MergeLayer.takeItem_cases hm
    have hd := h.full.kept.sound.distinct i lane hi
    refine h.matched_step (k := item.key) (o := .take i) (by simp [left?, concern?, hi, hin])
      (by simp only [step, hm]) (fun c hc => ?_) rfl rfl (fun hne => ?_) (h.take_own hm hi hin)
    · rw [commit?, hm, Option.bind_some, hcommit] at hc
      exact MergeWorker.play_key hd (e := .arrive item) hc
    · simpa only [step, hm] using h.full.take_other hm hi hin hne

theorem matched_fire (h : Mirrors settings key t t') (k : Nat) :
    Matched settings key t t' (.fire k) (t.left? key (.fire k)).toList := by
  cases hm : t.layer.fire k t.now with
  | none =>
    exact h.matched_wait (by simp [left?, concern?, hm]) (by simp only [step, hm]) (t.commit?_fire k) rfl
  | some move =>
    obtain ⟨m', commit⟩ := move
    obtain ⟨x, lane, hx, _, _, _, _, _⟩ := MergeLayer.fire_cases hm
    refine h.matched_step (k := x.key) (o := .fire 0) (by simp [left?, concern?, hm, hx])
      (by simp only [step, hm]) (by simp [commit?_fire]) rfl rfl (fun hne => ?_) (h.fire_own hm hx)
    simpa only [step, hm] using h.full.fire_other hm hx hne

theorem matched_attend (h : Mirrors settings key t t') (i : Nat) :
    Matched settings key t t' (.attend i) (t.left? key (.attend i)).toList := by
  cases hm : t.layer.takeExpiry i with
  | none =>
    refine h.matched_wait ?_ (by simp only [step, hm]) (by simp [commit?, hm]) rfl
    cases hi : t.layer.lanes[i]? with
    | none => simp [left?, concern?, hi]
    | some lane => simp [left?, concern?, hi, MergeLayer.takeExpiry_ready hi hm]
  | some move =>
    obtain ⟨m', commit⟩ := move
    obtain ⟨lane, x, rest, hi, hx, hcommit, _⟩ := MergeLayer.takeExpiry_cases hm
    refine h.matched_step (k := x.key) (o := .attend i) (by simp [left?, concern?, hi, hx])
      (by simp only [step, hm]) (fun c hc => ?_) rfl rfl (fun hne => ?_) (h.attend_own hm hi hx)
    · rw [commit?, hm, Option.bind_some, hcommit] at hc
      exact MergeWorker.onExpiry_key hc
    · simpa only [step, hm] using h.full.attend_other hm hi hx hne

theorem matched (h : Mirrors settings key t t') (e : TimedEvent)
    (fits : ∀ item ∈ e.push?, item.key = key → (t.layer.push item).2 = .ok ()) :
    Matched settings key t t' e (t.left? key e).toList := by
  cases e with
  | push item =>
    have hleft : t.left? key (.push item) = if item.key = key then some (.push item) else none := by
      simp [left?, concern?]
    have hitem : ∀ other, (TimedEvent.push item).push? = some other → other = item :=
      fun other ho => (Option.some.inj ho).symm
    rw [hleft]
    by_cases hk : item.key = key
    · rw [if_pos hk]
      exact matched_some h.now (h.push_own hk (fits item rfl hk)) rfl (by simp [commit?]) rfl
        fun other ho => hitem other ho ▸ hk
    · rw [if_neg hk]
      exact matched_none (h.push_other hk) (by simp [commit?]) fun other ho => hitem other ho ▸ hk
  | take i => exact h.matched_take i
  | fire k => exact h.matched_fire k
  | attend i => exact h.matched_attend i
  | tick =>
    by_cases hs : t.Settled
    · have hleft : t.left? key .tick = some .tick := by simp [left?, hs]
      have hs' := h.settled hs
      rw [hleft]
      refine matched_some h.now ⟨h.full.step _, h.sole.step _,
        step_dedicated h.sole h.dedicated (by simp), ?_, ?_⟩ rfl (by simp [commit?]) rfl
        (by simp [TimedEvent.push?])
      · simp only [step, if_pos hs, if_pos hs', h.now]
      · simpa only [step, if_pos hs, if_pos hs'] using h.share
    · have hleft : t.left? key .tick = none := by simp [left?, hs]
      rw [hleft]
      exact matched_none (by simpa only [step, if_neg hs] using h) (by simp [commit?])
        (by simp [TimedEvent.push?])

theorem run (events : List TimedEvent) {t t' : TimedTrace} (h : Mirrors settings key t t')
    (fits : t.Admits key events) :
    Mirrors settings key (t.run events) (t'.run (t.only key events)) ∧
      t'.commits (t.only key events) = (t.commits events).filter (·.2.key = key) ∧
      t'.pushes (t.only key events) = (t.pushes events).filter (·.2.key = key) := by
  induction events generalizing t t' with
  | nil => exact ⟨h, rfl, rfl⟩
  | cons e events ih =>
    have hm := h.matched e fits.1
    obtain ⟨hlast, hcommits, hpushes⟩ := ih hm.next fits.2
    refine ⟨?_, ?_, ?_⟩
    · rw [only, TimedTrace.run, TimedTrace.run, List.foldl_append]
      exact hlast
    · rw [only, commits_append, TimedTrace.commits, List.filter_append, hm.commits, hcommits]
    · rw [only, pushes_append, TimedTrace.pushes, List.filter_append, hm.pushes, hpushes]

end Mirrors

theorem start_mirrors (settings : MergeSettings) (key : BatchKey) :
    Mirrors settings key (start settings) (start settings) :=
  ⟨start_homed settings, start_homed settings, MergeLayer.create_dedicated settings key, rfl, rfl⟩

/-- What is committed for a destination, and when, is the same as without all other destinations, as long
as none of its items is refused. -/
theorem destinations_batch_apart (key : BatchKey) :
    (∀ (bound : Nat) (before : List WorkerEvent) (events : List KeyedEvent),
      let w := ((WorkerRun.start bound).run before).worker
      (w.commits events).filter (·.key = key) = w.commits (events.filter (·.key = key))) ∧
    ∀ (settings : MergeSettings) (events : List TimedEvent),
      let t := start settings
      let alone := t.only key events
      t.Admits key events →
      t.commits alone = (t.commits events).filter (·.2.key = key) ∧
        t.pushes alone = (t.pushes events).filter (·.2.key = key) ∧
        (t.run alone).now = (t.run events).now := by
  constructor
  · intro bound before events w
    have hd := (WorkerRun.run_numbered (WorkerRun.start_numbered bound) before).distinct
    exact MergeWorker.commits_apart key events hd hd rfl rfl
  · intro settings events t alone fits
    obtain ⟨hlast, hcommits, hpushes⟩ := (start_mirrors settings key).run events fits
    exact ⟨hcommits, hpushes, hlast.now⟩

/-- Two rooms share a worker, and the busy one finds the queue full. The other has its full batch and then
that of its timer at the times it would have had them alone. -/
theorem quiet_room_beside_busy_one :
    let quiet : BatchKey := .room "a"
    let busy : BatchKey := .room "b"
    let t := start ⟨1, 2, 3, 2⟩
    let events : List TimedEvent := [.push ⟨busy, ⟨"1"⟩⟩, .push ⟨quiet, ⟨"2"⟩⟩, .take 1, .take 1, .tick,
      .push ⟨busy, ⟨"3"⟩⟩, .push ⟨busy, ⟨"4"⟩⟩, .push ⟨busy, ⟨"5"⟩⟩, .take 1, .take 1,
      .push ⟨quiet, ⟨"6"⟩⟩, .take 1, .push ⟨quiet, ⟨"7"⟩⟩, .take 1, .tick, .tick, .tick, .fire 0, .fire 0,
      .attend 1, .attend 1]
    t.Admits quiet events ∧
      t.commits (t.only quiet events) = (t.commits events).filter (·.2.key = quiet) ∧
      t.commits (t.only quiet events) =
        [(1, ⟨quiet, ⟨[⟨"2"⟩, ⟨"6"⟩]⟩, .size⟩), (4, ⟨quiet, ⟨[⟨"7"⟩]⟩, .timer⟩)] := by
  intro quiet busy t events
  have fits : t.Admits quiet events := by decide +kernel
  obtain ⟨hsame, _, _⟩ := (destinations_batch_apart quiet).2 ⟨1, 2, 3, 2⟩ events fits
  exact ⟨fits, hsame, by decide +kernel⟩

end TimedTrace

end RoomCast
