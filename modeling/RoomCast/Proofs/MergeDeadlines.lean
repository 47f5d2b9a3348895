import Mathlib.Logic.Function.Basic
import RoomCast.Proofs.MergeTimers
import RoomCast.Proofs.ServerSettling

namespace RoomCast

/-- What is known of a batch: when it was opened, when it took each of its items, and what ended it
when. -/
structure BatchRecord where
  key : BatchKey
  opened : Nat
  taken : List Nat
  ending : Option (Trigger × Nat)
deriving DecidableEq

def BatchRecord.join (r : BatchRecord) (now : Nat) (ending : Option (Trigger × Nat)) : BatchRecord :=
  { r with taken := r.taken ++ [now], ending := ending }

def BatchRecord.finish (r : BatchRecord) (ending : Trigger × Nat) : BatchRecord :=
  { r with ending := some ending }

/-- A merge layer with the time, and the batches of each lane by their numbers. -/
structure TimedTrace where
  layer : MergeLayer
  now : Nat
  book : Nat → Nat → Option BatchRecord

/-- What can happen to a merge layer that has not been stopped, the time that passes included. -/
inductive TimedEvent where
  | push (item : MergeItem)
  | take (lane : Nat)
  | fire (timer : Nat)
  | attend (lane : Nat)
  | tick

def TimedEvent.isMove : TimedEvent → Bool
  | .take _ | .fire _ | .attend _ => true
  | .push _ | .tick => false

namespace TimedTrace

def start (settings : MergeSettings) : TimedTrace := ⟨.create settings, 0, fun _ _ => none⟩

def Settled (t : TimedTrace) : Prop := t.layer.step? t.now = none

instance (t : TimedTrace) : Decidable t.Settled := decidable_of_iff _ Option.isNone_iff_eq_none

def write (t : TimedTrace) (lane number : Nat) (r : BatchRecord) : Nat → Nat → Option BatchRecord :=
  Function.update t.book lane (Function.update (t.book lane) number (some r))

def noteItem (t : TimedTrace) (i : Nat) : Nat → Nat → Option BatchRecord :=
  match t.layer.lanes[i]? with
  | none => t.book
  | some lane =>
    match lane.input with
    | [] => t.book
    | item :: _ =>
      let found := lane.worker.batches.get? item.key
      let number := (found.map (·.number)).getD (lane.worker.opened + 1)
      let r := (t.book i number).getD ⟨item.key, t.now, [], none⟩
      let commit := (lane.worker.onItem item).2.commit?
      t.write i number (r.join t.now (commit.map fun commit => (commit.trigger, t.now)))

def noteExpiry (t : TimedTrace) (i : Nat) : Nat → Nat → Option BatchRecord :=
  match t.layer.lanes[i]? with
  | none => t.book
  | some lane =>
    match lane.expiries with
    | [] => t.book
    | x :: _ =>
      match (lane.worker.onExpiry x.key x.number).2 with
      | none => t.book
      | some commit =>
        let r := (t.book i x.number).getD ⟨x.key, t.now, [], none⟩
        t.write i x.number (r.finish (commit.trigger, t.now))

/-- An event; a step that has to wait is none, and so is the time while another step is left. -/
def step (t : TimedTrace) : TimedEvent → TimedTrace
  | .push item => { t with layer := (t.layer.push item).1 }
  | .take i =>
    match t.layer.takeItem i t.now with
    | none => t
    | some (layer, _) => { t with layer := layer, book := t.noteItem i }
  | .fire k =>
    match t.layer.fire k t.now with
    | none => t
    | some (layer, _) => { t with layer := layer }
  | .attend i =>
    match t.layer.takeExpiry i with
    | none => t
    | some (layer, _) => { t with layer := layer, book := t.noteExpiry i }
  | .tick => if t.Settled then { t with now := t.now + 1 } else t

def run (t : TimedTrace) (events : List TimedEvent) : TimedTrace := events.foldl step t

end TimedTrace

namespace BatchRecord

/-- A batch holds to its bound and to its deadline: it is ended by its last item, no later than the
deadline, or by its timer at the deadline. -/
structure Timely (bound delay now : Nat) (r : BatchRecord) : Prop where
  first : r.taken.head? = some r.opened
  times : ∀ time ∈ r.taken, r.opened ≤ time ∧ time ≤ now
  ending : match r.ending with
    | none => r.taken.length < bound ∧ now ≤ r.opened + delay
    | some (.size, time) =>
      r.taken.length = bound ∧ r.taken.getLast? = some time ∧ time ≤ r.opened + delay
    | some (.timer, time) => r.taken.length < bound ∧ time = r.opened + delay

structure Gathers (bound delay now : Nat) (r : BatchRecord) : Prop where
  first : (r.taken ++ [now]).head? = some r.opened
  times : ∀ time ∈ r.taken, r.opened ≤ time ∧ time ≤ now
  opened : r.opened ≤ now
  room : r.taken.length < bound
  due : now ≤ r.opened + delay

variable {bound delay now : Nat} {r : BatchRecord}

theorem Timely.gathers (h : r.Timely bound delay now) (ho : r.ending = none) :
    r.Gathers bound delay now := by
  have he := h.ending
  rw [ho] at he
  have hmem := List.mem_of_mem_head? (Option.mem_def.mpr h.first)
  exact ⟨by rw [List.head?_append, h.first]; rfl, h.times, (h.times _ hmem).2, he.1, he.2⟩

theorem gathers_new (key : BatchKey) (hb : 0 < bound) :
    Gathers bound delay now ⟨key, now, [], none⟩ :=
  ⟨rfl, by simp, Nat.le_refl _, hb, Nat.le_add_right _ _⟩

theorem Gathers.times_join (h : r.Gathers bound delay now) (ending : Option (Trigger × Nat)) :
    ∀ time ∈ (r.join now ending).taken, r.opened ≤ time ∧ time ≤ now := by
  intro time ht
  rcases List.mem_append.mp ht with ht | ht
  · exact h.times time ht
  · rw [List.mem_singleton.mp ht]
    exact ⟨h.opened, Nat.le_refl _⟩

theorem Gathers.join (h : r.Gathers bound delay now) (hroom : r.taken.length + 1 < bound) :
    (r.join now none).Timely bound delay now :=
  ⟨h.first, h.times_join none, by simpa [BatchRecord.join] using hroom, h.due⟩

theorem Gathers.full (h : r.Gathers bound delay now) (hfull : r.taken.length + 1 = bound) :
    (r.join now (some (.size, now))).Timely bound delay now :=
  ⟨h.first, h.times_join _, by simpa [BatchRecord.join] using hfull, by simp [BatchRecord.join], h.due⟩

theorem Timely.expire (h : r.Timely bound delay now) (ho : r.ending = none)
    (hd : now = r.opened + delay) : (r.finish (.timer, now)).Timely bound delay now :=
  ⟨h.first, h.times, (h.gathers ho).room, hd⟩

theorem Timely.tick (h : r.Timely bound delay now) (ho : r.ending = none → now < r.opened + delay) :
    r.Timely bound delay (now + 1) := by
  refine ⟨h.first, fun time ht => ?_, ?_⟩
  · have htime := h.times time ht
    omega
  · have he := h.ending
    cases hr : r.ending with
    | none =>
      have hlt := ho hr
      rw [hr] at he
      exact ⟨he.1, hlt⟩
    | some ending =>
      obtain ⟨trigger, time⟩ := ending
      rw [hr] at he
      cases trigger <;> exact he

/-- No item waits in a batch for longer than the delay. -/
theorem Timely.latency (h : r.Timely bound delay now) {time : Nat} (ht : time ∈ r.taken) :
    match r.ending with
    | none => now ≤ time + delay
    | some (_, ended) => ended ≤ time + delay := by
  have he := h.ending
  have hopened := (h.times time ht).1
  cases hr : r.ending with
  | none =>
    rw [hr] at he
    have hdue : now ≤ r.opened + delay := he.2
    simp only
    omega
  | some ending =>
    obtain ⟨trigger, ended⟩ := ending
    rw [hr] at he
    cases trigger with
    | size =>
      have hdue : ended ≤ r.opened + delay := he.2.2
      simp only
      omega
    | timer =>
      have hdue : ended = r.opened + delay := he.2
      simp only
      omega

end BatchRecord

namespace MergeLayer

theorem timersAfter_filled {m : MergeLayer} {i now : Nat} {lane : MergeLane} {item : MergeItem}
    {commit : Commit} {batch : Batch} (h : (lane.worker.onItem item).2 = .committed commit)
    (hb : lane.worker.batches.get? item.key = some batch) :
    m.timersAfter i now lane item = abortTimer m.timers i item.key batch.number := by
  unfold timersAfter
  rw [h, hb]

theorem timersAfter_single {m : MergeLayer} {i now : Nat} {lane : MergeLane} {item : MergeItem}
    {commit : Commit} (h : (lane.worker.onItem item).2 = .committed commit)
    (hb : lane.worker.batches.get? item.key = none) : m.timersAfter i now lane item = m.timers := by
  unfold timersAfter
  rw [h, hb]

theorem timersAfter_cases (m : MergeLayer) (i now : Nat) (lane : MergeLane) (item : MergeItem) :
    (m.timersAfter i now lane item).Sublist m.timers ∨
      m.timersAfter i now lane item =
        m.timers ++ [⟨i, item.key, lane.worker.opened + 1, now + m.delay⟩] := by
  rcases lane.worker.onItem_cases item with ⟨batch, hb, _, he⟩ | ⟨_, _, _, he⟩ | ⟨hb, _, he⟩ |
    ⟨_, _, he⟩
  · rw [timersAfter_filled (congrArg Prod.snd he) hb]
    exact Or.inl List.filter_sublist
  · rw [timersAfter_gathered (congrArg Prod.snd he)]
    exact Or.inl (.refl _)
  · rw [timersAfter_single (congrArg Prod.snd he) hb]
    exact Or.inl (.refl _)
  · exact Or.inr (timersAfter_opened (congrArg Prod.snd he))

end MergeLayer

/-- The book of a lane agrees with its open batches, with the timers of these that run, and with those
that have fired. -/
structure LaneBook (bound delay now i : Nat) (lane : MergeLane) (timers : List BatchTimer)
    (book : Nat → Option BatchRecord) : Prop where
  size : lane.worker.bound = bound
  distinct : lane.worker.batches.Distinct
  numbers : ∀ n r, book n = some r → n ≤ lane.worker.opened
  opened : ∀ (key : BatchKey) (batch : Batch), lane.worker.batches.get? key = some batch →
    ∃ r, book batch.number = some r ∧ r.key = key ∧ r.ending = none ∧
      r.taken.length = batch.items.length
  ended : ∀ n r, book n = some r → r.ending = none →
    ∃ batch, lane.worker.batches.get? r.key = some batch ∧ batch.number = n
  timely : ∀ n r, book n = some r → r.Timely bound delay now
  running : ∀ x ∈ timers, x.lane = i →
    ∃ r, book x.number = some r ∧ r.key = x.key ∧ r.ending = none ∧ x.due = r.opened + delay
  fired : ∀ x ∈ lane.expiries, x.lane = i ∧
    ∃ r, book x.number = some r ∧ r.key = x.key ∧ now = r.opened + delay
  apart : ∀ x ∈ lane.expiries, ∀ y ∈ timers, y.lane = i → y.number ≠ x.number

structure Joined (bound delay now : Nat) (lane : MergeLane) (book : Nat → Option BatchRecord)
    (key : BatchKey) (number : Nat) (r : BatchRecord) : Prop where
  gathers : r.Gathers bound delay now
  destination : r.key = key
  known : ∀ old, book number = some old → old = r
  sole : ∀ (other : BatchKey) (batch : Batch), lane.worker.batches.get? other = some batch →
    batch.number = number → other = key
  own : ∀ n old, book n = some old → old.ending = none → old.key = key → n = number

namespace LaneBook

variable {bound delay now i : Nat} {lane : MergeLane} {timers : List BatchTimer}
  {book : Nat → Option BatchRecord}

theorem number_unique (h : LaneBook bound delay now i lane timers book) {key other : BatchKey}
    {batch batch' : Batch} (hb : lane.worker.batches.get? key = some batch)
    (hb' : lane.worker.batches.get? other = some batch') (hn : batch'.number = batch.number) :
    other = key := by
  obtain ⟨r, hr, hk, _⟩ := h.opened key batch hb
  obtain ⟨r', hr', hk', _⟩ := h.opened other batch' hb'
  rw [hn] at hr'
  obtain rfl : r = r' := Option.some.inj (hr.symm.trans hr')
  exact hk'.symm.trans hk

theorem number_ne_next (h : LaneBook bound delay now i lane timers book) {x : BatchTimer}
    (hx : x ∈ timers) (hxi : x.lane = i) : x.number ≠ lane.worker.opened + 1 := by
  obtain ⟨r, hr, _⟩ := h.running x hx hxi
  have hle := h.numbers _ r hr
  omega

theorem joined_open (h : LaneBook bound delay now i lane timers book) {key : BatchKey} {batch : Batch}
    (hb : lane.worker.batches.get? key = some batch) :
    ∃ r, book batch.number = some r ∧ r.ending = none ∧ r.taken.length = batch.items.length ∧
      Joined bound delay now lane book key batch.number r := by
  obtain ⟨r, hr, hk, ho, hlen⟩ := h.opened key batch hb
  refine ⟨r, hr, ho, hlen, (h.timely _ r hr).gathers ho, hk, ?_, ?_, ?_⟩
  · exact fun old hold => Option.some.inj (hold.symm.trans hr)
  · exact fun other batch' hb' hn => h.number_unique hb hb' hn
  · intro n old hold hopen hkey
    obtain ⟨batch', hb', hn⟩ := h.ended n old hold hopen
    rw [hkey, hb] at hb'
    rw [← hn, Option.some.inj hb']

theorem joined_new (h : LaneBook bound delay now i lane timers book) {key : BatchKey}
    (hpos : 0 < bound) (hb : lane.worker.batches.get? key = none) :
    book (lane.worker.opened + 1) = none ∧
      Joined bound delay now lane book key (lane.worker.opened + 1) ⟨key, now, [], none⟩ := by
  have hfresh : book (lane.worker.opened + 1) = none := by
    refine Option.eq_none_iff_forall_not_mem.mpr fun r hr => ?_
    have hle := h.numbers _ r hr
    omega
  refine ⟨hfresh, BatchRecord.gathers_new key hpos, rfl, ?_, ?_, ?_⟩
  · intro old hold
    simp [hfresh] at hold
  · intro other batch hb' hn
    obtain ⟨r, hr, _⟩ := h.opened other batch hb'
    have hle := h.numbers _ r hr
    omega
  · intro n old hold hopen hkey
    obtain ⟨batch, hb', _⟩ := h.ended n old hold hopen
    rw [hkey, hb] at hb'
    simp at hb'

theorem update_cases {n number : Nat} {old r : BatchRecord}
    (h : Function.update book number (some r) n = some old) :
    (n = number ∧ old = r) ∨ (n ≠ number ∧ book n = some old) := by
  by_cases hn : n = number
  · rw [hn, Function.update_self] at h
    exact Or.inl ⟨hn, (Option.some.inj h).symm⟩
  · rw [Function.update_of_ne hn] at h
    exact Or.inr ⟨hn, h⟩

section Update

variable {key : BatchKey} {number : Nat} {r r' : BatchRecord}

theorem update_numbers (h : LaneBook bound delay now i lane timers book) {opened : Nat}
    (hnumber : number ≤ opened) (hopened : lane.worker.opened ≤ opened) (n : Nat) (old : BatchRecord)
    (hold : Function.update book number (some r') n = some old) : n ≤ opened := by
  rcases update_cases hold with ⟨rfl, _⟩ | ⟨_, hold⟩
  · exact hnumber
  · exact Nat.le_trans (h.numbers n old hold) hopened

theorem update_timely (h : LaneBook bound delay now i lane timers book) (hr' : r'.Timely bound delay now)
    (n : Nat) (old : BatchRecord) (hold : Function.update book number (some r') n = some old) :
    old.Timely bound delay now := by
  rcases update_cases hold with ⟨_, rfl⟩ | ⟨_, hold⟩
  · exact hr'
  · exact h.timely n old hold

theorem update_fired (h : LaneBook bound delay now i lane timers book)
    (hj : Joined bound delay now lane book key number r) (r' : BatchRecord) (hkey : r'.key = r.key)
    (hopened : r'.opened = r.opened) {x : BatchTimer} (hx : x ∈ lane.expiries) :
    x.lane = i ∧ ∃ new, Function.update book number (some r') x.number = some new ∧
      new.key = x.key ∧ now = new.opened + delay := by
  obtain ⟨hxi, old, hold, hxkey, hdue⟩ := h.fired x hx
  refine ⟨hxi, ?_⟩
  by_cases hn : x.number = number
  · obtain rfl := hj.known old (hn ▸ hold)
    exact ⟨r', by rw [hn, Function.update_self], hkey.trans hxkey, by rw [hopened]; exact hdue⟩
  · exact ⟨old, by rwa [Function.update_of_ne hn], hxkey, hdue⟩

theorem update_other (h : LaneBook bound delay now i lane timers book)
    (hj : Joined bound delay now lane book key number r) {other : BatchKey} {batch : Batch}
    (hk : key ≠ other) (hb : lane.worker.batches.get? other = some batch) :
    ∃ old, Function.update book number (some r') batch.number = some old ∧ old.key = other ∧
      old.ending = none ∧ old.taken.length = batch.items.length := by
  obtain ⟨old, hold, hkey, ho, hlen⟩ := h.opened other batch hb
  have hne : batch.number ≠ number := fun hn => hk (hj.sole other batch hb hn).symm
  exact ⟨old, by rwa [Function.update_of_ne hne], hkey, ho, hlen⟩

end Update

theorem gather (h : LaneBook bound delay now i lane timers book) {key : BatchKey} {number : Nat}
    {r : BatchRecord} (hj : Joined bound delay now lane book key number r)
    (hroom : r.taken.length + 1 < bound) (items : List Fragment)
    (hitems : items.length = r.taken.length + 1) {opened : Nat} (hnumber : number ≤ opened)
    (hopened : lane.worker.opened ≤ opened) (rest : List MergeItem) (timers' : List BatchTimer)
    (htimers : ∀ x ∈ timers', x.lane = i → x ∈ timers ∨
      (book number = none ∧ x.key = key ∧ x.number = number ∧ x.due = r.opened + delay)) :
    LaneBook bound delay now i
      { lane with
        input := rest
        worker := { lane.worker with
          opened := opened
          batches := lane.worker.batches.put key ⟨number, items⟩ } }
      timers' (Function.update book number (some (r.join now none))) where
  size := h.size
  distinct := h.distinct.put _ _
  numbers := h.update_numbers hnumber hopened
  opened other batch hb := by
    simp only [Table.get?_put] at hb
    by_cases hk : key = other
    · rw [if_pos hk, Option.some.injEq] at hb
      subst hb hk
      exact ⟨_, Function.update_self .., hj.destination, rfl, by simpa [BatchRecord.join] using hitems.symm⟩
    · rw [if_neg hk] at hb
      exact h.update_other hj hk hb
  ended n old hold ho := by
    simp only [Table.get?_put]
    rcases update_cases hold with ⟨rfl, rfl⟩ | ⟨hne, hold⟩
    · exact ⟨_, if_pos hj.destination.symm, rfl⟩
    · have hk : key ≠ old.key := fun hk => hne (hj.own n old hold ho hk.symm)
      rw [if_neg hk]
      exact h.ended n old hold ho
  timely := h.update_timely (hj.gathers.join hroom)
  running x hx hxi := by
    rcases htimers x hx hxi with hx | ⟨_, hkey, hn, hdue⟩
    · obtain ⟨old, hold, hkey, ho, hdue⟩ := h.running x hx hxi
      by_cases hn : x.number = number
      · obtain rfl := hj.known old (hn ▸ hold)
        exact ⟨old.join now none, by rw [hn, Function.update_self], hkey, rfl, hdue⟩
      · exact ⟨old, by rwa [Function.update_of_ne hn], hkey, ho, hdue⟩
    · exact ⟨r.join now none, by rw [hn, Function.update_self], hj.destination.trans hkey.symm, rfl,
        hdue⟩
  fired _ hx := h.update_fired hj (r.join now none) rfl rfl hx
  apart x hx y hy hyi := by
    rcases htimers y hy hyi with hy | ⟨hnew, _, hn, _⟩
    · exact h.apart x hx y hy hyi
    · -- a timer that has fired is of a batch that is known
      obtain ⟨_, old, hold, _⟩ := h.fired x hx
      intro heq
      rw [← heq, hn, hnew] at hold
      simp at hold

theorem close (h : LaneBook bound delay now i lane timers book) {key : BatchKey} {number : Nat}
    {r r' : BatchRecord} (hj : Joined bound delay now lane book key number r)
    (hr' : r'.Timely bound delay now) (hsame : r'.key = r.key ∧ r'.opened = r.opened)
    (hended : r'.ending ≠ none) {opened : Nat} (hnumber : number ≤ opened)
    (hopened : lane.worker.opened ≤ opened) (rest : List MergeItem) {expiries : List BatchTimer}
    (hexpiries : ∀ x ∈ expiries, x ∈ lane.expiries) {timers' : List BatchTimer}
    (htimers : ∀ x ∈ timers', x.lane = i → x ∈ timers ∧ x.number ≠ number) :
    LaneBook bound delay now i
      ⟨rest, expiries, { lane.worker with
        opened := opened
        batches := lane.worker.batches.remove key }⟩
      timers' (Function.update book number (some r')) where
  size := h.size
  distinct := h.distinct.remove _
  numbers := h.update_numbers hnumber hopened
  opened other batch hb := by
    rw [Table.get?_remove h.distinct] at hb
    by_cases hk : key = other
    · simp [hk] at hb
    · rw [if_neg hk] at hb
      exact h.update_other hj hk hb
  ended n old hold ho := by
    rcases update_cases hold with ⟨_, rfl⟩ | ⟨hne, hold⟩
    · exact absurd ho hended
    · have hk : key ≠ old.key := fun hk => hne (hj.own n old hold ho hk.symm)
      rw [Table.get?_remove h.distinct, if_neg hk]
      exact h.ended n old hold ho
  timely := h.update_timely hr'
  running x hx hxi := by
    obtain ⟨hx, hne⟩ := htimers x hx hxi
    obtain ⟨old, hold, hrest⟩ := h.running x hx hxi
    exact ⟨old, by rwa [Function.update_of_ne hne], hrest⟩
  fired x hx := h.update_fired hj r' hsame.1 hsame.2 (hexpiries x hx)
  apart x hx y hy hyi := h.apart x (hexpiries x hx) y (htimers y hy hyi).1 hyi

theorem aside (h : LaneBook bound delay now i lane timers book) (rest : List MergeItem)
    {timers' : List BatchTimer} (htimers : ∀ x ∈ timers', x.lane = i → x ∈ timers) :
    LaneBook bound delay now i { lane with input := rest } timers' book :=
  ⟨h.size, h.distinct, h.numbers, h.opened, h.ended, h.timely,
    fun x hx hxi => h.running x (htimers x hx hxi) hxi, h.fired,
    fun x hx y hy hyi => h.apart x hx y (htimers y hy hyi) hyi⟩

theorem fire (h : LaneBook bound delay now i lane timers book) {x : BatchTimer} (hx : x ∈ timers)
    (hxi : x.lane = i) (hdue : x.due ≤ now) {timers' : List BatchTimer}
    (htimers : ∀ y ∈ timers', y.lane = i → y ∈ timers ∧ y.number ≠ x.number) :
    LaneBook bound delay now i { lane with expiries := lane.expiries ++ [x] } timers' book := by
  refine ⟨h.size, h.distinct, h.numbers, h.opened, h.ended, h.timely,
    fun y hy hyi => h.running y (htimers y hy hyi).1 hyi, ?_, ?_⟩
  · intro y hy
    rcases List.mem_append.mp hy with hy | hy
    · exact h.fired y hy
    · rw [List.mem_singleton.mp hy]
      obtain ⟨r, hr, hkey, ho, hd⟩ := h.running x hx hxi
      have hlate := ((h.timely _ r hr).gathers ho).due
      exact ⟨hxi, r, hr, hkey, by omega⟩
  · intro y hy z hz hzi
    obtain ⟨hz, hne⟩ := htimers z hz hzi
    rcases List.mem_append.mp hy with hy | hy
    · exact h.apart y hy z hz hzi
    · rwa [List.mem_singleton.mp hy]

theorem drop (h : LaneBook bound delay now i lane timers book) {expiries : List BatchTimer}
    (hexpiries : ∀ x ∈ expiries, x ∈ lane.expiries) :
    LaneBook bound delay now i { lane with expiries := expiries } timers book :=
  ⟨h.size, h.distinct, h.numbers, h.opened, h.ended, h.timely, h.running,
    fun x hx => h.fired x (hexpiries x hx), fun x hx => h.apart x (hexpiries x hx)⟩

theorem take {m : MergeLayer} (h : LaneBook bound delay now i lane m.timers book) (hpos : 0 < bound)
    (hdelay : m.delay = delay) (item : MergeItem) (rest : List MergeItem) :
    let number := ((lane.worker.batches.get? item.key).map (·.number)).getD (lane.worker.opened + 1)
    let r := (book number).getD ⟨item.key, now, [], none⟩
    let commit := (lane.worker.onItem item).2.commit?
    LaneBook bound delay now i
      { lane with input := rest, worker := (lane.worker.onItem item).1 }
      (m.timersAfter i now lane item)
      (Function.update book number
        (some (r.join now (commit.map fun commit => (commit.trigger, now))))) := by
  have hsize := h.size
  rcases lane.worker.onItem_cases item with ⟨batch, hb, hfull, he⟩ | ⟨batch, hb, hroom, he⟩ |
    ⟨hb, hfull, he⟩ | ⟨hb, hroom, he⟩
  · obtain ⟨r, hr, _, hlen, hj⟩ := h.joined_open hb
    have hroom := hj.gathers.room
    rw [MergeLayer.timersAfter_filled (congrArg Prod.snd he) hb]
    simp only [he, hb, hr, Option.map_some, Option.getD_some, ItemOutcome.commit?]
    refine h.close hj (hj.gathers.full (by omega)) ⟨rfl, rfl⟩ (by simp [BatchRecord.join])
      (h.numbers _ r hr) (Nat.le_refl _) rest (fun x hx => hx) fun x hx hxi => ?_
    -- a timer with that number is for the batch, and so it has been ended
    obtain ⟨hx, hkept⟩ := List.mem_filter.mp hx
    refine ⟨hx, fun hn => ?_⟩
    obtain ⟨r', hr', hkey, _⟩ := h.running x hx hxi
    obtain rfl := hj.known r' (hn ▸ hr')
    simp [hxi, hn, ← hkey, hj.destination] at hkept
  · obtain ⟨r, hr, _, hlen, hj⟩ := h.joined_open hb
    rw [MergeLayer.timersAfter_gathered (congrArg Prod.snd he)]
    simp only [he, hb, hr, Option.map_some, Option.map_none, Option.getD_some, ItemOutcome.commit?]
    exact h.gather hj (by omega) _ (by simp [hlen]) (h.numbers _ r hr) (Nat.le_refl _) rest _
      fun x hx _ => Or.inl hx
  · obtain ⟨hfresh, hj⟩ := h.joined_new hpos hb
    rw [MergeLayer.timersAfter_single (congrArg Prod.snd he) hb]
    simp only [he, hb, hfresh, Option.map_none, Option.map_some, Option.getD_none,
      ItemOutcome.commit?]
    exact h.close hj (hj.gathers.full (by simp only [List.length_nil]; omega)) ⟨rfl, rfl⟩
      (by simp [BatchRecord.join]) (Nat.le_refl _) (Nat.le_succ _) rest (fun x hx => hx)
      fun x hx hxi => ⟨hx, h.number_ne_next hx hxi⟩
  · obtain ⟨hfresh, hj⟩ := h.joined_new hpos hb
    rw [MergeLayer.timersAfter_opened (congrArg Prod.snd he)]
    simp only [he, hb, hfresh, Option.map_none, Option.getD_none, ItemOutcome.commit?]
    refine h.gather hj (by simp only [List.length_nil]; omega) _ rfl (Nat.le_refl _) (Nat.le_succ _)
      rest _ fun x hx _ => (List.mem_append.mp hx).imp id fun hx => ?_
    rw [List.mem_singleton.mp hx]
    exact ⟨hfresh, rfl, rfl, by rw [hdelay]⟩

theorem tick (h : LaneBook bound delay now i lane timers book) (hquiet : lane.expiries = [])
    (htimed : ∀ (key : BatchKey) (batch : Batch), lane.worker.batches.get? key = some batch →
      ∃ x ∈ timers, x.IsFor i key batch.number ∧ now < x.due) :
    LaneBook bound delay (now + 1) i lane timers book := by
  refine ⟨h.size, h.distinct, h.numbers, h.opened, h.ended, ?_, h.running, ?_, ?_⟩
  · intro n r hr
    refine (h.timely n r hr).tick fun ho => ?_
    obtain ⟨batch, hb, hn⟩ := h.ended n r hr ho
    obtain ⟨x, hx, hfor, hlate⟩ := htimed _ batch hb
    obtain ⟨r', hr', _, _, hdue⟩ := h.running x hx hfor.1
    rw [hfor.2.2, hn, hr] at hr'
    cases Option.some.inj hr'
    omega
  · simp [hquiet]
  · simp [hquiet]

end LaneBook

namespace MergeLayer

theorem takeItem_ready {m : MergeLayer} {i now : Nat} {lane : MergeLane}
    (hi : m.lanes[i]? = some lane) (h : m.takeItem i now = none) : lane.input = [] := by
  cases hin : lane.input with
  | nil => rfl
  | cons item rest =>
    simp only [takeItem, hi, hin] at h
    split at h <;> simp at h

theorem takeExpiry_ready {m : MergeLayer} {i : Nat} {lane : MergeLane}
    (hi : m.lanes[i]? = some lane) (h : m.takeExpiry i = none) : lane.expiries = [] := by
  cases hx : lane.expiries with
  | nil => rfl
  | cons x rest => simp [takeExpiry, hi, hx] at h

theorem fire_ready {m : MergeLayer} {k now : Nat} {x : BatchTimer} {lane : MergeLane}
    (hk : m.timers[k]? = some x) (hl : m.lanes[x.lane]? = some lane) (hx : lane.expiries = [])
    (h : m.fire k now = none) : now < x.due := by
  by_contra hdue
  simp [fire, hk, hl, hx, hdue, expiryCapacity] at h

/-- A layer with nothing left to do has no item and no fired timer, and no timer that is due. -/
theorem step?_none {m : MergeLayer} {now : Nat} (hr : m.cancelled = false ∧ m.stopped = false)
    (hhost : ∀ x ∈ m.timers, x.lane < m.lanes.length) (h : m.step? now = none) :
    (∀ lane ∈ m.lanes, lane.input = [] ∧ lane.expiries = []) ∧ ∀ x ∈ m.timers, now < x.due := by
  simp only [step?, hr.1, hr.2, Bool.false_eq_true, ↓reduceIte] at h
  split at h
  next i hfired =>
    -- a lane for which a timer waits can attend to it
    obtain ⟨hb, hne, _⟩ := List.findIdx?_eq_some_iff_getElem.mp hfired
    have hempty := takeExpiry_ready (List.getElem?_eq_getElem hb)
      ((Option.orElse_eq_none _ _).mp h).2
    simp [hempty] at hne
  next hquiet =>
    have hexpiries : ∀ lane ∈ m.lanes, lane.expiries = [] := fun lane hl => by
      simpa using List.findIdx?_eq_none_iff.mp hquiet lane hl
    obtain ⟨htake, hfire⟩ := (Option.orElse_eq_none _ _).mp h
    refine ⟨fun lane hl => ⟨?_, hexpiries lane hl⟩, fun x hx => ?_⟩
    · obtain ⟨i, hb, hg⟩ := List.getElem_of_mem hl
      have hi := hg ▸ List.getElem?_eq_getElem hb
      exact takeItem_ready hi (List.findSome?_eq_none_iff.mp htake i (List.mem_range.mpr hb))
    · obtain ⟨k, hb, hg⟩ := List.getElem_of_mem hx
      have hk : m.timers[k]? = some x := hg ▸ List.getElem?_eq_getElem hb
      have hl := List.getElem?_eq_getElem (hhost x hx)
      have hnone := List.findSome?_eq_none_iff.mp hfire k (List.mem_range.mpr hb)
      exact fire_ready hk hl (hexpiries _ (List.getElem_mem _)) (by simpa using hnone)

theorem step?_work {m m' : MergeLayer} {commit : Option Commit} {now : Nat}
    (hr : m.cancelled = false ∧ m.stopped = false) (h : m.step? now = some (m', commit)) :
    m'.work < m.work ∧ m'.cancelled = false ∧ m'.stopped = false := by
  rcases step?_cases hr h with ⟨i, h⟩ | ⟨k, h⟩ | ⟨i, h⟩
  · obtain ⟨lane, item, rest, hi, hin, _, rfl⟩ := takeItem_cases h
    have hset := total_map_set (fun lane : MergeLane => 3 * lane.input.length + lane.expiries.length)
      hi { lane with input := rest, worker := (lane.worker.onItem item).1 }
    have htimers : (m.timersAfter i now lane item).length ≤ m.timers.length + 1 := by
      rcases m.timersAfter_cases i now lane item with hsub | hnew
      · exact Nat.le_succ_of_le hsub.length_le
      · rw [hnew, List.length_append, List.length_singleton]
    simp only [hin, List.length_cons] at hset
    exact ⟨by simp only [work]; omega, hr⟩
  · obtain ⟨x, lane, hk, _, hl, _, _, rfl⟩ := fire_cases h
    have hset := total_map_set (fun lane : MergeLane => 3 * lane.input.length + lane.expiries.length)
      hl { lane with expiries := lane.expiries ++ [x] }
    have htimers := (perm_eraseIdx_of_some hk).length_eq
    simp only [List.length_append, List.length_cons, List.length_nil] at hset htimers
    exact ⟨by simp only [work]; omega, hr⟩
  · obtain ⟨lane, x, rest, hi, hx, _, rfl⟩ := takeExpiry_cases h
    have hset := total_map_set (fun lane : MergeLane => 3 * lane.input.length + lane.expiries.length)
      hi { lane with expiries := rest, worker := (lane.worker.onExpiry x.key x.number).1 }
    simp only [hx, List.length_cons] at hset
    exact ⟨by simp only [work]; omega, hr⟩

theorem run_settles (now n : Nat) {m : MergeLayer} (hr : m.cancelled = false ∧ m.stopped = false)
    (hn : m.work ≤ n) : (run now n m).1.step? now = none := by
  induction n generalizing m with
  | zero => exact absurd hn (by simp [work])
  | succ n ih =>
    unfold run
    cases hs : m.step? now with
    | none => exact hs
    | some move =>
      obtain ⟨hlt, hr'⟩ := step?_work hr hs
      exact ih hr' (by omega)

end MergeLayer

namespace TimedTrace

theorem run_moves (n : Nat) {t : TimedTrace}
    (hr : t.layer.cancelled = false ∧ t.layer.stopped = false) :
    ∃ moves : List TimedEvent, (∀ e ∈ moves, e.isMove = true) ∧
      (t.run moves).layer = (MergeLayer.run t.now n t.layer).1 ∧ (t.run moves).now = t.now := by
  induction n generalizing t with
  | zero => exact ⟨[], by simp, rfl, rfl⟩
  | succ n ih =>
    unfold MergeLayer.run
    cases hs : t.layer.step? t.now with
    | none => exact ⟨[], by simp, rfl, rfl⟩
    | some move =>
      obtain ⟨m', commit⟩ := move
      have hfirst : ∃ e : TimedEvent, e.isMove = true ∧ (t.step e).layer = m' ∧
          (t.step e).now = t.now := by
        rcases MergeLayer.step?_cases hr hs with ⟨i, h⟩ | ⟨k, h⟩ | ⟨i, h⟩
        · exact ⟨.take i, rfl, by simp [step, h], by simp [step, h]⟩
        · exact ⟨.fire k, rfl, by simp [step, h], by simp [step, h]⟩
        · exact ⟨.attend i, rfl, by simp [step, h], by simp [step, h]⟩
      obtain ⟨e, he, hlayer, hnow⟩ := hfirst
      obtain ⟨moves, hmoves, hrun, hend⟩ := ih (t := t.step e)
        (hlayer ▸ (MergeLayer.step?_work hr hs).2)
      refine ⟨e :: moves, ?_, ?_, hend.trans hnow⟩
      · intro x hx
        rcases List.mem_cons.mp hx with rfl | hx
        · exact he
        · exact hmoves x hx
      · rw [hlayer, hnow] at hrun
        exact hrun

/-- The book of each lane agrees with it, and no two timers are of one batch. -/
structure Kept (settings : MergeSettings) (t : TimedTrace) : Prop where
  sound : t.layer.Sound
  running : t.layer.cancelled = false ∧ t.layer.stopped = false
  delay : t.layer.delay = settings.maxDelayMs.toNat
  timed : t.layer.Timed
  lanes : ∀ (i : Nat) (lane : MergeLane), t.layer.lanes[i]? = some lane →
    LaneBook (max settings.maxBatchSize.toNat 1) settings.maxDelayMs.toNat t.now i lane
      t.layer.timers (t.book i)
  hosted : ∀ x ∈ t.layer.timers, x.lane < t.layer.lanes.length
  once : t.layer.timers.Pairwise fun x y => x.lane = y.lane → x.number ≠ y.number

theorem start_kept (settings : MergeSettings) : (start settings).Kept settings := by
  refine ⟨MergeLayer.create_sound settings, ⟨rfl, rfl⟩, rfl, MergeLayer.create_timed settings, ?_,
    by simp [start, MergeLayer.create], by simp [start, MergeLayer.create]⟩
  intro i lane hl
  rw [(List.mem_replicate.mp (List.mem_of_getElem? hl)).2]
  exact ⟨rfl, Table.distinct_nil, by simp [start], by simp [MergeWorker.create, Table.get?],
    by simp [start], by simp [start], by simp [start, MergeLayer.create], by simp, by simp⟩

namespace Kept

variable {settings : MergeSettings} {t : TimedTrace}

theorem lanes_set (h : t.Kept settings) {i : Nat} {lane' : MergeLane} {timers' : List BatchTimer}
    {row : Nat → Option BatchRecord}
    (hrow : LaneBook (max settings.maxBatchSize.toNat 1) settings.maxDelayMs.toNat t.now i lane'
      timers' row)
    (htimers : ∀ x ∈ timers', x.lane ≠ i → x ∈ t.layer.timers) (j : Nat) (other : MergeLane)
    (hj : (t.layer.lanes.set i lane')[j]? = some other) :
    LaneBook (max settings.maxBatchSize.toNat 1) settings.maxDelayMs.toNat t.now j other timers'
      (Function.update t.book i row j) := by
  rcases MergeLayer.lane_of_set hj with ⟨rfl, rfl⟩ | ⟨hne, hj⟩
  · rw [Function.update_self]
    exact hrow
  · rw [Function.update_of_ne (Ne.symm hne)]
    exact (h.lanes j other hj).aside other.input fun x hx hxj => htimers x hx (by omega)

theorem push (h : t.Kept settings) (item : MergeItem) : (t.step (.push item)).Kept settings := by
  obtain ⟨lane, hl, ⟨_, he⟩ | ⟨_, he⟩⟩ := MergeLayer.push_cases h.sound h.running.1 h.running.2 item
  · simp only [step, he]
    exact ⟨⟨h.sound.rooms_served, h.sound.distinct, h.sound.home⟩, h.running, h.delay, h.timed,
      h.lanes, h.hosted, h.once⟩
  · simp only [step, he]
    refine ⟨h.sound.queue hl, h.running, h.delay, h.timed.queue hl item, ?_,
      by simpa only [List.length_set] using h.hosted, h.once⟩
    intro j other hj
    have hrow := (h.lanes _ lane hl).aside (lane.input ++ [item]) fun x hx _ => hx
    have hset := h.lanes_set hrow (fun x hx _ => hx) j other hj
    rwa [Function.update_eq_self] at hset

theorem tick (h : t.Kept settings) : (t.step .tick).Kept settings := by
  simp only [step]
  split
  next hs =>
    obtain ⟨hquiet, hlate⟩ := MergeLayer.step?_none h.running h.hosted hs
    refine ⟨h.sound, h.running, h.delay, h.timed, ?_, h.hosted, h.once⟩
    intro i lane hl
    have hempty := (hquiet lane (List.mem_of_getElem? hl)).2
    refine (h.lanes i lane hl).tick hempty fun key batch hb => ?_
    obtain ⟨x, hx, hfor⟩ := h.timed i lane key batch hl hb
    rw [hempty] at hx
    rcases hx with hx | hx
    · exact ⟨x, hx, hfor, hlate x hx⟩
    · simp at hx
  next => exact h

theorem fire (h : t.Kept settings) (k : Nat) : (t.step (.fire k)).Kept settings := by
  simp only [step]
  cases hm : t.layer.fire k t.now with
  | none => exact h
  | some move =>
    obtain ⟨m', commit⟩ := move
    have hsound := (MergeLayer.fire_moved hm).sound h.sound
    have htimed := h.timed.fire hm
    obtain ⟨x, lane, hk, hdue, hl, _, _, rfl⟩ := MergeLayer.fire_cases hm
    have hsub := List.eraseIdx_sublist t.layer.timers k
    have honce : (x :: t.layer.timers.eraseIdx k).Pairwise
        fun x y => x.lane = y.lane → x.number ≠ y.number :=
      ((perm_eraseIdx_of_some hk).pairwise_iff fun hxy hl => (hxy hl.symm).symm).mp h.once
    have hrow := (h.lanes x.lane lane hl).fire (List.mem_of_getElem? hk) rfl hdue fun y hy hl =>
      ⟨hsub.subset hy, ((List.pairwise_cons.mp honce).1 y hy hl.symm).symm⟩
    refine ⟨hsound, h.running, h.delay, htimed, ?_, ?_, h.once.sublist hsub⟩
    · intro j other hj
      have hset := h.lanes_set hrow (fun y hy _ => hsub.subset hy) j other hj
      rwa [Function.update_eq_self] at hset
    · simpa only [List.length_set] using fun y hy => h.hosted y (hsub.subset hy)

theorem attend (h : t.Kept settings) (i : Nat) : (t.step (.attend i)).Kept settings := by
  simp only [step]
  cases hm : t.layer.takeExpiry i with
  | none => exact h
  | some move =>
    obtain ⟨m', commit⟩ := move
    have hsound := (MergeLayer.takeExpiry_moved hm).sound h.sound
    have htimed := h.timed.takeExpiry h.sound hm
    obtain ⟨lane, x, rest, hi, hx, _, rfl⟩ := MergeLayer.takeExpiry_cases hm
    have hlane := h.lanes i lane hi
    have hfired : x ∈ lane.expiries := by rw [hx]; exact List.mem_cons_self
    have hrest : ∀ y ∈ rest, y ∈ lane.expiries := fun y hy => by rw [hx]; exact List.mem_cons_of_mem _ hy
    refine ⟨hsound, h.running, h.delay, htimed, ?_, by simpa only [List.length_set] using h.hosted,
      h.once⟩
    rcases lane.worker.onExpiry_cases x.key x.number with ⟨batch, hb, hn, he⟩ | ⟨_, he⟩
    · obtain ⟨r, hr, ho, _, hj⟩ := hlane.joined_open hb
      obtain ⟨_, r', hr', _, hdue⟩ := hlane.fired x hfired
      rw [hn] at hr hj
      obtain rfl : r = r' := Option.some.inj (hr.symm.trans hr')
      have hnote : t.noteExpiry i = t.write i x.number (r.finish (.timer, t.now)) := by
        simp only [noteExpiry, hi, hx, he, hr, Option.getD_some]
      have hrow := hlane.close hj ((hlane.timely _ r hr).expire ho hdue) ⟨rfl, rfl⟩ (by simp [BatchRecord.finish])
        (hlane.numbers _ r hr) (Nat.le_refl _) lane.input hrest
        fun y hy hyi => ⟨hy, hlane.apart x hfired y hy hyi⟩
      rw [hnote, he]
      exact h.lanes_set hrow fun y hy _ => hy
    · have hnote : t.noteExpiry i = t.book := by simp only [noteExpiry, hi, hx, he]
      rw [hnote, he]
      intro j other hj
      have hset := h.lanes_set (hlane.drop hrest) (fun y hy _ => hy) j other hj
      rwa [Function.update_eq_self] at hset

theorem take (h : t.Kept settings) (i : Nat) : (t.step (.take i)).Kept settings := by
  simp only [step]
  cases hm : t.layer.takeItem i t.now with
  | none => exact h
  | some move =>
    obtain ⟨m', commit⟩ := move
    have hsound := (MergeLayer.takeItem_moved hm).sound h.sound
    have htimed := h.timed.takeItem h.sound hm
    obtain ⟨lane, item, rest, hi, hin, _, rfl⟩ := MergeLayer.takeItem_cases hm
    have hlane := h.lanes i lane hi
    have hhost : i < t.layer.lanes.length := (List.getElem?_eq_some_iff.mp hi).1
    have hrow := hlane.take (by omega) h.delay item rest
    simp only [noteItem, hi, hin]
    rcases t.layer.timersAfter_cases i t.now lane item with hsub | hnew
    · refine ⟨hsound, h.running, h.delay, htimed, ?_, ?_, h.once.sublist hsub⟩
      · exact h.lanes_set hrow fun x hx _ => hsub.subset hx
      · exact fun x hx => by simpa only [List.length_set] using h.hosted x (hsub.subset hx)
    · have hmem : ∀ x ∈ t.layer.timersAfter i t.now lane item, x ∈ t.layer.timers ∨ x.lane = i := by
        intro x hx
        rw [hnew] at hx
        exact (List.mem_append.mp hx).imp id fun hx => by rw [List.mem_singleton.mp hx]
      refine ⟨hsound, h.running, h.delay, htimed, ?_, ?_, ?_⟩
      · exact h.lanes_set hrow fun x hx hxi => (hmem x hx).resolve_right hxi
      · intro x hx
        rw [List.length_set]
        rcases hmem x hx with hx | rfl
        · exact h.hosted x hx
        · exact hhost
      · rw [hnew]
        refine List.pairwise_append.mpr ⟨h.once, List.pairwise_singleton _ _, fun x hx y hy hxy => ?_⟩
        rw [List.mem_singleton.mp hy] at hxy ⊢
        exact hlane.number_ne_next hx hxy

theorem step (h : t.Kept settings) (e : TimedEvent) : (t.step e).Kept settings := by
  cases e with
  | push item => exact h.push item
  | take i => exact h.take i
  | fire k => exact h.fire k
  | attend i => exact h.attend i
  | tick => exact h.tick

end Kept

theorem run_kept (settings : MergeSettings) (events : List TimedEvent) :
    ((start settings).run events).Kept settings := by
  induction events using List.reverseRecOn with
  | nil => exact start_kept settings
  | append_singleton events e ih =>
    rw [run, List.foldl_append]
    exact ih.step e

namespace Kept

variable {settings : MergeSettings} {t : TimedTrace}

theorem open_of_timer (h : t.Kept settings) {x : BatchTimer} (hx : x ∈ t.layer.timers) :
    ∃ (lane : MergeLane) (batch : Batch) (r : BatchRecord), t.layer.lanes[x.lane]? = some lane ∧
      lane.worker.batches.get? x.key = some batch ∧ batch.number = x.number ∧
      t.book x.lane x.number = some r ∧ x.due = r.opened + settings.maxDelayMs.toNat := by
  have hl := List.getElem?_eq_getElem (h.hosted x hx)
  have hlane := h.lanes x.lane _ hl
  obtain ⟨r, hr, hkey, ho, hdue⟩ := hlane.running x hx rfl
  obtain ⟨batch, hb, hn⟩ := hlane.ended _ r hr ho
  exact ⟨_, batch, r, hl, hkey ▸ hb, hn, hr, hdue⟩

/-- In a settled state the timer of an open batch runs, and it is the only one of its destination. -/
theorem sole_timer (h : t.Kept settings) (hs : t.Settled) {i : Nat} {lane : MergeLane} {key : BatchKey}
    {batch : Batch} (hl : t.layer.lanes[i]? = some lane)
    (hb : lane.worker.batches.get? key = some batch) :
    ∃ r, t.book i batch.number = some r ∧ r.key = key ∧ r.ending = none ∧
      r.taken.length = batch.items.length ∧
      t.layer.timers.filter (fun x => x.lane = i ∧ x.key = key) =
        [⟨i, key, batch.number, r.opened + settings.maxDelayMs.toNat⟩] := by
  obtain ⟨r, hr, hkey, ho, hlen⟩ := (h.lanes i lane hl).opened key batch hb
  obtain ⟨x, hx, hfor⟩ := h.timed i lane key batch hl hb
  have hempty := ((MergeLayer.step?_none h.running h.hosted hs).1 lane (List.mem_of_getElem? hl)).2
  rw [hempty] at hx
  have hx : x ∈ t.layer.timers := hx.resolve_right List.not_mem_nil
  -- every timer of the destination is that of the batch
  have same : ∀ y ∈ t.layer.timers, y.lane = i → y.key = key →
      y = ⟨i, key, batch.number, r.opened + settings.maxDelayMs.toNat⟩ := by
    intro y hy hyi hyk
    obtain ⟨lane', batch', r', hl', hb', hn, hr', hdue⟩ := h.open_of_timer hy
    rw [hyi, hl] at hl'
    obtain rfl := Option.some.inj hl'
    rw [hyk, hb] at hb'
    obtain rfl := Option.some.inj hb'
    rw [hyi, ← hn, hr] at hr'
    obtain rfl := Option.some.inj hr'
    cases y
    simp only at hyi hyk hn hdue
    rw [hyi, hyk, hn, hdue]
  refine ⟨r, hr, hkey, ho, hlen, ?_⟩
  have hmem : x ∈ t.layer.timers.filter (fun x => x.lane = i ∧ x.key = key) :=
    List.mem_filter.mpr ⟨hx, decide_eq_true ⟨hfor.1, hfor.2.1⟩⟩
  have honce : (t.layer.timers.filter (fun x => x.lane = i ∧ x.key = key)).Nodup := by
    refine (h.once.imp fun hxy heq => ?_).sublist List.filter_sublist
    subst heq
    exact hxy rfl rfl
  have hall : ∀ y ∈ t.layer.timers.filter (fun x => x.lane = i ∧ x.key = key), y = x := by
    intro y hy
    obtain ⟨hy, hyfor⟩ := List.mem_filter.mp hy
    have hyfor := of_decide_eq_true hyfor
    exact (same y hy hyfor.1 hyfor.2).trans (same x hx hfor.1 hfor.2.1).symm
  rw [← same x hx hfor.1 hfor.2.1]
  exact List.perm_singleton.mp ((List.perm_ext_iff_of_nodup honce (List.nodup_singleton x)).mpr
    fun y => ⟨fun hy => List.mem_singleton.mpr (hall y hy), fun hy => List.mem_singleton.mp hy ▸ hmem⟩)

end Kept

/-- When nothing is left to do, every open batch has the one timer that is due at its deadline, and no
item has waited in a batch for longer than the delay. -/
theorem batch_deadlines (settings : MergeSettings) (events : List TimedEvent) :
    let t := (start settings).run events
    let bound := max settings.maxBatchSize.toNat 1
    let delay := settings.maxDelayMs.toNat
    (t.Settled → ∀ (i : Nat) (lane : MergeLane), t.layer.lanes[i]? = some lane →
      lane.input = [] ∧ ∀ (key : BatchKey) (batch : Batch),
        lane.worker.batches.get? key = some batch →
        ∃ r, t.book i batch.number = some r ∧ r.key = key ∧ r.ending = none ∧
          r.taken.length = batch.items.length ∧ t.now < r.opened + delay ∧
          t.layer.timers.filter (fun x => x.lane = i ∧ x.key = key) =
            [⟨i, key, batch.number, r.opened + delay⟩]) ∧
    (∀ x ∈ t.layer.timers, ∃ (lane : MergeLane) (batch : Batch),
      t.layer.lanes[x.lane]? = some lane ∧ lane.worker.batches.get? x.key = some batch ∧
        batch.number = x.number) ∧
    (∀ i n r, i < t.layer.lanes.length → t.book i n = some r → r.Timely bound delay t.now ∧
      (r.ending = none → ∃ (lane : MergeLane) (batch : Batch), t.layer.lanes[i]? = some lane ∧
        lane.worker.batches.get? r.key = some batch ∧ batch.number = n) ∧
      ∀ time ∈ r.taken, match r.ending with
        | none => t.now ≤ time + delay
        | some (_, ended) => ended ≤ time + delay) ∧
    ∃ moves : List TimedEvent, (∀ e ∈ moves, e.isMove = true) ∧
      (t.run moves).layer = (t.layer.settle t.now).1 ∧ (t.run moves).now = t.now ∧
      (t.run moves).Settled := by
  intro t bound delay
  have h : t.Kept settings := run_kept settings events
  refine ⟨?_, ?_, ?_, ?_⟩
  · intro hs i lane hl
    obtain ⟨hquiet, hlate⟩ := MergeLayer.step?_none h.running h.hosted hs
    refine ⟨(hquiet lane (List.mem_of_getElem? hl)).1, fun key batch hb => ?_⟩
    obtain ⟨r, hr, hkey, ho, hlen, hsole⟩ := h.sole_timer hs hl hb
    have htimer : ⟨i, key, batch.number, r.opened + delay⟩ ∈
        t.layer.timers.filter (fun x => x.lane = i ∧ x.key = key) := by
      rw [hsole]
      exact List.mem_singleton.mpr rfl
    exact ⟨r, hr, hkey, ho, hlen, hlate _ (List.mem_filter.mp htimer).1, hsole⟩
  · intro x hx
    obtain ⟨lane, batch, _, hl, hb, hn, _⟩ := h.open_of_timer hx
    exact ⟨lane, batch, hl, hb, hn⟩
  · intro i n r hi hr
    have hl := List.getElem?_eq_getElem hi
    have hlane := h.lanes i _ hl
    have htimely := hlane.timely n r hr
    refine ⟨htimely, fun ho => ?_, fun time ht => htimely.latency ht⟩
    obtain ⟨batch, hb, hn⟩ := hlane.ended n r hr ho
    exact ⟨_, batch, hl, hb, hn⟩
  · obtain ⟨moves, hmoves, hlayer, hnow⟩ := run_moves t.layer.work h.running
    refine ⟨moves, hmoves, hlayer, hnow, ?_⟩
    rw [Settled, hlayer, hnow]
    exact MergeLayer.run_settles t.now _ h.running (Nat.le_refl _)

/-- A batch opened at once waits for its timer, and a second item does not put that off. -/
theorem second_item_keeps_deadline :
    let t := (start ⟨1, 4, 5, 3⟩).run [.push ⟨.broadcast, ⟨"1"⟩⟩, .take 0, .tick, .tick,
      .push ⟨.broadcast, ⟨"2"⟩⟩, .take 0]
    t.Settled ∧ t.book 0 1 = some ⟨.broadcast, 0, [0, 2], none⟩ ∧
      t.layer.timers.filter (fun x => x.lane = 0 ∧ x.key = .broadcast) = [⟨0, .broadcast, 1, 5⟩] ∧
      (t.run [.tick, .tick, .tick, .fire 0, .attend 0]).book 0 1 =
        some ⟨.broadcast, 0, [0, 2], some (.timer, 5)⟩ := by
  intro t
  have hs : t.Settled := by decide
  have hbook : t.book 0 1 = some ⟨.broadcast, 0, [0, 2], none⟩ := by decide
  obtain ⟨_, hopen⟩ := (batch_deadlines _ _).1 hs 0 _ rfl
  obtain ⟨r, hr, _, _, _, _, hsole⟩ := hopen .broadcast ⟨1, [⟨"1"⟩, ⟨"2"⟩]⟩ (by decide)
  cases Option.some.inj (hbook.symm.trans hr)
  exact ⟨hs, hbook, hsole, by decide⟩

end TimedTrace

end RoomCast
