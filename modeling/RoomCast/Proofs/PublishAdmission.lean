import RoomCast.Proofs.ListReading
import RoomCast.Proofs.MergeConservation
import RoomCast.Service

namespace RoomCast

/-- Where a form is sent: to be published for everyone, or for the room that it names. -/
inductive PublishRoute where
  | everyone
  | room
deriving DecidableEq, Repr

namespace PublishRoute

def publish? : PublishRoute → PublishForm → Option Publish
  | .everyone => Publish.toAll?
  | .room => Publish.toRoom?

inductive Leads : PublishRoute → PublishForm → BatchKey → Prop where
  | everyone {form : PublishForm} : Leads .everyone form .broadcast
  | room {form : PublishForm} {name : String} : form.room = some name → name ≠ "" →
      Leads .room form (.room name)

theorem publish?_eq_some_iff (route : PublishRoute) (form : PublishForm) (p : Publish) :
    route.publish? form = some p ↔
      route.Leads form p.key ∧ ∃ text, form.items = some text ∧ ListText p.items text := by
  have listed : ∀ fs, form.items.bind fragmentsOf = some fs ↔
      ∃ text, form.items = some text ∧ ListText fs text := by
    intro fs
    simp only [Option.bind_eq_some_iff, fragmentsOf_iff]
  cases route with
  | everyone =>
    simp only [publish?, Publish.toAll?, Option.map_eq_some_iff, listed]
    constructor
    · rintro ⟨fs, hfs, rfl⟩
      exact ⟨.everyone, hfs⟩
    · rintro ⟨hleads, hfs⟩
      obtain ⟨key, items⟩ := p
      cases hleads
      exact ⟨items, hfs, rfl⟩
  | room =>
    simp only [publish?, Publish.toRoom?]
    constructor
    · intro hp
      split at hp
      next => simp at hp
      next name hname =>
        obtain ⟨hroom, hne⟩ := Option.filter_eq_some_iff.mp hname
        obtain ⟨fs, hfs, rfl⟩ := Option.map_eq_some_iff.mp hp
        exact ⟨.room hroom (of_decide_eq_true hne), (listed fs).mp hfs⟩
    · rintro ⟨hleads, hfs⟩
      obtain ⟨key, items⟩ := p
      cases hleads with
      | @room _ name hroom hne =>
        have hname : form.room.filter (· ≠ "") = some name :=
          Option.filter_eq_some_iff.mpr ⟨hroom, decide_eq_true hne⟩
        rw [hname]
        exact Option.map_eq_some_iff.mpr ⟨items, (listed items).mpr hfs, rfl⟩

end PublishRoute

namespace MergeLayer

/-- A layer with more items behind those that wait for the worker of a destination, and with more items
counted as turned away. -/
def loaded (m : MergeLayer) (key : BatchKey) (lane : MergeLane) (items : List Fragment)
    (dropped : Nat) : MergeLayer :=
  { m with
    lanes := m.lanes.set (m.laneOf key) { lane with input := lane.input ++ items.map (⟨key, ·⟩) }
    counters := { m.counters with drops := m.counters.drops + dropped } }

section Loading

variable {m : MergeLayer} {key : BatchKey} {lane : MergeLane}

theorem loaded_none (hl : m.lanes[m.laneOf key]? = some lane) (dropped : Nat) :
    m.loaded key lane [] dropped =
      { m with counters := { m.counters with drops := m.counters.drops + dropped } } := by
  have hlanes : m.lanes.set (m.laneOf key) lane = m.lanes := set_same hl
  simp only [loaded, List.map_nil, List.append_nil, hlanes]

theorem loaded_laneOf (m : MergeLayer) (key : BatchKey) (lane : MergeLane) (items : List Fragment)
    (dropped : Nat) : (m.loaded key lane items dropped).laneOf key = m.laneOf key :=
  laneOf_congr (List.length_set ..) key

theorem loaded_lane (hl : m.lanes[m.laneOf key]? = some lane) (items : List Fragment)
    (dropped : Nat) :
    let m' := m.loaded key lane items dropped
    m'.lanes[m'.laneOf key]? = some { lane with input := lane.input ++ items.map (⟨key, ·⟩) } := by
  intro m'
  have hlt := (List.getElem?_eq_some_iff.mp hl).1
  rw [loaded_laneOf]
  exact List.getElem?_set_self hlt

theorem loaded_loaded (items more : List Fragment) (dropped again : Nat) :
    (m.loaded key lane items dropped).loaded key
      { lane with input := lane.input ++ items.map (⟨key, ·⟩) } more again =
        m.loaded key lane (items ++ more) (dropped + again) := by
  rw [loaded, loaded_laneOf]
  simp only [loaded, List.set_set, List.map_append, List.append_assoc, Nat.add_assoc]

variable (hc : m.cancelled = false) (hs : m.stopped = false)
  (hl : m.lanes[m.laneOf key]? = some lane)

include hc hs hl

theorem push_fitting (h : lane.input.length < m.capacity) (item : Fragment) :
    m.push ⟨key, item⟩ = (m.loaded key lane [item] 0, .ok ()) := by
  simp [push, loaded, hc, hs, hl, Nat.not_le.mpr h]

theorem push_full (h : m.capacity ≤ lane.input.length) (item : Fragment) :
    m.push ⟨key, item⟩ = (m.loaded key lane [] 1, .error .queueFull) := by
  rw [loaded_none hl]
  simp [push, hc, hs, hl, h]

/-- Items are queued from the first on, as many as there is room for. -/
theorem pushEach_loaded (items : List Fragment) {free : Nat}
    (hfree : m.capacity - lane.input.length = free) :
    MergeLayer.pushEach key items m =
      (m.loaded key lane (items.take free) (items.length - free), items.length - free) := by
  induction items generalizing m lane free with
  | nil => simp [pushEach, loaded_none hl]
  | cons item items ih =>
    rcases Nat.lt_or_ge lane.input.length m.capacity with hroom | hfull
    · -- the item takes the first free place
      have hleft : m.capacity - (lane.input ++ [MergeItem.mk key item]).length = free - 1 := by
        rw [List.length_append, List.length_singleton]
        omega
      have hnext := @ih (m.loaded key lane [item] 0) _ hc hs (loaded_lane hl [item] 0)
        (free - 1) hleft
      have htake : (item :: items).take free = item :: items.take (free - 1) :=
        List.take_cons (by omega)
      have hcount : (item :: items).length - free = items.length - (free - 1) := by
        rw [List.length_cons]
        omega
      rw [loaded_loaded, List.singleton_append, Nat.zero_add] at hnext
      simp only [pushEach, push_fitting hc hs hl hroom, hnext, htake, hcount]
    · -- there is no free place for it, and none for the items behind it
      have hnone : free = 0 := by omega
      have hleft : m.capacity - (lane.input ++ []).length = 0 := by
        rw [List.append_nil]
        omega
      have hnext := @ih (m.loaded key lane [] 1) _ hc hs (loaded_lane hl [] 1) 0 hleft
      rw [loaded_loaded, List.take_zero, Nat.sub_zero, List.nil_append] at hnext
      simp only [pushEach, push_full hc hs hl hfull, hnext, hnone, List.take_zero, Nat.sub_zero,
        List.length_cons, Nat.add_comm 1]

end Loading

end MergeLayer

/-- A form is refused and changes nothing, or its items wait for the worker of the destination, in order
and as many as fit; the others are counted. -/
theorem publish_queues_what_fits (srv : Server) (route : PublishRoute) (form : PublishForm)
    (hworkers : 2 ≤ srv.merge.lanes.length) (hgoes : srv.merge.cancelled = false)
    (hruns : srv.merge.stopped = false) :
    let answer := srv.publishForm (some form) route.publish?
    (∀ key text, route.Leads form key → form.items = some text → ListDocument text →
      ∃ fs lane, ListText fs text ∧ srv.merge.lanes[srv.merge.laneOf key]? = some lane ∧
        let fitting := min fs.length (srv.merge.capacity - lane.input.length)
        answer = ({ srv with
          merge := srv.merge.loaded key lane (fs.take fitting) (fs.length - fitting) }, .bare 200)) ∧
    ((∀ key text, route.Leads form key → form.items = some text → ¬ListDocument text) →
      answer = (srv, .bare 400)) ∧
    ∀ text fs, ListText fs text → (∀ gs, ListText gs text → gs = fs) ∧
      ∀ f ∈ fs, Grammar.Value f.text.toList [] ∧ trimBlanks f.text = f.text := by
  intro answer
  refine ⟨fun key text hleads hitems hdoc => ?_, fun hrefused => ?_, fun text fs hfs => ⟨?_, ?_⟩⟩
  · obtain ⟨fs, hfs⟩ := (listDocument_iff text).mp hdoc
    have hpublish : route.publish? form = some ⟨key, fs⟩ :=
      (route.publish?_eq_some_iff form ⟨key, fs⟩).mpr ⟨hleads, text, hitems, hfs⟩
    obtain ⟨lane, hl⟩ : ∃ lane, srv.merge.lanes[srv.merge.laneOf key]? = some lane :=
      ⟨_, List.getElem?_eq_getElem (MergeLayer.laneOf_lt hworkers key)⟩
    have hpushed := MergeLayer.pushEach_loaded hgoes hruns hl fs rfl
    refine ⟨fs, lane, hfs, hl, ?_⟩
    have htake : fs.take (min fs.length (srv.merge.capacity - lane.input.length)) =
        fs.take (srv.merge.capacity - lane.input.length) := by
      rw [Nat.min_comm, ← List.take_eq_take_min]
    have hcount : fs.length - min fs.length (srv.merge.capacity - lane.input.length) =
        fs.length - (srv.merge.capacity - lane.input.length) := by omega
    simp only [answer, Server.publishForm, hpublish, MergeLayer.publish, hpushed, htake, hcount]
  · have hnone : route.publish? form = none := by
      refine Option.eq_none_iff_forall_ne_some.mpr fun p hp => ?_
      obtain ⟨hleads, text, hitems, hfs⟩ := (route.publish?_eq_some_iff form p).mp hp
      exact hrefused p.key text hleads hitems ((listDocument_iff text).mpr ⟨p.items, hfs⟩)
    simp only [answer, Server.publishForm, hnone]
  · intro gs hgs
    exact Option.some.inj ((fragmentsOf_iff.mpr hgs).symm.trans (fragmentsOf_iff.mpr hfs))
  · exact fun f hf => ⟨(hfs.whole f hf).value, (hfs.whole f hf).trimmed⟩

/-- One place is left of two when three items come for the room, with blanks around and inside them. -/
theorem two_items_find_no_room :
    let settings : Settings := { Settings.defaults with merge := ⟨1, 2, 5, 2⟩ }
    let srv := (Server.create settings ⟨1⟩ false)
    let busy := { srv with merge := (srv.merge.push ⟨.room "a", ⟨"0"⟩⟩).1 }
    let form : PublishForm := ⟨some "a", some " [ 1 , [ 2 ] ,\"3\"]\n"⟩
    ∃ lane, busy.merge.lanes[busy.merge.laneOf (.room "a")]? = some lane ∧ lane.input.length = 1 ∧
      busy.publishForm (some form) Publish.toRoom? = ({ busy with
        merge := busy.merge.loaded (.room "a") lane [⟨"1"⟩] 2 }, .bare 200) := by
  intro settings srv busy form
  have hlist : ListText [⟨"1"⟩, ⟨"[ 2 ]"⟩, ⟨"\"3\""⟩] " [ 1 , [ 2 ] ,\"3\"]\n" :=
    fragmentsOf_text (by decide +kernel)
  have hlane : busy.merge.lanes[busy.merge.laneOf (.room "a")]? =
      some ⟨[⟨.room "a", ⟨"0"⟩⟩], [], .create 2⟩ := by decide +kernel
  obtain ⟨haccepted, _, hitems⟩ := publish_queues_what_fits busy .room form (by decide +kernel)
    (by decide +kernel) (by decide +kernel)
  obtain ⟨fs, lane, hfs, hl, hanswer⟩ :=
    haccepted (.room "a") _ (.room rfl (by decide)) rfl ((listDocument_iff _).mpr ⟨_, hlist⟩)
  obtain rfl := (hitems _ fs hfs).1 _ hlist
  obtain rfl := Option.some.inj (hlane.symm.trans hl)
  have hcapacity : busy.merge.capacity = 2 := by decide +kernel
  rw [hcapacity] at hanswer
  exact ⟨_, hl, rfl, hanswer⟩

end RoomCast
