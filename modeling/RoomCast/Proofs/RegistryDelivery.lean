import RoomCast.Proofs.RegistryPipeline
import RoomCast.Proofs.RegistryTables

namespace RoomCast

namespace Registry

theorem Unmoved.sound {r r' : Registry} (h : Unmoved r r') (hs : r.Sound) : r'.Sound := by
  refine hs.of_roster h.shards ?_
  intro seat c hc
  obtain ⟨c', hc', he⟩ := getElem?_of_map_eq h.bare hc
  exact ⟨c', hc', Connection.id_of_bare he⟩

def Concerns (r : Registry) (id : ConnectionId) : PushTarget → Prop
  | .all => True
  | .room name => r.IsMember name id

instance (r : Registry) (id : ConnectionId) : (target : PushTarget) → Decidable (r.Concerns id target)
  | .all => inferInstanceAs (Decidable True)
  | .room name => inferInstanceAs (Decidable (r.IsMember name id))

/-- Whether the connection on a seat is held under its identity, and a push is for it. -/
def Reaches (r : Registry) (seat : Nat) (id : ConnectionId) (target : PushTarget) : Prop :=
  r.seatOf id = some seat ∧ r.Concerns id target

instance (r : Registry) (seat : Nat) (id : ConnectionId) (target : PushTarget) :
    Decidable (r.Reaches seat id target) :=
  inferInstanceAs (Decidable (_ ∧ _))

theorem mem_seats {r : Registry} (hs : r.Sound) {k : Nat} {s : Shard} (hk : r.shards[k]? = some s)
    (target : PushTarget) (seat : Nat) :
    seat ∈ s.seats target ↔ ∃ id, r.seatOf id = some seat ∧ r.route id = k ∧ r.Concerns id target := by
  have hsound := hs.shard_sound k s hk
  have home : ∀ id, s.connections.get? id = some seat ↔ r.seatOf id = some seat ∧ r.route id = k := by
    intro id
    constructor
    · intro h
      refine ⟨?_, hsound.connections_home id seat h⟩
      rw [seatOf, hs.shardFor_of_seat hk h]
      exact h
    · rintro ⟨h, rfl⟩
      rw [seatOf] at h
      rwa [← Option.some.inj ((shardFor_eq hs.shards_nonempty id).symm.trans hk)]
  have concerns : ∀ {id}, s.connections.get? id = some seat →
      (s.Concerns id target ↔ r.Concerns id target) := by
    intro id h
    cases target with
    | all => exact Iff.rfl
    | room name => rw [Registry.Concerns, IsMember, hs.shardFor_of_seat hk h]; exact Iff.rfl
  rw [Shard.mem_seats hsound.connections_distinct]
  constructor
  · rintro ⟨id, hg, hc⟩
    obtain ⟨h1, h2⟩ := (home id).mp hg
    exact ⟨id, h1, h2, (concerns hg).mp hc⟩
  · rintro ⟨id, h1, h2, hc⟩
    have hg := (home id).mpr ⟨h1, h2⟩
    exact ⟨id, hg, (concerns hg).mpr hc⟩

theorem seats_nodup {r : Registry} (hs : r.Sound) {k : Nat} {s : Shard} (hk : r.shards[k]? = some s)
    (target : PushTarget) : (s.seats target).Nodup := by
  have hsound := hs.shard_sound k s hk
  have once : ∀ id other seat, s.connections.get? id = some seat →
      s.connections.get? other = some seat → id = other := by
    intro id other seat h ho
    have hid : r.seatOf id = some seat := by rwa [seatOf, hs.shardFor_of_seat hk h]
    have hother : r.seatOf other = some seat := by rwa [seatOf, hs.shardFor_of_seat hk ho]
    exact seat_injective hs hid hother
  exact Shard.seats_nodup hsound once target

/-- After a broadcast each connection of the shard that it is for has been sent the frame, and every
other is as it was. -/
theorem broadcast_getElem? {r : Registry} (hs : r.Sound) {k : Nat} {s : Shard}
    (hk : r.shards[k]? = some s) (target : PushTarget) (frame : String) (i : Nat) :
    (s.broadcast r.roster target frame).roster[i]? = (r.roster[i]?).map fun c =>
      if r.seatOf c.id = some i ∧ r.route c.id = k ∧ r.Concerns c.id target
      then (c.send frame).1 else c := by
  rw [Shard.broadcast, offer_getElem? _ (seats_nodup hs hk target)]
  cases hc : r.roster[i]? with
  | none => simp
  | some c =>
    have hseat : i ∈ s.seats target ↔
        r.seatOf c.id = some i ∧ r.route c.id = k ∧ r.Concerns c.id target := by
      rw [mem_seats hs hk]
      constructor
      · rintro ⟨id, h1, h2, h3⟩
        obtain ⟨c', hc', rfl⟩ := hs.seated id i h1
        cases Option.some.inj (hc.symm.trans hc')
        exact ⟨h1, h2, h3⟩
      · exact fun h => ⟨c.id, h⟩
    by_cases hi : i ∈ s.seats target
    · simp [hi, hseat.mp hi]
    · simp [hi, mt hseat.mpr hi]

theorem Delivered.getElem? {r r' : Registry} {k : Nat} {s : Shard} {job : ShardJob}
    (h : r.Delivered r' k s job) (hs : r.Sound) (i : Nat) :
    r'.roster[i]? = (r.roster[i]?).map fun c =>
      if r.seatOf c.id = some i ∧ r.route c.id = k ∧ r.Concerns c.id job.target
      then (c.send job.frame).1 else c := by
  rw [h.roster]
  exact broadcast_getElem? hs h.shard job.target job.frame i

theorem Delivered.sent {r r' : Registry} {k : Nat} {s : Shard} {job : ShardJob}
    (h : r.Delivered r' k s job) (hs : r.Sound)
    (hdrops : r'.counters.outboundDrops = r.counters.outboundDrops) {i : Nat} {c : Connection}
    (hc : r.roster[i]? = some c) (hopen : c.closed = false) (hreceiving : c.receiving = true)
    (hreach : r.Reaches i c.id job.target) (hk : r.route c.id = k) :
    r'.roster[i]? = some { c with outbound := c.outbound ++ [job.frame] } := by
  have hseat : i ∈ s.seats job.target :=
    (mem_seats hs h.shard _ i).mpr ⟨c.id, hreach.1, hk, hreach.2⟩
  have hnone : fullSeats r.roster job.frame (s.seats job.target) = [] := by
    have hd := h.drops
    rw [Shard.broadcast, offer_dropped _ (seats_nodup hs h.shard job.target)] at hd
    exact List.length_eq_zero_iff.mp (by omega)
  have hroom := List.filter_eq_nil_iff.mp hnone i hseat
  rw [h.getElem? hs, hc, Option.map_some, if_pos ⟨hreach.1, hk, hreach.2⟩]
  unfold Connection.send at hroom ⊢
  by_cases hf : c.capacity ≤ c.outbound.length
  · simp [hc, hopen, hreceiving, hf] at hroom
  · simp [hopen, hreceiving, hf]

theorem Delivered.passed {r r' : Registry} {k : Nat} {s : Shard} {job : ShardJob}
    (h : r.Delivered r' k s job) (hs : r.Sound) {i : Nat} {c : Connection}
    (hc : r.roster[i]? = some c) (hn : ¬(r.Reaches i c.id job.target ∧ r.route c.id = k)) :
    r'.roster[i]? = some c := by
  rw [h.getElem? hs, hc, Option.map_some, if_neg fun hm => hn ⟨⟨hm.1, hm.2.2⟩, hm.2.1⟩]

end Registry

/-- The sizes with which a push gets through: every queue has room and is served. -/
structure RegistrySettings.Serving (settings : RegistrySettings) : Prop where
  dispatch : settings.dispatchChannelSize.toNat ≠ 0
  dispatchers : settings.dispatchWorkerCount.toNat ≠ 0
  jobs : settings.shardJobChannelSize.toNat ≠ 0
  workers : settings.shardJobWorkerCount.toNat ≠ 0

/-- Settings that are accepted have such sizes. -/
theorem Settings.validate_serving {s : Settings} (h : s.validate = .ok ()) : s.registry.Serving := by
  unfold validate at h
  split at h
  next => simp at h
  next hn =>
    have positive : ∀ p ∈ s.positives, p.2.toNat ≠ 0 := by
      intro p hp hz
      have hne : p.2 ≠ 0 := by simpa using List.find?_eq_none.mp hn p hp
      exact hne (UInt64.toNat_inj.mp hz)
    refine ⟨?_, ?_, ?_, ?_⟩
    · exact positive ("registry.dispatchChannelSize", _) (by simp [positives])
    · exact positive ("registry.dispatchWorkerCount", _) (by simp [positives])
    · exact positive ("registry.shardJobChannelSize", _) (by simp [positives])
    · exact positive ("registry.shardJobWorkerCount", _) (by simp [positives])

namespace Registry

/-- A push under way that has the pipeline to itself: every connection it is for whose shard has
nothing left to deliver has been sent the frame. -/
structure Carrying (settings : RegistrySettings) (start : Registry) (job : PushJob) (r : Registry) :
    Prop where
  fitted : r.Fitted settings
  shards : r.shards = start.shards
  alone : r.queue.length + r.offerings.length ≤ 1
  skips : r.counters.shardSkips = start.counters.shardSkips
  refusals : r.counters.dispatchDrops = start.counters.dispatchDrops
  pending : ∀ k < r.lanes.length, r.pending k = [] ∨ r.pending k = [job.share]
  roster : ∀ i : Nat, r.roster[i]? = (start.roster[i]?).map fun c =>
    if start.seatOf c.id = some i ∧ start.Concerns c.id job.target ∧ r.pending (start.route c.id) = []
    then (c.send job.payload.frame).1 else c

theorem PipelineStep.alone {r r' : Registry} (h : PipelineStep r r') :
    r'.queue.length + r'.offerings.length ≤ r.queue.length + r.offerings.length := by
  cases h with
  | take waits free =>
    rw [waits]
    simp only [List.length_append, List.length_cons, List.length_nil]
    omega
  | finish offers behind => exact Nat.add_le_add_left (List.length_eraseIdx_le ..) _
  | accept offers next permit served room => simp
  | skip offers next full => simp
  | pick serves waits free => exact Nat.le_refl _
  | deliver serves shard taken => exact Nat.le_refl _

theorem Carrying.pending_le {settings : RegistrySettings} {start r : Registry} {job : PushJob}
    (h : Carrying settings start job r) {k : Nat} (hk : k < r.lanes.length) :
    (r.pending k).length ≤ 1 := by
  rcases h.pending k hk with he | he <;> simp [he]

theorem Carrying.inOrder {settings : RegistrySettings} {start r : Registry} {job : PushJob}
    (h : Carrying settings start job r) : r.InOrder := by
  have ho := h.alone
  refine ⟨by omega, ?_⟩
  intro lane hl
  obtain ⟨k, hb, hg⟩ := List.getElem_of_mem hl
  have hlane : r.lanes[k]? = some lane := hg ▸ List.getElem?_eq_getElem hb
  have hp := h.pending_le hb
  simp only [Registry.pending, acceptedBy_self hlane, ShardLane.jobs, List.length_append] at hp
  omega

theorem Carrying.no_skip {settings : RegistrySettings} (hserve : settings.Serving)
    {start r r' : Registry} {job : PushJob} (h : Carrying settings start job r)
    (hs : PipelineStep r r') : r'.counters.shardSkips = r.counters.shardSkips := by
  cases hs with
  | @skip i o lane offers next full =>
    obtain ⟨rfl, ho⟩ := sole_of_getElem? h.inOrder.offerings offers
    have hb : o.next < r.lanes.length := (List.getElem?_eq_some_iff.mp next).1
    have hp := h.pending_le hb
    simp only [Registry.pending, acceptedBy_self next, ShardLane.jobs, ho, offeredTo_sole,
      Nat.le_refl, ↓reduceIte, List.length_append, List.length_singleton] at hp
    have hbal := h.fitted.balanced _ (List.mem_of_getElem? next)
    have hpermits := hbal.permits
    have hsize := hbal.size
    have hj := hserve.jobs
    have hserved : lane.served = true := by
      rw [hbal.served]
      exact decide_eq_true hserve.workers
    rcases full with hf | hf | hf
    · omega
    · rw [hserved] at hf
      simp at hf
    · omega
  | take waits free => rfl
  | finish offers behind => rfl
  | accept offers next permit served room => rfl
  | pick serves waits free => rfl
  | deliver serves shard taken => rfl

theorem shards_congr {r start : Registry} (h : r.shards = start.shards) :
    (∀ id, r.route id = start.route id) ∧ (∀ id, r.seatOf id = start.seatOf id) ∧
      ∀ id target, r.Concerns id target ↔ start.Concerns id target := by
  have hroute : ∀ id, r.route id = start.route id := fun id => by unfold route; rw [h]
  have hfor : ∀ id, r.shardFor id = start.shardFor id := fun id => by
    unfold shardFor
    rw [hroute, h]
  refine ⟨hroute, fun id => by unfold seatOf; rw [hfor], ?_⟩
  intro id target
  cases target with
  | all => exact Iff.rfl
  | room name => unfold Concerns IsMember; rw [hfor]

theorem reaches_congr {r start : Registry} (h : r.shards = start.shards) (seat : Nat)
    (id : ConnectionId) (target : PushTarget) :
    r.Reaches seat id target ↔ start.Reaches seat id target := by
  obtain ⟨_, hseat, hconcerns⟩ := shards_congr h
  rw [Reaches, Reaches, hseat, hconcerns]

theorem Carrying.sound {settings : RegistrySettings} {start r : Registry} {job : PushJob}
    (h : Carrying settings start job r) (hstart : start.Sound) : r.Sound := by
  refine hstart.of_roster h.shards ?_
  intro seat c hc
  rw [h.roster seat, hc]
  refine ⟨_, rfl, ?_⟩
  simp only
  split
  next => exact c.send_id job.payload.frame
  next => rfl

section Carrying

variable {settings : RegistrySettings} {start r r' : Registry} {job : PushJob}

theorem Carrying.moved (hserve : settings.Serving) (h : Carrying settings start job r)
    (hs : PipelineStep r r')
    (pending : ∀ k < r'.lanes.length, r'.pending k = [] ∨ r'.pending k = [job.share])
    (roster : ∀ i : Nat, r'.roster[i]? = (start.roster[i]?).map fun c =>
      if start.seatOf c.id = some i ∧ start.Concerns c.id job.target ∧
        r'.pending (start.route c.id) = [] then (c.send job.payload.frame).1 else c) :
    Carrying settings start job r' where
  fitted := hs.fitted h.fitted
  shards := hs.unmoved.shards.trans h.shards
  alone := Nat.le_trans hs.alone h.alone
  skips := (h.no_skip hserve hs).trans h.skips
  refusals := hs.unmoved.refusals.trans h.refusals
  pending := pending
  roster := roster

theorem Carrying.route_lt (h : Carrying settings start job r) (hstart : start.Sound) (id : ConnectionId) :
    start.route id < r.lanes.length := by
  rw [h.fitted.lanes, h.shards]
  exact Registry.route_lt hstart.shards_nonempty id

section Delivery

variable {k : Nat} {s : Shard} {d : ShardJob} (h : Carrying settings start job r)
  (hd : r.Delivered r' k s d)

include h hd

/-- What a shard delivers is all that was on its way there. -/
theorem Carrying.last : d = job.share ∧ r'.pending k = [] := by
  have hk : k < r.lanes.length := by
    rw [h.fitted.lanes]
    exact (List.getElem?_eq_some_iff.mp hd.shard).1
  rcases h.pending k hk with he | he
  · rw [hd.first] at he
    simp at he
  · rw [hd.first] at he
    exact List.cons.inj he

theorem Carrying.sent (hstart : start.Sound) (i : Nat) :
    r'.roster[i]? = (start.roster[i]?).map fun c =>
      if start.seatOf c.id = some i ∧ start.Concerns c.id job.target ∧
        r'.pending (start.route c.id) = [] then (c.send job.payload.frame).1 else c := by
  obtain ⟨rfl, hlast⟩ := h.last hd
  obtain ⟨hroute, hseat, hconc⟩ := shards_congr h.shards
  have hfirst : r.pending k ≠ [] := by
    rw [hd.first]
    exact List.cons_ne_nil _ _
  rw [hd.getElem? (h.sound hstart), h.roster i]
  cases hc : start.roster[i]? with
  | none => rfl
  | some c =>
    simp only [Option.map_some, hroute, hseat, hconc, Option.some.injEq]
    by_cases hk : start.route c.id = k
    · have hwas : (if start.seatOf c.id = some i ∧ start.Concerns c.id job.target ∧
          r.pending (start.route c.id) = [] then (c.send job.payload.frame).1 else c) = c := by
        rw [hk]
        exact if_neg fun hn => hfirst hn.2.2
      rw [hwas]
      simp only [hk, hlast, true_and, and_true]
      rfl
    · rw [hd.others _ hk]
      split
      next => simp only [Connection.send_id, hk, false_and, and_false, ↓reduceIte]
      next => simp only [hk, false_and, and_false, ↓reduceIte]

end Delivery

theorem Carrying.step (hserve : settings.Serving) (hstart : start.Sound)
    (h : Carrying settings start job r) (hs : PipelineStep r r') : Carrying settings start job r' := by
  have hlanes := hs.unmoved.lanes
  rcases hs.pending h.inOrder (h.no_skip hserve hs) with ⟨hr, _, hp⟩ | ⟨k, s, d, hd⟩
  · refine h.moved hserve hs (fun k hk => ?_) fun i => ?_
    · rw [hlanes] at hk
      rw [hp k hk]
      exact h.pending k hk
    · simp only [hr, h.roster i, fun id => hp _ (h.route_lt hstart id)]
  · refine h.moved hserve hs (fun j hj => ?_) (h.sent hd hstart)
    by_cases hjk : j = k
    · exact Or.inl (hjk ▸ (h.last hd).2)
    · rw [hd.others j hjk]
      exact h.pending j (hlanes ▸ hj)

end Carrying

theorem Quiet.step {r r' : Registry} (hq : r.Quiet) (h : PipelineStep r r') : False := by
  cases h with
  | take waits free => simp [hq.queue] at waits
  | finish offers behind => simp [hq.offerings] at offers
  | accept offers next permit served room => simp [hq.offerings] at offers
  | skip offers next full => simp [hq.offerings] at offers
  | pick serves waits free => simp [(hq.lanes _ (List.mem_of_getElem? serves)).1] at waits
  | deliver serves shard taken => simp [(hq.lanes _ (List.mem_of_getElem? serves)).2] at taken

theorem Quiet.moves {r r' : Registry} (hq : r.Quiet) (h : Moves r r') : r' = r := by
  induction h with
  | refl => rfl
  | step _ hm ih =>
    subst ih
    exact (hq.step (move_step hm)).elim

theorem push_quiet {settings : RegistrySettings} (hserve : settings.Serving) {r : Registry}
    (hf : r.Fitted settings) (hq : r.Quiet) (job : PushJob) :
    r.push job = ({ r with queue := [job] }, .ok ()) := by
  have hserved : r.served = true := by
    rw [hf.running.1]
    have hne : settings.dispatchWorkerCount ≠ 0 := fun h => hserve.dispatchers (by rw [h]; rfl)
    exact decide_eq_true hne
  have hcap := hf.capacity
  have hd := hserve.dispatch
  have hroom : ¬r.dispatchCapacity ≤ r.queue.length := by
    rw [hq.queue, List.length_nil]
    omega
  unfold push
  rw [if_neg (by simp [hf.running.2.1]), if_neg (by simp [hserved]), if_neg hroom, hq.queue]
  rfl

theorem carrying_start {settings : RegistrySettings} {r : Registry} (hf : r.Fitted settings)
    (hq : r.Quiet) (job : PushJob) : Carrying settings r job { r with queue := [job] } := by
  have hp : ∀ k, pending { r with queue := [job] } k = [job.share] := by
    intro k
    have he := hq.pending k
    simp only [Registry.pending, hq.queue, List.map_nil, List.append_nil,
      List.append_eq_nil_iff] at he
    simp only [Registry.pending, he.1, he.2, List.map_cons, List.map_nil, List.nil_append]
  refine ⟨⟨hf.shards, hf.lanes, hf.balanced, hf.capacity, hf.dispatchers, hf.workers, hf.offerings,
    hf.running⟩, rfl, ?_, rfl, rfl, fun k _ => Or.inr (hp k), ?_⟩
  · simp [hq.offerings]
  · intro i
    simp only [hp, List.cons_ne_nil, and_false, ↓reduceIte]
    cases r.roster[i]? <;> rfl

/-- A push that is alone in the pipeline reaches, in any order of the moves, exactly the connections
it is for, each of them once; nothing is turned away. -/
theorem push_delivered {settings : RegistrySettings} (hserve : settings.Serving) {r r' : Registry}
    (hs : r.Sound) (hf : r.Fitted settings) (hq : r.Quiet) (job : PushJob)
    (hm : Moves (r.push job).1 r') (hquiet : r'.Quiet) :
    Carrying settings r job r' ∧ ∀ i : Nat, r'.roster[i]? = (r.roster[i]?).map fun c =>
      if r.seatOf c.id = some i ∧ r.Concerns c.id job.target then (c.send job.payload.frame).1
      else c := by
  rw [push_quiet hserve hf hq] at hm
  have carried : Carrying settings r job r' := by
    clear hquiet
    induction hm with
    | refl => exact carrying_start hf hq job
    | step _ hm ih => exact ih.step hserve hs (move_step hm)
  refine ⟨carried, fun i => ?_⟩
  rw [carried.roster i]
  simp only [hquiet.pending, and_true]

end Registry

end RoomCast
