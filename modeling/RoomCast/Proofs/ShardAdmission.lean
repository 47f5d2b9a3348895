import RoomCast.Proofs.FlatRegistry

namespace RoomCast

inductive QueueRefusal where
  | full
  | closed
deriving DecidableEq, Repr

namespace ShardLane

/-- Takes a free permit, if there is one. -/
def acquire (lane : ShardLane) : Option ShardLane :=
  if lane.permits = 0 then none else some { lane with permits := lane.permits - 1 }

def trySend (lane : ShardLane) (job : ShardJob) : Except QueueRefusal ShardLane :=
  if !lane.served then .error .closed
  else if lane.capacity ≤ lane.queued.length then .error .full
  else .ok { lane with queued := lane.queued ++ [job] }

def giveBack (lane : ShardLane) : ShardLane := { lane with permits := lane.permits + 1 }

/-- Admission is a permit first and a place then; without a place the permit is given back. -/
theorem accept_eq (lane : ShardLane) (job : ShardJob) :
    lane.accept job = match lane.acquire with
      | none => (lane, false)
      | some held =>
        match held.trySend job with
        | .ok sent => (sent, true)
        | .error _ => (held.giveBack, false) := by
  unfold accept acquire trySend
  by_cases hp : lane.permits = 0
  · simp only [if_pos hp]
  · have hback : lane.permits - 1 + 1 = lane.permits := by omega
    simp only [if_neg hp]
    cases hs : lane.served with
    | false => simp [giveBack, hback, ← hs]
    | true =>
      by_cases hc : lane.capacity ≤ lane.queued.length
      · simp [hc, giveBack, hback, ← hs]
      · simp [hc]

theorem acquire_cases (lane : ShardLane) :
    (lane.permits = 0 ∧ lane.acquire = none) ∨
      (0 < lane.permits ∧ lane.acquire = some { lane with permits := lane.permits - 1 }) := by
  by_cases hp : lane.permits = 0
  · exact Or.inl ⟨hp, if_pos hp⟩
  · exact Or.inr ⟨by omega, if_neg hp⟩

theorem trySend_cases (lane : ShardLane) (job : ShardJob) :
    (lane.served = false ∧ lane.trySend job = .error .closed) ∨
      (lane.capacity ≤ lane.queued.length ∧ lane.trySend job = .error .full) ∨
      (lane.queued.length < lane.capacity ∧
        lane.trySend job = .ok { lane with queued := lane.queued ++ [job] }) := by
  unfold trySend
  cases hs : lane.served with
  | false => exact Or.inl ⟨rfl, rfl⟩
  | true =>
    by_cases hc : lane.capacity ≤ lane.queued.length
    · exact Or.inr (Or.inl ⟨hc, by simp [hc]⟩)
    · exact Or.inr (Or.inr ⟨by omega, by simp [hc]⟩)

end ShardLane

/-- A lane with the number of dispatchers that have a permit of it and have not sent their job yet. -/
structure LaneDesk where
  lane : ShardLane
  holders : Nat

inductive LaneStep where
  | acquire
  | send (job : ShardJob)
  | receive
  | release (i : Nat)

namespace LaneDesk

def step (d : LaneDesk) : LaneStep → LaneDesk
  | .acquire =>
    match d.lane.acquire with
    | none => d
    | some lane => ⟨lane, d.holders + 1⟩
  | .send job =>
    if d.holders = 0 then d
    else
      match d.lane.trySend job with
      | .ok lane => ⟨lane, d.holders - 1⟩
      | .error _ => ⟨d.lane.giveBack, d.holders - 1⟩
  | .receive => ⟨d.lane.take, d.holders⟩
  | .release i => ⟨d.lane.release i, d.holders⟩

def run (capacity workers : Nat) (steps : List LaneStep) : LaneDesk :=
  steps.foldl step ⟨.create capacity workers, 0⟩

/-- Every permit is free, in the hands of a dispatcher, or goes with a job. -/
structure Kept (capacity : Nat) (d : LaneDesk) : Prop where
  size : d.lane.capacity = capacity
  permits : d.lane.permits + d.holders + d.lane.queued.length + d.lane.taken.length = capacity

theorem Kept.step {capacity : Nat} {d : LaneDesk} (h : d.Kept capacity) (e : LaneStep) :
    (d.step e).Kept capacity := by
  have hp := h.permits
  cases e with
  | acquire =>
    rcases d.lane.acquire_cases with ⟨_, he⟩ | ⟨hfree, he⟩
    · simp only [LaneDesk.step, he]
      exact h
    · simp only [LaneDesk.step, he]
      exact ⟨h.size, by simp only; omega⟩
  | send job =>
    simp only [LaneDesk.step]
    split
    next => exact h
    next hheld =>
      rcases d.lane.trySend_cases job with ⟨_, he⟩ | ⟨_, he⟩ | ⟨_, he⟩ <;> rw [he]
      · exact ⟨h.size, by simp only [ShardLane.giveBack]; omega⟩
      · exact ⟨h.size, by simp only [ShardLane.giveBack]; omega⟩
      · exact ⟨h.size, by simp only [List.length_append, List.length_singleton]; omega⟩
  | receive =>
    simp only [LaneDesk.step, ShardLane.take]
    split
    next => exact h
    next job rest hq =>
      rw [hq, List.length_cons] at hp
      exact ⟨h.size, by simp only [List.length_append, List.length_singleton]; omega⟩
  | release i =>
    simp only [LaneDesk.step, ShardLane.release]
    split
    next hi =>
      have he := List.length_eraseIdx_of_lt hi
      exact ⟨h.size, by simp only [he]; omega⟩
    next => exact h

theorem run_kept (capacity workers : Nat) (steps : List LaneStep) :
    (run capacity workers steps).Kept capacity := by
  induction steps using List.reverseRecOn with
  | nil => exact ⟨rfl, rfl⟩
  | append_singleton steps e ih =>
    rw [run, List.foldl_append]
    exact ih.step e

/-- Who has a permit is never told that the queue is full. -/
theorem Kept.trySend_ne_full {capacity : Nat} {d : LaneDesk} (h : d.Kept capacity)
    (hheld : 0 < d.holders) (job : ShardJob) : d.lane.trySend job ≠ .error .full := by
  have hp := h.permits
  have hsize := h.size
  rcases d.lane.trySend_cases job with ⟨_, he⟩ | ⟨hfull, _⟩ | ⟨_, he⟩
  · rw [he]
    simp
  · omega
  · rw [he]
    simp

end LaneDesk

namespace Registry

/-- A worker of a shard offers a job it has taken to the connections it is for, and keeps the job. -/
def broadcastTaken (r : Registry) (shard i : Nat) : Option Registry :=
  match r.lanes[shard]?, r.shards[shard]? with
  | some lane, some s =>
    match lane.taken[i]? with
    | none => none
    | some job =>
      let offered := s.broadcast r.roster job.target job.frame
      some { r with
        roster := offered.roster
        counters := { r.counters with outboundDrops := r.counters.outboundDrops + offered.dropped } }
  | _, _ => none

def releaseTaken (r : Registry) (shard i : Nat) : Option Registry :=
  match r.lanes[shard]? with
  | none => none
  | some lane =>
    if i < lane.taken.length then some { r with lanes := r.lanes.set shard (lane.release i) } else none

/-- A delivery is a broadcast, after which the job is let go of. -/
theorem deliver_eq (r : Registry) (shard i : Nat) :
    r.deliver shard i = (r.broadcastTaken shard i).bind (·.releaseTaken shard i) := by
  unfold Registry.deliver broadcastTaken
  cases hl : r.lanes[shard]? with
  | none => rfl
  | some lane =>
    cases r.shards[shard]? with
    | none => rfl
    | some s =>
      simp only
      cases hj : lane.taken[i]? with
      | none => rfl
      | some job =>
        have hi : i < lane.taken.length := (List.getElem?_eq_some_iff.mp hj).1
        simp only [Option.bind_some, releaseTaken, hl, if_pos hi]

end Registry

/-- What can happen to a registry that is not shut down: calls, and moves of dispatchers and workers,
with the two halves of a delivery apart. -/
inductive AdmissionEvent where
  | call (c : RegistryCall)
  | take
  | offer (dispatcher : Nat)
  | receive (shard : Nat)
  | broadcast (shard worker : Nat)
  | release (shard worker : Nat)

/-- Whether an event is one of the workers of a shard. -/
def AdmissionEvent.isWorkAt (k : Nat) : AdmissionEvent → Bool
  | .receive shard => shard = k
  | .broadcast shard _ => shard = k
  | .release shard _ => shard = k
  | _ => false

namespace Registry

/-- The registry after an event; a move that has to wait changes nothing. -/
def follow (r : Registry) : AdmissionEvent → Registry
  | .call c => (r.call c).1
  | .take => r.takeJob.getD r
  | .offer dispatcher => (r.offerNext dispatcher).getD r
  | .receive shard => (r.takeShardJob shard).getD r
  | .broadcast shard worker => (r.broadcastTaken shard worker).getD r
  | .release shard worker => (r.releaseTaken shard worker).getD r

def runAdmission (settings : RegistrySettings) (events : List AdmissionEvent) : Registry :=
  events.foldl follow (create settings)

theorem call_fitted {settings : RegistrySettings} {r : Registry} (hf : r.Fitted settings)
    (c : RegistryCall) : (r.call c).1.Fitted settings := by
  by_cases hc : ∃ job, c = .push job
  · obtain ⟨job, rfl⟩ := hc
    exact push_fitted hf job
  · exact (r.call_samePipeline c (not_exists.mp hc)).1.fitted hf

theorem releaseTaken_cases {r r' : Registry} {k i : Nat} (h : r.releaseTaken k i = some r') :
    ∃ lane, r.lanes[k]? = some lane ∧ i < lane.taken.length ∧ r' = { r with
      lanes := r.lanes.set k
        { lane with permits := lane.permits + 1, taken := lane.taken.eraseIdx i } } := by
  unfold releaseTaken at h
  split at h
  next => simp at h
  next lane hl =>
    split at h
    next hi =>
      have he : lane.release i =
          { lane with permits := lane.permits + 1, taken := lane.taken.eraseIdx i } := if_pos hi
      exact ⟨lane, hl, hi, by rw [← he]; exact (Option.some.inj h).symm⟩
    next => simp at h

theorem broadcastTaken_samePipeline {r r' : Registry} {k i : Nat}
    (h : r.broadcastTaken k i = some r') : ∃ roster counters,
      r' = { r with roster := roster, counters := counters } ∧
        counters.shardSkips = r.counters.shardSkips := by
  unfold broadcastTaken at h
  split at h
  next =>
    split at h
    next => simp at h
    next => exact ⟨_, _, (Option.some.inj h).symm, rfl⟩
  next => simp at h

theorem follow_fitted {settings : RegistrySettings} {r : Registry} (hf : r.Fitted settings)
    (e : AdmissionEvent) : (r.follow e).Fitted settings := by
  have moved : ∀ next : Option Registry, (∀ r', next = some r' → PipelineStep r r') →
      (next.getD r).Fitted settings := by
    intro next hstep
    cases next with
    | none => exact hf
    | some r' => exact (hstep r' rfl).fitted hf
  cases e with
  | call c => exact call_fitted hf c
  | take => exact moved _ fun _ h => takeJob_step h
  | offer dispatcher => exact moved _ fun _ h => offerNext_step h
  | receive shard => exact moved _ fun _ h => takeShardJob_step h
  | broadcast shard worker =>
    simp only [follow]
    cases h : r.broadcastTaken shard worker with
    | none => exact hf
    | some r' =>
      obtain ⟨roster, counters, rfl, _⟩ := broadcastTaken_samePipeline h
      exact ⟨hf.shards, hf.lanes, hf.balanced, hf.capacity, hf.dispatchers, hf.workers, hf.offerings,
        hf.running⟩
  | release shard worker =>
    simp only [follow]
    cases h : r.releaseTaken shard worker with
    | none => exact hf
    | some r' =>
      obtain ⟨lane, hl, hi, rfl⟩ := releaseTaken_cases h
      have hb := hf.balanced _ (List.mem_of_getElem? hl)
      have he := List.length_eraseIdx_of_lt hi
      have hp := hb.permits
      have ht := hb.taken
      refine ⟨hf.shards, List.length_set.trans hf.lanes, ?_, hf.capacity, hf.dispatchers, hf.workers,
        hf.offerings, hf.running⟩
      refine balanced_set hf.balanced ⟨hb.size, ?_, hb.served, ?_⟩
      · simp only [he]
        omega
      · simp only [he]
        omega

theorem runAdmission_fitted (settings : RegistrySettings) (events : List AdmissionEvent) :
    (runAdmission settings events).Fitted settings := by
  induction events using List.reverseRecOn with
  | nil => exact create_fitted settings
  | append_singleton events e ih =>
    rw [runAdmission, List.foldl_append]
    exact follow_fitted ih e

/-- A shard that is offered a job turns it away, and then nothing of the shard changes, or admits it. -/
theorem offer_outcome {settings : RegistrySettings} {r : Registry} (hf : r.Fitted settings) {d : Nat}
    {o : Offering} {lane : ShardLane} (ho : r.offerings[d]? = some o)
    (hl : r.lanes[o.next]? = some lane) :
    let r' := r.follow (.offer d)
    if lane.queued.length + lane.taken.length = settings.shardJobChannelSize.toNat ∨
        settings.shardJobWorkerCount.toNat = 0 then
      r'.counters.shardSkips = r.counters.shardSkips + 1 ∧ r'.lanes = r.lanes
    else
      r'.counters.shardSkips = r.counters.shardSkips ∧ r'.lanes = r.lanes.set o.next
        { lane with permits := lane.permits - 1, queued := lane.queued ++ [o.job] } := by
  have hb := hf.balanced _ (List.mem_of_getElem? hl)
  have hp := hb.permits
  have hsize := hb.size
  have hserved : lane.served = false ↔ settings.shardJobWorkerCount.toNat = 0 := by
    rw [hb.served]
    simp
  intro r'
  rcases lane.accept_cases o.job with ⟨hfull, he⟩ | ⟨hfree, hs, hroom, he⟩
  · have hoffer : r' = { r with
        offerings := r.offerings.set d { o with next := o.next + 1 }
        counters := { r.counters with shardSkips := r.counters.shardSkips + 1 } } := by
      simp [r', follow, offerNext, ho, hl, he, set_same hl]
    rw [if_pos, hoffer]
    · exact ⟨rfl, rfl⟩
    · rcases hfull with h | h | h
      · exact Or.inl (by omega)
      · exact Or.inr (hserved.mp h)
      · exact Or.inl (by omega)
  · have hoffer : r' = { r with
        lanes := r.lanes.set o.next
          { lane with permits := lane.permits - 1, queued := lane.queued ++ [o.job] }
        offerings := r.offerings.set d { o with next := o.next + 1 } } := by
      simp [r', follow, offerNext, ho, hl, he]
    rw [if_neg, hoffer]
    · exact ⟨rfl, rfl⟩
    · rintro (h | h)
      · omega
      · rw [hserved.mpr h] at hs
        simp at hs

/-- Two registries whose pipelines differ at most in the lane of one shard. -/
structure AlikeOff (k : Nat) (r r' : Registry) : Prop where
  queue : r'.queue = r.queue
  offerings : r'.offerings = r.offerings
  sizes : r'.dispatchCapacity = r.dispatchCapacity ∧ r'.dispatchers = r.dispatchers ∧
    r'.workersPerShard = r.workersPerShard
  signals : r'.served = r.served ∧ r'.cancelled = r.cancelled
  width : r'.lanes.length = r.lanes.length
  lanes : ∀ j, j ≠ k → r'.lanes[j]? = r.lanes[j]?

theorem alikeOff_refl (k : Nat) (r : Registry) : AlikeOff k r r :=
  ⟨rfl, rfl, ⟨rfl, rfl, rfl⟩, ⟨rfl, rfl⟩, rfl, fun _ _ => rfl⟩

theorem AlikeOff.trans {k : Nat} {r r' r'' : Registry} (h : AlikeOff k r r')
    (h' : AlikeOff k r' r'') : AlikeOff k r r'' :=
  ⟨h'.queue.trans h.queue, h'.offerings.trans h.offerings,
    ⟨h'.sizes.1.trans h.sizes.1, h'.sizes.2.1.trans h.sizes.2.1, h'.sizes.2.2.trans h.sizes.2.2⟩,
    ⟨h'.signals.1.trans h.signals.1, h'.signals.2.trans h.signals.2⟩, h'.width.trans h.width,
    fun j hj => (h'.lanes j hj).trans (h.lanes j hj)⟩

theorem AlikeOff.symm {k : Nat} {r r' : Registry} (h : AlikeOff k r r') : AlikeOff k r' r :=
  ⟨h.queue.symm, h.offerings.symm, ⟨h.sizes.1.symm, h.sizes.2.1.symm, h.sizes.2.2.symm⟩,
    ⟨h.signals.1.symm, h.signals.2.symm⟩, h.width.symm, fun j hj => (h.lanes j hj).symm⟩

theorem alikeOff_aside (k : Nat) (r : Registry) (shards : List Shard) (roster : Roster)
    (counters : RegistryCounters) :
    AlikeOff k r { r with shards := shards, roster := roster, counters := counters } :=
  ⟨rfl, rfl, ⟨rfl, rfl, rfl⟩, ⟨rfl, rfl⟩, rfl, fun _ _ => rfl⟩

theorem AlikeOff.setLane {k : Nat} {r r' : Registry} (h : AlikeOff k r r') (j : Nat)
    (lane lane' : ShardLane) (hl : j ≠ k → lane' = lane) :
    AlikeOff k { r with lanes := r.lanes.set j lane } { r' with lanes := r'.lanes.set j lane' } := by
  refine ⟨h.queue, h.offerings, h.sizes, h.signals, ?_, ?_⟩
  · simp only [List.length_set]
    exact h.width
  · intro i hi
    by_cases hj : j = i
    · subst hj
      simp only [hl hi, List.getElem?_set_self', h.lanes j hi]
    · simp only [List.getElem?_set_ne hj, h.lanes i hi]

theorem follow_work_alikeOff (r : Registry) {k : Nat} {e : AdmissionEvent} (he : e.isWorkAt k = true) :
    AlikeOff k r (r.follow e) := by
  have lane : ∀ lane, AlikeOff k r { r with lanes := r.lanes.set k lane } := fun _ =>
    ⟨rfl, rfl, ⟨rfl, rfl, rfl⟩, ⟨rfl, rfl⟩, List.length_set,
      fun _ hj => List.getElem?_set_ne (Ne.symm hj)⟩
  cases e with
  | call c => simp [AdmissionEvent.isWorkAt] at he
  | take => simp [AdmissionEvent.isWorkAt] at he
  | offer dispatcher => simp [AdmissionEvent.isWorkAt] at he
  | receive shard =>
    obtain rfl : shard = k := of_decide_eq_true he
    simp only [follow, takeShardJob]
    split
    next => exact alikeOff_refl _ r
    next =>
      split
      next => exact lane _
      next => exact alikeOff_refl _ r
  | broadcast shard worker =>
    simp only [follow]
    cases h : r.broadcastTaken shard worker with
    | none => exact alikeOff_refl _ r
    | some r' =>
      obtain ⟨roster, counters, rfl, _⟩ := broadcastTaken_samePipeline h
      exact alikeOff_aside k r r.shards roster counters
  | release shard worker =>
    obtain rfl : shard = k := of_decide_eq_true he
    simp only [follow, releaseTaken]
    split
    next => exact alikeOff_refl _ r
    next =>
      split
      next => exact lane _
      next => exact alikeOff_refl _ r

theorem AlikeOff.call {k : Nat} {r r' : Registry} (h : AlikeOff k r r') (c : RegistryCall) :
    AlikeOff k (r.call c).1 (r'.call c).1 := by
  by_cases hc : ∃ job, c = .push job
  · obtain ⟨job, rfl⟩ := hc
    simp only [Registry.call, push, h.queue, h.sizes.1, h.signals.1, h.signals.2]
    split
    next => exact h
    next =>
      split
      next => exact h
      next =>
        split
        next => exact ⟨rfl, h.offerings, ⟨rfl, h.sizes.2⟩, ⟨rfl, rfl⟩, h.width, h.lanes⟩
        next => exact ⟨rfl, h.offerings, ⟨rfl, h.sizes.2⟩, ⟨rfl, rfl⟩, h.width, h.lanes⟩
  · obtain ⟨shards, roster, he, _⟩ := (r.call_samePipeline c (not_exists.mp hc)).1
    obtain ⟨shards', roster', he', _⟩ := (r'.call_samePipeline c (not_exists.mp hc)).1
    rw [he, he']
    exact ((alikeOff_aside k r shards roster r.counters).symm.trans h).trans
      (alikeOff_aside k r' shards' roster' r'.counters)

theorem AlikeOff.offer {k : Nat} {r r' : Registry} (h : AlikeOff k r r') (d : Nat) :
    AlikeOff k (r.follow (.offer d)) (r'.follow (.offer d)) := by
  simp only [follow, offerNext, h.offerings]
  cases ho : r.offerings[d]? with
  | none => exact h
  | some o =>
    simp only
    by_cases hk : o.next = k
    · -- the two may differ in the shard asked, but have it both or neither
      by_cases hn : k < r.lanes.length
      · have hn' : k < r'.lanes.length := h.width ▸ hn
        have hset := h.setLane k (r.lanes[k].accept o.job).1 (r'.lanes[k].accept o.job).1
          fun hne => absurd rfl hne
        simp only [hk, List.getElem?_eq_getElem hn, List.getElem?_eq_getElem hn']
        exact ⟨hset.queue, rfl, hset.sizes, hset.signals, hset.width, hset.lanes⟩
      · have hn' : ¬k < r'.lanes.length := h.width ▸ hn
        simp only [hk, List.getElem?_eq_none (Nat.le_of_not_lt hn),
          List.getElem?_eq_none (Nat.le_of_not_lt hn')]
        exact ⟨h.queue, rfl, h.sizes, h.signals, h.width, h.lanes⟩
    · simp only [h.lanes _ hk]
      cases hl : r.lanes[o.next]? with
      | none => exact ⟨h.queue, rfl, h.sizes, h.signals, h.width, h.lanes⟩
      | some lane =>
        have hset := h.setLane o.next (lane.accept o.job).1 (lane.accept o.job).1 fun _ => rfl
        exact ⟨hset.queue, rfl, hset.sizes, hset.signals, hset.width, hset.lanes⟩

theorem AlikeOff.follow {k : Nat} {r r' : Registry} (h : AlikeOff k r r') (e : AdmissionEvent) :
    AlikeOff k (r.follow e) (r'.follow e) := by
  by_cases he : e.isWorkAt k = true
  · exact ((r.follow_work_alikeOff he).symm.trans h).trans (r'.follow_work_alikeOff he)
  cases e with
  | call c => exact h.call c
  | take =>
    simp only [Registry.follow, takeJob, h.queue, h.offerings, h.sizes.2.1]
    cases r.queue with
    | nil => exact h
    | cons job rest =>
      simp only
      split
      next =>
        exact ⟨rfl, rfl, ⟨h.sizes.1, rfl, h.sizes.2.2⟩, h.signals, h.width, h.lanes⟩
      next => exact h
  | offer d => exact h.offer d
  | receive shard =>
    have hs : shard ≠ k := by simpa [AdmissionEvent.isWorkAt] using he
    simp only [Registry.follow, takeShardJob, h.lanes _ hs, h.sizes.2.2]
    cases r.lanes[shard]? with
    | none => exact h
    | some lane =>
      have hset := h.setLane shard lane.take lane.take fun _ => rfl
      simp only
      split
      next =>
        exact ⟨hset.queue, hset.offerings, ⟨h.sizes.1, h.sizes.2.1, rfl⟩, hset.signals, hset.width,
          hset.lanes⟩
      next => exact h
  | broadcast shard worker =>
    -- neither lane changes, whichever of the two has such a job
    have aside : ∀ r : Registry, AlikeOff k r (r.follow (.broadcast shard worker)) := by
      intro r
      simp only [Registry.follow]
      cases hb : r.broadcastTaken shard worker with
      | none => exact alikeOff_refl k r
      | some r' =>
        obtain ⟨roster, counters, rfl, _⟩ := broadcastTaken_samePipeline hb
        exact alikeOff_aside k r r.shards roster counters
    exact ((aside r).symm.trans h).trans (aside r')
  | release shard worker =>
    have hs : shard ≠ k := by simpa [AdmissionEvent.isWorkAt] using he
    simp only [Registry.follow, releaseTaken, h.lanes _ hs]
    cases r.lanes[shard]? with
    | none => exact h
    | some lane =>
      simp only
      split
      next => exact h.setLane shard _ _ fun _ => rfl
      next => exact h

/-- Off a shard, a run goes as it would if the workers of that shard did nothing. -/
theorem runAdmission_alikeOff (settings : RegistrySettings) (k : Nat) (events : List AdmissionEvent) :
    AlikeOff k (runAdmission settings (events.filter (!·.isWorkAt k)))
      (runAdmission settings events) := by
  induction events using List.reverseRecOn with
  | nil => exact alikeOff_refl k _
  | append_singleton events e ih =>
    rw [runAdmission, runAdmission, List.filter_append, List.foldl_append, List.foldl_append]
    cases he : e.isWorkAt k with
    | true =>
      simp only [List.filter_cons, he, Bool.not_true, Bool.false_eq_true, if_false, List.filter_nil,
        List.foldl_nil, List.foldl_cons]
      exact ih.trans (follow_work_alikeOff _ he)
    | false =>
      simp only [List.filter_cons, he, Bool.not_false, if_true, List.filter_nil, List.foldl_nil,
        List.foldl_cons]
      exact ih.follow e

/-- The permits of a shard are free or go with unfinished jobs, so who has a permit finds a place, and
what other shards admit does not depend on it. -/
theorem admission_permits (settings : RegistrySettings) (events : List AdmissionEvent) :
    let r := runAdmission settings events
    let capacity := settings.shardJobChannelSize.toNat
    (∀ lane ∈ r.lanes,
      lane.permits + lane.queued.length + lane.taken.length = capacity ∧
        ∀ held, lane.acquire = some held → ∀ job, held.trySend job ≠ .error .full) ∧
    (∀ d o lane, r.offerings[d]? = some o → r.lanes[o.next]? = some lane →
      let r' := r.follow (.offer d)
      if lane.queued.length + lane.taken.length = capacity ∨
          settings.shardJobWorkerCount.toNat = 0 then
        r'.counters.shardSkips = r.counters.shardSkips + 1 ∧ r'.lanes = r.lanes
      else
        r'.counters.shardSkips = r.counters.shardSkips ∧ r'.lanes = r.lanes.set o.next
          { lane with permits := lane.permits - 1, queued := lane.queued ++ [o.job] }) ∧
    (∀ k j, j ≠ k →
      r.lanes[j]? = (runAdmission settings (events.filter (!·.isWorkAt k))).lanes[j]?) ∧
    ∀ workers steps,
      let desk := LaneDesk.run capacity workers steps
      desk.lane.permits + desk.holders + desk.lane.queued.length + desk.lane.taken.length = capacity ∧
        (0 < desk.holders → ∀ job, desk.lane.trySend job ≠ .error .full) := by
  intro r capacity
  have hf := runAdmission_fitted settings events
  refine ⟨?_, fun d o lane ho hl => offer_outcome hf ho hl, ?_, ?_⟩
  · intro lane hl
    have hb := hf.balanced lane hl
    refine ⟨hb.permits, fun held ha job => ?_⟩
    rcases lane.acquire_cases with ⟨_, hn⟩ | ⟨hfree, hh⟩
    · rw [hn] at ha
      simp at ha
    · rw [hh] at ha
      have hp := hb.permits
      have hkept : LaneDesk.Kept capacity ⟨held, 1⟩ := by
        cases Option.some.inj ha
        exact ⟨hb.size, by simp only; omega⟩
      exact hkept.trySend_ne_full Nat.one_pos job
  · intro k j hj
    exact (runAdmission_alikeOff settings k events).lanes j hj
  · intro workers steps
    have hk := LaneDesk.run_kept capacity workers steps
    exact ⟨hk.permits, fun hheld job => hk.trySend_ne_full hheld job⟩

/-- Without workers nobody receives from the queue, and an empty shard turns a job away. -/
theorem workerless_shard_turns_away :
    let settings : RegistrySettings := ⟨1, 4, 1, 1, 0⟩
    let r := runAdmission settings [.call (.push ⟨.all, ⟨[]⟩⟩), .take]
    settings.shardJobChannelSize.toNat = 1 ∧
    r.lanes.map (fun lane => lane.queued.length + lane.taken.length) = [0] ∧
    r.offerings.map (·.next) = [0] ∧
    (r.follow (.offer 0)).counters.shardSkips = r.counters.shardSkips + 1 := by
  decide

end Registry

end RoomCast
