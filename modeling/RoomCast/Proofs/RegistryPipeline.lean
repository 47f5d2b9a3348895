import Mathlib.Data.Option.Basic
import RoomCast.Proofs.RosterOffer
import RoomCast.Proofs.TableLookup
import RoomCast.Registry

namespace RoomCast

/-- A move of a dispatcher or of a worker. -/
inductive PipelineMove where
  | take
  | offer (dispatcher : Nat)
  | pick (shard : Nat)
  | deliver (shard worker : Nat)
deriving DecidableEq, Repr

/-- What each shard gets of a push. -/
def PushJob.share (job : PushJob) : ShardJob := ⟨job.target, job.payload.frame⟩

def ShardLane.jobs (lane : ShardLane) : List ShardJob := lane.taken ++ lane.queued

/-- Every permit is free or goes with a job. -/
structure ShardLane.Balanced (lane : ShardLane) (capacity workers : Nat) : Prop where
  size : lane.capacity = capacity
  permits : lane.permits + lane.queued.length + lane.taken.length = capacity
  served : lane.served = decide (workers ≠ 0)
  taken : lane.taken.length ≤ workers

theorem ShardLane.accept_cases (lane : ShardLane) (job : ShardJob) :
    ((lane.permits = 0 ∨ lane.served = false ∨ lane.capacity ≤ lane.queued.length) ∧
      lane.accept job = (lane, false)) ∨
    (0 < lane.permits ∧ lane.served = true ∧ lane.queued.length < lane.capacity ∧
      lane.accept job =
        ({ lane with permits := lane.permits - 1, queued := lane.queued ++ [job] }, true)) := by
  unfold accept
  by_cases hp : lane.permits = 0
  · exact Or.inl ⟨Or.inl hp, by rw [if_pos hp]⟩
  · rw [if_neg hp]
    cases hs : lane.served with
    | false => exact Or.inl ⟨Or.inr (Or.inl rfl), by simp⟩
    | true =>
      by_cases hc : lane.capacity ≤ lane.queued.length
      · exact Or.inl ⟨Or.inr (Or.inr hc), by simp [hc]⟩
      · exact Or.inr ⟨by omega, rfl, by omega, by simp [hc]⟩

namespace Registry

def move (r : Registry) : PipelineMove → Option Registry
  | .take => r.takeJob
  | .offer dispatcher => r.offerNext dispatcher
  | .pick shard => r.takeShardJob shard
  | .deliver shard worker => r.deliver shard worker

inductive PipelineStep (r : Registry) : Registry → Prop where
  | take {job : PushJob} {rest : List PushJob} (waits : r.queue = job :: rest)
      (free : r.offerings.length < r.dispatchers) :
      PipelineStep r { r with queue := rest, offerings := r.offerings ++ [⟨job.share, 0⟩] }
  | finish {i : Nat} {o : Offering} (offers : r.offerings[i]? = some o)
      (behind : r.lanes.length ≤ o.next) :
      PipelineStep r { r with offerings := r.offerings.eraseIdx i }
  | accept {i : Nat} {o : Offering} {lane : ShardLane} (offers : r.offerings[i]? = some o)
      (next : r.lanes[o.next]? = some lane) (permit : 0 < lane.permits)
      (served : lane.served = true) (room : lane.queued.length < lane.capacity) :
      PipelineStep r { r with
        lanes := r.lanes.set o.next
          { lane with permits := lane.permits - 1, queued := lane.queued ++ [o.job] }
        offerings := r.offerings.set i { o with next := o.next + 1 } }
  | skip {i : Nat} {o : Offering} {lane : ShardLane} (offers : r.offerings[i]? = some o)
      (next : r.lanes[o.next]? = some lane)
      (full : lane.permits = 0 ∨ lane.served = false ∨ lane.capacity ≤ lane.queued.length) :
      PipelineStep r { r with
        offerings := r.offerings.set i { o with next := o.next + 1 }
        counters := { r.counters with shardSkips := r.counters.shardSkips + 1 } }
  | pick {k : Nat} {lane : ShardLane} {job : ShardJob} {rest : List ShardJob}
      (serves : r.lanes[k]? = some lane) (waits : lane.queued = job :: rest)
      (free : lane.taken.length < r.workersPerShard) :
      PipelineStep r { r with
        lanes := r.lanes.set k { lane with queued := rest, taken := lane.taken ++ [job] } }
  | deliver {k i : Nat} {lane : ShardLane} {s : Shard} {job : ShardJob}
      (serves : r.lanes[k]? = some lane) (shard : r.shards[k]? = some s)
      (taken : lane.taken[i]? = some job) :
      PipelineStep r { r with
        roster := (s.broadcast r.roster job.target job.frame).roster
        lanes := r.lanes.set k
          { lane with permits := lane.permits + 1, taken := lane.taken.eraseIdx i }
        counters := { r.counters with outboundDrops :=
          r.counters.outboundDrops + (s.broadcast r.roster job.target job.frame).dropped } }

theorem takeJob_cases {r r' : Registry} (h : r.takeJob = some r') :
    ∃ job rest, r.queue = job :: rest ∧ r.offerings.length < r.dispatchers ∧
      r' = { r with queue := rest, offerings := r.offerings ++ [⟨job.share, 0⟩] } := by
  unfold takeJob at h
  split at h
  next => simp at h
  next job rest hq =>
    split at h
    next hf => exact ⟨job, rest, hq, hf, (Option.some.inj h).symm⟩
    next => simp at h

theorem offerNext_cases {r r' : Registry} {d : Nat} (h : r.offerNext d = some r') :
    ∃ o, r.offerings[d]? = some o ∧
      ((r.lanes[o.next]? = none ∧ r' = { r with offerings := r.offerings.eraseIdx d }) ∨
        ∃ lane, r.lanes[o.next]? = some lane ∧
          (((lane.accept o.job).2 = false ∧ r' = { r with
              offerings := r.offerings.set d { o with next := o.next + 1 }
              counters := { r.counters with shardSkips := r.counters.shardSkips + 1 } }) ∨
            ((lane.accept o.job).2 = true ∧ r' = { r with
              lanes := r.lanes.set o.next
                { lane with permits := lane.permits - 1, queued := lane.queued ++ [o.job] }
              offerings := r.offerings.set d { o with next := o.next + 1 } }))) := by
  unfold offerNext at h
  split at h
  next => simp at h
  next o ho =>
    refine ⟨o, ho, ?_⟩
    split at h
    next hl => exact Or.inl ⟨hl, (Option.some.inj h).symm⟩
    next lane hl =>
      refine Or.inr ⟨lane, hl, ?_⟩
      rcases lane.accept_cases o.job with ⟨_, he⟩ | ⟨_, _, _, he⟩
      · simp only [he, Bool.false_eq_true, ↓reduceIte, set_same hl] at h
        exact Or.inl ⟨by rw [he], (Option.some.inj h).symm⟩
      · simp only [he, ↓reduceIte] at h
        exact Or.inr ⟨by rw [he], (Option.some.inj h).symm⟩

theorem takeShardJob_cases {r r' : Registry} {k : Nat} (h : r.takeShardJob k = some r') :
    ∃ lane job rest, r.lanes[k]? = some lane ∧ lane.queued = job :: rest ∧
      lane.taken.length < r.workersPerShard ∧ r' = { r with
        lanes := r.lanes.set k { lane with queued := rest, taken := lane.taken ++ [job] } } := by
  unfold takeShardJob at h
  split at h
  next => simp at h
  next lane hl =>
    split at h
    next hf =>
      obtain ⟨job, rest, hq⟩ := List.exists_cons_of_ne_nil hf.1
      have ht : lane.take = { lane with queued := rest, taken := lane.taken ++ [job] } := by
        simp [ShardLane.take, hq]
      exact ⟨lane, job, rest, hl, hq, hf.2, by rw [← ht]; exact (Option.some.inj h).symm⟩
    next => simp at h

theorem deliver_cases {r r' : Registry} {k i : Nat} (h : r.deliver k i = some r') :
    ∃ lane s job, r.lanes[k]? = some lane ∧ r.shards[k]? = some s ∧ lane.taken[i]? = some job ∧
      r' = { r with
        roster := (s.broadcast r.roster job.target job.frame).roster
        lanes := r.lanes.set k
          { lane with permits := lane.permits + 1, taken := lane.taken.eraseIdx i }
        counters := { r.counters with outboundDrops :=
          r.counters.outboundDrops + (s.broadcast r.roster job.target job.frame).dropped } } := by
  unfold Registry.deliver at h
  split at h
  next lane s hl hs =>
    split at h
    next => simp at h
    next job hj =>
      have hi : i < lane.taken.length := (List.getElem?_eq_some_iff.mp hj).1
      have ht : lane.release i =
          { lane with permits := lane.permits + 1, taken := lane.taken.eraseIdx i } := if_pos hi
      exact ⟨lane, s, job, hl, hs, hj, by rw [← ht]; exact (Option.some.inj h).symm⟩
  next => simp at h

theorem takeJob_step {r r' : Registry} (h : r.takeJob = some r') : PipelineStep r r' := by
  obtain ⟨job, rest, hq, hf, rfl⟩ := takeJob_cases h
  exact .take hq hf

theorem offerNext_step {r r' : Registry} {i : Nat} (h : r.offerNext i = some r') :
    PipelineStep r r' := by
  obtain ⟨o, ho, ⟨hl, rfl⟩ | ⟨lane, hl, hout⟩⟩ := offerNext_cases h
  · exact .finish ho (List.getElem?_eq_none_iff.mp hl)
  · rcases lane.accept_cases o.job with ⟨hf, he⟩ | ⟨hp, hs, hr, he⟩ <;> rw [he] at hout
    · obtain ⟨_, rfl⟩ | ⟨hn, _⟩ := hout
      · exact .skip ho hl hf
      · cases hn
    · obtain ⟨hn, _⟩ | ⟨_, rfl⟩ := hout
      · cases hn
      · exact .accept ho hl hp hs hr

theorem takeShardJob_step {r r' : Registry} {k : Nat} (h : r.takeShardJob k = some r') :
    PipelineStep r r' := by
  obtain ⟨lane, job, rest, hl, hq, hf, rfl⟩ := takeShardJob_cases h
  exact .pick hl hq hf

theorem deliver_step {r r' : Registry} {k i : Nat} (h : r.deliver k i = some r') :
    PipelineStep r r' := by
  obtain ⟨lane, s, job, hl, hs, hj, rfl⟩ := deliver_cases h
  exact .deliver hl hs hj

theorem move_step {r r' : Registry} {m : PipelineMove} (h : r.move m = some r') :
    PipelineStep r r' := by
  cases m with
  | take => exact takeJob_step h
  | offer dispatcher => exact offerNext_step h
  | pick shard => exact takeShardJob_step h
  | deliver shard worker => exact deliver_step h

/-- What no move changes: the tables, the sizes and the signals. -/
structure Unmoved (r r' : Registry) : Prop where
  shards : r'.shards = r.shards
  lanes : r'.lanes.length = r.lanes.length
  bare : r'.roster.map Connection.bare = r.roster.map Connection.bare
  sizes : r'.dispatchCapacity = r.dispatchCapacity ∧ r'.dispatchers = r.dispatchers ∧
    r'.workersPerShard = r.workersPerShard
  signals : r'.served = r.served ∧ r'.cancelled = r.cancelled ∧ r'.stopped = r.stopped
  refusals : r'.counters.dispatchDrops = r.counters.dispatchDrops

theorem PipelineStep.unmoved {r r' : Registry} (h : PipelineStep r r') : Unmoved r r' := by
  cases h with
  | take waits free => exact ⟨rfl, rfl, rfl, ⟨rfl, rfl, rfl⟩, ⟨rfl, rfl, rfl⟩, rfl⟩
  | finish offers behind => exact ⟨rfl, rfl, rfl, ⟨rfl, rfl, rfl⟩, ⟨rfl, rfl, rfl⟩, rfl⟩
  | accept offers next permit served room =>
    exact ⟨rfl, List.length_set, rfl, ⟨rfl, rfl, rfl⟩, ⟨rfl, rfl, rfl⟩, rfl⟩
  | skip offers next full => exact ⟨rfl, rfl, rfl, ⟨rfl, rfl, rfl⟩, ⟨rfl, rfl, rfl⟩, rfl⟩
  | pick serves waits free =>
    exact ⟨rfl, List.length_set, rfl, ⟨rfl, rfl, rfl⟩, ⟨rfl, rfl, rfl⟩, rfl⟩
  | deliver serves shard taken =>
    exact ⟨rfl, List.length_set, offer_bare _ _ _, ⟨rfl, rfl, rfl⟩, ⟨rfl, rfl, rfl⟩, rfl⟩

/-- The pipeline of a running registry: its sizes are those of the settings, and every permit of a
shard is free or goes with a job. -/
structure Fitted (settings : RegistrySettings) (r : Registry) : Prop where
  shards : r.shards.length = max settings.shardCount.toNat 1
  lanes : r.lanes.length = r.shards.length
  balanced : ∀ lane ∈ r.lanes,
    lane.Balanced settings.shardJobChannelSize.toNat settings.shardJobWorkerCount.toNat
  capacity : r.dispatchCapacity = settings.dispatchChannelSize.toNat
  dispatchers : r.dispatchers = settings.dispatchWorkerCount.toNat
  workers : r.workersPerShard = settings.shardJobWorkerCount.toNat
  offerings : r.offerings.length ≤ settings.dispatchWorkerCount.toNat
  running : r.served = decide (settings.dispatchWorkerCount ≠ 0) ∧ r.cancelled = false ∧
    r.stopped = false

theorem create_fitted (settings : RegistrySettings) : (create settings).Fitted settings := by
  refine ⟨by simp [create], by simp [create], ?_, rfl, rfl, rfl, Nat.zero_le _, rfl, rfl, rfl⟩
  intro lane hl
  rw [(List.mem_replicate.mp hl).2]
  exact ⟨rfl, rfl, rfl, Nat.zero_le _⟩

theorem balanced_set {lanes : List ShardLane} {k capacity workers : Nat} {lane : ShardLane}
    (hb : ∀ lane ∈ lanes, lane.Balanced capacity workers) (hl : lane.Balanced capacity workers) :
    ∀ other ∈ lanes.set k lane, other.Balanced capacity workers := by
  intro other ho
  rcases List.mem_or_eq_of_mem_set ho with ho | rfl
  · exact hb other ho
  · exact hl

theorem PipelineStep.fitted {settings : RegistrySettings} {r r' : Registry} (h : PipelineStep r r')
    (hf : r.Fitted settings) : r'.Fitted settings := by
  have hu := h.unmoved
  refine ⟨hu.shards ▸ hf.shards, by rw [hu.lanes, hu.shards, hf.lanes], ?_,
    hu.sizes.1.trans hf.capacity, hu.sizes.2.1.trans hf.dispatchers,
    hu.sizes.2.2.trans hf.workers, ?_, hu.signals.1.trans hf.running.1,
    hu.signals.2.1.trans hf.running.2.1, hu.signals.2.2.trans hf.running.2.2⟩
  · cases h with
    | take waits free => exact hf.balanced
    | finish offers behind => exact hf.balanced
    | skip offers next full => exact hf.balanced
    | accept offers next permit served room =>
      have hb := hf.balanced _ (List.mem_of_getElem? next)
      refine balanced_set hf.balanced ⟨hb.size, ?_, hb.served, hb.taken⟩
      have hp := hb.permits
      simp only [List.length_append, List.length_singleton]
      omega
    | pick serves waits free =>
      have hb := hf.balanced _ (List.mem_of_getElem? serves)
      refine balanced_set hf.balanced ⟨hb.size, ?_, hb.served, ?_⟩
      · have hp := hb.permits
        rw [waits, List.length_cons] at hp
        simp only [List.length_append, List.length_singleton]
        omega
      · have hw := hf.workers
        simp only [List.length_append, List.length_singleton]
        omega
    | @deliver k i lane s job serves shard taken =>
      have hb := hf.balanced _ (List.mem_of_getElem? serves)
      have hi : i < lane.taken.length := (List.getElem?_eq_some_iff.mp taken).1
      have he : (lane.taken.eraseIdx i).length = lane.taken.length - 1 :=
        List.length_eraseIdx_of_lt hi
      have hp := hb.permits
      have ht := hb.taken
      refine balanced_set hf.balanced ⟨hb.size, ?_, hb.served, ?_⟩
      · simp only [he]
        omega
      · simp only [he]
        omega
  · have ho := hf.offerings
    cases h with
    | take waits free =>
      have hd := hf.dispatchers
      simp only [List.length_append, List.length_singleton]
      omega
    | finish offers behind => exact Nat.le_trans (List.length_eraseIdx_le ..) ho
    | accept offers next permit served room => simpa using ho
    | skip offers next full => simpa using ho
    | pick serves waits free => exact ho
    | deliver serves shard taken => exact ho

def offeredTo (offerings : List Offering) (k : Nat) : List ShardJob :=
  (offerings.filter (·.next ≤ k)).map (·.job)

def acceptedBy (lanes : List ShardLane) (k : Nat) : List ShardJob :=
  ((lanes[k]?).map ShardLane.jobs).getD []

/-- What is on its way to a shard, in the order in which it will come. -/
def pending (r : Registry) (k : Nat) : List ShardJob :=
  acceptedBy r.lanes k ++ (offeredTo r.offerings k ++ r.queue.map PushJob.share)

/-- No two dispatchers and no two workers of a shard are at work at once. -/
structure InOrder (r : Registry) : Prop where
  offerings : r.offerings.length ≤ 1
  taken : ∀ lane ∈ r.lanes, lane.taken.length ≤ 1

structure Delivered (r r' : Registry) (k : Nat) (s : Shard) (job : ShardJob) : Prop where
  shard : r.shards[k]? = some s
  first : r.pending k = job :: r'.pending k
  others : ∀ j, j ≠ k → r'.pending j = r.pending j
  roster : r'.roster = (s.broadcast r.roster job.target job.frame).roster
  drops : r'.counters.outboundDrops =
    r.counters.outboundDrops + (s.broadcast r.roster job.target job.frame).dropped

theorem sole_of_getElem? {α : Type} {xs : List α} (hn : xs.length ≤ 1) {i : Nat} {x : α}
    (h : xs[i]? = some x) : i = 0 ∧ xs = [x] := by
  cases xs with
  | nil => simp at h
  | cons y ys =>
    have hys : ys = [] := List.length_eq_zero_iff.mp (by simp only [List.length_cons] at hn; omega)
    subst hys
    cases i with
    | zero => exact ⟨rfl, by rw [Option.some.inj h]⟩
    | succ i => simp at h

theorem acceptedBy_self {lanes : List ShardLane} {k : Nat} {lane : ShardLane}
    (hl : lanes[k]? = some lane) : acceptedBy lanes k = lane.jobs := by
  rw [acceptedBy, hl]
  rfl

theorem acceptedBy_set {lanes : List ShardLane} {k : Nat} {lane : ShardLane}
    (hl : lanes[k]? = some lane) (lane' : ShardLane) (j : Nat) :
    acceptedBy (lanes.set k lane') j = if k = j then lane'.jobs else acceptedBy lanes j := by
  rw [acceptedBy, getElem?_set_of_some hl]
  by_cases hk : k = j
  · rw [if_pos hk, if_pos hk]
    rfl
  · rw [if_neg hk, if_neg hk, acceptedBy]

theorem offeredTo_sole (o : Offering) (k : Nat) :
    offeredTo [o] k = if o.next ≤ k then [o.job] else [] := by
  by_cases ho : o.next ≤ k <;> simp [offeredTo, ho]

/-- A move that turns nothing away keeps what is on its way to each shard, or delivers the first of
it. -/
theorem PipelineStep.pending {r r' : Registry} (h : PipelineStep r r') (ho : r.InOrder)
    (hskip : r'.counters.shardSkips = r.counters.shardSkips) :
    (r'.roster = r.roster ∧ r'.counters.outboundDrops = r.counters.outboundDrops ∧
      ∀ k < r.lanes.length, r'.pending k = r.pending k) ∨
    ∃ k s job, r.Delivered r' k s job := by
  cases h with
  | @take job rest waits free =>
    refine Or.inl ⟨rfl, rfl, fun k hk => ?_⟩
    have hoff : offeredTo (r.offerings ++ [⟨job.share, 0⟩]) k =
        offeredTo r.offerings k ++ [job.share] := by simp [offeredTo]
    simp only [Registry.pending, hoff, waits, List.map_cons, List.append_assoc, List.singleton_append]
  | @finish i o offers behind =>
    refine Or.inl ⟨rfl, rfl, fun k hk => ?_⟩
    obtain ⟨rfl, hs⟩ := sole_of_getElem? ho.offerings offers
    simp only [Registry.pending, hs, offeredTo_sole, if_neg (show ¬o.next ≤ k by omega)]
    rfl
  | @accept i o lane offers next permit served room =>
    refine Or.inl ⟨rfl, rfl, fun k hk => ?_⟩
    obtain ⟨rfl, hs⟩ := sole_of_getElem? ho.offerings offers
    simp only [Registry.pending, acceptedBy_set next, hs, List.set_cons_zero, offeredTo_sole]
    by_cases hn : o.next = k
    · -- the job passes from the dispatcher into the queue of the shard
      subst hn
      rw [if_pos rfl, acceptedBy_self next, if_neg (by omega), if_pos (Nat.le_refl _)]
      simp only [ShardLane.jobs, List.append_assoc, List.nil_append]
    · have hle : o.next + 1 ≤ k ↔ o.next ≤ k := by omega
      simp only [if_neg hn, hle]
  | skip offers next full => simp at hskip
  | @pick k lane job rest serves waits free =>
    refine Or.inl ⟨rfl, rfl, fun j hj => ?_⟩
    simp only [Registry.pending, acceptedBy_set serves]
    by_cases hk : k = j
    · subst hk
      rw [if_pos rfl, acceptedBy_self serves]
      simp only [ShardLane.jobs, waits, List.append_assoc, List.singleton_append]
    · rw [if_neg hk]
  | @deliver k i lane s job serves shard taken =>
    obtain ⟨rfl, ht⟩ := sole_of_getElem? (ho.taken _ (List.mem_of_getElem? serves)) taken
    refine Or.inr ⟨k, s, job, shard, ?_, ?_, rfl, rfl⟩
    · simp only [Registry.pending, acceptedBy_set serves, acceptedBy_self serves, ↓reduceIte,
        ShardLane.jobs, ht, List.eraseIdx_cons_zero, List.nil_append, List.cons_append]
    · intro j hj
      simp only [Registry.pending, acceptedBy_set serves, if_neg (Ne.symm hj)]

structure Quiet (r : Registry) : Prop where
  queue : r.queue = []
  offerings : r.offerings = []
  lanes : ∀ lane ∈ r.lanes, lane.queued = [] ∧ lane.taken = []

theorem Quiet.pending {r : Registry} (h : r.Quiet) (k : Nat) : r.pending k = [] := by
  have ha : acceptedBy r.lanes k = [] := by
    cases hl : r.lanes[k]? with
    | none => simp [acceptedBy, hl]
    | some lane =>
      obtain ⟨hq, ht⟩ := h.lanes _ (List.mem_of_getElem? hl)
      rw [acceptedBy_self hl, ShardLane.jobs, hq, ht, List.append_nil]
  rw [Registry.pending, ha, offeredTo, h.offerings, h.queue]
  rfl

def SamePipeline (r r' : Registry) : Prop :=
  ∃ shards roster, r' = { r with shards := shards, roster := roster } ∧
    shards.length = r.shards.length

theorem SamePipeline.fitted {settings : RegistrySettings} {r r' : Registry} (h : SamePipeline r r')
    (hf : r.Fitted settings) : r'.Fitted settings := by
  obtain ⟨shards, roster, rfl, hl⟩ := h
  exact ⟨hl.trans hf.shards, hf.lanes.trans hl.symm, hf.balanced, hf.capacity, hf.dispatchers,
    hf.workers, hf.offerings, hf.running⟩

theorem SamePipeline.quiet {r r' : Registry} (h : SamePipeline r r') (hq : r.Quiet) : r'.Quiet := by
  obtain ⟨shards, roster, rfl, _⟩ := h
  exact ⟨hq.queue, hq.offerings, hq.lanes⟩

theorem SamePipeline.pending {r r' : Registry} (h : SamePipeline r r') (k : Nat) :
    r'.pending k = r.pending k ∧ r'.counters = r.counters := by
  obtain ⟨shards, roster, rfl, _⟩ := h
  exact ⟨rfl, rfl⟩

theorem samePipeline_setShard (r : Registry) (id : ConnectionId) (s : Shard) :
    SamePipeline r (r.setShard id s) :=
  ⟨_, r.roster, rfl, List.length_set⟩

theorem push_cases (r : Registry) (job : PushJob) :
    (r.push job = (r, .error .shutDown) ∧ (r.cancelled = true ∨ r.served = false)) ∨
    (r.push job = ({ r with counters :=
      { r.counters with dispatchDrops := r.counters.dispatchDrops + 1 } },
      .error .dispatchQueueFull)) ∨
    (r.queue.length < r.dispatchCapacity ∧
      r.push job = ({ r with queue := r.queue ++ [job] }, .ok ())) := by
  unfold push
  cases hc : r.cancelled with
  | true => exact Or.inl ⟨by simp, Or.inl rfl⟩
  | false =>
    cases hs : r.served with
    | false => exact Or.inl ⟨by simp, Or.inr rfl⟩
    | true =>
      by_cases hq : r.dispatchCapacity ≤ r.queue.length
      · exact Or.inr (Or.inl (by simp [hq]))
      · exact Or.inr (Or.inr ⟨by omega, by simp [hq]⟩)

theorem push_tables (r : Registry) (job : PushJob) :
    (r.push job).1.shards = r.shards ∧ (r.push job).1.roster = r.roster := by
  rcases r.push_cases job with ⟨he, _⟩ | he | ⟨_, he⟩ <;> rw [he] <;> exact ⟨rfl, rfl⟩

theorem push_fitted {settings : RegistrySettings} {r : Registry} (hf : r.Fitted settings)
    (job : PushJob) : (r.push job).1.Fitted settings := by
  rcases r.push_cases job with ⟨he, _⟩ | he | ⟨_, he⟩ <;> rw [he]
  · exact hf
  · exact ⟨hf.shards, hf.lanes, hf.balanced, hf.capacity, hf.dispatchers, hf.workers, hf.offerings,
      hf.running⟩
  · exact ⟨hf.shards, hf.lanes, hf.balanced, hf.capacity, hf.dispatchers, hf.workers, hf.offerings,
      hf.running⟩

/-- How many moves are left: a push that waits has to be taken, and an offered one to be offered,
picked and delivered in each shard that is left, and to be put down. -/
def remaining (r : Registry) : Nat :=
  (3 * r.lanes.length + 2) * r.queue.length +
    total (r.offerings.map fun o => 3 * (r.lanes.length - o.next) + 1) +
    total (r.lanes.map ShardLane.work)

theorem PipelineStep.remaining_lt {r r' : Registry} (h : PipelineStep r r') :
    r'.remaining < r.remaining := by
  cases h with
  | @take job rest waits free =>
    have hq : (3 * r.lanes.length + 2) * (rest.length + 1) =
        (3 * r.lanes.length + 2) * rest.length + (3 * r.lanes.length + 2) := Nat.mul_succ _ _
    simp only [remaining, List.map_append, total_append, List.map_cons, List.map_nil, total, waits,
      List.length_cons, hq]
    omega
  | @finish i o offers behind =>
    have he := total_map_eraseIdx (fun o => 3 * (r.lanes.length - o.next) + 1) offers
    simp only [remaining]
    omega
  | @accept i o lane offers next permit served room =>
    have hb : o.next < r.lanes.length := (List.getElem?_eq_some_iff.mp next).1
    have ho := total_map_set (fun o => 3 * (r.lanes.length - o.next) + 1) offers
      { o with next := o.next + 1 }
    have hl := total_map_set ShardLane.work next
      { lane with permits := lane.permits - 1, queued := lane.queued ++ [o.job] }
    simp only [ShardLane.work, List.length_append, List.length_singleton] at hl
    simp only [remaining, List.length_set]
    simp only at ho
    omega
  | @skip i o lane offers next full =>
    have hb : o.next < r.lanes.length := (List.getElem?_eq_some_iff.mp next).1
    have ho := total_map_set (fun o => 3 * (r.lanes.length - o.next) + 1) offers
      { o with next := o.next + 1 }
    simp only [remaining]
    simp only at ho
    omega
  | @pick k lane job rest serves waits free =>
    have hl := total_map_set ShardLane.work serves
      { lane with queued := rest, taken := lane.taken ++ [job] }
    simp only [remaining, List.length_set]
    simp only [ShardLane.work, waits, List.length_append, List.length_cons, List.length_nil] at hl ⊢
    omega
  | @deliver k i lane s job serves shard taken =>
    have hi : i < lane.taken.length := (List.getElem?_eq_some_iff.mp taken).1
    have he : (lane.taken.eraseIdx i).length = lane.taken.length - 1 :=
      List.length_eraseIdx_of_lt hi
    have hl := total_map_set ShardLane.work serves
      { lane with permits := lane.permits + 1, taken := lane.taken.eraseIdx i }
    simp only [remaining, List.length_set]
    simp only [ShardLane.work, he] at hl ⊢
    omega

inductive Moves (r : Registry) : Registry → Prop where
  | refl : Moves r r
  | step {r' r'' : Registry} {m : PipelineMove} : Moves r r' → r'.move m = some r'' → Moves r r''

theorem Moves.head {r r' r'' : Registry} {m : PipelineMove} (hm : r.move m = some r')
    (h : Moves r' r'') : Moves r r'' := by
  induction h with
  | refl => exact .step .refl hm
  | step _ hs ih => exact .step ih hs

theorem step?_move {settings : RegistrySettings} {r r' : Registry} (hf : r.Fitted settings)
    (h : r.step? = some r') : ∃ m, r.move m = some r' := by
  obtain ⟨_, hc, hs⟩ := hf.running
  simp only [step?, hc, hs, Bool.false_eq_true, ↓reduceIte, Option.orElse_eq_some] at h
  rcases h with h | ⟨_, h | ⟨_, h⟩⟩
  · exact ⟨.offer 0, h⟩
  · exact ⟨.take, h⟩
  · obtain ⟨k, _, hk⟩ := List.exists_of_findSome?_eq_some h
    rcases (Option.orElse_eq_some _ _ _).mp hk with hk | ⟨_, hk⟩
    · exact ⟨.deliver k 0, hk⟩
    · exact ⟨.pick k, hk⟩

theorem offerNext_ready {r : Registry} (h : r.offerNext 0 = none) : r.offerings = [] := by
  cases ho : r.offerings with
  | nil => rfl
  | cons o os =>
    unfold offerNext at h
    simp only [ho, List.getElem?_cons_zero] at h
    split at h <;> simp at h

theorem takeJob_ready {r : Registry} (hd : 0 < r.dispatchers) (ho : r.offerings = [])
    (h : r.takeJob = none) : r.queue = [] := by
  cases hq : r.queue with
  | nil => rfl
  | cons job rest => simp [takeJob, hq, ho, hd] at h

theorem deliver_ready {r : Registry} {k : Nat} {lane : ShardLane} (hl : r.lanes[k]? = some lane)
    (hn : r.lanes.length = r.shards.length) (h : r.deliver k 0 = none) : lane.taken = [] := by
  have hk : k < r.shards.length := hn ▸ (List.getElem?_eq_some_iff.mp hl).1
  cases ht : lane.taken with
  | nil => rfl
  | cons job rest => simp [Registry.deliver, hl, List.getElem?_eq_getElem hk, ht] at h

theorem takeShardJob_ready {r : Registry} {k : Nat} {lane : ShardLane}
    (hl : r.lanes[k]? = some lane) (hw : 0 < r.workersPerShard) (ht : lane.taken = [])
    (h : r.takeShardJob k = none) : lane.queued = [] := by
  cases hq : lane.queued with
  | nil => rfl
  | cons job rest => simp [takeShardJob, hl, hq, ht, hw] at h

theorem step?_none {settings : RegistrySettings} {r : Registry} (hf : r.Fitted settings)
    (hd : settings.dispatchWorkerCount.toNat ≠ 0) (hw : settings.shardJobWorkerCount.toNat ≠ 0)
    (h : r.step? = none) : r.Quiet := by
  obtain ⟨_, hc, hs⟩ := hf.running
  simp only [step?, hc, hs, Bool.false_eq_true, ↓reduceIte, Option.orElse_eq_none] at h
  obtain ⟨ho, hq, hk⟩ := h
  have hoff := offerNext_ready ho
  have hdis := hf.dispatchers
  refine ⟨takeJob_ready (by omega) hoff hq, hoff, ?_⟩
  intro lane hl
  obtain ⟨k, hb, hg⟩ := List.getElem_of_mem hl
  have hlane : r.lanes[k]? = some lane := hg ▸ List.getElem?_eq_getElem hb
  have hstuck := List.findSome?_eq_none_iff.mp hk k (List.mem_range.mpr hb)
  obtain ⟨hdel, hpick⟩ := (Option.orElse_eq_none _ _).mp hstuck
  have htaken := deliver_ready hlane hf.lanes hdel
  have hwork := hf.workers
  exact ⟨takeShardJob_ready hlane (by omega) htaken hpick, htaken⟩

theorem remaining_lt_work (r : Registry) : r.remaining < r.work := by
  have hoff : ∀ offerings : List Offering,
      total (offerings.map fun o => 3 * (r.lanes.length - o.next) + 1) ≤
        (3 * r.lanes.length + 2) * offerings.length := by
    intro offerings
    induction offerings with
    | nil => exact Nat.zero_le _
    | cons o os ih =>
      have hs : (3 * r.lanes.length + 2) * (os.length + 1) =
          (3 * r.lanes.length + 2) * os.length + (3 * r.lanes.length + 2) := Nat.mul_succ _ _
      simp only [List.map_cons, total, List.length_cons, hs]
      omega
  have ho := hoff r.offerings
  simp only [remaining, work]
  omega

theorem run_moves {settings : RegistrySettings} (n : Nat) {r : Registry} (hf : r.Fitted settings) :
    Moves r (run n r) := by
  induction n generalizing r with
  | zero => exact .refl
  | succ n ih =>
    unfold run
    cases hs : r.step? with
    | none => exact .refl
    | some r' =>
      obtain ⟨m, hm⟩ := step?_move hf hs
      exact .head hm (ih ((move_step hm).fitted hf))

theorem run_quiet {settings : RegistrySettings} (hd : settings.dispatchWorkerCount.toNat ≠ 0)
    (hw : settings.shardJobWorkerCount.toNat ≠ 0) (n : Nat) {r : Registry} (hf : r.Fitted settings)
    (hn : r.remaining < n) : (run n r).Quiet := by
  induction n generalizing r with
  | zero => omega
  | succ n ih =>
    unfold run
    cases hs : r.step? with
    | none => exact step?_none hf hd hw hs
    | some r' =>
      obtain ⟨m, hm⟩ := step?_move hf hs
      have hlt := (move_step hm).remaining_lt
      exact ih ((move_step hm).fitted hf) (by omega)

/-- Settling takes moves until nothing is on its way. -/
theorem settle_quiet {settings : RegistrySettings} {r : Registry} (hf : r.Fitted settings)
    (hd : settings.dispatchWorkerCount.toNat ≠ 0) (hw : settings.shardJobWorkerCount.toNat ≠ 0) :
    Moves r r.settle ∧ r.settle.Quiet :=
  ⟨run_moves _ hf, run_quiet hd hw _ hf (remaining_lt_work r)⟩

end Registry

end RoomCast
