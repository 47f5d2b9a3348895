import RoomCast.Proofs.ShardAdmission

namespace RoomCast

/-- What can happen to a registry that is not shut down. -/
inductive DispatchEvent where
  | call (c : RegistryCall)
  | move (m : PipelineMove)

/-- What became of the pushes at one shard, in the order in which it happened. -/
structure ShardBooks where
  offered : List Nat
  skipped : List Nat
  queued : List (Nat × ShardJob)
  taken : List (Nat × ShardJob)
  delivered : List (Nat × ShardJob)

/-- A registry with the books of its pushes, each of which stands with its answer. -/
structure DispatchTrace where
  registry : Registry
  pushes : List (PushJob × Except RegistryError Unit)
  waiting : List (Nat × PushJob)
  offering : List (Nat × Offering)
  books : List ShardBooks

def answeredBy (pushes : List (PushJob × Except RegistryError Unit)) (answer : Except RegistryError Unit) :
    List Nat :=
  (List.range pushes.length).filter fun n => (pushes[n]?).map (·.2) = some answer

/-- What each shard is to get of a push. -/
def shareAt (pushes : List (PushJob × Except RegistryError Unit)) (n : Nat) : Option ShardJob :=
  (pushes[n]?).map (·.1.share)

namespace DispatchTrace

def start (settings : RegistrySettings) : DispatchTrace :=
  let registry := Registry.create settings
  ⟨registry, [], [], [], List.replicate registry.lanes.length ⟨[], [], [], [], []⟩⟩

def notePush (t : DispatchTrace) (job : PushJob) : DispatchTrace :=
  let answer := (t.registry.push job).2
  { t with
    pushes := t.pushes ++ [(job, answer)]
    waiting := if answer = .ok () then t.waiting ++ [(t.pushes.length, job)] else t.waiting }

def noteShard (t : DispatchTrace) (k : Nat) (f : ShardBooks → ShardBooks) : DispatchTrace :=
  { t with books := t.books.modify k f }

def noteMove (t : DispatchTrace) : PipelineMove → DispatchTrace
  | .take =>
    { t with
      waiting := t.waiting.drop 1
      offering := t.offering ++ (t.waiting.take 1).map fun (n, job) => (n, ⟨job.share, 0⟩) }
  | .offer d =>
    match t.registry.offerings[d]?, t.offering[d]? with
    | some o, some (n, _) =>
      match t.registry.lanes[o.next]? with
      | none => { t with offering := t.offering.eraseIdx d }
      | some lane =>
        let t := { t with offering := t.offering.set d (n, { o with next := o.next + 1 }) }
        if (lane.accept o.job).2 then
          t.noteShard o.next fun b =>
            { b with offered := b.offered ++ [n], queued := b.queued ++ [(n, o.job)] }
        else
          t.noteShard o.next fun b =>
            { b with offered := b.offered ++ [n], skipped := b.skipped ++ [n] }
    | _, _ => t
  | .pick k =>
    t.noteShard k fun b => { b with queued := b.queued.drop 1, taken := b.taken ++ b.queued.take 1 }
  | .deliver k i =>
    match (t.registry.lanes[k]?).bind (·.taken[i]?) with
    | none => t
    | some job =>
      t.noteShard k fun b =>
        { b with
          taken := b.taken.eraseIdx i
          delivered := b.delivered ++ ((b.taken[i]?).map fun (n, _) => (n, job)).toList }

/-- The registry takes its step, and the books follow; a move that has to wait is none. -/
def apply (t : DispatchTrace) : DispatchEvent → DispatchTrace
  | .call (.push job) => { t.notePush job with registry := (t.registry.push job).1 }
  | .call c => { t with registry := (t.registry.call c).1 }
  | .move m =>
    match t.registry.move m with
    | none => t
    | some registry => { t.noteMove m with registry := registry }

def run (settings : RegistrySettings) (events : List DispatchEvent) : DispatchTrace :=
  events.foldl apply (start settings)

end DispatchTrace

theorem answeredBy_append (pushes : List (PushJob × Except RegistryError Unit))
    (p : PushJob × Except RegistryError Unit) (answer : Except RegistryError Unit) :
    answeredBy (pushes ++ [p]) answer =
      answeredBy pushes answer ++ if p.2 = answer then [pushes.length] else [] := by
  have hold : (List.range pushes.length).filter
      (fun n => ((pushes ++ [p])[n]?).map (·.2) = some answer) = answeredBy pushes answer := by
    refine List.filter_congr fun n hn => ?_
    rw [List.getElem?_append_left (List.mem_range.mp hn)]
  rw [answeredBy, List.length_append, List.length_singleton, List.range_succ, List.filter_append, hold]
  by_cases hp : p.2 = answer <;> simp [hp]

theorem answeredBy_nodup (pushes : List (PushJob × Except RegistryError Unit))
    (answer : Except RegistryError Unit) : (answeredBy pushes answer).Nodup :=
  List.nodup_range.filter _

theorem answeredBy_unique {pushes : List (PushJob × Except RegistryError Unit)} {n : Nat}
    {a b : Except RegistryError Unit} (ha : n ∈ answeredBy pushes a) (hb : n ∈ answeredBy pushes b) :
    a = b := by
  have ha' := of_decide_eq_true (List.mem_filter.mp ha).2
  have hb' := of_decide_eq_true (List.mem_filter.mp hb).2
  exact Option.some.inj (ha'.symm.trans hb')

theorem shareAt_append {pushes : List (PushJob × Except RegistryError Unit)} {n : Nat} {job : ShardJob}
    (h : shareAt pushes n = some job) (p : PushJob × Except RegistryError Unit) :
    shareAt (pushes ++ [p]) n = some job := by
  obtain ⟨q, hq, _⟩ := Option.map_eq_some_iff.mp h
  rw [shareAt, List.getElem?_append_left (List.getElem?_eq_some_iff.mp hq).1]
  exact h

def ShardBooks.admitted (b : ShardBooks) : List (Nat × ShardJob) := b.delivered ++ b.taken ++ b.queued

theorem ShardBooks.admitted_pick (b : ShardBooks) : ShardBooks.admitted
    { b with queued := b.queued.drop 1, taken := b.taken ++ b.queued.take 1 } = b.admitted := by
  simp only [admitted, List.append_assoc, List.take_append_drop]

/-- The books of a shard are right: the jobs are where they say, each with the share of its push, and
a push that was offered was either admitted or skipped. -/
structure ShardBooks.Right (pushes : List (PushJob × Except RegistryError Unit)) (lane : ShardLane)
    (b : ShardBooks) : Prop where
  queued : b.queued.map (·.2) = lane.queued
  taken : b.taken.map (·.2) = lane.taken
  shares : ∀ x ∈ b.admitted, shareAt pushes x.1 = some x.2
  offered : (b.skipped ++ b.admitted.map (·.1)).Perm b.offered

namespace ShardBooks.Right

variable {pushes : List (PushJob × Except RegistryError Unit)} {lane : ShardLane} {b : ShardBooks}

theorem accept (h : b.Right pushes lane) {n : Nat} {job : ShardJob} (hn : shareAt pushes n = some job)
    (permits : Nat) :
    ShardBooks.Right pushes { lane with permits := permits, queued := lane.queued ++ [job] }
      { b with offered := b.offered ++ [n], queued := b.queued ++ [(n, job)] } := by
  refine ⟨by simp [h.queued], h.taken, ?_, ?_⟩
  · intro x hx
    simp only [admitted, ← List.append_assoc, List.mem_append, List.mem_singleton] at hx
    rcases hx with hx | rfl
    · exact h.shares x (by simpa only [admitted, List.mem_append] using hx)
    · exact hn
  · have ho := h.offered.append_right [n]
    simpa [admitted, List.append_assoc] using ho

theorem skip (h : b.Right pushes lane) (n : Nat) :
    ShardBooks.Right pushes lane
      { b with offered := b.offered ++ [n], skipped := b.skipped ++ [n] } := by
  refine ⟨h.queued, h.taken, h.shares, ?_⟩
  have hc : (b.skipped ++ [n] ++ b.admitted.map (·.1)).Perm
      (b.skipped ++ b.admitted.map (·.1) ++ [n]) := by
    rw [List.append_assoc, List.append_assoc]
    exact (List.perm_append_comm).append_left _
  exact hc.trans (h.offered.append_right [n])

theorem pick (h : b.Right pushes lane) {job : ShardJob} {rest : List ShardJob}
    (hq : lane.queued = job :: rest) :
    ShardBooks.Right pushes { lane with queued := rest, taken := lane.taken ++ [job] }
      { b with queued := b.queued.drop 1, taken := b.taken ++ b.queued.take 1 } := by
  have hsame := b.admitted_pick
  have hqueued := h.queued
  rw [hq] at hqueued
  refine ⟨?_, ?_, hsame ▸ h.shares, hsame ▸ h.offered⟩
  · rw [List.map_drop, hqueued]
    rfl
  · simp only [List.map_append, List.map_take, hqueued, h.taken, List.take_succ_cons, List.take_zero]

theorem deliver (h : b.Right pushes lane) {i : Nat} {job : ShardJob} (hi : lane.taken[i]? = some job)
    (permits : Nat) : ∃ n, b.taken[i]? = some (n, job) ∧
      ShardBooks.Right pushes { lane with permits := permits, taken := lane.taken.eraseIdx i }
        { b with taken := b.taken.eraseIdx i, delivered := b.delivered ++ [(n, job)] } := by
  rw [← h.taken, List.getElem?_map] at hi
  obtain ⟨⟨n, job'⟩, hn, rfl⟩ := Option.map_eq_some_iff.mp hi
  refine ⟨n, hn, ?_⟩
  have htaken := (perm_eraseIdx_of_some hn).symm
  have hperm : (ShardBooks.admitted
      { b with taken := b.taken.eraseIdx i, delivered := b.delivered ++ [(n, job')] }).Perm
      b.admitted := by
    simp only [admitted, List.append_assoc, List.singleton_append]
    exact (htaken.append_right _).append_left _
  refine ⟨h.queued, ?_, fun x hx => h.shares x (hperm.mem_iff.mp hx), ?_⟩
  · rw [← h.taken, List.eraseIdx_map]
  · exact ((hperm.map _).append_left _).trans h.offered

theorem push (h : b.Right pushes lane) (p : PushJob × Except RegistryError Unit) :
    b.Right (pushes ++ [p]) lane :=
  ⟨h.queued, h.taken, fun x hx => shareAt_append (h.shares x hx) p, h.offered⟩

end ShardBooks.Right

namespace DispatchTrace

/-- The pushes that dispatchers are offering and have yet to offer to a shard. -/
def yetToOffer (offering : List (Nat × Offering)) (k : Nat) : List Nat :=
  (offering.filter (·.2.next ≤ k)).map (·.1)

/-- The accepted pushes that a shard has yet to be offered. -/
def ahead (t : DispatchTrace) (k : Nat) : List Nat := yetToOffer t.offering k ++ t.waiting.map (·.1)

theorem yetToOffer_append (offering : List (Nat × Offering)) (n : Nat) (job : ShardJob) (k : Nat) :
    yetToOffer (offering ++ [(n, ⟨job, 0⟩)]) k = yetToOffer offering k ++ [n] := by
  simp [yetToOffer]

theorem yetToOffer_eraseIdx {offering : List (Nat × Offering)} {d n : Nat} {o : Offering}
    (h : offering[d]? = some (n, o)) {k : Nat} (hk : k < o.next) :
    (yetToOffer offering k).Perm (yetToOffer (offering.eraseIdx d) k) := by
  have hold := ((perm_eraseIdx_of_some h).filter fun x => decide (x.2.next ≤ k)).map (·.1)
  rwa [List.filter_cons_of_neg (by simpa using hk)] at hold

theorem yetToOffer_set {offering : List (Nat × Offering)} {d n : Nat} {o : Offering}
    (h : offering[d]? = some (n, o)) (k : Nat) :
    (yetToOffer offering k).Perm ((if o.next = k then [n] else []) ++
      yetToOffer (offering.set d (n, { o with next := o.next + 1 })) k) := by
  have hd := (List.getElem?_eq_some_iff.mp h).1
  have hold := ((perm_eraseIdx_of_some h).filter fun x => decide (x.2.next ≤ k)).map (·.1)
  have hnew := ((List.set_perm_cons_eraseIdx hd (n, { o with next := o.next + 1 })).filter
    fun x => decide (x.2.next ≤ k)).map (·.1)
  rcases Nat.lt_trichotomy o.next k with hlt | heq | hgt
  · rw [List.filter_cons_of_pos (by simp only [decide_eq_true_eq]; omega), List.map_cons] at hold hnew
    rw [if_neg (by omega)]
    exact hold.trans hnew.symm
  · rw [List.filter_cons_of_pos (by simp only [decide_eq_true_eq]; omega), List.map_cons] at hold
    rw [List.filter_cons_of_neg (by simp only [decide_eq_true_eq]; omega)] at hnew
    rw [if_pos heq]
    exact hold.trans (hnew.symm.cons n)
  · rw [List.filter_cons_of_neg (by simp only [decide_eq_true_eq]; omega)] at hold hnew
    rw [if_neg (by omega)]
    exact hold.trans hnew.symm

/-- The books tell where the pushes of the registry are. -/
structure Kept (t : DispatchTrace) : Prop where
  queue : t.waiting.map (·.2) = t.registry.queue
  offerings : t.offering.map (·.2) = t.registry.offerings
  width : t.books.length = t.registry.lanes.length
  right : ∀ (k : Nat) (b : ShardBooks) (lane : ShardLane), t.books[k]? = some b →
    t.registry.lanes[k]? = some lane → b.Right t.pushes lane
  accepted : ∀ (k : Nat) (b : ShardBooks), t.books[k]? = some b → (b.offered ++ t.ahead k).Perm (answeredBy t.pushes (.ok ()))
  skips : total (t.books.map (·.skipped.length)) = t.registry.counters.shardSkips
  drops : (answeredBy t.pushes (.error .dispatchQueueFull)).length = t.registry.counters.dispatchDrops
  waiting : ∀ x ∈ t.waiting, shareAt t.pushes x.1 = some x.2.share
  offering : ∀ x ∈ t.offering, shareAt t.pushes x.1 = some x.2.job

theorem start_kept (settings : RegistrySettings) : (start settings).Kept := by
  have hbooks : ∀ b ∈ (start settings).books, b = ⟨[], [], [], [], []⟩ := fun b hb =>
    (List.mem_replicate.mp hb).2
  refine ⟨rfl, rfl, List.length_replicate, ?_, ?_, ?_, rfl, by simp [start], by simp [start]⟩
  · intro k b lane hb hl
    rw [hbooks b (List.mem_of_getElem? hb)]
    have hlane := (List.mem_replicate.mp (List.mem_of_getElem? hl)).2
    subst hlane
    exact ⟨rfl, rfl, by simp [ShardBooks.admitted], .refl _⟩
  · intro k b hb
    rw [hbooks b (List.mem_of_getElem? hb)]
    exact .refl _
  · have hzero : ∀ n : Nat,
        total ((List.replicate n (⟨[], [], [], [], []⟩ : ShardBooks)).map (·.skipped.length)) = 0 := by
      intro n
      induction n with
      | zero => rfl
      | succ n ih =>
        rw [List.replicate_succ, List.map_cons, total, ih]
        rfl
    exact hzero _

/-- What the books and the registry do when the registry makes a move. -/
inductive Booked (t : DispatchTrace) : DispatchTrace → Prop where
  | take {n : Nat} {job : PushJob} {waiting : List (Nat × PushJob)}
      (waits : t.waiting = (n, job) :: waiting) :
      Booked t { t with
        registry := { t.registry with
          queue := waiting.map (·.2)
          offerings := t.registry.offerings ++ [⟨job.share, 0⟩] }
        waiting := waiting
        offering := t.offering ++ [(n, ⟨job.share, 0⟩)] }
  | finish {d n : Nat} {o : Offering} (offers : t.offering[d]? = some (n, o))
      (behind : t.registry.lanes.length ≤ o.next) :
      Booked t { t with
        registry := { t.registry with offerings := t.registry.offerings.eraseIdx d }
        offering := t.offering.eraseIdx d }
  | skip {d n : Nat} {o : Offering} {lane : ShardLane} {b : ShardBooks}
      (offers : t.offering[d]? = some (n, o)) (next : t.registry.lanes[o.next]? = some lane)
      (booked : t.books[o.next]? = some b) :
      Booked t { t with
        registry := { t.registry with
          offerings := t.registry.offerings.set d { o with next := o.next + 1 }
          counters := { t.registry.counters with shardSkips := t.registry.counters.shardSkips + 1 } }
        offering := t.offering.set d (n, { o with next := o.next + 1 })
        books := t.books.set o.next
          { b with offered := b.offered ++ [n], skipped := b.skipped ++ [n] } }
  | accept {d n : Nat} {o : Offering} {lane : ShardLane} {b : ShardBooks}
      (offers : t.offering[d]? = some (n, o)) (next : t.registry.lanes[o.next]? = some lane)
      (booked : t.books[o.next]? = some b) :
      Booked t { t with
        registry := { t.registry with
          lanes := t.registry.lanes.set o.next
            { lane with permits := lane.permits - 1, queued := lane.queued ++ [o.job] }
          offerings := t.registry.offerings.set d { o with next := o.next + 1 } }
        offering := t.offering.set d (n, { o with next := o.next + 1 })
        books := t.books.set o.next
          { b with offered := b.offered ++ [n], queued := b.queued ++ [(n, o.job)] } }
  | pick {k : Nat} {lane : ShardLane} {job : ShardJob} {rest : List ShardJob} {b : ShardBooks}
      (serves : t.registry.lanes[k]? = some lane) (waits : lane.queued = job :: rest)
      (booked : t.books[k]? = some b) :
      Booked t { t with
        registry := { t.registry with
          lanes := t.registry.lanes.set k
            { lane with queued := rest, taken := lane.taken ++ [job] } }
        books := t.books.set k
          { b with queued := b.queued.drop 1, taken := b.taken ++ b.queued.take 1 } }
  | deliver {k i n : Nat} {lane : ShardLane} {job : ShardJob} {b : ShardBooks} {roster : Roster}
      {drops : Nat} (serves : t.registry.lanes[k]? = some lane) (taken : lane.taken[i]? = some job)
      (booked : t.books[k]? = some b) (place : b.taken[i]? = some (n, job)) :
      Booked t { t with
        registry := { t.registry with
          roster := roster
          lanes := t.registry.lanes.set k
            { lane with permits := lane.permits + 1, taken := lane.taken.eraseIdx i }
          counters := { t.registry.counters with outboundDrops := drops } }
        books := t.books.set k
          { b with taken := b.taken.eraseIdx i, delivered := b.delivered ++ [(n, job)] } }

namespace Kept

variable {t : DispatchTrace} {r : Registry}

theorem books_at (h : t.Kept) {k : Nat} {lane : ShardLane} (hl : t.registry.lanes[k]? = some lane) :
    ∃ b, t.books[k]? = some b ∧ b.Right t.pushes lane := by
  have hk : k < t.books.length := h.width ▸ (List.getElem?_eq_some_iff.mp hl).1
  have hb := List.getElem?_eq_getElem hk
  exact ⟨_, hb, h.right k _ lane hb hl⟩

theorem offering_at (h : t.Kept) {d : Nat} {o : Offering} (ho : t.registry.offerings[d]? = some o) :
    ∃ n, t.offering[d]? = some (n, o) := by
  rw [← h.offerings, List.getElem?_map] at ho
  obtain ⟨⟨n, o'⟩, hn, rfl⟩ := Option.map_eq_some_iff.mp ho
  exact ⟨n, hn⟩

theorem booked (h : t.Kept) {m : PipelineMove} (hm : t.registry.move m = some r) :
    Booked t { t.noteMove m with registry := r } := by
  cases m with
  | take =>
    obtain ⟨job, rest, hq, _, rfl⟩ := Registry.takeJob_cases hm
    have hw := h.queue
    rw [hq] at hw
    obtain ⟨⟨n, job'⟩, waiting, hcons, rfl, rfl⟩ := List.map_eq_cons_iff.mp hw
    simp only [noteMove, hcons, List.drop_one, List.tail_cons, List.take_succ_cons, List.take_zero,
      List.map_cons, List.map_nil]
    exact .take hcons
  | offer d =>
    obtain ⟨o, ho, hcase⟩ := Registry.offerNext_cases hm
    obtain ⟨n, hn⟩ := h.offering_at ho
    rcases hcase with ⟨hl, rfl⟩ | ⟨lane, hl, hcase⟩
    · simp only [noteMove, ho, hn, hl]
      exact .finish hn (List.getElem?_eq_none_iff.mp hl)
    · obtain ⟨b, hb, _⟩ := h.books_at hl
      rcases hcase with ⟨hacc, rfl⟩ | ⟨hacc, rfl⟩
      · simp only [noteMove, ho, hn, hl, hacc, Bool.false_eq_true, ↓reduceIte, noteShard,
          modify_of_some hb]
        exact .skip hn hl hb
      · simp only [noteMove, ho, hn, hl, hacc, ↓reduceIte, noteShard, modify_of_some hb]
        exact .accept hn hl hb
  | pick k =>
    obtain ⟨lane, job, rest, hl, hq, _, rfl⟩ := Registry.takeShardJob_cases hm
    obtain ⟨b, hb, _⟩ := h.books_at hl
    simp only [noteMove, noteShard, modify_of_some hb]
    exact .pick hl hq hb
  | deliver k i =>
    obtain ⟨lane, s, job, hl, _, hi, rfl⟩ := Registry.deliver_cases hm
    obtain ⟨b, hb, hr⟩ := h.books_at hl
    obtain ⟨n, hn, _⟩ := hr.deliver hi 0
    simp only [noteMove, hl, Option.bind_some, hi, noteShard, modify_of_some hb, hn, Option.map_some,
      Option.toList_some]
    exact .deliver hl hi hb hn

theorem right_set (h : t.Kept) {k : Nat} {b b' : ShardBooks} {lane lane' : ShardLane}
    (hb : t.books[k]? = some b) (hl : t.registry.lanes[k]? = some lane)
    (hr : b'.Right t.pushes lane') (j : Nat) (c : ShardBooks) (other : ShardLane)
    (hc : (t.books.set k b')[j]? = some c)
    (ho : (t.registry.lanes.set k lane')[j]? = some other) : c.Right t.pushes other := by
  rw [getElem?_set_of_some hb] at hc
  rw [getElem?_set_of_some hl] at ho
  by_cases hk : k = j
  · rw [if_pos hk] at hc ho
    cases Option.some.inj hc
    cases Option.some.inj ho
    exact hr
  · rw [if_neg hk] at hc ho
    exact h.right j c other hc ho

theorem accepted_next (h : t.Kept) {d n : Nat} {o : Offering} {b b' : ShardBooks}
    (hn : t.offering[d]? = some (n, o)) (hb : t.books[o.next]? = some b)
    (hoff : b'.offered = b.offered ++ [n]) (j : Nat) (c : ShardBooks)
    (hc : (t.books.set o.next b')[j]? = some c) :
    (c.offered ++ (yetToOffer (t.offering.set d (n, { o with next := o.next + 1 })) j ++
      t.waiting.map (·.1))).Perm (answeredBy t.pushes (.ok ())) := by
  have hy := (yetToOffer_set hn j).append_right (t.waiting.map (·.1))
  rw [getElem?_set_of_some hb] at hc
  by_cases hk : o.next = j
  · rw [if_pos hk] at hc hy
    cases Option.some.inj hc
    have ha := h.accepted j b (hk ▸ hb)
    rw [hoff, List.append_assoc]
    rw [List.append_assoc] at hy
    exact (hy.symm.append_left _).trans ha
  · rw [if_neg hk] at hc hy
    exact (hy.symm.append_left _).trans (h.accepted j c hc)

theorem accepted_same (h : t.Kept) {k : Nat} {b b' : ShardBooks} (hb : t.books[k]? = some b)
    (hoff : b'.offered = b.offered) (j : Nat) (c : ShardBooks) (hc : (t.books.set k b')[j]? = some c) :
    (c.offered ++ t.ahead j).Perm (answeredBy t.pushes (.ok ())) := by
  rw [getElem?_set_of_some hb] at hc
  by_cases hk : k = j
  · rw [if_pos hk] at hc
    cases Option.some.inj hc
    rw [hoff]
    exact h.accepted j b (hk ▸ hb)
  · rw [if_neg hk] at hc
    exact h.accepted j c hc

theorem offering_set (h : t.Kept) {d n : Nat} {o : Offering} (hn : t.offering[d]? = some (n, o)) :
    ∀ x ∈ t.offering.set d (n, { o with next := o.next + 1 }),
      shareAt t.pushes x.1 = some x.2.job := by
  intro x hx
  rcases List.mem_or_eq_of_mem_set hx with hx | rfl
  · exact h.offering x hx
  · exact h.offering (n, o) (List.mem_of_getElem? hn)

theorem skips_set (h : t.Kept) {k : Nat} {b b' : ShardBooks} (hb : t.books[k]? = some b) (more : Nat)
    (hmore : b'.skipped.length = b.skipped.length + more) :
    total ((t.books.set k b').map (·.skipped.length)) = t.registry.counters.shardSkips + more := by
  have hset := total_map_set (fun b : ShardBooks => b.skipped.length) hb b'
  have hold := h.skips
  omega

end Kept

theorem Booked.kept {t t' : DispatchTrace} (hs : Booked t t') (h : t.Kept) : t'.Kept := by
  cases hs with
  | @take n job waiting waits =>
    refine ⟨rfl, by simp [h.offerings], h.width, h.right, ?_, h.skips, h.drops, ?_, ?_⟩
    · intro k b hb
      have ha := h.accepted k b hb
      simp only [ahead, waits, List.map_cons] at ha
      simpa only [ahead, yetToOffer_append, List.append_assoc, List.singleton_append] using ha
    · exact fun x hx => h.waiting x (by rw [waits]; exact List.mem_cons_of_mem _ hx)
    · intro x hx
      rcases List.mem_append.mp hx with hx | hx
      · exact h.offering x hx
      · rw [List.mem_singleton.mp hx]
        exact h.waiting (n, job) (by rw [waits]; exact List.mem_cons_self)
  | @finish d n o offers behind =>
    refine ⟨h.queue, ?_, h.width, h.right, ?_, h.skips, h.drops, h.waiting, ?_⟩
    · rw [← h.offerings, List.eraseIdx_map]
    · intro k b hb
      have hk : k < t.books.length := (List.getElem?_eq_some_iff.mp hb).1
      have hwidth := h.width
      have hy := yetToOffer_eraseIdx offers (k := k) (by omega)
      exact ((hy.symm.append_right _).append_left _).trans (h.accepted k b hb)
    · exact fun x hx => h.offering x (List.mem_of_mem_eraseIdx hx)
  | @skip d n o lane b offers next booked =>
    have hr := (h.right _ b lane booked next).skip n
    refine ⟨h.queue, by rw [List.map_set, h.offerings], by rw [List.length_set]; exact h.width, ?_,
      h.accepted_next offers booked rfl, h.skips_set booked 1 (by simp), h.drops, h.waiting,
      h.offering_set offers⟩
    intro j c other hc hother
    rw [← set_same next] at hother
    exact h.right_set booked next hr j c other hc hother
  | @accept d n o lane b offers next booked =>
    have hr := (h.right _ b lane booked next).accept (h.offering _ (List.mem_of_getElem? offers))
      (lane.permits - 1)
    exact ⟨h.queue, by rw [List.map_set, h.offerings], by simp only [List.length_set]; exact h.width,
      h.right_set booked next hr, h.accepted_next offers booked rfl, h.skips_set booked 0 rfl, h.drops,
      h.waiting, h.offering_set offers⟩
  | @pick k lane job rest b serves waits booked =>
    have hr := (h.right k b lane booked serves).pick waits
    exact ⟨h.queue, h.offerings, by simp only [List.length_set]; exact h.width,
      h.right_set booked serves hr, h.accepted_same booked rfl, h.skips_set booked 0 rfl, h.drops,
      h.waiting, h.offering⟩
  | @deliver k i n lane job b roster drops serves taken booked place =>
    obtain ⟨n', hn', hr⟩ := (h.right k b lane booked serves).deliver taken (lane.permits + 1)
    obtain ⟨rfl, _⟩ := Prod.mk.inj (Option.some.inj (place.symm.trans hn'))
    exact ⟨h.queue, h.offerings, by simp only [List.length_set]; exact h.width,
      h.right_set booked serves hr, h.accepted_same booked rfl, h.skips_set booked 0 rfl, h.drops,
      h.waiting, h.offering⟩

theorem notePush_ahead (t : DispatchTrace) (job : PushJob) :
    ∃ more, answeredBy (t.notePush job).pushes (.ok ()) = answeredBy t.pushes (.ok ()) ++ more ∧
      ∀ k, (t.notePush job).ahead k = t.ahead k ++ more := by
  refine ⟨if (t.registry.push job).2 = .ok () then [t.pushes.length] else [],
    answeredBy_append _ _ _, fun k => ?_⟩
  by_cases ha : (t.registry.push job).2 = .ok () <;> simp [notePush, ahead, ha]

namespace Kept

variable {t : DispatchTrace} {r : Registry}

theorem aside (h : t.Kept) (hs : t.registry.SamePipeline r) : Kept { t with registry := r } := by
  obtain ⟨shards, roster, rfl, _⟩ := hs
  exact ⟨h.queue, h.offerings, h.width, h.right, h.accepted, h.skips, h.drops, h.waiting, h.offering⟩

theorem push (h : t.Kept) (job : PushJob) :
    Kept { t.notePush job with registry := (t.registry.push job).1 } := by
  obtain ⟨more, hmore, hahead⟩ := t.notePush_ahead job
  have accepted : ∀ (k : Nat) (b : ShardBooks), t.books[k]? = some b →
      (b.offered ++ (t.notePush job).ahead k).Perm (answeredBy (t.notePush job).pushes (.ok ())) := by
    intro k b hb
    rw [hmore, hahead, ← List.append_assoc]
    exact (h.accepted k b hb).append_right more
  have right : ∀ (k : Nat) (b : ShardBooks) (lane : ShardLane), t.books[k]? = some b →
      t.registry.lanes[k]? = some lane → b.Right (t.notePush job).pushes lane :=
    fun k b lane hb hl => (h.right k b lane hb hl).push _
  have waiting : ∀ x ∈ t.waiting, shareAt (t.notePush job).pushes x.1 = some x.2.share :=
    fun x hx => shareAt_append (h.waiting x hx) _
  have offering : ∀ x ∈ t.offering, shareAt (t.notePush job).pushes x.1 = some x.2.job :=
    fun x hx => shareAt_append (h.offering x hx) _
  have drops := answeredBy_append t.pushes (job, (t.registry.push job).2) (.error .dispatchQueueFull)
  have hdrops := h.drops
  rcases t.registry.push_cases job with ⟨he, _⟩ | he | ⟨_, he⟩
  · simp only [notePush, he, reduceCtorEq, ↓reduceIte] at accepted right waiting offering drops ⊢
    refine ⟨h.queue, h.offerings, h.width, right, accepted, h.skips, ?_, waiting, offering⟩
    simpa [drops] using hdrops
  · simp only [notePush, he, reduceCtorEq, ↓reduceIte] at accepted right waiting offering drops ⊢
    refine ⟨h.queue, h.offerings, h.width, right, accepted, h.skips, ?_, waiting, offering⟩
    simpa [drops] using hdrops
  · simp only [notePush, he, reduceCtorEq, ↓reduceIte] at accepted right waiting offering drops ⊢
    refine ⟨by simp [h.queue], h.offerings, h.width, right, accepted, h.skips, ?_, ?_, offering⟩
    · simpa [drops] using hdrops
    · intro x hx
      rcases List.mem_append.mp hx with hx | hx
      · exact waiting x hx
      · rw [List.mem_singleton.mp hx]
        simp [shareAt]

theorem apply (h : t.Kept) (e : DispatchEvent) : (t.apply e).Kept := by
  cases e with
  | call c =>
    by_cases hc : ∃ job, c = .push job
    · obtain ⟨job, rfl⟩ := hc
      exact h.push job
    · have hs := (t.registry.call_samePipeline c (not_exists.mp hc)).1
      cases c with
      | push job => exact absurd ⟨job, rfl⟩ hc
      | _ => exact h.aside hs
  | move m =>
    simp only [DispatchTrace.apply]
    cases hm : t.registry.move m with
    | none => exact h
    | some r => exact (h.booked hm).kept h

end Kept

theorem run_kept (settings : RegistrySettings) (events : List DispatchEvent) :
    (run settings events).Kept := by
  induction events using List.reverseRecOn with
  | nil => exact start_kept settings
  | append_singleton events e ih =>
    rw [run, List.foldl_append]
    exact ih.apply e

theorem run_fitted (settings : RegistrySettings) (events : List DispatchEvent) :
    (run settings events).registry.Fitted settings := by
  induction events using List.reverseRecOn with
  | nil => exact Registry.create_fitted settings
  | append_singleton events e ih =>
    rw [run, List.foldl_append]
    cases e with
    | call c =>
      cases c with
      | push job => exact Registry.push_fitted ih job
      | _ => exact Registry.call_fitted ih _
    | move m =>
      simp only [List.foldl_cons, List.foldl_nil, apply]
      cases hm : (List.foldl apply (start settings) events).registry.move m with
      | none => exact ih
      | some r => exact (Registry.move_step hm).fitted ih

namespace Kept

variable {t : DispatchTrace}

theorem disjoint (h : t.Kept) {k : Nat} {b : ShardBooks} (hb : t.books[k]? = some b) :
    (b.offered ++ t.ahead k).Nodup :=
  (h.accepted k b hb).nodup_iff.mpr (answeredBy_nodup _ _)

/-- What a dispatcher is about to offer to a shard is new there. -/
theorem fresh (h : t.Kept) {d n : Nat} {o : Offering} {b : ShardBooks}
    (hn : t.offering[d]? = some (n, o)) (hb : t.books[o.next]? = some b) : n ∉ b.offered := by
  have hahead : n ∈ t.ahead o.next := by
    refine List.mem_append_left _ (List.mem_map.mpr ⟨(n, o), ?_, rfl⟩)
    exact List.mem_filter.mpr ⟨List.mem_of_getElem? hn, by simp⟩
  exact fun hoff => List.disjoint_of_nodup_append (h.disjoint hb) hoff hahead

theorem not_offered (h : t.Kept) {k : Nat} {b : ShardBooks} (hb : t.books[k]? = some b) :
    ((answeredBy t.pushes (.ok ())).filter (· ∉ b.offered)).Perm (t.ahead k) := by
  have hdis := List.disjoint_of_nodup_append (h.disjoint hb)
  have hp := ((h.accepted k b hb).symm).filter fun n => decide (n ∉ b.offered)
  have hnone : b.offered.filter (fun n => decide (n ∉ b.offered)) = [] := by simp
  have hall : (t.ahead k).filter (fun n => decide (n ∉ b.offered)) = t.ahead k :=
    List.filter_eq_self.mpr fun n hn => decide_eq_true fun hoff => hdis hoff hn
  rwa [List.filter_append, hnone, hall, List.nil_append] at hp

/-- Where the accepted pushes are, as seen from one shard. -/
theorem shard_account (h : t.Kept) {k : Nat} {b : ShardBooks} {lane : ShardLane}
    (hb : t.books[k]? = some b) (hl : t.registry.lanes[k]? = some lane) :
    (b.delivered.length + b.skipped.length +
        ((answeredBy t.pushes (.ok ())).filter (· ∉ b.offered)).length) +
      (lane.queued.length + lane.taken.length) = (answeredBy t.pushes (.ok ())).length := by
  have hr := h.right k b lane hb hl
  have hsplit := (h.accepted k b hb).length_eq
  have hoff := hr.offered.length_eq
  have hahead := (h.not_offered hb).length_eq
  have hqueued := congrArg List.length hr.queued
  have htaken := congrArg List.length hr.taken
  simp only [ShardBooks.admitted, List.length_append, List.length_map] at hsplit hoff hqueued htaken
  omega

end Kept

/-- Nothing overtakes: the pushes come to each shard in their order, and so do their jobs. -/
structure InTurn (t : DispatchTrace) : Prop where
  offered : ∀ (k : Nat) (b : ShardBooks), t.books[k]? = some b →
    b.offered ++ t.ahead k = answeredBy t.pushes (.ok ())
  admitted : ∀ (k : Nat) (b : ShardBooks), t.books[k]? = some b →
    b.offered.filter (· ∉ b.skipped) = b.admitted.map (·.1)

theorem yetToOffer_sole (n : Nat) (o : Offering) (k : Nat) :
    yetToOffer [(n, o)] k = if o.next ≤ k then [n] else [] := by
  by_cases ho : o.next ≤ k <;> simp [yetToOffer, ho]

namespace InTurn

variable {t : DispatchTrace}

theorem offered_next (h : t.InTurn) {n : Nat} {o : Offering} {b b' : ShardBooks}
    (hsole : t.offering = [(n, o)]) (hb : t.books[o.next]? = some b)
    (hoff : b'.offered = b.offered ++ [n]) (j : Nat) (c : ShardBooks)
    (hc : (t.books.set o.next b')[j]? = some c) :
    c.offered ++ (yetToOffer (t.offering.set 0 (n, { o with next := o.next + 1 })) j ++
      t.waiting.map (·.1)) = answeredBy t.pushes (.ok ()) := by
  rw [hsole, List.set_cons_zero, yetToOffer_sole]
  rw [getElem?_set_of_some hb] at hc
  by_cases hk : o.next = j
  · rw [if_pos hk] at hc
    cases Option.some.inj hc
    have ha := h.offered j b (hk ▸ hb)
    rw [ahead, hsole, yetToOffer_sole, if_pos (by omega)] at ha
    rw [if_neg (by simp only; omega), hoff, List.nil_append, List.append_assoc]
    exact ha
  · rw [if_neg hk] at hc
    have ha := h.offered j c hc
    have hle : o.next + 1 ≤ j ↔ o.next ≤ j := by omega
    rw [ahead, hsole, yetToOffer_sole] at ha
    simp only [hle]
    exact ha

theorem offered_same (h : t.InTurn) {k : Nat} {b b' : ShardBooks} (hb : t.books[k]? = some b)
    (hoff : b'.offered = b.offered) (j : Nat) (c : ShardBooks) (hc : (t.books.set k b')[j]? = some c) :
    c.offered ++ t.ahead j = answeredBy t.pushes (.ok ()) := by
  rw [getElem?_set_of_some hb] at hc
  by_cases hk : k = j
  · rw [if_pos hk] at hc
    cases Option.some.inj hc
    rw [hoff]
    exact h.offered j b (hk ▸ hb)
  · rw [if_neg hk] at hc
    exact h.offered j c hc

theorem admitted_set (h : t.InTurn) {k : Nat} {b b' : ShardBooks} (hb : t.books[k]? = some b)
    (hb' : b.offered.filter (· ∉ b.skipped) = b.admitted.map (·.1) →
      b'.offered.filter (· ∉ b'.skipped) = b'.admitted.map (·.1)) (j : Nat) (c : ShardBooks)
    (hc : (t.books.set k b')[j]? = some c) :
    c.offered.filter (· ∉ c.skipped) = c.admitted.map (·.1) := by
  rw [getElem?_set_of_some hb] at hc
  by_cases hk : k = j
  · rw [if_pos hk] at hc
    cases Option.some.inj hc
    exact hb' (h.admitted k b hb)
  · rw [if_neg hk] at hc
    exact h.admitted j c hc

end InTurn

theorem Booked.inTurn {t t' : DispatchTrace} (hs : Booked t t') (hk : t.Kept)
    (ho : t.registry.InOrder) (h : t.InTurn) : t'.InTurn := by
  have sole : ∀ {d n o}, t.offering[d]? = some (n, o) → d = 0 ∧ t.offering = [(n, o)] := by
    intro d n o hn
    have hlen := congrArg List.length hk.offerings
    rw [List.length_map] at hlen
    exact Registry.sole_of_getElem? (hlen ▸ ho.offerings) hn
  cases hs with
  | @take n job waiting waits =>
    refine ⟨fun k b hb => ?_, h.admitted⟩
    have ha := h.offered k b hb
    simp only [ahead, waits, List.map_cons] at ha
    simpa only [ahead, yetToOffer_append, List.append_assoc, List.singleton_append] using ha
  | @finish d n o offers behind =>
    obtain ⟨rfl, hsole⟩ := sole offers
    refine ⟨fun k b hb => ?_, h.admitted⟩
    have hlt : k < t.books.length := (List.getElem?_eq_some_iff.mp hb).1
    have hwidth := hk.width
    have ha := h.offered k b hb
    rw [ahead, hsole, yetToOffer_sole, if_neg (by omega)] at ha
    rw [ahead, hsole]
    exact ha
  | @skip d n o lane b offers next booked =>
    obtain ⟨rfl, hsole⟩ := sole offers
    refine ⟨h.offered_next hsole booked rfl, h.admitted_set booked fun hadm => ?_⟩
    have hfresh := hk.fresh offers booked
    have hold : b.offered.filter (fun m => decide (m ∉ b.skipped ++ [n])) =
        b.offered.filter (fun m => decide (m ∉ b.skipped)) := by
      refine List.filter_congr fun m hm => ?_
      have hne : m ≠ n := fun he => hfresh (he ▸ hm)
      simp [hne]
    simp only [List.filter_append, hold, hadm]
    simp [ShardBooks.admitted]
  | @accept d n o lane b offers next booked =>
    obtain ⟨rfl, hsole⟩ := sole offers
    refine ⟨h.offered_next hsole booked rfl, h.admitted_set booked fun hadm => ?_⟩
    have hnew : n ∉ b.skipped := fun hm => hk.fresh offers booked
      ((hk.right _ b lane booked next).offered.mem_iff.mp (List.mem_append_left _ hm))
    simp only [List.filter_append, hadm]
    simp [ShardBooks.admitted, hnew]
  | @pick k lane job rest b serves waits booked =>
    refine ⟨h.offered_same booked rfl, h.admitted_set booked fun hadm => ?_⟩
    rw [b.admitted_pick]
    exact hadm
  | @deliver k i n lane job b roster drops serves taken booked place =>
    refine ⟨h.offered_same booked rfl, h.admitted_set booked fun hadm => ?_⟩
    have hlen := congrArg List.length (hk.right k b lane booked serves).taken
    rw [List.length_map] at hlen
    have hone := ho.taken lane (List.mem_of_getElem? serves)
    obtain ⟨rfl, hb⟩ := Registry.sole_of_getElem? (hlen ▸ hone) place
    simp only [hadm, ShardBooks.admitted, hb, List.eraseIdx_cons_zero, List.append_nil]

theorem InTurn.push {t : DispatchTrace} (h : t.InTurn) (job : PushJob) :
    InTurn { t.notePush job with registry := (t.registry.push job).1 } := by
  obtain ⟨more, hmore, hahead⟩ := t.notePush_ahead job
  refine ⟨fun k b hb => ?_, h.admitted⟩
  have ha : b.offered ++ (t.notePush job).ahead k = answeredBy (t.notePush job).pushes (.ok ()) := by
    rw [hmore, hahead, ← List.append_assoc, h.offered k b hb]
  exact ha

theorem InTurn.apply {t : DispatchTrace} (h : t.InTurn) (hk : t.Kept) (ho : t.registry.InOrder)
    (e : DispatchEvent) : (t.apply e).InTurn := by
  cases e with
  | call c =>
    cases c with
    | push job => exact h.push job
    | _ => exact ⟨h.offered, h.admitted⟩
  | move m =>
    simp only [DispatchTrace.apply]
    cases hm : t.registry.move m with
    | none => exact h
    | some r => exact (hk.booked hm).inTurn hk ho h

theorem run_inTurn {settings : RegistrySettings} (hd : settings.dispatchWorkerCount = 1)
    (hw : settings.shardJobWorkerCount = 1) (events : List DispatchEvent) :
    (run settings events).InTurn := by
  induction events using List.reverseRecOn with
  | nil =>
    have hempty : ∀ (k : Nat) (b : ShardBooks), (start settings).books[k]? = some b →
        b = ⟨[], [], [], [], []⟩ := fun k b hb => (List.mem_replicate.mp (List.mem_of_getElem? hb)).2
    exact ⟨fun k b hb => by rw [hempty k b hb]; rfl, fun k b hb => by rw [hempty k b hb]; rfl⟩
  | append_singleton events e ih =>
    have hf := run_fitted settings events
    have ho : (run settings events).registry.InOrder := by
      refine ⟨?_, fun lane hl => ?_⟩
      · have hoff := hf.offerings
        rwa [hd] at hoff
      · have ht := (hf.balanced lane hl).taken
        rwa [hw] at ht
    rw [run, List.foldl_append]
    exact ih.apply (run_kept settings events) ho e

/-- Every accepted push is at each shard delivered, on its way, skipped or not yet offered, and none is
delivered twice; with one worker each nothing overtakes. -/
theorem dispatch_accounts (settings : RegistrySettings) (events : List DispatchEvent) :
    let t := run settings events
    let accepted := answeredBy t.pushes (.ok ())
    let refused := answeredBy t.pushes (.error .dispatchQueueFull)
    accepted.length * t.registry.shardCount =
      total (t.books.map (·.delivered.length)) +
        total (t.registry.lanes.map fun lane => lane.queued.length + lane.taken.length) +
        t.registry.counters.shardSkips +
        total (t.books.map fun b => (accepted.filter (· ∉ b.offered)).length) ∧
    refused.length = t.registry.counters.dispatchDrops ∧
    (∀ b ∈ t.books, ∀ n ∈ refused, n ∉ b.offered) ∧
    (∀ b ∈ t.books, (b.delivered.map (·.1)).Nodup ∧
      ∀ x ∈ b.delivered, x.1 ∈ accepted ∧ shareAt t.pushes x.1 = some x.2) ∧
    (settings.dispatchWorkerCount = 1 → settings.shardJobWorkerCount = 1 →
      ∀ b ∈ t.books, b.delivered.map (·.1) <+: accepted.filter (· ∉ b.skipped)) := by
  intro t accepted refused
  have hk : t.Kept := run_kept settings events
  have hwidth := hk.width
  have hshards : t.books.length = t.registry.shardCount :=
    hwidth.trans (run_fitted settings events).lanes
  have books_at : ∀ b ∈ t.books, ∃ (k : Nat) (lane : ShardLane), t.books[k]? = some b ∧
      b.Right t.pushes lane := by
    intro b hb
    obtain ⟨k, hlt, hget⟩ := List.getElem_of_mem hb
    have hbk : t.books[k]? = some b := hget ▸ List.getElem?_eq_getElem hlt
    exact ⟨k, _, hbk, hk.right k b _ hbk (List.getElem?_eq_getElem (hwidth ▸ hlt))⟩
  have hoffered : ∀ b ∈ t.books, ∀ n ∈ b.offered, n ∈ accepted := by
    intro b hb n hn
    obtain ⟨k, _, hbk, _⟩ := books_at b hb
    exact (hk.accepted k b hbk).mem_iff.mp (List.mem_append_left _ hn)
  refine ⟨?_, hk.drops, ?_, ?_, ?_⟩
  · have hsum := total_map_pairs hwidth fun k b lane hb hl => hk.shard_account hb hl
    have hskips := hk.skips
    rw [total_map_add, total_map_add, hshards] at hsum
    simp only [accepted]
    omega
  · intro b hb n hn hoff
    have heq := answeredBy_unique hn (hoffered b hb n hoff)
    simp at heq
  · intro b hb
    obtain ⟨k, lane, hbk, hr⟩ := books_at b hb
    have hnodup := hr.offered.nodup_iff.mpr (hk.disjoint hbk).of_append_left
    have hdelivered : b.delivered.Sublist b.admitted := by
      rw [ShardBooks.admitted, List.append_assoc]
      exact List.sublist_append_left _ _
    refine ⟨hnodup.of_append_right.sublist (hdelivered.map _), fun x hx => ?_⟩
    have hx' := hdelivered.subset hx
    have hoff := hr.offered.mem_iff.mp (List.mem_append_right _ (List.mem_map_of_mem hx'))
    exact ⟨hoffered b hb _ hoff, hr.shares x hx'⟩
  · intro hd hw b hb
    obtain ⟨k, _, hbk, _⟩ := books_at b hb
    have hturn := run_inTurn hd hw events
    have hsplit : accepted.filter (· ∉ b.skipped) =
        b.admitted.map (·.1) ++ (t.ahead k).filter (· ∉ b.skipped) := by
      rw [← hturn.admitted k b hbk, ← List.filter_append, hturn.offered k b hbk]
    rw [hsplit, ShardBooks.admitted, List.append_assoc, List.map_append, List.append_assoc]
    exact List.prefix_append _ _

/-- A shard with room for one job misses the second push, and the other shard gets it. -/
theorem second_push_skipped :
    let t := run ⟨2, 4, 1, 1, 1⟩ [.call (.push ⟨.all, ⟨[]⟩⟩), .call (.push ⟨.room "a", ⟨[]⟩⟩),
      .move .take, .move (.offer 0), .move (.offer 0), .move (.offer 0), .move (.pick 0),
      .move (.deliver 0 0), .move .take, .move (.offer 0), .move (.offer 0), .move (.pick 0),
      .move (.deliver 0 0)]
    answeredBy t.pushes (.ok ()) = [0, 1] ∧ t.books.map (·.skipped) = [[], [1]] ∧
    t.books.map (·.delivered) = [[(0, ⟨.all, PushPayload.frame ⟨[]⟩⟩),
      (1, ⟨.room "a", PushPayload.frame ⟨[]⟩⟩)], []] ∧
    ∀ b ∈ t.books,
      b.delivered.map (·.1) <+: (answeredBy t.pushes (.ok ())).filter (· ∉ b.skipped) := by
  intro t
  exact ⟨by decide, by decide, by decide, (dispatch_accounts _ _).2.2.2.2 (by decide) (by decide)⟩

end DispatchTrace

end RoomCast
