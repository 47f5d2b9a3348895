import RoomCast.Proofs.RegistryDelivery
import RoomCast.Proofs.SessionLifecycle

namespace RoomCast

namespace Registry

/-- Two registries that differ in nothing but their tables, connections and figures. -/
def Abreast (r r' : Registry) : Prop :=
  ∃ shards roster counters,
    r' = { r with shards := shards, roster := roster, counters := counters } ∧
      shards.length = r.shards.length

theorem Abreast.symm {r r' : Registry} (h : Abreast r r') : Abreast r' r := by
  obtain ⟨shards, roster, counters, rfl, hl⟩ := h
  exact ⟨r.shards, r.roster, r.counters, rfl, hl.symm⟩

theorem Abreast.trans {r r' r'' : Registry} (h : Abreast r r') (h' : Abreast r' r'') :
    Abreast r r'' := by
  obtain ⟨_, _, _, rfl, hl⟩ := h
  obtain ⟨shards, roster, counters, rfl, hl'⟩ := h'
  exact ⟨shards, roster, counters, rfl, hl'.trans hl⟩

theorem SamePipeline.abreast {r r' : Registry} (h : SamePipeline r r') : Abreast r r' := by
  obtain ⟨shards, roster, rfl, hl⟩ := h
  exact ⟨shards, roster, r.counters, rfl, hl⟩

theorem Abreast.push {r r' : Registry} (h : Abreast r r') (job : PushJob) :
    Abreast (r.push job).1 (r'.push job).1 := by
  obtain ⟨shards, roster, counters, rfl, hl⟩ := h
  unfold Registry.push
  by_cases hcancelled : r.cancelled
  · simp only [if_pos hcancelled]
    exact ⟨shards, roster, counters, rfl, hl⟩
  · simp only [if_neg hcancelled]
    by_cases hserved : !r.served
    · simp only [if_pos hserved]
      exact ⟨shards, roster, counters, rfl, hl⟩
    · simp only [if_neg hserved]
      split
      next => exact ⟨shards, roster, _, rfl, hl⟩
      next => exact ⟨shards, roster, counters, rfl, hl⟩

theorem Abreast.shutdown {r r' : Registry} (h : Abreast r r') : Abreast r.shutdown r'.shutdown := by
  obtain ⟨shards, roster, counters, rfl, hl⟩ := h
  exact ⟨shards, roster, counters, rfl, hl⟩

theorem Abreast.stopWorkers {r r' : Registry} (h : Abreast r r') :
    r'.cancelled = r.cancelled ∧ Abreast r.stopWorkers r'.stopWorkers := by
  obtain ⟨shards, roster, counters, rfl, hl⟩ := h
  exact ⟨rfl, shards, roster, counters, rfl, hl⟩

def Broadcasts (r a : Registry) (k : Nat) (job : ShardJob) : Prop :=
  ∃ s, r.shards[k]? = some s ∧ a.roster = (s.broadcast r.roster job.target job.frame).roster

/-- The same move has to wait in both, or is made in both; the jobs that are delivered are the same. -/
theorem Abreast.move {r r' : Registry} (h : Abreast r r') (m : PipelineMove) :
    (r.move m = none ∧ r'.move m = none) ∨ ∃ a a', r.move m = some a ∧ r'.move m = some a' ∧
      Abreast a a' ∧ a.shards = r.shards ∧ a'.shards = r'.shards ∧
      ((a.roster = r.roster ∧ a'.roster = r'.roster) ∨
        ∃ k job, Broadcasts r a k job ∧ Broadcasts r' a' k job) := by
  obtain ⟨shards, roster, counters, rfl, hl⟩ := h
  cases m with
  | take =>
    simp only [Registry.move, takeJob]
    cases r.queue with
    | nil => exact Or.inl ⟨rfl, rfl⟩
    | cons job rest =>
      by_cases hf : r.offerings.length < r.dispatchers
      · exact Or.inr ⟨_, _, if_pos hf, if_pos hf, ⟨shards, roster, counters, rfl, hl⟩, rfl, rfl,
          Or.inl ⟨rfl, rfl⟩⟩
      · exact Or.inl ⟨if_neg hf, if_neg hf⟩
  | offer d =>
    simp only [Registry.move, offerNext]
    cases r.offerings[d]? with
    | none => exact Or.inl ⟨rfl, rfl⟩
    | some o =>
      simp only
      cases r.lanes[o.next]? with
      | none =>
        exact Or.inr ⟨_, _, rfl, rfl, ⟨shards, roster, counters, rfl, hl⟩, rfl, rfl,
          Or.inl ⟨rfl, rfl⟩⟩
      | some lane =>
        exact Or.inr ⟨_, _, rfl, rfl, ⟨shards, roster, _, rfl, hl⟩, rfl, rfl, Or.inl ⟨rfl, rfl⟩⟩
  | pick k =>
    simp only [Registry.move, takeShardJob]
    cases r.lanes[k]? with
    | none => exact Or.inl ⟨rfl, rfl⟩
    | some lane =>
      by_cases hf : lane.queued ≠ [] ∧ lane.taken.length < r.workersPerShard
      · exact Or.inr ⟨_, _, if_pos hf, if_pos hf, ⟨shards, roster, counters, rfl, hl⟩, rfl, rfl,
          Or.inl ⟨rfl, rfl⟩⟩
      · exact Or.inl ⟨if_neg hf, if_neg hf⟩
  | deliver k w =>
    simp only [Registry.move, Registry.deliver]
    cases r.lanes[k]? with
    | none => exact Or.inl ⟨rfl, rfl⟩
    | some lane =>
      by_cases hk : k < r.shards.length
      · have hk' : k < shards.length := hl ▸ hk
        simp only [List.getElem?_eq_getElem hk, List.getElem?_eq_getElem hk']
        cases lane.taken[w]? with
        | none => exact Or.inl ⟨rfl, rfl⟩
        | some job =>
          refine Or.inr ⟨_, _, rfl, rfl, ⟨shards, _, _, rfl, hl⟩, rfl, rfl, Or.inr ⟨k, job, ?_, ?_⟩⟩
          · exact ⟨_, List.getElem?_eq_getElem hk, rfl⟩
          · exact ⟨_, List.getElem?_eq_getElem hk', rfl⟩
      · have hn := List.getElem?_eq_none (Nat.le_of_not_lt hk)
        have hn' : shards[k]? = none := List.getElem?_eq_none (hl ▸ Nat.le_of_not_lt hk)
        exact Or.inl ⟨by rw [hn], by rw [hn']⟩

/-- Two registries that differ at most in the connection on one seat, in what the tables hold under its
identity, and in figures. -/
structure Apart (i : Nat) (x : ConnectionId) (r r' : Registry) : Prop where
  pipeline : Abreast r r'
  own : (r.roster.map (·.id))[i]? = some x
  ids : r'.roster.map (·.id) = r.roster.map (·.id)
  roster : ∀ j : Nat, j ≠ i → r'.roster[j]? = r.roster[j]?
  seats : ∀ id, id ≠ x → r'.seatOf id = r.seatOf id
  members : ∀ room id, id ≠ x → (r'.IsMember room id ↔ r.IsMember room id)

theorem Apart.symm {i : Nat} {x : ConnectionId} {r r' : Registry} (h : Apart i x r r') :
    Apart i x r' r :=
  ⟨h.pipeline.symm, h.ids ▸ h.own, h.ids.symm, fun j hj => (h.roster j hj).symm,
    fun id hid => (h.seats id hid).symm, fun room id hid => (h.members room id hid).symm⟩

theorem Apart.trans {i : Nat} {x : ConnectionId} {r r' r'' : Registry} (h : Apart i x r r')
    (h' : Apart i x r' r'') : Apart i x r r'' :=
  ⟨h.pipeline.trans h'.pipeline, h.own, h'.ids.trans h.ids,
    fun j hj => (h'.roster j hj).trans (h.roster j hj),
    fun id hid => (h'.seats id hid).trans (h.seats id hid),
    fun room id hid => (h'.members room id hid).trans (h.members room id hid)⟩

section Effects

variable {i : Nat} {x : ConnectionId} {r r' a a' : Registry}

theorem SeatEffect.apart {c c' : Connection} {seat : Option Nat} (hc : r.roster[i]? = some c)
    (h : SeatEffect r r' i c c' seat) : Apart i c.id r r' := by
  refine ⟨h.pipeline.abreast, ?_, h.ids hc, fun j hj => ?_, fun id hid => ?_, fun room id hid => ?_⟩
  · rw [List.getElem?_map, hc, Option.map_some]
  · rw [h.roster, if_neg (Ne.symm hj)]
  · rw [h.seats, if_neg hid]
  · rw [h.members, if_neg hid]

theorem Apart.effect (h : Apart i x r r') {j : Nat} {c c' : Connection} {seat : Option Nat}
    (hc : r.roster[j]? = some c) (hc' : r'.roster[j]? = some c) (he : SeatEffect r a j c c' seat)
    (he' : SeatEffect r' a' j c c' seat) : Apart i x a a' := by
  have hids := he.ids hc
  refine ⟨(he.pipeline.abreast.symm.trans h.pipeline).trans he'.pipeline.abreast, hids ▸ h.own,
    ((he'.ids hc').trans h.ids).trans hids.symm, fun k hk => ?_, fun id hid => ?_,
    fun room id hid => ?_⟩
  · rw [he.roster, he'.roster, h.roster k hk]
  · rw [he.seats, he'.seats, h.seats id hid]
  · rw [he.members, he'.members]
    by_cases hsame : id = c.id
    · rw [if_pos hsame, if_pos hsame]
    · rw [if_neg hsame, if_neg hsame]
      exact h.members room id hid

theorem Apart.aside (h : Apart i x r r') (hshards : a.shards = r.shards)
    (hshards' : a'.shards = r'.shards) (hpipeline : Abreast a a')
    (hown : (a.roster.map (·.id))[i]? = some x)
    (hids : a'.roster.map (·.id) = a.roster.map (·.id))
    (hroster : ∀ j : Nat, j ≠ i → a'.roster[j]? = a.roster[j]?) : Apart i x a a' := by
  obtain ⟨_, hseat, hconcerns⟩ := shards_congr hshards
  obtain ⟨_, hseat', hconcerns'⟩ := shards_congr hshards'
  refine ⟨hpipeline, hown, hids, hroster, fun id hid => ?_, fun room id hid => ?_⟩
  · rw [hseat, hseat', h.seats id hid]
  · exact ((hconcerns' id (.room room)).trans (h.members room id hid)).trans
      (hconcerns id (.room room)).symm

theorem Apart.still (h : Apart i x r r') (hpipeline : Abreast a a') (hshards : a.shards = r.shards)
    (hshards' : a'.shards = r'.shards) (hroster : a.roster = r.roster)
    (hroster' : a'.roster = r'.roster) : Apart i x a a' := by
  refine h.aside hshards hshards' hpipeline ?_ ?_ ?_
  · rw [hroster]
    exact h.own
  · rw [hroster, hroster']
    exact h.ids
  · rw [hroster, hroster']
    exact h.roster

theorem Broadcasts.ids {k : Nat} {job : ShardJob} (h : Broadcasts r a k job) :
    a.roster.map (·.id) = r.roster.map (·.id) := by
  obtain ⟨s, _, hroster⟩ := h
  have hbare := congrArg (List.map Connection.id)
    (offer_bare r.roster (s.seats job.target) job.frame)
  rw [List.map_map, List.map_map] at hbare
  rw [hroster]
  exact hbare

theorem Apart.broadcast (h : Apart i x r r') (hs : r.Sound) (hs' : r'.Sound)
    (hothers : ∀ (j : Nat) (c : Connection), j ≠ i → r.roster[j]? = some c → c.id ≠ x) {k : Nat}
    {job : ShardJob} (hb : Broadcasts r a k job) (hb' : Broadcasts r' a' k job)
    (hpipeline : Abreast a a') (hshards : a.shards = r.shards) (hshards' : a'.shards = r'.shards) :
    Apart i x a a' := by
  refine h.aside hshards hshards' hpipeline ?_ ?_ fun j hj => ?_
  · rw [hb.ids]
    exact h.own
  · rw [hb.ids, hb'.ids]
    exact h.ids
  · obtain ⟨s, hk, hroster⟩ := hb
    obtain ⟨s', hk', hroster'⟩ := hb'
    rw [hroster, hroster', broadcast_getElem? hs hk, broadcast_getElem? hs' hk', h.roster j hj]
    cases hc : r.roster[j]? with
    | none => rfl
    | some c =>
      have hne := hothers j c hj hc
      have hroute : r'.route c.id = r.route c.id := by
        obtain ⟨_, _, _, rfl, hl⟩ := h.pipeline
        rw [Registry.route, Registry.route]
        exact congrArg c.id.shard hl
      have hconcerns : r'.Concerns c.id job.target ↔ r.Concerns c.id job.target := by
        cases job.target with
        | all => exact Iff.rfl
        | room name => exact h.members name c.id hne
      simp only [Option.map_some, h.seats c.id hne, hroute, hconcerns]

theorem Apart.move (h : Apart i x r r') (hs : r.Sound) (hs' : r'.Sound)
    (hothers : ∀ (j : Nat) (c : Connection), j ≠ i → r.roster[j]? = some c → c.id ≠ x)
    (m : PipelineMove) : Apart i x ((r.move m).getD r) ((r'.move m).getD r') := by
  rcases h.pipeline.move m with ⟨hn, hn'⟩ | ⟨a, a', ha, ha', hp, hshards, hshards', hrosters⟩
  · rw [hn, hn']
    exact h
  · rw [ha, ha', Option.getD_some, Option.getD_some]
    rcases hrosters with ⟨hroster, hroster'⟩ | ⟨k, job, hb, hb'⟩
    · exact h.still hp hshards hshards' hroster hroster'
    · exact h.broadcast hs hs' hothers hb hb' hp hshards hshards'

theorem Apart.seat (h : Apart i x r r') (c : Connection) :
    Apart i x (r.seatConnection c).1 (r'.seatConnection c).1 := by
  have hlt : i < (r.roster.map (·.id)).length := (List.getElem?_eq_some_iff.mp h.own).1
  have hlen : r'.roster.length = r.roster.length := by simpa using congrArg List.length h.ids
  refine h.aside rfl rfl ?_ ?_ ?_ fun j hj => ?_
  · obtain ⟨shards, roster, counters, rfl, hl⟩ := h.pipeline
    exact ⟨shards, _, counters, rfl, hl⟩
  · simp only [seatConnection, List.map_append]
    rw [List.getElem?_append_left hlt]
    exact h.own
  · simp only [seatConnection, List.map_append, h.ids]
  · simp only [seatConnection, List.getElem?_append, hlen, h.roster j hj]

end Effects

end Registry

namespace LifeTrace

/-- Two traces that differ at most in the part of one session, and in figures. -/
structure Apart (i : Nat) (x : ConnectionId) (t t' : LifeTrace) : Prop where
  around : t'.server.surroundings = t.server.surroundings
  length : t'.server.sessions.length = t.server.sessions.length
  sessions : ∀ j : Nat, j ≠ i → t'.server.sessions[j]? = t.server.sessions[j]?
  registry : Registry.Apart i x t.server.registry t'.server.registry

section Apart

variable {i : Nat} {x : ConnectionId} {t t' t'' : LifeTrace}

theorem Apart.symm (h : Apart i x t t') : Apart i x t' t :=
  ⟨h.around.symm, h.length.symm, fun j hj => (h.sessions j hj).symm, h.registry.symm⟩

theorem Apart.trans (h : Apart i x t t') (h' : Apart i x t' t'') : Apart i x t t'' :=
  ⟨h'.around.trans h.around, h'.length.trans h.length,
    fun j hj => (h'.sessions j hj).trans (h.sessions j hj), h.registry.trans h'.registry⟩

theorem Apart.signs (h : Apart i x t t') : t'.server.settings = t.server.settings ∧
    t'.server.now = t.server.now ∧ t'.server.stopping = t.server.stopping :=
  ⟨congrArg Surroundings.settings h.around, congrArg Surroundings.now h.around,
    congrArg Surroundings.stopping h.around⟩

theorem Kept.others (h : t.Kept) (hown : (t.server.registry.roster.map (·.id))[i]? = some x)
    (j : Nat) (c : Connection) (hj : j ≠ i) (hc : t.server.registry.roster[j]? = some c) :
    c.id ≠ x := by
  obtain ⟨events, ha⟩ := h.attended
  rw [List.getElem?_map] at hown
  obtain ⟨own, hi, rfl⟩ := Option.map_eq_some_iff.mp hown
  exact fun hid => hj (ha.registry.seat_unique hi hc hid)

theorem Kept.sound (h : t.Kept) : t.server.registry.Sound := by
  obtain ⟨events, ha⟩ := h.attended
  exact ha.registry.sound

theorem Kept.own_step (h : t.Kept) (hown : (t.server.registry.roster.map (·.id))[i]? = some x)
    (e : SessionEvent) : Apart i x t (t.step (.own i e)) := by
  rw [List.getElem?_map] at hown
  obtain ⟨c, hc, rfl⟩ := Option.map_eq_some_iff.mp hown
  have hpaired := h.paired
  rcases h.part?_cases i with ⟨hs, _⟩ | ⟨p, hpart, hp⟩
  · have hlt := (List.getElem?_eq_some_iff.mp hc).1
    exact absurd (List.getElem?_eq_none_iff.mp hs) (by omega)
  obtain ⟨hserver, _, _⟩ := step_own hpart e
  have hstep := hp.follow e
  cases Option.some.inj (hp.connection.symm.trans hc)
  refine ⟨?_, ?_, fun j hj => ?_, ?_⟩ <;> rw [hserver]
  · exact hstep.around
  · rw [hstep.sessions, List.length_set]
  · rw [sessions_at hp hstep, if_neg (Ne.symm hj)]
  · exact hstep.registry.apart hp.connection

theorem Apart.other (h : Apart i x t t') (hk : t.Kept) (hk' : t'.Kept) {j : Nat} (hj : j ≠ i)
    (e : SessionEvent) : Apart i x (t.step (.own j e)) (t'.step (.own j e)) := by
  rcases hk.part?_cases j with ⟨hs, hnone⟩ | ⟨p, hpart, hp⟩
  · have hnone' : t'.server.part? j = none := by
      rcases hk'.part?_cases j with ⟨_, hn⟩ | ⟨p, _, hp⟩
      · exact hn
      · have hs' := hp.session
        rw [h.sessions j hj, hs] at hs'
        cases hs'
    rw [step_own_none hnone, step_own_none hnone']
    exact h
  · -- the part of the other session is the same in both
    have hs' := (h.sessions j hj).trans hp.session
    have hc' := (h.registry.roster j hj).trans hp.connection
    have hne := hk.others h.registry.own j p.connection hj hp.connection
    have hp' : t'.server.Hosts j p := by
      have hosts := hk'.hosts hs' hc'
      rwa [h.registry.seats _ hne, ← hp.seat] at hosts
    obtain ⟨hserver, _, _⟩ := step_own hpart e
    obtain ⟨hserver', _, _⟩ := step_own hp'.part? e
    have hstep := hp.follow e
    have hstep' := hp'.follow e
    rw [h.around] at hstep'
    refine ⟨?_, ?_, fun k hk => ?_, ?_⟩ <;> rw [hserver, hserver']
    · rw [hstep.around, hstep'.around, h.around]
    · rw [hstep.sessions, hstep'.sessions, List.length_set, List.length_set, h.length]
    · rw [sessions_at hp hstep, sessions_at hp' hstep', h.sessions k hk]
    · exact h.registry.effect hp.connection hc' hstep.registry hstep'.registry

theorem Apart.connect (h : Apart i x t t') (id : ConnectionId) (answersPings : Bool)
    (wire : WireMode) :
    Apart i x (t.step (.connect id answersPings wire)) (t'.step (.connect id answersPings wire)) := by
  simp only [step, h.registry.ids]
  by_cases hid : id ∈ t.server.registry.roster.map (·.id)
  · simp only [if_pos hid]
    exact h
  simp only [if_neg hid]
  obtain ⟨hsettings, hnow, _⟩ := h.signs
  have hlen : t'.server.registry.roster.length = t.server.registry.roster.length := by
    simpa using congrArg List.length h.registry.ids
  refine ⟨h.around, ?_, fun j hj => ?_, ?_⟩
  · simp [Server.openSession, h.length]
  · simp only [Server.openSession, Registry.seatConnection, hsettings, hnow, hlen,
      List.getElem?_append, h.length, h.sessions j hj]
  · simp only [Server.openSession, hsettings, hnow]
    exact h.registry.seat _

/-- The same event keeps two traces apart in one session only, unless it is about that session. -/
theorem Apart.step (h : Apart i x t t') (hk : t.Kept) (hk' : t'.Kept) {e : LifeEvent}
    (he : ∀ own, e ≠ .own i own) : Apart i x (t.step e) (t'.step e) := by
  cases e with
  | connect id answersPings wire => exact h.connect id answersPings wire
  | own j e => exact h.other hk hk' (fun hj => he e (hj ▸ rfl)) e
  | elapse duration =>
    obtain ⟨hsettings, hnow, hstopping⟩ := h.signs
    refine ⟨?_, h.length, h.sessions, h.registry⟩
    simp only [LifeTrace.step, Server.surroundings, hsettings, hnow, hstopping]
  | push job =>
    obtain ⟨hshards, hroster⟩ := t.server.registry.push_tables job
    obtain ⟨hshards', hroster'⟩ := t'.server.registry.push_tables job
    exact ⟨h.around, h.length, h.sessions,
      h.registry.still (h.registry.pipeline.push job) hshards hshards' hroster hroster'⟩
  | move m =>
    exact ⟨h.around, h.length, h.sessions,
      h.registry.move hk.sound hk'.sound (hk.others h.registry.own) m⟩
  | stop =>
    obtain ⟨hsettings, hnow, _⟩ := h.signs
    refine ⟨?_, h.length, h.sessions, h.registry.still ?_ rfl rfl rfl rfl⟩
    · simp only [LifeTrace.step, Server.stop, Server.surroundings, hsettings, hnow]
    · exact h.registry.pipeline.shutdown
  | stopWorkers =>
    obtain ⟨hcancelled, hstop⟩ := h.registry.pipeline.stopWorkers
    simp only [LifeTrace.step, hcancelled]
    split
    next => exact ⟨h.around, h.length, h.sessions, h.registry.still hstop rfl rfl rfl rfl⟩
    next => exact h

/-- What a session does by itself may be left out, and all others are as they were. -/
theorem Apart.run (h : Apart i x t t') (hk : t.Kept) (hk' : t'.Kept) (keeps : LifeEvent → Bool)
    (hkeeps : ∀ e, keeps e = false → ∃ own, e = .own i own) (events : List LifeEvent) :
    Apart i x (t.run events) (t'.run (events.filter keeps)) := by
  induction events using List.reverseRecOn with
  | nil => exact h
  | append_singleton events e ih =>
    have hleft := run_kept hk events
    have hright := run_kept hk' (events.filter keeps)
    rw [LifeTrace.run, LifeTrace.run, List.filter_append, List.foldl_append, List.foldl_append]
    change Apart i x ((t.run events).step e) (([e].filter keeps).foldl LifeTrace.step
      (t'.run (events.filter keeps)))
    cases hkeep : keeps e with
    | false =>
      obtain ⟨own, rfl⟩ := hkeeps e hkeep
      simp only [List.filter_cons, hkeep, Bool.false_eq_true, if_false, List.filter_nil,
        List.foldl_nil]
      exact (hleft.own_step ih.registry.own own).symm.trans ih
    | true =>
      simp only [List.filter_cons, hkeep, if_true, List.filter_nil, List.foldl_cons, List.foldl_nil]
      by_cases hown : ∃ own, e = .own i own
      · obtain ⟨own, rfl⟩ := hown
        exact ((hleft.own_step ih.registry.own own).symm.trans ih).trans
          (hright.own_step ih.symm.registry.own own)
      · exact ih.step hleft hright (not_exists.mp hown)

end Apart

theorem Apart.session? {i : Nat} {x : ConnectionId} {t t' : LifeTrace} (h : Apart i x t t')
    (hk : t.Kept) (hk' : t'.Kept) {j : Nat} (hj : j ≠ i) :
    t'.server.session? j = t.server.session? j := by
  apply Option.ext
  rintro ⟨s, c⟩
  rw [hk.session?_iff, hk'.session?_iff, h.sessions j hj, h.registry.roster j hj]

theorem Kept.handled {t : LifeTrace} (h : t.Kept) {i : Nat} {s : Session} {c : Connection}
    (hs : t.server.sessions[i]? = some s) (hc : t.server.registry.roster[i]? = some c) {e : Envelope}
    (hnote : (t.step (.own i .serve)).handled i = t.handled i ++ [e]) :
    (t.step (.own i .serve)).server.registry = t.server.registry.handle i t.server.now e := by
  have hp := h.hosts hs hc
  obtain ⟨hserver, _, hhandled⟩ := step_own hp.part? .serve
  obtain ⟨figures, heq⟩ := hp.serve_eq
  rw [hhandled, note_self, SessionPart.handling] at hnote
  replace hnote := List.append_cancel_left hnote
  rw [hserver, heq]
  rcases SessionPart.serve_cases t.server.surroundings i ⟨s, c, t.server.registry.seatOf c.id⟩ with
    ⟨_, ha, _⟩ | ⟨_, _, ha, _⟩ | ⟨e', rest, _, _, _, _, ha, _⟩ | ⟨_, ha, _⟩ <;> rw [ha] at hnote ⊢
  · cases hnote
  · cases hnote
  · cases hnote
    rfl
  · cases hnote

theorem Kept.handles {t : LifeTrace} (h : t.Kept) {i : Nat} {s : Session} {c : Connection}
    (hs : t.server.sessions[i]? = some s) (hc : t.server.registry.roster[i]? = some c)
    (hh : s.handler = .running) (hopen : c.closed = false) (hgoes : t.server.stopping = false)
    {e : Envelope} {rest : List Envelope} (hi : s.inbound = e :: rest) :
    (t.step (.own i .serve)).handled i = t.handled i ++ [e] := by
  have hp := h.hosts hs hc
  obtain ⟨_, _, hhandled⟩ := step_own hp.part? .serve
  have hasks : SessionPart.asks t.server.surroundings i ⟨s, c, t.server.registry.seatOf c.id⟩ =
      some (.handle i t.server.now e) := by
    simp [SessionPart.asks, Server.surroundings, hh, hopen, hgoes, hi]
  rw [hhandled, note_self, SessionPart.handling, hasks]
  rfl

theorem Kept.teardown {t : LifeTrace} (h : t.Kept) {i : Nat} {s : Session} {c : Connection}
    (hs : t.server.sessions[i]? = some s) (hc : t.server.registry.roster[i]? = some c)
    (hh : s.handler = .running) (hd : c.closed = true ∨ t.server.stopping = true) :
    (∃ s', (t.step (.own i .serve)).server.sessions[i]? = some s' ∧ s'.handler = .ended) ∧
      (t.step (.own i .serve)).handled i = t.handled i := by
  have hp := h.hosts hs hc
  obtain ⟨hserver, _, hhandled⟩ := step_own hp.part? .serve
  rw [hserver, hhandled, sessions_at hp hp.serve, if_pos rfl, note_self, SessionPart.handling]
  rcases SessionPart.serve_cases t.server.surroundings i ⟨s, c, t.server.registry.seatOf c.id⟩ with
    ⟨hn, _⟩ | ⟨_, _, ha, hserve⟩ | ⟨e, rest, _, hc', hn, _⟩ | ⟨hn | ⟨_, hc', hn, _⟩, _⟩
  · simp [hh] at hn
  · rw [ha, hserve]
    exact ⟨⟨_, rfl, rfl⟩, List.append_nil _⟩
  · rcases hd with hd | hd
    · exact absurd (hd.symm.trans hc') (by simp)
    · exact absurd (hd.symm.trans hn) (by simp)
  · simp [hh] at hn
  · rcases hd with hd | hd
    · exact absurd (hd.symm.trans hc') (by simp)
    · exact absurd (hd.symm.trans hn) (by simp)

end LifeTrace

/-- A handler handles a prefix of the frames of its client, in order; when it has ended nothing is left of
its session, and all others are as they would be without the teardown. -/
theorem session_lifecycle (settings : Settings) (identities : IdentitySource) (showsFigures : Bool)
    (events : List LifeEvent) :
    let t := (LifeTrace.start settings identities showsFigures).run events
    ∀ (i : Nat) (s : Session) (c : Connection), t.server.session? i = some (s, c) →
      t.handled i <+: framesBefore (t.said i) ∧
      (s.reader ≠ .ended → s.handler ≠ .ended → ∃ past, t.said i = past ++ s.incoming ∧
        (∀ m ∈ past, m.ends = false) ∧
        past.filterMap ClientMessage.frame? = t.handled i ++ s.inbound ++ s.reader.held) ∧
      (∀ e rest, s.handler = .running → c.closed = false → t.server.stopping = false →
        s.inbound = e :: rest → (t.step (.own i .serve)).handled i = t.handled i ++ [e]) ∧
      (∀ e, (t.step (.own i .serve)).handled i = t.handled i ++ [e] →
        (t.step (.own i .serve)).server.registry = t.server.registry.handle i t.server.now e) ∧
      (s.reader = .ended ∨ s.writer.HasQuit ∨ s.handler = .ended → c.closed = true) ∧
      (s.handler = .ended ∨ s.isOver = true → c.closed = true ∧
        (∀ shard ∈ t.server.registry.shards, shard.connections.get? s.id = none ∧
          ∀ room, s.id ∉ (shard.roomOf room).members) ∧
        ∀ later, (t.run later).handled i = t.handled i) ∧
      (s.handler = .running → c.closed = true ∨ t.server.stopping = true →
        (∃ s' c', (t.step (.own i .serve)).server.session? i = some (s', c') ∧
          s'.handler = .ended) ∧
        (t.step (.own i .serve)).handled i = t.handled i ∧
        ∀ later,
          let after := ((t.step (.own i .serve)).run later).server
          let without := (t.run (later.filter (· ≠ .own i .serve))).server
          (∀ j, j ≠ i → after.session? j = without.session? j) ∧
          ∀ id, id ≠ s.id → after.registry.seatOf id = without.registry.seatOf id ∧
            ∀ room, after.registry.IsMember room id ↔ without.registry.IsMember room id) := by
  intro t i s c hsc
  have hkept : t.Kept := LifeTrace.run_kept (LifeTrace.start_kept settings identities showsFigures) events
  obtain ⟨hs, hc⟩ := hkept.session?_iff.mp hsc
  have hseated := hkept.seated i s c hs hc
  refine ⟨?_, hseated.stream.taken, fun e rest hh hopen hgoes hi => hkept.handles hs hc hh hopen hgoes hi,
    fun e => hkept.handled hs hc, hkept.closed hs hc, fun hover => ?_, fun hh hd => ?_⟩
  · exact (List.prefix_append _ _).trans hseated.stream.order
  · have he : s.handler = .ended := by
      rcases hover with he | hover
      · exact he
      · simp only [Session.isOver, Bool.and_eq_true, decide_eq_true_eq] at hover
        exact hover.1.2
    refine ⟨hkept.closed hs hc (Or.inr (Or.inr he)), fun shard hm => hkept.cleared hs he hm, ?_⟩
    intro later
    obtain ⟨_, _, _, hsame⟩ := hkept.run_ended hs he later
    exact hsame
  · obtain ⟨hended, hhandled⟩ := hkept.teardown hs hc hh hd
    have hstep := hkept.step (.own i .serve)
    refine ⟨?_, hhandled, fun later => ?_⟩
    · obtain ⟨s', hs', he⟩ := hended
      obtain ⟨c', hc'⟩ := hstep.connection hs'
      exact ⟨s', c', hstep.session?_iff.mpr ⟨hs', hc'⟩, he⟩
    have hown : (t.server.registry.roster.map (·.id))[i]? = some s.id := by
      rw [List.getElem?_map, hc, Option.map_some, hseated.fits.id]
    have hapart := ((hkept.own_step hown .serve).symm.run hstep hkept
      (· ≠ .own i .serve) (fun e he => ⟨.serve, by simpa using he⟩) later).symm
    exact ⟨fun j hj => hapart.session? (LifeTrace.run_kept hkept _) (LifeTrace.run_kept hstep _) hj,
      fun id hid => ⟨hapart.registry.seats id hid, fun room => hapart.registry.members room id hid⟩⟩

/-- A text that cannot be decoded closes a connection; the `JOIN` before it has been handled, the `PING`
after it is not, and the other session keeps its seat. -/
theorem undecodable_text_ends_session :
    let events : List LifeEvent := [.connect ⟨7⟩ true .open, .own 0 .serve,
      .connect ⟨8⟩ true .open, .own 1 .serve,
      .own 0 (.say (.text "\x7b\"type\":\"JOIN\",\"data\":\x7b\"room\":\"a\"\x7d\x7d")),
      .own 0 (.say (.text "JOIN")), .own 0 (.say (.text "\x7b\"type\":\"PING\"\x7d")),
      .own 0 .read, .own 0 .serve, .own 0 .read]
    let t := (LifeTrace.start .defaults ⟨1⟩ false).run events
    (t.handled 0).map (·.kind) = ["JOIN"] ∧ t.handled 0 <+: framesBefore (t.said 0) ∧
      (∃ s c, (t.step (.own 0 .serve)).server.session? 0 = some (s, c) ∧ s.handler = .ended) ∧
      (t.step (.own 0 .serve)).server.registry.seatOf ⟨8⟩ = some 1 := by
  intro events t
  have hsession : (t.server.session? 0).map (fun p => (p.1.id, p.1.handler, p.2.closed)) =
      some (⟨7⟩, .running, true) := by decide +kernel
  have hseat : t.server.registry.seatOf ⟨8⟩ = some 1 := by decide +kernel
  obtain ⟨⟨s, c⟩, hsc, he⟩ := Option.map_eq_some_iff.mp hsession
  obtain ⟨hid, he⟩ := Prod.mk.inj he
  obtain ⟨hh, hclosed⟩ := Prod.mk.inj he
  obtain ⟨horder, _, _, _, _, _, hteardown⟩ := session_lifecycle .defaults ⟨1⟩ false events 0 s c hsc
  obtain ⟨hended, _, hothers⟩ := hteardown hh (Or.inl hclosed)
  refine ⟨by decide +kernel, horder, hended, ?_⟩
  have hsame := ((hothers []).2 ⟨8⟩ (by rw [hid]; decide)).1
  exact hsame.trans hseat

end RoomCast
