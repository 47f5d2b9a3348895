import RoomCast.Proofs.ReaderRun

namespace RoomCast

theorem ReaderState.held_length (r : ReaderState) : r.held.length ≤ 1 := by
  cases r <;> simp [held]

namespace Session

variable {s : Session} {c : Connection}

/-- How much there is to read and to handle. -/
def pending (s : Session) : Nat :=
  3 * s.incoming.length + 2 * s.reader.held.length + s.inbound.length

theorem readerStep_none (h : s.readerStep c = none) :
    s.reader = .ended ∨
    (∃ e, s.reader = .holding e ∧ s.handler ≠ .ended ∧ s.inboundCapacity ≤ s.inbound.length) ∨
    (s.reader = .reading ∧ c.closed = false ∧ s.incoming = [] ∧ s.finished = false) := by
  unfold readerStep at h
  split at h
  next hr => exact Or.inl hr
  next e hr =>
    split at h
    next => simp at h
    next hthere =>
      split at h
      next => simp at h
      next hfull => exact Or.inr (Or.inl ⟨e, hr, hthere, by omega⟩)
  next hr =>
    split at h
    next => simp at h
    next hopen =>
      split at h
      next hempty =>
        split at h
        next => simp at h
        next hgoing => exact Or.inr (Or.inr ⟨hr, by simpa using hopen, hempty, by simpa using hgoing⟩)
      next m rest hi =>
        exfalso
        cases m with
        | text content =>
          simp only at h
          split at h
          next => split at h <;> simp at h
          next => simp at h
        | ping payload =>
          simp only at h
          split at h <;> simp at h
        | _ => simp at h

theorem readerStep_skip {m : ClientMessage} {rest : List ClientMessage} (hr : s.reader = .reading)
    (hopen : c.closed = false) (hi : s.incoming = m :: rest) (hm : m.ends = false)
    (hf : m.frame? = none) :
    ∃ shown, s.readerStep c = some ({ s with incoming := rest, shown := shown }, c) := by
  cases hstep : s.readerStep c with
  | none =>
    rcases readerStep_none hstep with hr' | ⟨e, hr', _⟩ | ⟨_, _, hi', _⟩
    · cases hr.symm.trans hr'
    · cases hr.symm.trans hr'
    · cases hi.symm.trans hi'
  | some next =>
    obtain ⟨s', c'⟩ := next
    rcases readerStep_inv hstep with ⟨_, hfinds, _⟩ | ⟨e, hr', _⟩ |
      ⟨m', rest', e, _, _, hi', hf', _⟩ | ⟨m', rest', shown, _, _, hi', _, _, _, rfl, rfl⟩
    · cases hfinds with
      | message _ _ next ends =>
        cases hi.symm.trans next
        cases hm.symm.trans ends
      | finished _ _ empty => cases hi.symm.trans empty
      | closed _ closed => cases hopen.symm.trans closed
      | unheard _ _ next frame =>
        cases hi.symm.trans next
        cases hf.symm.trans frame
      | left held => cases hr.symm.trans held
    · cases hr.symm.trans hr'
    · cases hi.symm.trans hi'
      cases hf.symm.trans hf'
    · cases hi.symm.trans hi'
      exact ⟨shown, rfl⟩

end Session

namespace ReaderTrace

variable {t t' : ReaderTrace}

section Lasting

/-- A reader that has ended takes nothing any more, and queues nothing. -/
theorem Happens.after_end (h : Happens t t') (hr : t.session.reader = .ended) :
    t'.session.reader = .ended ∧ t'.taken = t.taken ∧ t'.queued = t.queued := by
  cases h with
  | flow flows =>
    cases flows with
    | step s c takes =>
      rw [Session.readerStep, hr] at takes
      cases takes
    | handle => exact ⟨hr, rfl, rfl⟩
  | say m going =>
    rw [ReaderTrace.say, if_pos hr]
    exact ⟨hr, rfl, rfl⟩
  | finish => exact ⟨hr, rfl, rfl⟩
  | close => exact ⟨hr, rfl, rfl⟩
  | leave => exact ⟨hr, rfl, rfl⟩
  | other reader => exact ⟨reader.trans hr, rfl, rfl⟩

/-- When the connection is closed a reader takes nothing any more, and queues at most what it holds. -/
theorem Happens.after_close (h : Happens t t') (hc : t.connection.closed = true) :
    t'.connection.closed = true ∧ t'.taken = t.taken ∧
      t'.queued ++ t'.session.reader.held <+: t.queued ++ t.session.reader.held := by
  have hclosed : t.connection.close.1.closed = true := t.connection.close_closed
  cases h with
  | flow flows =>
    cases flows with
    | handle => exact ⟨hc, rfl, List.prefix_refl _⟩
    | step s c takes =>
      have hnone : t.session.takes t.connection = [] := takes_none (by simp [hc])
      have htaken : (t.step s c).taken = t.taken := by rw [step, hnone, List.append_nil]
      rcases Session.readerStep_inv takes with ⟨_, _, rfl, rfl⟩ | ⟨e, hr, _, _, rfl, rfl⟩ |
        ⟨_, _, _, _, hopen, _⟩ | ⟨_, _, _, _, hopen, _⟩
      · refine ⟨hclosed, htaken, ?_⟩
        change t.queued ++ t.session.inbound.drop t.session.inbound.length ++ [] <+: _
        rw [List.drop_length, List.append_nil, List.append_nil]
        exact List.prefix_append _ _
      · refine ⟨hc, htaken, ?_⟩
        change t.queued ++ (t.session.inbound ++ [e]).drop t.session.inbound.length ++ [] <+: _
        rw [List.drop_left, List.append_nil, hr]
        exact List.prefix_refl _
      · cases hc.symm.trans hopen
      · cases hc.symm.trans hopen
  | say m going =>
    have hreader : (t.say m).session.reader = t.session.reader := by
      rw [ReaderTrace.say]
      split <;> rfl
    rw [hreader]
    exact ⟨hc, rfl, List.prefix_refl _⟩
  | finish => exact ⟨hc, rfl, List.prefix_refl _⟩
  | close => exact ⟨hclosed, rfl, List.prefix_refl _⟩
  | leave => exact ⟨hc, rfl, List.prefix_refl _⟩
  | other reader _ _ _ _ _ closed =>
    refine ⟨closed.trans hc, rfl, ?_⟩
    change t.queued ++ ReaderState.held _ <+: _
    rw [reader]

theorem Happens.after_leave (h : Happens t t') (hh : t.session.handler = .ended) :
    t'.session.handler = .ended ∧ t'.queued = t.queued := by
  cases h with
  | flow flows =>
    cases flows with
    | handle there => exact absurd hh there
    | step s c takes =>
      have hsame : t.queued ++ t.session.inbound.drop t.session.inbound.length = t.queued := by
        rw [List.drop_length, List.append_nil]
      rcases Session.readerStep_inv takes with ⟨_, _, rfl, rfl⟩ | ⟨_, _, there, _⟩ |
        ⟨_, _, _, _, _, _, _, there, _⟩ | ⟨_, _, _, _, _, _, _, _, _, rfl, rfl⟩
      · exact ⟨hh, hsame⟩
      · exact absurd hh there
      · exact absurd hh there
      · exact ⟨hh, hsame⟩
  | say m going =>
    have hhandler : (t.say m).session.handler = t.session.handler := by
      rw [ReaderTrace.say]
      split <;> rfl
    exact ⟨hhandler.trans hh, rfl⟩
  | finish => exact ⟨hh, rfl⟩
  | close => exact ⟨hh, rfl⟩
  | leave => exact ⟨rfl, rfl⟩
  | other _ _ _ _ _ handler => exact ⟨handler.mpr hh, rfl⟩

theorem end_lasts (run : Relation.ReflTransGen Happens t t') (hr : t.session.reader = .ended) :
    t'.session.reader = .ended ∧ t'.taken = t.taken ∧ t'.queued = t.queued := by
  induction run with
  | refl => exact ⟨hr, rfl, rfl⟩
  | tail _ happens ih =>
    obtain ⟨hr', htaken, hqueued⟩ := happens.after_end ih.1
    exact ⟨hr', htaken.trans ih.2.1, hqueued.trans ih.2.2⟩

theorem close_lasts (run : Relation.ReflTransGen Happens t t') (hc : t.connection.closed = true) :
    t'.connection.closed = true ∧ t'.taken = t.taken ∧
      t'.queued ++ t'.session.reader.held <+: t.queued ++ t.session.reader.held := by
  induction run with
  | refl => exact ⟨hc, rfl, List.prefix_refl _⟩
  | tail _ happens ih =>
    obtain ⟨hc', htaken, hqueued⟩ := happens.after_close ih.1
    exact ⟨hc', htaken.trans ih.2.1, hqueued.trans ih.2.2⟩

theorem leave_lasts (run : Relation.ReflTransGen Happens t t') (hh : t.session.handler = .ended) :
    t'.session.handler = .ended ∧ t'.queued = t.queued := by
  induction run with
  | refl => exact ⟨hh, rfl⟩
  | tail _ happens ih =>
    obtain ⟨hh', hqueued⟩ := happens.after_leave ih.1
    exact ⟨hh', hqueued.trans ih.2⟩

end Lasting

section Reading

theorem Kept.ended_by (h : t.Kept) {why : ReaderEnd} (hending : t.ending = some why) :
    t.session.reader = .ended ∧ t.connection.closed = true ∧ t.Cause why ∧ t.taken <+: t.said ∧
      ∃ past, t.taken = past ++ why.last ∧ (∀ m ∈ past, m.ends = false) ∧
        past.filterMap ClientMessage.frame? = t.queued ++ why.unheard := by
  cases h.account with
  | going _ ending => cases hending.symm.trans ending
  | ended why' past reader ending closed cause rest taken heard frames =>
    cases hending.symm.trans ending
    exact ⟨reader, closed, cause, rest, past, taken, heard, frames⟩

theorem Kept.ended_iff (h : t.Kept) : t.session.reader = .ended ↔ t.ending ≠ none := by
  cases h.account with
  | going reader ending => exact iff_of_false reader fun hn => hn ending
  | ended _ _ reader ending => exact iff_of_true reader (by simp [ending])

theorem Kept.in_order (h : t.Kept) : t.queued <+: framesBefore t.said := by
  cases h.account with
  | going _ _ rest past frames =>
    rw [rest, framesBefore_append past, frames, List.append_assoc]
    exact List.prefix_append _ _
  | ended why past _ _ _ _ rest taken heard frames =>
    obtain ⟨more, hmore⟩ := rest
    rw [← hmore, taken, List.append_assoc, framesBefore_append heard, frames, List.append_assoc]
    exact List.prefix_append _ _

/-- When the stream has ended all its frames are queued. -/
theorem Kept.all_queued (h : t.Kept)
    (hending : t.ending = some .finished ∨ ∃ m, t.ending = some (.message m)) :
    t.queued = framesBefore t.said := by
  rcases hending with hending | ⟨m, hending⟩
  · obtain ⟨_, _, cause, _, past, taken, heard, frames⟩ := h.ended_by hending
    have hsame : t.said = past ++ [] := cause.1.symm.trans taken
    have hframes : past.filterMap ClientMessage.frame? = t.queued := frames.trans (List.append_nil _)
    rw [hsame, framesBefore_append heard, hframes]
    exact (List.append_nil _).symm
  · obtain ⟨_, _, cause, ⟨more, hmore⟩, past, taken, heard, frames⟩ := h.ended_by hending
    have hends : m.ends = true := cause
    have hlast : framesBefore (m :: more) = [] := by simp [framesBefore, hends]
    have hframes : past.filterMap ClientMessage.frame? = t.queued := frames.trans (List.append_nil _)
    have hsaid : t.said = past ++ m :: more := by
      rw [← hmore, taken, List.append_assoc]
      rfl
    rw [hsaid, framesBefore_append heard, hframes, hlast, List.append_nil]

theorem Kept.reads (h : t.Kept) (hopen : t.connection.closed = false) : t.session.reader ≠ .ended := by
  intro hr
  obtain ⟨why, hending⟩ := Option.ne_none_iff_exists'.mp (h.ended_iff.mp hr)
  cases hopen.symm.trans (h.ended_by hending).2.1

end Reading

section Draining

/-- Whether every frame of the stream before its end has come onto the queue. -/
def Drained (t : ReaderTrace) : Prop :=
  t.queued = framesBefore t.said ∧ (t.ending = none → t.taken = t.said)

/-- Whether there is nothing but the stream that ends the reader. -/
structure Unhindered (t : ReaderTrace) : Prop where
  opened : t.connection.closed = false
  there : t.session.handler ≠ .ended
  capacity : 0 < t.session.inboundCapacity

theorem Kept.drained_of_empty (h : t.Kept) (hopen : t.connection.closed = false)
    (hr : t.session.reader = .reading) (hempty : t.session.incoming = []) : t.Drained := by
  obtain ⟨_, hrest, hpast, hframes⟩ := h.going (h.reads hopen)
  have hsaid : t.said = t.taken ++ [] := by rw [hrest, hempty]
  refine ⟨?_, fun _ => ?_⟩
  · rw [hsaid, framesBefore_append hpast, hframes, held_reading hr, List.append_nil]
    exact (List.append_nil _).symm
  · rw [hsaid, List.append_nil]

theorem Unhindered.ends (hu : t.Unhindered) (h : t.Kept) {why : ReaderEnd}
    (hfinds : t.session.Finds t.connection why)
    (hflow : Flows t (t.step { t.session with reader := .ended, incoming := [] } t.connection.close.1)) :
    (t.step { t.session with reader := .ended, incoming := [] } t.connection.close.1).Drained := by
  have hover : (t.step { t.session with reader := .ended, incoming := [] }
      t.connection.close.1).ending = some why := by
    rw [ReaderTrace.step, if_pos rfl, hfinds.readerEnd]
  refine ⟨(hflow.kept h).all_queued ?_, fun hnone => by cases hnone.symm.trans hover⟩
  cases hfinds with
  | message => exact .inr ⟨_, hover⟩
  | finished => exact .inl hover
  | closed _ closed => cases hu.opened.symm.trans closed
  | unheard _ _ _ _ gone => exact absurd gone hu.there
  | left _ gone => exact absurd gone hu.there

theorem Unhindered.step (hu : t.Unhindered) (h : t.Kept) {s : Session} {c : Connection}
    (hstep : t.session.readerStep t.connection = some (s, c)) :
    (t.step s c).Drained ∨
      (t.step s c).Unhindered ∧ (t.step s c).session.pending < t.session.pending := by
  have hflow : Flows t (t.step s c) := .step s c hstep
  rcases Session.readerStep_inv hstep with ⟨why, hfinds, rfl, rfl⟩ | ⟨e, hr, _, _, rfl, rfl⟩ |
    ⟨m, rest, e, hr, _, hi, _, _, rfl, rfl⟩ | ⟨m, rest, shown, hr, _, hi, _, _, _, rfl, rfl⟩
  · exact .inl (hu.ends h hfinds hflow)
  · refine .inr ⟨⟨hu.opened, hu.there, hu.capacity⟩, ?_⟩
    change 3 * t.session.incoming.length + 2 * 0 + (t.session.inbound ++ [e]).length < _
    rw [Session.pending, hr, List.length_append]
    simp only [ReaderState.held, List.length_singleton]
    omega
  · obtain ⟨inbound, reader, hover, hwaits, _⟩ :=
      Session.handOver_cases { t.session with incoming := rest } e
    rw [hover]
    refine .inr ⟨⟨hu.opened, hu.there, hu.capacity⟩, ?_⟩
    have hlength : inbound.length + reader.held.length = t.session.inbound.length + 1 := by
      rw [← List.length_append, hwaits, List.length_append, List.length_singleton]
    have hheld : reader.held.length ≤ 1 := reader.held_length
    change 3 * rest.length + 2 * reader.held.length + inbound.length < _
    rw [Session.pending, hi, List.length_cons]
    omega
  · refine .inr ⟨⟨hu.opened, hu.there, hu.capacity⟩, ?_⟩
    change 3 * rest.length + 2 * t.session.reader.held.length + t.session.inbound.length < _
    rw [Session.pending, hi, List.length_cons]
    omega

theorem Unhindered.flows (hu : t.Unhindered) (h : t.Kept) :
    t.Drained ∨ ∃ t₁, Flows t t₁ ∧ t₁.said = t.said ∧
      (t₁.Drained ∨ t₁.Unhindered ∧ t₁.session.pending < t.session.pending) := by
  cases hstep : t.session.readerStep t.connection with
  | some next => exact .inr ⟨t.step next.1 next.2, .step _ _ hstep, rfl, hu.step h hstep⟩
  | none =>
    rcases Session.readerStep_none hstep with hr | ⟨e, hr, _, hfull⟩ | ⟨hr, _, hempty, _⟩
    · exact absurd hr (h.reads hu.opened)
    · cases hinbound : t.session.inbound with
      | nil =>
        have hcapacity := hu.capacity
        rw [hinbound, List.length_nil] at hfull
        omega
      | cons oldest rest =>
        refine .inr ⟨_, .handle hu.there hinbound, rfl, .inr ⟨⟨hu.opened, hu.there, hu.capacity⟩, ?_⟩⟩
        simp [Session.pending, hinbound]
    · exact .inl (h.drained_of_empty hu.opened hr hempty)

/-- As long as the handler takes frames the reader goes on to the end of the stream, and every frame of it
comes onto the queue, however small the queue is. -/
theorem Kept.drains (h : t.Kept) (hu : t.Unhindered) :
    ∃ t', Relation.ReflTransGen Flows t t' ∧ t'.said = t.said ∧ t'.Drained := by
  induction hn : t.session.pending using Nat.strong_induction_on generalizing t with
  | h n ih =>
    obtain hdrained | ⟨t₁, hflow, hsaid₁, hdrained | ⟨hu₁, hless⟩⟩ := hu.flows h
    · exact ⟨t, .refl, rfl, hdrained⟩
    · exact ⟨t₁, .single hflow, hsaid₁, hdrained⟩
    · obtain ⟨t', hflows, hsaid, hdrained⟩ := ih _ (hn ▸ hless) (hflow.kept h) hu₁ rfl
      exact ⟨t', .head hflow hflows, hsaid.trans hsaid₁, hdrained⟩

end Draining

end ReaderTrace

/-- The frames that come onto the inbound queue are those before the end of the reader, in order. A full
queue only makes it wait, and after its end nothing is taken. -/
theorem reader_queues_frames_before_its_end {s : Session} {c : Connection} {t : ReaderTrace}
    (reads : s.reader = .reading) (quiet : s.incoming = []) (empty : s.inbound = [])
    (run : Relation.ReflTransGen ReaderTrace.Happens (.start s c) t) :
    (t.ending = none → t.said = t.taken ++ t.session.incoming ∧ (∀ m ∈ t.taken, m.ends = false) ∧
      t.taken.filterMap ClientMessage.frame? = t.queued ++ t.session.reader.held) ∧
    (∀ why, t.ending = some why → t.connection.closed = true ∧ t.Cause why ∧ t.taken <+: t.said ∧
      ∃ past, t.taken = past ++ why.last ∧ (∀ m ∈ past, m.ends = false) ∧
        past.filterMap ClientMessage.frame? = t.queued ++ why.unheard) ∧
    (t.session.reader = .ended ↔ t.ending ≠ none) ∧
    t.queued <+: framesBefore t.said ∧
    (t.session.handler ≠ .ended → t.queued = t.handled ++ t.session.inbound) ∧
    t.session.inbound.length ≤ t.session.inboundCapacity ∧
    (∀ e, t.session.reader = .holding e → t.session.handler ≠ .ended →
      t.session.readerStep t.connection = if t.session.inbound.length < t.session.inboundCapacity then
        some ({ t.session with inbound := t.session.inbound ++ [e], reader := .reading }, t.connection)
      else none) ∧
    (∀ m rest, t.session.reader = .reading → t.connection.closed = false →
      t.session.incoming = m :: rest → m.ends = false → m.frame? = none →
      ∃ shown, t.session.readerStep t.connection =
        some ({ t.session with incoming := rest, shown := shown }, t.connection)) ∧
    (∀ t', Relation.ReflTransGen ReaderTrace.Happens t t' →
      (t.ending ≠ none → t'.taken = t.taken ∧ t'.queued = t.queued) ∧
      (t.connection.closed = true → t'.taken = t.taken ∧
        t'.queued <+: t.queued ++ t.session.reader.held) ∧
      (t.session.handler = .ended → t'.queued = t.queued)) ∧
    (t.connection.closed = false → t.session.handler ≠ .ended → 0 < t.session.inboundCapacity →
      ∃ t', Relation.ReflTransGen ReaderTrace.Flows t t' ∧ t'.said = t.said ∧
        t'.queued = framesBefore t.said ∧ (t'.ending = none → t'.taken = t.said)) := by
  have hkept : t.Kept := ReaderTrace.run_kept (ReaderTrace.start_kept reads quiet empty) run
  refine ⟨fun hnone => ?_, fun why hending => (hkept.ended_by hending).2, hkept.ended_iff, hkept.in_order,
    hkept.queue, hkept.room, fun e hr there => Session.readerStep_holding hr there,
    fun m rest hr hopen hi hm hf => Session.readerStep_skip hr hopen hi hm hf, fun t' later => ?_,
    fun hopen there hcapacity => ?_⟩
  · have hreads : t.session.reader ≠ .ended := fun hr => hkept.ended_iff.mp hr hnone
    exact (hkept.going hreads).2
  · refine ⟨fun hended => ?_, fun hc => ?_, fun hh => ?_⟩
    · exact (ReaderTrace.end_lasts later (hkept.ended_iff.mpr hended)).2
    · obtain ⟨_, htaken, hqueued⟩ := ReaderTrace.close_lasts later hc
      exact ⟨htaken, (List.prefix_append _ _).trans hqueued⟩
    · exact (ReaderTrace.leave_lasts later hh).2
  · obtain ⟨t', hflows, hsaid, hqueued, htaken⟩ := hkept.drains ⟨hopen, there, hcapacity⟩
    rw [hsaid] at hqueued htaken
    exact ⟨t', hflows, hsaid, hqueued, htaken⟩

/-- A queue with room for one frame is enough for a stream of two, with a message between them that is none
and one after its end that is not read. -/
theorem small_queue_takes_all_frames :
    let s : Session := .create ⟨7⟩ 0 1 false .open
    let c : Connection := .create ⟨7⟩ ⟨1, 4, 2⟩ 0
    let frame (kind : String) : String := "\x7b\"type\":\"" ++ kind ++ "\"\x7d"
    let stream : List ClientMessage :=
      [.text (frame "PING"), .binary, .text (frame "WAVE"), .close, .text (frame "JOIN")]
    s.reader = .reading ∧ s.incoming = [] ∧ s.inbound = [] ∧
      ∃ t, Relation.ReflTransGen ReaderTrace.Happens (.start s c) t ∧ t.said = stream ∧
        ∃ t', Relation.ReflTransGen ReaderTrace.Flows t t' ∧
          t'.queued.map (·.kind) = ["PING", "WAVE"] := by
  intro s c frame stream
  have spoken : Relation.ReflTransGen ReaderTrace.Happens (.start s c)
      (stream.foldl ReaderTrace.say (.start s c)) :=
    ((((Relation.ReflTransGen.single (.say _ rfl)).tail (.say _ rfl)).tail (.say _ rfl)).tail
      (.say _ rfl)).tail (.say _ rfl)
  obtain ⟨_, _, _, _, _, _, _, _, _, drains⟩ := reader_queues_frames_before_its_end rfl rfl rfl spoken
  obtain ⟨t', hflows, _, hqueued, _⟩ := drains rfl (by decide) (by decide)
  have hframes : (framesBefore stream).map (·.kind) = ["PING", "WAVE"] := by decide +kernel
  refine ⟨rfl, rfl, rfl, _, spoken, rfl, t', hflows, ?_⟩
  rw [hqueued]
  exact hframes

end RoomCast
