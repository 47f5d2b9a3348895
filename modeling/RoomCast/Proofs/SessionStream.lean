import RoomCast.Proofs.MembershipAgreement
import RoomCast.Proofs.SessionFrames

namespace RoomCast

/-- The frames of a stream before the first message that ends it. -/
def framesBefore (messages : List ClientMessage) : List Envelope :=
  (messages.takeWhile (!·.ends)).filterMap ClientMessage.frame?

theorem framesBefore_append {messages : List ClientMessage} (h : ∀ m ∈ messages, m.ends = false)
    (rest : List ClientMessage) : framesBefore (messages ++ rest) =
      messages.filterMap ClientMessage.frame? ++ framesBefore rest := by
  rw [framesBefore, List.takeWhile_append_of_pos fun m hm => by simp [h m hm], List.filterMap_append]
  rfl

theorem framesBefore_extends (messages rest : List ClientMessage) :
    framesBefore messages <+: framesBefore (messages ++ rest) := by
  refine List.IsPrefix.filterMap _ ?_
  rw [List.takeWhile_append]
  split
  next => exact (List.takeWhile_prefix _).trans (List.prefix_append _ _)
  next => exact List.prefix_refl _

namespace Session

/-- A session against the stream of its client. While the reader and the handler are there, what has
been taken from the stream is handled, waits or is held. -/
structure Stream (said : List ClientMessage) (handled : List Envelope) (s : Session) : Prop where
  order : handled ++ s.inbound <+: framesBefore said
  taken : s.reader ≠ .ended → s.handler ≠ .ended → ∃ past, said = past ++ s.incoming ∧
    (∀ m ∈ past, m.ends = false) ∧
    past.filterMap ClientMessage.frame? = handled ++ s.inbound ++ s.reader.held

section Stream

variable {said : List ClientMessage} {handled : List Envelope} {s s' : Session}

theorem stream_of_taken (past : List ClientMessage) (hsaid : said = past ++ s.incoming)
    (hpast : ∀ m ∈ past, m.ends = false)
    (hframes : past.filterMap ClientMessage.frame? = handled ++ s.inbound ++ s.reader.held) :
    Stream said handled s := by
  refine ⟨?_, fun _ _ => ⟨past, hsaid, hpast, hframes⟩⟩
  rw [hsaid, framesBefore_append hpast, hframes, List.append_assoc]
  exact List.prefix_append _ _

theorem Stream.congr (h : Stream said handled s) (hi : s'.inbound = s.inbound)
    (ht : s'.incoming = s.incoming) (hr : s'.reader = s.reader) (hh : s'.handler = s.handler) :
    Stream said handled s' := by
  refine ⟨hi ▸ h.order, ?_⟩
  rw [hi, ht, hr, hh]
  exact h.taken

theorem Stream.close (h : Stream said handled s) (he : s'.reader = .ended ∨ s'.handler = .ended)
    (hi : s'.inbound = s.inbound ∨ s'.inbound = []) : Stream said handled s' := by
  refine ⟨?_, ?_⟩
  · rcases hi with hi | hi <;> rw [hi]
    · exact h.order
    · rw [List.append_nil]
      exact (List.prefix_append _ _).trans h.order
  · rcases he with he | he
    · exact fun hn => absurd he hn
    · exact fun _ hn => absurd he hn

theorem Stream.say (h : Stream said handled s) (message : ClientMessage) :
    Stream (said ++ [message]) handled { s with incoming := s.incoming ++ [message] } := by
  refine ⟨h.order.trans (framesBefore_extends said [message]), fun hr hh => ?_⟩
  obtain ⟨past, rfl, hpast, hframes⟩ := h.taken hr hh
  exact ⟨past, List.append_assoc _ _ _, hpast, hframes⟩

theorem Stream.unheard (h : Stream said handled s) (hr : s.reader = .ended)
    (message : ClientMessage) : Stream (said ++ [message]) handled s :=
  ⟨h.order.trans (framesBefore_extends said [message]), fun hn => absurd hr hn⟩

theorem Stream.handle (h : Stream said handled s) {e : Envelope} {rest : List Envelope}
    (hi : s.inbound = e :: rest) : Stream said (handled ++ [e]) { s with inbound := rest } := by
  have hsame : handled ++ s.inbound = handled ++ [e] ++ rest := by simp [hi]
  refine ⟨hsame ▸ h.order, fun hr hh => ?_⟩
  obtain ⟨past, hsaid, hpast, hframes⟩ := h.taken hr hh
  exact ⟨past, hsaid, hpast, hsame ▸ hframes⟩

theorem past_append {past : List ClientMessage} (hpast : ∀ m ∈ past, m.ends = false)
    {message : ClientMessage} (hm : message.ends = false) :
    ∀ m ∈ past ++ [message], m.ends = false := by
  intro m hmem
  rcases List.mem_append.mp hmem with hmem | hmem
  · exact hpast m hmem
  · exact List.mem_singleton.mp hmem ▸ hm

theorem Stream.read (h : Stream said handled s) {c c' : Connection}
    (hstep : s.readerStep c = some (s', c')) : Stream said handled s' := by
  rcases readerStep_cases hstep with ⟨rfl, _⟩ | ⟨message, rest, shown, hr, hi, hm, hf, _, rfl, _⟩ |
    ⟨e, inbound, reader, incoming, hh, hwaits, _, rfl, _, ⟨hr, rfl⟩ | ⟨message, hr, hi, hm, hf⟩⟩
  · exact h.close (Or.inl rfl) (Or.inl rfl)
  · refine ⟨h.order, fun _ hh => ?_⟩
    obtain ⟨past, hsaid, hpast, hframes⟩ := h.taken (by simp [hr]) hh
    exact ⟨past ++ [message], by simp [hsaid, hi], past_append hpast hm, by simp [hf, hframes]⟩
  · -- the frame was held, and counts as taken already
    obtain ⟨past, hsaid, hpast, hframes⟩ := h.taken (by simp [hr]) hh
    refine stream_of_taken past hsaid hpast ?_
    rw [hframes, hr, List.append_assoc, List.append_assoc, hwaits]
    rfl
  · obtain ⟨past, hsaid, hpast, hframes⟩ := h.taken (by simp [hr]) hh
    refine stream_of_taken (past ++ [message]) ?_ (past_append hpast hm) ?_
    · rw [hsaid, hi, List.append_assoc]
      rfl
    · rw [List.append_assoc, hwaits]
      simp [hframes, hf, hr, ReaderState.held]

end Stream

/-- A reader or a handler that has ended has closed the connection. -/
def Quits (s : Session) (c : Connection) : Prop :=
  s.reader = .ended ∨ s.handler = .ended → c.closed = true

structure TaskStep (s s' : Session) (c c' : Connection) : Prop where
  kept : Kept s s' c c'
  standing : c'.standing = c.standing
  handler : s'.handler = s.handler
  quits : s.Quits c → s'.Quits c'
  stream : ∀ said handled, Stream said handled s → Stream said handled s'

section Tasks

variable {s s' : Session} {c c' : Connection}

theorem close_standing (c : Connection) : c.close.1.standing = c.standing := by
  rw [c.close_cases]
  rfl

theorem readerStep_task (hf : s.Fits c) (h : s.readerStep c = some (s', c')) :
    TaskStep s s' c c' := by
  have hkept := readerStep_kept hf h
  have hstream : ∀ said handled, Stream said handled s → Stream said handled s' :=
    fun said handled hs => hs.read h
  rcases readerStep_cases h with ⟨rfl, rfl⟩ | ⟨_, rest, shown, _, _, _, _, _, rfl, rfl⟩ |
    ⟨e, inbound, reader, incoming, _, _, hreader, rfl, rfl, _⟩
  · exact ⟨hkept, close_standing c, rfl, fun _ _ => by rw [c.close_cases], hstream⟩
  · exact ⟨hkept, rfl, rfl, fun hq => hq, hstream⟩
  · refine ⟨hkept, rfl, rfl, fun hq he => ?_, hstream⟩
    rcases he with he | he
    · exact absurd he hreader
    · exact hq (Or.inr he)

theorem task_aside (hkept : Kept s s' c c') (hstanding : c'.standing = c.standing)
    (hi : s'.inbound = s.inbound) (ht : s'.incoming = s.incoming) (hr : s'.reader = s.reader)
    (hh : s'.handler = s.handler) : TaskStep s s' c c' := by
  refine ⟨hkept, hstanding, hh, fun hq he => hkept.closed (hq ?_), fun _ _ hs => hs.congr hi ht hr hh⟩
  rwa [hr, hh] at he

theorem writerStep_task {now limit : Nat} (hf : s.Fits c)
    (h : s.writerStep c now limit = some (s', c')) : TaskStep s s' c c' := by
  have hkept := writerStep_kept hf h
  rcases writerStep_cases h with ⟨rfl, rfl⟩ | ⟨frame, rest, _, _, rfl, rfl⟩ |
    ⟨frame, since, _, rfl, rfl⟩ | ⟨since, shown, _, rfl, rfl⟩
  · exact task_aside hkept (close_standing c) rfl rfl rfl rfl
  · exact task_aside hkept rfl rfl rfl rfl rfl
  · exact task_aside hkept rfl rfl rfl rfl rfl
  · exact task_aside hkept rfl rfl rfl rfl rfl

theorem heartbeatStep_task {now interval : Nat} (hf : s.Fits c)
    (h : s.heartbeatStep c now interval = some (s', c')) : TaskStep s s' c c' := by
  have hkept := heartbeatStep_kept hf h
  obtain ⟨⟨heartbeat, rfl⟩, rfl | rfl⟩ := heartbeatStep_cases h
  · exact task_aside hkept rfl rfl rfl rfl rfl
  · exact task_aside hkept (close_standing c) rfl rfl rfl rfl

end Tasks

end Session

end RoomCast
