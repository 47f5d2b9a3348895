import RoomCast.Proofs.RosterOffer
import RoomCast.Session

namespace RoomCast

/-- The frame of a message, if it is a text that can be decoded. -/
def ClientMessage.frame? : ClientMessage → Option Envelope
  | .text content =>
    match Envelope.receive content with
    | .ok e => some e
    | .error _ => none
  | _ => none

/-- Whether a stream is over with this message. -/
def ClientMessage.ends : ClientMessage → Bool
  | .text content =>
    match Envelope.receive content with
    | .ok _ => false
    | .error _ => true
  | .close => true
  | .error => true
  | _ => false

/-- The frame that the reader holds while the inbound queue is full. -/
def ReaderState.held : ReaderState → List Envelope
  | .holding e => [e]
  | _ => []

theorem ClientMessage.ends_of_frame {m : ClientMessage} {e : Envelope} (h : m.frame? = some e) :
    m.ends = false := by
  cases m with
  | text content =>
    rw [frame?] at h
    rw [ends]
    split at h <;> simp_all
  | _ => simp [frame?] at h

theorem ClientMessage.frame_of_ends {m : ClientMessage} (h : m.ends = true) : m.frame? = none := by
  cases hf : m.frame? with
  | none => rfl
  | some e =>
    rw [ends_of_frame hf] at h
    cases h

inductive ReaderEnd where
  | message (m : ClientMessage)
  | finished
  | closed
  | handlerGone (e : Envelope)
deriving DecidableEq

def WireEvent.frame? : WireEvent → Option String
  | .text frame => some frame
  | _ => none

namespace Session

variable {s s' : Session} {c c' : Connection}

theorem handOver_cases (s : Session) (e : Envelope) : ∃ inbound reader,
    s.handOver e = { s with inbound := inbound, reader := reader } ∧
      inbound ++ reader.held = s.inbound ++ [e] ∧ reader ≠ .ended := by
  unfold handOver
  split
  next => exact ⟨_, _, rfl, List.append_nil _, by simp⟩
  next => exact ⟨s.inbound, .holding e, rfl, rfl, by simp⟩

/-- What a reader comes upon that ends it. -/
inductive Finds (s : Session) (c : Connection) : ReaderEnd → Prop where
  | message {m : ClientMessage} {rest : List ClientMessage} (reads : s.reader = .reading)
      (opened : c.closed = false) (next : s.incoming = m :: rest) (ends : m.ends = true) :
      Finds s c (.message m)
  | finished (reads : s.reader = .reading) (opened : c.closed = false) (empty : s.incoming = [])
      (done : s.finished = true) : Finds s c .finished
  | closed (reads : s.reader = .reading) (closed : c.closed = true) : Finds s c .closed
  | unheard {m : ClientMessage} {rest : List ClientMessage} {e : Envelope} (reads : s.reader = .reading)
      (opened : c.closed = false) (next : s.incoming = m :: rest) (frame : m.frame? = some e)
      (gone : s.handler = .ended) : Finds s c (.handlerGone e)
  | left {e : Envelope} (held : s.reader = .holding e) (gone : s.handler = .ended) :
      Finds s c (.handlerGone e)

/-- A frame that is held waits for room, and for nothing else. -/
theorem readerStep_holding {e : Envelope} (hr : s.reader = .holding e) (there : s.handler ≠ .ended) :
    s.readerStep c = if s.inbound.length < s.inboundCapacity then
      some ({ s with inbound := s.inbound ++ [e], reader := .reading }, c) else none := by
  rw [readerStep, hr]
  simp only [if_neg there, handOver]
  split <;> rfl

section Reads

variable {rest : List ClientMessage} (hr : s.reader = .reading) (hopen : c.closed = false)

include hr hopen

theorem readerStep_text {content : String} (hi : s.incoming = .text content :: rest)
    (h : s.readerStep c = some (s', c')) :
    (∃ why, s.Finds c why ∧ s' = { s with reader := .ended, incoming := [] } ∧ c' = c.close.1) ∨
    (∃ e, ClientMessage.frame? (.text content) = some e ∧ s.handler ≠ .ended ∧
      s' = ({ s with incoming := rest } : Session).handOver e ∧ c' = c) := by
  simp only [readerStep, hr, hopen, hi, Bool.false_eq_true, if_false] at h
  split at h
  next e hd =>
    have hframe : (ClientMessage.text content).frame? = some e := by simp [ClientMessage.frame?, hd]
    split at h
    next hgone =>
      cases Option.some.inj h
      exact .inl ⟨_, .unheard hr hopen hi hframe hgone, rfl, rfl⟩
    next hthere =>
      cases Option.some.inj h
      exact .inr ⟨e, hframe, hthere, rfl, rfl⟩
  next _ hd =>
    have hends : (ClientMessage.text content).ends = true := by simp [ClientMessage.ends, hd]
    cases Option.some.inj h
    exact .inl ⟨_, .message hr hopen hi hends, rfl, rfl⟩

theorem readerStep_other {m : ClientMessage} (hi : s.incoming = m :: rest)
    (hm : ∀ content, m ≠ .text content) (h : s.readerStep c = some (s', c')) :
    (m.ends = true ∧ s' = { s with reader := .ended, incoming := [] } ∧ c' = c.close.1) ∨
    (∃ shown, m.ends = false ∧ m.frame? = none ∧
      shown.filterMap WireEvent.frame? = s.shown.filterMap WireEvent.frame? ∧
      s' = { s with incoming := rest, shown := shown } ∧ c' = c) := by
  simp only [readerStep, hr, hopen, hi, Bool.false_eq_true, if_false] at h
  cases m with
  | text content => exact absurd rfl (hm content)
  | close =>
    cases Option.some.inj h
    exact .inl ⟨rfl, rfl, rfl⟩
  | error =>
    cases Option.some.inj h
    exact .inl ⟨rfl, rfl, rfl⟩
  | ping payload =>
    simp only at h
    split at h
    next =>
      cases Option.some.inj h
      exact .inr ⟨s.shown ++ [.pong payload], rfl, rfl, by simp [WireEvent.frame?], by rw [hr], rfl⟩
    next =>
      cases Option.some.inj h
      exact .inr ⟨s.shown, rfl, rfl, rfl, by rw [hr], rfl⟩
  | binary =>
    cases Option.some.inj h
    exact .inr ⟨s.shown, rfl, rfl, rfl, by rw [hr], rfl⟩
  | pong =>
    cases Option.some.inj h
    exact .inr ⟨s.shown, rfl, rfl, rfl, by rw [hr], rfl⟩

end Reads

theorem readerStep_inv (h : s.readerStep c = some (s', c')) :
    (∃ why, s.Finds c why ∧ s' = { s with reader := .ended, incoming := [] } ∧ c' = c.close.1) ∨
    (∃ e, s.reader = .holding e ∧ s.handler ≠ .ended ∧ s.inbound.length < s.inboundCapacity ∧
      s' = { s with inbound := s.inbound ++ [e], reader := .reading } ∧ c' = c) ∨
    (∃ m rest e, s.reader = .reading ∧ c.closed = false ∧ s.incoming = m :: rest ∧
      m.frame? = some e ∧ s.handler ≠ .ended ∧
      s' = ({ s with incoming := rest } : Session).handOver e ∧ c' = c) ∨
    (∃ m rest shown, s.reader = .reading ∧ c.closed = false ∧ s.incoming = m :: rest ∧
      m.ends = false ∧ m.frame? = none ∧ shown.filterMap WireEvent.frame? = s.shown.filterMap WireEvent.frame? ∧
      s' = { s with incoming := rest, shown := shown } ∧ c' = c) := by
  cases hr : s.reader with
  | ended => simp only [readerStep, hr, reduceCtorEq] at h
  | holding e =>
    by_cases hgone : s.handler = .ended
    · simp only [readerStep, hr, if_pos hgone] at h
      cases Option.some.inj h
      exact .inl ⟨_, .left hr hgone, rfl, rfl⟩
    · rw [readerStep_holding hr hgone] at h
      split at h
      next hroom =>
        cases Option.some.inj h
        exact .inr (.inl ⟨e, rfl, hgone, hroom, rfl, rfl⟩)
      next => cases h
  | reading =>
    cases hclosed : c.closed with
    | true =>
      simp only [readerStep, hr, hclosed, if_true] at h
      cases Option.some.inj h
      exact .inl ⟨_, .closed hr hclosed, rfl, rfl⟩
    | false =>
      cases hi : s.incoming with
      | nil =>
        simp only [readerStep, hr, hclosed, hi, Bool.false_eq_true, if_false] at h
        split at h
        next hover =>
          cases Option.some.inj h
          exact .inl ⟨_, .finished hr hclosed hi hover, rfl, rfl⟩
        next => cases h
      | cons m rest =>
        by_cases hm : ∃ content, m = .text content
        · obtain ⟨content, rfl⟩ := hm
          obtain hends | ⟨e, hf, hthere, hs, hc⟩ := readerStep_text hr hclosed hi h
          · exact .inl hends
          · exact .inr (.inr (.inl ⟨_, rest, e, rfl, rfl, rfl, hf, hthere, hs, hc⟩))
        · obtain ⟨hends, hs, hc⟩ | ⟨shown, hends, hf, hshown, hs, hc⟩ :=
            readerStep_other hr hclosed hi (fun content he => hm ⟨content, he⟩) h
          · exact .inl ⟨_, .message hr hclosed hi hends, hs, hc⟩
          · exact .inr (.inr (.inr ⟨m, rest, shown, rfl, rfl, rfl, hends, hf, hshown, hs.trans (by rw [hr]), hc⟩))

/-- What a step of the reader changes: it ends and closes the connection, passes over a message that is no
frame, or hands a frame over, which then waits behind the others or is held. -/
theorem readerStep_cases (h : s.readerStep c = some (s', c')) :
    (s' = { s with reader := .ended, incoming := [] } ∧ c' = c.close.1) ∨
    (∃ message rest shown, s.reader = .reading ∧ s.incoming = message :: rest ∧
      message.ends = false ∧ message.frame? = none ∧
      shown.filterMap WireEvent.frame? = s.shown.filterMap WireEvent.frame? ∧
      s' = { s with incoming := rest, shown := shown } ∧ c' = c) ∨
    (∃ e inbound reader incoming, s.handler ≠ .ended ∧ inbound ++ reader.held = s.inbound ++ [e] ∧
      reader ≠ .ended ∧
      s' = { s with incoming := incoming, inbound := inbound, reader := reader } ∧ c' = c ∧
      ((s.reader = .holding e ∧ incoming = s.incoming) ∨
        ∃ message, s.reader = .reading ∧ s.incoming = message :: incoming ∧
          message.ends = false ∧ message.frame? = some e)) := by
  rcases readerStep_inv h with ⟨_, _, hs, hc⟩ | ⟨e, hr, hh, _, hs, hc⟩ |
    ⟨m, rest, e, hr, _, hi, hf, hh, hs, hc⟩ | ⟨m, rest, shown, hr, _, hi, hm, hf, hshown, hs, hc⟩
  · exact Or.inl ⟨hs, hc⟩
  · exact Or.inr (Or.inr ⟨e, s.inbound ++ [e], .reading, s.incoming, hh, List.append_nil _, by simp, hs,
      hc, Or.inl ⟨hr, rfl⟩⟩)
  · obtain ⟨inbound, reader, ho, hwaits, hreader⟩ := handOver_cases { s with incoming := rest } e
    exact Or.inr (Or.inr ⟨e, inbound, reader, rest, hh, hwaits, hreader, hs.trans ho, hc,
      Or.inr ⟨m, hr, hi, ClientMessage.ends_of_frame hf, hf⟩⟩)
  · exact Or.inr (Or.inl ⟨m, rest, shown, hr, hi, hm, hf, hshown, hs, hc⟩)

section Writes

variable {now limit : Nat}

theorem writerStep_idle (hw : s.writer = .idle) (h : s.writerStep c now limit = some (s', c')) :
    (c.closed = true ∧ s' = { s with writer := .closing now } ∧ c' = c.close.1) ∨
    (∃ frame rest, c.closed = false ∧ c.outbound = frame :: rest ∧
      s' = { s with writer := .writing frame now } ∧ c' = { c with outbound := rest }) := by
  simp only [writerStep, hw] at h
  split at h
  next hclosed =>
    cases Option.some.inj h
    exact .inl ⟨hclosed, rfl, rfl⟩
  next hopen =>
    split at h
    next => cases h
    next frame c₁ hr =>
      cases Option.some.inj h
      unfold Connection.receive at hr
      split at hr
      next => cases hr
      next head rest hq =>
        cases Option.some.inj hr
        exact .inr ⟨frame, rest, by simpa using hopen, hq, rfl, rfl⟩

theorem writerStep_writing {frame : String} {since : Nat} (hw : s.writer = .writing frame since)
    (h : s.writerStep c now limit = some (s', c')) :
    (s.wire = .open ∧ s' = { s with writer := .idle, shown := s.shown ++ [.text frame] } ∧ c' = c) ∨
    ((s.wire = .failing ∨ s.wire = .stalled ∧ since + limit ≤ now) ∧
      s' = { s with writer := .closing now } ∧ c' = c.close.1) := by
  simp only [writerStep, hw] at h
  split at h
  next hwire =>
    cases Option.some.inj h
    exact .inl ⟨hwire, rfl, rfl⟩
  next hwire =>
    cases Option.some.inj h
    exact .inr ⟨.inl hwire, rfl, rfl⟩
  next hwire =>
    split at h
    next hlate =>
      cases Option.some.inj h
      exact .inr ⟨.inr ⟨hwire, hlate⟩, rfl, rfl⟩
    next => cases h

theorem writerStep_closing {since : Nat} (hw : s.writer = .closing since)
    (h : s.writerStep c now limit = some (s', c')) :
    ∃ shown, shown.filterMap WireEvent.frame? = s.shown.filterMap WireEvent.frame? ∧
      s' = { s with writer := .ended, shown := shown } ∧ c' = c.dropQueue := by
  simp only [writerStep, hw] at h
  split at h
  next =>
    cases Option.some.inj h
    exact ⟨s.shown ++ [.close], by simp [WireEvent.frame?], rfl, rfl⟩
  next =>
    cases Option.some.inj h
    exact ⟨s.shown, rfl, rfl, rfl⟩
  next =>
    split at h
    next =>
      cases Option.some.inj h
      exact ⟨s.shown, rfl, rfl, rfl⟩
    next => cases h

theorem writerStep_inv (h : s.writerStep c now limit = some (s', c')) :
    (s.writer = .idle ∧ c.closed = true ∧ s' = { s with writer := .closing now } ∧ c' = c.close.1) ∨
    (∃ frame rest, s.writer = .idle ∧ c.closed = false ∧ c.outbound = frame :: rest ∧
      s' = { s with writer := .writing frame now } ∧ c' = { c with outbound := rest }) ∨
    (∃ frame since, s.writer = .writing frame since ∧ s.wire = .open ∧
      s' = { s with writer := .idle, shown := s.shown ++ [.text frame] } ∧ c' = c) ∨
    (∃ frame since, s.writer = .writing frame since ∧
      (s.wire = .failing ∨ s.wire = .stalled ∧ since + limit ≤ now) ∧
      s' = { s with writer := .closing now } ∧ c' = c.close.1) ∨
    (∃ since shown, s.writer = .closing since ∧
      shown.filterMap WireEvent.frame? = s.shown.filterMap WireEvent.frame? ∧
      s' = { s with writer := .ended, shown := shown } ∧ c' = c.dropQueue) := by
  cases hw : s.writer with
  | ended => simp only [writerStep, hw, reduceCtorEq] at h
  | idle =>
    obtain ⟨hclosed, hs, hc⟩ | ⟨frame, rest, hopen, hq, hs, hc⟩ := writerStep_idle hw h
    · exact .inl ⟨rfl, hclosed, hs, hc⟩
    · exact .inr (.inl ⟨frame, rest, rfl, hopen, hq, hs, hc⟩)
  | writing frame since =>
    obtain ⟨hwire, hs, hc⟩ | ⟨hwire, hs, hc⟩ := writerStep_writing hw h
    · exact .inr (.inr (.inl ⟨frame, since, rfl, hwire, hs, hc⟩))
    · exact .inr (.inr (.inr (.inl ⟨frame, since, rfl, hwire, hs, hc⟩)))
  | closing since =>
    obtain ⟨shown, hshown, hs, hc⟩ := writerStep_closing hw h
    exact .inr (.inr (.inr (.inr ⟨since, shown, rfl, hshown, hs, hc⟩)))

theorem writerStep_cases (h : s.writerStep c now limit = some (s', c')) :
    (s' = { s with writer := .closing now } ∧ c' = c.close.1) ∨
    (∃ frame rest, s.writer = .idle ∧ c.outbound = frame :: rest ∧
      s' = { s with writer := .writing frame now } ∧ c' = { c with outbound := rest }) ∨
    (∃ frame since, s.writer = .writing frame since ∧
      s' = { s with writer := .idle, shown := s.shown ++ [.text frame] } ∧ c' = c) ∨
    (∃ since shown, s.writer = .closing since ∧
      s' = { s with writer := .ended, shown := shown } ∧ c' = c.dropQueue) := by
  rcases writerStep_inv h with ⟨_, _, hs, hc⟩ | ⟨frame, rest, hw, _, hq, hs, hc⟩ |
    ⟨frame, since, hw, _, hs, hc⟩ | ⟨_, _, _, _, hs, hc⟩ | ⟨since, shown, hw, _, hs, hc⟩
  · exact Or.inl ⟨hs, hc⟩
  · exact Or.inr (Or.inl ⟨frame, rest, hw, hq, hs, hc⟩)
  · exact Or.inr (Or.inr (Or.inl ⟨frame, since, hw, hs, hc⟩))
  · exact Or.inl ⟨hs, hc⟩
  · exact Or.inr (Or.inr (Or.inr ⟨since, shown, hw, hs, hc⟩))

end Writes

theorem heartbeatStep_cases {now interval : Nat}
    (h : s.heartbeatStep c now interval = some (s', c')) :
    (∃ heartbeat, s' = { s with heartbeat := heartbeat }) ∧ (c' = c ∨ c' = c.close.1) := by
  unfold heartbeatStep at h
  split at h
  next => simp at h
  next heartbeat c₁ hs =>
    cases Option.some.inj h
    refine ⟨⟨_, rfl⟩, ?_⟩
    obtain ⟨old, _, hstep⟩ := Option.bind_eq_some_iff.mp hs
    unfold Heartbeat.step at hstep
    split at hstep
    next => simp at hstep
    next =>
      split at hstep
      next => cases Option.some.inj hstep; exact Or.inl rfl
      next =>
        split at hstep
        next => simp at hstep
        next =>
          split at hstep
          next => cases Option.some.inj hstep; exact Or.inl rfl
          next => cases Option.some.inj hstep; exact Or.inr rfl

end Session

end RoomCast
