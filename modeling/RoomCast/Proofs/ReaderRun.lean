import Mathlib.Logic.Relation
import RoomCast.Proofs.SessionStream

namespace RoomCast

def ReaderEnd.last : ReaderEnd → List ClientMessage
  | .message m => [m]
  | _ => []

def ReaderEnd.unheard : ReaderEnd → List Envelope
  | .handlerGone e => [e]
  | _ => []

namespace Session

def takes (s : Session) (c : Connection) : List ClientMessage :=
  if s.reader = .reading ∧ c.closed = false then s.incoming.take 1 else []

/-- Why the next step of the reader ends it, if it does. -/
def readerEnd (s : Session) (c : Connection) : ReaderEnd :=
  match s.reader with
  | .holding e => .handlerGone e
  | _ =>
    if c.closed then .closed
    else
      match s.incoming with
      | [] => .finished
      | m :: _ =>
        match m.frame? with
        | some e => .handlerGone e
        | none => .message m

theorem Finds.readerEnd {s : Session} {c : Connection} {why : ReaderEnd} (h : s.Finds c why) :
    s.readerEnd c = why := by
  cases h with
  | message reads opened next ends =>
    simp [Session.readerEnd, reads, opened, next, ClientMessage.frame_of_ends ends]
  | finished reads opened empty => simp [Session.readerEnd, reads, opened, empty]
  | closed reads closed => simp [Session.readerEnd, reads, closed]
  | unheard reads opened next frame => simp [Session.readerEnd, reads, opened, next, frame]
  | left held => simp [Session.readerEnd, held]

end Session

/-- A session and its connection, with what its reader has done so far. -/
structure ReaderTrace where
  session : Session
  connection : Connection
  said : List ClientMessage
  /-- What the reader has taken from that. -/
  taken : List ClientMessage
  /-- The frames that the reader has put on the inbound queue. -/
  queued : List Envelope
  handled : List Envelope
  ending : Option ReaderEnd

namespace ReaderTrace

def start (s : Session) (c : Connection) : ReaderTrace := ⟨s, c, [], [], [], [], none⟩

def say (t : ReaderTrace) (m : ClientMessage) : ReaderTrace :=
  { t with
    said := t.said ++ [m]
    session :=
      if t.session.reader = .ended then t.session
      else { t.session with incoming := t.session.incoming ++ [m] } }

def step (t : ReaderTrace) (s : Session) (c : Connection) : ReaderTrace :=
  { t with
    session := s
    connection := c
    taken := t.taken ++ t.session.takes t.connection
    queued := t.queued ++ s.inbound.drop t.session.inbound.length
    ending := if s.reader = .ended then some (t.session.readerEnd t.connection) else t.ending }

/-- What the two ends of the inbound queue do: the reader takes a step, or the handler takes the oldest
frame. -/
inductive Flows : ReaderTrace → ReaderTrace → Prop where
  | step {t : ReaderTrace} (s : Session) (c : Connection)
      (takes : t.session.readerStep t.connection = some (s, c)) : Flows t (t.step s c)
  | handle {t : ReaderTrace} {e : Envelope} {rest : List Envelope} (there : t.session.handler ≠ .ended)
      (oldest : t.session.inbound = e :: rest) :
      Flows t { t with
        session := { t.session with inbound := rest }
        handled := t.handled ++ [e] }

/-- Everything that can happen around a reader. What touches neither its stream, its connection nor its
handler may happen at any time. -/
inductive Happens : ReaderTrace → ReaderTrace → Prop where
  | flow {t t' : ReaderTrace} (flows : Flows t t') : Happens t t'
  | say {t : ReaderTrace} (m : ClientMessage) (going : t.session.finished = false) : Happens t (t.say m)
  | finish {t : ReaderTrace} : Happens t { t with session := { t.session with finished := true } }
  | close {t : ReaderTrace} : Happens t { t with connection := t.connection.close.1 }
  | leave {t : ReaderTrace} :
      Happens t { t with session := { t.session with handler := .ended, inbound := [] } }
  | other {t : ReaderTrace} {s : Session} {c : Connection} (reader : s.reader = t.session.reader)
      (incoming : s.incoming = t.session.incoming) (finished : s.finished = t.session.finished)
      (inbound : s.inbound = t.session.inbound)
      (capacity : s.inboundCapacity = t.session.inboundCapacity)
      (handler : s.handler = .ended ↔ t.session.handler = .ended)
      (closed : c.closed = t.connection.closed) :
      Happens t { t with session := s, connection := c }

/-- What a reader has come upon when it has ended. -/
def Cause (t : ReaderTrace) : ReaderEnd → Prop
  | .message m => m.ends = true
  | .finished => t.taken = t.said ∧ t.session.finished = true
  | .closed => t.connection.closed = true
  | .handlerGone _ => t.session.handler = .ended

/-- What a reader has done with what it has taken. Until it ends all frames of it are queued or held, and then
they are queued but for the one that nobody takes any more. -/
inductive Account (t : ReaderTrace) : Prop where
  | going (reader : t.session.reader ≠ .ended) (ending : t.ending = none)
      (rest : t.said = t.taken ++ t.session.incoming) (past : ∀ m ∈ t.taken, m.ends = false)
      (frames : t.taken.filterMap ClientMessage.frame? = t.queued ++ t.session.reader.held)
  | ended (why : ReaderEnd) (past : List ClientMessage) (reader : t.session.reader = .ended)
      (ending : t.ending = some why) (closed : t.connection.closed = true) (cause : t.Cause why)
      (rest : t.taken <+: t.said) (taken : t.taken = past ++ why.last)
      (heard : ∀ m ∈ past, m.ends = false)
      (frames : past.filterMap ClientMessage.frame? = t.queued ++ why.unheard)

structure Kept (t : ReaderTrace) : Prop where
  account : t.Account
  queue : t.session.handler ≠ .ended → t.queued = t.handled ++ t.session.inbound
  handled : t.handled <+: t.queued
  room : t.session.inbound.length ≤ t.session.inboundCapacity

variable {t t' : ReaderTrace}

section Keeping

theorem start_kept {s : Session} {c : Connection} (reads : s.reader = .reading) (quiet : s.incoming = [])
    (empty : s.inbound = []) : (start s c).Kept := by
  have hheld : s.reader.held = [] := by rw [reads]; rfl
  have hreader : s.reader ≠ .ended := by simp [reads]
  refine ⟨.going hreader rfl quiet.symm (by simp [start]) hheld.symm, fun _ => empty.symm,
    List.prefix_refl _, ?_⟩
  · change s.inbound.length ≤ _
    simp [empty]

theorem Kept.say (h : t.Kept) (m : ClientMessage) (going : t.session.finished = false) :
    (t.say m).Kept := by
  cases h.account with
  | going reader ending rest past frames =>
    have hsession : (t.say m).session = { t.session with incoming := t.session.incoming ++ [m] } :=
      if_neg reader
    refine ⟨.going ?_ ending ?_ past ?_, ?_, h.handled, ?_⟩ <;> rw [hsession]
    · exact reader
    · change t.said ++ [m] = t.taken ++ (t.session.incoming ++ [m])
      rw [rest, List.append_assoc]
    · exact frames
    · exact h.queue
    · exact h.room
  | ended why past reader ending closed cause rest taken heard frames =>
    have hsession : (t.say m).session = t.session := if_pos reader
    refine ⟨.ended why past ?_ ending closed ?_ (rest.trans (List.prefix_append _ _)) taken heard frames,
      ?_, h.handled, ?_⟩
    · rw [hsession]
      exact reader
    · cases why with
      | message => exact cause
      | finished => cases going.symm.trans cause.2
      | closed => exact cause
      | handlerGone =>
        change (t.say m).session.handler = .ended
        rw [hsession]
        exact cause
    · rw [hsession]
      exact h.queue
    · rw [hsession]
      exact h.room

theorem Account.aside (h : t.Account) (reader : t'.session.reader = t.session.reader)
    (ending : t'.ending = t.ending) (said : t'.said = t.said) (taken : t'.taken = t.taken)
    (incoming : t'.session.incoming = t.session.incoming) (queued : t'.queued = t.queued)
    (closed : t.connection.closed = true → t'.connection.closed = true)
    (finished : t.session.finished = true → t'.session.finished = true)
    (handler : t.session.handler = .ended → t'.session.handler = .ended) : t'.Account := by
  cases h with
  | going reader' ending' rest past frames =>
    refine .going ?_ (ending.trans ending') ?_ ?_ ?_
    · rw [reader]
      exact reader'
    · rw [said, taken, incoming]
      exact rest
    · rw [taken]
      exact past
    · rw [taken, queued, reader]
      exact frames
  | ended why past reader' ending' closed' cause rest taken' heard frames =>
    refine .ended why past (reader.trans reader') (ending.trans ending') (closed closed') ?_ ?_
      (taken.trans taken') heard ?_
    · cases why with
      | message => exact cause
      | finished => exact ⟨by rw [taken, said, cause.1], finished cause.2⟩
      | closed => exact closed cause
      | handlerGone => exact handler cause
    · rw [taken, said]
      exact rest
    · rw [queued]
      exact frames

theorem Kept.handle (h : t.Kept) {e : Envelope} {rest : List Envelope} (there : t.session.handler ≠ .ended)
    (oldest : t.session.inbound = e :: rest) :
    ({ t with
      session := { t.session with inbound := rest }
      handled := t.handled ++ [e] } : ReaderTrace).Kept := by
  have hqueued : t.queued = t.handled ++ [e] ++ rest := by
    rw [h.queue there, oldest, List.append_assoc]
    rfl
  have hroom : rest.length ≤ t.session.inboundCapacity := by
    have hle := h.room
    rw [oldest, List.length_cons] at hle
    omega
  refine ⟨h.account.aside rfl rfl rfl rfl rfl rfl id id id, fun _ => hqueued, ?_, hroom⟩
  change t.handled ++ [e] <+: t.queued
  rw [hqueued]
  exact List.prefix_append _ _

theorem Kept.finish (h : t.Kept) :
    ({ t with session := { t.session with finished := true } } : ReaderTrace).Kept :=
  ⟨h.account.aside rfl rfl rfl rfl rfl rfl id (fun _ => rfl) id, h.queue, h.handled, h.room⟩

theorem Kept.close (h : t.Kept) : ({ t with connection := t.connection.close.1 } : ReaderTrace).Kept := by
  have hclosed : t.connection.close.1.closed = true := t.connection.close_closed
  exact ⟨h.account.aside rfl rfl rfl rfl rfl rfl (fun _ => hclosed) id id, h.queue, h.handled, h.room⟩

theorem Kept.leave (h : t.Kept) :
    ({ t with session := { t.session with handler := .ended, inbound := [] } } : ReaderTrace).Kept :=
  ⟨h.account.aside rfl rfl rfl rfl rfl rfl id id fun _ => rfl, fun hn => absurd rfl hn, h.handled,
    Nat.zero_le _⟩

theorem Kept.other (h : t.Kept) {s : Session} {c : Connection} (reader : s.reader = t.session.reader)
    (incoming : s.incoming = t.session.incoming) (finished : s.finished = t.session.finished)
    (inbound : s.inbound = t.session.inbound) (capacity : s.inboundCapacity = t.session.inboundCapacity)
    (handler : s.handler = .ended ↔ t.session.handler = .ended) (closed : c.closed = t.connection.closed) :
    ({ t with session := s, connection := c } : ReaderTrace).Kept := by
  refine ⟨h.account.aside reader rfl rfl rfl incoming rfl (fun hc => ?_) (fun hf => ?_) handler.mpr,
    fun hn => ?_, h.handled, ?_⟩
  · exact closed.trans hc
  · exact finished.trans hf
  · change t.queued = t.handled ++ s.inbound
    rw [inbound]
    exact h.queue fun he => hn (handler.mpr he)
  · change s.inbound.length ≤ s.inboundCapacity
    rw [inbound, capacity]
    exact h.room

end Keeping

section Steps

variable {s : Session} {c : Connection}

theorem Kept.going (h : t.Kept) (hr : t.session.reader ≠ .ended) : t.ending = none ∧
    t.said = t.taken ++ t.session.incoming ∧ (∀ m ∈ t.taken, m.ends = false) ∧
    t.taken.filterMap ClientMessage.frame? = t.queued ++ t.session.reader.held := by
  cases h.account with
  | going _ ending rest past frames => exact ⟨ending, rest, past, frames⟩
  | ended _ _ reader => exact absurd reader hr

theorem takes_next {m : ClientMessage} {rest : List ClientMessage} (hr : t.session.reader = .reading)
    (hopen : t.connection.closed = false) (hi : t.session.incoming = m :: rest) :
    t.session.takes t.connection = [m] := by
  rw [Session.takes, if_pos ⟨hr, hopen⟩, hi]
  rfl

theorem takes_none (h : ¬(t.session.reader = .reading ∧ t.connection.closed = false)) :
    t.session.takes t.connection = [] :=
  if_neg h

theorem held_reading (hr : t.session.reader = .reading) : t.session.reader.held = [] := by
  rw [hr]
  rfl

theorem heard_nothing (hr : t.session.reader = .reading) :
    t.session.reader.held ++ ([] : List ClientMessage).filterMap ClientMessage.frame? = [] := by
  rw [held_reading hr]
  rfl

theorem Kept.go_on (h : t.Kept) (hr : t.session.reader ≠ .ended) {moved : List ClientMessage}
    {put : List Envelope} (hmoved : t.session.takes t.connection = moved)
    (hincoming : t.session.incoming = moved ++ s.incoming) (hput : s.inbound = t.session.inbound ++ put)
    (hends : ∀ m ∈ moved, m.ends = false)
    (hframes : t.session.reader.held ++ moved.filterMap ClientMessage.frame? = put ++ s.reader.held)
    (hreader : s.reader ≠ .ended) (hroom : s.inbound.length ≤ s.inboundCapacity)
    (hhandler : s.handler = t.session.handler) : (t.step s c).Kept := by
  obtain ⟨ending, rest, past, frames⟩ := h.going hr
  have htaken : (t.step s c).taken = t.taken ++ moved := by rw [step, hmoved]
  have hqueued : (t.step s c).queued = t.queued ++ put := by rw [step, hput, List.drop_left]
  refine ⟨.going hreader ?_ ?_ ?_ ?_, fun there => ?_, ?_, hroom⟩
  · rw [step, if_neg hreader, ending]
  · rw [htaken, List.append_assoc]
    change t.said = t.taken ++ (moved ++ s.incoming)
    rw [rest, hincoming]
  · rw [htaken]
    exact List.forall_mem_append.mpr ⟨past, hends⟩
  · rw [htaken, hqueued, List.filterMap_append, frames, List.append_assoc, hframes, ← List.append_assoc]
    rfl
  · have hqueue : t.queued = t.handled ++ t.session.inbound := h.queue (hhandler ▸ there)
    rw [hqueued, hqueue, List.append_assoc, ← hput]
    rfl
  · rw [hqueued]
    exact h.handled.trans (List.prefix_append _ _)

theorem Kept.stop (h : t.Kept) (hr : t.session.reader ≠ .ended) {why : ReaderEnd}
    (hfinds : t.session.Finds t.connection why) {heard : List ClientMessage}
    (hmoved : t.session.takes t.connection = heard ++ why.last)
    (hincoming : heard ++ why.last <+: t.session.incoming) (hends : ∀ m ∈ heard, m.ends = false)
    (hframes : t.session.reader.held ++ heard.filterMap ClientMessage.frame? = why.unheard)
    (hcause : (t.step { t.session with reader := .ended, incoming := [] }
      t.connection.close.1).Cause why) :
    (t.step { t.session with reader := .ended, incoming := [] } t.connection.close.1).Kept := by
  obtain ⟨_, rest, past, frames⟩ := h.going hr
  have hclosed : t.connection.close.1.closed = true := t.connection.close_closed
  have hqueued : t.queued ++ t.session.inbound.drop t.session.inbound.length = t.queued := by
    rw [List.drop_length, List.append_nil]
  have hending : (t.step { t.session with reader := .ended, incoming := [] }
      t.connection.close.1).ending = some why := by
    rw [step, if_pos rfl, hfinds.readerEnd]
  refine ⟨.ended why (t.taken ++ heard) rfl hending hclosed hcause ?_ ?_ ?_ ?_, fun there => ?_, ?_,
    h.room⟩
  · change t.taken ++ t.session.takes t.connection <+: t.said
    rw [hmoved, rest]
    exact (List.prefix_append_right_inj _).mpr hincoming
  · change t.taken ++ t.session.takes t.connection = _
    rw [hmoved, List.append_assoc]
  · exact List.forall_mem_append.mpr ⟨past, hends⟩
  · change _ = t.queued ++ t.session.inbound.drop t.session.inbound.length ++ why.unheard
    rw [hqueued, List.filterMap_append, frames, List.append_assoc, hframes]
  · change t.queued ++ t.session.inbound.drop t.session.inbound.length = _
    rw [hqueued]
    exact h.queue there
  · change t.handled <+: t.queued ++ t.session.inbound.drop t.session.inbound.length
    rw [hqueued]
    exact h.handled

theorem Kept.quit (h : t.Kept) {why : ReaderEnd} (hfinds : t.session.Finds t.connection why) :
    (t.step { t.session with reader := .ended, incoming := [] } t.connection.close.1).Kept := by
  have hcause := hfinds
  cases hcause with
  | @message m rest reads opened next ends =>
    have hmoved : t.session.takes t.connection = [] ++ [m] := takes_next reads opened next
    refine h.stop (by simp [reads]) hfinds hmoved ?_ (by simp) (heard_nothing reads) ends
    rw [next]
    exact ⟨rest, rfl⟩
  | finished reads opened empty done =>
    have hnone : t.session.takes t.connection = [] ++ [] := by
      rw [Session.takes, if_pos ⟨reads, opened⟩, empty]
      rfl
    refine h.stop (by simp [reads]) hfinds hnone List.nil_prefix (by simp) (heard_nothing reads)
      ⟨?_, done⟩
    obtain ⟨_, rest, _⟩ := h.going (by simp [reads])
    change t.taken ++ t.session.takes t.connection = t.said
    rw [hnone, rest, empty]
    rfl
  | closed reads closed =>
    have hnone : t.session.takes t.connection = [] ++ [] := takes_none (by simp [closed])
    exact h.stop (by simp [reads]) hfinds hnone List.nil_prefix (by simp) (heard_nothing reads)
      t.connection.close_closed
  | @unheard m rest e reads opened next frame gone =>
    have hmoved : t.session.takes t.connection = [m] ++ [] := takes_next reads opened next
    have hends : ∀ m' ∈ [m], m'.ends = false :=
      List.forall_mem_singleton.mpr (ClientMessage.ends_of_frame frame)
    refine h.stop (by simp [reads]) hfinds hmoved ?_ hends ?_ gone
    · rw [next]
      exact ⟨rest, rfl⟩
    · simp [held_reading reads, frame, ReaderEnd.unheard]
  | @left e held gone =>
    have hnone : t.session.takes t.connection = [] ++ [] := takes_none (by simp [held])
    refine h.stop (by simp [held]) hfinds hnone List.nil_prefix (by simp) ?_ gone
    rw [held]
    rfl

theorem Kept.step (h : t.Kept) (takes : t.session.readerStep t.connection = some (s, c)) :
    (t.step s c).Kept := by
  rcases Session.readerStep_inv takes with ⟨_, hfinds, rfl, rfl⟩ | ⟨e, hr, _, hroom, rfl, rfl⟩ |
    ⟨m, rest, e, hr, hopen, hi, hf, _, rfl, rfl⟩ |
    ⟨m, rest, shown, hr, hopen, hi, hm, hf, _, rfl, rfl⟩
  · exact h.quit hfinds
  · -- the frame that was held finds room
    have hlength : (t.session.inbound ++ [e]).length ≤ t.session.inboundCapacity := by
      rw [List.length_append, List.length_singleton]
      omega
    have hnone : t.session.takes t.connection = [] := takes_none (by simp [hr])
    refine @Kept.go_on t _ _ h (by simp [hr]) [] [e] hnone rfl rfl (by simp) ?_ (by simp) hlength rfl
    rw [hr]
    rfl
  · -- a frame is taken, and queued or held
    have hends : ∀ m' ∈ [m], m'.ends = false :=
      List.forall_mem_singleton.mpr (ClientMessage.ends_of_frame hf)
    have hframes : t.session.reader.held ++ [m].filterMap ClientMessage.frame? = [e] := by
      simp [held_reading hr, hf]
    have hmoved : t.session.takes t.connection = [m] := takes_next hr hopen hi
    rw [Session.handOver]
    split
    next hroom =>
      have hlength : (t.session.inbound ++ [e]).length ≤ t.session.inboundCapacity := by
        rw [List.length_append, List.length_singleton]
        exact hroom
      exact @Kept.go_on t _ _ h (by simp [hr]) [m] [e] hmoved hi rfl hends hframes (by simp) hlength rfl
    next =>
      have hsame : t.session.inbound = t.session.inbound ++ [] := (List.append_nil _).symm
      exact @Kept.go_on t _ _ h (by simp [hr]) [m] [] hmoved hi hsame hends hframes (by simp) h.room rfl
  · -- a message that is no frame
    have hends : ∀ m' ∈ [m], m'.ends = false := List.forall_mem_singleton.mpr hm
    have hsame : t.session.inbound = t.session.inbound ++ [] := (List.append_nil _).symm
    refine @Kept.go_on t _ _ h (by simp [hr]) [m] [] (takes_next hr hopen hi) hi hsame hends ?_ (by simp [hr])
      h.room rfl
    simp [held_reading hr, hf]

end Steps

theorem Flows.kept (hf : Flows t t') (h : t.Kept) : t'.Kept := by
  cases hf with
  | step s c takes => exact h.step takes
  | handle there oldest => exact h.handle there oldest

theorem Happens.kept (hh : Happens t t') (h : t.Kept) : t'.Kept := by
  cases hh with
  | flow flows => exact flows.kept h
  | say m going => exact h.say m going
  | finish => exact h.finish
  | close => exact h.close
  | leave => exact h.leave
  | other reader incoming finished inbound capacity handler closed =>
    exact h.other reader incoming finished inbound capacity handler closed

theorem run_kept (h : t.Kept) (run : Relation.ReflTransGen Happens t t') : t'.Kept := by
  induction run with
  | refl => exact h
  | tail _ happens ih => exact happens.kept ih

end ReaderTrace

end RoomCast
