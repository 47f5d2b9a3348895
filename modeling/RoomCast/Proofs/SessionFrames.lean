import RoomCast.Proofs.SessionTasks

namespace RoomCast

def WriterState.frame? : WriterState → Option String
  | .writing frame _ => some frame
  | _ => none

def WriterState.HasQuit : WriterState → Prop
  | .idle => False
  | .writing _ _ => False
  | .closing _ => True
  | .ended => True

def pushStart : List Char := "\x7b\"type\":\"PUSH\"".toList

def isPush (frame : String) : Bool := pushStart.isPrefixOf frame.toList

theorem isPush_frame (p : PushPayload) : isPush p.frame = true := by
  have hstart :
      p.frame.toList = pushStart ++ (',' :: literal "data" ++ ':' :: p.written ++ ['\x7d']) := by
    rw [PushPayload.frame, String.toList_ofList]
    rfl
  rw [isPush, hstart, List.isPrefixOf_iff_prefix]
  exact List.prefix_append _ _

theorem isPush_pong : isPush pongFrame = false := by decide +kernel

namespace Session

/-- All frames that have been queued for the client of a session, in order. -/
def enqueued (s : Session) (c : Connection) : List String :=
  s.shown.filterMap WireEvent.frame? ++ s.writer.frame?.toList ++ c.outbound

def pushes (s : Session) (c : Connection) : List String := (s.enqueued c).filter isPush

/-- Only a closed connection loses its queue or its writer. -/
structure Fits (s : Session) (c : Connection) : Prop where
  id : s.id = c.id
  queue : c.receiving = false → c.closed = true
  writer : s.writer.HasQuit → c.closed = true

structure Kept (s s' : Session) (c c' : Connection) : Prop where
  same : s'.id = s.id ∧ s'.seat = s.seat
  id : c'.id = c.id
  closed : c.closed = true → c'.closed = true
  fits : s'.Fits c'
  frames : c'.closed = false → s'.enqueued c' = s.enqueued c

theorem kept_close {s s' : Session} {c : Connection} (hf : s.Fits c)
    (hsame : s'.id = s.id ∧ s'.seat = s.seat) : Kept s s' c c.close.1 := by
  rw [c.close_cases]
  exact ⟨hsame, rfl, fun _ => rfl, ⟨hsame.1.trans hf.id, fun _ => rfl, fun _ => rfl⟩, by simp⟩

theorem kept_read {s s' : Session} {c : Connection} (hf : s.Fits c)
    (hsame : s'.id = s.id ∧ s'.seat = s.seat) (hwriter : s'.writer = s.writer)
    (hshown : s'.shown.filterMap WireEvent.frame? = s.shown.filterMap WireEvent.frame?) :
    Kept s s' c c := by
  refine ⟨hsame, rfl, fun hc => hc, ⟨hsame.1.trans hf.id, hf.queue, hwriter ▸ hf.writer⟩, fun _ => ?_⟩
  rw [enqueued, enqueued, hwriter, hshown]

theorem readerStep_kept {s s' : Session} {c c' : Connection} (hf : s.Fits c)
    (h : s.readerStep c = some (s', c')) : Kept s s' c c' := by
  rcases readerStep_cases h with ⟨rfl, rfl⟩ | ⟨_, rest, shown, _, _, _, _, hshown, rfl, rfl⟩ |
    ⟨e, inbound, reader, incoming, _, _, _, rfl, rfl, _⟩
  · exact kept_close hf ⟨rfl, rfl⟩
  · exact kept_read hf ⟨rfl, rfl⟩ rfl hshown
  · exact kept_read hf ⟨rfl, rfl⟩ rfl rfl

theorem writerStep_kept {s s' : Session} {c c' : Connection} {now limit : Nat} (hf : s.Fits c)
    (h : s.writerStep c now limit = some (s', c')) : Kept s s' c c' := by
  rcases writerStep_cases h with ⟨rfl, rfl⟩ | ⟨frame, rest, hw, hq, rfl, rfl⟩ |
    ⟨frame, since, hw, rfl, rfl⟩ | ⟨since, shown, hw, rfl, rfl⟩
  · exact kept_close hf ⟨rfl, rfl⟩
  · -- the oldest frame passes from the queue to the writer
    refine ⟨⟨rfl, rfl⟩, rfl, fun hc => hc, ⟨hf.id, hf.queue, fun hn => False.elim hn⟩, fun _ => ?_⟩
    simp [enqueued, WriterState.frame?, hw, hq]
  · refine ⟨⟨rfl, rfl⟩, rfl, fun hc => hc, ⟨hf.id, hf.queue, fun hn => False.elim hn⟩, fun _ => ?_⟩
    simp [enqueued, WriterState.frame?, WireEvent.frame?, hw]
  · have hclosed : c.closed = true := hf.writer (by rw [hw]; trivial)
    refine ⟨⟨rfl, rfl⟩, rfl, fun hc => hc, ⟨hf.id, fun _ => hclosed, fun _ => hclosed⟩, fun ho => ?_⟩
    exact absurd (hclosed.symm.trans ho) (by simp)

theorem heartbeatStep_kept {s s' : Session} {c c' : Connection} {now interval : Nat} (hf : s.Fits c)
    (h : s.heartbeatStep c now interval = some (s', c')) : Kept s s' c c' := by
  obtain ⟨⟨heartbeat, rfl⟩, rfl | rfl⟩ := heartbeatStep_cases h
  · exact kept_read hf ⟨rfl, rfl⟩ rfl rfl
  · exact kept_close hf ⟨rfl, rfl⟩

end Session

end RoomCast
