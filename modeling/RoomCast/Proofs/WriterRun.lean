import Mathlib.Data.List.Forall2
import RoomCast.Proofs.SessionTasks
import RoomCast.Proofs.ShardBroadcast

namespace RoomCast

/-- A write that did not go through: when it was given up, and what the wire did then. -/
structure LostWrite where
  time : Nat
  frame : String
  wire : WireMode

/-- A session and its connection, with what the writer has done so far. -/
structure WriterTrace where
  now : Nat
  session : Session
  connection : Connection
  accepted : List String
  /-- The writes that were begun, with the times. -/
  begun : List (Nat × String)
  written : List (Nat × String)
  lost : List LostWrite
  closedAt : Option Nat
  returnedAt : Option Nat

def WriterState.inHand : WriterState → List (Nat × String)
  | .writing frame since => [(since, frame)]
  | _ => []

namespace WriterTrace

def start (now : Nat) (s : Session) (c : Connection) : WriterTrace :=
  ⟨now, s, c, [], [], [], [], none, none⟩

def put (t : WriterTrace) (s : Session) (c : Connection) : WriterTrace :=
  { t with
    session := s
    connection := c
    closedAt := t.closedAt.or (if c.closed then some t.now else none) }

def note (t : WriterTrace) (before after : WriterState) : WriterTrace :=
  match before, after with
  | .idle, .writing frame _ => { t with begun := t.begun ++ [(t.now, frame)] }
  | .writing frame _, .idle => { t with written := t.written ++ [(t.now, frame)] }
  | .writing frame _, .closing _ => { t with lost := t.lost ++ [⟨t.now, frame, t.session.wire⟩] }
  | .closing _, .ended => { t with returnedAt := some t.now }
  | _, _ => t

def Rests (t : WriterTrace) (limit time : Nat) : Prop :=
  t.session.writerStep t.connection time limit = none

/-- What happens by itself: the writer takes a step, or time goes by while it has to wait. -/
inductive Moves (limit : Nat) : WriterTrace → WriterTrace → Prop where
  | step {t : WriterTrace} (s : Session) (c : Connection)
      (takes : t.session.writerStep t.connection t.now limit = some (s, c)) :
      Moves limit t ((t.note t.session.writer s.writer).put s c)
  | pass {t : WriterTrace} (time : Nat) (later : t.now ≤ time)
      (rests : ∀ τ, t.now ≤ τ → τ < time → t.Rests limit τ) : Moves limit t { t with now := time }

end WriterTrace

/-- Everything that can happen around a writer, from its start. The wire goes through, blocks and fails as
it likes. -/
inductive WriterRun (limit : Nat) : WriterTrace → Prop where
  | start (now : Nat) {s : Session} {c : Connection} (writer : s.writer = .idle)
      (shown : s.shown.filterMap WireEvent.frame? = []) (queue : c.outbound = [])
      (opened : c.closed = false) : WriterRun limit (.start now s c)
  | accept {t : WriterTrace} (h : WriterRun limit t) (frame : String)
      (taken : (t.connection.send frame).2 = .ok ()) :
      WriterRun limit { t with
        connection := (t.connection.send frame).1
        accepted := t.accepted ++ [frame] }
  | close {t : WriterTrace} (h : WriterRun limit t) :
      WriterRun limit (t.put t.session t.connection.close.1)
  | other {t : WriterTrace} (h : WriterRun limit t) {s : Session} {c : Connection}
      (writer : s.writer = t.session.writer)
      (shown : s.shown.filterMap WireEvent.frame? = t.session.shown.filterMap WireEvent.frame?)
      (queue : c.outbound = t.connection.outbound) (closed : c.closed = t.connection.closed) :
      WriterRun limit { t with session := s, connection := c }
  | move {t t' : WriterTrace} (h : WriterRun limit t) (m : t.Moves limit t') : WriterRun limit t'

namespace WriterTrace

def InTime (limit : Nat) (begun written : Nat × String) : Prop :=
  written.2 = begun.2 ∧ begun.1 ≤ written.1 ∧ written.1 ≤ begun.1 + limit

/-- A write that was given up against its beginning: the wire failed, or its time was over. -/
def GivenUp (limit : Nat) (begun : Nat × String) (lost : LostWrite) : Prop :=
  lost.frame = begun.2 ∧ begun.1 ≤ lost.time ∧
    (lost.wire = .failing ∧ lost.time ≤ begun.1 + limit ∨
      lost.wire = .stalled ∧ lost.time = begun.1 + limit)

/-- All writes have gone through, or all but the last one. -/
def Outcome (limit : Nat) (t : WriterTrace) : Prop :=
  (t.lost = [] ∧ List.Forall₂ (InTime limit) t.begun t.written) ∨
    ∃ done last lost, t.begun = done ++ [last] ∧ t.lost = [lost] ∧
      List.Forall₂ (InTime limit) done t.written ∧ GivenUp limit last lost

/-- The frames whose writes were begun, and then those in the queue. -/
def Conserved (t : WriterTrace) : Prop :=
  t.begun.map Prod.snd ++ t.connection.outbound = t.accepted

/-- Where a writer stands. A close finds it waiting for a frame, or writing, or has been found. -/
inductive Phase (limit : Nat) (t : WriterTrace) : Prop where
  | idle (writer : t.session.writer = .idle) (queue : t.Conserved) (returned : t.returnedAt = none)
      (lost : t.lost = []) (done : List.Forall₂ (InTime limit) t.begun t.written)
      (prompt : ∀ T, t.closedAt = some T → t.now ≤ T + limit)
  | writing (frame : String) (since : Nat) (writer : t.session.writer = .writing frame since)
      (queue : t.Conserved) (returned : t.returnedAt = none) (lost : t.lost = [])
      (done : ∃ done, t.begun = done ++ [(since, frame)] ∧
        List.Forall₂ (InTime limit) done t.written)
      (begun : since ≤ t.now) (late : t.now ≤ since + limit)
      (found : ∀ T, t.closedAt = some T → since ≤ T)
  | closing (since T : Nat) (writer : t.session.writer = .closing since) (queue : t.Conserved)
      (returned : t.returnedAt = none) (outcome : t.Outcome limit) (closed : t.closedAt = some T)
      (begun : since ≤ t.now) (late : t.now ≤ since + limit) (found : since ≤ T + limit)
  | ended (time T : Nat) (writer : t.session.writer = .ended)
      (queue : t.begun.map Prod.snd <+: t.accepted) (returned : t.returnedAt = some time)
      (outcome : t.Outcome limit) (closed : t.closedAt = some T) (found : time ≤ T + 2 * limit)

structure Marked (t : WriterTrace) : Prop where
  closed : t.connection.closed = true ↔ t.closedAt ≠ none
  past : ∀ T, t.closedAt = some T → T ≤ t.now

structure Kept (limit : Nat) (t : WriterTrace) : Prop where
  shown : t.session.shown.filterMap WireEvent.frame? = t.written.map Prod.snd
  marked : t.Marked
  phase : t.Phase limit

variable {limit : Nat} {t t' : WriterTrace}

theorem rests_cases {time : Nat} (h : t.Rests limit time) :
    t.session.writer = .ended ∨
    (t.session.writer = .idle ∧ t.connection.closed = false ∧ t.connection.outbound = []) ∨
    (∃ frame since, t.session.writer = .writing frame since ∧ t.session.wire = .stalled ∧
      time < since + limit) ∨
    ∃ since, t.session.writer = .closing since ∧ t.session.wire = .stalled ∧ time < since + limit := by
  unfold Rests Session.writerStep at h
  split at h
  next hw => exact Or.inl hw
  next hw =>
    split at h
    next => simp at h
    next hopen =>
      have hqueue : t.connection.outbound = [] := by
        cases hq : t.connection.outbound with
        | nil => rfl
        | cons frame rest => simp [Connection.receive, hq] at h
      exact Or.inr (Or.inl ⟨hw, by simpa using hopen, hqueue⟩)
  next frame since hw =>
    split at h
    next => simp at h
    next => simp at h
    next hwire =>
      split at h
      next => simp at h
      next hearly => exact Or.inr (Or.inr (Or.inl ⟨frame, since, hw, hwire, by omega⟩))
  next since hw =>
    split at h
    next => simp at h
    next => simp at h
    next hwire =>
      split at h
      next => simp at h
      next hearly => exact Or.inr (Or.inr (Or.inr ⟨since, hw, hwire, by omega⟩))

section Marks

variable {s : Session} {c : Connection}

theorem Marked.none_of_open (h : t.Marked) (hopen : t.connection.closed = false) : t.closedAt = none := by
  by_contra hsome
  rw [h.closed.mpr hsome] at hopen
  cases hopen

theorem Marked.time_of_closed (h : t.Marked) (hclosed : t.connection.closed = true) :
    ∃ T, t.closedAt = some T :=
  Option.ne_none_iff_exists'.mp (h.closed.mp hclosed)

theorem put_closedAt {T : Nat} (h : t.closedAt = some T) : (t.put s c).closedAt = some T := by
  rw [put, h, Option.some_or]

theorem closedAt_put {T : Nat} (h : (t.put s c).closedAt = some T) : t.closedAt = some T ∨ T = t.now := by
  cases hc : t.closedAt with
  | some T' =>
    rw [put_closedAt hc] at h
    exact Or.inl h
  | none =>
    rw [put, hc, Option.none_or] at h
    split at h
    next => exact Or.inr (Option.some.inj h).symm
    next => cases h

theorem Marked.put (h : t.Marked) (hc : t.connection.closed = true → c.closed = true) :
    (t.put s c).Marked := by
  refine ⟨?_, fun T hT => ?_⟩
  · cases hclosed : t.closedAt with
    | some T => exact iff_of_true (hc (h.closed.mpr (by simp [hclosed]))) (by simp [put_closedAt hclosed])
    | none =>
      rw [WriterTrace.put, hclosed, Option.none_or]
      split
      next hnow => exact iff_of_true hnow (by simp)
      next hopen => exact iff_of_false hopen (by simp)
  · rcases closedAt_put hT with hT | rfl
    · exact h.past T hT
    · exact le_refl _

theorem Marked.note (h : t.Marked) (before after : WriterState) : (t.note before after).Marked := by
  unfold WriterTrace.note
  split <;> exact ⟨h.closed, h.past⟩

theorem Conserved.put (h : t.Conserved) (s : Session) (hc : c.outbound = t.connection.outbound) :
    (t.put s c).Conserved := by
  rw [Conserved, WriterTrace.put, hc]
  exact h

end Marks

section Around

theorem start_kept (now : Nat) {s : Session} {c : Connection} (writer : s.writer = .idle)
    (shown : s.shown.filterMap WireEvent.frame? = []) (queue : c.outbound = []) (opened : c.closed = false) :
    (start now s c).Kept limit := by
  have hmarked : (start now s c).Marked := by
    refine ⟨by simp [start, opened], fun T hT => ?_⟩
    cases hT
  have hqueue : (start now s c).Conserved := queue
  refine ⟨shown, hmarked, .idle writer hqueue rfl rfl .nil fun T hT => ?_⟩
  cases hT

theorem Kept.pass (h : t.Kept limit) {time : Nat} (later : t.now ≤ time)
    (rests : ∀ τ, t.now ≤ τ → τ < time → t.Rests limit τ) :
    ({ t with now := time } : WriterTrace).Kept limit := by
  rcases Nat.eq_or_lt_of_le later with rfl | hlt
  · exact h
  have hrests : t.Rests limit (time - 1) := rests _ (by omega) (by omega)
  refine ⟨h.shown, ⟨h.marked.closed, fun T hT => (h.marked.past T hT).trans later⟩, ?_⟩
  cases h.phase with
  | idle writer queue returned lost done prompt =>
    rcases rests_cases hrests with hw | ⟨_, hopen, _⟩ | ⟨_, _, hw, _⟩ | ⟨_, hw, _⟩
    · cases writer.symm.trans hw
    · have hnone : t.closedAt = none := h.marked.none_of_open hopen
      exact .idle writer queue returned lost done fun T hT => by cases hnone.symm.trans hT
    · cases writer.symm.trans hw
    · cases writer.symm.trans hw
  | writing frame since writer queue returned lost done begun late found =>
    rcases rests_cases hrests with hw | ⟨hw, _⟩ | ⟨_, _, hw, _, hearly⟩ | ⟨_, hw, _⟩
    · cases writer.symm.trans hw
    · cases writer.symm.trans hw
    · cases writer.symm.trans hw
      have hlate : time ≤ since + limit := by omega
      exact .writing frame since writer queue returned lost done (begun.trans later) hlate found
    · cases writer.symm.trans hw
  | closing since T writer queue returned outcome closed begun late found =>
    rcases rests_cases hrests with hw | ⟨hw, _⟩ | ⟨_, _, hw, _⟩ | ⟨_, hw, _, hearly⟩
    · cases writer.symm.trans hw
    · cases writer.symm.trans hw
    · cases writer.symm.trans hw
    · cases writer.symm.trans hw
      have hlate : time ≤ since + limit := by omega
      exact .closing since T writer queue returned outcome closed (begun.trans later) hlate found
  | ended time T writer queue returned outcome closed found =>
    exact .ended time T writer queue returned outcome closed found

theorem Kept.accept (h : t.Kept limit) (frame : String) (taken : (t.connection.send frame).2 = .ok ()) :
    ({ t with
      connection := (t.connection.send frame).1
      accepted := t.accepted ++ [frame] } : WriterTrace).Kept limit := by
  obtain ⟨hopen, hsend⟩ : t.connection.closed = false ∧ (t.connection.send frame).1 =
      { t.connection with outbound := t.connection.outbound ++ [frame] } := by
    rcases t.connection.send_cases frame with ⟨htakes, _, hs⟩ | ⟨_, htakes, _⟩ | ⟨htakes, _, _⟩
    · exact ⟨htakes.1, by rw [hs]⟩
    · exact absurd ((t.connection.send_ok_iff frame).mp taken) htakes
    · exact absurd ((t.connection.send_ok_iff frame).mp taken) htakes
  have hnone : t.closedAt = none := h.marked.none_of_open hopen
  rw [hsend]
  have hqueue : t.Conserved → t.begun.map Prod.snd ++ (t.connection.outbound ++ [frame]) =
      t.accepted ++ [frame] := by
    intro hq
    rw [← List.append_assoc, hq]
  refine ⟨h.shown, ⟨h.marked.closed, h.marked.past⟩, ?_⟩
  cases h.phase with
  | idle writer queue returned lost done prompt =>
    exact .idle writer (hqueue queue) returned lost done prompt
  | writing frame since writer queue returned lost done begun late found =>
    exact .writing frame since writer (hqueue queue) returned lost done begun late found
  | closing since T writer queue returned outcome closed => cases hnone.symm.trans closed
  | ended time T writer queue returned outcome closed => cases hnone.symm.trans closed

theorem Kept.close (h : t.Kept limit) : (t.put t.session t.connection.close.1).Kept limit := by
  have hqueue : t.connection.close.1.outbound = t.connection.outbound := t.connection.close_outbound
  refine ⟨h.shown, h.marked.put fun _ => t.connection.close_closed, ?_⟩
  cases h.phase with
  | idle writer queue returned lost done prompt =>
    refine .idle writer (queue.put _ hqueue) returned lost done fun T hT => ?_
    rcases closedAt_put hT with hT | rfl
    · exact prompt T hT
    · exact Nat.le_add_right _ _
  | writing frame since writer queue returned lost done begun late found =>
    refine .writing frame since writer (queue.put _ hqueue) returned lost done begun late fun T hT => ?_
    rcases closedAt_put hT with hT | rfl
    · exact found T hT
    · exact begun
  | closing since T writer queue returned outcome closed begun late found =>
    exact .closing since T writer (queue.put _ hqueue) returned outcome (put_closedAt closed) begun late found
  | ended time T writer queue returned outcome closed found =>
    exact .ended time T writer queue returned outcome (put_closedAt closed) found

theorem Kept.other (h : t.Kept limit) {s : Session} {c : Connection} (hw : s.writer = t.session.writer)
    (shown : s.shown.filterMap WireEvent.frame? = t.session.shown.filterMap WireEvent.frame?)
    (hc : c.outbound = t.connection.outbound) (hclosed : c.closed = t.connection.closed) :
    ({ t with session := s, connection := c } : WriterTrace).Kept limit := by
  have hqueue : t.Conserved → ({ t with session := s, connection := c } : WriterTrace).Conserved := by
    intro hq
    rw [Conserved, hc]
    exact hq
  refine ⟨shown.trans h.shown, ⟨?_, h.marked.past⟩, ?_⟩
  · rw [hclosed]
    exact h.marked.closed
  cases h.phase with
  | idle writer queue returned lost done prompt =>
    exact .idle (hw.trans writer) (hqueue queue) returned lost done prompt
  | writing frame since writer queue returned lost done begun late found =>
    exact .writing frame since (hw.trans writer) (hqueue queue) returned lost done begun late found
  | closing since T writer queue returned outcome closed begun late found =>
    exact .closing since T (hw.trans writer) (hqueue queue) returned outcome closed begun late found
  | ended time T writer queue returned outcome closed found =>
    exact .ended time T (hw.trans writer) queue returned outcome closed found

end Around

section Steps

variable {s : Session} {c : Connection} {frame : String} {since : Nat}

theorem Kept.idle_inv (h : t.Kept limit) (hw : t.session.writer = .idle) :
    t.Conserved ∧ t.returnedAt = none ∧ t.lost = [] ∧
      List.Forall₂ (InTime limit) t.begun t.written ∧ ∀ T, t.closedAt = some T → t.now ≤ T + limit := by
  cases h.phase with
  | idle _ queue returned lost done prompt => exact ⟨queue, returned, lost, done, prompt⟩
  | writing _ _ writer => cases hw.symm.trans writer
  | closing _ _ writer => cases hw.symm.trans writer
  | ended _ _ writer => cases hw.symm.trans writer

theorem Kept.writing_inv (h : t.Kept limit) (hw : t.session.writer = .writing frame since) :
    t.Conserved ∧ t.returnedAt = none ∧ t.lost = [] ∧
      (∃ done, t.begun = done ++ [(since, frame)] ∧ List.Forall₂ (InTime limit) done t.written) ∧
      since ≤ t.now ∧ t.now ≤ since + limit ∧ ∀ T, t.closedAt = some T → since ≤ T := by
  cases h.phase with
  | idle writer => cases hw.symm.trans writer
  | writing _ _ writer queue returned lost done begun late found =>
    cases hw.symm.trans writer
    exact ⟨queue, returned, lost, done, begun, late, found⟩
  | closing _ _ writer => cases hw.symm.trans writer
  | ended _ _ writer => cases hw.symm.trans writer

theorem Kept.closing_inv (h : t.Kept limit) (hw : t.session.writer = .closing since) :
    t.Conserved ∧ t.Outcome limit ∧ t.now ≤ since + limit ∧
      ∃ T, t.closedAt = some T ∧ since ≤ T + limit := by
  cases h.phase with
  | idle writer => cases hw.symm.trans writer
  | writing _ _ writer => cases hw.symm.trans writer
  | closing _ T writer queue _ outcome closed _ late found =>
    cases hw.symm.trans writer
    exact ⟨queue, outcome, late, T, closed, found⟩
  | ended _ _ writer => cases hw.symm.trans writer

theorem Kept.find (h : t.Kept limit) (hw : t.session.writer = .idle)
    (hclosed : t.connection.closed = true) (hs : s.writer = .closing t.now)
    (hc : c.outbound = t.connection.outbound) :
    ((t.note .idle (.closing t.now)).put s c).Phase limit := by
  obtain ⟨queue, returned, lost, done, prompt⟩ := h.idle_inv hw
  obtain ⟨T, hT⟩ := h.marked.time_of_closed hclosed
  exact .closing t.now T hs (queue.put s hc) returned (Or.inl ⟨lost, done⟩) (put_closedAt hT) (le_refl _)
    (Nat.le_add_right _ _) (prompt T hT)

theorem Kept.begin (h : t.Kept limit) (hw : t.session.writer = .idle)
    (hopen : t.connection.closed = false) {rest : List String}
    (hqueue : t.connection.outbound = frame :: rest) (hs : s.writer = .writing frame t.now)
    (hc : c.outbound = rest) : ((t.note .idle (.writing frame t.now)).put s c).Phase limit := by
  obtain ⟨queue, returned, lost, done, _⟩ := h.idle_inv hw
  have hnone : t.closedAt = none := h.marked.none_of_open hopen
  have hframes : (t.begun ++ [(t.now, frame)]).map Prod.snd ++ c.outbound = t.accepted := by
    rw [hc, List.map_append, List.append_assoc, ← queue, hqueue]
    rfl
  refine .writing frame t.now hs hframes returned lost ⟨t.begun, rfl, done⟩ (le_refl _)
    (Nat.le_add_right _ _) fun T hT => ?_
  rcases closedAt_put hT with hT | rfl
  · cases hnone.symm.trans hT
  · exact le_refl _

theorem Kept.finish (h : t.Kept limit) (hw : t.session.writer = .writing frame since)
    (hs : s.writer = .idle) (hc : c.outbound = t.connection.outbound) :
    ((t.note (.writing frame since) .idle).put s c).Phase limit := by
  obtain ⟨queue, returned, lost, ⟨done, hbegun, hdone⟩, begun, late, found⟩ := h.writing_inv hw
  have hlast : InTime limit (since, frame) (t.now, frame) := ⟨rfl, begun, late⟩
  have hall : List.Forall₂ (InTime limit) t.begun (t.written ++ [(t.now, frame)]) := by
    rw [hbegun]
    exact List.rel_append hdone (.cons hlast .nil)
  refine .idle hs (queue.put s hc) returned lost hall fun T hT => ?_
  rcases closedAt_put hT with hT | rfl
  · have hsince : since ≤ T := found T hT
    exact late.trans (by omega)
  · exact Nat.le_add_right _ _

theorem Kept.giveUp (h : t.Kept limit) (hw : t.session.writer = .writing frame since)
    (hwire : t.session.wire = .failing ∨ t.session.wire = .stalled ∧ since + limit ≤ t.now)
    (hs : s.writer = .closing t.now) (hc : c.outbound = t.connection.outbound)
    (hclosed : c.closed = true) :
    ((t.note (.writing frame since) (.closing t.now)).put s c).Phase limit := by
  obtain ⟨queue, returned, lost, ⟨done, hbegun, hdone⟩, begun, late, found⟩ := h.writing_inv hw
  have hgiven : GivenUp limit (since, frame) ⟨t.now, frame, t.session.wire⟩ := by
    refine ⟨rfl, begun, hwire.imp (fun hfail => ⟨hfail, late⟩) fun hstall => ⟨hstall.1, ?_⟩⟩
    exact le_antisymm late hstall.2
  have houtcome : ((t.note (.writing frame since) (.closing t.now)).put s c).Outcome limit := by
    refine Or.inr ⟨done, (since, frame), ⟨t.now, frame, t.session.wire⟩, hbegun, ?_, hdone, hgiven⟩
    change t.lost ++ _ = _
    rw [lost, List.nil_append]
  have hmarked : ((t.note (.writing frame since) (.closing t.now)).put s c).Marked :=
    (h.marked.note _ _).put fun _ => hclosed
  obtain ⟨T, hT⟩ := hmarked.time_of_closed hclosed
  refine .closing t.now T hs (queue.put s hc) returned houtcome hT (le_refl _) (Nat.le_add_right _ _) ?_
  rcases closedAt_put hT with hT | rfl
  · have hsince : since ≤ T := found T hT
    exact late.trans (by omega)
  · exact Nat.le_add_right _ _

theorem Kept.leave (h : t.Kept limit) (hw : t.session.writer = .closing since) (hs : s.writer = .ended) :
    ((t.note (.closing since) .ended).put s c).Phase limit := by
  obtain ⟨queue, outcome, late, T, closed, found⟩ := h.closing_inv hw
  have hframes : t.begun.map Prod.snd <+: t.accepted := ⟨_, queue⟩
  exact .ended t.now T hs hframes rfl outcome (put_closedAt closed) (late.trans (by omega))

theorem Kept.step (h : t.Kept limit)
    (takes : t.session.writerStep t.connection t.now limit = some (s, c)) :
    ((t.note t.session.writer s.writer).put s c).Kept limit := by
  rcases Session.writerStep_inv takes with ⟨hw, hclosed, rfl, rfl⟩ |
    ⟨frame, rest, hw, hopen, hqueue, rfl, rfl⟩ | ⟨frame, since, hw, hwire, rfl, rfl⟩ |
    ⟨frame, since, hw, hwire, rfl, rfl⟩ | ⟨since, shown, hw, hshown, rfl, rfl⟩ <;> rw [hw]
  · exact ⟨h.shown, (h.marked.note _ _).put fun _ => t.connection.close_closed,
      h.find hw hclosed rfl t.connection.close_outbound⟩
  · exact ⟨h.shown, (h.marked.note _ _).put fun hc => hc, h.begin hw hopen hqueue rfl rfl⟩
  · refine ⟨?_, (h.marked.note _ _).put fun hc => hc, h.finish hw rfl rfl⟩
    change (t.session.shown ++ [WireEvent.text frame]).filterMap WireEvent.frame? =
      (t.written ++ [(t.now, frame)]).map Prod.snd
    rw [List.filterMap_append, List.map_append, h.shown]
    rfl
  · exact ⟨h.shown, (h.marked.note _ _).put fun _ => t.connection.close_closed,
      h.giveUp hw hwire rfl t.connection.close_outbound t.connection.close_closed⟩
  · exact ⟨hshown.trans h.shown, (h.marked.note _ _).put fun hc => hc, h.leave hw rfl⟩

end Steps

end WriterTrace

theorem WriterRun.kept {limit : Nat} {t : WriterTrace} (h : WriterRun limit t) : t.Kept limit := by
  induction h with
  | start now writer shown queue opened => exact WriterTrace.start_kept now writer shown queue opened
  | accept _ frame taken ih => exact ih.accept frame taken
  | close _ ih => exact ih.close
  | other _ writer shown queue closed ih => exact ih.other writer shown queue closed
  | move _ m ih =>
    cases m with
    | step s c takes => exact ih.step takes
    | pass time later rests => exact ih.pass later rests

end RoomCast
