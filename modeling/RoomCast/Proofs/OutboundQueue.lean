import Mathlib.Data.List.Induction
import RoomCast.Proofs.MembershipAgreement
import RoomCast.Proofs.ShardBroadcast

namespace RoomCast

inductive CallAnswer where
  | sent (frame : String) (outcome : Except SendError Unit)
  | received (frame : Option String)
  | closed (first : Bool)
  | done
deriving DecidableEq

def ConnectionOp.answer (c : Connection) : ConnectionOp → CallAnswer
  | .send frame => .sent frame (c.send frame).2
  | .receive => .received (c.receive.map (·.1))
  | .keepAlive _ => .done
  | .close => .closed c.close.2
  | .dropQueue => .done

namespace CallAnswer

def accepted? : CallAnswer → Option String
  | .sent frame (.ok ()) => some frame
  | _ => none

def received? : CallAnswer → Option String
  | .received frame => frame
  | _ => none

def isRefusal : CallAnswer → Bool
  | .sent _ (.error .queueFull) => true
  | _ => false

def closing? : CallAnswer → Option Bool
  | .closed first => some first
  | _ => none

end CallAnswer

section Calls

variable (op : ConnectionOp) (c : Connection)

theorem ConnectionOp.apply_capacity : (op.apply c).capacity = c.capacity := by
  cases op with
  | send frame =>
    have hsame := congrArg Connection.capacity (c.send_bare frame)
    exact hsame
  | receive =>
    simp only [apply, Connection.receive]
    split <;> rfl
  | keepAlive now => rfl
  | close => rw [apply, c.close_cases]
  | dropQueue => rfl

theorem ConnectionOp.apply_closed : (op.apply c).closed = true ↔ c.closed = true ∨ op = .close := by
  cases op with
  | send frame =>
    have hsame := congrArg Connection.closed (c.send_bare frame)
    simp only [Connection.bare] at hsame
    simp [apply, hsame]
  | receive =>
    simp only [apply, Connection.receive]
    split <;> simp
  | keepAlive now => simp [apply, Connection.keepAlive]
  | close => simp [apply, c.close_cases]
  | dropQueue => simp [apply, Connection.dropQueue]

theorem ConnectionOp.apply_gone :
    (op.apply c).receiving = false ↔ c.receiving = false ∨ op = .dropQueue := by
  cases op with
  | send frame =>
    have hsame := congrArg Connection.receiving (c.send_bare frame)
    simp only [Connection.bare] at hsame
    simp [apply, hsame]
  | receive =>
    simp only [apply, Connection.receive]
    split <;> simp
  | keepAlive now => simp [apply, Connection.keepAlive]
  | close => simp [apply, c.close_cases]
  | dropQueue => simp [apply, Connection.dropQueue]

theorem ConnectionOp.apply_dropped :
    (op.apply c).dropped = c.dropped + if (op.answer c).isRefusal then 1 else 0 := by
  cases op with
  | send frame =>
    rcases c.send_cases frame with ⟨_, _, hs⟩ | ⟨_, _, hs⟩ | ⟨_, _, hs⟩ <;>
      simp [apply, answer, hs, CallAnswer.isRefusal]
  | receive =>
    simp only [apply, Connection.receive]
    split <;> rfl
  | keepAlive now => rfl
  | close => rw [apply, c.close_cases]; rfl
  | dropQueue => rfl

theorem ConnectionOp.apply_outbound (hop : op ≠ .dropQueue) :
    c.outbound ++ (op.answer c).accepted?.toList =
      (op.answer c).received?.toList ++ (op.apply c).outbound := by
  cases op with
  | send frame =>
    rcases c.send_cases frame with ⟨_, _, hs⟩ | ⟨_, _, hs⟩ | ⟨_, _, hs⟩ <;>
      simp [apply, answer, hs, CallAnswer.accepted?, CallAnswer.received?]
  | receive =>
    cases hc : c.outbound <;>
      simp [apply, answer, Connection.receive, hc, CallAnswer.accepted?, CallAnswer.received?]
  | keepAlive now => exact List.append_nil _
  | close =>
    rw [apply, c.close_cases]
    exact List.append_nil _
  | dropQueue => exact absurd rfl hop

theorem ConnectionOp.apply_bounded (h : c.outbound.length ≤ c.capacity) :
    (op.apply c).outbound.length ≤ c.capacity := by
  cases op with
  | send frame =>
    rcases c.send_cases frame with ⟨htakes, _, hs⟩ | ⟨_, _, hs⟩ | ⟨_, _, hs⟩ <;> simp only [apply, hs]
    · have hspace := htakes.2.2
      rw [List.length_append, List.length_singleton]
      omega
    · exact h
    · exact h
  | receive =>
    cases hc : c.outbound with
    | nil => simp [apply, Connection.receive, hc]
    | cons frame rest =>
      rw [hc, List.length_cons] at h
      simp only [apply, Connection.receive, hc, Option.map_some, Option.getD_some]
      omega
  | keepAlive now => exact h
  | close =>
    rw [apply, c.close_cases]
    exact h
  | dropQueue => exact Nat.zero_le _

end Calls

/-- A connection with what all calls to it have answered. -/
structure CallTrace where
  connection : Connection
  answers : List CallAnswer

namespace CallTrace

def start (c : Connection) : CallTrace := ⟨c, []⟩

def call (t : CallTrace) (op : ConnectionOp) : CallTrace :=
  ⟨op.apply t.connection, t.answers ++ [op.answer t.connection]⟩

def run (t : CallTrace) (ops : List ConnectionOp) : CallTrace := ops.foldl call t

def accepted (t : CallTrace) : List String := t.answers.filterMap (·.accepted?)

def received (t : CallTrace) : List String := t.answers.filterMap (·.received?)

def refusals (t : CallTrace) : Nat := t.answers.countP (·.isRefusal)

def closings (t : CallTrace) : List Bool := t.answers.filterMap (·.closing?)

theorem run_append (t : CallTrace) (ops more : List ConnectionOp) :
    t.run (ops ++ more) = (t.run ops).run more := List.foldl_append

section Answers

variable (t : CallTrace) (op : ConnectionOp)

theorem accepted_call :
    (t.call op).accepted = t.accepted ++ (op.answer t.connection).accepted?.toList := by
  cases h : (op.answer t.connection).accepted? <;> simp [accepted, call, h]

theorem received_call :
    (t.call op).received = t.received ++ (op.answer t.connection).received?.toList := by
  cases h : (op.answer t.connection).received? <;> simp [received, call, h]

theorem refusals_call :
    (t.call op).refusals = t.refusals + if (op.answer t.connection).isRefusal then 1 else 0 := by
  cases h : (op.answer t.connection).isRefusal <;> simp [refusals, call, h]

theorem closings_call :
    (t.call op).closings = t.closings ++ (op.answer t.connection).closing?.toList := by
  cases h : (op.answer t.connection).closing? <;> simp [closings, call, h]

end Answers

/-- The connection stands as the calls so far and their answers tell. -/
structure Told (limit : Nat) (ops : List ConnectionOp) (t : CallTrace) : Prop where
  capacity : t.connection.capacity = limit
  bounded : t.connection.outbound.length ≤ limit
  closed : t.connection.closed = true ↔ .close ∈ ops
  gone : t.connection.receiving = false ↔ .dropQueue ∈ ops
  dropped : t.connection.dropped = t.refusals
  taken : t.received <+: t.accepted
  waiting : .dropQueue ∉ ops → t.accepted = t.received ++ t.connection.outbound
  lost : .dropQueue ∈ ops → t.connection.outbound = []
  closings : ∃ again, t.closings =
    if t.connection.closed then true :: List.replicate again false else []

theorem start_told (id : ConnectionId) (limits : ConnectionLimits) (now : Nat) :
    Told limits.outbound [] (start (.create id limits now)) := by
  refine ⟨rfl, Nat.zero_le _, ?_, ?_, rfl, List.prefix_refl _, fun _ => rfl, fun _ => rfl, 0, rfl⟩
  · simp [start, Connection.create]
  · simp [start, Connection.create]

section Steps

variable {limit : Nat} {ops : List ConnectionOp} {t : CallTrace} (h : Told limit ops t)

include h in
theorem Told.deaf (hgone : .dropQueue ∈ ops) (op : ConnectionOp) :
    (op.answer t.connection).accepted? = none ∧ (op.answer t.connection).received? = none ∧
      (op.apply t.connection).outbound = [] := by
  have hempty := h.lost hgone
  have hreceiving := h.gone.mpr hgone
  cases op with
  | send frame =>
    have hdead : ¬t.connection.Takes := fun htakes =>
      absurd (htakes.2.1.symm.trans hreceiving) (by simp)
    rcases t.connection.send_cases frame with ⟨htakes, _, _⟩ | ⟨_, _, hs⟩ | ⟨_, _, hs⟩
    · exact absurd htakes hdead
    · simp [ConnectionOp.apply, ConnectionOp.answer, hs, hempty, CallAnswer.accepted?,
        CallAnswer.received?]
    · simp [ConnectionOp.apply, ConnectionOp.answer, hs, hempty, CallAnswer.accepted?,
        CallAnswer.received?]
  | receive =>
    simp [ConnectionOp.apply, ConnectionOp.answer, Connection.receive, hempty, CallAnswer.accepted?,
      CallAnswer.received?]
  | keepAlive now => exact ⟨rfl, rfl, hempty⟩
  | close =>
    refine ⟨rfl, rfl, ?_⟩
    rw [ConnectionOp.apply, t.connection.close_cases, hempty]
  | dropQueue => exact ⟨rfl, rfl, rfl⟩

include h in
theorem Told.closings_call (op : ConnectionOp) : ∃ again, (t.call op).closings =
    if (t.call op).connection.closed then true :: List.replicate again false else [] := by
  obtain ⟨again, hagain⟩ := h.closings
  have hclosed := op.apply_closed t.connection
  by_cases hop : op = .close
  · subst hop
    have hnow : (t.call .close).connection.closed = true := hclosed.mpr (Or.inr rfl)
    rw [t.closings_call, hagain]
    simp only [if_pos hnow]
    cases hc : t.connection.closed with
    | false => exact ⟨0, by simp [ConnectionOp.answer, Connection.close, hc, CallAnswer.closing?]⟩
    | true =>
      refine ⟨again + 1, ?_⟩
      simp [ConnectionOp.answer, Connection.close, hc, CallAnswer.closing?, List.replicate_succ']
  · have hnone : (op.answer t.connection).closing? = none := by
      cases op with
      | close => exact absurd rfl hop
      | _ => rfl
    have hsame : (t.call op).connection.closed = t.connection.closed := by
      rw [Bool.eq_iff_iff]
      exact hclosed.trans (or_iff_left hop)
    exact ⟨again, by rw [t.closings_call, hnone, hsame, hagain]; exact List.append_nil _⟩

include h in
theorem Told.call (op : ConnectionOp) : Told limit (ops ++ [op]) (t.call op) := by
  have hcapacity : (t.call op).connection.capacity = limit :=
    (op.apply_capacity t.connection).trans h.capacity
  have hgone : .dropQueue ∈ ops ++ [op] ↔ .dropQueue ∈ ops ∨ op = .dropQueue := by
    rw [List.mem_append, List.mem_singleton, eq_comm (a := op)]
  have hclose : .close ∈ ops ++ [op] ↔ .close ∈ ops ∨ op = .close := by
    rw [List.mem_append, List.mem_singleton, eq_comm (a := op)]
  refine ⟨hcapacity, ?_, ?_, ?_, ?_, ?_, fun hin => ?_, fun hin => ?_, h.closings_call op⟩
  · have hbounded := op.apply_bounded t.connection (h.capacity ▸ h.bounded)
    exact h.capacity ▸ hbounded
  · rw [hclose, ← h.closed]
    exact op.apply_closed t.connection
  · rw [hgone, ← h.gone]
    exact op.apply_gone t.connection
  · rw [t.refusals_call, ← h.dropped]
    exact op.apply_dropped t.connection
  · rw [t.accepted_call, t.received_call]
    by_cases hin : .dropQueue ∈ ops
    · obtain ⟨hnone, hnothing, _⟩ := h.deaf hin op
      simpa [hnone, hnothing] using h.taken
    · by_cases hop : op = .dropQueue
      · rw [hop]
        exact (List.append_nil t.received).symm ▸ h.taken.trans (List.prefix_append _ _)
      · rw [h.waiting hin, List.append_assoc, op.apply_outbound t.connection hop,
          ← List.append_assoc]
        exact List.prefix_append _ _
  · obtain ⟨hold, hop⟩ := not_or.mp (fun hor => hin (hgone.mpr hor))
    rw [t.accepted_call, t.received_call, h.waiting hold, List.append_assoc,
      op.apply_outbound t.connection hop, ← List.append_assoc]
    rfl
  · rcases hgone.mp hin with hold | hop
    · exact (h.deaf hold op).2.2
    · rw [hop]
      rfl

include h in
theorem Told.run (more : List ConnectionOp) : Told limit (ops ++ more) (t.run more) := by
  induction more using List.reverseRecOn with
  | nil => exact (List.append_nil ops).symm ▸ h
  | append_singleton more op ih =>
    rw [run_append, ← List.append_assoc]
    exact ih.call op

include h in
theorem Told.accepted_closed (hclosed : .close ∈ ops) (more : List ConnectionOp) :
    (t.run more).accepted = t.accepted := by
  induction more using List.reverseRecOn with
  | nil => rfl
  | append_singleton more op ih =>
    have hthen := (h.run more).closed.mpr (List.mem_append_left _ hclosed)
    have hnone : (op.answer (t.run more).connection).accepted? = none := by
      cases op with
      | send frame => simp [ConnectionOp.answer, Connection.send, hthen, CallAnswer.accepted?]
      | _ => rfl
    rw [run_append]
    change ((t.run more).call op).accepted = t.accepted
    rw [accepted_call, hnone, ih]
    exact List.append_nil _

theorem run_receives (t : CallTrace) (n : Nat) :
    (t.run (List.replicate n .receive)).accepted = t.accepted ∧
      (t.run (List.replicate n .receive)).connection.outbound = t.connection.outbound.drop n := by
  induction n with
  | zero => exact ⟨rfl, rfl⟩
  | succ n ih =>
    rw [List.replicate_succ', run_append]
    change ((t.run (List.replicate n .receive)).call .receive).accepted = _ ∧
      ((t.run (List.replicate n .receive)).call .receive).connection.outbound = _
    refine ⟨?_, ?_⟩
    · rw [accepted_call, ih.1]
      exact List.append_nil _
    · rw [← List.tail_drop, ← ih.2]
      cases hc : (t.run (List.replicate n .receive)).connection.outbound <;>
        simp [CallTrace.call, ConnectionOp.apply, Connection.receive, hc]

include h in
/-- As many takings as frames wait give all that have been accepted. -/
theorem Told.drained (hkept : .dropQueue ∉ ops) :
    (t.run (List.replicate t.connection.outbound.length .receive)).received = t.accepted := by
  obtain ⟨haccepted, houtbound⟩ := t.run_receives t.connection.outbound.length
  have hstill : ConnectionOp.dropQueue ∉
      ops ++ List.replicate t.connection.outbound.length .receive := by
    simp [hkept]
  have hwaiting := (h.run (List.replicate t.connection.outbound.length .receive)).waiting hstill
  rw [haccepted, houtbound, List.drop_length, List.append_nil] at hwaiting
  exact hwaiting.symm

include h in
theorem Told.send_closed_iff (frame : String) :
    (t.connection.send frame).2 = .error .connectionClosed ↔ .close ∈ ops ∨ .dropQueue ∈ ops := by
  rw [← h.closed, ← h.gone]
  cases hclosed : t.connection.closed with
  | true => simp [Connection.send, hclosed]
  | false =>
    cases hreceiving : t.connection.receiving with
    | false => simp [Connection.send, hclosed, hreceiving]
    | true =>
      by_cases hfull : t.connection.capacity ≤ t.connection.outbound.length <;>
        simp [Connection.send, hclosed, hreceiving, hfull]

include h in
theorem Told.send_full_iff (hopen : .close ∉ ops) (hkept : .dropQueue ∉ ops) (frame : String) :
    (t.connection.send frame).2 = .error .queueFull ↔
      t.accepted.length = t.received.length + limit := by
  have hclosed : t.connection.closed = false :=
    Bool.eq_false_iff.mpr fun hc => hopen (h.closed.mp hc)
  have hreceiving : t.connection.receiving = true := by
    by_contra hr
    exact hkept (h.gone.mp (Bool.eq_false_iff.mpr hr))
  have hunread := congrArg List.length (h.waiting hkept)
  rw [List.length_append] at hunread
  have hcapacity := h.capacity
  have hbounded := h.bounded
  rw [t.connection.send_full_iff frame, Connection.Full]
  constructor
  · rintro ⟨_, _, hfull⟩
    omega
  · intro hfull
    exact ⟨hclosed, hreceiving, by omega⟩

end Steps

end CallTrace

/-- The queue of a connection is bounded and never blocks: what has been taken is the beginning of what
was accepted, in order, and the rest can still be taken. -/
theorem outbound_is_bounded_fifo (id : ConnectionId) (limits : ConnectionLimits) (now : Nat)
    (ops : List ConnectionOp) :
    let begin := CallTrace.start (.create id limits now)
    let t := begin.run ops
    t.connection.outbound.length ≤ limits.outbound ∧
    t.received <+: t.accepted ∧
    (∀ frame, (t.connection.send frame).2 = .error .connectionClosed ↔
      .close ∈ ops ∨ .dropQueue ∈ ops) ∧
    (.close ∉ ops → .dropQueue ∉ ops → ∀ frame, (t.connection.send frame).2 = .error .queueFull ↔
      t.accepted.length = t.received.length + limits.outbound) ∧
    t.connection.dropped = t.refusals ∧
    (.dropQueue ∉ ops → t.accepted = t.received ++ t.connection.outbound ∧
      (t.run (List.replicate t.connection.outbound.length .receive)).received = t.accepted) ∧
    (∀ before after, ops = before ++ .close :: after → t.accepted = (begin.run before).accepted) ∧
    ∀ (k : Nat) (first : Bool), t.closings[k]? = some first → (first = true ↔ k = 0) := by
  intro begin t
  have hbegin : begin.Told limits.outbound [] := CallTrace.start_told id limits now
  have h : t.Told limits.outbound ops := hbegin.run ops
  refine ⟨h.bounded, h.taken, h.send_closed_iff, h.send_full_iff, h.dropped,
    fun hkept => ⟨h.waiting hkept, h.drained hkept⟩, ?_, ?_⟩
  · rintro before after rfl
    have hclose : (begin.run (before ++ [.close])).Told limits.outbound (before ++ [.close]) :=
      hbegin.run _
    have hlater := hclose.accepted_closed (by simp) after
    rw [← CallTrace.run_append, List.append_assoc] at hlater
    have hsame : (begin.run (before ++ [.close])).accepted = (begin.run before).accepted := by
      rw [CallTrace.run_append]
      change ((begin.run before).call .close).accepted = _
      rw [CallTrace.accepted_call]
      exact List.append_nil _
    exact hlater.trans hsame
  · intro k first hk
    obtain ⟨again, hagain⟩ := h.closings
    rw [hagain] at hk
    cases hc : t.connection.closed with
    | false => simp [hc] at hk
    | true =>
      simp only [hc, if_true] at hk
      cases k with
      | zero => simpa using hk.symm
      | succ k =>
        obtain ⟨_, hfirst⟩ := List.getElem?_eq_some_iff.mp hk
        simp only [List.getElem_cons_succ, List.getElem_replicate] at hfirst
        simp [← hfirst]

/-- A queue of two refuses the third frame; the frame that waits can be taken after the close. -/
theorem closed_queue_gives_its_frame :
    let ops : List ConnectionOp :=
      [.send "a", .send "b", .send "c", .receive, .keepAlive 5, .close, .send "d", .close]
    let t := (CallTrace.start (.create ⟨7⟩ ⟨1, 2, 1⟩ 0)).run ops
    t.accepted = ["a", "b"] ∧ t.received = ["a"] ∧ t.refusals = 1 ∧ t.connection.dropped = 1 ∧
      (t.run [.receive]).received = ["a", "b"] ∧ t.closings = [true, false] ∧
      (t.connection.send "e").2 = .error .connectionClosed := by
  intro ops t
  obtain ⟨_, _, hclosed, _, hdropped, hkept, _, _⟩ := outbound_is_bounded_fifo ⟨7⟩ ⟨1, 2, 1⟩ 0 ops
  have haccepted : t.accepted = ["a", "b"] := by decide
  obtain ⟨_, hdrained⟩ := hkept (by simp [ops])
  refine ⟨haccepted, by decide, by decide, ?_, haccepted ▸ hdrained, by decide, ?_⟩
  · exact hdropped.trans (by decide)
  · exact (hclosed "e").mpr (Or.inl (by simp [ops]))

end RoomCast
