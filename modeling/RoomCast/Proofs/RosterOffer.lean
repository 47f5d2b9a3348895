import Mathlib.Data.List.Nodup
import RoomCast.Proofs.TableLookup
import RoomCast.Shard

namespace RoomCast

attribute [ext] Offered

theorem Offered.step_seated {frame : String} {o : Offered} {seat : Nat} {c : Connection}
    (hc : o.roster[seat]? = some c) :
    (Offered.step frame o seat).roster = o.roster.set seat (c.send frame).1 ∧
      (Offered.step frame o seat).delivered =
        o.delivered + (if (c.send frame).2 = .ok () then 1 else 0) ∧
      (Offered.step frame o seat).dropped =
        o.dropped + if (c.send frame).2 = .error .queueFull then 1 else 0 := by
  cases hs : c.send frame with
  | mk c' outcome =>
    cases outcome with
    | ok _ => simp [step, hc, hs]
    | error cause => cases cause <;> simp [step, hc, hs]

theorem Offered.step_unseated {frame : String} {o : Offered} {seat : Nat}
    (hc : o.roster[seat]? = none) : Offered.step frame o seat = o := by
  simp [step, hc]

theorem Offered.step_getElem? (frame : String) (o : Offered) (seat i : Nat) :
    (Offered.step frame o seat).roster[i]? =
      if seat = i then (o.roster[i]?).map fun c => (c.send frame).1 else o.roster[i]? := by
  cases hc : o.roster[seat]? with
  | none =>
    rw [step_unseated hc]
    by_cases hi : seat = i
    · subst hi
      simp [hc]
    · simp [hi]
  | some c =>
    rw [(step_seated hc).1, getElem?_set_of_some hc]
    by_cases hi : seat = i
    · subst hi
      simp [hc]
    · rw [if_neg hi, if_neg hi]

theorem offer_getElem? (roster : Roster) {seats : List Nat} (hn : seats.Nodup) (frame : String)
    (i : Nat) :
    (roster.offer seats frame).roster[i]? =
      if i ∈ seats then (roster[i]?).map fun c => (c.send frame).1 else roster[i]? := by
  have fold : ∀ (seats : List Nat) (o : Offered), seats.Nodup →
      (seats.foldl (Offered.step frame) o).roster[i]? =
        if i ∈ seats then (o.roster[i]?).map fun c => (c.send frame).1 else o.roster[i]? := by
    intro seats
    induction seats with
    | nil => simp
    | cons seat seats ih =>
      intro o hn
      obtain ⟨hseat, hn⟩ := List.nodup_cons.mp hn
      rw [List.foldl_cons, ih _ hn, Offered.step_getElem?]
      by_cases hi : seat = i
      · subst hi
        simp [hseat]
      · simp [hi, Ne.symm hi]
  exact fold seats _ hn

theorem Connection.close_cases (c : Connection) :
    c.close.1 = { c with closed := true } := by
  unfold close
  split
  next hc => rw [← hc]
  next => rfl

theorem Connection.close_closed (c : Connection) : c.close.1.closed = true := by
  rw [c.close_cases]

theorem Connection.close_outbound (c : Connection) : c.close.1.outbound = c.outbound := by
  rw [c.close_cases]

theorem Connection.close_takeRooms (c : Connection) :
    (c.close.1.takeRooms).2 = { c with closed := true, rooms := [] } := by
  rw [c.close_cases]
  rfl

/-- A connection apart from its queue. -/
def Connection.bare (c : Connection) : Connection := { c with outbound := [], dropped := 0 }

theorem Connection.send_bare (c : Connection) (frame : String) : (c.send frame).1.bare = c.bare := by
  unfold Connection.send
  split
  next => rfl
  next =>
    split
    next => rfl
    next => split <;> rfl

theorem Connection.id_of_bare {c c' : Connection} (h : c'.bare = c.bare) : c'.id = c.id := by
  have hid := congrArg Connection.id h
  exact hid

theorem Connection.send_id (c : Connection) (frame : String) : (c.send frame).1.id = c.id :=
  id_of_bare (c.send_bare frame)

theorem offer_bare (roster : Roster) (seats : List Nat) (frame : String) :
    (roster.offer seats frame).roster.map Connection.bare = roster.map Connection.bare := by
  have fold : ∀ (seats : List Nat) (o : Offered),
      (seats.foldl (Offered.step frame) o).roster.map Connection.bare =
        o.roster.map Connection.bare := by
    intro seats
    induction seats with
    | nil => exact fun o => rfl
    | cons seat seats ih =>
      intro o
      rw [List.foldl_cons, ih]
      cases hc : o.roster[seat]? with
      | none => rw [Offered.step_unseated hc]
      | some c =>
        have hb : (o.roster.map Connection.bare)[seat]? = some c.bare := by simp [hc]
        rw [(Offered.step_seated hc).1, List.map_set, Connection.send_bare, set_same hb]
  exact fold seats _

def answering (outcome : Except SendError Unit) (roster : Roster) (frame : String)
    (seats : List Nat) : List Nat :=
  seats.filter fun seat => (roster[seat]?).any fun c => (c.send frame).2 = outcome

def fullSeats (roster : Roster) (frame : String) (seats : List Nat) : List Nat :=
  seats.filter fun seat => (roster[seat]?).any fun c => (c.send frame).2 = .error .queueFull

theorem Offered.step_dropped (frame : String) (o : Offered) (seat : Nat) :
    (Offered.step frame o seat).dropped = o.dropped + (fullSeats o.roster frame [seat]).length := by
  cases hc : o.roster[seat]? with
  | none => simp [step_unseated hc, fullSeats, hc]
  | some c =>
    rw [(step_seated hc).2.2]
    by_cases hf : (c.send frame).2 = .error .queueFull <;> simp [fullSeats, hc, hf]

theorem Offered.step_delivered (frame : String) (o : Offered) (seat : Nat) :
    (Offered.step frame o seat).delivered =
      o.delivered + (answering (.ok ()) o.roster frame [seat]).length := by
  cases hc : o.roster[seat]? with
  | none => simp [step_unseated hc, answering, hc]
  | some c =>
    rw [(step_seated hc).2.1]
    by_cases hf : (c.send frame).2 = .ok () <;> simp [answering, hc, hf]

theorem offer_figure (roster : Roster) {seats : List Nat} (hn : seats.Nodup) (frame : String)
    {figure : Offered → Nat} {outcome : Except SendError Unit}
    (counts : ∀ o seat, figure (Offered.step frame o seat) =
      figure o + (answering outcome o.roster frame [seat]).length) :
    figure (roster.offer seats frame) =
      figure ⟨roster, 0, 0⟩ + (answering outcome roster frame seats).length := by
  have fold : ∀ (seats : List Nat) (o : Offered), seats.Nodup →
      figure (seats.foldl (Offered.step frame) o) =
        figure o + (answering outcome o.roster frame seats).length := by
    intro seats
    induction seats with
    | nil => simp [answering]
    | cons seat seats ih =>
      intro o hn
      obtain ⟨hseat, hn⟩ := List.nodup_cons.mp hn
      have later : answering outcome (Offered.step frame o seat).roster frame seats =
          answering outcome o.roster frame seats := by
        apply List.filter_congr
        intro i hi
        have hne : seat ≠ i := by
          rintro rfl
          exact hseat hi
        rw [Offered.step_getElem?, if_neg hne]
      have split : answering outcome o.roster frame (seat :: seats) =
          answering outcome o.roster frame [seat] ++ answering outcome o.roster frame seats := by
        rw [answering, answering, answering, ← List.filter_append]
        rfl
      rw [List.foldl_cons, ih _ hn, counts, later, split, List.length_append]
      omega
  exact fold seats _ hn

theorem offer_dropped (roster : Roster) {seats : List Nat} (hn : seats.Nodup) (frame : String) :
    (roster.offer seats frame).dropped = (fullSeats roster frame seats).length := by
  have h := offer_figure roster hn frame (Offered.step_dropped frame)
  rwa [Nat.zero_add] at h

theorem offer_delivered (roster : Roster) {seats : List Nat} (hn : seats.Nodup) (frame : String) :
    (roster.offer seats frame).delivered = (answering (.ok ()) roster frame seats).length := by
  have h := offer_figure roster hn frame (Offered.step_delivered frame)
  rwa [Nat.zero_add] at h

/-- In which order the seats are visited makes no difference. -/
theorem offer_perm (roster : Roster) {order seats : List Nat} (hp : order.Perm seats)
    (hn : seats.Nodup) (frame : String) : roster.offer order frame = roster.offer seats frame := by
  have hn' : order.Nodup := hp.nodup_iff.mpr hn
  have hroster : (roster.offer order frame).roster = (roster.offer seats frame).roster := by
    apply List.ext_getElem?
    intro i
    simp only [offer_getElem? roster hn', offer_getElem? roster hn, hp.mem_iff]
  have hdelivered : (roster.offer order frame).delivered = (roster.offer seats frame).delivered := by
    rw [offer_delivered roster hn', offer_delivered roster hn]
    exact (hp.filter _).length_eq
  have hdropped : (roster.offer order frame).dropped = (roster.offer seats frame).dropped := by
    rw [offer_dropped roster hn', offer_dropped roster hn]
    exact (hp.filter _).length_eq
  exact Offered.ext hroster hdelivered hdropped

end RoomCast
