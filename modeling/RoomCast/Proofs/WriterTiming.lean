import Mathlib.Logic.Relation
import RoomCast.Proofs.WriterRun

namespace RoomCast

namespace WriterTrace

variable {limit : Nat} {t t' : WriterTrace}

section Advance

def work (t : WriterTrace) : Nat :=
  2 * t.connection.outbound.length +
    match t.session.writer with
    | .idle => 2
    | .writing _ _ => 3
    | .closing _ => 1
    | .ended => 0

theorem step_work {s : Session} {c : Connection}
    (takes : t.session.writerStep t.connection t.now limit = some (s, c)) :
    ((t.note t.session.writer s.writer).put s c).work < t.work := by
  have hclose : t.connection.close.1.outbound = t.connection.outbound := t.connection.close_outbound
  rcases Session.writerStep_inv takes with ⟨hw, _, rfl, rfl⟩ |
    ⟨frame, rest, hw, _, hqueue, rfl, rfl⟩ | ⟨frame, since, hw, _, rfl, rfl⟩ |
    ⟨frame, since, hw, _, rfl, rfl⟩ | ⟨since, shown, hw, _, rfl, rfl⟩
  · simp [work, put, hclose, hw]
  · simp [work, put, hqueue, hw]
    omega
  · simp [work, put, hw]
  · simp [work, put, hclose, hw]
  · simp [work, put, Connection.dropQueue, hw]

theorem step_now {s : Session} {c : Connection} (before after : WriterState) :
    ((t.note before after).put s c).now = t.now := by
  unfold note
  split <;> rfl

theorem settles (limit : Nat) (t : WriterTrace) : ∃ t', Relation.ReflTransGen (Moves limit) t t' ∧
    t'.now = t.now ∧ t'.Rests limit t'.now := by
  induction hn : t.work using Nat.strong_induction_on generalizing t with
  | h n ih =>
    cases takes : t.session.writerStep t.connection t.now limit with
    | none => exact ⟨t, .refl, rfl, takes⟩
    | some next =>
      obtain ⟨s, c⟩ := next
      obtain ⟨t', hmoves, hnow, hrests⟩ := ih _ (hn ▸ step_work takes) _ rfl
      exact ⟨t', .head (.step s c takes) hmoves, hnow.trans (step_now _ _), hrests⟩

/-- Whatever has happened, time can go on, and nothing but steps of the writer happens then. -/
theorem advances (limit : Nat) (t : WriterTrace) (duration : Nat) :
    ∃ t', Relation.ReflTransGen (Moves limit) t t' ∧ t'.now = t.now + duration ∧
      t'.Rests limit t'.now := by
  induction duration with
  | zero => exact t.settles limit
  | succ duration ih =>
    obtain ⟨t₁, hmoves, hnow, hrests⟩ := ih
    have hpass : Moves limit t₁ { t₁ with now := t₁.now + 1 } := by
      refine .pass _ (Nat.le_succ _) fun τ hle hlt => ?_
      have hτ : τ = t₁.now := by omega
      rw [hτ]
      exact hrests
    obtain ⟨t₂, hmore, hnow', hrests'⟩ :=
      ({ t₁ with now := t₁.now + 1 } : WriterTrace).settles limit
    refine ⟨t₂, (hmoves.tail hpass).trans hmore, ?_, hrests'⟩
    rw [hnow']
    change t₁.now + 1 = _
    omega

theorem moves_closedAt {T : Nat} (hT : t.closedAt = some T)
    (h : Relation.ReflTransGen (Moves limit) t t') : t'.closedAt = some T := by
  induction h with
  | refl => exact hT
  | tail _ hmove ih =>
    cases hmove with
    | pass => exact ih
    | step s c takes =>
      refine put_closedAt ?_
      unfold note
      split <;> exact ih

theorem run_moves (h : WriterRun limit t) (hmoves : Relation.ReflTransGen (Moves limit) t t') :
    WriterRun limit t' := by
  induction hmoves with
  | refl => exact h
  | tail _ hmove ih => exact ih.move hmove

end Advance

section Endings

/-- A writer that waits long after the close has ended. -/
theorem Kept.returned (h : t.Kept limit) {T : Nat} (hT : t.closedAt = some T)
    (rests : t.Rests limit t.now) (hlate : T + 2 * limit ≤ t.now) :
    ∃ time ≤ T + 2 * limit, t.returnedAt = some time := by
  rcases rests_cases rests with hw | ⟨_, hopen, _⟩ | ⟨frame, since, hw, _, hearly⟩ |
    ⟨since, hw, _, hearly⟩
  · cases h.phase with
    | idle writer => cases hw.symm.trans writer
    | writing _ _ writer => cases hw.symm.trans writer
    | closing _ _ writer => cases hw.symm.trans writer
    | ended time T' _ _ returned _ closed found =>
      cases hT.symm.trans closed
      exact ⟨time, found, returned⟩
  · cases (h.marked.none_of_open hopen).symm.trans hT
  · obtain ⟨_, _, _, _, _, _, found⟩ := h.writing_inv hw
    have hsince : since ≤ T := found T hT
    omega
  · obtain ⟨_, _, _, T', closed, found⟩ := h.closing_inv hw
    cases hT.symm.trans closed
    omega

theorem Kept.in_time (h : t.Kept limit) {T : Nat} (hT : t.closedAt = some T) :
    (∀ time, t.returnedAt = some time → time ≤ T + 2 * limit) ∧
      (T + 2 * limit < t.now → t.returnedAt ≠ none) := by
  have going : t.returnedAt = none → t.now ≤ T + 2 * limit →
      (∀ time, t.returnedAt = some time → time ≤ T + 2 * limit) ∧
        (T + 2 * limit < t.now → t.returnedAt ≠ none) := by
    intro returned hearly
    refine ⟨fun time htime => ?_, fun hlate => by omega⟩
    cases returned.symm.trans htime
  cases h.phase with
  | idle _ _ returned _ _ prompt =>
    have hnow : t.now ≤ T + limit := prompt T hT
    exact going returned (by omega)
  | writing _ since _ _ returned _ _ _ late found =>
    have hsince : since ≤ T := found T hT
    exact going returned (by omega)
  | closing since T' _ _ returned _ closed _ late found =>
    cases hT.symm.trans closed
    exact going returned (by omega)
  | ended time T' _ _ returned _ closed found =>
    cases hT.symm.trans closed
    refine ⟨fun time' htime => ?_, fun _ => by simp [returned]⟩
    cases returned.symm.trans htime
    exact found

theorem Kept.ended_of_returned (h : t.Kept limit) (hreturned : t.returnedAt ≠ none) :
    t.session.writer = .ended ∧ t.connection.closed = true := by
  cases h.phase with
  | idle _ _ returned => exact absurd returned hreturned
  | writing _ _ _ _ returned => exact absurd returned hreturned
  | closing _ _ _ _ returned => exact absurd returned hreturned
  | ended _ T writer _ _ _ closed => exact ⟨writer, h.marked.closed.mpr (by simp [closed])⟩

theorem frames_of_inTime {begun written : List (Nat × String)}
    (h : List.Forall₂ (InTime limit) begun written) : written.map Prod.snd = begun.map Prod.snd := by
  induction h with
  | nil => rfl
  | cons hx _ ih => rw [List.map_cons, List.map_cons, hx.1, ih]

theorem Kept.writes (h : t.Kept limit) :
    (t.lost = [] → ∃ done, t.begun = done ++ t.session.writer.inHand ∧
      List.Forall₂ (InTime limit) done t.written) ∧
    ∀ x ∈ t.lost, ∃ done last, t.begun = done ++ [last] ∧
      List.Forall₂ (InTime limit) done t.written ∧ GivenUp limit last x := by
  have hover : t.session.writer.inHand = [] → t.Outcome limit → (t.lost = [] → ∃ done,
      t.begun = done ++ t.session.writer.inHand ∧ List.Forall₂ (InTime limit) done t.written) ∧
      ∀ x ∈ t.lost, ∃ done last, t.begun = done ++ [last] ∧
        List.Forall₂ (InTime limit) done t.written ∧ GivenUp limit last x := by
    rintro hnone (⟨lost, done⟩ | ⟨done, last, x, hbegun, lost, hdone, hgiven⟩)
    · refine ⟨fun _ => ⟨t.begun, ?_, done⟩, fun x hx => ?_⟩
      · rw [hnone, List.append_nil]
      · rw [lost] at hx
        cases hx
    · refine ⟨fun hlost => ?_, fun x' hx => ?_⟩
      · cases hlost.symm.trans lost
      · rw [lost, List.mem_singleton] at hx
        exact ⟨done, last, hbegun, hdone, hx ▸ hgiven⟩
  cases h.phase with
  | idle writer _ _ lost done => exact hover (by rw [writer]; rfl) (Or.inl ⟨lost, done⟩)
  | writing frame since writer _ _ lost done =>
    obtain ⟨done, hbegun, hdone⟩ := done
    refine ⟨fun _ => ⟨done, ?_, hdone⟩, fun x hx => ?_⟩
    · rw [writer]
      exact hbegun
    · rw [lost] at hx
      cases hx
  | closing _ _ writer _ _ outcome => exact hover (by rw [writer]; rfl) outcome
  | ended _ _ writer _ _ outcome => exact hover (by rw [writer]; rfl) outcome

theorem Kept.begun_prefix (h : t.Kept limit) : t.begun.map Prod.snd <+: t.accepted := by
  cases h.phase with
  | idle _ queue => exact ⟨_, queue⟩
  | writing _ _ _ queue => exact ⟨_, queue⟩
  | closing _ _ _ queue => exact ⟨_, queue⟩
  | ended _ _ _ queue => exact queue

theorem Kept.conserved (h : t.Kept limit) (hreturned : t.returnedAt = none) : t.Conserved := by
  cases h.phase with
  | idle _ queue => exact queue
  | writing _ _ _ queue => exact queue
  | closing _ _ _ queue => exact queue
  | ended _ _ _ _ returned => cases hreturned.symm.trans returned

theorem Kept.written_prefix (h : t.Kept limit) : t.written.map Prod.snd <+: t.begun.map Prod.snd := by
  obtain ⟨hall, hlost⟩ := h.writes
  cases hl : t.lost with
  | nil =>
    obtain ⟨done, hbegun, hdone⟩ := hall hl
    rw [frames_of_inTime hdone, hbegun, List.map_append]
    exact List.prefix_append _ _
  | cons x rest =>
    obtain ⟨done, last, hbegun, hdone, _⟩ := hlost x (by rw [hl]; exact List.mem_cons_self)
    rw [frames_of_inTime hdone, hbegun, List.map_append]
    exact List.prefix_append _ _

/-- While the connection is open and the wire takes what it is given, everything accepted is written. -/
theorem Kept.all_written (h : t.Kept limit) (rests : t.Rests limit t.now)
    (hwire : t.session.wire = .open) (hopen : t.connection.closed = false) :
    t.written.map Prod.snd = t.accepted := by
  have hnone : t.closedAt = none := h.marked.none_of_open hopen
  rcases rests_cases rests with hw | ⟨hw, _, hqueue⟩ | ⟨_, _, _, hstall, _⟩ | ⟨_, _, hstall, _⟩
  · cases h.phase with
    | idle writer => cases hw.symm.trans writer
    | writing _ _ writer => cases hw.symm.trans writer
    | closing _ _ writer => cases hw.symm.trans writer
    | ended _ _ _ _ _ _ closed => cases hnone.symm.trans closed
  · obtain ⟨queue, _, _, done, _⟩ := h.idle_inv hw
    rw [frames_of_inTime done, ← queue, hqueue, List.append_nil]
  · cases hwire.symm.trans hstall
  · cases hwire.symm.trans hstall

end Endings

end WriterTrace

/-- A client is shown a prefix of the accepted frames, each in time. The first write that fails is the
last, and after a close the writer ends within two limits. -/
theorem writer_writes_a_prefix_in_time {limit : Nat} {t : WriterTrace} (h : WriterRun limit t) :
    t.session.shown.filterMap WireEvent.frame? = t.written.map Prod.snd ∧
    t.written.map Prod.snd <+: t.accepted ∧ t.begun.map Prod.snd <+: t.accepted ∧
    (t.returnedAt = none → t.begun.map Prod.snd ++ t.connection.outbound = t.accepted) ∧
    (t.lost = [] → ∃ done, t.begun = done ++ t.session.writer.inHand ∧
      List.Forall₂ (WriterTrace.InTime limit) done t.written) ∧
    (∀ x ∈ t.lost, ∃ done last, t.begun = done ++ [last] ∧
      List.Forall₂ (WriterTrace.InTime limit) done t.written ∧ WriterTrace.GivenUp limit last x) ∧
    (t.returnedAt ≠ none → t.session.writer = .ended ∧ t.connection.closed = true) ∧
    (∀ T, t.closedAt = some T → (∀ time, t.returnedAt = some time → time ≤ T + 2 * limit) ∧
      (T + 2 * limit < t.now → t.returnedAt ≠ none)) ∧
    (t.Rests limit t.now → t.session.wire = .open → t.connection.closed = false →
      t.written.map Prod.snd = t.accepted) ∧
    ∀ duration, ∃ t', Relation.ReflTransGen (WriterTrace.Moves limit) t t' ∧
      t'.now = t.now + duration ∧ t'.Rests limit t'.now ∧
      ∀ T, t.closedAt = some T → T + 2 * limit ≤ t'.now →
        ∃ time ≤ T + 2 * limit, t'.returnedAt = some time := by
  have hkept : t.Kept limit := h.kept
  obtain ⟨hwrites, hlost⟩ := hkept.writes
  refine ⟨hkept.shown, hkept.written_prefix.trans hkept.begun_prefix, hkept.begun_prefix, hkept.conserved,
    hwrites, hlost, hkept.ended_of_returned, fun T hT => hkept.in_time hT, hkept.all_written,
    fun duration => ?_⟩
  obtain ⟨t', hmoves, hnow, hrests⟩ := t.advances limit duration
  refine ⟨t', hmoves, hnow, hrests, fun T hT hlate => ?_⟩
  have hkept' : t'.Kept limit := (WriterTrace.run_moves h hmoves).kept
  exact hkept'.returned (WriterTrace.moves_closedAt hT hmoves) hrests hlate

/-- The wire takes one frame and then blocks. The connection is closed in the middle of the second write,
which is given up when its time is over, as the closing of the wire is after it. -/
theorem blocked_writer_ends :
    ∃ t, WriterRun 10 t ∧ t.accepted = ["a", "b"] ∧ t.begun = [(0, "a"), (0, "b")] ∧
      t.written.map Prod.snd = ["a"] ∧ t.closedAt = some 4 ∧ t.returnedAt = some 20 ∧
      20 ≤ 4 + 2 * 10 ∧ t.connection.closed = true := by
  let s (wire : WireMode) (writer : WriterState) (shown : List WireEvent) : Session :=
    { Session.create ⟨7⟩ 0 4 false wire with writer := writer, shown := shown }
  let c (queue : List String) (closed : Bool) : Connection :=
    { Connection.create ⟨7⟩ ⟨1, 4, 2⟩ 0 with outbound := queue, closed := closed }
  have blocked : ∀ (shown : List WireEvent) (c : Connection) (writer : WriterState) (since τ : Nat),
      writer = .writing "b" since ∨ writer = .closing since → τ < since + 10 →
      (s .stalled writer shown).writerStep c τ 10 = none := by
    intro shown c writer since τ hw hτ
    have hearly : ¬since + 10 ≤ τ := by omega
    rcases hw with rfl | rfl <;> simp [s, Session.create, Session.writerStep, hearly]
  let t (now : Nat) (s : Session) (queue : List String) (begun written : List (Nat × String))
      (lost : List LostWrite) (closedAt returnedAt : Option Nat) : WriterTrace :=
    ⟨now, s, c queue closedAt.isSome, ["a", "b"], begun, written, lost, closedAt, returnedAt⟩
  have started : WriterRun 10 (.start 0 (s .open .idle []) (c [] false)) := .start 0 rfl rfl rfl rfl
  have queued : WriterRun 10 (t 0 (s .open .idle []) ["a", "b"] [] [] [] none none) :=
    (started.accept "a" rfl).accept "b" rfl
  have first : WriterRun 10 (t 0 (s .open (.writing "a" 0) []) ["b"] [(0, "a")] [] [] none none) :=
    queued.move (.step (s .open (.writing "a" 0) []) (c ["b"] false) rfl)
  have shown : WriterRun 10 (t 0 (s .open .idle [.text "a"]) ["b"] [(0, "a")] [(0, "a")] [] none none) :=
    first.move (.step (s .open .idle [.text "a"]) (c ["b"] false) rfl)
  have second : WriterRun 10 (t 0 (s .open (.writing "b" 0) [.text "a"]) [] [(0, "a"), (0, "b")]
      [(0, "a")] [] none none) :=
    shown.move (.step (s .open (.writing "b" 0) [.text "a"]) (c [] false) rfl)
  have stalled : WriterRun 10 (t 4 (s .stalled (.writing "b" 0) [.text "a"]) [] [(0, "a"), (0, "b")]
      [(0, "a")] [] none none) :=
    (second.other (s := s .stalled (.writing "b" 0) [.text "a"]) rfl rfl rfl rfl).move
      (.pass 4 (by decide) fun τ _ hτ => blocked _ _ _ 0 τ (Or.inl rfl) (by omega))
  have closed : WriterRun 10 (t 10 (s .stalled (.writing "b" 0) [.text "a"]) [] [(0, "a"), (0, "b")]
      [(0, "a")] [] (some 4) none) :=
    stalled.close.move (.pass 10 (by decide) fun τ _ hτ => blocked _ _ _ 0 τ (Or.inl rfl) hτ)
  have lost : WriterRun 10 (t 10 (s .stalled (.closing 10) [.text "a"]) [] [(0, "a"), (0, "b")]
      [(0, "a")] [⟨10, "b", .stalled⟩] (some 4) none) :=
    closed.move (.step (s .stalled (.closing 10) [.text "a"]) (c [] true) rfl)
  have late : WriterRun 10 (t 20 (s .stalled (.closing 10) [.text "a"]) [] [(0, "a"), (0, "b")]
      [(0, "a")] [⟨10, "b", .stalled⟩] (some 4) none) :=
    lost.move (.pass 20 (by decide) fun τ _ hτ => blocked _ _ _ 10 τ (Or.inr rfl) hτ)
  have ended := late.move (.step _ _ rfl)
  obtain ⟨hshown, _, _, _, _, _, hends, htime, _⟩ := writer_writes_a_prefix_in_time ended
  exact ⟨_, ended, rfl, rfl, hshown.symm, rfl, rfl, (htime 4 rfl).1 20 rfl, (hends (by decide)).2⟩

end RoomCast
