import RoomCast.Proofs.FragmentText
import RoomCast.Proofs.ServerRun

namespace RoomCast

namespace ServerTrace

def publishedFor (published : List (PublishForm × Publish)) (key : BatchKey) : List Fragment :=
  fragmentsFor (published.flatMap fun p => p.2.mergeItems) key

def committedItems (commits : List Commit) (key : BatchKey) : List Fragment :=
  commits.flatMap (·.itemsFor key)

/-- What has been published is committed, gathers in a batch, or has yet to reach the merge layer. -/
def ItemsKept (t : ServerTrace) : Prop :=
  ∀ key, committedItems t.commits key ++ (t.server.merge.openItems key ++
    t.server.merge.waitingItems key) ++ fragmentsFor t.intake key = publishedFor t.published key

theorem Idle.holds_nothing {t : ServerTrace} (h : t.Idle) (hs : t.server.Sound) (key : BatchKey) :
    t.server.merge.openItems key ++ t.server.merge.waitingItems key = [] := by
  have hopen := hs.timed.openItems_nil h.timers (fun lane hl => (h.lanes lane hl).2) key
  have hwait : t.server.merge.waitingItems key = [] := by
    unfold MergeLayer.waitingItems
    split
    next => rfl
    next lane hl =>
      rw [MergeLane.waitingItems, (h.lanes lane (List.mem_of_getElem? hl)).1]
      rfl
  rw [hopen, hwait]
  rfl

theorem Stepped.itemsKept {t t' : ServerTrace} (hstep : t.Stepped t') (hs : t.server.Sound)
    (hdrops : t'.server.merge.counters.drops = t.server.merge.counters.drops) (h : t.ItemsKept) :
    t'.ItemsKept := by
  intro key
  have hkey := h key
  cases hstep with
  | idle => exact hkey
  | @accept form p accepted =>
    have hpub : publishedFor (t.published ++ [(form, p)]) key =
        publishedFor t.published key ++ fragmentsFor p.mergeItems key := by
      simp [publishedFor, fragmentsFor_append]
    rw [hpub, fragmentsFor_append, ← List.append_assoc]
    exact congrArg (· ++ _) hkey
  | @forward item rest waits =>
    obtain ⟨lane, hl, ⟨_, he⟩ | ⟨_, he⟩⟩ :=
      MergeLayer.push_cases hs.merge hs.running.1 hs.running.2 item
    · simp [he] at hdrops
    · -- the item passes from the front of the intake to the end of its queue
      have hq := MergeLayer.queue_items hl key
      simp only at hq
      rw [waits, fragmentsFor_cons] at hkey
      simp only [he, hq]
      simpa only [List.append_assoc] using hkey
  | merge moved =>
    have hm := moved.moved.items hs.merge key
    rw [← hm] at hkey
    exact hkey
  | @commit m commit moved =>
    have hm := moved.moved.items hs.merge key
    have hcommitted : committedItems (t.commits ++ [commit]) key =
        committedItems t.commits key ++ commit.itemsFor key := by
      simp [committedItems]
    rw [← hm] at hkey
    rw [hcommitted, Server.takeCommit_eq]
    simpa only [committedFor, List.append_assoc] using hkey
  | pipeline moved => exact hkey
  | clock => exact hkey
  | @connect id answersPings wire =>
    obtain ⟨s, c, he, _⟩ := t.server.openSession_eq id answersPings wire
    rw [he]
    exact hkey
  | session moved =>
    rw [moved.rest.2.1]
    exact hkey

end ServerTrace

/-- What an event publishes: a form that is accepted. -/
def ServerEvent.published? : ServerEvent → Option (PublishForm × Publish)
  | .publishAll form => (Publish.toAll? form).map (form, ·)
  | .publishRoom form => (Publish.toRoom? form).map (form, ·)
  | _ => none

namespace ServerTrace

theorem step_published (t : ServerTrace) (e : ServerEvent) :
    (t.step e).published = t.published ++ e.published?.toList := by
  have accepted : ∀ (form : PublishForm) (p : Option Publish),
      (t.accept form p).published = t.published ++ (p.map (form, ·)).toList := by
    intro form p
    cases p with
    | none => simp [accept]
    | some p => rfl
  have merged : ∀ next, (t.moveMerge next).published = t.published := by
    intro next
    match next with
    | none => rfl
    | some (_, none) => rfl
    | some (_, some _) => rfl
  have moved : ∀ next, (t.move next).published = t.published := by
    intro next
    cases next <;> rfl
  cases e with
  | publishAll form => exact accepted form _
  | publishRoom form => exact accepted form _
  | forward =>
    simp only [step, ServerTrace.forward]
    split <;> simp [ServerEvent.published?]
  | takeItem lane => simp [step, merged, ServerEvent.published?]
  | fire timer => simp [step, merged, ServerEvent.published?]
  | takeExpiry lane => simp [step, merged, ServerEvent.published?]
  | pipeline m => simp [step, moved, ServerEvent.published?]
  | read session => simp [step, moved, ServerEvent.published?]
  | write session => simp [step, moved, ServerEvent.published?]
  | beat session => simp [step, moved, ServerEvent.published?]
  | serve session => simp [step, moved, ServerEvent.published?]
  | clock time => simp [step, ServerEvent.published?]
  | connect id answersPings wire => simp [step, ServerEvent.published?]
  | arrive session message => simp [step, ServerEvent.published?]
  | finish session => simp [step, ServerEvent.published?]
  | rewire session wire => simp [step, ServerEvent.published?]

theorem run_published (t : ServerTrace) (events : List ServerEvent) :
    (t.run events).published = t.published ++ events.filterMap ServerEvent.published? := by
  induction events generalizing t with
  | nil => simp [run]
  | cons e events ih =>
    rw [run, List.foldl_cons, ← run, ih, step_published, List.append_assoc]
    congr 1
    cases he : e.published? <;> simp [he]

theorem create_idle (settings : Settings) (identities : IdentitySource) (showsFigures : Bool) :
    (start (.create settings identities showsFigures)).Idle := by
  refine ⟨rfl, rfl, fun lane hl => ?_, rfl, rfl, fun lane hl => ?_⟩
  · rw [(List.mem_replicate.mp hl).2]
    exact ⟨rfl, rfl⟩
  · rw [(List.mem_replicate.mp hl).2]
    exact ⟨rfl, rfl⟩

theorem Idle.no_mergeStep {t : ServerTrace} (h : t.Idle) {m : MergeLayer} {commit : Option Commit}
    (hm : t.server.merge.Stepped m commit) : False := by
  rcases hm with ⟨i, now, hm⟩ | ⟨k, now, hm⟩ | ⟨i, hm⟩
  · obtain ⟨lane, item, rest, hl, hin, _⟩ := MergeLayer.takeItem_cases hm
    simp [(h.lanes lane (List.mem_of_getElem? hl)).1] at hin
  · obtain ⟨timer, lane, ht, _⟩ := MergeLayer.fire_cases hm
    simp [h.timers] at ht
  · obtain ⟨lane, timer, rest, hl, hx, _⟩ := MergeLayer.takeExpiry_cases hm
    simp [(h.lanes lane (List.mem_of_getElem? hl)).2] at hx

theorem Idle.step {t t' : ServerTrace} (h : t.Idle) (hstep : t.Stepped t')
    (hpublished : t'.published = t.published) : t'.Idle := by
  cases hstep with
  | idle => exact h
  | accept accepted => simp at hpublished
  | forward waits => simp [h.intake] at waits
  | merge moved => exact (h.no_mergeStep moved).elim
  | commit moved => exact (h.no_mergeStep moved).elim
  | pipeline moved => exact (h.registry.step moved).elim
  | clock => exact ⟨h.intake, h.timers, h.lanes, h.registry⟩
  | @connect id answersPings wire =>
    obtain ⟨s, c, he, _⟩ := t.server.openSession_eq id answersPings wire
    rw [he]
    exact ⟨h.intake, h.timers, h.lanes, h.registry.queue, h.registry.offerings, h.registry.lanes⟩
  | session moved =>
    have hmerge := moved.rest.2.1
    exact ⟨h.intake, hmerge ▸ h.timers, hmerge ▸ h.lanes, moved.seat.pipeline.quiet h.registry⟩

theorem Idle.run {t : ServerTrace} (h : t.Idle) (hs : t.server.Sound) {events : List ServerEvent}
    (hnone : ∀ e ∈ events, e.published? = none) : (t.run events).Idle := by
  induction events generalizing t with
  | nil => exact h
  | cons e events ih =>
    have hstep := step_stepped hs.housed e
    have hpublished : (t.step e).published = t.published := by
      rw [step_published, hnone e List.mem_cons_self]
      simp
    exact ih (h.step hstep hpublished) (hstep.sound hs) fun e he =>
      hnone e (List.mem_cons_of_mem _ he)

end ServerTrace

/-- What is published is the list in the form as it was written, for everyone or for the room that the
form names. -/
theorem published_verbatim {e : ServerEvent} {form : PublishForm} {p : Publish}
    (h : e.published? = some (form, p)) :
    ∃ text, form.items = some text ∧ ListText p.items text ∧
      (e = .publishAll form ∧ p.key = .broadcast ∨
        ∃ room, e = .publishRoom form ∧ form.room = some room ∧ room ≠ "" ∧ p.key = .room room) := by
  cases e with
  | publishAll f =>
    obtain ⟨q, hq, he⟩ := Option.map_eq_some_iff.mp h
    obtain ⟨rfl, rfl⟩ := Prod.mk.inj he
    obtain ⟨items, hitems, rfl⟩ := Option.map_eq_some_iff.mp hq
    obtain ⟨text, htext, hread⟩ := Option.bind_eq_some_iff.mp hitems
    exact ⟨text, htext, fragmentsOf_text hread, Or.inl ⟨rfl, rfl⟩⟩
  | publishRoom f =>
    obtain ⟨q, hq, he⟩ := Option.map_eq_some_iff.mp h
    obtain ⟨rfl, rfl⟩ := Prod.mk.inj he
    unfold Publish.toRoom? at hq
    split at hq
    next => simp at hq
    next room hroom =>
      obtain ⟨hname, hne⟩ := Option.filter_eq_some_iff.mp hroom
      obtain ⟨items, hitems, rfl⟩ := Option.map_eq_some_iff.mp hq
      obtain ⟨text, htext, hread⟩ := Option.bind_eq_some_iff.mp hitems
      exact ⟨text, htext, fragmentsOf_text hread,
        Or.inr ⟨room, rfl, hname, of_decide_eq_true hne, rfl⟩⟩
  | _ => simp [ServerEvent.published?] at h

end RoomCast
