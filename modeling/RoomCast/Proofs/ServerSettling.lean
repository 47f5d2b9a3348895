import RoomCast.Proofs.ServerRun
import RoomCast.Service

namespace RoomCast

theorem MergeLayer.step?_cases {m m' : MergeLayer} {commit : Option Commit} {now : Nat}
    (hr : m.cancelled = false ∧ m.stopped = false) (h : m.step? now = some (m', commit)) :
    (∃ i, m.takeItem i now = some (m', commit)) ∨ (∃ k, m.fire k now = some (m', commit)) ∨
      ∃ i, m.takeExpiry i = some (m', commit) := by
  have fired : ∀ lane, m.fireFirst now lane = some (m', commit) →
      ∃ k, m.fire k now = some (m', commit) := by
    intro lane hf
    obtain ⟨k, _, hk⟩ := List.exists_of_findSome?_eq_some hf
    split at hk
    next => exact ⟨k, hk⟩
    next => simp at hk
  simp only [step?, hr.1, hr.2, Bool.false_eq_true, ↓reduceIte] at h
  split at h
  next i _ =>
    rcases (Option.orElse_eq_some _ _ _).mp h with h | ⟨_, h⟩
    · exact Or.inr (Or.inl (fired _ h))
    · exact Or.inr (Or.inr ⟨i, h⟩)
  next =>
    rcases (Option.orElse_eq_some _ _ _).mp h with h | ⟨_, h⟩
    · obtain ⟨i, _, hi⟩ := List.exists_of_findSome?_eq_some h
      exact Or.inl ⟨i, hi⟩
    · exact Or.inr (Or.inl (fired _ h))

theorem Server.sessionStep?_cases {srv srv' : Server} {i : Nat} (h : srv.sessionStep? i = some srv') :
    srv.writerStep i = some srv' ∨ srv.heartbeatStep i = some srv' ∨ srv.readerStep i = some srv' ∨
      srv.handlerStep i = some srv' := by
  unfold sessionStep? at h
  split at h
  next => simp at h
  next s _ =>
    simp only [Option.orElse_eq_some] at h
    rcases h with h | ⟨_, h | ⟨_, h | ⟨_, h | ⟨_, h⟩⟩⟩⟩
    · split at h
      next => exact Or.inl h
      next => simp at h
    · exact Or.inr (Or.inl h)
    · exact Or.inr (Or.inr (Or.inl h))
    · exact Or.inr (Or.inr (Or.inr h))
    · exact Or.inl h

namespace ServerTrace

/-- Some events lead from here to there. -/
def Leads (t t' : ServerTrace) : Prop := ∃ events, t.run events = t'

theorem leads_refl (t : ServerTrace) : Leads t t := ⟨[], rfl⟩

theorem leads_step (t : ServerTrace) (e : ServerEvent) : Leads t (t.step e) := ⟨[e], rfl⟩

theorem Leads.trans {t t' t'' : ServerTrace} (h : Leads t t') (h' : Leads t' t'') : Leads t t'' := by
  obtain ⟨events, rfl⟩ := h
  obtain ⟨events', rfl⟩ := h'
  exact ⟨events ++ events', List.foldl_append⟩

theorem Leads.sound {t t' : ServerTrace} (h : Leads t t') (hs : t.server.Sound) : t'.server.Sound := by
  obtain ⟨events, rfl⟩ := h
  exact run_sound hs events

theorem leads_sessionStep {t : ServerTrace} {i : Nat} {srv : Server}
    (h : t.server.sessionStep? i = some srv) : Leads t { t with server := srv } := by
  have moved : ∀ (e : ServerEvent) (next : Option Server), t.step e = t.move next → next = some srv →
      Leads t { t with server := srv } := by
    intro e next he hn
    have hl := leads_step t e
    rw [he, hn] at hl
    exact hl
  rcases Server.sessionStep?_cases h with h | h | h | h
  · exact moved (.write i) _ rfl h
  · exact moved (.beat i) _ rfl h
  · exact moved (.read i) _ rfl h
  · exact moved (.serve i) _ rfl h

theorem leads_runSessions (n : Nat) (t : ServerTrace) :
    Leads t { t with server := Server.runSessions n t.server } := by
  induction n generalizing t with
  | zero => exact leads_refl t
  | succ n ih =>
    unfold Server.runSessions
    cases h : t.server.sessionsStep? with
    | none => exact leads_refl t
    | some srv =>
      obtain ⟨i, _, hi⟩ := List.exists_of_findSome?_eq_some h
      exact (leads_sessionStep hi).trans (ih { t with server := srv })

theorem leads_moves {t : ServerTrace} {r : Registry} (h : t.server.registry.Moves r) :
    Leads t { t with server := { t.server with registry := r } } := by
  induction h with
  | refl => exact leads_refl t
  | @step r' r'' m _ hm ih =>
    have hl := leads_step { t with server := { t.server with registry := r' } } (.pipeline m)
    simp only [step, hm, Option.map_some] at hl
    exact ih.trans hl

theorem leads_mergeStep {t : ServerTrace} {m : MergeLayer} {commit : Option Commit}
    (hr : t.server.merge.cancelled = false ∧ t.server.merge.stopped = false)
    (h : t.server.merge.step? t.server.now = some (m, commit)) :
    Leads t (t.moveMerge (some (m, commit))) ∧ m.cancelled = false ∧ m.stopped = false := by
  rcases MergeLayer.step?_cases hr h with ⟨i, hm⟩ | ⟨k, hm⟩ | ⟨i, hm⟩
  · have hl := leads_step t (.takeItem i)
    have hrun := (MergeLayer.takeItem_moved hm).running
    simp only [step, hm] at hl
    exact ⟨hl, hrun.1.trans hr.1, hrun.2.trans hr.2⟩
  · have hl := leads_step t (.fire k)
    have hrun := (MergeLayer.fire_moved hm).running
    simp only [step, hm] at hl
    exact ⟨hl, hrun.1.trans hr.1, hrun.2.trans hr.2⟩
  · have hl := leads_step t (.takeExpiry i)
    have hrun := (MergeLayer.takeExpiry_moved hm).running
    simp only [step, hm] at hl
    exact ⟨hl, hrun.1.trans hr.1, hrun.2.trans hr.2⟩

theorem leads_runMerge (n : Nat) (t : ServerTrace)
    (hr : t.server.merge.cancelled = false ∧ t.server.merge.stopped = false) :
    let next := MergeLayer.run t.server.now n t.server.merge
    Leads t { t with
      server := next.2.foldl Server.takeCommit { t.server with merge := next.1 }
      commits := t.commits ++ next.2 } := by
  induction n generalizing t with
  | zero =>
    simp only [MergeLayer.run, List.append_nil]
    exact leads_refl t
  | succ n ih =>
    simp only [MergeLayer.run]
    cases h : t.server.merge.step? t.server.now with
    | none =>
      simp only [List.append_nil]
      exact leads_refl t
    | some next =>
      obtain ⟨m, commit⟩ := next
      obtain ⟨hl, hm⟩ := leads_mergeStep hr h
      refine hl.trans ?_
      cases commit with
      | none => exact ih { t with server := { t.server with merge := m } } hm
      | some commit =>
        have later := ih (t.moveMerge (some (m, some commit))) hm
        simp only [moveMerge, Server.takeCommit, List.append_assoc] at later
        exact later

theorem leads_settleMerge {t : ServerTrace} (hs : t.server.Sound) :
    ∃ commits, Leads t { t with server := t.server.settleMerge, commits := commits } :=
  ⟨_, leads_runMerge t.server.merge.work t hs.running⟩

theorem leads_settleRegistry {t : ServerTrace} (hs : t.server.Sound) :
    Leads t { t with server := t.server.settleRegistry } :=
  leads_moves (Registry.run_moves t.server.registry.work hs.fitted)

theorem leads_settle {t : ServerTrace} (hs : t.server.Sound) :
    ∃ commits, Leads t { t with server := t.server.settle, commits := commits } := by
  have hsessions : Leads t { t with server := t.server.settleSessions } := leads_runSessions _ t
  obtain ⟨commits, hmerge⟩ := leads_settleMerge (hsessions.sound hs)
  have hbatches := hsessions.trans hmerge
  have hregistry := hbatches.trans (leads_settleRegistry (hbatches.sound hs))
  exact ⟨commits, hregistry.trans (leads_runSessions _ _)⟩

theorem leads_settleUntil (limit rounds : Nat) {t : ServerTrace} (hs : t.server.Sound) :
    ∃ commits, Leads t { t with
      server := Server.settleUntil limit rounds t.server
      commits := commits } := by
  induction rounds generalizing t with
  | zero => exact ⟨_, leads_refl t⟩
  | succ rounds ih =>
    unfold Server.settleUntil
    cases t.server.nextDue with
    | none => exact ⟨_, leads_refl t⟩
    | some time =>
      by_cases hlimit : time ≤ limit
      · simp only [hlimit, ↓reduceIte]
        have hclock := leads_step t (.clock time)
        obtain ⟨commits, hsettle⟩ := leads_settle (hclock.sound hs)
        have hround := hclock.trans hsettle
        obtain ⟨commits', hlater⟩ := ih (hround.sound hs)
        exact ⟨commits', hround.trans hlater⟩
      · simp only [hlimit, ↓reduceIte]
        exact ⟨_, leads_refl t⟩

/-- Letting time pass is a run in which nothing is published. -/
theorem leads_advance {t : ServerTrace} (hs : t.server.Sound) (duration : Nat) :
    ∃ commits, Leads t { t with server := t.server.advance duration, commits := commits } := by
  obtain ⟨_, hsettle⟩ := leads_settle hs
  obtain ⟨_, huntil⟩ := leads_settleUntil (t.server.settle.now + duration) (duration + 1)
    (hsettle.sound hs)
  have hwait := (hsettle.trans huntil).trans (leads_step _ (.clock (t.server.settle.now + duration)))
  obtain ⟨commits, hrest⟩ := leads_settle (hwait.sound hs)
  exact ⟨commits, hwait.trans hrest⟩

theorem leads_pushEach (key : BatchKey) (items : List Fragment) {t : ServerTrace}
    (h : t.intake = items.map fun item => ⟨key, item⟩) :
    Leads t { t with
      server := { t.server with merge := (MergeLayer.pushEach key items t.server.merge).1 }
      intake := [] } := by
  induction items generalizing t with
  | nil =>
    rw [List.map_nil] at h
    rw [← h]
    exact leads_refl t
  | cons item items ih =>
    have hstep := leads_step t .forward
    simp only [step, ServerTrace.forward, h, List.map_cons] at hstep
    exact hstep.trans (ih rfl)

/-- Answering a form that publishes is a run: the form is accepted, and its items are handed on. -/
theorem leads_publish {t : ServerTrace} (h : t.intake = []) (form : PublishForm) :
    Leads t { t with
      server := (t.server.publishForm (some form) Publish.toAll?).1
      published := t.published ++ ((Publish.toAll? form).map (form, ·)).toList } ∧
    Leads t { t with
      server := (t.server.publishForm (some form) Publish.toRoom?).1
      published := t.published ++ ((Publish.toRoom? form).map (form, ·)).toList } := by
  have accepted : ∀ (e : ServerEvent) (publish? : PublishForm → Option Publish),
      t.step e = t.accept form (publish? form) → Leads t { t with
        server := (t.server.publishForm (some form) publish?).1
        published := t.published ++ ((publish? form).map (form, ·)).toList } := by
    intro e publish? he
    have hstep := leads_step t e
    rw [he] at hstep
    cases hp : publish? form with
    | none =>
      simp only [Server.publishForm, hp, Option.map_none, Option.toList_none, List.append_nil]
      exact leads_refl t
    | some p =>
      rw [hp] at hstep
      have hintake : (t.accept form (some p)).intake = p.items.map fun item => ⟨p.key, item⟩ := by
        rw [accept, h]
        rfl
      have hall := hstep.trans (leads_pushEach p.key p.items hintake)
      simp only [accept, ← h] at hall
      simp only [Server.publishForm, hp, Option.map_some, Option.toList_some]
      exact hall
  exact ⟨accepted (.publishAll form) _ rfl, accepted (.publishRoom form) _ rfl⟩

end ServerTrace

end RoomCast
