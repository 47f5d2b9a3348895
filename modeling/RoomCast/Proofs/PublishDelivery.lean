import RoomCast.Proofs.FrameDelivery
import RoomCast.Proofs.PublishedItems

namespace RoomCast

namespace ServerTrace

/-- A step in which nobody is registered or taken out, nobody joins or leaves a room, and nothing is
turned away. -/
structure Steady (t t' : ServerTrace) : Prop where
  shards : t'.server.registry.shards = t.server.registry.shards
  merge : t'.server.merge.counters.drops = t.server.merge.counters.drops
  registry : t'.server.registry.counters = t.server.registry.counters

def SteadyRun (t : ServerTrace) : List ServerEvent → Prop
  | [] => True
  | e :: events => Steady t (t.step e) ∧ SteadyRun (t.step e) events

instance (t t' : ServerTrace) : Decidable (Steady t t') :=
  decidable_of_iff
    (t'.server.registry.shards = t.server.registry.shards ∧
      t'.server.merge.counters.drops = t.server.merge.counters.drops ∧
      t'.server.registry.counters = t.server.registry.counters)
    ⟨fun h => ⟨h.1, h.2.1, h.2.2⟩, fun h => ⟨h.shards, h.merge, h.registry⟩⟩

instance decidableSteadyRun : (t : ServerTrace) → (events : List ServerEvent) →
    Decidable (SteadyRun t events)
  | _, [] => .isTrue trivial
  | t, e :: events =>
    have := decidableSteadyRun (t.step e) events
    inferInstanceAs (Decidable (_ ∧ _))

theorem Stepped.framesKept {srv₀ : Server} {t t' : ServerTrace} (hstep : t.Stepped t')
    (hs : t.server.Sound) (ho : t.server.registry.InOrder) (hserved : t.server.registry.served = true)
    (hshards : t.server.registry.shards = srv₀.registry.shards)
    (hgrown : srv₀.sessions.length ≤ t.server.sessions.length) (hsteady : Steady t t')
    (h : srv₀.FramesKept t.server t.commits) : srv₀.FramesKept t'.server t'.commits := by
  cases hstep with
  | idle => exact h
  | accept accepted => exact h
  | forward waits => exact h
  | merge moved => exact h
  | @commit m commit moved =>
    have hmerged : srv₀.FramesKept { t.server with merge := m } t.commits := h
    refine hmerged.push commit ?_
    rcases t.server.registry.push_cases ⟨commit.target, commit.payload⟩ with
      ⟨_, hdown⟩ | hfull | ⟨_, hqueued⟩
    · simp [hs.fitted.running.2.1, hserved] at hdown
    · have hdispatch := congrArg (·.dispatchDrops) hsteady.registry
      simp only at hdispatch
      rw [Server.takeCommit_eq, hfull] at hdispatch
      simp at hdispatch
    · rw [hqueued]
  | pipeline moved =>
    have hskips := congrArg (·.shardSkips) hsteady.registry
    have hdrops := congrArg (·.outboundDrops) hsteady.registry
    exact h.pipeline hs ho hshards moved hskips hdrops
  | clock => exact h
  | connect => exact h.openSession hs hshards hgrown _ _ _
  | session moved => exact h.session hs moved

/-- What holds at every time of a steady run from an idle server on. -/
structure Carried (srv₀ : Server) (t : ServerTrace) : Prop where
  sound : t.server.Sound
  settings : t.server.settings = srv₀.settings
  shards : t.server.registry.shards = srv₀.registry.shards
  grown : srv₀.sessions.length ≤ t.server.sessions.length
  items : t.ItemsKept
  frames : srv₀.FramesKept t.server t.commits

theorem start_carried {srv₀ : Server} (hs : srv₀.Sound) (hidle : (start srv₀).Idle) :
    Carried srv₀ (start srv₀) := by
  refine ⟨hs, rfl, rfl, Nat.le_refl _, ?_, ?_⟩
  · intro key
    have hnone := hidle.holds_nothing hs key
    simp only [start] at hnone ⊢
    rw [hnone]
    rfl
  · intro i s c hi hc _
    have hp : srv₀.registry.pending (srv₀.registry.route c.id) = [] := hidle.registry.pending _
    rw [Server.pushesAt_eq hs hi hc, start, hp]
    rfl

/-- With one dispatcher, and one worker to a shard, the pipeline keeps the order. -/
theorem Carried.inOrder {srv₀ : Server} {t : ServerTrace} (h : Carried srv₀ t)
    (hd : srv₀.settings.registry.dispatchWorkerCount = 1)
    (hw : srv₀.settings.registry.shardJobWorkerCount = 1) :
    t.server.registry.InOrder ∧ t.server.registry.served = true := by
  have hfit := h.sound.fitted
  rw [h.settings] at hfit
  refine ⟨⟨?_, fun lane hl => ?_⟩, ?_⟩
  · have ho := hfit.offerings
    rw [hd] at ho
    exact ho
  · have ht := (hfit.balanced lane hl).taken
    rw [hw] at ht
    exact ht
  · rw [hfit.running.1, hd]
    rfl

theorem Carried.step {srv₀ : Server} {t : ServerTrace} (h : Carried srv₀ t)
    (hd : srv₀.settings.registry.dispatchWorkerCount = 1)
    (hw : srv₀.settings.registry.shardJobWorkerCount = 1) (e : ServerEvent)
    (hsteady : Steady t (t.step e)) : Carried srv₀ (t.step e) := by
  have hstep := step_stepped h.sound.housed e
  obtain ⟨hsettings, hgrown⟩ := hstep.kept
  obtain ⟨ho, hserved⟩ := h.inOrder hd hw
  refine ⟨hstep.sound h.sound, hsettings.trans h.settings, hsteady.shards.trans h.shards,
    Nat.le_trans h.grown hgrown, ?_, ?_⟩
  · exact hstep.itemsKept h.sound hsteady.merge h.items
  · exact hstep.framesKept h.sound ho hserved h.shards h.grown hsteady h.frames

theorem SteadyRun.carried {srv₀ : Server} {t : ServerTrace} {events : List ServerEvent}
    (hd : srv₀.settings.registry.dispatchWorkerCount = 1)
    (hw : srv₀.settings.registry.shardJobWorkerCount = 1) (hrun : SteadyRun t events)
    (h : Carried srv₀ t) : Carried srv₀ (t.run events) := by
  induction events generalizing t with
  | nil => exact h
  | cons e events ih => exact ih hrun.2 (h.step hd hw e hrun.1)

end ServerTrace

/-- Published from rest to rest while the rooms stay as they are, the items of the accepted forms reach
exactly the members, in batches and in order. -/
theorem publishes_reach_members {settings : Settings} {identities : IdentitySource}
    {showsFigures : Bool} {setup events : List ServerEvent} {t₀ t : ServerTrace}
    (hd : settings.registry.dispatchWorkerCount = 1) (hw : settings.registry.shardJobWorkerCount = 1)
    (hsetup : (ServerTrace.start (.create settings identities showsFigures)).run setup = t₀)
    (hidle : t₀.Idle) (hrun : (ServerTrace.start t₀.server).run events = t)
    (hsteady : (ServerTrace.start t₀.server).SteadyRun events) (hend : t.Idle) :
    let r := t₀.server.registry
    (∀ (i : Nat) (s : Session) (c : Connection), t.server.session? i = some (s, c) →
      c.closed = false →
      s.pushes c = t₀.server.pushesAt i ++ r.framesFor i c.id t.commits ∧
        ∀ name, ¬r.IsMember name c.id → s.pushes c = t₀.server.pushesAt i ++
          r.framesFor i c.id (t.commits.filter fun commit => commit.key ≠ .room name)) ∧
      (∀ key, ServerTrace.committedItems t.commits key =
        ServerTrace.publishedFor (events.filterMap ServerEvent.published?) key) ∧
      ∀ e ∈ events, ∀ form p, e.published? = some (form, p) →
        ∃ text, form.items = some text ∧ ListText p.items text ∧
          (e = .publishAll form ∧ p.key = .broadcast ∨
            ∃ room, e = .publishRoom form ∧ form.room = some room ∧ room ≠ "" ∧
              p.key = .room room) := by
  intro r
  have hsound : t₀.server.Sound := by
    rw [← hsetup]
    exact ServerTrace.run_sound (Server.create_sound settings identities showsFigures) setup
  have hsettings : t₀.server.settings = settings := by
    rw [← hsetup]
    exact ServerTrace.run_settings (Server.create_sound settings identities showsFigures) setup
  have hstart : (ServerTrace.start t₀.server).Idle := ⟨rfl, hidle.timers, hidle.lanes, hidle.registry⟩
  have hcarried : ServerTrace.Carried t₀.server t := by
    rw [← hrun]
    refine hsteady.carried ?_ ?_ (ServerTrace.start_carried hsound hstart)
    · rw [hsettings, hd]
    · rw [hsettings, hw]
  refine ⟨?_, ?_, fun e _ form p h => published_verbatim h⟩
  · intro i s c hsc hopen
    obtain ⟨hi, hc, _, _⟩ := hcarried.sound.session? hsc
    have hframes := hcarried.frames i s c hi hc hopen
    rw [hend.registry.pending, Registry.comingTo, List.filter_nil, List.map_nil,
      List.append_nil] at hframes
    refine ⟨hframes, fun name hn => ?_⟩
    rw [hframes, Registry.framesFor_outsider hn]
  · intro key
    have hitems := hcarried.items key
    have hpublished := ServerTrace.run_published (.start t₀.server) events
    rw [hrun] at hpublished
    rw [hend.holds_nothing hcarried.sound, hend.intake, hpublished] at hitems
    simpa [ServerTrace.start, fragmentsFor] using hitems

/-- A batch for a room that fills up and one for everyone whose timer fires, with one member and one
other client. -/
theorem room_batch_then_broadcast :
    let settings : Settings :=
      { Settings.defaults with registry := ⟨2, 4, 1, 4, 1⟩, merge := ⟨1, 4, 5, 2⟩ }
    let setup : List ServerEvent := [.connect ⟨7⟩ true .open, .serve 0,
      .arrive 0 (.text "\x7b\"type\":\"JOIN\",\"data\":\x7b\"room\":\"a\"\x7d\x7d"), .read 0, .serve 0,
      .connect ⟨8⟩ true .open, .serve 1]
    let events : List ServerEvent := [.publishRoom ⟨some "a", some "[1, 2]"⟩,
      .publishAll ⟨none, some "[ 3 ]"⟩, .forward, .forward, .forward, .takeItem 0, .takeItem 1,
      .takeItem 1, .clock 5, .fire 0, .takeExpiry 0] ++
      (List.replicate 2 [PipelineMove.take, .offer 0, .offer 0, .offer 0, .pick 0, .pick 1,
        .deliver 0 0, .deliver 1 0]).flatten.map .pipeline
    let t₀ := (ServerTrace.start (.create settings ⟨1⟩ false)).run setup
    let t := (ServerTrace.start t₀.server).run events
    t₀.Idle ∧ t.Idle ∧ (ServerTrace.start t₀.server).SteadyRun events ∧
      t.server.pushesAt 0 = [PushPayload.frame ⟨[⟨"1"⟩, ⟨"2"⟩]⟩, PushPayload.frame ⟨[⟨"3"⟩]⟩] ∧
      t.server.pushesAt 1 = [PushPayload.frame ⟨[⟨"3"⟩]⟩] := by
  intro settings setup events t₀ t
  have hcreated := Server.create_sound settings ⟨1⟩ false
  have hidle : t₀.Idle := (ServerTrace.create_idle settings ⟨1⟩ false).run hcreated (by decide)
  have hend : t.Idle := ⟨by decide +kernel, by decide +kernel, by decide +kernel,
    ⟨by decide +kernel, by decide +kernel, by decide +kernel⟩⟩
  have hsteady : (ServerTrace.start t₀.server).SteadyRun events := by decide +kernel
  have hd : settings.registry.dispatchWorkerCount = 1 := rfl
  have hw : settings.registry.shardJobWorkerCount = 1 := rfl
  have hsetup : (ServerTrace.start (.create settings ⟨1⟩ false)).run setup = t₀ := rfl
  have hrun : (ServerTrace.start t₀.server).run events = t := rfl
  obtain ⟨hpushes, _, _⟩ := publishes_reach_members hd hw hsetup hidle hrun hsteady hend
  have queued : ∀ i id, ((t.server.session? i).map fun p => (p.2.id, p.2.closed)) = some (id, false) →
      t.server.pushesAt i =
        t₀.server.pushesAt i ++ t₀.server.registry.framesFor i id t.commits := by
    intro i id h
    obtain ⟨⟨s, c⟩, hsc, he⟩ := Option.map_eq_some_iff.mp h
    obtain ⟨hid, hopen⟩ := Prod.mk.inj he
    rw [Server.pushesAt, hsc, ← hid]
    exact (hpushes i s c hsc hopen).1
  refine ⟨hidle, hend, hsteady, ?_, ?_⟩
  · rw [queued 0 ⟨7⟩ (by decide +kernel)]
    decide +kernel
  · rw [queued 1 ⟨8⟩ (by decide +kernel)]
    decide +kernel

end RoomCast
