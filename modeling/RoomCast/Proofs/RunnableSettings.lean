import RoomCast.Launch
import RoomCast.Proofs.EnvironmentOverrides

namespace RoomCast

/-- The most seconds that a moment can be put off by. -/
def greatestDelaySecs : Nat := Nat.pow 2 63 - 1

theorem isQueueCapacity_iff {n : Nat} : isQueueCapacity n = true ↔ 0 < n ∧ n ≤ greatestCapacity := by
  simp [isQueueCapacity]

theorem isPoolSize_iff {n : Nat} : isPoolSize n = true ↔ n ≤ greatestCapacity := by
  simp [isPoolSize]

/-- Whether the queues and the pools of permits of a server can be made, and all workers of its merge
layer be counted. -/
structure Server.Makeable (srv : Server) : Prop where
  dispatch : isQueueCapacity srv.registry.dispatchCapacity = true
  lanes : ∀ lane ∈ srv.registry.lanes,
    isQueueCapacity lane.capacity = true ∧ isPoolSize lane.permits = true
  items : isQueueCapacity srv.merge.capacity = true
  workers : srv.merge.lanes.length ≤ greatestWord

/-- Whether the queues of every session and its connection can be made, and the moment of the first check
of its heartbeat can be told. -/
structure SocketSettings.Makeable (s : SocketSettings) : Prop where
  inbound : ∀ id seat answersPings wire,
    isQueueCapacity (Session.create id seat s.limits.inbound answersPings wire).inboundCapacity = true
  outbound : ∀ id now, isQueueCapacity (Connection.create id s.limits now).capacity = true
  firstCheck : ∀ now, ∃ due,
    (Heartbeat.start now s.heartbeatIntervalMs).bind (·.due s.heartbeatIntervalMs) = some due ∧
      due ≤ now + greatestDelaySecs * 1000

theorem Replaced.bounded {env : Environment} {name : String} {lo hi limit before after : Nat}
    (h : Replaced (HoldsNumber env name lo hi) before after) (hhi : hi ≤ limit)
    (hbefore : before ≤ limit) : after ≤ limit := by
  obtain ⟨_, _, _, _, hafter⟩ | ⟨_, rfl⟩ := h
  · exact Nat.le_trans hafter hhi
  · exact hbefore

namespace Settings

/-- The limits of what is made once for a server. -/
structure ServerWithinLimits (s : Settings) : Prop where
  dispatch : s.registry.dispatchChannelSize.toNat ≤ greatestCapacity
  jobs : s.registry.shardJobChannelSize.toNat ≤ greatestCapacity
  items : s.merge.channelSize.toNat ≤ greatestCapacity
  workers : s.merge.workerCount.toNat < greatestWord

/-- The limits of what is made for every session. -/
structure SessionsWithinLimits (s : Settings) : Prop where
  inbound : s.socket.inChannelSize.toNat ≤ greatestCapacity
  outbound : s.socket.outChannelSize.toNat ≤ greatestCapacity
  heartbeat : s.socket.heartbeatIntervalSecs.toNat ≤ greatestDelaySecs

/-- What is asked of settings before a server is made is what their server needs. There is a lane at
least, so the sizes of the lanes always count. -/
theorem makeable_iff_canRun (s : Settings) (ids : IdentitySource) (shows : Bool) :
    (Server.create s ids shows).Makeable ↔ Server.canRun s = true := by
  have hlanes : (∀ lane ∈ (Registry.create s.registry).lanes,
      isQueueCapacity lane.capacity = true ∧ isPoolSize lane.permits = true) ↔
        isQueueCapacity s.registry.shardJobChannelSize.toNat = true ∧
          isPoolSize s.registry.shardJobChannelSize.toNat = true := by
    have hsome : max s.registry.shardCount.toNat 1 ≠ 0 := by omega
    exact List.forall_mem_replicate.trans (or_iff_right hsome)
  have hworkers : (MergeLayer.create s.merge).lanes.length ≤ greatestWord ↔
      s.merge.workerCount.toNat + 1 ≤ greatestWord := by
    have hword : 2 ≤ greatestWord := by decide
    simp only [MergeLayer.create, List.length_replicate]
    omega
  simp only [Server.canRun, RegistrySettings.canRun, MergeSettings.canRun, Bool.and_eq_true,
    decide_eq_true_eq]
  constructor
  · intro h
    obtain ⟨hqueue, hpool⟩ := hlanes.mp h.lanes
    exact ⟨⟨⟨h.dispatch, hqueue⟩, hpool⟩, h.items, hworkers.mp h.workers⟩
  · rintro ⟨⟨⟨hdispatch, hqueue⟩, hpool⟩, hitems, hcount⟩
    exact ⟨hdispatch, hlanes.mpr ⟨hqueue, hpool⟩, hitems, hworkers.mpr hcount⟩

theorem firstCheck_iff {now interval : Nat} :
    (∃ due, (Heartbeat.start now interval).bind (·.due interval) = some due ∧
      due ≤ now + greatestDelaySecs * 1000) ↔ 0 < interval ∧ interval ≤ greatestDelaySecs * 1000 := by
  unfold Heartbeat.start
  by_cases h : interval = 0
  · simp [h]
  · simp only [if_neg h, Option.bind_some, Heartbeat.due, Option.some.injEq, exists_eq_left']
    omega

section Positive

variable {s : Settings} (hpos : ∀ p ∈ s.positives, p.2 ≠ 0)
include hpos

theorem word_pos (key : String) {x : UInt64} (hmem : (key, x) ∈ s.positives) : 0 < x.toNat :=
  Nat.pos_of_ne_zero fun h => hpos _ hmem (UInt64.toNat.inj h)

theorem server_makeable_iff (ids : IdentitySource) (shows : Bool) :
    (Server.create s ids shows).Makeable ↔ s.ServerWithinLimits := by
  have hdispatch : 0 < s.registry.dispatchChannelSize.toNat :=
    word_pos hpos "registry.dispatchChannelSize" (by simp [positives])
  have hjobs : 0 < s.registry.shardJobChannelSize.toNat :=
    word_pos hpos "registry.shardJobChannelSize" (by simp [positives])
  have hitems : 0 < s.merge.channelSize.toNat :=
    word_pos hpos "merge.channelSize" (by simp [positives])
  rw [makeable_iff_canRun]
  simp only [Server.canRun, RegistrySettings.canRun, MergeSettings.canRun, Bool.and_eq_true,
    decide_eq_true_eq, isQueueCapacity_iff, isPoolSize_iff]
  constructor
  · rintro ⟨⟨⟨⟨_, hd⟩, _, hj⟩, _⟩, ⟨_, hi⟩, hw⟩
    exact ⟨hd, hj, hi, hw⟩
  · rintro ⟨hd, hj, hi, hw⟩
    exact ⟨⟨⟨⟨hdispatch, hd⟩, hjobs, hj⟩, hj⟩, ⟨hitems, hi⟩, hw⟩

theorem sessions_makeable_iff : s.socket.Makeable ↔ s.SessionsWithinLimits := by
  have hin : 0 < s.socket.inChannelSize.toNat :=
    word_pos hpos "socket.inChannelSize" (by simp [positives])
  have hout : 0 < s.socket.outChannelSize.toNat :=
    word_pos hpos "socket.outChannelSize" (by simp [positives])
  have hsecs : 0 < s.socket.heartbeatIntervalSecs.toNat :=
    word_pos hpos "socket.heartbeatIntervalSecs" (by simp [positives])
  have hcheck : 0 < s.socket.heartbeatIntervalMs ∧
      s.socket.heartbeatIntervalMs ≤ greatestDelaySecs * 1000 ↔
        s.socket.heartbeatIntervalSecs.toNat ≤ greatestDelaySecs := by
    unfold SocketSettings.heartbeatIntervalMs
    omega
  constructor
  · intro h
    exact ⟨(isQueueCapacity_iff.mp (h.inbound ⟨0⟩ 0 true .open)).2,
      (isQueueCapacity_iff.mp (h.outbound ⟨0⟩ 0)).2, hcheck.mp (firstCheck_iff.mp (h.firstCheck 0))⟩
  · rintro ⟨hi, ho, hh⟩
    exact ⟨fun _ _ _ _ => isQueueCapacity_iff.mpr ⟨hin, hi⟩,
      fun _ _ => isQueueCapacity_iff.mpr ⟨hout, ho⟩, fun _ => firstCheck_iff.mpr (hcheck.mpr hh)⟩

end Positive

/-- Variables lead beyond no limit: those of a heartbeat and of workers are far below, and the others are
not about sizes. -/
theorem withinLimits_override (s : Settings) (env : Environment) :
    (s.ServerWithinLimits → (s.override env).ServerWithinLimits) ∧
    (s.SessionsWithinLimits → (s.override env).SessionsWithinLimits) := by
  have hover : Overridden env s (s.override env) := overridden_iff.mpr rfl
  constructor
  · rintro ⟨hdispatch, hjobs, hitems, hworkers⟩
    have hcount : (s.override env).merge.workerCount.toNat ≤ greatestWord - 1 :=
      hover.workers.bounded (by decide) (Nat.le_sub_one_of_lt hworkers)
    rw [hover.others]
    exact ⟨hdispatch, hjobs, hitems, Nat.lt_of_le_sub_one (by decide) hcount⟩
  · rintro ⟨hin, hout, hheartbeat⟩
    have hsecs : (s.override env).socket.heartbeatIntervalSecs.toNat ≤ greatestDelaySecs :=
      hover.heartbeat.bounded (by decide) hheartbeat
    rw [hover.others]
    exact ⟨hin, hout, hsecs⟩

end Settings

open Settings

/-- Settings that pass their check can be run within the limits and not beyond: there the program crashes.
The environment never leads there. -/
theorem checked_settings_run_within_limits {s : Settings} (hv : s.validate = .ok ()) :
    (∀ ids shows, (Server.create s ids shows).Makeable ↔ s.ServerWithinLimits) ∧
    (s.socket.Makeable ↔ s.SessionsWithinLimits) ∧
    (¬s.ServerWithinLimits → ∀ env outside seconds,
      ∃ log, Launch.run env outside seconds s = .ended ⟨Launch.crashCode, none, log⟩) ∧
    ∀ env, (s.ServerWithinLimits → ∀ ids shows, (Server.create (s.override env) ids shows).Makeable) ∧
      (s.SessionsWithinLimits → (s.override env).socket.Makeable) := by
  obtain ⟨hpos, _⟩ := validate_ok_iff.mp hv
  have hserver : Server.canRun s = true ↔ s.ServerWithinLimits :=
    (makeable_iff_canRun s ⟨0⟩ false).symm.trans (server_makeable_iff hpos ⟨0⟩ false)
  refine ⟨server_makeable_iff hpos, sessions_makeable_iff hpos, fun h env outside seconds => ?_,
    fun env => ?_⟩
  · exact ⟨_, if_neg (mt hserver.mp h)⟩
  · obtain ⟨hkept, hsessions⟩ := withinLimits_override s env
    have hlater : ∀ p ∈ (s.override env).positives, p.2 ≠ 0 := positives_override hpos
    exact ⟨fun h ids shows => (server_makeable_iff hlater ids shows).mpr (hkept h),
      fun h => (sessions_makeable_iff hlater).mpr (hsessions h)⟩

def settingsWithQueue (size : UInt64) : Settings :=
  { Settings.defaults with registry := { RegistrySettings.defaults with dispatchChannelSize := size } }

/-- With the greatest queue the server can be made, and with one place more the program crashes. -/
theorem queue_one_too_great :
    (settingsWithQueue 2305843009213693951).validate = .ok () ∧
    (∀ ids shows, (Server.create (settingsWithQueue 2305843009213693951) ids shows).Makeable) ∧
    (settingsWithQueue 2305843009213693952).validate = .ok () ∧
    ∀ env outside seconds, ∃ log,
      Launch.run env outside seconds (settingsWithQueue 2305843009213693952) =
        .ended ⟨Launch.crashCode, none, log⟩ := by
  have hfits : (settingsWithQueue 2305843009213693951).validate = .ok () := by decide
  have hexceeds : (settingsWithQueue 2305843009213693952).validate = .ok () := by decide
  obtain ⟨hmade, _⟩ := checked_settings_run_within_limits hfits
  obtain ⟨_, _, hcrash, _⟩ := checked_settings_run_within_limits hexceeds
  have hwithin : (settingsWithQueue 2305843009213693951).ServerWithinLimits :=
    ⟨by decide, by decide, by decide, by decide⟩
  have hbeyond : ¬(settingsWithQueue 2305843009213693952).ServerWithinLimits :=
    fun h => absurd h.dispatch (by decide)
  exact ⟨hfits, fun ids shows => (hmade ids shows).mpr hwithin, hexceeds, hcrash hbeyond⟩

/-- Not all settings that pass their check can be run: a queue may be too great to be made. -/
theorem checked_queue_too_great : ¬∀ s : Settings, s.validate = .ok () →
    ∀ ids shows, (Server.create s ids shows).Makeable ∧ s.socket.Makeable := by
  intro h
  obtain ⟨hmade, _⟩ := h (settingsWithQueue 2305843009213693952) (by decide) ⟨0⟩ false
  exact absurd hmade.dispatch (by decide)

end RoomCast
