import Mathlib.Logic.Basic
import RoomCast.Proofs.SettingsLayers

namespace RoomCast

/-- Whether a variable holds a numeral for a number between two bounds. -/
def HoldsNumber (env : Environment) (name : String) (lo hi n : Nat) : Prop :=
  ∃ text, env name = some text ∧ SpellsNumber text n ∧ lo ≤ n ∧ n ≤ hi

def HoldsText (env : Environment) (name text : String) : Prop := env name = some text ∧ text ≠ ""

/-- Whether something has become what is held, or has stayed as it was because nothing is held. -/
def Replaced {α : Type} (held : α → Prop) (before after : α) : Prop :=
  held after ∨ (∀ a, ¬held a) ∧ after = before

section Replacing

variable {α : Type} {held : α → Prop} {before after : α}

theorem replaced_iff {o : Option α} (h : ∀ a, o = some a ↔ held a) :
    Replaced held before after ↔ after = o.getD before := by
  unfold Replaced
  cases o with
  | none =>
    have hnone : ∀ a, ¬held a := fun a ha => by cases (h a).mpr ha
    exact ⟨fun hr => (hr.resolve_left (hnone after)).2, fun he => .inr ⟨hnone, he⟩⟩
  | some b =>
    have hheld : held b := (h b).mp rfl
    constructor
    · rintro (ha | ⟨hnone, _⟩)
      · exact (Option.some.inj ((h after).mpr ha)).symm
      · exact absurd hheld (hnone b)
    · rintro rfl
      exact .inl hheld

theorem Replaced.again (h : Replaced held before after) : Replaced held after after :=
  h.imp_right fun ⟨hnone, _⟩ => ⟨hnone, rfl⟩

end Replacing

namespace Settings

section Holding

variable {env : Environment} {name : String}

theorem setNumber_iff {lo hi : Nat} (n : Nat) :
    setNumber env name lo hi = some n ↔ HoldsNumber env name lo hi n := by
  rw [setNumber, Option.bind_eq_some_iff]
  exact exists_congr fun text => and_congr_right fun _ => numeralBetween_iff

theorem setText_iff (text : String) : setText env name = some text ↔ HoldsText env name text := by
  rw [setText, Option.filter_eq_some_iff, decide_eq_true_iff]
  exact Iff.rfl

theorem number_replaced {β : Type} {ofNat : Nat → β} {toNat : β → Nat} {limit lo hi : Nat}
    (hof : ∀ b, ofNat (toNat b) = b) (hto : ∀ n ≤ limit, toNat (ofNat n) = n) (hle : hi ≤ limit)
    {b c : β} : Replaced (HoldsNumber env name lo hi) (toNat b) (toNat c) ↔
      c = ((setNumber env name lo hi).map ofNat).getD b := by
  rw [replaced_iff setNumber_iff]
  cases hn : setNumber env name lo hi with
  | none => exact ⟨fun he => by rw [← hof c, ← hof b]; exact congrArg ofNat he, congrArg toNat⟩
  | some n =>
    obtain ⟨_, _, _, _, hhi⟩ := (setNumber_iff n).mp hn
    constructor
    · intro he
      rw [← hof c]
      exact congrArg ofNat he
    · rintro rfl
      exact hto n (Nat.le_trans hhi hle)

theorem port_replaced {hi : Nat} {p q : UInt16} (hle : hi ≤ 65535) :
    Replaced (HoldsNumber env name 1 hi) p.toNat q.toNat ↔
      q = ((setNumber env name 1 hi).map UInt16.ofNat).getD p :=
  number_replaced (fun _ => UInt16.ofNat_toNat)
    (fun _ h => UInt16.toNat_ofNat_of_lt' (Nat.lt_succ_of_le h)) hle

theorem word_replaced {hi : Nat} {x y : UInt64} (hle : hi ≤ greatestWord) :
    Replaced (HoldsNumber env name 1 hi) x.toNat y.toNat ↔
      y = ((setNumber env name 1 hi).map UInt64.ofNat).getD x :=
  number_replaced (fun _ => UInt64.ofNat_toNat)
    (fun _ h => UInt64.toNat_ofNat_of_lt' (Nat.lt_succ_of_le h)) hle

theorem path_replaced {p q : Option String} :
    Replaced (fun path => ∃ text, HoldsText env name text ∧ path = some text) p q ↔
      q = ((setText env name).map some).getD p := by
  refine replaced_iff fun path => ?_
  rw [Option.map_eq_some_iff]
  exact exists_congr fun text => and_congr (setText_iff text) eq_comm

theorem text_replaced {p q : String} :
    Replaced (HoldsText env name) p q ↔ q = ((setText env name).map id).getD p := by
  rw [Option.map_id_fun, id]
  exact replaced_iff setText_iff

end Holding

/-- Whether some settings are others under an environment: the numbers, paths and texts that have
variables are what these hold, or what they were, and everything else is what it was. -/
structure Overridden (env : Environment) (s t : Settings) : Prop where
  socketPort : Replaced (HoldsNumber env "FANOUT_SOCKET_PORT" 1 65535)
    s.socket.port.toNat t.socket.port.toNat
  servicePort : Replaced (HoldsNumber env "FANOUT_SERVICE_PORT" 1 65535)
    s.service.port.toNat t.service.port.toNat
  certificate : Replaced (fun path => ∃ text, HoldsText env "FANOUT_TLS_CERT" text ∧ path = some text)
    s.service.tlsCertPath t.service.tlsCertPath
  key : Replaced (fun path => ∃ text, HoldsText env "FANOUT_TLS_KEY" text ∧ path = some text)
    s.service.tlsKeyPath t.service.tlsKeyPath
  heartbeat : Replaced (HoldsNumber env "FANOUT_HEARTBEAT_INTERVAL_SECS" 1 86400)
    s.socket.heartbeatIntervalSecs.toNat t.socket.heartbeatIntervalSecs.toNat
  rooms : Replaced (HoldsNumber env "FANOUT_MAX_JOIN_ROOM" 1 10000)
    s.socket.maxJoinRoom.toNat t.socket.maxJoinRoom.toNat
  shards : Replaced (HoldsNumber env "FANOUT_SHARD_COUNT" 1 4096)
    s.registry.shardCount.toNat t.registry.shardCount.toNat
  workers : Replaced (HoldsNumber env "FANOUT_MERGE_WORKER_COUNT" 1 1024)
    s.merge.workerCount.toNat t.merge.workerCount.toNat
  delay : Replaced (HoldsNumber env "FANOUT_MERGE_MAX_DELAY_MS" 1 60000)
    s.merge.maxDelayMs.toNat t.merge.maxDelayMs.toNat
  batch : Replaced (HoldsNumber env "FANOUT_MERGE_MAX_BATCH_SIZE" 1 100000)
    s.merge.maxBatchSize.toNat t.merge.maxBatchSize.toNat
  level : Replaced (HoldsText env "FANOUT_LOG_LEVEL") s.logging.level t.logging.level
  others : t =
    { socket := { s.socket with
        port := t.socket.port
        heartbeatIntervalSecs := t.socket.heartbeatIntervalSecs
        maxJoinRoom := t.socket.maxJoinRoom }
      service := { s.service with
        port := t.service.port
        tlsCertPath := t.service.tlsCertPath
        tlsKeyPath := t.service.tlsKeyPath }
      registry := { s.registry with shardCount := t.registry.shardCount }
      merge := { s.merge with
        workerCount := t.merge.workerCount
        maxDelayMs := t.merge.maxDelayMs
        maxBatchSize := t.merge.maxBatchSize }
      logging := { s.logging with level := t.logging.level } }

theorem overridden_iff {env : Environment} {s t : Settings} :
    Overridden env s t ↔ t = s.override env := by
  rw [override_eq]
  constructor
  · intro h
    refine h.others.trans ?_
    rw [(port_replaced (by decide)).mp h.socketPort, (port_replaced (by decide)).mp h.servicePort,
      path_replaced.mp h.certificate, path_replaced.mp h.key,
      (word_replaced (by decide)).mp h.heartbeat, (word_replaced (by decide)).mp h.rooms,
      (word_replaced (by decide)).mp h.shards, (word_replaced (by decide)).mp h.workers,
      (word_replaced (by decide)).mp h.delay, (word_replaced (by decide)).mp h.batch,
      text_replaced.mp h.level]
    rfl
  · rintro rfl
    exact {
      socketPort := (port_replaced (by decide)).mpr rfl
      servicePort := (port_replaced (by decide)).mpr rfl
      certificate := path_replaced.mpr rfl
      key := path_replaced.mpr rfl
      heartbeat := (word_replaced (by decide)).mpr rfl
      rooms := (word_replaced (by decide)).mpr rfl
      shards := (word_replaced (by decide)).mpr rfl
      workers := (word_replaced (by decide)).mpr rfl
      delay := (word_replaced (by decide)).mpr rfl
      batch := (word_replaced (by decide)).mpr rfl
      level := text_replaced.mpr rfl
      others := rfl }

theorem Overridden.again {env : Environment} {s t : Settings} (h : Overridden env s t) :
    Overridden env t t :=
  ⟨h.socketPort.again, h.servicePort.again, h.certificate.again, h.key.again, h.heartbeat.again,
    h.rooms.again, h.shards.again, h.workers.again, h.delay.again, h.batch.again, h.level.again, rfl⟩

/-- Each variable with the setting that is its own, as the first settings with this one of the second. -/
def ownSettings : List (String × (Settings → Settings → Settings)) := [
  ("FANOUT_SOCKET_PORT", fun s t => { s with socket := { s.socket with port := t.socket.port } }),
  ("FANOUT_SERVICE_PORT", fun s t => { s with service := { s.service with port := t.service.port } }),
  ("FANOUT_TLS_CERT",
    fun s t => { s with service := { s.service with tlsCertPath := t.service.tlsCertPath } }),
  ("FANOUT_TLS_KEY",
    fun s t => { s with service := { s.service with tlsKeyPath := t.service.tlsKeyPath } }),
  ("FANOUT_HEARTBEAT_INTERVAL_SECS", fun s t => { s with
    socket := { s.socket with heartbeatIntervalSecs := t.socket.heartbeatIntervalSecs } }),
  ("FANOUT_MAX_JOIN_ROOM",
    fun s t => { s with socket := { s.socket with maxJoinRoom := t.socket.maxJoinRoom } }),
  ("FANOUT_SHARD_COUNT",
    fun s t => { s with registry := { s.registry with shardCount := t.registry.shardCount } }),
  ("FANOUT_MERGE_WORKER_COUNT",
    fun s t => { s with merge := { s.merge with workerCount := t.merge.workerCount } }),
  ("FANOUT_MERGE_MAX_DELAY_MS",
    fun s t => { s with merge := { s.merge with maxDelayMs := t.merge.maxDelayMs } }),
  ("FANOUT_MERGE_MAX_BATCH_SIZE",
    fun s t => { s with merge := { s.merge with maxBatchSize := t.merge.maxBatchSize } }),
  ("FANOUT_LOG_LEVEL", fun s t => { s with logging := { s.logging with level := t.logging.level } })]

theorem ownSettings_names : ownSettings.map (·.1) = overrides.map (·.name) := rfl

/-- Environments that differ in one variable make settings that differ in its own setting at most. -/
theorem override_own (s : Settings) (env env' : Environment) : ∀ v ∈ ownSettings,
    (∀ name, name ≠ v.1 → env' name = env name) →
      s.override env' = v.2 (s.override env) (s.override env') := by
  simp only [ownSettings, List.forall_mem_cons, forall_mem_empty, and_true, override_eq]
  and_intros <;> intro hsame <;>
    simp (disch := decide) only [withVariables, setNumber, setText, hsame]

section Validity

variable {s : Settings} {env : Environment}

theorem validate_of_positive (h : ∀ p ∈ s.positives, p.2 ≠ 0) : s.validate =
    if s.service.tlsCertPath.isSome = s.service.tlsKeyPath.isSome then .ok ()
    else .error .unpairedTls := by
  have hnone : s.positives.find? (fun p => p.2 = 0) = none :=
    List.find?_eq_none.mpr fun p hp => by simpa using h p hp
  rw [validate, hnone]

theorem validate_ok_iff : s.validate = .ok () ↔
    (∀ p ∈ s.positives, p.2 ≠ 0) ∧ s.service.tlsCertPath.isSome = s.service.tlsKeyPath.isSome := by
  constructor
  · intro h
    have hpos : ∀ p ∈ s.positives, p.2 ≠ 0 := by
      unfold validate at h
      split at h
      next => cases h
      next hnone => exact fun p hp => by simpa using List.find?_eq_none.mp hnone p hp
    rw [validate_of_positive hpos] at h
    split at h
    next hpair => exact ⟨hpos, hpair⟩
    next => cases h
  · rintro ⟨hpos, hpair⟩
    rw [validate_of_positive hpos, if_pos hpair]

theorem word_positive {name : String} {hi : Nat} {x : UInt64} (hle : hi ≤ greatestWord) (hx : x ≠ 0) :
    ((setNumber env name 1 hi).map UInt64.ofNat).getD x ≠ 0 := by
  cases hn : setNumber env name 1 hi with
  | none => exact hx
  | some n =>
    obtain ⟨_, _, _, hlo, hhi⟩ := (setNumber_iff n).mp hn
    intro hzero
    have hnat : (UInt64.ofNat n).toNat = 0 := congrArg UInt64.toNat hzero
    rw [UInt64.toNat_ofNat_of_lt' (Nat.lt_succ_of_le (Nat.le_trans hhi hle))] at hnat
    omega

theorem positives_override (h : ∀ p ∈ s.positives, p.2 ≠ 0) :
    ∀ p ∈ (s.override env).positives, p.2 ≠ 0 := by
  rw [override_eq]
  simp only [positives, withVariables, List.forall_mem_cons, forall_mem_empty, and_true] at h ⊢
  obtain ⟨h1, h2, hheartbeat, h4, h5, hdelay, h7, h8, hrooms, hshards, h11, h12, h13, h14, hworkers, h16,
    hbatch⟩ := h
  exact ⟨h1, h2, word_positive (by decide) hheartbeat, h4, h5, word_positive (by decide) hdelay, h7, h8,
    word_positive (by decide) hrooms, word_positive (by decide) hshards, h11, h12, h13, h14,
    word_positive (by decide) hworkers, h16, word_positive (by decide) hbatch⟩

theorem path_isSome {name : String} {p : Option String} :
    (((setText env name).map some).getD p).isSome = true ↔
      p.isSome = true ∨ ∃ text, HoldsText env name text := by
  cases ht : setText env name with
  | none =>
    have hnone : ¬∃ text, HoldsText env name text := fun ⟨text, h⟩ => by
      cases ht.symm.trans ((setText_iff text).mpr h)
    exact (or_iff_left hnone).symm
  | some text => exact iff_of_true rfl (.inr ⟨text, (setText_iff text).mp ht⟩)

end Validity

/-- Whether settings without paths get one of the two from an environment, and not the other. -/
def GetsHalfPair (env : Environment) (s : Settings) : Prop :=
  s.service.tlsCertPath = none ∧ s.service.tlsKeyPath = none ∧
    ((∃ text, HoldsText env "FANOUT_TLS_CERT" text) ↔ ¬∃ text, HoldsText env "FANOUT_TLS_KEY" text)

theorem paired_override {s : Settings} {env : Environment}
    (h : s.service.tlsCertPath.isSome = s.service.tlsKeyPath.isSome) :
    (s.override env).service.tlsCertPath.isSome = (s.override env).service.tlsKeyPath.isSome ↔
      ¬GetsHalfPair env s := by
  rw [override_eq, Bool.eq_iff_iff]
  refine (iff_congr path_isSome path_isSome).trans ?_
  unfold GetsHalfPair
  cases hcert : s.service.tlsCertPath with
  | none =>
    have hkey : s.service.tlsKeyPath = none := by
      rwa [hcert, Option.isSome_none, eq_comm, Option.isSome_eq_false_iff,
        Option.isNone_iff_eq_none] at h
    simp only [hkey, Option.isSome_none, Bool.false_eq_true, false_or, true_and]
    rw [not_iff, not_iff_not]
  | some cert =>
    have hkey : s.service.tlsKeyPath.isSome = true := by rw [← h, hcert]; rfl
    simp [hkey]

end Settings

open Settings

/-- Each of the eleven variables changes its own setting alone, to what it acceptably holds, and a second
round changes nothing. -/
theorem variables_override_their_settings (s : Settings) (env : Environment) :
    (∀ t, Overridden env s t ↔ t = s.override env) ∧
    ownSettings.map (·.1) = overrides.map (·.name) ∧
    (∀ v ∈ ownSettings, ∀ env', (∀ name, name ≠ v.1 → env' name = env name) →
      s.override env' = v.2 (s.override env) (s.override env')) ∧
    (s.override env).override env = s.override env := by
  have hover : Overridden env s (s.override env) := overridden_iff.mpr rfl
  exact ⟨fun _ => overridden_iff, ownSettings_names, fun v hv env' hsame => override_own s env env' v hv hsame,
    (overridden_iff.mp hover.again).symm⟩

def variablesOf (vars : List (String × String)) : Environment := fun name => vars.lookup name

def oddVariables : Environment := variablesOf [
  ("FANOUT_SOCKET_PORT", "+00000000000000000000000000000000009001"),
  ("FANOUT_SERVICE_PORT", "65537"),
  ("FANOUT_SHARD_COUNT", "18446744073709551617"),
  ("FANOUT_MERGE_MAX_BATCH_SIZE", "++5"),
  ("FANOUT_LOG_LEVEL", "")]

/-- The odd variables set the port alone, and without its variable nothing. -/
theorem odd_variables_set_a_port :
    Settings.defaults.override oddVariables =
      { Settings.defaults with socket := { SocketSettings.defaults with port := 9001 } } ∧
    Settings.defaults.override
      (fun name => if name = "FANOUT_SOCKET_PORT" then none else oddVariables name) =
        Settings.defaults := by
  obtain ⟨_, _, hown, _⟩ := variables_override_their_settings Settings.defaults oddVariables
  have hodd : Settings.defaults.override oddVariables =
      { Settings.defaults with socket := { SocketSettings.defaults with port := 9001 } } := by decide
  have hport := hown _ List.mem_cons_self
    (fun name => if name = "FANOUT_SOCKET_PORT" then none else oddVariables name)
    fun name hname => if_neg hname
  refine ⟨hodd, hport.trans ?_⟩
  rw [hodd]
  decide

/-- Valid settings are valid under any variables, but for those that give a certificate or a key alone to
settings that have neither; and it does not matter what other variables hold. -/
theorem overrides_keep_settings_valid {s : Settings} (hv : s.validate = .ok ()) (env : Environment) :
    (¬GetsHalfPair env s → (s.override env).validate = .ok ()) ∧
    (GetsHalfPair env s → (s.override env).validate = .error .unpairedTls) ∧
    ∀ env', env' "FANOUT_TLS_CERT" = env "FANOUT_TLS_CERT" →
      env' "FANOUT_TLS_KEY" = env "FANOUT_TLS_KEY" →
        (s.override env').validate = (s.override env).validate := by
  obtain ⟨hpos, hpair⟩ := validate_ok_iff.mp hv
  have hwhole : ∀ env : Environment, ¬GetsHalfPair env s → (s.override env).validate = .ok () :=
    fun env h => (validate_of_positive (positives_override hpos)).trans
      (if_pos ((paired_override hpair).mpr h))
  have hhalf : ∀ env : Environment, GetsHalfPair env s →
      (s.override env).validate = .error .unpairedTls :=
    fun env h => (validate_of_positive (positives_override hpos)).trans
      (if_neg fun hp => (paired_override hpair).mp hp h)
  refine ⟨hwhole env, hhalf env, fun env' hcert hkey => ?_⟩
  have hsame : GetsHalfPair env' s ↔ GetsHalfPair env s := by
    unfold GetsHalfPair HoldsText
    rw [hcert, hkey]
  by_cases h : GetsHalfPair env s
  · rw [hhalf env h, hhalf env' (hsame.mpr h)]
  · rw [hwhole env h, hwhole env' (mt hsame.mp h)]

/-- A key without a certificate spoils the defaults, whatever the number of shards. -/
theorem lone_key_spoils_defaults :
    Settings.defaults.validate = .ok () ∧
    (Settings.defaults.override (variablesOf [("FANOUT_TLS_KEY", "key.pem")])).validate =
      .error .unpairedTls ∧
    (Settings.defaults.override
      (variablesOf [("FANOUT_TLS_KEY", "key.pem"), ("FANOUT_SHARD_COUNT", "4096")])).validate =
        .error .unpairedTls ∧
    (Settings.defaults.override (variablesOf [("FANOUT_SHARD_COUNT", "0")])).validate = .ok () := by
  have hvalid : Settings.defaults.validate = .ok () := by decide
  obtain ⟨_, hhalf, hother⟩ :=
    overrides_keep_settings_valid hvalid (variablesOf [("FANOUT_TLS_KEY", "key.pem")])
  obtain ⟨hwhole, _, _⟩ :=
    overrides_keep_settings_valid hvalid (variablesOf [("FANOUT_SHARD_COUNT", "0")])
  have hlone : GetsHalfPair (variablesOf [("FANOUT_TLS_KEY", "key.pem")]) Settings.defaults :=
    ⟨rfl, rfl, fun ⟨_, h, _⟩ => by simp [variablesOf] at h,
      fun h => (h ⟨"key.pem", rfl, by decide⟩).elim⟩
  have hkey := hhalf hlone
  refine ⟨hvalid, hkey, (hother _ rfl rfl).trans hkey, hwhole fun ⟨_, _, h⟩ => ?_⟩
  obtain ⟨_, hcert, _⟩ := h.mpr fun ⟨_, hkey, _⟩ => by simp [variablesOf] at hkey
  simp [variablesOf] at hcert

end RoomCast
