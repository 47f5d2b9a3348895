import RoomCast.CommandLine
import RoomCast.Proofs.SettingsMerge
import RoomCast.Proofs.WordNumerals

namespace RoomCast

open RoomCast.Field

namespace Json

def text? : Json → Option String
  | .text s => some s
  | _ => none

def flag? : Json → Option Bool
  | .boolean b => some b
  | _ => none

def natural? (limit : Nat) : Json → Option Nat
  | .number (.integer i) => if 0 ≤ i ∧ i ≤ limit then some i.toNat else none
  | _ => none

end Json

namespace Settings

section Files

variable (ms : List (String × Json))

/-- The members of a section in a file; a section that is absent or `null` has none. -/
def sectionOf (name : String) : List (String × Json) :=
  match Json.under name ms with
  | some (.object part) => part
  | _ => []

/-- What a file says about a setting, unless that is `null`. -/
def said (name key : String) : Option Json := Json.under key (sectionOf ms name)

def saidText (name key : String) : Option String := (said ms name key).bind Json.text?

def saidPort (name key : String) : Option Nat := (said ms name key).bind (Json.natural? 65535)

def saidWord (name key : String) : Option Nat := (said ms name key).bind (Json.natural? greatestWord)

def saidFlag (name key : String) : Option Bool := (said ms name key).bind Json.flag?

/-- Whether what a file says about settings is an object for each section, and in it a text, a port, a
number of 64 bits or a truth value for each setting. -/
structure WellTyped : Prop where
  sections : ∀ name ∈ ["socket", "service", "registry", "merge", "logging"],
    ∀ v, Json.under name ms = some v → ∃ part, v = .object part
  texts : ∀ at_ ∈ [("socket", "host"), ("service", "host"), ("service", "tlsCertPath"),
      ("service", "tlsKeyPath"), ("logging", "level")],
    ∀ v, said ms at_.1 at_.2 = some v → v.text?.isSome
  ports : ∀ at_ ∈ [("socket", "port"), ("service", "port")],
    ∀ v, said ms at_.1 at_.2 = some v → (v.natural? 65535).isSome
  words : ∀ at_ ∈ [("socket", "readTimeoutMs"), ("socket", "writeTimeoutMs"),
      ("socket", "inChannelSize"), ("socket", "outChannelSize"), ("socket", "heartbeatIntervalSecs"),
      ("socket", "maxJoinRoom"), ("service", "readTimeoutMs"), ("service", "writeTimeoutMs"),
      ("registry", "shardCount"), ("registry", "dispatchChannelSize"),
      ("registry", "dispatchWorkerCount"), ("registry", "shardJobChannelSize"),
      ("registry", "shardJobWorkerCount"), ("merge", "workerCount"), ("merge", "channelSize"),
      ("merge", "maxDelayMs"), ("merge", "maxBatchSize")],
    ∀ v, said ms at_.1 at_.2 = some v → (v.natural? greatestWord).isSome
  flags : ∀ v, said ms "logging" "json" = some v → v.flag?.isSome

end Files

def setNumber (env : Environment) (name : String) (lo hi : Nat) : Option Nat :=
  (env name).bind (numeralBetween? lo hi)

def setText (env : Environment) (name : String) : Option String := (env name).filter (· ≠ "")

/-- Every setting by what comes first: the arguments, the environment, the members of a file, the
default. -/
def layered (logLevel : Option String) (jsonLogs : Bool) (env : Environment)
    (ms : List (String × Json)) : Settings where
  socket := {
    host := (saidText ms "socket" "host").getD "0.0.0.0"
    port := UInt16.ofNat
      ((setNumber env "FANOUT_SOCKET_PORT" 1 65535 <|> saidPort ms "socket" "port").getD 7777)
    readTimeoutMs := UInt64.ofNat ((saidWord ms "socket" "readTimeoutMs").getD 2000)
    writeTimeoutMs := UInt64.ofNat ((saidWord ms "socket" "writeTimeoutMs").getD 2000)
    inChannelSize := UInt64.ofNat ((saidWord ms "socket" "inChannelSize").getD 1000)
    outChannelSize := UInt64.ofNat ((saidWord ms "socket" "outChannelSize").getD 1000)
    heartbeatIntervalSecs := UInt64.ofNat ((setNumber env "FANOUT_HEARTBEAT_INTERVAL_SECS" 1 86400 <|>
      saidWord ms "socket" "heartbeatIntervalSecs").getD 60)
    maxJoinRoom := UInt64.ofNat ((setNumber env "FANOUT_MAX_JOIN_ROOM" 1 10000 <|>
      saidWord ms "socket" "maxJoinRoom").getD 5) }
  service := {
    host := (saidText ms "service" "host").getD "0.0.0.0"
    port := UInt16.ofNat
      ((setNumber env "FANOUT_SERVICE_PORT" 1 65535 <|> saidPort ms "service" "port").getD 7788)
    readTimeoutMs := UInt64.ofNat ((saidWord ms "service" "readTimeoutMs").getD 2000)
    writeTimeoutMs := UInt64.ofNat ((saidWord ms "service" "writeTimeoutMs").getD 2000)
    tlsCertPath := setText env "FANOUT_TLS_CERT" <|> saidText ms "service" "tlsCertPath"
    tlsKeyPath := setText env "FANOUT_TLS_KEY" <|> saidText ms "service" "tlsKeyPath" }
  registry := {
    shardCount := UInt64.ofNat ((setNumber env "FANOUT_SHARD_COUNT" 1 4096 <|>
      saidWord ms "registry" "shardCount").getD 16)
    dispatchChannelSize := UInt64.ofNat ((saidWord ms "registry" "dispatchChannelSize").getD 1000)
    dispatchWorkerCount := UInt64.ofNat ((saidWord ms "registry" "dispatchWorkerCount").getD 16)
    shardJobChannelSize := UInt64.ofNat ((saidWord ms "registry" "shardJobChannelSize").getD 1000)
    shardJobWorkerCount := UInt64.ofNat ((saidWord ms "registry" "shardJobWorkerCount").getD 2) }
  merge := {
    workerCount := UInt64.ofNat ((setNumber env "FANOUT_MERGE_WORKER_COUNT" 1 1024 <|>
      saidWord ms "merge" "workerCount").getD 8)
    channelSize := UInt64.ofNat ((saidWord ms "merge" "channelSize").getD 1000)
    maxDelayMs := UInt64.ofNat ((setNumber env "FANOUT_MERGE_MAX_DELAY_MS" 1 60000 <|>
      saidWord ms "merge" "maxDelayMs").getD 300)
    maxBatchSize := UInt64.ofNat ((setNumber env "FANOUT_MERGE_MAX_BATCH_SIZE" 1 100000 <|>
      saidWord ms "merge" "maxBatchSize").getD 100) }
  logging := {
    level := (logLevel <|> setText env "FANOUT_LOG_LEVEL" <|> saidText ms "logging" "level").getD "info"
    json := jsonLogs || (saidFlag ms "logging" "json").getD false }

section Reading

variable {α β : Type} {name : String} {codec : Codec β} {toJson : β → Option Json} {get : α → β}
  {put : α → β → α} {a : α} {o : Option Json}

theorem outcome_known (hput : ∀ a b, get (put a b) = b) {x : β} (hnone : o = none → x = get a)
    (hsome : ∀ v, o = some v → codec.ofJson v.pruned = .ok x) :
    (Field.of name codec toJson get put).outcome a (o.map Json.pruned) = .ok (toJson x) := by
  cases o with
  | none => exact congrArg (fun b => Except.ok (toJson b)) (hnone rfl).symm
  | some v =>
    rw [Option.map, outcome, of_ofJson (hsome v rfl)]
    exact congrArg (fun b => Except.ok (toJson b)) (hput a x)

theorem text_known {put : α → String → α} {get : α → String} (hput : ∀ a b, get (put a b) = b)
    (htyped : ∀ v, o = some v → v.text?.isSome) :
    (Field.of name .text textJson get put).outcome a (o.map Json.pruned) =
      .ok (textJson ((o.bind Json.text?).getD (get a))) := by
  refine outcome_known hput (fun h => by rw [h]; rfl) fun v hv => ?_
  obtain ⟨s, hs⟩ := Option.isSome_iff_exists.mp (htyped v hv)
  cases v <;> cases hs
  rw [hv]
  rfl

theorem path_known {put : α → Option String → α} {get : α → Option String}
    (hput : ∀ a b, get (put a b) = b) (ha : get a = none)
    (htyped : ∀ v, o = some v → v.text?.isSome) :
    (Field.of name .path pathJson get put).outcome a (o.map Json.pruned) =
      .ok (pathJson (o.bind Json.text?)) := by
  refine outcome_known hput (fun h => by rw [h, ha]; rfl) fun v hv => ?_
  obtain ⟨s, hs⟩ := Option.isSome_iff_exists.mp (htyped v hv)
  cases v <;> cases hs
  rw [hv]
  rfl

theorem flag_known {put : α → Bool → α} {get : α → Bool} (hput : ∀ a b, get (put a b) = b)
    (htyped : ∀ v, o = some v → v.flag?.isSome) :
    (Field.of name .boolean booleanJson get put).outcome a (o.map Json.pruned) =
      .ok (booleanJson ((o.bind Json.flag?).getD (get a))) := by
  refine outcome_known hput (fun h => by rw [h]; rfl) fun v hv => ?_
  obtain ⟨b, hb⟩ := Option.isSome_iff_exists.mp (htyped v hv)
  cases v <;> cases hb
  rw [hv]
  rfl

theorem number_known {expected : String} {limit n : Nat} {ofNat : Nat → β}
    (hput : ∀ a b, get (put a b) = b) (ha : get a = ofNat n)
    (htyped : ∀ v, o = some v → (v.natural? limit).isSome) :
    (Field.of name ((Codec.unsigned expected limit).map ofNat) toJson get put).outcome a
        (o.map Json.pruned) = .ok (toJson (ofNat ((o.bind (Json.natural? limit)).getD n))) := by
  refine outcome_known hput (fun h => by rw [h, ha]; rfl) fun v hv => ?_
  obtain ⟨m, hm⟩ := Option.isSome_iff_exists.mp (htyped v hv)
  rw [hv, Option.bind_some, hm]
  unfold Json.natural? at hm
  split at hm
  next i =>
    split at hm
    next hrange =>
      cases hm
      have hi : 0 ≤ i ∧ i.toNat ≤ limit := ⟨hrange.1, by omega⟩
      simp only [Json.pruned, Codec.map, Codec.unsigned, Codec.checkRange, if_pos hi, bind, Except.bind,
        pure, Except.pure, Option.getD_some]
    next => cases hm
  next => cases hm

end Reading

section Sections

variable {ms : List (String × Json)} (hms : (Json.object ms).Ordered) (htyped : WellTyped ms)

def ofFile (ms : List (String × Json)) : Settings := layered none false (fun _ => none) ms

include hms

theorem sectionOf_increasing (name : String) : Increasing (sectionOf ms name) := by
  unfold sectionOf
  split
  next part hpart => exact (Json.under_ordered hms hpart).1
  next => exact List.Pairwise.nil

theorem lookup_said (name key : String) :
    lookupMember key (Json.prunedMembers (sectionOf ms name)) = (said ms name key).map Json.pruned :=
  Json.lookup_prunedMembers (sectionOf_increasing hms name) key

include htyped

theorem socket_known : SocketSettings.codec.ofJson
    (.object (Json.prunedMembers (sectionOf ms "socket"))) = .ok (ofFile ms).socket := by
  refine SocketSettings.flat.layout.setMembers_eq
    (Json.prunedMembers_increasing (sectionOf_increasing hms "socket")) ?_
  simp only [SocketSettings.fields, List.forall_mem_cons, forall_mem_empty, and_true, lookup_said hms]
  exact ⟨text_known (fun _ _ => rfl) (htyped.texts ("socket", "host") (by decide)),
    number_known (fun _ _ => rfl) rfl (htyped.ports ("socket", "port") (by decide)),
    number_known (fun _ _ => rfl) rfl (htyped.words ("socket", "readTimeoutMs") (by decide)),
    number_known (fun _ _ => rfl) rfl (htyped.words ("socket", "writeTimeoutMs") (by decide)),
    number_known (fun _ _ => rfl) rfl (htyped.words ("socket", "inChannelSize") (by decide)),
    number_known (fun _ _ => rfl) rfl (htyped.words ("socket", "outChannelSize") (by decide)),
    number_known (fun _ _ => rfl) rfl (htyped.words ("socket", "heartbeatIntervalSecs") (by decide)),
    number_known (fun _ _ => rfl) rfl (htyped.words ("socket", "maxJoinRoom") (by decide))⟩

theorem service_known : ServiceSettings.codec.ofJson
    (.object (Json.prunedMembers (sectionOf ms "service"))) = .ok (ofFile ms).service := by
  refine ServiceSettings.flat.layout.setMembers_eq
    (Json.prunedMembers_increasing (sectionOf_increasing hms "service")) ?_
  simp only [ServiceSettings.fields, List.forall_mem_cons, forall_mem_empty, and_true, lookup_said hms]
  exact ⟨text_known (fun _ _ => rfl) (htyped.texts ("service", "host") (by decide)),
    number_known (fun _ _ => rfl) rfl (htyped.ports ("service", "port") (by decide)),
    number_known (fun _ _ => rfl) rfl (htyped.words ("service", "readTimeoutMs") (by decide)),
    number_known (fun _ _ => rfl) rfl (htyped.words ("service", "writeTimeoutMs") (by decide)),
    path_known (fun _ _ => rfl) rfl (htyped.texts ("service", "tlsCertPath") (by decide)),
    path_known (fun _ _ => rfl) rfl (htyped.texts ("service", "tlsKeyPath") (by decide))⟩

theorem registry_known : RegistrySettings.codec.ofJson
    (.object (Json.prunedMembers (sectionOf ms "registry"))) = .ok (ofFile ms).registry := by
  refine RegistrySettings.flat.layout.setMembers_eq
    (Json.prunedMembers_increasing (sectionOf_increasing hms "registry")) ?_
  simp only [RegistrySettings.fields, List.forall_mem_cons, forall_mem_empty, and_true, lookup_said hms]
  exact ⟨number_known (fun _ _ => rfl) rfl (htyped.words ("registry", "shardCount") (by decide)),
    number_known (fun _ _ => rfl) rfl (htyped.words ("registry", "dispatchChannelSize") (by decide)),
    number_known (fun _ _ => rfl) rfl (htyped.words ("registry", "dispatchWorkerCount") (by decide)),
    number_known (fun _ _ => rfl) rfl (htyped.words ("registry", "shardJobChannelSize") (by decide)),
    number_known (fun _ _ => rfl) rfl (htyped.words ("registry", "shardJobWorkerCount") (by decide))⟩

theorem merge_known : MergeSettings.codec.ofJson
    (.object (Json.prunedMembers (sectionOf ms "merge"))) = .ok (ofFile ms).merge := by
  refine MergeSettings.flat.layout.setMembers_eq
    (Json.prunedMembers_increasing (sectionOf_increasing hms "merge")) ?_
  simp only [MergeSettings.fields, List.forall_mem_cons, forall_mem_empty, and_true, lookup_said hms]
  exact ⟨number_known (fun _ _ => rfl) rfl (htyped.words ("merge", "workerCount") (by decide)),
    number_known (fun _ _ => rfl) rfl (htyped.words ("merge", "channelSize") (by decide)),
    number_known (fun _ _ => rfl) rfl (htyped.words ("merge", "maxDelayMs") (by decide)),
    number_known (fun _ _ => rfl) rfl (htyped.words ("merge", "maxBatchSize") (by decide))⟩

theorem logging_known : LoggingSettings.codec.ofJson
    (.object (Json.prunedMembers (sectionOf ms "logging"))) = .ok (ofFile ms).logging := by
  refine LoggingSettings.flat.layout.setMembers_eq
    (Json.prunedMembers_increasing (sectionOf_increasing hms "logging")) ?_
  simp only [LoggingSettings.fields, List.forall_mem_cons, forall_mem_empty, and_true, lookup_said hms]
  exact ⟨text_known (fun _ _ => rfl) (htyped.texts ("logging", "level") (by decide)),
    flag_known (fun _ _ => rfl) htyped.flags⟩

theorem section_known {σ : Type} {name title : String} {parts : List (Field σ)} {part x : σ}
    {toJson : σ → Option Json} {get : Settings → σ} {put : Settings → σ → Settings}
    (hname : name ∈ ["socket", "service", "registry", "merge", "logging"])
    (hput : ∀ a b, get (put a b) = b) (hget : get defaults = part)
    (hx : (Codec.record title part parts).ofJson
      (.object (Json.prunedMembers (sectionOf ms name))) = .ok x) :
    (Field.of name (.record title part parts) toJson get put).outcome defaults
        (lookupMember name (Json.prunedMembers ms)) = .ok (toJson x) := by
  rw [Json.lookup_prunedMembers hms.1]
  refine outcome_known hput (fun h => ?_) fun v hv => ?_
  · -- without a section nothing is set
    rw [sectionOf, h] at hx
    exact (Except.ok.inj hx).symm.trans hget.symm
  · obtain ⟨object, rfl⟩ := htyped.sections name hname v hv
    rw [sectionOf, hv] at hx
    exact hx

/-- A well-typed file is read, and makes the settings that it says. -/
theorem ofJson_file : ofJson (defaultsJson.overlay (.object ms)) = .ok (ofFile ms) := by
  refine layout.setMembers_eq (Json.overlayMembers_increasing (sortMembers_increasing _) ms) ?_
  intro f hf
  refine (outcome_overlaid hms f hf).trans ?_
  revert f
  simp only [fields, List.forall_mem_cons, forall_mem_empty, and_true]
  exact ⟨section_known hms htyped (by decide) (fun _ _ => rfl) rfl (socket_known hms htyped),
    section_known hms htyped (by decide) (fun _ _ => rfl) rfl (service_known hms htyped),
    section_known hms htyped (by decide) (fun _ _ => rfl) rfl (registry_known hms htyped),
    section_known hms htyped (by decide) (fun _ _ => rfl) rfl (merge_known hms htyped),
    section_known hms htyped (by decide) (fun _ _ => rfl) rfl (logging_known hms htyped)⟩

end Sections

section Overriding

variable {β : Type} {env : Environment} {s : Settings} (name : String) (get : Settings → β)
  (set : Settings → β → Settings)

theorem applyFrom_number (ofNat : Nat → β) {limit lo hi : Nat} {put : Settings → Nat → Settings}
    (hput : ∀ n, put s n = set s (ofNat n)) (hget : set s (get s) = s)
    (hfits : hi ≤ limit := by decide) :
    (Override.number name limit lo hi put).applyFrom env s =
      set s (((setNumber env name lo hi).map ofNat).getD (get s)) := by
  unfold Override.applyFrom Override.number setNumber
  cases env name with
  | none => exact hget.symm
  | some text =>
    simp only [Option.bind_some, wordBetween_eq hfits]
    cases numeralBetween? lo hi text with
    | none => exact hget.symm
    | some n => exact hput n

theorem applyFrom_text (ofText : String → β) {put : Settings → String → Settings}
    (hput : ∀ t, put s t = set s (ofText t)) (hget : set s (get s) = s) :
    (Override.text name put).applyFrom env s =
      set s (((setText env name).map ofText).getD (get s)) := by
  unfold Override.applyFrom Override.text setText
  cases env name with
  | none => exact hget.symm
  | some text =>
    by_cases htext : text = ""
    · simpa [htext, Option.filter] using hget.symm
    · simpa [htext, Option.filter] using hput text

theorem number_first (ofNat : Nat → β) (o p : Option Nat) (n : Nat) :
    (o.map ofNat).getD (ofNat (p.getD n)) = ofNat ((o <|> p).getD n) := by
  cases o <;> rfl

theorem text_first (o p : Option String) (t : String) :
    (o.map id).getD (p.getD t) = (o <|> p).getD t := by
  cases o <;> rfl

theorem path_first (o p : Option String) : (o.map some).getD p = (o <|> p) := by
  cases o <;> rfl

theorem setNumber_unset (name : String) (lo hi : Nat) : setNumber (fun _ => none) name lo hi = none :=
  rfl

theorem setText_unset (name : String) : setText (fun _ => none) name = none := rfl

theorem none_first {γ : Type} (o : Option γ) : (none <|> o) = o := rfl

end Overriding

def withVariables (s : Settings) (env : Environment) : Settings where
  socket := { s.socket with
    port := ((setNumber env "FANOUT_SOCKET_PORT" 1 65535).map UInt16.ofNat).getD s.socket.port
    heartbeatIntervalSecs := ((setNumber env "FANOUT_HEARTBEAT_INTERVAL_SECS" 1 86400).map
      UInt64.ofNat).getD s.socket.heartbeatIntervalSecs
    maxJoinRoom := ((setNumber env "FANOUT_MAX_JOIN_ROOM" 1 10000).map
      UInt64.ofNat).getD s.socket.maxJoinRoom }
  service := { s.service with
    port := ((setNumber env "FANOUT_SERVICE_PORT" 1 65535).map UInt16.ofNat).getD s.service.port
    tlsCertPath := ((setText env "FANOUT_TLS_CERT").map some).getD s.service.tlsCertPath
    tlsKeyPath := ((setText env "FANOUT_TLS_KEY").map some).getD s.service.tlsKeyPath }
  registry := { s.registry with
    shardCount := ((setNumber env "FANOUT_SHARD_COUNT" 1 4096).map
      UInt64.ofNat).getD s.registry.shardCount }
  merge := { s.merge with
    workerCount := ((setNumber env "FANOUT_MERGE_WORKER_COUNT" 1 1024).map
      UInt64.ofNat).getD s.merge.workerCount
    maxDelayMs := ((setNumber env "FANOUT_MERGE_MAX_DELAY_MS" 1 60000).map
      UInt64.ofNat).getD s.merge.maxDelayMs
    maxBatchSize := ((setNumber env "FANOUT_MERGE_MAX_BATCH_SIZE" 1 100000).map
      UInt64.ofNat).getD s.merge.maxBatchSize }
  logging := { s.logging with
    level := ((setText env "FANOUT_LOG_LEVEL").map id).getD s.logging.level }

/-- One variable after another, each sets its own setting. -/
theorem override_eq (s : Settings) (env : Environment) : s.override env = s.withVariables env := by
  simp only [override, overrides, List.foldl_cons, List.foldl_nil]
  rw [applyFrom_number "FANOUT_SOCKET_PORT" (·.socket.port)
      (fun s x => { s with socket := { s.socket with port := x } }) UInt16.ofNat (by intro x; rfl) rfl,
    applyFrom_number "FANOUT_SERVICE_PORT" (·.service.port)
      (fun s x => { s with service := { s.service with port := x } })
      UInt16.ofNat (by intro x; rfl) rfl,
    applyFrom_text "FANOUT_TLS_CERT" (·.service.tlsCertPath)
      (fun s x => { s with service := { s.service with tlsCertPath := x } })
      some (by intro x; rfl) rfl,
    applyFrom_text "FANOUT_TLS_KEY" (·.service.tlsKeyPath)
      (fun s x => { s with service := { s.service with tlsKeyPath := x } }) some (by intro x; rfl) rfl,
    applyFrom_number "FANOUT_HEARTBEAT_INTERVAL_SECS" (·.socket.heartbeatIntervalSecs)
      (fun s x => { s with socket := { s.socket with heartbeatIntervalSecs := x } })
      UInt64.ofNat (by intro x; rfl) rfl,
    applyFrom_number "FANOUT_MAX_JOIN_ROOM" (·.socket.maxJoinRoom)
      (fun s x => { s with socket := { s.socket with maxJoinRoom := x } })
      UInt64.ofNat (by intro x; rfl) rfl,
    applyFrom_number "FANOUT_SHARD_COUNT" (·.registry.shardCount)
      (fun s x => { s with registry := { s.registry with shardCount := x } })
      UInt64.ofNat (by intro x; rfl) rfl,
    applyFrom_number "FANOUT_MERGE_WORKER_COUNT" (·.merge.workerCount)
      (fun s x => { s with merge := { s.merge with workerCount := x } })
      UInt64.ofNat (by intro x; rfl) rfl,
    applyFrom_number "FANOUT_MERGE_MAX_DELAY_MS" (·.merge.maxDelayMs)
      (fun s x => { s with merge := { s.merge with maxDelayMs := x } })
      UInt64.ofNat (by intro x; rfl) rfl,
    applyFrom_number "FANOUT_MERGE_MAX_BATCH_SIZE" (·.merge.maxBatchSize)
      (fun s x => { s with merge := { s.merge with maxBatchSize := x } })
      UInt64.ofNat (by intro x; rfl) rfl,
    applyFrom_text "FANOUT_LOG_LEVEL" (·.logging.level)
      (fun s x => { s with logging := { s.logging with level := x } }) id (by intro x; rfl) rfl]
  rfl

theorem ofFile_override (env : Environment) (ms : List (String × Json)) :
    (ofFile ms).override env = layered none false env ms := by
  rw [override_eq]
  simp only [withVariables, ofFile, layered, setNumber_unset, setText_unset, none_first,
    number_first UInt16.ofNat, number_first UInt64.ofNat, text_first, path_first]

theorem layered_apply (line : CommandLine) (env : Environment) (ms : List (String × Json)) :
    line.apply (layered none false env ms) = layered line.logLevel line.jsonLogs env ms := by
  have hlevel : ∀ o p : Option String, o.getD (p.getD "info") = (o <|> p).getD "info" := by
    intro o p
    cases o <;> rfl
  simp only [CommandLine.apply, layered, none_first, hlevel, Bool.false_or]

end Settings

/-- Of a well-typed file every setting is that of the arguments, else of an acceptable variable, else of
the file, else the default. -/
theorem settings_come_in_layers {look : String → FileEntry} {env : Environment} {line : CommandLine}
    {path text : String} {content : ByteArray} {ms : List (String × Json)}
    (hpath : settingsPath look env line.config = some path) (hfile : look path = .file content)
    (htext : String.fromUTF8? content = some text) (hparse : Json.parse text = .ok (.object ms))
    (htyped : Settings.WellTyped ms) :
    (∀ s, line.load look env = .ok s → s = Settings.layered line.logLevel line.jsonLogs env ms) ∧
    ((∃ s, line.load look env = .ok s) ↔ (Settings.layered none false env ms).validate = .ok ()) ∧
    ∀ cause, (Settings.layered none false env ms).validate = .error cause →
      line.load look env = .error (.invalid cause) := by
  have hread := Settings.ofJson_file (Json.parse_ordered hparse) htyped
  have hload : line.load look env =
      ((Settings.layered none false env ms).validate.mapError SettingsError.invalid).map
        fun _ => Settings.layered line.logLevel line.jsonLogs env ms := by
    simp only [CommandLine.load, loadSettings, hpath, hfile, readSettingsText, htext, settingsOfText,
      hparse, settleSettings, hread, Except.mapError, bind, Except.bind, pure, Except.pure,
      Settings.ofFile_override]
    cases (Settings.layered none false env ms).validate with
    | error cause => rfl
    | ok _ => exact congrArg Except.ok (Settings.layered_apply line env ms)
  rw [hload]
  cases (Settings.layered none false env ms).validate with
  | error cause => simp [Except.mapError, Except.map]
  | ok _ => simp [Except.mapError, Except.map]

/-- A delay that a file sets to nothing is rescued by its variable, and a port that no one can listen on
leaves the default. -/
theorem layers_rescue_delay :
    (⟨some "fanout.json", some "debug", true⟩ : CommandLine).load
        (fun _ => .file "\x7b\"merge\":\x7b\"maxDelayMs\":0\x7d\x7d".toUTF8)
        (fun name => if name = "FANOUT_MERGE_MAX_DELAY_MS" then some "25"
          else if name = "FANOUT_SOCKET_PORT" then some "0" else none) =
      .ok { Settings.defaults with
        merge := { MergeSettings.defaults with maxDelayMs := 25 }
        logging := ⟨"debug", true⟩ } := by
  have htext : String.fromUTF8? "\x7b\"merge\":\x7b\"maxDelayMs\":0\x7d\x7d".toUTF8 =
      some "\x7b\"merge\":\x7b\"maxDelayMs\":0\x7d\x7d" := by decide +kernel
  have hparse : Json.parse "\x7b\"merge\":\x7b\"maxDelayMs\":0\x7d\x7d" =
      .ok (.object [("merge", .object [("maxDelayMs", .number (.integer 0))])]) := by
    simp [Json.parse, Json.parseEmbedded, Reader.readAll, Json.readWithin, Json.readObject, nextKey,
      skipBlanks, isBlank, readText, readLiteral, LiteralSpot.move, readColon, embeddedKey, nestingLimit,
      readMembers, closeObject, finishText, bind, Except.bind, pure, Except.pure, readNumber,
      readNumberTail, Significand.toNumber]
  have htyped : Settings.WellTyped
      [("merge", .object [("maxDelayMs", .number (.integer 0))])] := by
    constructor
    case flags => rintro v ⟨⟩
    all_goals
      simp only [List.forall_mem_cons, forall_mem_empty, and_true]
      and_intros <;> rintro v ⟨⟩ <;> first | rfl | exact ⟨_, rfl⟩
  obtain ⟨hlayers, hloads, _⟩ := @settings_come_in_layers
    (fun _ => .file "\x7b\"merge\":\x7b\"maxDelayMs\":0\x7d\x7d".toUTF8)
    (fun name => if name = "FANOUT_MERGE_MAX_DELAY_MS" then some "25"
      else if name = "FANOUT_SOCKET_PORT" then some "0" else none)
    ⟨some "fanout.json", some "debug", true⟩ "fanout.json" _ _ _ rfl rfl htext hparse htyped
  obtain ⟨s, hs⟩ := hloads.mpr rfl
  rw [hs, hlayers s hs]
  rfl

end RoomCast
