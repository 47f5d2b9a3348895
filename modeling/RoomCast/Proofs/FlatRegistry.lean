import Mathlib.Data.Finset.Image
import RoomCast.Proofs.RegistryDelivery
import RoomCast.Proofs.RegistryUnion

namespace RoomCast

/-- A call to a registry, or to one of the connections that have been made. -/
inductive RegistryCall where
  | connect (id : ConnectionId) (limits : ConnectionLimits) (now : Nat)
  /-- The connection on a seat is handed to the registry, perhaps not for the first time. -/
  | add (seat : Nat)
  | remove (id : ConnectionId)
  | join (name : String) (id : ConnectionId)
  | leave (name : String) (id : ConnectionId)
  | close (seat : Nat)
  | drain (seat : Nat)
  | push (job : PushJob)

inductive RegistryAnswer where
  | done
  | outcome (outcome : Except RegistryError Unit)
  | removed (seat : Option Nat)
  | closed (now : Bool)
  | frames (frames : List String)
deriving DecidableEq

def Connection.drain (c : Connection) : List String × Connection :=
  (c.outbound, { c with outbound := [] })

theorem Connection.drain_receive (c : Connection) :
    c.drain = match c.receive with
      | none => ([], c)
      | some (frame, c) => (frame :: c.drain.1, c.drain.2) := by
  cases h : c.outbound with
  | nil =>
    have hc : { c with outbound := [] } = c := by rw [← h]
    simp only [receive, drain, h, hc]
  | cons frame rest => simp only [receive, drain, h]

theorem Connection.close_id (c : Connection) : c.close.1.id = c.id := by
  rw [c.close_cases]

def Roster.waiting (roster : Roster) (seat : Nat) : List String :=
  ((roster[seat]?).map fun c => c.drain.1).getD []

def Roster.closes (roster : Roster) (seat : Nat) : Bool :=
  ((roster[seat]?).map fun c => c.close.2).getD false

def Registry.call (r : Registry) : RegistryCall → Registry × RegistryAnswer
  | .connect id limits now => ((r.seatConnection (.create id limits now)).1, .done)
  | .add seat =>
    match r.roster[seat]? with
    | some c => (r.addConnection c.id seat, .done)
    | none => (r, .done)
  | .remove id => ((r.removeConnection id).1, .removed (r.removeConnection id).2)
  | .join name id => ((r.joinRoom name id).1, .outcome (r.joinRoom name id).2)
  | .leave name id => ((r.leaveRoom name id).1, .outcome (r.leaveRoom name id).2)
  | .close seat => (r.updateConnection seat fun c => c.close.1, .closed (r.roster.closes seat))
  | .drain seat => (r.updateConnection seat fun c => c.drain.2, .frames (r.roster.waiting seat))
  | .push job => ((r.push job).1, .outcome (r.push job).2)

/-- A registry with one table of connections and one set of memberships. -/
structure FlatRegistry where
  roster : Roster
  connections : Table ConnectionId Nat
  members : Finset (String × ConnectionId)

namespace FlatRegistry

def empty : FlatRegistry := ⟨[], [], ∅⟩

def Concerns (flat : FlatRegistry) (seat : Nat) (id : ConnectionId) (target : PushTarget) : Prop :=
  flat.connections.get? id = some seat ∧
    match target with
    | .all => True
    | .room name => (name, id) ∈ flat.members

instance (flat : FlatRegistry) (seat : Nat) (id : ConnectionId) :
    (target : PushTarget) → Decidable (flat.Concerns seat id target)
  | .all => inferInstanceAs (Decidable (_ ∧ True))
  | .room name => inferInstanceAs (Decidable (_ ∧ (name, id) ∈ flat.members))

def deliver (flat : FlatRegistry) (job : PushJob) : Roster :=
  flat.roster.mapIdx fun seat c =>
    if flat.Concerns seat c.id job.target then (c.send job.payload.frame).1 else c

/-- A call to the registry; a push is delivered at once. -/
def call (flat : FlatRegistry) : RegistryCall → FlatRegistry × RegistryAnswer
  | .connect id limits now => ({ flat with roster := flat.roster ++ [.create id limits now] }, .done)
  | .add seat =>
    match flat.roster[seat]? with
    | some c => ({ flat with connections := flat.connections.put c.id seat }, .done)
    | none => (flat, .done)
  | .remove id => ({ flat with connections := flat.connections.remove id },
      .removed (flat.connections.get? id))
  | .join name id =>
    if (name, id) ∈ flat.members then (flat, .outcome (.error (.alreadyMember name)))
    else ({ flat with members := insert (name, id) flat.members }, .outcome (.ok ()))
  | .leave name id =>
    if (name, id) ∈ flat.members then
      ({ flat with members := flat.members.erase (name, id) }, .outcome (.ok ()))
    else (flat, .outcome (.error (.notAMember name)))
  | .close seat => ({ flat with roster := flat.roster.modify seat fun c => c.close.1 },
      .closed (flat.roster.closes seat))
  | .drain seat => ({ flat with roster := flat.roster.modify seat fun c => c.drain.2 },
      .frames (flat.roster.waiting seat))
  | .push job => ({ flat with roster := flat.deliver job }, .outcome (.ok ()))

/-- The registry after some calls, with the answers. -/
def run (calls : List RegistryCall) : FlatRegistry × List RegistryAnswer :=
  calls.foldl (fun s c => ((s.1.call c).1, s.2 ++ [(s.1.call c).2])) (empty, [])

def connectionCount (flat : FlatRegistry) : Nat := flat.connections.length

def memberCount (flat : FlatRegistry) (name : String) : Nat :=
  (flat.members.filter (·.1 = name)).card

end FlatRegistry

/-- Calls to a registry that has been made with some settings. After each the pipeline moves, in any
order, until nothing is on its way. -/
inductive RegistryRun (settings : RegistrySettings) :
    List RegistryCall → Registry → List RegistryAnswer → Prop where
  | start : RegistryRun settings [] (.create settings) []
  | call {calls : List RegistryCall} {r r' : Registry} {answers : List RegistryAnswer}
      (c : RegistryCall) : RegistryRun settings calls r answers → (r.call c).1.Moves r' → r'.Quiet →
      RegistryRun settings (calls ++ [c]) r' (answers ++ [(r.call c).2])

/-- What calls and moves can lead to, in any order and also while the registry stops. -/
inductive Registry.Reachable (settings : RegistrySettings) : Registry → Prop where
  | start : Reachable settings (.create settings)
  | call {r : Registry} (c : RegistryCall) : Reachable settings r → Reachable settings (r.call c).1
  | move {r r' : Registry} {m : PipelineMove} : Reachable settings r → r.move m = some r' →
      Reachable settings r'
  | shutdown {r : Registry} : Reachable settings r → Reachable settings r.shutdown
  | stop {r : Registry} : Reachable settings r → Reachable settings r.stopWorkers

/-- The simulation: the same roster, and the tables of all shards together are the two flat ones. -/
structure Registry.Agrees (r : Registry) (flat : FlatRegistry) : Prop where
  roster : r.roster = flat.roster
  distinct : flat.connections.Distinct
  seats : ∀ id, r.seatOf id = flat.connections.get? id
  members : ∀ name id, r.IsMember name id ↔ (name, id) ∈ flat.members

namespace Registry

theorem call_samePipeline (r : Registry) (c : RegistryCall) (hc : ∀ job, c ≠ .push job) :
    SamePipeline r (r.call c).1 ∧ (r.call c).1.counters = r.counters := by
  cases c with
  | connect id limits now => exact ⟨⟨r.shards, _, rfl, rfl⟩, rfl⟩
  | add seat =>
    simp only [call]
    split
    next c => exact ⟨samePipeline_setShard r _ _, rfl⟩
    next => exact ⟨⟨r.shards, r.roster, rfl, rfl⟩, rfl⟩
  | remove id => exact ⟨samePipeline_setShard r _ _, rfl⟩
  | join name id => exact ⟨samePipeline_setShard r _ _, rfl⟩
  | leave name id => exact ⟨samePipeline_setShard r _ _, rfl⟩
  | close seat => exact ⟨⟨r.shards, _, rfl, rfl⟩, rfl⟩
  | drain seat => exact ⟨⟨r.shards, _, rfl, rfl⟩, rfl⟩
  | push job => exact absurd rfl (hc job)

theorem call_shards_length (r : Registry) (c : RegistryCall) :
    (r.call c).1.shards.length = r.shards.length := by
  by_cases hc : ∃ job, c = .push job
  · obtain ⟨job, rfl⟩ := hc
    exact congrArg List.length (r.push_tables job).1
  · obtain ⟨⟨shards, roster, he, hl⟩, _⟩ := r.call_samePipeline c (not_exists.mp hc)
    rw [he, hl]

theorem call_sound {r : Registry} (hs : r.Sound) (c : RegistryCall) : (r.call c).1.Sound := by
  cases c with
  | connect id limits now => exact seatConnection_sound hs _
  | add seat =>
    simp only [call]
    split
    next c hc => exact addConnection_sound hs hc
    next => exact hs
  | remove id => exact removeConnection_sound hs id
  | join name id => exact joinRoom_sound hs name id
  | leave name id => exact leaveRoom_sound hs name id
  | close seat => exact updateConnection_sound hs seat Connection.close_id
  | drain seat => exact updateConnection_sound hs seat fun c => rfl
  | push job =>
    obtain ⟨hshards, hroster⟩ := r.push_tables job
    exact hs.of_roster hshards fun seat c hc => ⟨c, by rw [call, hroster, hc], rfl⟩

theorem Reachable.sound {settings : RegistrySettings} {r : Registry} (h : Reachable settings r) :
    r.Sound ∧ r.shards.length = max settings.shardCount.toNat 1 := by
  induction h with
  | start => exact ⟨create_sound settings, (create_fitted settings).shards⟩
  | @call r c _ ih =>
    exact ⟨call_sound ih.1 c, (r.call_shards_length c).trans ih.2⟩
  | move _ hm ih =>
    have hu := (move_step hm).unmoved
    exact ⟨hu.sound ih.1, by rw [hu.shards, ih.2]⟩
  | shutdown _ ih => exact ⟨ih.1.of_roster rfl fun _ c hc => ⟨c, hc, rfl⟩, ih.2⟩
  | stop _ ih => exact ⟨ih.1.of_roster rfl fun _ c hc => ⟨c, hc, rfl⟩, ih.2⟩

theorem Agrees.connect {r : Registry} {flat : FlatRegistry} (h : r.Agrees flat)
    (c : Connection) : (r.seatConnection c).1.Agrees { flat with roster := flat.roster ++ [c] } :=
  ⟨congrArg (· ++ [c]) h.roster, h.distinct, h.seats, h.members⟩

theorem Agrees.update {r : Registry} {flat : FlatRegistry} (h : r.Agrees flat) (seat : Nat)
    (f : Connection → Connection) :
    (r.updateConnection seat f).Agrees { flat with roster := flat.roster.modify seat f } :=
  ⟨congrArg (List.modify · seat f) h.roster, h.distinct, h.seats, h.members⟩

theorem Agrees.add {r : Registry} {flat : FlatRegistry} (h : r.Agrees flat) (hs : r.Sound)
    (id : ConnectionId) (seat : Nat) :
    (r.addConnection id seat).Agrees { flat with connections := flat.connections.put id seat } := by
  refine ⟨h.roster, h.distinct.put id seat, ?_, ?_⟩
  · intro other
    rw [seatOf_addConnection hs, Table.get?_put, h.seats]
  · intro name other
    rw [isMember_addConnection hs]
    exact h.members name other

theorem Agrees.remove {r : Registry} {flat : FlatRegistry} (h : r.Agrees flat) (hs : r.Sound)
    (id : ConnectionId) :
    (r.removeConnection id).1.Agrees { flat with connections := flat.connections.remove id } := by
  refine ⟨h.roster, h.distinct.remove id, ?_, ?_⟩
  · intro other
    rw [seatOf_removeConnection hs, Table.get?_remove h.distinct, h.seats]
  · intro name other
    rw [isMember_removeConnection hs]
    exact h.members name other

theorem Agrees.join {r : Registry} {flat : FlatRegistry} (h : r.Agrees flat) (hs : r.Sound)
    (name : String) (id : ConnectionId) :
    (r.call (.join name id)).2 = (flat.call (.join name id)).2 ∧
      (r.call (.join name id)).1.Agrees (flat.call (.join name id)).1 := by
  simp only [call, FlatRegistry.call]
  rcases joinRoom_cases hs name id with ⟨hm, he⟩ | ⟨hm, hok, hmem⟩
  · rw [if_pos ((h.members name id).mp hm), he]
    exact ⟨rfl, h⟩
  · rw [if_neg (mt (h.members name id).mpr hm), hok]
    refine ⟨rfl, h.roster, h.distinct, ?_, ?_⟩
    · intro other
      rw [seatOf_joinRoom hs]
      exact h.seats other
    · intro other x
      rw [hmem, h.members, Finset.mem_insert, Prod.mk.injEq]

theorem Agrees.leave {r : Registry} {flat : FlatRegistry} (h : r.Agrees flat) (hs : r.Sound)
    (name : String) (id : ConnectionId) :
    (r.call (.leave name id)).2 = (flat.call (.leave name id)).2 ∧
      (r.call (.leave name id)).1.Agrees (flat.call (.leave name id)).1 := by
  simp only [call, FlatRegistry.call]
  rcases leaveRoom_cases hs name id with ⟨hm, he⟩ | ⟨hm, hok, hmem⟩
  · rw [if_neg (mt (h.members name id).mpr hm), he]
    exact ⟨rfl, h⟩
  · rw [if_pos ((h.members name id).mp hm), hok]
    refine ⟨rfl, h.roster, h.distinct, ?_, ?_⟩
    · intro other
      rw [seatOf_leaveRoom hs]
      exact h.seats other
    · intro other x
      rw [hmem, h.members, Finset.mem_erase, Ne, Prod.mk.injEq]
      exact And.comm

theorem Agrees.call {r : Registry} {flat : FlatRegistry} (h : r.Agrees flat) (hs : r.Sound)
    (c : RegistryCall) (hc : ∀ job, c ≠ .push job) :
    (r.call c).2 = (flat.call c).2 ∧ (r.call c).1.Agrees (flat.call c).1 := by
  cases c with
  | connect id limits now => exact ⟨rfl, h.connect _⟩
  | add seat =>
    simp only [Registry.call, FlatRegistry.call, h.roster]
    cases flat.roster[seat]? with
    | none => exact ⟨rfl, h⟩
    | some c => exact ⟨rfl, h.add hs c.id seat⟩
  | remove id => exact ⟨congrArg RegistryAnswer.removed (h.seats id), h.remove hs id⟩
  | join name id => exact h.join hs name id
  | leave name id => exact h.leave hs name id
  | close seat =>
    exact ⟨by simp only [Registry.call, FlatRegistry.call, h.roster], h.update seat _⟩
  | drain seat =>
    exact ⟨by simp only [Registry.call, FlatRegistry.call, h.roster], h.update seat _⟩
  | push job => exact absurd rfl (hc job)

theorem Agrees.concerns {r : Registry} {flat : FlatRegistry} (h : r.Agrees flat) (seat : Nat)
    (id : ConnectionId) (target : PushTarget) :
    flat.Concerns seat id target ↔ r.seatOf id = some seat ∧ r.Concerns id target := by
  cases target with
  | all => simp only [FlatRegistry.Concerns, Concerns, h.seats]
  | room name => simp only [FlatRegistry.Concerns, Concerns, h.seats, h.members]

/-- A push that is delivered in any order of the moves does what the flat registry does at once. -/
theorem Agrees.push {r r' : Registry} {flat : FlatRegistry} (h : r.Agrees flat) {job : PushJob}
    (hshards : r'.shards = r.shards)
    (hroster : ∀ i : Nat, r'.roster[i]? = (r.roster[i]?).map fun c =>
      if r.seatOf c.id = some i ∧ r.Concerns c.id job.target then (c.send job.payload.frame).1
      else c) : r'.Agrees (flat.call (.push job)).1 := by
  obtain ⟨_, hseat, hconc⟩ := shards_congr hshards
  refine ⟨?_, h.distinct, fun id => (hseat id).trans (h.seats id), ?_⟩
  · apply List.ext_getElem?
    intro i
    rw [hroster i, FlatRegistry.call, FlatRegistry.deliver, List.getElem?_mapIdx, h.roster]
    simp only [h.concerns]
  · intro name id
    exact (hconc id (.room name)).trans (h.members name id)

theorem Agrees.counts {r : Registry} {flat : FlatRegistry} (h : r.Agrees flat) (hs : r.Sound) :
    r.connectionCount = flat.connectionCount ∧
      ∀ name, r.memberCount name = flat.memberCount name := by
  constructor
  · have hset : r.identities = (flat.connections.map Prod.fst).toFinset := by
      ext id
      rw [mem_identities hs, List.mem_toFinset, Table.mem_keys_iff h.distinct]
      simp only [h.seats]
    rw [connectionCount_eq_card hs, hset, List.toFinset_card_of_nodup h.distinct, List.length_map]
    rfl
  · intro name
    have hset : (r.membersOf name).image (fun id => (name, id)) =
        flat.members.filter (·.1 = name) := by
      ext ⟨other, id⟩
      simp only [Finset.mem_image, mem_membersOf hs, h.members, Finset.mem_filter, Prod.mk.injEq]
      constructor
      · rintro ⟨x, hx, rfl, rfl⟩
        exact ⟨hx, rfl⟩
      · rintro ⟨hx, rfl⟩
        exact ⟨id, hx, rfl, rfl⟩
    have hinj : Function.Injective fun id : ConnectionId => (name, id) :=
      fun _ _ he => (Prod.mk.inj he).2
    rw [memberCount_eq_card hs, FlatRegistry.memberCount, ← hset, Finset.card_image_of_injective _ hinj]

/-- What holds after each call of a run. -/
structure Simulates (settings : RegistrySettings) (r : Registry) (flat : FlatRegistry) : Prop where
  sound : r.Sound
  fitted : r.Fitted settings
  quiet : r.Quiet
  agrees : r.Agrees flat
  accepted : r.counters.dispatchDrops = 0 ∧ r.counters.shardSkips = 0

theorem create_simulates (settings : RegistrySettings) :
    (create settings).Simulates settings .empty := by
  have hs := create_sound settings
  refine ⟨hs, create_fitted settings, ⟨rfl, rfl, ?_⟩, ⟨rfl, Table.distinct_nil, ?_, ?_⟩, rfl, rfl⟩
  · intro lane hl
    rw [(List.mem_replicate.mp hl).2]
    exact ⟨rfl, rfl⟩
  · intro id
    rw [seatOf, create_shardFor]
    rfl
  · intro name id
    rw [IsMember, create_shardFor]
    simp [Shard.empty, Shard.roomOf, Table.get?, Room.empty, FlatRegistry.empty]

theorem Simulates.call {settings : RegistrySettings} (hserve : settings.Serving) {r r' : Registry}
    {flat : FlatRegistry} (h : r.Simulates settings flat) (c : RegistryCall)
    (hm : (r.call c).1.Moves r') (hq : r'.Quiet) :
    (r.call c).2 = (flat.call c).2 ∧ r'.Simulates settings (flat.call c).1 := by
  by_cases hc : ∃ job, c = .push job
  · obtain ⟨job, rfl⟩ := hc
    obtain ⟨carried, hroster⟩ := push_delivered hserve h.sound h.fitted h.quiet job hm hq
    refine ⟨?_, carried.sound h.sound, carried.fitted, hq, h.agrees.push carried.shards hroster, ?_⟩
    · simp only [Registry.call, FlatRegistry.call, push_quiet hserve h.fitted h.quiet]
    · exact ⟨carried.refusals.trans h.accepted.1, carried.skips.trans h.accepted.2⟩
  · have hc := not_exists.mp hc
    obtain ⟨hsame, hcount⟩ := r.call_samePipeline c hc
    obtain ⟨hanswer, hagrees⟩ := h.agrees.call h.sound c hc
    -- a call that pushes nothing leaves the pipeline quiet, and then no move is left
    cases (hsame.quiet h.quiet).moves hm
    exact ⟨hanswer, call_sound h.sound c, hsame.fitted h.fitted, hq, hagrees, hcount ▸ h.accepted⟩

theorem flat_run_append (calls : List RegistryCall) (c : RegistryCall) :
    FlatRegistry.run (calls ++ [c]) = (((FlatRegistry.run calls).1.call c).1,
      (FlatRegistry.run calls).2 ++ [((FlatRegistry.run calls).1.call c).2]) := by
  rw [FlatRegistry.run, List.foldl_append]
  rfl

theorem run_simulates {settings : RegistrySettings} (hserve : settings.Serving)
    {calls : List RegistryCall} {r : Registry} {answers : List RegistryAnswer}
    (h : RegistryRun settings calls r answers) :
    answers = (FlatRegistry.run calls).2 ∧ r.Simulates settings (FlatRegistry.run calls).1 := by
  induction h with
  | start => exact ⟨rfl, create_simulates settings⟩
  | call c _ hm hq ih =>
    obtain ⟨ha, hs⟩ := ih.2.call hserve c hm hq
    rw [flat_run_append]
    exact ⟨by rw [ih.1, ha], hs⟩

theorem moves_reachable {settings : RegistrySettings} {r r' : Registry} (h : Reachable settings r)
    (hm : Moves r r') : Reachable settings r' := by
  induction hm with
  | refl => exact h
  | step _ hm ih => exact .move ih hm

theorem run_reachable {settings : RegistrySettings} {calls : List RegistryCall} {r : Registry}
    {answers : List RegistryAnswer} (h : RegistryRun settings calls r answers) :
    Reachable settings r := by
  induction h with
  | start => exact .start
  | call c _ hm _ ih => exact moves_reachable (.call c ih) hm

theorem run_exists {settings : RegistrySettings} (hserve : settings.Serving)
    (calls : List RegistryCall) : ∃ r answers, RegistryRun settings calls r answers := by
  induction calls using List.reverseRecOn with
  | nil => exact ⟨_, _, .start⟩
  | append_singleton calls c ih =>
    obtain ⟨r, answers, h⟩ := ih
    have hs := (run_simulates hserve h).2
    have hf : (r.call c).1.Fitted settings := by
      by_cases hc : ∃ job, c = .push job
      · obtain ⟨job, rfl⟩ := hc
        rw [Registry.call, push_quiet hserve hs.fitted hs.quiet]
        exact (carrying_start hs.fitted hs.quiet job).fitted
      · exact (r.call_samePipeline c (not_exists.mp hc)).1.fitted hs.fitted
    obtain ⟨hm, hq⟩ := settle_quiet hf hserve.dispatchers hserve.workers
    exact ⟨_, _, .call c h hm hq⟩

/-- The number of shards cannot be told: whatever the order of the moves, answers, frames and counts are
those of the flat registry. -/
theorem sharded_registry_refines_flat (settings : RegistrySettings) (hserve : settings.Serving)
    (calls : List RegistryCall) :
    (∃ r answers, RegistryRun settings calls r answers) ∧
    (∀ r answers, RegistryRun settings calls r answers →
      Reachable settings r ∧
      answers = (FlatRegistry.run calls).2 ∧
      r.roster = (FlatRegistry.run calls).1.roster ∧
      r.connectionCount = (FlatRegistry.run calls).1.connectionCount ∧
      (∀ name, r.memberCount name = (FlatRegistry.run calls).1.memberCount name) ∧
      r.counters.dispatchDrops = 0 ∧ r.counters.shardSkips = 0 ∧
      ∀ other : RegistrySettings, other.Serving → ∀ r' answers', RegistryRun other calls r' answers' →
        answers' = answers ∧ r'.roster = r.roster ∧ r'.connectionCount = r.connectionCount ∧
          ∀ name, r'.memberCount name = r.memberCount name) ∧
    ∀ r, Reachable settings r →
      r.shards.length = max settings.shardCount.toNat 1 ∧
      (∀ (k : Nat) (s : Shard), r.shards[k]? = some s →
        (∀ id ∈ s.connections.map Prod.fst, id.value.toNat % r.shards.length = k) ∧
        ∀ name, ∀ id ∈ (s.roomOf name).members, id.value.toNat % r.shards.length = k) ∧
      r.connectionCount = r.identities.card ∧
      ∀ name, r.memberCount name = (r.membersOf name).card := by
  refine ⟨run_exists hserve calls, ?_, ?_⟩
  · intro r answers h
    obtain ⟨ha, hs⟩ := run_simulates hserve h
    obtain ⟨hc, hm⟩ := hs.agrees.counts hs.sound
    refine ⟨run_reachable h, ha, hs.agrees.roster, hc, hm, hs.accepted.1, hs.accepted.2, ?_⟩
    intro other hother r' answers' h'
    obtain ⟨ha', hs'⟩ := run_simulates hother h'
    obtain ⟨hc', hm'⟩ := hs'.agrees.counts hs'.sound
    exact ⟨ha'.trans ha.symm, hs'.agrees.roster.trans hs.agrees.roster.symm, hc'.trans hc.symm,
      fun name => (hm' name).trans (hm name).symm⟩
  · intro r h
    obtain ⟨hs, hl⟩ := h.sound
    have hroute : ∀ id : ConnectionId, r.route id = id.value.toNat % r.shards.length := by
      intro id
      rw [route, ConnectionId.shard, Nat.max_eq_left hs.shards_nonempty]
    refine ⟨hl, ?_, connectionCount_eq_card hs, memberCount_eq_card hs⟩
    intro k s hk
    have hsound := hs.shard_sound k s hk
    refine ⟨?_, ?_⟩
    · intro id hid
      obtain ⟨seat, hg⟩ := (Table.mem_keys_iff hsound.connections_distinct id).mp hid
      exact (hroute id).symm.trans (hsound.connections_home id seat hg)
    · intro name id hid
      exact (hroute id).symm.trans (hsound.members_home name id hid)

theorem three_shards_as_flat :
    let calls : List RegistryCall := [.connect ⟨7⟩ ⟨1, 4, 4⟩ 0, .connect ⟨8⟩ ⟨1, 4, 4⟩ 0, .add 0, .add 1,
      .join "a" ⟨7⟩, .join "a" ⟨7⟩, .push ⟨.room "a", ⟨[]⟩⟩, .drain 0, .drain 1]
    ∃ r answers, RegistryRun ⟨3, 1, 2, 1, 2⟩ calls r answers ∧
      answers.drop 4 = [.outcome (.ok ()), .outcome (.error (.alreadyMember "a")), .outcome (.ok ()),
        .frames [PushPayload.frame ⟨[]⟩], .frames []] ∧
      r.connectionCount = 2 ∧ r.memberCount "a" = 1 := by
  intro calls
  have hserve : RegistrySettings.Serving ⟨3, 1, 2, 1, 2⟩ :=
    ⟨by decide, by decide, by decide, by decide⟩
  obtain ⟨⟨r, answers, h⟩, hrun, _⟩ := sharded_registry_refines_flat ⟨3, 1, 2, 1, 2⟩ hserve calls
  obtain ⟨_, ha, _, hc, hm, _⟩ := hrun r answers h
  exact ⟨r, answers, h, by rw [ha]; rfl, by rw [hc]; rfl, by rw [hm]; decide⟩

end Registry

end RoomCast
