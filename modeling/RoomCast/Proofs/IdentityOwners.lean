import RoomCast.Proofs.ConnectionCounts
import RoomCast.Proofs.ConsecutiveIdentities

namespace RoomCast

def CountEvent.opens : CountEvent → Bool
  | .undergo (.serve (.connect _ _ _)) => true
  | _ => false

/-- What can happen to a server whose sessions get their identities from its source. -/
inductive CallerEvent where
  | call (caller : Nat)
  /-- One of the callers that have no session yet opens it. -/
  | enter (place : Nat) (answersPings : Bool) (wire : WireMode)
  | connect (caller : Nat) (target : String)
  | other (e : CountEvent)

/-- A server with the calls for identities, oldest first, and those of them whose callers have no session
yet. A call is told by its caller and what it has got. -/
structure CallerTrace where
  books : CountTrace
  calls : List (Nat × ConnectionId)
  waiting : List (Nat × ConnectionId)

def CountTrace.withServer (k : CountTrace) (srv : Server) : CountTrace :=
  { k with trace := { k.trace with server := srv } }

namespace CallerTrace

def server (t : CallerTrace) : Server := t.books.server

def identities (t : CallerTrace) : List ConnectionId := t.calls.map (·.2)

def start (srv : Server) : CallerTrace := ⟨.start srv, [], []⟩

def call (t : CallerTrace) (caller : Nat) : CallerTrace :=
  let (id, identities) := t.server.identities.take
  { books := t.books.withServer { t.server with identities := identities }
    calls := t.calls ++ [(caller, id)]
    waiting := t.waiting ++ [(caller, id)] }

def enter (t : CallerTrace) (place : Nat) (answersPings : Bool) (wire : WireMode) : CallerTrace :=
  match t.waiting[place]? with
  | none => t
  | some (_, id) =>
    { t with
      books := t.books.withServer (t.server.openSession id answersPings wire).1
      waiting := t.waiting.eraseIdx place }

def connect (t : CallerTrace) (caller : Nat) (target : String) : CallerTrace :=
  match t.server.connect target with
  | (_, .error _) => t
  | (srv, .ok _) =>
    { t with
      books := t.books.withServer srv
      calls := t.calls ++ [(caller, t.server.identities.take.1)] }

def step (t : CallerTrace) : CallerEvent → CallerTrace
  | .call caller => t.call caller
  | .enter place answersPings wire => t.enter place answersPings wire
  | .connect caller target => t.connect caller target
  | .other e => if e.opens then t else { t with books := t.books.step e }

def run (t : CallerTrace) (events : List CallerEvent) : CallerTrace := events.foldl step t

end CallerTrace

structure Server.SameIdentities (srv srv' : Server) : Prop where
  source : srv'.identities = srv.identities
  sessions : srv'.sessions.map (·.id) = srv.sessions.map (·.id)

/-- A session registers: its shard gets an entry behind those that it has, none of which, and none of
another shard, is for its identity. -/
structure Server.Registers (srv : Server) (i : Nat) (s : Session) (srv' : Server) : Prop where
  moves : srv.handlerStep i = some srv'
  unused : ∀ shard ∈ srv.registry.shards, shard.connections.get? s.id = none
  adds : srv'.registry = srv.registry.setShard s.id { srv.registry.shardFor s.id with
    connections := (srv.registry.shardFor s.id).connections ++ [(s.id, i)] }

namespace Server

variable {srv srv' : Server} {i : Nat}

theorem Tasked.sameIdentities (h : srv.Tasked srv' i) (hs : srv.Housed) : srv.SameIdentities srv' := by
  obtain ⟨s, s', c, c', hsc, hmove⟩ := h
  have hstep := hmove.sessionStep hs hsc
  refine ⟨by cases hmove <;> rfl, ?_⟩
  have hid : (srv.sessions.map (·.id))[i]? = some s'.id := by
    rw [List.getElem?_map, hstep.session, hstep.same.1]
    rfl
  rw [hstep.sessions, List.map_set, set_same hid]

theorem updateSession_sameIdentities (srv : Server) (i : Nat) {f : Session → Session}
    (hf : ∀ s, (f s).id = s.id) : srv.SameIdentities (srv.updateSession i f) := by
  refine ⟨rfl, List.ext_getElem? fun j => ?_⟩
  rw [updateSession, List.getElem?_map, List.getElem?_modify, List.getElem?_map]
  cases srv.sessions[j]? with
  | none => rfl
  | some s =>
    by_cases hj : i = j
    · simp [hj, hf]
    · simp [hj]

end Server

namespace ServerTrace

variable {t : ServerTrace}

theorem accept_sameIdentities (t : ServerTrace) (form : PublishForm) (p : Option Publish) :
    t.server.SameIdentities (t.accept form p).server := by
  cases p <;> exact ⟨rfl, rfl⟩

theorem moveMerge_sameIdentities (t : ServerTrace) (next : Option MergeMove) :
    t.server.SameIdentities (t.moveMerge next).server := by
  match next with
  | none => exact ⟨rfl, rfl⟩
  | some (_, none) => exact ⟨rfl, rfl⟩
  | some (_, some _) => exact ⟨rfl, rfl⟩

theorem move_sameIdentities (hs : t.server.Housed) {next : Option Server} {i : Nat}
    (h : ∀ srv, next = some srv → t.server.Tasked srv i) :
    t.server.SameIdentities (t.move next).server := by
  cases next with
  | none => exact ⟨rfl, rfl⟩
  | some srv => exact (h srv rfl).sameIdentities hs

theorem undergo_sameIdentities (hs : t.server.Housed) {e : ShutdownEvent}
    (he : CountEvent.opens (.undergo e) = false) : t.server.SameIdentities (t.undergo e).server := by
  cases e with
  | serve e =>
    cases e with
    | publishAll form => exact t.accept_sameIdentities form _
    | publishRoom form => exact t.accept_sameIdentities form _
    | forward =>
      simp only [undergo, step, ServerTrace.forward]
      split <;> exact ⟨rfl, rfl⟩
    | takeItem lane => exact t.moveMerge_sameIdentities _
    | fire timer => exact t.moveMerge_sameIdentities _
    | takeExpiry lane => exact t.moveMerge_sameIdentities _
    | pipeline m =>
      simp only [undergo, step]
      cases t.server.registry.move m <;> exact ⟨rfl, rfl⟩
    | clock time => exact ⟨rfl, rfl⟩
    | connect id answersPings wire => simp [CountEvent.opens] at he
    | arrive i message => exact t.server.updateSession_sameIdentities i fun _ => rfl
    | finish i => exact t.server.updateSession_sameIdentities i fun _ => rfl
    | rewire i wire => exact t.server.updateSession_sameIdentities i fun _ => rfl
    | read i => exact move_sameIdentities hs fun srv h => Server.readerStep_tasked h
    | write i => exact move_sameIdentities hs fun srv h => Server.writerStep_tasked h
    | beat i => exact move_sameIdentities hs fun srv h => Server.heartbeatStep_tasked h
    | serve i => exact move_sameIdentities hs fun srv h => Server.handlerStep_tasked hs h
  | offer item => exact ⟨rfl, rfl⟩
  | push job => exact ⟨rfl, rfl⟩
  | stopMerge => exact ⟨rfl, rfl⟩
  | stopRegistry => exact ⟨rfl, rfl⟩
  | stop => exact ⟨rfl, rfl⟩
  | endMerge =>
    simp only [undergo, Server.endMerge]
    split <;> exact ⟨rfl, rfl⟩
  | endRegistry =>
    simp only [undergo, Server.endRegistry]
    split <;> exact ⟨rfl, rfl⟩

end ServerTrace

namespace CountTrace

variable {k : CountTrace} {i : Nat} {s : Session} {c : Connection}

theorem step_sameIdentities (hs : k.server.Housed) {e : CountEvent} (he : e.opens = false) :
    k.server.SameIdentities (k.step e).server := by
  have serves : ∀ i, k.server.SameIdentities (k.serve i).server := by
    intro i
    rw [CountTrace.serve]
    split
    next => exact ⟨rfl, rfl⟩
    next srv h => exact (Server.handlerStep_tasked hs h).sameIdentities hs
  cases e with
  | tearDown i =>
    rw [CountTrace.step, CountTrace.tearDown]
    split <;> exact ⟨rfl, rfl⟩
  | undergo e =>
    have hsame := ServerTrace.undergo_sameIdentities (t := k.trace) hs he
    cases e with
    | serve e =>
      cases e with
      | connect id answersPings wire => simp [CountEvent.opens] at he
      | serve i => exact serves i
      | _ => exact hsame
    | _ => exact hsame

theorem Kept.entry (h : k.Kept) (hsits : k.server.Sits i s c) (hin : i ∈ k.registered)
    (hdown : i ∉ k.tornDown) : k.server.registry.seatOf s.id = some i := by
  have hnot : i ∉ k.counted := fun hc => hdown (h.tallied.within i hc).2
  obtain ⟨seat, hseat⟩ := Option.ne_none_iff_exists'.mp ((h.stands i s c hsits).held.mpr ⟨hin, hnot⟩)
  obtain ⟨t, d, hseated, hid⟩ := h.housed.sits_of_seatOf hseat
  rw [hseat, h.distinct seat i t s d c hseated hsits hid]

theorem Kept.registers (h : k.Kept) (hsits : k.server.Sits i s c) (fresh : s.handler = .starting) :
    ∃ srv, k.server.Registers i s srv := by
  have hnone := h.unregistered hsits fresh
  have hseat := (h.housed.seated i s c hsits.1 hsits.2).1
  refine ⟨k.server.startHandler i s, ?_, fun shard hshard => ?_, ?_⟩
  · rw [Server.handlerStep, h.housed.session?_of hsits]
    simp [fresh]
  · by_contra hn
    obtain ⟨seat, hg⟩ := Option.ne_none_iff_exists'.mp hn
    obtain ⟨place, hplace⟩ := List.mem_iff_getElem?.mp hshard
    have hfor := h.housed.registry.shardFor_of_seat hplace hg
    rw [Registry.seatOf, hfor, hg] at hnone
    simp at hnone
  · change k.server.registry.addConnection s.id s.seat = _
    rw [Registry.addConnection, Shard.addConnection, Table.put_new s.seat hnone, hseat]

end CountTrace

namespace CallerTrace

variable {t : CallerTrace} {source : IdentitySource}

theorem connect_cases (t : CallerTrace) (caller : Nat) (target : String) :
    t.connect caller target = t ∨
      t.connect caller target = (t.call caller).enter t.waiting.length true .open := by
  by_cases hpath : (HttpRequest.mk "GET" target none "").path ≠ Server.connectPath
  · exact Or.inl (by rw [CallerTrace.connect, Server.connect, if_pos hpath])
  · by_cases hstop : t.server.stopping = true
    · exact Or.inl (by rw [CallerTrace.connect, Server.connect, if_neg hpath, if_pos hstop])
    · right
      have hplace : (t.call caller).waiting[t.waiting.length]? =
          some (caller, t.server.identities.take.1) := List.getElem?_concat_length
      have hrest : (t.call caller).waiting.eraseIdx t.waiting.length = t.waiting := by
        rw [CallerTrace.call, List.eraseIdx_append_of_length_le (Nat.le_refl _), Nat.sub_self]
        exact List.append_nil _
      rw [CallerTrace.connect, Server.connect, if_neg hpath, if_neg hstop, enter, hplace]
      simp only [hrest]
      rfl

theorem enter_calls (t : CallerTrace) (place : Nat) (answersPings : Bool) (wire : WireMode) :
    (t.enter place answersPings wire).calls = t.calls := by
  unfold enter
  split <;> rfl

theorem calls_le_step (t : CallerTrace) (e : CallerEvent) :
    t.calls.length ≤ (t.step e).calls.length := by
  have hcall : ∀ caller, t.calls.length ≤ (t.call caller).calls.length := by
    intro caller
    rw [CallerTrace.call, List.length_append]
    exact Nat.le_add_right _ _
  cases e with
  | call caller => exact hcall caller
  | enter place answersPings wire => rw [step, enter_calls]
  | connect caller target =>
    rw [step]
    rcases t.connect_cases caller target with he | he
    · rw [he]
    · rw [he, enter_calls]
      exact hcall caller
  | other e =>
    rw [step]
    split <;> exact Nat.le_refl _

theorem calls_le_run (t : CallerTrace) (events : List CallerEvent) :
    t.calls.length ≤ (t.run events).calls.length := by
  induction events generalizing t with
  | nil => exact Nat.le_refl _
  | cons e events ih => exact Nat.le_trans (t.calls_le_step e) (ih (t.step e))

/-- What has been handed out is what one caller alone would have got, and each of it is the identity of
one session or is still to become that. -/
structure Kept (source : IdentitySource) (t : CallerTrace) : Prop where
  books : t.books.Kept
  drawn : source.takeMany t.calls.length = (t.identities, t.server.identities)
  given : (t.server.sessions.map (·.id) ++ t.waiting.map (·.2)).Perm t.identities

theorem start_kept (settings : Settings) (source : IdentitySource) (showsFigures : Bool) :
    (start (.create settings source showsFigures)).Kept source :=
  ⟨CountTrace.start_kept settings source showsFigures, rfl, .nil⟩

theorem Kept.handed (h : t.Kept source) : (source.takeMany t.calls.length).1 = t.identities :=
  congrArg Prod.fst h.drawn

theorem Kept.distinct (h : t.Kept source) (hfew : t.calls.length ≤ 2 ^ 64) : t.identities.Nodup :=
  h.handed ▸ source.takeMany_nodup hfew

theorem Kept.call (h : t.Kept source) (caller : Nat) : (t.call caller).Kept source := by
  refine ⟨h.books.aside (Server.aside_tables h.books.housed rfl rfl rfl rfl), ?_, ?_⟩
  · have hlength : (t.call caller).calls.length = t.calls.length + 1 := List.length_append
    rw [hlength, source.takeMany_succ, h.drawn]
    simp [identities, CallerTrace.call, server, CountTrace.withServer, CountTrace.server]
  · have hgiven := h.given.append_right [t.server.identities.take.1]
    rw [List.append_assoc] at hgiven
    simpa [identities, CallerTrace.call, server, CountTrace.withServer, CountTrace.server] using hgiven

/-- The identity of a session that opens is that of no other, as it is still to be given to one. -/
theorem Kept.enter (h : t.Kept source) (hfew : t.calls.length ≤ 2 ^ 64) (place : Nat)
    (answersPings : Bool) (wire : WireMode) : (t.enter place answersPings wire).Kept source := by
  unfold CallerTrace.enter
  split
  next => exact h
  next caller id hplace =>
    have hwaiting := ((perm_eraseIdx_of_some hplace).map (·.2)).append_left
      (t.server.sessions.map (·.id))
    have hgiven := hwaiting.symm.trans h.given
    have hnew : id ∉ t.server.sessions.map (·.id) := by
      intro hin
      have hn := hgiven.nodup_iff.mpr (h.distinct hfew)
      exact (List.nodup_append.mp hn).2.2 id hin id List.mem_cons_self rfl
    refine ⟨h.books.connect hnew answersPings wire, h.drawn, ?_⟩
    change ((t.server.openSession id answersPings wire).1.sessions.map (·.id) ++ _).Perm _
    rw [t.server.openSession_id, List.append_assoc]
    exact hgiven

theorem Kept.step (h : t.Kept source) (e : CallerEvent) (hfew : (t.step e).calls.length ≤ 2 ^ 64) :
    (t.step e).Kept source := by
  have hbefore : t.calls.length ≤ 2 ^ 64 := Nat.le_trans (t.calls_le_step e) hfew
  cases e with
  | call caller => exact h.call caller
  | enter place answersPings wire => exact h.enter hbefore place answersPings wire
  | connect caller target =>
    rw [CallerTrace.step] at hfew ⊢
    rcases t.connect_cases caller target with he | he
    · rw [he]
      exact h
    · rw [he] at hfew ⊢
      rw [enter_calls] at hfew
      exact (h.call caller).enter hfew _ _ _
  | other e =>
    rw [CallerTrace.step]
    split
    next => exact h
    next he =>
      have hother : e.opens = false := by simpa using he
      obtain ⟨hsource, hsessions⟩ := CountTrace.step_sameIdentities h.books.housed hother
      refine ⟨h.books.step e, h.drawn.trans ?_, ?_⟩
      · exact congrArg (Prod.mk t.identities) hsource.symm
      · change ((t.books.step e).server.sessions.map (·.id) ++ _).Perm _
        rw [hsessions]
        exact h.given

theorem run_kept (h : t.Kept source) (events : List CallerEvent)
    (hfew : (t.run events).calls.length ≤ 2 ^ 64) : (t.run events).Kept source := by
  induction events generalizing t with
  | nil => exact h
  | cons e events ih =>
    exact ih (h.step e (Nat.le_trans ((t.step e).calls_le_run events) hfew)) hfew

theorem Kept.call_value (h : t.Kept source) {n caller : Nat} {id : ConnectionId}
    (hcall : t.calls[n]? = some (caller, id)) :
    id.value.toNat = (source.next.toNat + n) % 2 ^ 64 := by
  have hlt : n < t.calls.length := (List.getElem?_eq_some_iff.mp hcall).1
  have hid : t.identities[n]? = some id := by
    rw [identities, List.getElem?_map, hcall]
    rfl
  rw [← h.handed, source.takeMany_eq, List.getElem?_map, List.getElem?_range hlt] at hid
  rw [← Option.some.inj hid, source.toNat_ahead]

end CallerTrace

open CallerTrace in
/-- Whoever calls in whatever order, the identities handed out are consecutive words from the seed on. No
two are the same until they have run out, and each shard gets its share. -/
theorem identities_never_collide (settings : Settings) (seed : UInt64) (showsFigures : Bool)
    (events : List CallerEvent) :
    let t := (start (.create settings ⟨seed⟩ showsFigures)).run events
    t.calls.length ≤ 2 ^ 64 →
      IdentitySource.takeMany t.calls.length ⟨seed⟩ = (t.identities, t.server.identities) ∧
      (∀ n caller id, t.calls[n]? = some (caller, id) →
        id.value.toNat = (seed.toNat + n) % 2 ^ 64) ∧
      t.identities.Nodup ∧
      (t.server.sessions.map (·.id)).Nodup ∧
      (∀ s ∈ t.server.sessions, s.id ∈ t.identities) ∧
      (∀ i s, t.server.sessions[i]? = some s → s.handler = .starting →
        ∃ srv, t.server.Registers i s srv) ∧
      (∀ i ∈ t.books.registered, i ∉ t.books.tornDown →
        ∃ s, t.server.sessions[i]? = some s ∧ t.server.registry.seatOf s.id = some i) ∧
      (seed.toNat + t.calls.length ≤ 2 ^ 64 →
        ∀ shards j k, j < max shards 1 → k < max shards 1 →
          sharedTo shards j t.identities ≤ sharedTo shards k t.identities + 1) := by
  intro t hfew
  have h : t.Kept ⟨seed⟩ := run_kept (start_kept settings ⟨seed⟩ showsFigures) events hfew
  have hdistinct := h.distinct hfew
  have hall := h.given.nodup_iff.mpr hdistinct
  refine ⟨h.drawn, fun n caller id hcall => h.call_value hcall, hdistinct,
    (List.nodup_append.mp hall).1, fun s hs => ?_, fun i s hs fresh => ?_, fun i hin hdown => ?_,
    fun hcalm shards j k hj hk => ?_⟩
  · exact h.given.subset (List.mem_append_left _ (List.mem_map_of_mem hs))
  · obtain ⟨c, hsits⟩ := h.books.housed.sits hs
    exact h.books.registers hsits fresh
  · have hs := List.getElem?_eq_getElem (h.books.known i (Or.inl hin))
    obtain ⟨c, hsits⟩ := h.books.housed.sits hs
    exact ⟨_, hs, h.books.entry hsits hin hdown⟩
  · have hmost := (IdentitySource.takeMany_shared ⟨seed⟩ hcalm hj).2
    have hleast := (IdentitySource.takeMany_shared ⟨seed⟩ hcalm hk).1
    rw [h.handed] at hmost hleast
    exact Nat.le_trans hmost (Nat.add_le_add_right hleast 1)

open CallerTrace in
/-- Two callers and an upgrade take identities around zero, and a shard that holds the greatest word takes
zero up beside it; three identities that end with the greatest word are shared among two shards. -/
theorem identities_around_zero :
    let settings : Settings :=
      { Settings.defaults with registry := { Settings.defaults.registry with shardCount := 3 } }
    let t := (start (.create settings ⟨18446744073709551614⟩ true)).run [.call 0, .call 1, .call 0,
      .enter 1 true .open, .connect 2 "/connect", .enter 1 true .open,
      .other (.undergo (.serve (.serve 0))), .other (.undergo (.serve (.serve 1)))]
    let calm := (start (.create settings ⟨18446744073709551613⟩ true)).run [.call 0, .call 1, .call 0]
    t.calls = [(0, ⟨18446744073709551614⟩), (1, ⟨18446744073709551615⟩), (0, ⟨0⟩), (2, ⟨1⟩)] ∧
      t.calls.length ≤ 2 ^ 64 ∧ t.identities.Nodup ∧
      (∃ s, t.server.sessions[2]? = some s ∧ s.handler = .starting ∧
        (t.server.registry.shardFor s.id).connections = [(⟨18446744073709551615⟩, 0)] ∧
        ∃ srv, t.server.Registers 2 s srv) ∧
      (0 ∈ t.books.registered ∧ 0 ∉ t.books.tornDown ∧
        ∃ s, t.server.sessions[0]? = some s ∧ t.server.registry.seatOf s.id = some 0) ∧
      calm.calls.length ≤ 2 ^ 64 ∧ (18446744073709551613 : UInt64).toNat + calm.calls.length ≤ 2 ^ 64 ∧
      sharedTo 2 1 calm.identities = 2 ∧
      sharedTo 2 1 calm.identities ≤ sharedTo 2 0 calm.identities + 1 := by
  intro settings t calm
  have hcalls : t.calls =
      [(0, ⟨18446744073709551614⟩), (1, ⟨18446744073709551615⟩), (0, ⟨0⟩), (2, ⟨1⟩)] := by
    decide +kernel
  have hfew : t.calls.length ≤ 2 ^ 64 := by decide +kernel
  have hcalm : calm.calls.length ≤ 2 ^ 64 := by decide +kernel
  have hshort : (18446744073709551613 : UInt64).toNat + calm.calls.length ≤ 2 ^ 64 := by decide +kernel
  have hin : 0 ∈ t.books.registered := by decide +kernel
  have hdown : 0 ∉ t.books.tornDown := by decide +kernel
  have hlast : (t.server.sessions[2]?.any fun s => decide (s.handler = .starting) &&
      decide ((t.server.registry.shardFor s.id).connections = [(⟨18446744073709551615⟩, 0)])) =
      true := by decide +kernel
  obtain ⟨_, _, hnodup, _, _, hregisters, hentry, _⟩ :=
    identities_never_collide settings 18446744073709551614 true _ hfew
  obtain ⟨_, _, _, _, _, _, _, hshared⟩ :=
    identities_never_collide settings 18446744073709551613 true _ hcalm
  obtain ⟨s, hs⟩ : ∃ s, t.server.sessions[2]? = some s :=
    Option.isSome_iff_exists.mp (by decide +kernel)
  simp only [hs, Option.any_some, Bool.and_eq_true, decide_eq_true_eq] at hlast
  exact ⟨hcalls, hfew, hnodup, ⟨s, hs, hlast.1, hlast.2, hregisters 2 s hs hlast.1⟩,
    ⟨hin, hdown, hentry 0 hin hdown⟩, hcalm, hshort, by decide +kernel,
    hshared hshort 2 1 0 (by decide) (by decide)⟩

end RoomCast
