import Mathlib.Data.List.Induction
import RoomCast.Proofs.FlatRegistry
import RoomCast.Proofs.HandlerMembership

namespace RoomCast

/-- What a connection goes through that is no matter of membership. -/
inductive ConnectionOp where
  | send (frame : String)
  | receive
  | keepAlive (now : Nat)
  | close
  | dropQueue

def ConnectionOp.apply (c : Connection) : ConnectionOp → Connection
  | .send frame => (c.send frame).1
  | .receive => (c.receive.map (·.2)).getD c
  | .keepAlive now => c.keepAlive now
  | .close => c.close.1
  | .dropQueue => c.dropQueue

/-- What can happen to the connections of a registry. -/
inductive MembershipEvent where
  | connect (id : ConnectionId) (limits : ConnectionLimits) (now : Nat)
  | register (seat : Nat)
  | handle (seat now : Nat) (e : Envelope)
  | teardown (seat : Nat)
  | touch (seat : Nat) (op : ConnectionOp)
  | push (job : PushJob)
  | move (m : PipelineMove)

/-- The registry after an event; a move that has to wait changes nothing. -/
def Registry.after (r : Registry) : MembershipEvent → Registry
  | .connect id limits now => (r.seatConnection (.create id limits now)).1
  | .register seat =>
    match r.roster[seat]? with
    | some c => r.addConnection c.id seat
    | none => r
  | .handle seat now e => r.handle seat now e
  | .teardown seat => (r.teardown seat).1
  | .touch seat op => r.updateConnection seat fun c => op.apply c
  | .push job => (r.push job).1
  | .move m => (r.move m).getD r

/-- Whether the connection on a seat has been registered and not torn down. -/
def Live (events : List MembershipEvent) (seat : Nat) : Prop :=
  .register seat ∈ events ∧ .teardown seat ∉ events

def MembershipEvent.requestOf (seat : Nat) : MembershipEvent → Option ClientRequest
  | .handle other _ e => if other = seat then ClientRequest.ofFrame e else none
  | _ => none

/-- The rooms of a connection as its own requests tell. -/
def joinedBy (limit seat : Nat) (events : List MembershipEvent) : Finset String :=
  (events.filterMap (·.requestOf seat)).foldl (ClientRequest.apply limit) ∅

/-- Whether an event may come after some others: identities are never given twice, and a connection is
registered once, then handled, then torn down. -/
def MayFollow (events : List MembershipEvent) (r : Registry) : MembershipEvent → Prop
  | .connect id _ _ => id ∉ r.roster.map (·.id)
  | .register seat => seat < r.roster.length ∧ .register seat ∉ events
  | .handle seat _ _ => Live events seat
  | .teardown seat => Live events seat
  | _ => True

inductive MembershipRun (settings : RegistrySettings) : List MembershipEvent → Registry → Prop where
  | start : MembershipRun settings [] (.create settings)
  | event {events : List MembershipEvent} {r : Registry} (e : MembershipEvent) :
      MembershipRun settings events r → MayFollow events r e →
      MembershipRun settings (events ++ [e]) (r.after e)

/-- The two copies of membership agree for the connection on a seat, which has the rooms that its own
requests tell while it is live, and none before and after. -/
structure SeatKept (events : List MembershipEvent) (r : Registry) (seat : Nat) (c : Connection) :
    Prop where
  registered : r.seatOf c.id = some seat ↔ Live events seat
  agree : ∀ room, room ∈ c.rooms ↔ r.IsMember room c.id
  nodup : c.rooms.Nodup
  own : .teardown seat ∉ events → c.rooms.toFinset = joinedBy c.roomLimit seat events
  idle : ¬Live events seat → c.rooms = []

/-- Every connection is kept so, no two have one identity, and there are no other members. -/
structure Attended (events : List MembershipEvent) (r : Registry) : Prop where
  sound : r.Sound
  distinct : (r.roster.map (·.id)).Nodup
  kept : ∀ (seat : Nat) (c : Connection), r.roster[seat]? = some c → SeatKept events r seat c
  known : ∀ room id, r.IsMember room id → id ∈ r.roster.map (·.id)
  entered : ∀ seat, r.roster.length ≤ seat → .register seat ∉ events ∧ .teardown seat ∉ events ∧
    events.filterMap (·.requestOf seat) = []
  order : ∀ seat, .teardown seat ∈ events → .register seat ∈ events

def MembershipEvent.Spares (e : MembershipEvent) (seat : Nat) : Prop :=
  e ≠ .register seat ∧ e ≠ .teardown seat ∧ e.requestOf seat = none

theorem MembershipEvent.Spares.live {e : MembershipEvent} {seat : Nat} (h : e.Spares seat)
    (events : List MembershipEvent) : Live (events ++ [e]) seat ↔ Live events seat := by
  simp [Live, Ne.symm h.1, Ne.symm h.2.1]

theorem joinedBy_append (limit seat : Nat) (events : List MembershipEvent) (e : MembershipEvent) :
    joinedBy limit seat (events ++ [e]) =
      (e.requestOf seat).toList.foldl (ClientRequest.apply limit) (joinedBy limit seat events) := by
  cases h : e.requestOf seat <;> simp [joinedBy, List.filterMap_append, h]

theorem apply_card_le {limit : Nat} {rooms : Finset String} (h : rooms.card ≤ limit)
    (request : ClientRequest) : (request.apply limit rooms).card ≤ limit := by
  cases request with
  | ping => exact h
  | join room =>
    rw [ClientRequest.apply]
    split
    next hl => exact Nat.le_trans (Finset.card_insert_le _ _) hl
    next => exact h
  | leave room => exact Nat.le_trans (Finset.card_erase_le) h

theorem joinedBy_card_le (limit seat : Nat) (events : List MembershipEvent) :
    (joinedBy limit seat events).card ≤ limit := by
  unfold joinedBy
  induction events.filterMap (·.requestOf seat) using List.reverseRecOn with
  | nil => exact Nat.zero_le _
  | append_singleton requests request ih =>
    rw [List.foldl_append]
    exact apply_card_le ih request

/-- What a connection has to do with membership. -/
def Connection.standing (c : Connection) : ConnectionId × Nat × List String :=
  (c.id, c.roomLimit, c.rooms)

theorem Connection.standing_inj {c c' : Connection} (h : c'.standing = c.standing) :
    c'.id = c.id ∧ c'.roomLimit = c.roomLimit ∧ c'.rooms = c.rooms := by
  obtain ⟨h1, h⟩ := Prod.mk.inj h
  obtain ⟨h2, h3⟩ := Prod.mk.inj h
  exact ⟨h1, h2, h3⟩

theorem ConnectionOp.apply_standing (op : ConnectionOp) (c : Connection) :
    (op.apply c).standing = c.standing := by
  cases op with
  | send frame =>
    have h := congrArg Connection.standing (c.send_bare frame)
    exact h
  | receive =>
    simp only [apply, Connection.receive]
    split <;> rfl
  | keepAlive now => rfl
  | close =>
    simp only [apply, Connection.close]
    split <;> rfl
  | dropQueue => rfl

theorem SeatKept.spared {events : List MembershipEvent} {r r' : Registry} {seat : Nat}
    {c c' : Connection} (h : SeatKept events r seat c) {e : MembershipEvent} (he : e.Spares seat)
    (hc : c'.standing = c.standing) (hseat : r'.seatOf c.id = r.seatOf c.id)
    (hmem : ∀ room, r'.IsMember room c.id ↔ r.IsMember room c.id) :
    SeatKept (events ++ [e]) r' seat c' := by
  obtain ⟨hid, hlimit, hrooms⟩ := Connection.standing_inj hc
  refine ⟨?_, ?_, hrooms ▸ h.nodup, ?_, ?_⟩
  · rw [he.live, hid, hseat]
    exact h.registered
  · intro room
    rw [hrooms, hid, hmem]
    exact h.agree room
  · intro ht
    rw [joinedBy_append, he.2.2, hrooms, hlimit]
    exact h.own fun hm => ht (List.mem_append_left _ hm)
  · intro hl
    rw [he.live] at hl
    exact hrooms ▸ h.idle hl

theorem Attended.seat_of_live {events : List MembershipEvent} {r : Registry}
    (h : Attended events r) {seat : Nat} (hl : Live events seat) : ∃ c, r.roster[seat]? = some c := by
  have hlt : seat < r.roster.length := by
    by_contra hge
    exact (h.entered seat (by omega)).1 hl.1
  exact ⟨_, List.getElem?_eq_getElem hlt⟩

theorem Attended.seat_unique {events : List MembershipEvent} {r : Registry} (h : Attended events r)
    {seat other : Nat} {c c' : Connection} (hc : r.roster[seat]? = some c)
    (hc' : r.roster[other]? = some c') (hid : c'.id = c.id) : other = seat := by
  obtain ⟨hb, _⟩ := List.getElem?_eq_some_iff.mp hc'
  have he : (r.roster.map (·.id))[other]? = (r.roster.map (·.id))[seat]? := by
    simp [hc, hc', hid]
  exact (List.getElem?_inj (by simpa using hb) h.distinct).mp he

theorem Attended.entered_append {events : List MembershipEvent} {r : Registry}
    (h : Attended events r) {e : MembershipEvent} {n : Nat} (hn : r.roster.length ≤ n)
    (he : ∀ seat, n ≤ seat → e.Spares seat) (seat : Nat) (hs : n ≤ seat) :
    .register seat ∉ events ++ [e] ∧ .teardown seat ∉ events ++ [e] ∧
      (events ++ [e]).filterMap (·.requestOf seat) = [] := by
  obtain ⟨h1, h2, h3⟩ := h.entered seat (Nat.le_trans hn hs)
  obtain ⟨e1, e2, e3⟩ := he seat hs
  refine ⟨?_, ?_, ?_⟩
  · simp [h1, Ne.symm e1]
  · simp [h2, Ne.symm e2]
  · simp [List.filterMap_append, h3, e3]

theorem Attended.order_append {events : List MembershipEvent} {r : Registry}
    (h : Attended events r) {e : MembershipEvent}
    (he : ∀ seat, e = .teardown seat → .register seat ∈ events) (seat : Nat)
    (hm : .teardown seat ∈ events ++ [e]) : .register seat ∈ events ++ [e] := by
  rcases List.mem_append.mp hm with hm | hm
  · exact List.mem_append_left _ (h.order seat hm)
  · exact List.mem_append_left _ (he seat (List.mem_singleton.mp hm).symm)

theorem create_attended (settings : RegistrySettings) : Attended [] (.create settings) := by
  refine ⟨Registry.create_sound settings, List.nodup_nil, ?_, ?_, ?_, ?_⟩
  · intro seat c hc
    cases hc
  · intro room id hm
    rw [Registry.IsMember, Registry.create_shardFor] at hm
    simp [Shard.empty, Shard.roomOf, Table.get?, Room.empty] at hm
  · exact fun seat _ => ⟨List.not_mem_nil, List.not_mem_nil, rfl⟩
  · exact fun seat hm => absurd hm List.not_mem_nil

theorem Attended.aside {events : List MembershipEvent} {r r' : Registry} (h : Attended events r)
    {e : MembershipEvent} (he : ∀ seat, e.Spares seat) (hshards : r'.shards = r.shards)
    (hroster : r'.roster.map Connection.standing = r.roster.map Connection.standing) :
    Attended (events ++ [e]) r' := by
  obtain ⟨_, hseat, hconc⟩ := Registry.shards_congr hshards
  have hmem : ∀ room id, r'.IsMember room id ↔ r.IsMember room id :=
    fun room id => hconc id (.room room)
  have hids : r'.roster.map (·.id) = r.roster.map (·.id) := by
    have hm := congrArg (List.map Prod.fst) hroster
    rw [List.map_map, List.map_map] at hm
    exact hm
  have hlen : r'.roster.length = r.roster.length := by
    simpa using congrArg List.length hroster
  refine ⟨?_, hids ▸ h.distinct, ?_, ?_, ?_, h.order_append fun seat ht => absurd ht (he seat).2.1⟩
  · refine h.sound.of_roster hshards ?_
    intro seat c hc
    obtain ⟨c', hc', hst⟩ := getElem?_of_map_eq hroster hc
    exact ⟨c', hc', (Connection.standing_inj hst).1⟩
  · intro seat c hc
    obtain ⟨c₀, hc₀, hst⟩ := getElem?_of_map_eq hroster.symm hc
    exact (h.kept seat c₀ hc₀).spared (he seat) hst.symm (hseat _) (hmem · _)
  · intro room id hm
    rw [hids]
    exact h.known room id ((hmem room id).mp hm)
  · rw [hlen]
    exact h.entered_append (Nat.le_refl _) fun seat _ => he seat

theorem Attended.connect {events : List MembershipEvent} {r : Registry} (h : Attended events r)
    {id : ConnectionId} (hid : id ∉ r.roster.map (·.id)) (limits : ConnectionLimits) (now : Nat) :
    Attended (events ++ [.connect id limits now]) (r.after (.connect id limits now)) := by
  have hspare : ∀ seat, MembershipEvent.Spares (.connect id limits now) seat :=
    fun seat => ⟨by simp, by simp, rfl⟩
  have hids : (r.after (.connect id limits now)).roster.map (·.id) = r.roster.map (·.id) ++ [id] := by
    simp [Registry.after, Registry.seatConnection, Connection.create]
  have hlen : (r.after (.connect id limits now)).roster.length = r.roster.length + 1 := by
    simp [Registry.after, Registry.seatConnection]
  refine ⟨Registry.seatConnection_sound h.sound _, ?_, ?_, ?_, ?_, h.order_append (by simp)⟩
  · rw [hids]
    exact List.Nodup.append h.distinct (List.nodup_singleton id) (by simpa using hid)
  · intro seat c hc
    change (r.roster ++ [Connection.create id limits now])[seat]? = some c at hc
    rw [List.getElem?_append] at hc
    split at hc
    next => exact (h.kept seat c hc).spared (hspare seat) rfl rfl fun _ => Iff.rfl
    next hge =>
      -- the new seat: no event has been about it, and its identity is in no table
      rw [List.getElem?_singleton] at hc
      split at hc
      next hz =>
        cases Option.some.inj hc
        have hs : seat = r.roster.length := by omega
        obtain ⟨h1, h2, h3⟩ := h.entered_append (Nat.le_refl _) (fun seat _ => hspare seat) seat
          (Nat.le_of_eq hs.symm)
        refine ⟨?_, ?_, List.nodup_nil, ?_, fun _ => rfl⟩
        · refine ⟨fun hseat => ?_, fun hl => absurd hl.1 h1⟩
          obtain ⟨c, hc, hcid⟩ := h.sound.seated id seat hseat
          exact absurd (List.mem_map.mpr ⟨c, List.mem_of_getElem? hc, hcid⟩) hid
        · intro room
          refine ⟨fun hm => absurd hm List.not_mem_nil, fun hm => absurd (h.known room id hm) hid⟩
        · intro _
          rw [joinedBy, h3]
          rfl
      next => simp at hc
  · intro room x hm
    rw [hids]
    exact List.mem_append_left _ (h.known room x hm)
  · rw [hlen]
    exact h.entered_append (Nat.le_succ _) fun seat _ => hspare seat

theorem Attended.at_seat {events : List MembershipEvent} {r r' : Registry} (h : Attended events r)
    {e : MembershipEvent} {seat : Nat} {c c' : Connection} (hc : r.roster[seat]? = some c)
    (he : ∀ other, other ≠ seat → e.Spares other) (hs' : r'.Sound)
    (hroster : ∀ i : Nat, r'.roster[i]? = if seat = i then some c' else r.roster[i]?)
    (hid : c'.id = c.id) (hseat : ∀ id, id ≠ c.id → r'.seatOf id = r.seatOf id)
    (hmem : ∀ room id, id ≠ c.id → (r'.IsMember room id ↔ r.IsMember room id))
    (hkept : SeatKept (events ++ [e]) r' seat c')
    (horder : e = .teardown seat → .register seat ∈ events) : Attended (events ++ [e]) r' := by
  have hlt : seat < r.roster.length := (List.getElem?_eq_some_iff.mp hc).1
  have hids : r'.roster.map (·.id) = r.roster.map (·.id) := by
    apply List.ext_getElem?
    intro i
    rw [List.getElem?_map, List.getElem?_map, hroster]
    by_cases hi : seat = i
    · rw [if_pos hi, ← hi, hc, Option.map_some, Option.map_some, hid]
    · rw [if_neg hi]
  have hlen : r'.roster.length = r.roster.length := by
    simpa using congrArg List.length hids
  refine ⟨hs', hids ▸ h.distinct, ?_, ?_, ?_, ?_⟩
  · intro other d hd
    rw [hroster] at hd
    by_cases ho : seat = other
    · rw [if_pos ho] at hd
      cases Option.some.inj hd
      exact ho ▸ hkept
    · rw [if_neg ho] at hd
      have hne : d.id ≠ c.id := fun hdc => ho (h.seat_unique hc hd hdc).symm
      exact (h.kept other d hd).spared (he other (Ne.symm ho)) rfl (hseat _ hne)
        fun room => hmem room _ hne
  · intro room id hm
    rw [hids]
    by_cases hx : id = c.id
    · exact List.mem_map.mpr ⟨c, List.mem_of_getElem? hc, hx.symm⟩
    · exact h.known room id ((hmem room id hx).mp hm)
  · rw [hlen]
    exact h.entered_append (Nat.le_refl _) fun other hn => he other (by omega)
  · refine h.order_append fun other ht => ?_
    by_cases ho : other = seat
    · subst ho
      exact horder ht
    · exact absurd ht (he other ho).2.1

theorem Attended.register {events : List MembershipEvent} {r : Registry} (h : Attended events r)
    {seat : Nat} (hlt : seat < r.roster.length) (hr : .register seat ∉ events) :
    Attended (events ++ [.register seat]) (r.after (.register seat)) := by
  have hc := List.getElem?_eq_getElem hlt
  have ht : .teardown seat ∉ events := fun hm => hr (h.order seat hm)
  have hafter : r.after (.register seat) = r.addConnection (r.roster[seat]).id seat := by
    simp only [Registry.after, hc]
  have hk := h.kept seat _ hc
  rw [hafter]
  refine h.at_seat hc ?_ (Registry.addConnection_sound h.sound hc) ?_ rfl ?_ ?_ ?_ (by simp)
  · exact fun other ho => ⟨by simpa using Ne.symm ho, by simp, rfl⟩
  · intro i
    by_cases hi : seat = i
    · rw [if_pos hi, ← hi]
      exact hc
    · rw [if_neg hi]
      rfl
  · intro id hne
    rw [Registry.seatOf_addConnection h.sound, if_neg (Ne.symm hne)]
  · exact fun room id _ => Registry.isMember_addConnection h.sound _ _ _ _
  · have hlive : Live (events ++ [.register seat]) seat := by simp [Live, ht]
    refine ⟨?_, ?_, hk.nodup, ?_, fun hl => absurd hlive hl⟩
    · rw [Registry.seatOf_addConnection h.sound, if_pos rfl]
      exact ⟨fun _ => hlive, fun _ => rfl⟩
    · intro room
      rw [Registry.isMember_addConnection h.sound]
      exact hk.agree room
    · intro _
      rw [joinedBy_append]
      exact hk.own ht

theorem Attended.handle {events : List MembershipEvent} {r : Registry} (h : Attended events r)
    {seat : Nat} (hl : Live events seat) (now : Nat) (e : Envelope) :
    Attended (events ++ [.handle seat now e]) (r.after (.handle seat now e)) := by
  obtain ⟨c, hc⟩ := h.seat_of_live hl
  have hk := h.kept seat c hc
  obtain ⟨c', managed, hn, hrooms⟩ := Registry.handle_managed h.sound hc hk.agree hk.nodup now e
  have hlive : Live (events ++ [.handle seat now e]) seat := by
    simp [Live, hl.1, hl.2]
  refine h.at_seat hc ?_ managed.sound managed.roster managed.id (fun id _ => managed.seats id)
    managed.others ?_ (by simp)
  · intro other ho
    exact ⟨by simp, by simp, by simp [MembershipEvent.requestOf, Ne.symm ho]⟩
  · refine ⟨?_, ?_, hn, ?_, fun hd => absurd hlive hd⟩
    · rw [managed.id, Registry.after, managed.seats]
      exact ⟨fun _ => hlive, fun _ => hk.registered.mpr hl⟩
    · intro room
      rw [managed.id]
      exact managed.members room
    · intro _
      rw [joinedBy_append, managed.limit, ← hk.own hl.2, hrooms]
      simp [MembershipEvent.requestOf]

theorem Attended.teardown {events : List MembershipEvent} {r : Registry} (h : Attended events r)
    {seat : Nat} (hl : Live events seat) :
    Attended (events ++ [.teardown seat]) (r.after (.teardown seat)) := by
  obtain ⟨c, hc⟩ := h.seat_of_live hl
  obtain ⟨c', hs', hroster, hid, hrooms, hseat, hmem⟩ :=
    Registry.teardown_cleared h.sound hc (h.kept seat c hc).agree
  have hdead : ¬Live (events ++ [.teardown seat]) seat := by simp [Live]
  refine h.at_seat hc ?_ hs' hroster hid ?_ ?_ ?_ fun _ => hl.1
  · exact fun other ho => ⟨by simp, by simpa using Ne.symm ho, rfl⟩
  · intro id hne
    rw [Registry.after, hseat, if_neg (Ne.symm hne)]
  · intro room id hne
    rw [Registry.after, hmem]
    exact ⟨And.right, fun hm => ⟨hne, hm⟩⟩
  · refine ⟨?_, ?_, ?_, ?_, fun _ => hrooms⟩
    · rw [hid, Registry.after, hseat, if_pos rfl]
      exact ⟨fun hn => absurd hn (by simp), fun hl => absurd hl hdead⟩
    · intro room
      rw [hid, Registry.after, hmem, hrooms]
      exact ⟨fun hm => absurd hm List.not_mem_nil, fun hm => absurd rfl hm.1⟩
    · rw [hrooms]
      exact List.nodup_nil
    · exact fun ht => absurd (List.mem_append_right _ (List.mem_singleton.mpr rfl)) ht

theorem Attended.event {events : List MembershipEvent} {r : Registry} (h : Attended events r)
    {e : MembershipEvent} (hm : MayFollow events r e) : Attended (events ++ [e]) (r.after e) := by
  cases e with
  | connect id limits now => exact h.connect hm limits now
  | register seat => exact h.register hm.1 hm.2
  | handle seat now e => exact h.handle hm now e
  | teardown seat => exact h.teardown hm
  | touch seat op =>
    refine h.aside (fun other => ⟨by simp, by simp, rfl⟩) rfl ?_
    apply List.ext_getElem?
    intro i
    simp only [Registry.after, Registry.updateConnection, List.getElem?_map, List.getElem?_modify]
    cases r.roster[i]? with
    | none => rfl
    | some c =>
      by_cases hi : seat = i
      · simp [hi, op.apply_standing c]
      · simp [hi]
  | push job =>
    obtain ⟨hshards, hroster⟩ := r.push_tables job
    refine h.aside (fun other => ⟨by simp, by simp, rfl⟩) hshards ?_
    rw [Registry.after, hroster]
  | move m =>
    have hspare : ∀ seat, MembershipEvent.Spares (.move m) seat :=
      fun seat => ⟨by simp, by simp, rfl⟩
    cases hstep : r.move m with
    | none =>
      refine h.aside hspare ?_ ?_
      · rw [Registry.after, hstep]
        rfl
      · rw [Registry.after, hstep]
        rfl
    | some r' =>
      have hu := (Registry.move_step hstep).unmoved
      have hst := congrArg (List.map Connection.standing) hu.bare
      rw [List.map_map, List.map_map] at hst
      rw [Registry.after, hstep]
      exact h.aside hspare hu.shards hst

theorem run_attended {settings : RegistrySettings} {events : List MembershipEvent} {r : Registry}
    (h : MembershipRun settings events r) : Attended events r := by
  induction h with
  | start => exact create_attended settings
  | event e _ hm ih => exact ih.event hm

/-- At any time the rooms of a live connection are those that hold its identity in its own shard and those
that its own requests tell. -/
theorem membership_never_drifts {settings : RegistrySettings} {events : List MembershipEvent}
    {r : Registry} (h : MembershipRun settings events r) :
    (∀ (seat : Nat) (c : Connection), r.roster[seat]? = some c → Live events seat →
      r.seatOf c.id = some seat ∧
      (∀ room, room ∈ c.rooms ↔ ∃ s, r.shards[c.id.value.toNat % r.shards.length]? = some s ∧
        c.id ∈ (s.roomOf room).members) ∧
      c.rooms.Nodup ∧ c.rooms.length ≤ c.roomLimit ∧
      c.rooms.toFinset = joinedBy c.roomLimit seat events) ∧
    ∀ (k : Nat) (s : Shard) (room : String) (id : ConnectionId), r.shards[k]? = some s →
      id ∈ (s.roomOf room).members →
      k = id.value.toNat % r.shards.length ∧ ∃ seat c, r.roster[seat]? = some c ∧ c.id = id ∧
        Live events seat ∧ s.connections.get? id = some seat ∧ room ∈ c.rooms := by
  have ha := run_attended h
  have hpos := ha.sound.shards_nonempty
  have hroute : ∀ id : ConnectionId, r.route id = id.value.toNat % r.shards.length := by
    intro id
    rw [Registry.route, ConnectionId.shard, Nat.max_eq_left hpos]
  constructor
  · intro seat c hc hl
    have hk := ha.kept seat c hc
    have hown := hk.own hl.2
    refine ⟨hk.registered.mpr hl, ?_, hk.nodup, ?_, hown⟩
    · intro room
      rw [hk.agree room, ← hroute, Registry.shardFor_eq hpos]
      simp [Registry.IsMember]
    · rw [← List.toFinset_card_of_nodup hk.nodup, hown]
      exact joinedBy_card_le _ _ _
  · intro k s room id hs hm
    have hhome := (ha.sound.shard_sound k s hs).members_home room id hm
    have hfor := ha.sound.shardFor_of_member hs hm
    have hmember : r.IsMember room id := by rwa [Registry.IsMember, hfor]
    obtain ⟨c, hmem, rfl⟩ := List.mem_map.mp (ha.known room id hmember)
    obtain ⟨seat, hc⟩ := List.mem_iff_getElem?.mp hmem
    have hk := ha.kept seat c hc
    have hin := (hk.agree room).mpr hmember
    have hl : Live events seat := by
      by_contra hd
      rw [hk.idle hd] at hin
      exact List.not_mem_nil hin
    have hseat := hk.registered.mpr hl
    rw [Registry.seatOf, hfor] at hseat
    exact ⟨by rw [← hroute, hhome], seat, c, hc, rfl, hl, hseat, hin⟩

/-- A second room is not joined by a connection that may join one. -/
theorem second_room_not_joined :
    let events : List MembershipEvent := [.connect ⟨7⟩ ⟨1, 4, 1⟩ 0, .register 0,
      .handle 0 5 ⟨"JOIN", some ⟨"\x7b\"room\":\"a\"\x7d"⟩⟩,
      .handle 0 6 ⟨"JOIN", some ⟨"\x7b\"room\":\"b\"\x7d"⟩⟩]
    let r := events.foldl Registry.after (.create ⟨3, 1, 1, 1, 1⟩)
    MembershipRun ⟨3, 1, 1, 1, 1⟩ events r ∧
      ∃ c, r.roster[0]? = some c ∧ c.rooms.toFinset = {"a"} ∧ r.seatOf ⟨7⟩ = some 0 := by
  intro events r
  have hrun : MembershipRun ⟨3, 1, 1, 1, 1⟩ events r := by
    refine .event _ (.event _ (.event _ (.event _ .start ?_) ?_) ?_) ?_
    · exact List.not_mem_nil
    · exact ⟨by decide, by simp⟩
    · simp [MayFollow, Live]
    · simp [MayFollow, Live]
  have hseat : (r.roster[0]?).map (fun c => (c.id, c.roomLimit)) = some (⟨7⟩, 1) := by
    decide +kernel
  obtain ⟨c, hc, he⟩ := Option.map_eq_some_iff.mp hseat
  obtain ⟨hid, hlimit⟩ := Prod.mk.inj he
  have hlive : Live events 0 := by simp [Live, events]
  obtain ⟨hheld, _, _, _, hown⟩ := (membership_never_drifts hrun).1 0 c hc hlive
  refine ⟨hrun, c, hc, ?_, hid ▸ hheld⟩
  rw [hown, hlimit]
  decide +kernel

end RoomCast
