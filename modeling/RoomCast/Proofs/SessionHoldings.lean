import RoomCast.Proofs.ServerRun
import RoomCast.Proofs.SessionStream

namespace RoomCast

def Session.Holds (s : Session) (id : ConnectionId) : Prop := s.handler = .running ∧ s.id = id

namespace Registry

/-- The seats have stayed, and the members of rooms have changed as the rooms of one connection
tell. -/
structure Follows (r r' : Registry) (c c' : Connection) : Prop where
  seats : ∀ id, r'.seatOf id = r.seatOf id
  members : ∀ room id, r'.IsMember room id →
    (id = c.id ∧ room ∈ c'.rooms) ∨ (r.IsMember room id ∧ ¬(id = c.id ∧ room ∈ c.rooms))

theorem follows_same {r r' : Registry} {c c' : Connection} (hshards : r'.shards = r.shards)
    (hrooms : c'.rooms = c.rooms) : Follows r r' c c' := by
  obtain ⟨_, hseats, hconcerns⟩ := shards_congr hshards
  refine ⟨hseats, fun room id hm => ?_⟩
  rw [hrooms]
  by_cases hown : id = c.id ∧ room ∈ c.rooms
  · exact Or.inl hown
  · exact Or.inr ⟨(hconcerns id (.room room)).mp hm, hown⟩

section Requests

variable {r : Registry} (hs : r.Sound) {seat : Nat} {c c' : Connection}
  (hc : r.roster[seat]? = some c)

include hc in
theorem seat_updated {r' : Registry} (hroster : r'.roster = r.roster) {f : Connection → Connection}
    (hc' : (r'.updateConnection seat f).roster[seat]? = some c') : c' = f c := by
  rw [updateConnection_getElem? (hroster ▸ hc), if_pos rfl] at hc'
  exact (Option.some.inj hc').symm

include hc in
theorem ping_follows {now : Nat} (hc' : (r.ping seat now).roster[seat]? = some c') :
    Follows r (r.ping seat now) c c' := by
  have he := seat_updated hc rfl hc'
  have hrooms := congrArg Connection.rooms ((c.keepAlive now).send_bare pongFrame)
  refine follows_same rfl ?_
  rw [he]
  exact hrooms

include hs hc in
theorem join_follows {name : String} (hc' : (r.join seat name).roster[seat]? = some c') :
    Follows r (r.join seat name) c c' := by
  have refused : ∀ c'', r.roster[seat]? = some c'' → Follows r r c c'' := by
    intro c'' hc''
    cases Option.some.inj (hc.symm.trans hc'')
    exact follows_same rfl rfl
  simp only [join, connection?, hc] at hc' ⊢
  split
  next hfull =>
    rw [if_pos hfull] at hc'
    exact refused c' hc'
  next hfull =>
    rw [if_neg hfull] at hc'
    split
    next hin =>
      rw [if_pos hin] at hc'
      exact refused c' hc'
    next hin =>
      rw [if_neg hin] at hc'
      rcases joinRoom_cases hs name c.id with ⟨_, he⟩ | ⟨_, hok, hmem⟩
      · rw [he] at hc' ⊢
        exact refused c' hc'
      · have hj : r.joinRoom name c.id = ((r.joinRoom name c.id).1, .ok ()) := by rw [← hok]
        rw [hj] at hc' ⊢
        have hrecord := seat_updated hc rfl hc'
        have hrooms : ∀ room, room ∈ c'.rooms ↔ room = name ∨ room ∈ c.rooms := by
          intro room
          rw [hrecord, Connection.recordJoin, if_neg hin, mem_insertOrdered]
        refine ⟨seatOf_joinRoom hs name c.id, fun room id hm => ?_⟩
        rcases (hmem room id).mp hm with ⟨rfl, rfl⟩ | hm
        · exact Or.inl ⟨rfl, (hrooms room).mpr (Or.inl rfl)⟩
        · by_cases hown : id = c.id ∧ room ∈ c.rooms
          · exact Or.inl ⟨hown.1, (hrooms room).mpr (Or.inr hown.2)⟩
          · exact Or.inr ⟨hm, hown⟩

include hs hc in
theorem leave_follows {name : String} (hc' : (r.leave seat name).roster[seat]? = some c') :
    Follows r (r.leave seat name) c c' := by
  simp only [leave, connection?, hc] at hc' ⊢
  split
  next hin =>
    rw [if_pos hin] at hc'
    have hrecord := seat_updated hc rfl hc'
    have hrooms : c'.rooms = c.rooms.filter (· ≠ name) := by
      rw [hrecord, Connection.recordLeave, if_pos hin]
    refine ⟨seatOf_leaveRoom hs name c.id, fun room id hm => ?_⟩
    obtain ⟨hm, hother⟩ := (isMember_leaveRoom hs name room c.id id).mp hm
    by_cases hown : id = c.id ∧ room ∈ c.rooms
    · have hne : room ≠ name := fun he => hother ⟨he, hown.1⟩
      refine Or.inl ⟨hown.1, ?_⟩
      rw [hrooms, List.mem_filter]
      exact ⟨hown.2, decide_eq_true hne⟩
    · exact Or.inr ⟨hm, hown⟩
  next hin =>
    rw [if_neg hin] at hc'
    cases Option.some.inj (hc.symm.trans hc')
    exact follows_same rfl rfl

include hs hc in
theorem handle_follows {now : Nat} {e : Envelope}
    (hc' : (r.handle seat now e).roster[seat]? = some c') :
    Follows r (r.handle seat now e) c c' := by
  rw [handle_eq] at hc' ⊢
  cases hreq : ClientRequest.ofFrame e with
  | none =>
    rw [hreq] at hc'
    cases Option.some.inj (hc.symm.trans hc')
    exact follows_same rfl rfl
  | some request =>
    rw [hreq] at hc'
    cases request with
    | ping => exact ping_follows hc hc'
    | join room => exact join_follows hs hc hc'
    | leave room => exact leave_follows hs hc hc'

include hs hc in
/-- A teardown takes out the identity with all the rooms that its connection has joined. -/
theorem teardown_tables :
    (∀ id, (r.teardown seat).1.seatOf id = if c.id = id then none else r.seatOf id) ∧
      ∀ room id, (r.teardown seat).1.IsMember room id →
        r.IsMember room id ∧ ¬(id = c.id ∧ room ∈ c.rooms) := by
  obtain ⟨hs', _, hseats, hmem⟩ := left_members hs seat c
  rw [teardown_eq hc]
  refine ⟨fun id => ?_, fun room id hm => ?_⟩
  · rw [seatOf_removeConnection hs', hseats]
  · rw [isMember_removeConnection hs', hmem] at hm
    exact ⟨hm.1, fun hown => hm.2 ⟨hown.2, hown.1⟩⟩

end Requests

end Registry

namespace Server

def Sits (srv : Server) (i : Nat) (s : Session) (c : Connection) : Prop :=
  srv.sessions[i]? = some s ∧ srv.registry.roster[i]? = some c

theorem Housed.sits {srv : Server} (hs : srv.Housed) {i : Nat} {s : Session}
    (hi : srv.sessions[i]? = some s) : ∃ c, srv.Sits i s c := by
  have hlt : i < srv.registry.roster.length := hs.seats ▸ (List.getElem?_eq_some_iff.mp hi).1
  exact ⟨_, hi, List.getElem?_eq_getElem hlt⟩

theorem Housed.sits_of_seatOf {srv : Server} (hs : srv.Housed) {id : ConnectionId} {seat : Nat}
    (h : srv.registry.seatOf id = some seat) : ∃ s c, srv.Sits seat s c ∧ s.id = id := by
  obtain ⟨c, hc, hid⟩ := hs.registry.seated id seat h
  have hlt : seat < srv.sessions.length := hs.seats ▸ (List.getElem?_eq_some_iff.mp hc).1
  have hi := List.getElem?_eq_getElem hlt
  obtain ⟨_, hfits⟩ := hs.seated seat _ c hi hc
  exact ⟨_, c, ⟨hi, hc⟩, hfits.id.trans hid⟩

/-- What the tables hold belongs to sessions whose handlers run, and what has ended is cleared. -/
structure Accounted (srv : Server) : Prop where
  seats : ∀ id, srv.registry.seatOf id ≠ none → ∃ i s c, srv.Sits i s c ∧ s.Holds id
  members : ∀ room id, srv.registry.IsMember room id →
    ∃ i s c, srv.Sits i s c ∧ s.Holds id ∧ room ∈ c.rooms
  cleared : ∀ i s c, srv.Sits i s c → s.handler = .ended → c.closed = true ∧ c.rooms = []

/-- What the tables hold after a step of a session is that session's, or was there before and is
another's. -/
structure Hands (srv srv' : Server) (s s' : Session) (c c' : Connection) : Prop where
  seats : ∀ id, srv'.registry.seatOf id ≠ none →
    s'.Holds id ∨ (srv.registry.seatOf id ≠ none ∧ ¬s.Holds id)
  members : ∀ room id, srv'.registry.IsMember room id →
    (s'.Holds id ∧ room ∈ c'.rooms) ∨
      (srv.registry.IsMember room id ∧ ¬(s.Holds id ∧ room ∈ c.rooms))
  cleared : (s.handler = .ended → c.closed = true ∧ c.rooms = []) →
    s'.handler = .ended → c'.closed = true ∧ c'.rooms = []

section Hands

variable {srv srv' : Server} {i : Nat} {s s' : Session} {c c' : Connection}

theorem holds_congr (hid : s'.id = s.id) (hh : s'.handler = s.handler) (id : ConnectionId) :
    s'.Holds id ↔ s.Holds id := by
  rw [Session.Holds, Session.Holds, hid, hh]

theorem hands_same (hshards : srv'.registry.shards = srv.registry.shards) (hid : s'.id = s.id)
    (hh : s'.handler = s.handler) (hrooms : c'.rooms = c.rooms)
    (hclosed : c.closed = true → c'.closed = true) : Hands srv srv' s s' c c' := by
  obtain ⟨_, hseats, hconcerns⟩ := Registry.shards_congr hshards
  refine ⟨fun id hn => ?_, fun room id hm => ?_, fun hc hended => ?_⟩
  · rw [hseats] at hn
    by_cases hown : s.Holds id
    · exact Or.inl ((holds_congr hid hh id).mpr hown)
    · exact Or.inr ⟨hn, hown⟩
  · have hm' : srv.registry.IsMember room id := (hconcerns id (.room room)).mp hm
    by_cases hown : s.Holds id ∧ room ∈ c.rooms
    · exact Or.inl ⟨(holds_congr hid hh id).mpr hown.1, hrooms ▸ hown.2⟩
    · exact Or.inr ⟨hm', hown⟩
  · obtain ⟨hc, hr⟩ := hc (hh ▸ hended)
    exact ⟨hclosed hc, hrooms.trans hr⟩

theorem hands_follows (h : Registry.Follows srv.registry srv'.registry c c') (hid : s.id = c.id)
    (hsame : s'.id = s.id) (hruns : s.handler = .running) (hgoes : s'.handler = .running) :
    Hands srv srv' s s' c c' := by
  have hh : s'.handler = s.handler := hgoes.trans hruns.symm
  refine ⟨fun id hn => ?_, fun room id hm => ?_, fun _ hended => ?_⟩
  · rw [h.seats] at hn
    by_cases hown : s.Holds id
    · exact Or.inl ((holds_congr hsame hh id).mpr hown)
    · exact Or.inr ⟨hn, hown⟩
  · rcases h.members room id hm with ⟨he, hr⟩ | ⟨hm, hnot⟩
    · exact Or.inl ⟨⟨hgoes, hsame.trans (hid.trans he.symm)⟩, hr⟩
    · exact Or.inr ⟨hm, fun hown => hnot ⟨hown.1.2.symm.trans hid, hown.2⟩⟩
  · rw [hgoes] at hended
    cases hended

theorem task_rooms {now limit interval : Nat} (hf : s.Fits c)
    (h : s.readerStep c = some (s', c') ∨ s.writerStep c now limit = some (s', c') ∨
      s.heartbeatStep c now interval = some (s', c')) :
    s'.handler = s.handler ∧ c'.rooms = c.rooms := by
  have htask : s.TaskStep s' c c' := by
    rcases h with hr | hw | hb
    · exact Session.readerStep_task hf hr
    · exact Session.writerStep_task hf hw
    · exact Session.heartbeatStep_task hf hb
  exact ⟨htask.handler, (Connection.standing_inj htask.standing).2.2⟩

theorem TaskMove.hands (hs : srv.Housed) (hstep : srv.SessionStep srv' i s s' c c')
    (hmove : srv.TaskMove i s c srv' s' c') : Hands srv srv' s s' c c' := by
  have hc := hstep.connection
  obtain ⟨hseat, hfits⟩ := hs.seated i s c hstep.session hc
  have hc' : srv'.registry.roster[i]? = some c' := by rw [hstep.seat.roster, if_pos rfl]
  cases hmove with
  | task moved =>
    obtain ⟨hh, hrooms⟩ := task_rooms hfits moved
    exact hands_same rfl hstep.same.1 hh hrooms hstep.closed
  | start fresh =>
    have hidle : ∀ id, ¬s.Holds id := by
      intro id hown
      have hh := fresh.symm.trans hown.1
      cases hh
    refine ⟨fun id hn => ?_, fun room id hm => ?_, fun _ hended => by cases hended⟩
    · have hadd := Registry.seatOf_addConnection hs.registry s.id id s.seat
      by_cases hid : s.id = id
      · exact Or.inl ⟨rfl, hid⟩
      · rw [if_neg hid] at hadd
        exact Or.inr ⟨fun hnone => hn (hadd.trans hnone), hidle id⟩
    · have hm' := (Registry.isMember_addConnection hs.registry s.id id s.seat room).mp hm
      exact Or.inr ⟨hm', fun hown => hidle id hown.1⟩
  | finish runs leaves =>
    obtain ⟨hseats, hmembers⟩ := Registry.teardown_tables hs.registry hc
    rw [← hseat] at hseats hmembers
    refine ⟨fun id hn => ?_, fun room id hm => ?_, fun _ _ => ⟨?_, rfl⟩⟩
    · have hremoved := hseats id
      by_cases hid : c.id = id
      · rw [if_pos hid] at hremoved
        exact absurd hremoved hn
      · rw [if_neg hid] at hremoved
        refine Or.inr ⟨fun hnone => hn (hremoved.trans hnone), fun hown => ?_⟩
        exact hid (hfits.id.symm.trans hown.2)
    · obtain ⟨hm', hnot⟩ := hmembers room id hm
      exact Or.inr ⟨hm', fun hown => hnot ⟨hown.1.2.symm.trans hfits.id, hown.2⟩⟩
    · rw [c.close_takeRooms]
  | handle runs goes waits seat answered =>
    refine hands_follows ?_ hfits.id rfl runs runs
    rw [← hseat] at hc hc'
    exact Registry.handle_follows hs.registry hc hc'

/-- What one session hands on, no other loses. -/
theorem Accounted.hands (h : srv.Accounted) (hstep : srv.SessionStep srv' i s s' c c')
    (hhands : Hands srv srv' s s' c c') : srv'.Accounted := by
  have here : srv'.Sits i s' c' := by
    refine ⟨?_, ?_⟩
    · rw [hstep.session_at, if_pos rfl]
    · rw [hstep.seat.roster, if_pos rfl]
  have there : ∀ {j t d}, i ≠ j → (srv'.Sits j t d ↔ srv.Sits j t d) := by
    intro j t d hj
    rw [Sits, Sits, hstep.session_at, if_neg hj, hstep.seat.roster, if_neg hj]
  have known : ∀ {t d}, srv.Sits i t d → t = s ∧ d = c := by
    intro t d hsits
    exact ⟨Option.some.inj (hsits.1.symm.trans hstep.session),
      Option.some.inj (hsits.2.symm.trans hstep.connection)⟩
  refine ⟨fun id hn => ?_, fun room id hm => ?_, fun j t d hsits hended => ?_⟩
  · rcases hhands.seats id hn with hown | ⟨hn, hother⟩
    · exact ⟨i, s', c', here, hown⟩
    · obtain ⟨j, t, d, hsits, hown⟩ := h.seats id hn
      refine ⟨j, t, d, (there ?_).mpr hsits, hown⟩
      rintro rfl
      exact hother ((known hsits).1 ▸ hown)
  · rcases hhands.members room id hm with ⟨hown, hr⟩ | ⟨hm, hother⟩
    · exact ⟨i, s', c', here, hown, hr⟩
    · obtain ⟨j, t, d, hsits, hown, hr⟩ := h.members room id hm
      refine ⟨j, t, d, (there ?_).mpr hsits, hown, hr⟩
      rintro rfl
      obtain ⟨rfl, rfl⟩ := known hsits
      exact hother ⟨hown, hr⟩
  · by_cases hj : i = j
    · subst hj
      cases Option.some.inj (hsits.1.symm.trans here.1)
      cases Option.some.inj (hsits.2.symm.trans here.2)
      exact hhands.cleared (h.cleared i s c ⟨hstep.session, hstep.connection⟩) hended
    · exact h.cleared j t d ((there hj).mp hsits) hended

end Hands

theorem Accounted.withRegistry {srv : Server} (h : srv.Accounted) {r : Registry}
    (hshards : r.shards = srv.registry.shards)
    (hbare : r.roster.map Connection.bare = srv.registry.roster.map Connection.bare) :
    Accounted { srv with registry := r } := by
  obtain ⟨_, hseats, hconcerns⟩ := Registry.shards_congr hshards
  have sits : ∀ {i s c}, srv.Sits i s c →
      ∃ c', Sits { srv with registry := r } i s c' ∧ c'.rooms = c.rooms := by
    intro i s c hsits
    obtain ⟨c', hc', hb⟩ := getElem?_of_map_eq hbare hsits.2
    have hrooms := congrArg Connection.rooms hb
    exact ⟨c', ⟨hsits.1, hc'⟩, hrooms⟩
  refine ⟨fun id hn => ?_, fun room id hm => ?_, fun i s c hsits hended => ?_⟩
  · rw [hseats] at hn
    obtain ⟨i, s, c, hsits, hown⟩ := h.seats id hn
    obtain ⟨c', hsits', _⟩ := sits hsits
    exact ⟨i, s, c', hsits', hown⟩
  · obtain ⟨i, s, c, hsits, hown, hr⟩ := h.members room id ((hconcerns id (.room room)).mp hm)
    obtain ⟨c', hsits', hrooms⟩ := sits hsits
    exact ⟨i, s, c', hsits', hown, hrooms ▸ hr⟩
  · obtain ⟨c₀, hc₀, hb⟩ := getElem?_of_map_eq hbare.symm hsits.2
    have hclosed := congrArg Connection.closed hb
    have hrooms := congrArg Connection.rooms hb
    simp only [Connection.bare] at hclosed hrooms
    obtain ⟨hc, hr⟩ := h.cleared i s c₀ ⟨hsits.1, hc₀⟩ hended
    exact ⟨hclosed.symm.trans hc, hrooms.symm.trans hr⟩

theorem Accounted.openSession {srv : Server} (h : srv.Accounted) (hs : srv.Housed) (id : ConnectionId)
    (answersPings : Bool) (wire : WireMode) :
    (srv.openSession id answersPings wire).1.Accounted := by
  obtain ⟨s₁, c₁, he, _, _, hfresh⟩ := srv.openSession_eq id answersPings wire
  rw [he]
  have sits : ∀ {i s c}, srv.Sits i s c → Sits { srv with
      registry := (srv.registry.seatConnection c₁).1
      sessions := srv.sessions ++ [s₁] } i s c := by
    intro i s c hsits
    refine ⟨?_, ?_⟩
    · rw [List.getElem?_append_left (List.getElem?_eq_some_iff.mp hsits.1).1, hsits.1]
    · rw [Registry.seatConnection,
        List.getElem?_append_left (List.getElem?_eq_some_iff.mp hsits.2).1, hsits.2]
  refine ⟨fun x hn => ?_, fun room x hm => ?_, fun i s c hsits hended => ?_⟩
  · obtain ⟨i, s, c, hsits, hown⟩ := h.seats x hn
    exact ⟨i, s, c, sits hsits, hown⟩
  · obtain ⟨i, s, c, hsits, hown, hr⟩ := h.members room x hm
    exact ⟨i, s, c, sits hsits, hown, hr⟩
  · have hlen := hs.seats
    rcases getElem?_snoc_cases hsits.1 with hi | ⟨hi, rfl⟩ <;>
      rcases getElem?_snoc_cases hsits.2 with hc | ⟨hc, rfl⟩
    · exact h.cleared i s c ⟨hi, hc⟩ hended
    · exact absurd (List.getElem?_eq_some_iff.mp hi).1 (by omega)
    · exact absurd (List.getElem?_eq_some_iff.mp hc).1 (by omega)
    · refine ⟨?_, hfresh.rooms⟩
      rcases hfresh.handler with hnew | ⟨_, hclosed⟩
      · exact absurd (hnew.symm.trans hended) (by simp)
      · exact hclosed

theorem create_accounted (settings : Settings) (identities : IdentitySource) (showsFigures : Bool) :
    (create settings identities showsFigures).Accounted := by
  refine ⟨fun id hn => ?_, fun room id hm => ?_, fun i s c hsits _ => ?_⟩
  · refine absurd ?_ hn
    rw [Registry.seatOf, create, Registry.create_shardFor]
    rfl
  · rw [Registry.IsMember, create, Registry.create_shardFor] at hm
    simp [Shard.empty, Shard.roomOf, Table.get?, Room.empty] at hm
  · have hnone := hsits.1
    simp [create] at hnone

end Server

theorem ServerTrace.Stepped.accounted {t t' : ServerTrace} (hstep : t.Stepped t')
    (hs : t.server.Housed) (h : t.server.Accounted) : t'.server.Accounted := by
  cases hstep with
  | idle => exact h
  | accept accepted => exact h
  | forward waits => exact ⟨h.seats, h.members, h.cleared⟩
  | merge moved => exact ⟨h.seats, h.members, h.cleared⟩
  | @commit m commit moved =>
    have hm : Server.Accounted { t.server with merge := m } := ⟨h.seats, h.members, h.cleared⟩
    obtain ⟨hshards, hroster⟩ :=
      t.server.registry.push_tables ⟨commit.target, commit.payload⟩
    exact hm.withRegistry hshards (congrArg _ hroster)
  | pipeline moved => exact h.withRegistry moved.unmoved.shards moved.unmoved.bare
  | clock => exact ⟨h.seats, h.members, h.cleared⟩
  | connect => exact h.openSession hs _ _ _
  | session moved how =>
    refine h.hands moved ?_
    rcases how with hmove | ⟨htold, rfl, hregistry⟩
    · exact hmove.hands hs moved
    · exact Server.hands_same (congrArg Registry.shards hregistry) htold.same.1 htold.tasks.2.1 rfl id

end RoomCast
