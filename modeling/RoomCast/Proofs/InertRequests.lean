import RoomCast.Proofs.SessionPart

namespace RoomCast

namespace ClientRequest

theorem ofEnvelope_ping_iff (e : Envelope) : ofEnvelope e = .ok (some .ping) ↔ e.kind = "PING" := by
  unfold ofEnvelope
  split
  next hk => simp [hk]
  next hk =>
    refine iff_of_false (fun h => ?_) hk
    split at h
    next => cases hr : roomOf "JOIN" e.data <;> simp [hr, bind, Except.bind, pure, Except.pure] at h
    next =>
      split at h
      next => cases hr : roomOf "LEAVE" e.data <;> simp [hr, bind, Except.bind, pure, Except.pure] at h
      next => simp at h

theorem ofEnvelope_none_iff (e : Envelope) :
    ofEnvelope e = .ok none ↔ e.kind ∉ ["PING", "JOIN", "LEAVE"] := by
  unfold ofEnvelope
  split
  next hk => simp [hk]
  next hping =>
    split
    next hk =>
      refine iff_of_false (fun h => ?_) (by simp [hk])
      cases hr : roomOf "JOIN" e.data <;> simp [hr, bind, Except.bind, pure, Except.pure] at h
    next hjoin =>
      split
      next hk =>
        refine iff_of_false (fun h => ?_) (by simp [hk])
        cases hr : roomOf "LEAVE" e.data <;> simp [hr, bind, Except.bind, pure, Except.pure] at h
      next hleave => simp [hping, hjoin, hleave]

end ClientRequest

/-- Whether a frame asks for nothing, or for what its connection cannot be given. -/
inductive Refused (r : Registry) (c : Connection) (e : Envelope) : Prop where
  | unknown (kind : e.kind ∉ ["PING", "JOIN", "LEAVE"])
  | malformed {cause : ProtocolError} (fails : ClientRequest.ofEnvelope e = .error cause)
  | joined {room : String} (asks : ClientRequest.ofEnvelope e = .ok (some (.join room)))
      (member : room ∈ c.rooms ∨ r.IsMember room c.id)
  | capped {room : String} (asks : ClientRequest.ofEnvelope e = .ok (some (.join room)))
      (full : c.roomLimit ≤ c.rooms.length)
  | stranger {room : String} (asks : ClientRequest.ofEnvelope e = .ok (some (.leave room)))
      (outside : room ∉ c.rooms ∨ ¬r.IsMember room c.id)

namespace Registry

section Requests

variable {r : Registry} {seat : Nat} {c : Connection} (hc : r.roster[seat]? = some c)
  (ha : ∀ room, room ∈ c.rooms ↔ r.IsMember room c.id)

include hc in
theorem join_refused {room : String} (h : c.roomLimit ≤ c.rooms.length ∨ room ∈ c.rooms) :
    r.join seat room = r := by
  simp only [join, connection?, hc]
  by_cases hfull : c.roomLimit ≤ c.rooms.length
  · rw [if_pos hfull]
  · have hm : room ∈ c.rooms := h.resolve_left hfull
    rw [if_neg hfull, if_pos (by simpa [Connection.isMember] using hm)]

include hc in
theorem leave_refused {room : String} (h : room ∉ c.rooms) : r.leave seat room = r := by
  simp only [leave, connection?, hc]
  rw [if_neg (by simpa [Connection.isMember] using h)]

include hc ha in
theorem handle_refused {e : Envelope} (h : Refused r c e) (now : Nat) : r.handle seat now e = r := by
  cases h with
  | unknown kind => rw [handle, (ClientRequest.ofEnvelope_none_iff e).mpr kind]
  | malformed fails => rw [handle, fails]
  | @joined room asks member =>
    have hm : room ∈ c.rooms := member.elim id (ha room).mpr
    rw [handle, asks]
    exact join_refused hc (Or.inr hm)
  | @capped room asks full =>
    rw [handle, asks]
    exact join_refused hc (Or.inl full)
  | @stranger room asks outside =>
    have hm : room ∉ c.rooms := outside.elim id fun hnot hin => hnot ((ha room).mp hin)
    rw [handle, asks]
    exact leave_refused hc hm

end Requests

end Registry

/-- What is not refused, and is no ping, changes the rooms of its connection. -/
theorem Connection.handle_rooms_ne {r : Registry} {c : Connection} {e : Envelope}
    (hping : e.kind ≠ "PING") (h : ¬Refused r c e) (now : Nat) :
    (c.handle now e).rooms ≠ c.rooms := by
  cases hreq : ClientRequest.ofEnvelope e with
  | error cause => exact absurd (.malformed hreq) h
  | ok request =>
    have hframe : ClientRequest.ofFrame e = request := by rw [ClientRequest.ofFrame, hreq]
    cases request with
    | none => exact absurd (.unknown ((ClientRequest.ofEnvelope_none_iff e).mp hreq)) h
    | some request =>
      cases request with
      | ping => exact absurd ((ClientRequest.ofEnvelope_ping_iff e).mp hreq) hping
      | join room =>
        have hfull : ¬c.roomLimit ≤ c.rooms.length := fun hf => h (.capped hreq hf)
        have hnew : room ∉ c.rooms := fun hm => h (.joined hreq (Or.inl hm))
        have hrooms : (c.handle now e).rooms =
            insertOrdered (fun a b => decide (a < b)) room c.rooms := by
          simp [handle, hframe, answer, hfull, recordJoin, isMember, hnew]
        intro hsame
        have hin : room ∈ (c.handle now e).rooms := by
          rw [hrooms, mem_insertOrdered]
          exact Or.inl rfl
        exact hnew (hsame ▸ hin)
      | leave room =>
        have hm : room ∈ c.rooms := by
          by_contra hm
          exact h (.stranger hreq (Or.inl hm))
        have hrooms : (c.handle now e).rooms = c.rooms.filter (· ≠ room) := by
          simp [handle, hframe, answer, recordLeave, isMember, hm]
        intro hsame
        have hout : room ∉ (c.handle now e).rooms := by
          rw [hrooms]
          simp
        exact hout (hsame ▸ hm)

/-- Refused frames leave the whole registry as it was, and other frames but pings do not. No frame closes
a connection or touches another one. -/
theorem bad_requests_are_inert {settings : RegistrySettings} {events : List MembershipEvent}
    {r : Registry} (h : MembershipRun settings events r) {seat : Nat} {c : Connection}
    (hc : r.roster[seat]? = some c) (now : Nat) (e : Envelope) :
    let r' := r.handle seat now e
    (Refused r c e → r' = r) ∧
    (e.kind ≠ "PING" → r' = r → Refused r c e) ∧
    (∀ (i : Nat) (d : Connection), r.roster[i]? = some d → ∃ d', r'.roster[i]? = some d' ∧
      d'.closed = d.closed ∧ (i ≠ seat → d' = d)) ∧
    (∀ id, r'.seatOf id = r.seatOf id) ∧
    ∀ room id, id ≠ c.id → (r'.IsMember room id ↔ r.IsMember room id) := by
  intro r'
  have hattended := run_attended h
  have hkept := hattended.kept seat c hc
  have heffect := Registry.handle_effect hattended.sound hc hkept.agree hkept.nodup now e
  refine ⟨fun hbad => Registry.handle_refused hc hkept.agree hbad now, fun hping hsame => ?_,
    fun i d hd => ?_, fun id => ?_, fun room id hne => ?_⟩
  · by_contra hbad
    have hown : r'.roster[seat]? = some (c.handle now e) := by rw [heffect.roster, if_pos rfl]
    rw [hsame, hc] at hown
    have hrooms := congrArg Connection.rooms (Option.some.inj hown)
    exact Connection.handle_rooms_ne hping hbad now hrooms.symm
  · rw [heffect.roster]
    by_cases hi : seat = i
    · subst hi
      cases Option.some.inj (hc.symm.trans hd)
      exact ⟨c.handle now e, if_pos rfl, (c.handle_answered now e).closed, fun hne => absurd rfl hne⟩
    · exact ⟨d, by rw [if_neg hi, hd], rfl, fun _ => rfl⟩
  · rw [heffect.seats]
    by_cases hid : id = c.id
    · rw [if_pos hid, hid]
    · rw [if_neg hid]
  · rw [heffect.members, if_neg hne]

/-- A connection that has joined the one room it may is refused a second one, and a room without a name;
leaving its room is not refused. -/
theorem second_room_leaves_no_trace :
    let events : List MembershipEvent := [.connect ⟨7⟩ ⟨1, 4, 1⟩ 0, .register 0,
      .handle 0 5 ⟨"JOIN", some ⟨"\x7b\"room\":\"a\"\x7d"⟩⟩]
    let r := events.foldl Registry.after (.create ⟨3, 1, 1, 1, 1⟩)
    MembershipRun ⟨3, 1, 1, 1, 1⟩ events r ∧
      r.handle 0 6 ⟨"JOIN", some ⟨"\x7b\"room\":\"b\"\x7d"⟩⟩ = r ∧ r.handle 0 6 ⟨"JOIN", none⟩ = r ∧
      r.handle 0 6 ⟨"LEAVE", some ⟨"\x7b\"room\":\"a\"\x7d"⟩⟩ ≠ r := by
  intro events r
  have hrun : MembershipRun ⟨3, 1, 1, 1, 1⟩ events r := by
    refine .event _ (.event _ (.event _ .start ?_) ?_) ?_
    · exact List.not_mem_nil
    · exact ⟨by decide, by simp⟩
    · simp [MayFollow, Live]
  have hseat : (r.roster[0]?).map (fun c => (c.rooms, c.roomLimit)) = some (["a"], 1) := by
    decide +kernel
  obtain ⟨c, hc, he⟩ := Option.map_eq_some_iff.mp hseat
  obtain ⟨hrooms, hlimit⟩ := Prod.mk.inj he
  have hasks : ClientRequest.ofEnvelope ⟨"JOIN", some ⟨"\x7b\"room\":\"b\"\x7d"⟩⟩ =
      .ok (some (.join "b")) := by rfl
  have hfails : ClientRequest.ofEnvelope ⟨"JOIN", none⟩ = .error (.missingRoom "JOIN") := by rfl
  have hfull : c.roomLimit ≤ c.rooms.length := by simp [hrooms, hlimit]
  refine ⟨hrun, ?_, ?_, fun hsame => ?_⟩
  · exact (bad_requests_are_inert hrun hc 6 _).1 (.capped hasks hfull)
  · exact (bad_requests_are_inert hrun hc 6 _).1 (.malformed hfails)
  · have hleft : ((r.handle 0 6 ⟨"LEAVE", some ⟨"\x7b\"room\":\"a\"\x7d"⟩⟩).roster[0]?).map
        (·.rooms) = some [] := by decide +kernel
    rw [hsame, hc, Option.map_some, hrooms] at hleft
    simp at hleft

end RoomCast
