import RoomCast.Proofs.RecordShape
import RoomCast.Proofs.SessionTasks

namespace RoomCast

/-- A fragment as the data of a frame: `null` is none. -/
def Fragment.nullable (f : Fragment) : Option Fragment := if f.text = "null" then none else some f

theorem readNullable_starts {s t : List Char} {data : Option Fragment}
    (h : Fragment.readNullable s = .ok (data, t)) :
    ∃ f : Fragment, Starts f s t ∧ data = f.nullable := by
  obtain ⟨blanks, hb, hs⟩ := skipBlanks_split s
  unfold Fragment.readNullable at h
  split at h
  next r hn =>
    obtain ⟨_, hw, h⟩ := bind_ok h
    cases h
    refine ⟨⟨"null"⟩, ⟨blanks, hb, ?_, rfl⟩, by simp [Fragment.nullable]⟩
    rw [hs, hn, readWord_ok hw]
    simp
  next hn =>
    obtain ⟨⟨f, _⟩, hf, h⟩ := bind_ok h
    cases h
    obtain ⟨between, hbetween, hstart, hw⟩ := read_verbatim hf
    refine ⟨f, ⟨blanks ++ between, List.forall_mem_append.mpr ⟨hb, hbetween⟩, ?_, hw⟩, ?_⟩
    · rw [hs, hstart]
      simp
    · have hword : f.text ≠ "null" := by
        intro htext
        rw [htext] at hstart
        cases between with
        | nil => exact hn _ hstart
        | cons c between =>
          have hblank := hbetween c List.mem_cons_self
          rw [skipBlanks_head hstart] at hblank
          cases hblank
      rw [Fragment.nullable, if_neg hword]

namespace Envelope

def Sets (name : String) (draft : Option String × Option Fragment) (f : Fragment)
    (draft' : Option String × Option Fragment) : Prop :=
  (name = "type" ∧ draft'.2 = draft.2 ∧ ∃ kind, f.Spells kind ∧ draft'.1 = some kind) ∨
  (name = "data" ∧ draft'.1 = draft.1 ∧ draft'.2 = f.nullable)

theorem record_takes : ∀ field ∈ record.fields, field.Takes Sets := by
  intro field hfield
  simp only [record, List.mem_cons, List.not_mem_nil, or_false] at hfield
  obtain rfl | rfl := hfield
  · intro draft draft' s t h
    obtain ⟨⟨kind, _⟩, hr, h⟩ := bind_ok h
    cases h
    obtain ⟨f, hf, hspells⟩ := readTextValue_spells hr
    exact ⟨f, hf, .inl ⟨rfl, rfl, kind, hspells, rfl⟩⟩
  · intro draft draft' s t h
    obtain ⟨⟨_, _⟩, hr, h⟩ := bind_ok h
    cases h
    obtain ⟨f, hf, hdata⟩ := readNullable_starts hr
    exact ⟨f, hf, .inr ⟨rfl, rfl, hdata⟩⟩

/-- A frame that stands as an object of some members: one `type` and at most one `data`. -/
def InMembers (e : Envelope) (ms : List (String × Fragment)) : Prop :=
  (∃ f : Fragment, ms.filter (·.1 = "type") = [("type", f)] ∧ f.Spells e.kind) ∧
  ((ms.filter (·.1 = "data") = [] ∧ e.data = none) ∨
    ∃ f : Fragment, ms.filter (·.1 = "data") = [("data", f)] ∧ e.data = f.nullable)

/-- A frame that stands as a list of its type and its data, if any. -/
def InItems (e : Envelope) (fs : List Fragment) : Prop :=
  ∃ f : Fragment, f.Spells e.kind ∧
    ((fs = [f] ∧ e.data = none) ∨ ∃ data, fs = [f, data] ∧ e.data = data.nullable)

theorem inMembers_of_filled {ms : List (String × Fragment)}
    {state : List String × (Option String × Option Fragment)} {e : Envelope}
    (h : Filled Sets record.fields ([], record.draft) ms state)
    (he : record.ofObject state.1 state.2 = .ok e) : e.InMembers ms := by
  obtain ⟨names, kind, data⟩ := state
  have htype := h.field (fun draft => draft.1) (by
    rintro name d d' f hne (⟨hname, _⟩ | ⟨_, hkind, _⟩)
    · exact absurd hname hne
    · exact hkind) (show "type" ∈ record.fields.map (·.name) by simp [record])
  have hdata := h.field (fun draft => draft.2) (by
    rintro name d d' f hne (⟨_, hcarried, _⟩ | ⟨hname, _⟩)
    · exact hcarried
    · exact absurd hname hne) (show "data" ∈ record.fields.map (·.name) by simp [record])
  cases kind with
  | none => cases he
  | some kind =>
    cases he
    refine ⟨?_, ?_⟩
    · obtain ⟨_, hnone⟩ | ⟨_, f, d, d', hone, _, ⟨_, _, v, hspells, hkind⟩ | ⟨hname, _⟩, hlast⟩ := htype
      · cases hnone
      · cases hlast.trans hkind
        exact ⟨f, hone, hspells⟩
      · exact absurd hname (by decide)
    · obtain ⟨hnone, hlast⟩ | ⟨_, f, d, d', hone, _, ⟨hname, _⟩ | ⟨_, _, hcarried⟩, hlast⟩ := hdata
      · exact .inl ⟨hnone, hlast⟩
      · exact absurd hname (by decide)
      · exact .inr ⟨f, hone, hlast.trans hcarried⟩

theorem inItems_of_laid {fs : List Fragment}
    {state : List String × (Option String × Option Fragment)} {e : Envelope}
    (h : Laid Sets record.fields ([], record.draft) fs state)
    (he : record.ofList state.1 state.2 = .ok e) : e.InItems fs := by
  cases h with
  | done => cases he
  | item hset htail =>
    rename_i draft f fs
    obtain ⟨_, hdata, kind, hspells, hkind⟩ | ⟨hname, _⟩ := hset
    · cases htail with
      | done =>
        obtain ⟨_, _⟩ := draft
        cases hkind
        cases hdata
        cases he
        exact ⟨f, hspells, .inl ⟨rfl, rfl⟩⟩
      | item hset htail =>
        rename_i draft' g gs
        obtain ⟨hname, _⟩ | ⟨_, hkept, hcarried⟩ := hset
        · exact absurd hname (by decide)
        · cases htail
          obtain ⟨_, _⟩ := draft'
          cases hkept.trans hkind
          cases hcarried
          cases he
          exact ⟨f, hspells, .inr ⟨g, rfl, rfl⟩⟩
    · exact absurd hname (by decide)

theorem decode_shape {text : String} {e : Envelope} (h : decode text = .ok e) :
    Document text ∧ ((∃ ms, ObjectText ms text ∧ e.InMembers ms) ∨
      ∃ fs, ListText fs text ∧ e.InItems fs) := by
  obtain ⟨state, ⟨ms, htext, hfilled, he⟩ | ⟨fs, htext, hlaid, he⟩⟩ :=
    TextRecord.readAll_shape record_takes h
  · exact ⟨htext.document, .inl ⟨ms, htext, inMembers_of_filled hfilled he⟩⟩
  · exact ⟨htext.document, .inr ⟨fs, htext, inItems_of_laid hlaid he⟩⟩

theorem receive_ok {text : String} {e : Envelope} (h : receive text = .ok e) :
    decode text = .ok e := by
  unfold receive at h
  cases hd : decode text with
  | error cause =>
    rw [hd] at h
    cases h
  | ok e' =>
    rw [hd] at h
    cases h
    rfl

theorem receive_error {text : String} {cause : ProtocolError} (h : receive text = .error cause) :
    ∃ json, cause = .invalidEnvelope json := by
  unfold receive at h
  cases hd : decode text with
  | error json =>
    rw [hd] at h
    exact ⟨json, (Except.error.inj h).symm⟩
  | ok e =>
    rw [hd] at h
    cases h

end Envelope

/-- Data that is an object names a room, and no empty one, as its one `room`. -/
def NamesRoom (data : Option Fragment) (room : String) : Prop :=
  ∃ f g : Fragment, ∃ ms, data = some f ∧ ObjectText ms f.text ∧
    ms.filter (·.1 = "room") = [("room", g)] ∧ g.Spells room ∧ room ≠ ""

/-- Data that is a list holds a room, and no empty one, as its one item. -/
def HoldsRoom (data : Option Fragment) (room : String) : Prop :=
  ∃ f g : Fragment, data = some f ∧ ListText [g] f.text ∧ g.Spells room ∧ room ≠ ""

theorem HoldsRoom.not_names {data : Option Fragment} {room other : String}
    (h : HoldsRoom data room) : ¬NamesRoom data other := by
  obtain ⟨f, g, rfl, hlist, _, _⟩ := h
  rintro ⟨f', g', ms, he, hobject, _⟩
  cases Option.some.inj he
  exact hlist.not_object hobject

theorem roomRecord_takes : ∀ field ∈ roomRecord.fields,
    field.Takes fun name _ f room => name = "room" ∧ f.Spells room := by
  intro field hfield
  simp only [roomRecord, List.mem_cons, List.not_mem_nil, or_false] at hfield
  subst hfield
  intro draft draft' s t h
  obtain ⟨f, hf, hspells⟩ := readTextValue_spells h
  exact ⟨f, hf, rfl, hspells⟩

theorem roomRecord_shape {f : Fragment} {room : String} (hroom : room ≠ "")
    (h : roomRecord.read.readAll f.text = .ok room) :
    NamesRoom (some f) room ∨ HoldsRoom (some f) room := by
  obtain ⟨⟨names, last⟩, ⟨ms, htext, hfilled, he⟩ | ⟨fs, htext, hlaid, he⟩⟩ :=
    TextRecord.readAll_shape roomRecord_takes h
  · cases he
    obtain ⟨_, hnone⟩ | ⟨_, g, d, d', hone, _, ⟨_, hspells⟩, hlast⟩ := hfilled.field id
      (fun hne hset => absurd hset.1 hne)
      (show "room" ∈ roomRecord.fields.map (·.name) by simp [roomRecord])
    · exact absurd hnone hroom
    · cases hlast
      exact .inl ⟨f, g, ms, rfl, htext, hone, hspells, hroom⟩
  · cases he
    cases hlaid with
    | done => exact absurd rfl hroom
    | item hset htail =>
      cases htail
      exact .inr ⟨f, _, rfl, htext, hset.2, hroom⟩

/-- The room of a membership request, or why there is none. -/
theorem roomOf_cases (kind : String) (data : Option Fragment) :
    (∃ room, roomOf kind data = .ok room ∧ (NamesRoom data room ∨ HoldsRoom data room)) ∨
      ∃ cause, roomOf kind data = .error cause ∧ cause.isFatal = false := by
  cases data with
  | none => exact .inr ⟨.missingRoom kind, rfl, rfl⟩
  | some f =>
    simp only [roomOf]
    cases hr : roomRecord.read.readAll f.text with
    | error cause => exact .inr ⟨.malformedData kind cause, rfl, rfl⟩
    | ok room =>
      by_cases hroom : room = ""
      · exact .inr ⟨.missingRoom kind, if_pos hroom, rfl⟩
      · exact .inl ⟨room, if_neg hroom, roomRecord_shape hroom hr⟩

/-- A text that is no frame ends the reader that meets it, and closes the connection. -/
theorem readerStep_undecodable {s : Session} {c : Connection} {text : String}
    {rest : List ClientMessage} {cause : ProtocolError} (hreads : s.reader = .reading)
    (hnext : s.incoming = .text text :: rest) (h : Envelope.receive text = .error cause) :
    ∃ s' c', s.readerStep c = some (s', c') ∧ s'.reader = .ended ∧ c'.closed = true := by
  have hclosed : c.close.1.closed = true := c.close_closed
  unfold Session.readerStep
  simp only [hreads, hnext, h]
  split
  next => exact ⟨_, _, rfl, rfl, hclosed⟩
  next => exact ⟨_, _, rfl, rfl, hclosed⟩

def ClientRequest.room? : ClientRequest → Option String
  | .ping => none
  | .join room => some room
  | .leave room => some room

/-- Whether a frame makes a request about a room. -/
def Envelope.Requests (e : Envelope) (room : String) : Prop :=
  ∃ request, ClientRequest.ofEnvelope e = .ok (some request) ∧ request.room? = some room

theorem Envelope.request_cases {e : Envelope} (hkind : e.kind = "JOIN" ∨ e.kind = "LEAVE") :
    (∃ request room, ClientRequest.ofEnvelope e = .ok (some request) ∧ request.room? = some room ∧
      (NamesRoom e.data room ∨ HoldsRoom e.data room)) ∨
    ∃ cause, ClientRequest.ofEnvelope e = .error cause ∧ cause.isFatal = false := by
  obtain hkind | hkind := hkind
  · obtain ⟨room, hr, hnames⟩ | ⟨cause, hr, hfatal⟩ := roomOf_cases "JOIN" e.data
    · refine .inl ⟨.join room, room, ?_, rfl, hnames⟩
      simp [ClientRequest.ofEnvelope, hkind, hr, bind, Except.bind, pure, Except.pure]
    · refine .inr ⟨cause, ?_, hfatal⟩
      simp [ClientRequest.ofEnvelope, hkind, hr, bind, Except.bind]
  · obtain ⟨room, hr, hnames⟩ | ⟨cause, hr, hfatal⟩ := roomOf_cases "LEAVE" e.data
    · refine .inl ⟨.leave room, room, ?_, rfl, hnames⟩
      simp [ClientRequest.ofEnvelope, hkind, hr, bind, Except.bind, pure, Except.pure]
    · refine .inr ⟨cause, ?_, hfatal⟩
      simp [ClientRequest.ofEnvelope, hkind, hr, bind, Except.bind]

theorem Envelope.Requests.kind {e : Envelope} {room : String} (h : e.Requests room) :
    e.kind = "JOIN" ∨ e.kind = "LEAVE" := by
  obtain ⟨request, hrequest, hroom⟩ := h
  by_cases hjoin : e.kind = "JOIN"
  · exact .inl hjoin
  · by_cases hleave : e.kind = "LEAVE"
    · exact .inr hleave
    · -- of the other kinds only a `PING` makes a request, and that has no room
      unfold ClientRequest.ofEnvelope at hrequest
      rw [if_neg hjoin, if_neg hleave] at hrequest
      split at hrequest
      all_goals cases hrequest
      cases hroom

theorem Envelope.Requests.room {e : Envelope} {room : String} (h : e.Requests room) :
    NamesRoom e.data room ∨ HoldsRoom e.data room := by
  obtain ⟨request, hrequest, hroom⟩ := h
  obtain ⟨request', room', hrequest', hroom', hnames⟩ | ⟨cause, herror, _⟩ :=
    request_cases (Requests.kind ⟨request, hrequest, hroom⟩)
  · cases hrequest.symm.trans hrequest'
    cases hroom.symm.trans hroom'
    exact hnames
  · cases hrequest.symm.trans herror

/-- A frame is an object of a `type` and perhaps a `data`, or a list of the two, and the data of a
membership request is an object or a list of its room. -/
theorem frames_are_objects_or_lists (text : String) (e : Envelope) :
    (Envelope.receive text = .ok e → Document text ∧
      ((∃ ms, ObjectText ms text ∧ e.InMembers ms) ∨ ∃ fs, ListText fs text ∧ e.InItems fs)) ∧
    ((Envelope.receive text = .ok e → ∃ ms, ObjectText ms text ∧ e.InMembers ms) ↔
      ¬(Envelope.receive text = .ok e ∧ ∃ fs, ListText fs text ∧ e.InItems fs)) ∧
    (∀ cause, Envelope.receive text = .error cause →
      (∃ json, cause = .invalidEnvelope json) ∧ cause.isFatal = true ∧
      ∀ (s : Session) (c : Connection) (rest : List ClientMessage), s.reader = .reading →
        s.incoming = .text text :: rest →
        ∃ s' c', s.readerStep c = some (s', c') ∧ s'.reader = .ended ∧ c'.closed = true) ∧
    (e.kind = "JOIN" ∨ e.kind = "LEAVE" →
      (∃ room, e.Requests room ∧ (NamesRoom e.data room ∨ HoldsRoom e.data room)) ∨
        ∃ cause, ClientRequest.ofEnvelope e = .error cause ∧ cause.isFatal = false) ∧
    ((∀ room, e.Requests room → NamesRoom e.data room) ↔
      ¬∃ room, e.Requests room ∧ HoldsRoom e.data room) := by
  have hshape : Envelope.receive text = .ok e → Document text ∧
      ((∃ ms, ObjectText ms text ∧ e.InMembers ms) ∨ ∃ fs, ListText fs text ∧ e.InItems fs) :=
    fun h => Envelope.decode_shape (Envelope.receive_ok h)
  refine ⟨hshape, ⟨fun hobject => ?_, fun hno h => ?_⟩, fun cause h => ?_, fun hkind => ?_,
    ⟨fun hnames => ?_, fun hno room hr => ?_⟩⟩
  · rintro ⟨h, fs, hlist, _⟩
    obtain ⟨ms, htext, _⟩ := hobject h
    exact hlist.not_object htext
  · exact (hshape h).2.resolve_right fun hlist => hno ⟨h, hlist⟩
  · obtain ⟨json, rfl⟩ := Envelope.receive_error h
    exact ⟨⟨json, rfl⟩, rfl, fun s c rest hreads hnext => readerStep_undecodable hreads hnext h⟩
  · obtain ⟨request, room, hrequest, hroom, hnames⟩ | herror := Envelope.request_cases hkind
    · exact .inl ⟨room, ⟨request, hrequest, hroom⟩, hnames⟩
    · exact .inr herror
  · rintro ⟨room, hr, hholds⟩
    exact hholds.not_names (hnames room hr)
  · exact hr.room.resolve_right fun hholds => hno ⟨room, hr, hholds⟩

/-- A list of one word is taken as a `PING`, and a list of one name as the room of a `JOIN`, though
neither is an object. -/
theorem bare_lists_taken :
    (Envelope.receive "[\"PING\"]" = .ok ⟨"PING", none⟩ ∧ ¬∃ ms, ObjectText ms "[\"PING\"]") ∧
    ClientRequest.ofEnvelope ⟨"JOIN", some ⟨"[\"lobby\"]"⟩⟩ = .ok (some (.join "lobby")) ∧
      ¬∃ ms, ObjectText ms "[\"lobby\"]" := by
  have unlike : ∀ (text : String) (s : List Char), skipBlanks text.toList = '[' :: s →
      ¬∃ ms, ObjectText ms text := by
    rintro text s hs ⟨ms, hobject⟩
    obtain ⟨_, hstart⟩ := hobject.start
    cases hs.symm.trans hstart
  exact ⟨⟨rfl, unlike _ _ rfl⟩, rfl, unlike _ _ rfl⟩

end RoomCast
