import RoomCast.Handler
import RoomCast.MergeLayer
import RoomCast.Proofs.FrameReading

namespace RoomCast

/-- A text that is an object of a kind and of data that is an object of a room, with blanks between the
pieces, the members in any order and others of unknown names among them. -/
def AsksFor (kind room text : String) : Prop :=
  ∃ ms k d ns g, ObjectText ms text ∧ ms.filter (·.1 = "type") = [("type", k)] ∧ k.Spells kind ∧
    ms.filter (·.1 = "data") = [("data", d)] ∧ ObjectText ns d.text ∧
    ns.filter (·.1 = "room") = [("room", g)] ∧ g.Spells room

theorem ObjectText.not_null {ms : List (String × Fragment)} {f : Fragment} (h : ObjectText ms f.text) :
    f.nullable = some f := by
  refine if_neg fun hnull => ?_
  obtain ⟨s, hs⟩ := h.start
  rw [hnull] at hs
  cases hs

namespace AsksFor

variable {kind kind' room text text' : String}

theorem frame (h : AsksFor kind room text) (hroom : room ≠ "") : ∃ e, Envelope.receive text = .ok e ∧
    e.kind = kind ∧ ∀ asked, roomOf asked e.data = .ok room := by
  obtain ⟨ms, k, d, ns, g, htext, htype, hkind, hdata, hobject, hone, hspells⟩ := h
  have hdecode : Envelope.decode text = .ok ⟨kind, some d⟩ :=
    Envelope.decode_members htext ⟨⟨k, htype, hkind⟩, .inr ⟨d, hdata, hobject.not_null.symm⟩⟩
  have hread := roomRecord_members hobject hone hspells
  refine ⟨⟨kind, some d⟩, by rw [Envelope.receive, hdecode]; rfl, rfl, fun asked => ?_⟩
  simp only [roomOf, hread, if_neg hroom]

theorem join (h : AsksFor "JOIN" room text) (hroom : room ≠ "") : ∃ e,
    Envelope.receive text = .ok e ∧ ClientRequest.ofEnvelope e = .ok (some (.join room)) := by
  obtain ⟨e, he, hkind, hdata⟩ := h.frame hroom
  refine ⟨e, he, ?_⟩
  simp [ClientRequest.ofEnvelope, hkind, hdata, bind, Except.bind, pure, Except.pure]

theorem leave (h : AsksFor "LEAVE" room text) (hroom : room ≠ "") : ∃ e,
    Envelope.receive text = .ok e ∧ ClientRequest.ofEnvelope e = .ok (some (.leave room)) := by
  obtain ⟨e, he, hkind, hdata⟩ := h.frame hroom
  refine ⟨e, he, ?_⟩
  simp [ClientRequest.ofEnvelope, hkind, hdata, bind, Except.bind, pure, Except.pure]

variable {e e' : Envelope}

/-- What a frame of such a text asks for is about the room. -/
theorem requested (h : AsksFor kind room text) (hroom : room ≠ "") (he : Envelope.receive text = .ok e)
    {name : String} (hname : e.Requests name) : name = room := by
  obtain ⟨e', he', _, hdata⟩ := h.frame hroom
  cases he.symm.trans he'
  have hkind := hname.kind
  obtain ⟨request, hrequest, hasked⟩ := hname
  obtain hkind | hkind := hkind
  all_goals
    simp only [ClientRequest.ofEnvelope, hkind, hdata, bind, Except.bind, pure, Except.pure] at hrequest
    cases hrequest
    exact (Option.some.inj hasked).symm

theorem same_request (h : AsksFor kind room text) (h' : AsksFor kind room text') (hroom : room ≠ "")
    (he : Envelope.receive text = .ok e) (he' : Envelope.receive text' = .ok e') :
    ClientRequest.ofEnvelope e = ClientRequest.ofEnvelope e' := by
  obtain ⟨_, hf, hkind, hdata⟩ := h.frame hroom
  obtain ⟨_, hf', hkind', hdata'⟩ := h'.frame hroom
  cases he.symm.trans hf
  cases he'.symm.trans hf'
  simp only [ClientRequest.ofEnvelope, hkind, hkind', hdata, hdata']

end AsksFor

/-- Whatever text spells a `JOIN` or a `LEAVE` of a room asks for that room, with the same effect on any
registry and one worker in any merge layer. -/
theorem room_names_survive {room : String} (hroom : room ≠ "") :
    (∀ text, AsksFor "JOIN" room text → ∃ e, Envelope.receive text = .ok e ∧
      ClientRequest.ofEnvelope e = .ok (some (.join room))) ∧
    (∀ text, AsksFor "LEAVE" room text → ∃ e, Envelope.receive text = .ok e ∧
      ClientRequest.ofEnvelope e = .ok (some (.leave room))) ∧
    ∀ kind kind' text text' e e', AsksFor kind room text → AsksFor kind' room text' →
      Envelope.receive text = .ok e → Envelope.receive text' = .ok e' →
      (kind = kind' → ∀ (r : Registry) (seat now : Nat),
        r.handle seat now e = r.handle seat now e') ∧
      ∀ name name', e.Requests name → e'.Requests name' →
        name = name' ∧ ∀ m : MergeLayer, m.laneOf (.room name) = m.laneOf (.room name') := by
  refine ⟨fun text h => h.join hroom, fun text h => h.leave hroom, ?_⟩
  intro kind kind' text text' e e' h h' he he'
  refine ⟨?_, fun name name' hname hname' => ?_⟩
  · rintro rfl r seat now
    rw [Registry.handle, Registry.handle, h.same_request h' hroom he he']
  · cases h.requested hroom he hname
    cases h'.requested hroom he' hname'
    exact ⟨rfl, fun m => rfl⟩

/-- A name as it is, and the same name with a pair of surrogates, an escape of one letter and units in
it, among other members. -/
theorem room_names_survive_escapes :
    (∃ e, Envelope.receive "\x7b\"type\":\"JOIN\",\"data\":\x7b\"room\":\"🚀/A\"\x7d\x7d" = .ok e ∧
      ClientRequest.ofEnvelope e = .ok (some (.join "🚀/A"))) ∧
    ∃ e, Envelope.receive ("\n\x7b \"x\" : [\x7b\"type\":1\x7d] ,\"data\":\t" ++
      "\x7b\"y\":null,\"\\u0072oom\":\"\\ud83d\\uDE80\\/\\u0041\"\x7d , " ++
      "\"\\u0074ype\":\"\\u004aOIN\" \x7d") = .ok e ∧
      ClientRequest.ofEnvelope e = .ok (some (.join "🚀/A")) := by
  have survive := (room_names_survive (show "🚀/A" ≠ "" by decide)).1
  exact ⟨survive _ ⟨_, _, _, _, _, noted_iff.mp rfl, rfl, Fragment.spells_of_read rfl rfl, rfl,
      noted_iff.mp rfl, rfl, Fragment.spells_of_read rfl rfl⟩,
    survive _ ⟨_, _, _, _, _, noted_iff.mp rfl, rfl, Fragment.spells_of_read rfl rfl, rfl,
      noted_iff.mp rfl, rfl, Fragment.spells_of_read rfl rfl⟩⟩

end RoomCast
