import RoomCast.Proofs.FrameReading
import RoomCast.Proofs.WrittenText

namespace RoomCast

theorem Fragment.nullable_some {f g : Fragment} (h : f.nullable = some g) : g = f ∧ f.text ≠ "null" := by
  unfold nullable at h
  split at h
  next => cases h
  next hnull => exact ⟨(Option.some.inj h).symm, hnull⟩

namespace Envelope

variable {text : String} {e : Envelope}

theorem decode_data (h : decode text = .ok e) {f : Fragment} (hf : e.data = some f) :
    f.Whole ∧ f.nullable = some f := by
  have carried : ∀ {g : Fragment}, g.Whole → e.data = g.nullable → f.Whole ∧ f.nullable = some f := by
    intro g hg hdata
    have hsome := hdata.symm.trans hf
    obtain ⟨rfl, _⟩ := Fragment.nullable_some hsome
    exact ⟨hg, hsome⟩
  obtain ⟨_, ⟨ms, hobject, _, hdata⟩ | ⟨fs, hlist, _, _, hdata⟩⟩ := decode_shape h
  · obtain ⟨_, hnone⟩ | ⟨g, hg, hdata⟩ := hdata
    · cases hnone.symm.trans hf
    · have hmem : ("data", g) ∈ ms.filter (·.1 = "data") := by simp [hg]
      exact carried (hobject.whole _ (List.mem_filter.mp hmem).1) hdata
  · obtain ⟨_, hnone⟩ | ⟨g, rfl, hdata⟩ := hdata
    · cases hnone.symm.trans hf
    · exact carried (hlist.whole g (by simp)) hdata

def encodedMembers (e : Envelope) : List (String × Fragment) :=
  ("type", ⟨String.ofList (literal e.kind)⟩) :: e.data.toList.map fun f => ("data", f)

theorem encode_eq (e : Envelope) : e.encode = writtenObject e.encodedMembers := by
  cases hd : e.data with
  | none => simp [encode, writtenObject, encodedMembers, hd]
  | some f => simp [encode, writtenObject, encodedMembers, hd]

theorem encoded_inMembers (hdata : ∀ f, e.data = some f → f.nullable = some f) :
    e.InMembers e.encodedMembers := by
  cases hd : e.data with
  | none =>
    have hms : e.encodedMembers = [("type", ⟨String.ofList (literal e.kind)⟩)] := by
      simp [encodedMembers, hd]
    rw [hms]
    exact ⟨⟨_, rfl, Fragment.spells_literal e.kind⟩, .inl ⟨rfl, hd⟩⟩
  | some f =>
    have hms : e.encodedMembers = [("type", ⟨String.ofList (literal e.kind)⟩), ("data", f)] := by
      simp [encodedMembers, hd]
    rw [hms]
    exact ⟨⟨_, rfl, Fragment.spells_literal e.kind⟩, .inr ⟨f, rfl, by rw [hd, hdata f hd]⟩⟩

/-- A frame with such data is decoded from how it is encoded. -/
theorem decode_encode (hdata : ∀ f, e.data = some f → f.Whole ∧ f.nullable = some f) :
    decode e.encode = .ok e := by
  have hwhole : ∀ m ∈ e.encodedMembers, m.2.Whole := by
    refine List.forall_mem_cons.mpr ⟨(Fragment.spells_literal e.kind).whole, fun m hm => ?_⟩
    obtain ⟨f, hf, rfl⟩ := List.mem_map.mp hm
    exact (hdata f (Option.mem_toList.mp hf)).1
  rw [encode_eq]
  exact decode_members (objectText_written hwhole) (encoded_inMembers fun f hf => (hdata f hf).2)

end Envelope

/-- A decoded frame is decoded again from its encoding, with the same kind and the same data, and is
encoded again to the same text. -/
theorem decoded_frames_encode_back {text : String} {e : Envelope} (h : Envelope.decode text = .ok e) :
    (∃ e', Envelope.decode e.encode = .ok e' ∧ e'.kind = e.kind ∧ e'.data = e.data ∧
      e'.encode = e.encode) ∧
    (∀ ms, ObjectText ms text → (∀ f, ("data", f) ∈ ms → f.text = "null") → e.data = none) ∧
    ∀ f fs, ListText (f :: fs) text → (∀ g ∈ fs, g.text = "null") → e.data = none := by
  refine ⟨⟨e, Envelope.decode_encode fun f hf => Envelope.decode_data h hf, rfl, rfl, rfl⟩, ?_, ?_⟩
  · intro ms hms hnull
    obtain ⟨_, hnone | ⟨f, hf, hdata⟩⟩ := (Envelope.decode_iff hms).mp h
    · exact hnone.2
    · have hmem : ("data", f) ∈ ms.filter (·.1 = "data") := by simp [hf]
      rw [hdata]
      exact if_pos (hnull f (List.mem_filter.mp hmem).1)
  · intro f fs hlist hnull
    obtain ⟨_, ⟨ms, hobject, _⟩ | ⟨fs', hlist', _, _, hdata⟩⟩ := Envelope.decode_shape h
    · exact absurd hobject hlist.not_object
    · have hsame : fs' = f :: fs :=
        Option.some.inj ((fragmentsOf_iff.mpr hlist').symm.trans (fragmentsOf_iff.mpr hlist))
      subst hsame
      obtain ⟨_, hnone⟩ | ⟨g, hg, hdata⟩ := hdata
      · exact hnone
      · cases hg
        rw [hdata]
        exact if_pos (hnull g (by simp))

/-- A list of a kind with a quote, a backslash, a control character and a pair of surrogates in it, and
of data with blanks inside. -/
theorem decoded_frames_encode_back_odd_kind :
    Envelope.decode " [ \"\\\"\\\\\\u0001\\ud83d\\ude80\" , [ 1 , 2 ] ]" =
      .ok ⟨"\"\\\x01🚀", some ⟨"[ 1 , 2 ]"⟩⟩ ∧
    ∃ e', Envelope.decode (Envelope.encode ⟨"\"\\\x01🚀", some ⟨"[ 1 , 2 ]"⟩⟩) = .ok e' ∧
      e'.kind = "\"\\\x01🚀" ∧ e'.data = some ⟨"[ 1 , 2 ]"⟩ ∧
      e'.encode = Envelope.encode ⟨"\"\\\x01🚀", some ⟨"[ 1 , 2 ]"⟩⟩ := by
  have hdecode : Envelope.decode " [ \"\\\"\\\\\\u0001\\ud83d\\ude80\" , [ 1 , 2 ] ]" =
      .ok ⟨"\"\\\x01🚀", some ⟨"[ 1 , 2 ]"⟩⟩ := rfl
  exact ⟨hdecode, (decoded_frames_encode_back hdecode).1⟩

end RoomCast
