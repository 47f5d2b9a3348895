import RoomCast.Proofs.FrameReading
import RoomCast.Proofs.WrittenText

namespace RoomCast

namespace PushPayload

def member (p : PushPayload) : String × Fragment :=
  ("items", ⟨String.ofList (bracketed (piecesOf p.items))⟩)

theorem encode_eq (p : PushPayload) : p.encode = writtenObject [p.member] := by
  simp [encode, written, writtenObject, member, piecesOf]

variable {p : PushPayload} (hw : ∀ f ∈ p.items, f.Whole)

include hw

theorem member_whole : ∀ m ∈ [p.member], m.2.Whole :=
  List.forall_mem_singleton.mpr (bracketed_whole hw)

theorem encode_whole : (Fragment.mk p.encode).Whole := by
  rw [encode_eq]
  exact writtenObject_whole (member_whole hw)

theorem decode_encode : decode p.encode = .ok p := by
  have hfills : Fills (TextRecord.readMember record.fields) ([], record.draft) [p.member]
      (["items"], p.items) :=
    .member (TextRecord.takes_field rfl (by simp) (readFragments_written hw)) .done
  rw [encode_eq]
  exact TextRecord.readAll_members (objectText_written (member_whole hw)) hfills rfl

theorem decode_frame : Envelope.decode p.frame = .ok ⟨"PUSH", some ⟨p.encode⟩⟩ := by
  have hkind : (Fragment.mk (String.ofList (literal "PUSH"))).Spells "PUSH" :=
    Fragment.spells_literal "PUSH"
  have hmembers : ∀ m ∈ [("type", Fragment.mk (String.ofList (literal "PUSH"))),
      ("data", Fragment.mk p.encode)], m.2.Whole :=
    List.forall_mem_cons.mpr ⟨hkind.whole, List.forall_mem_singleton.mpr (encode_whole hw)⟩
  have hframe : p.frame = writtenObject [("type", ⟨String.ofList (literal "PUSH")⟩),
      ("data", ⟨p.encode⟩)] := by
    simp [frame, writtenObject, encode]
  have hdata : some (Fragment.mk p.encode) = Fragment.nullable ⟨p.encode⟩ := by
    refine (if_neg fun hnull => ?_).symm
    have hstart := congrArg String.toList hnull
    rw [encode_eq, writtenObject_eq] at hstart
    cases hstart
  rw [hframe]
  exact Envelope.decode_members (objectText_written hmembers)
    ⟨⟨_, rfl, hkind⟩, .inr ⟨_, rfl, hdata⟩⟩

end PushPayload

/-- The texts that are taken as fragments make up a payload, each without the blanks around it. -/
theorem readTexts_accepted {texts : List String}
    (h : ∀ text ∈ texts, ∃ f, Fragment.ofString text = .ok f) (first : Nat) :
    PushPayload.readTexts first texts = .ok (texts.map fun text => ⟨trimBlanks text⟩) ∧
      ∀ text ∈ texts, (Fragment.mk (trimBlanks text)).Whole := by
  induction texts generalizing first with
  | nil => exact ⟨rfl, by simp⟩
  | cons text texts ih =>
    obtain ⟨⟨f, hf⟩, htexts⟩ := List.forall_mem_cons.mp h
    obtain ⟨hread, hwhole⟩ := ih htexts (first + 1)
    obtain ⟨_, hw, rfl⟩ := ofString_ok hf
    refine ⟨?_, List.forall_mem_cons.mpr ⟨hw, hwhole⟩⟩
    simp only [PushPayload.readTexts, hf, hread, Except.mapError, bind, Except.bind, pure,
      Except.pure, List.map_cons]

/-- The texts taken as fragments are those that are one value of the grammar, and a frame made of such
texts gives them back in their order. -/
theorem push_frames_give_back {texts : List String}
    (haccepted : ∀ text ∈ texts, ∃ f, Fragment.ofString text = .ok f) :
    (∀ text, (∃ f, Fragment.ofString text = .ok f) ↔ Document text) ∧
    (∃ p data, PushPayload.ofTexts texts = .ok p ∧
      Envelope.decode p.frame = .ok ⟨"PUSH", some data⟩ ∧
      PushPayload.decode data.text = .ok ⟨texts.map fun text => ⟨trimBlanks text⟩⟩) ∧
    ∀ p : PushPayload, (∀ f ∈ p.items, f.Whole) → PushPayload.decode p.encode = .ok p := by
  refine ⟨ofString_iff, ?_, fun p hw => PushPayload.decode_encode hw⟩
  obtain ⟨hread, hwhole⟩ := readTexts_accepted haccepted 0
  have hitems : ∀ f ∈ texts.map fun text => Fragment.mk (trimBlanks text), f.Whole := by
    intro f hf
    obtain ⟨text, htext, rfl⟩ := List.mem_map.mp hf
    exact hwhole text htext
  refine ⟨⟨texts.map fun text => ⟨trimBlanks text⟩⟩, _, ?_, PushPayload.decode_frame hitems,
    PushPayload.decode_encode hitems⟩
  rw [PushPayload.ofTexts, hread]
  rfl

/-- A lone surrogate and a numeral that no double holds, which a stricter reader would refuse, and a list
with blanks inside and around it. -/
theorem push_frames_give_back_odd_texts :
    ∃ p data, PushPayload.ofTexts ["\"\\ud800\"", " 1e999 ", "\n[ [ ] , 0 ]\t"] = .ok p ∧
      Envelope.decode p.frame = .ok ⟨"PUSH", some data⟩ ∧
      PushPayload.decode data.text = .ok ⟨[⟨"\"\\ud800\""⟩, ⟨"1e999"⟩, ⟨"[ [ ] , 0 ]"⟩]⟩ :=
  (push_frames_give_back (by
    intro text htext
    simp only [List.mem_cons, List.not_mem_nil, or_false] at htext
    obtain rfl | rfl | rfl := htext
    · exact ⟨⟨"\"\\ud800\""⟩, rfl⟩
    · exact ⟨⟨"1e999"⟩, rfl⟩
    · exact ⟨⟨"[ [ ] , 0 ]"⟩, rfl⟩)).2.1

end RoomCast
