import RoomCast.Proofs.ObjectReading

namespace RoomCast

theorem commaSeparated_cons (p : List Char) (ps : List (List Char)) :
    commaSeparated (p :: ps) = p ++ ps.flatMap (',' :: ·) := by
  induction ps generalizing p with
  | nil => simp [commaSeparated]
  | cons q ps ih => rw [commaSeparated, ih, List.flatMap_cons, List.cons_append]

section Lists

variable {fs : List Fragment} (hw : ∀ f ∈ fs, f.Whole)

def piecesOf (fs : List Fragment) : List (List Char) := fs.map fun f => f.text.toList

include hw

theorem moreItems_written : MoreItems fs ((piecesOf fs).flatMap (',' :: ·) ++ [']']) := by
  induction fs with
  | nil => exact .close blanks_nil
  | cons f fs ih =>
    obtain ⟨hf, hfs⟩ := List.forall_mem_cons.mp hw
    have htext : (piecesOf (f :: fs)).flatMap (',' :: ·) ++ [']'] =
        [] ++ ',' :: [] ++ f.text.toList ++ ((piecesOf fs).flatMap (',' :: ·) ++ [']']) := by
      simp [piecesOf]
    rw [htext]
    exact .item blanks_nil blanks_nil hf (ih hfs)

theorem itemsText_written : ItemsText fs (commaSeparated (piecesOf fs) ++ [']']) := by
  cases fs with
  | nil => exact .close blanks_nil
  | cons f fs =>
    obtain ⟨hf, hfs⟩ := List.forall_mem_cons.mp hw
    have htext : commaSeparated (piecesOf (f :: fs)) ++ [']'] =
        [] ++ f.text.toList ++ ((piecesOf fs).flatMap (',' :: ·) ++ [']']) := by
      rw [piecesOf, List.map_cons, commaSeparated_cons, List.append_assoc]
      rfl
    rw [htext]
    exact .item blanks_nil hf (moreItems_written hfs)

theorem bracketed_whole : (Fragment.mk (String.ofList (bracketed (piecesOf fs)))).Whole := by
  have hitems := (itemsText_written hw).grammar []
  rw [List.append_nil] at hitems
  exact whole_of_value rfl (.list hitems)

theorem readFragments_written :
    Reader.Reads readFragments ⟨String.ofList (bracketed (piecesOf fs))⟩ fs := by
  intro before rest hb _
  have htext : before ++ ((String.ofList (bracketed (piecesOf fs))).toList ++ rest) =
      before ++ '[' :: (commaSeparated (piecesOf fs) ++ [']'] ++ rest) := by simp [bracketed]
  rw [htext, readFragments_list hb]
  exact (itemsText_written hw).readFragments rest

end Lists

section Objects

def writtenMember (m : String × Fragment) : List Char := literal m.1 ++ ':' :: m.2.text.toList

def writtenObject (ms : List (String × Fragment)) : String :=
  String.ofList (braced (ms.map fun m => (m.1, m.2.text.toList)))

theorem writtenObject_eq (ms : List (String × Fragment)) :
    (writtenObject ms).toList = '\x7b' :: (commaSeparated (ms.map writtenMember) ++ ['\x7d']) := by
  simp only [writtenObject, braced, String.toList_ofList, List.map_map]
  rfl

theorem memberText_written {m : String × Fragment} (hw : m.2.Whole) :
    MemberText m.1 m.2 (writtenMember m) := by
  have hspells := Grammar.spelling_written m.1.toList []
  have hm := MemberText.mk hspells blanks_nil blanks_nil hw
  have htext : writtenMember m = '"' :: (m.1.toList.flatMap escapedChar ++ ['"']) ++ [] ++
      ':' :: [] ++ m.2.text.toList := by
    simp [writtenMember, literal]
  rw [htext]
  exact hm

variable {ms : List (String × Fragment)} (hw : ∀ m ∈ ms, m.2.Whole)

include hw

theorem moreMembers_written :
    MoreMembers ms ((ms.map writtenMember).flatMap (',' :: ·) ++ ['\x7d']) := by
  induction ms with
  | nil => exact .close blanks_nil
  | cons m ms ih =>
    obtain ⟨hm, hms⟩ := List.forall_mem_cons.mp hw
    have htext : ((m :: ms).map writtenMember).flatMap (',' :: ·) ++ ['\x7d'] =
        [] ++ ',' :: [] ++ writtenMember m ++
          ((ms.map writtenMember).flatMap (',' :: ·) ++ ['\x7d']) := by
      simp
    rw [htext]
    exact .member blanks_nil blanks_nil (memberText_written hm) (ih hms)

theorem membersText_written : MembersText ms (commaSeparated (ms.map writtenMember) ++ ['\x7d']) := by
  cases ms with
  | nil => exact .close blanks_nil
  | cons m ms =>
    obtain ⟨hm, hms⟩ := List.forall_mem_cons.mp hw
    have htext : commaSeparated ((m :: ms).map writtenMember) ++ ['\x7d'] =
        [] ++ writtenMember m ++ ((ms.map writtenMember).flatMap (',' :: ·) ++ ['\x7d']) := by
      rw [List.map_cons, commaSeparated_cons, List.append_assoc]
      rfl
    rw [htext]
    exact .member blanks_nil (memberText_written hm) (moreMembers_written hms)

theorem objectText_written : ObjectText ms (writtenObject ms) := by
  refine ⟨[], _, [], blanks_nil, blanks_nil, membersText_written hw, ?_⟩
  rw [writtenObject_eq]
  simp

theorem writtenObject_whole : (Fragment.mk (writtenObject ms)).Whole := by
  have hmembers := (membersText_written hw).grammar []
  rw [List.append_nil] at hmembers
  have hwhole := whole_of_value (show isBlank '\x7b' = false by rfl) (.object hmembers)
  rwa [← writtenObject_eq, String.ofList_toList] at hwhole

/-- A record is read from a written object of members that fill it. -/
theorem TextRecord.reads_written {σ α : Type} {record : TextRecord σ α} {state : List String × σ} {a : α}
    (hf : Fills (readMember record.fields) ([], record.draft) ms state)
    (ha : record.ofObject state.1 state.2 = .ok a) :
    Reader.Reads record.read ⟨writtenObject ms⟩ a := by
  intro before rest hb _
  rw [writtenObject_eq, List.cons_append]
  exact read_members (membersText_written hw) hf ha hb rest

end Objects

end RoomCast
