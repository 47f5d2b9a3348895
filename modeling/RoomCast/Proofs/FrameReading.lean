import RoomCast.Proofs.FrameShape
import RoomCast.Proofs.ObjectReading

namespace RoomCast

theorem Fragment.Whole.null {f : Fragment} (h : f.Whole) {s : List Char}
    (hs : f.text.toList = 'n' :: s) : f.text = "null" := by
  have hv := h.value
  rw [hs] at hv
  cases hv with
  | blank hb _ => cases hb
  | number hn =>
    cases hn with
    | digits hd _ _ _ => cases hd
  | null => exact String.toList_inj.mp hs

theorem Fragment.Whole.readNullable {f : Fragment} (h : f.Whole) :
    Reader.Reads Fragment.readNullable f f.nullable := by
  intro before rest hb hr
  obtain ⟨c, s, hs, hc, _⟩ := h.head
  have hstart : skipBlanks (before ++ (f.text.toList ++ rest)) = c :: (s ++ rest) := by
    rw [hs]
    exact skipBlanks_prefix hb hc _
  by_cases hn : c = 'n'
  · subst hn
    have hnull := h.null hs
    have hword : readWord ['u', 'l', 'l'] (s ++ rest) = .ok rest := by
      have htail : s = ['u', 'l', 'l'] := by
        rw [hnull] at hs
        exact (List.cons.inj hs).2.symm
      rw [htail]
      exact readWord_word _ rest
    simp only [Fragment.readNullable, hstart, hword, Fragment.nullable, if_pos hnull, bind, Except.bind,
      pure, Except.pure]
  · have hword : f.text ≠ "null" := by
      intro hnull
      rw [hnull] at hs
      exact hn (List.cons.inj hs).1.symm
    have hread : Fragment.read (c :: (s ++ rest)) = .ok (f, rest) := by
      have hf := h.reads [] rest blanks_nil hr
      rwa [List.nil_append, hs] at hf
    unfold Fragment.readNullable
    rw [hstart]
    split
    next r he => exact absurd (List.cons.inj he).1 hn
    next =>
      simp only [hread, Fragment.nullable, if_neg hword, bind, Except.bind, pure, Except.pure]

namespace Envelope

theorem record_gives : ∀ field ∈ record.fields, field.Gives Sets := by
  intro field hfield draft g draft' hg hset before rest hb hr
  simp only [record, List.mem_cons, List.not_mem_nil, or_false] at hfield
  obtain rfl | rfl := hfield
  · obtain ⟨_, hdata, kind, hspells, hkind⟩ | ⟨hname, _⟩ := hset
    · have hread := hspells.read "a string" before rest hb hr
      simp only [hread, bind, Except.bind, pure, Except.pure, ← hdata, ← hkind]
    · exact absurd hname (by decide)
  · obtain ⟨hname, _⟩ | ⟨_, hkind, hdata⟩ := hset
    · exact absurd hname (by decide)
    · have hread := hg.readNullable before rest hb hr
      simp only [hread, bind, Except.bind, pure, Except.pure, ← hdata, ← hkind]

variable {ms : List (String × Fragment)} {text : String} {e e' : Envelope}

/-- An object is one frame at most. -/
theorem InMembers.unique (h : e.InMembers ms) (h' : e'.InMembers ms) : e = e' := by
  obtain ⟨⟨f, hf, hkind⟩, hdata⟩ := h
  obtain ⟨⟨f', hf', hkind'⟩, hdata'⟩ := h'
  have hk : e.kind = e'.kind := by
    rw [hf] at hf'
    cases hf'
    exact hkind.unique hkind'
  have hd : e.data = e'.data := by
    obtain ⟨hnone, hd⟩ | ⟨g, hg, hd⟩ := hdata <;> obtain ⟨hnone', hd'⟩ | ⟨g', hg', hd'⟩ := hdata'
    · rw [hd, hd']
    · rw [hnone] at hg'
      cases hg'
    · rw [hnone'] at hg
      cases hg
    · rw [hg] at hg'
      cases hg'
      rw [hd, hd']
  cases e
  cases e'
  cases hk
  cases hd
  rfl

theorem InMembers.filled (h : e.InMembers ms) :
    ∃ last, Filled Sets record.fields ([], record.draft) ms last := by
  obtain ⟨⟨f, hf, hkind⟩, hdata⟩ := h
  refine TextRecord.filled_of_settable ?_ ?_ (by simp)
  · intro m hm hname draft
    obtain hname | hname : m.1 = "type" ∨ m.1 = "data" := by simpa [record] using hname
    · have hmem : m ∈ ms.filter (·.1 = "type") := List.mem_filter.mpr ⟨hm, by simpa using hname⟩
      rw [hf, List.mem_singleton] at hmem
      exact ⟨(some e.kind, draft.2), .inl ⟨hname, rfl, e.kind, by rw [hmem]; exact hkind, rfl⟩⟩
    · exact ⟨(draft.1, m.2.nullable), .inr ⟨hname, rfl, rfl⟩⟩
  · intro key hkey
    obtain rfl | rfl : key = "type" ∨ key = "data" := by simpa [record] using hkey
    · rw [hf]
      exact Nat.le_refl 1
    · obtain ⟨hnone, _⟩ | ⟨g, hg, _⟩ := hdata
      · rw [hnone]
        exact Nat.zero_le 1
      · rw [hg]
        exact Nat.le_refl 1

theorem decode_members (h : ObjectText ms text) (he : e.InMembers ms) : decode text = .ok e := by
  obtain ⟨⟨names, kind, data⟩, hfilled⟩ := he.filled
  have hfills := TextRecord.fills_of_filled record_gives h.whole hfilled
  have htype := hfilled.field (fun draft => draft.1) (by
    rintro name d d' f hne (⟨hname, _⟩ | ⟨_, hkind, _⟩)
    · exact absurd hname hne
    · exact hkind) (show "type" ∈ record.fields.map (·.name) by simp [record])
  obtain ⟨hnone, _⟩ | ⟨_, f, d, d', _, _, ⟨_, _, v, _, hkind⟩ | ⟨hname, _⟩, hlast⟩ := htype
  · obtain ⟨⟨f, hf, _⟩, _⟩ := he
    rw [hf] at hnone
    cases hnone
  · have hsome : kind = some v := hlast.trans hkind
    have hvalue : record.ofObject names (kind, data) = .ok ⟨v, data⟩ := by
      rw [hsome]
      rfl
    rw [he.unique (inMembers_of_filled hfilled hvalue)]
    exact TextRecord.readAll_members h hfills hvalue
  · exact absurd hname (by decide)

/-- The frame that an object is decoded to is the one its members make. -/
theorem decode_iff (h : ObjectText ms text) : decode text = .ok e ↔ e.InMembers ms := by
  refine ⟨fun hd => ?_, decode_members h⟩
  obtain ⟨_, ⟨ms', h', he⟩ | ⟨fs, hlist, _⟩⟩ := decode_shape hd
  · rwa [h.unique h']
  · exact absurd h hlist.not_object

end Envelope

theorem roomRecord_members {ns : List (String × Fragment)} {text room : String} {g : Fragment}
    (h : ObjectText ns text) (hone : ns.filter (·.1 = "room") = [("room", g)])
    (hspells : g.Spells room) : roomRecord.read.readAll text = .ok room := by
  have hgives : ∀ field ∈ roomRecord.fields,
      field.Gives fun name _ f room => name = "room" ∧ f.Spells room := by
    intro field hfield draft f draft' _ hset
    simp only [roomRecord, List.mem_cons, List.not_mem_nil, or_false] at hfield
    subst hfield
    exact hset.2.read "a string"
  obtain ⟨last, hfilled⟩ : ∃ last, Filled (fun name _ f room => name = "room" ∧ f.Spells room)
      roomRecord.fields ([], roomRecord.draft) ns last := by
    refine TextRecord.filled_of_settable ?_ ?_ (by simp)
    · intro m hm hname draft
      have hname : m.1 = "room" := by simpa [roomRecord] using hname
      have hmem : m ∈ ns.filter (·.1 = "room") := List.mem_filter.mpr ⟨hm, by simpa using hname⟩
      rw [hone, List.mem_singleton] at hmem
      exact ⟨room, hname, by rw [hmem]; exact hspells⟩
    · intro key hkey
      obtain rfl : key = "room" := by simpa [roomRecord] using hkey
      rw [hone]
      exact Nat.le_refl 1
  have hroom : last.2 = room := by
    obtain ⟨hnone, _⟩ | ⟨_, g', d, d', hone', _, ⟨_, hspells'⟩, hlast⟩ := hfilled.field id
      (fun hne hset => absurd hset.1 hne)
      (show "room" ∈ roomRecord.fields.map (·.name) by simp [roomRecord])
    · rw [hone] at hnone
      cases hnone
    · rw [hone] at hone'
      cases hone'
      cases hlast
      exact hspells'.unique hspells
  rw [← hroom]
  exact TextRecord.readAll_members h (TextRecord.fills_of_filled hgives h.whole hfilled) rfl

end RoomCast
