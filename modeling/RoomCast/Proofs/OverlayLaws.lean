import RoomCast.Proofs.SkippedNulls

namespace RoomCast

theorem Increasing.ext {α : Type} {ms ns : List (String × α)} (hm : Increasing ms) (hn : Increasing ns)
    (h : ∀ key, lookupMember key ms = lookupMember key ns) : ms = ns := by
  induction ms generalizing ns with
  | nil =>
    cases ns with
    | nil => rfl
    | cons n ns => simpa [lookupMember] using h n.1
  | cons m ms ih =>
    cases ns with
    | nil => simpa [lookupMember] using h m.1
    | cons n ns =>
      have hkey : m.1 = n.1 := by
        obtain ⟨hfirst, _⟩ := List.pairwise_cons.mp hm
        obtain ⟨hfirst', _⟩ := List.pairwise_cons.mp hn
        -- each of the two first keys stands among the other members, where no smaller one stands
        have hm' : m ∈ n :: ns := lookupMember_mem ((h m.1).symm.trans (Json.lookup_of_mem hm (.head _)))
        have hn' : n ∈ m :: ms := lookupMember_mem ((h n.1).trans (Json.lookup_of_mem hn (.head _)))
        rcases List.mem_cons.mp hm' with rfl | hlater
        · rfl
        rcases List.mem_cons.mp hn' with rfl | hlater'
        · rfl
        exact absurd (hfirst n hlater') (lt_asymm (hfirst' m hlater))
      have hvalue : m.2 = n.2 := by
        have hhead := h m.1
        rw [lookupMember_cons, if_pos rfl, lookupMember_cons, if_pos hkey.symm] at hhead
        exact Option.some.inj hhead
      have hrest : ms = ns := by
        refine ih hm.tail hn.tail fun key => ?_
        by_cases hk : m.1 = key
        · subst hk
          rw [lookupMember_none hm.head_new, hkey, lookupMember_none hn.head_new]
        · have hboth := h key
          rwa [lookupMember_cons, if_neg hk, lookupMember_cons, if_neg (hkey ▸ hk)] at hboth
      rw [hrest, Prod.ext hkey hvalue]

namespace Json

theorem overlay_plain {v : Json} (h : ∀ ms, v ≠ .object ms) (target : Json) : target.overlay v = v := by
  cases v with
  | object ms => exact absurd rfl (h ms)
  | _ => rfl

theorem under_mem {key : String} {ms : List (String × Json)} {v : Json} (h : under key ms = some v) :
    (key, v) ∈ ms := by
  obtain ⟨w, hw, hc⟩ := Option.bind_eq_some_iff.mp h
  obtain ⟨_, rfl⟩ := counted_some hc
  exact lookupMember_mem hw

theorem overlay_self {v : Json} (hv : v.Ordered) : v.overlay v = v := by
  induction v using object_induction with
  | plain v h => exact overlay_plain h v
  | object ms ih =>
    refine congrArg Json.object ((overlayMembers_increasing hv.1 ms).ext hv.1 fun key => ?_)
    rw [lookup_overlayMembers ms hv.1]
    cases hu : under key ms with
    | none => rfl
    | some v =>
      have hmem := under_mem hu
      have hself : v.overlay v = v := ih _ hmem ((orderedMembers_iff ms).mp hv.2 _ hmem)
      have hlook : lookupMember key ms = some v := lookup_of_mem hv.1 hmem
      simp only [hlook, hself]

/-- A layer that is laid over a value twice counts once. -/
theorem overlay_twice {t v : Json} (ht : t.Ordered) (hv : v.Ordered) :
    (t.overlay v).overlay v = t.overlay v := by
  induction v using object_induction generalizing t with
  | plain v h => rw [overlay_plain h, overlay_plain h]
  | object upper ih =>
    cases t with
    | object lower =>
      have hlaid := overlayMembers_increasing ht.1 upper
      refine congrArg Json.object ((overlayMembers_increasing hlaid upper).ext hlaid fun key => ?_)
      rw [lookup_overlayMembers _ hv.1, lookup_overlayMembers lower hv.1]
      cases hu : under key upper with
      | none => rfl
      | some v =>
        have hmem := under_mem hu
        have hordered := (orderedMembers_iff upper).mp hv.2 _ hmem
        cases hbelow : lookupMember key lower with
        | none => exact congrArg some (overlay_self hordered)
        | some below => exact congrArg some (ih _ hmem (ht.member hbelow) hordered)
    | _ => exact overlay_self hv

/-- Layers of objects that share no key can change places. -/
theorem overlay_comm {t a b : List (String × Json)} (ht : Increasing t) (ha : Increasing a)
    (hb : Increasing b) (h : (a.map (·.1)).Disjoint (b.map (·.1))) :
    ((Json.object t).overlay (.object a)).overlay (.object b) =
      ((Json.object t).overlay (.object b)).overlay (.object a) := by
  have hta := overlayMembers_increasing ht a
  have htb := overlayMembers_increasing ht b
  refine congrArg Json.object
    ((overlayMembers_increasing hta b).ext (overlayMembers_increasing htb a) fun key => ?_)
  rw [lookup_overlayMembers _ hb, lookup_overlayMembers _ ha, lookup_overlayMembers _ ha,
    lookup_overlayMembers _ hb]
  cases hua : under key a with
  | none => rfl
  | some v =>
    cases hub : under key b with
    | none => rfl
    | some w =>
      have hkey : key ∈ a.map (·.1) := List.mem_map_of_mem (under_mem hua)
      exact absurd (List.mem_map_of_mem (under_mem hub)) (h hkey)

end Json

/-- A layer counts once however often it is laid, a value over itself and an empty layer change nothing,
and layers without a common key commute. -/
theorem layers_count_once {t s : Json} (ht : t.Ordered) (hs : s.Ordered) :
    (t.overlay s).overlay s = t.overlay s ∧ s.overlay s = s ∧
    ∀ ms, t = .object ms → t.overlay (.object []) = t ∧
      ∀ a b, (Json.object a).Ordered → (Json.object b).Ordered →
        (a.map (·.1)).Disjoint (b.map (·.1)) →
        (t.overlay (.object a)).overlay (.object b) = (t.overlay (.object b)).overlay (.object a) := by
  refine ⟨Json.overlay_twice ht hs, Json.overlay_self hs, ?_⟩
  rintro ms rfl
  exact ⟨rfl, fun a b ha hb h => Json.overlay_comm ht.1 ha.1 hb.1 h⟩

/-- A layer with nulls that are skipped and nulls that come in, and two layers without a key in common. -/
theorem layers_count_once_nulls :
    let t := Json.object [("a", .object [("x", .boolean true)]), ("b", .text "low")]
    let s := Json.object [("a", .object [("x", .null), ("y", .list [.null])]), ("b", .object [("z", .null)])]
    let upper := [("c", Json.list []), ("d", .null)]
    t.Ordered ∧ s.Ordered ∧ (t.overlay s).overlay s = t.overlay s ∧ s.overlay s = s ∧
      (t.overlay (.object [("a", .text "high")])).overlay (.object upper) =
        (t.overlay (.object upper)).overlay (.object [("a", .text "high")]) := by
  intro t s upper
  have ht : t.Ordered := by
    simp only [t, Json.Ordered, Json.OrderedMembers, and_true]
    exact ⟨by unfold Increasing; decide, by unfold Increasing; decide⟩
  have hs : s.Ordered := by
    simp only [s, Json.Ordered, Json.OrderedMembers, Json.OrderedItems, and_true]
    exact ⟨by unfold Increasing; decide, by unfold Increasing; decide, by unfold Increasing; decide⟩
  obtain ⟨htwice, hself, hobject⟩ := layers_count_once ht hs
  refine ⟨ht, hs, htwice, hself, (hobject _ rfl).2 _ _ ?_ ?_ ?_⟩
  · simp only [Json.Ordered, Json.OrderedMembers, and_true]
    exact List.pairwise_singleton _ _
  · simp only [upper, Json.Ordered, Json.OrderedMembers, Json.OrderedItems, and_true]
    unfold Increasing
    decide
  · simp [upper]

end RoomCast
