import RoomCast.Proofs.GrammarScan

namespace RoomCast

/-- A text that is one list, with blanks around it. -/
def ListDocument (text : String) : Prop :=
  ∃ before s after, Blanks before ∧ Blanks after ∧ text.toList = before ++ '[' :: s ∧
    Grammar.Items s after

section Reading

theorem blanks_append_blanks {s t : List Char} (hs : Blanks s) (ht : Blanks t) : Blanks (s ++ t) :=
  List.forall_mem_append.mpr ⟨hs, ht⟩

theorem nextItem_comma {before after : List Char} (hb : Blanks before) (ha : Blanks after)
    {f : Fragment} (hw : f.Whole) (s : List Char) :
    nextItem false (before ++ ',' :: (after ++ (f.text.toList ++ s))) =
      .ok (some (f.text.toList ++ s)) := by
  obtain ⟨c, r, hf, hblank, hc⟩ := hw.head
  have hcomma : skipBlanks (before ++ ',' :: (after ++ c :: (r ++ s))) =
      ',' :: (after ++ c :: (r ++ s)) := skipBlanks_prefix hb rfl _
  have hitem : skipBlanks (after ++ c :: (r ++ s)) = c :: (r ++ s) := skipBlanks_prefix ha hblank _
  simp only [nextItem, hf, List.cons_append, hcomma, hitem, if_neg hc]
  rfl

theorem nextItem_open {before : List Char} (hb : Blanks before) {f : Fragment} (hw : f.Whole)
    (s : List Char) :
    nextItem true (before ++ (f.text.toList ++ s)) = .ok (some (f.text.toList ++ s)) := by
  obtain ⟨c, r, hf, hblank, hc⟩ := hw.head
  have hitem : skipBlanks (before ++ c :: (r ++ s)) = c :: (r ++ s) := skipBlanks_prefix hb hblank _
  simp only [nextItem, hf, List.cons_append, hitem, if_neg hc, if_true]

theorem nextItem_close {first : Bool} {blanks : List Char} (hb : Blanks blanks) (rest : List Char) :
    nextItem first (blanks ++ ']' :: rest) = .ok none := by
  have hclose : skipBlanks (blanks ++ ']' :: rest) = ']' :: rest := skipBlanks_prefix hb rfl rest
  simp only [nextItem, hclose, if_true]

theorem closeList_close {blanks : List Char} (hb : Blanks blanks) (rest : List Char) :
    closeList (blanks ++ ']' :: rest) = .ok rest := by
  have hclose : skipBlanks (blanks ++ ']' :: rest) = ']' :: rest := skipBlanks_prefix hb rfl rest
  simp only [closeList, hclose, if_true]

theorem readItems_item {α : Type} {item : Reader α} {rounds : Nat} {first : Bool}
    {s start behind t : List Char} {a : α} {as : List α} (hn : nextItem first s = .ok (some start))
    (hi : item start = .ok (a, behind)) (hm : readItems item rounds false behind = .ok (as, t)) :
    readItems item (rounds + 1) first s = .ok (a :: as, t) := by
  simp only [readItems, hn, hi, hm, bind, Except.bind, pure, Except.pure]

theorem readItems_none {α : Type} {item : Reader α} {rounds : Nat} {first : Bool} {s : List Char}
    (hn : nextItem first s = .ok none) : readItems item (rounds + 1) first s = .ok ([], s) := by
  simp only [readItems, hn, bind, Except.bind, pure, Except.pure]

theorem readList_of {α : Type} {item : Reader α} {s t rest : List Char} {as : List α}
    (hi : readItems item (s.length + 1) true s = .ok (as, t)) (hc : closeList t = .ok rest) :
    readList item s = .ok (as, rest) := by
  simp only [readList, hi, hc, bind, Except.bind, pure, Except.pure]

theorem MoreItems.length_le {fs : List Fragment} {s : List Char} (h : MoreItems fs s) :
    fs.length ≤ s.length := by
  induction h with
  | close => exact Nat.zero_le _
  | item _ _ _ _ ih =>
    simp only [List.length_append, List.length_cons]
    omega

theorem MoreItems.whole {fs : List Fragment} {s : List Char} (h : MoreItems fs s) :
    ∀ f ∈ fs, f.Whole := by
  induction h with
  | close => simp
  | item _ _ hw _ ih => exact List.forall_mem_cons.mpr ⟨hw, ih⟩

theorem ItemsText.whole {fs : List Fragment} {s : List Char} (h : ItemsText fs s) :
    ∀ f ∈ fs, f.Whole := by
  cases h with
  | close => simp
  | item _ hw hmore => exact List.forall_mem_cons.mpr ⟨hw, hmore.whole⟩

theorem MoreItems.piece {fs : List Fragment} {s : List Char} (h : MoreItems fs s) :
    ∀ f ∈ fs, f.text.toList <:+: s := by
  induction h with
  | close => simp
  | item _ _ _ _ ih =>
    exact List.forall_mem_cons.mpr ⟨⟨_, _, rfl⟩, fun f hf =>
      (ih f hf).trans (List.suffix_append _ _).isInfix⟩

theorem ItemsText.piece {fs : List Fragment} {s : List Char} (h : ItemsText fs s) :
    ∀ f ∈ fs, f.text.toList <:+: s := by
  cases h with
  | close => simp
  | item _ _ hmore =>
    exact List.forall_mem_cons.mpr ⟨⟨_, _, rfl⟩, fun f hf =>
      (hmore.piece f hf).trans (List.suffix_append _ _).isInfix⟩

theorem MoreItems.read {α : Type} {item : Reader α} {fs : List Fragment} {as : List α} {s : List Char}
    (h : MoreItems fs s) (ha : List.Forall₂ (Reader.Reads item) fs as) (rest : List Char)
    {rounds : Nat} (hr : fs.length < rounds) : ∃ t,
      readItems item rounds false (s ++ rest) = .ok (as, t) ∧ closeList t = .ok rest := by
  induction h generalizing as rounds with
  | @close blanks hb =>
    cases ha
    obtain ⟨rounds, rfl⟩ := Nat.exists_eq_succ_of_ne_zero (Nat.ne_of_gt hr)
    rw [List.append_assoc, List.singleton_append]
    exact ⟨_, readItems_none (nextItem_close hb rest), closeList_close hb rest⟩
  | @item before after s f fs hb hafter hw hmore ih =>
    obtain _ | ⟨hf, ha⟩ := ha
    obtain ⟨rounds, rfl⟩ := Nat.exists_eq_succ_of_ne_zero (Nat.ne_of_gt (Nat.zero_lt_of_lt hr))
    obtain ⟨t, hread, hclose⟩ := ih ha (Nat.lt_of_succ_lt_succ hr)
    have htext : before ++ ',' :: after ++ f.text.toList ++ s ++ rest =
        before ++ ',' :: (after ++ (f.text.toList ++ (s ++ rest))) := by simp
    rw [htext]
    exact ⟨t, readItems_item (nextItem_comma hb hafter hw _)
      (hf [] _ blanks_nil (hmore.grammar rest).delimited) hread, hclose⟩

theorem ItemsText.read {α : Type} {item : Reader α} {fs : List Fragment} {as : List α}
    {items : List Char} (h : ItemsText fs items) (ha : List.Forall₂ (Reader.Reads item) fs as)
    (rest : List Char) : readList item (items ++ rest) = .ok (as, rest) := by
  cases h with
  | @close blanks hb =>
    cases ha
    rw [List.append_assoc, List.singleton_append]
    exact readList_of (readItems_none (nextItem_close hb rest)) (closeList_close hb rest)
  | @item before s f fs hb hw hmore =>
    obtain _ | ⟨hf, ha⟩ := ha
    have hlen := hmore.length_le
    have hrounds : fs.length < (before ++ f.text.toList ++ s ++ rest).length := by
      obtain ⟨c, r, hf, _, _⟩ := hw.head
      simp only [List.length_append, hf, List.length_cons]
      omega
    obtain ⟨t, hread, hclose⟩ := hmore.read ha rest hrounds
    refine readList_of (readItems_item ?_
      (hf [] _ blanks_nil (hmore.grammar rest).delimited) hread) hclose
    rw [List.append_assoc, List.append_assoc]
    exact nextItem_open hb hw _

theorem ItemsText.readFragments {fs : List Fragment} {items : List Char} (h : ItemsText fs items)
    (rest : List Char) : readList Fragment.read (items ++ rest) = .ok (fs, rest) :=
  h.read (List.forall₂_same.mpr fun f hf => (h.whole f hf).reads) rest

theorem readFragments_list {before : List Char} (hb : Blanks before) (s : List Char) :
    readFragments (before ++ '[' :: s) = readList Fragment.read s := by
  have hopen : skipBlanks (before ++ '[' :: s) = '[' :: s := skipBlanks_prefix hb rfl s
  simp only [readFragments, hopen, if_true]

end Reading

section Documents

theorem Grammar.Value.starts {s t : List Char} (h : Grammar.Value s t) (ht : Grammar.Delimited t) :
    ∃ f : Fragment, Starts f s t :=
  skipValue_starts (h.skip ht)

theorem Grammar.MoreItems.fragments {s t : List Char} (h : Grammar.MoreItems s t) :
    ∃ fs items, RoomCast.MoreItems fs items ∧ s = items ++ t := by
  induction h using Grammar.MoreItems.recursion with
  | @blank c s t hc _ ih =>
    obtain ⟨fs, items, hitems, rfl⟩ := ih
    have hblank : Blanks [c] := List.forall_mem_singleton.mpr hc
    cases hitems with
    | close hb => exact ⟨[], _, .close (blanks_append_blanks hblank hb), rfl⟩
    | item hb ha hw hmore =>
      refine ⟨_, _, .item (blanks_append_blanks hblank hb) ha hw hmore, ?_⟩
      simp
  | close => exact ⟨[], _, .close blanks_nil, rfl⟩
  | item hv h ih =>
    obtain ⟨fs, items, hitems, rfl⟩ := ih
    obtain ⟨f, after, ha, rfl, hw⟩ := hv.starts h.delimited
    refine ⟨f :: fs, _, .item blanks_nil ha hw hitems, ?_⟩
    simp

theorem Grammar.Items.fragments {s t : List Char} (h : Grammar.Items s t) :
    ∃ fs items, ItemsText fs items ∧ s = items ++ t := by
  induction h using Grammar.Items.recursion with
  | @blank c s t hc _ ih =>
    obtain ⟨fs, items, hitems, rfl⟩ := ih
    have hblank : Blanks [c] := List.forall_mem_singleton.mpr hc
    cases hitems with
    | close hb => exact ⟨[], _, .close (blanks_append_blanks hblank hb), rfl⟩
    | item hb hw hmore =>
      refine ⟨_, _, .item (blanks_append_blanks hblank hb) hw hmore, ?_⟩
      simp
  | close => exact ⟨[], _, .close blanks_nil, rfl⟩
  | item hv h =>
    obtain ⟨fs, items, hitems, rfl⟩ := h.fragments
    obtain ⟨f, before, hb, rfl, hw⟩ := hv.starts h.delimited
    refine ⟨f :: fs, _, .item hb hw hitems, ?_⟩
    simp

theorem listDocument_iff (text : String) : ListDocument text ↔ ∃ fs, ListText fs text := by
  constructor
  · rintro ⟨before, s, after, hb, ha, htext, hs⟩
    obtain ⟨fs, items, hitems, rfl⟩ := hs.fragments
    exact ⟨fs, before, items, after, hb, ha, hitems, by rw [htext]; simp⟩
  · rintro ⟨fs, before, items, after, hb, ha, hitems, htext⟩
    exact ⟨before, items ++ after, after, hb, ha, by rw [htext]; simp, hitems.grammar after⟩

/-- The reader takes the lists, and of each the fragments that stand in it. -/
theorem fragmentsOf_iff {text : String} {fs : List Fragment} :
    fragmentsOf text = some fs ↔ ListText fs text := by
  refine ⟨fragmentsOf_text, ?_⟩
  rintro ⟨before, items, after, hb, ha, hitems, htext⟩
  have hread : readFragments text.toList = .ok (fs, after) := by
    rw [htext, List.append_assoc, List.cons_append, readFragments_list hb]
    exact hitems.readFragments after
  rw [fragmentsOf, readAll_of hread ha]
  rfl

theorem ListText.whole {fs : List Fragment} {text : String} (h : ListText fs text) :
    ∀ f ∈ fs, f.Whole := by
  obtain ⟨_, items, _, _, _, hitems, _⟩ := h
  exact hitems.whole

theorem Fragment.Whole.trimmed {f : Fragment} (h : f.Whole) : trimBlanks f.text = f.text :=
  (congrArg Fragment.text (ofString_ok h).2.2).symm

end Documents

end RoomCast
