import Mathlib.Data.String.Basic
import RoomCast.JsonMerge
import RoomCast.Proofs.RecordShape

namespace RoomCast

section Members

variable {α : Type} {ms : List (String × α)}

/-- Whether the keys of some members increase. -/
def Increasing (ms : List (String × α)) : Prop := ms.Pairwise fun m n => m.1 < n.1

theorem lookupMember_mem {key : String} {v : α} (h : lookupMember key ms = some v) : (key, v) ∈ ms := by
  induction ms with
  | nil => cases h
  | cons m ms ih =>
    rw [lookupMember] at h
    split at h
    next hk =>
      cases h
      exact hk ▸ List.mem_cons_self
    next => exact List.mem_cons_of_mem _ (ih h)

theorem lookupMember_none {key : String} (h : ∀ m ∈ ms, m.1 ≠ key) : lookupMember key ms = none := by
  cases hv : lookupMember key ms with
  | none => rfl
  | some v => exact absurd rfl (h _ (lookupMember_mem hv))

theorem lookupMember_cons (m : String × α) (ms : List (String × α)) (key : String) :
    lookupMember key (m :: ms) = if m.1 = key then some m.2 else lookupMember key ms := rfl

theorem Increasing.head_new {m : String × α} (h : Increasing (m :: ms)) : ∀ n ∈ ms, n.1 ≠ m.1 :=
  fun n hn => ((List.pairwise_cons.mp h).1 n hn).ne'

theorem Increasing.tail {m : String × α} (h : Increasing (m :: ms)) : Increasing ms :=
  (List.pairwise_cons.mp h).2

theorem mem_insertMember {key : String} {v : α} {m : String × α} (h : m ∈ insertMember key v ms) :
    m = (key, v) ∨ m ∈ ms := by
  induction ms with
  | nil => exact .inl (List.mem_singleton.mp h)
  | cons n ms ih =>
    rw [insertMember] at h
    split at h
    next => exact (List.mem_cons.mp h).imp_right (List.mem_cons_of_mem _)
    next =>
      split at h
      next => exact List.mem_cons.mp h
      next =>
        obtain rfl | h := List.mem_cons.mp h
        · exact .inr List.mem_cons_self
        · exact (ih h).imp_right (List.mem_cons_of_mem _)

theorem Increasing.insertMember (h : Increasing ms) (key : String) (v : α) :
    Increasing (insertMember key v ms) := by
  induction ms with
  | nil => exact List.pairwise_singleton _ _
  | cons m ms ih =>
    obtain ⟨hm, hms⟩ := List.pairwise_cons.mp h
    rw [RoomCast.insertMember]
    split
    next hk => exact List.pairwise_cons.mpr ⟨fun n hn => hk ▸ hm n hn, hms⟩
    next hne =>
      split
      next hlt =>
        refine List.pairwise_cons.mpr ⟨fun n hn => ?_, h⟩
        obtain rfl | hn := List.mem_cons.mp hn
        · exact hlt
        · exact lt_trans hlt (hm n hn)
      next hge =>
        refine List.pairwise_cons.mpr ⟨fun n hn => ?_, ih hms⟩
        obtain rfl | hn := mem_insertMember hn
        · exact lt_of_le_of_ne (not_lt.mp hge) (Ne.symm hne)
        · exact hm n hn

theorem lookup_insertMember (key k : String) (v : α) (ms : List (String × α)) :
    lookupMember k (insertMember key v ms) = if key = k then some v else lookupMember k ms := by
  induction ms with
  | nil => rfl
  | cons m ms ih =>
    rw [insertMember]
    split
    next hk =>
      subst hk
      by_cases he : m.1 = k <;> simp [lookupMember_cons, he]
    next hne =>
      split
      next => rw [lookupMember_cons]
      next =>
        rw [lookupMember_cons, ih, lookupMember_cons]
        by_cases he : m.1 = k
        · rw [if_pos he, if_pos he, if_neg (he ▸ hne)]
        · rw [if_neg he, if_neg he]

/-- Of members that are put under their keys one after another, the last of a key counts, and before the
first of a key what stood there. -/
theorem lookup_foldl_insert (key : String) (vs ms : List (String × α)) :
    lookupMember key (vs.foldl (fun ms m => insertMember m.1 m.2 ms) ms) =
      ((vs.filter (·.1 = key)).getLast?.map (·.2)).or (lookupMember key ms) := by
  induction vs generalizing ms with
  | nil => rfl
  | cons n vs ih =>
    rw [List.foldl_cons, ih, lookup_insertMember]
    by_cases hn : n.1 = key
    · rw [List.filter_cons_of_pos (by simpa using hn), List.getLast?_cons, if_pos hn]
      cases (vs.filter (·.1 = key)).getLast? <;> rfl
    · rw [List.filter_cons_of_neg (by simpa using hn), if_neg hn]

theorem lookup_sortMembers (key : String) (vs : List (String × α)) :
    lookupMember key (sortMembers vs) = (vs.filter (·.1 = key)).getLast?.map (·.2) := by
  rw [sortMembers, lookup_foldl_insert]
  exact Option.or_none

theorem lookup_sortMembers_nodup {ms : List (String × α)} (h : (ms.map (·.1)).Nodup) (key : String) :
    lookupMember key (sortMembers ms) = lookupMember key ms := by
  rw [lookup_sortMembers]
  induction ms with
  | nil => rfl
  | cons m ms ih =>
    obtain ⟨hm, hms⟩ := List.nodup_cons.mp h
    rw [lookupMember_cons]
    by_cases hk : m.1 = key
    · have hnone : ms.filter (·.1 = key) = [] := by
        refine List.filter_eq_nil_iff.mpr fun n hn hkey => hm (List.mem_map.mpr ⟨n, hn, ?_⟩)
        exact (of_decide_eq_true hkey).trans hk.symm
      rw [List.filter_cons_of_pos (by simpa using hk), hnone, if_pos hk]
      rfl
    · rw [List.filter_cons_of_neg (by simpa using hk), if_neg hk, ih hms]

theorem mem_sortMembers {ms : List (String × α)} {m : String × α} (h : m ∈ sortMembers ms) : m ∈ ms := by
  have hfold : ∀ ms sorted : List (String × α),
      m ∈ ms.foldl (fun sorted m => insertMember m.1 m.2 sorted) sorted → m ∈ sorted ∨ m ∈ ms := by
    intro ms
    induction ms with
    | nil => exact fun _ h => .inl h
    | cons n ms ih =>
      intro sorted h
      obtain h | h := ih _ h
      · exact (mem_insertMember h).symm.imp_right fun he => List.mem_cons.mpr (.inl he)
      · exact .inr (List.mem_cons_of_mem _ h)
  exact (hfold ms [] h).resolve_left List.not_mem_nil

theorem sortMembers_increasing (ms : List (String × α)) : Increasing (sortMembers ms) := by
  have hfold : ∀ (ms sorted : List (String × α)), Increasing sorted →
      Increasing (ms.foldl (fun sorted m => insertMember m.1 m.2 sorted) sorted) := by
    intro ms
    induction ms with
    | nil => exact fun _ h => h
    | cons m ms ih => exact fun _ h => ih _ (h.insertMember m.1 m.2)
  exact hfold ms [] List.Pairwise.nil

end Members

namespace Json

theorem sortedMembers_eq (ms : List (String × Json)) :
    sortedMembers ms = ms.map fun m => (m.1, m.2.sorted) := by
  induction ms with
  | nil => rfl
  | cons m ms ih => rw [sortedMembers, ih, List.map_cons]

theorem lookup_sortedMembers (key : String) (ms : List (String × Json)) :
    lookupMember key (sortedMembers ms) = (lookupMember key ms).map sorted := by
  induction ms with
  | nil => rfl
  | cons m ms ih =>
    rw [sortedMembers, lookupMember, lookupMember, ih]
    split <;> rfl

mutual

/-- Whether the keys of every object in a value increase. -/
def Ordered : Json → Prop
  | .list items => OrderedItems items
  | .object members => Increasing members ∧ OrderedMembers members
  | .null | .boolean _ | .number _ | .text _ => True
termination_by structural v => v

def OrderedItems : List Json → Prop
  | [] => True
  | v :: vs => v.Ordered ∧ OrderedItems vs
termination_by structural vs => vs

def OrderedMembers : List (String × Json) → Prop
  | [] => True
  | (_, v) :: ms => v.Ordered ∧ OrderedMembers ms
termination_by structural ms => ms

end

theorem orderedItems_iff (vs : List Json) : OrderedItems vs ↔ ∀ v ∈ vs, v.Ordered := by
  induction vs with
  | nil => simp [OrderedItems]
  | cons v vs ih => rw [OrderedItems, ih, List.forall_mem_cons]

theorem orderedMembers_iff (ms : List (String × Json)) :
    OrderedMembers ms ↔ ∀ m ∈ ms, m.2.Ordered := by
  induction ms with
  | nil => simp [OrderedMembers]
  | cons m ms ih => rw [OrderedMembers, ih, List.forall_mem_cons]

theorem Ordered.member {ms : List (String × Json)} (h : (Json.object ms).Ordered) {key : String}
    {v : Json} (hv : lookupMember key ms = some v) : v.Ordered :=
  (orderedMembers_iff ms).mp h.2 _ (lookupMember_mem hv)

mutual

/-- A value without the members that are `null`, in it and in the objects it holds; lists are left as
they are. -/
def pruned : Json → Json
  | .object members => .object (prunedMembers members)
  | .null => .null
  | .boolean b => .boolean b
  | .number n => .number n
  | .text s => .text s
  | .list items => .list items
termination_by structural v => v

def prunedMembers : List (String × Json) → List (String × Json)
  | [] => []
  | (_, .null) :: ms => prunedMembers ms
  | (key, v) :: ms => (key, v.pruned) :: prunedMembers ms
termination_by structural ms => ms

end

def counted : Json → Option Json
  | .null => none
  | v => some v

/-- What stands under a key, unless it is `null`. -/
def under (key : String) (ms : List (String × Json)) : Option Json :=
  (lookupMember key ms).bind counted

theorem counted_some {v w : Json} (h : v.counted = some w) : v ≠ .null ∧ w = v := by
  cases v with
  | null => cases h
  | _ => exact ⟨Json.noConfusion, (Option.some.inj h).symm⟩

theorem under_ordered {ms : List (String × Json)} (h : (Json.object ms).Ordered) {key : String}
    {v : Json} (hv : under key ms = some v) : v.Ordered := by
  obtain ⟨w, hw, hc⟩ := Option.bind_eq_some_iff.mp hv
  obtain ⟨_, rfl⟩ := counted_some hc
  exact h.member hw

theorem prunedMembers_cons (key : String) (v : Json) (ms : List (String × Json)) :
    prunedMembers ((key, v) :: ms) =
      (v.counted.map fun v => (key, v.pruned)).toList ++ prunedMembers ms := by
  cases v <;> rfl

theorem mem_prunedMembers {ms : List (String × Json)} {m : String × Json}
    (h : m ∈ prunedMembers ms) : ∃ v, (m.1, v) ∈ ms ∧ m.2 = v.pruned := by
  induction ms with
  | nil => cases h
  | cons n ms ih =>
    obtain ⟨key, v⟩ := n
    rw [prunedMembers_cons] at h
    obtain h | h := List.mem_append.mp h
    · obtain ⟨w, hw, rfl⟩ := Option.map_eq_some_iff.mp (Option.mem_toList.mp h)
      obtain ⟨_, rfl⟩ := counted_some hw
      exact ⟨w, List.mem_cons_self, rfl⟩
    · obtain ⟨v, hv, hp⟩ := ih h
      exact ⟨v, List.mem_cons_of_mem _ hv, hp⟩

theorem prunedMembers_increasing {ms : List (String × Json)} (h : Increasing ms) :
    Increasing (prunedMembers ms) := by
  induction ms with
  | nil => exact List.Pairwise.nil
  | cons m ms ih =>
    obtain ⟨key, v⟩ := m
    rw [prunedMembers_cons]
    cases v.counted with
    | none => exact ih h.tail
    | some v =>
      refine List.pairwise_cons.mpr ⟨fun n hn => ?_, ih h.tail⟩
      obtain ⟨w, hw, _⟩ := mem_prunedMembers hn
      exact (List.pairwise_cons.mp h).1 (n.1, w) hw

theorem under_cons (key : String) (m : String × Json) (ms : List (String × Json)) :
    under key (m :: ms) = if m.1 = key then m.2.counted else under key ms := by
  rw [under, lookupMember_cons]
  split <;> rfl

theorem under_new {key : String} {ms : List (String × Json)} (h : ∀ m ∈ ms, m.1 ≠ key) :
    under key ms = none := by
  rw [under, lookupMember_none h]
  rfl

theorem lookup_prunedMembers {ms : List (String × Json)} (h : Increasing ms) (key : String) :
    lookupMember key (prunedMembers ms) = (under key ms).map pruned := by
  induction ms with
  | nil => rfl
  | cons m ms ih =>
    obtain ⟨k, v⟩ := m
    rw [prunedMembers_cons, under_cons]
    by_cases hk : k = key
    · subst hk
      rw [if_pos rfl]
      cases hv : v.counted with
      | none =>
        -- the key does not stand again behind
        refine lookupMember_none fun n hn => ?_
        obtain ⟨w, hw, _⟩ := mem_prunedMembers hn
        exact h.head_new (n.1, w) hw
      | some w => exact if_pos rfl
    · rw [if_neg hk, ← ih h.tail]
      cases v.counted with
      | none => rfl
      | some w => exact if_neg hk

theorem prunedMembers_self {ms : List (String × Json)}
    (h : ∀ m ∈ ms, m.2 ≠ .null ∧ m.2.pruned = m.2) : prunedMembers ms = ms := by
  induction ms with
  | nil => rfl
  | cons m ms ih =>
    obtain ⟨key, v⟩ := m
    obtain ⟨⟨hnull, hv⟩, hms⟩ := List.forall_mem_cons.mp h
    have hcounted : v.counted = some v := by
      cases v with
      | null => exact absurd rfl hnull
      | _ => rfl
    rw [prunedMembers_cons, hcounted, ih hms, Option.map_some, hv]
    rfl

theorem overlayMembers_cons (lower : List (String × Json)) (key : String) (v : Json)
    (upper : List (String × Json)) :
    overlayMembers lower ((key, v) :: upper) =
      match v.counted with
      | none => overlayMembers lower upper
      | some v =>
        overlayMembers (insertMember key
          (match lookupMember key lower with
          | some below => below.overlay v
          | none => v) lower) upper := by
  cases v <;> rfl

theorem overlayMembers_increasing {lower : List (String × Json)} (h : Increasing lower)
    (upper : List (String × Json)) : Increasing (overlayMembers lower upper) := by
  induction upper generalizing lower with
  | nil => exact h
  | cons m upper ih =>
    rw [overlayMembers_cons]
    split
    next => exact ih h
    next => exact ih (h.insertMember _ _)

theorem lookup_overlayMembers (lower : List (String × Json)) {upper : List (String × Json)}
    (h : Increasing upper) (key : String) :
    lookupMember key (overlayMembers lower upper) =
      match under key upper with
      | none => lookupMember key lower
      | some v =>
        match lookupMember key lower with
        | some below => some (below.overlay v)
        | none => some v := by
  induction upper generalizing lower with
  | nil => rfl
  | cons m upper ih =>
    obtain ⟨k, v⟩ := m
    rw [overlayMembers_cons, under_cons]
    by_cases hk : k = key
    · subst hk
      rw [if_pos rfl]
      cases v.counted with
      | none => rw [ih lower h.tail, under_new h.head_new]
      | some v =>
        rw [ih _ h.tail, under_new h.head_new, lookup_insertMember, if_pos rfl]
        cases lookupMember k lower <;> rfl
    · rw [if_neg hk]
      cases v.counted with
      | none => rw [ih lower h.tail]
      | some v => rw [ih _ h.tail, lookup_insertMember, if_neg hk]

section Reading

theorem readItems_forall {α : Type} {P : α → Prop} {item : Reader α}
    (hitem : ∀ {s t a}, item s = .ok (a, t) → P a) {rounds : Nat} {first : Bool} {s t : List Char}
    {as : List α} (h : readItems item rounds first s = .ok (as, t)) : ∀ a ∈ as, P a := by
  induction rounds generalizing first s as with
  | zero => cases h
  | succ rounds ih =>
    obtain ⟨_, rfl, _⟩ | ⟨start, a, behind, more, _, ha, hmore, rfl⟩ := readItems_cases h
    · simp
    · exact List.forall_mem_cons.mpr ⟨hitem ha, ih hmore⟩

theorem readMembers_keep {σ : Type} {P : σ → Prop} {member : String → σ → Reader σ}
    (hmember : ∀ {key state state' s t}, member key state s = .ok (state', t) → P state → P state')
    {rounds : Nat} {first : Bool} {state state' : σ} {s t : List Char}
    (h : readMembers member rounds first state s = .ok (state', t)) (hp : P state) : P state' := by
  induction rounds generalizing first state s with
  | zero => cases h
  | succ rounds ih =>
    obtain ⟨rfl, _⟩ | ⟨_, _, _, next, _, _, _, hm, hmore⟩ := readMembers_cases h
    · exact hp
    · exact ih hmore (hmember hm hp)

def ReadsOrdered (reader : Reader Json) : Prop := ∀ {s t v}, reader s = .ok (v, t) → v.Ordered

variable {embedded : String → Except JsonError Json}
  (hembedded : ∀ {content v}, embedded content = .ok v → v.Ordered)

theorem ordered_insert {ms : List (String × Json)} {key : String} {v : Json}
    (h : (Json.object ms).Ordered) (hv : v.Ordered) : (Json.object (insertMember key v ms)).Ordered := by
  refine ⟨h.1.insertMember key v, (orderedMembers_iff _).mpr fun m hm => ?_⟩
  obtain rfl | hm := mem_insertMember hm
  · exact hv
  · exact (orderedMembers_iff _).mp h.2 m hm

include hembedded in
theorem readObject_ordered {value : Reader Json} (hvalue : ReadsOrdered value) :
    ReadsOrdered (readObject value embedded) := by
  intro s t v h
  obtain ⟨found, _, h⟩ := bind_ok h
  cases found with
  | none =>
    obtain ⟨_, _, h⟩ := bind_ok h
    cases h
    exact ⟨List.Pairwise.nil, trivial⟩
  | some start =>
    obtain ⟨⟨key, behind⟩, _, h⟩ := bind_ok h
    obtain ⟨r, _, h⟩ := bind_ok h
    dsimp only at h
    split at h
    next =>
      obtain ⟨⟨content, _⟩, _, h⟩ := bind_ok h
      obtain ⟨w, hw, h⟩ := bind_ok h
      obtain ⟨_, _, h⟩ := bind_ok h
      cases h
      exact hembedded hw
    next =>
      obtain ⟨⟨w, later⟩, hw, h⟩ := bind_ok h
      obtain ⟨⟨members, _⟩, hmembers, h⟩ := bind_ok h
      obtain ⟨_, _, h⟩ := bind_ok h
      cases h
      refine readMembers_keep (P := fun ms => (Json.object ms).Ordered) (fun hm hp => ?_) hmembers
        ⟨List.pairwise_singleton _ _, hvalue hw, trivial⟩
      obtain ⟨_, _, hm⟩ := bind_ok hm
      obtain ⟨⟨w', _⟩, hw', hm⟩ := bind_ok hm
      cases hm
      exact ordered_insert hp (hvalue hw')

include hembedded in
theorem readWithin_step {room : Nat}
    (hinner : ∀ inner, room = inner + 1 → ReadsOrdered (readWithin embedded inner)) :
    ReadsOrdered (readWithin embedded room) := by
  intro s t v h
  unfold readWithin at h
  split at h
  next => cases h
  next c r _ =>
    -- words, numerals and literals come first, then lists and objects
    iterate 6
      split at h
      next =>
        obtain ⟨_, _, h⟩ := bind_ok h
        cases h
        trivial
    split at h
    next =>
      split at h
      next => cases h
      next room =>
        obtain ⟨⟨items, _⟩, hlist, h⟩ := bind_ok h
        cases h
        obtain ⟨_, hitems, hlist⟩ := bind_ok hlist
        obtain ⟨_, _, hlist⟩ := bind_ok hlist
        cases hlist
        exact (orderedItems_iff _).mpr (readItems_forall (hinner room rfl) hitems)
    next =>
      split at h
      next =>
        split at h
        next => cases h
        next room => exact readObject_ordered hembedded (hinner room rfl) h
      next => cases h

include hembedded in
theorem readWithin_ordered (room : Nat) : ReadsOrdered (readWithin embedded room) := by
  induction room with
  | zero => exact readWithin_step hembedded fun _ h => by cases h
  | succ room ih => exact readWithin_step hembedded fun _ h => by cases h; exact ih

theorem parseEmbedded_ordered (levels : Nat) {content : String} {v : Json}
    (h : parseEmbedded levels content = .ok v) : v.Ordered := by
  induction levels generalizing content v with
  | zero => cases h
  | succ levels ih =>
    obtain ⟨_, hread, _⟩ := readAll_ok h
    exact readWithin_ordered (fun h => ih h) _ hread

theorem parse_ordered {content : String} {v : Json} (h : parse content = .ok v) : v.Ordered :=
  parseEmbedded_ordered _ h

end Reading

end Json

end RoomCast
