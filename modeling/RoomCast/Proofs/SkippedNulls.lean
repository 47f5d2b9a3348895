import RoomCast.Proofs.RecordLayout

namespace RoomCast

namespace Json

/-- What holds of values that are no objects, and of objects if it holds of their members, holds of all
values. -/
@[elab_as_elim]
theorem object_induction {motive : Json → Prop} (plain : ∀ v, (∀ ms, v ≠ .object ms) → motive v)
    (object : ∀ ms, (∀ m ∈ ms, motive m.2) → motive (.object ms)) : ∀ v, motive v
  | .object ms => object ms fun m _ => object_induction plain object m.2
  | .null | .boolean _ | .number _ | .text _ | .list _ => plain _ fun _ h => by cases h
termination_by v => sizeOf v
decreasing_by
  have hlt := List.sizeOf_lt_of_mem ‹m ∈ ms›
  cases m
  simp only [Json.object.sizeOf_spec, Prod.mk.sizeOf_spec] at hlt ⊢
  omega

mutual

/-- A value without the nulls that are skipped when it is laid over `target`. -/
def trimmed (target : Json) : Json → Json
  | .object upper =>
    match target with
    | .object lower => .object (trimmedMembers lower upper)
    | _ => .object upper
  | v => v
termination_by structural v => v

def trimmedMembers (lower : List (String × Json)) : List (String × Json) → List (String × Json)
  | [] => []
  | (key, v) :: upper =>
    match v with
    | .null => trimmedMembers lower upper
    | v =>
      let inner := match lookupMember key lower with
        | some below => below.trimmed v
        | none => v
      (key, inner) :: trimmedMembers lower upper
termination_by structural ms => ms

end

/-- What is kept of a value that is laid over what stands below it, if anything. -/
def kept (below : Option Json) (v : Json) : Json :=
  match below with
  | some below => below.trimmed v
  | none => v

theorem trimmedMembers_cons (lower : List (String × Json)) (key : String) (v : Json)
    (upper : List (String × Json)) : trimmedMembers lower ((key, v) :: upper) =
      (v.counted.map fun v => (key, kept (lookupMember key lower) v)).toList ++
        trimmedMembers lower upper := by
  cases v <;> rfl

theorem trimmed_plain {target v : Json} (h : ∀ ms, v ≠ .object ms) : target.trimmed v = v := by
  cases v with
  | object ms => exact absurd rfl (h ms)
  | _ => rfl

theorem pruned_plain {v : Json} (h : ∀ ms, v ≠ .object ms) : v.pruned = v := by
  cases v with
  | object ms => exact absurd rfl (h ms)
  | _ => rfl

theorem overlay_over_plain {target : Json} (h : ∀ ms, target ≠ .object ms) (v : Json) :
    target.overlay v = v := by
  cases v with
  | object upper =>
    cases target with
    | object ms => exact absurd rfl (h ms)
    | _ => rfl
  | _ => rfl

theorem counted_of {v : Json} (h : v ≠ .null) : v.counted = some v := by
  cases v with
  | null => exact absurd rfl h
  | _ => rfl

theorem kept_ne_null {below : Option Json} {v : Json} (h : v ≠ .null) : kept below v ≠ .null := by
  cases v with
  | null => exact absurd rfl h
  | object upper =>
    cases below with
    | none => exact Json.noConfusion
    | some below => cases below <;> exact Json.noConfusion
  | _ => cases below <;> exact Json.noConfusion

theorem overlayMembers_insert {v : Json} (h : v ≠ .null) (lower : List (String × Json)) (key : String)
    (upper : List (String × Json)) : overlayMembers lower ((key, v) :: upper) =
      overlayMembers (insertMember key (Field.overlaid (lookupMember key lower) v) lower) upper := by
  cases v with
  | null => exact absurd rfl h
  | _ => rfl

theorem overlayMembers_trimmed {lower upper : List (String × Json)} (hu : Increasing upper)
    (hinner : ∀ m ∈ upper, ∀ below : Json, below.overlay (below.trimmed m.2) = below.overlay m.2)
    {reached : List (String × Json)}
    (hreached : ∀ m ∈ upper, lookupMember m.1 reached = lookupMember m.1 lower) :
    overlayMembers reached (trimmedMembers lower upper) = overlayMembers reached upper := by
  induction upper generalizing reached with
  | nil => rfl
  | cons m upper ih =>
    obtain ⟨key, v⟩ := m
    obtain ⟨hv, hrest⟩ := List.forall_mem_cons.mp hinner
    obtain ⟨hkey, hlater⟩ := List.forall_mem_cons.mp hreached
    rw [trimmedMembers_cons]
    by_cases hnull : v = .null
    · subst hnull
      exact ih hu.tail hrest hlater
    · have hlaid : Field.overlaid (lookupMember key reached) (kept (lookupMember key lower) v) =
          Field.overlaid (lookupMember key reached) v := by
        rw [hkey]
        cases lookupMember key lower with
        | none => rfl
        | some below => exact hv below
      rw [counted_of hnull, Option.map_some, Option.toList_some, List.singleton_append,
        overlayMembers_insert (kept_ne_null hnull), overlayMembers_insert hnull, hlaid]
      refine ih hu.tail hrest fun n hn => ?_
      rw [lookup_insertMember, if_neg (hu.head_new n hn).symm, hlater n hn]

/-- A value is laid over another one as it is without the nulls that are skipped. -/
theorem overlay_trimmed {v : Json} (hv : v.Ordered) (target : Json) :
    target.overlay (target.trimmed v) = target.overlay v := by
  induction v using object_induction generalizing target with
  | plain v h => rw [trimmed_plain h]
  | object upper ih =>
    cases target with
    | object lower =>
      refine congrArg Json.object (overlayMembers_trimmed hv.1 (fun m hm below => ?_) fun _ _ => rfl)
      exact ih m hm ((orderedMembers_iff upper).mp hv.2 m hm) below
    | _ => rfl

theorem trimmedMembers_pruned {lower upper : List (String × Json)}
    (h : ∀ m ∈ upper, m.2 ≠ .null → kept (lookupMember m.1 lower) m.2 = m.2.pruned) :
    trimmedMembers lower upper = prunedMembers upper := by
  induction upper with
  | nil => rfl
  | cons m upper ih =>
    obtain ⟨key, v⟩ := m
    obtain ⟨hv, h⟩ := List.forall_mem_cons.mp h
    rw [trimmedMembers_cons, prunedMembers_cons, ih h]
    by_cases hnull : v = .null
    · subst hnull
      rfl
    · simp only [counted_of hnull, Option.map_some, hv hnull]

theorem pruned_counted {v : Json} (h : v ≠ .null) : v.pruned.counted = some v.pruned := by
  cases v with
  | null => exact absurd rfl h
  | _ => rfl

theorem lookup_of_mem {α : Type} {ms : List (String × α)} (h : Increasing ms) {m : String × α}
    (hm : m ∈ ms) : lookupMember m.1 ms = some m.2 := by
  induction ms with
  | nil => cases hm
  | cons n ms ih =>
    rw [lookupMember_cons]
    obtain rfl | hm := List.mem_cons.mp hm
    · exact if_pos rfl
    · rw [if_neg (h.head_new m hm).symm, ih h.tail hm]

/-- Without any nulls a value makes the same of what lies below exactly if those that it holds are
skipped. -/
theorem overlay_pruned_iff {v : Json} (hv : v.Ordered) (target : Json) :
    target.overlay v.pruned = target.overlay v ↔ target.trimmed v = v.pruned := by
  constructor
  · induction v using object_induction generalizing target with
    | plain v h => exact fun _ => (trimmed_plain h).trans (pruned_plain h).symm
    | object upper ih =>
      intro heq
      cases target with
      | object lower =>
        refine congrArg Json.object (trimmedMembers_pruned fun m hm hnull => ?_)
        have hmembers := Json.object.inj heq
        have hlook := congrArg (lookupMember m.1) hmembers
        have hunder : under m.1 upper = some m.2 := by
          rw [under, lookup_of_mem hv.1 hm]
          exact counted_of hnull
        have hpruned : under m.1 (prunedMembers upper) = some m.2.pruned := by
          rw [under, lookup_prunedMembers hv.1, hunder]
          exact pruned_counted hnull
        rw [lookup_overlayMembers lower (prunedMembers_increasing hv.1),
          lookup_overlayMembers lower hv.1, hunder, hpruned] at hlook
        cases hbelow : lookupMember m.1 lower with
        | none =>
          simp only [hbelow] at hlook
          exact (Option.some.inj hlook).symm
        | some below =>
          simp only [hbelow] at hlook
          exact ih m hm ((orderedMembers_iff upper).mp hv.2 m hm) below (Option.some.inj hlook)
      | _ => exact heq.symm
  · intro heq
    rw [← heq, overlay_trimmed hv]

/-- What stands at the end of a path of keys that leads through objects. -/
def valueAt : List String → Json → Option Json
  | [], v => some v
  | key :: path, .object ms => (lookupMember key ms).bind (valueAt path)
  | _ :: _, _ => none

theorem valueAt_cons_iff {key : String} {path : List String} {v w : Json} :
    v.valueAt (key :: path) = some w ↔
      ∃ ms below, v = .object ms ∧ lookupMember key ms = some below ∧ below.valueAt path = some w := by
  constructor
  · intro h
    cases v with
    | object ms =>
      obtain ⟨below, hbelow, h⟩ := Option.bind_eq_some_iff.mp h
      exact ⟨ms, below, rfl, hbelow, h⟩
    | _ => cases h
  · rintro ⟨ms, below, rfl, hbelow, h⟩
    exact Option.bind_eq_some_iff.mpr ⟨below, hbelow, h⟩

theorem valueAt_concat (path : List String) (key : String) (v : Json) :
    v.valueAt (path ++ [key]) = (v.valueAt path).bind (valueAt [key]) := by
  induction path generalizing v with
  | nil => rfl
  | cons k path ih =>
    cases v with
    | object ms =>
      change (lookupMember k ms).bind (valueAt (path ++ [key])) =
        ((lookupMember k ms).bind (valueAt path)).bind (valueAt [key])
      rw [Option.bind_assoc]
      exact congrArg _ (funext ih)
    | _ => rfl

/-- Where a path leads to objects in both values, one is laid over the other there. The induction is on
the path: an object is not `null`, so every key of the path counts. -/
theorem overlay_valueAt {path : List String} {t v : Json} {lower upper : List (String × Json)}
    (hv : v.Ordered) (ht : t.valueAt path = some (.object lower))
    (hu : v.valueAt path = some (.object upper)) :
    Increasing upper ∧
      (t.overlay v).valueAt path = some (.object (overlayMembers lower upper)) := by
  induction path generalizing t v with
  | nil =>
    cases ht
    cases hu
    exact ⟨hv.1, rfl⟩
  | cons key path ih =>
    obtain ⟨ms, below, rfl, hbelow, hlower⟩ := valueAt_cons_iff.mp ht
    obtain ⟨ns, above, rfl, habove, hupper⟩ := valueAt_cons_iff.mp hu
    obtain ⟨hincreasing, hinner⟩ := ih (hv.member habove) hlower hupper
    have hnull : above ≠ .null := by
      rintro rfl
      cases path <;> cases hupper
    have hunder : under key ns = some above := by
      rw [under, habove]
      exact counted_of hnull
    refine ⟨hincreasing, valueAt_cons_iff.mpr ⟨_, below.overlay above, rfl, ?_, hinner⟩⟩
    rw [lookup_overlayMembers ms hv.1, hunder, hbelow]

theorem overlay_null {path : List String} {key : String} {t v : Json}
    {lower upper : List (String × Json)} (hv : v.Ordered)
    (ht : t.valueAt path = some (.object lower)) (hu : v.valueAt path = some (.object upper))
    (hnull : lookupMember key upper = some .null) :
    (t.overlay v).valueAt (path ++ [key]) = lookupMember key lower := by
  obtain ⟨hincreasing, hover⟩ := overlay_valueAt hv ht hu
  have hunder : under key upper = none := by
    rw [under, hnull]
    rfl
  rw [valueAt_concat, hover, Option.bind_some]
  change (lookupMember key (overlayMembers lower upper)).bind some = lookupMember key lower
  rw [Option.bind_fun_some, lookup_overlayMembers lower hincreasing, hunder]

theorem overlay_whole {path : List String} {key : String} {t v w : Json}
    {lower upper : List (String × Json)} (hv : v.Ordered)
    (ht : t.valueAt path = some (.object lower)) (hu : v.valueAt path = some (.object upper))
    (hw : lookupMember key upper = some w) (hnull : w ≠ .null)
    (hplain : ∀ ms, lookupMember key lower ≠ some (.object ms)) :
    (t.overlay v).valueAt (path ++ [key]) = some w := by
  obtain ⟨hincreasing, hover⟩ := overlay_valueAt hv ht hu
  have hunder : under key upper = some w := by
    rw [under, hw]
    exact counted_of hnull
  rw [valueAt_concat, hover, Option.bind_some]
  change (lookupMember key (overlayMembers lower upper)).bind some = some w
  rw [Option.bind_fun_some, lookup_overlayMembers lower hincreasing, hunder]
  cases hbelow : lookupMember key lower with
  | none => rfl
  | some below =>
    exact congrArg some (overlay_over_plain (fun ms hms => hplain ms (hms ▸ hbelow)) w)

end Json

/-- Nulls are skipped exactly where an object is laid over an object; everything else that meets no object
is taken whole, with the nulls in it. -/
theorem nulls_are_skipped_over_objects {v : Json} (hv : v.Ordered) (t : Json) :
    t.overlay (t.trimmed v) = t.overlay v ∧
    (t.overlay v.pruned = t.overlay v ↔ t.trimmed v = v.pruned) ∧
    ∀ path lower upper, t.valueAt path = some (.object lower) → v.valueAt path = some (.object upper) →
      ∀ key,
        (lookupMember key upper = some .null →
          (t.overlay v).valueAt (path ++ [key]) = lookupMember key lower) ∧
        ∀ w, lookupMember key upper = some w → w ≠ .null →
          (∀ ms, lookupMember key lower ≠ some (.object ms)) →
            (t.overlay v).valueAt (path ++ [key]) = some w :=
  ⟨Json.overlay_trimmed hv t, Json.overlay_pruned_iff hv t, fun _ _ _ ht hu _ =>
    ⟨Json.overlay_null hv ht hu, fun _ => Json.overlay_whole hv ht hu⟩⟩

/-- A null that meets a number is skipped, and one inside a new member comes in. -/
theorem skipped_and_taken_nulls :
    let t := Json.object [("a", .object [("x", .boolean true)])]
    let v := Json.object [("a", .object [("x", .null), ("y", .object [("z", .null)])])]
    v.Ordered ∧ (t.overlay v).valueAt ["a", "x"] = some (.boolean true) ∧
      (t.overlay v).valueAt ["a", "y"] = some (.object [("z", .null)]) ∧
      t.overlay v.pruned ≠ t.overlay v := by
  intro t v
  have hv : v.Ordered := by
    simp only [v, Json.Ordered, Json.OrderedMembers, and_true]
    exact ⟨by unfold Increasing; decide, by unfold Increasing; decide, by unfold Increasing; decide⟩
  obtain ⟨_, hpruned, hpath⟩ := nulls_are_skipped_over_objects hv t
  have hinner := hpath ["a"] _ _ rfl rfl
  refine ⟨hv, (hinner "x").1 rfl, (hinner "y").2 _ rfl Json.noConfusion (fun _ h => by cases h), ?_⟩
  intro h
  have htrimmed := hpruned.mp h
  simp [t, v, Json.trimmed, Json.trimmedMembers, Json.pruned, Json.prunedMembers,
    lookupMember] at htrimmed

/-- A `null` below a key that is new comes in, which it would not if nulls never counted. -/
theorem nested_null_comes_in : ¬∀ t v : List (String × Json), (Json.object t).Ordered →
    (Json.object v).Ordered →
      (Json.object t).overlay (.object v) = (Json.object t).overlay (Json.object v).pruned := by
  intro h
  have hv : (Json.object [("a", .object [("b", .null)])]).Ordered := by
    simp only [Json.Ordered, Json.OrderedMembers, and_true]
    exact ⟨by unfold Increasing; decide, by unfold Increasing; decide⟩
  have heq := h [] [("a", .object [("b", .null)])] ⟨List.Pairwise.nil, trivial⟩ hv
  simp [Json.overlay, Json.overlayMembers, Json.pruned, Json.prunedMembers, lookupMember,
    insertMember] at heq

end RoomCast
