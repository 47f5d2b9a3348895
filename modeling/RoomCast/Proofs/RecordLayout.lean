import RoomCast.JsonRecord
import RoomCast.Proofs.OrderedMembers

namespace RoomCast

variable {α : Type}

theorem forall_mem_empty {p : α → Prop} : (∀ a ∈ ([] : List α), p a) ↔ True := by simp

namespace Field

/-- What a field of `a` shows once the value under its name, if any, has been set, or why that value is
refused. -/
def outcome (f : Field α) (a : α) : Option Json → Except JsonError (Option Json)
  | none => .ok (f.shown a)
  | some v => (f.codec.ofJson v).map fun change => f.shown (change a)

def Sets (f : Field α) : Prop :=
  ∀ v change, f.codec.ofJson v = .ok change → ∀ a b, f.shown (change a) = f.shown (change b)

def Leaves (f g : Field α) : Prop :=
  ∀ v change, f.codec.ofJson v = .ok change → ∀ a, g.shown (change a) = g.shown a

/-- Fields of different names that each hold a part of a record of its own, and together the whole. -/
structure Layout (fields : List (Field α)) : Prop where
  names : (fields.map (·.name)).Nodup
  sets : ∀ f ∈ fields, f.Sets
  leaves : ∀ f ∈ fields, ∀ g ∈ fields, f.name ≠ g.name → f.Leaves g
  whole : ∀ a b, (∀ f ∈ fields, f.shown a = f.shown b) → a = b

namespace Layout

variable {fields : List (Field α)} {ms : List (String × Json)} {a s : α}

theorem find (h : Layout fields) {f : Field α} (hf : f ∈ fields) :
    fields.find? (fun g => g.name = f.name) = some f := by
  have hnames := h.names
  clear h
  induction fields with
  | nil => cases hf
  | cons g fields ih =>
    obtain ⟨hg, hnames⟩ := List.nodup_cons.mp hnames
    obtain rfl | hf := List.mem_cons.mp hf
    · exact List.find?_cons_of_pos (by simp)
    · have hne : g.name ≠ f.name := fun he => hg (List.mem_map.mpr ⟨f, hf, he.symm⟩)
      rw [List.find?_cons_of_neg (by simpa using hne), ih hf hnames]

theorem same (h : Layout fields) {f g : Field α} (hf : f ∈ fields) (hg : g ∈ fields)
    (hname : f.name = g.name) : f = g := by
  have hfind := h.find hf
  rw [hname, h.find hg] at hfind
  exact (Option.some.inj hfind).symm

theorem outcome_apart (h : Layout fields) {f g : Field α} (hf : f ∈ fields) (hg : g ∈ fields)
    (hne : f.name ≠ g.name) {v : Json} {change : α → α} (hv : f.codec.ofJson v = .ok change)
    (o : Option Json) : g.outcome (change a) o = g.outcome a o := by
  cases o with
  | none => exact congrArg Except.ok (h.leaves f hf g hg hne v change hv a)
  | some w =>
    cases hw : g.codec.ofJson w with
    | error cause => simp only [outcome, hw, Except.map]
    | ok later => simp only [outcome, hw, Except.map, h.sets g hg w later hw (change a) a]

theorem setMembers_known (h : Layout fields) {f : Field α} (hf : f ∈ fields) {v : Json} :
    Codec.setMembers fields ((f.name, v) :: ms) a =
      f.codec.ofJson v >>= fun change => Codec.setMembers fields ms (change a) := by
  rw [Codec.setMembers, h.find hf]

theorem setMembers_other {key : String} (hkey : ∀ f ∈ fields, f.name ≠ key) {v : Json} :
    Codec.setMembers fields ((key, v) :: ms) a = Codec.setMembers fields ms a := by
  have hfind : fields.find? (fun f => f.name = key) = none := by
    simpa [List.find?_eq_none] using hkey
  rw [Codec.setMembers, hfind]

theorem known_or_other (fields : List (Field α)) (key : String) :
    (∃ f ∈ fields, f.name = key) ∨ ∀ f ∈ fields, f.name ≠ key := by
  by_cases h : ∃ f ∈ fields, f.name = key
  · exact .inl h
  · exact .inr fun f hf hn => h ⟨f, hf, hn⟩

theorem setMembers_ok (h : Layout fields) (hms : Increasing ms)
    (hs : Codec.setMembers fields ms a = .ok s) :
    ∀ f ∈ fields, f.outcome a (lookupMember f.name ms) = .ok (f.shown s) := by
  induction ms generalizing a with
  | nil =>
    cases hs
    exact fun f _ => rfl
  | cons m ms ih =>
    intro f hf
    obtain ⟨key, v⟩ := m
    obtain ⟨g, hg, rfl⟩ | hother := known_or_other fields key
    · rw [h.setMembers_known hg] at hs
      obtain ⟨change, hv, hs⟩ := bind_ok hs
      have hlater := ih hms.tail hs f hf
      rw [lookupMember_cons]
      by_cases hname : g.name = f.name
      · obtain rfl := h.same hg hf hname
        rw [lookupMember_none hms.head_new] at hlater
        simpa only [if_true, outcome, hv, Except.map] using hlater
      · rw [if_neg hname, ← h.outcome_apart hg hf hname hv, hlater]
    · rw [setMembers_other hother] at hs
      rw [lookupMember_cons, if_neg (hother f hf).symm, ih hms.tail hs f hf]

/-- A refusal is that of the field whose name comes first among those that refuse. -/
theorem setMembers_error (h : Layout fields) (hms : Increasing ms) {cause : JsonError}
    (hs : Codec.setMembers fields ms a = .error cause) :
    ∃ f ∈ fields, f.outcome a (lookupMember f.name ms) = .error cause ∧
      ∀ g ∈ fields, g.name < f.name → ∃ x, g.outcome a (lookupMember g.name ms) = .ok x := by
  induction ms generalizing a with
  | nil => cases hs
  | cons m ms ih =>
    obtain ⟨key, v⟩ := m
    have hbehind := (List.pairwise_cons.mp hms).1
    obtain ⟨g, hg, rfl⟩ | hother := known_or_other fields key
    · rw [h.setMembers_known hg] at hs
      cases hv : g.codec.ofJson v with
      | error cause' =>
        rw [hv] at hs
        cases hs
        refine ⟨g, hg, ?_, fun g' _ hlt => ⟨g'.shown a, ?_⟩⟩
        · rw [lookupMember_cons, if_pos rfl, outcome, hv, Except.map]
        · -- no key stands before that of the first member
          have hnew : ∀ m ∈ (g.name, v) :: ms, m.1 ≠ g'.name := by
            refine List.forall_mem_cons.mpr ⟨hlt.ne', fun m hm => ?_⟩
            exact (lt_trans hlt (hbehind m hm)).ne'
          rw [lookupMember_none hnew, outcome]
      | ok change =>
        rw [hv] at hs
        obtain ⟨f, hf, herror, hsmaller⟩ := ih hms.tail hs
        have hlook : ∀ g' ∈ fields, g.name ≠ g'.name →
            g'.outcome a (lookupMember g'.name ((g.name, v) :: ms)) =
              g'.outcome (change a) (lookupMember g'.name ms) := by
          intro g' hg' hname
          rw [lookupMember_cons, if_neg hname, h.outcome_apart hg hg' hname hv]
        have hne : g.name ≠ f.name := by
          intro hname
          rw [← hname, lookupMember_none hms.head_new] at herror
          cases herror
        refine ⟨f, hf, by rw [hlook f hf hne, herror], fun g' hg' hlt => ?_⟩
        by_cases hname : g.name = g'.name
        · obtain rfl := h.same hg hg' hname
          refine ⟨g.shown (change a), ?_⟩
          rw [lookupMember_cons, if_pos rfl, outcome, hv, Except.map]
        · rw [hlook g' hg' hname]
          exact hsmaller g' hg' hlt
    · rw [setMembers_other hother] at hs
      have hlook : ∀ f ∈ fields, lookupMember f.name ((key, v) :: ms) = lookupMember f.name ms := by
        intro f hf
        rw [lookupMember_cons, if_neg (hother f hf).symm]
      obtain ⟨f, hf, herror, hsmaller⟩ := ih hms.tail hs
      refine ⟨f, hf, by rw [hlook f hf, herror], fun g hg hlt => ?_⟩
      rw [hlook g hg]
      exact hsmaller g hg hlt

theorem setMembers_eq (h : Layout fields) (hms : Increasing ms)
    (houtcome : ∀ f ∈ fields, f.outcome a (lookupMember f.name ms) = .ok (f.shown s)) :
    Codec.setMembers fields ms a = .ok s := by
  cases hs : Codec.setMembers fields ms a with
  | error cause =>
    obtain ⟨f, hf, herror, _⟩ := h.setMembers_error hms hs
    rw [houtcome f hf] at herror
    cases herror
  | ok s' =>
    refine congrArg Except.ok (h.whole s' s fun f hf => ?_)
    exact Except.ok.inj ((h.setMembers_ok hms hs f hf).symm.trans (houtcome f hf))

/-- Members that every field takes alike make the same of a record. -/
theorem setMembers_congr (h : Layout fields) {ms' : List (String × Json)} (hms : Increasing ms)
    (hms' : Increasing ms')
    (hsame : ∀ f ∈ fields, f.outcome a (lookupMember f.name ms) =
      f.outcome a (lookupMember f.name ms')) :
    Codec.setMembers fields ms a = Codec.setMembers fields ms' a := by
  cases hs : Codec.setMembers fields ms a with
  | ok s =>
    refine (h.setMembers_eq hms' fun f hf => ?_).symm
    rw [← hsame f hf, h.setMembers_ok hms hs f hf]
  | error cause =>
    obtain ⟨f, hf, herror, hsmaller⟩ := h.setMembers_error hms hs
    cases hs' : Codec.setMembers fields ms' a with
    | ok s' =>
      have hok := h.setMembers_ok hms' hs' f hf
      rw [← hsame f hf, herror] at hok
      cases hok
    | error cause' =>
      obtain ⟨f', hf', herror', hsmaller'⟩ := h.setMembers_error hms' hs'
      obtain hlt | hname | hlt := lt_trichotomy f.name f'.name
      · obtain ⟨x, hx⟩ := hsmaller' f hf hlt
        rw [← hsame f hf, herror] at hx
        cases hx
      · obtain rfl := h.same hf hf' hname
        rw [← hsame f hf, herror] at herror'
        exact congrArg Except.error (Except.error.inj herror')
      · obtain ⟨x, hx⟩ := hsmaller f' hf' hlt
        rw [hsame f' hf', herror'] at hx
        cases hx

end Layout

def membersOf (fields : List (Field α)) (a : α) : List (String × Json) :=
  fields.filterMap fun f => (f.shown a).map fun v => (f.name, v)

def orderedMembersOf (fields : List (Field α)) (a : α) : List (String × Json) :=
  sortMembers (Json.sortedMembers (membersOf fields a))

theorem mem_membersOf {fields : List (Field α)} {a : α} {m : String × Json}
    (h : m ∈ membersOf fields a) : ∃ f ∈ fields, m.1 = f.name ∧ f.shown a = some m.2 := by
  obtain ⟨f, hf, hm⟩ := List.mem_filterMap.mp h
  obtain ⟨v, hv, rfl⟩ := Option.map_eq_some_iff.mp hm
  exact ⟨f, hf, rfl, hv⟩

theorem lookup_membersOf {fields : List (Field α)} (hnames : (fields.map (·.name)).Nodup) (a : α)
    {f : Field α} (hf : f ∈ fields) : lookupMember f.name (membersOf fields a) = f.shown a := by
  induction fields with
  | nil => cases hf
  | cons g fields ih =>
    obtain ⟨hg, hnames⟩ := List.nodup_cons.mp hnames
    have hnew : lookupMember g.name (membersOf fields a) = none := by
      refine lookupMember_none fun m hm he => hg ?_
      obtain ⟨f', hf', hname, _⟩ := mem_membersOf hm
      exact List.mem_map.mpr ⟨f', hf', hname.symm.trans he⟩
    rw [membersOf, List.filterMap_cons]
    obtain rfl | hf := List.mem_cons.mp hf
    · cases hv : f.shown a with
      | none => exact hnew
      | some v => exact if_pos rfl
    · have hne : g.name ≠ f.name := fun he => hg (List.mem_map.mpr ⟨f, hf, he.symm⟩)
      cases g.shown a with
      | none => exact ih hnames hf
      | some v => exact (if_neg hne).trans (ih hnames hf)

theorem membersOf_cons (f : Field α) (fields : List (Field α)) (a : α) :
    membersOf (f :: fields) a =
      ((f.shown a).map fun w => (f.name, w)).toList ++ membersOf fields a := by
  rw [membersOf, List.filterMap_cons]
  cases f.shown a <;> rfl

theorem membersOf_names {fields : List (Field α)} (h : (fields.map (·.name)).Nodup) (a : α) :
    ((membersOf fields a).map (·.1)).Nodup := by
  rw [List.Nodup, List.pairwise_map] at h ⊢
  rw [membersOf, List.pairwise_filterMap]
  refine h.imp fun {f g} hne m hm n hn => ?_
  obtain ⟨_, _, rfl⟩ := Option.map_eq_some_iff.mp hm
  obtain ⟨_, _, rfl⟩ := Option.map_eq_some_iff.mp hn
  exact hne

theorem lookup_orderedMembersOf {fields : List (Field α)} (h : (fields.map (·.name)).Nodup) (a : α)
    {f : Field α} (hf : f ∈ fields) :
    lookupMember f.name (orderedMembersOf fields a) = (f.shown a).map Json.sorted := by
  have hnames : ((Json.sortedMembers (membersOf fields a)).map (·.1)).Nodup := by
    rw [Json.sortedMembers_eq, List.map_map]
    exact membersOf_names h a
  rw [orderedMembersOf, lookup_sortMembers_nodup hnames, Json.lookup_sortedMembers,
    lookup_membersOf h a hf]

theorem Layout.shown_injective {fields : List (Field α)} (h : Layout fields) :
    Function.Injective fun a => some (objectOf fields a) := by
  intro a b he
  have hms : membersOf fields a = membersOf fields b := Json.object.inj (Option.some.inj he)
  refine h.whole a b fun f hf => ?_
  rw [← lookup_membersOf h.names a hf, hms, lookup_membersOf h.names b hf]

section Parts

variable {β : Type} {name : String} {codec : Codec β} {toJson : β → Option Json} {get : α → β}
  {put : α → β → α}

theorem of_change {v : Json} {change : α → α}
    (h : (Field.of name codec toJson get put).codec.ofJson v = .ok change) :
    ∃ b, codec.ofJson v = .ok b ∧ change = fun a => put a b := by
  obtain ⟨b, hb, h⟩ := bind_ok h
  cases h
  exact ⟨b, hb, rfl⟩

theorem of_ofJson {v : Json} {b : β} (h : codec.ofJson v = .ok b) :
    (Field.of name codec toJson get put).codec.ofJson v = .ok fun a => put a b := by
  simp only [Field.of, Codec.map, h, bind, Except.bind, pure, Except.pure]

theorem of_congr {v w : Json} (h : codec.ofJson v = codec.ofJson w) :
    (Field.of name codec toJson get put).codec.ofJson v =
      (Field.of name codec toJson get put).codec.ofJson w := by
  simp only [Field.of, Codec.map, h]

theorem of_sets (h : ∀ a b, get (put a b) = b) : (Field.of name codec toJson get put).Sets := by
  intro v change hv a a'
  obtain ⟨b, _, rfl⟩ := of_change hv
  exact congrArg toJson ((h a b).trans (h a' b).symm)

theorem of_leaves {g : Field α} (h : ∀ a b, g.shown (put a b) = g.shown a) :
    (Field.of name codec toJson get put).Leaves g := by
  intro v change hv a
  obtain ⟨b, _, rfl⟩ := of_change hv
  exact h a b

end Parts

/-- What lies under the fields of `defaults` in an object: values that set them to what they show. -/
def Below (fields : List (Field α)) (defaults : α) (ms : List (String × Json)) : Prop :=
  ∀ f ∈ fields, f.outcome defaults (lookupMember f.name ms) = .ok (f.shown defaults)

/-- The value that lies under another one after that has been laid over it. -/
def overlaid (below : Option Json) (v : Json) : Json :=
  match below with
  | some below => below.overlay v
  | none => v

section Overlays

variable {fields : List (Field α)} {defaults : α} {lower : List (String × Json)}
  (hb : Below fields defaults lower)

include hb

theorem Below.outcome_overlaid {upper : List (String × Json)} (hu : Increasing upper)
    (hover : ∀ f ∈ fields, ∀ v, Json.under f.name upper = some v →
      f.codec.ofJson (overlaid (lookupMember f.name lower) v) = f.codec.ofJson v.pruned) :
    ∀ f ∈ fields, f.outcome defaults (lookupMember f.name (Json.overlayMembers lower upper)) =
      f.outcome defaults (lookupMember f.name (Json.prunedMembers upper)) := by
  intro f hf
  rw [Json.lookup_overlayMembers lower hu, Json.lookup_prunedMembers hu]
  cases hv : Json.under f.name upper with
  | none => exact hb f hf
  | some v =>
    have hcodec := hover f hf v hv
    cases hl : lookupMember f.name lower with
    | none => simpa only [hl, overlaid, outcome, Option.map] using congrArg (Except.map _) hcodec
    | some below => simpa only [hl, overlaid, outcome, Option.map] using congrArg (Except.map _) hcodec

/-- Laying a value over the defaults and reading it makes the same record as reading the value without
`null` members, whose missing fields keep their defaults. -/
theorem Below.ofJson_overlaid (hl : Layout fields) (hlower : Increasing lower) (title : String)
    {u : Json} (hu : u.Ordered)
    (hover : ∀ f ∈ fields, ∀ v, v.Ordered →
      f.codec.ofJson (overlaid (lookupMember f.name lower) v) = f.codec.ofJson v.pruned) :
    (Codec.record title defaults fields).ofJson ((Json.object lower).overlay u) =
      (Codec.record title defaults fields).ofJson u.pruned := by
  cases u with
  | object upper =>
    refine hl.setMembers_congr (Json.overlayMembers_increasing hlower upper)
      (Json.prunedMembers_increasing hu.1) (hb.outcome_overlaid hu.1 fun f hf v hv => ?_)
    exact hover f hf v (Json.under_ordered hu hv)
  | _ => rfl

theorem Below.setMembers (hl : Layout fields) (hlower : Increasing lower) :
    Codec.setMembers fields lower defaults = .ok defaults := hl.setMembers_eq hlower hb

end Overlays

/-- A codec of values without parts: it takes no object, what it shows is none, and it reads back what
it shows. -/
structure Scalar {β : Type} (codec : Codec β) (toJson : β → Option Json) : Prop where
  inj : ∀ a b, toJson a = toJson b → a = b
  blind : ∀ ms ms', codec.ofJson (.object ms) = codec.ofJson (.object ms')
  flat : ∀ b w, toJson b = some w → ∀ v, w.overlay v = v
  sorted : ∀ b w, toJson b = some w → w.sorted = w
  back : ∀ b w, toJson b = some w → codec.ofJson w = .ok b

structure Plain (f : Field α) : Prop where
  sets : f.Sets
  blind : ∀ ms ms', f.codec.ofJson (.object ms) = f.codec.ofJson (.object ms')
  flat : ∀ a w, f.shown a = some w → ∀ v, w.overlay v = v
  sorted : ∀ a w, f.shown a = some w → w.sorted = w
  back : ∀ a w, f.shown a = some w → f.outcome a (some w) = .ok (some w)

theorem Scalar.plain {β : Type} {name : String} {codec : Codec β} {toJson : β → Option Json}
    {get : α → β} {put : α → β → α} (h : Scalar codec toJson) (hput : ∀ a b, get (put a b) = b) :
    (Field.of name codec toJson get put).Plain where
  sets := of_sets hput
  blind ms ms' := of_congr (h.blind ms ms')
  flat a w hw := h.flat (get a) w hw
  sorted a w hw := h.sorted (get a) w hw
  back a w hw := by
    rw [outcome, of_ofJson (h.back (get a) w hw)]
    exact congrArg Except.ok ((congrArg toJson (hput a (get a))).trans hw)

theorem Plain.pruned {f : Field α} (h : f.Plain) (v : Json) :
    f.codec.ofJson v.pruned = f.codec.ofJson v := by
  cases v with
  | object ms => exact h.blind _ _
  | _ => rfl

/-- A record of values without parts, whose defaults are all shown as members of one object. -/
structure Flat (fields : List (Field α)) (defaults : α) : Prop where
  names : (fields.map (·.name)).Nodup
  plain : ∀ f ∈ fields, f.Plain
  leaves : ∀ f ∈ fields, ∀ g ∈ fields, f.name ≠ g.name → f.Leaves g
  whole : ∀ a b, (∀ f ∈ fields, f.shown a = f.shown b) → a = b
  lookup : ∀ f ∈ fields, lookupMember f.name (orderedMembersOf fields defaults) = f.shown defaults

namespace Flat

variable {fields : List (Field α)} {defaults : α} (h : Flat fields defaults)

include h

theorem layout : Layout fields := ⟨h.names, fun f hf => (h.plain f hf).sets, h.leaves, h.whole⟩

theorem below : Below fields defaults (orderedMembersOf fields defaults) := by
  intro f hf
  rw [h.lookup f hf]
  cases hw : f.shown defaults with
  | none => rw [outcome, hw]
  | some w => exact (h.plain f hf).back defaults w hw

theorem ofJson_defaults (title : String) :
    (Codec.record title defaults fields).ofJson (.object (orderedMembersOf fields defaults)) =
      .ok defaults :=
  h.below.setMembers h.layout (sortMembers_increasing _)

theorem ofJson_overlaid (title : String) {v : Json} (hv : v.Ordered) :
    (Codec.record title defaults fields).ofJson
        ((Json.object (orderedMembersOf fields defaults)).overlay v) =
      (Codec.record title defaults fields).ofJson v.pruned := by
  refine h.below.ofJson_overlaid h.layout (sortMembers_increasing _) title hv fun f hf v _ => ?_
  rw [(h.plain f hf).pruned, h.lookup f hf]
  cases hw : f.shown defaults with
  | none => rfl
  | some w => rw [overlaid, (h.plain f hf).flat defaults w hw]

end Flat

/-- A part of a record, by how it is got and put, beside others: these `copy` takes from one record into
another. -/
structure Part {β : Type} (get : α → β) (put : α → β → α) (copy : α → α → α) : Prop where
  get_put : ∀ a b, get (put a b) = b
  put_get : ∀ a, put a (get a) = a
  get_copy : ∀ a b, get (copy a b) = get b
  copy_put : ∀ a b x, copy a (put b x) = put (copy a b) x

/-- Fields of one kind that hold parts of a record apart from each other, and what copies all of these. -/
inductive Apart (Kind : (β : Type) → Codec β → (β → Option Json) → Prop) :
    List (Field α) → (α → α → α) → Prop where
  | nil : Apart Kind [] fun _ b => b
  | cons {β : Type} {name : String} {codec : Codec β} {toJson : β → Option Json} {get : α → β}
      {put : α → β → α} {fields : List (Field α)} {copy : α → α → α} :
      Kind β codec toJson → Part get put copy → Apart Kind fields copy →
        Apart Kind (.of name codec toJson get put :: fields) fun a b => copy a (put b (get a))

namespace Apart

variable {Kind : (β : Type) → Codec β → (β → Option Json) → Prop} {fields : List (Field α)}
  {copy : α → α → α}

theorem copy_self (h : Apart Kind fields copy) (a : α) : copy a a = a := by
  induction h with
  | nil => rfl
  | @cons β name codec toJson get put fields copy _ hpart _ ih =>
    change copy a (put a (get a)) = a
    rw [hpart.put_get, ih]

theorem shown_copy (h : Apart Kind fields copy) (a b : α) :
    ∀ f ∈ fields, f.shown (copy a b) = f.shown a := by
  induction h generalizing b with
  | nil => simp
  | @cons β name codec toJson get put fields copy _ hpart _ ih =>
    refine List.forall_mem_cons.mpr ⟨congrArg toJson ?_, ih _⟩
    rw [hpart.get_copy, hpart.get_put]

theorem copy_change (h : Apart Kind fields copy) {f : Field α} (hf : f ∈ fields) {v : Json}
    {change : α → α} (hv : f.codec.ofJson v = .ok change) (b : α) :
    copy (change b) b = change b := by
  induction h with
  | nil => cases hf
  | @cons β name codec toJson get put fields copy _ hpart hrest ih =>
    obtain rfl | hf := List.mem_cons.mp hf
    · obtain ⟨x, _, rfl⟩ := of_change hv
      change copy (put b x) (put b (get (put b x))) = put b x
      rw [hpart.get_put, hrest.copy_self]
    · have hget : get (change b) = get b := by rw [← ih hf, hpart.get_copy]
      change copy (change b) (put b (get (change b))) = change b
      rw [hget, hpart.put_get, ih hf]

theorem sets (h : Apart Kind fields copy) : ∀ f ∈ fields, f.Sets := by
  induction h with
  | nil => simp
  | cons _ hpart _ ih => exact List.forall_mem_cons.mpr ⟨of_sets hpart.get_put, ih⟩

theorem leaves (h : Apart Kind fields copy) :
    ∀ f ∈ fields, ∀ g ∈ fields, f.name ≠ g.name → f.Leaves g := by
  induction h with
  | nil => simp
  | @cons β name codec toJson get put fields copy _ hpart hrest ih =>
    intro f hf g hg hne
    obtain rfl | hf := List.mem_cons.mp hf <;> obtain rfl | hg := List.mem_cons.mp hg
    · exact absurd rfl hne
    · refine of_leaves fun a x => ?_
      rw [← hrest.shown_copy a (put a x) g hg, hpart.copy_put, hrest.copy_self]
    · intro v change hv a
      refine congrArg toJson ?_
      rw [← hrest.copy_change hf hv, hpart.get_copy]
    · exact ih f hf g hg hne

theorem copy_congr (h : Apart Kind fields copy)
    (hinj : ∀ β codec toJson, Kind β codec toJson → Function.Injective toJson) {a b : α}
    (hshown : ∀ f ∈ fields, f.shown a = f.shown b) (c : α) : copy a c = copy b c := by
  induction h generalizing c with
  | nil => rfl
  | @cons β name codec toJson get put fields copy hkind _ _ ih =>
    obtain ⟨hget, hrest⟩ := List.forall_mem_cons.mp hshown
    have hsame : get a = get b := hinj _ _ _ hkind hget
    change copy a (put c (get a)) = copy b (put c (get b))
    rw [hsame, ih hrest]

theorem plain (h : Apart @Scalar fields copy) : ∀ f ∈ fields, f.Plain := by
  induction h with
  | nil => simp
  | cons hscalar hpart _ ih => exact List.forall_mem_cons.mpr ⟨hscalar.plain hpart.get_put, ih⟩

/-- Fields of different names are laid out apart if copying all of them copies the record. -/
theorem layout (h : Apart Kind fields copy)
    (hinj : ∀ β codec toJson, Kind β codec toJson → Function.Injective toJson)
    (hnames : (fields.map (·.name)).Nodup) (hwhole : ∀ a b, copy a b = a) : Layout fields where
  names := hnames
  sets := h.sets
  leaves := h.leaves
  whole a b hshown := by rw [← hwhole a a, h.copy_congr hinj hshown, hwhole]

theorem layout_of_injective (h : Apart (fun _ _ toJson => Function.Injective toJson) fields copy)
    (hnames : (fields.map (·.name)).Nodup) (hwhole : ∀ a b, copy a b = a) : Layout fields :=
  h.layout (fun _ _ _ hinj => hinj) hnames hwhole

theorem flat (h : Apart @Scalar fields copy) (hnames : (fields.map (·.name)).Nodup)
    (hwhole : ∀ a b, copy a b = a) (defaults : α) : Flat fields defaults where
  names := hnames
  plain := h.plain
  leaves := h.leaves
  whole := (h.layout (fun _ _ _ hscalar => hscalar.inj) hnames hwhole).whole
  lookup f hf := by
    rw [lookup_orderedMembersOf hnames defaults hf]
    cases hw : f.shown defaults with
    | none => rfl
    | some w => exact congrArg some ((h.plain f hf).sorted defaults w hw)

end Apart

end Field

end RoomCast
