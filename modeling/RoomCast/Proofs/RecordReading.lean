import RoomCast.Proofs.CodecReading

namespace RoomCast

namespace TextRecord

variable {σ α : Type} {Sets : String → σ → Fragment → σ → Prop}

theorem readFields_none {fields : List (TextField σ)} {first : Bool} {state : List String × σ}
    {s : List Char} (hn : nextItem first s = .ok none) :
    readFields fields first state s = .ok (state, s) := by
  cases fields with
  | nil => rfl
  | cons f fields => simp only [readFields, hn, bind, Except.bind, pure, Except.pure]

theorem readFields_item {f : TextField σ} {fields : List (TextField σ)} {first : Bool}
    {state last : List String × σ} {draft : σ} {s start behind t : List Char}
    (hn : nextItem first s = .ok (some start)) (hread : f.read state.2 start = .ok (draft, behind))
    (hmore : readFields fields false (f.name :: state.1, draft) behind = .ok (last, t)) :
    readFields (f :: fields) first state s = .ok (last, t) := by
  simp only [readFields, hn, hread, hmore, bind, Except.bind]

theorem readFields_more {fields : List (TextField σ)} (gives : ∀ f ∈ fields, f.Gives Sets)
    {gs : List Fragment} {items : List Char} (h : MoreItems gs items) {state last : List String × σ}
    (hl : Laid Sets fields state gs last) (rest : List Char) : ∃ t,
      readFields fields false state (items ++ rest) = .ok (last, t) ∧ closeList t = .ok rest := by
  induction h generalizing fields state with
  | @close blanks hb =>
    cases hl
    rw [List.append_assoc, List.singleton_append]
    exact ⟨_, readFields_none (nextItem_close hb rest), closeList_close hb rest⟩
  | @item before after s g gs hb ha hw hmore ih =>
    obtain _ | @⟨f, fields, names, draft, draft', _, _, _, hset, hl⟩ := hl
    obtain ⟨hf, hfields⟩ := List.forall_mem_cons.mp gives
    obtain ⟨t, hread, hclose⟩ := ih hfields hl
    have hitem := hf draft g draft' hw hset [] (s ++ rest) blanks_nil (hmore.grammar rest).delimited
    have htext : before ++ ',' :: after ++ g.text.toList ++ s ++ rest =
        before ++ ',' :: (after ++ (g.text.toList ++ (s ++ rest))) := by simp
    rw [htext]
    exact ⟨t, readFields_item (nextItem_comma hb ha hw _) hitem hread, hclose⟩

theorem read_items {record : TextRecord σ α} (gives : ∀ f ∈ record.fields, f.Gives Sets)
    {gs : List Fragment} {items : List Char} (h : ItemsText gs items) {state : List String × σ}
    (hl : Laid Sets record.fields ([], record.draft) gs state) {a : α}
    (ha : record.ofList state.1 state.2 = .ok a) {before : List Char} (hb : Blanks before)
    (rest : List Char) : record.read (before ++ '[' :: (items ++ rest)) = .ok (a, rest) := by
  have hstart : skipBlanks (before ++ '[' :: (items ++ rest)) = '[' :: (items ++ rest) :=
    skipBlanks_prefix hb rfl _
  have hfields : ∃ t, readFields record.fields true ([], record.draft) (items ++ rest) =
      .ok (state, t) ∧ closeList t = .ok rest := by
    generalize record.fields = fields at gives hl
    cases h with
    | @close blanks hblanks =>
      cases hl
      rw [List.append_assoc, List.singleton_append]
      exact ⟨_, readFields_none (nextItem_close hblanks rest), closeList_close hblanks rest⟩
    | @item between s g gs hbetween hw hmore =>
      obtain _ | @⟨f, fields, _, _, draft', _, _, _, hset, hl⟩ := hl
      obtain ⟨hf, hfields⟩ := List.forall_mem_cons.mp gives
      obtain ⟨t, hread, hclose⟩ := readFields_more hfields hmore hl rest
      have hitem := hf _ g draft' hw hset [] (s ++ rest) blanks_nil (hmore.grammar rest).delimited
      have htext : between ++ g.text.toList ++ s ++ rest =
          between ++ (g.text.toList ++ (s ++ rest)) := by simp
      rw [htext]
      exact ⟨t, readFields_item (nextItem_open hbetween hw _) hitem hread, hclose⟩
  obtain ⟨t, hread, hclose⟩ := hfields
  simp only [TextRecord.read, hstart, if_true, hread, ha, hclose, bind, Except.bind, pure, Except.pure]

theorem readAll_items {record : TextRecord σ α} (gives : ∀ f ∈ record.fields, f.Gives Sets)
    {gs : List Fragment} {text : String} (h : ListText gs text) {state : List String × σ}
    (hl : Laid Sets record.fields ([], record.draft) gs state) {a : α}
    (ha : record.ofList state.1 state.2 = .ok a) : record.read.readAll text = .ok a := by
  obtain ⟨before, items, after, hb, hafter, hitems, htext⟩ := h
  have hread : record.read text.toList = .ok (a, after) := by
    rw [htext, List.append_assoc, List.cons_append]
    exact read_items gives hitems hl ha hb after
  exact readAll_of hread hafter

/-- What is read as a record is a fragment, from which the record is read wherever it stands. -/
theorem stands {record : TextRecord σ α} (takes : ∀ f ∈ record.fields, f.Takes Sets)
    (gives : ∀ f ∈ record.fields, f.Gives Sets) {s rest : List Char} {a : α}
    (h : record.read s = .ok (a, rest)) : ∃ f, Starts f s rest ∧ Reader.Reads record.read f a := by
  obtain ⟨before, state, hb, ⟨ms, inner, hms, rfl, hfilled, ha⟩ | ⟨gs, items, hitems, rfl, hlaid, ha⟩⟩ :=
    read_shape takes h
  · have hgrammar := hms.grammar []
    rw [List.append_nil] at hgrammar
    refine ⟨⟨String.ofList ('\x7b' :: inner)⟩, ⟨before, hb, by simp, whole_of_value rfl (.object hgrammar)⟩,
      fun before' rest' hb' _ => ?_⟩
    rw [String.toList_ofList, List.cons_append]
    exact read_members hms (fills_of_filled gives hms.whole hfilled) ha hb' rest'
  · have hgrammar := hitems.grammar []
    rw [List.append_nil] at hgrammar
    refine ⟨⟨String.ofList ('[' :: items)⟩, ⟨before, hb, by simp, whole_of_value rfl (.list hgrammar)⟩,
      fun before' rest' hb' _ => ?_⟩
    rw [String.toList_ofList, List.cons_append]
    exact read_items gives hitems hlaid ha hb' rest'

end TextRecord

section Changes

variable {σ : Type} {Sets Sets' : String → σ → Fragment → σ → Prop} {fields : List (TextField σ)}
  {state last : List String × σ}

theorem Filled.imp {ms : List (String × Fragment)} (h : Filled Sets fields state ms last)
    (himp : ∀ m ∈ ms, m.1 ∈ fields.map (·.name) → ∀ d d', Sets m.1 d m.2 d' → Sets' m.1 d m.2 d') :
    Filled Sets' fields state ms last := by
  induction h with
  | done => exact .done
  | known hkey hnew hset _ ih =>
    obtain ⟨hm, hms⟩ := List.forall_mem_cons.mp himp
    exact .known hkey hnew (hm hkey _ _ hset) (ih hms)
  | other hkey _ ih => exact .other hkey (ih (List.forall_mem_cons.mp himp).2)

theorem Laid.imp {gs : List Fragment} (h : Laid Sets fields state gs last)
    (himp : ∀ m ∈ (fields.map (·.name)).zip gs, ∀ d d', Sets m.1 d m.2 d' → Sets' m.1 d m.2 d') :
    Laid Sets' fields state gs last := by
  induction h with
  | done => exact .done
  | item hset _ ih =>
    obtain ⟨hm, hms⟩ := List.forall_mem_cons.mp himp
    exact .item (hm _ _ hset) (ih hms)

end Changes

theorem ListText.unique {fs fs' : List Fragment} {text : String} (h : ListText fs text)
    (h' : ListText fs' text) : fs = fs' :=
  Option.some.inj ((fragmentsOf_iff.mpr h).symm.trans (fragmentsOf_iff.mpr h'))

/-- A fragment stands where a record has a field: under its name in an object, or in its place in a list. -/
def PartText (names : List String) (name : String) (f : Fragment) (text : String) : Prop :=
  (name ∈ names ∧ ∃ ms, ObjectText ms text ∧ (name, f) ∈ ms) ∨
    ∃ fs, ListText fs text ∧ (name, f) ∈ names.zip fs

theorem PartText.of_object {names : List String} {name : String} {f : Fragment} {text : String}
    {ms : List (String × Fragment)} (h : PartText names name f text) (htext : ObjectText ms text) :
    name ∈ names ∧ (name, f) ∈ ms := by
  obtain ⟨hname, ms', htext', hm⟩ | ⟨fs, hlist, _⟩ := h
  · rw [htext'.unique htext] at hm
    exact ⟨hname, hm⟩
  · exact absurd htext hlist.not_object

theorem PartText.of_list {names : List String} {name : String} {f : Fragment} {text : String}
    {fs : List Fragment} (h : PartText names name f text) (htext : ListText fs text) :
    (name, f) ∈ names.zip fs := by
  obtain ⟨_, ms, hobject, _⟩ | ⟨fs', htext', hm⟩ := h
  · exact absurd hobject htext.not_object
  · rwa [htext'.unique htext] at hm

/-- A text that embeds none, has no field twice, and is `Fair` where the fields stand. -/
structure FairRecord (names : List String) (Fair : String → String → Prop) (text : String) : Prop where
  plain : ¬Embeds text
  once : ∀ ms, ObjectText ms text → ∀ name ∈ names, (ms.filter (·.1 = name)).length ≤ 1
  parts : ∀ name f, PartText names name f text → Fair name f.text

theorem exists_value {α β : Type} {R : α → β → Prop} {as : List α} {bs : List β}
    (h : List.Forall₂ R as bs) : ∀ a ∈ as, ∃ b, R a b := by
  induction h with
  | nil => simp
  | cons hab _ ih => exact List.forall_mem_cons.mpr ⟨⟨_, hab⟩, ih⟩

namespace Field

variable {α : Type}

def FromText (f : Field α) (g : Fragment) (change : α → α) : Prop := Reader.Reads f.codec.read g change

def FromValue (f : Field α) (g : Fragment) (change : α → α) : Prop :=
  ∃ v, Json.parse g.text = .ok v ∧ f.codec.ofJson v = .ok change

/-- What the field of some name makes of a record from a fragment. -/
def Makes (From : Field α → Fragment → (α → α) → Prop) (fields : List (Field α)) (name : String) (a : α)
    (g : Fragment) (b : α) : Prop :=
  ∃ f ∈ fields, f.name = name ∧ ∃ change, From f g change ∧ b = change a

theorem textField_names (fields : List (Field α)) :
    (fields.map Codec.textField).map (·.name) = fields.map (·.name) := by
  rw [List.map_map]
  rfl

theorem Layout.makes_iff {fields : List (Field α)} (h : Layout fields) {f : Field α} (hf : f ∈ fields)
    {From : Field α → Fragment → (α → α) → Prop} {g : Fragment} {a b : α} :
    Makes From fields f.name a g b ↔ ∃ change, From f g change ∧ b = change a := by
  constructor
  · rintro ⟨f', hf', hname, hchange⟩
    rwa [h.same hf' hf hname] at hchange
  · exact fun hchange => ⟨f, hf, rfl, hchange⟩

theorem record_list_iff {title : String} {defaults a : α} {fields : List (Field α)} {vs : List Json} :
    (Codec.record title defaults fields).ofJson (.list vs) = .ok a ↔
      Codec.setItems fields vs defaults = .ok a ∧ vs.length ≤ fields.length := by
  cases hs : Codec.setItems fields vs defaults with
  | error cause => simp [Codec.record, hs, bind, Except.bind]
  | ok s =>
    by_cases hlen : fields.length < vs.length
    · simp [Codec.record, hs, hlen, bind, Except.bind, throw, throwThe, MonadExceptOf.throw]
    · simp [Codec.record, hs, hlen, bind, Except.bind, pure, Except.pure, Nat.le_of_not_lt hlen]

section Values

variable {fields : List (Field α)} (h : Layout fields) {a s : α}

include h

theorem setMembers_of_filled {ms : List (String × Fragment)} {ns : List (String × Json)}
    {names : List String} (hns : List.Forall₂ (Json.Under fun f v => Json.parse f.text = .ok v) ms ns)
    (hfilled : Filled (Makes FromValue fields) (fields.map Codec.textField) ([], a) ms (names, s)) :
    Codec.setMembers fields (sortMembers ns) a = .ok s := by
  refine h.setMembers_eq (sortMembers_increasing ns) fun f hf => ?_
  have hkey : f.name ∈ (fields.map Codec.textField).map (·.name) := by
    rw [textField_names]
    exact List.mem_map_of_mem hf
  have hpart := hfilled.field f.shown (by
    rintro name d d' g hne ⟨f', hf', rfl, change, ⟨v, _, hv⟩, rfl⟩
    exact h.leaves f' hf' f hf hne v change hv d) hkey
  obtain ⟨hnone, hsame⟩ | ⟨_, g, d, d', hone, _, hset, hlast⟩ := hpart
  · rw [Json.lookup_absent hns hnone, outcome, hsame]
  · obtain ⟨v, hlook, hparse⟩ := Json.lookup_one hns hone
    obtain ⟨change, ⟨w, hw, hchange⟩, rfl⟩ := (h.makes_iff hf).mp hset
    cases hparse.symm.trans hw
    rw [hlook, outcome, hchange, Except.map, hlast, h.sets f hf v change hchange a d]

/-- An object sets a record to what its members make of it, if no field has two of them. -/
theorem setMembers_iff {ms : List (String × Fragment)} {ns : List (String × Json)}
    (hns : List.Forall₂ (Json.Under fun f v => Json.parse f.text = .ok v) ms ns)
    (honce : ∀ name ∈ fields.map (·.name), (ms.filter (·.1 = name)).length ≤ 1) :
    Codec.setMembers fields (sortMembers ns) a = .ok s ↔
      ∃ names, Filled (Makes FromValue fields) (fields.map Codec.textField) ([], a) ms (names, s) := by
  refine ⟨fun hs => ?_, fun ⟨names, hfilled⟩ => setMembers_of_filled h hns hfilled⟩
  have hoccurs := h.setMembers_ok (sortMembers_increasing ns) hs
  have hfills : ∃ last, Filled (Makes FromValue fields) (fields.map Codec.textField) ([], a) ms last := by
    refine TextRecord.filled_of_settable (fun m hm hname draft => ?_) ?_ (by simp)
    · rw [textField_names] at hname
      obtain ⟨f, hf, hname⟩ := List.mem_map.mp hname
      obtain hnone | ⟨g, hone⟩ := filter_once (honce f.name (List.mem_map_of_mem hf))
      · have hmem : m ∈ ms.filter (·.1 = f.name) := List.mem_filter.mpr ⟨hm, by simp [hname]⟩
        rw [hnone] at hmem
        cases hmem
      · obtain ⟨v, hlook, hparse⟩ := Json.lookup_one hns hone
        have hout := hoccurs f hf
        rw [hlook, outcome] at hout
        obtain ⟨change, hchange⟩ : ∃ change, f.codec.ofJson v = .ok change := by
          cases hv : f.codec.ofJson v with
          | error cause =>
            rw [hv] at hout
            cases hout
          | ok change => exact ⟨change, rfl⟩
        obtain rfl : m.2 = g := by
          refine (mem_of_filter hone).mp ?_
          rw [hname]
          exact hm
        rw [← hname]
        exact ⟨_, (h.makes_iff hf).mpr ⟨change, ⟨v, hparse, hchange⟩, rfl⟩⟩
    · rwa [textField_names]
  obtain ⟨⟨names, s'⟩, hfilled⟩ := hfills
  cases (setMembers_of_filled h hns hfilled).symm.trans hs
  exact ⟨names, hfilled⟩

/-- A list sets a record to what its items make of it, if there are not more of them than fields. -/
theorem setItems_iff {part : List (Field α)} (hpart : ∀ f ∈ part, f ∈ fields) {gs : List Fragment}
    {vs : List Json} (hvs : List.Forall₂ (fun f v => Json.parse f.text = .ok v) gs vs)
    {names : List String} : (Codec.setItems part vs a = .ok s ∧ vs.length ≤ part.length) ↔
      ∃ names', Laid (Makes FromValue fields) (part.map Codec.textField) (names, a) gs (names', s) := by
  induction hvs generalizing part names a with
  | nil =>
    have hnil : Codec.setItems part [] a = .ok a := by cases part <;> rfl
    rw [hnil]
    constructor
    · rintro ⟨hs, _⟩
      cases hs
      exact ⟨names, .done⟩
    · rintro ⟨_, hlaid⟩
      generalize part.map Codec.textField = laid at hlaid
      cases hlaid
      exact ⟨rfl, Nat.zero_le _⟩
  | @cons g v gs vs hparse _ ih =>
    cases part with
    | nil =>
      constructor
      · rintro ⟨_, hlen⟩
        cases hlen
      · rintro ⟨_, hlaid⟩
        cases hlaid
    | cons f part =>
      obtain ⟨hf, hpart⟩ := List.forall_mem_cons.mp hpart
      constructor
      · rintro ⟨hs, hlen⟩
        obtain ⟨change, hchange, hs⟩ := bind_ok hs
        obtain ⟨names', hlaid⟩ : ∃ names', Laid (Makes FromValue fields) (part.map Codec.textField)
            (f.name :: names, change a) gs (names', s) :=
          (ih hpart).mp ⟨hs, Nat.le_of_succ_le_succ hlen⟩
        exact ⟨names', .item ((h.makes_iff hf).mpr ⟨change, ⟨v, hparse, hchange⟩, rfl⟩) hlaid⟩
      · rintro ⟨names', hlaid⟩
        obtain _ | ⟨hset, hlaid⟩ := hlaid
        obtain ⟨change, ⟨w, hw, hchange⟩, rfl⟩ := (h.makes_iff hf).mp hset
        cases hparse.symm.trans hw
        obtain ⟨hs, hlen⟩ := (ih hpart).mpr ⟨names', hlaid⟩
        refine ⟨?_, Nat.succ_le_succ hlen⟩
        rw [Codec.setItems, hchange]
        exact hs

end Values

section Records

variable {fields : List (Field α)} (h : Layout fields) {Fair : String → String → Prop}
  (hfields : ∀ f ∈ fields, f.codec.Faithful (Fair f.name))

include hfields

theorem textField_takes : ∀ f ∈ fields.map Codec.textField, f.Takes (Makes FromText fields) := by
  intro _ hmem draft draft' s t hread
  obtain ⟨f, hf, rfl⟩ := List.mem_map.mp hmem
  obtain ⟨⟨change, _⟩, hchange, he⟩ := bind_ok hread
  cases he
  obtain ⟨g, hg, hreads⟩ := (hfields f hf).stands hchange
  exact ⟨g, hg, f, hf, rfl, change, hreads, rfl⟩

include h

omit hfields in
theorem textField_gives : ∀ f ∈ fields.map Codec.textField, f.Gives (Makes FromText fields) := by
  intro _ hmem draft g draft' _ hmakes
  obtain ⟨f, hf, rfl⟩ := List.mem_map.mp hmem
  obtain ⟨change, hreads, rfl⟩ := (h.makes_iff hf).mp hmakes
  intro before rest hb hr
  simp only [Codec.textField, hreads before rest hb hr, bind, Except.bind, pure, Except.pure]

omit h in
theorem fromText_iff_value {name : String} {g : Fragment} (hg : g.Whole) (hfair : Fair name g.text)
    {v : Json} (hv : Json.parse g.text = .ok v) (a b : α) :
    Makes FromText fields name a g b ↔ Makes FromValue fields name a g b := by
  refine exists_congr fun f => and_congr_right fun hf => and_congr_right fun hname => ?_
  subst hname
  refine exists_congr fun change => and_congr_left' ?_
  rw [FromText, (hfields f hf).reads_iff hg, (hfields f hf).agrees hfair hv]
  constructor
  · exact fun hchange => ⟨v, hv, hchange⟩
  · rintro ⟨w, hw, hchange⟩
    cases hv.symm.trans hw
    exact hchange

theorem object_agrees (title : String) (defaults : α) {text : String} {ms : List (String × Fragment)}
    {ns : List (String × Json)} (htext : ObjectText ms text)
    (hns : List.Forall₂ (Json.Under fun f v => Json.parse f.text = .ok v) ms ns)
    (hfair : FairRecord (fields.map (·.name)) Fair text) (a : α) :
    (Codec.record title defaults fields).read.readAll text = .ok a ↔
      Codec.setMembers fields (sortMembers ns) defaults = .ok a := by
  rw [setMembers_iff h hns (hfair.once ms htext)]
  have hmember : ∀ m ∈ ms, m.1 ∈ (fields.map Codec.textField).map (·.name) → ∀ d d',
      Makes FromText fields m.1 d m.2 d' ↔ Makes FromValue fields m.1 d m.2 d' := by
    intro m hm hname d d'
    rw [textField_names] at hname
    obtain ⟨n, _, hv⟩ := exists_value hns m hm
    have hpart : Fair m.1 m.2.text := hfair.parts _ _ (.inl ⟨hname, ms, htext, hm⟩)
    exact fromText_iff_value hfields (htext.whole m hm) hpart hv d d'
  constructor
  · intro hread
    obtain ⟨⟨names, draft⟩, ⟨ms', htext', hfilled, ha⟩ | ⟨gs, hgs, _⟩⟩ :=
      TextRecord.readAll_shape (textField_takes hfields) hread
    · cases ha
      rw [htext'.unique htext] at hfilled
      exact ⟨names, hfilled.imp fun m hm hname d d' => (hmember m hm hname d d').mp⟩
    · exact absurd htext hgs.not_object
  · rintro ⟨names, hfilled⟩
    have hread : Filled (Makes FromText fields) (fields.map Codec.textField) ([], defaults) ms (names, a) :=
      hfilled.imp fun m hm hname d d' => (hmember m hm hname d d').mpr
    exact TextRecord.readAll_members htext
      (TextRecord.fills_of_filled (textField_gives h) htext.whole hread) rfl

theorem list_agrees (title : String) (defaults : α) {text : String} {gs : List Fragment}
    {vs : List Json} (htext : ListText gs text)
    (hvs : List.Forall₂ (fun f v => Json.parse f.text = .ok v) gs vs)
    (hfair : FairRecord (fields.map (·.name)) Fair text) (a : α) :
    (Codec.record title defaults fields).read.readAll text = .ok a ↔
      Codec.setItems fields vs defaults = .ok a ∧ vs.length ≤ fields.length := by
  have hset : (Codec.setItems fields vs defaults = .ok a ∧ vs.length ≤ fields.length) ↔
      ∃ names, Laid (Makes FromValue fields) (fields.map Codec.textField) ([], defaults) gs (names, a) :=
    setItems_iff h (fun _ hf => hf) hvs
  rw [hset]
  have hitem : ∀ m ∈ ((fields.map Codec.textField).map (·.name)).zip gs, ∀ d d',
      Makes FromText fields m.1 d m.2 d' ↔ Makes FromValue fields m.1 d m.2 d' := by
    intro m hm d d'
    rw [textField_names] at hm
    obtain ⟨hname, hg⟩ := List.of_mem_zip hm
    obtain ⟨v, hv⟩ := exists_value hvs m.2 hg
    have hpart : Fair m.1 m.2.text := hfair.parts _ _ (.inr ⟨gs, htext, hm⟩)
    exact fromText_iff_value hfields (htext.whole m.2 hg) hpart hv d d'
  constructor
  · intro hread
    obtain ⟨⟨names, draft⟩, ⟨ms, hms, _⟩ | ⟨gs', htext', hlaid, ha⟩⟩ :=
      TextRecord.readAll_shape (textField_takes hfields) hread
    · exact absurd hms htext.not_object
    · cases ha
      rw [htext'.unique htext] at hlaid
      exact ⟨names, hlaid.imp fun m hm d d' => (hitem m hm d d').mp⟩
  · rintro ⟨names, hlaid⟩
    have hread : Laid (Makes FromText fields) (fields.map Codec.textField) ([], defaults) gs (names, a) :=
      hlaid.imp fun m hm d d' => (hitem m hm d d').mpr
    exact TextRecord.readAll_items (textField_gives h) htext hread rfl

/-- A record of faithful fields is faithful. -/
theorem record_faithful (title : String) (defaults : α) :
    (Codec.record title defaults fields).Faithful (FairRecord (fields.map (·.name)) Fair) where
  stands := TextRecord.stands (textField_takes hfields) (textField_gives h)
  agrees {text v} hfair hv a := by
    obtain ⟨ms, ns, htext, hns, rfl⟩ | ⟨gs, vs, htext, hvs, rfl⟩ | ⟨c, r, hs, hobject, hlist, hatom⟩ :=
      Json.parse_forms hv hfair.plain
    · exact object_agrees h hfields title defaults htext hns hfair a
    · rw [record_list_iff]
      exact list_agrees h hfields title defaults htext hvs hfair a
    · constructor
      · intro hread
        obtain ⟨rest, hr, _⟩ := readAll_ok hread
        simp only [Codec.record, TextRecord.read, hs, if_neg hlist, if_neg hobject] at hr
        cases hr
      · intro hset
        cases v <;> first | cases hset | cases hatom

end Records

end Field

end RoomCast
