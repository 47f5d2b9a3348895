import RoomCast.Proofs.FrameReading
import RoomCast.Proofs.OrderedMembers
import RoomCast.Proofs.ValueReading

namespace RoomCast

/-- A text that is an object of an embedded text. -/
def Embeds (text : String) : Prop := ∃ f ms, ObjectText ((embeddedKey, f) :: ms) text

namespace Json

section Kinds

variable {embedded : String → Except JsonError Json} {room : Nat} {s t : List Char} {v : Json}

theorem readWithin_kinds (h : readWithin embedded room s = .ok (v, t)) :
    (∃ r inner, skipBlanks s = '\x7b' :: r ∧ room = inner + 1 ∧
      readObject (readWithin embedded inner) embedded r = .ok (v, t)) ∨
    match v with
    | .null => skipBlanks s = 'n' :: 'u' :: 'l' :: 'l' :: t
    | .boolean true => skipBlanks s = 't' :: 'r' :: 'u' :: 'e' :: t
    | .boolean false => skipBlanks s = 'f' :: 'a' :: 'l' :: 's' :: 'e' :: t
    | .number n => (∃ r, skipBlanks s = '-' :: r ∧ readNumber true r = .ok (n, t)) ∨
      ∃ c r, skipBlanks s = c :: r ∧ c.isDigit = true ∧ readNumber false (c :: r) = .ok (n, t)
    | .text content => ∃ r, skipBlanks s = '"' :: r ∧ readText r = .ok (content, t)
    | .list items => ∃ r inner, skipBlanks s = '[' :: r ∧ room = inner + 1 ∧
      readList (readWithin embedded inner) r = .ok (items, t)
    | .object _ => False := by
  unfold readWithin at h
  split at h
  next => cases h
  next c r hs =>
    -- the three words
    iterate 3
      split at h
      next hc =>
        obtain ⟨_, hw, h⟩ := bind_ok h
        cases h
        right
        rw [hs, hc, readWord_ok hw]
        rfl
    split at h
    next hc =>
      obtain ⟨_, hn, h⟩ := bind_ok h
      cases h
      exact .inr (.inl ⟨r, by rw [hs, hc], hn⟩)
    split at h
    next hc =>
      obtain ⟨_, hn, h⟩ := bind_ok h
      cases h
      exact .inr (.inr ⟨c, r, hs, hc, hn⟩)
    split at h
    next hc =>
      obtain ⟨⟨content, _⟩, hcontent, h⟩ := bind_ok h
      cases h
      exact .inr ⟨r, by rw [hs, hc], hcontent⟩
    split at h
    next hc =>
      split at h
      next => cases h
      next =>
        obtain ⟨_, hitems, h⟩ := bind_ok h
        cases h
        exact .inr ⟨r, _, by rw [hs, hc], rfl, hitems⟩
    split at h
    next hc =>
      split at h
      next => cases h
      next => exact .inl ⟨r, _, by rw [hs, hc], rfl, h⟩
    next => cases h

theorem parse_read {text : String} (h : parse text = .ok v) : ∃ rest,
    readWithin (parseEmbedded text.length) nestingLimit text.toList = .ok (v, rest) ∧ Blanks rest :=
  readAll_ok h

/-- A text that is read as an object is one: of a text that is embedded, or of members whose values stand
under their keys. -/
theorem parse_members {text : String} {r rest : List Char} {inner : Nat} (hrest : Blanks rest)
    (hs : skipBlanks text.toList = '\x7b' :: r) (hroom : nestingLimit = inner + 1)
    (h : readObject (readWithin (parseEmbedded text.length) inner) (parseEmbedded text.length) r =
      .ok (v, rest)) :
    ∃ ms, ObjectText ms text ∧
      ((∃ f, ms = [(embeddedKey, f)]) ∨
        ∃ ns, List.Forall₂ (Under fun f v => parse f.text = .ok v) ms ns ∧ v = .object (sortMembers ns) ∧
          ∀ m ∈ ms.head?, m.1 ≠ embeddedKey) := by
  obtain ⟨before, hb, htext⟩ := skipBlanks_split text.toList
  obtain ⟨ms, inside, hms, rfl, hvalue⟩ := readObject_text readWithin_stands h
  refine ⟨ms, ⟨before, inside, rest, hb, hrest, hms, ?_⟩, ?_⟩
  · rw [htext, hs]
    simp
  · obtain ⟨f, _, hembedded, _⟩ | ⟨ns, hns, hv, hkey⟩ := hvalue
    · exact .inl ⟨f, hembedded⟩
    · exact .inr ⟨ns, hns.imp fun m n hm => ⟨hm.1, hm.2.parse (by omega)⟩, hv, hkey⟩

end Kinds

variable {f : Fragment}

theorem parse_null (hw : f.Whole) (h : parse f.text = .ok .null) : f.text = "null" ∨ Embeds f.text := by
  obtain ⟨rest, hread, hrest⟩ := parse_read h
  obtain ⟨r, inner, hs, hroom, hobject⟩ | hs := readWithin_kinds hread
  · obtain ⟨ms, htext, ⟨g, rfl⟩ | ⟨_, _, hv, _⟩⟩ := parse_members hrest hs hroom hobject
    · exact .inr ⟨g, [], htext⟩
    · cases hv
  · exact .inl (hw.null (hw.alone.1.symm.trans hs))

theorem parse_text {content : String} (hw : f.Whole) (h : parse f.text = .ok (.text content)) :
    f.Spells content ∨ Embeds f.text := by
  obtain ⟨rest, hread, hrest⟩ := parse_read h
  obtain ⟨r, inner, hs, hroom, hobject⟩ | ⟨r, hs, hr⟩ := readWithin_kinds hread
  · obtain ⟨ms, htext, ⟨g, rfl⟩ | ⟨_, _, hv, _⟩⟩ := parse_members hrest hs hroom hobject
    · exact .inr ⟨g, [], htext⟩
    · cases hv
  · obtain ⟨used, rfl, hspells⟩ := readText_spells hr
    have htext : f.text.toList = '"' :: (used ++ rest) := hw.alone.1.symm.trans hs
    have hvalue : Grammar.Value f.text.toList rest := by
      rw [htext]
      exact .text (hspells.literal.append rest)
    -- the fragment ends with its literal
    have hnone : rest = [] := Except.ok.inj
      ((hvalue.skip (Grammar.delimited_blanks hrest)).symm.trans hw.alone.2)
    rw [hnone, List.append_nil] at htext
    exact .inl ⟨used, htext, hspells⟩

theorem parse_word (h : f.text = "null") : parse f.text = .ok .null := by
  rw [h]
  rfl

theorem parse_spelled {content : String} (h : f.Spells content) :
    parse f.text = .ok (.text content) :=
  (spelled_reads h (parseEmbedded f.text.length) nestingLimit).alone

theorem Embeds.not_spells {content : String} (h : Embeds f.text) : ¬f.Spells content := by
  rintro ⟨s, hs, _⟩
  obtain ⟨_, _, hobject⟩ := h
  obtain ⟨r, hr⟩ := hobject.start
  rw [hs] at hr
  cases hr

theorem Embeds.not_null (h : Embeds f.text) : f.text ≠ "null" := by
  intro hnull
  obtain ⟨_, _, hobject⟩ := h
  obtain ⟨r, hr⟩ := hobject.start
  rw [hnull] at hr
  cases hr

theorem parse_object {text : String} {vs : List (String × Json)}
    (h : parse text = .ok (.object vs)) :
    ∃ ms, ObjectText ms text ∧
      ((∃ f, ms = [(embeddedKey, f)]) ∨
        ∃ ns, List.Forall₂ (Under fun f v => parse f.text = .ok v) ms ns ∧ vs = sortMembers ns ∧
          ∀ m ∈ ms.head?, m.1 ≠ embeddedKey) := by
  obtain ⟨rest, hread, hrest⟩ := parse_read h
  obtain ⟨r, inner, hs, hroom, hobject⟩ | hnone := readWithin_kinds hread
  · obtain ⟨ms, htext, hembedded | ⟨ns, hns, hv, hkey⟩⟩ := parse_members hrest hs hroom hobject
    · exact ⟨ms, htext, .inl hembedded⟩
    · exact ⟨ms, htext, .inr ⟨ns, hns, Json.object.inj hv, hkey⟩⟩
  · exact hnone.elim

theorem parse_of_members {text : String} {ms : List (String × Fragment)} {ns : List (String × Json)}
    (h : ObjectText ms text) (hkey : ∀ m ∈ ms.head?, m.1 ≠ embeddedKey)
    (hns : List.Forall₂
      (Under (Reader.Reads (readWithin (parseEmbedded text.length) (nestingLimit - 1)))) ms ns) :
    parse text = .ok (.object (sortMembers ns)) := by
  obtain ⟨before, inner, after, hb, ha, hms, htext⟩ := h
  refine readAll_of ?_ ha
  rw [htext, List.append_assoc, List.cons_append, readWithin_blanks hb rfl]
  exact (readWithin_object _).trans (readObject_members hms hns hkey after)

theorem parse_of_embedded {text content : String} (h : ObjectText [(embeddedKey, f)] text)
    (hf : f.Spells content) (hv : parse content = .ok v) : parse text = .ok v := by
  have hlen : content.toList.length < text.length := by
    rw [← String.length_toList]
    exact Nat.lt_of_lt_of_le hf.length_lt (h.piece _ (List.mem_singleton.mpr rfl)).length_le
  obtain ⟨before, inner, after, hb, ha, hms, htext⟩ := h
  refine readAll_of ?_ ha
  rw [htext, List.append_assoc, List.cons_append, readWithin_blanks hb rfl]
  exact (readWithin_object _).trans
    (readObject_embedded hms hf (parseEmbedded_enough hv hlen) after)

section Lookup

variable {Holds : Fragment → Json → Prop} {ms : List (String × Fragment)} {ns : List (String × Json)}
  (h : List.Forall₂ (Under Holds) ms ns) {key : String}

include h

theorem filter_under (key : String) :
    List.Forall₂ (Under Holds) (ms.filter (·.1 = key)) (ns.filter (·.1 = key)) :=
  List.rel_filter (fun m n hm => by simp [hm.1]) h

theorem lookup_absent (hnone : ms.filter (·.1 = key) = []) :
    lookupMember key (sortMembers ns) = none := by
  have hfilter := filter_under h key
  rw [hnone] at hfilter
  rw [lookup_sortMembers, List.forall₂_nil_left_iff.mp hfilter]
  rfl

theorem lookup_one {f : Fragment} (hone : ms.filter (·.1 = key) = [(key, f)]) :
    ∃ v, lookupMember key (sortMembers ns) = some v ∧ Holds f v := by
  have hfilter := filter_under h key
  rw [hone] at hfilter
  obtain ⟨n, ns', hn, hnil, hns⟩ := List.forall₂_cons_left_iff.mp hfilter
  rw [List.forall₂_nil_left_iff.mp hnil] at hns
  refine ⟨n.2, ?_, hn.2⟩
  rw [lookup_sortMembers, hns]
  rfl

end Lookup

end Json

theorem filter_once {ms : List (String × Fragment)} {key : String}
    (h : (ms.filter (·.1 = key)).length ≤ 1) :
    ms.filter (·.1 = key) = [] ∨ ∃ f, ms.filter (·.1 = key) = [(key, f)] := by
  cases hms : ms.filter (·.1 = key) with
  | nil => exact .inl rfl
  | cons m more =>
    have hkey : m.1 = key := by
      have hm : m ∈ ms.filter (·.1 = key) := by simp [hms]
      simpa using (List.mem_filter.mp hm).2
    rw [hms, List.length_cons] at h
    have hmore : more = [] := List.eq_nil_of_length_eq_zero (by omega)
    exact .inr ⟨m.2, by rw [hmore, ← hkey]⟩

theorem mem_of_filter {ms : List (String × Fragment)} {key : String} {f : Fragment}
    (h : ms.filter (·.1 = key) = [(key, f)]) {g : Fragment} : (key, g) ∈ ms ↔ g = f := by
  have hmem : (key, g) ∈ ms ↔ (key, g) ∈ ms.filter (·.1 = key) := by simp
  rw [hmem, h]
  simp

namespace Envelope

variable {text : String} {ms : List (String × Fragment)} {ns : List (String × Json)} {e : Envelope}

theorem decode_embedded {f : Fragment} (h : ObjectText [(embeddedKey, f)] text) :
    decode text ≠ .ok e := by
  intro hd
  obtain ⟨⟨g, hg, _⟩, _⟩ := (decode_iff h).mp hd
  have hother : embeddedKey ≠ "type" := by decide
  rw [List.filter_cons_of_neg (by simpa using hother)] at hg
  cases hg

section Values

variable (hns : List.Forall₂ (Json.Under fun f v => Json.parse f.text = .ok v) ms ns)

include hns

theorem InMembers.kind_value (he : e.InMembers ms) :
    lookupMember "type" (sortMembers ns) = some (.text e.kind) := by
  obtain ⟨⟨f, hf, hspells⟩, _⟩ := he
  obtain ⟨v, hv, hparse⟩ := Json.lookup_one hns hf
  cases (Json.parse_spelled hspells).symm.trans hparse
  exact hv

theorem InMembers.data_value (he : e.InMembers ms) {f : Fragment} (hf : e.data = some f) :
    ("data", f) ∈ ms ∧
      ∃ v, lookupMember "data" (sortMembers ns) = some v ∧ Json.parse f.text = .ok v := by
  obtain ⟨_, ⟨_, hnone⟩ | ⟨g, hg, hdata⟩⟩ := he
  · cases hnone.symm.trans hf
  · obtain ⟨rfl, _⟩ : f = g ∧ g.text ≠ "null" := by
      rw [hf, Fragment.nullable] at hdata
      split at hdata
      next => cases hdata
      next hnull => exact ⟨Option.some.inj hdata, hnull⟩
    exact ⟨(mem_of_filter hg).mpr rfl, Json.lookup_one hns hg⟩

/-- A frame has no data where nothing stands under `data`, or a `null` that is no embedded text. -/
theorem InMembers.no_data (he : e.InMembers ms) (hw : ∀ m ∈ ms, m.2.Whole) :
    e.data = none ↔ lookupMember "data" (sortMembers ns) = none ∨
      lookupMember "data" (sortMembers ns) = some .null ∧ ∀ f, ("data", f) ∈ ms → ¬Embeds f.text := by
  obtain ⟨_, ⟨hnone, hdata⟩ | ⟨f, hf, hdata⟩⟩ := he
  · exact ⟨fun _ => .inl (Json.lookup_absent hns hnone), fun _ => hdata⟩
  · obtain ⟨v, hv, hparse⟩ := Json.lookup_one hns hf
    rw [hdata, hv]
    have hmem : ∀ g, ("data", g) ∈ ms ↔ g = f := fun g => mem_of_filter hf
    constructor
    · intro hnull
      have htext : f.text = "null" := by
        by_contra hne
        rw [Fragment.nullable, if_neg hne] at hnull
        cases hnull
      cases (Json.parse_word htext).symm.trans hparse
      refine .inr ⟨rfl, fun g hg hembeds => ?_⟩
      rw [(hmem g).mp hg] at hembeds
      exact Json.Embeds.not_null hembeds htext
    · rintro (hnone | ⟨hnull, hplain⟩)
      · cases hnone
      · cases hnull
        have hwhole := hw _ ((hmem f).mpr rfl)
        exact if_pos ((Json.parse_null hwhole hparse).resolve_right (hplain f ((hmem f).mpr rfl)))

/-- Members make a frame where a text that is no embedded one stands under `type`. -/
theorem exists_inMembers (hw : ∀ m ∈ ms, m.2.Whole)
    (htype : (ms.filter (·.1 = "type")).length ≤ 1) (hdata : (ms.filter (·.1 = "data")).length ≤ 1) :
    (∃ e : Envelope, e.InMembers ms) ↔ ∃ kind f,
      lookupMember "type" (sortMembers ns) = some (.text kind) ∧ ("type", f) ∈ ms ∧ ¬Embeds f.text := by
  constructor
  · rintro ⟨e, he⟩
    obtain ⟨f, hf, hspells⟩ := he.1
    exact ⟨e.kind, f, he.kind_value hns, (mem_of_filter hf).mpr rfl,
      fun hembeds => Json.Embeds.not_spells hembeds hspells⟩
  · rintro ⟨kind, f, hkind, hmem, hplain⟩
    obtain hnone | ⟨g, hg⟩ := filter_once htype
    · rw [Json.lookup_absent hns hnone] at hkind
      cases hkind
    · obtain rfl := (mem_of_filter hg).mp hmem
      obtain ⟨v, hv, hparse⟩ := Json.lookup_one hns hg
      cases hkind.symm.trans hv
      have hspells := (Json.parse_text (hw _ hmem) hparse).resolve_right hplain
      obtain hnone | ⟨d, hd⟩ := filter_once hdata
      · exact ⟨⟨kind, none⟩, ⟨f, hg, hspells⟩, .inl ⟨hnone, rfl⟩⟩
      · exact ⟨⟨kind, d.nullable⟩, ⟨f, hg, hspells⟩, .inr ⟨d, hd, rfl⟩⟩

end Values

end Envelope

/-- An object that embeds no text, with `type` and `data` once at most, is a frame just when a text stands
under `type`; its data is what stands under `data`. -/
theorem frames_are_object_values {text : String} {vs : List (String × Json)}
    (h : Json.parse text = .ok (.object vs)) :
    ∃ ms, ObjectText ms text ∧ (Embeds text → ∀ e, Envelope.decode text ≠ .ok e) ∧
      (¬Embeds text → (ms.filter (·.1 = "type")).length ≤ 1 → (ms.filter (·.1 = "data")).length ≤ 1 →
        ((∃ e, Envelope.decode text = .ok e) ↔
          ∃ kind f, lookupMember "type" vs = some (.text kind) ∧ ("type", f) ∈ ms ∧ ¬Embeds f.text) ∧
        ∀ e, Envelope.decode text = .ok e →
          lookupMember "type" vs = some (.text e.kind) ∧
          (e.data = none ↔ lookupMember "data" vs = none ∨
            lookupMember "data" vs = some .null ∧ ∀ f, ("data", f) ∈ ms → ¬Embeds f.text) ∧
          ∀ f, e.data = some f → f.text.toList <:+: text.toList ∧ trimBlanks f.text = f.text ∧
            ∃ v, lookupMember "data" vs = some v ∧ Json.parse f.text = .ok v) := by
  obtain ⟨ms, htext, ⟨g, rfl⟩ | ⟨ns, hns, rfl, hkey⟩⟩ := Json.parse_object h
  · exact ⟨_, htext, fun _ e => Envelope.decode_embedded htext,
      fun hplain => absurd ⟨g, [], htext⟩ hplain⟩
  · refine ⟨ms, htext, ?_, fun _ htype hdata => ⟨?_, fun e he => ?_⟩⟩
    · rintro ⟨f, more, hembeds⟩
      rw [htext.unique hembeds] at hkey
      exact absurd rfl (hkey _ rfl)
    · rw [← Envelope.exists_inMembers hns htext.whole htype hdata]
      exact exists_congr fun e => Envelope.decode_iff htext
    · have hmembers := (Envelope.decode_iff htext).mp he
      refine ⟨hmembers.kind_value hns, hmembers.no_data hns htext.whole, fun f hf => ?_⟩
      obtain ⟨hmem, hv⟩ := hmembers.data_value hns hf
      exact ⟨htext.piece _ hmem, (htext.whole _ hmem).trimmed, hv⟩

/-- Data before the kind, under a key with an escape: it is the literal as it was written, and is read as
the character that this spells. -/
theorem frames_are_object_values_spelled :
    Json.parse "\x7b \"d\\u0061ta\" : \"\\ud83d\\ude80\" ,\"type\":\"JOIN\"\x7d" =
      .ok (.object [("data", .text "🚀"), ("type", .text "JOIN")]) ∧
    ∃ e, Envelope.decode "\x7b \"d\\u0061ta\" : \"\\ud83d\\ude80\" ,\"type\":\"JOIN\"\x7d" = .ok e ∧
      e.kind = "JOIN" ∧ ∃ f, e.data = some f ∧ Json.parse f.text = .ok (.text "🚀") := by
  have hobject : ObjectText [("data", ⟨"\"\\ud83d\\ude80\""⟩), ("type", ⟨"\"JOIN\""⟩)]
      "\x7b \"d\\u0061ta\" : \"\\ud83d\\ude80\" ,\"type\":\"JOIN\"\x7d" := noted_iff.mp rfl
  have hdata : (Fragment.mk "\"\\ud83d\\ude80\"").Spells "🚀" := Fragment.spells_of_read rfl rfl
  have htype : (Fragment.mk "\"JOIN\"").Spells "JOIN" := Fragment.spells_of_read rfl rfl
  have hparse := Json.parse_of_members hobject (by simp [embeddedKey])
    (.cons (b := ("data", .text "🚀")) ⟨rfl, Json.spelled_reads hdata _ _⟩
      (.cons (b := ("type", .text "JOIN")) ⟨rfl, Json.spelled_reads htype _ _⟩ .nil))
  have hsorted : sortMembers [("data", Json.text "🚀"), ("type", .text "JOIN")] =
      [("data", .text "🚀"), ("type", .text "JOIN")] := by
    have hlt : ¬"type" < "data" := by
      rw [String.lt_iff_toList_lt]
      decide
    simp [sortMembers, insertMember, hlt]
  rw [hsorted] at hparse
  obtain ⟨ms, hms, _, hframe⟩ := frames_are_object_values hparse
  obtain rfl := hms.unique hobject
  have hplain : ¬Embeds "\x7b \"d\\u0061ta\" : \"\\ud83d\\ude80\" ,\"type\":\"JOIN\"\x7d" := by
    rintro ⟨f, more, hembeds⟩
    have hfirst : "data" = embeddedKey :=
      congrArg Prod.fst (List.cons.inj (hobject.unique hembeds)).1
    exact absurd hfirst (by decide)
  obtain ⟨hdecode, hvalues⟩ := hframe hplain (by decide) (by decide)
  obtain ⟨e, he⟩ := hdecode.mpr ⟨"JOIN", ⟨"\"JOIN\""⟩, rfl, by simp,
    fun hembeds => Json.Embeds.not_spells hembeds htype⟩
  obtain ⟨hkind, hnone, hsome⟩ := hvalues e he
  refine ⟨hparse, e, he, ?_, ?_⟩
  · simpa [lookupMember] using hkind.symm
  · cases hd : e.data with
    | none =>
      obtain hd | ⟨hd, _⟩ := hnone.mp hd <;> cases hd
    | some f =>
      obtain ⟨_, _, v, hv, hparse⟩ := hsome f hd
      cases hv
      exact ⟨f, rfl, hparse⟩

/-- An object of an embedded `PING` is read as the `PING`, but it is no frame. -/
theorem embedded_object_no_frame :
    Json.parse
        "\x7b\"$serde_json::private::RawValue\":\"\x7b\\\"type\\\":\\\"PING\\\"\x7d\"\x7d" =
      .ok (.object [("type", .text "PING")]) ∧
    (∃ f, ObjectText [(embeddedKey, f)]
      "\x7b\"$serde_json::private::RawValue\":\"\x7b\\\"type\\\":\\\"PING\\\"\x7d\"\x7d") ∧
    ∀ e, Envelope.decode
      "\x7b\"$serde_json::private::RawValue\":\"\x7b\\\"type\\\":\\\"PING\\\"\x7d\"\x7d" ≠ .ok e := by
  have hkind : (Fragment.mk "\"PING\"").Spells "PING" := Fragment.spells_of_read rfl rfl
  have hinner : ObjectText [("type", ⟨"\"PING\""⟩)] "\x7b\"type\":\"PING\"\x7d" := noted_iff.mp rfl
  have hframe := Json.parse_of_members hinner (by simp [embeddedKey])
    (.cons (b := ("type", .text "PING")) ⟨rfl, Json.spelled_reads hkind _ _⟩ .nil)
  have hobject : ObjectText [(embeddedKey, ⟨"\"\x7b\\\"type\\\":\\\"PING\\\"\x7d\""⟩)]
      "\x7b\"$serde_json::private::RawValue\":\"\x7b\\\"type\\\":\\\"PING\\\"\x7d\"\x7d" :=
    noted_iff.mp rfl
  exact ⟨Json.parse_of_embedded hobject (Fragment.spells_of_read rfl rfl) hframe, ⟨_, hobject⟩,
    fun _ => Envelope.decode_embedded hobject⟩

end RoomCast
