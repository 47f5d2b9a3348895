import RoomCast.Proofs.RecordReading
import RoomCast.Proofs.WrittenValues

namespace RoomCast

section Scalars

theorem text_faithful : Codec.text.Faithful fun text => ¬Embeds text :=
  (Codec.textAs_lexical _).faithful

theorem path_faithful : Codec.path.Faithful fun text => ¬Embeds text :=
  ((Codec.textAs_lexical _).nullable fun _ hnull => by cases hnull).faithful

theorem boolean_faithful : Codec.boolean.Faithful fun text => ¬Embeds text :=
  Codec.boolean_lexical.faithful

theorem port_faithful : Codec.port.Faithful fun text => ¬Embeds text :=
  (Codec.unsigned_lexical _ _).faithful.map _

theorem word_faithful : Codec.word.Faithful fun text => ¬Embeds text :=
  (Codec.unsigned_lexical _ _).faithful.map _

theorem size_faithful : Codec.size.Faithful fun text => ¬Embeds text :=
  (Codec.unsigned_lexical _ _).faithful.map _

end Scalars

theorem Codec.Faithful.field {α β : Type} {codec : Codec β} {Fair : String → Prop}
    (h : codec.Faithful Fair) {name : String} {toJson : β → Option Json} {get : α → β}
    {put : α → β → α} : (Field.of name codec toJson get put).codec.Faithful Fair :=
  h.map fun b a => put a b

/-- A text of a record whose fields embed no text and stand in it once. -/
def FairSection (names : List String) : String → Prop := FairRecord names fun _ part => ¬Embeds part

section Sections

theorem SocketSettings.faithful : codec.Faithful (FairSection (fields.map (·.name))) := by
  refine Field.record_faithful flat.layout ?_ _ _
  simp only [fields, List.forall_mem_cons, forall_mem_empty, and_true]
  exact ⟨text_faithful.field, port_faithful.field, word_faithful.field, word_faithful.field,
    size_faithful.field, size_faithful.field, word_faithful.field, size_faithful.field⟩

theorem ServiceSettings.faithful : codec.Faithful (FairSection (fields.map (·.name))) := by
  refine Field.record_faithful flat.layout ?_ _ _
  simp only [fields, List.forall_mem_cons, forall_mem_empty, and_true]
  exact ⟨text_faithful.field, port_faithful.field, word_faithful.field, word_faithful.field,
    path_faithful.field, path_faithful.field⟩

theorem RegistrySettings.faithful : codec.Faithful (FairSection (fields.map (·.name))) := by
  refine Field.record_faithful flat.layout ?_ _ _
  simp only [fields, List.forall_mem_cons, forall_mem_empty, and_true]
  exact ⟨size_faithful.field, size_faithful.field, size_faithful.field, size_faithful.field,
    size_faithful.field⟩

theorem MergeSettings.faithful : codec.Faithful (FairSection (fields.map (·.name))) := by
  refine Field.record_faithful flat.layout ?_ _ _
  simp only [fields, List.forall_mem_cons, forall_mem_empty, and_true]
  exact ⟨size_faithful.field, size_faithful.field, word_faithful.field, size_faithful.field⟩

theorem LoggingSettings.faithful : codec.Faithful (FairSection (fields.map (·.name))) := by
  refine Field.record_faithful flat.layout ?_ _ _
  simp only [fields, List.forall_mem_cons, forall_mem_empty, and_true]
  exact ⟨text_faithful.field, boolean_faithful.field⟩

end Sections

namespace Settings

def sectionNames : List (String × List String) := [
  ("socket", SocketSettings.fields.map (·.name)),
  ("service", ServiceSettings.fields.map (·.name)),
  ("registry", RegistrySettings.fields.map (·.name)),
  ("merge", MergeSettings.fields.map (·.name)),
  ("logging", LoggingSettings.fields.map (·.name))]

theorem section_faithful {β : Type} {codec : Codec β} {name : String} {names : List String}
    (h : codec.Faithful (FairSection names)) (hnames : (name, names) ∈ sectionNames)
    {toJson : β → Option Json} {get : Settings → β} {put : Settings → β → Settings} :
    (Field.of name codec toJson get put).codec.Faithful fun part =>
      ∀ names, (name, names) ∈ sectionNames → FairSection names part :=
  h.field.mono fun _ hfair => hfair names hnames

theorem faithful : codec.Faithful (FairRecord (fields.map (·.name)) fun name part =>
    ∀ names, (name, names) ∈ sectionNames → FairSection names part) := by
  refine Field.record_faithful layout ?_ _ _
  simp only [fields, List.forall_mem_cons, forall_mem_empty, and_true]
  exact ⟨section_faithful SocketSettings.faithful (by simp [sectionNames]),
    section_faithful ServiceSettings.faithful (by simp [sectionNames]),
    section_faithful RegistrySettings.faithful (by simp [sectionNames]),
    section_faithful MergeSettings.faithful (by simp [sectionNames]),
    section_faithful LoggingSettings.faithful (by simp [sectionNames])⟩

/-- The texts that are read as records, each with the names of its fields: all of it, and what stands in it
as a section. -/
inductive RecordText (text : String) : List String → String → Prop where
  | whole : RecordText text (fields.map (·.name)) text
  | part {name : String} {names : List String} {f : Fragment} : (name, names) ∈ sectionNames →
      PartText (fields.map (·.name)) name f text → RecordText text names f.text

/-- Whether no object that is read as a record has a field twice. -/
def FieldsOnce (text : String) : Prop :=
  ∀ names part, RecordText text names part → ∀ ms, ObjectText ms part →
    ∀ name ∈ names, (ms.filter (·.1 = name)).length ≤ 1

/-- Whether neither a text nor what stands in it as a section or a field of one is an embedded text. -/
def FreeOfEmbedded (text : String) : Prop :=
  ¬Embeds text ∧ ∀ names part, RecordText text names part →
    ∀ name f, PartText names name f part → ¬Embeds f.text

end Settings

open Settings (FieldsOnce FreeOfEmbedded)

/-- Where a text holds a value, no record in it has a field twice and no part of them is an embedded text,
decoding the text and decoding the value make the same settings, or both make none. -/
theorem settings_of_text_and_value {text : String} {v : Json} (hv : Json.parse text = .ok v)
    (honce : FieldsOnce text) (hfree : FreeOfEmbedded text) (s : Settings) :
    Settings.decode text = .ok s ↔ Settings.ofJson v = .ok s := by
  refine Settings.faithful.agrees ⟨hfree.1, honce _ _ .whole, fun name f hf names hnames => ?_⟩ hv s
  exact ⟨hfree.2 _ _ .whole name f hf, honce _ _ (.part hnames hf), hfree.2 _ _ (.part hnames hf)⟩

def listedSettings : String := "[\x7b\"x\":[true]\x7d,[\"h\\n\",2]]"

/-- Unknown members and missing items are passed over, and an escape is what it spells. -/
theorem settings_of_listed_text :
    Json.parse listedSettings = .ok (.list
      [.object [("x", .list [.boolean true])], .list [.text "h\n", .number (.integer 2)]]) ∧
    FieldsOnce listedSettings ∧
    FreeOfEmbedded listedSettings ∧
    Settings.decode listedSettings = .ok { Settings.defaults with
      service := { ServiceSettings.defaults with host := "h\n", port := 2 } } := by
  have hvalue : Json.parse listedSettings = .ok (.list
      [.object [("x", .list [.boolean true])], .list [.text "h\n", .number (.integer 2)]]) := by
    -- it is what the value is written as
    have hstored : (Json.list [.object [("x", .list [.boolean true])],
        .list [.text "h\n", .number (.integer 2)]]).Storable (126 + 1) := by
      refine .list (List.forall_mem_cons.mpr ⟨.object ?_ ?_, List.forall_mem_singleton.mpr (.list ?_)⟩)
      · exact List.forall_mem_singleton.mpr (.list (List.forall_mem_singleton.mpr (.boolean true)))
      · exact List.forall_mem_singleton.mpr (by decide)
      · exact List.forall_mem_cons.mpr
          ⟨.text "h\n", List.forall_mem_singleton.mpr (.natural (by decide))⟩
    exact hstored.parse
  have hroot : ListText [⟨"\x7b\"x\":[true]\x7d"⟩, ⟨"[\"h\\n\",2]"⟩] listedSettings :=
    fragmentsOf_iff.mp rfl
  have hsocket : ObjectText [("x", ⟨"[true]"⟩)] "\x7b\"x\":[true]\x7d" := noted_iff.mp rfl
  have hservice : ListText [⟨"\"h\\n\""⟩, ⟨"2"⟩] "[\"h\\n\",2]" := fragmentsOf_iff.mp rfl
  have hparts : ∀ name f, PartText (Settings.fields.map (·.name)) name f listedSettings →
      name = "socket" ∧ f = ⟨"\x7b\"x\":[true]\x7d"⟩ ∨ name = "service" ∧ f = ⟨"[\"h\\n\",2]"⟩ := by
    intro name f hf
    simpa [Settings.fields, Field.of] using hf.of_list hroot
  have hplain : ¬Embeds listedSettings := by
    rintro ⟨_, _, hobject⟩
    exact hroot.not_object hobject
  have honce : FieldsOnce listedSettings := by
    intro names part hpart ms hms
    cases hpart with
    | whole => exact absurd hms hroot.not_object
    | part hnames hpart =>
      obtain ⟨rfl, rfl⟩ | ⟨rfl, rfl⟩ := hparts _ _ hpart
      · rw [hms.unique hsocket]
        intro name _
        exact (List.length_filter_le _ _).trans (by simp)
      · exact absurd hms hservice.not_object
  have hfree : FreeOfEmbedded listedSettings := by
    refine ⟨hplain, fun names part hpart name f hf => ?_⟩
    rintro ⟨g, ms, hembeds⟩
    cases hpart with
    | whole =>
      obtain ⟨_, rfl⟩ | ⟨_, rfl⟩ := hparts _ _ hf
      · have hkey : embeddedKey = "x" := congrArg Prod.fst (List.cons.inj (hembeds.unique hsocket)).1
        exact absurd hkey (by decide)
      · exact hservice.not_object hembeds
    | part hnames hpart =>
      obtain ⟨rfl, rfl⟩ | ⟨rfl, rfl⟩ := hparts _ _ hpart
      · obtain ⟨hname, hmem⟩ := hf.of_object hsocket
        cases List.mem_singleton.mp hmem
        have hsection : names = SocketSettings.fields.map (·.name) := by
          simpa [Settings.sectionNames] using hnames
        rw [hsection] at hname
        exact absurd hname (by decide)
      · have hmem := (List.of_mem_zip (hf.of_list hservice)).2
        obtain ⟨s, hs⟩ := hembeds.start
        obtain rfl | rfl := by simpa using hmem
        · cases hs
        · cases hs
  refine ⟨hvalue, honce, hfree, (settings_of_text_and_value hvalue honce hfree _).mpr ?_⟩
  rfl

/-- An object of an embedded text names no section. -/
theorem Settings.decode_embedded {text : String} {f : Fragment}
    (h : ObjectText [(embeddedKey, f)] text) : Settings.decode text = .ok .defaults := by
  have hw : f.Whole := h.whole (embeddedKey, f) (List.mem_singleton_self _)
  exact TextRecord.readAll_members h (.member (TextRecord.takes_other (by decide) hw) .done) rfl

def embeddedPort : String :=
  "\x7b\"$serde_json::private::RawValue\":\"\x7b\\\"socket\\\":\x7b\\\"port\\\":1\x7d\x7d\"\x7d"

/-- An embedded port is a setting of the value, and none of the text. -/
theorem embedded_settings_read_apart :
    Json.parse embeddedPort =
      .ok (.object [("socket", .object [("port", .number (.integer 1))])]) ∧
    FieldsOnce embeddedPort ∧
    Settings.decode embeddedPort = .ok .defaults ∧
    Settings.ofJson (.object [("socket", .object [("port", .number (.integer 1))])]) =
      .ok { Settings.defaults with socket := { SocketSettings.defaults with port := 1 } } := by
  have hobject : ObjectText
      [(embeddedKey, ⟨"\"\x7b\\\"socket\\\":\x7b\\\"port\\\":1\x7d\x7d\""⟩)] embeddedPort :=
    noted_iff.mp rfl
  have hport : (Json.object [("port", .number (.integer 1))]).Storable (125 + 1) := by
    refine .object ?_ (List.forall_mem_singleton.mpr (by decide))
    exact List.forall_mem_singleton.mpr (.natural (by decide))
  have hstored : (Json.object [("socket", .object [("port", .number (.integer 1))])]).Storable
      (126 + 1) :=
    .object (List.forall_mem_singleton.mpr hport) (List.forall_mem_singleton.mpr (by decide))
  have honce : FieldsOnce embeddedPort := by
    intro names part hpart ms hms
    cases hpart with
    | whole =>
      rw [hms.unique hobject]
      exact fun name _ => List.length_filter_le _ _
    | part _ hpart =>
      obtain ⟨hname, hmem⟩ := hpart.of_object hobject
      cases List.mem_singleton.mp hmem
      exact absurd hname (by decide)
  exact ⟨Json.parse_of_embedded hobject (Fragment.spells_of_read rfl rfl) hstored.parse, honce,
    Settings.decode_embedded hobject, rfl⟩

end RoomCast
