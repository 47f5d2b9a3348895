import RoomCast.Proofs.SettingsMerge
import RoomCast.Proofs.WrittenValues

namespace RoomCast

open RoomCast.Field

/-- Whether a codec reads values back from what they show: in one pass from where that is written, and
from the value that the text holds. -/
structure Codec.Restores {β : Type} (room : Nat) (codec : Codec β) (toJson : β → Option Json) :
    Prop where
  storable : ∀ b w, toJson b = some w → w.Storable room
  reads : ∀ b w, toJson b = some w → Reader.Reads codec.read w.fragment b
  back : ∀ b w, toJson b = some w → codec.ofJson w.sorted = .ok b

section Scalars

theorem text_restores (room : Nat) : Codec.Restores room Codec.text textJson where
  storable b w hw := by
    cases hw
    exact .text b
  reads b w hw := by
    cases hw
    exact (Fragment.spells_literal b).read "a string"
  back b w hw := by
    cases hw
    rfl

theorem nullable_reads {β : Type} {codec : Codec β} {f : Fragment} {b : β} {c : Char} {r : List Char}
    (hf : f.text.toList = c :: r) (hblank : isBlank c = false) (hc : c ≠ 'n')
    (h : Reader.Reads codec.read f b) : Reader.Reads codec.nullable.read f (some b) := by
  intro before rest hb hr
  have hread := h [] rest blanks_nil hr
  rw [hf, List.nil_append, List.cons_append] at hread
  have hstart : skipBlanks (before ++ c :: (r ++ rest)) = c :: (r ++ rest) :=
    skipBlanks_prefix hb hblank _
  rw [hf, List.cons_append]
  unfold Codec.nullable
  simp only [hstart]
  split
  next he =>
    cases he
    exact absurd rfl hc
  next => simp only [hread, bind, Except.bind, pure, Except.pure]

theorem path_restores (room : Nat) : Codec.Restores room Codec.path pathJson where
  storable b w hw := by
    obtain ⟨s, _, rfl⟩ := Option.map_eq_some_iff.mp hw
    exact .text s
  reads b w hw := by
    obtain ⟨s, rfl, rfl⟩ := Option.map_eq_some_iff.mp hw
    exact nullable_reads (Json.fragment_toList _) rfl (by decide)
      ((Fragment.spells_literal s).read "path string")
  back b w hw := by
    obtain ⟨s, rfl, rfl⟩ := Option.map_eq_some_iff.mp hw
    rfl

theorem boolean_restores (room : Nat) : Codec.Restores room Codec.boolean booleanJson where
  storable b w hw := by
    cases hw
    exact .boolean b
  reads b w hw := by
    cases hw
    intro before rest hb _
    rw [Json.fragment_toList]
    cases b with
    | true =>
      have hstart : skipBlanks (before ++ (['t', 'r', 'u', 'e'] ++ rest)) =
          't' :: 'r' :: 'u' :: 'e' :: rest := skipBlanks_prefix hb rfl _
      simp only [Json.written, Codec.boolean, hstart]
      rfl
    | false =>
      have hstart : skipBlanks (before ++ (['f', 'a', 'l', 's', 'e'] ++ rest)) =
          'f' :: 'a' :: 'l' :: 's' :: 'e' :: rest := skipBlanks_prefix hb rfl _
      simp only [Json.written, Codec.boolean, hstart]
      rfl
  back b w hw := by
    cases hw
    rfl

theorem unsigned_reads {expected : String} {limit n : Nat} (hn : n ≤ limit) (hl : limit ≤ greatestWord) :
    Reader.Reads (Codec.unsigned expected limit).read (Json.number (.integer n)).fragment n := by
  intro before rest hb hr
  obtain ⟨c, r, hd, _⟩ := decimal_head n
  have hdigit : c.isDigit = true := decimal_digits n c (by simp [hd])
  have hread := readNumber_decimal (Nat.le_trans hn hl) hr
  have hrange : Codec.checkRange expected limit (.integer n) = .ok n := unsigned_ofJson hn
  have hstart : skipBlanks (before ++ c :: (r ++ rest)) = c :: (r ++ rest) :=
    skipBlanks_prefix hb (Grammar.digit_not_blank hdigit) _
  have hsign : c ≠ '-' := Grammar.digit_ne hdigit rfl
  rw [hd, List.cons_append] at hread
  rw [Json.fragment_toList, Json.written_natural, hd, List.cons_append]
  simp only [Codec.unsigned, hstart, if_neg hsign, hdigit, if_true, hread, hrange, bind, Except.bind,
    pure, Except.pure]

theorem unsigned_restores (room : Nat) {β : Type} {expected : String} {limit : Nat} {ofNat : Nat → β}
    {toNat : β → Nat} (hl : limit ≤ greatestWord) (hle : ∀ b, toNat b ≤ limit)
    (hof : ∀ b, ofNat (toNat b) = b) :
    Codec.Restores room ((Codec.unsigned expected limit).map ofNat)
      (fun b => some (.number (.integer (toNat b)))) where
  storable b w hw := by
    cases hw
    exact .natural (Nat.le_trans (hle b) hl)
  reads b w hw := by
    cases hw
    intro before rest hb hr
    simp only [Codec.map, unsigned_reads (hle b) hl before rest hb hr, hof, bind, Except.bind, pure,
      Except.pure]
  back b w hw := by
    cases hw
    exact (unsigned_scalar hle hof).back b _ rfl

theorem port_restores (room : Nat) : Codec.Restores room Codec.port portJson :=
  unsigned_restores room (by decide) (fun b => Nat.le_of_lt_succ b.toNat_lt) fun _ => UInt16.ofNat_toNat

theorem word_restores (room : Nat) : Codec.Restores room Codec.word wordJson :=
  unsigned_restores room (Nat.le_refl _) (fun b => Nat.le_of_lt_succ b.toNat_lt)
    fun _ => UInt64.ofNat_toNat

theorem size_restores (room : Nat) : Codec.Restores room Codec.size wordJson :=
  unsigned_restores room (Nat.le_refl _) (fun b => Nat.le_of_lt_succ b.toNat_lt)
    fun _ => UInt64.ofNat_toNat

end Scalars

namespace Field

variable {α : Type} {room : Nat}

structure Restored (room : Nat) (f : Field α) : Prop where
  storable : ∀ a w, f.shown a = some w → w.Storable room
  back : ∀ a w, f.shown a = some w → ∃ change, Reader.Reads f.codec.read w.fragment change ∧
    f.codec.ofJson w.sorted = .ok change ∧ ∀ d, f.shown (change d) = some w

theorem of_restored {β : Type} {name : String} {codec : Codec β} {toJson : β → Option Json}
    {get : α → β} {put : α → β → α} (h : codec.Restores room toJson) (hput : ∀ a b, get (put a b) = b) :
    (Field.of name codec toJson get put).Restored room where
  storable a w hw := h.storable (get a) w hw
  back a w hw := by
    refine ⟨fun d => put d (get a), fun before rest hb hr => ?_, of_ofJson (h.back (get a) w hw),
      fun d => (congrArg toJson (hput d (get a))).trans hw⟩
    simp only [Field.of, Codec.map, h.reads (get a) w hw before rest hb hr, bind, Except.bind, pure,
      Except.pure]

namespace Layout

variable {fields : List (Field α)} (h : Layout fields) (hf : ∀ f ∈ fields, f.Restored room)

include h hf

theorem takes_shown {f : Field α} (hmem : f ∈ fields) {a : α} {w : Json} (hw : f.shown a = some w)
    {names : List String} (hnew : f.name ∉ names) (d : α) :
    ∃ next, TakesMember (TextRecord.readMember (fields.map Codec.textField)) f.name w.fragment
        (names, d) (f.name :: names, next) ∧ f.shown next = some w ∧
      ∀ g ∈ fields, f.name ≠ g.name → g.shown next = g.shown d := by
  obtain ⟨change, hreads, hset, hback⟩ := (hf f hmem).back a w hw
  have hfind : (fields.map Codec.textField).find? (fun g => g.name = f.name) =
      some (Codec.textField f) := by
    rw [List.find?_map]
    exact congrArg (Option.map Codec.textField) (h.find hmem)
  have htakes : Reader.Reads ((Codec.textField f).read d) w.fragment (change d) := by
    intro before rest hb hr
    simp only [Codec.textField, hreads before rest hb hr, bind, Except.bind, pure, Except.pure]
  exact ⟨change d, TextRecord.takes_field hfind hnew htakes, hback d, fun g hg hne =>
    h.leaves f hmem g hg hne _ change hset d⟩

theorem fills_shown {later : List (Field α)} (hsub : ∀ f ∈ later, f ∈ fields)
    (hnames : (later.map (·.name)).Nodup) (a : α) (names : List String) (d : α)
    (hnew : ∀ f ∈ later, f.name ∉ names) :
    ∃ names' d', Fills (TextRecord.readMember (fields.map Codec.textField)) (names, d)
        ((membersOf later a).map Json.fragmentUnder) (names', d') ∧
      (∀ f ∈ later, f.shown d' = (f.shown a).or (f.shown d)) ∧
      ∀ f ∈ fields, f.name ∉ later.map (·.name) → f.shown d' = f.shown d := by
  -- `names` have been read, `later` are still to come, and both together stay apart
  induction later generalizing names d with
  | nil => exact ⟨names, d, .done, by simp, fun _ _ _ => rfl⟩
  | cons f later ih =>
    obtain ⟨hmem, hsub⟩ := List.forall_mem_cons.mp hsub
    obtain ⟨hfresh, hnew⟩ := List.forall_mem_cons.mp hnew
    obtain ⟨hname, hnames⟩ := List.nodup_cons.mp hnames
    cases hw : f.shown a with
    | none =>
      obtain ⟨names', d', hfills, hshown, hother⟩ := ih hsub hnames names d hnew
      refine ⟨names', d', ?_, List.forall_mem_cons.mpr ⟨?_, hshown⟩, fun g hg hout => ?_⟩
      · rwa [membersOf_cons, hw]
      · rw [hother f hmem hname, hw, Option.none_or]
      · exact hother g hg fun hin => hout (List.mem_cons_of_mem _ hin)
    | some w =>
      obtain ⟨next, htakes, hset, hkeep⟩ := h.takes_shown hf hmem hw hfresh d
      have hapart : ∀ g ∈ later, f.name ≠ g.name := fun g hg he =>
        hname (List.mem_map.mpr ⟨g, hg, he.symm⟩)
      have hnew' : ∀ g ∈ later, g.name ∉ f.name :: names := fun g hg hin =>
        (List.mem_cons.mp hin).elim (fun he => hapart g hg he.symm) (hnew g hg)
      obtain ⟨names', d', hfills, hshown, hother⟩ := ih hsub hnames _ next hnew'
      refine ⟨names', d', ?_, List.forall_mem_cons.mpr ⟨?_, fun g hg => ?_⟩, fun g hg hout => ?_⟩
      · rw [membersOf_cons, hw]
        exact .member htakes hfills
      · rw [hother f hmem hname, hset, hw, Option.some_or]
      · rw [hshown g hg, hkeep g (hsub g hg) (hapart g hg)]
      · have hne : f.name ≠ g.name := fun he => hout (List.mem_cons.mpr (.inl he.symm))
        rw [hother g hg fun hin => hout (List.mem_cons_of_mem _ hin), hkeep g hg hne]

omit h in
theorem members_storable {a : α} : ∀ m ∈ membersOf fields a, m.2.Storable room := by
  intro m hm
  obtain ⟨f, hfm, _, hw⟩ := mem_membersOf hm
  exact (hf f hfm).storable a m.2 hw

/-- A record is read back from the object that it shows, if nothing is left out but what the defaults
leave out. -/
theorem restores {defaults : α} (title : String) (hkey : ∀ f ∈ fields, f.name ≠ embeddedKey)
    (hdefault : ∀ f ∈ fields, ∀ a, f.shown a = none → f.shown defaults = none) :
    Codec.Restores (room + 1) (Codec.record title defaults fields)
      fun a => some (objectOf fields a) where
  storable a w hw := by
    cases hw
    refine .object (members_storable hf) fun m hm => ?_
    obtain ⟨f, hfm, hname, _⟩ := mem_membersOf hm
    exact hname ▸ hkey f hfm
  reads a w hw := by
    cases hw
    obtain ⟨names, d, hfills, hshown, _⟩ := h.fills_shown hf (fun _ hfm => hfm) h.names a [] defaults
      (by simp)
    have hwhole : ∀ m ∈ (membersOf fields a).map Json.fragmentUnder, m.2.Whole :=
      List.forall_mem_map.mpr fun m hm => (members_storable hf m hm).legible.whole
    have hsame : d = a := h.whole d a fun f hfm => by
      rw [hshown f hfm]
      cases hw : f.shown a with
      | none => exact hdefault f hfm a hw
      | some w => rfl
    rw [objectOf, Json.fragment_object]
    exact TextRecord.reads_written hwhole hfills (congrArg Except.ok hsame)
  back a w hw := by
    cases hw
    refine h.setMembers_eq (sortMembers_increasing _) fun f hfm => ?_
    change f.outcome defaults (lookupMember f.name (orderedMembersOf fields a)) = _
    rw [lookup_orderedMembersOf h.names a hfm]
    cases hw : f.shown a with
    | none =>
      -- nothing stands under the name, so the default stays
      exact congrArg Except.ok (hdefault f hfm a hw)
    | some w =>
      obtain ⟨change, _, hset, hback⟩ := (hf f hfm).back a w hw
      rw [Option.map_some, outcome, hset]
      exact congrArg Except.ok (hback defaults)

end Layout

end Field

section Sections

variable (room : Nat)

theorem shown_some {α : Type} {f : Field α} {d : α} (h : ∀ a, ∃ w, f.shown a = some w) (a : α)
    (hnone : f.shown a = none) : f.shown d = none := by
  obtain ⟨w, hw⟩ := h a
  cases hw.symm.trans hnone

theorem SocketSettings.restores : codec.Restores (room + 1) fun s => some s.toJson := by
  refine flat.layout.restores ?_ "SocketSettings" (by decide) ?_
  · simp only [fields, List.forall_mem_cons, forall_mem_empty, and_true]
    exact ⟨of_restored (text_restores room) fun _ _ => rfl,
      of_restored (port_restores room) fun _ _ => rfl,
      of_restored (word_restores room) fun _ _ => rfl, of_restored (word_restores room) fun _ _ => rfl,
      of_restored (size_restores room) fun _ _ => rfl, of_restored (size_restores room) fun _ _ => rfl,
      of_restored (word_restores room) fun _ _ => rfl, of_restored (size_restores room) fun _ _ => rfl⟩
  · simp only [fields, List.forall_mem_cons, forall_mem_empty, and_true]
    and_intros <;> exact shown_some fun _ => ⟨_, rfl⟩

theorem ServiceSettings.restores : codec.Restores (room + 1) fun s => some s.toJson := by
  refine flat.layout.restores ?_ "ServiceSettings" (by decide) ?_
  · simp only [fields, List.forall_mem_cons, forall_mem_empty, and_true]
    exact ⟨of_restored (text_restores room) fun _ _ => rfl,
      of_restored (port_restores room) fun _ _ => rfl,
      of_restored (word_restores room) fun _ _ => rfl, of_restored (word_restores room) fun _ _ => rfl,
      of_restored (path_restores room) fun _ _ => rfl, of_restored (path_restores room) fun _ _ => rfl⟩
  · simp only [fields, List.forall_mem_cons, forall_mem_empty, and_true]
    -- the defaults leave the paths out
    and_intros <;> first | exact shown_some fun _ => ⟨_, rfl⟩ | exact fun _ _ => rfl

theorem RegistrySettings.restores : codec.Restores (room + 1) fun s => some s.toJson := by
  refine flat.layout.restores ?_ "RegistrySettings" (by decide) ?_
  · simp only [fields, List.forall_mem_cons, forall_mem_empty, and_true]
    and_intros <;> exact of_restored (size_restores room) fun _ _ => rfl
  · simp only [fields, List.forall_mem_cons, forall_mem_empty, and_true]
    and_intros <;> exact shown_some fun _ => ⟨_, rfl⟩

theorem MergeSettings.restores : codec.Restores (room + 1) fun s => some s.toJson := by
  refine flat.layout.restores ?_ "MergeSettings" (by decide) ?_
  · simp only [fields, List.forall_mem_cons, forall_mem_empty, and_true]
    exact ⟨of_restored (size_restores room) fun _ _ => rfl,
      of_restored (size_restores room) fun _ _ => rfl,
      of_restored (word_restores room) fun _ _ => rfl, of_restored (size_restores room) fun _ _ => rfl⟩
  · simp only [fields, List.forall_mem_cons, forall_mem_empty, and_true]
    and_intros <;> exact shown_some fun _ => ⟨_, rfl⟩

theorem LoggingSettings.restores : codec.Restores (room + 1) fun s => some s.toJson := by
  refine flat.layout.restores ?_ "LoggingSettings" (by decide) ?_
  · simp only [fields, List.forall_mem_cons, forall_mem_empty, and_true]
    exact ⟨of_restored (text_restores room) fun _ _ => rfl,
      of_restored (boolean_restores room) fun _ _ => rfl⟩
  · simp only [fields, List.forall_mem_cons, forall_mem_empty, and_true]
    and_intros <;> exact shown_some fun _ => ⟨_, rfl⟩

theorem Settings.restores : codec.Restores (room + 2) fun s => some s.toJson := by
  refine layout.restores ?_ "FanoutSettings" (by decide) ?_
  · simp only [fields, List.forall_mem_cons, forall_mem_empty, and_true]
    exact ⟨of_restored (SocketSettings.restores room) fun _ _ => rfl,
      of_restored (ServiceSettings.restores room) fun _ _ => rfl,
      of_restored (RegistrySettings.restores room) fun _ _ => rfl,
      of_restored (MergeSettings.restores room) fun _ _ => rfl,
      of_restored (LoggingSettings.restores room) fun _ _ => rfl⟩
  · simp only [fields, List.forall_mem_cons, forall_mem_empty, and_true]
    and_intros <;> exact shown_some fun _ => ⟨_, rfl⟩

end Sections

theorem Json.Storable.pruned {room : Nat} {v : Json} (h : v.Storable room) :
    v.sorted ≠ .null ∧ v.sorted.pruned = v.sorted := by
  induction h with
  | boolean | natural | text | list => exact ⟨Json.noConfusion, rfl⟩
  | @object room ms _ _ ih =>
    refine ⟨Json.noConfusion, congrArg Json.object (Json.prunedMembers_self fun m hm => ?_)⟩
    have hsorted := mem_sortMembers hm
    rw [Json.sortedMembers_eq] at hsorted
    obtain ⟨n, hn, rfl⟩ := List.mem_map.mp hsorted
    exact ih n hn

theorem fromUTF8_toUTF8 (text : String) : String.fromUTF8? text.toUTF8 = some text :=
  dif_pos text.isValidUTF8

def Unset (env : Environment) : Prop := ∀ rest, env ("FANOUT_" ++ rest) = none

theorem override_unset {env : Environment} (h : Unset env) (s : Settings) : s.override env = s := by
  have hnames : ∀ o ∈ overrides, ∃ rest, o.name = "FANOUT_" ++ rest := by
    simp only [overrides, List.forall_mem_cons, forall_mem_empty, and_true]
    exact ⟨⟨"SOCKET_PORT", rfl⟩, ⟨"SERVICE_PORT", rfl⟩, ⟨"TLS_CERT", rfl⟩, ⟨"TLS_KEY", rfl⟩,
      ⟨"HEARTBEAT_INTERVAL_SECS", rfl⟩, ⟨"MAX_JOIN_ROOM", rfl⟩, ⟨"SHARD_COUNT", rfl⟩,
      ⟨"MERGE_WORKER_COUNT", rfl⟩, ⟨"MERGE_MAX_DELAY_MS", rfl⟩, ⟨"MERGE_MAX_BATCH_SIZE", rfl⟩,
      ⟨"LOG_LEVEL", rfl⟩⟩
  have hstep : ∀ o ∈ overrides, Override.applyFrom env s o = s := by
    intro o ho
    obtain ⟨rest, hname⟩ := hnames o ho
    rw [Override.applyFrom, hname, h rest]
  have hfold : ∀ os : List Override, (∀ o ∈ os, Override.applyFrom env s o = s) →
      os.foldl (Override.applyFrom env) s = s := by
    intro os hos
    induction os with
    | nil => rfl
    | cons o os ih =>
      obtain ⟨ho, hos⟩ := List.forall_mem_cons.mp hos
      rw [List.foldl_cons, ho, ih hos]
  exact hfold overrides hstep

namespace Settings

theorem decode_saved (s : Settings) : decode s.toJson.toText = .ok s :=
  ((restores 0).reads s _ rfl).alone

theorem parse_saved (s : Settings) : Json.parse s.toJson.toText = .ok s.toJson.sorted :=
  ((restores 125).storable s _ rfl).parse

theorem ofJson_saved (s : Settings) : ofJson s.toJson.sorted = .ok s := (restores 0).back s _ rfl

theorem ofJson_overlaid_saved (s : Settings) :
    ofJson (defaultsJson.overlay s.toJson.sorted) = .ok s := by
  have hread : ofJson (defaultsJson.overlay s.toJson.sorted) = ofJson s.toJson.sorted.pruned :=
    defaults_below.ofJson_overlaid layout (sortMembers_increasing _) "FanoutSettings"
      (Json.parse_ordered (parse_saved s)) fun f hf v hv => (sections f hf).overlaid v hv
  rw [hread, ((restores 0).storable s _ rfl).pruned.2, ofJson_saved]

/-- A file of saved settings is loaded as these, if they can be run. -/
theorem load_saved (s : Settings) {look : String → FileEntry} {env : Environment}
    {asked : Option String} {path : String} (hpath : settingsPath look env asked = some path)
    (hfile : look path = .file s.toJson.toText.toUTF8) (henv : Unset env) :
    loadSettings look env asked = (s.validate.mapError SettingsError.invalid).map fun _ => s := by
  simp only [loadSettings, hpath, hfile, readSettingsText, fromUTF8_toUTF8, settingsOfText, parse_saved s,
    settleSettings, ofJson_overlaid_saved s, override_unset henv s, Except.mapError, bind, Except.bind,
    pure, Except.pure]
  cases s.validate <;> rfl

end Settings

/-- Settings are decoded from what they are written as, in one pass and from the value that it holds;
and if they can be run, a file of it is loaded as these settings where no variable changes them. -/
theorem saved_settings_load_back (s : Settings) :
    Settings.decode s.toJson.toText = .ok s ∧
    Json.parse s.toJson.toText = .ok s.toJson.sorted ∧ Settings.ofJson s.toJson.sorted = .ok s ∧
    ∀ (look : String → FileEntry) (env : Environment) (asked : Option String) (path : String),
      settingsPath look env asked = some path → look path = .file s.toJson.toText.toUTF8 → Unset env →
      s.validate = .ok () → loadSettings look env asked = .ok s := by
  refine ⟨s.decode_saved, s.parse_saved, s.ofJson_saved, ?_⟩
  intro look env asked path hpath hfile henv hv
  rw [s.load_saved hpath hfile henv, hv]
  rfl

def oddSettings : Settings where
  socket := { SocketSettings.defaults with
    host := "\x7b\"\\\n", port := 0, maxJoinRoom := 18446744073709551615 }
  service := { ServiceSettings.defaults with
    tlsCertPath := some "", tlsKeyPath := some "é/\u0001\u2028" }
  registry := { RegistrySettings.defaults with shardCount := 18446744073709551615 }
  merge := .defaults
  logging := ⟨"\t", true⟩

theorem saved_settings_load_back_odd :
    oddSettings.validate = .ok () ∧
    loadSettings (fun _ => .file oddSettings.toJson.toText.toUTF8) (fun _ => none) (some "odd.json") =
      .ok oddSettings := by
  have hvalid : oddSettings.validate = .ok () := by decide
  obtain ⟨_, _, _, hload⟩ := saved_settings_load_back oddSettings
  exact ⟨hvalid, hload _ _ _ "odd.json" rfl rfl (fun _ => rfl) hvalid⟩

end RoomCast
