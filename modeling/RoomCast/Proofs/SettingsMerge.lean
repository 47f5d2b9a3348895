import RoomCast.SettingsFile
import RoomCast.Proofs.RecordLayout

namespace RoomCast

open RoomCast.Field

section Scalars

theorem text_scalar : Scalar Codec.text textJson where
  inj a b h := by simpa [textJson] using h
  blind _ _ := rfl
  flat b w hw v := by
    cases hw
    cases v <;> rfl
  sorted b w hw := by
    cases hw
    rfl
  back b w hw := by
    cases hw
    rfl

theorem path_scalar : Scalar Codec.path pathJson where
  inj a b h := by cases a <;> cases b <;> simp_all [pathJson]
  blind _ _ := rfl
  flat b w hw v := by
    obtain ⟨s, _, rfl⟩ := Option.map_eq_some_iff.mp hw
    cases v <;> rfl
  sorted b w hw := by
    obtain ⟨s, _, rfl⟩ := Option.map_eq_some_iff.mp hw
    rfl
  back b w hw := by
    obtain ⟨s, rfl, rfl⟩ := Option.map_eq_some_iff.mp hw
    rfl

theorem boolean_scalar : Scalar Codec.boolean booleanJson where
  inj a b h := by simpa [booleanJson] using h
  blind _ _ := rfl
  flat b w hw v := by
    cases hw
    cases v <;> rfl
  sorted b w hw := by
    cases hw
    rfl
  back b w hw := by
    cases hw
    rfl

theorem unsigned_ofJson {expected : String} {limit n : Nat} (h : n ≤ limit) :
    (Codec.unsigned expected limit).ofJson (.number (.integer n)) = .ok n := by
  have hrange : (0 : Int) ≤ n ∧ n ≤ limit := ⟨Int.natCast_nonneg n, h⟩
  simp only [Codec.unsigned, Codec.checkRange, Int.toNat_natCast, if_pos hrange]

theorem unsigned_scalar {β : Type} {expected : String} {limit : Nat} {ofNat : Nat → β} {toNat : β → Nat}
    (hle : ∀ b, toNat b ≤ limit) (hof : ∀ b, ofNat (toNat b) = b) :
    Scalar ((Codec.unsigned expected limit).map ofNat)
      (fun b => some (.number (.integer (toNat b)))) where
  inj a b h := by
    have hnat : toNat a = toNat b := by simpa [Int.natCast_inj] using h
    rw [← hof a, hnat, hof b]
  blind _ _ := rfl
  flat b w hw v := by
    cases hw
    cases v <;> rfl
  sorted b w hw := by
    cases hw
    rfl
  back b w hw := by
    cases hw
    simp only [Codec.map, unsigned_ofJson (hle b), bind, Except.bind, pure, Except.pure, hof]

theorem port_scalar : Scalar Codec.port portJson :=
  unsigned_scalar (fun b => Nat.le_of_lt_succ b.toNat_lt) fun _ => UInt16.ofNat_toNat

theorem word_scalar : Scalar Codec.word wordJson :=
  unsigned_scalar (fun b => Nat.le_of_lt_succ b.toNat_lt) fun _ => UInt64.ofNat_toNat

theorem size_scalar : Scalar Codec.size wordJson :=
  unsigned_scalar (fun b => Nat.le_of_lt_succ b.toNat_lt) fun _ => UInt64.ofNat_toNat

end Scalars

section Sections

theorem SocketSettings.flat : Flat fields defaults := by
  refine Apart.flat (.cons text_scalar ?_ <| .cons port_scalar ?_ <| .cons word_scalar ?_ <|
    .cons word_scalar ?_ <| .cons size_scalar ?_ <| .cons size_scalar ?_ <| .cons word_scalar ?_ <|
    .cons size_scalar ?_ <| .nil)
    (by decide) (fun _ _ => rfl) defaults
  all_goals exact ⟨fun _ _ => rfl, fun _ => rfl, fun _ _ => rfl, fun _ _ _ => rfl⟩

theorem ServiceSettings.flat : Flat fields defaults := by
  refine Apart.flat (.cons text_scalar ?_ <| .cons port_scalar ?_ <| .cons word_scalar ?_ <|
    .cons word_scalar ?_ <| .cons path_scalar ?_ <| .cons path_scalar ?_ <| .nil)
    (by decide) (fun _ _ => rfl) defaults
  all_goals exact ⟨fun _ _ => rfl, fun _ => rfl, fun _ _ => rfl, fun _ _ _ => rfl⟩

theorem RegistrySettings.flat : Flat fields defaults := by
  refine Apart.flat (.cons size_scalar ?_ <| .cons size_scalar ?_ <| .cons size_scalar ?_ <|
    .cons size_scalar ?_ <| .cons size_scalar ?_ <| .nil)
    (by decide) (fun _ _ => rfl) defaults
  all_goals exact ⟨fun _ _ => rfl, fun _ => rfl, fun _ _ => rfl, fun _ _ _ => rfl⟩

theorem MergeSettings.flat : Flat fields defaults := by
  refine Apart.flat (.cons size_scalar ?_ <| .cons size_scalar ?_ <| .cons word_scalar ?_ <|
    .cons size_scalar ?_ <| .nil)
    (by decide) (fun _ _ => rfl) defaults
  all_goals exact ⟨fun _ _ => rfl, fun _ => rfl, fun _ _ => rfl, fun _ _ _ => rfl⟩

theorem LoggingSettings.flat : Flat fields defaults := by
  refine Apart.flat (.cons text_scalar ?_ <| .cons boolean_scalar ?_ <| .nil)
    (by decide) (fun _ _ => rfl) defaults
  all_goals exact ⟨fun _ _ => rfl, fun _ => rfl, fun _ _ => rfl, fun _ _ _ => rfl⟩

end Sections

namespace Settings

def defaultMembers : List (String × Json) := orderedMembersOf fields defaults

theorem layout : Layout fields := by
  refine Apart.layout_of_injective (.cons SocketSettings.flat.layout.shown_injective ?_ <|
    .cons ServiceSettings.flat.layout.shown_injective ?_ <|
    .cons RegistrySettings.flat.layout.shown_injective ?_ <|
    .cons MergeSettings.flat.layout.shown_injective ?_ <|
    .cons LoggingSettings.flat.layout.shown_injective ?_ <| .nil)
    (by decide) (fun _ _ => rfl)
  all_goals exact ⟨fun _ _ => rfl, fun _ => rfl, fun _ _ => rfl, fun _ _ _ => rfl⟩

/-- A section of the settings: a flat record whose defaults lie under its name. -/
structure Section (f : Field Settings) : Prop where
  below : f.outcome defaults (lookupMember f.name defaultMembers) = .ok (f.shown defaults)
  overlaid : ∀ v : Json, v.Ordered →
    f.codec.ofJson (overlaid (lookupMember f.name defaultMembers) v) = f.codec.ofJson v.pruned

theorem flat_section {σ : Type} {name title : String} {parts : List (Field σ)} {part : σ}
    {toJson : σ → Option Json} {get : Settings → σ} {put : Settings → σ → Settings}
    (hflat : Flat parts part)
    (hlook : lookupMember name defaultMembers = some (.object (orderedMembersOf parts part)))
    (hget : get defaults = part) (hput : ∀ a b, get (put a b) = b) :
    Section (.of name (.record title part parts) toJson get put) where
  below := by
    have hread : (Field.of name (.record title part parts) toJson get put).codec.ofJson
        (.object (orderedMembersOf parts part)) = .ok fun a => put a part :=
      of_ofJson (hflat.ofJson_defaults title)
    change Field.outcome _ defaults (lookupMember name defaultMembers) = _
    rw [hlook, outcome, hread]
    exact congrArg Except.ok (congrArg toJson ((hput defaults part).trans hget.symm))
  overlaid v hv := by
    change (Field.of name (.record title part parts) toJson get put).codec.ofJson
      (Field.overlaid (lookupMember name defaultMembers) v) = _
    rw [hlook]
    exact of_congr (hflat.ofJson_overlaid title hv)

theorem sections : ∀ f ∈ fields, Section f := by
  simp only [fields, List.forall_mem_cons, forall_mem_empty, and_true]
  exact ⟨flat_section SocketSettings.flat rfl rfl fun _ _ => rfl,
    flat_section ServiceSettings.flat rfl rfl fun _ _ => rfl,
    flat_section RegistrySettings.flat rfl rfl fun _ _ => rfl,
    flat_section MergeSettings.flat rfl rfl fun _ _ => rfl,
    flat_section LoggingSettings.flat rfl rfl fun _ _ => rfl⟩

theorem defaults_below : Below fields defaults defaultMembers := fun f hf => (sections f hf).below

theorem outcome_overlaid {upper : List (String × Json)} (hu : (Json.object upper).Ordered) :
    ∀ f ∈ fields, f.outcome defaults (lookupMember f.name (Json.overlayMembers defaultMembers upper)) =
      f.outcome defaults (lookupMember f.name (Json.prunedMembers upper)) :=
  defaults_below.outcome_overlaid hu.1 fun f hf v hv =>
    (sections f hf).overlaid v (Json.under_ordered hu hv)

end Settings

/-- The settings of a value laid over the defaults, or why they are refused, are those of the value
without its `null` members, read by itself. -/
theorem merging_over_defaults_is_reading {u : Json} (hu : u.Ordered) :
    Settings.ofJson (defaultsJson.overlay u) = Settings.ofJson u.pruned :=
  Settings.defaults_below.ofJson_overlaid Settings.layout (sortMembers_increasing _) "FanoutSettings" hu
    fun f hf v hv => (Settings.sections f hf).overlaid v hv

/-- A section may be a list, and what is `null` or unknown is as good as absent. -/
theorem merging_list_and_nulls :
    Settings.ofJson (defaultsJson.overlay (.object [("logging", .list [.text "debug"]),
      ("merge", .object [("maxDelayMs", .null), ("other", .number (.integer 5))]),
      ("socket", .null)])) =
        .ok { Settings.defaults with logging := ⟨"debug", false⟩ } :=
  (merging_over_defaults_is_reading (by
    simp only [Json.Ordered, Json.OrderedMembers, Json.OrderedItems, and_true]
    exact ⟨by unfold Increasing; decide, by unfold Increasing; decide⟩)).trans rfl

end RoomCast
