import RoomCast.Proofs.FrameValues
import RoomCast.Proofs.SettingsMerge

namespace RoomCast

namespace Json

variable {embedded : String → Except JsonError Json} {room : Nat} {s t : List Char} {v : Json}

theorem readWithin_at {c : Char} {r : List Char} (hs : skipBlanks s = c :: r) :
    readWithin embedded room s = readWithin embedded room (c :: r) := by
  obtain ⟨blanks, hb, hsplit⟩ := skipBlanks_split s
  rw [hsplit, hs]
  exact readWithin_blanks hb (skipBlanks_head hs) r

def Atomic : Json → Prop
  | .list _ => False
  | .object _ => False
  | _ => True

/-- What holds a value and embeds no text is an object of members that hold what stands under their keys,
or a list of items that hold those of the value, or the value has no parts. -/
theorem parse_forms {text : String} (h : parse text = .ok v) (hplain : ¬Embeds text) :
    (∃ ms ns, ObjectText ms text ∧ List.Forall₂ (Under fun f v => parse f.text = .ok v) ms ns ∧
      v = .object (sortMembers ns)) ∨
    (∃ fs vs, ListText fs text ∧ List.Forall₂ (fun f v => parse f.text = .ok v) fs vs ∧ v = .list vs) ∨
    ∃ c r, skipBlanks text.toList = c :: r ∧ c ≠ '\x7b' ∧ c ≠ '[' ∧ v.Atomic := by
  obtain ⟨rest, hread, hrest⟩ := parse_read h
  obtain ⟨r, inner, hs, hroom, hobject⟩ | hkind := readWithin_kinds hread
  · obtain ⟨ms, htext, ⟨f, rfl⟩ | ⟨ns, hns, rfl, _⟩⟩ := parse_members hrest hs hroom hobject
    · exact absurd ⟨f, [], htext⟩ hplain
    · exact .inl ⟨ms, ns, htext, hns, rfl⟩
  · right
    cases v with
    | object => exact hkind.elim
    | list vs =>
      left
      obtain ⟨r, inner, hs, hroom, hitems⟩ := hkind
      obtain ⟨fs, items, hstands, hfs, rfl⟩ := readList_text _ readWithin_stands hitems
      obtain ⟨before, hb, htext⟩ := skipBlanks_split text.toList
      refine ⟨fs, vs, ⟨before, items, rest, hb, hrest, hfs, ?_⟩, hstands.imp fun f v hf => ?_, rfl⟩
      · rw [htext, hs]
        simp
      · exact hf.parse (by omega)
    | null => exact .inr ⟨_, _, hkind, by decide, by decide, trivial⟩
    | boolean b => cases b <;> exact .inr ⟨_, _, hkind, by decide, by decide, trivial⟩
    | text content =>
      obtain ⟨r, hs, _⟩ := hkind
      exact .inr ⟨_, _, hs, by decide, by decide, trivial⟩
    | number n =>
      obtain ⟨r, hs, _⟩ | ⟨c, r, hs, hc, _⟩ := hkind
      · exact .inr ⟨_, _, hs, by decide, by decide, trivial⟩
      · exact .inr ⟨_, _, hs, Grammar.digit_ne hc rfl, Grammar.digit_ne hc rfl, trivial⟩

end Json

namespace Codec

open Json (readWithin readWithin_kinds readWithin_at)

/-- A codec of values without parts: reading such a value is reading any value and then taking it. -/
structure Lexical {β : Type} (codec : Codec β) : Prop where
  read_iff : ∀ embedded room s b t, codec.read s = .ok (b, t) ↔
    (∀ r, skipBlanks s ≠ '\x7b' :: r) ∧
      ∃ v, readWithin embedded room s = .ok (v, t) ∧ codec.ofJson v = .ok b
  no_object : ∀ ms b, codec.ofJson (.object ms) ≠ .ok b

section Lexical

theorem textAs_lexical (expected : String) : (textAs expected).Lexical where
  read_iff embedded room s b t := by
    constructor
    · intro h
      change readTextValue expected s = _ at h
      unfold readTextValue at h
      split at h
      next => cases h
      next c r hs =>
        split at h
        next hc =>
          subst hc
          refine ⟨by simp [hs], .text b, ?_, rfl⟩
          rw [readWithin_at hs]
          exact Json.readWithin_text h
        next => cases h
    · rintro ⟨hno, v, hread, hv⟩
      obtain ⟨r, _, hs, _⟩ | hkind := readWithin_kinds hread
      · exact absurd hs (hno r)
      · cases v with
        | text content =>
          cases hv
          obtain ⟨r, hs, hr⟩ := hkind
          change readTextValue expected s = _
          simp only [readTextValue, hs, if_true, hr]
        | _ => cases hv
  no_object ms b h := by cases h

theorem boolean_lexical : boolean.Lexical where
  read_iff embedded room s b t := by
    constructor
    · intro h
      change Codec.boolean.read s = _ at h
      simp only [boolean] at h
      split at h
      next => cases h
      next c r hs =>
        split at h
        next hc =>
          obtain ⟨_, hw, h⟩ := bind_ok h
          cases h
          subst hc
          refine ⟨by simp [hs], .boolean true, ?_, rfl⟩
          rw [readWithin_at hs, readWord_ok hw]
          exact Json.readWithin_true t
        split at h
        next hc =>
          obtain ⟨_, hw, h⟩ := bind_ok h
          cases h
          subst hc
          refine ⟨by simp [hs], .boolean false, ?_, rfl⟩
          rw [readWithin_at hs, readWord_ok hw]
          exact Json.readWithin_false t
        next => cases h
    · rintro ⟨hno, v, hread, hv⟩
      obtain ⟨r, _, hs, _⟩ | hkind := readWithin_kinds hread
      · exact absurd hs (hno r)
      · cases v with
        | boolean b' =>
          cases hv
          cases b <;> simp only [boolean, hkind] <;> rfl
        | _ => cases hv
  no_object ms b h := by cases h

theorem unsigned_lexical (expected : String) (limit : Nat) : (unsigned expected limit).Lexical where
  read_iff embedded room s b t := by
    constructor
    · intro h
      simp only [unsigned] at h
      split at h
      next => cases h
      next c r hs =>
        split at h
        next hc =>
          obtain ⟨⟨n, _⟩, hn, h⟩ := bind_ok h
          obtain ⟨_, hrange, h⟩ := bind_ok h
          cases h
          subst hc
          refine ⟨by simp [hs], .number n, ?_, hrange⟩
          rw [readWithin_at hs]
          exact Json.readWithin_negative hn
        split at h
        next hc =>
          obtain ⟨⟨n, _⟩, hn, h⟩ := bind_ok h
          obtain ⟨_, hrange, h⟩ := bind_ok h
          cases h
          refine ⟨fun r' hr => ?_, .number n, ?_, hrange⟩
          · rw [hs] at hr
            exact Grammar.digit_ne hc rfl (List.cons.inj hr).1
          · rw [readWithin_at hs]
            exact Json.readWithin_digit hc hn
        next => cases h
    · rintro ⟨hno, v, hread, hv⟩
      obtain ⟨r, _, hs, _⟩ | hkind := readWithin_kinds hread
      · exact absurd hs (hno r)
      · cases v with
        | number n =>
          change checkRange expected limit n = .ok b at hv
          obtain ⟨r, hs, hn⟩ | ⟨c, r, hs, hc, hn⟩ := hkind
          · simp only [unsigned, hs, if_true, hn, hv, bind, Except.bind, pure, Except.pure]
          · have hsign : c ≠ '-' := Grammar.digit_ne hc rfl
            simp only [unsigned, hs, if_neg hsign, hc, if_true, hn, hv, bind, Except.bind, pure,
              Except.pure]
        | _ => cases hv
  no_object ms b h := by cases h

variable {β : Type} {codec : Codec β}

theorem word_of_null {embedded : String → Except JsonError Json} {room : Nat} {s r t : List Char}
    {v : Json} (hs : skipBlanks s = 'n' :: r) (h : readWithin embedded room s = .ok (v, t)) :
    v = .null ∧ skipBlanks s = 'n' :: 'u' :: 'l' :: 'l' :: t := by
  obtain ⟨r', _, hs', _⟩ | hkind := readWithin_kinds h
  · simp [hs] at hs'
  · cases v with
    | null => exact ⟨rfl, hkind⟩
    | boolean b => cases b <;> simp [hs] at hkind
    | number n =>
      obtain ⟨r', hs', _⟩ | ⟨c, r', hs', hc, _⟩ := hkind
      · simp [hs] at hs'
      · rw [hs] at hs'
        exact absurd (List.cons.inj hs').1.symm (Grammar.digit_ne hc rfl)
    | text content =>
      obtain ⟨r', hs', _⟩ := hkind
      simp [hs] at hs'
    | list items =>
      obtain ⟨r', _, hs', _⟩ := hkind
      simp [hs] at hs'
    | object ms => exact hkind.elim

theorem nullable_ofJson (hnull : ∀ b, codec.ofJson .null ≠ .ok b) {v : Json} {b : Option β} :
    codec.nullable.ofJson v = .ok b ↔
      (v = .null ∧ b = none) ∨ ∃ a, codec.ofJson v = .ok a ∧ b = some a := by
  have hsome : ∀ v, v ≠ .null →
      codec.nullable.ofJson v = codec.ofJson v >>= fun a => .ok (some a) := by
    intro v hv
    cases v <;> first | exact absurd rfl hv | rfl
  by_cases hv : v = .null
  · subst hv
    constructor
    · intro h
      cases h
      exact .inl ⟨rfl, rfl⟩
    · rintro (⟨_, rfl⟩ | ⟨a, ha, _⟩)
      · rfl
      · exact absurd ha (hnull a)
  · rw [hsome v hv]
    constructor
    · intro h
      obtain ⟨a, ha, h⟩ := bind_ok h
      cases h
      exact .inr ⟨a, ha, rfl⟩
    · rintro (⟨hnone, _⟩ | ⟨a, ha, rfl⟩)
      · exact absurd hnone hv
      · rw [ha]
        rfl

section Nullable

variable {embedded : String → Except JsonError Json} {room : Nat} {s t : List Char} {b : Option β}

theorem nullable_read_null {r : List Char} (hs : skipBlanks s = 'n' :: r) :
    codec.nullable.read s = readWord ['u', 'l', 'l'] r >>= fun s => .ok (none, s) := by
  simp only [Codec.nullable, hs]
  rfl

theorem nullable_read_some (hs : ∀ r, skipBlanks s ≠ 'n' :: r) :
    codec.nullable.read s = codec.read (skipBlanks s) >>= fun r => .ok (some r.1, r.2) := by
  unfold Codec.nullable
  dsimp only
  split
  next r hn => exact absurd hn (hs r)
  next => rfl

theorem read_null_iff (hnull : ∀ a, codec.ofJson .null ≠ .ok a) {r : List Char}
    (hs : skipBlanks s = 'n' :: r) : codec.nullable.read s = .ok (b, t) ↔
      ∃ v, readWithin embedded room s = .ok (v, t) ∧
        (v = .null ∧ b = none ∨ ∃ a, codec.ofJson v = .ok a ∧ b = some a) := by
  rw [nullable_read_null hs]
  constructor
  · intro hb
    obtain ⟨_, hw, he⟩ := bind_ok hb
    cases he
    refine ⟨.null, ?_, .inl ⟨rfl, rfl⟩⟩
    rw [readWithin_at hs, readWord_ok hw]
    exact Json.readWithin_null t
  · rintro ⟨v, hv, ⟨rfl, rfl⟩ | ⟨a, ha, rfl⟩⟩
    · have hword := (word_of_null hs hv).2
      rw [hs] at hword
      cases hword
      rfl
    · rw [(word_of_null hs hv).1] at ha
      exact absurd ha (hnull a)

theorem Lexical.read_some_iff (h : codec.Lexical) (hs : ∀ r, skipBlanks s ≠ 'n' :: r) :
    codec.nullable.read s = .ok (b, t) ↔ (∀ r, skipBlanks s ≠ '\x7b' :: r) ∧
      ∃ v, readWithin embedded room s = .ok (v, t) ∧
        (v = .null ∧ b = none ∨ ∃ a, codec.ofJson v = .ok a ∧ b = some a) := by
  have hstart : skipBlanks (skipBlanks s) = skipBlanks s := by
    cases hs : skipBlanks s with
    | nil => rfl
    | cons c r => exact skipBlanks_none (skipBlanks_head hs) r
  have hsame : readWithin embedded room (skipBlanks s) = readWithin embedded room s := by
    unfold readWithin
    rw [hstart]
  rw [nullable_read_some hs]
  constructor
  · intro hb
    obtain ⟨⟨a, _⟩, ha, he⟩ := bind_ok hb
    cases he
    obtain ⟨hno, v, hv, hav⟩ := (h.read_iff embedded room _ a _).mp ha
    exact ⟨by rwa [hstart] at hno, v, by rwa [hsame] at hv, .inr ⟨a, hav, rfl⟩⟩
  · rintro ⟨hno, v, hv, ⟨rfl, rfl⟩ | ⟨a, ha, rfl⟩⟩
    · obtain ⟨r, _, hopen, _⟩ | hword := readWithin_kinds hv
      · exact absurd hopen (hno r)
      · exact absurd hword (hs _)
    · rw [(h.read_iff embedded room _ a t).mpr ⟨by rwa [hstart], v, by rwa [hsame], ha⟩]
      rfl

end Nullable

theorem Lexical.nullable (h : codec.Lexical) (hnull : ∀ b, codec.ofJson .null ≠ .ok b) :
    codec.nullable.Lexical where
  read_iff embedded room s b t := by
    simp only [nullable_ofJson hnull]
    by_cases hn : ∃ r, skipBlanks s = 'n' :: r
    · obtain ⟨r, hs⟩ := hn
      rw [read_null_iff hnull hs]
      exact (and_iff_right (by simp [hs])).symm
    · exact h.read_some_iff fun r hs => hn ⟨r, hs⟩
  no_object ms b hb := by
    obtain ⟨a, ha, _⟩ := bind_ok hb
    exact h.no_object ms a ha

/-- What is read from a text is a fragment, from which the same is read wherever it stands. -/
theorem Lexical.stands (h : codec.Lexical) {s t : List Char} {b : β} (hb : codec.read s = .ok (b, t)) :
    ∃ f, Starts f s t ∧ Reader.Reads codec.read f b := by
  obtain ⟨hno, v, hread, hv⟩ := (h.read_iff Json.parse 0 s b t).mp hb
  obtain ⟨f, hf, hstands⟩ := Json.readWithin_stands hread
  refine ⟨f, hf, fun before rest hbefore hrest => (h.read_iff Json.parse 0 _ b rest).mpr ⟨?_, v,
    hstands _ _ (Nat.le_refl 0) (fun _ _ _ hv => hv) before rest hbefore hrest, hv⟩⟩
  obtain ⟨blanks, hblanks, rfl, hw⟩ := hf
  obtain ⟨c, r, hc, hblank, _⟩ := hw.head
  intro r' hr'
  rw [hc, List.cons_append, skipBlanks_prefix hbefore hblank] at hr'
  rw [hc, List.append_assoc, List.cons_append, skipBlanks_prefix hblanks hblank,
    (List.cons.inj hr').1] at hno
  exact hno _ rfl

theorem Lexical.agrees (h : codec.Lexical) {text : String} {v : Json} (hplain : ¬Embeds text)
    (hv : Json.parse text = .ok v) (b : β) : codec.read.readAll text = .ok b ↔ codec.ofJson v = .ok b := by
  obtain ⟨rest, hread, hrest⟩ := Json.parse_read hv
  by_cases hobject : ∃ r, skipBlanks text.toList = '\x7b' :: r
  · obtain ⟨r, hs⟩ := hobject
    have hmembers : Json.readObject (readWithin (Json.parseEmbedded text.length) (nestingLimit - 1))
        (Json.parseEmbedded text.length) r = .ok (v, rest) := by
      rw [readWithin_at hs] at hread
      exact (Json.readWithin_object r).symm.trans hread
    obtain ⟨ms, htext, ⟨f, rfl⟩ | ⟨ns, _, rfl, _⟩⟩ := Json.parse_members hrest hs rfl hmembers
    · exact absurd ⟨f, [], htext⟩ hplain
    · refine ⟨fun hb => ?_, fun hb => absurd hb (h.no_object _ b)⟩
      obtain ⟨t, ht, _⟩ := readAll_ok hb
      exact absurd hs (((h.read_iff Json.parse 0 _ b t).mp ht).1 r)
  · constructor
    · intro hb
      obtain ⟨t, ht, _⟩ := readAll_ok hb
      obtain ⟨_, w, hw, hwb⟩ := (h.read_iff _ nestingLimit _ b t).mp ht
      rw [hread] at hw
      cases hw
      exact hwb
    · intro hb
      exact readAll_of ((h.read_iff _ _ _ b rest).mpr ⟨not_exists.mp hobject, v, hread, hb⟩) hrest

end Lexical

/-- Whether what is read from a text is a fragment, and texts that are `Fair` are read as the values that
they hold. -/
structure Faithful {β : Type} (codec : Codec β) (Fair : String → Prop) : Prop where
  stands : ∀ {s t : List Char} {b : β}, codec.read s = .ok (b, t) →
    ∃ f, Starts f s t ∧ Reader.Reads codec.read f b
  agrees : ∀ {text : String} {v : Json}, Fair text → Json.parse text = .ok v → ∀ b,
    codec.read.readAll text = .ok b ↔ codec.ofJson v = .ok b

section Faithful

variable {β γ : Type} {codec : Codec β} {Fair Fair' : String → Prop}

theorem Lexical.faithful (h : codec.Lexical) : codec.Faithful fun text => ¬Embeds text :=
  ⟨h.stands, h.agrees⟩

theorem Faithful.mono (h : codec.Faithful Fair) (hfair : ∀ text, Fair' text → Fair text) :
    codec.Faithful Fair' :=
  ⟨h.stands, fun ht => h.agrees (hfair _ ht)⟩

theorem readAll_map {f : β → γ} {text : String} {c : γ} :
    (codec.map f).read.readAll text = .ok c ↔ ∃ b, codec.read.readAll text = .ok b ∧ c = f b := by
  constructor
  · intro h
    obtain ⟨rest, hread, hrest⟩ := readAll_ok h
    obtain ⟨⟨b, _⟩, hb, he⟩ := bind_ok hread
    cases he
    exact ⟨b, readAll_of hb hrest, rfl⟩
  · rintro ⟨b, h, rfl⟩
    obtain ⟨rest, hread, hrest⟩ := readAll_ok h
    refine readAll_of ?_ hrest
    simp only [Codec.map, hread, bind, Except.bind, pure, Except.pure]

theorem map_ofJson {f : β → γ} {v : Json} {c : γ} :
    (codec.map f).ofJson v = .ok c ↔ ∃ b, codec.ofJson v = .ok b ∧ c = f b := by
  constructor
  · intro h
    obtain ⟨b, hb, he⟩ := bind_ok h
    cases he
    exact ⟨b, hb, rfl⟩
  · rintro ⟨b, h, rfl⟩
    simp only [Codec.map, h, bind, Except.bind, pure, Except.pure]

theorem Faithful.map (h : codec.Faithful Fair) (f : β → γ) : (codec.map f).Faithful Fair where
  stands hread := by
    obtain ⟨⟨b, _⟩, hb, he⟩ := bind_ok hread
    cases he
    obtain ⟨g, hg, hreads⟩ := h.stands hb
    refine ⟨g, hg, fun before rest hbefore hrest => ?_⟩
    simp only [Codec.map, hreads before rest hbefore hrest, bind, Except.bind, pure, Except.pure]
  agrees ht hv c := by
    rw [readAll_map, map_ofJson]
    exact exists_congr fun b => and_congr_left' (h.agrees ht hv b)

end Faithful

end Codec

theorem Fragment.Whole.same {f g : Fragment} {rest : List Char} (hf : f.Whole)
    (h : Starts g f.text.toList rest) (hrest : Blanks rest) : g = f := by
  obtain ⟨blanks, hb, htext, hg⟩ := h
  obtain ⟨c, r, hc, hblank, _⟩ := hg.head
  obtain ⟨hstart, hskip⟩ := hf.alone
  have hbare : f.text.toList = g.text.toList ++ rest := by
    rw [← hstart, htext, hc, List.append_assoc, List.cons_append, skipBlanks_prefix hb hblank]
  have hnone : rest = [] := by
    have hvalue := (hg.value.append rest).skip (Grammar.delimited_blanks hrest)
    rw [List.nil_append, ← hbare, hskip] at hvalue
    exact (Except.ok.inj hvalue).symm
  rw [hnone, List.append_nil] at hbare
  cases f
  cases g
  exact congrArg Fragment.mk (String.toList_inj.mp hbare.symm)

theorem Codec.Faithful.reads_iff {β : Type} {codec : Codec β} {Fair : String → Prop}
    (h : codec.Faithful Fair) {g : Fragment} (hg : g.Whole) {b : β} :
    Reader.Reads codec.read g b ↔ codec.read.readAll g.text = .ok b := by
  refine ⟨Reader.Reads.alone, fun hb => ?_⟩
  obtain ⟨rest, hread, hrest⟩ := readAll_ok hb
  obtain ⟨g', hg', hreads⟩ := h.stands hread
  rwa [hg.same hg' hrest] at hreads

end RoomCast
