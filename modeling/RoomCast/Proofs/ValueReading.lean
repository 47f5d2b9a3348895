import RoomCast.Proofs.NumeralReading
import RoomCast.Proofs.ObjectReading

namespace RoomCast

namespace Json

section Objects

def Under (Holds : Fragment → Json → Prop) (m : String × Fragment) (n : String × Json) : Prop :=
  m.1 = n.1 ∧ Holds m.2 n.2

def layMembers (vs : List (String × Json)) (members : List (String × Json)) : List (String × Json) :=
  vs.foldl (fun ms m => insertMember m.1 m.2 ms) members

def placeMember (value : Reader Json) (key : String) (members : List (String × Json)) :
    Reader (List (String × Json)) := fun s => do
  let s ← readColon s
  let (v, s) ← value s
  return (insertMember key v members, s)

theorem readObject_eq (value : Reader Json) (embedded : String → Except JsonError Json) (s : List Char) :
    readObject value embedded s = (do
      match ← nextKey true s with
      | none =>
        let s ← closeObject s
        return (.object [], s)
      | some s =>
        let (key, s) ← readText s
        let s ← readColon s
        if key = embeddedKey then
          let (content, s) ← readTextValue "raw value" s
          let v ← embedded content
          let s ← closeObject s
          return (v, s)
        else
          let (v, s) ← value s
          let (members, s) ← readMembers (placeMember value) (s.length + 1) false [(key, v)] s
          let s ← closeObject s
          return (.object members, s)) := rfl

/-- What fragments under their keys make of the members before them. -/
def Lays (Holds : Fragment → Json → Prop) (members : List (String × Json))
    (ms : List (String × Fragment)) (last : List (String × Json)) : Prop :=
  ∃ vs, List.Forall₂ (Under Holds) ms vs ∧ last = layMembers vs members

variable {value : Reader Json} {embedded : String → Except JsonError Json}
  {Holds : Fragment → Json → Prop}

theorem placeMember_lays
    (hvalue : ∀ {s t : List Char} {v : Json}, value s = .ok (v, t) → ∃ f, Starts f s t ∧ Holds f v)
    {key : String} {members next : List (String × Json)} {s t : List Char}
    (h : placeMember value key members s = .ok (next, t)) :
    ∃ blanks r f, Blanks blanks ∧ s = blanks ++ ':' :: r ∧ Starts f r t ∧
      ∀ {ms last}, Lays Holds next ms last → Lays Holds members ((key, f) :: ms) last := by
  obtain ⟨r, hcolon, h⟩ := bind_ok h
  obtain ⟨⟨v, later⟩, hv, h⟩ := bind_ok h
  cases h
  obtain ⟨f, hf, hholds⟩ := hvalue hv
  obtain ⟨blanks, hb, hs⟩ := skipBlanks_split s
  refine ⟨blanks, r, f, hb, by rw [← readColon_ok hcolon]; exact hs, hf, ?_⟩
  rintro ms last ⟨vs, hvs, rfl⟩
  exact ⟨(key, v) :: vs, .cons ⟨rfl, hholds⟩ hvs, rfl⟩

theorem keyed_text {key : String} {start behind r later : List Char} {f : Fragment}
    (hk : readText start = .ok (key, behind)) (hc : readColon behind = .ok r) (hf : Starts f r later) :
    ∃ m, MemberText key f m ∧ '"' :: start = m ++ later := by
  obtain ⟨used, rfl, hspells⟩ := readText_spells hk
  obtain ⟨before, hb, hs⟩ := skipBlanks_split behind
  obtain ⟨after, ha, rfl, hw⟩ := hf
  rw [readColon_ok hc] at hs
  exact ⟨_, .mk hspells hb ha hw, by rw [hs]; simp⟩

theorem readObject_text
    (hvalue : ∀ {s t : List Char} {v : Json}, value s = .ok (v, t) → ∃ f, Starts f s t ∧ Holds f v)
    {s rest : List Char} {v : Json} (h : readObject value embedded s = .ok (v, rest)) :
    ∃ ms inner, MembersText ms inner ∧ s = inner ++ rest ∧
      ((∃ f content, ms = [(embeddedKey, f)] ∧ f.Spells content ∧ embedded content = .ok v) ∨
        ∃ vs, List.Forall₂ (Under Holds) ms vs ∧ v = .object (sortMembers vs) ∧
          ∀ m ∈ ms.head?, m.1 ≠ embeddedKey) := by
  rw [readObject_eq] at h
  obtain ⟨found, hn, h⟩ := bind_ok h
  obtain ⟨before, hb, hs⟩ := skipBlanks_split s
  cases found with
  | none =>
    obtain ⟨_, hclose, h⟩ := bind_ok h
    cases h
    obtain ⟨blanks, hb, hs⟩ := closed_text hclose
    exact ⟨[], _, .close hb, hs, .inr ⟨[], .nil, rfl, by simp⟩⟩
  | some start =>
    rw [nextKey_first hn] at hs
    obtain ⟨⟨key, behind⟩, hkey, h⟩ := bind_ok h
    obtain ⟨r, hcolon, h⟩ := bind_ok h
    dsimp only at h
    split at h
    next hembedded =>
      obtain ⟨⟨content, later⟩, hcontent, h⟩ := bind_ok h
      obtain ⟨w, hw, h⟩ := bind_ok h
      obtain ⟨_, hclose, h⟩ := bind_ok h
      cases h
      obtain ⟨f, hf, hspells⟩ := readTextValue_spells hcontent
      obtain ⟨m, hm, hstart⟩ := keyed_text hkey hcolon hf
      obtain ⟨blanks, hblanks, hlater⟩ := closed_text hclose
      dsimp only at hlater
      refine ⟨[(key, f)], _, .member hb hm (.close hblanks), ?_,
        .inl ⟨f, content, by rw [hembedded], hspells, hw⟩⟩
      rw [hs, hstart, hlater]
      simp
    next hne =>
      obtain ⟨⟨w, later⟩, hw, h⟩ := bind_ok h
      obtain ⟨⟨members, behind'⟩, hmembers, h⟩ := bind_ok h
      obtain ⟨_, hclose, h⟩ := bind_ok h
      cases h
      obtain ⟨f, hf, hholds⟩ := hvalue hw
      obtain ⟨m, hm, hstart⟩ := keyed_text hkey hcolon hf
      obtain ⟨ms, inner, hms, hlater, vs, hvs, hlaid⟩ :=
        moreMembers_text (Lays Holds) ⟨[], .nil, rfl⟩ (placeMember_lays hvalue) hmembers hclose
      dsimp only at hlater
      refine ⟨(key, f) :: ms, _, .member hb hm hms, ?_,
        .inr ⟨(key, w) :: vs, .cons ⟨rfl, hholds⟩ hvs, ?_, by simpa using hne⟩⟩
      · rw [hs, hstart, hlater]
        simp
      · rw [hlaid]
        rfl

theorem placeMember_takes {key : String} {f : Fragment} {v : Json} (hf : Reader.Reads value f v)
    (members : List (String × Json)) :
    TakesMember (placeMember value) key f members (insertMember key v members) := by
  intro before after rest hb ha hr
  simp only [placeMember, readColon_colon hb, hf after rest ha hr, bind, Except.bind, pure, Except.pure]

theorem fills_placed {ms : List (String × Fragment)} {vs : List (String × Json)}
    (h : List.Forall₂ (Under (Reader.Reads value)) ms vs) (members : List (String × Json)) :
    Fills (placeMember value) members ms (layMembers vs members) := by
  induction h generalizing members with
  | nil => exact .done
  | @cons m n ms vs hm _ ih =>
    obtain ⟨key, f⟩ := m
    obtain ⟨_, v⟩ := n
    obtain ⟨rfl, hf⟩ := hm
    exact .member (placeMember_takes hf members) (ih _)

/-- An object of one text that is embedded is read as what the text holds. -/
theorem readObject_embedded {f : Fragment} {inner : List Char} {content : String} {v : Json}
    (h : MembersText [(embeddedKey, f)] inner) (hf : f.Spells content) (hv : embedded content = .ok v)
    (rest : List Char) : readObject value embedded (inner ++ rest) = .ok (v, rest) := by
  obtain ⟨start, before, after, s, hn, hkey, hb, ha, hmore, _⟩ := h.first rest
  have hcontent := hf.read "raw value" after (s ++ rest) ha (hmore.grammar rest).delimited
  have hclose : closeObject (s ++ rest) = .ok rest := by
    cases hmore with
    | @close blanks hb =>
      rw [List.append_assoc, List.singleton_append]
      exact closeObject_close hb rest
  rw [readObject_eq]
  simp only [hn, hkey, readColon_colon hb, if_true, hcontent, hv, hclose, bind, Except.bind, pure,
    Except.pure]

theorem readObject_members {ms : List (String × Fragment)} {vs : List (String × Json)}
    {inner : List Char} (h : MembersText ms inner)
    (hvs : List.Forall₂ (Under (Reader.Reads value)) ms vs) (hkey : ∀ m ∈ ms.head?, m.1 ≠ embeddedKey)
    (rest : List Char) :
    readObject value embedded (inner ++ rest) = .ok (.object (sortMembers vs), rest) := by
  cases hvs with
  | nil =>
    cases h with
    | @close blanks hb =>
      rw [readObject_eq, List.append_assoc, List.singleton_append]
      simp only [nextKey_close hb, closeObject_close hb, bind, Except.bind, pure, Except.pure]
      rfl
  | @cons m n ms vs hm hvs =>
    obtain ⟨key, f⟩ := m
    obtain ⟨_, v⟩ := n
    obtain ⟨rfl, hf⟩ := hm
    have hne : key ≠ embeddedKey := hkey (key, f) rfl
    obtain ⟨start, before, after, s, hn, hread, hb, ha, hmore, _⟩ := h.first rest
    have hv := hf after (s ++ rest) ha (hmore.grammar rest).delimited
    have hlen : ms.length < (s ++ rest).length + 1 := by
      have := hmore.length_le
      rw [List.length_append]
      omega
    obtain ⟨t, hmembers, hclose⟩ := hmore.read (fills_placed hvs [(key, v)]) rest hlen
    rw [readObject_eq]
    simp only [hn, hread, readColon_colon hb, if_neg hne, hv, hmembers, hclose, bind, Except.bind,
      pure, Except.pure]
    rfl

end Objects

section Values

variable {embedded : String → Except JsonError Json} {room : Nat} {s t : List Char} {v : Json}

theorem readWithin_blanks {before : List Char} (hb : Blanks before) {c : Char} (hc : isBlank c = false)
    (s : List Char) :
    readWithin embedded room (before ++ c :: s) = readWithin embedded room (c :: s) := by
  have hstart : skipBlanks (before ++ c :: s) = skipBlanks (c :: s) := by
    rw [skipBlanks_none hc, skipBlanks_prefix hb hc]
  unfold readWithin
  rw [hstart]

theorem readWithin_null (s : List Char) :
    readWithin embedded room ('n' :: 'u' :: 'l' :: 'l' :: s) = .ok (.null, s) := by
  unfold readWithin
  rfl

theorem readWithin_true (s : List Char) :
    readWithin embedded room ('t' :: 'r' :: 'u' :: 'e' :: s) = .ok (.boolean true, s) := by
  unfold readWithin
  rfl

theorem readWithin_false (s : List Char) :
    readWithin embedded room ('f' :: 'a' :: 'l' :: 's' :: 'e' :: s) = .ok (.boolean false, s) := by
  unfold readWithin
  rfl

theorem readWithin_negative {n : Number} (h : readNumber true s = .ok (n, t)) :
    readWithin embedded room ('-' :: s) = .ok (.number n, t) := by
  have hstart : skipBlanks ('-' :: s) = '-' :: s := rfl
  unfold readWithin
  simp [hstart, h, bind, Except.bind, pure, Except.pure]

theorem readWithin_digit {c : Char} {n : Number} (hc : c.isDigit = true)
    (h : readNumber false (c :: s) = .ok (n, t)) :
    readWithin embedded room (c :: s) = .ok (.number n, t) := by
  have hstart : skipBlanks (c :: s) = c :: s :=
    skipBlanks_none (Grammar.digit_not_blank hc) s
  have hne : c ≠ 'n' ∧ c ≠ 't' ∧ c ≠ 'f' ∧ c ≠ '-' := by
    refine ⟨?_, ?_, ?_, ?_⟩ <;> exact Grammar.digit_ne hc rfl
  unfold readWithin
  simp [hstart, hne, hc, h, bind, Except.bind, pure, Except.pure]

theorem readWithin_text {text : String} (h : readText s = .ok (text, t)) :
    readWithin embedded room ('"' :: s) = .ok (.text text, t) := by
  have hstart : skipBlanks ('"' :: s) = '"' :: s := rfl
  unfold readWithin
  simp [hstart, h, bind, Except.bind, pure, Except.pure]

theorem spelled_reads {f : Fragment} {content : String} (h : f.Spells content)
    (embedded : String → Except JsonError Json) (room : Nat) :
    Reader.Reads (readWithin embedded room) f (.text content) := by
  obtain ⟨s, hs, hv⟩ := h
  intro before rest hb _
  rw [hs, List.cons_append, readWithin_blanks hb rfl]
  exact readWithin_text (readText_spelling (hv.append rest))

theorem readWithin_list {items : List Json}
    (h : readList (readWithin embedded room) s = .ok (items, t)) :
    readWithin embedded (room + 1) ('[' :: s) = .ok (.list items, t) := by
  have hstart : skipBlanks ('[' :: s) = '[' :: s := rfl
  rw [readWithin, hstart]
  simp [h, bind, Except.bind, pure, Except.pure]

theorem readWithin_object (s : List Char) :
    readWithin embedded (room + 1) ('\x7b' :: s) = readObject (readWithin embedded room) embedded s := by
  have hstart : skipBlanks ('\x7b' :: s) = '\x7b' :: s := rfl
  rw [readWithin, hstart]
  simp

end Values

section Standing

/-- Whether a reader of embedded texts reads those below a length as another one does. -/
def Extends (length : Nat) (embedded embedded' : String → Except JsonError Json) : Prop :=
  ∀ content v, content.toList.length < length → embedded content = .ok v → embedded' content = .ok v

theorem Extends.mono {length shorter : Nat} {embedded embedded' : String → Except JsonError Json}
    (h : Extends length embedded embedded') (hl : shorter ≤ length) :
    Extends shorter embedded embedded' :=
  fun content v hc => h content v (Nat.lt_of_lt_of_le hc hl)

/-- Whether a fragment is read as a value wherever it stands, with as much room for containers at least,
and as much for texts that are embedded in it. -/
def Stands (embedded : String → Except JsonError Json) (room : Nat) (f : Fragment) (v : Json) : Prop :=
  ∀ embedded' room', room ≤ room' → Extends f.text.toList.length embedded embedded' →
    Reader.Reads (readWithin embedded' room') f v

variable {embedded : String → Except JsonError Json} {room : Nat} {s t : List Char} {v : Json}

theorem stands_of {c : Char} {used : List Char} (hs : skipBlanks s = c :: (used ++ t))
    (hv : Grammar.Value (c :: used) [])
    (hread : ∀ embedded' room', room ≤ room' → Extends (used.length + 1) embedded embedded' →
      ∀ rest, Grammar.Delimited rest →
        readWithin embedded' room' (c :: (used ++ rest)) = .ok (v, rest)) :
    ∃ f, Starts f s t ∧ Stands embedded room f v := by
  have hc := skipBlanks_head hs
  obtain ⟨blanks, hb, hsplit⟩ := skipBlanks_split s
  refine ⟨⟨String.ofList (c :: used)⟩, ⟨blanks, hb, ?_, whole_of_value hc hv⟩, ?_⟩
  · rw [hsplit, hs]
    simp
  · intro embedded' room' hroom hext before rest hbefore hr
    simp only [String.toList_ofList, List.length_cons] at hext
    simp only [String.toList_ofList, List.cons_append]
    rw [readWithin_blanks hbefore hc]
    exact hread embedded' room' hroom hext rest hr

theorem stands_word {c : Char} {word r : List Char} (hs : skipBlanks s = c :: r)
    (hw : readWord word r = .ok t) (hv : Grammar.Value (c :: word) [])
    (hread : ∀ embedded' room' rest, readWithin embedded' room' (c :: (word ++ rest)) = .ok (v, rest)) :
    ∃ f, Starts f s t ∧ Stands embedded room f v :=
  stands_of (by rw [hs, readWord_ok hw]) hv fun embedded' room' _ _ rest _ => hread embedded' room' rest

theorem stands_negative {r : List Char} {n : Number} (hs : skipBlanks s = '-' :: r)
    (hn : readNumber true r = .ok (n, t)) :
    ∃ f, Starts f s t ∧ Stands embedded room f (.number n) := by
  obtain ⟨used, rfl, hnumeral, htakes⟩ := readNumber_off hn
  exact stands_of hs (.negative hnumeral) fun _ _ _ _ rest hr => readWithin_negative (htakes rest hr)

theorem stands_digit {c : Char} {r : List Char} {n : Number} (hs : skipBlanks s = c :: r)
    (hc : c.isDigit = true) (hn : readNumber false (c :: r) = .ok (n, t)) :
    ∃ f, Starts f s t ∧ Stands embedded room f (.number n) := by
  obtain ⟨used, hused, hnumeral, htakes⟩ := readNumber_off hn
  obtain ⟨tail, rfl⟩ : ∃ tail, used = c :: tail := by
    cases hnumeral <;> exact ⟨_, congrArg (· :: _) (List.cons.inj hused).1.symm⟩
  refine stands_of (by rw [hs, hused]; rfl) (.number hnumeral) fun _ _ _ _ rest hr => ?_
  exact readWithin_digit hc (htakes rest hr)

theorem stands_text {r : List Char} {text : String} (hs : skipBlanks s = '"' :: r)
    (htext : readText r = .ok (text, t)) :
    ∃ f, Starts f s t ∧ Stands embedded room f (.text text) := by
  obtain ⟨used, rfl, hspells⟩ := readText_spells htext
  refine stands_of hs (.text hspells.literal) fun _ _ _ _ rest _ => ?_
  exact readWithin_text (readText_spelling (hspells.append rest))

theorem stands_list {r : List Char} {items : List Json} (hs : skipBlanks s = '[' :: r)
    (hinner : ∀ {s t : List Char} {v : Json}, readWithin embedded room s = .ok (v, t) →
      ∃ f, Starts f s t ∧ Stands embedded room f v)
    (h : readList (readWithin embedded room) r = .ok (items, t)) :
    ∃ f, Starts f s t ∧ Stands embedded (room + 1) f (.list items) := by
  obtain ⟨fs, inner, hstand, hitems, rfl⟩ := readList_text (Stands embedded room) hinner h
  have hgrammar := hitems.grammar []
  rw [List.append_nil] at hgrammar
  refine stands_of hs (.list hgrammar) fun embedded' room' hroom hext rest hr => ?_
  obtain ⟨room', rfl⟩ := Nat.exists_eq_succ_of_ne_zero (Nat.ne_of_gt (Nat.zero_lt_of_lt hroom))
  have hreads : List.Forall₂ (Reader.Reads (readWithin embedded' room')) fs items := by
    have hlen := fun f hf => (hitems.piece f hf).length_le
    refine ((List.forall₂_and_left _ _).mpr ⟨hlen, hstand⟩).imp fun f v hf => ?_
    exact hf.2 embedded' room' (Nat.le_of_succ_le_succ hroom) (hext.mono (Nat.le_succ_of_le hf.1))
  exact readWithin_list (hitems.read hreads rest)

theorem stands_object {r : List Char} (hs : skipBlanks s = '\x7b' :: r)
    (hinner : ∀ {s t : List Char} {v : Json}, readWithin embedded room s = .ok (v, t) →
      ∃ f, Starts f s t ∧ Stands embedded room f v)
    (h : readObject (readWithin embedded room) embedded r = .ok (v, t)) :
    ∃ f, Starts f s t ∧ Stands embedded (room + 1) f v := by
  obtain ⟨ms, inner, hms, rfl, hvalue⟩ := readObject_text hinner h
  have hgrammar := hms.grammar []
  rw [List.append_nil] at hgrammar
  refine stands_of hs (.object hgrammar) fun embedded' room' hroom hext rest hr => ?_
  obtain ⟨room', rfl⟩ := Nat.exists_eq_succ_of_ne_zero (Nat.ne_of_gt (Nat.zero_lt_of_lt hroom))
  have hlen := fun m hm => (hms.piece m hm).length_le
  rw [readWithin_object]
  obtain ⟨f, content, rfl, hspells, hv⟩ | ⟨vs, hstand, rfl, hkey⟩ := hvalue
  · refine readObject_embedded hms hspells (hext content v ?_ hv) rest
    exact Nat.lt_of_lt_of_le hspells.length_lt
      (Nat.le_succ_of_le (hlen _ (List.mem_singleton.mpr rfl)))
  · refine readObject_members hms ?_ hkey rest
    refine ((List.forall₂_and_left _ _).mpr ⟨hlen, hstand⟩).imp fun m n hm => ⟨hm.2.1, ?_⟩
    exact hm.2.2 embedded' room' (Nat.le_of_succ_le_succ hroom) (hext.mono (Nat.le_succ_of_le hm.1))

theorem readWithin_step_stands
    (hinner : ∀ inner, room = inner + 1 → ∀ {s t : List Char} {v : Json},
      readWithin embedded inner s = .ok (v, t) → ∃ f, Starts f s t ∧ Stands embedded inner f v)
    (h : readWithin embedded room s = .ok (v, t)) :
    ∃ f, Starts f s t ∧ Stands embedded room f v := by
  unfold readWithin at h
  split at h
  next => cases h
  next c r hs =>
    split at h
    next hc =>
      subst hc
      obtain ⟨_, hw, h⟩ := bind_ok h
      cases h
      exact stands_word hs hw .null fun _ _ => readWithin_null
    split at h
    next hc =>
      subst hc
      obtain ⟨_, hw, h⟩ := bind_ok h
      cases h
      exact stands_word hs hw .true fun _ _ => readWithin_true
    split at h
    next hc =>
      subst hc
      obtain ⟨_, hw, h⟩ := bind_ok h
      cases h
      exact stands_word hs hw .false fun _ _ => readWithin_false
    split at h
    next hc =>
      subst hc
      obtain ⟨_, hn, h⟩ := bind_ok h
      cases h
      exact stands_negative hs hn
    split at h
    next hc =>
      obtain ⟨_, hn, h⟩ := bind_ok h
      cases h
      exact stands_digit hs hc hn
    split at h
    next hc =>
      subst hc
      obtain ⟨_, htext, h⟩ := bind_ok h
      cases h
      exact stands_text hs htext
    split at h
    next hc =>
      subst hc
      split at h
      next => cases h
      next room =>
        obtain ⟨⟨items, _⟩, hitems, h⟩ := bind_ok h
        cases h
        exact stands_list hs (hinner room rfl) hitems
    split at h
    next hc =>
      subst hc
      split at h
      next => cases h
      next room => exact stands_object hs (hinner room rfl) h
    next => cases h

/-- What is read as a value is a fragment, from which the value is read wherever it stands. -/
theorem readWithin_stands (h : readWithin embedded room s = .ok (v, t)) :
    ∃ f, Starts f s t ∧ Stands embedded room f v := by
  induction room generalizing s t v with
  | zero => exact readWithin_step_stands (fun _ he => by cases he) h
  | succ room ih => exact readWithin_step_stands (fun _ he => by cases he; exact ih) h

end Standing

section Levels

/-- A text is read as one value on any number of levels that is enough for its length. -/
theorem parseEmbedded_enough {levels enough : Nat} {content : String} {v : Json}
    (h : parseEmbedded levels content = .ok v) (he : content.toList.length < enough) :
    parseEmbedded enough content = .ok v := by
  induction enough generalizing levels content v with
  | zero => cases he
  | succ enough ih =>
    cases levels with
    | zero => cases h
    | succ levels =>
      obtain ⟨rest, hread, hrest⟩ := readAll_ok h
      obtain ⟨f, hf, hstands⟩ := readWithin_stands hread
      have hlen := hf.length_le
      obtain ⟨blanks, hb, htext, hw⟩ := hf
      have hext : Extends f.text.toList.length (parseEmbedded levels) (parseEmbedded enough) :=
        fun content' w hc hw => ih hw (by omega)
      refine readAll_of ?_ hrest
      rw [htext, List.append_assoc]
      exact hstands _ _ (Nat.le_refl _) hext blanks rest hb (Grammar.delimited_blanks hrest)

theorem Stands.parse {levels room : Nat} {f : Fragment} {v : Json}
    (h : Stands (parseEmbedded levels) room f v) (hr : room ≤ nestingLimit) :
    Json.parse f.text = .ok v := by
  have hext : Extends f.text.toList.length (parseEmbedded levels) (parseEmbedded f.text.length) :=
    fun content w hc hw => parseEmbedded_enough hw (by rwa [String.length_toList] at hc)
  exact (h _ _ hr hext).alone

end Levels

end Json

end RoomCast
