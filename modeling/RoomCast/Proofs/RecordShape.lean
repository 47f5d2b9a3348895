import RoomCast.JsonRecord
import RoomCast.Proofs.JsonGrammar

namespace RoomCast

namespace Grammar

/-- The number that hexadecimal digits stand for behind others with the value `n`. -/
def hexValue : Nat → List Char → Option Nat
  | n, [] => some n
  | n, c :: digits => (hexDigit? c).bind fun d => hexValue (n * 16 + d) digits

def HexUnit (digits : List Char) (n : Nat) : Prop := digits.length = 4 ∧ hexValue 0 digits = some n

/-- A string literal behind its opening quote, with the characters that it spells. -/
inductive Spelling : List Char → List Char → List Char → Prop where
  | close {t : List Char} : Spelling [] ('"' :: t) t
  | plain {v : List Char} {c : Char} {s t : List Char} : c ≠ '"' → c ≠ '\\' → 0x20 ≤ c.toNat →
      Spelling v s t → Spelling (c :: v) (c :: s) t
  | short {v : List Char} {c d : Char} {s t : List Char} : shortEscape? c = some d →
      Spelling v s t → Spelling (d :: v) ('\\' :: c :: s) t
  | unit {v digits s t : List Char} {n : Nat} : HexUnit digits n → isLowSurrogate n = false →
      isHighSurrogate n = false → Spelling v s t →
      Spelling (Char.ofNat n :: v) ('\\' :: 'u' :: (digits ++ s)) t
  | pair {v high low s t : List Char} {m n : Nat} : HexUnit high m → isHighSurrogate m = true →
      HexUnit low n → isLowSurrogate n = true → Spelling v s t →
      Spelling (surrogateChar m n :: v) ('\\' :: 'u' :: (high ++ '\\' :: 'u' :: (low ++ s))) t

theorem hexValue_digits {n m : Nat} {digits : List Char} (h : hexValue n digits = some m) :
    ∀ d ∈ digits, (hexDigit? d).isSome = true := by
  induction digits generalizing n with
  | nil => exact fun d hd => absurd hd List.not_mem_nil
  | cons c digits ih =>
    obtain ⟨d, hd, h⟩ := Option.bind_eq_some_iff.mp h
    exact List.forall_mem_cons.mpr ⟨by rw [hd]; rfl, ih h⟩

theorem Spelling.literal {v s t : List Char} (h : Spelling v s t) : Literal s t := by
  induction h with
  | close => exact .close
  | plain hq he hx _ ih => exact .plain hq he hx ih
  | short hd _ ih => exact .short (by rw [hd]; rfl) ih
  | unit hu _ _ _ ih => exact .unit hu.1 (hexValue_digits hu.2) ih
  | pair hm _ hn _ _ ih =>
    exact .unit hm.1 (hexValue_digits hm.2) (.unit hn.1 (hexValue_digits hn.2) ih)

theorem Spelling.used {v s t : List Char} (h : Spelling v s t) :
    ∃ used, s = used ++ t ∧ Spelling v used [] := by
  induction h with
  | close => exact ⟨['"'], rfl, .close⟩
  | @plain v c s t hq he hx _ ih =>
    obtain ⟨used, rfl, hu⟩ := ih
    exact ⟨c :: used, rfl, .plain hq he hx hu⟩
  | @short v c d s t hd _ ih =>
    obtain ⟨used, rfl, hu⟩ := ih
    exact ⟨'\\' :: c :: used, rfl, .short hd hu⟩
  | @unit v digits s t n hn hl hh _ ih =>
    obtain ⟨used, rfl, hu⟩ := ih
    exact ⟨'\\' :: 'u' :: (digits ++ used), by simp, .unit hn hl hh hu⟩
  | @pair v high low s t m n hm hh hn hl _ ih =>
    obtain ⟨used, rfl, hu⟩ := ih
    exact ⟨'\\' :: 'u' :: (high ++ '\\' :: 'u' :: (low ++ used)), by simp, .pair hm hh hn hl hu⟩

def BehindHigh (high : Nat) (v s t : List Char) : Prop :=
  ∃ digits r n w, s = '\\' :: 'u' :: (digits ++ r) ∧ HexUnit digits n ∧ isLowSurrogate n = true ∧
    v = surrogateChar high n :: w ∧ Spelling w r t

/-- What has to follow `\u` and its four digits, with the high surrogate before them. -/
def BehindUnit (n : Nat) : Option Nat → List Char → List Char → List Char → Prop
  | some high, v, s, t => isLowSurrogate n = true ∧ ∃ w, v = surrogateChar high n :: w ∧ Spelling w s t
  | none, v, s, t =>
    (isLowSurrogate n = false ∧ isHighSurrogate n = false ∧
      ∃ w, v = Char.ofNat n :: w ∧ Spelling w s t) ∨
    (isHighSurrogate n = true ∧ BehindHigh n v s t)

/-- What is left of a string literal that spells `v` from a spot on. -/
def Spells : LiteralSpot → List Char → List Char → List Char → Prop
  | .plain, v, s, t => Spelling v s t
  | .escape, v, s, t => Spelling v ('\\' :: s) t
  | .hex missing value high, v, s, t => 0 < missing → ∃ digits r n, s = digits ++ r ∧
      digits.length = missing ∧ hexValue value digits = some n ∧ BehindUnit n high v r t
  | .paired high, v, s, t => BehindHigh high v s t
  | .pairedEscape high, v, s, t => BehindHigh high v ('\\' :: s) t

theorem ofUnit_spells {n : Nat} {high : Option Nat} {emitted v s t : List Char} {spot : LiteralSpot}
    (hm : LiteralMove.ofUnit n high = .stay emitted spot) (hs : Spells spot v s t) :
    BehindUnit n high (emitted ++ v) s t := by
  cases high with
  | some h =>
    simp only [LiteralMove.ofUnit] at hm
    split at hm
    next hl =>
      cases hm
      exact ⟨hl, v, rfl, hs⟩
    next => cases hm
  | none =>
    simp only [LiteralMove.ofUnit] at hm
    split at hm
    next => cases hm
    next hl =>
    split at hm
    next hh =>
      cases hm
      exact .inr ⟨hh, hs⟩
    next hh =>
      cases hm
      exact .inl ⟨by simpa using hl, by simpa using hh, v, rfl, hs⟩

section Moves

variable {spot' : LiteralSpot} {c : Char} {emitted v r t : List Char}

theorem plain_spells (hm : LiteralSpot.move .plain c r = .stay emitted spot') (hs : Spells spot' v r t) :
    Spells .plain (emitted ++ v) (c :: r) t := by
  simp only [LiteralSpot.move] at hm
  split at hm
  next => cases hm
  next hq =>
  split at hm
  next he =>
    cases hm
    exact he ▸ hs
  next he =>
  split at hm
  next => cases hm
  next hx =>
    cases hm
    exact .plain hq he (Nat.le_of_not_lt hx) hs

theorem escape_spells (hm : LiteralSpot.move .escape c r = .stay emitted spot') (hs : Spells spot' v r t) :
    Spells .escape (emitted ++ v) (c :: r) t := by
  simp only [LiteralSpot.move] at hm
  split at hm
  next hu =>
    cases hm
    obtain ⟨digits, s, n, rfl, hlen, hn, ⟨hl, hh, w, rfl, hw⟩ | ⟨hh, hb⟩⟩ := hs (by decide)
    · exact hu ▸ .unit ⟨hlen, hn⟩ hl hh hw
    · obtain ⟨low, s, m, w, rfl, hlow, hl, rfl, hw⟩ := hb
      exact hu ▸ .pair ⟨hlen, hn⟩ hh hlow hl hw
  next =>
  split at hm
  next d hd =>
    cases hm
    exact .short hd hs
  next => cases hm

theorem hex_spells {missing value : Nat} {high : Option Nat}
    (hm : LiteralSpot.move (.hex missing value high) c r = .stay emitted spot')
    (hs : Spells spot' v r t) : Spells (.hex missing value high) (emitted ++ v) (c :: r) t := by
  simp only [LiteralSpot.move] at hm
  split at hm
  next d hd =>
    by_cases hone : missing = 1
    · rw [if_pos hone] at hm
      exact fun _ => ⟨[c], r, value * 16 + d, rfl, hone.symm, by simp [hexValue, hd],
        ofUnit_spells hm hs⟩
    · rw [if_neg hone] at hm
      cases hm
      intro hpos
      obtain ⟨digits, s, n, rfl, hlen, hn, hb⟩ := hs (by omega)
      refine ⟨c :: digits, s, n, rfl, by rw [List.length_cons]; omega, ?_, hb⟩
      simpa [hexValue, hd] using hn
  next => cases hm

/-- One move takes off the first character of what is left, and emits the head of what is spelled. -/
theorem move_spells {spot : LiteralSpot} (hm : spot.move c r = .stay emitted spot')
    (hs : Spells spot' v r t) : Spells spot (emitted ++ v) (c :: r) t := by
  cases spot with
  | plain => exact plain_spells hm hs
  | escape => exact escape_spells hm hs
  | hex missing value high => exact hex_spells hm hs
  | paired high =>
    simp only [LiteralSpot.move] at hm
    split at hm
    next he =>
      cases hm
      exact he ▸ hs
    next => cases hm
  | pairedEscape high =>
    simp only [LiteralSpot.move] at hm
    split at hm
    next hu =>
      cases hm
      obtain ⟨digits, s, n, rfl, hlen, hn, hl, w, rfl, hw⟩ := hs (by decide)
      exact ⟨digits, s, n, w, by rw [hu], ⟨hlen, hn⟩, hl, rfl, hw⟩
    next => cases hm

end Moves

theorem move_finish {spot : LiteralSpot} {c : Char} {r : List Char}
    (hm : spot.move c r = .finish) : spot = .plain ∧ c = '"' := by
  cases spot with
  | plain =>
    simp only [LiteralSpot.move] at hm
    split at hm
    next hq => exact ⟨rfl, hq⟩
    next => repeat' split at hm
            all_goals cases hm
  | hex missing value high =>
    simp only [LiteralSpot.move, LiteralMove.ofUnit] at hm
    repeat' split at hm
    all_goals cases hm
  | escape | paired high | pairedEscape high =>
    simp only [LiteralSpot.move] at hm
    repeat' split at hm
    all_goals cases hm

theorem readLiteral_spells {spot : LiteralSpot} {s v t : List Char}
    (h : readLiteral spot s = .ok (v, t)) : Spells spot v s t := by
  induction s generalizing spot v with
  | nil => cases h
  | cons c r ih =>
    unfold readLiteral at h
    split at h
    next hm =>
      cases h
      obtain ⟨rfl, rfl⟩ := move_finish hm
      exact .close
    next => cases h
    next emitted spot' hm =>
      obtain ⟨⟨_, _⟩, hr, h⟩ := bind_ok h
      cases h
      exact move_spells hm (ih hr)

theorem Literal.scan {brackets : List Bracket} {isKey : Bool} {s t : List Char} (h : Literal s t) :
    RoomCast.scan brackets (.text isKey) s = RoomCast.scan brackets (.behindText isKey) t := by
  induction h with
  | close => simp [RoomCast.scan, ScanSpot.move]
  | plain hq he hx _ ih => simpa [RoomCast.scan, ScanSpot.move, hq, he, Nat.not_lt.mpr hx] using ih
  | @short c s t hc _ ih =>
    have hu : c ≠ 'u' := by
      rintro rfl
      cases hc
    simpa [RoomCast.scan, ScanSpot.move, hu, hc] using ih
  | @unit digits s t hlen hhex _ ih =>
    obtain ⟨a, digits, rfl⟩ := List.exists_cons_of_length_eq_add_one hlen
    obtain ⟨b, digits, rfl⟩ := List.exists_cons_of_length_eq_add_one (Nat.succ.inj hlen)
    obtain ⟨c, digits, rfl⟩ :=
      List.exists_cons_of_length_eq_add_one (Nat.succ.inj (Nat.succ.inj hlen))
    obtain ⟨d, digits, rfl⟩ :=
      List.exists_cons_of_length_eq_add_one (Nat.succ.inj (Nat.succ.inj (Nat.succ.inj hlen)))
    have hnil : digits = [] := List.eq_nil_of_length_eq_zero (by simpa using hlen)
    subst hnil
    simp only [List.mem_cons, forall_eq_or_imp, List.not_mem_nil, false_imp_iff, implies_true,
      and_true] at hhex
    simpa [RoomCast.scan, ScanSpot.move, hhex] using ih

end Grammar

open Grammar (Spelling)

def Fragment.Spells (f : Fragment) (v : String) : Prop :=
  ∃ s, f.text.toList = '"' :: s ∧ Spelling v.toList s []

theorem Fragment.Spells.whole {f : Fragment} {v : String} (h : f.Spells v) : f.Whole := by
  obtain ⟨s, hs, hv⟩ := h
  have hskip : skipValue ('"' :: s) = .ok [] := hv.literal.scan
  have hstart : skipBlanks ('"' :: s) = '"' :: s := rfl
  simp only [Fragment.Whole, Fragment.ofString, Reader.readAll, Fragment.read, hs, hstart, hskip,
    bind, Except.bind, pure, Except.pure, finishText, skipBlanks]
  simp [← hs]

theorem readText_spells {s t : List Char} {v : String} (h : readText s = .ok (v, t)) :
    ∃ used, s = used ++ t ∧ Spelling v.toList used [] := by
  obtain ⟨⟨content, _⟩, hr, h⟩ := bind_ok h
  cases h
  have hspells : Spelling content s t := Grammar.readLiteral_spells hr
  simpa using hspells.used

theorem readTextValue_spells {expected : String} {s t : List Char} {v : String}
    (h : readTextValue expected s = .ok (v, t)) : ∃ f : Fragment, Starts f s t ∧ f.Spells v := by
  unfold readTextValue at h
  split at h
  next => cases h
  next c r hs =>
    split at h
    next hq =>
      obtain ⟨used, hr, hv⟩ := readText_spells h
      obtain ⟨blanks, hb, hsplit⟩ := skipBlanks_split s
      have hf : (Fragment.mk (String.ofList ('"' :: used))).Spells v := ⟨used, by simp, hv⟩
      exact ⟨_, ⟨blanks, hb, by rw [hsplit, hs, hq, hr]; simp, hf.whole⟩, hf⟩
    next => cases h

theorem skipValue_blanks (s : List Char) : skipValue (skipBlanks s) = skipValue s := by
  induction s with
  | nil => rfl
  | cons c r ih =>
    by_cases hc : isBlank c
    · have hstep : skipValue (c :: r) = skipValue r := by
        simp [skipValue, scan, ScanSpot.move, ScanMove.atValue, hc]
      rw [skipBlanks, if_pos hc, ih, hstep]
    · rw [skipBlanks, if_neg hc]

theorem skipValue_starts {s t : List Char} (h : skipValue s = .ok t) :
    ∃ f : Fragment, Starts f s t := by
  have hread : Fragment.read s =
      .ok (⟨String.ofList ((skipBlanks s).take ((skipBlanks s).length - t.length))⟩, t) := by
    rw [Fragment.read, skipValue_blanks, h]
    rfl
  exact ⟨_, read_verbatim hread⟩

/-- A member of an object: its key, a colon and its value. -/
inductive MemberText : String → Fragment → List Char → Prop where
  | mk {key : String} {f : Fragment} {s before after : List Char} : Spelling key.toList s [] →
      Blanks before → Blanks after → f.Whole →
      MemberText key f ('"' :: s ++ before ++ ':' :: after ++ f.text.toList)

inductive MoreMembers : List (String × Fragment) → List Char → Prop where
  | close {blanks : List Char} : Blanks blanks → MoreMembers [] (blanks ++ ['\x7d'])
  | member {before after m s : List Char} {key : String} {f : Fragment}
      {ms : List (String × Fragment)} : Blanks before → Blanks after → MemberText key f m →
      MoreMembers ms s → MoreMembers ((key, f) :: ms) (before ++ ',' :: after ++ m ++ s)

inductive MembersText : List (String × Fragment) → List Char → Prop where
  | close {blanks : List Char} : Blanks blanks → MembersText [] (blanks ++ ['\x7d'])
  | member {before m s : List Char} {key : String} {f : Fragment} {ms : List (String × Fragment)} :
      Blanks before → MemberText key f m → MoreMembers ms s →
      MembersText ((key, f) :: ms) (before ++ m ++ s)

/-- A text that is an object of some members, with blanks between the pieces. -/
def ObjectText (members : List (String × Fragment)) (text : String) : Prop :=
  ∃ before inner after, Blanks before ∧ Blanks after ∧ MembersText members inner ∧
    text.toList = before ++ '\x7b' :: inner ++ after

section Documents

theorem MoreItems.grammar {fs : List Fragment} {s : List Char} (h : MoreItems fs s) (t : List Char) :
    Grammar.MoreItems (s ++ t) t := by
  induction h with
  | close hb =>
    rw [List.append_assoc]
    exact Grammar.blanks_append Grammar.MoreItems .blank hb .close
  | @item before after s f fs hb ha hw _ ih =>
    have hshift : before ++ ',' :: after ++ f.text.toList ++ s ++ t =
        before ++ ',' :: (after ++ (f.text.toList ++ (s ++ t))) := by simp
    rw [hshift]
    exact Grammar.blanks_append Grammar.MoreItems .blank hb
      (.item (Grammar.blanks_append Grammar.Value .blank ha (hw.value.append _)) ih)

theorem ItemsText.grammar {fs : List Fragment} {s : List Char} (h : ItemsText fs s)
    (t : List Char) : Grammar.Items (s ++ t) t := by
  cases h with
  | close hb =>
    rw [List.append_assoc]
    exact Grammar.blanks_append Grammar.Items .blank hb .close
  | @item before s f fs hb hw hmore =>
    rw [List.append_assoc, List.append_assoc]
    exact Grammar.blanks_append Grammar.Items .blank hb (.item (hw.value.append _) (hmore.grammar t))

theorem MemberText.grammar {key : String} {f : Fragment} {m : List Char} (h : MemberText key f m)
    (t : List Char) : Grammar.Member (m ++ t) t := by
  cases h with
  | @mk s before after hs hb ha hw =>
    have hshift : '"' :: s ++ before ++ ':' :: after ++ f.text.toList ++ t =
        '"' :: (s ++ (before ++ ':' :: (after ++ (f.text.toList ++ t)))) := by simp
    rw [hshift]
    have hpair := Grammar.blanks_append Grammar.Pair .blank hb
      (.colon (Grammar.blanks_append Grammar.Value .blank ha (hw.value.append t)))
    exact .key (hs.literal.append _) hpair

theorem MoreMembers.grammar {ms : List (String × Fragment)} {s : List Char} (h : MoreMembers ms s)
    (t : List Char) : Grammar.MoreMembers (s ++ t) t := by
  induction h with
  | close hb =>
    rw [List.append_assoc]
    exact Grammar.blanks_append Grammar.MoreMembers .blank hb .close
  | @member before after m s key f ms hb ha hm _ ih =>
    have hshift : before ++ ',' :: after ++ m ++ s ++ t =
        before ++ ',' :: (after ++ (m ++ (s ++ t))) := by simp
    rw [hshift]
    exact Grammar.blanks_append Grammar.MoreMembers .blank hb
      (.member (Grammar.blanks_append Grammar.Member .blank ha (hm.grammar _)) ih)

theorem MembersText.grammar {ms : List (String × Fragment)} {s : List Char} (h : MembersText ms s)
    (t : List Char) : Grammar.Members (s ++ t) t := by
  cases h with
  | close hb =>
    rw [List.append_assoc]
    exact Grammar.blanks_append Grammar.Members .blank hb .close
  | @member before m s key f ms hb hm hmore =>
    rw [List.append_assoc, List.append_assoc]
    exact Grammar.blanks_append Grammar.Members .blank hb (.member (hm.grammar _) (hmore.grammar t))

/-- A text that is one value, with blanks around it. -/
def Document (text : String) : Prop := ∃ blanks, Blanks blanks ∧ Grammar.Value text.toList blanks

theorem ListText.document {fs : List Fragment} {text : String} (h : ListText fs text) :
    Document text := by
  obtain ⟨before, items, after, hb, ha, hitems, htext⟩ := h
  refine ⟨after, ha, ?_⟩
  rw [htext, List.append_assoc]
  exact Grammar.blanks_append Grammar.Value .blank hb (.list (hitems.grammar after))

theorem ObjectText.document {ms : List (String × Fragment)} {text : String}
    (h : ObjectText ms text) : Document text := by
  obtain ⟨before, inner, after, hb, ha, hms, htext⟩ := h
  refine ⟨after, ha, ?_⟩
  rw [htext, List.append_assoc]
  exact Grammar.blanks_append Grammar.Value .blank hb (.object (hms.grammar after))

theorem skipBlanks_none {c : Char} (hc : isBlank c = false) (s : List Char) :
    skipBlanks (c :: s) = c :: s := by
  rw [skipBlanks, if_neg (by simp [hc])]

theorem skipBlanks_prefix {blanks : List Char} (hb : Blanks blanks) {c : Char} (hc : isBlank c = false)
    (s : List Char) : skipBlanks (blanks ++ c :: s) = c :: s := by
  induction blanks with
  | nil => exact skipBlanks_none hc s
  | cons b blanks ih =>
    obtain ⟨hblank, hb⟩ := List.forall_mem_cons.mp hb
    rw [List.cons_append, skipBlanks, if_pos hblank, ih hb]

theorem ObjectText.start {ms : List (String × Fragment)} {text : String} (h : ObjectText ms text) :
    ∃ s, skipBlanks text.toList = '\x7b' :: s := by
  obtain ⟨before, inner, after, hb, _, _, htext⟩ := h
  rw [htext, List.append_assoc]
  exact ⟨_, skipBlanks_prefix hb rfl _⟩

/-- No text is both an object and a list. -/
theorem ListText.not_object {fs : List Fragment} {text : String} (h : ListText fs text)
    {ms : List (String × Fragment)} : ¬ObjectText ms text := by
  intro hobject
  obtain ⟨s, hs⟩ := hobject.start
  obtain ⟨before, items, after, hb, _, _, htext⟩ := h
  rw [htext, List.append_assoc, List.cons_append, skipBlanks_prefix hb rfl] at hs
  cases hs

end Documents

theorem nextKey_first {s t : List Char} (h : nextKey true s = .ok (some t)) :
    skipBlanks s = '"' :: t := by
  unfold nextKey at h
  split at h
  next => cases h
  next c r hs =>
    split at h
    next => cases h
    next =>
      rw [if_pos rfl] at h
      split at h
      next hq =>
        cases h
        rw [hs, hq]
      next => cases h

theorem nextKey_more {s t : List Char} (h : nextKey false s = .ok (some t)) :
    ∃ r, skipBlanks s = ',' :: r ∧ skipBlanks r = '"' :: t := by
  unfold nextKey at h
  split at h
  next => cases h
  next c r hs =>
    split at h
    next => cases h
    next =>
      rw [if_neg Bool.false_ne_true] at h
      split at h
      next hcomma =>
        split at h
        next => cases h
        next d t' hr =>
          split at h
          next hq =>
            cases h
            exact ⟨r, by rw [hs, hcomma], by rw [hr, hq]⟩
          next =>
            split at h
            all_goals cases h
      next => cases h

theorem closeObject_ok {s rest : List Char} (h : closeObject s = .ok rest) :
    skipBlanks s = '\x7d' :: rest := by
  unfold closeObject at h
  split at h
  next => cases h
  next c r hs =>
    split at h
    next hc =>
      cases h
      rw [hs, hc]
    next =>
      split at h
      all_goals cases h

theorem readColon_ok {s t : List Char} (h : readColon s = .ok t) : skipBlanks s = ':' :: t := by
  unfold readColon at h
  split at h
  next => cases h
  next c r hs =>
    split at h
    next hc =>
      cases h
      rw [hs, hc]
    next => cases h

theorem readMembers_cases {σ : Type} {member : String → σ → Reader σ} {rounds : Nat} {first : Bool}
    {s t : List Char} {state state' : σ}
    (h : readMembers member (rounds + 1) first state s = .ok (state', t)) :
    (state' = state ∧ t = s) ∨
    ∃ start key behind next later, nextKey first s = .ok (some start) ∧
      readText start = .ok (key, behind) ∧ member key state behind = .ok (next, later) ∧
      readMembers member rounds false next later = .ok (state', t) := by
  obtain ⟨found, hn, h⟩ := bind_ok h
  cases found with
  | none =>
    cases h
    exact .inl ⟨rfl, rfl⟩
  | some start =>
    obtain ⟨⟨key, behind⟩, hk, h⟩ := bind_ok h
    obtain ⟨⟨next, later⟩, hm, h⟩ := bind_ok h
    exact .inr ⟨start, key, behind, next, later, hn, hk, hm, h⟩

theorem closed_text {s rest : List Char} (h : closeObject s = .ok rest) :
    ∃ blanks, Blanks blanks ∧ s = blanks ++ ['\x7d'] ++ rest := by
  obtain ⟨blanks, hb, hs⟩ := skipBlanks_split s
  exact ⟨blanks, hb, by rw [List.append_assoc, List.singleton_append, ← closeObject_ok h]; exact hs⟩

section Members

variable {σ : Type} {member : String → σ → Reader σ}
  (Makes : σ → List (String × Fragment) → σ → Prop) (hdone : ∀ {state : σ}, Makes state [] state)
  (hmember : ∀ {key : String} {state next : σ} {s t : List Char},
    member key state s = .ok (next, t) → ∃ blanks r f, Blanks blanks ∧ s = blanks ++ ':' :: r ∧
      Starts f r t ∧ ∀ {ms last}, Makes next ms last → Makes state ((key, f) :: ms) last)

include hmember in
theorem member_text {key : String} {start behind later : List Char} {state next : σ}
    (hk : readText start = .ok (key, behind)) (hm : member key state behind = .ok (next, later)) :
    ∃ f m, MemberText key f m ∧ '"' :: start = m ++ later ∧
      ∀ {ms last}, Makes next ms last → Makes state ((key, f) :: ms) last := by
  obtain ⟨used, rfl, hspells⟩ := readText_spells hk
  obtain ⟨before, r, f, hb, rfl, ⟨after, ha, rfl, hw⟩, hmakes⟩ := hmember hm
  exact ⟨f, _, .mk hspells hb ha hw, by simp, hmakes⟩

include hdone hmember

theorem moreMembers_text {rounds : Nat} {s t rest : List Char} {state last : σ}
    (h : readMembers member rounds false state s = .ok (last, t)) (hc : closeObject t = .ok rest) :
    ∃ ms inner, MoreMembers ms inner ∧ s = inner ++ rest ∧ Makes state ms last := by
  induction rounds generalizing s state with
  | zero => cases h
  | succ rounds ih =>
    obtain ⟨rfl, rfl⟩ | ⟨start, key, behind, next, later, hn, hk, hm, hmore⟩ := readMembers_cases h
    · obtain ⟨blanks, hb, hs⟩ := closed_text hc
      exact ⟨[], _, .close hb, hs, hdone⟩
    · obtain ⟨r, hcomma, hquote⟩ := nextKey_more hn
      obtain ⟨before, hb, hs⟩ := skipBlanks_split s
      obtain ⟨after, ha, hr⟩ := skipBlanks_split r
      obtain ⟨f, m, htext, hstart, hmakes⟩ := member_text Makes hmember hk hm
      obtain ⟨ms, inner, hms, rfl, hlater⟩ := ih hmore
      refine ⟨_, _, .member hb ha htext hms, ?_, hmakes hlater⟩
      rw [hs, hcomma, hr, hquote, hstart]
      simp

theorem membersText_text {rounds : Nat} {s t rest : List Char} {state last : σ}
    (h : readMembers member rounds true state s = .ok (last, t)) (hc : closeObject t = .ok rest) :
    ∃ ms inner, MembersText ms inner ∧ s = inner ++ rest ∧ Makes state ms last := by
  cases rounds with
  | zero => cases h
  | succ rounds =>
    obtain ⟨rfl, rfl⟩ | ⟨start, key, behind, next, later, hn, hk, hm, hmore⟩ := readMembers_cases h
    · obtain ⟨blanks, hb, hs⟩ := closed_text hc
      exact ⟨[], _, .close hb, hs, hdone⟩
    · obtain ⟨before, hb, hs⟩ := skipBlanks_split s
      obtain ⟨f, m, htext, hstart, hmakes⟩ := member_text Makes hmember hk hm
      obtain ⟨ms, inner, hms, rfl, hlater⟩ := moreMembers_text Makes hdone hmember hmore hc
      refine ⟨_, _, .member hb htext hms, ?_, hmakes hlater⟩
      rw [hs, nextKey_first hn, hstart]
      simp

end Members

section Records

variable {σ α : Type} (Sets : String → σ → Fragment → σ → Prop)

/-- Whether a field takes one value from a text and changes the draft as `Sets` says. -/
def TextField.Takes (f : TextField σ) : Prop :=
  ∀ {draft draft' : σ} {s t : List Char}, f.read draft s = .ok (draft', t) →
    ∃ g, Starts g s t ∧ Sets f.name draft g draft'

/-- Members fill the fields that they name, none of them twice, and others are passed over. -/
inductive Filled (fields : List (TextField σ)) :
    List String × σ → List (String × Fragment) → List String × σ → Prop where
  | done {state : List String × σ} : Filled fields state [] state
  | known {key : String} {names : List String} {draft draft' : σ} {g : Fragment}
      {ms : List (String × Fragment)} {state : List String × σ} : key ∈ fields.map (·.name) →
      key ∉ names → Sets key draft g draft' → Filled fields (key :: names, draft') ms state →
      Filled fields (names, draft) ((key, g) :: ms) state
  | other {key : String} {g : Fragment} {ms : List (String × Fragment)}
      {state state' : List String × σ} : key ∉ fields.map (·.name) → Filled fields state ms state' →
      Filled fields state ((key, g) :: ms) state'

/-- Items fill the fields in their order, as long as there are both. -/
inductive Laid : List (TextField σ) → List String × σ → List Fragment → List String × σ → Prop where
  | done {fields : List (TextField σ)} {state : List String × σ} : Laid fields state [] state
  | item {f : TextField σ} {fields : List (TextField σ)} {names : List String} {draft draft' : σ}
      {g : Fragment} {gs : List Fragment} {state : List String × σ} : Sets f.name draft g draft' →
      Laid fields (f.name :: names, draft') gs state →
      Laid (f :: fields) (names, draft) (g :: gs) state

variable {Sets}

theorem Filled.field {β : Type} {fields : List (TextField σ)} {state state' : List String × σ}
    {ms : List (String × Fragment)} {key : String} (part : σ → β)
    (hother : ∀ {name : String} {d d' : σ} {g : Fragment}, name ≠ key → Sets name d g d' →
      part d' = part d) (hkey : key ∈ fields.map (·.name))
    (h : Filled Sets fields state ms state') :
    (ms.filter (·.1 = key) = [] ∧ part state'.2 = part state.2) ∨
      (key ∉ state.1 ∧ ∃ g d d', ms.filter (·.1 = key) = [(key, g)] ∧ part d = part state.2 ∧
        Sets key d g d' ∧ part state'.2 = part d') := by
  induction h with
  | done => exact .inl ⟨rfl, rfl⟩
  | @known name names draft draft' g ms state hname hnew hset _ ih =>
    by_cases hk : name = key
    · subst hk
      obtain ⟨hnone, hpart⟩ | ⟨hnot, _⟩ := ih
      · exact .inr ⟨hnew, g, draft, draft', by simpa using hnone, rfl, hset, hpart⟩
      · exact absurd List.mem_cons_self hnot
    · have hdraft := hother hk hset
      obtain ⟨hnone, hpart⟩ | ⟨hnot, g', d, d', hone, hd, hset', hpart⟩ := ih
      · exact .inl ⟨by simpa [hk] using hnone, hpart.trans hdraft⟩
      · refine .inr ⟨fun hm => hnot (List.mem_cons_of_mem _ hm), g', d, d', ?_, hd.trans hdraft, hset',
          hpart⟩
        simpa [hk] using hone
  | @other name g ms state state' hname _ ih =>
    have hk : name ≠ key := by
      rintro rfl
      exact hname hkey
    obtain ⟨hnone, hpart⟩ | ⟨hnot, g', d, d', hone, hd⟩ := ih
    · exact .inl ⟨by simpa [hk] using hnone, hpart⟩
    · exact .inr ⟨hnot, g', d, d', by simpa [hk] using hone, hd⟩

namespace TextRecord

variable {fields : List (TextField σ)} (takes : ∀ f ∈ fields, f.Takes Sets)

include takes in
theorem readMember_shape {key : String} {state state' : List String × σ} {s t : List Char}
    (h : readMember fields key state s = .ok (state', t)) :
    ∃ blanks r g, Blanks blanks ∧ s = blanks ++ ':' :: r ∧ Starts g r t ∧
      ∀ {ms last}, Filled Sets fields state' ms last →
        Filled Sets fields state ((key, g) :: ms) last := by
  obtain ⟨names, draft⟩ := state
  obtain ⟨blanks, hb, hs⟩ := skipBlanks_split s
  unfold readMember at h
  cases hf : fields.find? fun f => f.name = key with
  | some f =>
    have hmem := List.mem_of_find?_eq_some hf
    have hname : f.name = key := by simpa using List.find?_some hf
    simp only [hf] at h
    split at h
    next => cases h
    next hnew =>
      obtain ⟨r, hcolon, h⟩ := bind_ok h
      obtain ⟨⟨_, _⟩, hread, h⟩ := bind_ok h
      cases h
      obtain ⟨g, hg, hset⟩ := takes f hmem hread
      refine ⟨blanks, r, g, hb, by rw [← readColon_ok hcolon]; exact hs, hg, fun hms => ?_⟩
      exact .known (List.mem_map.mpr ⟨f, hmem, hname⟩) hnew (hname ▸ hset) hms
  | none =>
    simp only [hf] at h
    obtain ⟨r, hcolon, h⟩ := bind_ok h
    obtain ⟨_, hskip, h⟩ := bind_ok h
    cases h
    obtain ⟨g, hg⟩ := skipValue_starts hskip
    refine ⟨blanks, r, g, hb, by rw [← readColon_ok hcolon]; exact hs, hg, fun hms => ?_⟩
    refine .other (fun hkey => ?_) hms
    obtain ⟨f, hmem, hname⟩ := List.mem_map.mp hkey
    exact absurd hname (by simpa using List.find?_eq_none.mp hf f hmem)

theorem readFields_cases {first : Bool} {state state' : List String × σ} {s t : List Char}
    (h : readFields fields first state s = .ok (state', t)) :
    (state' = state ∧ t = s) ∨
    ∃ f more start draft behind, fields = f :: more ∧ nextItem first s = .ok (some start) ∧
      f.read state.2 start = .ok (draft, behind) ∧
      readFields more false (f.name :: state.1, draft) behind = .ok (state', t) := by
  cases fields with
  | nil =>
    cases h
    exact .inl ⟨rfl, rfl⟩
  | cons f more =>
    obtain ⟨found, hn, h⟩ := bind_ok h
    cases found with
    | none =>
      cases h
      exact .inl ⟨rfl, rfl⟩
    | some start =>
      obtain ⟨⟨draft, behind⟩, hread, h⟩ := bind_ok h
      exact .inr ⟨f, more, start, draft, behind, rfl, hn, hread, h⟩

include takes in
theorem moreFields_text {state state' : List String × σ} {s t rest : List Char}
    (h : readFields fields false state s = .ok (state', t)) (hc : closeList t = .ok rest) :
    ∃ gs items, MoreItems gs items ∧ s = items ++ rest ∧ Laid Sets fields state gs state' := by
  induction fields generalizing state s with
  | nil =>
    cases h
    obtain ⟨blanks, hb, hs⟩ := close_text (closeList_ok hc)
    exact ⟨[], _, .close hb, hs, .done⟩
  | cons f fields ih =>
    obtain ⟨rfl, rfl⟩ | ⟨_, _, start, draft, behind, he, hn, hread, hmore⟩ := readFields_cases h
    · obtain ⟨blanks, hb, hs⟩ := close_text (closeList_ok hc)
      exact ⟨[], _, .close hb, hs, .done⟩
    · cases he
      obtain ⟨htakes, htail⟩ := List.forall_mem_cons.mp takes
      obtain ⟨r, hcomma, rfl⟩ := nextItem_more hn
      obtain ⟨before, hb, hs⟩ := skipBlanks_split s
      obtain ⟨after, ha, hr⟩ := skipBlanks_split r
      obtain ⟨g, ⟨between, hbetween, hstart, hw⟩, hset⟩ := htakes hread
      obtain ⟨gs, items, hitems, rfl, hlaid⟩ := ih htail hmore
      refine ⟨g :: gs, before ++ ',' :: (after ++ between) ++ g.text.toList ++ items, ?_, ?_,
        .item hset hlaid⟩
      · exact .item hb (List.forall_mem_append.mpr ⟨ha, hbetween⟩) hw hitems
      · rw [hs, hcomma, hr, hstart]
        simp

include takes in
theorem fieldsText_text {state state' : List String × σ} {s t rest : List Char}
    (h : readFields fields true state s = .ok (state', t)) (hc : closeList t = .ok rest) :
    ∃ gs items, ItemsText gs items ∧ s = items ++ rest ∧ Laid Sets fields state gs state' := by
  obtain ⟨rfl, rfl⟩ | ⟨f, more, start, draft, behind, rfl, hn, hread, hmore⟩ := readFields_cases h
  · obtain ⟨blanks, hb, hs⟩ := close_text (closeList_ok hc)
    exact ⟨[], _, .close hb, hs, .done⟩
  · obtain ⟨htakes, htail⟩ := List.forall_mem_cons.mp takes
    obtain ⟨before, hb, hs⟩ := skipBlanks_split s
    obtain ⟨g, ⟨between, hbetween, hstart, hw⟩, hset⟩ := htakes hread
    obtain ⟨gs, items, hitems, rfl, hlaid⟩ := moreFields_text htail hmore hc
    refine ⟨g :: gs, before ++ between ++ g.text.toList ++ items, ?_, ?_, .item hset hlaid⟩
    · exact .item (List.forall_mem_append.mpr ⟨hb, hbetween⟩) hw hitems
    · rw [hs, ← nextItem_first hn, hstart]
      simp

/-- What is read as a record is an object or a list. -/
theorem read_shape {record : TextRecord σ α} (takes : ∀ f ∈ record.fields, f.Takes Sets)
    {s rest : List Char} {a : α} (h : record.read s = .ok (a, rest)) :
    ∃ before state, Blanks before ∧
      ((∃ ms inner, MembersText ms inner ∧ s = before ++ '\x7b' :: inner ++ rest ∧
          Filled Sets record.fields ([], record.draft) ms state ∧
          record.ofObject state.1 state.2 = .ok a) ∨
        ∃ gs items, ItemsText gs items ∧ s = before ++ '[' :: items ++ rest ∧
          Laid Sets record.fields ([], record.draft) gs state ∧
          record.ofList state.1 state.2 = .ok a) := by
  obtain ⟨before, hb, hs⟩ := skipBlanks_split s
  unfold TextRecord.read at h
  split at h
  next => cases h
  next c r hstart =>
    rw [hstart] at hs
    split at h
    next hopen =>
      obtain ⟨⟨state, t⟩, hread, h⟩ := bind_ok h
      obtain ⟨_, hvalue, h⟩ := bind_ok h
      obtain ⟨_, hclose, h⟩ := bind_ok h
      cases h
      obtain ⟨gs, items, hitems, rfl, hlaid⟩ := fieldsText_text takes hread hclose
      refine ⟨before, state, hb, .inr ⟨gs, items, hitems, ?_, hlaid, hvalue⟩⟩
      rw [hs, hopen]
      simp
    next =>
      split at h
      next hopen =>
        obtain ⟨⟨state, t⟩, hread, h⟩ := bind_ok h
        obtain ⟨_, hvalue, h⟩ := bind_ok h
        obtain ⟨_, hclose, h⟩ := bind_ok h
        cases h
        obtain ⟨ms, inner, hms, rfl, hfilled⟩ :=
          membersText_text (Filled Sets record.fields) .done (readMember_shape takes) hread hclose
        refine ⟨before, state, hb, .inl ⟨ms, inner, hms, ?_, hfilled, hvalue⟩⟩
        rw [hs, hopen]
        simp
      next => cases h

theorem readAll_shape {record : TextRecord σ α} (takes : ∀ f ∈ record.fields, f.Takes Sets)
    {text : String} {a : α} (h : record.read.readAll text = .ok a) :
    ∃ state, (∃ ms, ObjectText ms text ∧ Filled Sets record.fields ([], record.draft) ms state ∧
        record.ofObject state.1 state.2 = .ok a) ∨
      ∃ gs, ListText gs text ∧ Laid Sets record.fields ([], record.draft) gs state ∧
        record.ofList state.1 state.2 = .ok a := by
  obtain ⟨rest, hr, hrest⟩ := readAll_ok h
  obtain ⟨before, state, hb, ⟨ms, inner, hms, htext, hfilled⟩ | ⟨gs, items, hitems, htext, hlaid⟩⟩ :=
    read_shape takes hr
  · exact ⟨state, .inl ⟨ms, ⟨before, inner, rest, hb, hrest, hms, htext⟩, hfilled⟩⟩
  · exact ⟨state, .inr ⟨gs, ⟨before, items, rest, hb, hrest, hitems, htext⟩, hlaid⟩⟩

end TextRecord

end Records

end RoomCast
