import RoomCast.Proofs.FragmentText

namespace RoomCast

namespace Grammar

inductive DigitRun : List Char → List Char → Prop where
  | nil {s : List Char} : DigitRun s s
  | digit {c : Char} {s t : List Char} : c.isDigit = true → DigitRun s t → DigitRun (c :: s) t

inductive Digits : List Char → List Char → Prop where
  | first {c : Char} {s t : List Char} : c.isDigit = true → DigitRun s t → Digits (c :: s) t

inductive Exponent : List Char → List Char → Prop where
  | plain {s t : List Char} : Digits s t → Exponent s t
  | signed {sign : Char} {s t : List Char} : sign = '+' ∨ sign = '-' → Digits s t →
      Exponent (sign :: s) t

inductive Scale : List Char → List Char → Prop where
  | none {s : List Char} : Scale s s
  | exponent {mark : Char} {s t : List Char} : mark = 'e' ∨ mark = 'E' → Exponent s t →
      Scale (mark :: s) t

/-- What follows the integer part of a numeral. -/
inductive Fraction : List Char → List Char → Prop where
  | none {s t : List Char} : Scale s t → Fraction s t
  | point {s u t : List Char} : Digits s u → Scale u t → Fraction ('.' :: s) t

/-- A numeral behind its minus, if any. -/
inductive Numeral : List Char → List Char → Prop where
  | zero {s t : List Char} : Fraction s t → Numeral ('0' :: s) t
  | digits {c : Char} {s u t : List Char} : c.isDigit = true → c ≠ '0' → DigitRun s u →
      Fraction u t → Numeral (c :: s) t

/-- A string literal behind its opening quote. -/
inductive Literal : List Char → List Char → Prop where
  | close {t : List Char} : Literal ('"' :: t) t
  | plain {c : Char} {s t : List Char} : c ≠ '"' → c ≠ '\\' → 0x20 ≤ c.toNat → Literal s t →
      Literal (c :: s) t
  | short {c : Char} {s t : List Char} : (shortEscape? c).isSome = true → Literal s t →
      Literal ('\\' :: c :: s) t
  | unit {digits s t : List Char} : digits.length = 4 →
      (∀ d ∈ digits, (hexDigit? d).isSome = true) → Literal s t →
      Literal ('\\' :: 'u' :: (digits ++ s)) t

mutual

inductive Value : List Char → List Char → Prop where
  | blank {c : Char} {s t : List Char} : isBlank c = true → Value s t → Value (c :: s) t
  | null {t : List Char} : Value ('n' :: 'u' :: 'l' :: 'l' :: t) t
  | true {t : List Char} : Value ('t' :: 'r' :: 'u' :: 'e' :: t) t
  | false {t : List Char} : Value ('f' :: 'a' :: 'l' :: 's' :: 'e' :: t) t
  | number {s t : List Char} : Numeral s t → Value s t
  | negative {s t : List Char} : Numeral s t → Value ('-' :: s) t
  | text {s t : List Char} : Literal s t → Value ('"' :: s) t
  | list {s t : List Char} : Items s t → Value ('[' :: s) t
  | object {s t : List Char} : Members s t → Value ('\x7b' :: s) t

inductive Items : List Char → List Char → Prop where
  | blank {c : Char} {s t : List Char} : isBlank c = true → Items s t → Items (c :: s) t
  | close {t : List Char} : Items (']' :: t) t
  | item {s u t : List Char} : Value s u → MoreItems u t → Items s t

/-- A list behind one of its items. -/
inductive MoreItems : List Char → List Char → Prop where
  | blank {c : Char} {s t : List Char} : isBlank c = true → MoreItems s t → MoreItems (c :: s) t
  | close {t : List Char} : MoreItems (']' :: t) t
  | item {s u t : List Char} : Value s u → MoreItems u t → MoreItems (',' :: s) t

inductive Members : List Char → List Char → Prop where
  | blank {c : Char} {s t : List Char} : isBlank c = true → Members s t → Members (c :: s) t
  | close {t : List Char} : Members ('\x7d' :: t) t
  | member {s u t : List Char} : Member s u → MoreMembers u t → Members s t

/-- An object behind one of its members. -/
inductive MoreMembers : List Char → List Char → Prop where
  | blank {c : Char} {s t : List Char} : isBlank c = true → MoreMembers s t →
      MoreMembers (c :: s) t
  | close {t : List Char} : MoreMembers ('\x7d' :: t) t
  | member {s u t : List Char} : Member s u → MoreMembers u t → MoreMembers (',' :: s) t

inductive Member : List Char → List Char → Prop where
  | blank {c : Char} {s t : List Char} : isBlank c = true → Member s t → Member (c :: s) t
  | key {s u t : List Char} : Literal s u → Pair u t → Member ('"' :: s) t

/-- A member behind its key. -/
inductive Pair : List Char → List Char → Prop where
  | blank {c : Char} {s t : List Char} : isBlank c = true → Pair s t → Pair (c :: s) t
  | colon {s t : List Char} : Value s t → Pair (':' :: s) t

end

theorem DigitRun.append {s t : List Char} (h : DigitRun s t) (r : List Char) :
    DigitRun (s ++ r) (t ++ r) := by
  induction h with
  | nil => exact .nil
  | digit hd _ ih => exact .digit hd ih

theorem Digits.append {s t : List Char} (h : Digits s t) (r : List Char) :
    Digits (s ++ r) (t ++ r) := by
  cases h with
  | first hd hrun => exact .first hd (hrun.append r)

theorem Scale.append {s t : List Char} (h : Scale s t) (r : List Char) :
    Scale (s ++ r) (t ++ r) := by
  cases h with
  | none => exact .none
  | exponent hmark hexp =>
    cases hexp with
    | plain hd => exact .exponent hmark (.plain (hd.append r))
    | signed hsign hd => exact .exponent hmark (.signed hsign (hd.append r))

theorem Numeral.append {s t : List Char} (h : Numeral s t) (r : List Char) :
    Numeral (s ++ r) (t ++ r) := by
  have fraction : ∀ {s t : List Char}, Fraction s t → Fraction (s ++ r) (t ++ r) := by
    intro s t h
    cases h with
    | none hs => exact .none (hs.append r)
    | point hd hs => exact .point (hd.append r) (hs.append r)
  cases h with
  | zero hf => exact .zero (fraction hf)
  | digits hd hzero hrun hf => exact .digits hd hzero (hrun.append r) (fraction hf)

theorem Literal.append {s t : List Char} (h : Literal s t) (r : List Char) :
    Literal (s ++ r) (t ++ r) := by
  induction h with
  | close => exact .close
  | plain hq he hx _ ih => exact .plain hq he hx ih
  | short hd _ ih => exact .short hd ih
  | @unit digits s t hlen hhex _ ih =>
    have hshift : '\\' :: 'u' :: (digits ++ s) ++ r = '\\' :: 'u' :: (digits ++ (s ++ r)) := by simp
    rw [hshift]
    exact .unit hlen hhex ih

mutual

theorem Value.append {s t : List Char} (r : List Char) : Value s t → Value (s ++ r) (t ++ r)
  | .blank hb h => .blank hb (h.append r)
  | .null => .null
  | .true => .true
  | .false => .false
  | .number h => .number (h.append r)
  | .negative h => .negative (h.append r)
  | .text h => .text (h.append r)
  | .list h => .list (h.append r)
  | .object h => .object (h.append r)

theorem Items.append {s t : List Char} (r : List Char) : Items s t → Items (s ++ r) (t ++ r)
  | .blank hb h => .blank hb (h.append r)
  | .close => .close
  | .item h hs => .item (h.append r) (hs.append r)

theorem MoreItems.append {s t : List Char} (r : List Char) :
    MoreItems s t → MoreItems (s ++ r) (t ++ r)
  | .blank hb h => .blank hb (h.append r)
  | .close => .close
  | .item h hs => .item (h.append r) (hs.append r)

theorem Members.append {s t : List Char} (r : List Char) : Members s t → Members (s ++ r) (t ++ r)
  | .blank hb h => .blank hb (h.append r)
  | .close => .close
  | .member h hs => .member (h.append r) (hs.append r)

theorem MoreMembers.append {s t : List Char} (r : List Char) :
    MoreMembers s t → MoreMembers (s ++ r) (t ++ r)
  | .blank hb h => .blank hb (h.append r)
  | .close => .close
  | .member h hs => .member (h.append r) (hs.append r)

theorem Member.append {s t : List Char} (r : List Char) : Member s t → Member (s ++ r) (t ++ r)
  | .blank hb h => .blank hb (h.append r)
  | .key hl h => .key (hl.append r) (h.append r)

theorem Pair.append {s t : List Char} (r : List Char) : Pair s t → Pair (s ++ r) (t ++ r)
  | .blank hb h => .blank hb (h.append r)
  | .colon h => .colon (h.append r)

end

/-- A list is taken apart item by item, and its items are not. -/
@[elab_as_elim]
theorem Items.recursion {motive : ∀ s t : List Char, Items s t → Prop}
    (blank : ∀ {c : Char} {s t : List Char} (hb : isBlank c = true) (h : Items s t),
      motive s t h → motive (c :: s) t (.blank hb h))
    (close : ∀ {t : List Char}, motive (']' :: t) t .close)
    (item : ∀ {s u t : List Char} (h : Value s u) (hs : MoreItems u t), motive s t (.item h hs)) :
    ∀ {s t : List Char} (h : Items s t), motive s t h
  | _, _, .blank hb h => blank hb h (h.recursion blank close item)
  | _, _, .close => close
  | _, _, .item h hs => item h hs

@[elab_as_elim]
theorem MoreItems.recursion {motive : ∀ s t : List Char, MoreItems s t → Prop}
    (blank : ∀ {c : Char} {s t : List Char} (hb : isBlank c = true) (h : MoreItems s t),
      motive s t h → motive (c :: s) t (.blank hb h))
    (close : ∀ {t : List Char}, motive (']' :: t) t .close)
    (item : ∀ {s u t : List Char} (h : Value s u) (hs : MoreItems u t),
      motive u t hs → motive (',' :: s) t (.item h hs)) :
    ∀ {s t : List Char} (h : MoreItems s t), motive s t h
  | _, _, .blank hb h => blank hb h (h.recursion blank close item)
  | _, _, .close => close
  | _, _, .item h hs => item h hs (hs.recursion blank close item)

theorem blanks_append (Category : List Char → List Char → Prop)
    (hblank : ∀ {c : Char} {s t : List Char}, isBlank c = true → Category s t → Category (c :: s) t)
    {blanks s t : List Char} (hb : Blanks blanks) (h : Category s t) : Category (blanks ++ s) t := by
  induction blanks with
  | nil => exact h
  | cons c blanks ih =>
    obtain ⟨hc, hb⟩ := List.forall_mem_cons.mp hb
    exact hblank hc (ih hb)

/-- What is left behind a value in some open brackets, the innermost first. -/
def Closes : List Bracket → List Char → List Char → Prop
  | [], s, t => s = t
  | .list :: outer, s, t => ∃ u, MoreItems s u ∧ Closes outer u t
  | .object :: outer, s, t => ∃ u, MoreMembers s u ∧ Closes outer u t

def Opens : List Bracket → List Char → List Char → Prop
  | [], s, t => s = t
  | .list :: outer, s, t => ∃ u, Items s u ∧ Closes outer u t
  | .object :: outer, s, t => ∃ u, Members s u ∧ Closes outer u t

def BehindText : Bool → List Char → List Char → Prop
  | true, s, t => Pair s t
  | false, s, t => s = t

/-- What is left of a value from a spot inside it, the brackets around it apart. -/
def Remains : ScanSpot → List Char → List Char → Prop
  | .value, s, t => Value s t
  | .opened, _, _ => False
  | .key, s, t => Member s t
  | .colon, s, t => Pair s t
  | .ended, s, t => s = t
  | .word letters, s, t => s = letters ++ t
  | .text isKey, s, t => ∃ u, Literal s u ∧ BehindText isKey u t
  | .escape isKey, s, t => ∃ u, Literal ('\\' :: s) u ∧ BehindText isKey u t
  | .hex isKey missing, s, t => 0 < missing → ∃ digits r u, s = digits ++ r ∧
      digits.length = missing ∧ (∀ d ∈ digits, (hexDigit? d).isSome = true) ∧ Literal r u ∧
      BehindText isKey u t
  | .minus, s, t => Numeral s t
  | .zero, s, t => Fraction s t
  | .integer, s, t => ∃ u, DigitRun s u ∧ Fraction u t
  | .point, s, t => ∃ u, Digits s u ∧ Scale u t
  | .fraction, s, t => ∃ u, DigitRun s u ∧ Scale u t
  | .exponentMark, s, t => Exponent s t
  | .exponentSign, s, t => Digits s t
  | .exponent, s, t => DigitRun s t

/-- What a scan at a spot asks for, so that `t` is left behind the value it started with. -/
def Awaits (brackets : List Bracket) (spot : ScanSpot) (s t : List Char) : Prop :=
  match spot with
  | .opened => Opens brackets s t
  | spot => ∃ u, Remains spot s u ∧ Closes brackets u t

theorem awaits_ended {brackets : List Bracket} {s t : List Char} :
    Awaits brackets .ended s t ↔ Closes brackets s t := by
  simp [Awaits, Remains]

theorem behindText_awaits {brackets : List Bracket} {isKey : Bool} {s t : List Char}
    (h : Awaits brackets (.behindText isKey) s t) :
    ∃ u, BehindText isKey s u ∧ Closes brackets u t := by
  cases isKey with
  | true => exact h
  | false => exact ⟨s, rfl, awaits_ended.mp h⟩

section Moves

variable {brackets brackets' : List Bracket} {spot' : ScanSpot} {c : Char} {r t : List Char}

theorem atValue_awaits (hm : ScanMove.atValue brackets c = .go brackets' spot')
    (ha : Awaits brackets' spot' r t) : ∃ u, Value (c :: r) u ∧ Closes brackets u t := by
  unfold ScanMove.atValue at hm
  split at hm
  next hb =>
    cases hm
    obtain ⟨u, hv, hc⟩ := ha
    exact ⟨u, .blank hb hv, hc⟩
  split at hm
  next hn =>
    cases hm
    obtain ⟨u, rfl, hc⟩ := ha
    exact ⟨u, hn ▸ .null, hc⟩
  split at hm
  next ht =>
    cases hm
    obtain ⟨u, rfl, hc⟩ := ha
    exact ⟨u, ht ▸ .true, hc⟩
  split at hm
  next hf =>
    cases hm
    obtain ⟨u, rfl, hc⟩ := ha
    exact ⟨u, hf ▸ .false, hc⟩
  split at hm
  next hminus =>
    cases hm
    obtain ⟨u, hn, hc⟩ := ha
    exact ⟨u, hminus ▸ .negative hn, hc⟩
  split at hm
  next hzero =>
    cases hm
    obtain ⟨u, hn, hc⟩ := ha
    exact ⟨u, hzero ▸ .number (.zero hn), hc⟩
  next hzero =>
  split at hm
  next hd =>
    cases hm
    obtain ⟨u, ⟨v, hrun, hfrac⟩, hc⟩ := ha
    exact ⟨u, .number (.digits hd hzero hrun hfrac), hc⟩
  split at hm
  next hq =>
    cases hm
    obtain ⟨u, ⟨v, hl, rfl⟩, hc⟩ := ha
    exact ⟨_, hq ▸ .text hl, hc⟩
  split at hm
  next ho =>
    cases hm
    obtain ⟨u, hi, hc⟩ := ha
    exact ⟨u, ho ▸ .list hi, hc⟩
  split at hm
  next ho =>
    cases hm
    obtain ⟨u, hi, hc⟩ := ha
    exact ⟨u, ho ▸ .object hi, hc⟩
  next => cases hm

theorem atKey_awaits (hm : ScanMove.atKey brackets c = .go brackets' spot')
    (ha : Awaits brackets' spot' r t) : ∃ u, Member (c :: r) u ∧ Closes brackets u t := by
  unfold ScanMove.atKey at hm
  split at hm
  next hb =>
    cases hm
    obtain ⟨u, hk, hc⟩ := ha
    exact ⟨u, .blank hb hk, hc⟩
  split at hm
  next hq =>
    cases hm
    obtain ⟨u, ⟨v, hl, hp⟩, hc⟩ := ha
    exact ⟨u, hq ▸ .key hl hp, hc⟩
  next => cases hm

theorem atEnd_awaits (hm : ScanMove.atEnd brackets c = .go brackets' spot')
    (ha : Awaits brackets' spot' r t) : Closes brackets (c :: r) t := by
  cases brackets with
  | nil => cases hm
  | cons bracket outer =>
    cases bracket with
    | list =>
      simp only [ScanMove.atEnd] at hm
      split at hm
      next hb =>
        cases hm
        obtain ⟨u, hi, hc⟩ := awaits_ended.mp ha
        exact ⟨u, .blank hb hi, hc⟩
      split at hm
      next hcomma =>
        cases hm
        obtain ⟨u, hv, v, hi, hc⟩ := ha
        exact ⟨v, hcomma ▸ .item hv hi, hc⟩
      split at hm
      next hclose =>
        cases hm
        exact ⟨r, hclose ▸ .close, awaits_ended.mp ha⟩
      next => cases hm
    | object =>
      simp only [ScanMove.atEnd] at hm
      split at hm
      next hb =>
        cases hm
        obtain ⟨u, hi, hc⟩ := awaits_ended.mp ha
        exact ⟨u, .blank hb hi, hc⟩
      split at hm
      next hcomma =>
        cases hm
        obtain ⟨u, hk, v, hi, hc⟩ := ha
        exact ⟨v, hcomma ▸ .member hk hi, hc⟩
      split at hm
      next hclose =>
        cases hm
        exact ⟨r, hclose ▸ .close, awaits_ended.mp ha⟩
      next => cases hm

theorem atOpened_awaits (hm : ScanMove.atOpened brackets c = .go brackets' spot')
    (ha : Awaits brackets' spot' r t) : Opens brackets (c :: r) t := by
  cases brackets with
  | nil => cases hm
  | cons bracket outer =>
    cases bracket with
    | list =>
      simp only [ScanMove.atOpened] at hm
      split at hm
      next hb =>
        cases hm
        obtain ⟨u, hi, hc⟩ := ha
        exact ⟨u, .blank hb hi, hc⟩
      split at hm
      next hclose =>
        cases hm
        exact ⟨r, hclose ▸ .close, awaits_ended.mp ha⟩
      next =>
        obtain ⟨u, hv, v, hi, hc⟩ := atValue_awaits hm ha
        exact ⟨v, .item hv hi, hc⟩
    | object =>
      simp only [ScanMove.atOpened] at hm
      split at hm
      next hb =>
        cases hm
        obtain ⟨u, hi, hc⟩ := ha
        exact ⟨u, .blank hb hi, hc⟩
      split at hm
      next hclose =>
        cases hm
        exact ⟨r, hclose ▸ .close, awaits_ended.mp ha⟩
      next =>
        obtain ⟨u, hk, v, hi, hc⟩ := atKey_awaits hm ha
        exact ⟨v, .member hk hi, hc⟩

theorem scale_awaits
    (hm : (if c = 'e' ∨ c = 'E' then .go brackets .exponentMark
      else ScanMove.atEnd brackets c) = ScanMove.go brackets' spot')
    (ha : Awaits brackets' spot' r t) : ∃ u, Scale (c :: r) u ∧ Closes brackets u t := by
  split at hm
  next he =>
    cases hm
    obtain ⟨u, hx, hc⟩ := ha
    exact ⟨u, .exponent he hx, hc⟩
  next => exact ⟨c :: r, .none, atEnd_awaits hm ha⟩

theorem fraction_awaits
    (hm : (if c = '.' then .go brackets .point else if c = 'e' ∨ c = 'E' then
      .go brackets .exponentMark else ScanMove.atEnd brackets c) = ScanMove.go brackets' spot')
    (ha : Awaits brackets' spot' r t) : ∃ u, Fraction (c :: r) u ∧ Closes brackets u t := by
  split at hm
  next hp =>
    cases hm
    obtain ⟨u, ⟨v, hd, hs⟩, hc⟩ := ha
    exact ⟨u, hp ▸ .point hd hs, hc⟩
  next =>
    obtain ⟨u, hs, hc⟩ := scale_awaits hm ha
    exact ⟨u, .none hs, hc⟩

theorem text_awaits {isKey : Bool}
    (hm : ScanSpot.move (.text isKey) brackets c r = .go brackets' spot')
    (ha : Awaits brackets' spot' r t) : Awaits brackets (.text isKey) (c :: r) t := by
  simp only [ScanSpot.move] at hm
  split at hm
  next hq =>
    cases hm
    obtain ⟨u, hb, hc⟩ := behindText_awaits ha
    exact ⟨u, ⟨r, hq ▸ .close, hb⟩, hc⟩
  next hq =>
  split at hm
  next he =>
    cases hm
    obtain ⟨u, ⟨v, hl, hb⟩, hc⟩ := ha
    exact ⟨u, ⟨v, he ▸ hl, hb⟩, hc⟩
  next he =>
  split at hm
  next => cases hm
  next hx =>
    cases hm
    obtain ⟨u, ⟨v, hl, hb⟩, hc⟩ := ha
    exact ⟨u, ⟨v, .plain hq he (Nat.le_of_not_lt hx) hl, hb⟩, hc⟩

theorem escape_awaits {isKey : Bool}
    (hm : ScanSpot.move (.escape isKey) brackets c r = .go brackets' spot')
    (ha : Awaits brackets' spot' r t) : Awaits brackets (.escape isKey) (c :: r) t := by
  simp only [ScanSpot.move] at hm
  split at hm
  next hu =>
    cases hm
    obtain ⟨u, hdigits, hc⟩ := ha
    obtain ⟨digits, s, v, rfl, hlen, hhex, hl, hb⟩ := hdigits (by decide)
    exact ⟨u, ⟨v, hu ▸ .unit hlen hhex hl, hb⟩, hc⟩
  split at hm
  next hs =>
    cases hm
    obtain ⟨u, ⟨v, hl, hb⟩, hc⟩ := ha
    exact ⟨u, ⟨v, .short hs hl, hb⟩, hc⟩
  next => cases hm

theorem hex_awaits {isKey : Bool} {missing : Nat}
    (hm : ScanSpot.move (.hex isKey missing) brackets c r = .go brackets' spot')
    (ha : Awaits brackets' spot' r t) : Awaits brackets (.hex isKey missing) (c :: r) t := by
  simp only [ScanSpot.move] at hm
  split at hm
  next hd =>
    by_cases hone : missing = 1
    · subst hone
      cases hm
      obtain ⟨u, ⟨v, hl, hb⟩, hc⟩ := ha
      exact ⟨u, fun _ => ⟨[c], r, v, rfl, rfl, by simpa using hd, hl, hb⟩, hc⟩
    · rw [if_neg hone] at hm
      cases hm
      obtain ⟨u, hdigits, hc⟩ := ha
      refine ⟨u, fun hpos => ?_, hc⟩
      obtain ⟨digits, s, v, rfl, hlen, hhex, hl, hb⟩ := hdigits (by omega)
      refine ⟨c :: digits, s, v, rfl, by rw [List.length_cons]; omega, ?_, hl, hb⟩
      exact List.forall_mem_cons.mpr ⟨hd, hhex⟩
  next => cases hm

theorem colon_awaits (hm : ScanSpot.move .colon brackets c r = .go brackets' spot')
    (ha : Awaits brackets' spot' r t) : Awaits brackets .colon (c :: r) t := by
  simp only [ScanSpot.move] at hm
  split at hm
  next hb =>
    cases hm
    obtain ⟨u, hp, hc⟩ := ha
    exact ⟨u, .blank hb hp, hc⟩
  split at hm
  next hcolon =>
    cases hm
    obtain ⟨u, hv, hc⟩ := ha
    exact ⟨u, hcolon ▸ .colon hv, hc⟩
  next => cases hm

theorem word_awaits {letters : List Char}
    (hm : ScanSpot.move (.word letters) brackets c r = .go brackets' spot')
    (ha : Awaits brackets' spot' r t) : Awaits brackets (.word letters) (c :: r) t := by
  cases letters with
  | nil => exact ⟨c :: r, rfl, atEnd_awaits hm ha⟩
  | cons w ws =>
    simp only [ScanSpot.move] at hm
    split at hm
    next hw =>
      cases ws with
      | nil =>
        cases hm
        exact ⟨r, by rw [hw]; rfl, awaits_ended.mp ha⟩
      | cons w' ws =>
        cases hm
        obtain ⟨u, rfl, hc⟩ := ha
        exact ⟨u, by rw [hw]; rfl, hc⟩
    next => cases hm

/-- Where digits may stand, a digit leads to one spot, and what else may stand there decides the rest. -/
theorem digit_or {spot : ScanSpot} {other : ScanMove}
    (hm : (if c.isDigit then .go brackets spot else other) = .go brackets' spot') :
    (c.isDigit = true ∧ brackets' = brackets ∧ spot' = spot) ∨ other = .go brackets' spot' := by
  split at hm
  next hd =>
    cases hm
    exact .inl ⟨hd, rfl, rfl⟩
  next => exact .inr hm

theorem minus_awaits (hm : ScanSpot.move .minus brackets c r = .go brackets' spot')
    (ha : Awaits brackets' spot' r t) : Awaits brackets .minus (c :: r) t := by
  simp only [ScanSpot.move] at hm
  split at hm
  next hzero =>
    cases hm
    obtain ⟨u, hf, hc⟩ := ha
    exact ⟨u, hzero ▸ .zero hf, hc⟩
  next hzero =>
    obtain ⟨hd, rfl, rfl⟩ | hfail := digit_or hm
    · obtain ⟨u, ⟨v, hrun, hf⟩, hc⟩ := ha
      exact ⟨u, .digits hd hzero hrun hf, hc⟩
    · cases hfail

theorem zero_awaits (hm : ScanSpot.move .zero brackets c r = .go brackets' spot')
    (ha : Awaits brackets' spot' r t) : Awaits brackets .zero (c :: r) t := by
  simp only [ScanSpot.move] at hm
  split at hm
  next => cases hm
  next => exact fraction_awaits hm ha

theorem integer_awaits (hm : ScanSpot.move .integer brackets c r = .go brackets' spot')
    (ha : Awaits brackets' spot' r t) : Awaits brackets .integer (c :: r) t := by
  obtain ⟨hd, rfl, rfl⟩ | hm := digit_or hm
  · obtain ⟨u, ⟨v, hrun, hf⟩, hc⟩ := ha
    exact ⟨u, ⟨v, .digit hd hrun, hf⟩, hc⟩
  · obtain ⟨u, hf, hc⟩ := fraction_awaits hm ha
    exact ⟨u, ⟨c :: r, .nil, hf⟩, hc⟩

theorem point_awaits (hm : ScanSpot.move .point brackets c r = .go brackets' spot')
    (ha : Awaits brackets' spot' r t) : Awaits brackets .point (c :: r) t := by
  obtain ⟨hd, rfl, rfl⟩ | hfail := digit_or hm
  · obtain ⟨u, ⟨v, hrun, hs⟩, hc⟩ := ha
    exact ⟨u, ⟨v, .first hd hrun, hs⟩, hc⟩
  · cases hfail

theorem fractionDigits_awaits (hm : ScanSpot.move .fraction brackets c r = .go brackets' spot')
    (ha : Awaits brackets' spot' r t) : Awaits brackets .fraction (c :: r) t := by
  obtain ⟨hd, rfl, rfl⟩ | hm := digit_or hm
  · obtain ⟨u, ⟨v, hrun, hs⟩, hc⟩ := ha
    exact ⟨u, ⟨v, .digit hd hrun, hs⟩, hc⟩
  · obtain ⟨u, hs, hc⟩ := scale_awaits hm ha
    exact ⟨u, ⟨c :: r, .nil, hs⟩, hc⟩

theorem exponentMark_awaits (hm : ScanSpot.move .exponentMark brackets c r = .go brackets' spot')
    (ha : Awaits brackets' spot' r t) : Awaits brackets .exponentMark (c :: r) t := by
  simp only [ScanSpot.move] at hm
  split at hm
  next hsign =>
    cases hm
    obtain ⟨u, hd, hc⟩ := ha
    exact ⟨u, .signed hsign hd, hc⟩
  next =>
    obtain ⟨hd, rfl, rfl⟩ | hfail := digit_or hm
    · obtain ⟨u, hrun, hc⟩ := ha
      exact ⟨u, .plain (.first hd hrun), hc⟩
    · cases hfail

theorem exponentSign_awaits (hm : ScanSpot.move .exponentSign brackets c r = .go brackets' spot')
    (ha : Awaits brackets' spot' r t) : Awaits brackets .exponentSign (c :: r) t := by
  obtain ⟨hd, rfl, rfl⟩ | hfail := digit_or hm
  · obtain ⟨u, hrun, hc⟩ := ha
    exact ⟨u, .first hd hrun, hc⟩
  · cases hfail

theorem exponent_awaits (hm : ScanSpot.move .exponent brackets c r = .go brackets' spot')
    (ha : Awaits brackets' spot' r t) : Awaits brackets .exponent (c :: r) t := by
  obtain ⟨hd, rfl, rfl⟩ | hm := digit_or hm
  · obtain ⟨u, hrun, hc⟩ := ha
    exact ⟨u, .digit hd hrun, hc⟩
  · exact ⟨c :: r, .nil, atEnd_awaits hm ha⟩

/-- One move of a scan takes off the first character of what it asked for. -/
theorem move_awaits {spot : ScanSpot} (hm : spot.move brackets c r = .go brackets' spot')
    (ha : Awaits brackets' spot' r t) : Awaits brackets spot (c :: r) t := by
  cases spot with
  | value => exact atValue_awaits hm ha
  | opened => exact atOpened_awaits hm ha
  | key => exact atKey_awaits hm ha
  | colon => exact colon_awaits hm ha
  | ended => exact awaits_ended.mpr (atEnd_awaits hm ha)
  | word letters => exact word_awaits hm ha
  | text isKey => exact text_awaits hm ha
  | escape isKey => exact escape_awaits hm ha
  | hex isKey missing => exact hex_awaits hm ha
  | minus => exact minus_awaits hm ha
  | zero => exact zero_awaits hm ha
  | integer => exact integer_awaits hm ha
  | point => exact point_awaits hm ha
  | fraction => exact fractionDigits_awaits hm ha
  | exponentMark => exact exponentMark_awaits hm ha
  | exponentSign => exact exponentSign_awaits hm ha
  | exponent => exact exponent_awaits hm ha

end Moves

theorem endFault_awaits {spot : ScanSpot} {brackets : List Bracket}
    (h : spot.endFault brackets = none) (s : List Char) : Awaits brackets spot s s := by
  have hnone : missingBracket brackets = none → Closes brackets s s := by
    intro hb
    cases brackets with
    | nil => rfl
    | cons bracket outer => cases bracket <;> cases hb
  cases spot with
  | opened =>
    cases brackets with
    | nil => rfl
    | cons bracket outer => cases bracket <;> cases h
  | ended => exact awaits_ended.mpr (hnone h)
  | word letters =>
    cases letters with
    | nil => exact ⟨s, rfl, hnone h⟩
    | cons w ws => cases h
  | zero => exact ⟨s, .none .none, hnone h⟩
  | integer => exact ⟨s, ⟨s, .nil, .none .none⟩, hnone h⟩
  | fraction => exact ⟨s, ⟨s, .nil, .none⟩, hnone h⟩
  | exponent => exact ⟨s, .nil, hnone h⟩
  | value | key | colon | text isKey | escape isKey | hex isKey missing | minus | point
  | exponentMark | exponentSign => cases h

theorem scan_awaits {brackets : List Bracket} {spot : ScanSpot} {s t : List Char}
    (h : scan brackets spot s = .ok t) : Awaits brackets spot s t := by
  induction s generalizing brackets spot with
  | nil =>
    unfold scan at h
    split at h
    next => cases h
    next hend =>
      cases h
      exact endFault_awaits hend []
  | cons c r ih =>
    unfold scan at h
    split at h
    next hm =>
      cases h
      exact endFault_awaits (move_stop hm) (c :: r)
    next hm => exact move_awaits hm (ih h)
    next => cases h

/-- What is skipped as a value is one. -/
theorem skipValue_value {s t : List Char} (h : skipValue s = .ok t) : Value s t := by
  obtain ⟨u, hv, rfl⟩ := scan_awaits h
  exact hv

end Grammar

theorem Fragment.Whole.alone {f : Fragment} (h : f.Whole) :
    skipBlanks f.text.toList = f.text.toList ∧ skipValue f.text.toList = .ok [] := by
  obtain ⟨rest, hr, _⟩ := readAll_ok h
  obtain ⟨htext, hvalue⟩ := read_value hr
  obtain ⟨blanks, _, hs⟩ := skipBlanks_split f.text.toList
  have hrest : rest = [] := by
    have hlen := congrArg List.length hs
    rw [htext, List.length_append, List.length_append] at hlen
    exact List.eq_nil_of_length_eq_zero (by omega)
  rw [hrest, List.append_nil] at htext
  rw [htext, hrest] at hvalue
  exact ⟨htext, hvalue⟩

theorem Fragment.Whole.value {f : Fragment} (h : f.Whole) : Grammar.Value f.text.toList [] :=
  Grammar.skipValue_value h.alone.2

end RoomCast
