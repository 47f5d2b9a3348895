import RoomCast.Proofs.GrammarScan

namespace RoomCast

open Grammar (Delimited)

section Digits

def NoDigit (s : List Char) : Prop := ∀ c r, s = c :: r → c.isDigit = false

theorem Grammar.Delimited.noDigit {s : List Char} (h : Delimited s) : NoDigit s :=
  fun c r hs => (h c r hs).1

theorem noDigit_cons {c : Char} (hc : c.isDigit = false) (s : List Char) : NoDigit (c :: s) := by
  intro d r h
  rwa [← (List.cons.inj h).1]

variable {ds : List Char} (hds : ∀ d ∈ ds, d.isDigit = true)

theorem digitRun_split (s : List Char) : ∃ ds rest, digitRun s = (ds, rest) ∧ s = ds ++ rest ∧
    ∀ d ∈ ds, d.isDigit = true := by
  induction s with
  | nil => exact ⟨[], [], rfl, rfl, by simp⟩
  | cons c r ih =>
    by_cases hc : c.isDigit = true
    · obtain ⟨ds, rest, hrun, hr, hds⟩ := ih
      refine ⟨c :: ds, rest, ?_, by rw [hr]; rfl, List.forall_mem_cons.mpr ⟨hc, hds⟩⟩
      rw [digitRun, if_pos hc, hrun]
    · exact ⟨[], c :: r, by rw [digitRun, if_neg hc], rfl, by simp⟩

include hds

theorem digitRun_digits {rest : List Char} (hr : NoDigit rest) : digitRun (ds ++ rest) = (ds, rest) := by
  induction ds with
  | nil =>
    cases rest with
    | nil => rfl
    | cons c r => rw [List.nil_append, digitRun, if_neg (by rw [hr c r rfl]; simp)]
  | cons d ds ih =>
    obtain ⟨hd, hds⟩ := List.forall_mem_cons.mp hds
    rw [List.cons_append, digitRun, if_pos hd, ih hds]

theorem digitRun_grammar (rest : List Char) : Grammar.DigitRun (ds ++ rest) rest := by
  induction ds with
  | nil => exact .nil
  | cons d ds ih =>
    obtain ⟨hd, hds⟩ := List.forall_mem_cons.mp hds
    exact .digit hd (ih hds)

theorem digits_grammar (hne : ds ≠ []) (rest : List Char) : Grammar.Digits (ds ++ rest) rest := by
  obtain ⟨d, ds, rfl⟩ := List.exists_cons_of_ne_nil hne
  obtain ⟨hd, hds⟩ := List.forall_mem_cons.mp hds
  exact .first hd (digitRun_grammar hds rest)

end Digits

/-- Whether a reader takes some characters for `a`, whatever follows that does not carry them on. -/
def Takes {α : Type} (reader : Reader α) (used : List Char) (a : α) : Prop :=
  ∀ rest, Delimited rest → reader (used ++ rest) = .ok (a, rest)

/-- What a reader has read off the front of a text, in a category of the grammar. -/
def ReadsOff {α : Type} (category : List Char → List Char → Prop) (reader : Reader α) (s t : List Char)
    (a : α) : Prop :=
  ∃ used, s = used ++ t ∧ category used [] ∧ Takes reader used a

section Scales

variable {negative : Bool} {x : Significand} {s t : List Char} {n : Number}

def readScaled (negative : Bool) (x : Significand) (minus : Bool) : Reader Number := fun s =>
  match digitRun s with
  | ([], []) => .error .endOfValue
  | ([], _ :: _) => .error .invalidNumber
  | (ds, rest) => do
    let e : Int := ds.foldl (fun n c => n * 10 + digitValue c) 0
    let n ← x.toFloat negative (if minus then -e else e)
    return (n, rest)

theorem readExponent_sign (negative : Bool) (x : Significand) {sign : Char}
    (hs : sign = '+' ∨ sign = '-') (r : List Char) :
    readExponent negative x (sign :: r) = readScaled negative x (sign == '-') r := by
  obtain rfl | rfl := hs <;> rfl

theorem readExponent_plain (negative : Bool) (x : Significand)
    (hs : ∀ c r, s = c :: r → ¬(c = '+' ∨ c = '-')) :
    readExponent negative x s = readScaled negative x false s := by
  cases s with
  | nil => rfl
  | cons c r =>
    obtain ⟨hplus, hminus⟩ := not_or.mp (hs c r rfl)
    unfold readExponent
    split
    next he =>
      split at he
      next hc => exact absurd (List.cons.inj hc).1 hplus
      next hc => exact absurd (List.cons.inj hc).1 hminus
      next =>
        cases he
        rfl

theorem readScaled_digits {minus : Bool} {ds rest : List Char} (hne : ds ≠ [])
    (hrun : digitRun s = (ds, rest)) :
    readScaled negative x minus s = (do
      let e : Int := ds.foldl (fun n c => n * 10 + digitValue c) 0
      let n ← x.toFloat negative (if minus then -e else e)
      return (n, rest)) := by
  obtain ⟨d, ds, rfl⟩ := List.exists_cons_of_ne_nil hne
  simp only [readScaled, hrun]

theorem readScaled_off {minus : Bool} (h : readScaled negative x minus s = .ok (n, t)) :
    ReadsOff Grammar.Digits (readScaled negative x minus) s t n := by
  obtain ⟨ds, rest, hrun, hs, hds⟩ := digitRun_split s
  have hne : ds ≠ [] := by
    rintro rfl
    unfold readScaled at h
    rw [hrun] at h
    cases rest <;> cases h
  rw [readScaled_digits hne hrun] at h
  obtain ⟨m, hm, h⟩ := bind_ok h
  cases h
  have hgrammar := digits_grammar hds hne []
  rw [List.append_nil] at hgrammar
  refine ⟨ds, hs, hgrammar, fun later hd => ?_⟩
  rw [readScaled_digits hne (digitRun_digits hds hd.noDigit)]
  simp only [hm, bind, Except.bind, pure, Except.pure]

theorem readExponent_off (h : readExponent negative x s = .ok (n, t)) :
    ReadsOff Grammar.Exponent (readExponent negative x) s t n := by
  by_cases hsign : ∃ c r, s = c :: r ∧ (c = '+' ∨ c = '-')
  · obtain ⟨sign, r, rfl, hsign⟩ := hsign
    rw [readExponent_sign negative x hsign] at h
    obtain ⟨used, rfl, hgrammar, htakes⟩ := readScaled_off h
    refine ⟨sign :: used, rfl, .signed hsign hgrammar, fun rest hr => ?_⟩
    rw [List.cons_append, readExponent_sign negative x hsign]
    exact htakes rest hr
  · have hplain : ∀ c r, s = c :: r → ¬(c = '+' ∨ c = '-') := fun c r hs hc => hsign ⟨c, r, hs, hc⟩
    rw [readExponent_plain negative x hplain] at h
    obtain ⟨used, rfl, hgrammar, htakes⟩ := readScaled_off h
    refine ⟨used, rfl, .plain hgrammar, fun rest hr => ?_⟩
    -- the digit that stands first is no sign
    have hfirst : ∀ c r, used ++ rest = c :: r → ¬(c = '+' ∨ c = '-') := by
      intro c r hs hc
      cases hgrammar with
      | first hd _ =>
        cases hs
        obtain rfl | rfl := hc <;> cases hd
    rw [readExponent_plain negative x hfirst]
    exact htakes rest hr

def readScale (negative : Bool) (x : Significand) (plain : Except JsonError Number) : Reader Number :=
  fun s =>
    match s with
    | 'e' :: r => readExponent negative x r
    | 'E' :: r => readExponent negative x r
    | s => do
      let n ← plain
      return (n, s)

theorem readScale_mark (negative : Bool) (x : Significand) (plain : Except JsonError Number)
    {mark : Char} (hm : mark = 'e' ∨ mark = 'E') (r : List Char) :
    readScale negative x plain (mark :: r) = readExponent negative x r := by
  obtain rfl | rfl := hm <;> rfl

theorem readScale_over (negative : Bool) (x : Significand) (plain : Except JsonError Number)
    (hs : ∀ c r, s = c :: r → ¬(c = 'e' ∨ c = 'E')) :
    readScale negative x plain s = (do
      let n ← plain
      return (n, s)) := by
  unfold readScale
  split
  next r => exact absurd (.inl rfl) (hs _ r rfl)
  next r => exact absurd (.inr rfl) (hs _ r rfl)
  next => rfl

theorem readScale_off {plain : Except JsonError Number}
    (h : readScale negative x plain s = .ok (n, t)) :
    ReadsOff Grammar.Scale (readScale negative x plain) s t n := by
  by_cases hmark : ∃ c r, s = c :: r ∧ (c = 'e' ∨ c = 'E')
  · obtain ⟨mark, r, rfl, hmark⟩ := hmark
    rw [readScale_mark negative x plain hmark] at h
    obtain ⟨used, rfl, hgrammar, htakes⟩ := readExponent_off h
    refine ⟨mark :: used, rfl, .exponent hmark hgrammar, fun rest hr => ?_⟩
    rw [List.cons_append, readScale_mark negative x plain hmark]
    exact htakes rest hr
  · rw [readScale_over negative x plain fun c r hs hc => hmark ⟨c, r, hs, hc⟩] at h
    obtain ⟨m, hm, h⟩ := bind_ok h
    cases h
    refine ⟨[], rfl, .none, fun rest hr => ?_⟩
    have hover : ∀ c r, rest = c :: r → ¬(c = 'e' ∨ c = 'E') := fun c r hs hc =>
      hc.elim (hr c r hs).2.2.1 (hr c r hs).2.2.2
    rw [List.nil_append, readScale_over negative x plain hover, hm]
    rfl

end Scales

section Numerals

variable {negative : Bool} {x : Significand} {s t : List Char} {n : Number}

theorem readFraction_digits {ds rest : List Char} (hne : ds ≠ []) (hrun : digitRun s = (ds, rest)) :
    readFraction negative x s =
      (let x := ds.foldl Significand.pushFraction { x with full := false }
      readScale negative x (x.toFloat negative 0) rest) := by
  obtain ⟨d, ds, rfl⟩ := List.exists_cons_of_ne_nil hne
  simp only [readFraction, hrun]
  rfl

theorem readFraction_off (h : readFraction negative x s = .ok (n, t)) :
    ReadsOff (fun s t => ∃ u, Grammar.Digits s u ∧ Grammar.Scale u t) (readFraction negative x)
      s t n := by
  obtain ⟨ds, rest, hrun, hs, hds⟩ := digitRun_split s
  have hne : ds ≠ [] := by
    rintro rfl
    unfold readFraction at h
    rw [hrun] at h
    cases rest <;> cases h
  rw [readFraction_digits hne hrun] at h
  obtain ⟨used, rfl, hgrammar, htakes⟩ := readScale_off h
  refine ⟨ds ++ used, by rw [hs, List.append_assoc], ⟨used, digits_grammar hds hne used, hgrammar⟩,
    fun later hl => ?_⟩
  have hbehind : NoDigit (used ++ later) := by
    cases hgrammar with
    | none => exact hl.noDigit
    | exponent hm _ => exact noDigit_cons (Grammar.mark_not_digit hm).1 _
  rw [List.append_assoc, readFraction_digits hne (digitRun_digits hds hbehind)]
  exact htakes later hl

theorem readNumberTail_point (negative : Bool) (x : Significand) (r : List Char) :
    readNumberTail negative x ('.' :: r) = readFraction negative x r := rfl

theorem readNumberTail_scale (negative : Bool) (x : Significand) (hs : ∀ r, s ≠ '.' :: r) :
    readNumberTail negative x s = readScale negative x (x.toNumber negative) s := by
  unfold readNumberTail
  split
  next r => exact absurd rfl (hs r)
  next => rfl
  next => rfl
  next _ he hE =>
    refine (readScale_over negative x _ fun c r hc hmark => ?_).symm
    exact hmark.elim (fun h => he r (h ▸ hc)) fun h => hE r (h ▸ hc)

theorem readNumberTail_over (negative : Bool) (x : Significand) (hs : Delimited s) :
    readNumberTail negative x s = (do
      let n ← x.toNumber negative
      return (n, s)) := by
  rw [readNumberTail_scale negative x fun r he => (hs _ r he).2.1 rfl]
  exact readScale_over negative x _ fun c r he hmark =>
    hmark.elim (hs c r he).2.2.1 (hs c r he).2.2.2

theorem readNumberTail_off (h : readNumberTail negative x s = .ok (n, t)) :
    ReadsOff Grammar.Fraction (readNumberTail negative x) s t n := by
  by_cases hpoint : ∃ r, s = '.' :: r
  · obtain ⟨r, rfl⟩ := hpoint
    rw [readNumberTail_point] at h
    obtain ⟨used, rfl, ⟨u, hdigits, hscale⟩, htakes⟩ := readFraction_off h
    exact ⟨'.' :: used, rfl, .point hdigits hscale, htakes⟩
  · rw [readNumberTail_scale negative x fun r hs => hpoint ⟨r, hs⟩] at h
    obtain ⟨used, rfl, hgrammar, htakes⟩ := readScale_off h
    refine ⟨used, rfl, .none hgrammar, fun rest hr => ?_⟩
    have hfirst : ∀ r, used ++ rest ≠ '.' :: r := by
      intro r hs
      cases hgrammar with
      | none => exact (hr _ r hs).2.1 rfl
      | exponent hm _ => exact (Grammar.mark_not_digit hm).2 (List.cons.inj hs).1
    rw [readNumberTail_scale negative x hfirst]
    exact htakes rest hr

theorem Grammar.Fraction.noDigit {used : List Char} (h : Grammar.Fraction used []) {rest : List Char}
    (hr : Delimited rest) : NoDigit (used ++ rest) := by
  cases h with
  | point _ _ => exact noDigit_cons rfl _
  | none hs =>
    cases hs with
    | none => exact hr.noDigit
    | exponent hm _ => exact noDigit_cons (Grammar.mark_not_digit hm).1 _

theorem readNumber_zero (negative : Bool) (hs : NoDigit s) :
    readNumber negative ('0' :: s) = readNumberTail negative ⟨0, 0, false⟩ s := by
  cases s with
  | nil => rfl
  | cons c r =>
    have hc := hs c r rfl
    simp only [readNumber, hc]
    rfl

theorem readNumber_digits (negative : Bool) {c : Char} {ds rest r : List Char} (hc : c.isDigit = true)
    (h0 : c ≠ '0') (hrun : digitRun (c :: r) = (ds, rest)) :
    readNumber negative (c :: r) =
      readNumberTail negative (ds.foldl Significand.pushInteger ⟨0, 0, false⟩) rest := by
  unfold readNumber
  split
  next he => cases he
  next he => exact absurd (List.cons.inj he).1 h0
  next he =>
    cases he
    rw [if_pos hc, hrun]

/-- What is read as a number is a numeral, which is read as that number wherever it stands. -/
theorem readNumber_off (h : readNumber negative s = .ok (n, t)) :
    ReadsOff Grammar.Numeral (readNumber negative) s t n := by
  cases s with
  | nil => cases h
  | cons c r =>
    by_cases h0 : c = '0'
    · subst h0
      have hr : NoDigit r := by
        rintro c s rfl
        by_contra hc
        simp only [readNumber, Bool.not_eq_false] at h hc
        rw [if_pos hc] at h
        cases h
      rw [readNumber_zero negative hr] at h
      obtain ⟨used, rfl, hgrammar, htakes⟩ := readNumberTail_off h
      refine ⟨'0' :: used, rfl, .zero hgrammar, fun rest hrest => ?_⟩
      rw [List.cons_append, readNumber_zero negative (hgrammar.noDigit hrest)]
      exact htakes rest hrest
    · have hc : c.isDigit = true := by
        by_contra hc
        unfold readNumber at h
        split at h
        next => cases h
        next he => exact h0 (List.cons.inj he).1
        next he =>
          cases he
          rw [if_neg hc] at h
          cases h
      obtain ⟨ds, rest, hrun, hs, hds⟩ := digitRun_split r
      have hrun' : digitRun (c :: r) = (c :: ds, rest) := by rw [digitRun, if_pos hc, hrun]
      rw [readNumber_digits negative hc h0 hrun'] at h
      obtain ⟨used, rfl, hgrammar, htakes⟩ := readNumberTail_off h
      refine ⟨c :: (ds ++ used), by rw [hs]; simp,
        .digits hc h0 (digitRun_grammar hds used) hgrammar, fun later hl => ?_⟩
      have hbehind : digitRun (c :: (ds ++ (used ++ later))) = (c :: ds, used ++ later) := by
        rw [digitRun, if_pos hc, digitRun_digits hds (hgrammar.noDigit hl)]
      rw [List.cons_append, List.append_assoc, readNumber_digits negative hc h0 hbehind]
      exact htakes later hl

end Numerals

end RoomCast
