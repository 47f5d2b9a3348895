import RoomCast.Numeral

namespace RoomCast

/-- Whether a text is a numeral for a number: one plus sign at most, and behind it digits, of which there
is one at least. -/
def SpellsNumber (text : String) (n : Nat) : Prop :=
  ∃ ds : List Char, ds ≠ [] ∧ (∀ d ∈ ds, d.isDigit = true) ∧ Nat.ofDigitChars 10 ds 0 = n ∧
    (text.toList = ds ∨ text.toList = '+' :: ds)

theorem ofDigitChars_ge (ds : List Char) (k : Nat) : k ≤ Nat.ofDigitChars 10 ds k := by
  induction ds generalizing k with
  | nil => exact Nat.le_of_eq Nat.ofDigitChars_nil.symm
  | cons c ds ih =>
    rw [Nat.ofDigitChars_cons]
    exact Nat.le_trans (by omega) (ih _)

theorem ofDigitChars_step (c : Char) (ds : List Char) (n : Nat) :
    Nat.ofDigitChars 10 (c :: ds) n = Nat.ofDigitChars 10 ds (n * 10 + digitValue c) := by
  rw [Nat.ofDigitChars_cons, Nat.mul_comm, digitValue]

theorem digitsValue_eq (ds : List Char) : digitsValue ds = Nat.ofDigitChars 10 ds 0 := by
  have hfold : ∀ k, ds.foldl (fun n c => n * 10 + digitValue c) k = Nat.ofDigitChars 10 ds k := by
    induction ds with
    | nil => exact fun _ => Nat.ofDigitChars_nil.symm
    | cons c ds ih =>
      intro k
      rw [List.foldl_cons, ih, ofDigitChars_step]
  exact hfold 0

section Words

variable {limit : Nat}

theorem pushDigit_iff {n m : Nat} {c : Char} :
    pushDigit? limit n c = some m ↔ c.isDigit = true ∧ n * 10 + digitValue c = m ∧ m ≤ limit := by
  unfold pushDigit?
  split
  next h =>
    constructor
    · intro hm
      cases hm
      exact ⟨h.1, rfl, h.2⟩
    · rintro ⟨_, rfl, _⟩
      rfl
  next h =>
    constructor
    · intro hm
      cases hm
    · rintro ⟨hc, rfl, hle⟩
      exact absurd ⟨hc, hle⟩ h

/-- A word takes digits exactly if the whole number fits. The induction is on the digits, and no number on
the way is greater than the one at the end. -/
theorem foldlM_pushDigit_iff {ds : List Char} {n m : Nat} (hn : n ≤ limit) :
    ds.foldlM (pushDigit? limit) n = some m ↔
      (∀ d ∈ ds, d.isDigit = true) ∧ Nat.ofDigitChars 10 ds n = m ∧ m ≤ limit := by
  induction ds generalizing n with
  | nil =>
    rw [List.foldlM_nil, Nat.ofDigitChars_nil]
    constructor
    · intro h
      cases h
      exact ⟨by simp, rfl, hn⟩
    · rintro ⟨_, rfl, _⟩
      rfl
  | cons c ds ih =>
    rw [List.foldlM_cons, ofDigitChars_step, List.forall_mem_cons]
    constructor
    · intro h
      obtain ⟨k, hk, hrest⟩ := Option.bind_eq_some_iff.mp h
      obtain ⟨hc, rfl, hle⟩ := pushDigit_iff.mp hk
      obtain ⟨hds, hvalue, hm⟩ := (ih hle).mp hrest
      exact ⟨⟨hc, hds⟩, hvalue, hm⟩
    · rintro ⟨⟨hc, hds⟩, hvalue, hm⟩
      have hgrow := ofDigitChars_ge ds (n * 10 + digitValue c)
      have hle : n * 10 + digitValue c ≤ limit := by omega
      exact Option.bind_eq_some_iff.mpr
        ⟨_, pushDigit_iff.mpr ⟨hc, rfl, hle⟩, (ih hle).mpr ⟨hds, hvalue, hm⟩⟩

theorem spellsNumber_iff {text : String} {n : Nat} :
    SpellsNumber text n ↔ numeralDigits text.toList ≠ [] ∧
      (∀ d ∈ numeralDigits text.toList, d.isDigit = true) ∧
      Nat.ofDigitChars 10 (numeralDigits text.toList) 0 = n := by
  unfold SpellsNumber
  generalize text.toList = s
  constructor
  · rintro ⟨ds, hne, hds, hvalue, rfl | rfl⟩
    · have hplain : numeralDigits s = s := by
        unfold numeralDigits
        split
        next => exact absurd (hds '+' List.mem_cons_self) (by decide)
        next => rfl
      rw [hplain]
      exact ⟨hne, hds, hvalue⟩
    · exact ⟨hne, hds, hvalue⟩
  · rintro ⟨hne, hds, hvalue⟩
    refine ⟨numeralDigits s, hne, hds, hvalue, ?_⟩
    unfold numeralDigits
    split
    next => exact .inr rfl
    next => exact .inl rfl

theorem numeralValue_iff {text : String} {n : Nat} :
    numeralValue? text = some n ↔ SpellsNumber text n := by
  rw [spellsNumber_iff, numeralValue?, digitsValue_eq]
  split
  next h =>
    rw [Option.some.injEq]
    exact ⟨fun hn => ⟨h.1, List.all_eq_true.mp h.2, hn⟩, fun hs => hs.2.2⟩
  next h =>
    constructor
    · intro hn
      cases hn
    · rintro ⟨hne, hds, _⟩
      exact absurd ⟨hne, List.all_eq_true.mpr hds⟩ h

/-- A word takes exactly the numerals of the numbers that it holds. -/
theorem wordValue_iff {text : String} {n : Nat} :
    wordValue? limit text = some n ↔ SpellsNumber text n ∧ n ≤ limit := by
  rw [spellsNumber_iff, wordValue?]
  split
  next hnil => simp [hnil]
  next hne =>
    rw [foldlM_pushDigit_iff (Nat.zero_le limit)]
    exact ⟨fun ⟨hds, hvalue, hle⟩ => ⟨⟨hne, hds, hvalue⟩, hle⟩,
      fun ⟨⟨_, hds, hvalue⟩, hle⟩ => ⟨hds, hvalue, hle⟩⟩

theorem numeralBetween_iff {text : String} {lo hi n : Nat} :
    numeralBetween? lo hi text = some n ↔ SpellsNumber text n ∧ lo ≤ n ∧ n ≤ hi := by
  rw [← numeralValue_iff, numeralBetween?]
  cases numeralValue? text with
  | none => simp
  | some m => grind

theorem wordBetween_eq {lo hi : Nat} (h : hi ≤ limit) (text : String) :
    wordBetween? limit lo hi text = numeralBetween? lo hi text := by
  refine Option.ext fun n => ?_
  have hword : wordBetween? limit lo hi text = some n ↔
      wordValue? limit text = some n ∧ lo ≤ n ∧ n ≤ hi := by
    unfold wordBetween?
    cases wordValue? limit text with
    | none => simp
    | some m => grind
  rw [hword, wordValue_iff, numeralBetween_iff]
  constructor
  · rintro ⟨⟨hs, _⟩, hrange⟩
    exact ⟨hs, hrange⟩
  · rintro ⟨hs, hrange⟩
    exact ⟨⟨hs, Nat.le_trans hrange.2 h⟩, hrange⟩

end Words

end RoomCast
