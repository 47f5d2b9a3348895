import Mathlib.Data.List.Forall2
import RoomCast.Publish

namespace RoomCast

theorem bind_ok {ε α β : Type} {x : Except ε α} {f : α → Except ε β} {b : β}
    (h : x >>= f = .ok b) : ∃ a, x = .ok a ∧ f a = .ok b := by
  cases x with
  | error cause => cases h
  | ok a => exact ⟨a, rfl, h⟩

theorem readWord_ok {word s t : List Char} (h : readWord word s = .ok t) : s = word ++ t := by
  induction word generalizing s with
  | nil => exact Except.ok.inj h
  | cons w word ih =>
    cases s with
    | nil => cases h
    | cons c r =>
      rw [readWord] at h
      split at h
      next hc => rw [hc, ih h, List.cons_append]
      next => cases h

theorem readWord_word (word rest : List Char) : readWord word (word ++ rest) = .ok rest := by
  induction word with
  | nil => rfl
  | cons w word ih => rw [List.cons_append, readWord, if_pos rfl, ih]

theorem atValue_go (brackets : List Bracket) (c : Char) : ScanMove.atValue brackets c ≠ .stop := by
  unfold ScanMove.atValue
  repeat' split
  all_goals simp

theorem atKey_go (brackets : List Bracket) (c : Char) : ScanMove.atKey brackets c ≠ .stop := by
  unfold ScanMove.atKey
  repeat' split
  all_goals simp

theorem atEnd_stop {brackets : List Bracket} {c : Char} (h : ScanMove.atEnd brackets c = .stop) :
    missingBracket brackets = none := by
  cases brackets with
  | nil => rfl
  | cons bracket outer =>
    cases bracket <;> simp only [ScanMove.atEnd] at h <;> repeat' split at h
    all_goals simp at h

theorem atOpened_stop {brackets : List Bracket} {c : Char}
    (h : ScanMove.atOpened brackets c = .stop) : missingBracket brackets = none := by
  cases brackets with
  | nil => rfl
  | cons bracket outer =>
    cases bracket <;> simp only [ScanMove.atOpened] at h <;> repeat' split at h
    all_goals first
      | simp at h
      | exact absurd h (atValue_go _ _)
      | exact absurd h (atKey_go _ _)

/-- A scan stops only where the text might as well end. -/
theorem move_stop {spot : ScanSpot} {brackets : List Bracket} {c : Char} {r : List Char}
    (h : spot.move brackets c r = .stop) : spot.endFault brackets = none := by
  cases spot with
  | value => exact absurd h (atValue_go _ _)
  | opened => exact atOpened_stop h
  | key => exact absurd h (atKey_go _ _)
  | ended => exact atEnd_stop h
  | word letters =>
    cases letters with
    | nil => exact atEnd_stop h
    | cons w ws =>
      simp only [ScanSpot.move] at h
      split at h <;> simp at h
  | colon | text isKey | escape isKey | hex isKey missing | minus | point | exponentMark
  | exponentSign =>
    -- something has to follow, so no character is left for what comes behind the value
    simp only [ScanSpot.move] at h
    repeat' split at h
    all_goals simp at h
  | zero | integer | fraction | exponent =>
    -- a numeral may be over
    simp only [ScanSpot.move] at h
    repeat' split at h
    all_goals first | exact atEnd_stop h | simp at h

theorem move_go {spot spot' : ScanSpot} {brackets brackets' : List Bracket} {c : Char}
    {r : List Char} (h : spot.move brackets c r = .go brackets' spot') (r' : List Char) :
    spot.move brackets c r' = .go brackets' spot' := by
  cases spot with
  | hex isKey missing =>
    simp only [ScanSpot.move] at h ⊢
    split at h
    next hd => rw [if_pos hd]; exact h
    next => simp at h
  | word letters => cases letters <;> exact h
  | _ => exact h

theorem scan_suffix {brackets : List Bracket} {spot : ScanSpot} {s rest : List Char}
    (h : scan brackets spot s = .ok rest) : ∃ used, s = used ++ rest := by
  induction s generalizing brackets spot with
  | nil =>
    unfold scan at h
    split at h
    next => simp at h
    next => exact ⟨[], by rw [← Except.ok.inj h]; rfl⟩
  | cons c r ih =>
    unfold scan at h
    split at h
    next => exact ⟨[], (Except.ok.inj h).symm ▸ rfl⟩
    next =>
      obtain ⟨used, hused⟩ := ih h
      exact ⟨c :: used, by rw [hused]; rfl⟩
    next => simp at h

theorem scan_used {brackets : List Bracket} {spot : ScanSpot} {used rest : List Char}
    (h : scan brackets spot (used ++ rest) = .ok rest) : scan brackets spot used = .ok [] := by
  induction used generalizing brackets spot with
  | nil =>
    have hend : spot.endFault brackets = none := by
      cases rest with
      | nil =>
        rw [List.append_nil, scan] at h
        split at h
        next => simp at h
        next hn => exact hn
      | cons c r =>
        rw [List.nil_append, scan] at h
        split at h
        next hm => exact move_stop hm
        next =>
          -- a scan that goes on ends behind the character
          obtain ⟨used, hused⟩ := scan_suffix h
          have hl := congrArg List.length hused
          simp only [List.length_append, List.length_cons] at hl
          omega
        next => simp at h
    rw [scan, hend]
  | cons c used ih =>
    rw [List.cons_append, scan] at h
    split at h
    next =>
      have hl := congrArg List.length (Except.ok.inj h)
      simp only [List.length_cons, List.length_append] at hl
      omega
    next brackets' spot' hm =>
      rw [scan, move_go hm used]
      exact ih h
    next => simp at h

def Blanks (s : List Char) : Prop := ∀ c ∈ s, isBlank c = true

theorem blanks_nil : Blanks [] := by simp [Blanks]

theorem skipBlanks_split (s : List Char) : ∃ blanks, Blanks blanks ∧ s = blanks ++ skipBlanks s := by
  induction s with
  | nil => exact ⟨[], blanks_nil, rfl⟩
  | cons c r ih =>
    by_cases hc : isBlank c
    · obtain ⟨blanks, hb, he⟩ := ih
      refine ⟨c :: blanks, ?_, ?_⟩
      · intro d hd
        rcases List.mem_cons.mp hd with rfl | hd
        · exact hc
        · exact hb d hd
      · rw [skipBlanks, if_pos hc, List.cons_append, ← he]
    · exact ⟨[], blanks_nil, by simp [skipBlanks, hc]⟩

theorem skipBlanks_head {s r : List Char} {c : Char} (h : skipBlanks s = c :: r) :
    isBlank c = false := by
  induction s with
  | nil => simp [skipBlanks] at h
  | cons d s ih =>
    by_cases hd : isBlank d
    · rw [skipBlanks, if_pos hd] at h
      exact ih h
    · rw [skipBlanks, if_neg hd] at h
      rw [← (List.cons.inj h).1]
      simpa using hd

theorem skipBlanks_nil {s : List Char} (h : skipBlanks s = []) : Blanks s := by
  obtain ⟨blanks, hb, he⟩ := skipBlanks_split s
  rw [h, List.append_nil] at he
  exact he ▸ hb

/-- Whether a fragment is one value without blanks around it. -/
def Fragment.Whole (f : Fragment) : Prop := Fragment.ofString f.text = .ok f

theorem read_value {s rest : List Char} {f : Fragment} (h : Fragment.read s = .ok (f, rest)) :
    skipBlanks s = f.text.toList ++ rest ∧ skipValue (skipBlanks s) = .ok rest := by
  obtain ⟨_, hv, h⟩ := bind_ok h
  cases h
  refine ⟨?_, hv⟩
  obtain ⟨used, hused⟩ := scan_suffix hv
  simp [hused]

/-- Whether a text starts, behind blanks, with a fragment, and what is left behind it. -/
def Starts (f : Fragment) (s t : List Char) : Prop :=
  ∃ blanks, Blanks blanks ∧ s = blanks ++ f.text.toList ++ t ∧ f.Whole

theorem Starts.length_le {f : Fragment} {s t : List Char} (h : Starts f s t) :
    f.text.toList.length ≤ s.length := by
  obtain ⟨blanks, _, rfl, _⟩ := h
  simp only [List.length_append]
  omega

/-- A fragment is what stands in the text. -/
theorem read_verbatim {s rest : List Char} {f : Fragment} (h : Fragment.read s = .ok (f, rest)) :
    Starts f s rest := by
  obtain ⟨blanks, hb, hs⟩ := skipBlanks_split s
  obtain ⟨htext, hvalue⟩ := read_value h
  refine ⟨blanks, hb, by rw [List.append_assoc, ← htext]; exact hs, ?_⟩
  have hused : skipValue f.text.toList = .ok [] := by
    rw [htext] at hvalue
    exact scan_used hvalue
  have hstart : skipBlanks f.text.toList = f.text.toList := by
    cases ht : f.text.toList with
    | nil => rfl
    | cons c r =>
      rw [ht, List.cons_append] at htext
      rw [skipBlanks, if_neg (by simp [skipBlanks_head htext])]
  simp only [Fragment.Whole, Fragment.ofString, Reader.readAll, Fragment.read, hstart, hused, bind,
    Except.bind, pure, Except.pure, finishText, skipBlanks]
  simp

inductive MoreItems : List Fragment → List Char → Prop where
  | close {blanks : List Char} : Blanks blanks → MoreItems [] (blanks ++ [']'])
  | item {before after s : List Char} {f : Fragment} {fs : List Fragment} : Blanks before →
      Blanks after → f.Whole → MoreItems fs s →
      MoreItems (f :: fs) (before ++ ',' :: after ++ f.text.toList ++ s)

inductive ItemsText : List Fragment → List Char → Prop where
  | close {blanks : List Char} : Blanks blanks → ItemsText [] (blanks ++ [']'])
  | item {before s : List Char} {f : Fragment} {fs : List Fragment} : Blanks before → f.Whole →
      MoreItems fs s → ItemsText (f :: fs) (before ++ f.text.toList ++ s)

/-- A text that is a list of some fragments, with blanks between the pieces. -/
def ListText (fs : List Fragment) (text : String) : Prop :=
  ∃ before items after, Blanks before ∧ Blanks after ∧ ItemsText fs items ∧
    text.toList = before ++ '[' :: items ++ after

theorem nextItem_first {s t : List Char} (h : nextItem true s = .ok (some t)) : t = skipBlanks s := by
  unfold nextItem at h
  split at h
  next => simp at h
  next c r hs =>
    by_cases hc : c = ']'
    · simp [hc] at h
    · simp only [hc, ↓reduceIte, Except.ok.injEq, Option.some.injEq] at h
      rw [hs, h]

theorem nextItem_more {s t : List Char} (h : nextItem false s = .ok (some t)) :
    ∃ r, skipBlanks s = ',' :: r ∧ t = skipBlanks r := by
  unfold nextItem at h
  split at h
  next => simp at h
  next c r hs =>
    by_cases hc : c = ']'
    · simp [hc] at h
    · by_cases hcomma : c = ','
      · simp only [hcomma, ↓reduceIte, Bool.false_eq_true] at h
        rw [if_neg (by decide)] at h
        split at h
        next => simp at h
        next d t' ht =>
          split at h
          next => simp at h
          next =>
            simp only [Except.ok.injEq, Option.some.injEq] at h
            exact ⟨r, by rw [hs, hcomma], by rw [ht, h]⟩
      · simp [hc, hcomma] at h

theorem closeList_ok {s rest : List Char} (h : closeList s = .ok rest) :
    skipBlanks s = ']' :: rest := by
  unfold closeList at h
  split at h
  next => simp at h
  next c r hs =>
    by_cases hc : c = ']'
    · rw [if_pos hc, Except.ok.injEq] at h
      rw [hs, hc, h]
    · rw [if_neg hc] at h
      repeat' split at h
      all_goals simp at h

theorem readItems_cases {α : Type} {item : Reader α} {rounds : Nat} {first : Bool}
    {s t : List Char} {as : List α} (h : readItems item (rounds + 1) first s = .ok (as, t)) :
    (nextItem first s = .ok none ∧ as = [] ∧ t = s) ∨
    ∃ start a behind more, nextItem first s = .ok (some start) ∧ item start = .ok (a, behind) ∧
      readItems item rounds false behind = .ok (more, t) ∧ as = a :: more := by
  obtain ⟨next, hn, h⟩ := bind_ok h
  cases next with
  | none =>
    cases h
    exact .inl ⟨hn, rfl, rfl⟩
  | some start =>
    obtain ⟨⟨a, behind⟩, hi, h⟩ := bind_ok h
    obtain ⟨⟨more, _⟩, hm, h⟩ := bind_ok h
    cases h
    exact .inr ⟨start, a, behind, more, hn, hi, hm, rfl⟩

theorem close_text {s rest : List Char} (h : skipBlanks s = ']' :: rest) :
    ∃ blanks, Blanks blanks ∧ s = blanks ++ [']'] ++ rest := by
  obtain ⟨blanks, hb, hs⟩ := skipBlanks_split s
  exact ⟨blanks, hb, by rw [List.append_assoc, List.singleton_append, ← h]; exact hs⟩

section Items

variable {α : Type} {item : Reader α} (Holds : Fragment → α → Prop)
  (hitem : ∀ {s t : List Char} {a : α}, item s = .ok (a, t) → ∃ f, Starts f s t ∧ Holds f a)

include hitem

theorem moreItems_text {rounds : Nat} {s t rest : List Char} {as : List α}
    (h : readItems item rounds false s = .ok (as, t)) (hc : closeList t = .ok rest) :
    ∃ fs items, List.Forall₂ Holds fs as ∧ MoreItems fs items ∧ s = items ++ rest := by
  induction rounds generalizing s as with
  | zero => simp [readItems] at h
  | succ rounds ih =>
    rcases readItems_cases h with ⟨_, rfl, rfl⟩ | ⟨start, a, behind, more, hn, ha, hm, rfl⟩
    · obtain ⟨blanks, hb, hs⟩ := close_text (closeList_ok hc)
      exact ⟨[], _, .nil, .close hb, hs⟩
    · obtain ⟨r, hcomma, rfl⟩ := nextItem_more hn
      obtain ⟨before, hb, hs⟩ := skipBlanks_split s
      obtain ⟨after, hafter, hr⟩ := skipBlanks_split r
      obtain ⟨f, ⟨between, hbetween, hstart, hw⟩, hf⟩ := hitem ha
      obtain ⟨fs, items, hholds, hitems, hbehind⟩ := ih hm
      refine ⟨f :: fs, before ++ ',' :: (after ++ between) ++ f.text.toList ++ items,
        .cons hf hholds, ?_, ?_⟩
      · exact .item hb (List.forall_mem_append.mpr ⟨hafter, hbetween⟩) hw hitems
      · rw [hs, hcomma, hr, hstart, hbehind]
        simp only [List.append_assoc, List.cons_append]

theorem readList_text {s rest : List Char} {as : List α} (h : readList item s = .ok (as, rest)) :
    ∃ fs items, List.Forall₂ Holds fs as ∧ ItemsText fs items ∧ s = items ++ rest := by
  obtain ⟨⟨_, t⟩, hr, h⟩ := bind_ok h
  obtain ⟨_, hc, h⟩ := bind_ok h
  cases h
  rcases readItems_cases hr with ⟨_, rfl, rfl⟩ | ⟨start, a, later, more, hn, ha, hm, rfl⟩
  · obtain ⟨blanks, hb, hs⟩ := close_text (closeList_ok hc)
    exact ⟨[], _, .nil, .close hb, hs⟩
  · obtain ⟨before, hb, hs⟩ := skipBlanks_split s
    obtain ⟨f, ⟨between, hbetween, hstart, hw⟩, hf⟩ := hitem ha
    obtain ⟨fs, items, hholds, hitems, hlater⟩ := moreItems_text Holds hitem hm hc
    refine ⟨f :: fs, before ++ between ++ f.text.toList ++ items, .cons hf hholds,
      .item (List.forall_mem_append.mpr ⟨hb, hbetween⟩) hw hitems, ?_⟩
    rw [hs, ← nextItem_first hn, hstart, hlater]
    simp only [List.append_assoc]

end Items

theorem finishText_ok {rest : List Char} (h : finishText rest = .ok ()) : Blanks rest := by
  unfold finishText at h
  split at h
  next hb => exact skipBlanks_nil hb
  next => simp at h

theorem readAll_ok {α : Type} {reader : Reader α} {text : String} {a : α}
    (h : reader.readAll text = .ok a) :
    ∃ rest, reader text.toList = .ok (a, rest) ∧ Blanks rest := by
  obtain ⟨⟨_, rest⟩, hr, h⟩ := bind_ok h
  obtain ⟨_, hf, h⟩ := bind_ok h
  cases h
  exact ⟨rest, hr, finishText_ok hf⟩

/-- The fragments of a text are its items as they stand in it. -/
theorem fragmentsOf_text {text : String} {fs : List Fragment} (h : fragmentsOf text = some fs) :
    ListText fs text := by
  unfold fragmentsOf at h
  cases hall : readFragments.readAll text with
  | error cause => simp [hall, Except.toOption] at h
  | ok read =>
    have hread : read = fs := by simpa [hall, Except.toOption] using h
    obtain ⟨rest, hr, hblank⟩ := readAll_ok hall
    unfold readFragments at hr
    split at hr
    next => simp at hr
    next c r hs =>
      split at hr
      next hc =>
        obtain ⟨before, hb, htext⟩ := skipBlanks_split text.toList
        obtain ⟨gs, items, hsame, hitems, hr⟩ :=
          readList_text Eq (fun hf => ⟨_, read_verbatim hf, rfl⟩) hr
        rw [List.forall₂_eq_eq_eq] at hsame
        refine ⟨before, items, rest, hb, hblank, hread ▸ hsame ▸ hitems, ?_⟩
        rw [htext, hs, hc, hr, List.append_assoc, List.cons_append]
      next => simp at hr

end RoomCast
