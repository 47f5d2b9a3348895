import RoomCast.Proofs.OrderedMembers
import RoomCast.Proofs.ValueReading
import RoomCast.Proofs.WordNumerals
import RoomCast.Proofs.WrittenText

namespace RoomCast

open Grammar (Delimited)

section Numbers

def decimal (n : Nat) : List Char := Nat.toDigits 10 n

theorem decimal_digits (n : Nat) : ∀ d ∈ decimal n, d.isDigit = true :=
  fun _ hd => Nat.isDigit_of_mem_toDigits (by decide) (by decide) hd

theorem decimal_head (n : Nat) : ∃ c r, decimal n = c :: r ∧ (c = '0' → n = 0 ∧ r = []) := by
  induction n using Nat.strongRecOn with
  | _ n ih =>
    unfold decimal
    rw [Nat.toDigits_eq_if (by decide)]
    split
    next hlt =>
      refine ⟨_, _, rfl, fun hc => ⟨Nat.digitChar_eq_zero.mp hc, rfl⟩⟩
    next hge =>
      obtain ⟨c, r, hr, hzero⟩ := ih (n / 10) (by omega)
      unfold decimal at hr
      rw [hr]
      refine ⟨c, _, rfl, fun hc => ?_⟩
      have hnone := (hzero hc).1
      omega

theorem foldl_pushInteger {ds : List Char} {k : Nat} (h : Nat.ofDigitChars 10 ds k ≤ greatestWord) :
    ds.foldl Significand.pushInteger ⟨k, 0, false⟩ = ⟨Nat.ofDigitChars 10 ds k, 0, false⟩ := by
  induction ds generalizing k with
  | nil => rw [Nat.ofDigitChars_nil, List.foldl_nil]
  | cons c ds ih =>
    rw [Nat.ofDigitChars_cons] at h ⊢
    have hvalue : 10 * k + (c.toNat - '0'.toNat) = k * 10 + digitValue c := by
      rw [Nat.mul_comm, digitValue]
    have hfits : ¬greatestWord < k * 10 + digitValue c := by
      have hle := ofDigitChars_ge ds (10 * k + (c.toNat - '0'.toNat))
      omega
    have hpush : Significand.pushInteger ⟨k, 0, false⟩ c = ⟨k * 10 + digitValue c, 0, false⟩ := by
      simp [Significand.pushInteger, hfits]
    rw [List.foldl_cons, hpush, ← hvalue, ih h]

theorem readNumber_decimal {n : Nat} (h : n ≤ greatestWord) {rest : List Char} (hr : Delimited rest) :
    readNumber false (decimal n ++ rest) = .ok (.integer n, rest) := by
  obtain ⟨c, r, hd, hzero⟩ := decimal_head n
  -- only zero starts with a zero, and that is read apart from the other numbers
  by_cases hc : c = '0'
  · obtain ⟨rfl, rfl⟩ := hzero hc
    rw [hd, hc, List.singleton_append, readNumber_zero false hr.noDigit, readNumberTail_over false _ hr]
    rfl
  · have hdigits := decimal_digits n
    have hrun := digitRun_digits hdigits hr.noDigit
    have hvalue : Nat.ofDigitChars 10 (decimal n) 0 = n := Nat.ofDigitChars_ten_toDigits
    have hfold := @foldl_pushInteger (decimal n) 0 (by rwa [hvalue])
    rw [hvalue] at hfold
    have hfirst : c.isDigit = true := hdigits c (by simp [hd])
    have hread : readNumber false (decimal n ++ rest) = readNumberTail false
        ((decimal n).foldl Significand.pushInteger ⟨0, 0, false⟩) rest := by
      rw [hd, List.cons_append] at hrun ⊢
      exact readNumber_digits false hfirst hc hrun
    rw [hread, hfold, readNumberTail_over false _ hr]
    rfl

theorem decimal_numeral {n : Nat} (h : n ≤ greatestWord) : Grammar.Numeral (decimal n) [] := by
  have hread := readNumber_decimal h Grammar.delimited_nil
  rw [List.append_nil] at hread
  obtain ⟨used, hused, hnumeral, _⟩ := readNumber_off hread
  rwa [hused, List.append_nil]

end Numbers

namespace Json

def fragment (v : Json) : Fragment := ⟨v.toText⟩

@[simp] theorem fragment_toList (v : Json) : v.fragment.text.toList = v.written :=
  String.toList_ofList

def fragmentUnder (m : String × Json) : String × Fragment := (m.1, m.2.fragment)

theorem writtenItems_eq (items : List Json) : writtenItems items = piecesOf (items.map fragment) := by
  induction items with
  | nil => rfl
  | cons v items ih => simp only [writtenItems, ih, piecesOf, List.map_cons, fragment_toList]

theorem sortedItems_eq (items : List Json) : sortedItems items = items.map sorted := by
  induction items with
  | nil => rfl
  | cons v items ih => rw [sortedItems, ih, List.map_cons]

theorem writtenMembers_eq (ms : List (String × Json)) :
    writtenMembers ms = (ms.map fragmentUnder).map fun m => (m.1, m.2.text.toList) := by
  induction ms with
  | nil => rfl
  | cons m ms ih =>
    rw [writtenMembers, ih, List.map_cons, List.map_cons, fragmentUnder, fragment_toList]

theorem written_natural (n : Nat) : (Json.number (.integer n)).written = decimal n := Nat.toList_repr

theorem fragment_object (ms : List (String × Json)) :
    (Json.object ms).fragment = ⟨writtenObject (ms.map fragmentUnder)⟩ := by
  rw [writtenObject, ← writtenMembers_eq]
  rfl

/-- What records show: truth values, words and texts, and lists and objects of them in which `room`
containers are open at most; no `null`, and no embedded text. -/
inductive Storable : Nat → Json → Prop where
  | boolean {room : Nat} (b : Bool) : Storable room (.boolean b)
  | natural {room n : Nat} : n ≤ greatestWord → Storable room (.number (.integer n))
  | text {room : Nat} (s : String) : Storable room (.text s)
  | list {room : Nat} {items : List Json} : (∀ v ∈ items, Storable room v) →
      Storable (room + 1) (.list items)
  | object {room : Nat} {ms : List (String × Json)} : (∀ m ∈ ms, Storable room m.2) →
      (∀ m ∈ ms, m.1 ≠ embeddedKey) → Storable (room + 1) (.object ms)

/-- Whether a value is read from what it is written as, with its members in order, wherever that
stands. -/
structure Legible (room : Nat) (v : Json) : Prop where
  whole : v.fragment.Whole
  reads : ∀ embedded, Reader.Reads (readWithin embedded room) v.fragment v.sorted

theorem legible_of {room : Nat} {v : Json} {c : Char} {used : List Char} (hc : isBlank c = false)
    (hw : v.written = c :: used) (hv : Grammar.Value (c :: used) [])
    (hread : ∀ embedded rest, Delimited rest →
      readWithin embedded room (c :: (used ++ rest)) = .ok (v.sorted, rest)) : Legible room v where
  whole := by
    have hwhole := whole_of_value hc hv
    rwa [← hw] at hwhole
  reads embedded before rest hb hr := by
    rw [fragment_toList, hw, List.cons_append, readWithin_blanks hb hc]
    exact hread embedded rest hr

theorem natural_legible {room n : Nat} (h : n ≤ greatestWord) :
    Legible room (.number (.integer n)) := by
  obtain ⟨c, r, hd, _⟩ := decimal_head n
  have hdigit : c.isDigit = true := decimal_digits n c (by simp [hd])
  have hnumeral := decimal_numeral h
  rw [hd] at hnumeral
  have hwritten : (Json.number (.integer n)).written = c :: r := by rw [written_natural, hd]
  refine legible_of (Grammar.digit_not_blank hdigit) hwritten (.number hnumeral) ?_
  intro embedded rest hr
  have hread := readNumber_decimal h hr
  rw [hd] at hread
  exact readWithin_digit hdigit hread

theorem text_legible {room : Nat} (s : String) : Legible room (.text s) where
  whole := (Fragment.spells_literal s).whole
  reads embedded := spelled_reads (Fragment.spells_literal s) embedded room

theorem list_legible {room : Nat} {items : List Json} (h : ∀ v ∈ items, Legible room v) :
    Legible (room + 1) (.list items) := by
  have hwhole : ∀ f ∈ items.map fragment, f.Whole := List.forall_mem_map.mpr fun v hv => (h v hv).whole
  have hitems := (itemsText_written hwhole).grammar []
  rw [List.append_nil, ← writtenItems_eq] at hitems
  refine legible_of rfl rfl (.list hitems) fun embedded rest _ => ?_
  have hreads : List.Forall₂ (Reader.Reads (readWithin embedded room)) (items.map fragment)
      (sortedItems items) := by
    rw [sortedItems_eq, List.forall₂_map_left_iff, List.forall₂_map_right_iff, List.forall₂_same]
    exact fun v hv => (h v hv).reads embedded
  have hlist := (itemsText_written hwhole).read hreads rest
  rw [← writtenItems_eq] at hlist
  exact readWithin_list hlist

theorem object_legible {room : Nat} {ms : List (String × Json)} (h : ∀ m ∈ ms, Legible room m.2)
    (hkey : ∀ m ∈ ms, m.1 ≠ embeddedKey) : Legible (room + 1) (.object ms) := by
  have hwhole : ∀ m ∈ ms.map fragmentUnder, m.2.Whole :=
    List.forall_mem_map.mpr fun m hm => (h m hm).whole
  have htext := membersText_written hwhole
  have hmembers := htext.grammar []
  have hwritten : (Json.object ms).written =
      '\x7b' :: (commaSeparated ((ms.map fragmentUnder).map writtenMember) ++ ['\x7d']) := by
    rw [← fragment_toList, fragment_object, writtenObject_eq]
  rw [List.append_nil] at hmembers
  refine legible_of rfl hwritten (.object hmembers) fun embedded rest _ => ?_
  rw [readWithin_object]
  refine readObject_members htext ?_ ?_ rest
  · rw [sortedMembers_eq, List.forall₂_map_left_iff, List.forall₂_map_right_iff, List.forall₂_same]
    exact fun m hm => ⟨rfl, (h m hm).reads embedded⟩
  · intro m hm
    obtain ⟨n, hn, rfl⟩ := List.mem_map.mp (List.mem_of_mem_head? hm)
    exact hkey n hn

variable {room : Nat} {v : Json}

theorem Storable.legible (h : Storable room v) : Legible room v := by
  induction h with
  | boolean b =>
    cases b with
    | true => exact legible_of rfl rfl .true fun _ => fun rest _ => readWithin_true rest
    | false => exact legible_of rfl rfl .false fun _ => fun rest _ => readWithin_false rest
  | natural hn => exact natural_legible hn
  | text s => exact text_legible s
  | list _ ih => exact list_legible ih
  | object _ hkey ih => exact object_legible ih hkey

/-- A value that is written is parsed as it was, with its members in order. -/
theorem Storable.parse (h : Storable nestingLimit v) : Json.parse v.toText = .ok v.sorted :=
  (h.legible.reads (parseEmbedded v.toText.length)).alone

end Json

end RoomCast
