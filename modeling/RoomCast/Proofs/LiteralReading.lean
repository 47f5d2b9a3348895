import RoomCast.Proofs.GrammarScan

namespace RoomCast

section Moves

variable {s text rest : List Char}

theorem readLiteral_stay {spot spot' : LiteralSpot} {c : Char} {emitted : List Char}
    (hm : spot.move c s = .stay emitted spot') (h : readLiteral spot' s = .ok (text, rest)) :
    readLiteral spot (c :: s) = .ok (emitted ++ text, rest) := by
  simp only [readLiteral, hm, h, bind, Except.bind, pure, Except.pure]

theorem readLiteral_pass {spot spot' : LiteralSpot} {c : Char}
    (hm : spot.move c s = .stay [] spot') (h : readLiteral spot' s = .ok (text, rest)) :
    readLiteral spot (c :: s) = .ok (text, rest) :=
  readLiteral_stay hm h

theorem readLiteral_digits {digits emitted : List Char} {value n missing : Nat} {high : Option Nat}
    {spot : LiteralSpot} (hlen : digits.length = missing + 1)
    (hn : Grammar.hexValue value digits = some n)
    (hunit : LiteralMove.ofUnit n high = .stay emitted spot)
    (h : readLiteral spot s = .ok (text, rest)) :
    readLiteral (.hex (missing + 1) value high) (digits ++ s) = .ok (emitted ++ text, rest) := by
  induction digits generalizing value missing with
  | nil => cases hlen
  | cons c digits ih =>
    obtain ⟨d, hd, hn⟩ := Option.bind_eq_some_iff.mp hn
    cases digits with
    | nil =>
      cases hlen
      cases hn
      refine readLiteral_stay ?_ h
      simp only [LiteralSpot.move, hd, if_true, hunit]
    | cons c' digits =>
      obtain ⟨missing, rfl⟩ : ∃ n, missing = n + 1 := ⟨digits.length, by simpa using hlen.symm⟩
      refine readLiteral_pass ?_ (ih (Nat.succ.inj hlen) hn)
      simp [LiteralSpot.move, hd]

end Moves

namespace Grammar

variable {v w s t u : List Char}

/-- A literal is read as what it spells. -/
theorem Spelling.read (h : Spelling v s t) : readLiteral .plain s = .ok (v, t) := by
  induction h with
  | close => rfl
  | @plain v c s t hq he hx _ ih =>
    have hmove : LiteralSpot.plain.move c s = .stay [c] .plain := by
      rw [LiteralSpot.move, if_neg hq, if_neg he, if_neg (Nat.not_lt.mpr hx)]
    exact readLiteral_stay hmove ih
  | @short v c d s t hd _ ih =>
    have hu : c ≠ 'u' := by
      rintro rfl
      cases hd
    have hmove : LiteralSpot.escape.move c s = .stay [d] .plain := by
      simp only [LiteralSpot.move, if_neg hu, hd]
    exact readLiteral_pass (by rfl) (readLiteral_stay hmove ih)
  | @unit v digits s t n hn hl hh _ ih =>
    have hunit : LiteralMove.ofUnit n none = .stay [Char.ofNat n] .plain := by
      simp [LiteralMove.ofUnit, hl, hh]
    exact readLiteral_pass (by rfl) (readLiteral_pass (by rfl)
      (readLiteral_digits hn.1 hn.2 hunit ih))
  | @pair v high low s t m n hm hh hn hl _ ih =>
    have hlone : isLowSurrogate m = false := by
      simp only [isHighSurrogate, isLowSurrogate, Bool.and_eq_true, decide_eq_true_eq,
        Bool.and_eq_false_iff, decide_eq_false_iff_not] at hh ⊢
      omega
    have hhigh : LiteralMove.ofUnit m none = .stay [] (.paired m) := by
      simp [LiteralMove.ofUnit, hlone, hh]
    have hlow : LiteralMove.ofUnit n (some m) = .stay [surrogateChar m n] .plain := by
      simp [LiteralMove.ofUnit, hl]
    have hsecond : readLiteral (.paired m) ('\\' :: 'u' :: (low ++ s)) =
        .ok (surrogateChar m n :: v, t) :=
      readLiteral_pass (by rfl) (readLiteral_pass (by rfl) (readLiteral_digits hn.1 hn.2 hlow ih))
    exact readLiteral_pass (by rfl) (readLiteral_pass (by rfl)
      (readLiteral_digits hm.1 hm.2 hhigh hsecond))

/-- A literal spells one text, and ends at one place. -/
theorem Spelling.unique (h : Spelling v s t) (h' : Spelling w s u) : v = w ∧ t = u :=
  Prod.mk.inj (Except.ok.inj (h.read.symm.trans h'.read))

theorem Spelling.append (h : Spelling v s t) (r : List Char) : Spelling v (s ++ r) (t ++ r) := by
  induction h with
  | close => exact .close
  | plain hq he hx _ ih => exact .plain hq he hx ih
  | short hd _ ih => exact .short hd ih
  | @unit v digits s t n hn hl hh _ ih =>
    have hshift : '\\' :: 'u' :: (digits ++ s) ++ r = '\\' :: 'u' :: (digits ++ (s ++ r)) := by simp
    rw [hshift]
    exact .unit hn hl hh ih
  | @pair v high low s t m n hm hh hn hl _ ih =>
    have hshift : '\\' :: 'u' :: (high ++ '\\' :: 'u' :: (low ++ s)) ++ r =
        '\\' :: 'u' :: (high ++ '\\' :: 'u' :: (low ++ (s ++ r))) := by simp
    rw [hshift]
    exact .pair hm hh hn hl ih

theorem Spelling.length_lt (h : Spelling v s t) : v.length + t.length < s.length := by
  induction h with
  | close => simp
  | plain _ _ _ _ ih | short _ _ ih | unit _ _ _ _ ih | pair _ _ _ _ _ ih =>
    simp only [List.length_cons, List.length_append]
    omega

theorem hexDigit_hexChar : ∀ n < 16, hexDigit? (hexChar n) = some n := by decide

theorem Spelling.control {c : Char} (hc : c.toNat < 0x20) (h : Spelling v s t) :
    Spelling (c :: v) ('\\' :: 'u' :: ('0' :: '0' :: hexChar (c.toNat / 16) ::
      hexChar (c.toNat % 16) :: s)) t := by
  have hhigh := hexDigit_hexChar (c.toNat / 16) (by omega)
  have hlow := hexDigit_hexChar (c.toNat % 16) (by omega)
  have hzero : hexDigit? '0' = some 0 := rfl
  have hvalue : c.toNat / 16 * 16 + c.toNat % 16 = c.toNat := by omega
  have hunit : HexUnit ['0', '0', hexChar (c.toNat / 16), hexChar (c.toNat % 16)] c.toNat := by
    refine ⟨rfl, ?_⟩
    simp only [hexValue, hzero, hhigh, hlow, Option.bind_some, Nat.zero_mul, Nat.zero_add, hvalue]
  have hplain : isLowSurrogate c.toNat = false ∧ isHighSurrogate c.toNat = false := by
    simp only [isLowSurrogate, isHighSurrogate, Bool.and_eq_false_iff, decide_eq_false_iff_not]
    omega
  have hspells := Spelling.unit hunit hplain.1 hplain.2 h
  rw [Char.ofNat_toNat] at hspells
  exact hspells

theorem Spelling.escaped (c : Char) (h : Spelling v s t) : Spelling (c :: v) (escapedChar c ++ s) t := by
  unfold escapedChar
  split
  -- seven characters have an escape of one letter
  iterate 7 exact .short rfl h
  next hquote hback _ _ _ _ _ =>
    split
    next hc => exact h.control hc
    next hc => exact .plain hquote hback (Nat.le_of_not_lt hc) h

theorem spelling_written (v rest : List Char) :
    Spelling v (v.flatMap escapedChar ++ '"' :: rest) rest := by
  induction v with
  | nil => exact .close
  | cons c v ih =>
    rw [List.flatMap_cons, List.append_assoc]
    exact ih.escaped c

end Grammar

open Grammar (Spelling)

theorem readText_spelling {v : String} {s t : List Char} (h : Spelling v.toList s t) :
    readText s = .ok (v, t) := by
  simp only [readText, h.read, bind, Except.bind, pure, Except.pure, String.ofList_toList]

namespace Fragment

variable {f : Fragment} {v w : String}

/-- A fragment spells one text. -/
theorem Spells.unique (h : f.Spells v) (h' : f.Spells w) : v = w := by
  obtain ⟨s, hs, hv⟩ := h
  obtain ⟨s', hs', hw⟩ := h'
  rw [hs] at hs'
  cases hs'
  exact String.toList_inj.mp (hv.unique hw).1

theorem Spells.length_lt (h : f.Spells v) : v.toList.length < f.text.toList.length := by
  obtain ⟨s, hs, hv⟩ := h
  have hlen := hv.length_lt
  rw [hs, List.length_cons]
  omega

theorem spells_of_read {s : List Char} (hs : f.text.toList = '"' :: s)
    (hread : readText s = .ok (v, [])) : f.Spells v := by
  obtain ⟨used, hused, hspells⟩ := readText_spells hread
  rw [List.append_nil] at hused
  exact ⟨used, hused ▸ hs, hspells⟩

theorem spells_literal (v : String) : (Fragment.mk (String.ofList (literal v))).Spells v := by
  refine ⟨v.toList.flatMap escapedChar ++ ['"'], ?_, Grammar.spelling_written v.toList []⟩
  simp [literal]

end Fragment

theorem Fragment.Spells.read {f : Fragment} {v : String} (h : f.Spells v) (expected : String) :
    Reader.Reads (readTextValue expected) f v := by
  intro before rest hb _
  obtain ⟨s, hs, hv⟩ := h
  have hstart : skipBlanks (before ++ (f.text.toList ++ rest)) = '"' :: (s ++ rest) := by
    rw [hs]
    exact skipBlanks_prefix hb rfl _
  have hread : readText (s ++ rest) = .ok (v, rest) := readText_spelling (hv.append rest)
  simp only [readTextValue, hstart, if_true, hread]

end RoomCast
