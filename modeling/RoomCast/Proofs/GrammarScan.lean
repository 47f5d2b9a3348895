import RoomCast.Proofs.RecordShape

namespace RoomCast

namespace Grammar

/-- Whether a text does not start with a character that would carry a numeral on. -/
def Delimited (s : List Char) : Prop :=
  ∀ c r, s = c :: r → c.isDigit = false ∧ c ≠ '.' ∧ c ≠ 'e' ∧ c ≠ 'E'

theorem delimited_nil : Delimited [] := by
  intro c r h
  cases h

theorem delimited_cons {c : Char} (hd : c.isDigit = false) (hp : c ≠ '.') (he : c ≠ 'e')
    (hE : c ≠ 'E') (s : List Char) : Delimited (c :: s) := by
  intro d r h
  obtain ⟨rfl, _⟩ := List.cons.inj h
  exact ⟨hd, hp, he, hE⟩

theorem delimited_blank {c : Char} (h : isBlank c = true) (s : List Char) : Delimited (c :: s) := by
  simp only [isBlank, Bool.or_eq_true, beq_iff_eq] at h
  obtain ((rfl | rfl) | rfl) | rfl := h <;>
    exact delimited_cons (by decide) (by decide) (by decide) (by decide) s

theorem delimited_blanks {s : List Char} (h : Blanks s) : Delimited s := by
  cases s with
  | nil => exact delimited_nil
  | cons c s => exact delimited_blank (List.forall_mem_cons.mp h).1 s

theorem MoreItems.delimited {s t : List Char} (h : MoreItems s t) : Delimited s := by
  cases h with
  | blank hb _ => exact delimited_blank hb _
  | close => exact delimited_cons (by decide) (by decide) (by decide) (by decide) _
  | item _ _ => exact delimited_cons (by decide) (by decide) (by decide) (by decide) _

theorem MoreMembers.delimited {s t : List Char} (h : MoreMembers s t) : Delimited s := by
  cases h with
  | blank hb _ => exact delimited_blank hb _
  | close => exact delimited_cons (by decide) (by decide) (by decide) (by decide) _
  | member _ _ => exact delimited_cons (by decide) (by decide) (by decide) (by decide) _

theorem digit_ne {c d : Char} (hc : c.isDigit = true) (hd : d.isDigit = false) : c ≠ d := by
  rintro rfl
  rw [hc] at hd
  cases hd

theorem digit_not_blank {c : Char} (hc : c.isDigit = true) : isBlank c = false := by
  simp [isBlank, digit_ne hc (d := ' ') rfl, digit_ne hc (d := '\t') rfl,
    digit_ne hc (d := '\n') rfl, digit_ne hc (d := '\r') rfl]

section Scans

variable {brackets : List Bracket} {s t : List Char}

theorem scan_go {spot : ScanSpot} {c : Char} (brackets' : List Bracket) (spot' : ScanSpot)
    (h : spot.move brackets c s = .go brackets' spot') :
    scan brackets spot (c :: s) = scan brackets' spot' s := by
  rw [scan, h]

theorem scan_numeral_over {spot : ScanSpot}
    (hend : spot.endFault brackets = missingBracket brackets)
    (hmove : ∀ c r, c.isDigit = false → c ≠ '.' → c ≠ 'e' → c ≠ 'E' →
      spot.move brackets c r = ScanMove.atEnd brackets c) (ht : Delimited t) :
    scan brackets spot t = scan brackets .ended t := by
  cases t with
  | nil => rw [scan, scan, hend]; rfl
  | cons c r =>
    obtain ⟨hd, hp, he, hE⟩ := ht c r rfl
    rw [scan, scan, hmove c r hd hp he hE]
    rfl

theorem DigitRun.scan {spot : ScanSpot}
    (hmove : ∀ c r, c.isDigit = true → spot.move brackets c r = .go brackets spot)
    (h : DigitRun s t) : RoomCast.scan brackets spot s = RoomCast.scan brackets spot t := by
  induction h with
  | nil => rfl
  | digit hd _ ih => rw [scan_go _ _ (hmove _ _ hd), ih]

theorem Exponent.scan (h : Exponent s t) (ht : Delimited t) :
    RoomCast.scan brackets .exponentMark s = RoomCast.scan brackets .ended t := by
  have run : ∀ {r : List Char}, DigitRun r t →
      RoomCast.scan brackets .exponent r = RoomCast.scan brackets .ended t := by
    intro r hr
    rw [hr.scan fun c r hc => by simp [ScanSpot.move, hc]]
    exact scan_numeral_over rfl (fun c r hd _ _ _ => by simp [ScanSpot.move, hd]) ht
  cases h with
  | plain hd =>
    obtain ⟨hc, hr⟩ := hd
    rw [scan_go brackets .exponent, run hr]
    simp [ScanSpot.move, hc, digit_ne hc (d := '+') rfl, digit_ne hc (d := '-') rfl]
  | signed hsign hd =>
    obtain ⟨hc, hr⟩ := hd
    rw [scan_go brackets .exponentSign (by simp [ScanSpot.move, hsign]),
      scan_go brackets .exponent (by simp [ScanSpot.move, hc]), run hr]

theorem Scale.scan {spot : ScanSpot} (h : Scale s t) (ht : Delimited t)
    (hover : RoomCast.scan brackets spot t = RoomCast.scan brackets .ended t)
    (hmark : ∀ c r, c = 'e' ∨ c = 'E' → spot.move brackets c r = .go brackets .exponentMark) :
    RoomCast.scan brackets spot s = RoomCast.scan brackets .ended t := by
  cases h with
  | none => exact hover
  | exponent he hx => rw [scan_go _ _ (hmark _ _ he), hx.scan ht]

theorem mark_not_digit {c : Char} (h : c = 'e' ∨ c = 'E') : c.isDigit = false ∧ c ≠ '.' := by
  obtain rfl | rfl := h <;> exact ⟨rfl, by decide⟩

theorem Fraction.scan {spot : ScanSpot} (h : Fraction s t) (ht : Delimited t)
    (hover : RoomCast.scan brackets spot t = RoomCast.scan brackets .ended t)
    (hpoint : ∀ r, spot.move brackets '.' r = .go brackets .point)
    (hmark : ∀ c r, c = 'e' ∨ c = 'E' → spot.move brackets c r = .go brackets .exponentMark) :
    RoomCast.scan brackets spot s = RoomCast.scan brackets .ended t := by
  cases h with
  | none hs => exact hs.scan ht hover hmark
  | point hd hs =>
    obtain ⟨hc, hr⟩ := hd
    rw [scan_go _ _ (hpoint _),
      scan_go brackets .fraction (by simp [ScanSpot.move, hc]),
      hr.scan fun c r hc => by simp [ScanSpot.move, hc]]
    refine hs.scan ht ?_ fun c r he => ?_
    · exact scan_numeral_over rfl (fun c r hd _ he hE => by simp [ScanSpot.move, hd, he, hE]) ht
    · simp [ScanSpot.move, (mark_not_digit he).1, he]

/-- A scan takes a numeral from where its first digit has to stand. -/
theorem Numeral.scan {spot : ScanSpot} (h : Numeral s t) (ht : Delimited t)
    (hzero : ∀ r, spot.move brackets '0' r = .go brackets .zero)
    (hdigit : ∀ c r, c.isDigit = true → c ≠ '0' → spot.move brackets c r = .go brackets .integer) :
    RoomCast.scan brackets spot s = RoomCast.scan brackets .ended t := by
  cases h with
  | zero hf =>
    rw [scan_go _ _ (hzero _)]
    refine hf.scan ht ?_ (fun r => rfl) fun c r he => ?_
    · exact scan_numeral_over rfl (fun c r hd hp he hE => by simp [ScanSpot.move, hd, hp, he, hE]) ht
    · simp [ScanSpot.move, mark_not_digit he, he]
  | digits hc h0 hr hf =>
    rw [scan_go _ _ (hdigit _ _ hc h0), hr.scan fun c r hc => by simp [ScanSpot.move, hc]]
    refine hf.scan ht ?_ (fun r => rfl) fun c r he => ?_
    · exact scan_numeral_over rfl (fun c r hd hp he hE => by simp [ScanSpot.move, hd, hp, he, hE]) ht
    · simp [ScanSpot.move, mark_not_digit he, he]

theorem atValue_digit {c : Char} (hc : c.isDigit = true) (h0 : c ≠ '0') :
    ScanMove.atValue brackets c = .go brackets .integer := by
  simp [ScanMove.atValue, digit_not_blank hc, digit_ne hc (d := 'n') rfl, digit_ne hc (d := 't') rfl,
    digit_ne hc (d := 'f') rfl, digit_ne hc (d := '-') rfl, h0, hc]

end Scans

theorem Value.opened {brackets : List Bracket} {s t : List Char} (h : Value s t) :
    RoomCast.scan (.list :: brackets) .opened s = RoomCast.scan (.list :: brackets) .value s := by
  induction s with
  | nil =>
    cases h with
    | number hn => cases hn
  | cons c r ih =>
    cases h with
    | blank hb h =>
      rw [scan_go (.list :: brackets) .opened (by simp [ScanSpot.move, ScanMove.atOpened, hb]),
        scan_go (.list :: brackets) .value (by simp [ScanSpot.move, ScanMove.atValue, hb])]
      exact ih h
    | number hn =>
      cases hn with
      | zero _ => rfl
      | digits hc _ _ _ =>
        simp [RoomCast.scan, ScanSpot.move, ScanMove.atOpened, digit_not_blank hc,
          digit_ne hc (d := ']') rfl]
    | _ => rfl

theorem Member.opened {brackets : List Bracket} {s t : List Char} (h : Member s t) :
    RoomCast.scan (.object :: brackets) .opened s = RoomCast.scan (.object :: brackets) .key s := by
  induction s with
  | nil => cases h
  | cons c r ih =>
    cases h with
    | blank hb h =>
      rw [scan_go (.object :: brackets) .opened (by simp [ScanSpot.move, ScanMove.atOpened, hb]),
        scan_go (.object :: brackets) .key (by simp [ScanSpot.move, ScanMove.atKey, hb])]
      exact ih h
    | key _ _ => rfl

mutual

theorem Value.scan {brackets : List Bracket} {s t : List Char} : Value s t → Delimited t →
    RoomCast.scan brackets .value s = RoomCast.scan brackets .ended t
  | .blank hb h, ht => by
    rw [scan_go brackets .value (by simp [ScanSpot.move, ScanMove.atValue, hb])]
    exact h.scan ht
  | .null, _ => rfl
  | .true, _ => rfl
  | .false, _ => rfl
  | .number h, ht =>
    h.scan ht (fun _ => rfl) fun _ _ hc h0 => atValue_digit hc h0
  | .negative h, ht => by
    rw [scan_go brackets .minus rfl]
    exact h.scan ht (fun _ => rfl) fun c r hc h0 => by simp [ScanSpot.move, hc, h0]
  | .text h, _ => by
    rw [scan_go brackets (.text false) rfl]
    exact h.scan
  | .list h, _ => by
    rw [scan_go (.list :: brackets) .opened rfl]
    exact h.scan
  | .object h, _ => by
    rw [scan_go (.object :: brackets) .opened rfl]
    exact h.scan

theorem Items.scan {brackets : List Bracket} {s t : List Char} : Items s t →
    RoomCast.scan (.list :: brackets) .opened s = RoomCast.scan brackets .ended t
  | .blank hb h => by
    rw [scan_go (.list :: brackets) .opened (by simp [ScanSpot.move, ScanMove.atOpened, hb])]
    exact h.scan
  | .close => rfl
  | .item h hs => by
    rw [h.opened, h.scan hs.delimited]
    exact hs.scan

theorem MoreItems.scan {brackets : List Bracket} {s t : List Char} : MoreItems s t →
    RoomCast.scan (.list :: brackets) .ended s = RoomCast.scan brackets .ended t
  | .blank hb h => by
    rw [scan_go (.list :: brackets) .ended (by simp [ScanSpot.move, ScanMove.atEnd, hb])]
    exact h.scan
  | .close => rfl
  | .item h hs => by
    rw [scan_go (.list :: brackets) .value rfl, h.scan hs.delimited]
    exact hs.scan

theorem Members.scan {brackets : List Bracket} {s t : List Char} : Members s t →
    RoomCast.scan (.object :: brackets) .opened s = RoomCast.scan brackets .ended t
  | .blank hb h => by
    rw [scan_go (.object :: brackets) .opened (by simp [ScanSpot.move, ScanMove.atOpened, hb])]
    exact h.scan
  | .close => rfl
  | .member h hs => by
    rw [h.opened, h.scan hs.delimited]
    exact hs.scan

theorem MoreMembers.scan {brackets : List Bracket} {s t : List Char} : MoreMembers s t →
    RoomCast.scan (.object :: brackets) .ended s = RoomCast.scan brackets .ended t
  | .blank hb h => by
    rw [scan_go (.object :: brackets) .ended (by simp [ScanSpot.move, ScanMove.atEnd, hb])]
    exact h.scan
  | .close => rfl
  | .member h hs => by
    rw [scan_go (.object :: brackets) .key rfl, h.scan hs.delimited]
    exact hs.scan

theorem Member.scan {brackets : List Bracket} {s t : List Char} : Member s t → Delimited t →
    RoomCast.scan brackets .key s = RoomCast.scan brackets .ended t
  | .blank hb h, ht => by
    rw [scan_go brackets .key (by simp [ScanSpot.move, ScanMove.atKey, hb])]
    exact h.scan ht
  | .key hl h, ht => by
    rw [scan_go brackets (.text true) rfl, hl.scan]
    exact h.scan ht

theorem Pair.scan {brackets : List Bracket} {s t : List Char} : Pair s t → Delimited t →
    RoomCast.scan brackets .colon s = RoomCast.scan brackets .ended t
  | .blank hb h, ht => by
    rw [scan_go brackets .colon (by simp [ScanSpot.move, hb])]
    exact h.scan ht
  | .colon h, ht => by
    rw [scan_go brackets .value rfl]
    exact h.scan ht

end

/-- Whether a text is another one with something in front of it that does not end with a blank. -/
def Firm (s t : List Char) : Prop := ∃ u c, s = u ++ c :: t ∧ isBlank c = false

theorem firm_head {c : Char} (hc : isBlank c = false) (t : List Char) : Firm (c :: t) t :=
  ⟨[], c, rfl, hc⟩

theorem Firm.append {s t : List Char} (h : Firm s t) (r : List Char) : Firm (r ++ s) t := by
  obtain ⟨u, c, rfl, hc⟩ := h
  exact ⟨r ++ u, c, by rw [List.append_assoc], hc⟩

theorem Firm.cons {s t : List Char} (h : Firm s t) (c : Char) : Firm (c :: s) t := h.append [c]

theorem Firm.trans {s u t : List Char} (h : Firm s u) (h' : Firm u t) : Firm s t := by
  obtain ⟨v, c, rfl, _⟩ := h
  exact (h'.cons c).append v

theorem firm_cons {c : Char} {s t : List Char} (hc : isBlank c = false) (h : s = t ∨ Firm s t) :
    Firm (c :: s) t := by
  obtain rfl | h := h
  · exact firm_head hc s
  · exact h.cons c

theorem firm_trans {s u t : List Char} (h : s = u ∨ Firm s u) (h' : u = t ∨ Firm u t) :
    s = t ∨ Firm s t := by
  obtain rfl | h := h
  · exact h'
  · obtain rfl | h' := h'
    · exact .inr h
    · exact .inr (h.trans h')

theorem DigitRun.firm {s t : List Char} (h : DigitRun s t) : s = t ∨ Firm s t := by
  induction h with
  | nil => exact .inl rfl
  | digit hd _ ih => exact .inr (firm_cons (digit_not_blank hd) ih)

theorem Digits.firm {s t : List Char} (h : Digits s t) : Firm s t := by
  cases h with
  | first hd hr => exact firm_cons (digit_not_blank hd) hr.firm

theorem Scale.firm {s t : List Char} (h : Scale s t) : s = t ∨ Firm s t := by
  cases h with
  | none => exact .inl rfl
  | exponent _ hx =>
    cases hx with
    | plain hd => exact .inr (hd.firm.cons _)
    | signed _ hd => exact .inr ((hd.firm.cons _).cons _)

theorem Fraction.firm {s t : List Char} (h : Fraction s t) : s = t ∨ Firm s t := by
  cases h with
  | none hs => exact hs.firm
  | point hd hs => exact firm_trans (.inr (hd.firm.cons _)) hs.firm

theorem Numeral.firm {s t : List Char} (h : Numeral s t) : Firm s t := by
  cases h with
  | zero hf => exact firm_cons rfl hf.firm
  | digits hd _ hr hf => exact firm_cons (digit_not_blank hd) (firm_trans hr.firm hf.firm)

theorem Literal.firm {s t : List Char} (h : Literal s t) : Firm s t := by
  induction h with
  | close => exact firm_head rfl _
  | plain _ _ _ _ ih => exact ih.cons _
  | short _ _ ih => exact (ih.cons _).cons _
  | unit _ _ _ ih => exact ((ih.append _).cons _).cons _

mutual

theorem Value.firm {s t : List Char} : Value s t → Firm s t
  | .blank _ h => h.firm.cons _
  | .null => (((firm_head rfl t).cons _).cons _).cons _
  | .true => (((firm_head rfl t).cons _).cons _).cons _
  | .false => ((((firm_head rfl t).cons _).cons _).cons _).cons _
  | .number h => h.firm
  | .negative h => h.firm.cons _
  | .text h => h.firm.cons _
  | .list h => h.firm.cons _
  | .object h => h.firm.cons _

theorem Items.firm {s t : List Char} : Items s t → Firm s t
  | .blank _ h => h.firm.cons _
  | .close => firm_head rfl t
  | .item h hs => h.firm.trans hs.firm

theorem MoreItems.firm {s t : List Char} : MoreItems s t → Firm s t
  | .blank _ h => h.firm.cons _
  | .close => firm_head rfl t
  | .item h hs => (h.firm.trans hs.firm).cons _

theorem Members.firm {s t : List Char} : Members s t → Firm s t
  | .blank _ h => h.firm.cons _
  | .close => firm_head rfl t
  | .member h hs => h.firm.trans hs.firm

theorem MoreMembers.firm {s t : List Char} : MoreMembers s t → Firm s t
  | .blank _ h => h.firm.cons _
  | .close => firm_head rfl t
  | .member h hs => (h.firm.trans hs.firm).cons _

theorem Member.firm {s t : List Char} : Member s t → Firm s t
  | .blank _ h => h.firm.cons _
  | .key hl h => (hl.firm.trans h.firm).cons _

theorem Pair.firm {s t : List Char} : Pair s t → Firm s t
  | .blank _ h => h.firm.cons _
  | .colon h => h.firm.cons _

end

theorem Value.skip {s t : List Char} (h : Value s t) (ht : Delimited t) : skipValue s = .ok t := by
  rw [skipValue, h.scan ht]
  cases t with
  | nil => rfl
  | cons c r => rfl

end Grammar

theorem Blanks.skip {s : List Char} (h : Blanks s) : skipBlanks s = [] := by
  induction s with
  | nil => rfl
  | cons c r ih =>
    obtain ⟨hc, hr⟩ := List.forall_mem_cons.mp h
    rw [skipBlanks, if_pos hc, ih hr]

def trimBlanks (text : String) : String :=
  String.ofList (skipBlanks (skipBlanks text.toList).reverse).reverse

theorem trimBlanks_eq {text : String} {value blanks : List Char}
    (h : skipBlanks text.toList = value ++ blanks) (hb : Blanks blanks)
    (hv : Grammar.Firm value []) : trimBlanks text = String.ofList value := by
  obtain ⟨u, c, rfl, hc⟩ := hv
  have hback : (skipBlanks text.toList).reverse = blanks.reverse ++ c :: u.reverse := by
    rw [h]
    simp
  rw [trimBlanks, hback, skipBlanks_prefix (fun d hd => hb d (List.mem_reverse.mp hd)) hc]
  simp

theorem readAll_of {α : Type} {reader : Reader α} {text : String} {a : α} {rest : List Char}
    (h : reader text.toList = .ok (a, rest)) (hb : Blanks rest) : reader.readAll text = .ok a := by
  simp only [Reader.readAll, h, finishText, hb.skip, bind, Except.bind, pure, Except.pure]

theorem ofString_ok {text : String} {f : Fragment} (h : Fragment.ofString text = .ok f) :
    Document text ∧ f.Whole ∧ f = ⟨trimBlanks text⟩ := by
  obtain ⟨rest, hr, hb⟩ := readAll_ok h
  obtain ⟨_, _, _, hw⟩ := read_verbatim hr
  obtain ⟨htext, hskip⟩ := read_value hr
  rw [skipValue_blanks] at hskip
  refine ⟨⟨rest, hb, Grammar.skipValue_value hskip⟩, hw, ?_⟩
  rw [trimBlanks_eq htext hb hw.value.firm, String.ofList_toList]

/-- The texts that are taken as fragments are the texts that are one value. -/
theorem ofString_iff (text : String) : (∃ f, Fragment.ofString text = .ok f) ↔ Document text := by
  constructor
  · rintro ⟨f, h⟩
    exact (ofString_ok h).1
  · rintro ⟨blanks, hb, hv⟩
    have hskip : skipValue (skipBlanks text.toList) = .ok blanks := by
      rw [skipValue_blanks, hv.skip (Grammar.delimited_blanks hb)]
    obtain ⟨f, hf⟩ : ∃ f, Fragment.read text.toList = .ok (f, blanks) := by
      simp only [Fragment.read, hskip, bind, Except.bind, pure, Except.pure]
      exact ⟨_, rfl⟩
    exact ⟨f, readAll_of hf hb⟩

theorem Fragment.Whole.head {f : Fragment} (h : f.Whole) :
    ∃ c r, f.text.toList = c :: r ∧ isBlank c = false ∧ c ≠ ']' := by
  obtain ⟨hstart, hskip⟩ := h.alone
  cases hf : f.text.toList with
  | nil =>
    rw [hf] at hskip
    cases hskip
  | cons c r =>
    refine ⟨c, r, rfl, skipBlanks_head (hstart.trans hf), ?_⟩
    rintro rfl
    rw [hf] at hskip
    cases hskip

/-- Whether a reader takes a fragment as `a` wherever it stands, with blanks before it. -/
def Reader.Reads {α : Type} (reader : Reader α) (f : Fragment) (a : α) : Prop :=
  ∀ before rest, Blanks before → Grammar.Delimited rest →
    reader (before ++ (f.text.toList ++ rest)) = .ok (a, rest)

theorem Reader.Reads.alone {α : Type} {reader : Reader α} {f : Fragment} {a : α}
    (h : Reader.Reads reader f a) : reader.readAll f.text = .ok a := by
  have hread := h [] [] blanks_nil Grammar.delimited_nil
  rw [List.nil_append, List.append_nil] at hread
  exact readAll_of hread blanks_nil

/-- A fragment is read off again from where it stands, and what is behind it is left. -/
theorem Fragment.Whole.reads {f : Fragment} (h : f.Whole) : Reader.Reads Fragment.read f f := by
  intro before rest hb hr
  obtain ⟨c, s, hs, hc, _⟩ := h.head
  have hstart : skipBlanks (before ++ (f.text.toList ++ rest)) = f.text.toList ++ rest := by
    rw [hs]
    exact skipBlanks_prefix hb hc _
  have hskip : skipValue (f.text.toList ++ rest) = .ok rest := (h.value.append rest).skip hr
  simp only [Fragment.read, hstart, hskip, bind, Except.bind, pure, Except.pure]
  simp

theorem whole_of_value {c : Char} {r : List Char} (hc : isBlank c = false)
    (h : Grammar.Value (c :: r) []) : (Fragment.mk (String.ofList (c :: r))).Whole := by
  have hstart : skipBlanks (c :: r) = c :: r := skipBlanks_none hc r
  have hskip : skipValue (c :: r) = .ok [] := h.skip Grammar.delimited_nil
  have hread : Fragment.read (String.ofList (c :: r)).toList = .ok (⟨String.ofList (c :: r)⟩, []) := by
    simp only [Fragment.read, String.toList_ofList, hstart, hskip, bind, Except.bind, pure, Except.pure]
    simp
  exact readAll_of hread blanks_nil

end RoomCast
