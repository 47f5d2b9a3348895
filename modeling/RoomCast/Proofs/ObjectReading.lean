import RoomCast.Proofs.ListReading
import RoomCast.Proofs.LiteralReading

namespace RoomCast

section Members

variable {σ : Type}

/-- Whether a reader of members takes a fragment under a key wherever it stands. -/
def TakesMember (member : String → σ → Reader σ) (key : String) (f : Fragment) (state next : σ) : Prop :=
  ∀ before after rest, Blanks before → Blanks after → Grammar.Delimited rest →
    member key state (before ++ ':' :: (after ++ (f.text.toList ++ rest))) = .ok (next, rest)

/-- What members make of a state, one after another. -/
inductive Fills (member : String → σ → Reader σ) : σ → List (String × Fragment) → σ → Prop where
  | done {state : σ} : Fills member state [] state
  | member {key : String} {f : Fragment} {ms : List (String × Fragment)} {state next last : σ} :
      TakesMember member key f state next → Fills member next ms last →
      Fills member state ((key, f) :: ms) last

theorem readColon_colon {before : List Char} (hb : Blanks before) (s : List Char) :
    readColon (before ++ ':' :: s) = .ok s := by
  have hcolon : skipBlanks (before ++ ':' :: s) = ':' :: s := skipBlanks_prefix hb rfl s
  simp only [readColon, hcolon, if_true]

theorem nextKey_comma {before after : List Char} (hb : Blanks before) (ha : Blanks after)
    (s : List Char) : nextKey false (before ++ ',' :: (after ++ '"' :: s)) = .ok (some s) := by
  have hcomma : skipBlanks (before ++ ',' :: (after ++ '"' :: s)) = ',' :: (after ++ '"' :: s) :=
    skipBlanks_prefix hb rfl _
  have hquote : skipBlanks (after ++ '"' :: s) = '"' :: s := skipBlanks_prefix ha rfl _
  simp only [nextKey, hcomma, hquote]
  rfl

theorem nextKey_open {before : List Char} (hb : Blanks before) (s : List Char) :
    nextKey true (before ++ '"' :: s) = .ok (some s) := by
  have hquote : skipBlanks (before ++ '"' :: s) = '"' :: s := skipBlanks_prefix hb rfl _
  simp only [nextKey, hquote]
  rfl

theorem nextKey_close {first : Bool} {blanks : List Char} (hb : Blanks blanks) (rest : List Char) :
    nextKey first (blanks ++ '\x7d' :: rest) = .ok none := by
  have hclose : skipBlanks (blanks ++ '\x7d' :: rest) = '\x7d' :: rest := skipBlanks_prefix hb rfl rest
  simp only [nextKey, hclose, if_true]

theorem closeObject_close {blanks : List Char} (hb : Blanks blanks) (rest : List Char) :
    closeObject (blanks ++ '\x7d' :: rest) = .ok rest := by
  have hclose : skipBlanks (blanks ++ '\x7d' :: rest) = '\x7d' :: rest := skipBlanks_prefix hb rfl rest
  simp only [closeObject, hclose, if_true]

theorem readMembers_member {member : String → σ → Reader σ} {rounds : Nat} {first : Bool}
    {state next last : σ} {key : String} {s start behind later t : List Char}
    (hn : nextKey first s = .ok (some start)) (hk : readText start = .ok (key, behind))
    (hm : member key state behind = .ok (next, later))
    (hmore : readMembers member rounds false next later = .ok (last, t)) :
    readMembers member (rounds + 1) first state s = .ok (last, t) := by
  simp only [readMembers, hn, hk, hm, hmore, bind, Except.bind]

theorem readMembers_none {member : String → σ → Reader σ} {rounds : Nat} {first : Bool} {state : σ}
    {s : List Char} (hn : nextKey first s = .ok none) :
    readMembers member (rounds + 1) first state s = .ok (state, s) := by
  simp only [readMembers, hn, bind, Except.bind, pure, Except.pure]

theorem MemberText.parts {key : String} {f : Fragment} {m : List Char} (h : MemberText key f m)
    (rest : List Char) : f.Whole ∧ ∃ start before after, Blanks before ∧ Blanks after ∧
      m ++ rest = '"' :: start ∧
      readText start = .ok (key, before ++ ':' :: (after ++ (f.text.toList ++ rest))) := by
  cases h with
  | @mk s before after hs hb ha hw =>
    refine ⟨hw, s ++ (before ++ ':' :: (after ++ (f.text.toList ++ rest))), before, after, hb, ha,
      by simp, ?_⟩
    exact readText_spelling (by simpa using hs.append _)

theorem MemberText.length_pos {key : String} {f : Fragment} {m : List Char} (h : MemberText key f m) :
    0 < m.length := by
  cases h
  simp

theorem MoreMembers.length_le {ms : List (String × Fragment)} {s : List Char} (h : MoreMembers ms s) :
    ms.length ≤ s.length := by
  induction h with
  | close => exact Nat.zero_le _
  | member _ _ _ _ ih =>
    simp only [List.length_append, List.length_cons]
    omega

theorem MemberText.piece {key : String} {f : Fragment} {m : List Char} (h : MemberText key f m) :
    f.text.toList <:+: m := by
  cases h
  exact (List.suffix_append _ _).isInfix

theorem MoreMembers.piece {ms : List (String × Fragment)} {s : List Char} (h : MoreMembers ms s) :
    ∀ m ∈ ms, m.2.text.toList <:+: s := by
  induction h with
  | close => simp
  | member _ _ hm _ ih =>
    exact List.forall_mem_cons.mpr ⟨hm.piece.trans ⟨_, _, rfl⟩, fun m hm =>
      (ih m hm).trans (List.suffix_append _ _).isInfix⟩

theorem MembersText.piece {ms : List (String × Fragment)} {inner : List Char}
    (h : MembersText ms inner) : ∀ m ∈ ms, m.2.text.toList <:+: inner := by
  cases h with
  | close => simp
  | member _ hm hmore =>
    exact List.forall_mem_cons.mpr ⟨hm.piece.trans ⟨_, _, rfl⟩, fun m hm =>
      (hmore.piece m hm).trans (List.suffix_append _ _).isInfix⟩

theorem ObjectText.piece {ms : List (String × Fragment)} {text : String} (h : ObjectText ms text) :
    ∀ m ∈ ms, m.2.text.toList <:+: text.toList := by
  obtain ⟨before, inner, after, _, _, hms, htext⟩ := h
  have hinner : inner <:+: text.toList := ⟨before ++ ['\x7b'], after, by rw [htext]; simp⟩
  exact fun m hm => (hms.piece m hm).trans hinner

theorem MoreMembers.read {member : String → σ → Reader σ} {ms : List (String × Fragment)}
    {s : List Char} (h : MoreMembers ms s) {state last : σ} (hf : Fills member state ms last)
    (rest : List Char) {rounds : Nat} (hr : ms.length < rounds) : ∃ t,
      readMembers member rounds false state (s ++ rest) = .ok (last, t) ∧
        closeObject t = .ok rest := by
  induction h generalizing state rounds with
  | @close blanks hb =>
    cases hf
    obtain ⟨rounds, rfl⟩ := Nat.exists_eq_succ_of_ne_zero (Nat.ne_of_gt hr)
    rw [List.append_assoc, List.singleton_append]
    exact ⟨_, readMembers_none (nextKey_close hb rest), closeObject_close hb rest⟩
  | @member before after m s key f ms hb ha hm hmore ih =>
    obtain _ | ⟨hmember, hf⟩ := hf
    obtain ⟨rounds, rfl⟩ := Nat.exists_eq_succ_of_ne_zero (Nat.ne_of_gt (Nat.zero_lt_of_lt hr))
    obtain ⟨t, hread, hclose⟩ := ih hf (Nat.lt_of_succ_lt_succ hr)
    obtain ⟨_, start, between, behind, hbetween, hbehind, hstart, hkey⟩ := hm.parts (s ++ rest)
    have htext : before ++ ',' :: after ++ m ++ s ++ rest =
        before ++ ',' :: (after ++ '"' :: start) := by
      rw [← hstart]
      simp
    rw [htext]
    exact ⟨t, readMembers_member (nextKey_comma hb ha start) hkey
      (hmember _ _ _ hbetween hbehind (hmore.grammar rest).delimited) hread, hclose⟩

theorem MembersText.first {key : String} {f : Fragment} {ms : List (String × Fragment)}
    {inner : List Char} (h : MembersText ((key, f) :: ms) inner) (rest : List Char) :
    ∃ start before after s, nextKey true (inner ++ rest) = .ok (some start) ∧
      readText start = .ok (key, before ++ ':' :: (after ++ (f.text.toList ++ (s ++ rest)))) ∧
      Blanks before ∧ Blanks after ∧ MoreMembers ms s ∧ ms.length < (inner ++ rest).length := by
  cases h with
  | @member blanks m s key f ms hb hm hmore =>
    obtain ⟨_, start, before, after, hbefore, hafter, hstart, hkey⟩ := hm.parts (s ++ rest)
    have htext : blanks ++ m ++ s ++ rest = blanks ++ '"' :: start := by
      rw [← hstart]
      simp
    refine ⟨start, before, after, s, ?_, hkey, hbefore, hafter, hmore, ?_⟩
    · rw [htext]
      exact nextKey_open hb start
    · have hlen := hmore.length_le
      have hpos := hm.length_pos
      simp only [List.length_append]
      omega

theorem MembersText.read {member : String → σ → Reader σ} {ms : List (String × Fragment)}
    {inner : List Char} (h : MembersText ms inner) {state last : σ}
    (hf : Fills member state ms last) (rest : List Char) : ∃ t,
      readMembers member ((inner ++ rest).length + 1) true state (inner ++ rest) = .ok (last, t) ∧
        closeObject t = .ok rest := by
  cases hf with
  | done =>
    cases h with
    | @close blanks hb =>
      rw [List.append_assoc, List.singleton_append]
      exact ⟨_, readMembers_none (nextKey_close hb rest), closeObject_close hb rest⟩
  | @member key f ms _ _ _ hmember hf =>
    obtain ⟨start, before, after, s, hn, hkey, hbefore, hafter, hmore, hrounds⟩ := h.first rest
    obtain ⟨t, hread, hclose⟩ := hmore.read hf rest hrounds
    exact ⟨t, readMembers_member hn hkey
      (hmember _ _ _ hbefore hafter (hmore.grammar rest).delimited) hread, hclose⟩

theorem MoreMembers.whole {ms : List (String × Fragment)} {s : List Char} (h : MoreMembers ms s) :
    ∀ m ∈ ms, m.2.Whole := by
  induction h with
  | close => simp
  | member _ _ hm _ ih => exact List.forall_mem_cons.mpr ⟨(hm.parts []).1, ih⟩

theorem MembersText.whole {ms : List (String × Fragment)} {inner : List Char}
    (h : MembersText ms inner) : ∀ m ∈ ms, m.2.Whole := by
  cases h with
  | close => simp
  | member _ hm hmore => exact List.forall_mem_cons.mpr ⟨(hm.parts []).1, hmore.whole⟩

theorem ObjectText.whole {ms : List (String × Fragment)} {text : String} (h : ObjectText ms text) :
    ∀ m ∈ ms, m.2.Whole := by
  obtain ⟨_, _, _, _, _, hms, _⟩ := h
  exact hms.whole

def noteMember (key : String) (ms : List (String × Fragment)) : Reader (List (String × Fragment)) :=
  fun s => do
    let s ← readColon s
    let (f, s) ← Fragment.read s
    return (ms ++ [(key, f)], s)

theorem fills_noted {ms : List (String × Fragment)} (hw : ∀ m ∈ ms, m.2.Whole)
    (noted : List (String × Fragment)) : Fills noteMember noted ms (noted ++ ms) := by
  induction ms generalizing noted with
  | nil =>
    rw [List.append_nil]
    exact .done
  | cons m ms ih =>
    obtain ⟨hm, hms⟩ := List.forall_mem_cons.mp hw
    have hnoted := ih hms (noted ++ [m])
    rw [List.append_assoc, List.singleton_append] at hnoted
    refine .member (fun before after rest hb ha hr => ?_) hnoted
    simp only [noteMember, readColon_colon hb, hm.reads after rest ha hr, bind, Except.bind, pure,
      Except.pure]

def readNoted : Reader (List (String × Fragment)) := fun s =>
  match skipBlanks s with
  | '\x7b' :: r => do
    let (ms, s) ← readMembers noteMember (r.length + 1) true [] r
    let s ← closeObject s
    return (ms, s)
  | _ => .error .expectedValue

theorem noteMember_ok {key : String} {noted next : List (String × Fragment)} {s t : List Char}
    (h : noteMember key noted s = .ok (next, t)) :
    ∃ blanks r f, Blanks blanks ∧ s = blanks ++ ':' :: r ∧ Starts f r t ∧
      next = noted ++ [(key, f)] := by
  obtain ⟨blanks, hb, hs⟩ := skipBlanks_split s
  obtain ⟨r, hc, h⟩ := bind_ok h
  obtain ⟨⟨f, _⟩, hf, h⟩ := bind_ok h
  cases h
  exact ⟨blanks, r, f, hb, by rw [← readColon_ok hc]; exact hs, read_verbatim hf, rfl⟩

/-- The reader takes the objects, and of each the members that stand in it. -/
theorem noted_iff {text : String} {ms : List (String × Fragment)} :
    readNoted.readAll text = .ok ms ↔ ObjectText ms text := by
  constructor
  · intro h
    obtain ⟨after, hread, ha⟩ := readAll_ok h
    obtain ⟨before, hb, htext⟩ := skipBlanks_split text.toList
    unfold readNoted at hread
    split at hread
    next r hstart =>
      obtain ⟨⟨_, _⟩, hms, hread⟩ := bind_ok hread
      obtain ⟨_, hc, hread⟩ := bind_ok hread
      cases hread
      have hmade : ∃ ms' inner, MembersText ms' inner ∧ r = inner ++ after ∧ ms = [] ++ ms' := by
        refine membersText_text (fun noted ms last => last = noted ++ ms) (by simp)
          (fun hm => ?_) hms hc
        obtain ⟨blanks, r, f, hb, hs, hf, rfl⟩ := noteMember_ok hm
        exact ⟨blanks, r, f, hb, hs, hf, by simp⟩
      obtain ⟨ms', inner, hinner, rfl, hmade⟩ := hmade
      rw [hmade, List.nil_append]
      refine ⟨before, inner, after, hb, ha, hinner, ?_⟩
      rw [htext, hstart]
      simp
    next => cases hread
  · rintro ⟨before, inner, after, hb, ha, hms, htext⟩
    obtain ⟨t, hread, hclose⟩ := hms.read (fills_noted hms.whole []) after
    have hstart : skipBlanks text.toList = '\x7b' :: (inner ++ after) := by
      rw [htext, List.append_assoc]
      exact skipBlanks_prefix hb rfl _
    refine readAll_of ?_ ha
    simp only [readNoted, hstart, hread, hclose, bind, Except.bind, pure, Except.pure, List.nil_append]

/-- A text is the object of one list of members. -/
theorem ObjectText.unique {ms ms' : List (String × Fragment)} {text : String}
    (h : ObjectText ms text) (h' : ObjectText ms' text) : ms = ms' :=
  Except.ok.inj ((noted_iff.mpr h).symm.trans (noted_iff.mpr h'))

end Members

/-- Whether a field makes of a draft what `Sets` says of a fragment, wherever the fragment stands. -/
def TextField.Gives {σ : Type} (Sets : String → σ → Fragment → σ → Prop) (f : TextField σ) : Prop :=
  ∀ draft g draft', g.Whole → Sets f.name draft g draft' → Reader.Reads (f.read draft) g draft'

namespace TextRecord

variable {σ α : Type} {fields : List (TextField σ)} {key : String} {names : List String}
  {draft draft' : σ} {g : Fragment}

theorem takes_field {f : TextField σ} (hf : fields.find? (fun f => f.name = key) = some f)
    (hnew : key ∉ names) (hread : Reader.Reads (f.read draft) g draft') :
    TakesMember (readMember fields) key g (names, draft) (key :: names, draft') := by
  intro before after rest hb ha hr
  simp only [readMember, hf, if_neg hnew, readColon_colon hb, hread after rest ha hr, bind, Except.bind,
    pure, Except.pure]

theorem takes_other (hkey : key ∉ fields.map (·.name)) (hw : g.Whole) {state : List String × σ} :
    TakesMember (readMember fields) key g state state := by
  intro before after rest hb ha hr
  have hf : fields.find? (fun f => f.name = key) = none :=
    List.find?_eq_none.mpr fun f hf hname => hkey (List.mem_map.mpr ⟨f, hf, by simpa using hname⟩)
  have hskip : skipValue (after ++ (g.text.toList ++ rest)) = .ok rest :=
    (Grammar.blanks_append Grammar.Value .blank ha (hw.value.append rest)).skip hr
  simp only [readMember, hf, readColon_colon hb, hskip, bind, Except.bind, pure, Except.pure]

theorem read_members {record : TextRecord σ α} {ms : List (String × Fragment)} {inner : List Char}
    (h : MembersText ms inner) {state : List String × σ} {a : α}
    (hf : Fills (readMember record.fields) ([], record.draft) ms state)
    (ha : record.ofObject state.1 state.2 = .ok a) {before : List Char} (hb : Blanks before)
    (rest : List Char) : record.read (before ++ '\x7b' :: (inner ++ rest)) = .ok (a, rest) := by
  obtain ⟨t, hread, hclose⟩ := h.read hf rest
  have hstart : skipBlanks (before ++ '\x7b' :: (inner ++ rest)) = '\x7b' :: (inner ++ rest) :=
    skipBlanks_prefix hb rfl _
  simp only [TextRecord.read, hstart, hread, ha, hclose, bind, Except.bind, pure, Except.pure]
  rfl

theorem readAll_members {record : TextRecord σ α} {ms : List (String × Fragment)} {text : String}
    (h : ObjectText ms text) {state : List String × σ} {a : α}
    (hf : Fills (readMember record.fields) ([], record.draft) ms state)
    (ha : record.ofObject state.1 state.2 = .ok a) : record.read.readAll text = .ok a := by
  obtain ⟨before, inner, after, hb, hafter, hms, htext⟩ := h
  have hread : record.read text.toList = .ok (a, after) := by
    rw [htext, List.append_assoc, List.cons_append]
    exact read_members hms hf ha hb after
  exact readAll_of hread hafter

section Fields

variable {Sets : String → σ → Fragment → σ → Prop}
  (gives : ∀ f ∈ fields, f.Gives Sets)

include gives in
theorem fills_of_filled {state last : List String × σ} {ms : List (String × Fragment)}
    (hw : ∀ m ∈ ms, m.2.Whole) (h : Filled Sets fields state ms last) :
    Fills (readMember fields) state ms last := by
  induction h with
  | done => exact .done
  | @known key names draft draft' g ms state hkey hnew hset _ ih =>
    obtain ⟨hg, hms⟩ := List.forall_mem_cons.mp hw
    obtain ⟨f₀, hf₀, hname₀⟩ := List.mem_map.mp hkey
    obtain ⟨f, hf⟩ : ∃ f, fields.find? (fun f => f.name = key) = some f :=
      Option.isSome_iff_exists.mp (List.find?_isSome.mpr ⟨f₀, hf₀, by simpa using hname₀⟩)
    have hname : f.name = key := by simpa using List.find?_some hf
    subst hname
    exact .member (takes_field hf hnew (gives f (List.mem_of_find?_eq_some hf) _ _ _ hg hset)) (ih hms)
  | other hkey _ ih =>
    obtain ⟨hg, hms⟩ := List.forall_mem_cons.mp hw
    exact .member (takes_other hkey hg) (ih hms)

theorem filled_of_settable {ms : List (String × Fragment)}
    (hset : ∀ m ∈ ms, m.1 ∈ fields.map (·.name) → ∀ draft, ∃ draft', Sets m.1 draft m.2 draft')
    (honce : ∀ key ∈ fields.map (·.name), (ms.filter (·.1 = key)).length ≤ 1)
    (hnew : ∀ m ∈ ms, m.1 ∉ names) : ∃ last, Filled Sets fields (names, draft) ms last := by
  induction ms generalizing names draft with
  | nil => exact ⟨_, .done⟩
  | cons m ms ih =>
    obtain ⟨key, g⟩ := m
    obtain ⟨hm, hset⟩ := List.forall_mem_cons.mp hset
    obtain ⟨hfresh, hnew⟩ := List.forall_mem_cons.mp hnew
    have hrest : ∀ name ∈ fields.map (·.name), (ms.filter (·.1 = name)).length ≤ 1 := fun name hn =>
      Nat.le_trans (((List.sublist_cons_self _ ms).filter _).length_le) (honce name hn)
    by_cases hkey : key ∈ fields.map (·.name)
    · obtain ⟨draft', hdraft⟩ := hm hkey draft
      have hgone : ∀ m ∈ ms, m.1 ≠ key := by
        intro m hm hname
        have hlen := honce key hkey
        have hmem : m ∈ ms.filter (·.1 = key) := List.mem_filter.mpr ⟨hm, by simpa using hname⟩
        rw [List.filter_cons_of_pos (by simp), List.length_cons] at hlen
        have hpos := List.length_pos_of_mem hmem
        omega
      have hnew' : ∀ m ∈ ms, m.1 ∉ key :: names := fun m hm hin =>
        (List.mem_cons.mp hin).elim (hgone m hm) (hnew m hm)
      obtain ⟨last, hlast⟩ : ∃ last, Filled Sets fields (key :: names, draft') ms last :=
        ih hset hrest hnew'
      exact ⟨last, .known hkey hfresh hdraft hlast⟩
    · obtain ⟨last, hlast⟩ : ∃ last, Filled Sets fields (names, draft) ms last := ih hset hrest hnew
      exact ⟨last, .other hkey hlast⟩

end Fields

end TextRecord

end RoomCast
