import Mathlib.Data.List.Nodup
import Mathlib.Data.List.Perm.Basic
import RoomCast.Table

namespace RoomCast

namespace Table

variable {κ α : Type} [DecidableEq κ]

def Distinct (t : Table κ α) : Prop := (t.map Prod.fst).Nodup

omit [DecidableEq κ] in
theorem distinct_nil : Distinct ([] : Table κ α) := List.nodup_nil

theorem get?_of_mem {t : Table κ α} (hd : t.Distinct) {key : κ} {value : α}
    (hm : (key, value) ∈ t) : t.get? key = some value := by
  induction t with
  | nil => simp at hm
  | cons entry t ih =>
    obtain ⟨k, a⟩ := entry
    obtain ⟨hk, hd'⟩ := List.nodup_cons.mp hd
    rcases List.mem_cons.mp hm with he | hm
    · cases he
      simp [get?]
    · have hne : k ≠ key := by
        rintro rfl
        exact hk (List.mem_map.mpr ⟨_, hm, rfl⟩)
      simpa [get?, hne] using ih hd' hm

theorem mem_of_get? {t : Table κ α} {key : κ} {value : α}
    (h : t.get? key = some value) : (key, value) ∈ t := by
  induction t with
  | nil => simp [get?] at h
  | cons entry t ih =>
    obtain ⟨k, a⟩ := entry
    by_cases hk : k = key
    · subst hk
      simp only [get?, ↓reduceIte, Option.some.injEq] at h
      simp [h]
    · simp only [get?, hk, ↓reduceIte] at h
      exact List.mem_cons_of_mem _ (ih h)

theorem mem_keys_iff {t : Table κ α} (hd : t.Distinct) (key : κ) :
    key ∈ t.map Prod.fst ↔ ∃ value, t.get? key = some value := by
  constructor
  · intro h
    obtain ⟨⟨k, value⟩, hp, rfl⟩ := List.mem_map.mp h
    exact ⟨value, get?_of_mem hd hp⟩
  · rintro ⟨value, h⟩
    exact List.mem_map.mpr ⟨(key, value), mem_of_get? h, rfl⟩

theorem get?_eq_none {t : Table κ α} {key : κ} (h : key ∉ t.map Prod.fst) :
    t.get? key = none := by
  cases hg : t.get? key with
  | none => rfl
  | some value => exact absurd (List.mem_map.mpr ⟨_, mem_of_get? hg, rfl⟩) h

theorem get?_put (t : Table κ α) (key k : κ) (value : α) :
    (t.put key value).get? k = if key = k then some value else t.get? k := by
  induction t with
  | nil => simp [put, get?]
  | cons entry t ih =>
    obtain ⟨k', a⟩ := entry
    by_cases hk : k' = key
    · subst hk
      by_cases he : k' = k <;> simp [put, get?, he]
    · by_cases he : k' = k
      · subst he
        simp [put, get?, hk, Ne.symm hk]
      · simp [put, get?, hk, he, ih]

theorem get?_remove_ne (t : Table κ α) {key k : κ} (hne : key ≠ k) :
    (t.remove key).get? k = t.get? k := by
  induction t with
  | nil => rfl
  | cons entry t ih =>
    obtain ⟨k', a⟩ := entry
    by_cases hk : k' = key
    · subst hk
      simp [remove, get?, hne]
    · by_cases he : k' = k
      · subst he
        simp [remove, get?, hk]
      · simp [remove, get?, hk, he, ih]

theorem get?_remove {t : Table κ α} (hd : t.Distinct) (key k : κ) :
    (t.remove key).get? k = if key = k then none else t.get? k := by
  by_cases hne : key = k
  · subst hne
    rw [if_pos rfl]
    induction t with
    | nil => rfl
    | cons entry t ih =>
      obtain ⟨k', a⟩ := entry
      obtain ⟨hk', hd'⟩ := List.nodup_cons.mp hd
      by_cases hk : k' = key
      · subst hk
        simpa [remove] using get?_eq_none hk'
      · simpa [remove, get?, hk] using ih hd'
  · rw [if_neg hne]
    exact get?_remove_ne t hne

theorem mem_keys_put (t : Table κ α) (key k : κ) (value : α) :
    k ∈ (t.put key value).map Prod.fst ↔ k = key ∨ k ∈ t.map Prod.fst := by
  induction t with
  | nil => simp [put]
  | cons entry t ih =>
    obtain ⟨k', a⟩ := entry
    by_cases hk : k' = key
    · subst hk
      simp [put]
    · simp only [put, hk, ↓reduceIte, List.map_cons, List.mem_cons, ih]
      tauto

theorem mem_put {t : Table κ α} {key : κ} {value : α} {entry : κ × α}
    (h : entry ∈ t.put key value) : entry = (key, value) ∨ entry ∈ t := by
  induction t with
  | nil => simpa [put] using h
  | cons other t ih =>
    obtain ⟨k', a⟩ := other
    by_cases hk : k' = key
    · simp only [put, hk, ↓reduceIte] at h
      exact (List.mem_cons.mp h).imp id (List.mem_cons_of_mem _)
    · simp only [put, hk, ↓reduceIte] at h
      rcases List.mem_cons.mp h with rfl | h
      · exact Or.inr List.mem_cons_self
      · exact (ih h).imp id (List.mem_cons_of_mem _)

theorem put_same {t : Table κ α} {key : κ} {value : α} (h : t.get? key = some value) :
    t.put key value = t := by
  induction t with
  | nil => simp [get?] at h
  | cons entry t ih =>
    obtain ⟨k', a⟩ := entry
    by_cases hk : k' = key
    · simp only [get?, hk, ↓reduceIte, Option.some.injEq] at h
      simp [put, hk, h]
    · simp only [get?, hk, ↓reduceIte] at h
      simp [put, hk, ih h]

theorem put_new {t : Table κ α} {key : κ} (value : α) (h : t.get? key = none) :
    t.put key value = t ++ [(key, value)] := by
  induction t with
  | nil => rfl
  | cons entry t ih =>
    obtain ⟨k', a⟩ := entry
    by_cases hk : k' = key
    · simp [get?, hk] at h
    · simp only [get?, hk, ↓reduceIte] at h
      simp [put, hk, ih h]

theorem put_put (t : Table κ α) (key : κ) (first value : α) :
    (t.put key first).put key value = t.put key value := by
  induction t with
  | nil => simp [put]
  | cons entry t ih =>
    obtain ⟨k', a⟩ := entry
    by_cases hk : k' = key <;> simp [put, hk, ih]

theorem remove_sublist (t : Table κ α) (key : κ) : List.Sublist (t.remove key) t := by
  induction t with
  | nil => exact List.Sublist.refl _
  | cons entry t ih =>
    obtain ⟨k', a⟩ := entry
    by_cases hk : k' = key
    · simp [remove, hk]
    · simpa [remove, hk] using ih

theorem Distinct.put {t : Table κ α} (hd : t.Distinct) (key : κ) (value : α) :
    (t.put key value).Distinct := by
  induction t with
  | nil => simp [Distinct, Table.put]
  | cons entry t ih =>
    obtain ⟨k', a⟩ := entry
    obtain ⟨hk', hd'⟩ := List.nodup_cons.mp hd
    by_cases hk : k' = key
    · subst hk
      simpa [Distinct, Table.put] using List.nodup_cons.mp hd
    · have hn : k' ∉ (Table.put key value t).map Prod.fst := by
        rw [mem_keys_put]
        rintro (he | hm)
        · exact hk he
        · exact hk' hm
      simpa [Distinct, Table.put, hk] using List.nodup_cons.mpr ⟨hn, ih hd'⟩

theorem Distinct.remove {t : Table κ α} (hd : t.Distinct) (key : κ) :
    (t.remove key).Distinct :=
  hd.sublist ((remove_sublist t key).map Prod.fst)

end Table

section OrderedList

variable {α : Type} [DecidableEq α]

theorem mem_insertOrdered (before : α → α → Bool) (x y : α) (xs : List α) :
    y ∈ insertOrdered before x xs ↔ y = x ∨ y ∈ xs := by
  induction xs with
  | nil => simp [insertOrdered]
  | cons z zs ih =>
    by_cases hx : x = z
    · subst hx
      simp [insertOrdered]
    · by_cases hb : before x z
      · simp [insertOrdered, hx, hb]
      · simp only [insertOrdered, hx, hb, ↓reduceIte, Bool.false_eq_true, List.mem_cons, ih]
        tauto

theorem nodup_insertOrdered (before : α → α → Bool) {x : α} {xs : List α}
    (hn : xs.Nodup) (hx : x ∉ xs) : (insertOrdered before x xs).Nodup := by
  induction xs with
  | nil => simp [insertOrdered]
  | cons z zs ih =>
    obtain ⟨hz, hn'⟩ := List.nodup_cons.mp hn
    obtain ⟨hxz, hxs⟩ := not_or.mp (fun h => hx (List.mem_cons.mpr h))
    by_cases hb : before x z
    · simpa [insertOrdered, hxz, hb] using List.nodup_cons.mpr ⟨hx, hn⟩
    · have hz' : z ∉ insertOrdered before x zs := by
        rw [mem_insertOrdered]
        rintro (he | hm)
        · exact hxz he.symm
        · exact hz hm
      simpa [insertOrdered, hxz, hb] using List.nodup_cons.mpr ⟨hz', ih hn' hxs⟩

end OrderedList

section Places

variable {α : Type}

theorem getElem?_set_of_some {xs : List α} {i : Nat} {x : α} (h : xs[i]? = some x) (y : α) (j : Nat) :
    (xs.set i y)[j]? = if i = j then some y else xs[j]? := by
  obtain ⟨hb, _⟩ := List.getElem?_eq_some_iff.mp h
  by_cases hj : i = j
  · subst hj
    rw [if_pos rfl, List.getElem?_set_self hb]
  · rw [if_neg hj, List.getElem?_set_ne hj]

theorem set_same {xs : List α} {i : Nat} {x : α} (h : xs[i]? = some x) : xs.set i x = xs := by
  obtain ⟨hb, hx⟩ := List.getElem?_eq_some_iff.mp h
  rw [← hx, List.set_getElem_self]

theorem zip_set_of_some {β : Type} {xs : List α} {ys : List β} {i : Nat} {x : α} {y : β}
    (hx : xs[i]? = some x) (hy : ys[i]? = some y) (x' : α) (y' : β) :
    (xs.set i x').zip (ys.set i y') = (xs.zip ys).set i (x', y') := by
  have hxy : (xs.zip ys)[i]? = some (x, y) := List.getElem?_zip_eq_some.mpr ⟨hx, hy⟩
  apply List.ext_getElem?
  intro j
  rw [getElem?_set_of_some hxy, List.zip_eq_zipWith, List.zip_eq_zipWith, List.getElem?_zipWith,
    List.getElem?_zipWith, getElem?_set_of_some hx, getElem?_set_of_some hy]
  by_cases hj : i = j
  · simp [hj]
  · simp [hj]

theorem modify_of_some {xs : List α} {i : Nat} {x : α} (h : xs[i]? = some x) (f : α → α) :
    xs.modify i f = xs.set i (f x) := by
  apply List.ext_getElem?
  intro j
  rw [List.getElem?_modify, getElem?_set_of_some h]
  by_cases hj : i = j
  · subst hj
    simp [h]
  · simp [hj]

theorem getElem?_of_map_eq {β : Type} {f : α → β} {xs ys : List α} (h : ys.map f = xs.map f)
    {i : Nat} {x : α} (hx : xs[i]? = some x) : ∃ y, ys[i]? = some y ∧ f y = f x := by
  have hy : (ys.map f)[i]? = some (f x) := by rw [h, List.getElem?_map, hx]; rfl
  rw [List.getElem?_map] at hy
  exact Option.map_eq_some_iff.mp hy

theorem getElem?_snoc_cases {xs : List α} {x y : α} {i : Nat} (h : (xs ++ [x])[i]? = some y) :
    xs[i]? = some y ∨ (i = xs.length ∧ y = x) := by
  rw [List.getElem?_append] at h
  split at h
  next => exact Or.inl h
  next hi =>
    rw [List.getElem?_singleton] at h
    split at h
    next hz => exact Or.inr ⟨by omega, (Option.some.inj h).symm⟩
    next => simp at h

theorem filter_eraseIdx_of_neg {p : α → Bool} {xs : List α} {i : Nat} {x : α} (h : xs[i]? = some x)
    (hp : p x = false) : (xs.eraseIdx i).filter p = xs.filter p := by
  induction xs generalizing i with
  | nil => rfl
  | cons y ys ih =>
    cases i with
    | zero =>
      obtain rfl : y = x := by simpa using h
      simp [hp]
    | succ i => simp [List.filter_cons, ih (by simpa using h)]

theorem perm_eraseIdx_of_some {xs : List α} {i : Nat} {x : α} (h : xs[i]? = some x) :
    xs.Perm (x :: xs.eraseIdx i) := by
  obtain ⟨hi, rfl⟩ := List.getElem?_eq_some_iff.mp h
  exact (List.getElem_cons_eraseIdx_perm hi).symm

end Places

section Total

variable {α : Type}

theorem total_append (ns ms : List Nat) : total (ns ++ ms) = total ns + total ms := by
  induction ns with
  | nil => simp [total]
  | cons n ns ih => simp only [List.cons_append, total, ih]; omega

theorem total_map_set (f : α → Nat) {xs : List α} {i : Nat} {x : α} (h : xs[i]? = some x) (y : α) :
    total ((xs.set i y).map f) + f x = total (xs.map f) + f y := by
  induction xs generalizing i with
  | nil => simp at h
  | cons z xs ih =>
    cases i with
    | zero =>
      cases Option.some.inj h
      simp only [List.set_cons_zero, List.map_cons, total]
      omega
    | succ i =>
      have hx := ih (i := i) (by simpa using h)
      simp only [List.set_cons_succ, List.map_cons, total]
      omega

theorem total_map_eraseIdx (f : α → Nat) {xs : List α} {i : Nat} {x : α} (h : xs[i]? = some x) :
    total ((xs.eraseIdx i).map f) + f x = total (xs.map f) := by
  induction xs generalizing i with
  | nil => simp at h
  | cons z xs ih =>
    cases i with
    | zero =>
      cases Option.some.inj h
      simp only [List.eraseIdx_cons_zero, List.map_cons, total]
      omega
    | succ i =>
      have hx := ih (i := i) (by simpa using h)
      simp only [List.eraseIdx_cons_succ, List.map_cons, total]
      omega

theorem total_map_le {f g : α → Nat} {xs : List α} (h : ∀ x ∈ xs, f x ≤ g x) :
    total (xs.map f) ≤ total (xs.map g) := by
  induction xs with
  | nil => exact Nat.le_refl 0
  | cons x xs ih =>
    have hhead := h x List.mem_cons_self
    have htail := ih fun y hy => h y (List.mem_cons_of_mem x hy)
    simp only [List.map_cons, total]
    omega

theorem total_map_zero {f : α → Nat} {xs : List α} (h : ∀ x ∈ xs, f x = 0) :
    total (xs.map f) = 0 := by
  induction xs with
  | nil => rfl
  | cons x xs ih =>
    rw [List.map_cons, total, h x List.mem_cons_self, ih fun y hy => h y (List.mem_cons_of_mem x hy)]

theorem total_map_add (f g : α → Nat) (xs : List α) :
    total (xs.map fun x => f x + g x) = total (xs.map f) + total (xs.map g) := by
  induction xs with
  | nil => rfl
  | cons x xs ih => simp only [List.map_cons, total, ih]; omega

theorem total_map_pairs {β : Type} {f : α → Nat} {g : β → Nat} {n : Nat} {xs : List α} {ys : List β}
    (hlen : xs.length = ys.length)
    (h : ∀ (k : Nat) (x : α) (y : β), xs[k]? = some x → ys[k]? = some y → f x + g y = n) :
    total (xs.map f) + total (ys.map g) = n * xs.length := by
  induction xs generalizing ys with
  | nil =>
    rw [List.length_eq_zero_iff.mp hlen.symm]
    rfl
  | cons x xs ih =>
    cases ys with
    | nil => simp at hlen
    | cons y ys =>
      have hhead := h 0 x y rfl rfl
      have htail := ih (by simpa using hlen) fun k x y hx hy => h (k + 1) x y hx hy
      simp only [List.map_cons, List.length_cons, total, Nat.mul_succ]
      omega

end Total

end RoomCast
