import Mathlib.Data.List.AList

/-!
# Vectors with an index

Elements that differ in their keys are kept in a vector, and a map gives the place of each
key. An element is added at the end, overwritten in its place, or removed by moving the
last one into its place, which gives that one a new place. What is found under a key is
then a matter of what the vector holds, wherever it stands.
-/

set_option autoImplicit false

namespace BasedOp.Computation

variable {α κ : Type} [DecidableEq κ] {key : α → κ}

/-- The index gives the place of each element, by its key, and no other places. -/
structure Indexed (key : α → κ) (items : List α) (index : AList fun _ : κ => ℕ) : Prop where
  lookup_of_item : ∀ {i x}, items[i]? = some x → index.lookup (key x) = some i
  item_of_lookup : ∀ {k i}, index.lookup k = some i → ∃ x, items[i]? = some x ∧ key x = k

/-- What is found under a key. -/
def find (items : List α) (index : AList fun _ : κ => ℕ) (k : κ) : Option α :=
  (index.lookup k).bind fun i => items[i]?

variable {front : List α} {last x y : α} {i : ℕ}

/-- An element stands before the last one, or is it. -/
theorem front_or_last (h : (front ++ [last])[i]? = some x) :
    front[i]? = some x ∨ (i = front.length ∧ x = last) := by
  obtain hlt | hle := Nat.lt_or_ge i front.length
  · rw [List.getElem?_append_left hlt] at h
    exact .inl h
  · have hi := (List.getElem?_eq_some_iff.mp h).1
    rw [List.length_append, List.length_singleton] at hi
    obtain rfl : i = front.length := by omega
    rw [List.getElem?_concat_length] at h
    exact .inr ⟨rfl, (Option.some.inj h).symm⟩

/-- Elements in front stay in place. -/
theorem getElem?_concat_of_front (last : α) (h : front[i]? = some x) :
    (front ++ [last])[i]? = some x := by
  rw [List.getElem?_append_left (List.getElem?_eq_some_iff.mp h).1, h]

namespace Indexed

variable {items : List α} {index : AList fun _ : κ => ℕ}

/-- The empty vector is indexed. -/
theorem empty : Indexed key [] (∅ : AList fun _ : κ => ℕ) where
  lookup_of_item := by
    intro i x h
    cases h
  item_of_lookup := by
    intro k i h
    cases h

/-- Two places with one key are one. -/
theorem place_eq (h : Indexed key items index) {j : ℕ} (hx : items[i]? = some x)
    (hy : items[j]? = some y) (hkey : key x = key y) : i = j := by
  have hi := h.lookup_of_item hx
  rw [hkey, h.lookup_of_item hy] at hi
  exact (Option.some.inj hi).symm

/-- A key determines its element. -/
theorem eq_of_key_eq (h : Indexed key items index) (hx : x ∈ items) (hy : y ∈ items)
    (hkey : key x = key y) : x = y := by
  obtain ⟨i, hi⟩ := List.getElem?_of_mem hx
  obtain ⟨j, hj⟩ := List.getElem?_of_mem hy
  obtain rfl := h.place_eq hi hj hkey
  exact Option.some.inj (hi.symm.trans hj)

/-- What is found under a key is the element of this key. -/
theorem find_eq_some_iff (h : Indexed key items index) {k : κ} :
    find items index k = some x ↔ x ∈ items ∧ key x = k := by
  unfold find
  constructor
  · intro hfind
    obtain ⟨i, hi, hx⟩ := Option.bind_eq_some_iff.mp hfind
    obtain ⟨y, hy, hkey⟩ := h.item_of_lookup hi
    obtain rfl := Option.some.inj (hx.symm.trans hy)
    exact ⟨List.mem_of_getElem? hx, hkey⟩
  · rintro ⟨hmem, rfl⟩
    obtain ⟨i, hi⟩ := List.getElem?_of_mem hmem
    exact Option.bind_eq_some_iff.mpr ⟨i, h.lookup_of_item hi, hi⟩

/-- Finding is looking up. -/
theorem find_eq_none_iff (h : Indexed key items index) {k : κ} :
    find items index k = none ↔ index.lookup k = none := by
  unfold find
  cases hlookup : index.lookup k with
  | none => exact iff_of_true rfl rfl
  | some =>
    obtain ⟨x, hx, -⟩ := h.item_of_lookup hlookup
    refine iff_of_false ?_ (by simp)
    rw [Option.bind_some, hx]
    simp

/-- Without an entry there is no element. -/
theorem notMem_of_lookup_eq_none (h : Indexed key items index) {k : κ}
    (hnone : index.lookup k = none) (hx : x ∈ items) : key x ≠ k := by
  rintro rfl
  obtain ⟨i, hi⟩ := List.getElem?_of_mem hx
  rw [h.lookup_of_item hi] at hnone
  cases hnone

/-! ## Adding, overwriting and removing -/

/-- A new key may be pushed. -/
theorem push (h : Indexed key items index) (hnew : index.lookup (key x) = none) :
    Indexed key (items ++ [x]) (index.insert (key x) items.length) where
  lookup_of_item := by
    intro i y hy
    obtain hy | ⟨rfl, rfl⟩ := front_or_last hy
    · have hne : key y ≠ key x := h.notMem_of_lookup_eq_none hnew (List.mem_of_getElem? hy)
      rw [AList.lookup_insert_ne hne]
      exact h.lookup_of_item hy
    · exact AList.lookup_insert _
  item_of_lookup := by
    intro k i hi
    by_cases hk : k = key x
    · rw [hk, AList.lookup_insert] at hi
      obtain rfl := Option.some.inj hi
      exact ⟨x, List.getElem?_concat_length, hk.symm⟩
    · rw [AList.lookup_insert_ne hk] at hi
      obtain ⟨y, hy, hkey⟩ := h.item_of_lookup hi
      exact ⟨y, getElem?_concat_of_front x hy, hkey⟩

/-- An element may be replaced by one of its key. -/
theorem set (h : Indexed key items index) (hy : items[i]? = some y) (hkey : key x = key y) :
    Indexed key (items.set i x) index where
  lookup_of_item := by
    intro j z hz
    by_cases hj : j = i
    · subst hj
      rw [List.getElem?_set_self (List.getElem?_eq_some_iff.mp hy).1] at hz
      obtain rfl := Option.some.inj hz
      rw [hkey]
      exact h.lookup_of_item hy
    · rw [List.getElem?_set_ne (Ne.symm hj)] at hz
      exact h.lookup_of_item hz
  item_of_lookup := by
    intro k j hj
    obtain ⟨z, hz, hk⟩ := h.item_of_lookup hj
    by_cases hji : j = i
    · subst hji
      obtain rfl := Option.some.inj (hz.symm.trans hy)
      exact ⟨x, List.getElem?_set_self (List.getElem?_eq_some_iff.mp hy).1, hkey.trans hk⟩
    · exact ⟨z, by rw [List.getElem?_set_ne (Ne.symm hji), hz], hk⟩

/-- The last element is removed. -/
theorem dropLast (h : Indexed key (front ++ [last]) index) :
    Indexed key front (index.erase (key last)) where
  lookup_of_item := by
    intro i x hx
    have hlt := (List.getElem?_eq_some_iff.mp hx).1
    have hx' := getElem?_concat_of_front last hx
    have hne : key x ≠ key last := by
      intro hkey
      have := h.place_eq hx' List.getElem?_concat_length hkey
      omega
    rw [AList.lookup_erase_ne hne]
    exact h.lookup_of_item hx'
  item_of_lookup := by
    intro k i hi
    have hne : k ≠ key last := by
      rintro rfl
      rw [AList.lookup_erase] at hi
      cases hi
    rw [AList.lookup_erase_ne hne] at hi
    obtain ⟨x, hx, hkey⟩ := h.item_of_lookup hi
    obtain hx | ⟨-, rfl⟩ := front_or_last hx
    · exact ⟨x, hx, hkey⟩
    · exact absurd hkey.symm hne

/-- Another element is removed, and the last one takes its place. -/
theorem swapLast (h : Indexed key (front ++ [last]) index) (hx : front[i]? = some x) :
    Indexed key (front.set i last) ((index.erase (key x)).insert (key last) i) where
  lookup_of_item := by
    intro j y hy
    have hi := (List.getElem?_eq_some_iff.mp hx).1
    by_cases hj : j = i
    · subst hj
      rw [List.getElem?_set_self hi] at hy
      obtain rfl := Option.some.inj hy
      exact AList.lookup_insert _
    · rw [List.getElem?_set_ne (Ne.symm hj)] at hy
      have hlt := (List.getElem?_eq_some_iff.mp hy).1
      have hy' := getElem?_concat_of_front last hy
      have hx' := getElem?_concat_of_front last hx
      have hlast : key y ≠ key last := by
        intro hkey
        have := h.place_eq hy' List.getElem?_concat_length hkey
        omega
      have hother : key y ≠ key x := fun hkey => hj (h.place_eq hy' hx' hkey)
      rw [AList.lookup_insert_ne hlast, AList.lookup_erase_ne hother]
      exact h.lookup_of_item hy'
  item_of_lookup := by
    intro k j hj
    have hi := (List.getElem?_eq_some_iff.mp hx).1
    by_cases hk : k = key last
    · rw [hk, AList.lookup_insert] at hj
      obtain rfl := Option.some.inj hj
      exact ⟨last, List.getElem?_set_self hi, hk.symm⟩
    · rw [AList.lookup_insert_ne hk] at hj
      have hother : k ≠ key x := by
        rintro rfl
        rw [AList.lookup_erase] at hj
        cases hj
      rw [AList.lookup_erase_ne hother] at hj
      obtain ⟨y, hy, hkey⟩ := h.item_of_lookup hj
      obtain hy | ⟨-, rfl⟩ := front_or_last hy
      · have hne : i ≠ j := by
          rintro rfl
          obtain rfl := Option.some.inj (hy.symm.trans hx)
          exact hother hkey.symm
        exact ⟨y, by rw [List.getElem?_set_ne hne, hy], hkey⟩
      · exact absurd hkey.symm hk

/-! ## What is held afterwards -/

/-- The elements after that. -/
theorem mem_set_iff (h : Indexed key items index) {z : α} (hy : items[i]? = some y) :
    z ∈ items.set i x ↔ z = x ∨ (z ∈ items ∧ key z ≠ key y) := by
  have hi := (List.getElem?_eq_some_iff.mp hy).1
  constructor
  · intro hz
    obtain ⟨j, hj⟩ := List.getElem?_of_mem hz
    by_cases hji : j = i
    · subst hji
      rw [List.getElem?_set_self hi] at hj
      exact .inl (Option.some.inj hj).symm
    · rw [List.getElem?_set_ne (Ne.symm hji)] at hj
      exact .inr ⟨List.mem_of_getElem? hj, fun hkey => hji (h.place_eq hj hy hkey)⟩
  · rintro (rfl | ⟨hz, hkey⟩)
    · exact List.mem_set hi z
    · obtain ⟨j, hj⟩ := List.getElem?_of_mem hz
      have hji : i ≠ j := by
        rintro rfl
        exact hkey (Option.some.inj (hj.symm.trans hy) ▸ rfl)
      rw [← List.getElem?_set_ne hji] at hj
      exact List.mem_of_getElem? hj

/-- No element is there twice. -/
theorem nodup (h : Indexed key items index) : items.Nodup := by
  rw [List.nodup_iff_getElem?_ne_getElem?]
  intro i j hij hj heq
  have hx : items[j]? = some items[j] := List.getElem?_eq_getElem hj
  have := h.place_eq (heq.trans hx) hx rfl
  omega

/-- What is left when an element was taken out. -/
theorem mem_rest_iff (h : Indexed key items index) {rest : List α}
    (hperm : (x :: rest).Perm items) : y ∈ rest ↔ y ∈ items ∧ key y ≠ key x := by
  have hmem : y = x ∨ y ∈ rest ↔ y ∈ items := by
    rw [← List.mem_cons]
    exact hperm.mem_iff
  constructor
  · intro hy
    refine ⟨hmem.mp (.inr hy), fun hkey => ?_⟩
    obtain rfl := h.eq_of_key_eq (hmem.mp (.inr hy)) (hperm.mem_iff.mp List.mem_cons_self) hkey
    exact (List.nodup_cons.mp (hperm.nodup_iff.mpr h.nodup)).1 hy
  · rintro ⟨hy, hkey⟩
    exact (hmem.mpr hy).resolve_left fun heq => hkey (heq ▸ rfl)

end Indexed

end BasedOp.Computation
