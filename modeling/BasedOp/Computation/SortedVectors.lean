import Mathlib.Data.List.InsertIdx
import Mathlib.Logic.Function.Basic
import Mathlib.Order.Bounds.Defs
import Mathlib.Order.Defs.LinearOrder

/-!
# Binary search in sorted vectors

What is documented of a binary search: on a vector whose elements compare as less first,
then as equal and then as greater, it gives the place of some element that compares as
equal, or the place where one may be inserted. A vector that is sorted by a key, upwards
or downwards, is of that kind for the comparison with any key, and it stays sorted when an
element is put where the search says. The last elements of a sorted vector are those that few
are greater than. A vector sorted by keys that differ stands for a map (`Represents`), in which
to take the first element out is to remove the least key.
-/

set_option autoImplicit false

namespace BasedOp.Computation

variable {α β : Type}

/-- The elements compare as less first, then as equal, then as greater. -/
def Partitioned (cmp : α → Ordering) (xs : List α) : Prop :=
  xs.Pairwise fun a b => (cmp a = .lt ∨ cmp b = .gt) ∨ (cmp a = .eq ∧ cmp b = .eq)

/-- What is documented of `binary_search_by`: the place of an element that compares as
equal, or the place that separates the lesser from the greater ones. -/
structure IsBinarySearch (search : (α → Ordering) → List α → Except ℕ ℕ) : Prop where
  ok : ∀ {cmp xs i}, Partitioned cmp xs → search cmp xs = .ok i →
    ∃ before x after, xs = before ++ x :: after ∧ before.length = i ∧ cmp x = .eq
  error : ∀ {cmp xs i}, Partitioned cmp xs → search cmp xs = .error i →
    ∃ before after, xs = before ++ after ∧ before.length = i ∧ (∀ x ∈ before, cmp x = .lt) ∧
      ∀ x ∈ after, cmp x = .gt

variable {xs : List α}

section

variable {κ : Type} [Ord κ] [LT κ] [LE κ] [Std.LawfulOrderOrd κ] [Std.LawfulOrderLT κ]
  [Std.IsLinearOrder κ] [Std.LawfulEqOrd κ]

/-- How two ordered keys compare with a third. -/
theorem compare_cases_of_le {a b : κ} (h : a ≤ b) (k : κ) :
    (compare a k = .lt ∨ compare b k = .gt) ∨ (compare a k = .eq ∧ compare b k = .eq) := by
  by_cases hlt : a < k
  · exact .inl (.inl (Std.compare_eq_lt.mpr hlt))
  · by_cases hgt : k < b
    · exact .inl (.inr (Std.compare_eq_gt.mpr hgt))
    · -- both are the key itself
      have hka : k ≤ a := Std.not_lt.mp hlt
      have hbk : b ≤ k := Std.not_lt.mp hgt
      refine .inr ⟨Std.compare_eq_iff_eq.mpr ?_, Std.compare_eq_iff_eq.mpr ?_⟩
      · exact Std.le_antisymm (Std.le_trans h hbk) hka
      · exact Std.le_antisymm hbk (Std.le_trans hka h)

/-- A vector that is sorted upwards can be searched for any key. -/
theorem partitioned_of_le {key : α → κ} (h : xs.Pairwise fun a b => key a ≤ key b) (k : κ) :
    Partitioned (fun x => compare (key x) k) xs :=
  h.imp fun hle => compare_cases_of_le hle k

/-- A vector that is sorted downwards can be searched with the comparison turned around. -/
theorem partitioned_of_ge {key : α → κ} (h : xs.Pairwise fun a b => key b ≤ key a) (k : κ) :
    Partitioned (fun x => (compare (key x) k).swap) xs := by
  refine h.imp fun {a b} hle => ?_
  obtain (hlt | hgt) | ⟨hb, ha⟩ := compare_cases_of_le hle k
  · exact .inl (.inr (Ordering.swap_eq_gt.mpr hlt))
  · exact .inl (.inl (Ordering.swap_eq_lt.mpr hgt))
  · exact .inr ⟨Ordering.swap_eq_eq.mpr ha, Ordering.swap_eq_eq.mpr hb⟩

end

/-- Inserting between two parts. -/
theorem insertIdx_append (before after : List α) (x : α) :
    (before ++ after).insertIdx before.length x = before ++ x :: after := by
  induction before with
  | nil => rfl
  | cons b before ih => simp [ih]

/-- Setting between two parts. -/
theorem set_append (before after : List α) (x y : α) :
    (before ++ x :: after).set before.length y = before ++ y :: after := by
  simp

variable {r : α → α → Prop}

/-- An element may be put between those that are related to it. -/
theorem pairwise_insert {before after : List α} {x : α} (h : (before ++ after).Pairwise r)
    (hbefore : ∀ b ∈ before, r b x) (hafter : ∀ a ∈ after, r x a) :
    (before ++ x :: after).Pairwise r := by
  obtain ⟨hb, ha, hba⟩ := List.pairwise_append.mp h
  refine List.pairwise_append.mpr ⟨hb, List.pairwise_cons.mpr ⟨hafter, ha⟩, ?_⟩
  intro b hmem y hy
  obtain rfl | hy := List.mem_cons.mp hy
  · exact hbefore b hmem
  · exact hba b hmem y hy

/-- An element may be put in the place of one that has the same relations. -/
theorem pairwise_replace {before after : List α} {x y : α}
    (h : (before ++ x :: after).Pairwise r) (hbefore : ∀ b, r b x → r b y)
    (hafter : ∀ a, r x a → r y a) : (before ++ y :: after).Pairwise r := by
  obtain ⟨hb, ha, hba⟩ := List.pairwise_append.mp h
  obtain ⟨hx, ha⟩ := List.pairwise_cons.mp ha
  refine pairwise_insert (List.pairwise_append.mpr ⟨hb, ha, ?_⟩) ?_ ?_
  · intro b hmem a hmem'
    exact hba b hmem a (List.mem_cons_of_mem x hmem')
  · intro b hmem
    exact hbefore b (hba b hmem x List.mem_cons_self)
  · intro a hmem
    exact hafter a (hx a hmem)

/-! ## The greatest elements -/

/-- An element of a sorted vector is not among the last `kept` ones exactly if at
least so many are greater. -/
theorem mem_take_iff_le_filter {lt : α → α → Bool}
    (hasymm : ∀ a b, lt a b = true → lt b a = false)
    (hsorted : xs.Pairwise fun a b => lt a b = true) {a : α} (ha : a ∈ xs) {kept : ℕ}
    (hkept : kept ≤ xs.length) :
    a ∈ xs.take (xs.length - kept) ↔ kept ≤ (xs.filter (lt a)).length := by
  obtain ⟨before, after, rfl⟩ := List.append_of_mem ha
  obtain ⟨-, hafter, hcross⟩ := List.pairwise_append.mp hsorted
  obtain ⟨hgreater, -⟩ := List.pairwise_cons.mp hafter
  have hirrefl : lt a a ≠ true := fun h => by simp [hasymm a a h] at h
  have hless : ∀ b ∈ before, ¬ lt a b = true := fun b hb => by
    simp [hasymm b a (hcross b hb a List.mem_cons_self)]
  -- what is greater than `a` is what comes after it
  have hfilter : (before ++ a :: after).filter (lt a) = after := by
    rw [List.filter_append, List.filter_cons_of_neg hirrefl, List.filter_eq_nil_iff.mpr hless,
      List.nil_append, List.filter_eq_self.mpr hgreater]
  have hlength : (before ++ a :: after).length = before.length + 1 + after.length := by
    rw [List.length_append, List.length_cons]
    omega
  rw [hfilter]
  rw [hlength] at hkept ⊢
  constructor
  · intro hmem
    by_contra hlt
    rw [List.take_append_of_le_length (by omega)] at hmem
    exact hirrefl (hcross a (List.mem_of_mem_take hmem) a List.mem_cons_self)
  · intro hle
    have hm : before.length + 1 + after.length - kept =
        before.length + (after.length - kept + 1) := by
      omega
    rw [hm, List.take_length_add_append, List.take_succ_cons]
    exact List.mem_append_right _ List.mem_cons_self

/-! ## Sorted vectors as maps -/

section

variable {κ : Type} [LT κ]

open Classical in
/-- A map without its least key, if it has one. -/
noncomputable def eraseLeast [LE κ] (m : κ → Option α) : κ → Option α :=
  fun k => if IsLeast {k | m k ≠ none} k then none else m k

/-- The elements are sorted by their keys, and the map gives the element of each key. -/
structure Represents (key : α → κ) (items : List α) (m : κ → Option α) : Prop where
  sorted : items.Pairwise fun a b => key a < key b
  lookup : ∀ {k x}, m k = some x ↔ x ∈ items ∧ key x = k

variable {key : α → κ} {items items' : List α} {m : κ → Option α}

/-- The empty vector is the empty map. -/
theorem Represents.nil : Represents key [] fun _ => none where
  sorted := List.Pairwise.nil
  lookup := by
    intro k x
    exact iff_of_false (Option.some_ne_none x).symm fun h => absurd h.1 List.not_mem_nil

/-- An element that takes the place of the one with its key is the last one put under this key. -/
theorem Represents.update [DecidableEq κ] (h : Represents key items m) {y : α}
    (hsorted : items'.Pairwise fun a b => key a < key b)
    (hmem : ∀ x, x ∈ items' ↔ x = y ∨ (x ∈ items ∧ key x ≠ key y)) :
    Represents key items' (Function.update m (key y) (some y)) where
  sorted := hsorted
  lookup := by
    intro k x
    rw [hmem]
    by_cases hk : k = key y
    · rw [hk, Function.update_self]
      constructor
      · intro hx
        obtain rfl := Option.some.inj hx
        exact ⟨.inl rfl, rfl⟩
      · rintro ⟨rfl | ⟨-, hne⟩, hkey⟩
        · rfl
        · exact absurd hkey hne
    · rw [Function.update_of_ne hk, h.lookup]
      constructor
      · rintro ⟨hx, rfl⟩
        exact ⟨.inr ⟨hx, hk⟩, rfl⟩
      · rintro ⟨rfl | ⟨hx, -⟩, hkey⟩
        · exact absurd hkey.symm hk
        · exact ⟨hx, hkey⟩

variable [LE κ] [Std.LawfulOrderLT κ] [Std.IsLinearOrder κ]

/-- The first element has the least key. -/
theorem Represents.isLeast_iff {first : α} {rest : List α}
    (h : Represents key (first :: rest) m) {k : κ} :
    IsLeast {k | m k ≠ none} k ↔ k = key first := by
  have hfirst : m (key first) ≠ none := by
    rw [h.lookup.mpr ⟨List.mem_cons_self, rfl⟩]
    exact Option.some_ne_none first
  have hle : ∀ k, m k ≠ none → key first ≤ k := by
    intro k hk
    obtain ⟨x, hx⟩ := Option.ne_none_iff_exists'.mp hk
    obtain ⟨hmem, rfl⟩ := h.lookup.mp hx
    obtain rfl | hmem := List.mem_cons.mp hmem
    · exact Std.le_refl _
    · exact Std.le_of_lt ((List.pairwise_cons.mp h.sorted).1 x hmem)
  constructor
  · rintro ⟨hk, hlower⟩
    exact Std.le_antisymm (hlower hfirst) (hle k hk)
  · rintro rfl
    exact ⟨hfirst, fun k hk => hle k hk⟩

/-- To take the first element out is to remove the least key. -/
theorem Represents.tail (h : Represents key items m) :
    Represents key items.tail (eraseLeast m) where
  sorted := h.sorted.sublist (List.tail_sublist items)
  lookup := by
    intro k x
    unfold eraseLeast
    cases items with
    | nil =>
      have hnone : ∀ k, m k = none := fun k =>
        Option.eq_none_iff_forall_ne_some.mpr fun x hx => List.not_mem_nil (h.lookup.mp hx).1
      rw [if_neg fun hleast => hleast.1 (hnone k)]
      exact h.lookup
    | cons first =>
      have hgreater := (List.pairwise_cons.mp h.sorted).1
      rw [List.tail_cons]
      by_cases hk : k = key first
      · rw [if_pos (h.isLeast_iff.mpr hk)]
        refine iff_of_false (Option.some_ne_none x).symm ?_
        rintro ⟨hmem, hkey⟩
        have hlt := hgreater x hmem
        rw [hkey, hk] at hlt
        exact Std.lt_irrefl hlt
      · rw [if_neg fun hleast => hk (h.isLeast_iff.mp hleast), h.lookup]
        constructor
        · rintro ⟨hmem, rfl⟩
          obtain rfl | hmem := List.mem_cons.mp hmem
          · exact absurd rfl hk
          · exact ⟨hmem, rfl⟩
        · rintro ⟨hmem, hkey⟩
          exact ⟨List.mem_cons_of_mem first hmem, hkey⟩

end

end BasedOp.Computation
