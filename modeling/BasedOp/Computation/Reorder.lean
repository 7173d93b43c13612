import Mathlib.Data.List.Basic

/-!
# In-order release

A channel that must hand on the elements of `L` in the order of `L` while they
arrive in any order can, once the elements of `D` have arrived, hand on exactly
the longest prefix of `L` that has arrived. Nothing here depends on how the
channel stores what it holds back.
-/

set_option autoImplicit false

namespace BasedOp.Computation

variable {α : Type} [DecidableEq α]

/-- The longest prefix of `L` all of whose elements are in `D`. -/
def released (L D : List α) : List α := L.takeWhile fun x => decide (x ∈ D)

/-- A prefix that has arrived, before an element that has not, is all that is released. -/
theorem released_eq_of_append {L D done rest : List α} (hL : L = done ++ rest)
    (hdone : ∀ x ∈ done, x ∈ D) (hrest : ∀ x ∈ rest.head?, x ∉ D) : released L D = done := by
  subst hL
  rw [released, List.takeWhile_append_of_pos (by simpa using hdone)]
  cases rest with
  | nil => simp
  | cons x =>
    have hx : x ∉ D := hrest x rfl
    simp [hx]

/-- Once everything has arrived, everything is released. -/
theorem released_of_subset {L D : List α} (h : ∀ x ∈ L, x ∈ D) : released L D = L :=
  released_eq_of_append (List.append_nil L).symm h (by simp)

end BasedOp.Computation
