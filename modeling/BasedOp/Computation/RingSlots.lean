import Mathlib.Data.List.Basic
import Mathlib.Tactic.Common

/-!
# Slots that are written in turn

A vector of slots is written round and round: the write with index `i` goes to the place
`i % size`. What it has written stays there until the write one round later, so after `n`
writes the slots hold what the last `size` of them wrote (`RingHolds`), and those that no write
has come to hold what they held at first.
-/

set_option autoImplicit false

namespace BasedOp.Computation

variable {α : Type} {n : ℕ}

/-! ## Places -/

/-- Two indices less than a round apart have different places. -/
theorem mod_ne_of_lt {i size : ℕ} (hlt : i < n) (hround : n < i + size) : i % size ≠ n % size := by
  intro h
  have hdvd : size ∣ n - i := Nat.dvd_of_mod_eq_zero (Nat.sub_mod_eq_zero_of_mod_eq h.symm)
  have hle := Nat.le_of_dvd (by omega) hdvd
  omega

/-- The next slot. -/
theorem mod_add_one_mod (n size : ℕ) : (n % size + 1) % size = (n + 1) % size := by
  rw [Nat.add_mod, Nat.mod_mod, ← Nat.add_mod]

/-- Going back a round at most, from a place that may have to wrap. -/
theorem sub_mod_eq {k size : ℕ} (hpos : 0 < size) (hk : k ≤ size) (hle : k ≤ n) :
    (n - k) % size = if n % size < k then size - (k - n % size) else n % size - k := by
  have hlt := Nat.mod_lt n hpos
  have hdiv := Nat.div_add_mod n size
  split
  · rename_i hwrap
    -- a full round is behind, and the place is one round less `k` further
    have hrounds : 0 < n / size := by
      apply Nat.pos_of_ne_zero
      intro hzero
      rw [hzero, Nat.mul_zero] at hdiv
      omega
    have hmul : size * (n / size) = size * (n / size - 1) + size := by
      rw [← Nat.mul_succ, Nat.succ_eq_add_one, Nat.sub_add_cancel hrounds]
    have heq : n - k = size * (n / size - 1) + (size - (k - n % size)) := by omega
    rw [heq, Nat.mul_add_mod, Nat.mod_eq_of_lt (by omega)]
  · have heq : n - k = size * (n / size) + (n % size - k) := by omega
    rw [heq, Nat.mul_add_mod, Nat.mod_eq_of_lt (by omega)]

/-! ## Contents -/

/-- After `n` writes, of which the one with index `i` has written `f i`, the slots hold what the
last ones wrote. -/
structure RingHolds (slots : List α) (initial : α) (f : ℕ → α) (n : ℕ) : Prop where
  recent : ∀ i, i < n → n ≤ i + slots.length → slots[i % slots.length]? = some (f i)
  unwritten : ∀ p, n ≤ p → p < slots.length → slots[p]? = some initial

/-- A ring that nothing was written to. -/
theorem RingHolds.replicate (size : ℕ) (initial : α) (f : ℕ → α) :
    RingHolds (List.replicate size initial) initial f 0 where
  recent := fun i hi => absurd hi (Nat.not_lt_zero i)
  unwritten := by
    intro p _ hp
    rw [List.length_replicate] at hp
    rw [List.getElem?_replicate, if_pos hp]

/-- Only what was written matters. -/
theorem RingHolds.congr {slots : List α} {initial : α} {f g : ℕ → α}
    (h : RingHolds slots initial f n) (hfg : ∀ i < n, f i = g i) :
    RingHolds slots initial g n where
  recent := by
    intro i hi hround
    rw [← hfg i hi]
    exact h.recent i hi hround
  unwritten := h.unwritten

/-- The next write overwrites what was written a round before, and nothing else. -/
theorem RingHolds.write {slots : List α} {initial : α} {f : ℕ → α}
    (h : RingHolds slots initial f n) (hpos : 0 < slots.length) :
    RingHolds (slots.set (n % slots.length) (f n)) initial f (n + 1) where
  recent := by
    intro i hi hround
    rw [List.length_set] at hround ⊢
    by_cases hlast : i = n
    · rw [hlast, List.getElem?_set_self (Nat.mod_lt n hpos)]
    · have hne : i % slots.length ≠ n % slots.length := mod_ne_of_lt (by omega) (by omega)
      rw [List.getElem?_set_ne hne.symm]
      exact h.recent i (by omega) (by omega)
  unwritten := by
    intro p hle hlt
    rw [List.length_set] at hlt
    have hne : n % slots.length ≠ p := by
      rw [Nat.mod_eq_of_lt (by omega)]
      omega
    rw [List.getElem?_set_ne hne]
    exact h.unwritten p (by omega) hlt

end BasedOp.Computation
