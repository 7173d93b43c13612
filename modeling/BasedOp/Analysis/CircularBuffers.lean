import BasedOp.Computation.Runs
import BasedOp.Computation.RingSlots
import BasedOp.Model.CircularBuffer

/-!
# What a ring buffer keeps

The vector of a `CircularBuffer` has as many places as were asked for, while the mask that turns
its position around is that of the next power of two. If the size is a power of two the two
agree: the position of the `n`-th value is `n` modulo the size, the vector holds the last values,
and everything that is read of it is where the source looks for it. If it is not, the position
leaves the vector with the first value that does not fit (`boundedFifo_iff`).
-/

set_option autoImplicit false

namespace BasedOp.Analysis.CircularBuffers

open BasedOp.Computation Model.Timekeeper

variable {α : Type} [Inhabited α]

/-! ## What is asked of the buffer -/

omit [Inhabited α] in
/-- A push that is put on record. -/
def pushStep (s : List (Option α) × CircularBuffer α) (v : α) :
    Option (List (Option α) × CircularBuffer α) :=
  (s.2.push v).map fun r => (s.1 ++ [r.1], r.2)

/-- What the pushes on a new buffer return, and the buffer after them. -/
def pushes (size : ℕ) (vs : List α) : Option (List (Option α) × CircularBuffer α) :=
  runSteps pushStep ([], .new size) vs

omit [Inhabited α] in
/-- What the pushes of a bounded queue return: nothing until it is full, then the oldest value. -/
def evictions (size : ℕ) (vs : List α) : List (Option α) :=
  (List.range vs.length).map fun i => if size ≤ i then vs[i - size]? else none

/-- The buffer is a queue of the given size: the pushes return what is evicted, the iterator
yields the last values in the order of their pushes, and these are found from the end. No
access is out of bounds. -/
def BoundedFifo (size : ℕ) (vs : List α) : Prop :=
  ∃ log b, pushes size vs = some (log, b) ∧ log = evictions size vs ∧
    b.iter = some (vs.drop (vs.length - size)) ∧ b.last = some vs.getLast? ∧
    ∀ i, i < min size vs.length → b.nthBack i = vs[vs.length - 1 - i]?

/-! ## The state of the buffer -/

/-- Masking is the remainder. -/
theorem land_mask (n size : ℕ) : n &&& (nextPowerOfTwo size - 1) = n % nextPowerOfTwo size :=
  Nat.and_two_pow_sub_one_eq_mod n (Nat.clog 2 size)

/-- The capacity is positive. -/
theorem nextPowerOfTwo_pos (size : ℕ) : 0 < nextPowerOfTwo size := Nat.two_pow_pos _

/-- The capacity is no smaller. -/
theorem le_nextPowerOfTwo (size : ℕ) : size ≤ nextPowerOfTwo size :=
  Nat.le_pow_clog Nat.one_lt_two size

variable {size : ℕ}

/-- It is exact for powers of two. -/
theorem nextPowerOfTwo_eq_self_iff : nextPowerOfTwo size = size ↔ size.isPowerOfTwo := by
  constructor
  · intro h
    exact ⟨_, h.symm⟩
  · rintro ⟨k, rfl⟩
    unfold nextPowerOfTwo
    rw [Nat.clog_pow 2 k Nat.one_lt_two]

/-- The position has not left the vector. -/
def Fits (size n : ℕ) : Prop := n ≤ size ∨ nextPowerOfTwo size = size

/-- Fewer elements fit as well. -/
theorem Fits.of_succ {n : ℕ} (h : Fits size (n + 1)) : Fits size n := by
  obtain hn | hpower := h
  · exact .inl (by omega)
  · exact .inr hpower

omit [Inhabited α] in
/-- The buffer after a push whose position is in the vector. -/
def pushed (b : CircularBuffer α) (v : α) : CircularBuffer α :=
  { b with
    data := b.data.set b.pos v
    pos := (b.pos + 1) &&& b.mask
    filled := b.filled || ((b.pos + 1) &&& b.mask) == 0 }

/-- The buffer after the pushes of some values. -/
structure Holds (size : ℕ) (vs : List α) (b : CircularBuffer α) : Prop where
  length : b.data.length = size
  ring : RingHolds b.data default (fun i => vs.getD i default) vs.length
  mask : b.mask = nextPowerOfTwo size - 1
  pos : b.pos = vs.length % nextPowerOfTwo size
  filled : b.filled = decide (nextPowerOfTwo size ≤ vs.length)

/-- A new buffer holds nothing. -/
theorem holds_new (size : ℕ) : Holds size [] (.new size : CircularBuffer α) where
  length := List.length_replicate
  ring := RingHolds.replicate size default _
  mask := rfl
  pos := (Nat.zero_mod _).symm
  filled := (decide_eq_false (Nat.not_le.mpr (nextPowerOfTwo_pos size))).symm

namespace Holds

variable {size : ℕ} {vs : List α} {b : CircularBuffer α}

/-- Once the position has come back to the start, the two sizes agree. -/
theorem filled_iff (h : Holds size vs b) (hfits : Fits size vs.length) :
    b.filled = true ↔ size ≤ vs.length ∧ nextPowerOfTwo size = size := by
  have hle := le_nextPowerOfTwo size
  rw [h.filled, decide_eq_true_eq]
  constructor
  · intro hfull
    obtain hn | hsize := hfits
    · exact ⟨by omega, by omega⟩
    · exact ⟨by omega, hsize⟩
  · rintro ⟨hn, hsize⟩
    omega

/-- The position goes round. -/
theorem turn (h : Holds size vs b) :
    (b.pos + 1) &&& b.mask = (vs.length + 1) % nextPowerOfTwo size := by
  rw [h.mask, land_mask, h.pos, mod_add_one_mod]

/-- The last values are in the vector, where their index says. -/
theorem slot (h : Holds size vs b) (hfits : Fits size vs.length) {i : ℕ} (hi : i < vs.length)
    (hround : vs.length ≤ i + size) : b.data[i % nextPowerOfTwo size]? = vs[i]? := by
  have hplace : i % nextPowerOfTwo size = i % b.data.length := by
    rw [h.length]
    obtain hn | hsize := hfits
    · have hle := le_nextPowerOfTwo size
      rw [Nat.mod_eq_of_lt (by omega), Nat.mod_eq_of_lt (by omega)]
    · rw [hsize]
  rw [hplace, h.ring.recent i hi (h.length.symm ▸ hround), List.getD_eq_getElem?_getD,
    List.getElem?_eq_getElem hi]
  rfl

/-- The length is cut off at the size. -/
theorem len_eq (h : Holds size vs b) (hfits : Fits size vs.length) :
    b.len = min size vs.length := by
  have hle := le_nextPowerOfTwo size
  unfold CircularBuffer.len
  by_cases hfilled : b.filled = true
  · obtain ⟨hn, -⟩ := (h.filled_iff hfits).mp hfilled
    rw [if_pos hfilled, h.length]
    omega
  · have hlt : vs.length < nextPowerOfTwo size := by
      simpa [h.filled] using hfilled
    rw [if_neg hfilled, h.pos, Nat.mod_eq_of_lt hlt]
    obtain hn | hsize := hfits <;> omega

/-! ## Pushing -/

/-- The position in the vector. -/
theorem pos_eq (h : Holds size vs b) (hfits : Fits size (vs.length + 1)) :
    b.pos = vs.length % b.data.length := by
  have hle := le_nextPowerOfTwo size
  rw [h.pos, h.length]
  obtain hn | hpower := hfits
  · rw [Nat.mod_eq_of_lt (by omega), Nat.mod_eq_of_lt (by omega)]
  · rw [hpower]

/-- What is overwritten when the buffer is full was pushed one round before. -/
theorem evicted_eq (h : Holds size vs b) (hsize : 0 < size)
    (hfits : Fits size (vs.length + 1)) :
    (if b.filled then b.data[b.pos]? else none) =
      if size ≤ vs.length then vs[vs.length - size]? else none := by
  have hfits' := hfits.of_succ
  by_cases hn : size ≤ vs.length
  · have hpower : nextPowerOfTwo size = size := by
      obtain hn' | hpower := hfits
      · omega
      · exact hpower
    have hslot := h.slot hfits' (i := vs.length - size) (by omega) (by omega)
    rw [if_pos ((h.filled_iff hfits').mpr ⟨hn, hpower⟩), if_pos hn, ← hslot, h.pos, hpower,
      ← Nat.mod_eq_sub_mod hn]
  · rw [if_neg fun hfilled => hn ((h.filled_iff hfits').mp hfilled).1, if_neg hn]

/-- The buffer after a push. The position comes back to the start exactly when the
number of pushes gets to the power of two. -/
theorem pushed (h : Holds size vs b) (hsize : 0 < size) (hfits : Fits size (vs.length + 1))
    (v : α) : Holds size (vs ++ [v]) (CircularBuffers.pushed b v) where
  length := by
    unfold CircularBuffers.pushed
    rw [List.length_set, h.length]
  ring := by
    have hring := (h.ring.congr (g := fun i => (vs ++ [v]).getD i default) ?_).write
      (h.length.symm ▸ hsize)
    · unfold CircularBuffers.pushed
      rw [List.length_append, List.length_singleton, h.pos_eq hfits]
      simpa using hring
    · intro i hi
      simp only [List.getD_eq_getElem?_getD]
      rw [List.getElem?_append_left hi]
  mask := h.mask
  pos := by
    unfold CircularBuffers.pushed
    rw [List.length_append, List.length_singleton]
    exact h.turn
  filled := by
    unfold CircularBuffers.pushed
    dsimp only
    rw [List.length_append, List.length_singleton, h.turn, h.filled, Bool.eq_iff_iff]
    simp only [Bool.or_eq_true, decide_eq_true_eq, beq_iff_eq]
    constructor
    · rintro (hfull | hzero)
      · omega
      · exact Nat.le_of_dvd (Nat.succ_pos _) (Nat.dvd_of_mod_eq_zero hzero)
    · intro hfull
      by_cases hbefore : nextPowerOfTwo size ≤ vs.length
      · exact .inl hbefore
      · have hsame : vs.length + 1 = nextPowerOfTwo size := by omega
        rw [hsame, Nat.mod_self]
        exact .inr rfl

/-- What a push returns and does. -/
theorem push (h : Holds size vs b) (hsize : 0 < size) (hfits : Fits size (vs.length + 1)) (v : α) :
    b.push v = some (if size ≤ vs.length then vs[vs.length - size]? else none,
      CircularBuffers.pushed b v) := by
  have hlt : b.pos < b.data.length := by
    rw [h.pos_eq hfits]
    exact Nat.mod_lt _ (h.length.symm ▸ hsize)
  rw [← h.evicted_eq hsize hfits]
  unfold CircularBuffer.push CircularBuffers.pushed
  rw [List.getElem?_eq_getElem hlt]

/-! ## Reading -/

/-- The position of the last element. -/
theorem pred_pos (h : Holds size vs b) (hn : 0 < vs.length) :
    (if b.pos > 0 then b.pos - 1 else b.mask) = (vs.length - 1) % nextPowerOfTwo size := by
  rw [sub_mod_eq (nextPowerOfTwo_pos size) (nextPowerOfTwo_pos size) hn, h.pos, h.mask]
  split_ifs <;> omega

/-- The last value. -/
theorem last_eq (h : Holds size vs b) (hsize : 0 < size) (hfits : Fits size vs.length) :
    b.last = some vs.getLast? := by
  unfold CircularBuffer.last CircularBuffer.isEmpty
  rw [h.len_eq hfits, List.getLast?_eq_getElem?]
  by_cases hn : vs.length = 0
  · rw [List.length_eq_zero_iff.mp hn]
    simp
  · have hne : ¬ (min size vs.length == 0) = true := by
      rw [beq_iff_eq]
      omega
    rw [if_neg hne, h.pred_pos (by omega)]
    dsimp only
    rw [h.slot hfits (by omega) (by omega), List.getElem?_eq_getElem (by omega)]
    rfl

/-- A value counted from the end. -/
theorem nthBack_eq (h : Holds size vs b) (hsize : 0 < size) (hfits : Fits size vs.length) {i : ℕ}
    (hi : i < min size vs.length) : b.nthBack i = vs[vs.length - 1 - i]? := by
  unfold CircularBuffer.nthBack
  by_cases hzero : i = 0
  · rw [if_pos hzero, h.last_eq hsize hfits, hzero, List.getLast?_eq_getElem?]
    rfl
  · have hle := le_nextPowerOfTwo size
    have hback : (if b.pos = 0 then b.mask else b.pos - 1) =
        (vs.length - 1) % nextPowerOfTwo size := by
      rw [← h.pred_pos (by omega)]
      split_ifs <;> omega
    have hlen := h.len_eq hfits
    have hslot := h.slot hfits (i := vs.length - 1 - i) (by omega) (by omega)
    rw [sub_mod_eq (nextPowerOfTwo_pos size) (by omega) (by omega)] at hslot
    rw [if_neg hzero, if_neg (by omega)]
    dsimp only
    rw [hback]
    by_cases hwrap : (vs.length - 1) % nextPowerOfTwo size < i
    · -- the start of the vector is passed only if the buffer has been filled
      have hfull : nextPowerOfTwo size ≤ vs.length := by
        by_contra hlt
        rw [Nat.mod_eq_of_lt (by omega)] at hwrap
        omega
      have hsame : b.len = nextPowerOfTwo size := by
        rw [hlen]
        obtain hn | hpower := hfits <;> omega
      rw [if_pos hwrap] at hslot ⊢
      rw [hsame]
      exact hslot
    · rw [if_neg hwrap] at hslot ⊢
      exact hslot

/-- The iterator yields the values from its own on. -/
theorem collect_eq (h : Holds size vs b) (hfits : Fits size vs.length) {left count : ℕ}
    (hcount : count + left = b.len) :
    Iter.collect b (left + 1) ⟨(vs.length - size + count) % nextPowerOfTwo size, count⟩ =
      some (vs.drop (vs.length - size + count)) := by
  have hlen := h.len_eq hfits
  induction left generalizing count with
  | zero =>
    have hend : vs.length - size + count = vs.length := by omega
    unfold Iter.collect Iter.next
    dsimp only
    rw [if_pos (by omega), hend, List.drop_length]
  | succ left ih =>
    have hi : vs.length - size + count < vs.length := by omega
    have hslot := h.slot hfits hi (by omega)
    have hplace : (vs.length - size + count) % nextPowerOfTwo size &&& b.mask =
        (vs.length - size + count) % nextPowerOfTwo size := by
      rw [h.mask, land_mask, Nat.mod_mod]
    have hturn : (vs.length - size + count) % nextPowerOfTwo size + 1 &&& b.mask =
        (vs.length - size + (count + 1)) % nextPowerOfTwo size := by
      rw [h.mask, land_mask, mod_add_one_mod, Nat.add_assoc]
    unfold Iter.collect Iter.next
    dsimp only
    rw [if_neg (by omega), hplace, hslot, List.getElem?_eq_getElem hi]
    dsimp only
    rw [hturn, ih (by omega), Option.map_some, List.drop_eq_getElem_cons hi, Nat.add_assoc]

/-- The iterator gives the last elements in order. -/
theorem iter_eq (h : Holds size vs b) (hfits : Fits size vs.length) :
    b.iter = some (vs.drop (vs.length - size)) := by
  have hle := le_nextPowerOfTwo size
  have hfirst : b.firstPos = (vs.length - size + 0) % nextPowerOfTwo size := by
    rw [Nat.add_zero]
    unfold CircularBuffer.firstPos
    by_cases hfilled : b.filled = true
    · obtain ⟨hn, hpower⟩ := (h.filled_iff hfits).mp hfilled
      rw [if_pos hfilled, h.pos, hpower, Nat.mod_eq_sub_mod hn]
    · have hlt : vs.length < nextPowerOfTwo size := by
        simpa [h.filled] using hfilled
      have hzero : vs.length - size = 0 := by
        obtain hn | hpower := hfits <;> omega
      rw [if_neg hfilled, hzero, Nat.zero_mod]
  have hcollect := h.collect_eq hfits (Nat.zero_add b.len)
  rw [← hfirst, Nat.add_zero] at hcollect
  exact hcollect

end Holds

/-! ## All pushes -/

omit [Inhabited α] in
/-- One more push, one more eviction. -/
theorem evictions_concat (hsize : 0 < size) (vs : List α) (v : α) :
    evictions size (vs ++ [v]) =
      evictions size vs ++ [if size ≤ vs.length then vs[vs.length - size]? else none] := by
  unfold evictions
  rw [List.length_append, List.length_singleton, List.range_succ, List.map_append]
  congr 1
  · apply List.map_congr_left
    intro i hi
    rw [List.mem_range] at hi
    rw [List.getElem?_append_left (by omega)]
  · rw [List.map_singleton]
    by_cases hn : size ≤ vs.length
    · rw [if_pos hn, if_pos hn, List.getElem?_append_left (by omega)]
    · rw [if_neg hn, if_neg hn]

/-- Pushes are made one by one. -/
theorem pushes_concat (size : ℕ) (vs : List α) (v : α) :
    pushes size (vs ++ [v]) = (pushes size vs).bind fun s => pushStep s v := by
  unfold pushes
  rw [runSteps_append]
  congr 1
  funext s
  exact Option.bind_fun_some (pushStep s v)

/-- As long as the position does not leave the vector, every push goes well. -/
theorem pushes_of_fits (hsize : 0 < size) {vs : List α} (hfits : Fits size vs.length) :
    ∃ b, pushes size vs = some (evictions size vs, b) ∧ Holds size vs b := by
  induction vs using List.reverseRecOn with
  | nil => exact ⟨.new size, rfl, holds_new size⟩
  | append_singleton vs v ih =>
    rw [List.length_append, List.length_singleton] at hfits
    obtain ⟨b, hpushes, hholds⟩ := ih hfits.of_succ
    refine ⟨pushed b v, ?_, hholds.pushed hsize hfits v⟩
    rw [pushes_concat, hpushes, Option.bind_some, pushStep, hholds.push hsize hfits v,
      evictions_concat hsize]
    rfl

/-- The first value that does not fit is written past the end of the vector. -/
theorem pushes_of_not_fits (hsize : 0 < size) {vs : List α} (hfits : ¬ Fits size vs.length) :
    pushes size vs = none := by
  induction vs using List.reverseRecOn with
  | nil => exact absurd (.inl (Nat.zero_le size)) hfits
  | append_singleton vs v ih =>
    rw [List.length_append, List.length_singleton] at hfits
    rw [pushes_concat]
    by_cases hbefore : Fits size vs.length
    · obtain ⟨b, hpushes, hholds⟩ := pushes_of_fits hsize hbefore
      have hne : nextPowerOfTwo size ≠ size := fun hpower => hfits (.inr hpower)
      have hle := le_nextPowerOfTwo size
      have hlength : vs.length = size := by
        have hmore : ¬ vs.length + 1 ≤ size := fun hn => hfits (.inl hn)
        obtain hn | hpower := hbefore
        · omega
        · exact absurd hpower hne
      have hout : b.data[b.pos]? = none := by
        rw [hholds.pos, hlength, Nat.mod_eq_of_lt (by omega)]
        exact List.getElem?_eq_none (Nat.le_of_eq hholds.length)
      rw [hpushes, Option.bind_some, pushStep, CircularBuffer.push, hout]
      rfl
    · rw [ih hbefore]
      rfl

/-- A buffer is a queue of the size that was asked for exactly if this is a power of two, or
no more values have been pushed.
SRCLINE: circular_buffer.rs:13-31,63-69,103-115,177-188 -/
theorem boundedFifo_iff {size : ℕ} (hsize : 1 ≤ size) (vs : List α) :
    BoundedFifo size vs ↔ size.isPowerOfTwo ∨ vs.length ≤ size := by
  have hiff : Fits size vs.length ↔ size.isPowerOfTwo ∨ vs.length ≤ size := by
    unfold Fits
    rw [nextPowerOfTwo_eq_self_iff, Or.comm]
  rw [← hiff]
  constructor
  · rintro ⟨log, b, hpushes, -⟩
    by_contra hfits
    rw [pushes_of_not_fits hsize hfits] at hpushes
    cases hpushes
  · intro hfits
    obtain ⟨b, hpushes, h⟩ := pushes_of_fits hsize hfits
    exact ⟨_, b, hpushes, rfl, h.iter_eq hfits, h.last_eq hsize hfits,
      fun i hi => h.nthBack_eq hsize hfits hi⟩

/-- Six elements into four places. -/
theorem boundedFifo_four : BoundedFifo 4 [1, 2, 3, 4, 5, 6] :=
  (boundedFifo_iff (by decide) [1, 2, 3, 4, 5, 6]).mpr (.inl ⟨2, rfl⟩)

/-- The fourth value of a buffer of size three is written past its end.
SRCLINE: circular_buffer.rs:14-15,25 -/
theorem not_boundedFifo_three : ¬ BoundedFifo 3 [1, 2, 3, 4] := by
  rintro ⟨log, b, hpushes, -⟩
  have hnone : pushes 3 [1, 2, 3, 4] = none := by decide +kernel
  rw [hnone] at hpushes
  cases hpushes

end BasedOp.Analysis.CircularBuffers
