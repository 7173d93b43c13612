import Mathlib.Algebra.Order.Ring.Nat
import Mathlib.Logic.Equiv.Defs

/-!
# Numbers as bytes

A number below `256 ^ n` and its `n` bytes determine each other, with the lowest byte
first (`leBytes`) as with the highest byte first (`beBytes`). `ByteOrder` is what the two
have in common.
-/

set_option autoImplicit false

namespace BasedOp.Computation

/-- The `n` low bytes of a number, the lowest first. -/
def leBytes : ℕ → ℕ → List UInt8
  | 0, _ => []
  | n + 1, v => UInt8.ofNat v :: leBytes n (v / 256)

def ofLeBytes : List UInt8 → ℕ
  | [] => 0
  | b :: bs => b.toNat + 256 * ofLeBytes bs

/-- The number of bytes. -/
@[simp]
theorem length_leBytes (n v : ℕ) : (leBytes n v).length = n := by
  induction n generalizing v with
  | zero => rfl
  | succ n ih => simp [leBytes, ih]

/-- Bytes bound the number. -/
theorem ofLeBytes_lt (bs : List UInt8) : ofLeBytes bs < 256 ^ bs.length := by
  induction bs with
  | nil => simp [ofLeBytes]
  | cons b =>
    have hb : b.toNat < 256 := b.toNat_lt
    simp only [ofLeBytes, List.length_cons, pow_succ]
    omega

variable {n v : ℕ}

/-- A number that fits is read back. -/
theorem ofLeBytes_leBytes (h : v < 256 ^ n) : ofLeBytes (leBytes n v) = v := by
  induction n generalizing v with
  | zero =>
    simp only [pow_zero] at h
    simp only [leBytes, ofLeBytes]
    omega
  | succ n ih =>
    have hdiv : v / 256 < 256 ^ n := by
      rw [pow_succ] at h
      omega
    simp only [leBytes, ofLeBytes, ih hdiv, UInt8.toNat_ofNat']
    omega

/-- Bytes are read back. -/
theorem leBytes_ofLeBytes (bs : List UInt8) : leBytes bs.length (ofLeBytes bs) = bs := by
  induction bs with
  | nil => rfl
  | cons b bs ih =>
    have hb : b.toNat < 256 := b.toNat_lt
    have hdiv : (b.toNat + 256 * ofLeBytes bs) / 256 = ofLeBytes bs := by omega
    have hlow : UInt8.ofNat (b.toNat + 256 * ofLeBytes bs) = b := by
      apply UInt8.toNat_inj.mp
      rw [UInt8.toNat_ofNat']
      omega
    simp only [List.length_cons, ofLeBytes, leBytes, hdiv, hlow, ih]

/-- Bytes that stand for a number are its bytes. -/
theorem eq_leBytes_of_ofLeBytes {bs : List UInt8} (hlength : bs.length = n) (h : ofLeBytes bs = v) :
    bs = leBytes n v := by
  rw [← hlength, ← h, leBytes_ofLeBytes]

/-- The `n` low bytes of a number, the highest first. -/
def beBytes (n v : ℕ) : List UInt8 := (leBytes n v).reverse

def ofBeBytes (bs : List UInt8) : ℕ := ofLeBytes bs.reverse

/-- The number of bytes. -/
@[simp]
theorem length_beBytes (n v : ℕ) : (beBytes n v).length = n := by
  simp [beBytes]

/-- Bytes bound the number. -/
theorem ofBeBytes_lt (bs : List UInt8) : ofBeBytes bs < 256 ^ bs.length := by
  simpa [ofBeBytes] using ofLeBytes_lt bs.reverse

/-- A number that fits is read back. -/
theorem ofBeBytes_beBytes (h : v < 256 ^ n) : ofBeBytes (beBytes n v) = v := by
  simp [ofBeBytes, beBytes, ofLeBytes_leBytes h]

/-- Bytes are read back. -/
theorem beBytes_ofBeBytes (bs : List UInt8) : beBytes bs.length (ofBeBytes bs) = bs := by
  have h := leBytes_ofLeBytes bs.reverse
  rw [List.length_reverse] at h
  rw [beBytes, ofBeBytes, h, List.reverse_reverse]

/-- A way to lay out numbers in bytes. -/
structure ByteOrder where
  write : ℕ → ℕ → List UInt8
  read : List UInt8 → ℕ
  length_write : ∀ n v, (write n v).length = n
  read_lt : ∀ bs, read bs < 256 ^ bs.length
  read_write : ∀ n v, v < 256 ^ n → read (write n v) = v
  write_read : ∀ bs, write bs.length (read bs) = bs

def littleEndian : ByteOrder where
  write := leBytes
  read := ofLeBytes
  length_write := length_leBytes
  read_lt := ofLeBytes_lt
  read_write _ _ := ofLeBytes_leBytes
  write_read := leBytes_ofLeBytes

def bigEndian : ByteOrder where
  write := beBytes
  read := ofBeBytes
  length_write := length_beBytes
  read_lt := ofBeBytes_lt
  read_write _ _ := ofBeBytes_beBytes
  write_read := beBytes_ofBeBytes

/-- Bits and bytes. -/
theorem two_pow_eight_mul (n : ℕ) : 2 ^ (8 * n) = 256 ^ n := by
  rw [pow_mul]
  rfl

/-- Words of `8 * n` bits are the numbers below `256 ^ n`. -/
def bitVecWord (n : ℕ) : BitVec (8 * n) ≃ Fin (256 ^ n) where
  toFun a := ⟨a.toNat, lt_of_lt_of_eq a.isLt (two_pow_eight_mul n)⟩
  invFun v := BitVec.ofNat (8 * n) v
  left_inv a := by simp
  right_inv v := by
    apply Fin.ext
    have hv : v.val < 2 ^ (8 * n) := lt_of_lt_of_eq v.isLt (two_pow_eight_mul n).symm
    simp [Nat.mod_eq_of_lt hv]

def uint64Word : UInt64 ≃ Fin (256 ^ 8) where
  toFun a := ⟨a.toNat, a.toNat_lt⟩
  invFun v := UInt64.ofNat v
  left_inv a := by simp
  right_inv v := by
    apply Fin.ext
    exact UInt64.toNat_ofNat_of_lt' v.isLt

end BasedOp.Computation
