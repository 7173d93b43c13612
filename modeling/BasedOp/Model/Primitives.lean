import Mathlib.Data.List.AList
import Mathlib.Data.UInt

/-!
# Primitive data

The fixed-width values and byte strings that the Go and Rust sources exchange.
Machine words are Lean's own `UInt64`, with the wrap-around of the source.
-/

set_option autoImplicit false

namespace BasedOp.Model

/-- A 32-byte value: `common.Hash`, `Bytes32`, and the contents of a `uint256.Int`. -/
abbrev Hash := BitVec 256

/-- A 20-byte account address, `common.Address`. -/
abbrev Address := BitVec 160

/-- A 256-byte logs bloom, `types.Bloom`. -/
abbrev Bloom := BitVec 2048

/-- A 65-byte signature, `Bytes65`. -/
abbrev Bytes65 := BitVec 520

/-- A byte slice. The nil slice and the empty one are not told apart. -/
abbrev Bytes := List UInt8

/-- A Go map. -/
abbrev GoMap (κ α : Type) := AList fun _ : κ => α

/-! ## Words -/

/-- Adding one does not wrap if the result is not zero. -/
theorem toNat_of_eq_add_one {a b : UInt64} (h : a = b + 1) (ha : a ≠ 0) :
    a.toNat = b.toNat + 1 := by
  have hne : a.toNat ≠ 0 := fun hzero => ha (UInt64.toNat_inj.mp hzero)
  have hle : b.toNat < 2 ^ 64 := b.toNat_lt
  rw [h, UInt64.toNat_add] at hne ⊢
  change (b.toNat + 1) % 2 ^ 64 ≠ 0 at hne
  change (b.toNat + 1) % 2 ^ 64 = b.toNat + 1
  omega

/-- The next word does not exceed a greater one. -/
theorem add_one_le_of_lt {a b : UInt64} (h : a < b) : a + 1 ≤ b := by
  have hlt := UInt64.lt_iff_toNat_lt.mp h
  rw [UInt64.le_iff_toNat_le, UInt64.toNat_add]
  change (a.toNat + 1) % 2 ^ 64 ≤ _
  omega

end BasedOp.Model
