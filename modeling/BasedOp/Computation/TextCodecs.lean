import Mathlib.Data.Nat.Digits.Defs
import Mathlib.Data.Nat.Digits.Lemmas

/-!
# Numbers and bytes as text

Numerals of a base up to sixteen, bytes as pairs of hexadecimal digits, and bytes in base64.
Numerals and pairs of digits are read back. A base64 text is never the hexadecimal text of
the same bytes.
-/

set_option autoImplicit false

namespace BasedOp.Computation

/-! ## Digits -/

def digitChar (d : ℕ) : Char :=
  ['0', '1', '2', '3', '4', '5', '6', '7', '8', '9', 'a', 'b', 'c', 'd', 'e', 'f'].getD d '0'

def digitValue? (c : Char) : Option ℕ :=
  if '0' ≤ c ∧ c ≤ '9' then some (c.toNat - '0'.toNat)
  else if 'A' ≤ c ∧ c ≤ 'F' then some (c.toNat - 'A'.toNat + 10)
  else if 'a' ≤ c ∧ c ≤ 'f' then some (c.toNat - 'a'.toNat + 10)
  else none

/-- A digit is read back. -/
theorem digitValue?_digitChar {d : ℕ} (h : d < 16) : digitValue? (digitChar d) = some d := by
  decide +revert

/-- A number in the given base, without leading zeros. -/
def numeral (base n : ℕ) : List Char :=
  if n = 0 then ['0'] else (Nat.digits base n).reverse.map digitChar

/-- The value of a text of digits. -/
def readDigits (base : ℕ) (text : List Char) : Option ℕ :=
  text.foldlM (fun value c =>
    (digitValue? c).bind fun d => if d < base then some (base * value + d) else none) 0

variable {n : ℕ} {bytes : List UInt8}

section

variable {base : ℕ}

/-- So are several digits. -/
theorem foldlM_digitChar (hbase : base ≤ 16) {ds : List ℕ} (hds : ∀ d ∈ ds, d < base) (value : ℕ) :
    (ds.map digitChar).foldlM (fun value c =>
        (digitValue? c).bind fun d => if d < base then some (base * value + d) else none) value =
      some (ds.foldl (fun value d => base * value + d) value) := by
  induction ds generalizing value with
  | nil => rfl
  | cons d ds ih =>
    have hd : d < base := hds d List.mem_cons_self
    have hdigit : digitValue? (digitChar d) = some d := digitValue?_digitChar (by omega)
    simp only [List.map_cons, List.foldlM_cons, hdigit, Option.bind_some, if_pos hd,
      Option.bind_eq_bind, List.foldl_cons]
    exact ih (fun e he => hds e (List.mem_cons_of_mem d he)) _

/-- Digits from the highest down. -/
theorem foldl_reverse_digits (base : ℕ) (ds : List ℕ) :
    ds.reverse.foldl (fun value d => base * value + d) 0 = Nat.ofDigits base ds := by
  rw [List.foldl_reverse, Nat.ofDigits_eq_foldr]
  simp only [Nat.cast_id, Nat.add_comm]

/-- A numeral is read back. -/
theorem readDigits_numeral (hlow : 1 < base) (hhigh : base ≤ 16) (n : ℕ) :
    readDigits base (numeral base n) = some n := by
  unfold numeral
  split
  · rename_i hzero
    subst hzero
    have hdigit : digitValue? '0' = some 0 := rfl
    simp only [readDigits, List.foldlM_cons, List.foldlM_nil, hdigit, Option.bind_some,
      if_pos (Nat.lt_of_succ_lt hlow), Option.bind_eq_bind, Nat.mul_zero, Nat.add_zero]
    rfl
  · have hds : ∀ d ∈ (Nat.digits base n).reverse, d < base := by
      intro d hd
      exact Nat.digits_lt_base hlow (List.mem_reverse.mp hd)
    rw [readDigits, foldlM_digitChar hhigh hds, foldl_reverse_digits, Nat.ofDigits_digits]

/-- A numeral has a digit. -/
theorem numeral_ne_nil (base n : ℕ) : numeral base n ≠ [] := by
  unfold numeral
  split
  · exact List.cons_ne_nil _ _
  · rename_i hn
    simpa using Nat.digits_ne_nil_iff_ne_zero.mpr hn

/-- The digits of a numeral. -/
theorem mem_numeral (hlow : 1 < base) {c : Char} (h : c ∈ numeral base n) :
    ∃ d, d < base ∧ c = digitChar d := by
  unfold numeral at h
  split at h
  · obtain rfl := List.mem_singleton.mp h
    exact ⟨0, Nat.lt_of_succ_lt hlow, rfl⟩
  · obtain ⟨d, hd, rfl⟩ := List.mem_map.mp h
    exact ⟨d, Nat.digits_lt_base hlow (List.mem_reverse.mp hd), rfl⟩

/-- A numeral of more than one digit does not start with a zero. -/
theorem head_numeral (hlow : 1 < base) (hhigh : base ≤ 16) {c : Char} {text : List Char}
    (h : numeral base n = c :: text) (htext : text ≠ []) : c ≠ '0' := by
  unfold numeral at h
  split at h
  · obtain ⟨-, rfl⟩ := List.cons.inj h
    exact absurd rfl htext
  · rename_i hn
    have hne : Nat.digits base n ≠ [] := Nat.digits_ne_nil_iff_ne_zero.mpr hn
    obtain ⟨d, ds, hds, rfl, -⟩ := List.map_eq_cons_iff.mp h
    have hlast : (Nat.digits base n).getLast hne = d := by
      have hreverse : (Nat.digits base n) = ds.reverse ++ [d] := by
        rw [← List.reverse_reverse (Nat.digits base n), hds, List.reverse_cons]
      simp [hreverse]
    have hd : d ≠ 0 := hlast ▸ Nat.getLast_digit_ne_zero base hn
    have hlt : d < base := hlast ▸ Nat.digits_lt_base hlow (List.getLast_mem hne)
    intro hzero
    have hvalue := digitValue?_digitChar (show d < 16 by omega)
    rw [hzero] at hvalue
    exact hd (Option.some.inj hvalue).symm

/-- A small number has few digits. -/
theorem length_numeral_le {k : ℕ} (hlow : 1 < base) (hk : 0 < k) (h : n < base ^ k) :
    (numeral base n).length ≤ k := by
  unfold numeral
  split
  · exact hk
  · rw [List.length_map, List.length_reverse]
    exact (Nat.digits_length_le_iff hlow n).mpr h

end

/-! ## Hexadecimal -/

def hexEncode (bytes : List UInt8) : List Char :=
  bytes.flatMap fun b => [digitChar (b.toNat / 16), digitChar (b.toNat % 16)]

def hexDecode : List Char → Option (List UInt8)
  | [] => some []
  | [_] => none
  | c :: d :: text => do
    let high ← digitValue? c
    let low ← digitValue? d
    let bytes ← hexDecode text
    some (UInt8.ofNat (16 * high + low) :: bytes)

/-- Hexadecimal digits are read back. -/
theorem hexDecode_hexEncode (bytes : List UInt8) : hexDecode (hexEncode bytes) = some bytes := by
  induction bytes with
  | nil => rfl
  | cons b bytes ih =>
    have hb : b.toNat < 256 := b.toNat_lt
    have hhigh := digitValue?_digitChar (show b.toNat / 16 < 16 by omega)
    have hlow := digitValue?_digitChar (show b.toNat % 16 < 16 by omega)
    have hvalue : 16 * (b.toNat / 16) + b.toNat % 16 = b.toNat := by omega
    simp only [hexEncode, List.flatMap_cons, List.cons_append, List.nil_append, hexDecode] at ih ⊢
    simp only [hhigh, hlow, ih, Option.bind_eq_bind, Option.bind_some, hvalue,
      UInt8.ofNat_toNat]

/-- Two digits for each byte. -/
theorem length_hexEncode (bytes : List UInt8) : (hexEncode bytes).length = 2 * bytes.length := by
  induction bytes with
  | nil => rfl
  | cons b bytes ih =>
    simp only [hexEncode, List.flatMap_cons, List.length_append, List.length_cons,
      List.length_nil] at ih ⊢
    omega

/-- So when decoding. -/
theorem length_of_hexDecode {text : List Char} (h : hexDecode text = some bytes) :
    text.length = 2 * bytes.length := by
  induction text using hexDecode.induct generalizing bytes with
  | case1 =>
    obtain rfl := Option.some.inj h
    rfl
  | case2 => cases h
  | case3 c d text ih =>
    obtain ⟨high, -, h⟩ := Option.bind_eq_some_iff.mp h
    obtain ⟨low, -, h⟩ := Option.bind_eq_some_iff.mp h
    obtain ⟨rest, hrest, h⟩ := Option.bind_eq_some_iff.mp h
    obtain rfl := Option.some.inj h
    have hlength := ih hrest
    simp only [List.length_cons]
    omega

/-! ## Base64 -/

def base64Char (v : ℕ) : Char :=
  if v < 26 then Char.ofNat ('A'.toNat + v)
  else if v < 52 then Char.ofNat ('a'.toNat + (v - 26))
  else if v < 62 then Char.ofNat ('0'.toNat + (v - 52))
  else if v = 62 then '+'
  else '/'

/-- Three bytes are four characters; the last group is padded. -/
def base64Encode : List UInt8 → List Char
  | [] => []
  | [a] => [base64Char (a.toNat / 4), base64Char (a.toNat % 4 * 16), '=', '=']
  | [a, b] =>
    [base64Char (a.toNat / 4), base64Char (a.toNat % 4 * 16 + b.toNat / 16),
      base64Char (b.toNat % 16 * 4), '=']
  | a :: b :: c :: bytes =>
    base64Char (a.toNat / 4) :: base64Char (a.toNat % 4 * 16 + b.toNat / 16) ::
      base64Char (b.toNat % 16 * 4 + c.toNat / 64) :: base64Char (c.toNat % 64) ::
      base64Encode bytes

/-- Four characters for three bytes. -/
theorem length_base64Encode (bytes : List UInt8) :
    (base64Encode bytes).length = 4 * ((bytes.length + 2) / 3) := by
  induction bytes using base64Encode.induct with
  | case1 => rfl
  | case2 => simp [base64Encode]
  | case3 => simp [base64Encode]
  | case4 a b c bytes ih =>
    simp only [base64Encode, List.length_cons, ih]
    omega

/-- A base64 text without its first two characters is not the hexadecimal text of the
same bytes: it is too short, or it ends in padding. -/
theorem hexDecode_base64Encode (hne : bytes ≠ []) :
    hexDecode ((base64Encode bytes).drop 2) ≠ some bytes := by
  intro h
  have hlength := length_of_hexDecode h
  rw [List.length_drop, length_base64Encode] at hlength
  have hone : bytes.length = 1 := by
    have hpos := List.length_pos_iff.mpr hne
    omega
  obtain ⟨b, rfl⟩ := List.length_eq_one_iff.mp hone
  cases h

end BasedOp.Computation
