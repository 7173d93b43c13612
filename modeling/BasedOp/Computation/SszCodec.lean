import BasedOp.Computation.SszRoot
import Mathlib.Data.BitVec
import Mathlib.Data.UInt
import Mathlib.Logic.Equiv.Basic

/-!
# The fields of SSZ objects

How the values of a field are written, read and hashed. Each codec carries the two halves of
its round trip: a value within the limits is read back, and only what would be written is
read.
-/

set_option autoImplicit false

namespace BasedOp.Computation.Ssz

/-! ## Reading -/

/-- The next `n` bytes of a stream, and what is left of it. -/
def readFull (n : ℕ) (input : List UInt8) : Option (List UInt8 × List UInt8) :=
  if n ≤ input.length then some (input.take n, input.drop n) else none

variable {bytes : List UInt8} {offsets : List ℕ}

/-- The bytes are read to their end. -/
theorem readFull_append {n : ℕ} (h : bytes.length = n) (rest : List UInt8) :
    readFull n (bytes ++ rest) = some (bytes, rest) := by
  subst h
  simp [readFull]

variable {input rest : List UInt8} {length maxSize : ℕ} {items : List (List UInt8)}

/-- What is read is what is in front. -/
theorem readFull_eq_some {n : ℕ} :
    readFull n input = some (bytes, rest) ↔ bytes.length = n ∧ input = bytes ++ rest := by
  constructor
  · intro h
    unfold readFull at h
    split at h
    · rename_i hle
      obtain ⟨rfl, rfl⟩ := Prod.mk.inj (Option.some.inj h)
      exact ⟨List.length_take_of_le hle, (List.take_append_drop n input).symm⟩
    · cases h
  · rintro ⟨hlength, rfl⟩
    exact readFull_append hlength rest

/-! ## The fields -/

/-- How a value is written and read, and what the hasher makes of it. A value that fits is
read back, and only what would be written is read. -/
structure Codec (α : Type) where
  Fits : α → Prop
  encode : α → List UInt8
  decode : List UInt8 → Option α
  field : α → Field
  decode_encode : ∀ a, Fits a → decode (encode a) = some a
  encode_of_decode : ∀ bytes a, decode bytes = some a → encode a = bytes

/-- A codec whose values all take the same number of bytes. -/
structure StaticCodec (α : Type) extends Codec α where
  size : ℕ
  length_encode : ∀ a, (encode a).length = size

/-- A field of fixed size is hashed as it is written. -/
def StaticCodec.ofFn {α : Type} (size : ℕ) (Fits : α → Prop) (encode : α → List UInt8)
    (decode : List UInt8 → Option α)
    (decode_encode : ∀ a, Fits a → decode (encode a) = some a)
    (encode_of_decode : ∀ bytes a, decode bytes = some a → encode a = bytes)
    (length_encode : ∀ a, (encode a).length = size) : StaticCodec α where
  Fits := Fits
  encode := encode
  decode := decode
  field a := .fixed (encode a)
  decode_encode := decode_encode
  encode_of_decode := encode_of_decode
  size := size
  length_encode := length_encode

/-- A value of `size` bytes, through the number that the bytes stand for. -/
def wordCodec {α : Type} (order : ByteOrder) (size : ℕ) (word : α ≃ Fin (256 ^ size)) :
    StaticCodec α :=
  StaticCodec.ofFn size (fun _ => True) (fun a => order.write size (word a))
    (fun bytes =>
      if h : bytes.length = size then some (word.symm ⟨order.read bytes, h ▸ order.read_lt bytes⟩)
      else none)
    (by
      intro a _
      have hread : order.read (order.write size (word a)) = word a :=
        order.read_write size _ (word a).isLt
      simp [order.length_write, hread])
    (by
      intro bytes a h
      split at h
      · rename_i hlength
        obtain rfl := Option.some.inj h
        subst hlength
        simp [order.write_read]
      · cases h)
    (fun a => order.length_write size (word a))

def uint64Codec : StaticCodec UInt64 := wordCodec littleEndian 8 uint64Word

/-- An array of bytes, kept as one word with its first byte highest. -/
def staticBytesCodec (size : ℕ) : StaticCodec (BitVec (8 * size)) :=
  wordCodec bigEndian size (bitVecWord size)

def boolCodec : StaticCodec Bool :=
  StaticCodec.ofFn 1 (fun _ => True) (fun b => [if b then 1 else 0])
    (fun bytes => if bytes = [0] then some false else if bytes = [1] then some true else none)
    (by decide)
    (by
      intro bytes b h
      split at h
      · cases h
        simp [*]
      · split at h
        · cases h
          simp [*]
        · cases h)
    (fun _ => rfl)

def uint256Word : StaticCodec (BitVec 256) := wordCodec littleEndian 32 (bitVecWord 32)

/-- A number of 256 bits behind a pointer. The nil pointer is written as zero, and what is
read is never nil. -/
def uint256Codec : StaticCodec (Option (BitVec 256)) :=
  StaticCodec.ofFn 32 (fun a => a.isSome) (fun a => uint256Word.encode (a.getD 0))
    (fun bytes => (uint256Word.decode bytes).map some)
    (by
      intro a ha
      obtain ⟨v, rfl⟩ := Option.isSome_iff_exists.mp ha
      rw [Option.getD_some, uint256Word.decode_encode v trivial, Option.map_some])
    (by
      intro bytes a h
      obtain ⟨v, hv, rfl⟩ := Option.map_eq_some_iff.mp h
      exact uint256Word.encode_of_decode bytes v hv)
    (fun a => uint256Word.length_encode (a.getD 0))

/-- Bytes with a limit on their number. -/
def dynamicBytesCodec (maxSize : ℕ) : Codec (List UInt8) where
  Fits bytes := bytes.length ≤ maxSize
  encode bytes := bytes
  decode bytes := if bytes.length ≤ maxSize then some bytes else none
  field := .byteList maxSize
  decode_encode bytes h := if_pos h
  encode_of_decode bytes a h := by
    split at h
    · exact (Option.some.inj h).symm
    · cases h

/-! ## Lists of byte strings -/

/-- The sizes between consecutive offsets, and from the last one to the end. -/
def sizesOf (length : ℕ) : List ℕ → List ℕ
  | [] => []
  | [offset] => [length - offset]
  | offset :: next :: offsets => (next - offset) :: sizesOf length (next :: offsets)

/-- Where each item starts if the first one starts at the given place. -/
def offsetsFrom : ℕ → List (List UInt8) → List ℕ
  | _, [] => []
  | offset, item :: items => offset :: offsetsFrom (offset + item.length) items

/-- Read offsets that do not go back and do not pass the end. -/
def readOffsets (length : ℕ) : ℕ → ℕ → List UInt8 → Option (List ℕ × List UInt8)
  | 0, _, input => some ([], input)
  | count + 1, previous, input => do
    let (bytes, rest) ← readFull 4 input
    if previous ≤ ofLeBytes bytes ∧ ofLeBytes bytes ≤ length then
      let (offsets, rest) ← readOffsets length count (ofLeBytes bytes) rest
      some (ofLeBytes bytes :: offsets, rest)
    else none

def readItems (maxSize : ℕ) : List ℕ → List UInt8 → Option (List (List UInt8) × List UInt8)
  | [], input => some ([], input)
  | size :: sizes, input => do
    let (item, rest) ← readFull size input
    if size ≤ maxSize then
      let (items, rest) ← readItems maxSize sizes rest
      some (item :: items, rest)
    else none

def encodeSlices (items : List (List UInt8)) : List UInt8 :=
  (offsetsFrom (4 * items.length) items).flatMap (leBytes 4) ++ items.flatten

/-- The first offset says how many items there are. -/
def decodeSlices (maxItems maxSize : ℕ) (input : List UInt8) : Option (List (List UInt8)) :=
  if input = [] then some [] else do
    let (bytes, rest) ← readFull 4 input
    let first := ofLeBytes bytes
    if first ≤ input.length ∧ first ≠ 0 ∧ first % 4 = 0 ∧ first / 4 ≤ maxItems then
      let (offsets, rest) ← readOffsets input.length (first / 4 - 1) first rest
      let (items, rest) ← readItems maxSize (sizesOf input.length (first :: offsets)) rest
      if rest = [] then some items else none
    else none

/-- One offset for each item. -/
@[simp]
theorem length_offsetsFrom (offset : ℕ) (items : List (List UInt8)) :
    (offsetsFrom offset items).length = items.length := by
  induction items generalizing offset with
  | nil => rfl
  | cons item items ih => simp [offsetsFrom, ih]

/-- The size of the offsets. -/
theorem length_flatMap_leBytes (size : ℕ) (values : List ℕ) :
    (values.flatMap (leBytes size)).length = size * values.length := by
  induction values with
  | nil => rfl
  | cons value values ih =>
    simp only [List.flatMap_cons, List.length_append, length_leBytes, ih, List.length_cons]
    rw [Nat.mul_add, Nat.mul_one, Nat.add_comm]

/-- The size of a list of slices. -/
theorem length_encodeSlices (items : List (List UInt8)) :
    (encodeSlices items).length = 4 * items.length + items.flatten.length := by
  rw [encodeSlices, List.length_append, length_flatMap_leBytes, length_offsetsFrom]

/-- Offsets give back the sizes. -/
theorem sizesOf_offsetsFrom (offset : ℕ) (items : List (List UInt8)) :
    sizesOf (offset + items.flatten.length) (offsetsFrom offset items) =
      items.map List.length := by
  induction items generalizing offset with
  | nil => rfl
  | cons item items ih =>
    cases items with
    | nil => simp [offsetsFrom, sizesOf]
    | cons =>
      have hrest := ih (offset + item.length)
      simp only [List.flatten_cons, List.length_append] at hrest ⊢
      simp only [offsetsFrom, sizesOf, List.map_cons, Nat.add_sub_cancel_left]
      simp only [offsetsFrom, List.map_cons] at hrest
      rw [← hrest]
      congr 2
      omega

/-- Offsets are read back. -/
theorem readOffsets_offsetsFrom (hlength : length < 2 ^ 32) {offset previous : ℕ}
    (hprevious : previous ≤ offset) (items : List (List UInt8))
    (hend : offset + items.flatten.length ≤ length) (rest : List UInt8) :
    readOffsets length items.length previous
        ((offsetsFrom offset items).flatMap (leBytes 4) ++ rest) =
      some (offsetsFrom offset items, rest) := by
  induction items generalizing offset previous with
  | nil => rfl
  | cons item items ih =>
    simp only [List.flatten_cons, List.length_append] at hend
    have hoffset : ofLeBytes (leBytes 4 offset) = offset := by
      apply ofLeBytes_leBytes
      omega
    have hrest : readOffsets length items.length offset
        ((offsetsFrom (offset + item.length) items).flatMap (leBytes 4) ++ rest) =
        some (offsetsFrom (offset + item.length) items, rest) :=
      ih (by omega) (by omega)
    simp only [offsetsFrom, List.flatMap_cons, List.append_assoc, List.length_cons, readOffsets,
      readFull_append (length_leBytes 4 offset), Option.bind_eq_bind, Option.bind_some, hoffset,
      hrest]
    rw [if_pos ⟨hprevious, by omega⟩]

/-- Items are read back. -/
theorem readItems_flatten (hsize : ∀ item ∈ items, item.length ≤ maxSize) (rest : List UInt8) :
    readItems maxSize (items.map List.length) (items.flatten ++ rest) = some (items, rest) := by
  induction items with
  | nil => rfl
  | cons item items ih =>
    have hitem : item.length ≤ maxSize := hsize item List.mem_cons_self
    have hrest := ih fun i hi => hsize i (List.mem_cons_of_mem item hi)
    simp only [List.map_cons, List.flatten_cons, List.append_assoc, readItems,
      readFull_append rfl, Option.bind_eq_bind, Option.bind_some, hrest, if_pos hitem]

/-- A list of byte strings within the limits is read back. -/
theorem decodeSlices_encodeSlices {maxItems : ℕ} (hitems : items.length ≤ maxItems)
    (hsize : ∀ item ∈ items, item.length ≤ maxSize)
    (hlength : (encodeSlices items).length < 2 ^ 32) :
    decodeSlices maxItems maxSize (encodeSlices items) = some items := by
  cases items with
  | nil => rfl
  | cons item items =>
    have htotal := length_encodeSlices (item :: items)
    have hcount : (item :: items).length = items.length + 1 := rfl
    have hflat : (item :: items).flatten.length = item.length + items.flatten.length := by simp
    have hne : encodeSlices (item :: items) ≠ [] := by
      intro h
      rw [h] at htotal
      simp only [List.length_nil] at htotal
      omega
    -- the offset of the first item is the place after all the offsets
    have hfirst : ofLeBytes (leBytes 4 (4 * (item :: items).length)) =
        4 * (item :: items).length := by
      apply ofLeBytes_leBytes
      omega
    have hencode : encodeSlices (item :: items) = leBytes 4 (4 * (item :: items).length) ++
        ((offsetsFrom (4 * (item :: items).length + item.length) items).flatMap (leBytes 4) ++
          (item :: items).flatten) := by
      simp only [encodeSlices, offsetsFrom, List.flatMap_cons, List.append_assoc]
    have hfull := readFull_append (length_leBytes 4 (4 * (item :: items).length))
      ((offsetsFrom (4 * (item :: items).length + item.length) items).flatMap (leBytes 4) ++
        (item :: items).flatten)
    rw [← hencode] at hfull
    have hoffsets := readOffsets_offsetsFrom hlength
      (Nat.le_add_right (4 * (item :: items).length) item.length) items (by omega)
      (item :: items).flatten
    have hsizes : sizesOf (encodeSlices (item :: items)).length
        (4 * (item :: items).length ::
          offsetsFrom (4 * (item :: items).length + item.length) items) =
        (item :: items).map List.length := by
      rw [htotal]
      exact sizesOf_offsetsFrom (4 * (item :: items).length) (item :: items)
    have hread := readItems_flatten hsize []
    rw [List.append_nil] at hread
    have hdiv : 4 * (item :: items).length / 4 - 1 = items.length := by omega
    unfold decodeSlices
    simp only [if_neg hne, hfull, Option.bind_eq_bind, Option.bind_some, hfirst, hdiv, hoffsets,
      hsizes, hread, if_true]
    rw [if_pos ⟨by omega, by omega, by omega, by omega⟩]

/-- What is read as offsets. -/
theorem of_readOffsets {count previous : ℕ}
    (h : readOffsets length count previous input = some (offsets, rest)) :
    offsets.length = count ∧ input = offsets.flatMap (leBytes 4) ++ rest ∧
      (previous :: offsets).IsChain (· ≤ ·) ∧ ∀ offset ∈ offsets, offset ≤ length := by
  induction count generalizing previous input offsets with
  | zero =>
    obtain ⟨rfl, rfl⟩ := Prod.mk.inj (Option.some.inj h)
    simp
  | succ count ih =>
    obtain ⟨⟨bytes, rest₁⟩, hfull, hbody⟩ := Option.bind_eq_some_iff.mp h
    obtain ⟨hlength, rfl⟩ := readFull_eq_some.mp hfull
    dsimp only at hbody
    split at hbody
    · rename_i hbounds
      obtain ⟨⟨offsets₁, rest₂⟩, hrest, hresult⟩ := Option.bind_eq_some_iff.mp hbody
      obtain ⟨rfl, rfl⟩ := Prod.mk.inj (Option.some.inj hresult)
      obtain ⟨hcount, rfl, hchain, hle⟩ := ih hrest
      have hbytes : bytes = leBytes 4 (ofLeBytes bytes) := eq_leBytes_of_ofLeBytes hlength rfl
      refine ⟨by simp [hcount], ?_, List.isChain_cons_cons.mpr ⟨hbounds.1, hchain⟩, ?_⟩
      · rw [List.flatMap_cons, ← hbytes, List.append_assoc]
      · simpa using ⟨hbounds.2, hle⟩
    · cases hbody

/-- What is read as items. -/
theorem of_readItems {sizes : List ℕ} (h : readItems maxSize sizes input = some (items, rest)) :
    items.map List.length = sizes ∧ input = items.flatten ++ rest := by
  induction sizes generalizing input items with
  | nil =>
    obtain ⟨rfl, rfl⟩ := Prod.mk.inj (Option.some.inj h)
    simp
  | cons size sizes ih =>
    obtain ⟨⟨item, rest₁⟩, hfull, hbody⟩ := Option.bind_eq_some_iff.mp h
    obtain ⟨hlength, rfl⟩ := readFull_eq_some.mp hfull
    dsimp only at hbody
    split at hbody
    · obtain ⟨⟨items₁, rest₂⟩, hrest, hresult⟩ := Option.bind_eq_some_iff.mp hbody
      obtain ⟨rfl, rfl⟩ := Prod.mk.inj (Option.some.inj hresult)
      obtain ⟨hsizes, rfl⟩ := ih hrest
      simp [hlength, hsizes]
    · cases hbody

/-- Offsets that do not go back are those of items with the sizes between them. -/
theorem offsetsFrom_of_sizesOf {first : ℕ} (hchain : (first :: offsets).IsChain (· ≤ ·))
    (hle : ∀ offset ∈ first :: offsets, offset ≤ length)
    (hsizes : items.map List.length = sizesOf length (first :: offsets)) :
    offsetsFrom first items = first :: offsets ∧ first + items.flatten.length = length := by
  induction offsets generalizing first items with
  | nil =>
    obtain ⟨item, rest, rfl, hitem, hrest⟩ := List.map_eq_cons_iff.mp hsizes
    obtain rfl := List.map_eq_nil_iff.mp hrest
    have hfirst : first ≤ length := hle first List.mem_cons_self
    refine ⟨rfl, ?_⟩
    simp only [List.flatten_cons, List.flatten_nil, List.append_nil]
    omega
  | cons next offsets ih =>
    obtain ⟨item, rest, rfl, hitem, hrest⟩ := List.map_eq_cons_iff.mp hsizes
    obtain ⟨hfirst, hchain⟩ := List.isChain_cons_cons.mp hchain
    obtain ⟨hoffsets, hend⟩ := ih hchain (fun o ho => hle o (List.mem_cons_of_mem first ho)) hrest
    have hnext : first + item.length = next := by omega
    refine ⟨?_, ?_⟩
    · rw [offsetsFrom, hnext, hoffsets]
    · simp only [List.flatten_cons, List.length_append]
      omega

/-- Only what would be written is read as a list of byte strings. -/
theorem encodeSlices_of_decodeSlices {maxItems : ℕ}
    (h : decodeSlices maxItems maxSize input = some items) :
    encodeSlices items = input := by
  unfold decodeSlices at h
  split at h
  · rename_i hnil
    obtain rfl := Option.some.inj h
    exact hnil.symm
  · obtain ⟨⟨bytes, rest⟩, hfull, h⟩ := Option.bind_eq_some_iff.mp h
    obtain ⟨hlength, hinput⟩ := readFull_eq_some.mp hfull
    dsimp only at h
    split at h
    · rename_i hfirst
      obtain ⟨⟨offsets, rest₁⟩, hoffsets, h⟩ := Option.bind_eq_some_iff.mp h
      obtain ⟨⟨items₁, rest₂⟩, hitems, h⟩ := Option.bind_eq_some_iff.mp h
      dsimp only at h
      split at h
      · rename_i hrest
        obtain rfl := Option.some.inj h
        subst hrest
        obtain ⟨hcount, rfl, hchain, hle⟩ := of_readOffsets hoffsets
        obtain ⟨hsizes, rfl⟩ := of_readItems hitems
        obtain ⟨hfrom, -⟩ := offsetsFrom_of_sizesOf hchain
          (List.forall_mem_cons.mpr ⟨hfirst.1, hle⟩) hsizes
        have hbytes : bytes = leBytes 4 (ofLeBytes bytes) := eq_leBytes_of_ofLeBytes hlength rfl
        have hitems : items₁.length = offsets.length + 1 := by
          have := congrArg List.length hfrom
          simpa using this
        have hstart : 4 * items₁.length = ofLeBytes bytes := by omega
        rw [encodeSlices, hstart, hfrom, List.flatMap_cons, ← hbytes, hinput, List.append_nil,
          List.append_assoc]
      · cases h
    · cases h

/-- A list of byte strings, with limits on their number and on the size of each. -/
def sliceOfDynamicBytesCodec (maxItems maxSize : ℕ) : Codec (List (List UInt8)) where
  Fits items := items.length ≤ maxItems ∧ (∀ item ∈ items, item.length ≤ maxSize) ∧
    (encodeSlices items).length < 2 ^ 32
  encode := encodeSlices
  decode := decodeSlices maxItems maxSize
  field := .byteLists maxItems maxSize
  decode_encode _ h := decodeSlices_encodeSlices h.1 h.2.1 h.2.2
  encode_of_decode _ _ := encodeSlices_of_decodeSlices

end BasedOp.Computation.Ssz
