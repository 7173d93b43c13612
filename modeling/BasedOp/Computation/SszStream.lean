import BasedOp.Computation.SszCodec

/-!
# A streaming SSZ codec

An object lists its fields once, in a sequence of calls, and the encoder, the decoder and the
hasher each go through that list. The encoder writes what the calls say in their order; an
offset is the fixed size that the object declares plus the sizes of the dynamic contents
before. The decoder reads in the same order; the first offset has to be the declared fixed
size, the size of a content is the distance to the next offset or to the end of the object,
and all of the object has to be read.

For objects with at most one dynamic field, wherever its content stands among the fields of
fixed size, what is written is read back (`decodeFromStream_oneDynamic`), and what is read is
what would be written (`encode_of_decodeFromStream_oneDynamic`).

A program that has the codec from elsewhere is verified over any `Library`, of which the laws are
assumed; the codec here is one.
-/

set_option autoImplicit false

namespace BasedOp.Computation.Ssz

/-! ## Calls -/

/-- The address of a field of an object. -/
structure Ref (τ α : Type) where
  get : τ → α
  set : α → τ → τ
  get_set : ∀ a t, get (set a t) = a

structure FixedField (τ : Type) where
  α : Type
  codec : StaticCodec α
  ref : Ref τ α

structure DynamicField (τ : Type) where
  α : Type
  codec : Codec α
  ref : Ref τ α

/-- What an object says of one of its fields. A dynamic field has two calls, one for its
offset and one for its content. -/
inductive Call (τ : Type) where
  | static (f : FixedField τ)
  | offset (f : DynamicField τ)
  | content (f : DynamicField τ)

variable {τ : Type}

def uint64Field (ref : Ref τ UInt64) : FixedField τ := ⟨UInt64, uint64Codec, ref⟩

def boolField (ref : Ref τ Bool) : FixedField τ := ⟨Bool, boolCodec, ref⟩

def uint256Field (ref : Ref τ (Option (BitVec 256))) : FixedField τ :=
  ⟨Option (BitVec 256), uint256Codec, ref⟩

def bytes32Field (ref : Ref τ (BitVec 256)) : FixedField τ :=
  ⟨BitVec 256, staticBytesCodec 32, ref⟩

def bytes20Field (ref : Ref τ (BitVec 160)) : FixedField τ :=
  ⟨BitVec 160, staticBytesCodec 20, ref⟩

def dynamicBytesField (ref : Ref τ (List UInt8)) (maxSize : ℕ) : DynamicField τ :=
  ⟨List UInt8, dynamicBytesCodec maxSize, ref⟩

def sliceOfDynamicBytesField (ref : Ref τ (List (List UInt8))) (maxItems maxSize : ℕ) :
    DynamicField τ :=
  ⟨List (List UInt8), sliceOfDynamicBytesCodec maxItems maxSize, ref⟩

def FixedField.bytes (f : FixedField τ) (x : τ) : List UInt8 := f.codec.encode (f.ref.get x)

def FixedField.Fits (f : FixedField τ) (x : τ) : Prop := f.codec.Fits (f.ref.get x)

def DynamicField.bytes (f : DynamicField τ) (x : τ) : List UInt8 := f.codec.encode (f.ref.get x)

def DynamicField.Fits (f : DynamicField τ) (x : τ) : Prop := f.codec.Fits (f.ref.get x)

section

variable (x : τ)

/-- A word fits always. -/
@[simp]
theorem fits_uint64Field (ref : Ref τ UInt64) : (uint64Field ref).Fits x := trivial

/-- A truth value fits always. -/
@[simp]
theorem fits_boolField (ref : Ref τ Bool) : (boolField ref).Fits x := trivial

/-- A big number fits if it is there. -/
@[simp]
theorem fits_uint256Field (ref : Ref τ (Option (BitVec 256))) :
    (uint256Field ref).Fits x ↔ (ref.get x).isSome := Iff.rfl

/-- A hash fits always. -/
@[simp]
theorem fits_bytes32Field (ref : Ref τ (BitVec 256)) : (bytes32Field ref).Fits x := trivial

/-- An address fits always. -/
@[simp]
theorem fits_bytes20Field (ref : Ref τ (BitVec 160)) : (bytes20Field ref).Fits x := trivial

end

/-! ## Hashing -/

/-- A dynamic field is hashed where its offset stands. -/
def Call.fields (x : τ) : Call τ → List Field
  | static f => [f.codec.field (f.ref.get x)]
  | offset f => [f.codec.field (f.ref.get x)]
  | content _ => []

def hashSequential (sha : List UInt8 → List UInt8) (calls : List (Call τ)) (x : τ) : List UInt8 :=
  containerRoot sha (calls.flatMap (Call.fields x))

/-! ## Encoding -/

/-- Go through the calls with the next offset at hand. -/
def encodeCalls (x : τ) : ℕ → List (Call τ) → List UInt8
  | _, [] => []
  | next, .static f :: calls => f.bytes x ++ encodeCalls x next calls
  | next, .offset f :: calls => leBytes 4 next ++ encodeCalls x (next + (f.bytes x).length) calls
  | next, .content f :: calls => f.bytes x ++ encodeCalls x next calls

def encodeToStream (fixed : ℕ) (calls : List (Call τ)) (x : τ) : List UInt8 :=
  encodeCalls x fixed calls

/-- A part of the encoding: a field of fixed size, an offset or a dynamic content. -/
inductive Part where
  | fixed
  | offset
  | content
deriving DecidableEq

/-- What a call writes, and where. -/
structure Write where
  part : Part
  start : ℕ
  bytes : List UInt8
deriving DecidableEq

/-- The encoder, with each call's bytes apart. -/
def writes (x : τ) : ℕ → ℕ → List (Call τ) → List Write
  | _, _, [] => []
  | next, start, .static f :: calls =>
    ⟨.fixed, start, f.bytes x⟩ :: writes x next (start + (f.bytes x).length) calls
  | next, start, .offset f :: calls =>
    ⟨.offset, start, leBytes 4 next⟩ :: writes x (next + (f.bytes x).length) (start + 4) calls
  | next, start, .content f :: calls =>
    ⟨.content, start, f.bytes x⟩ :: writes x next (start + (f.bytes x).length) calls

/-- The writes make the encoding. -/
theorem flatMap_writes (x : τ) (next start : ℕ) (calls : List (Call τ)) :
    (writes x next start calls).flatMap Write.bytes = encodeCalls x next calls := by
  induction calls generalizing next start with
  | nil => rfl
  | cons call calls ih =>
    cases call with
    | static => simp only [writes, encodeCalls, List.flatMap_cons, ih]
    | offset => simp only [writes, encodeCalls, List.flatMap_cons, ih]
    | content => simp only [writes, encodeCalls, List.flatMap_cons, ih]

/-- The offset that is written, if it is one. -/
def Write.offset? (w : Write) : Option ℕ :=
  if w.part = .offset then some (ofLeBytes w.bytes) else none

/-- Where the content starts, if it is one. -/
def Write.content? (w : Write) : Option ℕ := if w.part = .content then some w.start else none

/-- The layout of a container: it has the size that is declared, nothing but contents comes
after a content, and the offsets are the places of the contents. -/
structure FollowsLayout (size : ℕ) (ws : List Write) : Prop where
  size_eq : size = (ws.flatMap Write.bytes).length
  fixed_first : ws.Pairwise fun w w' => w.part = .content → w'.part = .content
  offsets_eq : ws.filterMap Write.offset? = ws.filterMap Write.content?

/-! ## Decoding -/

structure Decoder (τ : Type) where
  obj : τ
  input : List UInt8
  read : ℕ
  offsets : List ℕ
  sizes : List ℕ

/-- The sizes of the contents are computed when the first of them is asked for. -/
def Decoder.retrieveSize (length : ℕ) (d : Decoder τ) : Option (ℕ × Decoder τ) :=
  match if d.sizes = [] then (sizesOf length d.offsets, []) else (d.sizes, d.offsets) with
  | ([], _) => none
  | (size :: sizes, offsets) => some (size, { d with sizes := sizes, offsets := offsets })

/-- The first offset is the fixed size, and the later ones do not go back. -/
def Decoder.inOrder (fixed : ℕ) (d : Decoder τ) (offset : ℕ) : Bool :=
  match d.offsets.getLast? with
  | none => offset = fixed
  | some previous => previous ≤ offset

def decodeCall (fixed length : ℕ) (d : Decoder τ) : Call τ → Option (Decoder τ)
  | .static f => do
    let (bytes, rest) ← readFull f.codec.size d.input
    let a ← f.codec.decode bytes
    some { d with obj := f.ref.set a d.obj, input := rest, read := d.read + f.codec.size }
  | .offset _ => do
    let (bytes, rest) ← readFull 4 d.input
    if ofLeBytes bytes ≤ length ∧ d.inOrder fixed (ofLeBytes bytes) then
      some { d with input := rest, read := d.read + 4, offsets := d.offsets ++ [ofLeBytes bytes] }
    else none
  | .content f => do
    let (size, d) ← d.retrieveSize length
    let (bytes, rest) ← readFull size d.input
    let a ← f.codec.decode bytes
    some { d with obj := f.ref.set a d.obj, input := rest, read := d.read + size }

def decodeCalls (fixed length : ℕ) : Decoder τ → List (Call τ) → Option (Decoder τ)
  | d, [] => some d
  | d, call :: calls =>
    (decodeCall fixed length d call).bind fun d => decodeCalls fixed length d calls

/-- Read an object of `length` bytes over an initial value. -/
def decodeFromStream (fixed length : ℕ) (calls : List (Call τ)) (initial : τ)
    (input : List UInt8) : Option (τ × List UInt8) := do
  let d ← decodeCalls fixed length ⟨initial, input, 0, [], []⟩ calls
  if d.read = length then some (d.obj, d.input) else none

/-! ## Any library -/

/-- The packages that a program takes its codec and its hashers from, and what is assumed of them:
fields are written in the order of the calls, an offset is the declared fixed size and the sizes
of the contents before; objects are read in the same order; and the hasher of the calls and that
of the fields come to the same root. -/
class Library where
  encodeToStream {τ : Type} (fixed : ℕ) (calls : List (Call τ)) (x : τ) : List UInt8
  decodeFromStream {τ : Type} (fixed length : ℕ) (calls : List (Call τ)) (initial : τ)
    (input : List UInt8) : Option (τ × List UInt8)
  hashSequential {τ : Type} (sha : List UInt8 → List UInt8) (calls : List (Call τ)) (x : τ) :
    List UInt8
  treeHashRoot (sha : List UInt8 → List UInt8) (fields : List Field) : List UInt8
  mixInSelector (sha : List UInt8 → List UInt8) (root : List UInt8) (selector : UInt8) : List UInt8
  encode_nil {τ : Type} (next : ℕ) (x : τ) : encodeToStream next [] x = []
  encode_static {τ : Type} (next : ℕ) (f : FixedField τ) (calls : List (Call τ)) (x : τ) :
    encodeToStream next (.static f :: calls) x = f.bytes x ++ encodeToStream next calls x
  encode_offset {τ : Type} (next : ℕ) (f : DynamicField τ) (calls : List (Call τ)) (x : τ) :
    encodeToStream next (.offset f :: calls) x =
      leBytes 4 next ++ encodeToStream (next + (f.bytes x).length) calls x
  encode_content {τ : Type} (next : ℕ) (f : DynamicField τ) (calls : List (Call τ)) (x : τ) :
    encodeToStream next (.content f :: calls) x = f.bytes x ++ encodeToStream next calls x
  decode_eq {τ : Type} (fixed length : ℕ) (calls : List (Call τ)) (initial : τ)
    (input : List UInt8) : decodeFromStream fixed length calls initial input =
      Ssz.decodeFromStream fixed length calls initial input
  hash_eq {τ : Type} (sha : List UInt8 → List UInt8) (calls : List (Call τ)) (x : τ) :
    hashSequential sha calls x = treeHashRoot sha (calls.flatMap (Call.fields x))
  selector_eq (sha : List UInt8 → List UInt8) (root : List UInt8) (selector : UInt8) :
    mixInSelector sha root selector = Ssz.mixInSelector sha root selector

/-- The codec of these modules. -/
instance : Library where
  encodeToStream := encodeToStream
  decodeFromStream := decodeFromStream
  hashSequential := hashSequential
  treeHashRoot := containerRoot
  mixInSelector := mixInSelector
  encode_nil _ _ := rfl
  encode_static _ _ _ _ := rfl
  encode_offset _ _ _ _ := rfl
  encode_content _ _ _ _ := rfl
  decode_eq _ _ _ _ _ := rfl
  hash_eq _ _ _ := rfl
  selector_eq _ _ _ := rfl

/-- The laws of writing leave one encoder. -/
theorem Library.encode_eq [Library] (fixed : ℕ) (calls : List (Call τ)) (x : τ) :
    Library.encodeToStream fixed calls x = Ssz.encodeToStream fixed calls x := by
  induction calls generalizing fixed with
  | nil => exact Library.encode_nil fixed x
  | cons call calls ih =>
    cases call with
    | static => rw [Library.encode_static, ih]; rfl
    | offset => rw [Library.encode_offset, ih]; rfl
    | content => rw [Library.encode_content, ih]; rfl

variable {fs : List (FixedField τ)} {f : DynamicField τ}

/-! ## What is written is read back -/

section

variable {fixed length : ℕ} {x : τ}

def fixedBytes (fs : List (FixedField τ)) (x : τ) : List UInt8 := fs.flatMap fun f => f.bytes x

def fixedSize (fs : List (FixedField τ)) : ℕ := (fs.map fun f => f.codec.size).sum

/-- The object with its fields of fixed size taken from another one. -/
def assignFixed (x : τ) (fs : List (FixedField τ)) (t : τ) : τ :=
  fs.foldl (fun t f => f.ref.set (f.ref.get x) t) t

/-- The size of the fixed fields. -/
theorem length_fixedBytes (fs : List (FixedField τ)) (x : τ) :
    (fixedBytes fs x).length = fixedSize fs := by
  induction fs with
  | nil => rfl
  | cons f fs ih =>
    have hf : (f.bytes x).length = f.codec.size := f.codec.length_encode (f.ref.get x)
    simp only [fixedBytes, fixedSize, List.flatMap_cons, List.length_append, List.map_cons,
      List.sum_cons] at ih ⊢
    rw [hf, ih]

/-- Fixed fields are written in place. -/
theorem encodeCalls_static (next : ℕ) (fs : List (FixedField τ)) (calls : List (Call τ)) :
    encodeCalls x next (fs.map .static ++ calls) = fixedBytes fs x ++ encodeCalls x next calls := by
  induction fs with
  | nil => rfl
  | cons f fs ih =>
    simp only [List.map_cons, List.cons_append, encodeCalls, ih, fixedBytes, List.flatMap_cons,
      List.append_assoc]

/-- Fixed fields are read back. -/
theorem decodeCalls_static (hfits : ∀ f ∈ fs, f.Fits x) (d : Decoder τ) (rest : List UInt8)
    (calls : List (Call τ)) (hinput : d.input = fixedBytes fs x ++ rest) :
    decodeCalls fixed length d (fs.map .static ++ calls) =
      decodeCalls fixed length
        { d with obj := assignFixed x fs d.obj, input := rest, read := d.read + fixedSize fs }
        calls := by
  induction fs generalizing d with
  | nil =>
    obtain rfl : d.input = rest := hinput
    rfl
  | cons f fs ih =>
    have hf : (f.bytes x).length = f.codec.size := f.codec.length_encode (f.ref.get x)
    have hdecode : f.codec.decode (f.bytes x) = some (f.ref.get x) :=
      f.codec.decode_encode _ (hfits f List.mem_cons_self)
    have hfull : readFull f.codec.size d.input = some (f.bytes x, fixedBytes fs x ++ rest) := by
      rw [hinput, fixedBytes, List.flatMap_cons, List.append_assoc]
      exact readFull_append hf _
    have hstep : decodeCall fixed length d (.static f) =
        some { d with obj := f.ref.set (f.ref.get x) d.obj, input := fixedBytes fs x ++ rest,
                      read := d.read + f.codec.size } := by
      simp only [decodeCall, hfull, Option.bind_eq_bind, Option.bind_some, hdecode]
    simp only [List.map_cons, List.cons_append, decodeCalls, hstep, Option.bind_some]
    rw [ih (fun g hg => hfits g (List.mem_cons_of_mem f hg)) _ rfl]
    simp only [assignFixed, List.foldl_cons, fixedSize, List.map_cons, List.sum_cons, Nat.add_assoc]

/-- The first offset is read back. -/
theorem decodeCalls_offset {d : Decoder τ} (hoffsets : d.offsets = []) (hfixed : fixed < 2 ^ 32)
    (hle : fixed ≤ length) (rest : List UInt8) (calls : List (Call τ))
    (hinput : d.input = leBytes 4 fixed ++ rest) :
    decodeCalls fixed length d (.offset f :: calls) =
      decodeCalls fixed length { d with input := rest, read := d.read + 4, offsets := [fixed] }
        calls := by
  have hvalue : ofLeBytes (leBytes 4 fixed) = fixed := by
    apply ofLeBytes_leBytes
    omega
  have hfull : readFull 4 d.input = some (leBytes 4 fixed, rest) := by
    rw [hinput]
    exact readFull_append (length_leBytes 4 fixed) rest
  have hstep : decodeCall fixed length d (.offset f) =
      some { d with input := rest, read := d.read + 4, offsets := [fixed] } := by
    simp [decodeCall, hfull, hvalue, hle, Decoder.inOrder, hoffsets]
  simp only [decodeCalls, hstep, Option.bind_some]

/-- The content is read back. -/
theorem decodeCalls_content (hfits : f.Fits x) {d : Decoder τ} (hoffsets : d.offsets = [fixed])
    (hsizes : d.sizes = []) (hlength : fixed + (f.bytes x).length = length) (rest : List UInt8)
    (calls : List (Call τ)) (hinput : d.input = f.bytes x ++ rest) :
    decodeCalls fixed length d (.content f :: calls) =
      decodeCalls fixed length
        ⟨f.ref.set (f.ref.get x) d.obj, rest, d.read + (f.bytes x).length, [], []⟩ calls := by
  have hsize : d.retrieveSize length = some ((f.bytes x).length, { d with offsets := [] }) := by
    have hdiff : length - fixed = (f.bytes x).length := by omega
    simp [Decoder.retrieveSize, hsizes, hoffsets, sizesOf, hdiff]
  have hdecode : f.codec.decode (f.bytes x) = some (f.ref.get x) := f.codec.decode_encode _ hfits
  have hfull : readFull (f.bytes x).length d.input = some (f.bytes x, rest) := by
    rw [hinput]
    exact readFull_append rfl rest
  have hstep : decodeCall fixed length d (.content f) =
      some ⟨f.ref.set (f.ref.get x) d.obj, rest, d.read + (f.bytes x).length, [], []⟩ := by
    simp [decodeCall, hsize, hfull, hdecode, hsizes]
  simp only [decodeCalls, hstep, Option.bind_some]

/-- An object of fixed fields. -/
theorem encodeToStream_static (fs : List (FixedField τ)) :
    encodeToStream fixed (fs.map .static) x = fixedBytes fs x := by
  have hencode := encodeCalls_static (x := x) fixed fs []
  rwa [List.append_nil, encodeCalls, List.append_nil] at hencode

/-- An object whose fields are all of fixed size is read back. -/
theorem decodeFromStream_static (hfits : ∀ f ∈ fs, f.Fits x) (hlength : length = fixedSize fs)
    (initial : τ) (rest : List UInt8) :
    decodeFromStream fixed length (fs.map .static) initial
        (encodeToStream fixed (fs.map .static) x ++ rest) =
      some (assignFixed x fs initial, rest) := by
  have hdecode : decodeCalls fixed length ⟨initial, fixedBytes fs x ++ rest, 0, [], []⟩
      (fs.map .static ++ []) = _ :=
    decodeCalls_static hfits _ rest [] rfl
  rw [List.append_nil] at hdecode
  subst hlength
  rw [encodeToStream_static, decodeFromStream, hdecode]
  simp [decodeCalls]

/-- The calls of an object with one dynamic field, whose content follows its offset. -/
def oneDynamic (before : List (FixedField τ)) (f : DynamicField τ) (after : List (FixedField τ)) :
    List (Call τ) :=
  before.map .static ++ .offset f :: .content f :: (after.map .static ++ [])

variable {before after : List (FixedField τ)} {f : DynamicField τ}

/-- An object with one dynamic field. -/
theorem encodeToStream_oneDynamic :
    encodeToStream fixed (oneDynamic before f after) x =
      fixedBytes before x ++ (leBytes 4 fixed ++ (f.bytes x ++ fixedBytes after x)) := by
  rw [encodeToStream, oneDynamic, encodeCalls_static, encodeCalls, encodeCalls,
    encodeCalls_static, encodeCalls, List.append_nil]

/-- The size of an object with one dynamic field. -/
theorem length_encodeToStream_oneDynamic :
    (encodeToStream fixed (oneDynamic before f after) x).length =
      fixedSize before + 4 + fixedSize after + (f.bytes x).length := by
  rw [encodeToStream_oneDynamic]
  simp only [List.length_append, length_fixedBytes, length_leBytes]
  omega

/-- Fixed fields have no offset and no content. -/
theorem filterMap_writes_static (next start : ℕ) (fs : List (FixedField τ))
    (calls : List (Call τ)) {read : Write → Option ℕ}
    (hread : ∀ start bytes, read ⟨.fixed, start, bytes⟩ = none) :
    (writes x next start (fs.map .static ++ calls)).filterMap read =
      (writes x next (start + fixedSize fs) calls).filterMap read := by
  induction fs generalizing start with
  | nil => rfl
  | cons f fs ih =>
    have hf : (f.bytes x).length = f.codec.size := f.codec.length_encode (f.ref.get x)
    simp only [List.map_cons, List.cons_append, writes, List.filterMap_cons, hread, ih, hf,
      fixedSize, List.sum_cons, Nat.add_assoc]

/-- The offset that is written is the fixed size that the object declares. -/
theorem offsets_oneDynamic (hfixed : fixed < 2 ^ 32) :
    (writes x fixed 0 (oneDynamic before f after)).filterMap Write.offset? = [fixed] := by
  have hread (start : ℕ) (bytes : List UInt8) : Write.offset? ⟨.fixed, start, bytes⟩ = none := rfl
  have hvalue : ofLeBytes (leBytes 4 fixed) = fixed := by
    apply ofLeBytes_leBytes
    omega
  have hoffset (start : ℕ) : Write.offset? ⟨.offset, start, leBytes 4 fixed⟩ = some fixed :=
    congrArg some hvalue
  have hcontent (start : ℕ) (bytes : List UInt8) :
      Write.offset? ⟨.content, start, bytes⟩ = none := rfl
  rw [oneDynamic, filterMap_writes_static _ _ _ _ hread, writes, writes]
  simp only [List.filterMap_cons, hoffset, hcontent, filterMap_writes_static _ _ _ _ hread,
    writes, List.filterMap_nil]

/-- The content starts after the fields before it and the offset. -/
theorem contents_oneDynamic :
    (writes x fixed 0 (oneDynamic before f after)).filterMap Write.content? =
      [fixedSize before + 4] := by
  have hread (start : ℕ) (bytes : List UInt8) : Write.content? ⟨.fixed, start, bytes⟩ = none := rfl
  have hoffset (start : ℕ) (bytes : List UInt8) :
      Write.content? ⟨.offset, start, bytes⟩ = none := rfl
  have hcontent (start : ℕ) (bytes : List UInt8) :
      Write.content? ⟨.content, start, bytes⟩ = some start := rfl
  rw [oneDynamic, filterMap_writes_static _ _ _ _ hread, writes, writes]
  simp only [List.filterMap_cons, hoffset, hcontent, filterMap_writes_static _ _ _ _ hread,
    writes, List.filterMap_nil, Nat.zero_add]

/-- An object with one dynamic field is read back if the fixed size that it declares
is that of its fields of fixed size and the offset. -/
theorem decodeFromStream_oneDynamic (hbefore : ∀ g ∈ before, g.Fits x)
    (hafter : ∀ g ∈ after, g.Fits x) (hf : f.Fits x)
    (hfixed : fixed = fixedSize before + 4 + fixedSize after)
    (hlength : length = (encodeToStream fixed (oneDynamic before f after) x).length)
    (hword : length < 2 ^ 32) (initial : τ) (rest : List UInt8) :
    decodeFromStream fixed length (oneDynamic before f after) initial
        (encodeToStream fixed (oneDynamic before f after) x ++ rest) =
      some (assignFixed x after (f.ref.set (f.ref.get x) (assignFixed x before initial)), rest) := by
  rw [length_encodeToStream_oneDynamic, ← hfixed] at hlength
  have hdecode : decodeCalls fixed length
      ⟨initial, encodeToStream fixed (oneDynamic before f after) x ++ rest, 0, [], []⟩
      (oneDynamic before f after) =
      some ⟨assignFixed x after (f.ref.set (f.ref.get x) (assignFixed x before initial)), rest,
        length, [], []⟩ := by
    rw [encodeToStream_oneDynamic, oneDynamic]
    simp only [List.append_assoc]
    rw [decodeCalls_static hbefore _ _ _ rfl,
      decodeCalls_offset rfl (by omega) (by omega) _ _ rfl,
      decodeCalls_content hf rfl rfl hlength.symm _ _ rfl,
      decodeCalls_static hafter _ _ _ rfl, decodeCalls]
    simp only [Option.some.injEq, Decoder.mk.injEq, true_and, and_true]
    omega
  simp [decodeFromStream, hdecode]

end

variable {input rest : List UInt8}

/-! ## What is read is what would be written -/

section

/-- Reading the field of a call leaves something of the object as it is. -/
def Call.Keeps {α : Type} (get : τ → α) : Call τ → Prop
  | static f => ∀ a t, get (f.ref.set a t) = get t
  | offset _ => True
  | content f => ∀ a t, get (f.ref.set a t) = get t

/-- The later call does not write to the field of the earlier one. -/
def Call.Apart : Call τ → Call τ → Prop
  | static f, call => call.Keeps f.ref.get
  | offset _, _ => True
  | content f, call => call.Keeps f.ref.get

variable {fixed length : ℕ} {d d' : Decoder τ} {calls : List (Call τ)}

/-- What is read as a fixed field. -/
theorem of_decodeCall_static {f : FixedField τ}
    (h : decodeCall fixed length d (.static f) = some d') :
    ∃ a rest, d.input = f.codec.encode a ++ rest ∧
      d' = { d with obj := f.ref.set a d.obj, input := rest, read := d.read + f.codec.size } := by
  obtain ⟨⟨bytes, rest⟩, hfull, hbody⟩ := Option.bind_eq_some_iff.mp h
  obtain ⟨a, hdecode, hresult⟩ := Option.bind_eq_some_iff.mp hbody
  obtain ⟨-, hinput⟩ := readFull_eq_some.mp hfull
  refine ⟨a, rest, ?_, (Option.some.inj hresult).symm⟩
  rw [f.codec.encode_of_decode bytes a hdecode, hinput]

/-- What is read as an offset. -/
theorem of_decodeCall_offset (h : decodeCall fixed length d (.offset f) = some d') :
    ∃ offset rest, d.input = leBytes 4 offset ++ rest ∧ d.inOrder fixed offset ∧
      d' = { d with input := rest, read := d.read + 4, offsets := d.offsets ++ [offset] } := by
  obtain ⟨⟨bytes, rest⟩, hfull, hbody⟩ := Option.bind_eq_some_iff.mp h
  obtain ⟨hlength, hinput⟩ := readFull_eq_some.mp hfull
  dsimp only at hbody
  split at hbody
  · rename_i hoffset
    have hbytes : bytes = leBytes 4 (ofLeBytes bytes) := eq_leBytes_of_ofLeBytes hlength rfl
    refine ⟨ofLeBytes bytes, rest, ?_, hoffset.2, (Option.some.inj hbody).symm⟩
    rw [← hbytes, hinput]
  · cases hbody

/-- What is read as content. -/
theorem of_decodeCall_content (h : decodeCall fixed length d (.content f) = some d') :
    ∃ size d₁ a rest, d.retrieveSize length = some (size, d₁) ∧
      d₁.input = f.codec.encode a ++ rest ∧ (f.codec.encode a).length = size ∧
      d' = { d₁ with obj := f.ref.set a d₁.obj, input := rest, read := d₁.read + size } := by
  obtain ⟨⟨size, d₁⟩, hsize, hbody⟩ := Option.bind_eq_some_iff.mp h
  obtain ⟨⟨bytes, rest⟩, hfull, hbody⟩ := Option.bind_eq_some_iff.mp hbody
  obtain ⟨a, hdecode, hresult⟩ := Option.bind_eq_some_iff.mp hbody
  obtain ⟨hlength, hinput⟩ := readFull_eq_some.mp hfull
  have hbytes := f.codec.encode_of_decode bytes a hdecode
  refine ⟨size, d₁, a, rest, hsize, ?_, ?_, (Option.some.inj hresult).symm⟩
  · rw [hbytes, hinput]
  · rw [hbytes, hlength]

/-- Taking a size leaves the object. -/
theorem obj_of_retrieveSize {size : ℕ} (h : d.retrieveSize length = some (size, d')) :
    d'.obj = d.obj := by
  unfold Decoder.retrieveSize at h
  split at h
  · cases h
  · obtain ⟨-, rfl⟩ := Prod.mk.inj (Option.some.inj h)
    rfl

/-- A call leaves what it keeps. -/
theorem get_of_decodeCall {α : Type} {get : τ → α} {call : Call τ} (hkeeps : call.Keeps get)
    (h : decodeCall fixed length d call = some d') : get d'.obj = get d.obj := by
  cases call with
  | static =>
    obtain ⟨a, rest, -, rfl⟩ := of_decodeCall_static h
    exact hkeeps a d.obj
  | offset =>
    obtain ⟨offset, rest, -, -, rfl⟩ := of_decodeCall_offset h
    rfl
  | content =>
    obtain ⟨size, d₁, a, rest, hsize, -, -, rfl⟩ := of_decodeCall_content h
    rw [← obj_of_retrieveSize hsize]
    exact hkeeps a d₁.obj

/-- Calls leave what they all keep. -/
theorem get_of_decodeCalls {α : Type} (get : τ → α) (hkeeps : ∀ call ∈ calls, call.Keeps get)
    (h : decodeCalls fixed length d calls = some d') : get d'.obj = get d.obj := by
  induction calls generalizing d with
  | nil =>
    obtain rfl := Option.some.inj h
    rfl
  | cons call calls ih =>
    obtain ⟨d₁, hstep, hrest⟩ := Option.bind_eq_some_iff.mp h
    rw [ih (fun c hc => hkeeps c (List.mem_cons_of_mem call hc)) hrest]
    exact get_of_decodeCall (hkeeps call List.mem_cons_self) hstep

/-- What is read as fixed fields. -/
theorem of_decodeCalls_static (hapart : (fs.map Call.static ++ calls).Pairwise Call.Apart)
    (h : decodeCalls fixed length d (fs.map .static ++ calls) = some d') :
    ∃ t rest, d.input = fixedBytes fs d'.obj ++ rest ∧
      decodeCalls fixed length
        { d with obj := t, input := rest, read := d.read + fixedSize fs } calls = some d' := by
  induction fs generalizing d with
  | nil => exact ⟨d.obj, d.input, rfl, h⟩
  | cons f fs ih =>
    obtain ⟨hfirst, hapart⟩ := List.pairwise_cons.mp hapart
    obtain ⟨d₁, hstep, hrest⟩ := Option.bind_eq_some_iff.mp h
    obtain ⟨a, rest₁, hinput, rfl⟩ := of_decodeCall_static hstep
    obtain ⟨t, rest, hfixed, hcalls⟩ := ih hapart hrest
    -- no later call writes to the first field
    have ha : f.ref.get d'.obj = a := by
      rw [get_of_decodeCalls f.ref.get hfirst hrest]
      exact f.ref.get_set a d.obj
    refine ⟨t, rest, ?_, ?_⟩
    · rw [hinput, fixedBytes, List.flatMap_cons, FixedField.bytes, ha, List.append_assoc]
      exact congrArg (f.codec.encode a ++ ·) hfixed
    · simpa only [fixedSize, List.map_cons, List.sum_cons, Nat.add_assoc] using hcalls

/-- The first offset is the fixed size. -/
theorem of_decodeCalls_offset (hoffsets : d.offsets = [])
    (h : decodeCalls fixed length d (.offset f :: calls) = some d') :
    ∃ rest, d.input = leBytes 4 fixed ++ rest ∧
      decodeCalls fixed length { d with input := rest, read := d.read + 4, offsets := [fixed] }
        calls = some d' := by
  obtain ⟨d₁, hstep, hrest⟩ := Option.bind_eq_some_iff.mp h
  obtain ⟨offset, rest, hinput, horder, rfl⟩ := of_decodeCall_offset hstep
  obtain rfl : offset = fixed := by simpa [Decoder.inOrder, hoffsets] using horder
  rw [hoffsets, List.nil_append] at hrest
  exact ⟨rest, hinput, hrest⟩

/-- The content takes up the rest. -/
theorem of_decodeCalls_content (hoffsets : d.offsets = [fixed]) (hsizes : d.sizes = [])
    (hapart : (.content f :: calls).Pairwise Call.Apart)
    (h : decodeCalls fixed length d (.content f :: calls) = some d') :
    ∃ t rest, d.input = f.bytes d'.obj ++ rest ∧
      decodeCalls fixed length ⟨t, rest, d.read + (f.bytes d'.obj).length, [], []⟩ calls =
        some d' := by
  obtain ⟨hfirst, -⟩ := List.pairwise_cons.mp hapart
  obtain ⟨d₁, hstep, hrest⟩ := Option.bind_eq_some_iff.mp h
  obtain ⟨size, d₂, a, rest, hsize, hinput, hlength, rfl⟩ := of_decodeCall_content hstep
  have ha : f.ref.get d'.obj = a := by
    rw [get_of_decodeCalls f.ref.get hfirst hrest]
    exact f.ref.get_set a d₂.obj
  simp only [Decoder.retrieveSize, hsizes, hoffsets, sizesOf, if_true, Option.some.injEq,
    Prod.mk.injEq] at hsize
  obtain ⟨-, rfl⟩ := hsize
  rw [← hlength] at hrest
  rw [DynamicField.bytes, ha]
  exact ⟨_, rest, hinput, hrest⟩

/-- Only what would be written is read as an object with fields of fixed size. -/
theorem encode_of_decodeFromStream_static {initial x : τ}
    (hapart : (fs.map Call.static).Pairwise Call.Apart)
    (h : decodeFromStream fixed length (fs.map .static) initial input = some (x, rest)) :
    input = encodeToStream fixed (fs.map .static) x ++ rest ∧
      (encodeToStream fixed (fs.map .static) x).length = length := by
  obtain ⟨d, hcalls, hend⟩ := Option.bind_eq_some_iff.mp h
  split at hend
  · rename_i hread
    obtain ⟨rfl, rfl⟩ := Prod.mk.inj (Option.some.inj hend)
    rw [← List.append_nil (fs.map Call.static)] at hcalls hapart
    obtain ⟨t, rest, hinput, hnil⟩ := of_decodeCalls_static hapart hcalls
    obtain rfl := Option.some.inj hnil
    rw [encodeToStream_static]
    refine ⟨hinput, ?_⟩
    rw [length_fixedBytes, ← hread]
    exact (Nat.zero_add _).symm
  · cases hend

/-- Only what would be written is read as an object with one dynamic field. -/
theorem encode_of_decodeFromStream_oneDynamic {before after : List (FixedField τ)} {initial x : τ}
    (hapart : (oneDynamic before f after).Pairwise Call.Apart)
    (h : decodeFromStream fixed length (oneDynamic before f after) initial input =
      some (x, rest)) :
    input = encodeToStream fixed (oneDynamic before f after) x ++ rest ∧
      (encodeToStream fixed (oneDynamic before f after) x).length = length := by
  obtain ⟨d, hcalls, hend⟩ := Option.bind_eq_some_iff.mp h
  split at hend
  · rename_i hread
    obtain ⟨rfl, rfl⟩ := Prod.mk.inj (Option.some.inj hend)
    obtain ⟨-, htail, -⟩ := List.pairwise_append.mp hapart
    obtain ⟨-, hcontent⟩ := List.pairwise_cons.mp htail
    obtain ⟨-, hafter⟩ := List.pairwise_cons.mp hcontent
    obtain ⟨t₁, rest₁, hbefore, hcalls⟩ := of_decodeCalls_static hapart hcalls
    obtain ⟨rest₂, hoffset, hcalls⟩ := of_decodeCalls_offset rfl hcalls
    obtain ⟨t₃, rest₃, hbytes, hcalls⟩ := of_decodeCalls_content rfl rfl hcontent hcalls
    obtain ⟨t₄, rest₄, hfixed, hcalls⟩ := of_decodeCalls_static hafter hcalls
    have hinput : rest₄ = d.input := congrArg Decoder.input (Option.some.inj hcalls)
    have hcount := congrArg Decoder.read (Option.some.inj hcalls)
    dsimp only at hbefore hoffset hbytes hfixed hcount
    refine ⟨?_, ?_⟩
    · rw [hbefore, hoffset, hbytes, hfixed, hinput, encodeToStream_oneDynamic]
      simp only [List.append_assoc]
    · rw [length_encodeToStream_oneDynamic, ← hread]
      omega
  · cases hend

end

end BasedOp.Computation.Ssz
