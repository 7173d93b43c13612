import BasedOp.Model.MessageCodec

/-!
# The wire format of the messages

What op-node writes for a signed message it reads back, and what it reads is what it would
write. The latter makes the message and the signature determine the payload; the validators
take more than one signature for a message, so the message alone does not.
-/

set_option autoImplicit false

namespace BasedOp.Analysis.WireFormat

open BasedOp.Computation BasedOp.Computation.Ssz Model Model.OpNode

/-! ## The fields in their order -/

def sealFields : List (FixedField Seal) :=
  [Seal.totalFragsField, Seal.blockNumberField, Seal.gasUsedField, Seal.gasLimitField,
    Seal.parentHashField, Seal.transactionsRootField, Seal.receiptsRootField, Seal.stateRootField,
    Seal.blockHashField]

def newFragFields : List (FixedField NewFrag) :=
  [NewFrag.blockNumberField, NewFrag.seqField, NewFrag.isLastField]

def envFields : List (FixedField Env) :=
  [Env.numberField, Env.parentHashField, Env.beneficiaryField, Env.timestampField,
    Env.gasLimitField, Env.basefeeField, Env.difficultyField, Env.prevrandaoField]

/-- The fields of a seal. -/
theorem defineSSZ_seal : Seal.defineSSZ = sealFields.map Call.static := rfl

/-- The fields of a frag. -/
theorem defineSSZ_newFrag :
    NewFrag.defineSSZ = oneDynamic newFragFields NewFrag.txsField [] := rfl

/-- The fields of an env. -/
theorem defineSSZ_env :
    Env.defineSSZ = oneDynamic envFields Env.extraDataField [Env.parentBeaconBlockRootField] := rfl

/-- The limits of the fields: the number of transactions and the size of each. -/
def NewFrag.WithinLimits (f : NewFrag) : Prop :=
  f.txs.length ≤ maxTxAmount ∧ ∀ tx ∈ f.txs, tx.length ≤ maxTxsSize

/-- The limits of the fields; the difficulty is not the nil pointer. -/
def Env.WithinLimits (e : Env) : Prop :=
  e.extraData.length ≤ maxExtraDataSize ∧ e.difficulty.isSome

/-! ## What is written is read back -/

/-- The object is made of its fields. -/
theorem assignFixed_seal (s t : Seal) : assignFixed s sealFields t = s := by
  cases s
  cases t
  rfl

/-- They are all of a frag. -/
theorem assignFixed_newFrag (f t : NewFrag) :
    NewFrag.txsField.ref.set (NewFrag.txsField.ref.get f) (assignFixed f newFragFields t) = f := by
  cases f
  cases t
  rfl

/-- And all of an env. -/
theorem assignFixed_env (e t : Env) :
    assignFixed e [Env.parentBeaconBlockRootField]
      (Env.extraDataField.ref.set (Env.extraDataField.ref.get e) (assignFixed e envFields t)) =
      e := by
  cases e
  cases t
  rfl

/-- The size of a seal. -/
theorem fixedSize_sealFields : fixedSize sealFields = 192 := rfl

/-- The fixed size that a frag declares is that of its fields and the offset. -/
theorem sizeSSZ_newFrag (f : NewFrag) :
    (f.sizeSSZ true).toNat =
      fixedSize newFragFields + 4 + fixedSize ([] : List (FixedField NewFrag)) := rfl

/-- The fixed part of an env. -/
theorem sizeSSZ_env (e : Env) :
    (e.sizeSSZ true).toNat =
      fixedSize envFields + 4 + fixedSize [Env.parentBeaconBlockRootField] := rfl

/-- The bytes of a seal. -/
theorem length_marshalSSZ_seal [Library] (s : Seal) : s.marshalSSZ.length = 192 := by
  have hencode := encodeCalls_static (x := s) 0 sealFields []
  rw [List.append_nil, encodeCalls, List.append_nil] at hencode
  rw [Seal.marshalSSZ, Library.encode_eq, encodeToStream, defineSSZ_seal, hencode,
    length_fixedBytes,
    fixedSize_sealFields]

/-- The bytes of a frag. -/
theorem length_marshalSSZ_newFrag [Library] (f : NewFrag) :
    f.marshalSSZ.length = 21 + (encodeSlices f.txs).length := by
  rw [NewFrag.marshalSSZ, Library.encode_eq, defineSSZ_newFrag, length_encodeToStream_oneDynamic]
  rfl

/-- The bytes of an env. -/
theorem length_marshalSSZ_env [Library] (e : Env) :
    e.marshalSSZ.length = 184 + e.extraData.length := by
  rw [Env.marshalSSZ, Library.encode_eq, defineSSZ_env, length_encodeToStream_oneDynamic]
  rfl

variable {scope : UInt32} {f : NewFrag} {signature : Bytes65}

/-- A seal is read back. -/
theorem unmarshalSSZ_seal [Library] {s : Seal} (hscope : scope.toNat = s.marshalSSZ.length)
    (rest : Bytes) : Seal.unmarshalSSZ scope (s.marshalSSZ ++ rest) = some (s, rest) := by
  have hfits : ∀ f ∈ sealFields, f.Fits s := by
    simp [sealFields, Seal.totalFragsField, Seal.blockNumberField, Seal.gasUsedField,
      Seal.gasLimitField, Seal.parentHashField, Seal.transactionsRootField,
      Seal.receiptsRootField, Seal.stateRootField, Seal.blockHashField]
  have hlength : scope.toNat = fixedSize sealFields := by
    rw [hscope, length_marshalSSZ_seal, fixedSize_sealFields]
  rw [Seal.unmarshalSSZ, Seal.marshalSSZ, Library.encode_eq, Library.decode_eq, defineSSZ_seal,
    decodeFromStream_static hfits hlength, assignFixed_seal]

/-- A frag is, within its limits. -/
theorem unmarshalSSZ_newFrag [Library] (hlimits : NewFrag.WithinLimits f)
    (hscope : scope.toNat = f.marshalSSZ.length) (rest : Bytes) :
    NewFrag.unmarshalSSZ scope (f.marshalSSZ ++ rest) = some (f, rest) := by
  have hword : scope.toNat < 2 ^ 32 := scope.toNat_lt
  have hlength := length_marshalSSZ_newFrag f
  have hfits : ∀ g ∈ newFragFields, g.Fits f := by
    simp [newFragFields, NewFrag.blockNumberField, NewFrag.seqField, NewFrag.isLastField]
  have htxs : NewFrag.txsField.Fits f := by
    have htotal : (encodeSlices f.txs).length < 2 ^ 32 := by omega
    exact ⟨hlimits.1, hlimits.2, htotal⟩
  rw [NewFrag.marshalSSZ, Library.encode_eq, sizeSSZ_newFrag, defineSSZ_newFrag] at hscope ⊢
  rw [NewFrag.unmarshalSSZ, Library.decode_eq, sizeSSZ_newFrag, defineSSZ_newFrag,
    decodeFromStream_oneDynamic hfits (by simp) htxs rfl hscope hword]
  exact congrArg (fun f => some (f, rest)) (assignFixed_newFrag f NewFrag.zero)

/-- An env is read back, within its limits. -/
theorem unmarshalSSZ_env [Library] {e : Env} (hlimits : Env.WithinLimits e)
    (hscope : scope.toNat = e.marshalSSZ.length) (rest : Bytes) :
    Env.unmarshalSSZ scope (e.marshalSSZ ++ rest) = some (e, rest) := by
  have hword : scope.toNat < 2 ^ 32 := scope.toNat_lt
  have hfits : ∀ g ∈ envFields, g.Fits e := by
    simpa [envFields, Env.numberField, Env.parentHashField, Env.beneficiaryField,
      Env.timestampField, Env.gasLimitField, Env.basefeeField, Env.difficultyField,
      Env.prevrandaoField] using hlimits.2
  have hroot : ∀ g ∈ [Env.parentBeaconBlockRootField], g.Fits e := by
    simp [Env.parentBeaconBlockRootField]
  have hextra : Env.extraDataField.Fits e := hlimits.1
  rw [Env.marshalSSZ, Library.encode_eq, sizeSSZ_env, defineSSZ_env] at hscope ⊢
  rw [Env.unmarshalSSZ, Library.decode_eq, sizeSSZ_env, defineSSZ_env,
    decodeFromStream_oneDynamic hfits hroot hextra rfl hscope hword, assignFixed_env]

/-! ## Signed messages -/

section

variable {α : Type} {unmarshal : UInt32 → Bytes → Option (α × Bytes)}

omit unmarshal in
/-- A signature is put in front. -/
theorem length_marshalSigned (signature : Bytes65) (message : Bytes) :
    (marshalSigned signature message).length = 65 + message.length := by
  rw [marshalSigned, List.length_append, signatureCodec.length_encode]
  rfl

/-- It is read back with the message. -/
theorem unmarshalSigned_marshalSigned {message : α} {bytes : Bytes}
    (hscope : scope.toNat = (marshalSigned signature bytes).length)
    (hmessage : ∀ scope : UInt32, scope.toNat = bytes.length →
      unmarshal scope bytes = some (message, [])) :
    unmarshalSigned unmarshal scope (marshalSigned signature bytes) =
      some ((signature, message), []) := by
  have hsize : (signatureCodec.encode signature).length = signatureSize.toNat :=
    signatureCodec.length_encode signature
  have hlength : scope.toNat = signatureSize.toNat + bytes.length := by
    rw [hscope, marshalSigned, List.length_append, hsize]
  have hle : signatureSize ≤ scope := by
    rw [UInt32.le_iff_toNat_le, hlength]
    exact Nat.le_add_right _ _
  have hrest : (scope - signatureSize).toNat = bytes.length := by
    rw [UInt32.toNat_sub_of_le scope signatureSize hle, hlength, Nat.add_sub_cancel_left]
  simp only [unmarshalSigned, marshalSigned, readFull_append hsize, Option.bind_eq_bind,
    Option.bind_some, signatureCodec.decode_encode signature trivial, hmessage _ hrest]

/-- What is read is signed. -/
theorem of_unmarshalSigned {message : α} {r rest : Bytes}
    (h : unmarshalSigned unmarshal scope r = some ((signature, message), rest)) :
    ∃ bytes, r = marshalSigned signature bytes ∧
      unmarshal (scope - signatureSize) bytes = some (message, rest) := by
  obtain ⟨⟨front, bytes⟩, hfull, hbody⟩ := Option.bind_eq_some_iff.mp h
  obtain ⟨signature₁, hsignature, hbody⟩ := Option.bind_eq_some_iff.mp hbody
  obtain ⟨⟨message₁, rest₁⟩, hmessage, hresult⟩ := Option.bind_eq_some_iff.mp hbody
  obtain ⟨hpair, rfl⟩ := Prod.mk.inj (Option.some.inj hresult)
  obtain ⟨rfl, rfl⟩ := Prod.mk.inj hpair
  obtain ⟨-, rfl⟩ := readFull_eq_some.mp hfull
  refine ⟨bytes, ?_, hmessage⟩
  rw [marshalSigned, signatureCodec.encode_of_decode front signature₁ hsignature]

end

/-- The three signed messages are read back from what is written of them, in the scope of its
length. The limits are those of the SSZ types, and a scope is a word of 32 bits.
SRCLINE: ssz.go:505-540, 624-700 -/
theorem unmarshalSSZ_of_marshalSSZ [Library] :
    (∀ (m : SignedNewFrag) (scope : UInt32), NewFrag.WithinLimits m.frag →
      scope.toNat = m.marshalSSZ.length →
      SignedNewFrag.unmarshalSSZ scope m.marshalSSZ = some (m, [])) ∧
    (∀ (m : SignedSeal) (scope : UInt32), scope.toNat = m.marshalSSZ.length →
      SignedSeal.unmarshalSSZ scope m.marshalSSZ = some (m, [])) ∧
    ∀ (m : SignedEnv) (scope : UInt32), Env.WithinLimits m.env →
      scope.toNat = m.marshalSSZ.length →
      SignedEnv.unmarshalSSZ scope m.marshalSSZ = some (m, []) := by
  refine ⟨?_, ?_, ?_⟩
  · intro m scope hlimits hscope
    have hmessage (scope : UInt32) (h : scope.toNat = m.frag.marshalSSZ.length) :
        NewFrag.unmarshalSSZ scope m.frag.marshalSSZ = some (m.frag, []) := by
      simpa using unmarshalSSZ_newFrag hlimits h []
    rw [SignedNewFrag.unmarshalSSZ, SignedNewFrag.marshalSSZ,
      unmarshalSigned_marshalSigned hscope hmessage, Option.map_some]
  · intro m scope hscope
    have hmessage (scope : UInt32) (h : scope.toNat = m.sealData.marshalSSZ.length) :
        Seal.unmarshalSSZ scope m.sealData.marshalSSZ = some (m.sealData, []) := by
      simpa using unmarshalSSZ_seal h []
    rw [SignedSeal.unmarshalSSZ, SignedSeal.marshalSSZ,
      unmarshalSigned_marshalSigned hscope hmessage, Option.map_some]
  · intro m scope hlimits hscope
    have hmessage (scope : UInt32) (h : scope.toNat = m.env.marshalSSZ.length) :
        Env.unmarshalSSZ scope m.env.marshalSSZ = some (m.env, []) := by
      simpa using unmarshalSSZ_env hlimits h []
    rw [SignedEnv.unmarshalSSZ, SignedEnv.marshalSSZ,
      unmarshalSigned_marshalSigned hscope hmessage, Option.map_some]

def plainNewFrag : NewFrag := { blockNumber := 7, seq := 1, isLast := true, txs := [[2, 3], [4]] }

def plainSeal : Seal := { Seal.zero with totalFrags := 2, blockNumber := 7 }

def plainEnv : Env := { Env.zero with number := 7, difficulty := some 0, extraData := [1, 2, 3] }

/-- One message of each kind. -/
theorem unmarshalSSZ_of_marshalSSZ_plain :
    (NewFrag.WithinLimits plainNewFrag ∧
      SignedNewFrag.unmarshalSSZ 97 (SignedNewFrag.marshalSSZ ⟨5, plainNewFrag⟩) =
        some (⟨5, plainNewFrag⟩, [])) ∧
    SignedSeal.unmarshalSSZ 257 (SignedSeal.marshalSSZ ⟨5, plainSeal⟩) =
      some (⟨5, plainSeal⟩, []) ∧
    Env.WithinLimits plainEnv ∧
      SignedEnv.unmarshalSSZ 252 (SignedEnv.marshalSSZ ⟨5, plainEnv⟩) =
        some (⟨5, plainEnv⟩, []) :=
  have hfrag : NewFrag.WithinLimits plainNewFrag := ⟨by decide, by decide⟩
  have henv : Env.WithinLimits plainEnv := ⟨by decide, by decide⟩
  ⟨⟨hfrag, unmarshalSSZ_of_marshalSSZ.1 ⟨5, plainNewFrag⟩ 97 hfrag (by decide)⟩,
    unmarshalSSZ_of_marshalSSZ.2.1 ⟨5, plainSeal⟩ 257
      (by rw [SignedSeal.marshalSSZ, length_marshalSigned, length_marshalSSZ_seal]; rfl),
    henv, unmarshalSSZ_of_marshalSSZ.2.2 ⟨5, plainEnv⟩ 252 henv
      (by rw [SignedEnv.marshalSSZ, length_marshalSigned, length_marshalSSZ_env]; rfl)⟩

/-! ## The layout -/

/-- A message without its signature. -/
inductive Body where
  | newFrag (f : NewFrag)
  | sealFrag (s : Seal)
  | env (e : Env)

namespace Body

/-- What `SizeSSZ` declares. -/
def sizeSSZ : Body → ℕ
  | newFrag f => (f.sizeSSZ false).toNat
  | sealFrag _ => Seal.sizeSSZ.toNat
  | env e => (e.sizeSSZ false).toNat

/-- What the encoder writes, call by call. -/
def writes : Body → List Write
  | newFrag f => Ssz.writes f (f.sizeSSZ true).toNat 0 NewFrag.defineSSZ
  | sealFrag s => Ssz.writes s 0 0 Seal.defineSSZ
  | env e => Ssz.writes e (e.sizeSSZ true).toNat 0 Env.defineSSZ

def marshalSSZ [Library] : Body → Bytes
  | newFrag f => f.marshalSSZ
  | sealFrag s => s.marshalSSZ
  | env e => e.marshalSSZ

/-- The writes make the bytes. -/
theorem flatMap_writes [Library] (m : Body) : m.writes.flatMap Write.bytes = m.marshalSSZ := by
  cases m <;> exact (Ssz.flatMap_writes _ _ _ _).trans (Library.encode_eq _ _ _).symm

/-- Sizes are words of 32 bits. -/
theorem sizeSSZ_lt (m : Body) : m.sizeSSZ < 2 ^ 32 := by
  cases m <;> exact UInt32.toNat_lt _

end Body

/-- The sizes of the transactions are summed up in a word of 32 bits. -/
theorem toNat_foldl_size (size : UInt32) (txs : List Bytes) :
    (txs.foldl (fun size tx => size + UInt32.ofNat (4 + tx.length)) size).toNat =
      (size.toNat + (encodeSlices txs).length) % 2 ^ 32 := by
  rw [length_encodeSlices]
  induction txs generalizing size with
  | nil => simp [Nat.mod_eq_of_lt size.toNat_lt]
  | cons tx txs ih =>
    rw [List.foldl_cons, ih, UInt32.toNat_add, UInt32.toNat_ofNat']
    simp only [List.length_cons, List.flatten_cons, List.length_append]
    omega

/-- The size that is declared. -/
theorem sizeSSZ_newFrag_false [Library] (h : f.marshalSSZ.length < 2 ^ 32) :
    (f.sizeSSZ false).toNat = f.marshalSSZ.length := by
  rw [length_marshalSSZ_newFrag] at h ⊢
  have hsum := toNat_foldl_size 0 f.txs
  have hzero : (0 : UInt32).toNat = 0 := rfl
  have hfixed : (8 * 2 + 1 + 4 : UInt32).toNat = 21 := rfl
  rw [hzero, Nat.zero_add] at hsum
  rw [NewFrag.sizeSSZ, if_neg (by decide), UInt32.toNat_add, hsum, hfixed]
  omega

/-- A frag that fits has the layout. -/
theorem followsLayout_newFrag [Library] (h : f.marshalSSZ.length < 2 ^ 32) :
    FollowsLayout (Body.newFrag f).sizeSSZ (Body.newFrag f).writes where
  size_eq := by
    rw [Body.flatMap_writes]
    exact sizeSSZ_newFrag_false h
  fixed_first := by simp [Body.writes, NewFrag.defineSSZ, Ssz.writes]
  offsets_eq := by
    rw [Body.writes, defineSSZ_newFrag, offsets_oneDynamic (by rw [sizeSSZ_newFrag]; decide),
      contents_oneDynamic]
    rfl

/-- A seal declares the size of four of its five hashes. -/
theorem not_followsLayout_seal (s : Seal) :
    ¬ FollowsLayout (Body.sealFrag s).sizeSSZ (Body.sealFrag s).writes := by
  intro h
  have hsize : 160 = s.marshalSSZ.length := by
    rw [← Body.marshalSSZ, ← Body.flatMap_writes]
    exact h.size_eq
  rw [length_marshalSSZ_seal] at hsize
  cases hsize

/-- The offset of an env. -/
theorem offsets_env (e : Env) : (Body.env e).writes.filterMap Write.offset? = [184] := by
  rw [Body.writes, defineSSZ_env, offsets_oneDynamic (by rw [sizeSSZ_env]; decide)]
  rfl

/-- The place of its extra data. -/
theorem contents_env (e : Env) : (Body.env e).writes.filterMap Write.content? = [152] := by
  rw [Body.writes, defineSSZ_env, contents_oneDynamic]
  rfl

/-- The last field of an env is counted in the offset but written after the content. -/
theorem not_followsLayout_env (e : Env) :
    ¬ FollowsLayout (Body.env e).sizeSSZ (Body.env e).writes := by
  intro h
  have hoffsets := h.offsets_eq
  rw [offsets_env, contents_env] at hoffsets
  cases hoffsets

/-- A message follows the layout of SSZ containers exactly if it is a frag of less than four
gigabytes.
SRCLINE: ssz.go:542-604 -/
theorem followsLayout_iff_newFrag [Library] {m : Body} :
    FollowsLayout m.sizeSSZ m.writes ↔
      (∃ f, m = .newFrag f) ∧ m.marshalSSZ.length < 2 ^ 32 := by
  constructor
  · intro h
    have hlength : m.marshalSSZ.length < 2 ^ 32 := by
      rw [← Body.flatMap_writes, ← h.size_eq]
      exact m.sizeSSZ_lt
    cases m with
    | newFrag f => exact ⟨⟨f, rfl⟩, hlength⟩
    | sealFrag s => exact absurd h (not_followsLayout_seal s)
    | env e => exact absurd h (not_followsLayout_env e)
  · rintro ⟨⟨f, rfl⟩, hlength⟩
    exact followsLayout_newFrag hlength

/-- A small frag. -/
theorem followsLayout_iff_newFrag_plain :
    (Body.newFrag plainNewFrag).marshalSSZ.length < 2 ^ 32 ∧
      FollowsLayout (Body.newFrag plainNewFrag).sizeSSZ (Body.newFrag plainNewFrag).writes :=
  have hlength : (Body.newFrag plainNewFrag).marshalSSZ.length < 2 ^ 32 := by decide
  ⟨hlength, followsLayout_iff_newFrag.mpr ⟨⟨plainNewFrag, rfl⟩, hlength⟩⟩

/-- The seal declares 160 bytes and takes 192; the offset of the env is 184 and its extra data
are at 152. -/
theorem not_followsLayout_plain :
    (Body.sealFrag plainSeal).sizeSSZ = 160 ∧ plainSeal.marshalSSZ.length = 192 ∧
    ¬ FollowsLayout (Body.sealFrag plainSeal).sizeSSZ (Body.sealFrag plainSeal).writes ∧
    (Body.env plainEnv).writes.filterMap Write.offset? = [184] ∧
    (Body.env plainEnv).writes.filterMap Write.content? = [152] ∧
    ¬ FollowsLayout (Body.env plainEnv).sizeSSZ (Body.env plainEnv).writes :=
  ⟨rfl, length_marshalSSZ_seal plainSeal, not_followsLayout_seal plainSeal,
    offsets_env plainEnv, contents_env plainEnv, not_followsLayout_env plainEnv⟩

/-! ## One payload for a message and its signature -/

/-- No two fields of a message share their place. -/
theorem apart_seal : Seal.defineSSZ.Pairwise Call.Apart := by
  simp [Seal.defineSSZ, Call.Apart, Call.Keeps, Seal.totalFragsField, Seal.blockNumberField,
    Seal.gasUsedField, Seal.gasLimitField, Seal.parentHashField, Seal.transactionsRootField,
    Seal.receiptsRootField, Seal.stateRootField, Seal.blockHashField, uint64Field, bytes32Field]

/-- The fields of a frag are apart. -/
theorem apart_newFrag : NewFrag.defineSSZ.Pairwise Call.Apart := by
  simp [NewFrag.defineSSZ, Call.Apart, Call.Keeps, NewFrag.blockNumberField, NewFrag.seqField,
    NewFrag.isLastField, NewFrag.txsField, uint64Field, boolField, sliceOfDynamicBytesField]

/-- So are those of an env. -/
theorem apart_env : Env.defineSSZ.Pairwise Call.Apart := by
  simp [Env.defineSSZ, Call.Apart, Call.Keeps, Env.numberField, Env.parentHashField,
    Env.beneficiaryField, Env.timestampField, Env.gasLimitField, Env.basefeeField,
    Env.difficultyField, Env.prevrandaoField, Env.extraDataField, Env.parentBeaconBlockRootField,
    uint64Field, bytes32Field, bytes20Field, uint256Field, dynamicBytesField]

/-- Whatever is read in a scope is what would be written, and as long as the scope. -/
def ReadsCanonical {α : Type} (unmarshal : UInt32 → Bytes → Option (α × Bytes))
    (marshal : α → Bytes) : Prop :=
  ∀ scope r message rest, unmarshal scope r = some (message, rest) →
    r = marshal message ++ rest ∧ (marshal message).length = scope.toNat

/-- Seals are read canonically. -/
theorem readsCanonical_seal [Library] : ReadsCanonical Seal.unmarshalSSZ Seal.marshalSSZ := by
  intro scope r s rest h
  have hapart := apart_seal
  rw [Seal.unmarshalSSZ, Library.decode_eq, defineSSZ_seal] at h
  rw [defineSSZ_seal] at hapart
  rw [Seal.marshalSSZ, Library.encode_eq, defineSSZ_seal]
  exact encode_of_decodeFromStream_static hapart h

/-- Frags are read canonically. -/
theorem readsCanonical_newFrag [Library] :
    ReadsCanonical NewFrag.unmarshalSSZ NewFrag.marshalSSZ := by
  intro scope r f rest h
  have hapart := apart_newFrag
  rw [NewFrag.unmarshalSSZ, Library.decode_eq, sizeSSZ_newFrag, defineSSZ_newFrag] at h
  rw [defineSSZ_newFrag] at hapart
  rw [NewFrag.marshalSSZ, Library.encode_eq, sizeSSZ_newFrag, defineSSZ_newFrag]
  exact encode_of_decodeFromStream_oneDynamic hapart h

/-- Envs are read canonically. -/
theorem readsCanonical_env [Library] : ReadsCanonical Env.unmarshalSSZ Env.marshalSSZ := by
  intro scope r e rest h
  have hapart := apart_env
  rw [Env.unmarshalSSZ, Library.decode_eq, sizeSSZ_env, defineSSZ_env] at h
  rw [defineSSZ_env] at hapart
  rw [Env.marshalSSZ, Library.encode_eq, sizeSSZ_env, defineSSZ_env]
  exact encode_of_decodeFromStream_oneDynamic hapart h

variable {gatewayForBlock : UInt64 → Option Address}

section

variable {α : Type} {unmarshal : UInt32 → Bytes → Option (α × Bytes)} {marshal : α → Bytes}
  {message : α}

/-- A payload that is read as a whole is written for its signature and its message. -/
theorem eq_marshalSigned {data rest : Bytes} (hread : ReadsCanonical unmarshal marshal)
    (hsize : data.length ≤ maxGossipSize)
    (h : unmarshalSigned unmarshal (UInt32.ofNat data.length) data =
      some ((signature, message), rest)) :
    data = marshalSigned signature (marshal message) := by
  obtain ⟨bytes, hdata, hmessage⟩ := of_unmarshalSigned h
  obtain ⟨hbytes, hlength⟩ := hread _ _ _ _ hmessage
  have hword : data.length < 2 ^ 32 := lt_of_le_of_lt hsize (by decide)
  have htotal : data.length = 65 + bytes.length := by rw [hdata, length_marshalSigned]
  have hscope : (UInt32.ofNat data.length - signatureSize).toNat = bytes.length := by
    have hofNat : (UInt32.ofNat data.length).toNat = data.length :=
      UInt32.toNat_ofNat_of_lt' hword
    have hle : signatureSize ≤ UInt32.ofNat data.length := by
      rw [UInt32.le_iff_toNat_le, hofNat, htotal]
      exact Nat.le_add_right 65 _
    rw [UInt32.toNat_sub_of_le _ _ hle, hofNat, htotal]
    exact Nat.add_sub_cancel_left 65 _
  -- the scope is what the reader has left, so nothing is left after the message
  have hrest : rest = [] := by
    have htail := congrArg List.length hbytes
    rw [List.length_append, hlength, hscope] at htail
    exact List.length_eq_zero_iff.mp (by omega)
  rw [hdata, hbytes, hrest, List.append_nil]

variable {crypto : GossipCrypto} {root : α → Bytes} {number : α → UInt64}

/-- What a payload that passes is. -/
theorem of_validate {data : Bytes}
    (h : validate crypto (unmarshalSigned unmarshal) root number gatewayForBlock data =
      some (signature, message)) :
    ∃ sent rest expectedSigner,
      unmarshalSigned unmarshal (UInt32.ofNat data.length) data = some ((sent, message), rest) ∧
        gatewayForBlock (number message) = some expectedSigner ∧
        verifyGatewaySignature crypto sent (root message) expectedSigner = some signature := by
  obtain ⟨⟨⟨sent, message₁⟩, rest⟩, hread, hbody⟩ := Option.bind_eq_some_iff.mp h
  obtain ⟨expectedSigner, hgateway, hbody⟩ := Option.bind_eq_some_iff.mp hbody
  obtain ⟨signature₁, hverify, hresult⟩ := Option.bind_eq_some_iff.mp hbody
  obtain ⟨rfl, rfl⟩ := Prod.mk.inj (Option.some.inj hresult)
  exact ⟨sent, rest, expectedSigner, hread, hgateway, hverify⟩

/-- Two accepted payloads of a message with the same signature bytes are equal. -/
theorem eq_of_validate (hread : ReadsCanonical unmarshal marshal)
    {gateway₁ gateway₂ : UInt64 → Option Address} {data₁ data₂ : Bytes}
    (hsize₁ : data₁.length ≤ maxGossipSize) (hsize₂ : data₂.length ≤ maxGossipSize)
    (hsignature : data₁.take 65 = data₂.take 65) {signature₁ signature₂ : Bytes65}
    (h₁ : validate crypto (unmarshalSigned unmarshal) root number gateway₁ data₁ =
      some (signature₁, message))
    (h₂ : validate crypto (unmarshalSigned unmarshal) root number gateway₂ data₂ =
      some (signature₂, message)) : data₁ = data₂ := by
  obtain ⟨sent₁, rest₁, -, hdata₁, -, -⟩ := of_validate h₁
  obtain ⟨sent₂, rest₂, -, hdata₂, -, -⟩ := of_validate h₂
  rw [eq_marshalSigned hread hsize₁ hdata₁, eq_marshalSigned hread hsize₂ hdata₂] at hsignature ⊢
  have htake (sent : Bytes65) : (marshalSigned sent (marshal message)).take 65 =
      signatureCodec.encode sent := List.take_left' (signatureCodec.length_encode sent)
  rw [htake, htake] at hsignature
  rw [marshalSigned, marshalSigned, hsignature]

/-- The old form of the recovery byte. -/
theorem recoveryByte_add (signature : Bytes65) :
    recoveryByte (signature + 27) = recoveryByte signature + 27 := by
  simp [recoveryByte, BitVec.setWidth_add]

/-- A signature with the recovery byte 0 or 1 has a second form, with 27 added to it. -/
theorem normalizeSignature_add (h : recoveryByte signature = 0 ∨ recoveryByte signature = 1) :
    normalizeSignature (signature + 27) = normalizeSignature signature := by
  have hsecond : recoveryByte (signature + 27) = 27 ∨ recoveryByte (signature + 27) = 28 := by
    rw [recoveryByte_add]
    obtain h | h := h
    · exact .inl (by rw [h]; rfl)
    · exact .inr (by rw [h]; rfl)
  have hfirst : ¬ (recoveryByte signature = 27 ∨ recoveryByte signature = 28) := by
    obtain h | h := h <;> rw [h] <;> decide
  rw [normalizeSignature, if_pos hsecond, normalizeSignature, if_neg hfirst, BitVec.add_sub_cancel]

/-- Anyone can make a second payload that is accepted of an accepted one, without the
key of the gateway. -/
theorem validate_second_form {sent : Bytes65} {bytes : Bytes} {result : Bytes65 × α}
    (hbyte : recoveryByte sent = 0 ∨ recoveryByte sent = 1)
    (h : validate crypto (unmarshalSigned unmarshal) root number gatewayForBlock
      (marshalSigned sent bytes) = some result) :
    validate crypto (unmarshalSigned unmarshal) root number gatewayForBlock
      (marshalSigned (sent + 27) bytes) = some result := by
  have hread (signature : Bytes65) (scope : UInt32) :
      unmarshalSigned unmarshal scope (marshalSigned signature bytes) =
        (unmarshal (scope - signatureSize) bytes).map fun result =>
          ((signature, result.1), result.2) := by
    have hsize : (signatureCodec.encode signature).length = signatureSize.toNat :=
      signatureCodec.length_encode signature
    simp only [unmarshalSigned, marshalSigned, readFull_append hsize, Option.bind_eq_bind,
      Option.bind_some, signatureCodec.decode_encode signature trivial, Option.map_eq_bind]
    rfl
  have hlength : (marshalSigned (sent + 27) bytes).length = (marshalSigned sent bytes).length := by
    rw [length_marshalSigned, length_marshalSigned]
  rw [validate, hread] at h ⊢
  rw [hlength]
  cases hmessage :
    unmarshal (UInt32.ofNat (marshalSigned sent bytes).length - signatureSize) bytes with
  | none =>
    rw [hmessage] at h
    simp only [Option.map_none, Option.bind_eq_bind, Option.bind_none, reduceCtorEq] at h
  | some =>
    rw [hmessage] at h
    simpa only [Option.map_some, Option.bind_eq_bind, Option.bind_some, verifyGatewaySignature,
      normalizeSignature_add hbyte] using h

end

/-- Two payloads that a validator accepts for the same message. -/
def SameMessage [Library] (crypto : GossipCrypto) (gateway₁ gateway₂ : UInt64 → Option Address)
    (data₁ data₂ : Bytes) : Prop :=
  (∃ signature₁ signature₂ frag, newFragValidator crypto gateway₁ data₁ = some (signature₁, frag) ∧
    newFragValidator crypto gateway₂ data₂ = some (signature₂, frag)) ∨
  (∃ signature₁ signature₂ sl, sealFragValidator crypto gateway₁ data₁ = some (signature₁, sl) ∧
    sealFragValidator crypto gateway₂ data₂ = some (signature₂, sl)) ∨
  ∃ signature₁ signature₂ env, envValidator crypto gateway₁ data₁ = some (signature₁, env) ∧
    envValidator crypto gateway₂ data₂ = some (signature₂, env)

/-- Two accepted payloads of one message are the same, and have the same id, exactly if the 65
bytes of their signatures are the same.
SRCLINE: gossip.go:285-364 -/
theorem payload_eq_of_signature [Library] {crypto : GossipCrypto}
    {gateway₁ gateway₂ : UInt64 → Option Address} {data₁ data₂ : Bytes}
    (hsize₁ : data₁.length ≤ maxGossipSize) (hsize₂ : data₂.length ≤ maxGossipSize)
    (hmessage : SameMessage crypto gateway₁ gateway₂ data₁ data₂) :
    data₁.take 65 = data₂.take 65 ↔
      data₁ = data₂ ∧ ∀ topic, msgId crypto topic data₁ = msgId crypto topic data₂ := by
  refine ⟨fun hsignature => ?_, fun h => congrArg (List.take 65) h.1⟩
  have heq : data₁ = data₂ := by
    obtain ⟨_, _, _, h₁, h₂⟩ | ⟨_, _, _, h₁, h₂⟩ | ⟨_, _, _, h₁, h₂⟩ := hmessage
    · exact eq_of_validate readsCanonical_newFrag hsize₁ hsize₂ hsignature h₁ h₂
    · exact eq_of_validate readsCanonical_seal hsize₁ hsize₂ hsignature h₁ h₂
    · exact eq_of_validate readsCanonical_env hsize₁ hsize₂ hsignature h₁ h₂
  exact ⟨heq, fun topic => heq ▸ rfl⟩

/-- A hash without collisions: the sum of the bytes, and the bytes, of which only one half is kept
if the two are equal. -/
def plainHash (bytes : Bytes) : Bytes :=
  let half := bytes.take (bytes.length / 2)
  bytes.sum :: if half ++ half = bytes then 1 :: half else 0 :: bytes

/-- The example hash has no collisions. -/
theorem plainHash_injective : Function.Injective plainHash := by
  intro bytes bytes' h
  replace h := (List.cons.inj h).2
  split at h <;> split at h
  · rename_i hhalf hhalf'
    rw [← hhalf, ← hhalf', (List.cons.inj h).2]
  · cases h
  · cases h
  · exact (List.cons.inj h).2

/-- A signature of recovery byte 0 to 3 belongs to the key of the one gateway. -/
def plainCrypto : GossipCrypto where
  sha256 := plainHash
  sigToPub _ signature := if recoveryByte signature ≤ 3 then some [] else none
  pubkeyToAddress _ := 9
  snappyDecodedLen _ := none
  snappyDecode _ := none

def plainGateway (_ : UInt64) : Option Address := some 9

def plainPayload (signature : Bytes65) : Bytes := marshalSigned signature plainNewFrag.marshalSSZ

/-- A payload and itself. -/
theorem payload_eq_of_signature_plain :
    SameMessage plainCrypto plainGateway plainGateway (plainPayload 0) (plainPayload 0) ∧
      plainPayload 0 = plainPayload 0 :=
  have hmessage : SameMessage plainCrypto plainGateway plainGateway (plainPayload 0)
      (plainPayload 0) :=
    .inl ⟨0, 0, plainNewFrag, by decide +kernel, by decide +kernel⟩
  ⟨hmessage, ((payload_eq_of_signature (by decide +kernel) (by decide +kernel) hmessage).mp rfl).1⟩

/-- The recovery bytes 0 and 27 are both accepted, with a hash that has no collisions. -/
theorem payload_ne_plain :
    Function.Injective plainCrypto.sha256 ∧
    SameMessage plainCrypto plainGateway plainGateway (plainPayload 0) (plainPayload 27) ∧
      plainPayload 0 ≠ plainPayload 27 ∧
      msgId plainCrypto [] (plainPayload 0) ≠ msgId plainCrypto [] (plainPayload 27) := by
  have h : newFragValidator plainCrypto plainGateway (plainPayload 0) = some (0, plainNewFrag) := by
    decide +kernel
  have hbyte : recoveryByte 0 = 0 := by decide +kernel
  have hadd : (0 : Bytes65) + 27 = 27 := by decide +kernel
  have hsecond : newFragValidator plainCrypto plainGateway (plainPayload 27) =
      some (0, plainNewFrag) := by
    rw [← hadd]
    exact validate_second_form (.inl hbyte) h
  exact ⟨plainHash_injective, .inl ⟨0, 0, plainNewFrag, h, hsecond⟩, by decide +kernel,
    by decide +kernel⟩

end BasedOp.Analysis.WireFormat
