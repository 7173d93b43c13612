import BasedOp.Model.MessageJson

/-!
# The JSON transport of the messages

What op-node writes op-geth reads, member by member. What op-geth writes itself it does not
read: a plain byte slice is written in base64 and read in hexadecimal.
-/

set_option autoImplicit false

namespace BasedOp.Analysis.JsonTransport

open BasedOp.Computation BasedOp.Computation.Json Model

/-! ## The texts are plain -/

/-- Digits need no escape. -/
theorem plain_digitChar {d : ℕ} (h : d < 16) :
    digitChar d ≠ '"' ∧ digitChar d ≠ '\\' ∧ ' ' ≤ digitChar d := by
  decide +revert

/-- Nor do base64 characters. -/
theorem plain_base64Char {v : ℕ} (h : v < 64) :
    base64Char v ≠ '"' ∧ base64Char v ≠ '\\' ∧ ' ' ≤ base64Char v := by
  decide +revert

/-- One more plain character. -/
theorem plainText_cons {c : Char} {text : List Char} (hc : c ≠ '"' ∧ c ≠ '\\' ∧ ' ' ≤ c)
    (htext : PlainText text) : PlainText (c :: text) := List.forall_mem_cons.mpr ⟨hc, htext⟩

/-- Hex texts are plain. -/
theorem plainText_hexEncode (bytes : Bytes) : PlainText (hexEncode bytes) := by
  intro c hc
  obtain ⟨b, -, hc⟩ := List.mem_flatMap.mp hc
  have hb : b.toNat < 256 := b.toNat_lt
  rcases List.mem_cons.mp hc with rfl | hc
  · exact plain_digitChar (by omega)
  · obtain rfl := List.mem_singleton.mp hc
    exact plain_digitChar (by omega)

/-- Hex bytes are plain. -/
theorem plainText_marshalBytes (b : Bytes) : PlainText (Hexutil.marshalBytes b) :=
  plainText_cons (by decide) (plainText_cons (by decide) (plainText_hexEncode b))

/-- Big numbers are plain. -/
theorem plainText_marshalU256 (v : BitVec 256) : PlainText (Hexutil.marshalU256 v) := by
  refine plainText_cons (by decide) (plainText_cons (by decide) ?_)
  intro c hc
  obtain ⟨d, hd, rfl⟩ := mem_numeral (by omega) hc
  exact plain_digitChar hd

/-- Base64 texts are plain. -/
theorem plainText_base64Encode (bytes : Bytes) : PlainText (base64Encode bytes) := by
  induction bytes using base64Encode.induct with
  | case1 => exact List.forall_mem_nil _
  | case2 a =>
    have ha : a.toNat < 256 := a.toNat_lt
    rw [base64Encode]
    exact plainText_cons (plain_base64Char (by omega)) (plainText_cons (plain_base64Char (by omega))
      (plainText_cons (by decide) (plainText_cons (by decide) (List.forall_mem_nil _))))
  | case3 a b =>
    have ha : a.toNat < 256 := a.toNat_lt
    have hb : b.toNat < 256 := b.toNat_lt
    rw [base64Encode]
    exact plainText_cons (plain_base64Char (by omega)) (plainText_cons (plain_base64Char (by omega))
      (plainText_cons (plain_base64Char (by omega)) (plainText_cons (by decide)
        (List.forall_mem_nil _))))
  | case4 a b c bytes ih =>
    have ha : a.toNat < 256 := a.toNat_lt
    have hb : b.toNat < 256 := b.toNat_lt
    have hc : c.toNat < 256 := c.toNat_lt
    rw [base64Encode]
    exact plainText_cons (plain_base64Char (by omega)) (plainText_cons (plain_base64Char (by omega))
      (plainText_cons (plain_base64Char (by omega)) (plainText_cons (plain_base64Char (by omega))
        ih)))

/-! ## The members are read back -/

/-- Numbers are read back. -/
@[simp]
theorem unmarshalUint64_json (v : UInt64) : unmarshalUint64 (jsonUint64 v) = some v := by
  simp [unmarshalUint64, jsonUint64, v.toNat_lt]

/-- The prefix of hex bytes passes. -/
theorem checkText_marshalBytes (b : Bytes) :
    Hexutil.checkText (Hexutil.marshalBytes b) = some (hexEncode b) := by
  have heven : (hexEncode b).length % 2 = 0 := by
    rw [length_hexEncode]
    omega
  simp [Hexutil.marshalBytes, Hexutil.checkText, heven]

/-- Hex bytes are read back. -/
@[simp]
theorem unmarshalHexBytes_json (b : Bytes) : unmarshalHexBytes (jsonHexBytes b) = some b := by
  simp [unmarshalHexBytes, jsonHexBytes, Hexutil.unmarshalBytes, checkText_marshalBytes,
    hexDecode_hexEncode]

/-- Bytes of a fixed length are read back. -/
theorem unmarshalFixedText_marshalBytes (b : Bytes) :
    Hexutil.unmarshalFixedText b.length (Hexutil.marshalBytes b) = some b := by
  have hlength : (hexEncode b).length / 2 = b.length := by
    rw [length_hexEncode]
    omega
  simp [Hexutil.unmarshalFixedText, checkText_marshalBytes, hlength, hexDecode_hexEncode]

/-- Hashes are read back. -/
@[simp]
theorem unmarshalHash_json (h : Hash) : unmarshalHash (jsonHash h) = some h := by
  have hfixed := unmarshalFixedText_marshalBytes (beBytes 32 h.toNat)
  rw [length_beBytes] at hfixed
  have hvalue : ofBeBytes (beBytes 32 h.toNat) = h.toNat := ofBeBytes_beBytes h.isLt
  simp [unmarshalHash, jsonHash, jsonHexBytes, hfixed, hvalue]

/-- Addresses are read back. -/
@[simp]
theorem unmarshalAddress_json (a : Address) : unmarshalAddress (jsonAddress a) = some a := by
  have hfixed := unmarshalFixedText_marshalBytes (beBytes 20 a.toNat)
  rw [length_beBytes] at hfixed
  have hvalue : ofBeBytes (beBytes 20 a.toNat) = a.toNat := ofBeBytes_beBytes a.isLt
  simp [unmarshalAddress, jsonAddress, jsonHexBytes, hfixed, hvalue]

/-- Quantities are read back. -/
theorem readQuantity_numeral (v : BitVec 256) :
    Hexutil.readQuantity (numeral 16 v.toNat) = some v := by
  have hread : readDigits 16 (numeral 16 v.toNat) = some v.toNat :=
    readDigits_numeral (by omega) le_rfl v.toNat
  have hlength : (numeral 16 v.toNat).length ≤ 64 :=
    length_numeral_le (by omega) (by omega) v.isLt
  cases hnumeral : numeral 16 v.toNat with
  | nil => exact absurd hnumeral (numeral_ne_nil 16 v.toNat)
  | cons c digits =>
    have hhead : ¬ (c = '0' ∧ digits ≠ []) := by
      rintro ⟨hzero, hdigits⟩
      exact head_numeral (by omega) le_rfl hnumeral hdigits hzero
    rw [hnumeral] at hread hlength
    simp only [Hexutil.readQuantity, if_neg hhead, if_pos hlength, hread, Option.map_some,
      BitVec.ofNat_toNat, BitVec.setWidth_eq]

/-- Big numbers are read back, and so is null. -/
@[simp]
theorem unmarshalU256_json (v : Option (BitVec 256)) : unmarshalU256 (jsonU256 v) = some v := by
  cases v with
  | none => rfl
  | some =>
    simp [unmarshalU256, jsonU256, Hexutil.marshalU256, Hexutil.unmarshalU256,
      readQuantity_numeral]

/-- Lists of bytes are read back. -/
theorem mapM_unmarshalHexBytes (txs : List Bytes) :
    (txs.map jsonHexBytes).mapM unmarshalHexBytes = some txs := by
  induction txs with
  | nil => rfl
  | cons tx txs ih => simp [List.mapM_cons, ih]

variable {members : List (String × Json)} {α : Type} {f : OpGeth.Frag}

/-- Printed members are parsed back. -/
theorem jsonMembers_print (h : PlainMembers members) :
    jsonMembers (Json.obj members).print = some members := by
  have hplain : Plain (Json.obj members) := by rwa [Plain]
  have hparse := parseJson_print hplain
  simp [jsonMembers, hparse]

variable {unmarshal : Json → Option α}

/-- A member is read by its name. -/
theorem jsonMember_of_lookup {name : String} {zero : α} {value : Json}
    (h : members.lookup name = some value) :
    jsonMember name unmarshal zero members = unmarshal value := by
  simp only [jsonMember, h]

/-- A member that can be read is handed on. -/
theorem jsonMember_bind {β : Type} {name : String} {zero a : α} {value : Json}
    (h : members.lookup name = some value) (hvalue : unmarshal value = some a) (f : α → Option β) :
    (jsonMember name unmarshal zero members >>= f) = f a := by
  rw [jsonMember_of_lookup h, hvalue]
  rfl

/-! ## Frags -/

instance (text : List Char) : Decidable (PlainText text) := List.decidableBAll _ text

def fragMembers (blockNumber seq : UInt64) (isLast : Bool) (txs : List Json) :
    List (String × Json) :=
  [("blockNumber", jsonUint64 blockNumber), ("seq", jsonUint64 seq), ("isLast", .bool isLast),
    ("txs", .arr txs)]

/-- Lists of plain values are plain. -/
theorem plainItems_map {f : α → Json} (h : ∀ a, Plain (f a)) (items : List α) :
    PlainItems (items.map f) := by
  induction items with
  | nil => simp [PlainItems]
  | cons a items ih => simp [PlainItems, h, ih]

/-- The members of a frag are plain. -/
theorem plainMembers_frag {blockNumber seq : UInt64} {isLast : Bool} {txs : List Json}
    (h : PlainItems txs) : PlainMembers (fragMembers blockNumber seq isLast txs) := by
  simp only [fragMembers, PlainMembers, Plain, jsonUint64, h, true_and, and_true]
  decide

/-- The members of a frag by name. -/
theorem lookup_frag (blockNumber seq : UInt64) (isLast : Bool) (txs : List Json) :
    (fragMembers blockNumber seq isLast txs).lookup "blockNumber" =
      some (jsonUint64 blockNumber) ∧
    (fragMembers blockNumber seq isLast txs).lookup "seq" = some (jsonUint64 seq) ∧
    (fragMembers blockNumber seq isLast txs).lookup "isLast" = some (.bool isLast) ∧
    (fragMembers blockNumber seq isLast txs).lookup "txs" = some (.arr txs) :=
  ⟨rfl, rfl, rfl, rfl⟩

/-- A frag is read member by member, whatever its transactions are. -/
theorem unmarshalJSON_frag (codec : OpGeth.TxCodec) (blockNumber seq : UInt64) (isLast : Bool)
    {txs : List Json} (h : PlainItems txs) :
    OpGeth.Frag.unmarshalJSON codec (Json.obj (fragMembers blockNumber seq isLast txs)).print =
      (txs.mapM unmarshalHexBytes).bind fun txs => (txs.mapM codec.unmarshalBinary).map fun txs =>
        { blockNumber := blockNumber, seq := seq, isLast := isLast, txs := txs } := by
  obtain ⟨hnumber, hseq, hlast, htxs⟩ := lookup_frag blockNumber seq isLast txs
  have hbool : unmarshalBool (.bool isLast) = some isLast := rfl
  unfold OpGeth.Frag.unmarshalJSON
  rw [jsonMembers_print (plainMembers_frag h), Option.bind_eq_bind, Option.bind_some,
    jsonMember_bind hnumber (unmarshalUint64_json _), jsonMember_bind hseq (unmarshalUint64_json _),
    jsonMember_bind hlast hbool, jsonMember_of_lookup htxs]
  simp only [unmarshalSlice, Option.map_eq_bind, Option.bind_eq_bind]
  rfl

/-- The bytes are the encoding of the transaction that is decoded from them. -/
def CanonicalTx (codec : OpGeth.TxCodec) (bytes : Bytes) : Prop :=
  ∃ tx, codec.unmarshalBinary bytes = some tx ∧ codec.marshalBinary tx = some bytes

/-- Canonical transactions are decoded and encoded again. -/
theorem exists_txs {codec : OpGeth.TxCodec} {txs : List Bytes}
    (h : ∀ bytes ∈ txs, CanonicalTx codec bytes) :
    ∃ decoded, txs.mapM codec.unmarshalBinary = some decoded ∧
      decoded.mapM codec.marshalBinary = some txs := by
  induction txs with
  | nil => exact ⟨[], rfl, rfl⟩
  | cons bytes txs ih =>
    obtain ⟨tx, hdecode, hencode⟩ := h bytes List.mem_cons_self
    obtain ⟨decoded, hrest, hmarshal⟩ := ih fun b hb => h b (List.mem_cons_of_mem bytes hb)
    exact ⟨tx :: decoded, by simp [List.mapM_cons, hdecode, hrest],
      by simp [List.mapM_cons, hencode, hmarshal]⟩

/-! ## Envs -/

def envMembers (e : OpGeth.Env) (extraData : Json) : List (String × Json) :=
  [("number", jsonUint64 e.number), ("beneficiary", jsonAddress e.beneficiary),
    ("timestamp", jsonUint64 e.timestamp), ("gasLimit", jsonUint64 e.gasLimit),
    ("basefee", jsonUint64 e.basefee), ("difficulty", jsonU256 e.difficulty),
    ("prevrandao", jsonHash e.prevrandao), ("parentHash", jsonHash e.parentHash),
    ("parentBeaconBlockRoot", jsonHash e.parentBeaconBlockRoot), ("extraData", extraData)]

/-- An env with the extra data that were read. -/
def withExtraData (e : OpGeth.Env) (extraData : Bytes) : OpGeth.EnvValue :=
  { e with extraData := extraData, extraDataNil := false, extraData_of_nil := by simp }

/-- Big numbers are plain. -/
theorem plain_jsonU256 (v : Option (BitVec 256)) : Plain (jsonU256 v) := by
  cases v with
  | none => simp [jsonU256, Plain]
  | some v => simpa [jsonU256, Plain] using plainText_marshalU256 v

/-- The members of an env are plain. -/
theorem plainMembers_env (e : OpGeth.Env) {extraData : Json} (h : Plain extraData) :
    PlainMembers (envMembers e extraData) := by
  simp only [envMembers, PlainMembers, Plain, jsonUint64, jsonAddress, jsonHash, jsonHexBytes, h,
    plain_jsonU256, plainText_marshalBytes, true_and, and_true]
  decide

section

variable (e : OpGeth.Env) (extraData : Json)

/-- The members of an env by name. -/
theorem lookup_env :
    (envMembers e extraData).lookup "number" = some (jsonUint64 e.number) ∧
    (envMembers e extraData).lookup "parentHash" = some (jsonHash e.parentHash) ∧
    (envMembers e extraData).lookup "beneficiary" = some (jsonAddress e.beneficiary) ∧
    (envMembers e extraData).lookup "timestamp" = some (jsonUint64 e.timestamp) ∧
    (envMembers e extraData).lookup "gasLimit" = some (jsonUint64 e.gasLimit) ∧
    (envMembers e extraData).lookup "basefee" = some (jsonUint64 e.basefee) ∧
    (envMembers e extraData).lookup "difficulty" = some (jsonU256 e.difficulty) ∧
    (envMembers e extraData).lookup "prevrandao" = some (jsonHash e.prevrandao) ∧
    (envMembers e extraData).lookup "extraData" = some extraData ∧
    (envMembers e extraData).lookup "parentBeaconBlockRoot" =
      some (jsonHash e.parentBeaconBlockRoot) :=
  ⟨rfl, rfl, rfl, rfl, rfl, rfl, rfl, rfl, rfl, rfl⟩

/-- An env is read member by member, whatever its extra data are. -/
theorem unmarshalJSON_env (h : Plain extraData) :
    OpGeth.EnvValue.unmarshalJSON (Json.obj (envMembers e extraData)).print =
      (unmarshalHexBytes extraData).map (withExtraData e) := by
  obtain ⟨hnumber, hparent, hbeneficiary, htimestamp, hgas, hfee, hdifficulty, hrandao, hextra,
    hroot⟩ := lookup_env e extraData
  unfold OpGeth.EnvValue.unmarshalJSON
  rw [jsonMembers_print (plainMembers_env e h), Option.bind_eq_bind, Option.bind_some,
    jsonMember_bind hnumber (unmarshalUint64_json _),
    jsonMember_bind hparent (unmarshalHash_json _),
    jsonMember_bind hbeneficiary (unmarshalAddress_json _),
    jsonMember_bind htimestamp (unmarshalUint64_json _),
    jsonMember_bind hgas (unmarshalUint64_json _), jsonMember_bind hfee (unmarshalUint64_json _),
    jsonMember_bind hdifficulty (unmarshalU256_json _),
    jsonMember_bind hrandao (unmarshalHash_json _), jsonMember_of_lookup hextra]
  cases unmarshalHexBytes extraData with
  | none => rfl
  | some =>
    rw [Option.map_some, Option.bind_eq_bind, Option.bind_some,
      jsonMember_bind hroot (unmarshalHash_json _)]
    rfl

end

/-- The env that op-geth has for one of op-node. -/
def toGethEnv (e : OpNode.Env) : OpGeth.Env where
  number := e.number
  parentHash := e.parentHash
  beneficiary := e.beneficiary
  timestamp := e.timestamp
  gasLimit := e.gasLimit
  basefee := e.basefee
  difficulty := e.difficulty
  prevrandao := e.prevrandao
  extraData := e.extraData
  parentBeaconBlockRoot := e.parentBeaconBlockRoot

/-- What op-node sends op-geth reads: a frag with its transactions, if they are in canonical form,
and an env with all its fields.
SRCLINE: eth/types.go:267-284, 355-379, unsealed_block.go:102-199 -/
theorem unmarshalJSON_of_marshalJSON (codec : OpGeth.TxCodec) :
    (∀ frag : OpNode.NewFrag, (∀ bytes ∈ frag.txs, CanonicalTx codec bytes) →
      ∃ f, OpGeth.Frag.unmarshalJSON codec frag.marshalJSON = some f ∧
        f.blockNumber = frag.blockNumber ∧ f.seq = frag.seq ∧ f.isLast = frag.isLast ∧
        f.txs.mapM codec.marshalBinary = some frag.txs) ∧
    ∀ env : OpNode.Env, ∃ e, OpGeth.EnvValue.unmarshalJSON env.marshalJSON = some e ∧
      e.number = env.number ∧ e.parentHash = env.parentHash ∧
      e.beneficiary = env.beneficiary ∧ e.timestamp = env.timestamp ∧
      e.gasLimit = env.gasLimit ∧ e.basefee = env.basefee ∧ e.difficulty = env.difficulty ∧
      e.prevrandao = env.prevrandao ∧ e.extraData = env.extraData ∧
      e.parentBeaconBlockRoot = env.parentBeaconBlockRoot := by
  refine ⟨?_, ?_⟩
  · intro frag hcanonical
    obtain ⟨txs, hdecode, hencode⟩ := exists_txs hcanonical
    have hplain : PlainItems (frag.txs.map jsonHexBytes) :=
      plainItems_map (fun b => by simpa [jsonHexBytes, Plain] using plainText_marshalBytes b) _
    have hread := unmarshalJSON_frag codec frag.blockNumber frag.seq frag.isLast hplain
    rw [mapM_unmarshalHexBytes, Option.bind_some, hdecode, Option.map_some] at hread
    exact ⟨_, hread, rfl, rfl, rfl, hencode⟩
  · intro env
    have hplain : Plain (jsonHexBytes env.extraData) := by
      simpa [jsonHexBytes, Plain] using plainText_marshalBytes env.extraData
    have hread := unmarshalJSON_env (toGethEnv env) _ hplain
    rw [unmarshalHexBytes_json, Option.map_some] at hread
    exact ⟨_, hread, rfl, rfl, rfl, rfl, rfl, rfl, rfl, rfl, rfl, rfl⟩

/-! ## What op-geth writes itself -/

/-- A text that passes loses its prefix. -/
theorem eq_drop_of_checkText {text raw : List Char} (hne : text ≠ [])
    (h : Hexutil.checkText text = some raw) : raw = text.drop 2 := by
  unfold Hexutil.checkText at h
  split at h
  · exact absurd rfl hne
  · exact (Option.some.inj (Option.ite_none_right_eq_some.mp h).2).symm
  · exact (Option.some.inj (Option.ite_none_right_eq_some.mp h).2).symm
  · cases h

/-- The base64 text of some bytes is not read as the same bytes. -/
theorem unmarshalHexBytes_jsonByteSlice {b : Bytes} (hne : b ≠ []) :
    unmarshalHexBytes (jsonByteSlice b) ≠ some b := by
  intro h
  obtain ⟨raw, hraw, hdecode⟩ := Option.bind_eq_some_iff.mp h
  have hnonempty : base64Encode b ≠ [] := by
    intro hnil
    have hlength := length_base64Encode b
    have hpos := List.length_pos_iff.mpr hne
    rw [hnil, List.length_nil] at hlength
    omega
  rw [eq_drop_of_checkText hnonempty hraw] at hdecode
  exact hexDecode_base64Encode hne hdecode

/-- Byte slices are plain. -/
theorem plain_jsonByteSlice (b : Bytes) : Plain (jsonByteSlice b) := by
  simpa [jsonByteSlice, Plain] using plainText_base64Encode b

/-- `MarshalJSON` followed by `UnmarshalJSON` gives the frag back. -/
def FragRoundTrips (codec : OpGeth.TxCodec) (f : OpGeth.Frag) : Prop :=
  ∃ data, f.marshalJSON codec = some data ∧ OpGeth.Frag.unmarshalJSON codec data = some f

def EnvRoundTrips (e : OpGeth.EnvValue) : Prop :=
  OpGeth.EnvValue.unmarshalJSON e.marshalJSON = some e

section

variable {codec : OpGeth.TxCodec}

/-- What a frag of op-geth is printed as. -/
theorem marshalJSON_frag {txs : List Bytes} (h : f.txs.mapM codec.marshalBinary = some txs) :
    f.marshalJSON codec =
      some (Json.obj (fragMembers f.blockNumber f.seq f.isLast (txs.map jsonByteSlice))).print := by
  rw [OpGeth.Frag.marshalJSON, h]
  rfl

/-- A frag without transactions is read back. -/
theorem fragRoundTrips_of_nil (h : f.txs = []) : FragRoundTrips codec f := by
  have hplain : PlainItems [] := by simp [PlainItems]
  have hmap : f.txs.mapM codec.marshalBinary = some [] := by
    rw [h]
    rfl
  refine ⟨_, marshalJSON_frag hmap, ?_⟩
  rw [List.map_nil, unmarshalJSON_frag codec _ _ _ hplain]
  cases f
  cases h
  rfl

/-- The first element is mapped. -/
theorem of_mapM_cons {β : Type} {f : α → Option β} {a : α} {as : List α} {bs : List β}
    (h : (a :: as).mapM f = some bs) : ∃ b rest, f a = some b ∧ bs = b :: rest := by
  rw [List.mapM_cons] at h
  obtain ⟨b, hb, h⟩ := Option.bind_eq_some_iff.mp h
  obtain ⟨rest, -, h⟩ := Option.bind_eq_some_iff.mp h
  exact ⟨b, rest, hb, (Option.some.inj h).symm⟩

/-- The first transaction of a frag would have to be read from its base64 text. -/
theorem not_fragRoundTrips (hstrict : ∀ bytes tx, codec.unmarshalBinary bytes = some tx →
      codec.marshalBinary tx = some bytes)
    (hbytes : ∀ tx bytes, codec.marshalBinary tx = some bytes → bytes ≠ [])
    {tx : OpGeth.Transaction} {txs : List OpGeth.Transaction} (hf : f.txs = tx :: txs) :
    ¬ FragRoundTrips codec f := by
  rintro ⟨data, hmarshal, hunmarshal⟩
  obtain ⟨encoded, hencoded, -⟩ := Option.bind_eq_some_iff.mp hmarshal
  rw [marshalJSON_frag hencoded] at hmarshal
  obtain rfl := Option.some.inj hmarshal
  rw [unmarshalJSON_frag codec _ _ _ (plainItems_map plain_jsonByteSlice encoded)] at hunmarshal
  obtain ⟨read, hread, htxs⟩ := Option.bind_eq_some_iff.mp hunmarshal
  obtain ⟨decoded, hdecoded, hf'⟩ := Option.map_eq_some_iff.mp htxs
  obtain rfl : decoded = tx :: txs := (congrArg OpGeth.Frag.txs hf').trans hf
  rw [hf] at hencoded
  -- the transaction was encoded as `bytes`, and is decoded from what their text is read as
  obtain ⟨bytes, rest, htx, rfl⟩ := of_mapM_cons hencoded
  obtain ⟨bytes', rest', hbytes', rfl⟩ := of_mapM_cons hread
  obtain ⟨tx', txs', htx', heq⟩ := of_mapM_cons hdecoded
  obtain ⟨rfl, rfl⟩ := List.cons.inj heq
  have hsame : some bytes = some bytes' := htx.symm.trans (hstrict bytes' tx htx')
  rw [← hsame] at hbytes'
  exact unmarshalHexBytes_jsonByteSlice (hbytes tx bytes htx) hbytes'

end

/-- Only empty extra data is read back. -/
theorem envRoundTrips_iff (e : OpGeth.EnvValue) :
    EnvRoundTrips e ↔ e.extraDataNil = false ∧ e.extraData = [] := by
  obtain ⟨env, isNil, hnil⟩ := e
  cases isNil with
  | true =>
    -- the nil slice is written as `null`
    have hread : OpGeth.EnvValue.unmarshalJSON (OpGeth.EnvValue.marshalJSON ⟨env, true, hnil⟩) =
        none := unmarshalJSON_env env .null (by simp [Plain])
    simp [EnvRoundTrips, hread]
  | false =>
    have hread : OpGeth.EnvValue.unmarshalJSON (OpGeth.EnvValue.marshalJSON ⟨env, false, hnil⟩) =
        (unmarshalHexBytes (jsonByteSlice env.extraData)).map (withExtraData env) :=
      unmarshalJSON_env env (jsonByteSlice env.extraData) (plain_jsonByteSlice _)
    simp only [EnvRoundTrips, hread, true_and]
    constructor
    · intro h
      obtain ⟨bytes, hbytes, heq⟩ := Option.map_eq_some_iff.mp h
      have hextra : bytes = env.extraData := congrArg (fun e => e.toEnv.extraData) heq
      by_contra hne
      exact unmarshalHexBytes_jsonByteSlice hne (hextra ▸ hbytes)
    · intro hempty
      rw [hempty]
      cases env
      cases hempty
      rfl

/-- What op-geth writes it reads exactly if there are no bytes to write: a frag without
transactions, or an env with extra data that are empty but not the nil slice. The binary form
of a transaction is not empty, and only that form is decoded to it.
SRCLINE: unsealed_block.go:102-225 -/
theorem roundTrips_iff (codec : OpGeth.TxCodec)
    (hstrict : ∀ bytes tx, codec.unmarshalBinary bytes = some tx →
      codec.marshalBinary tx = some bytes)
    (hbytes : ∀ tx bytes, codec.marshalBinary tx = some bytes → bytes ≠ []) :
    (∀ f : OpGeth.Frag, FragRoundTrips codec f ↔ f.txs = []) ∧
    ∀ e : OpGeth.EnvValue, EnvRoundTrips e ↔ e.extraDataNil = false ∧ e.extraData = [] := by
  refine ⟨?_, envRoundTrips_iff⟩
  intro f
  constructor
  · intro h
    cases htxs : f.txs with
    | nil => rfl
    | cons => exact absurd h (not_fragRoundTrips hstrict hbytes htxs)
  · exact fragRoundTrips_of_nil

/-- One transaction, which is one byte. -/
def plainCodec : OpGeth.TxCodec where
  marshalBinary tx := if tx = OpGeth.plainTx 0 0 then some [7] else none
  unmarshalBinary bytes := if bytes = [7] then some (OpGeth.plainTx 0 0) else none

/-- A frag of one transaction crosses. -/
theorem unmarshalJSON_of_marshalJSON_plain :
    CanonicalTx plainCodec [7] ∧
      ∃ f, OpGeth.Frag.unmarshalJSON plainCodec
          (OpNode.NewFrag.marshalJSON ⟨5, 0, false, [[7]]⟩) = some f ∧
        f.txs.mapM plainCodec.marshalBinary = some [[7]] :=
  have hcanonical : CanonicalTx plainCodec [7] := ⟨OpGeth.plainTx 0 0, rfl, rfl⟩
  have h := (unmarshalJSON_of_marshalJSON plainCodec).1 ⟨5, 0, false, [[7]]⟩
    (by simpa using hcanonical)
  ⟨hcanonical, h.imp fun _ hf => ⟨hf.1, hf.2.2.2.2⟩⟩

/-- The empty frag is read back. -/
theorem roundTrips_iff_plain :
    FragRoundTrips plainCodec ⟨5, 0, false, []⟩ :=
  ((roundTrips_iff plainCodec
    (by
      intro bytes tx h
      simp only [plainCodec] at h ⊢
      split at h
      · rename_i hbytes
        obtain rfl := Option.some.inj h
        simp [hbytes]
      · cases h)
    (by
      intro tx bytes h
      simp only [plainCodec] at h
      split at h
      · obtain rfl := Option.some.inj h
        exact List.cons_ne_nil _ _
      · cases h)).1 ⟨5, 0, false, []⟩).mpr rfl

/-- An env with one byte of extra data. -/
def plainEnv : OpGeth.EnvValue where
  number := 5
  parentHash := 0
  beneficiary := 0
  timestamp := 0
  gasLimit := 0
  basefee := 0
  difficulty := some 0
  prevrandao := 0
  extraData := [7]
  parentBeaconBlockRoot := 0
  extraDataNil := false
  extraData_of_nil := by simp

/-- The byte `7` is written as `Bw==`, which has no hexadecimal form. -/
theorem not_roundTrips_plain :
    OpGeth.Frag.marshalJSON plainCodec ⟨5, 0, false, [OpGeth.plainTx 0 0]⟩ =
      some "\x7b\"blockNumber\":5,\"seq\":0,\"isLast\":false,\"txs\":[\"Bw==\"]\x7d".toList ∧
    OpGeth.Frag.unmarshalJSON plainCodec
      "\x7b\"blockNumber\":5,\"seq\":0,\"isLast\":false,\"txs\":[\"Bw==\"]\x7d".toList = none ∧
    ¬ FragRoundTrips plainCodec ⟨5, 0, false, [OpGeth.plainTx 0 0]⟩ ∧
    OpGeth.EnvValue.unmarshalJSON plainEnv.marshalJSON = none ∧ ¬ EnvRoundTrips plainEnv := by
  have hwritten : OpGeth.Frag.marshalJSON plainCodec ⟨5, 0, false, [OpGeth.plainTx 0 0]⟩ =
      some "\x7b\"blockNumber\":5,\"seq\":0,\"isLast\":false,\"txs\":[\"Bw==\"]\x7d".toList := by
    decide +kernel
  have hread : OpGeth.Frag.unmarshalJSON plainCodec
      "\x7b\"blockNumber\":5,\"seq\":0,\"isLast\":false,\"txs\":[\"Bw==\"]\x7d".toList = none := by
    decide +kernel
  have henv : OpGeth.EnvValue.unmarshalJSON plainEnv.marshalJSON = none := by decide +kernel
  refine ⟨hwritten, hread, ?_, henv, ?_⟩
  · rintro ⟨data, hdata, h⟩
    obtain rfl := Option.some.inj (hwritten.symm.trans hdata)
    rw [hread] at h
    cases h
  · intro h
    rw [EnvRoundTrips, henv] at h
    cases h

end BasedOp.Analysis.JsonTransport
