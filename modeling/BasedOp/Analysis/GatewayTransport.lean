import BasedOp.Model.BasedNode
import BasedOp.Analysis.JsonTransport
import BasedOp.Analysis.SignedHash

/-!
# A message passes from the gateway to the subscribers unchanged

The text that the gateway posts is read as the message it was made of, in whatever order its
members are; the based API finds the signer that the registry has for the block, and what it
publishes is accepted by every node with the same entry, as the same message with the recovery
byte normalized.
-/

set_option autoImplicit false

namespace BasedOp.Analysis.GatewayTransport

open BasedOp.Computation BasedOp.Computation.Json Model Model.Gateway
open Model.OpNode Model.Registry
open JsonTransport SignedHash WireFormat

variable {members : List (String × Json)} {signature : Bytes65}

/-! ## The members of a message are read -/

/-- The order of the members does not matter if no name is there twice. -/
theorem jsonMember_perm {α : Type} {members' : List (String × Json)}
    (hperm : members.Perm members') (hnodup : (members.map Prod.fst).Nodup) (name : String)
    (unmarshal : Json → Option α) (zero : α) :
    jsonMember name unmarshal zero members = jsonMember name unmarshal zero members' := by
  rw [jsonMember, jsonMember, lookup_perm hperm hnodup]

/-- No member is written twice. -/
theorem nodup_members (message : VersionedMessage) : (message.members.map Prod.fst).Nodup := by
  cases message with
  | fragV0 => simp [VersionedMessage.members, FragV0.members]
  | sealV0 => simp [VersionedMessage.members, SealV0.members]
  | envV0 => simp [VersionedMessage.members, EnvV0.members]

section

variable {members : List (String × Json)}

/-- A frag is read in any order of members. -/
theorem unmarshalJSON_newFrag {frag : FragV0} (hperm : frag.members.Perm members) :
    NewFrag.unmarshalJSON (.obj members) = some (toNewFrag frag) := by
  have hread {α : Type} := jsonMember_perm (α := α) hperm (nodup_members (.fragV0 frag))
  simp only [NewFrag.unmarshalJSON, structMembers, Option.bind_eq_bind, Option.bind_some, ← hread]
  simp [jsonMember, FragV0.members, List.lookup_cons, unmarshalSlice, unmarshalBool,
    mapM_unmarshalHexBytes, toNewFrag, -List.mapM_map]

/-- A seal is read in any order of members. -/
theorem unmarshalJSON_seal {sl : SealV0} (hperm : sl.members.Perm members) :
    Seal.unmarshalJSON (.obj members) = some (toSeal sl) := by
  have hread {α : Type} := jsonMember_perm (α := α) hperm (nodup_members (.sealV0 sl))
  simp only [Seal.unmarshalJSON, structMembers, Option.bind_eq_bind, Option.bind_some, ← hread]
  simp [jsonMember, SealV0.members, List.lookup_cons, toSeal]

/-- An env is read in any order of members. -/
theorem unmarshalJSON_env {env : EnvV0} (hperm : env.members.Perm members) :
    Env.unmarshalJSON (.obj members) = some (toEnv env) := by
  have hread {α : Type} := jsonMember_perm (α := α) hperm (nodup_members (.envV0 env))
  simp only [Env.unmarshalJSON, structMembers, Option.bind_eq_bind, Option.bind_some, ← hread]
  simp [jsonMember, EnvV0.members, List.lookup_cons, toEnv]

end

/-! ## The request is read -/

/-- The message that op-node has for one of the gateway. -/
def signed (signature : Bytes65) : VersionedMessage → Message
  | .fragV0 frag => .newFrag ⟨signature, toNewFrag frag⟩
  | .sealV0 sl => .sealFrag ⟨signature, toSeal sl⟩
  | .envV0 env => .env ⟨signature, toEnv env⟩

/-- The root that the signature of a message is of. -/
def messageRoot [Ssz.Library] (sha256 : Bytes → Bytes) : Message → Bytes
  | .newFrag m => m.frag.root sha256
  | .sealFrag m => m.sealData.root sha256
  | .env m => m.env.root sha256

/-- The gateway signs the root that op-node checks. -/
theorem messageRoot_signed [Ssz.Library] (sha256 : Bytes → Bytes) (signature : Bytes65)
    (message : VersionedMessage) :
    messageRoot sha256 (signed signature message) = message.treeHashRoot sha256 := by
  rw [← root_toBody]
  cases message <;> rfl

/-- A signature is read back. -/
@[simp]
theorem unmarshalBytes65_json (signature : Bytes65) :
    unmarshalBytes65 (jsonSignature signature) = some signature := by
  have hfixed := unmarshalFixedText_marshalBytes (beBytes 65 signature.toNat)
  rw [length_beBytes] at hfixed
  have hlt : signature.toNat < 256 ^ 65 := by
    have hbase : (256 : ℕ) = 2 ^ 8 := rfl
    have hbits : 8 * 65 = 520 := rfl
    rw [hbase, ← Nat.pow_mul, hbits]
    exact signature.isLt
  have hvalue : ofBeBytes (beBytes 65 signature.toNat) = signature.toNat := ofBeBytes_beBytes hlt
  simp [unmarshalBytes65, jsonSignature, jsonHexBytes, hfixed, hvalue]

/-- A signed message is made of its two members. -/
theorem unmarshalSignedJSON_perm {α : Type} {unmarshal : Json → Option α} {a : α} {message : Json}
    (hperm : [("signature", jsonSignature signature), ("message", message)].Perm members)
    (hmessage : unmarshal message = some a) (zero : α) :
    unmarshalSignedJSON unmarshal zero (.obj members) = some (signature, a) := by
  have hread {α : Type} := jsonMember_perm (α := α) hperm (by simp)
  simp only [unmarshalSignedJSON, structMembers, Option.bind_eq_bind, Option.bind_some, ← hread]
  simp [jsonMember, List.lookup_cons, hmessage]

/-- The argument is read in any order. -/
theorem unmarshalArgument_perm {message : VersionedMessage} {inner : List (String × Json)}
    (hinner : message.members.Perm inner)
    (hperm : [("signature", jsonSignature signature), ("message", .obj inner)].Perm members) :
    unmarshalArgument message.method.toList (.obj members) = some (signed signature message) := by
  cases message with
  | fragV0 =>
    have hargument := unmarshalSignedJSON_perm hperm (unmarshalJSON_newFrag hinner)
    simp [unmarshalArgument, VersionedMessage.method, hargument NewFrag.zero, signed]
  | sealV0 =>
    have hargument := unmarshalSignedJSON_perm hperm (unmarshalJSON_seal hinner)
    simp [unmarshalArgument, VersionedMessage.method, hargument Seal.zero, signed]
  | envV0 =>
    have hargument := unmarshalSignedJSON_perm hperm (unmarshalJSON_env hinner)
    simp [unmarshalArgument, VersionedMessage.method, hargument Env.zero, signed]

/-- Members need no escapes. -/
theorem plainMembers_members (message : VersionedMessage) : PlainMembers message.members := by
  have htxs (txs : List Bytes) : PlainItems (txs.map jsonHexBytes) :=
    plainItems_map (fun b => by simpa [jsonHexBytes, Plain] using plainText_marshalBytes b) txs
  cases message with
  | fragV0 =>
    simp only [VersionedMessage.members, FragV0.members, PlainMembers, Plain, jsonUint64, htxs,
      true_and, and_true]
    decide
  | sealV0 =>
    simp only [VersionedMessage.members, SealV0.members, PlainMembers, Plain, jsonUint64, jsonHash,
      jsonHexBytes, plainText_marshalBytes, true_and, and_true]
    decide
  | envV0 =>
    simp only [VersionedMessage.members, EnvV0.members, PlainMembers, Plain, jsonUint64,
      jsonAddress, jsonHash, jsonHexBytes, plain_jsonU256, plainText_marshalBytes, true_and,
      and_true]
    decide

/-- Members in another order need no escapes. -/
theorem plainMembers_order (signer : JsonSigner) (h : PlainMembers members) :
    PlainMembers (signer.order members) := by
  rw [plainMembers_iff] at h ⊢
  intro member hmember
  exact h member ((signer.order_perm members).mem_iff.mp hmember)

/-- The whole message needs no escapes. -/
theorem plain_toJson [Ssz.Library] (sha256 : Bytes → Bytes) (signer : JsonSigner)
    (message : VersionedMessage) :
    Plain (message.toJson sha256 signer) := by
  have hmethod : PlainText message.method.toList := by
    cases message <;> (rw [VersionedMessage.method]; decide)
  have hparams : PlainMembers (signer.order
      [("signature", jsonSignature (signer.signHash (message.treeHashRoot sha256))),
        ("message", .obj (signer.order message.members))]) := by
    apply plainMembers_order
    have hinner := plainMembers_order signer (plainMembers_members message)
    simp only [PlainMembers, Plain, jsonSignature, jsonHexBytes, plainText_marshalBytes, hinner,
      true_and, and_true]
    decide
  rw [VersionedMessage.toJson, Plain]
  apply plainMembers_order
  simp only [PlainMembers, Plain, PlainItems, hmethod, hparams, true_and, and_true]
  decide

/-- What the gateway posts is read as its message with its signature. -/
theorem parseRequest_gossip [Ssz.Library] (sha256 : Bytes → Bytes) (signer : JsonSigner)
    (message : VersionedMessage) :
    parseRequest (message.gossip sha256 signer) =
      some (signed (signer.signHash (message.treeHashRoot sha256)) message) := by
  have hplain := plain_toJson sha256 signer message
  rw [VersionedMessage.gossip]
  rw [VersionedMessage.toJson] at hplain ⊢
  generalize signer.signHash (message.treeHashRoot sha256) = signature at hplain ⊢
  have hargument : unmarshalArgument message.method.toList (.obj (signer.order
      [("signature", jsonSignature signature), ("message", .obj (signer.order message.members))])) =
        some (signed signature message) :=
    unmarshalArgument_perm (signer.order_perm message.members).symm (signer.order_perm _).symm
  generalize Json.obj (signer.order [("signature", jsonSignature signature),
    ("message", .obj (signer.order message.members))]) = argument at hplain hargument ⊢
  have hperm := (signer.order_perm [("jsonrpc", .str "2.0".toList),
    ("method", .str message.method.toList), ("params", .arr [argument]), ("id", .num 1)]).symm
  have hlookup := lookup_perm hperm (by simp)
  generalize signer.order [("jsonrpc", Json.str "2.0".toList),
    ("method", .str message.method.toList), ("params", .arr [argument]), ("id", .num 1)] = members
    at hplain hlookup ⊢
  rw [Plain] at hplain
  simp only [parseRequest, jsonMembers_print hplain, Option.bind_eq_bind, Option.bind_some,
    jsonMember, validId, ← hlookup]
  simp [List.lookup_cons, unmarshalString, hargument]

/-! ## Published and accepted -/

/-- A recovery byte that was normalized is not changed again. -/
theorem normalizeSignature_normalizeSignature (signature : Bytes65) :
    normalizeSignature (normalizeSignature signature) = normalizeSignature signature := by
  have hfix {s : Bytes65} (h : ¬ (recoveryByte s = 27 ∨ recoveryByte s = 28)) :
      normalizeSignature s = s := if_neg h
  by_cases h : recoveryByte signature = 27 ∨ recoveryByte signature = 28
  · have hbyte : recoveryByte (signature - 27) = recoveryByte signature - 27 := by
      have hadd := recoveryByte_add (signature - 27)
      rw [BitVec.sub_add_cancel] at hadd
      rw [hadd, BitVec.add_sub_cancel]
    have hnormal : normalizeSignature signature = signature - 27 := if_pos h
    rw [hnormal]
    apply hfix
    rw [hbyte]
    obtain h | h := h <;> rw [h] <;> decide
  · rw [hfix h, hfix h]

/-- When a signature passes, and as what. -/
theorem verifyGatewaySignature_eq_some {crypto : GossipCrypto} {signature' : Bytes65}
    {message : Bytes} {expectedSigner : Address} :
    verifyGatewaySignature crypto signature message expectedSigner = some signature' ↔
      signature' = normalizeSignature signature ∧ ∃ pub,
        crypto.sigToPub message signature' = some pub ∧
          crypto.pubkeyToAddress pub = expectedSigner := by
  simp only [verifyGatewaySignature, Option.bind_eq_bind, Option.bind_eq_some_iff,
    Option.ite_none_right_eq_some, Option.some.injEq]
  constructor
  · rintro ⟨pub, hpub, haddress, rfl⟩
    exact ⟨rfl, pub, hpub, haddress⟩
  · rintro ⟨rfl, pub, hpub, haddress⟩
    exact ⟨pub, hpub, haddress, rfl⟩

variable {api : RegistryClient}

section

variable {α : Type} {unmarshal : UInt32 → Bytes → Option (α × Bytes)} {marshal : α → Bytes}
  {root : α → Bytes} {number : α → UInt64} {crypto : GossipCrypto} {message : α}
  {signature signature' : Bytes65} {address : Address}

/-- When a call is published, and as what. -/
theorem basedCall_eq_ok {payload : Bytes} :
    basedCall crypto root number marshal api signature message = .ok payload ↔
      ∃ address signature', api.gatewayForBlock (number message) = .ok address ∧
        verifyGatewaySignature crypto signature (root message) address = some signature' ∧
          payload = marshalSigned signature' (marshal message) := by
  unfold basedCall verifySignature
  constructor
  · intro h
    split at h
    · cases h
    · rename_i address haddress
      split at h
      · cases h
      · rename_i signature' hverify
        cases h
        exact ⟨address, signature', haddress, hverify, rfl⟩
  · rintro ⟨address, signature', haddress, hverify, rfl⟩
    rw [haddress]
    dsimp only
    rw [hverify]

/-- What is published with a signature that was checked is accepted, if the message
is read back and its size is a word. -/
theorem validate_marshalSigned {gatewayForBlock : UInt64 → Option Address}
    (hread : ∀ scope : UInt32, scope.toNat = (marshal message).length → ∀ tail,
      unmarshal scope (marshal message ++ tail) = some (message, tail))
    (hlength : (marshalSigned signature' (marshal message)).length < 2 ^ 32)
    (hgateway : gatewayForBlock (number message) = some address)
    (hverify : verifyGatewaySignature crypto signature (root message) address = some signature') :
    validate crypto (unmarshalSigned unmarshal) root number gatewayForBlock
      (marshalSigned signature' (marshal message)) = some (signature', message) := by
  obtain ⟨rfl, pub, hpub, haddress⟩ := verifyGatewaySignature_eq_some.mp hverify
  have hagain : verifyGatewaySignature crypto (normalizeSignature signature) (root message)
      address = some (normalizeSignature signature) := by
    rw [verifyGatewaySignature_eq_some, normalizeSignature_normalizeSignature]
    exact ⟨rfl, pub, hpub, haddress⟩
  have hscope : (UInt32.ofNat (marshalSigned (normalizeSignature signature)
      (marshal message)).length).toNat =
        (marshalSigned (normalizeSignature signature) (marshal message)).length :=
    UInt32.toNat_ofNat_of_lt' hlength
  have hwhole (scope : UInt32) (h : scope.toNat = (marshal message).length) :
      unmarshal scope (marshal message) = some (message, []) := by
    simpa using hread scope h []
  simp only [validate, unmarshalSigned_marshalSigned hscope hwhole, Option.bind_eq_bind,
    Option.bind_some, hgateway, hagain]

end

/-! ## From the gateway to the subscribers -/

/-- The signatures of the gateway are those of its address. -/
def Signs (crypto : GossipCrypto) (signer : JsonSigner) : Prop :=
  ∀ hash, ∃ pub, crypto.sigToPub hash (normalizeSignature (signer.signHash hash)) = some pub ∧
    crypto.pubkeyToAddress pub = signer.address

/-- The limits of the fields of a message, and of a message on a topic. -/
def Fits [Ssz.Library] : VersionedMessage → Prop
  | .fragV0 frag => NewFrag.WithinLimits (toNewFrag frag) ∧
      (toNewFrag frag).marshalSSZ.length + 65 ≤ maxGossipSize
  | .sealV0 _ => True
  | .envV0 env => env.extraData.length ≤ OpNode.maxExtraDataSize

instance [Ssz.Library] : DecidablePred Fits
  | .fragV0 frag => inferInstanceAs (Decidable ((frag.txs.length ≤ maxTxAmount ∧
      ∀ tx ∈ frag.txs, tx.length ≤ maxTxsSize) ∧
        (toNewFrag frag).marshalSSZ.length + 65 ≤ maxGossipSize))
  | .sealV0 _ => isTrue trivial
  | .envV0 env => inferInstanceAs (Decidable (env.extraData.length ≤ OpNode.maxExtraDataSize))

/-- The block that a message is for. -/
def blockNumber : VersionedMessage → UInt64
  | .fragV0 frag => frag.blockNumber
  | .sealV0 sl => sl.blockNumber
  | .envV0 env => env.number

/-- The message of the gateway as a subscriber has it. -/
def delivered [Ssz.Library] (sha256 : Bytes → Bytes) (signer : JsonSigner)
    (message : VersionedMessage) :
    Message :=
  signed (normalizeSignature (signer.signHash (message.treeHashRoot sha256))) message

/-- The payload that is published for a message of the gateway. -/
def payload [Ssz.Library] (sha256 : Bytes → Bytes) (signer : JsonSigner)
    (message : VersionedMessage) : Bytes :=
  marshalSigned (normalizeSignature (signer.signHash (message.treeHashRoot sha256)))
    (toBody message).marshalSSZ

section

variable {crypto : GossipCrypto} {signer : JsonSigner} {message : VersionedMessage}

/-- The signature of the gateway passes. -/
theorem Signs.verify [Ssz.Library] (hsigns : Signs crypto signer) (message : VersionedMessage) :
    verifyGatewaySignature crypto (signer.signHash (message.treeHashRoot crypto.sha256))
      (messageRoot crypto.sha256 (delivered crypto.sha256 signer message)) signer.address =
        some (normalizeSignature (signer.signHash (message.treeHashRoot crypto.sha256))) := by
  rw [delivered, messageRoot_signed, verifyGatewaySignature_eq_some]
  exact ⟨rfl, hsigns _⟩

/-- The based API publishes the payload of a message that the gateway has signed. -/
theorem basedAPI_signed [Ssz.Library] (hsigns : Signs crypto signer)
    (hapi : api.gatewayForBlock (blockNumber message) = .ok signer.address) :
    basedAPI crypto api (signed (signer.signHash (message.treeHashRoot crypto.sha256)) message) =
      .ok (payload crypto.sha256 signer message) := by
  have hverify := hsigns.verify message
  cases message <;> exact basedCall_eq_ok.mpr ⟨_, _, hapi, hverify, rfl⟩

/-- A message within its limits has a size of 32 bits. -/
theorem length_payload_lt [Ssz.Library] (hfits : Fits message) (sha256 : Bytes → Bytes)
    (signer : JsonSigner) :
    (payload sha256 signer message).length < 2 ^ 32 := by
  rw [payload, length_marshalSigned]
  have hgossip : maxGossipSize < 2 ^ 32 := by decide
  cases message with
  | fragV0 frag =>
    have hsize : (toNewFrag frag).marshalSSZ.length + 65 ≤ maxGossipSize := hfits.2
    simp only [toBody, Body.marshalSSZ]
    omega
  | sealV0 =>
    simp only [toBody, Body.marshalSSZ, length_marshalSSZ_seal]
    omega
  | envV0 env =>
    have hsize : env.extraData.length ≤ 256 := hfits
    have hdata : (toEnv env).extraData = env.extraData := rfl
    simp only [toBody, Body.marshalSSZ, length_marshalSSZ_env, hdata]
    omega

/-- Every subscriber that has the gateway of the block accepts the payload. -/
theorem topicValidator_payload [Ssz.Library] (hsigns : Signs crypto signer) (hfits : Fits message)
    {peer : RegistryClient}
    (hpeer : peer.gatewayForBlock (blockNumber message) = .ok signer.address) :
    topicValidator crypto peer (delivered crypto.sha256 signer message).topic
      (payload crypto.sha256 signer message) = some (delivered crypto.sha256 signer message) := by
  have hverify := hsigns.verify message
  have hlength := length_payload_lt hfits crypto.sha256 signer
  have hgateway : (peer.gatewayForBlock (blockNumber message)).toOption = some signer.address := by
    rw [hpeer]
    rfl
  rw [delivered] at hverify ⊢
  rw [payload] at hlength ⊢
  generalize signer.signHash (message.treeHashRoot crypto.sha256) = signature
    at hverify hlength ⊢
  cases message with
  | fragV0 frag =>
    have hvalid : newFragValidator crypto (fun number => (peer.gatewayForBlock number).toOption)
        (marshalSigned (normalizeSignature signature) (toNewFrag frag).marshalSSZ) =
          some (normalizeSignature signature, toNewFrag frag) :=
      validate_marshalSigned (fun _ => unmarshalSSZ_newFrag hfits.1) hlength hgateway hverify
    simp only [signed, Message.topic, topicValidator, toBody, Body.marshalSSZ, hvalid,
      Option.map_some]
  | sealV0 sl =>
    have hvalid : sealFragValidator crypto (fun number => (peer.gatewayForBlock number).toOption)
        (marshalSigned (normalizeSignature signature) (toSeal sl).marshalSSZ) =
          some (normalizeSignature signature, toSeal sl) :=
      validate_marshalSigned (fun _ => unmarshalSSZ_seal) hlength hgateway hverify
    simp only [signed, Message.topic, topicValidator, toBody, Body.marshalSSZ, hvalid,
      Option.map_some]
  | envV0 env =>
    have hlimits : Env.WithinLimits (toEnv env) := ⟨hfits, rfl⟩
    have hvalid : envValidator crypto (fun number => (peer.gatewayForBlock number).toOption)
        (marshalSigned (normalizeSignature signature) (toEnv env).marshalSSZ) =
          some (normalizeSignature signature, toEnv env) :=
      validate_marshalSigned (fun _ => unmarshalSSZ_env hlimits) hlength hgateway hverify
    simp only [signed, Message.topic, topicValidator, toBody, Body.marshalSSZ, hvalid,
      Option.map_some]

/-- What the gateway posts is read as the message it has signed, published, and accepted with the
recovery byte normalized, whatever the order of the members of the JSON objects.
SRCLINE: src/p2p.rs:127-145, eth/types.go:231-353, op-node/node/api.go:230-306, gossip.go:285-391 -/
theorem gossip_accepted [Ssz.Library] (hsigns : Signs crypto signer) (hfits : Fits message)
    {api peer : RegistryClient}
    (hapi : api.gatewayForBlock (blockNumber message) = .ok signer.address)
    (hpeer : peer.gatewayForBlock (blockNumber message) = .ok signer.address) :
    ∃ m data, m = signed (signer.signHash (message.treeHashRoot crypto.sha256)) message ∧
      parseRequest (message.gossip crypto.sha256 signer) = some m ∧
      basedAPI crypto api m = .ok data ∧
      topicValidator crypto peer m.topic data =
        some (delivered crypto.sha256 signer message) := by
  refine ⟨_, _, rfl, parseRequest_gossip crypto.sha256 signer message,
    basedAPI_signed hsigns hapi, ?_⟩
  have htopic : (signed (signer.signHash (message.treeHashRoot crypto.sha256)) message).topic =
      (delivered crypto.sha256 signer message).topic := by
    cases message <;> rfl
  rw [htopic]
  exact topicValidator_payload hsigns hfits hpeer

end

/-- A signer whose signatures are those of the address of `plainCrypto`. -/
def plainSigner : JsonSigner where
  signHash _ := 27
  address := 9
  order members := members.reverse
  order_perm := List.reverse_perm

/-- A client that knows the gateway of one block. -/
def plainClient (b : UInt64) : RegistryClient where
  gateways := AList.insert b ⟨b, "http://b", 9, 2⟩ ∅
  latestFetchedBlock := b

/-- The example signer signs. -/
theorem signs_plainSigner : Signs plainCrypto plainSigner := by
  have hbyte : recoveryByte (normalizeSignature 27) ≤ 3 := by decide +kernel
  have hpub (hash : Bytes) (signature : Bytes65) (h : recoveryByte signature ≤ 3) :
      plainCrypto.sigToPub hash signature = some [] := by
    simp only [plainCrypto, h, if_true]
  exact fun hash => ⟨[], hpub hash _ hbyte, rfl⟩

/-- A frag is accepted by the API and by the peers. -/
theorem gossip_accepted_plain :
    ∃ m data, m = .newFrag ⟨27, ⟨7, 0, true, [[1]]⟩⟩ ∧
      parseRequest (VersionedMessage.gossip plainCrypto.sha256 plainSigner
        (.fragV0 ⟨7, 0, true, [[1]]⟩)) = some m ∧
      basedAPI plainCrypto (plainClient 7) m = .ok data ∧
      topicValidator plainCrypto (plainClient 7) m.topic data =
        some (delivered plainCrypto.sha256 plainSigner (.fragV0 ⟨7, 0, true, [[1]]⟩)) := by
  have hfits : Fits (.fragV0 ⟨7, 0, true, [[1]]⟩) := by decide +kernel
  exact gossip_accepted signs_plainSigner hfits rfl rfl

end BasedOp.Analysis.GatewayTransport
