import BasedOp.Model.PreconfMessages
import BasedOp.Model.GatewayTypes
import BasedOp.Computation.SszStream

/-!
# The messages on the wire

How the gateway hashes the messages that it signs (crates/common/src/p2p.rs), how op-node
hashes, writes and reads them (op-service/eth/ssz.go), and the gossip validators that let
them pass (op-node/p2p/gossip.go). SHA-256, the recovery of a signer and the compression of
gossip messages are parameters, and so are the packages for SSZ (`Ssz.Library`).

A Go struct has one list of calls, which its encoder, its decoder and its hasher go through;
a dynamic field stands in it twice, with its offset and with its content.
-/

set_option autoImplicit false

namespace BasedOp.Model

open BasedOp.Computation BasedOp.Computation.Ssz

/-! ## The gateway -/

namespace Gateway

variable [Library] (sha256 : Bytes → Bytes)

def treeHashU64 (v : UInt64) : Field := .fixed (leBytes 8 v.toNat)

def treeHashBool (v : Bool) : Field := .fixed [if v then 1 else 0]

def treeHashB256 (v : Hash) : Field := .fixed (beBytes 32 v.toNat)

def treeHashAddress (v : Address) : Field := .fixed (beBytes 20 v.toNat)

def treeHashU256 (v : U256) : Field := .fixed (leBytes 32 v.toNat)

/-- SRCLINE: src/p2p.rs:42-57 -/
def EnvV0.treeHashFields (env : EnvV0) : List Field :=
  [treeHashU64 env.number,
    treeHashB256 env.parentHash,
    treeHashAddress env.beneficiary,
    treeHashU64 env.timestamp,
    treeHashU64 env.gasLimit,
    treeHashU64 env.basefee,
    treeHashU256 env.difficulty,
    treeHashB256 env.prevrandao,
    .byteList maxExtraDataSize env.extraData,
    treeHashB256 env.parentBeaconBlockRoot]

/-- SRCLINE: src/p2p.rs:81-95 -/
def FragV0.treeHashFields (frag : FragV0) : List Field :=
  [treeHashU64 frag.blockNumber,
    treeHashU64 frag.seq,
    treeHashBool frag.isLast,
    .byteLists maxTransactionsPerPayload maxBytesPerTransaction frag.txs]

/-- SRCLINE: src/p2p.rs:109-125 -/
def SealV0.treeHashFields (sl : SealV0) : List Field :=
  [treeHashU64 sl.totalFrags,
    treeHashU64 sl.blockNumber,
    treeHashU64 sl.gasUsed,
    treeHashU64 sl.gasLimit,
    treeHashB256 sl.parentHash,
    treeHashB256 sl.transactionsRoot,
    treeHashB256 sl.receiptsRoot,
    treeHashB256 sl.stateRoot,
    treeHashB256 sl.blockHash]

/-- The variants of the union are selected by their position.
SRCLINE: src/p2p.rs:11-19 -/
def VersionedMessage.treeHashRoot : VersionedMessage → Bytes
  | fragV0 frag => Library.mixInSelector sha256 (Library.treeHashRoot sha256 frag.treeHashFields) 0
  | sealV0 sl => Library.mixInSelector sha256 (Library.treeHashRoot sha256 sl.treeHashFields) 1
  | envV0 env => Library.mixInSelector sha256 (Library.treeHashRoot sha256 env.treeHashFields) 2

end Gateway

/-! ## op-node -/

namespace OpNode

/-- SRCLINE: ssz.go:568-569 -/
def maxTxAmount : ℕ := 1048576

def maxTxsSize : ℕ := 1073741824

/-- SRCLINE: ssz.go:582 -/
def maxExtraDataSize : ℕ := 256

/-- SRCLINE: ssz.go:503 -/
def signatureSize : UInt32 := 65

namespace Seal

def totalFragsField : FixedField Seal :=
  uint64Field ⟨totalFrags, fun v s => { s with totalFrags := v }, fun _ _ => rfl⟩

def blockNumberField : FixedField Seal :=
  uint64Field ⟨blockNumber, fun v s => { s with blockNumber := v }, fun _ _ => rfl⟩

def gasUsedField : FixedField Seal :=
  uint64Field ⟨gasUsed, fun v s => { s with gasUsed := v }, fun _ _ => rfl⟩

def gasLimitField : FixedField Seal :=
  uint64Field ⟨gasLimit, fun v s => { s with gasLimit := v }, fun _ _ => rfl⟩

def parentHashField : FixedField Seal :=
  bytes32Field ⟨parentHash, fun v s => { s with parentHash := v }, fun _ _ => rfl⟩

def transactionsRootField : FixedField Seal :=
  bytes32Field ⟨transactionsRoot, fun v s => { s with transactionsRoot := v }, fun _ _ => rfl⟩

def receiptsRootField : FixedField Seal :=
  bytes32Field ⟨receiptsRoot, fun v s => { s with receiptsRoot := v }, fun _ _ => rfl⟩

def stateRootField : FixedField Seal :=
  bytes32Field ⟨stateRoot, fun v s => { s with stateRoot := v }, fun _ _ => rfl⟩

def blockHashField : FixedField Seal :=
  bytes32Field ⟨blockHash, fun v s => { s with blockHash := v }, fun _ _ => rfl⟩

/-- SRCLINE: ssz.go:542 -/
def sizeSSZ : UInt32 := 32 * 4 + 8 * 4

/-- SRCLINE: ssz.go:544-554 -/
def defineSSZ : List (Call Seal) :=
  [.static totalFragsField,
    .static blockNumberField,
    .static gasUsedField,
    .static gasLimitField,
    .static parentHashField,
    .static transactionsRootField,
    .static receiptsRootField,
    .static stateRootField,
    .static blockHashField]

/-- What `var seal Seal` declares. -/
def zero : Seal where
  totalFrags := 0
  blockNumber := 0
  gasUsed := 0
  gasLimit := 0
  parentHash := 0
  transactionsRoot := 0
  receiptsRoot := 0
  stateRoot := 0
  blockHash := 0

end Seal

namespace NewFrag

def blockNumberField : FixedField NewFrag :=
  uint64Field ⟨blockNumber, fun v f => { f with blockNumber := v }, fun _ _ => rfl⟩

def seqField : FixedField NewFrag :=
  uint64Field ⟨seq, fun v f => { f with seq := v }, fun _ _ => rfl⟩

def isLastField : FixedField NewFrag :=
  boolField ⟨isLast, fun v f => { f with isLast := v }, fun _ _ => rfl⟩

def txsField : DynamicField NewFrag :=
  sliceOfDynamicBytesField ⟨txs, fun v f => { f with txs := v }, fun _ _ => rfl⟩ maxTxAmount
    maxTxsSize

/-- SRCLINE: ssz.go:556-566 -/
def sizeSSZ (f : NewFrag) (fixed : Bool) : UInt32 :=
  let size := 8 * 2 + 1 + 4
  if fixed then size
  else size + f.txs.foldl (fun size tx => size + UInt32.ofNat (4 + tx.length)) 0

/-- SRCLINE: ssz.go:571-580 -/
def defineSSZ : List (Call NewFrag) :=
  [.static blockNumberField,
    .static seqField,
    .static isLastField,
    .offset txsField,
    .content txsField]

/-- What `var frag NewFrag` declares. -/
def zero : NewFrag where
  blockNumber := 0
  seq := 0
  isLast := false
  txs := []

end NewFrag

namespace Env

def numberField : FixedField Env :=
  uint64Field ⟨number, fun v e => { e with number := v }, fun _ _ => rfl⟩

def parentHashField : FixedField Env :=
  bytes32Field ⟨parentHash, fun v e => { e with parentHash := v }, fun _ _ => rfl⟩

def beneficiaryField : FixedField Env :=
  bytes20Field ⟨beneficiary, fun v e => { e with beneficiary := v }, fun _ _ => rfl⟩

def timestampField : FixedField Env :=
  uint64Field ⟨timestamp, fun v e => { e with timestamp := v }, fun _ _ => rfl⟩

def gasLimitField : FixedField Env :=
  uint64Field ⟨gasLimit, fun v e => { e with gasLimit := v }, fun _ _ => rfl⟩

def basefeeField : FixedField Env :=
  uint64Field ⟨basefee, fun v e => { e with basefee := v }, fun _ _ => rfl⟩

def difficultyField : FixedField Env :=
  uint256Field ⟨difficulty, fun v e => { e with difficulty := v }, fun _ _ => rfl⟩

def prevrandaoField : FixedField Env :=
  bytes32Field ⟨prevrandao, fun v e => { e with prevrandao := v }, fun _ _ => rfl⟩

def extraDataField : DynamicField Env :=
  dynamicBytesField ⟨extraData, fun v e => { e with extraData := v }, fun _ _ => rfl⟩
    maxExtraDataSize

def parentBeaconBlockRootField : FixedField Env :=
  bytes32Field
    ⟨parentBeaconBlockRoot, fun v e => { e with parentBeaconBlockRoot := v }, fun _ _ => rfl⟩

/-- SRCLINE: ssz.go:584-590 -/
def sizeSSZ (e : Env) (fixed : Bool) : UInt32 :=
  let fixedSize := 8 + 32 + 20 + 8 + 8 + 8 + 32 + 32 + 32 + 4
  if fixed then fixedSize
  else fixedSize + UInt32.ofNat e.extraData.length

/-- The last field is defined after the content of the extra data.
SRCLINE: ssz.go:592-604 -/
def defineSSZ : List (Call Env) :=
  [.static numberField,
    .static parentHashField,
    .static beneficiaryField,
    .static timestampField,
    .static gasLimitField,
    .static basefeeField,
    .static difficultyField,
    .static prevrandaoField,
    .offset extraDataField,
    .content extraDataField,
    .static parentBeaconBlockRootField]

/-- What `var env Env` declares. -/
def zero : Env where
  number := 0
  parentHash := 0
  beneficiary := 0
  timestamp := 0
  gasLimit := 0
  basefee := 0
  difficulty := none
  prevrandao := 0
  extraData := []
  parentBeaconBlockRoot := 0

end Env

/-! ### Roots -/

section

variable [Library] (sha256 : Bytes → Bytes)

/-- SRCLINE: ssz.go:618-622 -/
def unionRoot (valueRoot : Bytes) (typeIndex : UInt64) : Bytes :=
  sha256 (valueRoot ++ (leBytes 8 typeIndex.toNat).rightpad 32 0)

/-- SRCLINE: ssz.go:606-616 -/
def NewFrag.root (f : NewFrag) : Bytes :=
  unionRoot sha256 (Library.hashSequential sha256 defineSSZ f) 0

def Seal.root (s : Seal) : Bytes := unionRoot sha256 (Library.hashSequential sha256 defineSSZ s) 1

def Env.root (e : Env) : Bytes := unionRoot sha256 (Library.hashSequential sha256 defineSSZ e) 2

end

/-! ### Marshalling -/

variable [Library]

/-- `MarshalSSZ` of a message. The fixed size of a static object is not asked for.
SRCLINE: ssz.go:498-501, 655, 694 -/
def NewFrag.marshalSSZ (f : NewFrag) : Bytes :=
  Library.encodeToStream (f.sizeSSZ true).toNat defineSSZ f

def Seal.marshalSSZ (s : Seal) : Bytes := Library.encodeToStream 0 defineSSZ s

def Env.marshalSSZ (e : Env) : Bytes :=
  Library.encodeToStream (e.sizeSSZ true).toNat defineSSZ e

/-- Read an object of `scope` bytes. The fixed size does not depend on the object.
SRCLINE: ssz.go:493-496 -/
def NewFrag.unmarshalSSZ (scope : UInt32) (r : Bytes) : Option (NewFrag × Bytes) :=
  Library.decodeFromStream (zero.sizeSSZ true).toNat scope.toNat defineSSZ zero r

def Seal.unmarshalSSZ (scope : UInt32) (r : Bytes) : Option (Seal × Bytes) :=
  Library.decodeFromStream 0 scope.toNat defineSSZ zero r

def Env.unmarshalSSZ (scope : UInt32) (r : Bytes) : Option (Env × Bytes) :=
  Library.decodeFromStream (zero.sizeSSZ true).toNat scope.toNat defineSSZ zero r

def signatureCodec : StaticCodec Bytes65 := staticBytesCodec 65

/-- The signature is written in front of the message. -/
def marshalSigned (signature : Bytes65) (message : Bytes) : Bytes :=
  signatureCodec.encode signature ++ message

/-- Read a signature and then a message in what is left of the scope. -/
def unmarshalSigned {α : Type} (unmarshal : UInt32 → Bytes → Option (α × Bytes)) (scope : UInt32)
    (r : Bytes) : Option ((Bytes65 × α) × Bytes) := do
  let (bytes, r) ← readFull signatureSize.toNat r
  let signature ← signatureCodec.decode bytes
  let (message, r) ← unmarshal (scope - signatureSize) r
  some ((signature, message), r)

/-- SRCLINE: ssz.go:528-540 -/
def SignedNewFrag.marshalSSZ (m : SignedNewFrag) : Bytes :=
  marshalSigned m.signature m.frag.marshalSSZ

/-- SRCLINE: ssz.go:505-526 -/
def SignedNewFrag.unmarshalSSZ (scope : UInt32) (r : Bytes) : Option (SignedNewFrag × Bytes) :=
  (unmarshalSigned NewFrag.unmarshalSSZ scope r).map fun ((signature, frag), r) =>
    (⟨signature, frag⟩, r)

/-- SRCLINE: ssz.go:648-661 -/
def SignedSeal.marshalSSZ (m : SignedSeal) : Bytes :=
  marshalSigned m.signature m.sealData.marshalSSZ

/-- SRCLINE: ssz.go:624-646 -/
def SignedSeal.unmarshalSSZ (scope : UInt32) (r : Bytes) : Option (SignedSeal × Bytes) :=
  (unmarshalSigned Seal.unmarshalSSZ scope r).map fun ((signature, sl), r) => (⟨signature, sl⟩, r)

/-- SRCLINE: ssz.go:687-700 -/
def SignedEnv.marshalSSZ (m : SignedEnv) : Bytes := marshalSigned m.signature m.env.marshalSSZ

/-- SRCLINE: ssz.go:663-685 -/
def SignedEnv.unmarshalSSZ (scope : UInt32) (r : Bytes) : Option (SignedEnv × Bytes) :=
  (unmarshalSigned Env.unmarshalSSZ scope r).map fun ((signature, env), r) => (⟨signature, env⟩, r)

/-! ### Gossip -/

/-- SRCLINE: gossip.go:30 -/
def maxGossipSize : ℕ := 10 * 2 ^ 20

/-- What the gossip validation takes from other packages: SHA-256, the public key that a
signature was made with (`crypto.SigToPub`, `crypto.PubkeyToAddress`), and the length of some
snappy data and the data themselves. -/
structure GossipCrypto where
  sha256 : Bytes → Bytes
  sigToPub : Bytes → Bytes65 → Option Bytes
  pubkeyToAddress : Bytes → Address
  snappyDecodedLen : Bytes → Option ℕ
  snappyDecode : Bytes → Option Bytes

section

variable (crypto : GossipCrypto)

/-- The last byte of a signature. -/
def recoveryByte (signature : Bytes65) : BitVec 8 := signature.setWidth 8

/-- The recovery byte is changed in place. Taking 27 from it does not borrow. -/
def normalizeSignature (signature : Bytes65) : Bytes65 :=
  if recoveryByte signature = 27 ∨ recoveryByte signature = 28 then signature - 27 else signature

/-- The signature as it is left, if it is accepted. Its length is that of its type.
SRCLINE: gossip.go:366-391 -/
def verifyGatewaySignature (signature : Bytes65) (message : Bytes) (expectedSigner : Address) :
    Option Bytes65 := do
  let signature := normalizeSignature signature
  let pub ← crypto.sigToPub message signature
  if crypto.pubkeyToAddress pub = expectedSigner then some signature else none

/-- The validators differ in the message only: how it is read, its root and the block it is for.
`none` rejects; otherwise the decoded message is kept with the signature as it was left. -/
def validate {α : Type} (unmarshal : UInt32 → Bytes → Option ((Bytes65 × α) × Bytes))
    (root : α → Bytes) (number : α → UInt64) (gatewayForBlock : UInt64 → Option Address)
    (data : Bytes) : Option (Bytes65 × α) := do
  let ((signature, message), _) ← unmarshal (UInt32.ofNat data.length) data
  let expectedSigner ← gatewayForBlock (number message)
  let signature ← verifyGatewaySignature crypto signature (root message) expectedSigner
  some (signature, message)

/-- SRCLINE: gossip.go:285-310 -/
def newFragValidator (gatewayForBlock : UInt64 → Option Address) (data : Bytes) :
    Option (Bytes65 × NewFrag) :=
  validate crypto (unmarshalSigned NewFrag.unmarshalSSZ) (NewFrag.root crypto.sha256)
    NewFrag.blockNumber gatewayForBlock data

/-- SRCLINE: gossip.go:312-337 -/
def sealFragValidator (gatewayForBlock : UInt64 → Option Address) (data : Bytes) :
    Option (Bytes65 × Seal) :=
  validate crypto (unmarshalSigned Seal.unmarshalSSZ) (Seal.root crypto.sha256)
    Seal.blockNumber gatewayForBlock data

/-- SRCLINE: gossip.go:339-364 -/
def envValidator (gatewayForBlock : UInt64 → Option Address) (data : Bytes) :
    Option (Bytes65 × Env) :=
  validate crypto (unmarshalSigned Env.unmarshalSSZ) (Env.root crypto.sha256)
    Env.number gatewayForBlock data

/-- The data that a message id is made of: those in snappy format are unpacked.
SRCLINE: gossip.go:111-130 -/
def messageData (data : Bytes) : Option Bytes := do
  let length ← crypto.snappyDecodedLen data
  if length ≤ maxGossipSize then crypto.snappyDecode data else none

/-- SRCLINE: gossip.go:51-52, 109-147 -/
def msgId (topic data : Bytes) : Bytes :=
  let (domain, data) := match messageData crypto data with
    | some unpacked => (([1, 0, 0, 0] : Bytes), unpacked)
    | none => ([0, 0, 0, 0], data)
  (crypto.sha256 (domain ++ leBytes 8 topic.length ++ topic ++ data)).take 20

end

end OpNode

end BasedOp.Model
