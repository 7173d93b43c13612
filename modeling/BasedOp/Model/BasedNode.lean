import BasedOp.Model.MessageCodec
import BasedOp.Model.MessageJson
import BasedOp.Model.Preconf
import BasedOp.Model.Registry

/-!
# A message on its way from the gateway to the engine

The gateway posts each message with its signature as a JSON-RPC request
(crates/common/src/p2p.rs, crates/rpc/src/gossiper.rs). The based API of an op-node checks the
signer and publishes the message on the topic of its kind (op-node/node/api.go); every op-node
that subscribes to the topic checks the signer again and hands the message to its
preconfirmation handler (op-node/p2p/gossip.go, op-node/node/node.go). Who may sign for a block
is what the client of the registry has cached when the check is made.

A node takes one step at a time: a request, a payload of a topic, the next message of a
subscription, the answers of the registry, a cleanup of its cache, or a safe L2 block. Requests
and payloads are arbitrary texts and bytes. Which messages a text hands to the API is up to the
server of op-geth, so a node has any function for it; `parseRequest` is that function on single
requests as the gateway prints them.
-/

set_option autoImplicit false

namespace BasedOp.Model

open BasedOp.Computation

/-! ## The gateway -/

namespace Gateway

/-- What `to_json` takes from other packages: the key of the signer, and the order in which a
`serde_json::Map` has its members, which is a feature of that package. -/
structure JsonSigner where
  signHash : Bytes → Bytes65
  address : Address
  order : List (String × Json) → List (String × Json)
  order_perm : ∀ members, (order members).Perm members

/-- A signature as `Bytes`. -/
def jsonSignature (signature : Bytes65) : Json := jsonHexBytes (beBytes 65 signature.toNat)

/-- SRCLINE: src/p2p.rs:42-57 -/
def EnvV0.members (env : EnvV0) : List (String × Json) :=
  [("number", jsonUint64 env.number),
    ("parentHash", jsonHash env.parentHash),
    ("beneficiary", jsonAddress env.beneficiary),
    ("timestamp", jsonUint64 env.timestamp),
    ("gasLimit", jsonUint64 env.gasLimit),
    ("basefee", jsonUint64 env.basefee),
    ("difficulty", jsonU256 (some env.difficulty)),
    ("prevrandao", jsonHash env.prevrandao),
    ("extraData", jsonHexBytes env.extraData),
    ("parentBeaconBlockRoot", jsonHash env.parentBeaconBlockRoot)]

/-- SRCLINE: src/p2p.rs:81-95 -/
def FragV0.members (frag : FragV0) : List (String × Json) :=
  [("blockNumber", jsonUint64 frag.blockNumber),
    ("seq", jsonUint64 frag.seq),
    ("isLast", .bool frag.isLast),
    ("txs", .arr (frag.txs.map jsonHexBytes))]

/-- SRCLINE: src/p2p.rs:109-125 -/
def SealV0.members (sl : SealV0) : List (String × Json) :=
  [("totalFrags", jsonUint64 sl.totalFrags),
    ("blockNumber", jsonUint64 sl.blockNumber),
    ("gasUsed", jsonUint64 sl.gasUsed),
    ("gasLimit", jsonUint64 sl.gasLimit),
    ("parentHash", jsonHash sl.parentHash),
    ("transactionsRoot", jsonHash sl.transactionsRoot),
    ("receiptsRoot", jsonHash sl.receiptsRoot),
    ("stateRoot", jsonHash sl.stateRoot),
    ("blockHash", jsonHash sl.blockHash)]

namespace VersionedMessage

/-- The variants are untagged.
SRCLINE: src/p2p.rs:11-19 -/
def members : VersionedMessage → List (String × Json)
  | fragV0 frag => frag.members
  | sealV0 sl => sl.members
  | envV0 env => env.members

/-- SRCLINE: src/p2p.rs:132-136 -/
def method : VersionedMessage → String
  | fragV0 _ => "based_newFrag"
  | sealV0 _ => "based_sealFrag"
  | envV0 _ => "based_env"

variable [Ssz.Library]

/-- SRCLINE: src/p2p.rs:127-145 -/
def toJson (sha256 : Bytes → Bytes) (signer : JsonSigner) (message : VersionedMessage) : Json :=
  let signature := signer.signHash (message.treeHashRoot sha256)
  let params := .obj (signer.order
    [("signature", jsonSignature signature), ("message", .obj (signer.order message.members))])
  .obj (signer.order
    [("jsonrpc", .str "2.0".toList),
      ("method", .str message.method.toList),
      ("params", .arr [params]),
      ("id", .num 1)])

/-- The body that is posted.
SRCLINE: gossiper.rs:24-44 -/
def gossip (sha256 : Bytes → Bytes) (signer : JsonSigner) (message : VersionedMessage) :
    List Char :=
  (message.toJson sha256 signer).print

end VersionedMessage

end Gateway

/-! ## Requests to op-node -/

namespace OpNode

open Registry

def unmarshalString : Json → Option (List Char)
  | .str text => some text
  | .null => some []
  | _ => none

/-- SRCLINE: eth/types.go:169-173 -/
def unmarshalBytes65 : Json → Option Bytes65
  | .str text => (Hexutil.unmarshalFixedText 65 text).map fun b => BitVec.ofNat 520 (ofBeBytes b)
  | _ => none

/-- The members of a value that is decoded into a struct. -/
def structMembers : Json → Option (List (String × Json))
  | .obj members => some members
  | .null => some []
  | _ => none

/-- SRCLINE: eth/types.go:243-265 -/
def NewFrag.unmarshalJSON (data : Json) : Option NewFrag := do
  let members ← structMembers data
  let blockNumber ← jsonMember "blockNumber" unmarshalUint64 0 members
  let seq ← jsonMember "seq" unmarshalUint64 0 members
  let isLast ← jsonMember "isLast" unmarshalBool false members
  let txs ← jsonMember "txs" (unmarshalSlice unmarshalHexBytes) [] members
  some { blockNumber := blockNumber, seq := seq, isLast := isLast, txs := txs }

/-- A seal is decoded by the tags of its fields.
SRCLINE: eth/types.go:291-302 -/
def Seal.unmarshalJSON (data : Json) : Option Seal := do
  let members ← structMembers data
  let totalFrags ← jsonMember "totalFrags" unmarshalUint64 0 members
  let blockNumber ← jsonMember "blockNumber" unmarshalUint64 0 members
  let gasUsed ← jsonMember "gasUsed" unmarshalUint64 0 members
  let gasLimit ← jsonMember "gasLimit" unmarshalUint64 0 members
  let parentHash ← jsonMember "parentHash" unmarshalHash 0 members
  let transactionsRoot ← jsonMember "transactionsRoot" unmarshalHash 0 members
  let receiptsRoot ← jsonMember "receiptsRoot" unmarshalHash 0 members
  let stateRoot ← jsonMember "stateRoot" unmarshalHash 0 members
  let blockHash ← jsonMember "blockHash" unmarshalHash 0 members
  some
    { totalFrags := totalFrags
      blockNumber := blockNumber
      gasUsed := gasUsed
      gasLimit := gasLimit
      parentHash := parentHash
      transactionsRoot := transactionsRoot
      receiptsRoot := receiptsRoot
      stateRoot := stateRoot
      blockHash := blockHash }

/-- SRCLINE: eth/types.go:323-353 -/
def Env.unmarshalJSON (data : Json) : Option Env := do
  let members ← structMembers data
  let number ← jsonMember "number" unmarshalUint64 0 members
  let parentHash ← jsonMember "parentHash" unmarshalHash 0 members
  let beneficiary ← jsonMember "beneficiary" unmarshalAddress 0 members
  let timestamp ← jsonMember "timestamp" unmarshalUint64 0 members
  let gasLimit ← jsonMember "gasLimit" unmarshalUint64 0 members
  let basefee ← jsonMember "basefee" unmarshalUint64 0 members
  let difficulty ← jsonMember "difficulty" unmarshalU256 none members
  let prevrandao ← jsonMember "prevrandao" unmarshalHash 0 members
  let extraData ← jsonMember "extraData" unmarshalHexBytes [] members
  let parentBeaconBlockRoot ← jsonMember "parentBeaconBlockRoot" unmarshalHash 0 members
  some
    { number := number
      parentHash := parentHash
      beneficiary := beneficiary
      timestamp := timestamp
      gasLimit := gasLimit
      basefee := basefee
      difficulty := difficulty
      prevrandao := prevrandao
      extraData := extraData
      parentBeaconBlockRoot := parentBeaconBlockRoot }

/-- The two members of a signed message.
SRCLINE: eth/types.go:231-234, 286-289, 304-307 -/
def unmarshalSignedJSON {α : Type} (unmarshal : Json → Option α) (zero : α) (data : Json) :
    Option (Bytes65 × α) := do
  let members ← structMembers data
  let signature ← jsonMember "signature" unmarshalBytes65 0 members
  let message ← jsonMember "message" unmarshal zero members
  some (signature, message)

/-- The argument of a method of the based API.
SRCLINE: op-node/node/api.go:230, 256, 282 -/
def unmarshalArgument (method : List Char) (data : Json) : Option Message :=
  if method = "based_newFrag".toList then
    (unmarshalSignedJSON NewFrag.unmarshalJSON NewFrag.zero data).map fun (signature, frag) =>
      .newFrag ⟨signature, frag⟩
  else if method = "based_sealFrag".toList then
    (unmarshalSignedJSON Seal.unmarshalJSON Seal.zero data).map fun (signature, sl) =>
      .sealFrag ⟨signature, sl⟩
  else if method = "based_env".toList then
    (unmarshalSignedJSON Env.unmarshalJSON Env.zero data).map fun (signature, env) =>
      .env ⟨signature, env⟩
  else none

/-- No id makes a notification, which is handled as well; an object or an array is no id.
SRCLINE: rpc/json.go:73-95 -/
def validId (members : List (String × Json)) : Bool :=
  match members.lookup "id" with
  | some (.obj _) => false
  | some (.arr _) => false
  | _ => true

/-- The message that a single request hands to the based API, if its text is compact, with each
member once and under its own name, and its numbers have neither sign nor fraction.
SRCLINE: rpc/json.go:64-95, 311-357, rpc/handler.go:464-515 -/
def parseRequest (text : List Char) : Option Message := do
  let members ← jsonMembers text
  let version ← jsonMember "jsonrpc" unmarshalString [] members
  let method ← jsonMember "method" unmarshalString [] members
  if version = "2.0".toList ∧ validId members then
    match members.lookup "params" with
    | some (.arr [argument]) => unmarshalArgument method argument
    | _ => none
  else none

/-! ## The based API -/

/-- SRCLINE: gossip.go:83-93 -/
inductive Topic where
  | newFragV0
  | sealFragV0
  | envV0
deriving DecidableEq

def Message.topic : Message → Topic
  | .newFrag _ => .newFragV0
  | .sealFrag _ => .sealFragV0
  | .env _ => .envV0

section

variable [Ssz.Library] (crypto : GossipCrypto)

/-- SRCLINE: op-node/node/api.go:205-228 -/
def verifySignature (signature : Bytes65) (message : Bytes) (expectedSigner : Address) :
    Option Bytes65 := verifyGatewaySignature crypto signature message expectedSigner

/-- The methods of the API differ in the message only. The recovery byte is changed in the
argument itself, so it is published as it was left.
SRCLINE: op-node/node/api.go:230-254 -/
def basedCall {α : Type} (root : α → Bytes) (number : α → UInt64) (marshalSSZ : α → Bytes)
    (registrySource : RegistryClient) (signature : Bytes65) (message : α) : Except String Bytes :=
  match registrySource.gatewayForBlock (number message) with
  | .error err => .error ("failed to get expected signer: " ++ err)
  | .ok expectedSigner =>
    match verifySignature crypto signature (root message) expectedSigner with
    | none => .error "signature validation failed"
    | some signature => .ok (marshalSigned signature (marshalSSZ message))

/-- The payload that is published for a message.
SRCLINE: op-node/node/api.go:230-306, gossip.go:776-795 -/
def basedAPI (registrySource : RegistryClient) : Message → Except String Bytes
  | .newFrag m => basedCall crypto (NewFrag.root crypto.sha256) NewFrag.blockNumber
      NewFrag.marshalSSZ registrySource m.signature m.frag
  | .sealFrag m => basedCall crypto (Seal.root crypto.sha256) Seal.blockNumber
      Seal.marshalSSZ registrySource m.signature m.sealData
  | .env m => basedCall crypto (Env.root crypto.sha256) Env.number
      Env.marshalSSZ registrySource m.signature m.env

/-! ## Gossip -/

/-- The validator of a topic.
SRCLINE: gossip.go:285-364, node/runtime_config.go:93-100 -/
def topicValidator (registrySource : RegistryClient) (topic : Topic) (data : Bytes) :
    Option Message :=
  let gatewayForBlock := fun number => (registrySource.gatewayForBlock number).toOption
  match topic with
  | .newFragV0 => (newFragValidator crypto gatewayForBlock data).map fun (signature, frag) =>
      .newFrag ⟨signature, frag⟩
  | .sealFragV0 => (sealFragValidator crypto gatewayForBlock data).map fun (signature, sl) =>
      .sealFrag ⟨signature, sl⟩
  | .envV0 => (envValidator crypto gatewayForBlock data).map fun (signature, env) =>
      .env ⟨signature, env⟩

/-! ## A node -/

/-- `subscribed` has the messages of each topic that were accepted and not yet received, oldest
first; `published` has what the node itself has sent to the topics.
SRCLINE: op-node/node/node.go:45-69 -/
structure BasedNode where
  registrySource : RegistryClient
  published : List (Topic × Bytes)
  subscribed : Topic → List Message
  preconf : PreconfState

def BasedNode.new : BasedNode where
  registrySource := RegistryClient.new
  published := []
  subscribed := fun _ => []
  preconf := newPreconfState

/-- What can happen to a node. The answers of the registry to the requests of one attempt, and
the cleanup after it, change the cache under a lock of their own each. -/
inductive Input where
  | request (text : List Char)
  | payload (topic : Topic) (data : Bytes)
  | receive (topic : Topic)
  | answers (moments : ℕ → Moment) (n : UInt64)
  | cleanup
  | l2Block (block : L2BlockRef)

namespace BasedNode

variable (decode : List Char → List Message)

/-- A call that is refused changes nothing. -/
def onCall (node : BasedNode) (message : Message) : BasedNode :=
  match basedAPI crypto node.registrySource message with
  | .error _ => node
  | .ok data => { node with published := node.published ++ [(message.topic, data)] }

/-- The calls of a request, of which a batch has several, are answered one after the other.
SRCLINE: rpc/handler.go:171-251 -/
def onRequest (node : BasedNode) (text : List Char) : BasedNode :=
  (decode text).foldl (onCall crypto) node

def onPayload (node : BasedNode) (topic : Topic) (data : Bytes) : BasedNode :=
  match topicValidator crypto node.registrySource topic data with
  | none => node
  | some message =>
    { node with
      subscribed := Function.update node.subscribed topic (node.subscribed topic ++ [message]) }

/-- The next message of a topic is handed to the preconfirmation handler.
SRCLINE: gossip.go:1064-1082, op-node/node/node.go:698-747 -/
def onReceive (node : BasedNode) (topic : Topic) : BasedNode :=
  match node.subscribed topic with
  | [] => node
  | message :: rest =>
    { node with
      subscribed := Function.update node.subscribed topic rest
      preconf := handle node.preconf (.message message) }

/-- The requests of an attempt and what is stored of them.
SRCLINE: registry_client.go:100-121 -/
def onAnswers (node : BasedNode) (moments : ℕ → Moment) (n : UInt64) : BasedNode :=
  match RegistryClient.requestGateways moments 0 0 (n.toNat + 1) with
  | .error _ => node
  | .ok gateways =>
    { node with registrySource := node.registrySource.updateGatewayInfo gateways }

def step (node : BasedNode) : Input → BasedNode
  | .request text => node.onRequest crypto decode text
  | .payload topic data => node.onPayload crypto topic data
  | .receive topic => node.onReceive topic
  | .answers moments n => node.onAnswers moments n
  | .cleanup => { node with registrySource := node.registrySource.cleanupOldGateways 100 50 }
  | .l2Block block => { node with preconf := handle node.preconf (.l2Block block) }

end BasedNode

end

end OpNode

end BasedOp.Model
