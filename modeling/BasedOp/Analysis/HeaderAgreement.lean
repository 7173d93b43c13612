import BasedOp.Analysis.UnsealedInvariant
import BasedOp.Analysis.GossipStream

/-!
# The gateway and its follower build the same header

The gateway seals a block from its block environment and its sequence of frags
(`seal_block`); a follower builds a header from the environment and the frags that it was
sent (`SealBlock`). Both fill in the same twenty-one fields. What the executions of the
two sides agree on is assumed: the same transactions on the same parent give the same
state root, receipts root, bloom and gas. That the transactions and the parent are the
same is proved, from the stream that the gateway sends and the calls that the follower
accepts.
-/

set_option autoImplicit false

namespace BasedOp.Analysis.HeaderAgreement

open BasedOp.Computation Model Model.Gateway
open SequencerSteps SequencerFrames
open GossipStream

/-! ## The messages as the follower receives them -/

/-- SRCLINE: src/p2p.rs:42-57, unsealed_block.go:154-165 -/
def toGethEnv (env : EnvV0) : OpGeth.Env where
  number := env.number
  parentHash := env.parentHash
  beneficiary := env.beneficiary
  timestamp := env.timestamp
  gasLimit := env.gasLimit
  basefee := env.basefee
  difficulty := some env.difficulty
  prevrandao := env.prevrandao
  extraData := env.extraData
  parentBeaconBlockRoot := env.parentBeaconBlockRoot

/-- A frag is received when all its transactions are decoded.
SRCLINE: src/p2p.rs:81-95, unsealed_block.go:96-146 -/
def toGethFrag (decode : Bytes → Option OpGeth.Transaction) (frag : FragV0) : Option OpGeth.Frag :=
  (frag.txs.mapM decode).map fun txs =>
    { blockNumber := frag.blockNumber, seq := frag.seq, isLast := frag.isLast, txs := txs }

/-- SRCLINE: src/p2p.rs:109-125, engine/types.go:501-512 -/
def toGethSeal (sl : SealV0) : OpGeth.Seal where
  totalFrags := sl.totalFrags
  blockNumber := sl.blockNumber
  gasUsed := sl.gasUsed
  gasLimit := sl.gasLimit
  parentHash := sl.parentHash
  transactionsRoot := sl.transactionsRoot
  receiptsRoot := sl.receiptsRoot
  stateRoot := sl.stateRoot
  blockHash := sl.blockHash

/-- The header of one side as the other side writes it, field by field. -/
def toGethHeader (h : Header) : OpGeth.Header where
  parentHash := h.parentHash
  uncleHash := h.ommersHash
  coinbase := h.beneficiary
  root := h.stateRoot
  txHash := h.transactionsRoot
  receiptHash := h.receiptsRoot
  bloom := h.logsBloom
  difficulty := h.difficulty.toNat
  number := h.number.toNat
  gasLimit := h.gasLimit
  gasUsed := h.gasUsed
  time := h.timestamp
  extra := h.extraData
  mixDigest := h.mixHash
  nonce := UInt64.ofBitVec h.nonce
  baseFee := h.baseFeePerGas.map UInt64.toNat
  withdrawalsHash := h.withdrawalsRoot
  blobGasUsed := h.blobGasUsed
  excessBlobGas := h.excessBlobGas
  parentBeaconRoot := h.parentBeaconBlockRoot
  requestsHash := h.requestsHash

/-! ## The group that is being sent -/

/-- What a peer knows of the block that is being sent, after one more message. -/
def track (known : Option (EnvV0 × List FragV0)) : VersionedMessage → Option (EnvV0 × List FragV0)
  | .envV0 env => some (env, [])
  | .fragV0 frag => known.map fun (env, frags) => (env, frags ++ [frag])
  | .sealV0 _ => none

/-- The environment and the frags of the block that is being sent. -/
def openGroup (msgs : List VersionedMessage) : Option (EnvV0 × List FragV0) := msgs.foldl track none

/-- Frags are collected after their env. -/
theorem foldl_track_frags (env : EnvV0) (sent frags : List FragV0) :
    (frags.map VersionedMessage.fragV0).foldl track (some (env, sent)) =
      some (env, sent ++ frags) := by
  induction frags generalizing sent with
  | nil => simp
  | cons frag frags ih => simp [track, ih]

/-- The last env opens the group. -/
theorem openGroup_append (earlier : List VersionedMessage) (env : EnvV0) (frags : List FragV0) :
    openGroup (earlier ++ .envV0 env :: frags.map .fragV0) = some (env, frags) := by
  rw [openGroup, List.foldl_append, List.foldl_cons]
  exact foldl_track_frags env [] frags

variable {calls : List OpGeth.SignedNewFrag} {e : OpGeth.SignedEnv} {ub : OpGeth.UnsealedBlock}

/-! ## The follower -/

section

variable (vm : OpGeth.VM) (config : OpGeth.ChainConfig) (node : OpGeth.Node)

/-- A call that the follower answers with success. -/
def accept (bc : OpGeth.BlockChain) (c : OpGeth.Call) : Option OpGeth.BlockChain :=
  match OpGeth.serve vm config node bc c with
  | some (bc', .ok ()) => some bc'
  | _ => none

variable {vm config node} {bc bc' : OpGeth.BlockChain}

/-- An accepted call was served. -/
theorem served_of_accept {c : OpGeth.Call} (h : accept vm config node bc c = some bc') :
    ChainChanges.Served vm config bc c bc' (.ok ()) := by
  unfold accept at h
  split at h
  · rename_i bc₁ hserve
    obtain rfl := Option.some.inj h
    exact ChainChanges.served_of_serve hserve
  · cases h

/-- An open block of the follower, with its environment and its frags. -/
def Holds (bc : OpGeth.BlockChain) (env : OpGeth.Env) (frags : List OpGeth.Frag) : Prop :=
  ∃ ub statedb, bc.currentUnsealedBlock = some ub ∧ bc.unsealedBlockDbState = some statedb ∧
    ub.env = env ∧ ub.frags = frags ∧ frags.length ≤ OpGeth.maxInt

/-- An env opens an empty block. -/
theorem holds_of_env (h : accept vm config node bc (.env e) = some bc') : Holds bc' e.env [] := by
  cases served_of_accept h with
  | opened => exact ⟨_, _, rfl, rfl, rfl, rfl, Nat.zero_le _⟩

/-- A frag is appended. -/
theorem holds_of_newFrag {f : OpGeth.SignedNewFrag} {env : OpGeth.Env} {frags : List OpGeth.Frag}
    (hholds : Holds bc env frags) (h : accept vm config node bc (.newFrag f) = some bc') :
    Holds bc' env (frags ++ [f.frag]) := by
  obtain ⟨ub, statedb, hub, hs, rfl, rfl, -⟩ := hholds
  have hextend {ub₁ ub' : OpGeth.UnsealedBlock} {s s' : OpGeth.StateDB} {res : OpGeth.ProcessResult}
      (hub₁ : bc.currentUnsealedBlock = some ub₁)
      (hacc : ChainChanges.Accepts vm config f.frag ub₁ s res ub' s') :
      ub'.env = ub.env ∧ ub'.frags = ub.frags ++ [f.frag] ∧
        (ub.frags ++ [f.frag]).length ≤ OpGeth.maxInt := by
    obtain rfl : ub₁ = ub := Option.some.inj (hub₁.symm.trans hub)
    obtain ⟨hlength, hub'⟩ := UnsealedInvariant.extend_eq_some_iff.mp hacc.extended
    refine ⟨UnsealedInvariant.env_eq_of_accepts hacc, by rw [hub'], ?_⟩
    rwa [List.length_append, List.length_singleton]
  cases served_of_accept h with
  | accepted hub₁ hs₁ hacc =>
    obtain ⟨henv, hfrags, hlength⟩ := hextend hub₁ hacc
    exact ⟨_, _, rfl, rfl, henv, hfrags, hlength⟩
  | acceptedLast hub₁ hs₁ hacc hlast hchange =>
    obtain ⟨henv, hfrags, hlength⟩ := hextend hub₁ hacc
    exact ⟨_, _, hchange.unsealed.1, hchange.unsealed.2, henv, hfrags, hlength⟩

/-- Several frags are appended. -/
theorem holds_of_frags {env : OpGeth.Env} {sent : List OpGeth.Frag} (hholds : Holds bc env sent)
    (h : runSteps (accept vm config node) bc (calls.map .newFrag) = some bc') :
    Holds bc' env (sent ++ calls.map OpGeth.SignedNewFrag.frag) := by
  induction calls generalizing bc sent with
  | nil =>
    obtain rfl := Option.some.inj h
    simpa using hholds
  | cons f calls ih =>
    obtain ⟨bc₁, hfrag, hrest⟩ := runSteps_cons_eq_some.mp h
    simpa using ih (holds_of_newFrag hholds hfrag) hrest

/-- A follower that accepts an environment and frags holds the block of them. -/
theorem holds_of_run
    (h : runSteps (accept vm config node) bc (.env e :: calls.map .newFrag) = some bc') :
    Holds bc' e.env (calls.map OpGeth.SignedNewFrag.frag) := by
  obtain ⟨bc₁, henv, hrest⟩ := runSteps_cons_eq_some.mp h
  exact holds_of_frags (holds_of_env henv) hrest

end

/-! ## The transactions -/

section

variable {decode : Bytes → Option OpGeth.Transaction} {marshal : OpGeth.Transaction → Bytes}

/-- The encodings are canonical: what is decoded from one of them has it as its encoding. -/
def Canonical (decode : Bytes → Option OpGeth.Transaction) (marshal : OpGeth.Transaction → Bytes)
    (encodings : List Bytes) : Prop :=
  ∀ bytes ∈ encodings, ∀ tx, decode bytes = some tx → marshal tx = bytes

/-- Canonical encodings are marshalled back. -/
theorem map_marshal_of_mapM {encodings : List Bytes} {txs : List OpGeth.Transaction}
    (hcanonical : Canonical decode marshal encodings) (h : encodings.mapM decode = some txs) :
    txs.map marshal = encodings := by
  induction encodings generalizing txs with
  | nil =>
    obtain rfl : txs = [] := by simpa using h.symm
    rfl
  | cons bytes encodings ih =>
    rw [List.mapM_cons] at h
    obtain ⟨tx, htx, rest⟩ := Option.bind_eq_some_iff.mp h
    obtain ⟨txs', htxs', heq⟩ := Option.bind_eq_some_iff.mp rest
    obtain rfl := Option.some.inj heq
    have hhead := hcanonical bytes (List.mem_cons_self ..) tx htx
    have htail := ih (fun b hb => hcanonical b (List.mem_cons_of_mem _ hb)) htxs'
    rw [List.map_cons, hhead, htail]

/-- The transactions of the frags that were received, encoded again, are those
of the frags that were sent. -/
theorem map_marshal_of_received {frags : List FragV0}
    (hcanonical : Canonical decode marshal (frags.flatMap FragV0.txs))
    (hreceived : List.Forall₂ (fun frag call => toGethFrag decode frag = some call.frag)
      frags calls) :
    ((calls.map OpGeth.SignedNewFrag.frag).flatMap OpGeth.Frag.txs).map marshal =
      frags.flatMap FragV0.txs := by
  induction hreceived with
  | nil => rfl
  | @cons frag call frags calls hfrag _ ih =>
    obtain ⟨txs, htxs, heq⟩ := Option.map_eq_some_iff.mp hfrag
    rw [List.flatMap_cons] at hcanonical
    have hhead : txs.map marshal = frag.txs :=
      map_marshal_of_mapM (fun b hb => hcanonical b (List.mem_append_left _ hb)) htxs
    have htail := ih fun b hb => hcanonical b (List.mem_append_right _ hb)
    rw [List.map_cons, List.flatMap_cons, List.map_append, htail, ← heq, hhead, List.flatMap_cons]

end

/-! ## The two headers -/

section

variable {S : Type} (crates : Crates S) (vm : OpGeth.VM) (config : OpGeth.ChainConfig)

/-- What the hash functions of the two sides have in common: a header has one hash, and
the root of transactions is that of their encodings. -/
structure SameHashes (marshal : OpGeth.Transaction → Bytes) : Prop where
  header : ∀ h, vm.headerHash (toGethHeader h) = crates.hashSlow h
  transactions : ∀ txs, vm.deriveShaTxs txs =
    crates.orderedTrieRootTransactions (txs.map marshal)

/-- The execution of the follower has the results that a header states. -/
structure SameResults (ub : OpGeth.UnsealedBlock) (statedb : OpGeth.StateDB) (h : Header) :
    Prop where
  stateRoot : vm.intermediateRoot (config.isEIP158 ub.env.number.toNat) statedb.accounts =
    h.stateRoot
  receiptsRoot : vm.deriveShaReceipts ub.receipts = h.receiptsRoot
  logsBloom : OpGeth.createBloom vm ub.receipts = h.logsBloom
  gasUsed : ub.cumulativeGasUsed = h.gasUsed

variable {crates vm config}

/-- The two headers, field by field. -/
theorem header_sealedBlock {marshal : OpGeth.Transaction → Bytes}
    (hhashes : SameHashes crates vm marshal) {ctx : SequencerContext S} {seq : FragSequence}
    {extraData : Bytes} {root : Hash} {statedb : OpGeth.StateDB}
    (henv : ub.env = toGethEnv (.new ctx.blockEnv ctx.parentHash extraData root))
    (hroot : ctx.payloadAttributes.parentBeaconBlockRoot = some root)
    (hdifficulty : ctx.blockEnv.difficulty = 0) (hextra : extraData.length ≤ maxExtraDataSize)
    (htxs : ub.transactions.map marshal = seq.txs.map fun t => t.tx.encode)
    (hresults : SameResults vm config ub statedb (headerOf crates ctx seq extraData)) :
    (OpGeth.sealedBlock vm config ub statedb).header =
      toGethHeader (headerOf crates ctx seq extraData) := by
  have hextra' : variableList maxExtraDataSize extraData = extraData :=
    List.take_of_length_le hextra
  have htxHash : vm.deriveShaTxs ub.transactions =
      (headerOf crates ctx seq extraData).transactionsRoot := by
    rw [hhashes.transactions, htxs]
    rfl
  simp only [OpGeth.sealedBlock, hresults.stateRoot, hresults.receiptsRoot, hresults.logsBloom,
    hresults.gasUsed, htxHash]
  simp only [henv, toGethHeader, toGethEnv, EnvV0.new, hextra', headerOf,
    SequencerContext.sealedHeader, hdifficulty, hroot]
  rfl

/-- A seal passes when the header that was built is the one that it names. -/
theorem validateSealFragV0_eq_none {bc : OpGeth.BlockChain} {block : OpGeth.Block}
    {s : OpGeth.SignedSeal} (hub : bc.currentUnsealedBlock = some ub)
    (hhash : vm.headerHash block.header = s.sealData.blockHash)
    (hparent : block.header.parentHash = s.sealData.parentHash)
    (hstate : block.header.root = s.sealData.stateRoot)
    (htxs : block.header.txHash = s.sealData.transactionsRoot)
    (hreceipts : block.header.receiptHash = s.sealData.receiptsRoot)
    (hused : block.header.gasUsed = s.sealData.gasUsed)
    (hlimit : block.header.gasLimit = s.sealData.gasLimit)
    (hfrags : (ub.frags.length : ℤ) = OpGeth.toInt s.sealData.totalFrags) :
    OpGeth.validateSealFragV0 vm bc block s = none := by
  simp [OpGeth.validateSealFragV0, hub, hhash, hparent, hstate, htxs, hreceipts, hused, hlimit,
    hfrags]

/-- Small numbers stay. -/
theorem toInt_ofNat {n : ℕ} (h : n ≤ OpGeth.maxInt) : OpGeth.toInt (UInt64.ofNat n) = n := by
  unfold OpGeth.maxInt at h
  unfold OpGeth.toInt
  rw [BitVec.toInt_eq_toNat_cond]
  simp only [UInt64.toNat_toBitVec, UInt64.toNat_ofNat']
  omega

/-- The gateway and a follower build the same header. Whenever the gateway seals a block, a follower
that accepts the environment and all the frags of the block, the last of which is the one that is
sent with the seal, has pre-sealed the block with the header of the gateway; so the hash of that
block is the one of the seal, and the seal passes. Assumed are the limits of the lists of the
messages, that headers and lists of encodings are hashed alike, canonical encodings, and that the
follower has the results of the gateway if it executes the same transactions on the same parent.
SRCLINE: sequencer/src/context.rs:229-313, src/p2p.rs:59-107, engine/types.go:423-463,
catalyst/api.go:1341-1559 -/
theorem header_agrees {seqConfig : SequencerConfig} {db : SequencerDB S} {events : List Event}
    {p : Process S} {s : Sequencer S} {now : ℕ} {seq seq' : FragSequence} {data : SortingData}
    {frag : FragV0} {sl : SealV0} {envelope : OpExecutionPayloadEnvelope}
    {ctx ctx' : SequencerContext S} {extraData : Bytes}
    -- the gateway seals a block after a run
    (hfits : Along (processStep crates) (fun p _ => FragFits p)
      ⟨some (.new crates seqConfig db), []⟩ events)
    (hrun : runSteps (processStep crates) ⟨some (.new crates seqConfig db), []⟩ events = some p)
    (hs : p.sequencer = some s) (hstate : s.state = .sorting seq data) (hfitsLast : FragFits p)
    (hlast : s.ctx.sealLastFrag crates data seq now = some (frag, seq', ctx))
    (hsealed : ctx.sealBlock crates seq' = some (sl, envelope, ctx'))
    (hextra : ctx.extraData crates = some extraData) (hlength : extraData.length ≤ maxExtraDataSize)
    -- a follower receives what was sent of the block, and accepts it
    {env : EnvV0} {frags : List FragV0} (hgroup : openGroup (messages p.sent) = some (env, frags))
    {node : OpGeth.Node} {bc bc' : OpGeth.BlockChain} {signature : Bytes65}
    {calls : List OpGeth.SignedNewFrag} {decode : Bytes → Option OpGeth.Transaction}
    {marshal : OpGeth.Transaction → Bytes}
    (hreceived : List.Forall₂ (fun frag call => toGethFrag decode frag = some call.frag)
      (frags ++ [frag]) calls)
    (haccepted : runSteps (accept vm config node) bc
      (.env ⟨signature, toGethEnv env⟩ :: calls.map .newFrag) = some bc')
    -- what the two sides have in common
    (hhashes : SameHashes crates vm marshal)
    (hcanonical : Canonical decode marshal envelope.executionPayload.transactions)
    (hresults : ∀ ub statedb, bc'.currentUnsealedBlock = some ub →
      bc'.unsealedBlockDbState = some statedb → ub.env.parentHash = ctx.parentHash →
      ub.transactions.map marshal = envelope.executionPayload.transactions →
      SameResults vm config ub statedb (headerOf crates ctx seq' extraData)) :
    ∃ ub statedb, bc'.currentUnsealedBlock = some ub ∧ bc'.unsealedBlockDbState = some statedb ∧
      (OpGeth.sealedBlock vm config ub statedb).header =
        toGethHeader (headerOf crates ctx seq' extraData) ∧
      vm.headerHash (OpGeth.sealedBlock vm config ub statedb).header = sl.blockHash ∧
      ∀ signature, OpGeth.validateSealFragV0 vm bc' (OpGeth.sealedBlock vm config ub statedb)
        ⟨signature, toGethSeal sl⟩ = none := by
  obtain ⟨groups, unfinished, hmessages, -, -, -, hopen⟩ := stream_of_run hfits hrun
  obtain ⟨env₁, frags₁, rfl, hblock⟩ := (open_sorting hstate).mp (hopen s hs)
  obtain ⟨rfl, rfl⟩ : env₁ = env ∧ frags₁ = frags := by
    rw [hmessages, openGroup_append] at hgroup
    exact Prod.mk.inj (Option.some.inj hgroup)
  obtain ⟨msg, data', rfl, hcut⟩ := cuts_of_sealLastFrag hlast
  have hdata := hfitsLast s hs
  rw [hstate] at hdata
  have hclosed := hblock.cut hcut hdata.1 hdata.2
  have hfrom := sealedFrom_of_sealBlock hsealed
  -- the follower holds the block of the gateway
  obtain ⟨ub, statedb, hub, hstatedb, henv, hubFrags, hmax⟩ := holds_of_run haccepted
  have hfragTxs : (frags₁ ++ [{ msg with isLast := true }]).flatMap FragV0.txs =
      envelope.executionPayload.transactions := by
    have hopenTxs := hclosed.txs
    simp only [List.flatMap_append, List.flatMap_singleton] at hopenTxs ⊢
    rw [hopenTxs, hfrom.transactions]
  have htxs : ub.transactions.map marshal = envelope.executionPayload.transactions := by
    rw [OpGeth.UnsealedBlock.transactions, hubFrags, ← hfragTxs]
    apply map_marshal_of_received _ hreceived
    rw [hfragTxs]
    exact hcanonical
  obtain ⟨extraData₁, root, hextra₁, hroot, henv₁⟩ := hclosed.env_eq
  obtain rfl : extraData₁ = extraData := Option.some.inj (hextra₁.symm.trans hextra)
  have hubEnv : ub.env = toGethEnv (.new ctx.blockEnv ctx.parentHash extraData₁ root) := by
    rw [henv, henv₁]
  have hsame := hresults ub statedb hub hstatedb (by rw [hubEnv]; rfl) htxs
  have hheader := header_sealedBlock hhashes hubEnv hroot hclosed.difficulty hlength
    (htxs.trans hfrom.transactions) hsame
  -- the seal names that header
  obtain ⟨extraData₂, root₂, hextra₂, -, hsealTxs, hsealReceipts, hsealState, hsealHash⟩ :=
    hfrom.header
  obtain rfl : extraData₂ = extraData₁ := Option.some.inj (hextra₂.symm.trans hextra)
  have hhash : vm.headerHash (OpGeth.sealedBlock vm config ub statedb).header = sl.blockHash := by
    rw [hheader, hhashes.header, hsealHash]
  have hcount : (ub.frags.length : ℤ) = OpGeth.toInt sl.totalFrags := by
    have hlengths : ub.frags.length = frags₁.length + 1 := by
      rw [hubFrags, List.length_map, ← hreceived.length_eq, List.length_append,
        List.length_singleton]
    have htotal : sl.totalFrags = UInt64.ofNat ub.frags.length := by
      rw [hfrom.totalFrags, hclosed.nextSeq, hlengths, List.length_append, List.length_singleton]
    rw [htotal, toInt_ofNat (by rw [hubFrags]; exact hmax)]
  refine ⟨ub, statedb, hub, hstatedb, hheader, hhash, fun signature => ?_⟩
  refine validateSealFragV0_eq_none hub hhash ?_ ?_ ?_ ?_ ?_ ?_ hcount <;> rw [hheader]
  · exact hfrom.parentHash.symm
  · exact hsealState.symm
  · exact hsealTxs.symm
  · exact hsealReceipts.symm
  · exact hfrom.gasUsed.symm
  · exact hfrom.gasLimit.symm

end

/-! ## A block of the two sides -/

/-- Crates that hash as the follower does, and whose executions have its results: the
state root counts the blocks, and the root of receipts is the gas they add up to. -/
def followedCrates : Crates ℕ :=
  { plainCrates with
    hashSlow := fun h => OpGeth.plainVM.headerHash (toGethHeader h)
    orderedTrieRootTransactions := fun encodings =>
      encodings.foldl (fun h bytes => h * 31 + BitVec.ofNat 256 bytes.length) 0
    orderedTrieRootReceipts := fun receipts => BitVec.ofNat 256
      (receipts.foldl (fun _ r => r.receipt.cumulativeGasUsed.toNat) 0)
    calculateStateRoot := fun blocks _ => BitVec.ofNat 256 blocks }

/-- The block that the gateway builds on. -/
def followedParent : Header :=
  { plainBlockHeader (plainPayload 0 5 3 []) 0 with withdrawalsRoot := none }

/-- The chain of a follower that knows this block. -/
def followerChain : OpGeth.BlockChain :=
  let header := toGethHeader followedParent
  let hash := OpGeth.plainVM.headerHash header
  { OpGeth.genesisChain OpGeth.plainVM with
    headerNumbers := AList.insert hash 0 ∅
    blocks := AList.insert (hash, 0) { OpGeth.genesisBlock with header := header } ∅
    currentBlock := header }

/-- A transaction is encoded by its nonce, in unary. -/
def unaryMarshal (tx : OpGeth.Transaction) : Bytes := List.replicate (tx.nonce.toNat + 1) 0

def unaryDecode (bytes : Bytes) : Option OpGeth.Transaction :=
  if bytes = [0] then some (OpGeth.plainTx 0 50000) else none

/-- The example hashes agree. -/
theorem sameHashes_followed : SameHashes followedCrates OpGeth.plainVM unaryMarshal where
  header _ := rfl
  transactions txs := by
    simp only [followedCrates, OpGeth.plainVM, List.foldl_map, unaryMarshal, List.length_replicate]

/-- A gateway that has imported the block and builds one with a forced transaction. -/
def followedProcess : Process ℕ where
  sequencer := some (.new followedCrates (plainSequencerConfig false) ⟨[], 0⟩)
  sent := []

def followedEvents : List Event :=
  [.blockSync { header := followedParent, transactions := [], senders := [] },
    startEvent (OpGeth.plainVM.headerHash (toGethHeader followedParent))
      (plainAttributes 4 [[0]] true)]

def followedEnv : EnvV0 where
  number := 1
  parentHash := OpGeth.plainVM.headerHash (toGethHeader followedParent)
  beneficiary := 0
  timestamp := 4
  gasLimit := 30000000
  basefee := 1
  difficulty := 0
  prevrandao := 0
  extraData := []
  parentBeaconBlockRoot := 0

def followedFrag : FragV0 := { blockNumber := 1, seq := 0, isLast := true, txs := [[0]] }

def followedCalls : List OpGeth.SignedNewFrag := [OpGeth.plainFrag 1 0 true [OpGeth.plainTx 0 50000]]

/-- What an execution gives a header. -/
structure Results where
  stateRoot : Hash
  receiptsRoot : Hash
  logsBloom : Bloom
  gasUsed : UInt64
deriving DecidableEq

def gatewayResults (h : Header) : Results := ⟨h.stateRoot, h.receiptsRoot, h.logsBloom, h.gasUsed⟩

/-- A block that the gateway seals: what was sent of it, its last frag, its transactions
and its results. -/
structure SealedView where
  group : Option (EnvV0 × List FragV0)
  frag : FragV0
  transactions : List Bytes
  results : Results
deriving DecidableEq

def followedSeal : Option SealedView :=
  (runSteps (processStep followedCrates) followedProcess followedEvents).bind fun p =>
    p.sequencer.bind fun s =>
      match s.state with
      | .sorting seq data =>
        (s.ctx.sealLastFrag followedCrates data seq 1).bind fun (frag, seq', ctx) =>
          (ctx.sealBlock followedCrates seq').map fun (_, envelope, _) =>
            { group := openGroup (messages p.sent)
              frag := frag
              transactions := envelope.executionPayload.transactions
              results := gatewayResults (headerOf followedCrates ctx seq' []) }
      | _ => none

/-- The results of the follower. -/
def followerResults (bc : OpGeth.BlockChain) : Option Results :=
  bc.currentUnsealedBlock.bind fun ub => bc.unsealedBlockDbState.map fun statedb =>
    { stateRoot := OpGeth.plainVM.intermediateRoot
        (OpGeth.plainConfig.isEIP158 ub.env.number.toNat) statedb.accounts
      receiptsRoot := OpGeth.plainVM.deriveShaReceipts ub.receipts
      logsBloom := OpGeth.createBloom OpGeth.plainVM ub.receipts
      gasUsed := ub.cumulativeGasUsed }

/-- The example encoding is canonical. -/
theorem canonical_unary : Canonical unaryDecode unaryMarshal [[0]] := by
  intro bytes hbytes tx htx
  obtain rfl := List.mem_singleton.mp hbytes
  obtain rfl := Option.some.inj htx
  rfl

/-- A block of one transaction, followed to its seal. -/
theorem header_agrees_followed :
    ∃ p s seq data frag seq' ctx sl envelope ctx' bc' ub statedb,
      runSteps (processStep followedCrates) followedProcess followedEvents = some p ∧
      p.sequencer = some s ∧ s.state = .sorting seq data ∧
      s.ctx.sealLastFrag followedCrates data seq 1 = some (frag, seq', ctx) ∧
      ctx.sealBlock followedCrates seq' = some (sl, envelope, ctx') ∧
      runSteps (accept OpGeth.plainVM OpGeth.plainConfig OpGeth.plainNode) followerChain
        (.env ⟨0, toGethEnv followedEnv⟩ :: followedCalls.map .newFrag) = some bc' ∧
      bc'.currentUnsealedBlock = some ub ∧ bc'.unsealedBlockDbState = some statedb ∧
      (OpGeth.sealedBlock OpGeth.plainVM OpGeth.plainConfig ub statedb).header =
        toGethHeader (headerOf followedCrates ctx seq' []) ∧
      OpGeth.plainVM.headerHash
        (OpGeth.sealedBlock OpGeth.plainVM OpGeth.plainConfig ub statedb).header = sl.blockHash ∧
      ∀ signature, OpGeth.validateSealFragV0 OpGeth.plainVM bc'
        (OpGeth.sealedBlock OpGeth.plainVM OpGeth.plainConfig ub statedb)
        ⟨signature, toGethSeal sl⟩ = none := by
  have hseal : followedSeal =
      some ⟨some (followedEnv, []), followedFrag, [[0]], ⟨1, 21000, 0, 21000⟩⟩ := by decide +kernel
  have hfollower : (runSteps (accept OpGeth.plainVM OpGeth.plainConfig OpGeth.plainNode)
      followerChain (.env ⟨0, toGethEnv followedEnv⟩ :: followedCalls.map .newFrag)).map
        followerResults = some (some ⟨1, 21000, 0, 21000⟩) := by decide +kernel
  obtain ⟨p, hrun, hp⟩ := Option.bind_eq_some_iff.mp hseal
  obtain ⟨s, hs, hstate⟩ := Option.bind_eq_some_iff.mp hp
  split at hstate
  · rename_i seq data hsorting
    obtain ⟨⟨frag, seq', ctx⟩, hlast, hblock⟩ := Option.bind_eq_some_iff.mp hstate
    obtain ⟨⟨sl, envelope, ctx'⟩, hsealed, heq⟩ := Option.map_eq_some_iff.mp hblock
    obtain ⟨hgroup, rfl, htxs, hresults⟩ :
        openGroup (messages p.sent) = some (followedEnv, []) ∧ frag = followedFrag ∧
          envelope.executionPayload.transactions = [[0]] ∧
          gatewayResults (headerOf followedCrates ctx seq' []) = ⟨1, 21000, 0, 21000⟩ := by
      simpa only [SealedView.mk.injEq] using heq
    obtain ⟨bc', haccepted, hfollowed⟩ := Option.map_eq_some_iff.mp hfollower
    have hfits : FragFits p := by
      have : (runSteps (processStep followedCrates) followedProcess followedEvents).all
          (fun p => decide (FragFits p)) = true := by decide +kernel
      rw [hrun] at this
      simpa using this
    obtain ⟨ub, statedb, hub, hstatedb, hheader, hhash, hvalid⟩ := header_agrees
      (by decide +kernel) hrun hs hsorting hfits hlast hsealed rfl (by decide) hgroup
      (.cons rfl .nil) haccepted sameHashes_followed
      (by rw [htxs]; exact canonical_unary)
      (by
        intro ub statedb hub hstatedb _ _
        simp only [followerResults, hub, hstatedb, Option.bind_some, Option.map_some,
          Option.some.injEq, Results.mk.injEq] at hfollowed
        simp only [gatewayResults, Results.mk.injEq] at hresults
        obtain ⟨hroot, hreceipts, hbloom, hgas⟩ := hfollowed
        obtain ⟨hroot', hreceipts', hbloom', hgas'⟩ := hresults
        exact ⟨hroot.trans hroot'.symm, hreceipts.trans hreceipts'.symm,
          hbloom.trans hbloom'.symm, hgas.trans hgas'.symm⟩)
    exact ⟨p, s, seq, data, _, seq', ctx, sl, envelope, ctx', bc', ub, statedb, hrun, hs, hsorting,
      hlast, hsealed, haccepted, hub, hstatedb, hheader, hhash, hvalid⟩
  · cases hstate

end BasedOp.Analysis.HeaderAgreement
