import BasedOp.Model.ConsensusApi

/-!
# Calls and gas estimation on the latest block

`eth_call` and `eth_estimateGas` on the latest block (internal/ethapi/api.go,
internal/ethapi/transaction_args.go, eth/api_backend.go). While a block is open the
latest state is the `StateDB` of the unsealed block itself, handed out by reference:
what a request does to it, it does to the chain. The search of the gas estimator
runs on copies and is left out.
-/

set_option autoImplicit false

namespace BasedOp.Model.OpGeth

/-- Which precompile is found at an address, by its own address. -/
abbrev Precompiles := GoMap Address Address

/-- `ethapi.TransactionArgs`, up to the sidecar of a blob transaction.
SRCLINE: ethapi/transaction_args.go:45-78 -/
structure TransactionArgs where
  sender : Option Address
  recipient : Option Address
  gas : Option UInt64
  gasPrice : Option ℕ
  maxFeePerGas : Option ℕ
  maxPriorityFeePerGas : Option ℕ
  value : Option ℕ
  nonce : Option UInt64
  data : Option Bytes
  input : Option Bytes
  accessList : Option (List (Address × List Hash))
  chainID : Option ℕ
  blobFeeCap : Option ℕ
  blobHashes : Option (List Hash)

/-- `ethapi.OverrideAccount`.
SRCLINE: ethapi/api.go:1062-1069 -/
structure OverrideAccount where
  nonce : Option UInt64
  code : Option Bytes
  balance : Option ℕ
  state : Option (List (Hash × Hash))
  stateDiff : Option (List (Hash × Hash))
  movePrecompileTo : Option Address

/-- `ethapi.StateOverride`, in the order in which the map happens to be iterated. -/
abbrev StateOverride := List (Address × OverrideAccount)

/-- `ethapi.BlockOverrides`.
SRCLINE: ethapi/api.go:1146-1155 -/
structure BlockOverrides where
  number : Option ℕ
  difficulty : Option ℕ
  time : Option UInt64
  gasLimit : Option UInt64
  feeRecipient : Option Address
  prevRandao : Option Hash
  baseFeePerGas : Option ℕ
  blobBaseFee : Option ℕ

/-- A request on the latest block. -/
structure CallRequest where
  args : TransactionArgs
  overrides : StateOverride
  blockOverrides : BlockOverrides

/-- Why a request fails. -/
inductive RpcError where
  | overriddenByPrecompile (addr : Address)
  | notPrecompile (addr : Address)
  | alreadyOverridden (addr : Address)
  | stateAndStateDiff (addr : Address)
  | feeStyles
  | chainIdMismatch (got want : ℕ)
  | nilPointer
  | stateNotFound (root : Hash)
  | apply (err : TxError)
deriving DecidableEq

/-- What the rpc layer runs calls with. `evm` is the virtual machine without the check
of the base fee, on the given precompiles. -/
structure RpcBackend where
  chainID : ℕ
  rpcGasCap : UInt64
  activePrecompiles : BlockContext → Precompiles
  evm : Precompiles → VM

/-! ## Overrides -/

/-- SRCLINE: ethapi/api.go:1111-1123 -/
def OverrideAccount.writeAccount (o : OverrideAccount) (addr : Address) (A : Accounts) : Accounts :=
  let A := match o.nonce with
    | none => A
    | some nonce => A.setNonce addr nonce
  let A := match o.code with
    | none => A
    | some code => A.setCode addr code
  match o.balance with
  | none => A
  | some balance => A.set addr { A addr with balance := BitVec.ofNat 256 balance }

/-- `SetStorage` replaces the storage, `SetState` changes one slot.
SRCLINE: ethapi/api.go:1127-1136 -/
def OverrideAccount.writeStorage (o : OverrideAccount) (addr : Address) (A : Accounts) : Accounts :=
  let A := match o.state with
    | none => A
    | some slots => A.set addr
        { A addr with storage := fun key => ((slots.find? fun kv => kv.1 = key).map Prod.snd).getD 0 }
  match o.stateDiff with
  | none => A
  | some slots => slots.foldl (fun A kv => A.set addr { A addr with
      storage := fun key => if key = kv.1 then kv.2 else (A addr).storage key }) A

/-- SRCLINE: ethapi/api.go:1074-1077 -/
def StateOverride.has (diff : StateOverride) (addr : Address) : Bool :=
  diff.any fun entry => entry.1 = addr

/-- The loop of `StateOverride.Apply`; `dirty` are the addresses precompiles were moved
to. On an error the accounts stay as written so far.
SRCLINE: ethapi/api.go:1085-1137 -/
def applyOverrides (diff : StateOverride) :
    List (Address × OverrideAccount) → List Address → Precompiles → Accounts →
      Except RpcError Precompiles × Accounts
  | [], _, precompiles, A => (.ok precompiles, A)
  | (addr, account) :: rest, dirty, precompiles, A =>
    if addr ∈ dirty then (.error (.overriddenByPrecompile addr), A)
    else
      let moved : Except RpcError (Precompiles × List Address) :=
        match account.movePrecompileTo, precompiles.lookup addr with
        | none, _ => .ok (precompiles, dirty)
        | some _, none => .error (.notPrecompile addr)
        | some dst, some p =>
          if diff.has dst then .error (.alreadyOverridden dst)
          else .ok (precompiles.insert dst p, dst :: dirty)
      match moved with
      | .error err => (.error err, A)
      | .ok (precompiles', dirty) =>
        let precompiles' := if (precompiles.lookup addr).isSome then precompiles'.erase addr
          else precompiles'
        let A := account.writeAccount addr A
        if account.state.isSome ∧ account.stateDiff.isSome then
          (.error (.stateAndStateDiff addr), A)
        else applyOverrides diff rest dirty precompiles' (account.writeStorage addr A)

/-- SRCLINE: ethapi/api.go:1080-1143 -/
def StateOverride.apply (diff : StateOverride) (precompiles : Precompiles) (A : Accounts) :
    Except RpcError Precompiles × Accounts :=
  applyOverrides diff diff [] precompiles A

/-- SRCLINE: ethapi/api.go:1158-1186 -/
def BlockOverrides.apply (o : BlockOverrides) (ctx : BlockContext) : BlockContext where
  parentHash := ctx.parentHash
  coinbase := o.feeRecipient.getD ctx.coinbase
  blockNumber := o.number.getD ctx.blockNumber
  time := o.time.getD ctx.time
  difficulty := o.difficulty.getD ctx.difficulty
  baseFee := o.baseFeePerGas.or ctx.baseFee
  blobBaseFee := o.blobBaseFee.or ctx.blobBaseFee
  gasLimit := o.gasLimit.getD ctx.gasLimit
  random := o.prevRandao.or ctx.random

/-! ## Messages -/

/-- SRCLINE: ethapi/transaction_args.go:369-418 -/
def TransactionArgs.callDefaults (args : TransactionArgs) (globalGasCap : UInt64)
    (baseFee : Option ℕ) (chainID : ℕ) : Except RpcError TransactionArgs :=
  if args.gasPrice.isSome ∧ (args.maxFeePerGas.isSome ∨ args.maxPriorityFeePerGas.isSome) then
    .error .feeStyles
  else if args.chainID.getD chainID ≠ chainID then
    .error (.chainIdMismatch (args.chainID.getD chainID) chainID)
  else .ok { args with
    chainID := some chainID
    gas := match args.gas with
      | none => some (if globalGasCap = 0 then UInt64.ofNat ((2 ^ 64 - 1) / 2) else globalGasCap)
      | some gas => some (if 0 < globalGasCap ∧ globalGasCap < gas then globalGasCap else gas)
    nonce := some (args.nonce.getD 0)
    value := some (args.value.getD 0)
    gasPrice := if baseFee.isNone then some (args.gasPrice.getD 0) else args.gasPrice
    maxFeePerGas := if baseFee.isSome then some (args.maxFeePerGas.getD 0) else args.maxFeePerGas
    maxPriorityFeePerGas := if baseFee.isSome then some (args.maxPriorityFeePerGas.getD 0)
      else args.maxPriorityFeePerGas
    blobFeeCap := if args.blobHashes.isSome then some (args.blobFeeCap.getD 0)
      else args.blobFeeCap }

/-- The gas price, fee cap and tip cap of a message.
SRCLINE: ethapi/transaction_args.go:425-449 -/
def TransactionArgs.fees (args : TransactionArgs) (baseFee : Option ℕ) : ℕ × ℕ × ℕ :=
  let gasFeeCap := args.maxFeePerGas.getD 0
  let gasTipCap := args.maxPriorityFeePerGas.getD 0
  match baseFee, args.gasPrice with
  | none, gasPrice => (gasPrice.getD 0, gasPrice.getD 0, gasPrice.getD 0)
  | some _, some gasPrice => (gasPrice, gasPrice, gasPrice)
  | some baseFee, none =>
    (if 0 < gasFeeCap ∨ 0 < gasTipCap then min (gasTipCap + baseFee) gasFeeCap else 0,
      gasFeeCap, gasTipCap)

/-- A call is no deposit, mints nothing and skips the checks of its sender.
SRCLINE: ethapi/transaction_args.go:424-470 -/
def TransactionArgs.toMessage (args : TransactionArgs) (baseFee : Option ℕ) : Message where
  recipient := args.recipient
  sender := args.sender.getD 0
  nonce := args.nonce.getD 0
  value := args.value.getD 0
  gasLimit := args.gas.getD 0
  gasPrice := (args.fees baseFee).1
  gasFeeCap := (args.fees baseFee).2.1
  gasTipCap := (args.fees baseFee).2.2
  data := (args.input.or args.data).getD []
  accessList := args.accessList.getD []
  blobGasFeeCap := args.blobFeeCap
  blobHashes := args.blobHashes
  skipNonceChecks := true
  skipFromEOACheck := true
  isSystemTx := false
  isDepositTx := false
  mint := none
  rollupCostData := ⟨0, 0, 0⟩

/-! ## Requests -/

section

variable (vm : VM) (config : ChainConfig) (rpc : RpcBackend)

/-- SRCLINE: unsealed_block.go:78-89 -/
def UnsealedBlock.tempHeader (ub : UnsealedBlock) : Header where
  parentHash := ub.env.parentHash
  uncleHash := 0
  coinbase := 0
  root := 0
  txHash := 0
  receiptHash := 0
  bloom := 0
  difficulty := (ub.env.difficulty.map BitVec.toNat).getD 0
  number := ub.env.number.toNat
  gasLimit := ub.env.gasLimit
  gasUsed := 0
  time := ub.env.timestamp
  extra := ub.env.extraData
  mixDigest := 0
  nonce := 0
  baseFee := some ub.env.basefee.toNat
  withdrawalsHash := none
  blobGasUsed := none
  excessBlobGas := none
  parentBeaconRoot := some ub.env.parentBeaconBlockRoot
  requestsHash := none

/-- The gas pool of a call.
SRCLINE: ethapi/api.go:1275-1280 -/
def callGas : UInt64 := if rpc.rpcGasCap = 0 then UInt64.ofNat (2 ^ 64 - 1) else rpc.rpcGasCap

/-- The context and the message of a call.
SRCLINE: ethapi/api.go:1254-1257,1285-1297 -/
def callMessage (header : Header) (req : CallRequest) : Except RpcError (BlockContext × Message) :=
  let ctx := req.blockOverrides.apply (newEVMBlockContext vm header)
  match req.args.callDefaults (callGas rpc) ctx.baseFee rpc.chainID with
  | .error err => .error err
  | .ok args =>
    let msg := args.toMessage header.baseFee
    .ok ({ ctx with
      baseFee := if msg.gasPrice = 0 then some 0 else ctx.baseFee
      blobBaseFee := if msg.blobGasFeeCap = some 0 then some 0 else ctx.blobBaseFee }, msg)

/-- The precompiles that a call starts from.
SRCLINE: ethapi/api.go:1258-1259 -/
def callPrecompiles (header : Header) (req : CallRequest) : Precompiles :=
  rpc.activePrecompiles (req.blockOverrides.apply (newEVMBlockContext vm header))

/-- A call on a state, which it changes; `none` is a panic of the virtual machine.
SRCLINE: ethapi/api.go:1253-1327 -/
def doCall (header : Header) (req : CallRequest) (statedb : StateDB) :
    Option (StateDB × Except RpcError ExecutionResult) :=
  match req.overrides.apply (callPrecompiles vm rpc header req) statedb.accounts with
  | (.error err, A) => some ({ statedb with accounts := A }, .error err)
  | (.ok precompiles, A) =>
    let statedb := { statedb with accounts := A }
    match callMessage vm rpc header req with
    | .error err => some (statedb, .error err)
    | .ok (ctx, msg) =>
      match applyMessage (rpc.evm precompiles) config ctx statedb msg (callGas rpc) with
      | none => none
      | some (.error err, statedb, _) => some (statedb, .error (.apply err))
      | some (.ok result, statedb, _) => some (statedb, .ok result)

/-- `eth_call` on the latest block: on the state of the unsealed block if there is one,
otherwise on a fresh state of the head. An Env without a difficulty makes the block
context panic before anything is done.
SRCLINE: api_backend.go:193-225, ethapi/api.go:1329-1382 -/
def ethCall (bc : BlockChain) (req : CallRequest) :
    Option (BlockChain × Except RpcError ExecutionResult) :=
  match bc.unsealedBlockDbState, bc.currentUnsealedBlock with
  | some _, none => some (bc, .error .nilPointer)
  | some statedb, some ub =>
    if ub.env.difficulty = none then some (bc, .error .nilPointer)
    else match doCall vm config rpc ub.tempHeader req statedb with
    | none => none
    | some (statedb, r) => some ({ bc with unsealedBlockDbState := some statedb }, r)
  | none, _ =>
    match bc.stateAt bc.currentBlock.root with
    | none => some (bc, .error (.stateNotFound bc.currentBlock.root))
    | some statedb => (doCall vm config rpc bc.currentBlock req statedb).map fun r => (bc, r.2)

/-- `eth_estimateGas` on the latest block, up to the estimation itself, which runs on
copies of the state that the overrides have left.
SRCLINE: ethapi/api.go:1424-1433 -/
def estimateGas (bc : BlockChain) (req : CallRequest) : BlockChain × Except RpcError Unit :=
  match bc.unsealedBlockDbState with
  | some statedb =>
    match req.overrides.apply ∅ statedb.accounts with
    | (.error err, A) =>
      ({ bc with unsealedBlockDbState := some { statedb with accounts := A } }, .error err)
    | (.ok _, A) =>
      ({ bc with unsealedBlockDbState := some { statedb with accounts := A } }, .ok ())
  | none =>
    match bc.stateAt bc.currentBlock.root with
    | none => (bc, .error (.stateNotFound bc.currentBlock.root))
    | some statedb => (bc, (req.overrides.apply ∅ statedb.accounts).1.map fun _ => ())

/-- A frag, or a request of a reader. -/
inductive RpcEvent where
  | newFrag (f : SignedNewFrag)
  | call (req : CallRequest)
  | estimateGas (req : CallRequest)

def RpcEvent.isNewFrag : RpcEvent → Bool
  | .newFrag _ => true
  | .call _ => false
  | .estimateGas _ => false

def rpcStep (node : Node) (bc : BlockChain) : RpcEvent → Option BlockChain
  | .newFrag f => (newFragV0 vm config node bc f).map Prod.fst
  | .call req => (ethCall vm config rpc bc req).map Prod.fst
  | .estimateGas req => some (estimateGas bc req).1

end

end BasedOp.Model.OpGeth
