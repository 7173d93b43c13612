import BasedOp.Model.GethTypes

/-!
# State transitions of op-geth

The state of the accounts as `StateDB` holds it, and the application of one
message to it (core/state_transition.go). The virtual machine and what it reads of
the chain is a parameter (`VM`); the control flow around it is the source's: the
mint of a deposit, the reservation of gas in the pool, the return of what is left,
and the deposits that are included although they fail.

`Option` at the outside of a result is a panic.
-/

set_option autoImplicit false

namespace BasedOp.Model.OpGeth

/-- An account. An account that does not exist is the empty one. -/
structure Account where
  nonce : UInt64
  balance : U256
  code : Bytes
  storage : Hash → Hash

abbrev Accounts := Address → Account

def Accounts.set (A : Accounts) (a : Address) (acc : Account) : Accounts :=
  fun a' => if a' = a then acc else A a'

/-- `uint256` addition wraps around.
SRCLINE: statedb.go:453-459 -/
def Accounts.addBalance (A : Accounts) (a : Address) (amount : U256) : Accounts :=
  A.set a { A a with balance := (A a).balance + amount }

/-- SRCLINE: statedb.go:475-480 -/
def Accounts.setNonce (A : Accounts) (a : Address) (nonce : UInt64) : Accounts :=
  A.set a { A a with nonce := nonce }

/-- SRCLINE: statedb.go:482-487 -/
def Accounts.setCode (A : Accounts) (a : Address) (code : Bytes) : Accounts :=
  A.set a { A a with code := code }

/-- `state.StateDB`. The logs, which the source keeps in one list for each
transaction hash together with their total number, are one list here, oldest
first: each log carries the hash it is kept under.
SRCLINE: statedb.go:80-163 -/
structure StateDB where
  accounts : Accounts
  thash : Hash
  txIndex : ℕ
  logs : List Log

/-- `state.New`: a state over stored accounts. -/
def StateDB.new (accounts : Accounts) : StateDB where
  accounts := accounts
  thash := 0
  txIndex := 0
  logs := []

/-- SRCLINE: statedb.go:962-965 -/
def StateDB.setTxContext (s : StateDB) (thash : Hash) (ti : ℕ) : StateDB :=
  { s with thash := thash, txIndex := ti }

/-- SRCLINE: statedb.go:251-262 -/
def StateDB.addLog (s : StateDB) (log : LogData) : StateDB :=
  { s with
    logs := s.logs ++
      [{ log with txHash := s.thash, txIndex := s.txIndex, index := s.logs.length }] }

/-- SRCLINE: statedb.go:266-273 -/
def StateDB.getLogs (s : StateDB) (hash : Hash) : List Log :=
  s.logs.filter fun log => log.txHash = hash

/-- `params.ChainConfig`, up to the forks that are asked for.
SRCLINE: params/config.go -/
structure ChainConfig where
  isOptimism : Bool
  regolithTime : Option UInt64
  canyonTime : Option UInt64
  daoForkSupport : Bool
  daoForkBlock : Option ℕ
  isPrague : ℕ → UInt64 → Bool
  isByzantium : ℕ → Bool
  isEIP158 : ℕ → Bool
  depositContractAddress : Address

/-- `isTimestampForked`: the fork is scheduled and the time has come. -/
def isTimestampForked (s : Option UInt64) (head : UInt64) : Bool :=
  match s with
  | none => false
  | some t => decide (t ≤ head)

def ChainConfig.isRegolith (c : ChainConfig) (time : UInt64) : Bool :=
  isTimestampForked c.regolithTime time

def ChainConfig.isOptimismRegolith (c : ChainConfig) (time : UInt64) : Bool :=
  c.isOptimism && c.isRegolith time

def ChainConfig.isOptimismCanyon (c : ChainConfig) (time : UInt64) : Bool :=
  c.isOptimism && isTimestampForked c.canyonTime time

/-- `vm.BlockContext`: what the virtual machine reads of the header. `parentHash`
stands for `GetHash`, which walks back from it.
SRCLINE: core/evm.go:42-82 -/
structure BlockContext where
  parentHash : Hash
  coinbase : Address
  blockNumber : ℕ
  time : UInt64
  difficulty : ℕ
  baseFee : Option ℕ
  blobBaseFee : Option ℕ
  gasLimit : UInt64
  random : Option Hash
deriving DecidableEq

structure RollupCostData where
  zeroes : UInt64
  ones : UInt64
  fastLzSize : UInt64
deriving DecidableEq

/-- `core.Message`; `PostValidation` is nil on every path modelled here.
SRCLINE: state_transition.go:131-163 -/
structure Message where
  recipient : Option Address
  sender : Address
  nonce : UInt64
  value : ℕ
  gasLimit : UInt64
  gasPrice : ℕ
  gasFeeCap : ℕ
  gasTipCap : ℕ
  data : Bytes
  accessList : List (Address × List Hash)
  blobGasFeeCap : Option ℕ
  blobHashes : Option (List Hash)
  skipNonceChecks : Bool
  skipFromEOACheck : Bool
  isSystemTx : Bool
  isDepositTx : Bool
  mint : Option ℕ
  rollupCostData : RollupCostData
deriving DecidableEq

/-- A core error: the message cannot be included. -/
inductive TxError where
  | gasLimitReached
  | mintOverflow
  | systemTxNotSupported
  | core (err : String)
deriving DecidableEq

/-- An error of the execution of a message that is included. -/
inductive ExecError where
  | vm (err : String)
  | failedDeposit (err : TxError)
deriving DecidableEq

/-- `core.ExecutionResult`.
SRCLINE: state_transition.go:36-41 -/
structure ExecutionResult where
  usedGas : UInt64
  refundedGas : UInt64
  err : Option ExecError
  returnData : Bytes
deriving DecidableEq

/-- SRCLINE: state_transition.go:50 -/
def ExecutionResult.failed (r : ExecutionResult) : Bool := r.err.isSome

/-- What the virtual machine makes of a message whose gas has been bought: the gas
that remains after the refund, the refund, and its own error. -/
structure VMResult where
  gasRemaining : UInt64
  refundedGas : UInt64
  err : Option String
  returnData : Bytes

/-- The effect of a message whose gas has been bought: a core error or a result,
and in either case the accounts and the logs that are left. -/
structure CallOutcome where
  result : Except String VMResult
  accounts : Accounts
  logs : List LogData

/-- The virtual machine and the cryptography, as parameters. `checks` are the tests
of `preCheck` and `buyGas` on a message that is not a deposit, up to the gas pool;
`call` is what `innerTransitionDb` does once the pool has granted the gas. -/
structure VM where
  txHash : Transaction → Hash
  headerHash : Header → Hash
  sender : ℕ → UInt64 → Transaction → Except String Address
  rollupCostData : Transaction → RollupCostData
  createAddress : Address → UInt64 → Address
  calcBlobFee : UInt64 → ℕ
  bloomAddAddress : Bloom → Address → Bloom
  bloomAddTopic : Bloom → Hash → Bloom
  intermediateRoot : Bool → Accounts → Hash
  deriveShaTxs : List Transaction → Hash
  deriveShaReceipts : List Receipt → Hash
  deriveShaRequests : List Request → Hash
  unpackIntoDeposit : Bytes → Except String Request
  checks : BlockContext → Accounts → Message → Option String
  call : BlockContext → Accounts → Message → CallOutcome
  processBeaconBlockRoot : BlockContext → Hash → Accounts → Accounts
  processParentBlockHash : BlockContext → Hash → Accounts → Accounts
  applyDAOHardFork : Accounts → Accounts
  create2DeployerCode : Bytes
  finalize : Header → Body → Accounts → Accounts

/-- SRCLINE: gaspool.go:29-35 -/
def addGas (gp amount : UInt64) : Option UInt64 :=
  if gp > UInt64.ofNat (2 ^ 64 - 1) - amount then none else some (gp + amount)

/-- `none` is `ErrGasLimitReached`.
SRCLINE: gaspool.go:39-45 -/
def subGas (gp amount : UInt64) : Option UInt64 :=
  if gp < amount then none else some (gp - amount)

/-- Where a transition ends: the result, the accounts, the logs, the gas pool. -/
structure Transition where
  result : Except TxError ExecutionResult
  accounts : Accounts
  logs : List LogData
  gp : UInt64

section

variable (vm : VM) (config : ChainConfig)

/-- Deduct the gas of a message from the pool.
SRCLINE: state_transition.go:296-299,325-326 -/
def reserve (msg : Message) (gp : UInt64) : Except TxError UInt64 :=
  match subGas gp msg.gasLimit with
  | some gp' => .ok gp'
  | none => .error .gasLimitReached

/-- SRCLINE: state_transition.go:312-400 -/
def preCheck (ctx : BlockContext) (A : Accounts) (msg : Message) (gp : UInt64) :
    Except TxError UInt64 :=
  if msg.isDepositTx then
    if msg.isSystemTx then
      if config.isOptimismRegolith ctx.time then .error .systemTxNotSupported else .ok gp
    else reserve msg gp
  else
    match vm.checks ctx A msg with
    | some err => .error (.core err)
    | none => reserve msg gp

/-- SRCLINE: state_transition.go:457-602 -/
def innerTransitionDb (ctx : BlockContext) (A : Accounts) (msg : Message) (gp : UInt64) :
    Option Transition :=
  match preCheck vm config ctx A msg gp with
  | .error err => some { result := .error err, accounts := A, logs := [], gp := gp }
  | .ok gp =>
    let o := vm.call ctx A msg
    match o.result with
    | .error err =>
      some { result := .error (.core err), accounts := o.accounts, logs := o.logs, gp := gp }
    | .ok r =>
      let err := r.err.map .vm
      if msg.isDepositTx && !config.isOptimismRegolith ctx.time then
        -- a deposit before Regolith uses all its gas, a system transaction none
        let usedGas := if msg.isSystemTx then 0 else msg.gasLimit
        some { result := .ok { usedGas, refundedGas := 0, err, returnData := r.returnData }
               accounts := o.accounts, logs := o.logs, gp := gp }
      else
        match addGas gp r.gasRemaining with
        | none => none
        | some gp =>
          some { result := .ok { usedGas := msg.gasLimit - r.gasRemaining
                                 refundedGas := r.refundedGas, err, returnData := r.returnData }
                 accounts := o.accounts, logs := o.logs, gp := gp }

/-- A deposit that fails is rewound to after its mint and included all the same,
unless the gas pool has refused it.
SRCLINE: state_transition.go:420-445 -/
def includeFailedDeposit (time : UInt64) (minted : Accounts) (msg : Message) (t : Transition) :
    Transition :=
  match t.result with
  | .ok _ => t
  | .error err =>
    if err ≠ .gasLimitReached ∧ msg.isDepositTx then
      let usedGas := if msg.isSystemTx && !config.isRegolith time then 0 else msg.gasLimit
      { result := .ok { usedGas, refundedGas := 0, err := some (.failedDeposit err), returnData := [] }
        accounts := minted.setNonce msg.sender ((minted msg.sender).nonce + 1)
        logs := []
        gp := t.gp }
    else t

/-- SRCLINE: state_transition.go:411-455 -/
def transitionDb (ctx : BlockContext) (A : Accounts) (msg : Message) (gp : UInt64) :
    Option Transition :=
  match msg.mint with
  | none => (innerTransitionDb vm config ctx A msg gp).map (includeFailedDeposit config ctx.time A msg)
  | some mint =>
    if 2 ^ 256 ≤ mint then
      some { result := .error .mintOverflow, accounts := A, logs := [], gp := gp }
    else
      let minted := A.addBalance msg.sender (BitVec.ofNat 256 mint)
      (innerTransitionDb vm config ctx minted msg gp).map
        (includeFailedDeposit config ctx.time minted msg)

/-- SRCLINE: state_transition.go:180-182 -/
def applyMessage (ctx : BlockContext) (s : StateDB) (msg : Message) (gp : UInt64) :
    Option (Except TxError ExecutionResult × StateDB × UInt64) :=
  (transitionDb vm config ctx s.accounts msg gp).map fun t =>
    (t.result, t.logs.foldl StateDB.addLog { s with accounts := t.accounts }, t.gp)

end

/-! ## A virtual machine to run the definitions with -/

def emptyAccount : Account where
  nonce := 0
  balance := 0
  code := []
  storage := fun _ => 0

/-- A virtual machine on which every message costs 21000 gas, moves the nonce of its sender, pays
its value out, and logs its data if it has any. Hashes and roots are sums of a few fields. -/
def plainVM : VM where
  txHash tx := BitVec.ofNat 256 (tx.nonce.toNat + 1)
  headerHash h := BitVec.ofNat 256
    (h.number + 2 ^ 64 * h.time.toNat + 2 ^ 128 * h.gasUsed.toNat + 2 ^ 192 * h.txHash.toNat)
  sender _ _ _ := .ok 7
  rollupCostData _ := ⟨0, 0, 0⟩
  createAddress a _ := a
  calcBlobFee _ := 1
  bloomAddAddress b a := b ||| a.setWidth 2048
  bloomAddTopic b t := b ||| t.setWidth 2048
  intermediateRoot _ A := BitVec.ofNat 256 ((A 7).nonce.toNat + 2 ^ 64 * (A 8).balance.toNat)
  deriveShaTxs txs := txs.foldl (fun h tx => h * 31 + BitVec.ofNat 256 (tx.nonce.toNat + 1)) 0
  deriveShaReceipts rs := BitVec.ofNat 256 (rs.map fun r => r.gasUsed.toNat).sum
  deriveShaRequests _ := 0
  unpackIntoDeposit data := .ok ⟨data⟩
  checks _ _ _ := none
  call _ A msg :=
    if msg.gasLimit < 21000 then
      { result := .error "intrinsic gas too low", accounts := A, logs := [] }
    else
      { result := .ok
          { gasRemaining := msg.gasLimit - 21000, refundedGas := 0, err := none, returnData := [] }
        accounts := (A.setNonce msg.sender ((A msg.sender).nonce + 1)).addBalance
          (msg.recipient.getD 0) (BitVec.ofNat 256 msg.value)
        logs := if msg.data = [] then [] else [⟨msg.recipient.getD 0, [], msg.data⟩] }
  processBeaconBlockRoot _ _ A := A
  processParentBlockHash _ _ A := A
  applyDAOHardFork A := A
  create2DeployerCode := []
  finalize _ _ A := A

/-- A chain configuration with Regolith from the beginning. -/
def plainConfig : ChainConfig where
  isOptimism := true
  regolithTime := some 0
  canyonTime := none
  daoForkSupport := false
  daoForkBlock := none
  isPrague _ _ := false
  isByzantium _ := true
  isEIP158 _ := true
  depositContractAddress := 0

end BasedOp.Model.OpGeth
