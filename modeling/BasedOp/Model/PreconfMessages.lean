import BasedOp.Model.Primitives

/-!
# The preconfirmation messages of op-node

The three signed messages a gateway gossips for every block it builds, as
op-node decodes them (op-service/eth/types.go), and the reference of a safe L2
block, of which the preconfirmation state only reads the number.
-/

set_option autoImplicit false

namespace BasedOp.Model.OpNode

/-- `eth.Env`: the environment that opens a block. `difficulty` is a pointer in
the source, so it may be absent.
SRCLINE: eth/types.go:309-321 -/
structure Env where
  number : UInt64
  parentHash : Hash
  beneficiary : Address
  timestamp : UInt64
  gasLimit : UInt64
  basefee : UInt64
  difficulty : Option Hash
  prevrandao : Hash
  extraData : Bytes
  parentBeaconBlockRoot : Hash
deriving DecidableEq

/-- `eth.NewFrag`: a numbered piece of the transactions of a block.
SRCLINE: eth/types.go:236-241 -/
structure NewFrag where
  blockNumber : UInt64
  seq : UInt64
  isLast : Bool
  txs : List Bytes
deriving DecidableEq

/-- `eth.Seal`: the number of frags of a block and the fields of its header.
SRCLINE: eth/types.go:291-302 -/
structure Seal where
  totalFrags : UInt64
  blockNumber : UInt64
  gasUsed : UInt64
  gasLimit : UInt64
  parentHash : Hash
  transactionsRoot : Hash
  receiptsRoot : Hash
  stateRoot : Hash
  blockHash : Hash
deriving DecidableEq

structure SignedEnv where
  signature : Bytes65
  env : Env
deriving DecidableEq

structure SignedNewFrag where
  signature : Bytes65
  frag : NewFrag
deriving DecidableEq

structure SignedSeal where
  signature : Bytes65
  sealData : Seal
deriving DecidableEq

/-- `eth.L2BlockRef`, of which `putL2Block` reads the number. -/
structure L2BlockRef where
  number : UInt64
deriving DecidableEq

/-- A message in the hands of the preconfirmation state. The engine call that
forwards it (`Env`, `NewFrag` or `SealFrag` of `ExecEngine`) takes the message
and nothing else, so it is named by the message. -/
inductive Message where
  | env (sEnv : SignedEnv)
  | newFrag (sFrag : SignedNewFrag)
  | sealFrag (sSeal : SignedSeal)
deriving DecidableEq

/-- The env of a block with every other field zero. -/
def blankEnv (n : UInt64) : SignedEnv :=
  { signature := 0
    env := { number := n, parentHash := 0, beneficiary := 0, timestamp := 0, gasLimit := 0,
             basefee := 0, difficulty := none, prevrandao := 0, extraData := [],
             parentBeaconBlockRoot := 0 } }

def blankFrag (n seq : UInt64) (isLast : Bool) : SignedNewFrag :=
  { signature := 0
    frag := { blockNumber := n, seq := seq, isLast := isLast, txs := [] } }

/-- The seal of a block with every other field zero. -/
def blankSeal (n : UInt64) : SignedSeal :=
  { signature := 0
    sealData := { totalFrags := 0, blockNumber := n, gasUsed := 0, gasLimit := 0, parentHash := 0,
                  transactionsRoot := 0, receiptsRoot := 0, stateRoot := 0, blockHash := 0 } }

end BasedOp.Model.OpNode
