import BasedOp.Analysis.WireFormat

/-!
# The gateway and op-node sign and verify the same hash

The gateway hashes a message by the types of its fields and mixes in the position of the
variant; op-node hashes the fields in the order of its calls, where a dynamic field counts at
its offset, and hashes the result once more with the number of the kind. Both come to the
same root.
-/

set_option autoImplicit false

namespace BasedOp.Analysis.SignedHash

open BasedOp.Computation BasedOp.Computation.Ssz Model Model.Gateway
open Model.OpNode (NewFrag Seal Env unionRoot)
open WireFormat (Body)

/-! ## The messages of the two sides -/

/-- SRCLINE: src/p2p.rs:81-95, eth/types.go:236-241 -/
def toNewFrag (frag : FragV0) : NewFrag where
  blockNumber := frag.blockNumber
  seq := frag.seq
  isLast := frag.isLast
  txs := frag.txs

/-- SRCLINE: src/p2p.rs:109-125, eth/types.go:291-302 -/
def toSeal (sl : SealV0) : Seal where
  totalFrags := sl.totalFrags
  blockNumber := sl.blockNumber
  gasUsed := sl.gasUsed
  gasLimit := sl.gasLimit
  parentHash := sl.parentHash
  transactionsRoot := sl.transactionsRoot
  receiptsRoot := sl.receiptsRoot
  stateRoot := sl.stateRoot
  blockHash := sl.blockHash

/-- SRCLINE: src/p2p.rs:42-57, eth/types.go:309-321 -/
def toEnv (env : EnvV0) : Env where
  number := env.number
  parentHash := env.parentHash
  beneficiary := env.beneficiary
  timestamp := env.timestamp
  gasLimit := env.gasLimit
  basefee := env.basefee
  difficulty := some env.difficulty
  prevrandao := env.prevrandao
  extraData := env.extraData
  parentBeaconBlockRoot := env.parentBeaconBlockRoot

def toBody : VersionedMessage → Body
  | .fragV0 frag => .newFrag (toNewFrag frag)
  | .sealV0 sl => .sealFrag (toSeal sl)
  | .envV0 env => .env (toEnv env)

/-- Every message of op-node is one of the gateway, but for an env without a difficulty. -/
theorem exists_toBody (m : Body) (h : ∀ e, m = .env e → e.difficulty.isSome) :
    ∃ message, toBody message = m := by
  cases m with
  | newFrag f => exact ⟨.fragV0 ⟨f.blockNumber, f.seq, f.isLast, f.txs⟩, rfl⟩
  | sealFrag s =>
    exact ⟨.sealV0 ⟨s.totalFrags, s.blockNumber, s.gasUsed, s.gasLimit, s.parentHash,
      s.transactionsRoot, s.receiptsRoot, s.stateRoot, s.blockHash⟩, rfl⟩
  | env e =>
    obtain ⟨difficulty, hdifficulty⟩ := Option.isSome_iff_exists.mp (h e rfl)
    refine ⟨.envV0 ⟨e.number, e.parentHash, e.beneficiary, e.timestamp, e.gasLimit, e.basefee,
      difficulty, e.prevrandao, e.extraData, e.parentBeaconBlockRoot⟩, ?_⟩
    rw [toBody, toEnv, ← hdifficulty]

/-! ## The roots -/

variable (sha256 : Bytes → Bytes)

/-- `Root` of the messages of op-node. -/
def root [Library] : Body → Bytes
  | .newFrag f => f.root sha256
  | .sealFrag s => s.root sha256
  | .env e => e.root sha256

/-- The root of the container, before the kind is mixed in. -/
def valueRoot [Library] : Body → Bytes
  | .newFrag f => Library.hashSequential sha256 NewFrag.defineSSZ f
  | .sealFrag s => Library.hashSequential sha256 Seal.defineSSZ s
  | .env e => Library.hashSequential sha256 Env.defineSSZ e

/-- The number of the kind of a message. -/
def typeIndex : Body → UInt64
  | .newFrag _ => 0
  | .sealFrag _ => 1
  | .env _ => 2

/-- The kind is mixed into the root. -/
theorem root_eq_unionRoot [Library] (m : Body) :
    root sha256 m = unionRoot sha256 (valueRoot sha256 m) (typeIndex m) := by
  cases m <;> rfl

/-- A selector in the first byte of a word is the number of the kind, lowest byte first. -/
theorem mixInSelector_eq_unionRoot [Library] (value : Bytes) (selector : UInt8) {index : UInt64}
    (h : index.toNat = selector.toNat) :
    Library.mixInSelector sha256 value selector = unionRoot sha256 value index := by
  have hhigh : selector.toNat / 256 = 0 := Nat.div_eq_of_lt selector.toNat_lt
  have hbytes : leBytes 8 selector.toNat = [selector, 0, 0, 0, 0, 0, 0, 0] := by
    simp [leBytes, hhigh]
  rw [Library.selector_eq, mixInSelector, unionRoot, h, hbytes]
  rfl

/-- The calls of op-node go through the fields that the gateway hashes. -/
theorem fields_newFrag (frag : FragV0) :
    NewFrag.defineSSZ.flatMap (Call.fields (toNewFrag frag)) = frag.treeHashFields := rfl

/-- They are those of a seal. -/
theorem fields_seal (sl : SealV0) :
    Seal.defineSSZ.flatMap (Call.fields (toSeal sl)) = sl.treeHashFields := rfl

/-- They are those of an env. -/
theorem fields_env (env : EnvV0) :
    Env.defineSSZ.flatMap (Call.fields (toEnv env)) = env.treeHashFields := rfl

/-- The two sides come to the same root. -/
theorem root_toBody [Library] (message : VersionedMessage) :
    root sha256 (toBody message) = message.treeHashRoot sha256 := by
  cases message with
  | fragV0 =>
    rw [toBody, root_eq_unionRoot, valueRoot, Library.hash_eq, fields_newFrag]
    exact (mixInSelector_eq_unionRoot sha256 _ 0 rfl).symm
  | sealV0 =>
    rw [toBody, root_eq_unionRoot, valueRoot, Library.hash_eq, fields_seal]
    exact (mixInSelector_eq_unionRoot sha256 _ 1 rfl).symm
  | envV0 =>
    rw [toBody, root_eq_unionRoot, valueRoot, Library.hash_eq, fields_env]
    exact (mixInSelector_eq_unionRoot sha256 _ 2 rfl).symm

/-- The hash that the gateway signs is the one that op-node verifies, for every message; and
the roots of messages of different kinds are made with different numbers.
SRCLINE: src/p2p.rs:11-125, ssz.go:542-622 -/
theorem treeHashRoot_eq_root [Library] :
    (∀ message : VersionedMessage, message.treeHashRoot sha256 = root sha256 (toBody message)) ∧
    (∀ m : Body, (∀ e, m = .env e → e.difficulty.isSome) →
      ∃ message, toBody message = m ∧ message.treeHashRoot sha256 = root sha256 m) ∧
    (∀ m : Body, root sha256 m = unionRoot sha256 (valueRoot sha256 m) (typeIndex m)) ∧
    ∀ (f : NewFrag) (s : Seal) (e : Env),
      [typeIndex (.newFrag f), typeIndex (.sealFrag s), typeIndex (.env e)].Nodup := by
  refine ⟨fun message => (root_toBody sha256 message).symm, ?_, root_eq_unionRoot sha256, ?_⟩
  · intro m hm
    obtain ⟨message, rfl⟩ := exists_toBody m hm
    exact ⟨message, rfl, (root_toBody sha256 message).symm⟩
  · intro f s e
    simp [typeIndex]

/-- The env of the example. -/
theorem treeHashRoot_eq_root_plain :
    ∃ message, toBody message = .env WireFormat.plainEnv ∧
      message.treeHashRoot (fun bytes => bytes) =
        root (fun bytes => bytes) (.env WireFormat.plainEnv) :=
  (treeHashRoot_eq_root fun bytes => bytes).2.1 (.env WireFormat.plainEnv) (by
    rintro e ⟨⟩
    rfl)

end BasedOp.Analysis.SignedHash
