import BasedOp.Model.GatewayTypes
import BasedOp.Computation.SortedVectors
import Mathlib.Data.List.TakeWhile

/-!
# The transaction pool

The transactions of one sender in the order of their nonces
(crates/common/src/transaction/tx_list.rs, simulated/tx_list.rs), and the pool of all
senders with the list of those that can be mined (crates/pool/src/transaction). A
function returns `none` where the source panics. Instead of sending simulation requests
the pool returns the transactions to simulate.
-/

set_option autoImplicit false

namespace BasedOp.Model.Gateway

open BasedOp.Computation

/-! ## Vectors -/

/-- `binary_search_by` on a sorted vector: the place of an equal element, or the place
where it would be inserted. -/
def binarySearchBy {α : Type} (cmp : α → Ordering) (xs : List α) : Except ℕ ℕ :=
  match xs.findIdx? (fun x => cmp x == .eq) with
  | some i => .ok i
  | none => .error (xs.takeWhile fun x => cmp x == .lt).length

/-- The search of the standard library is one. -/
theorem isBinarySearch_binarySearchBy {α : Type} :
    IsBinarySearch (binarySearchBy : (α → Ordering) → List α → Except ℕ ℕ) where
  ok := by
    intro cmp xs i hxs h
    unfold binarySearchBy at h
    split at h
    · rename_i j hfind
      obtain rfl := Except.ok.inj h
      obtain ⟨hj, heq, -⟩ := List.findIdx?_eq_some_iff_getElem.mp hfind
      refine ⟨xs.take j, xs[j], xs.drop (j + 1), by simp, ?_, by simpa using heq⟩
      · rw [List.length_take, Nat.min_eq_left (Nat.le_of_lt hj)]
    · cases h
  error := by
    intro cmp xs i hxs h
    unfold binarySearchBy at h
    split at h
    · cases h
    · rename_i hfind
      obtain rfl := Except.error.inj h
      refine
        ⟨_, _, (List.takeWhile_append_dropWhile (p := fun x => cmp x == .lt)).symm, rfl, ?_, ?_⟩
      · intro x hx
        simpa using List.mem_takeWhile_imp hx
      · -- the first of the others is not less and not equal, and all that follow are greater
        have hne : ∀ x ∈ xs, cmp x ≠ .eq := by
          intro x hx
          simpa using List.findIdx?_eq_none_iff.mp hfind x hx
        have hsub := List.dropWhile_suffix (l := xs) fun x => cmp x == .lt
        have hpair : Partitioned cmp (xs.dropWhile fun x => cmp x == .lt) := hxs.sublist hsub.sublist
        cases hrest : xs.dropWhile fun x => cmp x == .lt with
        | nil => simp
        | cons first =>
          rw [hrest] at hpair hsub
          have hfirst : cmp first = .gt := by
            have hnot : ¬ cmp first = .lt := by
              have := List.head?_dropWhile_not (fun x => cmp x == .lt) xs
              rw [hrest] at this
              simpa using this
            have hneq := hne first (hsub.subset List.mem_cons_self)
            cases hcmp : cmp first <;> simp_all
          intro x hx
          obtain rfl | hx := List.mem_cons.mp hx
          · exact hfirst
          · obtain (hlt | hgt) | ⟨heq, -⟩ := (List.pairwise_cons.mp hpair).1 x hx
            · simp [hfirst] at hlt
            · exact hgt
            · simp [hfirst] at heq

/-- `swap_remove` and `swap_remove_back`: the last element takes the place of the one removed. -/
def swapRemove {α : Type} (xs : List α) (i : ℕ) : List α :=
  match xs.getLast? with
  | none => []
  | some last => (xs.set i last).dropLast

/-! ## The transactions of one sender -/

/-- SRCLINE: transaction/tx_list.rs:8-13 -/
structure TxList where
  sender : Address
  txs : List Transaction
deriving DecidableEq

namespace TxList

/-- SRCLINE: transaction/tx_list.rs:16-20 -/
def emptyForSender (sender : Address) : TxList where
  sender := sender
  txs := []

/-- SRCLINE: transaction/tx_list.rs:174-178 -/
def fromTx (tx : Transaction) : TxList where
  sender := tx.sender
  txs := [tx]

def search (l : TxList) (nonce : UInt64) : Except ℕ ℕ :=
  binarySearchBy (fun tx => compare tx.nonce nonce) l.txs

/-- SRCLINE: transaction/tx_list.rs:27-42 -/
def put (l : TxList) (newTx : Transaction) : TxList :=
  if l.txs.getLast?.all (·.nonce < newTx.nonce) then { l with txs := l.txs ++ [newTx] }
  else
    match l.search newTx.nonce with
    | .ok index => { l with txs := l.txs.set index newTx }
    | .error index => { l with txs := l.txs.insertIdx index newTx }

/-- What is left after taking transactions out until one of the given nonce. -/
def dropThrough (nonce : UInt64) : List Transaction → List Transaction
  | [] => []
  | t :: ts => if t.nonce == nonce then ts else dropThrough nonce ts

/-- Remove the transactions up to a nonce, and say whether none is left.
SRCLINE: transaction/tx_list.rs:44-57 -/
def forward (l : TxList) (nonce : UInt64) : Bool × TxList :=
  if l.txs.head?.any (·.nonce > nonce) then (false, l)
  else
    let l := { l with txs := dropThrough nonce l.txs }
    (l.txs.isEmpty, l)

def peekNonce (l : TxList) : Option UInt64 := l.txs.head?.map (·.nonce)

def peek (l : TxList) : Option Transaction := l.txs.head?

def isEmpty (l : TxList) : Bool := l.txs.isEmpty

def popFront (l : TxList) : Option Transaction × TxList :=
  (l.txs.head?, { l with txs := l.txs.tail })

/-- The transactions of consecutive nonces, as long as they pay the base fee. -/
def readyTxs (baseFee : UInt64) : UInt64 → List Transaction → List Transaction
  | _, [] => []
  | currNonce, t :: ts =>
    if t.nonce ≠ currNonce ∨ !t.validForBlock baseFee then []
    else t :: readyTxs baseFee (currNonce + 1) ts

/-- SRCLINE: transaction/tx_list.rs:59-83 -/
def ready (l : TxList) (currNonce baseFee : UInt64) : Option TxList :=
  match l.peekNonce with
  | none => none
  | some first =>
    if first > currNonce then none
    else
      match readyTxs baseFee currNonce l.txs with
      | [] => none
      | ts => some { sender := l.sender, txs := ts }

/-- SRCLINE: transaction/tx_list.rs:85-97 -/
def firstReady (l : TxList) (currNonce baseFee : UInt64) : Option Transaction :=
  match l.peek with
  | none => none
  | some nextTx =>
    if nextTx.nonce ≠ currNonce ∨ !nextTx.validForBlock baseFee then none else some nextTx

/-- The loop of `nonceReady`. -/
def nonceReadyFrom (baseFee targetNonce : UInt64) : UInt64 → List Transaction → Bool
  | _, [] => false
  | currNonce, t :: ts =>
    if t.nonce ≠ currNonce ∨ !t.validForBlock baseFee then false
    else if currNonce == targetNonce then true
    else nonceReadyFrom baseFee targetNonce (currNonce + 1) ts

/-- SRCLINE: transaction/tx_list.rs:99-121 -/
def nonceReady (l : TxList) (currNonce baseFee targetNonce : UInt64) : Bool :=
  if targetNonce < currNonce then false else nonceReadyFrom baseFee targetNonce currNonce l.txs

/-- SRCLINE: transaction/tx_list.rs:129-134 -/
def get (l : TxList) (nonce : UInt64) : Option Transaction :=
  match l.search nonce with
  | .ok index => l.txs[index]?
  | .error _ => none

/-- SRCLINE: transaction/tx_list.rs:164-166 -/
def contains (l : TxList) (nonce : UInt64) : Bool := (l.search nonce).isOk

/-- SRCLINE: transaction/tx_list.rs:123-127 -/
def getEffectivePriceForNonce (l : TxList) (nonce baseFee : UInt64) : U128 :=
  match l.get nonce with
  | none => 0
  | some tx => tx.tx.effectiveGasPrice baseFee

end TxList

/-! ## The transactions of one sender, the first of them simulated -/

/-- SRCLINE: simulated/tx_list.rs:8-15 -/
structure SimulatedTxList where
  current : Option SimulatedTx
  pending : TxList
deriving DecidableEq

namespace SimulatedTxList

/-- The pending transactions without the one that has been simulated.
SRCLINE: simulated/tx_list.rs:18-38,40-50 -/
def trim (current : Option SimulatedTx) (pending : TxList) : TxList :=
  match current with
  | none => pending
  | some c => if pending.peekNonce = some c.nonce then pending.popFront.2 else pending

/-- SRCLINE: simulated/tx_list.rs:18-38 -/
def new (current : Option SimulatedTx) (pending : TxList) : SimulatedTxList where
  current := current
  pending := trim current pending

/-- The assertion that `new` makes in a debug build, in which the addition must not overflow.
SRCLINE: simulated/tx_list.rs:25-35 -/
def newAsserts (current : Option SimulatedTx) (pending : TxList) : Bool :=
  match current with
  | none => true
  | some c => (trim current pending).peekNonce.all fun nonce =>
    nonce.toNat + 1 < UInt64.size && c.nonce == nonce + 1

/-- SRCLINE: simulated/tx_list.rs:40-50 -/
def newPending (l : SimulatedTxList) (pending : TxList) : SimulatedTxList :=
  { l with pending := trim l.current pending }

/-- SRCLINE: simulated/tx_list.rs:131-134 -/
def fromSimulated (current : SimulatedTx) : SimulatedTxList where
  current := some current
  pending := .emptyForSender current.sender

/-- Remove the active transaction, and say whether no other is left to apply.
SRCLINE: simulated/tx_list.rs:64-75 -/
def pop (l : SimulatedTxList) (baseFee : UInt64) : Bool × SimulatedTxList :=
  if l.pending.isEmpty then (true, l)
  else
    match l.current with
    | some t => ((l.pending.firstReady (t.nonce + 1) baseFee).isNone, { l with current := none })
    | none =>
      (l.pending.peek.all fun t => baseFee > UInt64.ofNat t.tx.maxFeePerGas.toNat, l)

/-- SRCLINE: simulated/tx_list.rs:77-79 -/
def put (l : SimulatedTxList) (tx : SimulatedTx) : SimulatedTxList := { l with current := some tx }

/-- SRCLINE: simulated/tx_list.rs:81-83 -/
def nextToSim (l : SimulatedTxList) : Option Transaction × SimulatedTxList :=
  match l.current with
  | some t => (some t.tx, l)
  | none => (l.pending.popFront.1, { l with pending := l.pending.popFront.2 })

def sender (l : SimulatedTxList) : Address := l.pending.sender

/-- SRCLINE: simulated/tx_list.rs:109-119 -/
def weight (l : SimulatedTxList) : U256 :=
  match l.current with
  | some t => t.payment
  | none =>
    match l.pending.peek with
    | some tx => tx.tx.priorityFeeOrPrice.setWidth 256
    | none => 0

/-- SRCLINE: simulated/tx_list.rs:121-123 -/
def payment (l : SimulatedTxList) : U256 :=
  match l.current with
  | some t => t.payment
  | none => 0

/-- SRCLINE: simulated/tx_list.rs:125-127 -/
def gasLimit (l : SimulatedTxList) : Option UInt64 :=
  match l.current with
  | some t => some t.tx.gasLimit
  | none => l.pending.peek.map (·.gasLimit)

end SimulatedTxList

/-! ## The senders that can be mined -/

/-- SRCLINE: transaction/active.rs:6-12 -/
structure Active where
  txs : List SimulatedTxList
  senders : HashMap Address ℕ

namespace Active

def empty : Active where
  txs := []
  senders := ∅

/-- SRCLINE: transaction/active.rs:22-32 -/
def put (a : Active) (tx : SimulatedTxList) : Option Active :=
  match a.senders.lookup tx.sender with
  | some index =>
    if index < a.txs.length then some { a with txs := a.txs.set index tx } else none
  | none => some
    { txs := a.txs ++ [tx]
      senders := a.senders.insert tx.sender a.txs.length }

/-- SRCLINE: transaction/active.rs:34-38 -/
def clear (_ : Active) : Active where
  txs := []
  senders := ∅

/-- The entry of a sender, changed in place.
SRCLINE: transaction/active.rs:66-69 -/
def modifyTxList (a : Active) (sender : Address) (f : SimulatedTxList → Option SimulatedTxList) :
    Option Active :=
  match a.senders.lookup sender with
  | none => some a
  | some index =>
    match a.txs[index]? with
    | none => none
    | some l =>
      match f l with
      | none => none
      | some l => some { a with txs := a.txs.set index l }

/-- SRCLINE: transaction/active.rs:90-103 -/
def remove (a : Active) (index : ℕ) (address : Address) : Option Active :=
  if index < a.txs.length then
    let a : Active := { txs := swapRemove a.txs index, senders := a.senders.erase address }
    if index = a.txs.length then some a
    else
      match a.txs[index]? with
      | none => none
      | some swapped =>
        match a.senders.lookup swapped.sender with
        | none => none
        | some _ => some { a with senders := a.senders.insert swapped.sender index }
  else none

/-- SRCLINE: transaction/active.rs:71-88 -/
def forward (a : Active) (address : Address) (nonce : UInt64) : Option Active :=
  match a.senders.lookup address with
  | none => some a
  | some index =>
    match a.txs[index]? with
    | none => none
    | some txList =>
      match txList.pending.forward nonce with
      | (true, pending) =>
        { a with txs := a.txs.set index { txList with pending } }.remove index address
      | (false, pending) =>
        let current := match txList.current with
          | none => none
          | some c => if nonce ≥ c.nonce then none else some c
        some { a with txs := a.txs.set index { current, pending } }

end Active

/-! ## The pool -/

/-- SRCLINE: transaction/pool.rs:15-21 -/
structure TxPool where
  poolData : HashMap Address TxList
  activeTxs : Active

namespace TxPool

def empty : TxPool where
  poolData := ∅
  activeTxs := .empty

/-- The transactions to simulate, if there is someone to send them to.
SRCLINE: transaction/pool.rs:163-176 -/
def sendSimRequestsForTx (tx : Transaction) (simSender : Bool) : List Transaction :=
  if simSender then [tx] else []

/-- SRCLINE: transaction/pool.rs:28-94 -/
def handleNewTx (pool : TxPool) (newTx : Transaction) (getNonce : Address → UInt64)
    (baseFee : UInt64) (syncing simSender : Bool) : Option (TxPool × List Transaction) :=
  let stateNonce := getNonce newTx.sender
  let nonce := newTx.nonce
  if nonce < stateNonce then some (pool, [])
  else
    let isNextNonce := nonce == stateNonce
    match pool.poolData.lookup newTx.sender with
    | some txList =>
      if txList.getEffectivePriceForNonce nonce baseFee > newTx.tx.effectiveGasPrice baseFee then
        some (pool, [])
      else
        let txList := txList.put newTx
        let pool := { pool with poolData := pool.poolData.insert newTx.sender txList }
        let validForBlock := newTx.validForBlock baseFee
        if syncing then some (pool, [])
        else if isNextNonce && validForBlock then
          (pool.activeTxs.put (.new none txList)).map fun active =>
            ({ pool with activeTxs := active }, sendSimRequestsForTx newTx simSender)
        else if validForBlock then
          (pool.activeTxs.modifyTxList newTx.sender fun l =>
            if txList.nonceReady stateNonce baseFee nonce then
              (txList.ready stateNonce baseFee).map l.newPending
            else some l).map fun active => ({ pool with activeTxs := active }, [])
        else some (pool, [])
    | none =>
      let txList := TxList.fromTx newTx
      let pool' := { pool with poolData := pool.poolData.insert txList.sender txList }
      if !syncing && (isNextNonce && newTx.validForBlock baseFee) then
        (pool.activeTxs.put (.new none txList)).map fun active =>
          ({ pool' with activeTxs := active }, sendSimRequestsForTx newTx simSender)
      else some (pool', [])

/-- SRCLINE: transaction/pool.rs:96-107 -/
def handleSimulated (pool : TxPool) (simulatedTx : SimulatedTx) : Option TxPool :=
  match pool.poolData.lookup simulatedTx.sender with
  | none => some pool
  | some txList =>
    (pool.activeTxs.put (.new (some simulatedTx) txList)).map fun active =>
      { pool with activeTxs := active }

/-- What `handleSimulated` asserts in a debug build.
SRCLINE: transaction/pool.rs:96-107 -/
def handleSimulatedAsserts (pool : TxPool) (simulatedTx : SimulatedTx) : Bool :=
  match pool.poolData.lookup simulatedTx.sender with
  | none => true
  | some txList => SimulatedTxList.newAsserts (some simulatedTx) txList

/-- SRCLINE: transaction/pool.rs:109-118 -/
def remove (pool : TxPool) (sender : Address) (nonce : UInt64) : Option TxPool :=
  let poolData := match pool.poolData.lookup sender with
    | none => pool.poolData
    | some txList =>
      match txList.forward nonce with
      | (true, _) => pool.poolData.erase sender
      | (false, txList) => pool.poolData.insert sender txList
  (pool.activeTxs.forward sender nonce).map fun active => { poolData, activeTxs := active }

/-- One transaction after the other is removed, as by `remove`.
SRCLINE: transaction/pool.rs:120-132 -/
def removeMinedTxs (pool : TxPool) : List (Address × UInt64) → Option TxPool
  | [] => some pool
  | (sender, nonce) :: mined =>
    match pool.remove sender nonce with
    | none => none
    | some pool => removeMinedTxs pool mined

/-- What every removal keeps holds when all of them were made. -/
theorem removeMinedTxs_induction {I : TxPool → Prop} {pool pool' : TxPool}
    {mined : List (Address × UInt64)}
    (hstep : ∀ pool sender nonce pool', (sender, nonce) ∈ mined → I pool →
      pool.remove sender nonce = some pool' → I pool')
    (hpool : I pool) (h : pool.removeMinedTxs mined = some pool') : I pool' := by
  induction mined generalizing pool with
  | nil =>
    obtain rfl := Option.some.inj h
    exact hpool
  | cons first rest ih =>
    rw [removeMinedTxs] at h
    split at h
    · cases h
    · rename_i pool₁ hremove
      refine ih ?_ (hstep pool first.1 first.2 pool₁ List.mem_cons_self hpool hremove) h
      exact fun p sender nonce p' hmem => hstep p sender nonce p' (List.mem_cons_of_mem _ hmem)

/-- The loop that fills the list of the senders that can be mined. -/
def fillActive (getNonce : Address → UInt64) (baseFee : UInt64) (simSender : Bool) :
    List (Address × TxList) → Active → Option (Active × List Transaction)
  | [], active => some (active, [])
  | (sender, txList) :: rest, active =>
    match txList.ready (getNonce sender) baseFee with
    | none => fillActive getNonce baseFee simSender rest active
    | some ready =>
      match ready.peek with
      | none => none
      | some first =>
        match active.put (.new none txList) with
        | none => none
        | some active =>
          (fillActive getNonce baseFee simSender rest active).map fun (active, requests) =>
            (active, sendSimRequestsForTx first simSender ++ requests)

/-- SRCLINE: transaction/pool.rs:134-161 -/
def handleNewBlock (pool : TxPool) (mined : List (Address × UInt64)) (baseFee : UInt64)
    (getNonce : Address → UInt64) (syncing simSender : Bool) :
    Option (TxPool × List Transaction) :=
  match ({ pool with activeTxs := .empty } : TxPool).removeMinedTxs mined with
  | none => none
  | some pool =>
    if syncing then some (pool, [])
    else
      (fillActive getNonce baseFee simSender
        (pool.poolData.entries.map fun e => (e.1, e.2)) pool.activeTxs).map
        fun (active, requests) => ({ pool with activeTxs := active }, requests)

end TxPool

end BasedOp.Model.Gateway
