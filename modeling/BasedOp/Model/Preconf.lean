import BasedOp.Computation.Cascade
import BasedOp.Computation.FiniteMap
import BasedOp.Model.PreconfMessages

/-!
# The preconfirmation state of op-node

`PreconfState` (op-node/rollup/engine/preconf.go) receives envs, frags and seals
in any order, forwards to the execution engine those that are ready, and keeps
the others until they are.

`putEnv`, `putFrag` and `putSeal` call one another, always as the last thing they
do and always on a message just taken out of a pending map. Each is therefore
modelled by its body up to that call, together with the call; `cascade` ties the
three bodies together, and `putEnv_eq`, `putFrag_eq` and `putSeal_eq` give back
the recursion of the source. The results of the engine calls are ignored by the
source, so the engine is the list of the calls it has received.
-/

set_option autoImplicit false

namespace BasedOp.Model.OpNode

open BasedOp.Computation

/-- The position of a frag.
SRCLINE: preconf.go:58-61 -/
structure FragIndex where
  blockNumber : UInt64
  sequence : UInt64
deriving DecidableEq

/-- SRCLINE: preconf.go:63-65 -/
def index (f : NewFrag) : FragIndex :=
  { blockNumber := f.blockNumber, sequence := f.seq }

/-- SRCLINE: preconf.go:67-69 -/
def FragIndex.prev (fi : FragIndex) : FragIndex :=
  { blockNumber := fi.blockNumber, sequence := fi.sequence - 1 }

/-- SRCLINE: preconf.go:71-73 -/
def FragIndex.next (fi : FragIndex) : FragIndex :=
  { blockNumber := fi.blockNumber, sequence := fi.sequence + 1 }

/-- `Option.IsEqual`: the value is set and equal to the one passed.
SRCLINE: preconf.go:26-29 -/
def isEqual {α : Type} [DecidableEq α] (o : Option α) (v : α) : Bool :=
  decide (o = some v)

/-- The preconfirmation state; `e` lists the calls made to the engine, oldest first.
SRCLINE: preconf.go:75-96 -/
structure PreconfState where
  lastEnvSent : Option UInt64
  lastFragSent : Option FragIndex
  lastSealSent : Option UInt64
  lastL2BlockSent : Option UInt64
  lastBlockWithAllFrags : Option UInt64
  lastBlockPruned : UInt64
  pendingEnvs : GoMap UInt64 SignedEnv
  pendingFrags : GoMap FragIndex SignedNewFrag
  pendingSeals : GoMap UInt64 SignedSeal
  e : List Message

/-- SRCLINE: preconf.go:98-114 -/
def newPreconfState : PreconfState where
  lastEnvSent := none
  lastFragSent := none
  lastSealSent := none
  lastL2BlockSent := none
  lastBlockWithAllFrags := none
  lastBlockPruned := 0
  pendingEnvs := ∅
  pendingFrags := ∅
  pendingSeals := ∅
  e := []

/-- The amount of blocks that are not pruned back from the current block.
SRCLINE: preconf.go:203-204 -/
def pruneSafeWindow : UInt64 := 2

variable {s : PreconfState} {m : Message}

namespace PreconfState

/-- Forward a message to the engine api. -/
def send (s : PreconfState) (m : Message) : PreconfState := { s with e := s.e ++ [m] }

/-- Drop the pending messages that are too old. The comparison is made on the
wrapped difference, as in the source.
SRCLINE: preconf.go:206-233 -/
def prune (s : PreconfState) (currentBlock : UInt64) : PreconfState :=
  if currentBlock - s.lastBlockPruned < 2 * pruneSafeWindow then s
  else
    let latestBlock := currentBlock - pruneSafeWindow
    { s with
      pendingEnvs := discard (fun key => decide (key < latestBlock)) s.pendingEnvs
      pendingSeals := discard (fun key => decide (key < latestBlock)) s.pendingSeals
      pendingFrags := discard (fun key => decide (key.blockNumber < latestBlock)) s.pendingFrags
      lastBlockPruned := latestBlock }

/-- Take the pending env of a block out of its map, for `putEnv`.
SRCLINE: preconf.go:181-185,194-198 -/
def takePendingEnv (s : PreconfState) (key : UInt64) : PreconfState × Option Message :=
  match s.pendingEnvs.lookup key with
  | some nextEnv => ({ s with pendingEnvs := s.pendingEnvs.erase key }, some (.env nextEnv))
  | none => (s, none)

/-- Take a pending frag out of its map, for `putFrag`.
SRCLINE: preconf.go:133-137,163-167 -/
def takePendingFrag (s : PreconfState) (key : FragIndex) : PreconfState × Option Message :=
  match s.pendingFrags.lookup key with
  | some nextFrag => ({ s with pendingFrags := s.pendingFrags.erase key }, some (.newFrag nextFrag))
  | none => (s, none)

/-- Take the pending seal of a block out of its map, for `putSeal`.
SRCLINE: preconf.go:157-161 -/
def takePendingSeal (s : PreconfState) (key : UInt64) : PreconfState × Option Message :=
  match s.pendingSeals.lookup key with
  | some nextSeal => ({ s with pendingSeals := s.pendingSeals.erase key }, some (.sealFrag nextSeal))
  | none => (s, none)

/-- The body of `putEnv` up to the call of `putFrag` it may end in.
SRCLINE: preconf.go:124-141 -/
def putEnvBody (s : PreconfState) (sEnv : SignedEnv) : PreconfState × Option Message :=
  let env := sEnv.env
  if !s.lastSealSent.isSome || isEqual s.lastSealSent (env.number - 1) ||
      isEqual s.lastL2BlockSent env.number then
    let s := { s with lastEnvSent := some env.number }
    let s := s.send (.env sEnv)
    let s := s.prune env.number
    s.takePendingFrag { blockNumber := env.number, sequence := 0 }
  else if env.number ≥ s.lastBlockPruned then
    ({ s with pendingEnvs := s.pendingEnvs.insert env.number sEnv }, none)
  else (s, none)

/-- The body of `putFrag` up to the call of `putSeal` or `putFrag` it may end in.
SRCLINE: preconf.go:145-172 -/
def putFragBody (s : PreconfState) (sFrag : SignedNewFrag) : PreconfState × Option Message :=
  let frag := sFrag.frag
  let idx := index frag
  let isFirst := frag.seq == 0 && isEqual s.lastEnvSent frag.blockNumber
  let previousSent := isEqual s.lastFragSent idx.prev
  if isFirst || previousSent then
    let s := { s with lastFragSent := some idx }
    let s := s.send (.newFrag sFrag)
    if frag.isLast then
      let s := { s with lastBlockWithAllFrags := some idx.blockNumber }
      s.takePendingSeal idx.blockNumber
    else
      s.takePendingFrag idx.next
  else if idx.blockNumber ≥ s.lastBlockPruned then
    ({ s with pendingFrags := s.pendingFrags.insert idx sFrag }, none)
  else (s, none)

/-- The body of `putSeal` up to the call of `putEnv` it may end in.
SRCLINE: preconf.go:174-189 -/
def putSealBody (s : PreconfState) (sSeal : SignedSeal) : PreconfState × Option Message :=
  let sl := sSeal.sealData
  if isEqual s.lastBlockWithAllFrags sl.blockNumber then
    let s := { s with lastSealSent := some sl.blockNumber }
    let s := s.send (.sealFrag sSeal)
    s.takePendingEnv (sl.blockNumber + 1)
  else if sl.blockNumber ≥ s.lastBlockPruned then
    ({ s with pendingSeals := s.pendingSeals.insert sl.blockNumber sSeal }, none)
  else (s, none)

/-- The body of the put function of a message. -/
def putBody (s : PreconfState) : Message → PreconfState × Option Message
  | .env sEnv => s.putEnvBody sEnv
  | .newFrag sFrag => s.putFragBody sFrag
  | .sealFrag sSeal => s.putSealBody sSeal

def pendingCount (s : PreconfState) : ℕ :=
  mapSize s.pendingEnvs + mapSize s.pendingFrags + mapSize s.pendingSeals

/-- Pruning adds nothing pending. -/
theorem pendingCount_prune_le (s : PreconfState) (n : UInt64) :
    (s.prune n).pendingCount ≤ s.pendingCount := by
  unfold prune
  split
  · exact le_rfl
  · have he := mapSize_discard_le (fun key => decide (key < n - pruneSafeWindow)) s.pendingEnvs
    have hf := mapSize_discard_le
      (fun key : FragIndex => decide (key.blockNumber < n - pruneSafeWindow)) s.pendingFrags
    have hs := mapSize_discard_le (fun key => decide (key < n - pruneSafeWindow)) s.pendingSeals
    simp only [pendingCount]
    omega

/-- Taking an env leaves fewer. -/
theorem pendingCount_takePendingEnv {key : UInt64} (h : (s.takePendingEnv key).2 = some m) :
    (s.takePendingEnv key).1.pendingCount < s.pendingCount := by
  unfold takePendingEnv at h ⊢
  cases hlook : s.pendingEnvs.lookup key with
  | none => simp [hlook] at h
  | some =>
    have hsize := mapSize_erase_of_lookup hlook
    simp only [pendingCount]
    omega

/-- Taking a frag leaves fewer. -/
theorem pendingCount_takePendingFrag {key : FragIndex} (h : (s.takePendingFrag key).2 = some m) :
    (s.takePendingFrag key).1.pendingCount < s.pendingCount := by
  unfold takePendingFrag at h ⊢
  cases hlook : s.pendingFrags.lookup key with
  | none => simp [hlook] at h
  | some =>
    have hsize := mapSize_erase_of_lookup hlook
    simp only [pendingCount]
    omega

/-- Taking a seal leaves fewer. -/
theorem pendingCount_takePendingSeal {key : UInt64} (h : (s.takePendingSeal key).2 = some m) :
    (s.takePendingSeal key).1.pendingCount < s.pendingCount := by
  unfold takePendingSeal at h ⊢
  cases hlook : s.pendingSeals.lookup key with
  | none => simp [hlook] at h
  | some =>
    have hsize := mapSize_erase_of_lookup hlook
    simp only [pendingCount]
    omega

/-- A put function only calls another on a message that it has just
taken out of a pending map, so one pending message fewer is left. -/
theorem pendingCount_putBody_lt (s : PreconfState) (m m' : Message)
    (h : (s.putBody m).2 = some m') : (s.putBody m).1.pendingCount < s.pendingCount := by
  cases m with
  | env sEnv =>
    simp only [putBody, putEnvBody] at h ⊢
    split_ifs at h ⊢
    have hprune := pendingCount_prune_le
      ({ s with lastEnvSent := some sEnv.env.number }.send (.env sEnv)) sEnv.env.number
    exact Nat.lt_of_lt_of_le (pendingCount_takePendingFrag h) hprune
  | newFrag =>
    simp only [putBody, putFragBody] at h ⊢
    split_ifs at h ⊢
    · exact pendingCount_takePendingSeal h
    · exact pendingCount_takePendingFrag h
  | sealFrag =>
    simp only [putBody, putSealBody] at h ⊢
    split_ifs at h ⊢
    exact pendingCount_takePendingEnv h

/-- The mutual recursion of the three put functions. -/
def cascade : Cascade PreconfState Message where
  step := putBody
  size := pendingCount
  size_lt := pendingCount_putBody_lt

/-- Put a message: `putEnv`, `putFrag` or `putSeal`, by its kind. -/
def put (s : PreconfState) (m : Message) : PreconfState := cascade.run s m

/-- SRCLINE: preconf.go:123-141 -/
def putEnv (s : PreconfState) (sEnv : SignedEnv) : PreconfState := s.put (.env sEnv)

/-- SRCLINE: preconf.go:143-172 -/
def putFrag (s : PreconfState) (sFrag : SignedNewFrag) : PreconfState := s.put (.newFrag sFrag)

/-- SRCLINE: preconf.go:174-189 -/
def putSeal (s : PreconfState) (sSeal : SignedSeal) : PreconfState := s.put (.sealFrag sSeal)

/-- SRCLINE: preconf.go:191-201 -/
def putL2Block (s : PreconfState) (block : L2BlockRef) : PreconfState :=
  let s := { s with lastL2BlockSent := some block.number }
  let s := match s.takePendingEnv block.number with
    | (s, some nextEnv) => s.put nextEnv
    | (s, none) => s
  s.prune block.number

/-- The recursion of `putEnv` as the source writes it. -/
theorem putEnv_eq (s : PreconfState) (sEnv : SignedEnv) :
    s.putEnv sEnv = match s.putEnvBody sEnv with
      | (s', some next) => s'.put next
      | (s', none) => s' := by
  rw [putEnv, put, cascade.run_eq]
  rcases h : s.putEnvBody sEnv with ⟨s', _ | next⟩ <;> simp [cascade, putBody, h, put]

/-- The recursion of `putFrag` as the source writes it. -/
theorem putFrag_eq (s : PreconfState) (sFrag : SignedNewFrag) :
    s.putFrag sFrag = match s.putFragBody sFrag with
      | (s', some next) => s'.put next
      | (s', none) => s' := by
  rw [putFrag, put, cascade.run_eq]
  rcases h : s.putFragBody sFrag with ⟨s', _ | next⟩ <;> simp [cascade, putBody, h, put]

/-- The recursion of `putSeal` as the source writes it. -/
theorem putSeal_eq (s : PreconfState) (sSeal : SignedSeal) :
    s.putSeal sSeal = match s.putSealBody sSeal with
      | (s', some next) => s'.put next
      | (s', none) => s' := by
  rw [putSeal, put, cascade.run_eq]
  rcases h : s.putSealBody sSeal with ⟨s', _ | next⟩ <;> simp [cascade, putBody, h, put]

end PreconfState

/-- What the handler receives on one of its four channels. -/
inductive Event where
  | message (m : Message)
  | l2Block (block : L2BlockRef)
deriving DecidableEq

/-- One round of the handler's loop.
SRCLINE: preconf.go:241-252 -/
def handle (s : PreconfState) : Event → PreconfState
  | .message (.env sEnv) => s.putEnv sEnv
  | .message (.newFrag sFrag) => s.putFrag sFrag
  | .message (.sealFrag sSeal) => s.putSeal sSeal
  | .l2Block block => s.putL2Block block

/-- A message is put. -/
@[simp] theorem handle_message (s : PreconfState) (m : Message) :
    handle s (.message m) = s.put m := by
  cases m <;> rfl

/-- An L2 block is put. -/
@[simp] theorem handle_l2Block (s : PreconfState) (block : L2BlockRef) :
    handle s (.l2Block block) = s.putL2Block block := rfl

/-- The handler after the given events; `select` may take the channels in any
order, so every list of events is a run.
SRCLINE: preconf.go:238-253 -/
def preconfHandler (s : PreconfState) (events : List Event) : PreconfState :=
  events.foldl handle s

end BasedOp.Model.OpNode
