import BasedOp.Model.FragState

/-!
# The two ways to read a state

A `State` can be read with `basic` and `storage`, which fill its cache, and with `basic_ref` and
`storage_ref`, which leave it as it is. The infos agree. The slots do not: of an account that was
destroyed or created, `storage` gives zero for a slot that is not in the cache, while
`storage_ref` asks the database, which may still have the slot of before (`readsAgree_iff`).
-/

set_option autoImplicit false

namespace BasedOp.Analysis.StateReads

open Model Model.Gateway

variable {S : Type}

/-- What is assumed of `revm`: an account is loaded with the info it is given and with the slots
it is given, which are none. -/
structure LoadsAccounts (crates : Crates S) : Prop where
  notExisting : crates.newLoadedNotExisting.account = none
  loaded : ∀ info, (crates.newLoaded info).account = some { info, storage := ∅ }
  empty : ∃ info, crates.newLoadedEmptyEip161.account = some { info, storage := ∅ }

/-- The account that is put in the cache for what the database says. -/
def loadedAccount (crates : Crates S) : Option AccountInfo → CacheAccount
  | none => crates.newLoadedNotExisting
  | some acc => if crates.isEmpty acc then crates.newLoadedEmptyEip161 else crates.newLoaded acc

variable {crates : Crates S} {database : DbView} {s : State} {address : Address}
  {acc : CacheAccount}

/-- A cached account is not loaded. -/
theorem loadCacheAccount_of_some (h : s.accounts.lookup address = some acc) :
    s.loadCacheAccount crates database address = s := by
  unfold State.loadCacheAccount
  rw [h]

/-- Another one is loaded. -/
theorem loadCacheAccount_of_none (h : s.accounts.lookup address = none) :
    s.loadCacheAccount crates database address =
      { s with accounts :=
          s.accounts.insert address (loadedAccount crates (database.basic address)) } := by
  cases hdb : database.basic address with
  | none => simp only [State.loadCacheAccount, loadedAccount, h, hdb]
  | some => simp only [State.loadCacheAccount, loadedAccount, h, hdb]

/-! ## When the reads agree -/

/-- For every account in the cache both ways of reading give the same slots, and for every
account the same info. -/
def ReadsAgree (crates : Crates S) (database : DbView) (s : State) : Prop :=
  (∀ address acc index, s.accounts.lookup address = some acc →
    s.storage crates database address index = some ((s.view database).storage address index)) ∧
  ∀ address, s.basic crates database address = (s.view database).basic address

/-- Where an account in the cache has no storage, or all of it is known, the database has no
slots but those in the cache. -/
def KnownSlots (crates : Crates S) (database : DbView) (s : State) : Prop :=
  ∀ address acc index, s.accounts.lookup address = some acc → acc.storageSlot index = none →
    acc.account = none ∨ crates.isStorageKnown acc.status = true →
    database.storage address index = 0

/-- An empty account of the database is the one that is loaded for it. -/
def EmptyAsLoaded (crates : Crates S) (database : DbView) (s : State) : Prop :=
  ∀ address info, s.accounts.lookup address = none → database.basic address = some info →
    crates.isEmpty info = true → crates.newLoadedEmptyEip161.accountInfo = some info

/-- The view reads the cached slot. -/
theorem view_storage_of_some (h : s.accounts.lookup address = some acc) (index : U256) :
    (s.view database).storage address index =
      (acc.storageSlot index).getD (database.storage address index) := by
  unfold State.view
  dsimp only
  rw [h]
  dsimp only
  cases acc.storageSlot index <;> rfl

/-- `storage` knows of destroyed storage. -/
theorem storage_of_some (h : s.accounts.lookup address = some acc) (index : U256) :
    s.storage crates database address index = some ((acc.storageSlot index).getD
      (if acc.account.isNone || crates.isStorageKnown acc.status then 0
        else database.storage address index)) := by
  unfold State.storage CacheAccount.storageSlot
  rw [h]
  dsimp only
  cases acc.account with
  | none => rfl
  | some =>
    rw [Option.bind_some]
    dsimp only
    split
    · rename_i hslot
      rw [hslot, Option.getD_some]
    · rename_i hslot
      rw [hslot, Option.getD_none]
      rfl

/-- The two reads of a slot differ in what they take for one that is not in the cache. -/
theorem storage_agrees_iff (h : s.accounts.lookup address = some acc) (index : U256) :
    s.storage crates database address index = some ((s.view database).storage address index) ↔
      (acc.storageSlot index = none →
        acc.account = none ∨ crates.isStorageKnown acc.status = true →
        database.storage address index = 0) := by
  rw [storage_of_some h, view_storage_of_some h, Option.some.injEq]
  cases acc.storageSlot index with
  | some value => exact iff_of_true rfl fun hnone => absurd hnone (Option.some_ne_none value)
  | none =>
    rw [Option.getD_none, Option.getD_none]
    by_cases hknown : acc.account = none ∨ crates.isStorageKnown acc.status = true
    · rw [if_pos (by simpa using hknown)]
      constructor
      · intro hzero _ _
        exact hzero.symm
      · intro hzero
        exact (hzero rfl hknown).symm
    · rw [if_neg (by simpa using hknown)]
      exact iff_of_true rfl fun _ hor => absurd hor hknown

/-- The info of an account. -/
theorem basic_agrees_iff (hload : LoadsAccounts crates) (address : Address) :
    s.basic crates database address = (s.view database).basic address ↔
      ∀ info, s.accounts.lookup address = none → database.basic address = some info →
        crates.isEmpty info = true → crates.newLoadedEmptyEip161.accountInfo = some info := by
  unfold State.basic State.view
  dsimp only
  cases hlookup : s.accounts.lookup address with
  | some =>
    rw [loadCacheAccount_of_some hlookup, hlookup]
    simp
  | none =>
    rw [loadCacheAccount_of_none hlookup, AList.lookup_insert, Option.bind_some]
    unfold loadedAccount
    cases database.basic address with
    | none => simp [CacheAccount.accountInfo, hload.notExisting]
    | some info =>
      dsimp only
      by_cases hempty : crates.isEmpty info = true
      · rw [if_pos hempty]
        simp [hempty]
      · rw [if_neg hempty]
        simp [CacheAccount.accountInfo, hload.loaded, hempty]

/-- Both ways of reading a state agree exactly if the database has no slots that the state knows
to be zero, and the empty accounts that are not in the cache are the ones that are loaded.
SRCLINE: db/state.rs:233-235,256-281,314-336 -/
theorem readsAgree_iff {crates : Crates S} (hload : LoadsAccounts crates) (database : DbView)
    (s : State) :
    ReadsAgree crates database s ↔
      KnownSlots crates database s ∧ EmptyAsLoaded crates database s := by
  constructor
  · rintro ⟨hstorage, hbasic⟩
    constructor
    · intro address acc index hacc
      exact (storage_agrees_iff hacc index).mp (hstorage address acc index hacc)
    · intro address info
      exact (basic_agrees_iff hload address).mp (hbasic address) info
  · rintro ⟨hslots, hempty⟩
    constructor
    · intro address acc index hacc
      exact (storage_agrees_iff hacc index).mpr (hslots address acc index hacc)
    · intro address
      exact (basic_agrees_iff hload address).mpr fun info => hempty address info

/-! ## Crates with the accounts of `revm` -/

/-- The slots of an account with the changed ones written over them. -/
def writeSlots (slots : HashMap U256 U256) (changed : ChangedStorage) : HashMap U256 U256 :=
  changed.foldr (fun slot slots => slots.insert slot.1 slot.2.presentValue) slots

def revmSelfdestruct (acc : CacheAccount) : CacheAccount × Option TransitionAccount :=
  ({ account := none, status := .destroyed },
    some
      { info := none
        status := .destroyed
        previousInfo := acc.accountInfo
        previousStatus := acc.status
        storage := []
        storageWasDestroyed := true })

/-- A change of an account that leaves it in a status. -/
def revmChange (slots : CacheAccount → HashMap U256 U256) (status : AccountStatus)
    (acc : CacheAccount) (info : AccountInfo) (changed : ChangedStorage) :
    CacheAccount × TransitionAccount :=
  ({ account := some { info, storage := writeSlots (slots acc) changed }, status },
    { info := some info
      status := status
      previousInfo := acc.accountInfo
      previousStatus := acc.status
      storage := changed
      storageWasDestroyed := false })

/-- The plain crates with accounts whose slots are kept: a change writes over those that were
there, a created account begins without any, and a destroyed one has none. -/
def revmCrates : Crates ℕ :=
  { plainCrates with
    isStorageKnown := fun status => status == .loadedNotExisting || status == .inMemoryChange ||
      status == .destroyed || status == .destroyedChanged || status == .destroyedAgain
    selfdestruct := revmSelfdestruct
    newlyCreated := revmChange (fun _ => ∅) .inMemoryChange
    touchEmptyEip161 := fun _ => ({ account := none, status := .destroyed }, none)
    touchCreatePreEip161 := fun _ changed =>
      ({ account := some { info := ⟨0, 0, 0, none⟩, storage := writeSlots ∅ changed }
         status := .inMemoryChange }, none)
    change := revmChange (fun acc => (acc.account.map PlainAccount.storage).getD ∅) .changed }

/-- The example loads accounts. -/
theorem loadsAccounts_revmCrates : LoadsAccounts revmCrates where
  notExisting := rfl
  loaded := fun _ => rfl
  empty := ⟨_, rfl⟩

/-- A database with one account, whose slots all have the given value. -/
def oneAccount (value : U256) : DbView where
  basic address := if address = 7 then some ⟨5, 1, 0, none⟩ else none
  codeByHash _ := []
  storage address _ := if address = 7 then value else 0
  blockHash _ := none

/-- What an execution leaves of the account, with the given flags. -/
def leaves (isCreated isSelfdestructed : Bool) : EvmState :=
  [(7, { info := ⟨5, 2, 0, none⟩, storage := [], isTouched := true, isCreated, isSelfdestructed })]

/-- An account without slots. -/
theorem readsAgree_without_slots :
    ReadsAgree revmCrates (oneAccount 0)
      (State.new.commitRef revmCrates (oneAccount 0) (leaves false true)) := by
  refine (readsAgree_iff loadsAccounts_revmCrates _ _).mpr ⟨?_, ?_⟩
  · intro address acc index _ _ _
    exact ite_self 0
  · intro address info _ hinfo hempty
    dsimp only [oneAccount] at hinfo
    split at hinfo
    · obtain rfl := Option.some.inj hinfo
      cases hempty
    · cases hinfo

/-- A slot of a destroyed account. -/
theorem stale_slot : ∀ isSelfdestructed,
    ((State.new.commitRef revmCrates (oneAccount 9) (leaves true isSelfdestructed)).accounts.lookup
      7).isSome = true ∧
    (State.new.commitRef revmCrates (oneAccount 9) (leaves true isSelfdestructed)).storage
      revmCrates (oneAccount 9) 7 0 = some 0 ∧
    ((State.new.commitRef revmCrates (oneAccount 9) (leaves true isSelfdestructed)).view
      (oneAccount 9)).storage 7 0 = 9 := by
  decide +kernel

/-- The two reads differ there. -/
theorem not_readsAgree (isSelfdestructed : Bool) :
    ¬ ReadsAgree revmCrates (oneAccount 9)
      (State.new.commitRef revmCrates (oneAccount 9) (leaves true isSelfdestructed)) := by
  rintro ⟨hstorage, -⟩
  obtain ⟨hsome, hzero, hstale⟩ := stale_slot isSelfdestructed
  obtain ⟨acc, hacc⟩ := Option.isSome_iff_exists.mp hsome
  have heq := hstorage 7 acc 0 hacc
  rw [hzero, hstale] at heq
  cases heq

/-- After the account was destroyed, or created anew, a slot of before is still found in the
database by the shared read.
SRCLINE: db/state.rs:268-271,330-333 -/
theorem reads_disagree :
    (¬ ReadsAgree revmCrates (oneAccount 9)
      (State.new.commitRef revmCrates (oneAccount 9) (leaves true true))) ∧
    ¬ ReadsAgree revmCrates (oneAccount 9)
      (State.new.commitRef revmCrates (oneAccount 9) (leaves true false)) :=
  ⟨not_readsAgree true, not_readsAgree false⟩

end BasedOp.Analysis.StateReads
