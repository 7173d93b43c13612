import BasedOp.Computation.FiniteMap
import BasedOp.Computation.Runs
import BasedOp.Model.ReadCaches
import BasedOp.Model.SequencerState

/-!
# Reads and what is persisted

A read of an account or a storage slot goes through a cache. It gives what the tables hold
exactly if the entry of the cache, if there is one, does. Reads and dropped entries keep
that. A commit keeps it but for the slots of a destroyed account, which stay cached, and but
for what it has put into the caches if the tables are then not written; rolling back keeps it
only for what it does not change, since it leaves the caches alone.
-/

set_option autoImplicit false

namespace BasedOp.Analysis.CacheCoherence

open BasedOp.Computation Model Model.Gateway

/-! ## What a commit puts into the caches -/

/-- The value of a slot among those of an account. -/
def presentValueAt (index : U256) : ChangedStorage → Option U256
  | [] => none
  | (i, slot) :: rest =>
    (presentValueAt index rest).or (if i = index then some slot.presentValue else none)

/-- The slots that were changed are overwritten. -/
theorem lookup_insertSlots (address : Address) (slots : ChangedStorage) (index : U256)
    (storage : HashMap (Address × U256) U256) :
    (ReadCaches.insertSlots storage address slots).lookup (address, index) =
      (presentValueAt index slots).or (storage.lookup (address, index)) := by
  induction slots generalizing storage with
  | nil => rfl
  | cons slot slots ih =>
    obtain ⟨i, slot⟩ := slot
    have hrec := ih (storage.insert (address, i) slot.presentValue)
    simp only [ReadCaches.insertSlots, List.foldl_cons, presentValueAt] at hrec ⊢
    rw [hrec, Option.or_assoc]
    congr 1
    split
    · rename_i heq
      rw [heq, AList.lookup_insert, Option.some_or]
    · rename_i hne
      rw [AList.lookup_insert_ne (by simpa using Ne.symm hne), Option.none_or]

variable {address : Address}

/-- Slots of other accounts stay. -/
theorem lookup_insertSlots_ne {other : Address} (h : other ≠ address) (slots : ChangedStorage)
    (index : U256) (storage : HashMap (Address × U256) U256) :
    (ReadCaches.insertSlots storage address slots).lookup (other, index) =
      storage.lookup (other, index) := by
  induction slots generalizing storage with
  | nil => rfl
  | cons slot slots ih =>
    have hrec := ih (storage.insert (address, slot.1) slot.2.presentValue)
    simp only [ReadCaches.insertSlots, List.foldl_cons] at hrec ⊢
    rw [hrec, AList.lookup_insert_ne (by simp [h])]

/-- An account of the bundle is cached unless it was destroyed. -/
theorem lookup_accountInfo_update (caches : ReadCaches) (changes : BundleState)
    (address : Address) :
    (caches.update changes).accountInfo.lookup address =
      (changes.state.lookup address).elim (caches.accountInfo.lookup address) fun account =>
        if account.wasDestroyed then none else some account.info := by
  refine foldl_of_local (fun caches address => caches.accountInfo.lookup address)
    (fun account _ => if account.wasDestroyed then none else some account.info)
    ?_ ?_ changes.state caches address
  · intro caches address account
    simp only [ReadCaches.updateAccount]
    split
    · exact AList.lookup_erase _ _
    · exact AList.lookup_insert _
  · intro caches address account other hne
    simp only [ReadCaches.updateAccount]
    split
    · exact AList.lookup_erase_ne hne
    · exact AList.lookup_insert_ne hne

/-- The slots of an account of the bundle are cached unless it was destroyed; then
those that were cached stay. -/
theorem lookup_storage_update (caches : ReadCaches) (changes : BundleState) (address : Address)
    (index : U256) :
    (caches.update changes).storage.lookup (address, index) =
      (changes.state.lookup address).elim (caches.storage.lookup (address, index)) fun account =>
        if account.wasDestroyed then caches.storage.lookup (address, index)
        else (presentValueAt index account.storage).or
          (caches.storage.lookup (address, index)) := by
  have hlocal := foldl_of_local (f := ReadCaches.updateAccount)
    (fun caches address index => caches.storage.lookup (address, index))
    (fun account old index => if account.wasDestroyed then old index
      else (presentValueAt index account.storage).or (old index))
    ?_ ?_ changes.state caches address
  · have hindex := congrFun hlocal index
    cases hlookup : changes.state.lookup address <;>
      simp only [hlookup, Option.elim] at hindex ⊢ <;> exact hindex
  · intro caches address account
    funext index
    simp only [ReadCaches.updateAccount]
    split
    · rfl
    · exact lookup_insertSlots address account.storage index caches.storage
  · intro caches address account other hne
    funext index
    simp only [ReadCaches.updateAccount]
    split
    · rfl
    · exact lookup_insertSlots_ne hne account.storage index caches.storage

variable {caches : ReadCaches} {changes : BundleState}

/-- An account that is cached after a commit was so before and is not in the bundle, or is
that of the bundle. -/
theorem accountInfo_update_cases {v : Option AccountInfo}
    (h : (caches.update changes).accountInfo.lookup address = some v) :
    (changes.state.lookup address = none ∧ caches.accountInfo.lookup address = some v) ∨
      ∃ account, changes.state.lookup address = some account ∧ account.wasDestroyed = false ∧
        account.info = v := by
  rw [lookup_accountInfo_update] at h
  cases hlookup : changes.state.lookup address with
  | none =>
    rw [hlookup] at h
    exact .inl ⟨rfl, h⟩
  | some account =>
    rw [hlookup, Option.elim_some] at h
    cases hd : account.wasDestroyed with
    | true =>
      rw [hd] at h
      cases h
    | false =>
      rw [hd] at h
      exact .inr ⟨account, rfl, hd, Option.some.inj h⟩

/-- A slot that is cached after a commit has the value that the bundle gives it, or was cached
before and the bundle has none for it; that of a destroyed account was cached before. -/
theorem storage_update_cases {index v : U256}
    (h : (caches.update changes).storage.lookup (address, index) = some v) :
    (caches.storage.lookup (address, index) = some v ∧
        ∀ account, changes.state.lookup address = some account → account.wasDestroyed = false →
          presentValueAt index account.storage = none) ∨
      ∃ account, changes.state.lookup address = some account ∧ account.wasDestroyed = false ∧
        presentValueAt index account.storage = some v := by
  rw [lookup_storage_update] at h
  cases hlookup : changes.state.lookup address with
  | none =>
    rw [hlookup] at h
    exact .inl ⟨h, by rintro account ⟨⟩⟩
  | some account =>
    rw [hlookup, Option.elim_some] at h
    cases hd : account.wasDestroyed with
    | true =>
      rw [hd] at h
      refine .inl ⟨h, fun other heq hother => ?_⟩
      obtain rfl := Option.some.inj heq
      exact absurd (hd.symm.trans hother) Bool.noConfusion
    | false =>
      rw [hd] at h
      cases hpresent : presentValueAt index account.storage with
      | none =>
        rw [hpresent] at h
        refine .inl ⟨h, fun other heq _ => ?_⟩
        obtain rfl := Option.some.inj heq
        exact hpresent
      | some =>
        rw [hpresent] at h
        exact .inr ⟨account, rfl, hd, hpresent.trans h⟩

/-! ## Coherence -/

/-- Accounts are compared without their code, which the table of accounts does not hold. -/
def SameInfo (a b : Option AccountInfo) : Prop :=
  a.map AccountInfo.copyWithoutCode = b.map AccountInfo.copyWithoutCode

/-- An account is the same as itself. -/
theorem sameInfo_refl (a : Option AccountInfo) : SameInfo a a := rfl

/-- What is assumed of the writes: they persist a bundle exactly. A destroyed account loses all
its slots but for those it was given again. -/
structure WritesExactly {S : Type} (crates : Crates S) : Prop where
  basic : ∀ tables number (changes : BundleState) address,
    SameInfo (crates.basicRef (crates.writeState tables number changes) address)
      ((changes.state.lookup address).elim (crates.basicRef tables address) BundleAccount.info)
  storage : ∀ tables number (changes : BundleState) address index,
    crates.storageRef (crates.writeState tables number changes) address index =
      (changes.state.lookup address).elim (crates.storageRef tables address index) fun account =>
        (presentValueAt index account.storage).getD
          (if account.wasDestroyed then 0 else crates.storageRef tables address index)

section

variable {S : Type} (crates : Crates S)

/-- Every read that returns a value returns the one that the tables hold.
SRCLINE: crates/db/src/lib.rs:235-249 -/
def ReadsPersisted (s : CachedDB S) : Prop :=
  (∀ address readable v, (s.basicRef crates address readable).1 = some v →
      SameInfo v (crates.basicRef s.db.tables address)) ∧
    ∀ address index readable v, (s.storageRef crates address index readable).1 = some v →
      v = crates.storageRef s.db.tables address index

/-- What an operation has to leave alone. A commit: the cached slots of the accounts
that it destroys, but for those it gives the same value again. A commit that fails: what it
would change of accounts that it does not destroy. Rolling back: what is cached. -/
def KeepsCaches (s : CachedDB S) : DbOp → Prop
  | .commitBlockUnchecked _ changes .committed =>
    ∀ address account, changes.state.lookup address = some account → account.wasDestroyed = true →
      ∀ index v, s.caches.storage.lookup (address, index) = some v →
        v = (presentValueAt index account.storage).getD 0
  | .commitBlockUnchecked _ changes .writeFails =>
    ∀ address account, changes.state.lookup address = some account → account.wasDestroyed = false →
      SameInfo account.info (crates.basicRef s.db.tables address) ∧
        ∀ index v, presentValueAt index account.storage = some v →
          v = crates.storageRef s.db.tables address index
  | .rollBackHead true =>
    let unwound := crates.unwindState s.db.tables s.db.headBlockNumber
    (∀ address v, s.caches.accountInfo.lookup address = some v →
        SameInfo (crates.basicRef s.db.tables address) (crates.basicRef unwound address)) ∧
      ∀ address index v, s.caches.storage.lookup (address, index) = some v →
        crates.storageRef s.db.tables address index = crates.storageRef unwound address index
  | _ => True

variable {crates}

/-- Reads are right exactly if both caches are coherent. -/
theorem readsPersisted_iff {s : CachedDB S} :
    ReadsPersisted crates s ↔
      Coherent SameInfo s.caches.accountInfo (crates.basicRef s.db.tables) ∧
        Coherent Eq s.caches.storage fun key => crates.storageRef s.db.tables key.1 key.2 := by
  refine and_congr (readThrough_iff sameInfo_refl) (Iff.trans ?_ (readThrough_iff fun _ => rfl))
  exact ⟨fun h key readable v => h key.1 key.2 readable v,
    fun h address index readable v => h (address, index) readable v⟩

section

variable {caches : ReadCaches} {tables : S}

/-- After a commit the accounts agree. -/
theorem coherent_accounts_committed (hcrates : WritesExactly crates)
    (h : Coherent SameInfo caches.accountInfo (crates.basicRef tables)) (number : UInt64)
    (changes : BundleState) :
    Coherent SameInfo (caches.update changes).accountInfo
      (crates.basicRef (crates.writeState tables number changes)) := by
  intro address v hv
  have hwritten := hcrates.basic tables number changes address
  obtain ⟨hlookup, hold⟩ | ⟨account, hlookup, -, rfl⟩ := accountInfo_update_cases hv
  · rw [hlookup] at hwritten
    exact (h address v hold).trans hwritten.symm
  · rw [hlookup] at hwritten
    exact hwritten.symm

/-- After a commit the slots agree, but for destroyed accounts. -/
theorem coherent_slots_committed (hcrates : WritesExactly crates)
    (h : Coherent Eq caches.storage fun key => crates.storageRef tables key.1 key.2)
    (number : UInt64) (changes : BundleState) :
    (∀ address account, changes.state.lookup address = some account →
        account.wasDestroyed = true → ∀ index v, caches.storage.lookup (address, index) = some v →
          v = (presentValueAt index account.storage).getD 0) ↔
      Coherent Eq (caches.update changes).storage fun key =>
        crates.storageRef (crates.writeState tables number changes) key.1 key.2 := by
  constructor
  · rintro hdestroyed ⟨address, index⟩ v hv
    dsimp only
    rw [hcrates.storage]
    obtain ⟨hold, hnone⟩ | ⟨account, hlookup, -, hpresent⟩ := storage_update_cases hv
    · cases hlookup : changes.state.lookup address with
      | none => exact h (address, index) v hold
      | some account =>
        rw [Option.elim_some]
        cases hd : account.wasDestroyed with
        | true => exact hdestroyed address account hlookup hd index v hold
        | false =>
          rw [hnone account hlookup hd]
          exact h (address, index) v hold
    · rw [hlookup, Option.elim_some, hpresent]
      rfl
  · intro hcoherent address account hlookup hd index v hv
    have hkept := lookup_storage_update caches changes address index
    rw [hlookup, Option.elim_some, hd, if_pos rfl, hv] at hkept
    have hwritten := hcoherent (address, index) v hkept
    dsimp only at hwritten
    rw [hcrates.storage, hlookup, Option.elim_some, hd, if_pos rfl] at hwritten
    exact hwritten

/-- After a failed commit accounts agree if none changed. -/
theorem coherent_accounts_fails
    (h : Coherent SameInfo caches.accountInfo (crates.basicRef tables)) (changes : BundleState) :
    (∀ address account, changes.state.lookup address = some account →
        account.wasDestroyed = false → SameInfo account.info (crates.basicRef tables address)) ↔
      Coherent SameInfo (caches.update changes).accountInfo (crates.basicRef tables) := by
  constructor
  · intro hsame address v hv
    obtain ⟨-, hold⟩ | ⟨account, hlookup, hd, rfl⟩ := accountInfo_update_cases hv
    · exact h address v hold
    · exact hsame address account hlookup hd
  · intro hcoherent address account hlookup hd
    refine hcoherent address account.info ?_
    rw [lookup_accountInfo_update, hlookup, Option.elim_some, hd]
    rfl

/-- After a failed commit slots agree if none changed. -/
theorem coherent_slots_fails
    (h : Coherent Eq caches.storage fun key => crates.storageRef tables key.1 key.2)
    (changes : BundleState) :
    (∀ address account, changes.state.lookup address = some account →
        account.wasDestroyed = false → ∀ index v, presentValueAt index account.storage = some v →
          v = crates.storageRef tables address index) ↔
      Coherent Eq (caches.update changes).storage fun key =>
        crates.storageRef tables key.1 key.2 := by
  constructor
  · rintro hsame ⟨address, index⟩ v hv
    obtain ⟨hold, -⟩ | ⟨account, hlookup, hd, hpresent⟩ := storage_update_cases hv
    · exact h (address, index) v hold
    · exact hsame address account hlookup hd index v hpresent
  · intro hcoherent address account hlookup hd index v hpresent
    refine hcoherent (address, index) v ?_
    rw [lookup_storage_update, hlookup, Option.elim_some, hd, hpresent]
    rfl

end

/-! ## Sequences of operations -/

variable (crates) in
/-- An operation of the database. -/
def dbStep (s : CachedDB S) (op : DbOp) : Option (CachedDB S) :=
  some (s.step crates op)

/-- After an operation reads are right exactly if it has left alone what it must. -/
theorem readsPersisted_step (hcrates : WritesExactly crates) {s : CachedDB S} (op : DbOp)
    (hs : ReadsPersisted crates s) :
    KeepsCaches crates s op ↔ ReadsPersisted crates (s.step crates op) := by
  obtain ⟨haccounts, hslots⟩ := readsPersisted_iff.mp hs
  rw [readsPersisted_iff]
  cases op with
  | basicRef address readable =>
    exact iff_of_true trivial ⟨haccounts.readThrough sameInfo_refl address readable, hslots⟩
  | storageRef address index readable =>
    exact iff_of_true trivial
      ⟨haccounts, hslots.readThrough (fun _ => rfl) (address, index) readable⟩
  | dropAccount address => exact iff_of_true trivial ⟨haccounts.erase address, hslots⟩
  | dropSlot address index => exact iff_of_true trivial ⟨haccounts, hslots.erase (address, index)⟩
  | commitBlockUnchecked block changes ending =>
    cases ending with
    | noProvider => exact iff_of_true trivial ⟨haccounts, hslots⟩
    | writeFails =>
      refine Iff.trans ?_ (and_congr (coherent_accounts_fails haccounts changes)
        (coherent_slots_fails hslots changes))
      exact ⟨fun h => ⟨fun a acc hl hd => (h a acc hl hd).1, fun a acc hl hd => (h a acc hl hd).2⟩,
        fun h a acc hl hd => ⟨h.1 a acc hl hd, h.2 a acc hl hd⟩⟩
    | committed =>
      have hwritten := coherent_accounts_committed hcrates haccounts block.header.number changes
      exact (coherent_slots_committed hcrates hslots block.header.number changes).trans
        (and_iff_right hwritten).symm
  | rollBackHead succeeds =>
    cases succeeds with
    | false => exact iff_of_true trivial ⟨haccounts, hslots⟩
    | true =>
      constructor
      · rintro ⟨hsame, hequal⟩
        exact ⟨fun a v hv => (haccounts a v hv).trans (hsame a v hv),
          fun key v hv => (hslots key v hv).trans (hequal key.1 key.2 v hv)⟩
      · rintro ⟨hsame, hequal⟩
        exact ⟨fun a v hv => (haccounts a v hv).symm.trans (hsame a v hv),
          fun a i v hv => (hslots (a, i) v hv).symm.trans (hequal (a, i) v hv)⟩

/-- From a database that has cached nothing, every read at every point of a sequence of
operations returns what the tables hold exactly if every operation leaves alone what it must.
SRCLINE: db/src/cache.rs:30-71, crates/db/src/lib.rs:125-249 -/
theorem reads_persisted_iff (hcrates : WritesExactly crates) (db : SequencerDB S)
    (ops : List DbOp) :
    (∀ before after s, ops = before ++ after →
        runSteps (dbStep crates) ⟨db, .new⟩ before = some s → ReadsPersisted crates s) ↔
      Along (dbStep crates) (KeepsCaches crates) ⟨db, .new⟩ ops := by
  have hstart : ReadsPersisted crates ⟨db, .new⟩ :=
    readsPersisted_iff.mpr ⟨coherent_empty, coherent_empty⟩
  refine (along_iff_throughout (fun s op hs => ?_) hstart).symm
  rw [readsPersisted_step hcrates op hs]
  exact ⟨fun h s' hs' => Option.some.inj hs' ▸ h, fun h => h _ rfl⟩

end

/-! ## Tables to run the operations with -/

/-- The accounts and slots that are persisted. -/
structure PlainState where
  account : Address → Option AccountInfo
  storage : Address → U256 → U256

def PlainState.empty : PlainState where
  account := fun _ => none
  storage := fun _ _ => 0

def PlainState.write (tables : PlainState) (changes : BundleState) : PlainState where
  account := fun address => (changes.state.lookup address).elim (tables.account address)
    fun account => account.info.map AccountInfo.copyWithoutCode
  storage := fun address index =>
    (changes.state.lookup address).elim (tables.storage address index) fun account =>
      (presentValueAt index account.storage).getD
        (if account.wasDestroyed then 0 else tables.storage address index)

/-- The states after each block, the last one first. -/
def stateCrates : Crates (List PlainState) :=
  { plainCrates with
    basicRef := fun states address => (states.headD .empty).account address
    codeByHashRef := fun _ _ => []
    storageRef := fun states address index => (states.headD .empty).storage address index
    calculateStateRoot := fun _ _ => 0
    writeState := fun states _ changes => (states.headD .empty).write changes :: states
    unwindState := fun states _ => states.tail }

/-- The example tables are written exactly. -/
theorem writesExactly_stateCrates : WritesExactly stateCrates where
  basic := by
    intro states number changes address
    change SameInfo ((changes.state.lookup address).elim _ _) _
    cases changes.state.lookup address with
    | none => exact sameInfo_refl _
    | some account =>
      cases hinfo : account.info <;> simp [SameInfo, hinfo, AccountInfo.copyWithoutCode]
  storage := fun _ _ _ _ _ => rfl

/-- A bundle with one account. -/
def oneAccount (info : Option AccountInfo) (storage : ChangedStorage) (status : AccountStatus) :
    BundleState :=
  { BundleState.empty with
    state := (∅ : HashMap Address BundleAccount).insert 7
      { info, originalInfo := none, storage, status } }

def richInfo : AccountInfo where
  balance := 5
  nonce := 1
  codeHash := 0
  code := none

/-- A block that gives an account a balance and a slot. -/
def richChanges : BundleState := oneAccount (some richInfo) [(1, ⟨0, 3⟩)] .inMemoryChange

def stateDB : CachedDB (List PlainState) := ⟨⟨[(0, 1)], []⟩, .new⟩

def commitOp (payload : ExecutionPayload) (changes : BundleState) (ending : CommitEnd) : DbOp :=
  .commitBlockUnchecked (plainBlock payload) changes ending

/-- What a commit has written is read. -/
theorem reads_persisted_commit :
    ∃ s, runSteps (dbStep stateCrates) stateDB
        [commitOp plainPayload1 richChanges .committed, .storageRef 7 1 true] = some s ∧
      (s.storageRef stateCrates 7 1 true).1 = some 3 ∧ ReadsPersisted stateCrates s := by
  have halong : Along (dbStep stateCrates) (KeepsCaches stateCrates) stateDB
      [commitOp plainPayload1 richChanges .committed, .storageRef 7 1 true] :=
    ⟨fun _ _ _ _ _ _ hv => (nomatch hv), fun _ _ => ⟨trivial, fun _ _ => trivial⟩⟩
  exact ⟨_, rfl, rfl, (reads_persisted_iff writesExactly_stateCrates _ _).mpr halong _ [] _
    (List.append_nil _).symm rfl⟩

/-- Three ways to read what the tables do not hold: after the block was rolled back, after its
writing has failed, and after the account with a cached slot was destroyed. -/
theorem reads_not_persisted :
    (∃ s, runSteps (dbStep stateCrates) stateDB
        [commitOp plainPayload1 richChanges .committed, .rollBackHead true] = some s ∧
      (s.basicRef stateCrates 7 true).1 = some (some richInfo) ∧
      stateCrates.basicRef s.db.tables 7 = none) ∧
    (∃ s, runSteps (dbStep stateCrates) stateDB
        [commitOp plainPayload1 richChanges .writeFails] = some s ∧
      (s.basicRef stateCrates 7 true).1 = some (some richInfo) ∧
      stateCrates.basicRef s.db.tables 7 = none) ∧
    ∃ s, runSteps (dbStep stateCrates) stateDB
        [commitOp plainPayload1 richChanges .committed,
          commitOp plainPayload2 (oneAccount none [] .destroyed) .committed] = some s ∧
      (s.storageRef stateCrates 7 1 true).1 = some 3 ∧
      stateCrates.storageRef s.db.tables 7 1 = 0 :=
  ⟨⟨_, rfl, rfl, rfl⟩, ⟨_, rfl, rfl, rfl⟩, ⟨_, rfl, rfl, rfl⟩⟩

end BasedOp.Analysis.CacheCoherence
