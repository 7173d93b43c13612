import BasedOp.Model.SequencerState

/-!
# Blocks that are rejected

A block whose execution fails, or whose state root is not the one in its header, makes
`commit_block` return an error. The database and the pending blocks are then as before,
unless the database was rolled back first: that is done for every unknown block whose number
the head has reached, before the block is looked at any further, and is not undone.
-/

set_option autoImplicit false

namespace BasedOp.Analysis.RejectedBlocks

open Model Model.Gateway

variable {block : BlockWithSenders} {sync' : BlockSync} {err err' : BlockSyncError}

section

variable {S : Type} {crates : Crates S}
variable (crates) in
/-- The database that a block is executed on, once it is rolled back to below it.
SRCLINE: block_sync/mod.rs:66-82 -/
def executionBase (db : SequencerDB S) (block : BlockWithSenders) : SequencerDB S :=
  if block.header.number ≠ 0 ∧ block.header.number ≤ db.headBlockNumber then
    SequencerDB.rollBackTo crates block.header.number db.canonicalHeaders db.tables
  else db

variable (crates) in
/-- Rolling back adds no header. -/
theorem length_rollBackTo_le (number : UInt64) (rows : List (UInt64 × Hash)) (tables : S) :
    (SequencerDB.rollBackTo crates number rows tables).canonicalHeaders.length ≤ rows.length := by
  induction rows generalizing tables with
  | nil => exact Nat.le_refl _
  | cons row rest ih =>
    unfold SequencerDB.rollBackTo
    split
    · exact Nat.le_succ_of_le (ih _)
    · exact Nat.le_refl _

variable {db : SequencerDB S}
variable (crates) in
/-- A head that the number of the block does not exceed is taken away. -/
theorem length_executionBase_lt (hne : block.header.number ≠ 0)
    (hle : block.header.number ≤ db.headBlockNumber) :
    (executionBase crates db block).canonicalHeaders.length < db.canonicalHeaders.length := by
  rw [executionBase, if_pos ⟨hne, hle⟩]
  obtain ⟨rows, tables⟩ := db
  cases rows with
  | nil => exact absurd (UInt64.le_zero_iff.mp hle) hne
  | cons row rest =>
    have hrow : row.1 ≥ block.header.number := hle
    unfold SequencerDB.rollBackTo
    rw [if_pos hrow]
    exact Nat.lt_succ_of_le (length_rollBackTo_le crates _ rest _)

variable {db' : SequencerDB S}

/-- On the database it is executed on, a block that fails changes nothing. -/
theorem commitOnHead_of_fails {sync : BlockSync} {commit : Bool}
    (hfails : db.execute crates block = .error err)
    (h : BlockSync.commitOnHead crates sync db block commit = (.error err', sync', db')) :
    err' = err ∧ sync' = sync ∧ db' = db := by
  unfold BlockSync.commitOnHead at h
  split at h
  · cases h
  · simp only [SequencerDB.executeAndMaybeCommit, hfails] at h
    cases h
    exact ⟨rfl, rfl, rfl⟩

/-- If the execution of the block fails, an error is that one, and the database is left as it
was for the execution. -/
theorem commitBlock_of_fails {sync : BlockSync} {commit : Bool}
    (hfails : (executionBase crates db block).execute crates block = .error err)
    (h : BlockSync.commitBlock crates sync block db commit = some (.error err', sync', db')) :
    err' = err ∧ sync' = sync ∧ db' = executionBase crates db block := by
  unfold BlockSync.commitBlock at h
  dsimp only at h
  unfold executionBase at hfails ⊢
  split at h
  · cases h
  · split at h
    · rename_i hreached
      rw [if_pos hreached] at hfails ⊢
      split at h
      · cases h
      · split at h
        · cases h
        · exact commitOnHead_of_fails hfails (Option.some.inj h)
    · rename_i habove
      rw [if_neg habove] at hfails ⊢
      exact commitOnHead_of_fails hfails (Option.some.inj h)

/-- When `commit_block` returns an error and the execution or validation of its block
has failed, the database and the pending blocks are as before exactly if the block is the
genesis block or above the head.
SRCLINE: block_sync/mod.rs:45-144 -/
theorem rejected_changes_nothing_iff {sync sync' : BlockSync} {db db' : SequencerDB S}
    {block : BlockWithSenders} {commit : Bool} {err err' : BlockSyncError}
    (hfails : (executionBase crates db block).execute crates block = .error err)
    (h : BlockSync.commitBlock crates sync block db commit = some (.error err', sync', db')) :
    (db'.canonicalHeaders = db.canonicalHeaders ∧ db'.tables = db.tables ∧
        sync'.pendingBlocks = sync.pendingBlocks) ↔
      block.header.number = 0 ∨ db.headBlockNumber < block.header.number := by
  obtain ⟨-, rfl, rfl⟩ := commitBlock_of_fails hfails h
  constructor
  · rintro ⟨hrows, -, -⟩
    by_contra hreached
    obtain ⟨hne, hle⟩ := not_or.mp hreached
    have hshort := length_executionBase_lt crates hne (UInt64.not_lt.mp hle)
    rw [hrows] at hshort
    exact Nat.lt_irrefl _ hshort
  · intro habove
    have hnot : ¬(block.header.number ≠ 0 ∧ block.header.number ≤ db.headBlockNumber) := by
      rintro ⟨hne, hle⟩
      obtain hzero | hlt := habove
      · exact hne hzero
      · exact UInt64.not_lt.mpr hle hlt
    rw [executionBase, if_neg hnot]
    exact ⟨rfl, rfl, rfl⟩

end

/-! ## Two blocks that are rejected -/

/-- Another block on the genesis block, with a state root that is not the one its execution
gives. -/
def wrongRoot : BlockWithSenders :=
  { plainBlock plainPayload1 with
    header := { (plainBlock plainPayload1).header with timestamp := 110, stateRoot := 1 } }

/-- The gateway's database after the first block. -/
def plainDB1 : SequencerDB ℕ :=
  plainDB.commitBlockUnchecked plainCrates (plainBlock plainPayload1) .empty

/-- On the genesis block it is rejected and nothing changes, and the block that waits for one
of its number goes on waiting. -/
theorem rejected_changes_nothing_onHead :
    ∃ sync' db', BlockSync.commitBlock plainCrates ⟨[plainBlock plainPayload2]⟩ wrongRoot plainDB
        true = some (.error (.stateRoot 0 1), sync', db') ∧
      db'.canonicalHeaders = plainDB.canonicalHeaders ∧ db'.tables = plainDB.tables ∧
      sync'.pendingBlocks = [plainBlock plainPayload2] := by
  have hcall : BlockSync.commitBlock plainCrates ⟨[plainBlock plainPayload2]⟩ wrongRoot plainDB
      true = some (.error (.stateRoot 0 1), ⟨[plainBlock plainPayload2]⟩, plainDB) := rfl
  have hfails : (executionBase plainCrates plainDB wrongRoot).execute plainCrates wrongRoot =
      .error (.stateRoot 0 1) := rfl
  exact ⟨_, _, hcall, (rejected_changes_nothing_iff hfails hcall).mpr (.inr (by decide))⟩

/-- When the first block has been committed, the same block takes it away before it is rejected. -/
theorem rejected_rolls_back :
    ∃ db', BlockSync.commitBlock plainCrates .new wrongRoot plainDB1 true =
        some (.error (.stateRoot 0 1), .new, db') ∧
      (executionBase plainCrates plainDB1 wrongRoot).execute plainCrates wrongRoot =
        .error (.stateRoot 0 1) ∧
      plainDB1.canonicalHeaders.map (·.1) = [1, 0] ∧ plainDB1.tables = 1 ∧
      db'.canonicalHeaders.map (·.1) = [0] ∧ db'.tables = 0 :=
  ⟨plainDB, rfl, rfl, rfl, rfl, rfl, rfl⟩

end BasedOp.Analysis.RejectedBlocks
