import BasedOp.Model.ChainDatabase

/-!
# What `commit_block` can do

The ways through `BlockSync::commit_block` over any database: each case says what was read and
done on the way, and what comes of it.
-/

set_option autoImplicit false

namespace BasedOp.Analysis.CommitSteps

open Model Model.Gateway

variable {σ ε : Type}

/-- The loop over the pending blocks, the lowest of which comes first.
SRCLINE: block_sync/mod.rs:103-127 -/
inductive Drains (db : ChainDatabase σ ε) (commit : Bool) :
    σ → List BlockWithSenders → CallOutcome σ ε → Prop
  | done {s : σ} : Drains db commit s [] (.ok none, ⟨[]⟩, s)
  | unread {s : σ} {block : BlockWithSenders} {rest : List BlockWithSenders} {err : ε}
      (hhead : db.headBlockNumber s = .error err) :
      Drains db commit s (block :: rest) (.error err, ⟨(block :: rest).reverse⟩, s)
  | waits {s : σ} {block : BlockWithSenders} {rest : List BlockWithSenders} {head : UInt64}
      (hhead : db.headBlockNumber s = .ok head) (hnumber : block.header.number ≠ head + 1) :
      Drains db commit s (block :: rest) (.ok none, ⟨(block :: rest).reverse⟩, s)
  | reorgs {s s' : σ} {block : BlockWithSenders} {rest : List BlockWithSenders} {head : UInt64}
      {headHash : Hash} {rolled : Except ε Unit} (hhead : db.headBlockNumber s = .ok head)
      (hnumber : block.header.number = head + 1) (hhash : db.headBlockHash s = some headHash)
      (hparent : block.header.parentHash ≠ headHash) (hroll : db.rollBackHead s = (rolled, s')) :
      Drains db commit s (block :: rest)
        (rolled.map fun _ => some (block.header.number - 1, block.header.number),
          ⟨rest.reverse⟩, s')
  | rejects {s s' : σ} {block : BlockWithSenders} {rest : List BlockWithSenders} {head : UInt64}
      {err : ε} (hhead : db.headBlockNumber s = .ok head)
      (hnumber : block.header.number = head + 1)
      (hparent : db.headBlockHash s = some block.header.parentHash)
      (hexec : db.executeAndMaybeCommit s block commit = (.error err, s')) :
      Drains db commit s (block :: rest) (.error err, ⟨rest.reverse⟩, s')
  | applies {s s₁ : σ} {block : BlockWithSenders} {rest : List BlockWithSenders} {head : UInt64}
      {out : CallOutcome σ ε} (hhead : db.headBlockNumber s = .ok head)
      (hnumber : block.header.number = head + 1)
      (hparent : db.headBlockHash s = some block.header.parentHash)
      (hexec : db.executeAndMaybeCommit s block commit = (.ok (), s₁))
      (hrest : Drains db commit s₁ rest out) : Drains db commit s (block :: rest) out

/-- What is done with a block of the number after the head.
SRCLINE: block_sync/mod.rs:83-144 -/
inductive CommitsOnHead (search : PendingSearch) (db : ChainDatabase σ ε) (commit : Bool)
    (sync : BlockSync) (s : σ) (block : BlockWithSenders) : CallOutcome σ ε → Prop
  | unrolled {s' : σ} {headHash : Hash} {err : ε} (hhash : db.headBlockHash s = some headHash)
      (hpositive : block.header.number ≠ 0) (hparent : headHash ≠ block.header.parentHash)
      (hroll : db.rollBackHead s = (.error err, s')) :
      CommitsOnHead search db commit sync s block (.error err, sync, s')
  | reorgs {s' : σ} {headHash : Hash} {head : UInt64} (hhash : db.headBlockHash s = some headHash)
      (hpositive : block.header.number ≠ 0) (hparent : headHash ≠ block.header.parentHash)
      (hroll : db.rollBackHead s = (.ok (), s')) (hhead : db.headBlockNumber s' = .ok head) :
      CommitsOnHead search db commit sync s block
        (.ok (some (head, block.header.number)),
          ChainDatabase.insertPendingBlock search sync block, s')
  | rejects {s' : σ} {err : ε}
      (hparent : block.header.number ≠ 0 → db.headBlockHash s = some block.header.parentHash)
      (hexec : db.executeAndMaybeCommit s block commit = (.error err, s')) :
      CommitsOnHead search db commit sync s block (.error err, sync, s')
  | commits {s₁ : σ} {out : CallOutcome σ ε}
      (hparent : block.header.number ≠ 0 → db.headBlockHash s = some block.header.parentHash)
      (hexec : db.executeAndMaybeCommit s block commit = (.ok (), s₁))
      (hdrains : Drains db commit s₁ sync.pendingBlocks.reverse out) :
      CommitsOnHead search db commit sync s block out

/-- SRCLINE: block_sync/mod.rs:45-144 -/
inductive CommitsBlock (search : PendingSearch) (hashSlow : Header → Hash) (db : ChainDatabase σ ε)
    (rounds : ℕ) (sync : BlockSync) (block : BlockWithSenders) (s : σ) (commit : Bool) :
    CallOutcome σ ε → Prop
  | unread {err : ε} (hhead : db.headBlockNumber s = .error err) :
      CommitsBlock search hashSlow db rounds sync block s commit (.error err, sync, s)
  | waits {head : UInt64} (hhead : db.headBlockNumber s = .ok head)
      (hgap : head + 1 < block.header.number) :
      CommitsBlock search hashSlow db rounds sync block s commit
        (.ok (some (head + 1, block.header.number - 1)),
          ChainDatabase.insertPendingBlock search sync block, s)
  | known {head : UInt64} (hhead : db.headBlockNumber s = .ok head)
      (hpositive : block.header.number ≠ 0) (hle : block.header.number ≤ head)
      (hhash : db.blockHashRef s block.header.number = some (hashSlow block.header)) :
      CommitsBlock search hashSlow db rounds sync block s commit (.ok none, sync, s)
  | unrolled {s' : σ} {head : UInt64} {hash : Hash} {err : ε}
      (hhead : db.headBlockNumber s = .ok head) (hnext : block.header.number ≤ head + 1)
      (hpositive : block.header.number ≠ 0) (hle : block.header.number ≤ head)
      (hhash : db.blockHashRef s block.header.number = some hash)
      (hnew : hash ≠ hashSlow block.header)
      (hroll : db.rollBackTo block.header.number rounds s = some (.error err, s')) :
      CommitsBlock search hashSlow db rounds sync block s commit (.error err, sync, s')
  | replaces {s₁ : σ} {head : UInt64} {hash : Hash} {out : CallOutcome σ ε}
      (hhead : db.headBlockNumber s = .ok head) (hnext : block.header.number ≤ head + 1)
      (hpositive : block.header.number ≠ 0) (hle : block.header.number ≤ head)
      (hhash : db.blockHashRef s block.header.number = some hash)
      (hnew : hash ≠ hashSlow block.header)
      (hroll : db.rollBackTo block.header.number rounds s = some (.ok (), s₁))
      (hcommits : CommitsOnHead search db commit sync s₁ block out) :
      CommitsBlock search hashSlow db rounds sync block s commit out
  | follows {head : UInt64} {out : CallOutcome σ ε} (hhead : db.headBlockNumber s = .ok head)
      (hnext : block.header.number ≤ head + 1)
      (hgt : block.header.number ≠ 0 → head < block.header.number)
      (hcommits : CommitsOnHead search db commit sync s block out) :
      CommitsBlock search hashSlow db rounds sync block s commit out

variable {search : PendingSearch} {hashSlow : Header → Hash} {db : ChainDatabase σ ε}
  {rounds : ℕ} {sync : BlockSync} {block : BlockWithSenders} {s : σ} {commit : Bool}
  {out : CallOutcome σ ε}

/-- The loop over the pending blocks takes these steps. -/
theorem drains_of_drainPending {pending : List BlockWithSenders}
    (h : db.drainPending commit s pending = some out) : Drains db commit s pending out := by
  induction pending generalizing s with
  | nil =>
    cases h
    exact .done
  | cons block rest ih =>
    unfold ChainDatabase.drainPending at h
    split at h
    · rename_i hhead
      cases h
      exact .unread hhead
    · rename_i head hhead
      split at h
      · rename_i hnumber
        cases h
        exact .waits hhead hnumber
      · rename_i hnumber
        have hnumber := not_not.mp hnumber
        split at h
        · cases h
        · rename_i headHash hhash
          split at h
          · rename_i hparent
            split at h <;> rename_i hroll <;> cases h
            · exact .reorgs hhead hnumber hhash hparent hroll
            · exact .reorgs hhead hnumber hhash hparent hroll
          · rename_i hparent
            rw [← not_not.mp hparent] at hhash
            split at h <;> rename_i hexec
            · cases h
              exact .rejects hhead hnumber hhash hexec
            · exact .applies hhead hnumber hhash hexec (ih h)

/-- So does a commit on the head. -/
theorem commitsOnHead_of_commitOnHead (h : db.commitOnHead search sync s block commit = some out) :
    CommitsOnHead search db commit sync s block out := by
  unfold ChainDatabase.commitOnHead at h
  split at h
  · cases h
  · rename_i headHash hhash
    split at h
    · rename_i hreorg
      split at h
      · rename_i hroll
        cases h
        exact .unrolled hhash hreorg.1 hreorg.2 hroll
      · rename_i hroll
        split at h
        · cases h
        · rename_i head hhead
          cases h
          exact .reorgs hhash hreorg.1 hreorg.2 hroll hhead
    · rename_i hfits
      have hparent : block.header.number ≠ 0 →
          db.headBlockHash s = some block.header.parentHash := by
        intro hpositive
        rw [hhash]
        by_contra hne
        exact hfits ⟨hpositive, fun heq => hne (congrArg some heq)⟩
      split at h <;> rename_i hexec
      · cases h
        exact .rejects hparent hexec
      · exact .commits hparent hexec (drains_of_drainPending h)

/-- Every call that returns has gone one of the ways. -/
theorem commitsBlock_of_commitBlock
    (h : db.commitBlock search hashSlow rounds sync block s commit = some out) :
    CommitsBlock search hashSlow db rounds sync block s commit out := by
  unfold ChainDatabase.commitBlock at h
  dsimp only at h
  split at h
  · rename_i hhead
    cases h
    exact .unread hhead
  · rename_i head hhead
    split at h
    · rename_i hgap
      cases h
      exact .waits hhead hgap
    · rename_i hnext
      have hnext := UInt64.not_lt.mp hnext
      split at h
      · rename_i hle
        split at h
        · cases h
        · rename_i hash hhash
          split at h
          · rename_i hknown
            cases h
            rw [hknown] at hhash
            exact .known hhead hle.1 hle.2 hhash
          · rename_i hnew
            split at h
            · cases h
            · rename_i hroll
              cases h
              exact .unrolled hhead hnext hle.1 hle.2 hhash hnew hroll
            · rename_i hroll
              exact .replaces hhead hnext hle.1 hle.2 hhash hnew hroll
                (commitsOnHead_of_commitOnHead h)
      · rename_i hgt
        refine .follows hhead hnext (fun hpositive => ?_) (commitsOnHead_of_commitOnHead h)
        exact UInt64.not_le.mp fun hle => hgt ⟨hpositive, hle⟩

end BasedOp.Analysis.CommitSteps
