import BasedOp.Computation.Runs
import BasedOp.Analysis.SequencerFrames

/-!
# The parent of the block that is started

The sequencer takes every block that it commits as the parent of the next one, whether or
not that block has become the head of the database: a block that is known already, one
that is only kept for later, or one after which pending blocks were committed is taken as
well. So a block may be started on a parent that is not the head. It is not, if every
block after which the sequencer waits for a fork choice becomes the head
(`BecomesHead`), or is parked in a way that makes the sequencer fetch blocks first
(`Parks`).
-/

set_option autoImplicit false

namespace BasedOp.Analysis.ParentHead

open BasedOp.Computation Model Model.Gateway
open SequencerSteps SequencerFrames

variable {S : Type} (crates : Crates S)

/-! ## The parent and the head -/

/-- The parent in the context is the head of the database. -/
def ParentIsHead (ctx : SequencerContext S) : Prop :=
  ctx.parentHash = ctx.db.headBlockHash ∧ crates.hashSlow ctx.parentHeader = ctx.db.headBlockHash

/-! ## Blocks that become the head -/

/-- The database after it was rolled back for a block of a number.
SRCLINE: block_sync/mod.rs:66-82 -/
def rolledBack (db : SequencerDB S) (number : UInt64) : SequencerDB S :=
  if number ≤ db.headBlockNumber then
    SequencerDB.rollBackTo crates number db.canonicalHeaders db.tables
  else db

/-- The block has been committed before. -/
def Known (db : SequencerDB S) (header : Header) : Prop :=
  header.number ≤ db.headBlockNumber ∧
    db.blockHashRef header.number = some (crates.hashSlow header)

/-- No pending block comes right after a number. -/
def NoneAfter (sync : BlockSync) (number : UInt64) : Prop :=
  ∀ pending ∈ sync.pendingBlocks.getLast?, pending.header.number ≠ number + 1

/-- A block that is the head once it is committed: it is the head already, or it is new, follows the
head, or the block below it that the database is rolled back to, and no pending block follows it. -/
def BecomesHead (ctx : SequencerContext S) (header : Header) : Prop :=
  header.number ≠ 0 ∧ ¬ header.number > ctx.db.headBlockNumber + 1 ∧
    ((header.number = ctx.db.headBlockNumber ∧
        crates.hashSlow header = ctx.db.headBlockHash) ∨
      (¬ Known crates ctx.db header ∧
        (rolledBack crates ctx.db header.number).headBlockNumber + 1 = header.number ∧
        (rolledBack crates ctx.db header.number).headBlockHash = header.parentHash ∧
        NoneAfter ctx.blockExecutor header.number))

/-- A block that is kept for later, so that blocks have to be fetched first: it is ahead
of the head, or does not fit it. -/
def Parks (ctx : SequencerContext S) (header : Header) : Prop :=
  header.number > ctx.db.headBlockNumber + 1 ∨
    (header.number ≠ 0 ∧ ¬ Known crates ctx.db header ∧
      (rolledBack crates ctx.db header.number).headBlockHash ≠ header.parentHash)

instance (db : SequencerDB S) (header : Header) : Decidable (Known crates db header) :=
  inferInstanceAs (Decidable (_ ∧ _))

instance (sync : BlockSync) (number : UInt64) : Decidable (NoneAfter sync number) :=
  inferInstanceAs (Decidable (∀ pending ∈ sync.pendingBlocks.getLast?, _ ≠ _))

instance (ctx : SequencerContext S) (header : Header) : Decidable (BecomesHead crates ctx header) :=
  inferInstanceAs (Decidable (_ ∧ _ ∧ (_ ∨ _)))

instance (ctx : SequencerContext S) (header : Header) : Decidable (Parks crates ctx header) :=
  inferInstanceAs (Decidable (_ ∨ _))

variable {crates}

/-- A higher number comes on top. -/
theorem headBlockNumber_putHeader {number : UInt64} (hash : Hash)
    {headers : List (UInt64 × Hash)} (h : ∀ row ∈ headers.head?, row.1 < number) :
    putHeader number hash headers = (number, hash) :: headers := by
  cases headers with
  | nil => rfl
  | cons row =>
    have : row.1 < number := h row rfl
    simp [putHeader, this]

variable {db db' : SequencerDB S} {block : BlockWithSenders} {sync sync' : BlockSync}
  {fetch : Option (UInt64 × UInt64)} {ctx ctx' : SequencerContext S} {s s' : Sequencer S}

/-- A block on the head becomes the head when it is written. -/
theorem head_commitBlockUnchecked (state : BundleState)
    (hnumber : db.headBlockNumber + 1 = block.header.number) (hzero : block.header.number ≠ 0) :
    (db.commitBlockUnchecked crates block state).headBlockNumber = block.header.number ∧
      (db.commitBlockUnchecked crates block state).headBlockHash =
        crates.hashSlow block.header := by
  have hlower : ∀ row ∈ db.canonicalHeaders.head?, row.1 < block.header.number := by
    intro row hrow
    obtain ⟨headers, tables⟩ := db
    cases headers with
    | nil => cases hrow
    | cons first =>
      obtain rfl := Option.some.inj hrow
      have hsucc : first.1 + 1 = block.header.number := hnumber
      rw [UInt64.lt_iff_toNat_lt, toNat_of_eq_add_one hsucc.symm hzero]
      exact Nat.lt_succ_self _
  have hput := headBlockNumber_putHeader (crates.hashSlow block.header) hlower
  simp [SequencerDB.commitBlockUnchecked, SequencerDB.headBlockNumber, SequencerDB.headBlockHash,
    hput]

/-- Without a next block nothing is drained. -/
theorem drainPending_of_noneAfter (h : NoneAfter sync db.headBlockNumber) :
    ∃ sync', BlockSync.drainPending crates true db sync.pendingBlocks.reverse =
      (.ok none, sync', db) := by
  cases hreverse : sync.pendingBlocks.reverse with
  | nil => exact ⟨_, rfl⟩
  | cons pending =>
    have hlast : pending ∈ sync.pendingBlocks.getLast? := by
      rw [← List.head?_reverse, hreverse]
      rfl
    have hne : pending.header.number ≠ db.headBlockNumber + 1 := h pending hlast
    rw [BlockSync.drainPending, if_pos hne]
    exact ⟨_, rfl⟩

/-- A block that follows the head and is followed by no pending block becomes the head. -/
theorem head_of_commitOnHead (hzero : block.header.number ≠ 0)
    (hnumber : db.headBlockNumber + 1 = block.header.number)
    (hparent : db.headBlockHash = block.header.parentHash)
    (hnone : NoneAfter sync block.header.number)
    (h : BlockSync.commitOnHead crates sync db block true = (.ok fetch, sync', db')) :
    fetch = none ∧ db'.headBlockNumber = block.header.number ∧
      db'.headBlockHash = crates.hashSlow block.header := by
  unfold BlockSync.commitOnHead at h
  rw [if_neg (by simp [hparent])] at h
  split at h
  · cases h
  · rename_i db₁ hexec
    unfold SequencerDB.executeAndMaybeCommit at hexec
    split at hexec
    · cases hexec
    · rename_i state _
      obtain rfl : db.commitBlockUnchecked crates block state = db₁ := Except.ok.inj hexec
      obtain ⟨hheadNumber, hheadHash⟩ := head_commitBlockUnchecked state hnumber hzero
      have hnone' : NoneAfter sync (db.commitBlockUnchecked crates block state).headBlockNumber := by
        rw [hheadNumber]
        exact hnone
      obtain ⟨sync₁, hdrain⟩ := drainPending_of_noneAfter hnone'
      rw [hdrain] at h
      obtain ⟨hfetch, -, rfl⟩ : Except.ok none = Except.ok fetch ∧ _ ∧ _ = db' := by
        simpa only [Prod.mk.injEq] using h
      exact ⟨(Except.ok.inj hfetch).symm, hheadNumber, hheadHash⟩

/-- The hash of the head is found. -/
theorem blockHashRef_head (h : db.headBlockNumber ≠ 0) :
    db.blockHashRef db.headBlockNumber = some db.headBlockHash := by
  obtain ⟨headers, tables⟩ := db
  cases headers with
  | nil => exact absurd rfl h
  | cons =>
    simp [SequencerDB.blockHashRef, SequencerDB.headBlockNumber, SequencerDB.headBlockHash]

/-- What `BecomesHead` says of a block is what committing it does. -/
theorem head_of_becomesHead (hbecomes : BecomesHead crates ctx block.header)
    (h : ctx.blockExecutor.commitBlock crates block ctx.db true = some (.ok fetch, sync', db')) :
    fetch = none ∧ db'.headBlockNumber = block.header.number ∧
      db'.headBlockHash = crates.hashSlow block.header := by
  obtain ⟨hzero, hahead, hcase⟩ := hbecomes
  unfold BlockSync.commitBlock at h
  dsimp only at h
  rw [if_neg hahead] at h
  obtain ⟨hnumber, hhash⟩ | ⟨hnew, hnumber, hparent, hnone⟩ := hcase
  · -- the block is the head, which is the first row of the table
    have hrow : ctx.db.blockHashRef block.header.number = some ctx.db.headBlockHash := by
      rw [hnumber] at hzero ⊢
      exact blockHashRef_head hzero
    rw [if_pos ⟨hzero, UInt64.le_of_eq hnumber⟩, hrow] at h
    dsimp only at h
    rw [if_pos hhash.symm] at h
    obtain ⟨hfetch, -, rfl⟩ : Except.ok none = Except.ok fetch ∧ _ ∧ _ = db' := by
      simpa only [Option.some.injEq, Prod.mk.injEq] using h
    exact ⟨(Except.ok.inj hfetch).symm, hnumber.symm, hhash.symm⟩
  · by_cases hle : block.header.number ≤ ctx.db.headBlockNumber
    · rw [if_pos ⟨hzero, hle⟩] at h
      rw [rolledBack, if_pos hle] at hnumber hparent
      split at h
      · cases h
      · rename_i hash hrow
        rw [if_neg (fun heq => hnew ⟨hle, by rw [hrow, heq]⟩)] at h
        exact head_of_commitOnHead hzero hnumber hparent hnone (Option.some.inj h)
    · rw [if_neg (fun hboth => hle hboth.2)] at h
      rw [rolledBack, if_neg hle] at hnumber hparent
      exact head_of_commitOnHead hzero hnumber hparent hnone (Option.some.inj h)

/-- A wrong parent makes it fetch. -/
theorem fetch_of_commitOnHead (hzero : block.header.number ≠ 0)
    (hparent : db.headBlockHash ≠ block.header.parentHash)
    (h : BlockSync.commitOnHead crates sync db block true = (.ok fetch, sync', db')) :
    fetch ≠ none := by
  unfold BlockSync.commitOnHead at h
  rw [if_pos ⟨hzero, hparent⟩] at h
  obtain ⟨hfetch, -⟩ := Prod.mk.inj h
  rw [← Except.ok.inj hfetch]
  simp

/-- A block that is parked makes the sequencer fetch blocks. -/
theorem fetch_of_parks (hparks : Parks crates ctx block.header)
    (h : ctx.blockExecutor.commitBlock crates block ctx.db true = some (.ok fetch, sync', db')) :
    fetch ≠ none := by
  unfold BlockSync.commitBlock at h
  dsimp only at h
  by_cases hahead : block.header.number > ctx.db.headBlockNumber + 1
  · rw [if_pos hahead] at h
    obtain ⟨hfetch, -⟩ := Prod.mk.inj (Option.some.inj h)
    rw [← Except.ok.inj hfetch]
    simp
  · rw [if_neg hahead] at h
    obtain ⟨hzero, hnew, hparent⟩ := hparks.resolve_left hahead
    by_cases hle : block.header.number ≤ ctx.db.headBlockNumber
    · rw [if_pos ⟨hzero, hle⟩] at h
      rw [rolledBack, if_pos hle] at hparent
      split at h
      · cases h
      · rename_i hash hrow
        rw [if_neg (fun heq => hnew ⟨hle, by rw [hrow, heq]⟩)] at h
        exact fetch_of_commitOnHead hzero hparent (Option.some.inj h)
    · rw [if_neg (fun hboth => hle hboth.2)] at h
      rw [rolledBack, if_neg hle] at hparent
      exact fetch_of_commitOnHead hzero hparent (Option.some.inj h)

/-! ## The condition on the steps -/

/-- What the conversion of a payload into a block keeps. -/
def KeepsPayload (crates : Crates S) : Prop :=
  ∀ payload hashes root header txs,
    crates.tryIntoBlockWithSidecar payload hashes root = some (header, txs) →
      header.number = payload.blockNumber ∧ header.parentHash = payload.parentHash

variable (crates) in
/-- The header of a block after which the sequencer may wait for a fork choice: one that comes in a
payload, the last one of the sync, or one that the sync brings in while the sequencer waits.
SRCLINE: sequencer/src/lib.rs:210-237,372-408 -/
def lastHeader (s : Sequencer S) : Event → Option Header
  | .blockSync block =>
    match s.state with
    | .syncing last => if block.header.number = last then some block.header else none
    | .sorting _ _ => none
    | _ => some block.header
  | .engineApi (.newPayloadV3 payload hashes root) _ =>
    if awaits s.state ∧ ¬ payload.blockNumber > s.ctx.db.headBlockNumber + 1 ∧
        payload.blockHash ≠ s.ctx.db.headBlockHash then
      (payloadToBlock crates payload hashes root).map BlockWithSenders.header
    else none
  | _ => none

/-- Whether the sequencer goes on to fetch blocks if such a block is parked. A block that
the sync brings in while it waits does not make it do so.
SRCLINE: sequencer/src/lib.rs:397-402 -/
def fetches (s : Sequencer S) : Event → Bool
  | .blockSync _ => !awaits s.state
  | _ => true

/-- Whether an event asks for the payload of a block that is committed then. -/
def commitsSealed (s : Sequencer S) : Event → Bool
  | .engineApi .getPayloadV3 _ => s.ctx.config.commitSealedFragsToDb
  | _ => false

variable (crates) in
/-- Every block after which the sequencer may wait for a fork choice becomes the head, or is parked
and makes it fetch blocks; and no pending block follows a sealed block that is committed. -/
def KeepsHead (p : Process S) (e : Event) : Prop :=
  ∀ s ∈ p.sequencer,
    (∀ header ∈ lastHeader crates s e, BecomesHead crates s.ctx header ∨
      (fetches s e = true ∧ Parks crates s.ctx header)) ∧
    (commitsSealed s e = true → s.ctx.db.headBlockNumber + 1 ≠ 0 ∧
      NoneAfter s.ctx.blockExecutor (s.ctx.db.headBlockNumber + 1))

instance (p : Process S) (e : Event) : Decidable (KeepsHead crates p e) :=
  inferInstanceAs (Decidable (∀ s ∈ p.sequencer,
    (∀ header ∈ lastHeader crates s e, _ ∨ (_ ∧ _)) ∧ (_ → _ ∧ _)))

/-! ## The invariant -/

/-- The parent is the head, and has its number. -/
structure OnHead (crates : Crates S) (ctx : SequencerContext S) : Prop where
  isHead : ParentIsHead crates ctx
  number : ctx.parentHeader.number = ctx.db.headBlockNumber

/-- While blocks are fetched nothing is known of the parent. Before the first block it is
the default one, on which no block is started. -/
def HeadInv (crates : Crates S) (s : Sequencer S) : Prop :=
  match s.state with
  | .syncing _ => True
  | .sorting _ _ => OnHead crates s.ctx ∧ s.ctx.blockEnv.number = s.ctx.db.headBlockNumber + 1
  | _ => s.ctx.parentHeader.parentHash = 0 ∨ OnHead crates s.ctx

/-- The parent stays the head if the block does. -/
theorem OnHead.of_same (h : OnHead crates ctx) (hsame : SameBlock ctx ctx') :
    OnHead crates ctx' := by
  obtain ⟨⟨hparent, hheader⟩, hnumber⟩ := h
  refine ⟨⟨?_, ?_⟩, ?_⟩
  · rw [hsame.parentHash, hsame.db, hparent]
  · rw [hsame.parentHeader, hsame.db, hheader]
  · rw [hsame.parentHeader, hsame.db, hnumber]

/-- A block that becomes head is the parent. -/
theorem onHead_of_commits (hcommits : Commits crates ctx block ctx' fetch)
    (hbecomes : BecomesHead crates ctx block.header) : OnHead crates ctx' := by
  obtain ⟨-, hnumber, hhash⟩ := head_of_becomesHead hbecomes hcommits.outcome
  refine ⟨⟨?_, ?_⟩, ?_⟩
  · rw [hcommits.parentHash, hhash]
  · rw [hcommits.parentHeader, hhash]
  · rw [hcommits.parentHeader, hnumber]

/-- The invariant while waiting. -/
theorem headInv_awaits (hstate : awaits s.state = true) :
    HeadInv crates s ↔ (s.ctx.parentHeader.parentHash = 0 ∨ OnHead crates s.ctx) := by
  unfold HeadInv
  cases hs : s.state with
  | syncing => simp [hs, awaits] at hstate
  | sorting => simp [hs, awaits] at hstate
  | waitingForNewPayload => exact Iff.rfl
  | waitingForForkChoiceWithAttributes => exact Iff.rfl

variable {seq : FragSequence} {data : SortingData}

/-- The invariant while sorting. -/
theorem headInv_sorting (hstate : s.state = .sorting seq data) :
    HeadInv crates s ↔
      OnHead crates s.ctx ∧ s.ctx.blockEnv.number = s.ctx.db.headBlockNumber + 1 := by
  unfold HeadInv
  rw [hstate]

/-- Waiting on keeps the invariant. -/
theorem headInv_of_awaits (hinv : HeadInv crates s) (hstate : awaits s.state = true)
    (hstate' : awaits s'.state = true) (hsame : SameBlock s.ctx s'.ctx) : HeadInv crates s' := by
  refine (headInv_awaits hstate').mpr ?_
  obtain hzero | honHead := (headInv_awaits hstate).mp hinv
  · exact .inl (by rw [hsame.parentHeader, hzero])
  · exact .inr (honHead.of_same hsame)

/-- The sequencer stays in its state, up to what is sorted. -/
theorem headInv_of_same (hinv : HeadInv crates s) (hsame : SameBlock s.ctx s'.ctx)
    (hstate : s'.state = s.state ∨ ∃ seq data seq' data', s.state = .sorting seq data ∧
      s'.state = .sorting seq' data') : HeadInv crates s' := by
  have hsorting {seq seq' : FragSequence} {data data' : SortingData}
      (hs : s.state = .sorting seq data) (hs' : s'.state = .sorting seq' data') :
      HeadInv crates s' := by
    obtain ⟨honHead, hnumber⟩ := (headInv_sorting hs).mp hinv
    refine (headInv_sorting hs').mpr ⟨honHead.of_same hsame, ?_⟩
    rw [hsame.blockEnv, hsame.db, hnumber]
  obtain heq | ⟨seq, data, seq', data', hs, hs'⟩ := hstate
  · cases hs : s.state with
    | sorting => exact hsorting hs (heq.trans hs)
    | syncing =>
      unfold HeadInv
      rw [heq, hs]
      trivial
    | waitingForNewPayload | waitingForForkChoiceWithAttributes =>
      have hawaits : awaits s.state = true := by rw [hs]; rfl
      exact headInv_of_awaits hinv hawaits (heq ▸ hawaits) hsame
  · exact hsorting hs hs'

/-- A block has the header of its payload. -/
theorem header_of_payloadToBlock (hcrates : KeepsPayload crates) {payload : ExecutionPayload}
    {hashes : List Hash} {root : Hash}
    (h : payloadToBlock crates payload hashes root = some block) :
    block.header.number = payload.blockNumber ∧ block.header.parentHash = payload.parentHash := by
  unfold payloadToBlock at h
  split at h
  · cases h
  · rename_i header txs hblock
    obtain ⟨senders, -, rfl⟩ := Option.map_eq_some_iff.mp h
    exact hcrates payload hashes root header txs hblock

/-- A block that was sealed on the head becomes the head when it is committed. -/
theorem becomesHead_of_seals (hcrates : KeepsPayload crates) {now : ℕ} {frag : FragV0}
    {sl : SealV0} {envelope : OpExecutionPayloadEnvelope} (hinv : HeadInv crates s)
    (hseals : Seals crates s now seq data frag sl envelope ctx)
    (hblock : payloadToBlock crates envelope.executionPayload []
      envelope.parentBeaconBlockRoot = some block) (hzero : s.ctx.db.headBlockNumber + 1 ≠ 0)
    (hnone : NoneAfter s.ctx.blockExecutor (s.ctx.db.headBlockNumber + 1)) :
    BecomesHead crates ctx block.header := by
  obtain ⟨honHead, henv⟩ := (headInv_sorting hseals.hstate).mp hinv
  obtain ⟨msg, data', seq', ctx₁, -, hcut, hfrom⟩ := sealedFrom_of_seals hseals
  have hsame : SameBlock s.ctx ctx := hcut.same.trans hfrom.same
  obtain ⟨hnumber, hparent⟩ := header_of_payloadToBlock hcrates hblock
  rw [hfrom.payloadNumber, hcut.same.blockEnv, henv] at hnumber
  rw [hfrom.payloadParent, hcut.same.parentHash, honHead.isHead.1] at hparent
  -- the number does not wrap around, so that the block is above the head
  have hlt : ¬ s.ctx.db.headBlockNumber + 1 ≤ s.ctx.db.headBlockNumber := by
    rw [UInt64.le_iff_toNat_le, toNat_of_eq_add_one rfl hzero]
    exact Nat.not_succ_le_self _
  have hrolled : rolledBack crates ctx.db block.header.number = s.ctx.db := by
    rw [rolledBack, hsame.db, hnumber, if_neg hlt]
  refine ⟨by rw [hnumber]; exact hzero, ?_, .inr ⟨?_, ?_, ?_, ?_⟩⟩
  · rw [hsame.db, hnumber]
    exact UInt64.lt_irrefl _
  · intro hknown
    rw [Known, hsame.db, hnumber] at hknown
    exact hlt hknown.1
  · rw [hrolled, hnumber]
  · rw [hrolled, hparent]
  · rw [hsame.blockExecutor, hnumber]
    exact hnone

/-- The invariant says nothing while syncing. -/
theorem headInv_syncing {last : UInt64} (hstate : s.state = .syncing last) : HeadInv crates s := by
  unfold HeadInv
  rw [hstate]
  trivial

/-- A block that was committed without more to fetch is the head, since one that
is parked makes the sequencer fetch blocks. -/
theorem onHead_of_nothingToFetch {c : Prop} (hcommits : Commits crates ctx block ctx' none)
    (hlast : BecomesHead crates ctx block.header ∨ (c ∧ Parks crates ctx block.header)) :
    OnHead crates ctx' := by
  obtain hbecomes | ⟨-, hparks⟩ := hlast
  · exact onHead_of_commits hcommits hbecomes
  · exact absurd rfl (fetch_of_parks hparks hcommits.outcome)

/-- What one step does to the invariant. -/
theorem headInv_step (hcrates : KeepsPayload crates) {e : Event} {sent : List Output}
    (hstep : Step crates s e sent s')
    (hlast : ∀ header ∈ lastHeader crates s e, BecomesHead crates s.ctx header ∨
      (fetches s e = true ∧ Parks crates s.ctx header))
    (hsealed : commitsSealed s e = true → s.ctx.db.headBlockNumber + 1 ≠ 0 ∧
      NoneAfter s.ctx.blockExecutor (s.ctx.db.headBlockNumber + 1)) (hinv : HeadInv crates s) :
    HeadInv crates s' := by
  cases hstep with
  | ignored => exact hinv
  | fetch => exact headInv_syncing rfl
  | known payload hashes root now hstate =>
    exact headInv_of_awaits hinv hstate rfl (sameBlock_resetSharedState s.ctx)
  | @newPayload payload hashes root now block ctx fetch hstate hahead hhead hblock hcommit =>
    have hcommits := commits_of_commitBlock hcommit
    have hheader : block.header ∈ lastHeader crates s
        (.engineApi (.newPayloadV3 payload hashes root) now) := by
      simp only [lastHeader]
      rw [if_pos ⟨hstate, hahead, hhead⟩, hblock]
      rfl
    cases fetch with
    | some => exact headInv_syncing rfl
    | none =>
      exact (headInv_awaits rfl).mpr (.inr (onHead_of_nothingToFetch hcommits (hlast _ hheader)))
  | noAttributes now hstate => exact headInv_of_awaits hinv hstate rfl (.refl s.ctx)
  | @start attributes now params seq data ctx extraData root hstate hparent hparams hstart hextra
      hroot =>
    have hsame := (starts_of_startWith hstart).same
    have honHead := ((headInv_awaits hstate).mp hinv).resolve_left hparent
    have honHead' : OnHead crates ctx := by
      refine OnHead.of_same ?_ hsame
      exact ⟨honHead.isHead, honHead.number⟩
    refine (headInv_sorting rfl).mpr ⟨honHead', ?_⟩
    rw [hsame.blockEnv, hsame.db, number_of_newBlockParams hparams, honHead.number]
  | sealed now hseals =>
    obtain ⟨msg, data', seq', ctx₁, -, hcut, hfrom⟩ := sealedFrom_of_seals hseals
    obtain ⟨honHead, -⟩ := (headInv_sorting hseals.hstate).mp hinv
    exact (headInv_awaits rfl).mpr (.inr (honHead.of_same (hcut.same.trans hfrom.same)))
  | committed now hseals hconfig hblock hcommit =>
    obtain ⟨msg, data', seq', ctx₁, -, hcut, hfrom⟩ := sealedFrom_of_seals hseals
    have hconfig' : s.ctx.config.commitSealedFragsToDb = true := by
      rw [← (hcut.same.trans hfrom.same).config]
      exact hconfig
    obtain ⟨hzero, hnone⟩ := hsealed hconfig'
    have honHead := onHead_of_commits (commits_of_commitBlock hcommit)
      (becomesHead_of_seals hcrates hinv hseals hblock hzero hnone)
    exact (headInv_awaits rfl).mpr (.inr (honHead.of_same (sameBlock_resetSharedState _)))
  | @synced block last ctx fetch hstate hcommit =>
    have hcommits := commits_of_commitBlock hcommit
    cases fetch with
    | some => exact headInv_syncing rfl
    | none =>
      by_cases hnumber : block.header.number = last
      · have hheader : block.header ∈ lastHeader crates s (.blockSync block) := by
          simp [lastHeader, hstate, hnumber]
        refine (headInv_awaits (by simp [afterSync, hnumber, awaits])).mpr (.inr ?_)
        exact onHead_of_nothingToFetch hcommits (hlast _ hheader)
      · have hafter : afterSync last block.header.number none = .syncing last := by
          simp [afterSync, hnumber]
        exact headInv_syncing hafter
  | imported block hstate hcommit =>
    have hheader : block.header ∈ lastHeader crates s (.blockSync block) := by
      cases hs : s.state <;> simp [hs, awaits, lastHeader] at hstate ⊢
    refine (headInv_awaits rfl).mpr (.inr ?_)
    obtain hbecomes | ⟨hfetches, -⟩ := hlast _ hheader
    · exact onHead_of_commits (commits_of_commitBlock hcommit) hbecomes
    · simp [fetches, hstate] at hfetches
  | newTx tx hwaiting htx =>
    apply headInv_of_same hinv (takesTx_of_handleTx htx).same
    cases hs : s.state with
    | sorting seq data => exact .inr ⟨seq, data, seq, _, rfl, rfl⟩
    | _ => exact .inl rfl
  | simulated result hstate =>
    exact headInv_of_same hinv (.refl s.ctx) (.inr ⟨_, _, _, _, hstate, rfl⟩)
  | topOfFrag =>
    exact headInv_of_same hinv ⟨rfl, rfl, rfl, rfl, rfl, rfl, rfl⟩ (.inl rfl)
  | topOfFragFailed =>
    exact headInv_of_same hinv ⟨rfl, rfl, rfl, rfl, rfl, rfl, rfl⟩ (.inl rfl)
  | cut now hstate hwaiting hseal hmined hfrag =>
    exact headInv_of_same hinv
      ((sameBlock_removeMinedTxs hmined).trans (cuts_of_sealFrag hfrag).same)
      (.inr ⟨_, _, _, _, hstate, rfl⟩)
  | orders happlies =>
    obtain ⟨⟨data₀, hstate⟩, hsame⟩ := sameBlock_applies happlies
    exact headInv_of_same hinv hsame (.inr ⟨_, _, _, _, hstate, rfl⟩)
  | deposit happlies =>
    obtain ⟨⟨data₀, hstate⟩, hsame⟩ := sameBlock_applies happlies
    exact headInv_of_same hinv hsame.setDeposits (.inr ⟨_, _, _, _, hstate, rfl⟩)

/-! ## Runs -/

/-- Blocks are started on the head of the database, in every run in which each block that the
sequencer then waits on becomes the head, or is parked and makes it fetch blocks.
SRCLINE: sequencer/src/lib.rs:155-408, sequencer/src/context.rs:316-339, block_sync/mod.rs:45-144 -/
theorem start_onHead (hcrates : KeepsPayload crates) {config : SequencerConfig}
    {db : SequencerDB S} {events : List Event} {p : Process S} {s : Sequencer S} {e : Event}
    (hkeeps : Along (processStep crates) (KeepsHead crates)
      ⟨some (.new crates config db), []⟩ events)
    (hrun : runSteps (processStep crates) ⟨some (.new crates config db), []⟩ events = some p)
    (hs : p.sequencer = some s) (hstart : StartsBlock s e) : ParentIsHead crates s.ctx := by
  have hinv : ∀ s ∈ p.sequencer, HeadInv crates s := by
    refine hkeeps.induction (I := fun p => ∀ s ∈ p.sequencer, HeadInv crates s) ?_ ?_ hrun
    · intro p e p' hkeeps hinv hstep s' hs'
      obtain ⟨s, sent, hs, hcase⟩ := step_of_processStep hstep hs'
      obtain ⟨hlast, hsealed⟩ := hkeeps s hs
      exact headInv_step hcrates hcase hlast hsealed (hinv s hs)
    · rintro _ ⟨⟩
      exact .inl rfl
  obtain ⟨attributes, now, -, hstate, hparent⟩ := hstart
  exact (((headInv_awaits hstate).mp (hinv s hs)).resolve_left hparent).isHead

/-- The example decoder keeps it. -/
theorem keepsPayload_plainCrates : KeepsPayload plainCrates := by
  intro payload hashes root header txs h
  obtain ⟨txs', -, heq⟩ := Option.map_eq_some_iff.mp h
  obtain ⟨rfl, -⟩ := Prod.mk.inj heq
  exact ⟨rfl, rfl⟩

/-- What matters of a sequencer that is asked to start a block. -/
def parentView (p : Process ℕ) : Option (Bool × Hash × Hash × Hash) :=
  p.sequencer.map fun s =>
    (awaits s.state, s.ctx.parentHeader.parentHash, s.ctx.parentHash, s.ctx.db.headBlockHash)

/-- A block is started after two payloads. -/
theorem start_onHead_twoBlocks :
    ∃ p s, runSteps (processStep plainCrates) (plainProcess false)
        [newPayloadEvent plainPayload1, newPayloadEvent plainPayload2] = some p ∧
      p.sequencer = some s ∧
      StartsBlock s (startEvent plainPayload2.blockHash (plainAttributes 103 [] false)) ∧
      ParentIsHead plainCrates s.ctx := by
  have hview : (runSteps (processStep plainCrates) (plainProcess false)
      [newPayloadEvent plainPayload1, newPayloadEvent plainPayload2]).bind parentView =
        some (true, plainPayload1.blockHash, plainPayload2.blockHash, plainPayload2.blockHash) := by
    decide +kernel
  obtain ⟨p, hrun, hp⟩ := Option.bind_eq_some_iff.mp hview
  obtain ⟨s, hs, heq⟩ := Option.map_eq_some_iff.mp hp
  obtain ⟨hstate, hparent, -, hhead⟩ :
      awaits s.state = true ∧ s.ctx.parentHeader.parentHash = plainPayload1.blockHash ∧
        s.ctx.parentHash = plainPayload2.blockHash ∧
        s.ctx.db.headBlockHash = plainPayload2.blockHash := by
    simpa only [Prod.mk.injEq] using heq
  have hstart : StartsBlock s (startEvent plainPayload2.blockHash (plainAttributes 103 [] false)) :=
    ⟨_, _, by rw [hhead]; rfl, hstate, by rw [hparent]; decide⟩
  exact ⟨p, s, hrun, hs, hstart,
    start_onHead keepsPayload_plainCrates (by decide +kernel) hrun hs hstart⟩

/-- A payload that is known already is taken as the parent of the next block, although the head of
the database is a later one.
SRCLINE: sequencer/src/lib.rs:222-224, sequencer/src/context.rs:316-339, block_sync/mod.rs:70-74 -/
theorem start_offHead_oldPayload :
    ∃ p s, runSteps (processStep plainCrates) (plainProcess false)
        [newPayloadEvent plainPayload1, newPayloadEvent plainPayload2,
          newPayloadEvent plainPayload1] = some p ∧
      p.sequencer = some s ∧
      StartsBlock s (startEvent plainPayload2.blockHash (plainAttributes 103 [] false)) ∧
      ¬ ParentIsHead plainCrates s.ctx := by
  have hview : (runSteps (processStep plainCrates) (plainProcess false)
      [newPayloadEvent plainPayload1, newPayloadEvent plainPayload2,
        newPayloadEvent plainPayload1]).bind parentView =
        some (true, plainPayload0.blockHash, plainPayload1.blockHash, plainPayload2.blockHash) := by
    decide +kernel
  obtain ⟨p, hrun, hp⟩ := Option.bind_eq_some_iff.mp hview
  obtain ⟨s, hs, heq⟩ := Option.map_eq_some_iff.mp hp
  obtain ⟨hstate, hparent, hhash, hhead⟩ :
      awaits s.state = true ∧ s.ctx.parentHeader.parentHash = plainPayload0.blockHash ∧
        s.ctx.parentHash = plainPayload1.blockHash ∧
        s.ctx.db.headBlockHash = plainPayload2.blockHash := by
    simpa only [Prod.mk.injEq] using heq
  refine ⟨p, s, hrun, hs, ⟨_, _, by rw [hhead]; rfl, hstate, by rw [hparent]; decide⟩, ?_⟩
  rintro ⟨heq, -⟩
  rw [hhash, hhead] at heq
  exact absurd heq (by decide)

end BasedOp.Analysis.ParentHead
