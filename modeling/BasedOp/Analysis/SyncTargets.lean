import BasedOp.Analysis.PendingBlocks
import BasedOp.Analysis.SequencerFrames

/-!
# The targets of the sync

While the sequencer syncs it asks for blocks up to a target and waits for the block of the
last target it has set. It ends the sync when that block was committed, and the head is
not below it then. A target is replaced by a larger one when blocks are missing, but by any
other when a payload arrives that is ahead of the head; so the head may be below an earlier
target if such a payload is older than the target.
-/

set_option autoImplicit false

namespace BasedOp.Analysis.SyncTargets

open BasedOp.Computation Model Model.Gateway
open SequencerSteps SequencerFrames
open CommitSteps ChainLinks PendingBlocks

variable {S : Type} {crates : Crates S} {s s' : Sequencer S} {numbers : List UInt64}
  {sync : BlockSync} {block : BlockWithSenders} {e : Event} {search : PendingSearch}
  {sent : List Output}

/-! ## The head after a commit -/

section

variable {σ ε : Type} {db : ChainDatabase σ ε} {R : σ → List UInt64 → Prop} {out : CallOutcome σ ε}
  {now : σ}

/-- Draining does not lower the head. -/
theorem head_le_of_drains (hdb : KeepsRows db id Header.number R)
    {pending : List BlockWithSenders} (h : Drains db true now pending out) (hR : R now numbers)
    (hnone : out.1 = .ok none) :
    ∃ numbers', R out.2.2 numbers' ∧ headNumber id numbers ≤ headNumber id numbers' := by
  induction h generalizing numbers with
  | done => exact ⟨numbers, hR, UInt64.le_refl _⟩
  | unread => cases hnone
  | waits => exact ⟨numbers, hR, UInt64.le_refl _⟩
  | @reorgs _ _ _ _ _ _ rolled _ _ _ _ _ => cases rolled <;> cases hnone
  | rejects => cases hnone
  | @applies _ _ block _ _ _ _ _ _ hexec _ ih =>
    obtain ⟨numbers', hR', hle⟩ := ih (rows_of_executeAndMaybeCommit hdb hR hexec) hnone
    exact ⟨numbers', hR',
      UInt64.le_trans (le_headNumber_insertRow id block.header.number numbers).2 hle⟩

/-- A commit raises it to the block. -/
theorem head_of_commitsOnHead (hdb : KeepsRows db id Header.number R)
    (h : CommitsOnHead search db true sync now block out) (hR : R now numbers)
    (hnone : out.1 = .ok none) :
    ∃ numbers', R out.2.2 numbers' ∧ block.header.number ≤ headNumber id numbers' := by
  cases h with
  | unrolled => cases hnone
  | reorgs => cases hnone
  | rejects => cases hnone
  | commits _ hexec hdrains =>
    have hR₁ := rows_of_executeAndMaybeCommit hdb hR hexec
    obtain ⟨numbers', hR', hle⟩ := head_le_of_drains hdb hdrains hR₁ hnone
    exact ⟨numbers', hR',
      UInt64.le_trans (le_headNumber_insertRow id block.header.number numbers).1 hle⟩

/-- When no blocks are to be fetched the head is not below the block. -/
theorem head_of_commitsBlock (hdb : KeepsRows db id Header.number R) {hashSlow : Header → Hash}
    {rounds : ℕ} (h : CommitsBlock search hashSlow db rounds sync block now true out)
    (hR : R now numbers) (hnone : out.1 = .ok none) :
    ∃ numbers', R out.2.2 numbers' ∧ block.header.number ≤ headNumber id numbers' := by
  cases h with
  | unread => cases hnone
  | waits => cases hnone
  | known hhead _ hle => exact ⟨numbers, hR, hdb.headBlockNumber hR hhead ▸ hle⟩
  | unrolled => cases hnone
  | replaces _ _ _ _ _ _ hroll hcommits =>
    obtain ⟨-, numbers₁, -, hR₁, -, -⟩ := rows_of_rollBackTo hdb hR hroll
    exact head_of_commitsOnHead hdb hcommits hR₁ hnone
  | follows _ _ _ hcommits => exact head_of_commitsOnHead hdb hcommits hR hnone

end

/-- So does a whole call. -/
theorem head_of_commitBlock_none {sync' : BlockSync} {db db' : SequencerDB S}
    (h : sync.commitBlock crates block db true = some (.ok none, sync', db')) :
    block.header.number ≤ db'.headBlockNumber := by
  have hdb := keepsNumbers_chainDatabase crates
  obtain ⟨numbers, hR, hle⟩ := head_of_commitsBlock hdb (commitsBlock_chainDatabase h) rfl rfl
  rwa [← hdb.headBlockNumber hR rfl] at hle

/-! ## Targets -/

/-- The last numbers of the ranges of blocks that were asked for. -/
def targets (sent : List Output) : List UInt64 :=
  sent.filterMap fun
    | .blockFetch _ stop => some stop
    | _ => none

/-- The end of a fetch is its target. -/
theorem targets_fetch {α : Type} (f : α → UInt64) (g : α → UInt64) (fetch : Option α) :
    targets (fetch.toList.map fun r => .blockFetch (f r) (g r)) = fetch.toList.map g := by
  cases fetch <;> rfl

def isSyncing : SequencerState → Bool
  | .syncing _ => true
  | _ => false

/-- Syncing has a last block. -/
theorem exists_of_isSyncing {state : SequencerState} (h : isSyncing state = true) :
    ∃ last, state = .syncing last := by
  cases state with
  | syncing last => exact ⟨last, rfl⟩
  | _ => cases h

/-- The process with the targets that were set since it has begun to sync. -/
structure Tracked (S : Type) where
  process : Process S
  targets : List UInt64

/-- One event. Targets are only kept while the sequencer syncs.
SRCLINE: sequencer/src/lib.rs:143-148 -/
def trackedStep (crates : Crates S) (t : Tracked S) (e : Event) : Option (Tracked S) :=
  (processStep crates t.process e).map fun p =>
    { process := p
      targets := (if t.process.sequencer.any (isSyncing ·.state) then t.targets else []) ++
        targets (p.sent.drop t.process.sent.length) }

/-- No payload that is ahead of the head is older than the target of the sync. -/
def KeepsTarget (t : Tracked S) : Event → Prop
  | .engineApi (.newPayloadV3 payload _ _) _ => ∀ s ∈ t.process.sequencer,
    match s.state with
    | .syncing last =>
      payload.blockNumber > s.ctx.db.headBlockNumber + 1 → last ≤ payload.blockNumber
    | _ => True
  | _ => True

instance (t : Tracked S) (e : Event) : Decidable (KeepsTarget t e) := by
  rcases e with _ | _ | _ | ⟨_ | ⟨payload, _, _⟩ | _, _⟩ | _
  case engineApi.newPayloadV3 =>
    refine @Option.decidableForallMem _ _ (fun s => ?_) _
    cases s.state <;> infer_instance
  all_goals exact isTrue trivial

/-- The target of the sync is the largest one that was set. -/
def TargetsInv (t : Tracked S) : Prop :=
  ∀ s ∈ t.process.sequencer, ∀ last, s.state = .syncing last → ∀ target ∈ t.targets, target ≤ last

/-- A step and the targets after it. -/
theorem trackedStep_eq_some {t t' : Tracked S} (h : trackedStep crates t e = some t')
    (hs' : t'.process.sequencer = some s') :
    ∃ s sent, t.process.sequencer = some s ∧ Step crates s e sent s' ∧
      t'.targets = (if isSyncing s.state then t.targets else []) ++ targets sent := by
  obtain ⟨p', hstep, rfl⟩ := Option.map_eq_some_iff.mp h
  obtain ⟨s, hs, htakes, rfl⟩ := processStep_eq_some.mp hstep
  refine ⟨s, _, hs, (handles_of_takes htakes).step s' hs', ?_⟩
  simp [hs]

/-- Simulations have no target. -/
@[simp] theorem targets_simulate (requests : List SequencerToSimulator) :
    targets (requests.map .simulate) = [] := by
  simp [targets, List.filterMap_map]

/-- A target that is set is the one of the sync that goes on after it. -/
theorem syncing_of_targets (h : Step crates s e sent s') {target : UInt64}
    (htarget : target ∈ targets sent) : s'.state = .syncing target := by
  cases h with
  | fetch =>
    obtain rfl := List.mem_singleton.mp htarget
    rfl
  | @newPayload payload hashes root now block ctx fetch hstate hahead hhead hblock hcommit =>
    rw [targets_fetch] at htarget
    obtain ⟨r, hr, rfl⟩ := List.mem_map.mp htarget
    rw [Option.mem_toList.mp hr]
    rfl
  | @synced block last ctx fetch hstate hcommit =>
    rw [targets_fetch] at htarget
    obtain ⟨r, hr, rfl⟩ := List.mem_map.mp htarget
    rw [Option.mem_toList.mp hr]
    rfl
  | newTx =>
    rw [targets_simulate] at htarget
    cases htarget
  | orders =>
    rw [targets_simulate] at htarget
    cases htarget
  | _ => cases htarget

/-- What an event does to a sync: it goes on with a target that is not lower, or with the
number of a payload that is ahead of the head, or it ends with the head at its target. -/
inductive Syncs (s : Sequencer S) (last : UInt64) (e : Event) (s' : Sequencer S) : Prop
  | goesOn (last' : UInt64) (hstate' : s'.state = .syncing last') (hle : last ≤ last')
  | restarts (payload : ExecutionPayload) (hashes : List Hash) (root : Hash) (now : ℕ)
      (he : e = .engineApi (.newPayloadV3 payload hashes root) now)
      (hahead : payload.blockNumber > s.ctx.db.headBlockNumber + 1)
      (hstate' : s'.state = .syncing payload.blockNumber)
  | ends (hends : isSyncing s'.state = false) (hhead : last ≤ s'.ctx.db.headBlockNumber)

/-- A sync changes in no other way. -/
theorem syncs_of_step (h : Step crates s e sent s') {last : UInt64}
    (hstate : s.state = .syncing last) : Syncs s last e s' := by
  have hawaits : ¬ awaits s.state = true := by
    rw [hstate]
    exact Bool.false_ne_true
  have hsorting : ∀ seq data, s.state ≠ .sorting seq data := by
    intro seq data h
    rw [hstate] at h
    cases h
  have happlies : ∀ {e seq data ctx}, ¬ Applies crates s e seq data ctx := by
    intro e seq data ctx happlies
    cases happlies with
    | best now hbest => exact hsorting _ _ hbest
    | deposit result tx hdeposit => exact hsorting _ _ hdeposit
  cases h with
  | ignored => exact .goesOn last hstate (UInt64.le_refl _)
  | fetch payload hashes root now hnot hahead =>
    exact .restarts payload hashes root now rfl hahead rfl
  | known payload hashes root now hstate' => exact absurd hstate' hawaits
  | newPayload payload hashes root now hstate' =>
    exact absurd hstate' hawaits
  | noAttributes now hstate' => exact absurd hstate' hawaits
  | start attributes now hstate' =>
    exact absurd hstate' hawaits
  | sealed now hseals => exact absurd hseals.hstate (hsorting _ _)
  | committed now hseals => exact absurd hseals.hstate (hsorting _ _)
  | @synced block last₁ ctx fetch hstate' hcommit =>
    rw [hstate] at hstate'
    cases hstate'
    cases fetch with
    | some r =>
      refine .goesOn (max last r.2) rfl ?_
      show last ≤ if last ≤ r.2 then r.2 else last
      split
      · assumption
      · exact UInt64.le_refl _
    | none =>
      by_cases hlast : block.header.number = last
      · refine .ends (by simp [afterSync, hlast, isSyncing]) ?_
        rw [← hlast]
        exact head_of_commitBlock_none (commits_of_commitBlock hcommit).outcome
      · exact .goesOn last (by simp [afterSync, hlast]) (UInt64.le_refl _)
  | imported block hstate' => exact absurd hstate' hawaits
  | newTx =>
    exact .goesOn last (by simp [hstate, addOrder]) (UInt64.le_refl _)
  | simulated result hstate' => exact absurd hstate' (hsorting _ _)
  | topOfFrag => exact .goesOn last hstate (UInt64.le_refl _)
  | topOfFragFailed => exact .goesOn last hstate (UInt64.le_refl _)
  | cut now hstate' => exact absurd hstate' (hsorting _ _)
  | orders hbest => exact absurd hbest happlies
  | deposit hbest => exact absurd hbest happlies

/-! ## Every run -/

/-- A step keeps the targets. -/
theorem targetsInv_step {t t' : Tracked S} (hkeeps : KeepsTarget t e) (hinv : TargetsInv t)
    (hstep : trackedStep crates t e = some t') : TargetsInv t' := by
  intro s' hs' last' hstate' target htarget
  obtain ⟨s, sent, hs, hcase, htargets⟩ := trackedStep_eq_some hstep hs'
  rw [htargets] at htarget
  obtain hold | hnew := List.mem_append.mp htarget
  · -- an earlier target is kept only while the sequencer was syncing already
    split at hold
    · rename_i hsyncing
      obtain ⟨last, hstate⟩ := exists_of_isSyncing hsyncing
      have hle := hinv s hs last hstate target hold
      cases syncs_of_step hcase hstate with
      | goesOn last₁ hlast₁ hlast =>
        rw [hstate'] at hlast₁
        cases hlast₁
        exact UInt64.le_trans hle hlast
      | restarts payload hashes root now he hahead hlast₁ =>
        subst he
        rw [hstate'] at hlast₁
        cases hlast₁
        have hlast := hkeeps s hs
        rw [hstate] at hlast
        exact UInt64.le_trans hle (hlast hahead)
      | ends hends =>
        rw [hstate'] at hends
        cases hends
    · cases hold
  · have hlast := syncing_of_targets hcase hnew
    rw [hstate'] at hlast
    cases hlast
    exact UInt64.le_refl _

/-- When the sequencer ends a sync, the head is not below any target that was set since it has begun
it, in every run in which no payload ahead of the head is older than the target.
SRCLINE: sequencer/src/lib.rs:143-148,196-208,379-396, block_sync/mod.rs:45-144 -/
theorem sync_ends_at_targets {config : SequencerConfig} {db : SequencerDB S}
    {events : List Event} {t t' : Tracked S} {e : Event}
    (hkeeps : Along (trackedStep crates) KeepsTarget ⟨⟨some (.new crates config db), []⟩, []⟩
      events)
    (hrun : runSteps (trackedStep crates) ⟨⟨some (.new crates config db), []⟩, []⟩ events = some t)
    (hs : t.process.sequencer = some s) (hsyncing : isSyncing s.state = true)
    (hstep : trackedStep crates t e = some t') (hs' : t'.process.sequencer = some s')
    (hends : isSyncing s'.state = false) :
    ∀ target ∈ t'.targets, target ≤ s'.ctx.db.headBlockNumber := by
  have hinv : TargetsInv t := by
    refine hkeeps.induction (I := TargetsInv) ?_ ?_ hrun
    · intro t e t' hkeeps hinv hstep
      exact targetsInv_step hkeeps hinv hstep
    · intro s hs last hstate target htarget
      cases htarget
  obtain ⟨last, hstate⟩ := exists_of_isSyncing hsyncing
  obtain ⟨s₁, sent, hs₁, hcase, htargets⟩ := trackedStep_eq_some hstep hs'
  obtain rfl : s = s₁ := Option.some.inj (hs.symm.trans hs₁)
  have hnot : ∀ last', s'.state ≠ .syncing last' := by
    intro last' hstate'
    rw [hstate'] at hends
    cases hends
  have hhead : last ≤ s'.ctx.db.headBlockNumber := by
    cases syncs_of_step hcase hstate with
    | goesOn last' hstate' => exact absurd hstate' (hnot last')
    | restarts payload hashes root now he hahead hstate' => exact absurd hstate' (hnot _)
    | ends hends hhead => exact hhead
  intro target htarget
  rw [htargets, if_pos hsyncing] at htarget
  obtain hold | hnew := List.mem_append.mp htarget
  · exact UInt64.le_trans (hinv s hs last hstate target hold) hhead
  · exact absurd (syncing_of_targets hcase hnew) (hnot target)

/-- What is to be known of a sequencer that syncs: its target, those that it has set, and
the head. -/
structure SyncView where
  last : Option UInt64
  targets : List UInt64
  head : UInt64
  deriving DecidableEq

def syncView (t : Tracked ℕ) : Option SyncView :=
  t.process.sequencer.map fun s =>
    { last := match s.state with
        | .syncing last => some last
        | _ => none
      targets := t.targets
      head := s.ctx.db.headBlockNumber }

/-- What the computed view says. -/
theorem sequencer_of_syncView {t : Tracked ℕ} {view : SyncView} (h : syncView t = some view) :
    ∃ s, t.process.sequencer = some s ∧ isSyncing s.state = view.last.isSome ∧
      t.targets = view.targets ∧ s.ctx.db.headBlockNumber = view.head := by
  obtain ⟨s, hs, rfl⟩ := Option.map_eq_some_iff.mp h
  refine ⟨s, hs, ?_, rfl, rfl⟩
  cases s.state <;> rfl

/-- The views of a run before its last event and after it. -/
def lastStep (events : List Event) (e : Event) : Option (SyncView × SyncView) :=
  (runSteps (trackedStep plainCrates) ⟨plainProcess false, []⟩ events).bind fun t =>
    (trackedStep plainCrates t e).bind fun t' =>
      (syncView t).bind fun before => (syncView t').map fun after => (before, after)

/-- So for the last step. -/
theorem run_of_lastStep {events : List Event} {before after : SyncView}
    (h : lastStep events e = some (before, after)) :
    ∃ t t', runSteps (trackedStep plainCrates) ⟨plainProcess false, []⟩ events = some t ∧
      trackedStep plainCrates t e = some t' ∧ syncView t = some before ∧
      syncView t' = some after := by
  obtain ⟨t, hrun, h⟩ := Option.bind_eq_some_iff.mp h
  obtain ⟨t', hstep, h⟩ := Option.bind_eq_some_iff.mp h
  obtain ⟨before', hbefore, h⟩ := Option.bind_eq_some_iff.mp h
  obtain ⟨after', hafter, h⟩ := Option.map_eq_some_iff.mp h
  obtain ⟨rfl, rfl⟩ := Prod.mk.inj h
  exact ⟨t, t', hrun, hstep, hbefore, hafter⟩

/-- Two blocks are synced. -/
theorem sync_ends_at_targets_twoBlocks :
    ∃ t t' s s', runSteps (trackedStep plainCrates) ⟨plainProcess false, []⟩
        [newPayloadEvent plainPayload2, .blockSync (plainBlock plainPayload1)] = some t ∧
      t.process.sequencer = some s ∧
      trackedStep plainCrates t (.blockSync (plainBlock plainPayload2)) = some t' ∧
      t'.process.sequencer = some s' ∧ t'.targets = [2] ∧
      ∀ target ∈ t'.targets, target ≤ s'.ctx.db.headBlockNumber := by
  have hview : lastStep [newPayloadEvent plainPayload2, .blockSync (plainBlock plainPayload1)]
      (.blockSync (plainBlock plainPayload2)) = some (⟨some 2, [2], 1⟩, ⟨none, [2], 2⟩) := by
    decide +kernel
  obtain ⟨t, t', hrun, hstep, hbefore, hafter⟩ := run_of_lastStep hview
  obtain ⟨s, hs, hsyncing, -, -⟩ := sequencer_of_syncView hbefore
  obtain ⟨s', hs', hends, htargets, -⟩ := sequencer_of_syncView hafter
  exact ⟨t, t', s, s', hrun, hs, hstep, hs', htargets,
    sync_ends_at_targets (by decide +kernel) hrun hs hsyncing hstep hs' hends⟩

/-- A payload that arrives late replaces the target of the sync by its own number, and the
sync ends there, below the target that was set first.
SRCLINE: sequencer/src/lib.rs:196-208 -/
theorem sync_ends_below_target :
    ∃ t t' s s', runSteps (trackedStep plainCrates) ⟨plainProcess false, []⟩
        [newPayloadEvent plainPayload3, newPayloadEvent plainPayload2,
          .blockSync (plainBlock plainPayload1)] = some t ∧
      t.process.sequencer = some s ∧ isSyncing s.state = true ∧
      trackedStep plainCrates t (.blockSync (plainBlock plainPayload2)) = some t' ∧
      t'.process.sequencer = some s' ∧ isSyncing s'.state = false ∧
      t'.targets = [3, 2] ∧ s'.ctx.db.headBlockNumber = 2 := by
  have hview : lastStep [newPayloadEvent plainPayload3, newPayloadEvent plainPayload2,
      .blockSync (plainBlock plainPayload1)] (.blockSync (plainBlock plainPayload2)) =
        some (⟨some 2, [3, 2], 1⟩, ⟨none, [3, 2], 2⟩) := by
    decide +kernel
  obtain ⟨t, t', hrun, hstep, hbefore, hafter⟩ := run_of_lastStep hview
  obtain ⟨s, hs, hsyncing, -, -⟩ := sequencer_of_syncView hbefore
  obtain ⟨s', hs', hends, htargets, hhead⟩ := sequencer_of_syncView hafter
  exact ⟨t, t', s, s', hrun, hs, hsyncing, hstep, hs', hends, htargets, hhead⟩

end BasedOp.Analysis.SyncTargets
