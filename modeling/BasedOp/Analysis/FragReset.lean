import BasedOp.Computation.Runs
import BasedOp.Analysis.SequencerFrames

/-!
# The state that a block starts from

A block is built on the state of the sealed frags, which is a cache over the database. It
is cleared when a payload comes in while a new block is waited for, and when a sealed
block is committed to the database. If sealed blocks are not committed, a payload that is
asked for leaves the cache as the block has filled it, and a fork choice may start the
next block on it. The steps that leave the cache filled and those that clear it are the
marks of a run; a block starts from the committed state when the last mark is not of the
first kind.
-/

set_option autoImplicit false

namespace BasedOp.Analysis.FragReset

open BasedOp.Computation Model Model.Gateway
open SequencerSteps SequencerFrames

/-! ## Clean states -/

/-- Nothing is cached, changed or bundled. -/
structure Clean (s : State) : Prop where
  accounts : s.accounts = ∅
  contracts : s.contracts = ∅
  blockHashes : s.blockHashes = ∅
  transitions : ∀ ts ∈ s.transitionState, ts = ∅
  bundle : s.bundleState = .empty

/-- A reset leaves nothing cached. -/
theorem clean_reset (s : State) : Clean s.reset where
  accounts := rfl
  contracts := rfl
  blockHashes := rfl
  transitions := by
    intro ts hts
    obtain ⟨ts', -, heq⟩ := Option.map_eq_some_iff.mp hts
    exact heq.symm
  bundle := rfl

/-- A new state has nothing cached. -/
theorem clean_build (withStateClear : Bool) : Clean (State.build withStateClear) where
  accounts := rfl
  contracts := rfl
  blockHashes := rfl
  transitions := by
    rintro _ ⟨⟩
    rfl
  bundle := rfl

/-- What is read through a clean state is what the database answers. -/
theorem Clean.view_eq {s : State} (h : Clean s) (database : DbView) :
    s.view database = database := by
  obtain ⟨haccounts, hcontracts, hhashes, -, -⟩ := h
  simp only [State.view, haccounts, hcontracts, hhashes, AList.lookup_empty]

/-! ## Marks -/

/-- What a step does to the cache. -/
inductive Mark where
  | filled
  | cleared
deriving DecidableEq

variable {S : Type}

/-- A payload that is asked for leaves the cache filled, unless the block is committed; a
payload that comes in while a block is waited for, and is not ahead of the head, clears it.
SRCLINE: sequencer/src/lib.rs:183-240,319-370 -/
def mark (p : Process S) (e : Event) : Option Mark :=
  p.sequencer.bind fun s =>
    match s.state, e with
    | .sorting _ _, .engineApi .getPayloadV3 _ =>
      if s.ctx.config.commitSealedFragsToDb then some .cleared else some .filled
    | .waitingForNewPayload, .engineApi (.newPayloadV3 payload _ _) _
    | .waitingForForkChoiceWithAttributes, .engineApi (.newPayloadV3 payload _ _) _ =>
      if payload.blockNumber > s.ctx.db.headBlockNumber + 1 then none else some .cleared
    | _, _ => none

/-- The last mark says that the cache was left filled. -/
def Filled (marks : List Mark) : Prop := marks.getLast? = some .filled

instance (marks : List Mark) : Decidable (Filled marks) :=
  inferInstanceAs (Decidable (_ = _))

/-- The last mark tells what is cached. -/
theorem filled_append (marks : List Mark) (m : Option Mark) :
    Filled (marks ++ m.toList) ↔ m = some .filled ∨ (m = none ∧ Filled marks) := by
  cases m with
  | none => simp [Filled]
  | some => simp [Filled]

/-! ## The invariant -/

/-- Between blocks the state of the sealed frags is clean, unless the last mark says that
it was left filled. -/
def CleanInv (p : Process S) (marks : List Mark) : Prop :=
  ∀ s ∈ p.sequencer, (∃ seq data, s.state = .sorting seq data) ∨ Filled marks ∨
    Clean s.ctx.sharedState.db.db

variable {crates : Crates S} {p : Process S} {s : Sequencer S} {e : Event}

/-- Only payloads that come in or are asked for leave a mark. -/
theorem mark_eq_none (hs : p.sequencer = some s)
    (hstate : ∀ seq data, s.state ≠ .sorting seq data)
    (hpayload : ∀ payload hashes root now, e = .engineApi (.newPayloadV3 payload hashes root) now →
      awaits s.state = false ∨ payload.blockNumber > s.ctx.db.headBlockNumber + 1) :
    mark p e = none := by
  unfold mark
  rw [hs, Option.bind_some]
  split
  · rename_i hsorting
    exact absurd hsorting (hstate _ _)
  all_goals
    first
    | rfl
    | rename_i hwaits
      obtain hnot | hahead := hpayload _ _ _ _ rfl
      · simp [hwaits, awaits] at hnot
      · rw [if_pos hahead]

/-- What one step does to the cache: it fills it within a block, clears it, ends a block
without clearing it, or leaves it alone between blocks. -/
inductive CacheStep (p : Process S) (e : Event) (s s' : Sequencer S) : Prop
  | building {seq : FragSequence} {data : SortingData} (hstate : s'.state = .sorting seq data)
  | cleared (hclean : Clean s'.ctx.sharedState.db.db)
  | filled (hmark : mark p e = some .filled)
  | kept (hstate : ∀ seq data, s.state ≠ .sorting seq data) (hmark : mark p e = none)
      (hshared : s'.ctx.sharedState = s.ctx.sharedState)

/-- A step that does not touch the cache, in any state. -/
theorem cacheStep_of_same {s' : Sequencer S} (hs : p.sequencer = some s)
    (hpayload : ∀ payload hashes root now, e = .engineApi (.newPayloadV3 payload hashes root) now →
      awaits s.state = false ∨ payload.blockNumber > s.ctx.db.headBlockNumber + 1)
    (hstate : ∀ seq data, s.state = .sorting seq data → ∃ seq' data', s'.state = .sorting seq' data')
    (hshared : s'.ctx.sharedState = s.ctx.sharedState) : CacheStep p e s s' := by
  by_cases hsorting : ∃ seq data, s.state = .sorting seq data
  · obtain ⟨seq, data, hsorting⟩ := hsorting
    obtain ⟨seq', data', hsorting'⟩ := hstate seq data hsorting
    exact .building hsorting'
  · have hnot : ∀ seq data, s.state ≠ .sorting seq data :=
      fun seq data h => hsorting ⟨seq, data, h⟩
    exact .kept hnot (mark_eq_none hs hnot hpayload) hshared

/-- What a step does to the cache. -/
theorem cacheStep_of_step {s' : Sequencer S} {sent : List Output}
    (hstep : Step crates s e sent s') (hs : p.sequencer = some s) :
    CacheStep p e s s' := by
  cases hstep with
  | ignored e hignores =>
    refine cacheStep_of_same hs ?_ (fun seq data h => ⟨seq, data, h⟩) rfl
    rintro payload hashes root now rfl
    exact .inl hignores
  | fetch payload hashes root now hstate hahead =>
    refine cacheStep_of_same hs ?_ (fun seq data h => absurd h (hstate seq data)) rfl
    rintro _ _ _ _ ⟨⟩
    exact .inr hahead
  | known => exact .cleared (clean_reset _)
  | newPayload payload hashes root now hstate hahead hhead hblock hcommit =>
    refine .cleared ?_
    rw [(commits_of_commitBlock hcommit).sharedState]
    exact clean_reset _
  | noAttributes now hstate =>
    refine cacheStep_of_same hs (by simp) (fun seq data h => ?_) rfl
    exact absurd h (ne_sorting_of_awaits hstate seq data)
  | start => exact .building rfl
  | sealed now hseals hkeep =>
    refine .filled ?_
    obtain ⟨msg, data', seq', ctx₁, -, hcut, hfrom⟩ := sealedFrom_of_seals hseals
    rw [(hcut.same.trans hfrom.same).config] at hkeep
    simp [mark, hs, hseals.hstate, hkeep]
  | committed => exact .cleared (clean_reset _)
  | synced block hstate hcommit =>
    refine cacheStep_of_same hs (by simp) (fun seq data h => ?_)
      (commits_of_commitBlock hcommit).sharedState
    rw [hstate] at h
    cases h
  | imported block hstate hcommit =>
    refine cacheStep_of_same hs (by simp) (fun seq data h => ?_)
      (commits_of_commitBlock hcommit).sharedState
    exact absurd h (ne_sorting_of_awaits hstate seq data)
  | newTx tx hwaiting htx =>
    refine cacheStep_of_same hs (by simp) (fun seq data h => ?_)
      (takesTx_of_handleTx htx).sharedState
    rw [h]
    exact ⟨_, _, rfl⟩
  | simulated => exact .building rfl
  | topOfFrag =>
    exact cacheStep_of_same hs (by simp) (fun seq data h => ⟨seq, data, h⟩) rfl
  | topOfFragFailed =>
    exact cacheStep_of_same hs (by simp) (fun seq data h => ⟨seq, data, h⟩) rfl
  | cut => exact .building rfl
  | orders => exact .building rfl
  | deposit => exact .building rfl

/-- A step keeps the invariant. -/
theorem cleanInv_step {p' : Process S} {marks : List Mark} (hinv : CleanInv p marks)
    (hstep : processStep crates p e = some p') :
    CleanInv p' (marks ++ (mark p e).toList) := by
  intro s' hs'
  obtain ⟨s, sent, hs, hcase⟩ := step_of_processStep hstep hs'
  cases cacheStep_of_step hcase hs with
  | building hstate => exact .inl ⟨_, _, hstate⟩
  | cleared hclean => exact .inr (.inr hclean)
  | filled hmark => exact .inr (.inl ((filled_append _ _).mpr (.inl hmark)))
  | kept hstate hmark hshared =>
    obtain ⟨seq, data, hsorting⟩ | hfilled | hclean := hinv s hs
    · exact absurd hsorting (hstate seq data)
    · exact .inr (.inl ((filled_append _ _).mpr (.inr ⟨hmark, hfilled⟩)))
    · exact .inr (.inr (by rw [hshared]; exact hclean))

/-! ## Runs -/

/-- A block starts from the committed state, whenever the cache was cleared
since a payload was last asked for without its block being committed: nothing is left in
the cache, and what is read through it is what the database answers.
SRCLINE: sequencer/src/lib.rs:183-408, sequencer/src/context.rs:174-199,
frag.rs:32-82, db/state.rs:76-92 -/
theorem start_clean {config : SequencerConfig} {db : SequencerDB S} {events : List Event}
    {p : Process S} {s : Sequencer S} {e : Event}
    (hrun : runSteps (processStep crates) ⟨some (.new crates config db), []⟩ events = some p)
    (hs : p.sequencer = some s) (hstart : StartsBlock s e)
    (hmarks : ¬ Filled (observed (processStep crates) mark
      ⟨some (.new crates config db), []⟩ events)) :
    Clean s.ctx.sharedState.db.db ∧ s.ctx.fragView crates = s.ctx.db.view crates := by
  have hinit : CleanInv (⟨some (.new crates config db), []⟩ : Process S) [] := by
    rintro _ ⟨⟩
    exact .inr (.inr (clean_build false))
  have hinv : CleanInv p ([] ++ observed (processStep crates) mark
      ⟨some (.new crates config db), []⟩ events) :=
    Along.observed_induction (P := fun _ _ => True)
      (fun p e p' marks _ hinv hstep => cleanInv_step hinv hstep)
      (along_of_forall (fun _ _ => trivial) _ _) hinit hrun
  rw [List.nil_append] at hinv
  obtain ⟨attributes, now, -, hstate, -⟩ := hstart
  obtain ⟨seq, data, hsorting⟩ | hfilled | hclean := hinv s hs
  · exact absurd hsorting (ne_sorting_of_awaits hstate seq data)
  · exact absurd hfilled hmarks
  · exact ⟨hclean, hclean.view_eq _⟩

/-- A block with a deposit is built on the first block, and its payload is asked for. -/
def builtBlock : List Event :=
  [newPayloadEvent plainPayload1,
    startEvent plainPayload1.blockHash (plainAttributes 102 [[0x7e, 1]] false),
    .engineApi .getPayloadV3 14]

/-- What matters of a sequencer that is asked to start a block: whether it waits for that,
its head, and the nonces of the sender of the deposit in the cache and in the database. -/
def cacheView (p : Process ℕ) : Option (Bool × Hash × Hash × Option UInt64 × Option UInt64) :=
  p.sequencer.map fun s =>
    (awaits s.state, s.ctx.parentHeader.parentHash, s.ctx.db.headBlockHash,
      ((s.ctx.fragView plainCrates).basic 9).map (·.nonce),
      ((s.ctx.db.view plainCrates).basic 9).map (·.nonce))

/-- A block after a new payload. -/
theorem start_clean_newPayload :
    ∃ p s, runSteps (processStep plainCrates) (plainProcess false)
        (builtBlock ++ [newPayloadEvent plainPayload2]) = some p ∧
      p.sequencer = some s ∧
      StartsBlock s (startEvent plainPayload2.blockHash (plainAttributes 103 [] false)) ∧
      Clean s.ctx.sharedState.db.db ∧ s.ctx.fragView plainCrates = s.ctx.db.view plainCrates := by
  have hview : (runSteps (processStep plainCrates) (plainProcess false)
      (builtBlock ++ [newPayloadEvent plainPayload2])).bind cacheView =
        some (true, plainPayload1.blockHash, plainPayload2.blockHash, none, none) := by
    decide +kernel
  obtain ⟨p, hrun, hp⟩ := Option.bind_eq_some_iff.mp hview
  obtain ⟨s, hs, heq⟩ := Option.map_eq_some_iff.mp hp
  simp only [Prod.mk.injEq] at heq
  obtain ⟨hstate, hparent, hhead, -⟩ := heq
  have hstart : StartsBlock s (startEvent plainPayload2.blockHash (plainAttributes 103 [] false)) :=
    ⟨_, _, by rw [hhead]; rfl, hstate, by rw [hparent]; decide⟩
  exact ⟨p, s, hrun, hs, hstart, start_clean hrun hs hstart (by decide +kernel)⟩

/-- A fork choice on the old head starts a block on the cache that the last block has
left: the sender of its deposit has a nonce in it that the database does not know.
SRCLINE: sequencer/src/lib.rs:247-284,355-369 -/
theorem start_stale_forkChoice :
    ∃ p s, runSteps (processStep plainCrates) (plainProcess false) builtBlock = some p ∧
      p.sequencer = some s ∧
      StartsBlock s (startEvent plainPayload1.blockHash (plainAttributes 103 [] false)) ∧
      ¬ Clean s.ctx.sharedState.db.db ∧
      (s.ctx.fragView plainCrates).basic 9 ≠ (s.ctx.db.view plainCrates).basic 9 := by
  have hview : (runSteps (processStep plainCrates) (plainProcess false) builtBlock).bind cacheView =
      some (true, plainPayload0.blockHash, plainPayload1.blockHash, some 1, none) := by
    decide +kernel
  obtain ⟨p, hrun, hp⟩ := Option.bind_eq_some_iff.mp hview
  obtain ⟨s, hs, heq⟩ := Option.map_eq_some_iff.mp hp
  simp only [Prod.mk.injEq] at heq
  obtain ⟨hstate, hparent, hhead, hcached, hstored⟩ := heq
  have hread : (s.ctx.fragView plainCrates).basic 9 ≠ (s.ctx.db.view plainCrates).basic 9 := by
    intro h
    rw [h, hstored] at hcached
    cases hcached
  refine ⟨p, s, hrun, hs, ⟨_, _, by rw [hhead]; rfl, hstate, by rw [hparent]; decide⟩, ?_, hread⟩
  intro hclean
  exact hread (congrArg (fun view => view.basic 9) (hclean.view_eq (s.ctx.db.view plainCrates)))

end BasedOp.Analysis.FragReset
