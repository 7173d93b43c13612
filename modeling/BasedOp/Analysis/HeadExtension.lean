import BasedOp.Analysis.UnsealedInvariant

/-!
# The parent of the unsealed block

`EnvV0` opens a block on any known parent, and a change of the canonical head does
not look at the unsealed block. The parent of an open block is therefore a block
that was known when it was opened; it is the canonical head as long as every Env
names the head and the head stays where it is while a block is open.
-/

set_option autoImplicit false

namespace BasedOp.Analysis.HeadExtension

open BasedOp.Computation Model Model.OpGeth
open ChainChanges UnsealedInvariant

section

variable {vm : VM} {config : ChainConfig} {node : Node} {bc bc' : BlockChain}

/-- What `EnvV0` has checked of the parent it found.
SRCLINE: catalyst/api.go:1534-1559 -/
structure ParentOf (bc : BlockChain) (env : Env) (parent : Block) : Prop where
  known : bc.getBlockByHash env.parentHash = some parent
  number : env.number = parent.header.numberU64 + 1
  time : parent.header.time ≤ env.timestamp

/-- Whether the head can move under a block that is open before and after the event. Of the
calls only the last frag can move it: it seals the block, and a block that is known already is
made the head when it is inserted. -/
def mayMoveHead : ChainEvent → Bool
  | .call (.newFrag f) => f.frag.isLast
  | .newPayload _ _ => true
  | .forkchoiceUpdated _ => true
  | _ => false

/-- A block that is open after an event was open before it, with the same
Env, or the event is the Env that opened it, and that left the head alone. -/
theorem chainStep_open {e : ChainEvent} {ub' : UnsealedBlock}
    (hstep : chainStep vm config node bc e = some bc')
    (hopen : bc'.currentUnsealedBlock = some ub') :
    (∃ ub, bc.currentUnsealedBlock = some ub ∧ ub'.env = ub.env ∧
      (mayMoveHead e = false → bc'.currentBlock = bc.currentBlock)) ∨
      (∃ e', e = .call (.env e') ∧ (envV0 bc e').2 = .ok () ∧ ub'.env = e'.env ∧
        bc'.currentBlock = bc.currentBlock ∧ ∃ parent, ParentOf bc e'.env parent) := by
  rcases chainStep_cases hstep with ⟨c, response, rfl, hcall⟩ | ⟨header, body, rfl, hchange⟩ |
    ⟨hash, block, rfl, -, hchange⟩ | ⟨cache, states, rfl, -⟩
  · have hok := hcall
    cases served_of_serve hcall with
    | failed => cases hopen
    | sealFailed c err ub s hchange =>
      rw [hchange.unsealed.1] at hopen
      cases hopen
    | @opened e' parent accounts hparent _ hnumber htime _ =>
      obtain rfl := Option.some.inj hopen
      exact .inr ⟨e', rfl, congrArg Prod.snd (Option.some.inj hok), rfl, rfl, parent, hparent,
        hnumber, htime⟩
    | @accepted f ub ub₁ s s₁ res hub hs hacc =>
      obtain rfl := Option.some.inj hopen
      exact .inl ⟨ub, hub, env_eq_of_accepts hacc, fun _ => rfl⟩
    | @acceptedLast f ub ub₁ s s₁ res _ hub hs hacc hlast hchange =>
      rw [hchange.unsealed.1] at hopen
      obtain rfl := Option.some.inj hopen
      exact .inl ⟨ub, hub, env_eq_of_accepts hacc, fun hstays => nomatch hlast.symm.trans hstays⟩
    | canonical => cases hopen
  · exact .inl ⟨ub', hchange.unsealed.1 ▸ hopen, rfl, fun hstays => nomatch hstays⟩
  · exact .inl ⟨ub', hchange.unsealed.1 ▸ hopen, rfl, fun hstays => nomatch hstays⟩
  · exact .inl ⟨ub', hopen, rfl, fun _ => rfl⟩

end

/-- An event under which an open block goes on extending the head: an Env that is accepted names the
head, and the head does not move under a block that stays open, where it could. -/
structure KeepsHead (vm : VM) (config : ChainConfig) (node : Node) (bc : BlockChain)
    (e : ChainEvent) : Prop where
  env : ∀ e', e = .call (.env e') → (envV0 bc e').2 = .ok () →
    e'.env.parentHash = vm.headerHash bc.currentBlock
  head : mayMoveHead e = true → ∀ bc', chainStep vm config node bc e = some bc' →
    bc.currentUnsealedBlock.isSome → bc'.currentUnsealedBlock.isSome →
    vm.headerHash bc'.currentBlock = vm.headerHash bc.currentBlock

/-- **The parent of an open block.** In every run that starts with no open block, the parent of an
open block was known when the block was opened, has the number before it and is not younger; and it
is the canonical head if every Env that was accepted named the head and neither a change of the
chain nor a last frag moved the head under an open block.
SRCLINE: catalyst/api.go:1511-1559, blockchain.go:639-658 -/
theorem unsealedBlock_parent (vm : VM) (config : ChainConfig) (node : Node)
    {bc₀ bc : BlockChain} {events : List ChainEvent} {ub : UnsealedBlock}
    (hclosed : bc₀.currentUnsealedBlock = none)
    (hrun : runSteps (chainStep vm config node) bc₀ events = some bc)
    (hopen : bc.currentUnsealedBlock = some ub) :
    (∃ before bc₁ parent, before <+: events ∧
        runSteps (chainStep vm config node) bc₀ before = some bc₁ ∧
        ParentOf bc₁ ub.env parent) ∧
      (Along (chainStep vm config node) (KeepsHead vm config node) bc₀ events →
        ub.env.parentHash = vm.headerHash bc.currentBlock) := by
  constructor
  · -- the invariant names the moment at which the open block was opened
    refine runSteps_history (I := fun es bc => ∀ ub, bc.currentUnsealedBlock = some ub →
      ∃ before bc₁ parent, before <+: es ∧
        runSteps (chainStep vm config node) bc₀ before = some bc₁ ∧
        ParentOf bc₁ ub.env parent) ?_ ?_ hrun ub hopen
    · intro ub hub
      rw [hclosed] at hub
      cases hub
    · intro es bc₁ e bc₂ hes hI hstep ub' hub'
      rcases chainStep_open hstep hub' with
        ⟨ub₁, hub₁, henv, -⟩ | ⟨e', -, -, henv, -, parent, hparent⟩
      · obtain ⟨before, bc₃, parent, hpre, hbefore, hparent⟩ := hI ub₁ hub₁
        rw [henv]
        exact ⟨before, bc₃, parent, hpre.trans (List.prefix_append _ _), hbefore, hparent⟩
      · rw [henv]
        exact ⟨es, bc₁, parent, List.prefix_append _ _, hes, hparent⟩
  · intro halong
    refine Along.induction (I := fun bc => ∀ ub, bc.currentUnsealedBlock = some ub →
      ub.env.parentHash = vm.headerHash bc.currentBlock) ?_ halong ?_ hrun ub hopen
    · intro bc₁ e bc₂ hkeeps hI hstep ub' hub'
      rcases chainStep_open hstep hub' with
        ⟨ub₁, hub₁, henv, hstays⟩ | ⟨e', he, hok, henv, hhead, -⟩
      · rw [henv, hI ub₁ hub₁]
        cases hmay : mayMoveHead e with
        | false => rw [hstays hmay]
        | true => exact (hkeeps.head hmay bc₂ hstep (by rw [hub₁]; rfl) (by rw [hub']; rfl)).symm
      · rw [henv, hhead]
        exact hkeeps.env e' he hok
    · intro ub hub
      rw [hclosed] at hub
      cases hub

/-- A block that was opened on the head and is given a frag. -/
theorem unsealedBlock_parent_opening : ∃ bc ub,
    runSteps (chainStep plainVM plainConfig plainNode) (genesisChain plainVM) openingCalls =
        some bc ∧ bc.currentUnsealedBlock = some ub ∧ ub.frags.length = 1 ∧
      Along (chainStep plainVM plainConfig plainNode) (KeepsHead plainVM plainConfig plainNode)
        (genesisChain plainVM) openingCalls ∧
      ub.env.parentHash = plainVM.headerHash bc.currentBlock := by
  have hrun : ((runSteps (chainStep plainVM plainConfig plainNode) (genesisChain plainVM)
      openingCalls).bind fun bc => bc.currentUnsealedBlock.map fun ub => ub.frags.length) =
      some 1 := by decide +kernel
  have halong : Along (chainStep plainVM plainConfig plainNode)
      (KeepsHead plainVM plainConfig plainNode) (genesisChain plainVM) openingCalls := by
    refine ⟨⟨?_, fun hmay => ?_⟩, fun bc hbc => ⟨⟨?_, fun hmay => ?_⟩, fun _ _ => trivial⟩⟩
    · rintro e' he -
      cases he
      rfl
    · cases hmay
    · intro e' he
      cases he
    · cases hmay
  obtain ⟨bc, hbc, hub⟩ := Option.bind_eq_some_iff.mp hrun
  obtain ⟨ub, hopen, hlen⟩ := Option.map_eq_some_iff.mp hub
  exact ⟨bc, ub, hbc, hopen, hlen, halong,
    (unsealedBlock_parent plainVM plainConfig plainNode rfl hbc hopen).2 halong⟩

def otherBlock : Block :=
  executableDataToBlock plainVM (plainHeader 1 (plainVM.headerHash genesisBlock.header) 3)
    ⟨[], [], some [], []⟩

/-- Open block 1, then insert another block of this number and make it the head. -/
def overtakenCalls : List ChainEvent :=
  [.call (.env (plainEnv 1 (plainVM.headerHash genesisBlock.header) 2)),
    .newPayload otherBlock.header otherBlock.body,
    .forkchoiceUpdated (plainVM.headerHash otherBlock.header)]

/-- The head moves on under an open block, and the Env of the next block is
refused because of it. -/
theorem unsealedBlock_overtaken : ∃ bc ub,
    runSteps (chainStep plainVM plainConfig plainNode) (genesisChain plainVM) overtakenCalls =
        some bc ∧ bc.currentUnsealedBlock = some ub ∧ bc.currentBlock = otherBlock.header ∧
      ub.env.parentHash ≠ plainVM.headerHash bc.currentBlock ∧
      (envV0 bc (plainEnv 2 (plainVM.headerHash otherBlock.header) 5)).2 =
        .error .alreadyInProgress := by
  have h : ((runSteps (chainStep plainVM plainConfig plainNode) (genesisChain plainVM)
      overtakenCalls).bind fun bc => bc.currentUnsealedBlock.map fun ub =>
        (bc.currentBlock, ub.env.parentHash,
          (envV0 bc (plainEnv 2 (plainVM.headerHash otherBlock.header) 5)).2)) =
      some (otherBlock.header, plainVM.headerHash genesisBlock.header,
        .error .alreadyInProgress) := by decide +kernel
  obtain ⟨bc, hrun, h⟩ := Option.bind_eq_some_iff.mp h
  obtain ⟨ub, hopen, h⟩ := Option.map_eq_some_iff.mp h
  simp only [Prod.mk.injEq] at h
  obtain ⟨hhead, hparent, hnext⟩ := h
  refine ⟨bc, ub, hrun, hopen, hhead, ?_, hnext⟩
  rw [hhead, hparent]
  decide +kernel

end BasedOp.Analysis.HeadExtension
