import BasedOp.Model.ConsensusApi

/-!
# What a call does to the chain

One inversion lemma for each function that changes the chain. An ordinary
insertion or head change leaves the unsealed block alone and stores at most one
block, or moves the head to it (`Change`). A call of the preconfirmation api
either fails, and the unsealed block is gone, or it does exactly what it is for.
-/

set_option autoImplicit false

namespace BasedOp.Analysis.ChainChanges

open BasedOp.Computation Model Model.OpGeth

/-- What inserting `block` or making it canonical may do to a chain: besides the
states that can be opened, nothing, or store the block, or move the head to it.
SRCLINE: blockchain.go:1468-1506,1645-1841,2399-2450 -/
inductive Change (vm : VM) (block : Block) (bc : BlockChain) : BlockChain → Prop where
  | states (states : GoMap Hash Accounts) : Change vm block bc { bc with states := states }
  | store (states : GoMap Hash Accounts) : Change vm block bc
      { bc with
        states := states
        blocks := bc.blocks.insert (vm.headerHash block.header, block.header.numberU64) block
        headerNumbers := bc.headerNumbers.insert (vm.headerHash block.header)
          block.header.numberU64 }
  | head (states : GoMap Hash Accounts) : Change vm block bc
      { bc with states := states, currentBlock := block.header }

variable {s : StateDB} {err : Option InsertError} {response : Response} {ub : UnsealedBlock}
  {f : SignedNewFrag}

section

variable {vm : VM} {config : ChainConfig} {node : Node} {bc bc' : BlockChain} {block : Block}

/-- Leaving the chain alone is a change. -/
theorem Change.refl (vm : VM) (block : Block) (bc : BlockChain) : Change vm block bc bc :=
  .states bc.states

/-- The states that are stored do not matter. -/
theorem Change.of_states {states : GoMap Hash Accounts}
    (h : Change vm block { bc with states := states } bc') : Change vm block bc bc' := by
  cases h with
  | states states => exact .states states
  | store states => exact .store states
  | head states => exact .head states

/-- The unsealed block and its state are no business of the ordinary chain. -/
theorem Change.unsealed (h : Change vm block bc bc') :
    bc'.currentUnsealedBlock = bc.currentUnsealedBlock ∧
      bc'.unsealedBlockDbState = bc.unsealedBlockDbState := by
  cases h with
  | states => exact ⟨rfl, rfl⟩
  | store => exact ⟨rfl, rfl⟩
  | head => exact ⟨rfl, rfl⟩

/-- No change touches the block cache. -/
theorem Change.blockCache (h : Change vm block bc bc') : bc'.blockCache = bc.blockCache := by
  cases h with
  | states => rfl
  | store => rfl
  | head => rfl

/-- Resetting the open block does not matter. -/
theorem Change.reset (ub : Option UnsealedBlock) (s : Option StateDB)
    (h : Change vm block { bc with currentUnsealedBlock := ub, unsealedBlockDbState := s } bc') :
    Change vm block bc.resetCurrentUnsealedBlock bc'.resetCurrentUnsealedBlock := by
  cases h with
  | states states => exact .states states
  | store states => exact .store states
  | head states => exact .head states

/-! ## The ordinary chain -/

/-- Writing a block with its state is a change. -/
theorem writeBlockWithState_change (h : writeBlockWithState vm node bc block s = (bc', err)) :
    Change vm block bc bc' := by
  unfold writeBlockWithState at h
  split at h
  · obtain ⟨rfl, rfl⟩ := Prod.mk.inj h
    exact .refl vm block bc
  · dsimp only at h
    split at h
    · obtain ⟨rfl, rfl⟩ := Prod.mk.inj h
      exact .store bc.states
    · obtain ⟨rfl, rfl⟩ := Prod.mk.inj h
      exact .store _

/-- Executing a block stores it or leaves the chain as it is. -/
theorem processBlock_change (h : processBlock vm config node bc block = some (bc', err)) :
    Change vm block bc bc' := by
  unfold processBlock at h
  split at h
  · cases h
  · split at h
    · obtain ⟨rfl, rfl⟩ := Prod.mk.inj (Option.some.inj h)
      exact .refl vm block bc
    · split at h
      · cases h
      · obtain ⟨rfl, rfl⟩ := Prod.mk.inj (Option.some.inj h)
        exact .refl vm block bc
      · split at h
        · obtain ⟨rfl, rfl⟩ := Prod.mk.inj (Option.some.inj h)
          exact .refl vm block bc
        · exact writeBlockWithState_change (Option.some.inj h)

/-- A known block becomes the head, unless the reorganisation fails. -/
theorem writeKnownBlock_cases (h : writeKnownBlock vm node bc block = (bc', err)) :
    (bc' = { bc with currentBlock := block.header } ∧ err = none) ∨ (bc' = bc ∧ err.isSome) := by
  unfold writeKnownBlock at h
  split at h
  · split at h
    · obtain ⟨rfl, rfl⟩ := Prod.mk.inj h
      exact .inr ⟨rfl, rfl⟩
    · obtain ⟨rfl, rfl⟩ := Prod.mk.inj h
      exact .inl ⟨rfl, rfl⟩
  · obtain ⟨rfl, rfl⟩ := Prod.mk.inj h
    exact .inl ⟨rfl, rfl⟩

/-- Writing a known block is a change. -/
theorem writeKnownBlock_change (h : writeKnownBlock vm node bc block = (bc', err)) :
    Change vm block bc bc' := by
  rcases writeKnownBlock_cases h with ⟨rfl, -⟩ | ⟨rfl, -⟩
  · exact .head bc.states
  · exact .refl vm block bc'

/-- What inserting a block may do. -/
theorem insertBlockWithoutSetHead_change
    (h : insertBlockWithoutSetHead vm config node bc block = some (bc', err)) :
    Change vm block bc bc' := by
  have hsame : ∀ {e : Option InsertError}, some (bc, e) = some (bc', err) →
      Change vm block bc bc' := by
    intro e he
    obtain ⟨rfl, -⟩ := Prod.mk.inj (Option.some.inj he)
    exact .refl vm block bc
  unfold insertBlockWithoutSetHead at h
  split at h
  · exact hsame h
  split at h
  · exact hsame h
  split at h
  · exact hsame h
  split at h
  · exact hsame h
  · split at h
    · exact hsame h
    · split at h
      · exact hsame h
      · exact (processBlock_change h).of_states
  · exact processBlock_change h
  · split at h
    · split at h
      · exact writeKnownBlock_change (Option.some.inj h)
      · exact hsame h
    · exact processBlock_change h

/-- `SetCanonical` makes the block the head or fails. -/
theorem setCanonical_cases (h : setCanonical vm node bc block = (bc', err)) :
    (∃ states, bc' = { bc with states := states, currentBlock := block.header } ∧ err = none) ∨
      (∃ states, bc' = { bc with states := states } ∧ err.isSome) := by
  unfold setCanonical at h
  split at h
  · obtain ⟨rfl, rfl⟩ := Prod.mk.inj h
    exact .inr ⟨bc.states, rfl, rfl⟩
  · dsimp only at h
    split at h
    · obtain ⟨rfl, rfl⟩ := Prod.mk.inj h
      exact .inr ⟨bc.states, rfl, rfl⟩
    · next states _ =>
      rcases writeKnownBlock_cases h with ⟨rfl, rfl⟩ | ⟨rfl, herr⟩
      · exact .inl ⟨states, rfl, rfl⟩
      · exact .inr ⟨states, rfl, herr⟩

/-- Making a block canonical is a change. -/
theorem setCanonical_change (h : setCanonical vm node bc block = (bc', err)) :
    Change vm block bc bc' := by
  rcases setCanonical_cases h with ⟨states, rfl, -⟩ | ⟨states, rfl, -⟩
  · exact .head states
  · exact .states states

/-- A fork choice changes the chain by making a known block canonical. -/
theorem forkchoiceUpdated_change (vm : VM) (node : Node) (bc : BlockChain) (hash : Hash) :
    forkchoiceUpdated vm node bc hash = bc ∨
      ∃ block, bc.getBlockByHash hash = some block ∧
        Change vm block bc (forkchoiceUpdated vm node bc hash) := by
  unfold forkchoiceUpdated
  cases h : bc.getBlockByHash hash with
  | none => exact .inl rfl
  | some block =>
    dsimp only
    split
    · exact .inl rfl
    · split
      · exact .inr ⟨block, rfl, setCanonical_change rfl⟩
      · exact .inl rfl

/-- Sealing changes the chain by inserting the assembled block. -/
theorem sealBlock_change {r : Except ApiError Block} (hs : bc.unsealedBlockDbState = some s)
    (h : sealBlock vm config node bc ub = some (bc', r)) :
    Change vm (sealedBlock vm config ub s) bc bc' := by
  unfold sealBlock at h
  rw [hs] at h
  dsimp only at h
  split at h
  · cases h
  · next _ err hins =>
    obtain ⟨rfl, rfl⟩ := Prod.mk.inj (Option.some.inj h)
    exact insertBlockWithoutSetHead_change hins
  · next _ hins =>
    obtain ⟨rfl, rfl⟩ := Prod.mk.inj (Option.some.inj h)
    exact insertBlockWithoutSetHead_change hins

/-! ## The preconfirmation api -/

/-- A frag is taken into the open block: it is the next one, its transactions
succeed, and the block is extended by them.
SRCLINE: catalyst/api.go:1392-1416, blockchain_insert.go:180-233 -/
structure Accepts (vm : VM) (config : ChainConfig) (f : Frag) (ub : UnsealedBlock) (s : StateDB)
    (res : ProcessResult) (ub' : UnsealedBlock) (s' : StateDB) : Prop where
  number : f.blockNumber = ub.env.number
  next : ub.isNextFrag f = some true
  processed : ∃ gas, processWithCumulativeGas vm config (fragBlock ub f) s ub.cumulativeGasUsed =
    some (.ok res, s', gas)
  extended : ub.extend f res = some ub'

/-- What a call that returns has done: it has failed, perhaps only after the sealed
block was inserted, or it has opened a block, taken a frag in, sealed the block after
the last frag, or made the block of a seal canonical.
SRCLINE: catalyst/api.go:1341-1559 -/
inductive Served (vm : VM) (config : ChainConfig) (bc : BlockChain) :
    Call → BlockChain → Response → Prop where
  | failed (c : Call) (err : ApiError) (states : GoMap Hash Accounts) :
      Served vm config bc c
        (BlockChain.resetCurrentUnsealedBlock { bc with states := states }) (.error err)
  | sealFailed (c : Call) (err : ApiError) (ub : UnsealedBlock) (s : StateDB) {bc' : BlockChain}
      (h : Change vm (sealedBlock vm config ub s) bc.resetCurrentUnsealedBlock bc') :
      Served vm config bc c bc' (.error err)
  | opened {e : SignedEnv} {parent : Block} {accounts : Accounts}
      (hparent : bc.getBlockByHash e.env.parentHash = some parent)
      (hclosed : bc.currentUnsealedBlock = none)
      (hnumber : e.env.number = parent.header.numberU64 + 1)
      (htime : parent.header.time ≤ e.env.timestamp)
      (hstate : bc.states.lookup parent.header.root = some accounts) :
      Served vm config bc (.env e)
        { bc with
          unsealedBlockDbState := some (StateDB.new accounts)
          currentUnsealedBlock := some (newUnsealedBlock e.env) } (.ok ())
  | accepted {f : SignedNewFrag} {ub ub' : UnsealedBlock} {s s' : StateDB} {res : ProcessResult}
      (hub : bc.currentUnsealedBlock = some ub) (hs : bc.unsealedBlockDbState = some s)
      (hacc : Accepts vm config f.frag ub s res ub' s') (hlast : f.frag.isLast = false) :
      Served vm config bc (.newFrag f)
        { bc with currentUnsealedBlock := some ub', unsealedBlockDbState := some s' } (.ok ())
  | acceptedLast {f : SignedNewFrag} {ub ub' : UnsealedBlock} {s s' : StateDB}
      {res : ProcessResult} {bc' : BlockChain}
      (hub : bc.currentUnsealedBlock = some ub) (hs : bc.unsealedBlockDbState = some s)
      (hacc : Accepts vm config f.frag ub s res ub' s') (hlast : f.frag.isLast = true)
      (h : Change vm (sealedBlock vm config ub' s')
        { bc with currentUnsealedBlock := some ub', unsealedBlockDbState := some s' } bc') :
      Served vm config bc (.newFrag f) bc' (.ok ())
  | canonical {sl : SignedSeal} {block : Block} (states : GoMap Hash Accounts)
      (hget : bc.getBlock sl.sealData.blockHash sl.sealData.blockNumber = some block)
      (hval : validateSealFragV0 vm bc block sl = none) :
      Served vm config bc (.sealFrag sl)
        (BlockChain.resetCurrentUnsealedBlock
          { bc with states := states, currentBlock := block.header }) (.ok ())

/-- `EnvV0` fails, or opens a block on a known parent. -/
theorem served_envV0 {e : SignedEnv} (h : envV0 bc e = (bc', response)) :
    Served vm config bc (.env e) bc' response := by
  unfold envV0 envV0Body at h
  split at h
  · obtain ⟨rfl, rfl⟩ := Prod.mk.inj h
    exact .failed _ _ bc.states
  · next hval =>
    unfold validateEnvV0 at hval
    unfold BlockChain.setCurrentUnsealedBlock at h
    cases hparent : bc.getBlockByHash e.env.parentHash with
    | none => simp [hparent] at hval
    | some parent =>
      simp only [hparent] at hval
      split at hval
      · cases hval
      next hclosed =>
      split at hval
      · cases hval
      next hnumber =>
      split at hval
      · cases hval
      next htime =>
      simp only [newUnsealedBlock, hparent, BlockChain.stateAt] at h
      cases hacc : bc.states.lookup parent.header.root with
      | none =>
        simp only [hacc, Option.map_none] at h
        obtain ⟨rfl, rfl⟩ := Prod.mk.inj h
        exact .failed _ _ bc.states
      | some =>
        simp only [hacc, Option.map_some] at h
        obtain ⟨rfl, rfl⟩ := Prod.mk.inj h
        refine .opened hparent ?_ ?_ ?_ hacc
        · simpa using hclosed
        · exact not_not.mp hnumber
        · exact UInt64.not_lt.mp htime

/-- Inserting a frag touches the unsealed block and its state only. -/
theorem insertNewFrag_cases {f : Frag} {err : Option FragError}
    (h : insertNewFrag vm config bc f = some (bc', err)) :
    (err.isSome ∧ ∃ ub s,
        bc' = { bc with currentUnsealedBlock := ub, unsealedBlockDbState := s }) ∨
      (err = none ∧ ∃ ub s res s' gas ub',
        bc.currentUnsealedBlock = some ub ∧ bc.unsealedBlockDbState = some s ∧
        processWithCumulativeGas vm config (fragBlock ub f) s ub.cumulativeGasUsed =
          some (.ok res, s', gas) ∧
        ub.extend f res = some ub' ∧
        bc' = { bc with
          currentUnsealedBlock := some ub', unsealedBlockDbState := some s' }) := by
  unfold insertNewFrag at h
  split at h
  · obtain ⟨rfl, rfl⟩ := Prod.mk.inj (Option.some.inj h)
    exact .inl ⟨rfl, _, _, rfl⟩
  · cases h
  · next s ub hs hub =>
    split at h
    · cases h
    · obtain ⟨rfl, rfl⟩ := Prod.mk.inj (Option.some.inj h)
      exact .inl ⟨rfl, _, _, rfl⟩
    · next res s' gas hproc =>
      split at h
      · cases h
      · next ub' hext =>
        obtain ⟨rfl, rfl⟩ := Prod.mk.inj (Option.some.inj h)
        exact .inr ⟨rfl, ub, s, res, s', gas, ub', hub, hs, hproc, hext, rfl⟩

/-- A frag that passes validation is the next one of the open block. -/
theorem validateNewFragV0_eq_none {ub : Option UnsealedBlock}
    (h : validateNewFragV0 f ub = some none) :
    ∃ u, ub = some u ∧ f.frag.blockNumber = u.env.number ∧ u.isNextFrag f.frag = some true := by
  unfold validateNewFragV0 at h
  cases ub with
  | none => cases Option.some.inj h
  | some u =>
    dsimp only at h
    split at h
    · cases Option.some.inj h
    · next hnumber =>
      split at h
      · cases h
      · next hnext => exact ⟨u, rfl, not_not.mp hnumber, hnext⟩
      · cases Option.some.inj h

/-- `NewFragV0` fails, and then has at most stored the sealed block, or
takes the frag into the open block, which it seals if the frag is the last. -/
theorem served_newFragV0 (h : newFragV0 vm config node bc f = some (bc', response)) :
    Served vm config bc (.newFrag f) bc' response := by
  unfold newFragV0 at h
  rw [Option.map_eq_some_iff] at h
  obtain ⟨⟨bc₁, response₁⟩, hbody, hdiscard⟩ := h
  unfold newFragV0Body at hbody
  split at hbody
  · cases hbody
  · obtain ⟨rfl, rfl⟩ := Prod.mk.inj (Option.some.inj hbody)
    obtain ⟨rfl, rfl⟩ := Prod.mk.inj hdiscard
    exact .failed _ _ bc.states
  next hval =>
  split at hbody
  · cases hbody
  · next err hins =>
    rcases insertNewFrag_cases hins with ⟨-, ub, s, rfl⟩ | ⟨herr, -⟩
    · obtain ⟨rfl, rfl⟩ := Prod.mk.inj (Option.some.inj hbody)
      obtain ⟨rfl, rfl⟩ := Prod.mk.inj hdiscard
      exact .failed _ _ bc.states
    · cases herr
  next bc₂ hins =>
  rcases insertNewFrag_cases hins with ⟨herr, -⟩ | ⟨-, ub, s, res, s', gas, ub', hub, hs, hproc,
    hext, rfl⟩
  · cases herr
  obtain ⟨u, hu, hnumber, hnext⟩ := validateNewFragV0_eq_none hval
  obtain rfl : ub = u := Option.some.inj (hub.symm.trans hu)
  have hacc : Accepts vm config f.frag ub s res ub' s' := ⟨hnumber, hnext, ⟨gas, hproc⟩, hext⟩
  split at hbody
  · next hlast =>
    dsimp only at hbody
    split at hbody
    · cases hbody
    · next err hseal =>
      have hchange := sealBlock_change rfl hseal
      obtain ⟨rfl, rfl⟩ := Prod.mk.inj (Option.some.inj hbody)
      obtain ⟨rfl, rfl⟩ := Prod.mk.inj hdiscard
      exact .sealFailed _ _ ub' s' hchange.reset
    · next block hseal =>
      have hchange := sealBlock_change rfl hseal
      obtain ⟨rfl, rfl⟩ := Prod.mk.inj (Option.some.inj hbody)
      obtain ⟨rfl, rfl⟩ := Prod.mk.inj hdiscard
      exact .acceptedLast hub hs hacc hlast hchange
  · next hlast =>
    obtain ⟨rfl, rfl⟩ := Prod.mk.inj (Option.some.inj hbody)
    obtain ⟨rfl, rfl⟩ := Prod.mk.inj hdiscard
    exact .accepted hub hs hacc (by simpa using hlast)

/-- `SealFragV0` fails, or makes the block it has found under the hash of the seal canonical. -/
theorem served_sealFragV0 {sl : SignedSeal} (h : sealFragV0 vm node bc sl = (bc', response)) :
    Served vm config bc (.sealFrag sl) bc' response := by
  unfold sealFragV0 sealFragV0Body at h
  split at h
  · obtain ⟨rfl, rfl⟩ := Prod.mk.inj h
    exact .failed _ _ bc.states
  · next block hblock =>
    split at h
    · obtain ⟨rfl, rfl⟩ := Prod.mk.inj h
      exact .failed _ _ bc.states
    · next hval =>
      split at h
      · next bc₁ err hcan =>
        obtain ⟨rfl, rfl⟩ := Prod.mk.inj h
        rcases setCanonical_cases hcan with ⟨states, -, herr⟩ | ⟨states, rfl, -⟩
        · cases herr
        · exact .failed _ _ states
      · next bc₁ hcan =>
        obtain ⟨rfl, rfl⟩ := Prod.mk.inj h
        rcases setCanonical_cases hcan with ⟨states, rfl, -⟩ | ⟨states, -, herr⟩
        · exact .canonical states hblock hval
        · cases herr

/-- A call that returns has done one of these. -/
theorem served_of_serve {c : Call} (h : serve vm config node bc c = some (bc', response)) :
    Served vm config bc c bc' response := by
  cases c with
  | env => exact served_envV0 (Option.some.inj h)
  | newFrag => exact served_newFragV0 h
  | sealFrag => exact served_sealFragV0 (Option.some.inj h)

/-- One event is a call, or a change of the ordinary chain by a payload or by a known block, or only
moves blocks in and out of the cache and changes the states. -/
theorem chainStep_cases {e : ChainEvent} (h : chainStep vm config node bc e = some bc') :
    (∃ c response, e = .call c ∧ serve vm config node bc c = some (bc', response)) ∨
      (∃ header body, e = .newPayload header body ∧
        Change vm (executableDataToBlock vm header body) bc bc') ∨
      (∃ hash block, e = .forkchoiceUpdated hash ∧ bc.getBlockByHash hash = some block ∧
        Change vm block bc bc') ∨
      (∃ cache states, bc' = { bc with blockCache := cache, states := states } ∧
        ∀ hash block, cache.lookup hash = some block →
          bc.blockCache.lookup hash = some block ∨
            ∃ number, bc.blocks.lookup (hash, number) = some block) := by
  have hsame : some bc = some bc' → ∃ cache states,
      bc' = { bc with blockCache := cache, states := states } ∧
        ∀ hash block, cache.lookup hash = some block →
          bc.blockCache.lookup hash = some block ∨
            ∃ number, bc.blocks.lookup (hash, number) = some block := by
    intro heq
    obtain rfl := Option.some.inj heq
    exact ⟨bc.blockCache, bc.states, rfl, fun _ _ hl => .inl hl⟩
  cases e with
  | call c =>
    obtain ⟨⟨bc₁, response⟩, hcall, rfl⟩ := Option.map_eq_some_iff.mp h
    exact .inl ⟨c, response, rfl, hcall⟩
  | newPayload header body =>
    obtain ⟨⟨bc₁, err⟩, hins, rfl⟩ := Option.map_eq_some_iff.mp h
    exact .inr (.inl ⟨header, body, rfl, insertBlockWithoutSetHead_change hins⟩)
  | forkchoiceUpdated hash =>
    rcases forkchoiceUpdated_change vm node bc hash with heq | ⟨block, hblock, hchange⟩
    · rw [chainStep, heq] at h
      exact .inr (.inr (.inr (hsame h)))
    · obtain rfl := Option.some.inj h
      exact .inr (.inr (.inl ⟨hash, block, rfl, hblock, hchange⟩))
  | cacheBlock hash number =>
    cases hl : bc.blocks.lookup (hash, number) with
    | none =>
      simp only [chainStep, hl] at h
      exact .inr (.inr (.inr (hsame h)))
    | some =>
      simp only [chainStep, hl] at h
      obtain rfl := Option.some.inj h
      refine .inr (.inr (.inr ⟨_, bc.states, rfl, ?_⟩))
      intro hash' block' hl'
      by_cases hh : hash' = hash
      · subst hh
        rw [AList.lookup_insert, Option.some.injEq] at hl'
        exact .inr ⟨number, hl' ▸ hl⟩
      · rw [AList.lookup_insert_ne hh] at hl'
        exact .inl hl'
  | evictBlock hash =>
    obtain rfl := Option.some.inj h
    refine .inr (.inr (.inr ⟨_, bc.states, rfl, ?_⟩))
    intro hash' block' hl'
    by_cases hh : hash' = hash
    · subst hh
      rw [AList.lookup_erase] at hl'
      cases hl'
    · rw [AList.lookup_erase_ne hh] at hl'
      exact .inl hl'
  | statesChange states =>
    obtain rfl := Option.some.inj h
    exact .inr (.inr (.inr ⟨bc.blockCache, states, rfl, fun _ _ hl => .inl hl⟩))

/-! ## The open block along a run -/

/-- The open block and its state after an event are those before it, or were
opened by it, or have taken a frag in. -/
theorem chainStep_openBlock {e : ChainEvent} {ub' : UnsealedBlock} {s' : StateDB}
    (h : chainStep vm config node bc e = some bc') (hub' : bc'.currentUnsealedBlock = some ub')
    (hs' : bc'.unsealedBlockDbState = some s') :
    (bc.currentUnsealedBlock = some ub' ∧ bc.unsealedBlockDbState = some s') ∨
      (∃ env A, ub' = newUnsealedBlock env ∧ s' = StateDB.new A) ∨
      ∃ f ub s res, bc.currentUnsealedBlock = some ub ∧ bc.unsealedBlockDbState = some s ∧
        Accepts vm config f ub s res ub' s' := by
  rcases chainStep_cases h with ⟨c, response, rfl, hcall⟩ | ⟨header, body, -, hchange⟩ |
    ⟨hash, block, -, -, hchange⟩ | ⟨cache, states, rfl, -⟩
  · cases served_of_serve hcall with
    | failed => cases hub'
    | sealFailed c err ub s hchange =>
      rw [hchange.unsealed.1] at hub'
      cases hub'
    | @opened e parent accounts =>
      exact .inr (.inl ⟨e.env, accounts, (Option.some.inj hub').symm,
        (Option.some.inj hs').symm⟩)
    | accepted hub hs hacc =>
      rw [← Option.some.inj hub', ← Option.some.inj hs']
      exact .inr (.inr ⟨_, _, _, _, hub, hs, hacc⟩)
    | acceptedLast hub hs hacc _ hchange =>
      rw [hchange.unsealed.1] at hub'
      rw [hchange.unsealed.2] at hs'
      rw [← Option.some.inj hub', ← Option.some.inj hs']
      exact .inr (.inr ⟨_, _, _, _, hub, hs, hacc⟩)
    | canonical => cases hub'
  · exact .inl ⟨hchange.unsealed.1 ▸ hub', hchange.unsealed.2 ▸ hs'⟩
  · exact .inl ⟨hchange.unsealed.1 ▸ hub', hchange.unsealed.2 ▸ hs'⟩
  · exact .inl ⟨hub', hs'⟩

end

/-- **The rule for the open block.** What holds of a block that has just been
opened and is preserved by every frag that is taken in holds of every open block. -/
theorem openBlock_induction {vm : VM} {config : ChainConfig} {node : Node}
    {I : UnsealedBlock → StateDB → Prop}
    (hnew : ∀ env A, I (newUnsealedBlock env) (StateDB.new A))
    (haccepts : ∀ f ub s res ub' s', I ub s → Accepts vm config f ub s res ub' s' → I ub' s')
    {bc₀ bc : BlockChain} {events : List ChainEvent} (hclosed : bc₀.currentUnsealedBlock = none)
    (hrun : runSteps (chainStep vm config node) bc₀ events = some bc)
    (hub : bc.currentUnsealedBlock = some ub) (hs : bc.unsealedBlockDbState = some s) : I ub s := by
  refine runSteps_induction (I := fun bc => ∀ ub s, bc.currentUnsealedBlock = some ub →
    bc.unsealedBlockDbState = some s → I ub s) ?_ ?_ hrun ub s hub hs
  · intro bc e bc' hI hstep ub' s' hub' hs'
    rcases chainStep_openBlock hstep hub' hs' with
      ⟨hub, hs⟩ | ⟨env, A, rfl, rfl⟩ | ⟨f, ub, s, res, hub, hs, hacc⟩
    · exact hI ub' s' hub hs
    · exact hnew env A
    · exact haccepts f ub s res ub' s' (hI ub s hub hs) hacc
  · intro ub s hub
    rw [hclosed] at hub
    cases hub

end BasedOp.Analysis.ChainChanges
