import BasedOp.Analysis.Processing
import BasedOp.Analysis.SealCommit
import BasedOp.Model.EthApi

/-!
# Readers of the latest state

A request on the latest block runs on the `StateDB` of the open block. It leaves the
chain as it is if its overrides write nothing and its message is refused before it is
executed, or changes nothing when it is; a run with such requests is the run without
them. In general it is not.
-/

set_option autoImplicit false

namespace BasedOp.Analysis.RpcInterference

open BasedOp.Computation Model Model.OpGeth
open Processing SealCommit

/-! ## Overrides that write nothing -/

/-- An override that moves a precompile at most. -/
structure Inert (o : OverrideAccount) : Prop where
  nonce : o.nonce = none
  code : o.code = none
  balance : o.balance = none
  state : o.state = none
  stateDiff : o.stateDiff = none

variable {A : Accounts} {ctx : BlockContext} {msg : Message} {req : CallRequest}
  {diff : StateOverride} {r : Except RpcError ExecutionResult}

section

variable {vm : VM} {config : ChainConfig} {rpc : RpcBackend}

/-- Inert overrides leave the accounts alone, whether they succeed or not. -/
theorem applyOverrides_inert {entries : StateOverride} {dirty : List Address}
    {precompiles : Precompiles} (h : ∀ entry ∈ entries, Inert entry.2) :
    (applyOverrides diff entries dirty precompiles A).2 = A := by
  induction entries generalizing dirty precompiles with
  | nil => rfl
  | cons entry entries ih =>
    rcases entry with ⟨addr, account⟩
    have hinert : Inert account := h (addr, account) List.mem_cons_self
    have haccount : account.writeAccount addr A = A := by
      simp only [OverrideAccount.writeAccount, hinert.nonce, hinert.code, hinert.balance]
    have hstorage : account.writeStorage addr A = A := by
      simp only [OverrideAccount.writeStorage, hinert.state, hinert.stateDiff]
    unfold applyOverrides
    split
    · rfl
    · dsimp only
      split
      · rfl
      · rw [haccount, hstorage]
        split
        · rfl
        · exact ih fun entry hentry => h entry (List.mem_cons_of_mem _ hentry)

/-- Inert overrides change no account. -/
theorem apply_inert (h : ∀ entry ∈ diff, Inert entry.2) (precompiles : Precompiles) (A : Accounts) :
    (diff.apply precompiles A).2 = A :=
  applyOverrides_inert h

/-! ## Messages that change nothing -/

/-- A message that the pre-check refuses, or that changes no account and logs nothing.
SRCLINE: state_transition.go:312-400,457-602 -/
def Unnoticed (vm : VM) (config : ChainConfig) (ctx : BlockContext) (A : Accounts) (msg : Message)
    (gp : UInt64) : Prop :=
  (∃ err, preCheck vm config ctx A msg gp = .error err) ∨
    ((vm.call ctx A msg).accounts = A ∧ (vm.call ctx A msg).logs = [])

/-- Such a message has no effect, whatever becomes of its gas. -/
theorem innerTransitionDb_unnoticed {gp : UInt64} {t : Transition}
    (h : Unnoticed vm config ctx A msg gp)
    (ht : innerTransitionDb vm config ctx A msg gp = some t) : t.accounts = A ∧ t.logs = [] := by
  unfold innerTransitionDb at ht
  rcases h with ⟨err, hpre⟩ | heffect
  · simp only [hpre, Option.some.injEq] at ht
    subst ht
    exact ⟨rfl, rfl⟩
  · split at ht
    · obtain rfl := Option.some.inj ht
      exact ⟨rfl, rfl⟩
    · dsimp only at ht
      split at ht
      · obtain rfl := Option.some.inj ht
        exact heffect
      · split at ht
        · obtain rfl := Option.some.inj ht
          exact heffect
        · split at ht
          · cases ht
          · obtain rfl := Option.some.inj ht
            exact heffect

/-- Only deposits are included when they fail. -/
theorem includeFailedDeposit_of_not_deposit {time : UInt64} (hdeposit : msg.isDepositTx = false)
    (t : Transition) :
    includeFailedDeposit config time A msg t = t := by
  unfold includeFailedDeposit
  split
  · rfl
  · simp [hdeposit]

/-- Such a message leaves the state as it is, unless it is a deposit. -/
theorem applyMessage_unnoticed {s s' : StateDB} {gp gp' : UInt64}
    {res : Except TxError ExecutionResult} (hmint : msg.mint = none)
    (hdeposit : msg.isDepositTx = false) (h : Unnoticed vm config ctx s.accounts msg gp)
    (happly : applyMessage vm config ctx s msg gp = some (res, s', gp')) : s' = s := by
  obtain ⟨t, ht, -, -, rfl⟩ := applyMessage_eq_some_iff.mp happly
  unfold transitionDb at ht
  simp only [hmint] at ht
  obtain ⟨t₀, ht₀, rfl⟩ := Option.map_eq_some_iff.mp ht
  obtain ⟨haccounts, hlogs⟩ := innerTransitionDb_unnoticed h ht₀
  rw [includeFailedDeposit_of_not_deposit hdeposit, haccounts, hlogs]
  simp [stamped]

/-- A call that leaves the state as it is: its overrides are inert, and its message, if
there is one, goes unnoticed. -/
structure Harmless (vm : VM) (config : ChainConfig) (rpc : RpcBackend) (header : Header)
    (req : CallRequest) (A : Accounts) : Prop where
  overrides : ∀ entry ∈ req.overrides, Inert entry.2
  message : ∀ precompiles ctx msg,
    (req.overrides.apply (callPrecompiles vm rpc header req) A).1 = .ok precompiles →
    callMessage vm rpc header req = .ok (ctx, msg) →
    Unnoticed (rpc.evm precompiles) config ctx A msg (callGas rpc)

/-- A call is no deposit and mints nothing. -/
theorem callMessage_toMessage {header : Header}
    (h : callMessage vm rpc header req = .ok (ctx, msg)) :
    msg.mint = none ∧ msg.isDepositTx = false := by
  unfold callMessage at h
  dsimp only at h
  split at h
  · cases h
  · obtain ⟨-, rfl⟩ := Prod.mk.inj (Except.ok.inj h)
    exact ⟨rfl, rfl⟩

/-- A harmless call leaves the state it is given as it is. -/
theorem doCall_harmless {header : Header} {s s' : StateDB}
    (h : Harmless vm config rpc header req s.accounts)
    (hcall : doCall vm config rpc header req s = some (s', r)) : s' = s := by
  have hsame := apply_inert h.overrides (callPrecompiles vm rpc header req) s.accounts
  unfold doCall at hcall
  split at hcall
  · next err A happly =>
    rw [happly] at hsame
    obtain ⟨rfl, -⟩ := Prod.mk.inj (Option.some.inj hcall)
    rw [show A = s.accounts from hsame]
  · next precompiles A happly =>
    rw [happly] at hsame
    obtain rfl : A = s.accounts := hsame
    dsimp only at hcall
    split at hcall
    · obtain ⟨rfl, -⟩ := Prod.mk.inj (Option.some.inj hcall)
      rfl
    · next ctx msg hmsg =>
      obtain ⟨hmint, hdeposit⟩ := callMessage_toMessage hmsg
      have hun := h.message precompiles ctx msg (by rw [happly]) hmsg
      split at hcall
      · cases hcall
      · next err s₁ gp happlied =>
        obtain ⟨rfl, -⟩ := Prod.mk.inj (Option.some.inj hcall)
        exact applyMessage_unnoticed hmint hdeposit hun happlied
      · next result s₁ gp happlied =>
        obtain ⟨rfl, -⟩ := Prod.mk.inj (Option.some.inj hcall)
        exact applyMessage_unnoticed hmint hdeposit hun happlied

/-! ## Runs -/

/-- An event that, if it is a request, is harmless to the open block. -/
def HarmlessEvent (vm : VM) (config : ChainConfig) (rpc : RpcBackend) (bc : BlockChain) :
    RpcEvent → Prop
  | .newFrag _ => True
  | .call req => ∀ ub s, bc.currentUnsealedBlock = some ub → bc.unsealedBlockDbState = some s →
      Harmless vm config rpc ub.tempHeader req s.accounts
  | .estimateGas req => bc.unsealedBlockDbState.isSome → ∀ entry ∈ req.overrides, Inert entry.2

/-- A harmless call leaves the chain as it is. -/
theorem ethCall_harmless {bc bc' : BlockChain} (h : HarmlessEvent vm config rpc bc (.call req))
    (hcall : ethCall vm config rpc bc req = some (bc', r)) : bc' = bc := by
  unfold ethCall at hcall
  split at hcall
  · obtain ⟨rfl, -⟩ := Prod.mk.inj (Option.some.inj hcall)
    rfl
  · next s ub hs hub =>
    split at hcall
    · obtain ⟨rfl, -⟩ := Prod.mk.inj (Option.some.inj hcall)
      rfl
    · split at hcall
      · cases hcall
      · next s' r' hdo =>
        obtain ⟨rfl, -⟩ := Prod.mk.inj (Option.some.inj hcall)
        rw [doCall_harmless (h ub s hub hs) hdo, ← hs]
  · split at hcall
    · obtain ⟨rfl, -⟩ := Prod.mk.inj (Option.some.inj hcall)
      rfl
    · obtain ⟨x, -, hx⟩ := Option.map_eq_some_iff.mp hcall
      exact (Prod.mk.inj hx).1.symm

/-- So does a gas estimation with inert overrides. -/
theorem estimateGas_harmless {bc : BlockChain}
    (h : HarmlessEvent vm config rpc bc (.estimateGas req)) : (estimateGas bc req).1 = bc := by
  unfold estimateGas
  cases hs : bc.unsealedBlockDbState with
  | none =>
    dsimp only
    split
    · rfl
    · rfl
  | some s =>
    have hsame := apply_inert (h (by rw [hs]; rfl)) ∅ s.accounts
    dsimp only
    split
    · next err A happly =>
      rw [happly] at hsame
      rw [show A = s.accounts from hsame, ← hs]
    · next precompiles A happly =>
      rw [happly] at hsame
      rw [show A = s.accounts from hsame, ← hs]

end

/-- **Harmless requests may be removed.** A run of frags with requests on the latest block in
between, each of them harmless when it is made, ends in the very chain in which the frags alone end:
with the same unsealed block, the same state and so the same root.
SRCLINE: api_backend.go:193-225, blockchain_insert.go:180-233 -/
theorem harmless_requests_removed (vm : VM) (config : ChainConfig) (rpc : RpcBackend)
    (node : Node) {bc bc' : BlockChain} {events : List RpcEvent}
    (hharmless : Along (rpcStep vm config rpc node) (HarmlessEvent vm config rpc) bc events)
    (hrun : runSteps (rpcStep vm config rpc node) bc events = some bc') :
    runSteps (rpcStep vm config rpc node) bc (events.filter RpcEvent.isNewFrag) = some bc' := by
  refine Along.runSteps_filter (hharmless.mono ?_) hrun
  intro s e he hkeep t ht
  cases e with
  | newFrag => cases hkeep
  | call =>
    obtain ⟨⟨t', r⟩, hcall, rfl⟩ := Option.map_eq_some_iff.mp ht
    exact ethCall_harmless he hcall
  | estimateGas =>
    obtain rfl := Option.some.inj ht
    exact estimateGas_harmless he

/-! ## A call that is noticed -/

def plainRpc : RpcBackend where
  chainID := 1
  rpcGasCap := 0
  activePrecompiles _ := ∅
  evm _ := plainVM

/-- Arguments that send a value from account 7 to account 8. -/
def transferArgs (value : ℕ) (gasPrice maxFeePerGas : Option ℕ) : TransactionArgs where
  sender := some 7
  recipient := some 8
  gas := none
  gasPrice := gasPrice
  maxFeePerGas := maxFeePerGas
  maxPriorityFeePerGas := none
  value := some value
  nonce := none
  data := none
  input := none
  accessList := none
  chainID := none
  blobFeeCap := none
  blobHashes := none

def plainRequest (args : TransactionArgs) : CallRequest where
  args := args
  overrides := []
  blockOverrides := ⟨none, none, none, none, none, none, none, none⟩

def openedChain : BlockChain :=
  (envV0 (genesisChain plainVM) (plainEnv 1 (plainVM.headerHash genesisBlock.header) 2)).1

/-- The state root of the block assembled from the open block. -/
def preSealedRoot (vm : VM) (config : ChainConfig) (bc : BlockChain) : Option Hash :=
  (assembled vm config bc).map fun block => block.header.root

/-- A gas estimation and a call that is refused for its fees. -/
theorem harmless_requests_removed_refused : ∃ bc,
    runSteps (rpcStep plainVM plainConfig plainRpc plainNode) openedChain
      [.estimateGas (plainRequest (transferArgs 5 none none)),
        .call (plainRequest (transferArgs 5 (some 1) (some 1))),
        .newFrag (plainFrag 1 0 false [plainTx 0 50000])] = some bc ∧
      runSteps (rpcStep plainVM plainConfig plainRpc plainNode) openedChain
        [.newFrag (plainFrag 1 0 false [plainTx 0 50000])] = some bc ∧
      preSealedRoot plainVM plainConfig bc = some 1 := by
  have h : ((runSteps (rpcStep plainVM plainConfig plainRpc plainNode) openedChain
      [.estimateGas (plainRequest (transferArgs 5 none none)),
        .call (plainRequest (transferArgs 5 (some 1) (some 1))),
        .newFrag (plainFrag 1 0 false [plainTx 0 50000])]).bind
      (preSealedRoot plainVM plainConfig)) = some 1 := by decide +kernel
  obtain ⟨bc, hrun, hroot⟩ := Option.bind_eq_some_iff.mp h
  refine ⟨bc, hrun, ?_, hroot⟩
  refine harmless_requests_removed plainVM plainConfig plainRpc plainNode ?_ hrun
  refine ⟨?_, fun _ _ => ⟨?_, fun _ _ => ⟨trivial, fun _ _ => trivial⟩⟩⟩
  · intro _ entry hentry
    cases hentry
  · intro ub s _ _
    refine ⟨fun entry hentry => absurd hentry List.not_mem_nil, ?_⟩
    intro precompiles ctx msg _ hmsg
    simp [callMessage, plainRequest, transferArgs, TransactionArgs.callDefaults] at hmsg

/-- A call that is executed changes the root of the block under construction,
and the last frag is then refused because of it. -/
theorem call_disturbs_frags : ∃ bc bc',
    runSteps (rpcStep plainVM plainConfig plainRpc plainNode) openedChain
      [.call (plainRequest (transferArgs 5 none none)),
        .newFrag (plainFrag 1 0 false [plainTx 0 50000])] = some bc ∧
      runSteps (rpcStep plainVM plainConfig plainRpc plainNode) openedChain
        [.newFrag (plainFrag 1 0 false [plainTx 0 50000])] = some bc' ∧
      preSealedRoot plainVM plainConfig bc ≠ preSealedRoot plainVM plainConfig bc' ∧
      (newFragV0 plainVM plainConfig plainNode bc (plainFrag 1 1 true [])).map Prod.snd =
        some (.error (.sealBlock .stateRootMismatch)) ∧
      (newFragV0 plainVM plainConfig plainNode bc' (plainFrag 1 1 true [])).map Prod.snd =
        some (.ok ()) := by
  have h : ((runSteps (rpcStep plainVM plainConfig plainRpc plainNode) openedChain
      [.call (plainRequest (transferArgs 5 none none)),
        .newFrag (plainFrag 1 0 false [plainTx 0 50000])]).map fun bc =>
          (preSealedRoot plainVM plainConfig bc,
            (newFragV0 plainVM plainConfig plainNode bc (plainFrag 1 1 true [])).map Prod.snd)) =
      some (some (BitVec.ofNat 256 (2 + 2 ^ 64 * 5)),
        some (.error (.sealBlock .stateRootMismatch))) := by decide +kernel
  have h' : ((runSteps (rpcStep plainVM plainConfig plainRpc plainNode) openedChain
        [.newFrag (plainFrag 1 0 false [plainTx 0 50000])]).map fun bc =>
          (preSealedRoot plainVM plainConfig bc,
            (newFragV0 plainVM plainConfig plainNode bc (plainFrag 1 1 true [])).map Prod.snd)) =
      some (some 1, some (.ok ())) := by decide +kernel
  obtain ⟨bc, hrun, hbc⟩ := Option.map_eq_some_iff.mp h
  obtain ⟨bc', hrun', hbc'⟩ := Option.map_eq_some_iff.mp h'
  obtain ⟨hroot, hseal⟩ := Prod.mk.inj hbc
  obtain ⟨hroot', hseal'⟩ := Prod.mk.inj hbc'
  refine ⟨bc, bc', hrun, hrun', ?_, hseal, hseal'⟩
  rw [hroot, hroot']
  decide +kernel

end BasedOp.Analysis.RpcInterference
