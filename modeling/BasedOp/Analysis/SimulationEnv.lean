import BasedOp.Analysis.StateIds

/-!
# The environment that simulations are executed in

The parameters of a new block and the requests travel on two channels. A simulator that
has looked for parameters before a block was started, and for a request after it, executes
the request under the parameters that it has from before, and nothing in the result tells
so. If every simulator that takes a request has received all parameters that were sent,
and no simulation for the pool is under way when a block is started, then every result
that is accepted while a block is built was executed under its parameters.
-/

set_option autoImplicit false

namespace BasedOp.Analysis.SimulationEnv

open BasedOp.Computation Model Model.Gateway
open SequencerSteps SequencerFrames
open WorldSteps StateIds

variable {S : Type}

/-! ## Results that are accepted -/

/-- A result is accepted while a block is built: for the frag that is sorted if it is of its state,
and for the pool if it is of the state of the sealed frags or an error.
SRCLINE: sequencer/src/lib.rs:421-457, sorting_data.rs:206-226 -/
def Accepts (s : Sequencer S) (result : SimulatorToSequencer) : Prop :=
  match s.state, result.msg with
  | .sorting _ data, .tx (.ok _) => data.isValid result.stateId = true
  | .sorting _ data, .tx (.error _) => s.waiting = false ∧ data.isValid result.stateId = true
  | .sorting _ _, .txPoolTopOfFrag (.ok _) =>
    s.waiting = false ∧ s.ctx.sharedState.db.isValid result.stateId = true
  | .sorting _ _, .txPoolTopOfFrag (.error _) => s.waiting = false
  | _, _ => False

variable {s : Sequencer S} {seq : FragSequence} {data : SortingData} {params : List EvmBlockParams}
  {sim : Simulator} {sent : List Output}

/-- While a block is built, a result that is not accepted changes nothing. -/
theorem handle_of_not_accepts (crates : Crates S) {result : SimulatorToSequencer}
    (hstate : s.state = .sorting seq data) (h : ¬ Accepts s result) :
    s.handle crates (.simResult result) = { sent := [], next := some s } := by
  obtain ⟨state, ctx, waiting⟩ := s
  cases hstate
  cases hmsg : result.msg with
  | tx simulatedTx =>
    cases simulatedTx with
    | ok =>
      have hvalid : ¬ data.isValid result.stateId = true := by simpa [Accepts, hmsg] using h
      cases waiting <;>
        simp [Sequencer.handle, Sequencer.receiveDeposit, Sequencer.handleSimResult, Sequencer.goto,
          hmsg, hvalid]
    | error =>
      cases waiting with
      | true => simp [Sequencer.handle, Sequencer.receiveDeposit, hmsg]
      | false =>
        have hvalid : ¬ data.isValid result.stateId = true := by simpa [Accepts, hmsg] using h
        simp [Sequencer.handle, Sequencer.handleSimResult, Sequencer.goto, hmsg, hvalid]
  | txPoolTopOfFrag simulatedTx =>
    cases waiting with
    | true =>
      simp [Sequencer.handle, Sequencer.receiveDeposit, hmsg]
    | false =>
      cases simulatedTx with
      | ok =>
        have hvalid : ¬ ctx.sharedState.db.isValid result.stateId = true := by
          simpa [Accepts, hmsg] using h
        simp [Sequencer.handle, Sequencer.handleSimResult, Sequencer.goto, hmsg, hvalid]
      | error => simp [Accepts, hmsg] at h

/-- The parameters of the block that is built. -/
def BlockParams (crates : Crates S) (ctx : SequencerContext S) (params : EvmBlockParams) : Prop :=
  ctx.newBlockParams crates = some params ∧ ctx.blockEnv = params.env

variable {ctx ctx' : SequencerContext S}

/-- The pool does not matter. -/
theorem BlockParams.of_same {crates : Crates S} {params : EvmBlockParams}
    (h : BlockParams crates ctx params) (hsame : SameBlock ctx ctx') :
    BlockParams crates ctx' params := by
  constructor
  · unfold SequencerContext.newBlockParams SequencerContext.gasLimit
    rw [hsame.payloadAttributes, hsame.parentHeader]
    exact h.1
  · rw [hsame.blockEnv]
    exact h.2

/-! ## Simulators that are up to date -/

def isTof : SequencerToSimulator → Bool
  | .simulateTxTof _ _ => true
  | .simulateTx _ _ _ => false

/-- No simulation for the pool is under way. -/
def NoTof (w : World S) : Prop :=
  (∀ request ∈ w.requests, isTof request = false) ∧
    (∀ sim ∈ running w, isTof sim.request = false) ∧ ∀ r ∈ w.results, isTof r.request = false

/-- A simulator takes a request when it has received all parameters that were sent, and a
block is started when no simulation for the pool is under way. -/
def UpToDate (w : World S) : WorldEvent → Prop
  | .pollRequest k _ => ∀ sim ∈ w.simulators[k]?, sim.cursor = w.params.length
  | .sequencer (.engineApi (.forkChoiceUpdatedV3 head (some _)) _) =>
    head = w.sequencer.ctx.db.headBlockHash → awaits w.sequencer.state = true →
      w.sequencer.ctx.parentHeader.parentHash ≠ 0 → NoTof w
  | _ => True

instance (w : World S) : Decidable (NoTof w) :=
  inferInstanceAs (Decidable ((∀ request ∈ w.requests, _ = _) ∧
    (∀ sim ∈ running w, _ = _) ∧ ∀ r ∈ w.results, _ = _))

instance (w : World S) (e : WorldEvent) : Decidable (UpToDate w e) := by
  rcases e with (_ | _ | _ | ⟨⟨_, _ | _⟩ | _ | _, _⟩ | _) | _ | _ | _ | _ | _ | _ <;>
    unfold UpToDate <;> infer_instance

/-- What a simulator has of the parameters that were sent: the last one that it has received. -/
structure Follows (params : List EvmBlockParams) (sim : Simulator) : Prop where
  cursor_le : sim.cursor ≤ params.length
  params_eq : sim.params = (params.take sim.cursor).getLast?

/-- More parameters may come. -/
theorem Follows.append (h : Follows params sim) (more : List EvmBlockParams) :
    Follows (params ++ more) sim where
  cursor_le := by
    rw [List.length_append]
    have := h.cursor_le
    omega
  params_eq := by
    rw [List.take_append_of_le_length h.cursor_le]
    exact h.params_eq

/-- A simulator reads the next ones. -/
theorem Follows.receive {new : EvmBlockParams} (hnew : params[sim.cursor]? = some new)
    (phase : Phase) :
    Follows params ⟨some new, sim.cursor + 1, phase⟩ where
  cursor_le := (List.getElem?_eq_some_iff.mp hnew).1
  params_eq := by
    show some new = (params.take (sim.cursor + 1)).getLast?
    rw [List.take_add_one, hnew]
    simp

/-- Having read all it has the last. -/
theorem Follows.last (h : Follows params sim) (hcursor : sim.cursor = params.length) :
    sim.params = params.getLast? := by
  rw [h.params_eq, hcursor, List.take_length]

/-! ## The invariant -/

/-- A request whose result may be accepted while a frag with an id is sorted. -/
def ofBlock (id : UInt64) (request : SequencerToSimulator) : Bool :=
  tagged id request || isTof request

/-- The parameters that were sent last are those of the block that is built, and the
simulations that matter to it are executed under them. -/
def InEnv (crates : Crates S) (w : World S) (data : SortingData) : Prop :=
  ∃ params, w.params.getLast? = some params ∧ BlockParams crates w.sequencer.ctx params ∧
    AllSims (fun sim => ofBlock data.db.stateId sim.request = true → sim.params = some params) w

structure EnvInv (crates : Crates S) (w : World S) : Prop where
  ids : IdInv crates w
  answered : Answered w
  follows : ∀ sim ∈ w.simulators, Follows w.params sim
  block : ∀ seq data, w.sequencer.state = .sorting seq data → InEnv crates w data

variable {crates : Crates S} {w w' : World S}

/-- The sequencer only adds parameters. -/
theorem follows_moved (hfollows : ∀ sim ∈ w.simulators, Follows w.params sim) (sent : List Output)
    (s : Sequencer S) : ∀ sim ∈ (moved crates w sent s).simulators,
      Follows (moved crates w sent s).params sim := by
  intro sim hsim
  obtain ⟨sim₀, hsim₀, rfl⟩ := List.mem_map.mp hsim
  obtain ⟨hcursor, hparams⟩ := (hfollows sim₀ hsim₀).append (World.sentParams sent)
  unfold World.observe
  split
  · exact ⟨hcursor, hparams⟩
  · exact ⟨hcursor, hparams⟩

/-- A request that may be accepted for a frag of a block could be accepted before
the step, as a new id is that of no request under way. -/
theorem ofBlock_of_step {e : Event} (hids : IdInv crates w) (hfresh : Fresh crates s.ctx)
    (hfrag : FragStep crates w.sequencer e sent s) {seq₀ : FragSequence} {data₀ : SortingData}
    (hstate₀ : w.sequencer.state = .sorting seq₀ data₀) (hstate : s.state = .sorting seq data)
    {request : SequencerToSimulator} (hrequest : request ∈ outstanding w)
    (hof : ofBlock data.db.stateId request = true) : ofBlock data₀.db.stateId request = true := by
  obtain ⟨seq₁, data₁, hstate₁, hsameId⟩ | ⟨i, hle, hlt, hdrawn⟩ := hfrag.id hstate
  · rw [hstate₀] at hstate₁
    cases hstate₁
    rw [← hsameId]
    exact hof
  · have hnot := hids.fresh hfresh hle hlt request hrequest
    rw [hdrawn] at hnot
    unfold ofBlock at hof ⊢
    rw [hnot, Bool.false_or] at hof
    rw [hof, Bool.or_true]

/-- The parameters of a new block. -/
theorem blockParams_of_startWith {params : EvmBlockParams} {now : ℕ}
    (hparams : ctx.newBlockParams crates = some params)
    (hstart : ctx.startWith crates params now = some (seq, data, ctx')) :
    BlockParams crates ctx' params := by
  have hsame := (starts_of_startWith hstart).same
  refine ⟨?_, hsame.blockEnv⟩
  rw [← hparams]
  unfold SequencerContext.newBlockParams SequencerContext.gasLimit
  rw [hsame.payloadAttributes, hsame.parentHeader]

/-- A block that is started finds no request under way that may be accepted for it. -/
theorem inEnv_started {params : EvmBlockParams} (hids : IdInv crates w)
    (hfresh : Fresh crates s.ctx) (hrunning : ∀ sim ∈ running w, isTof sim.request = false)
    (hresults : ∀ r ∈ w.results, isTof r.request = false)
    (hdrawn : data.db.stateId = crates.rand w.sequencer.ctx.draws)
    (hlt : w.sequencer.ctx.draws < s.ctx.draws) (hblock : BlockParams crates s.ctx params)
    (hsent : World.sentParams sent = [params]) : InEnv crates (moved crates w sent s) data := by
  have hnone : ∀ request ∈ outstanding w, isTof request = false →
      ofBlock data.db.stateId request = false := by
    intro request hrequest htof
    unfold ofBlock
    rw [hdrawn, hids.fresh hfresh le_rfl hlt request hrequest, htof]
    rfl
  refine ⟨params, ?_, hblock, ?_⟩
  · show (w.params ++ World.sentParams sent).getLast? = some params
    rw [hsent, List.getLast?_concat]
  · refine allSims_moved (Q := fun _ => True) ⟨fun _ _ => trivial, fun _ _ => trivial⟩ sent s
      (fun sim hsim _ hof => ?_) (fun r hr _ hof => ?_)
    · rw [hnone _ (mem_outstanding_of_running hsim) (hrunning sim hsim)] at hof
      cases hof
    · rw [hnone _ (mem_outstanding_of_result hr) (hresults r hr)] at hof
      cases hof

/-- What a step of the sequencer does to the environment. -/
theorem inEnv_moved {e : Event} (hids : IdInv crates w) (hfresh : Fresh crates s.ctx)
    (hupToDate : UpToDate w (.sequencer e))
    (hinv : ∀ seq data, w.sequencer.state = .sorting seq data → InEnv crates w data)
    (hstep : Step crates w.sequencer e sent s) (hstate : s.state = .sorting seq data) :
    InEnv crates (moved crates w sent s) data := by
  have hfrag := fragStep_of_step hstep
  obtain ⟨⟨seq₀, data₀, hstate₀⟩, hsame, hsent⟩ |
    ⟨attributes, now, params, rfl, hawaits, hparent, hparams, hstart, hsent⟩ := hfrag.block hstate
  · obtain ⟨params, hlast, hblock, hsims⟩ := hinv seq₀ data₀ hstate₀
    refine ⟨params, ?_, hblock.of_same hsame, ?_⟩
    · show (w.params ++ World.sentParams sent).getLast? = some params
      rw [hsent, List.append_nil]
      exact hlast
    · refine allSims_moved hsims sent s (fun sim hsim hQ hof => ?_) (fun r hr hQ hof => ?_)
      · exact hQ
          (ofBlock_of_step hids hfresh hfrag hstate₀ hstate (mem_outstanding_of_running hsim) hof)
      · exact hQ
          (ofBlock_of_step hids hfresh hfrag hstate₀ hstate (mem_outstanding_of_result hr) hof)
  · obtain ⟨-, hrunning, hresults⟩ := hupToDate rfl hawaits hparent
    obtain ⟨hdrawn, hlt, -⟩ := grows_of_startWith hstart
    exact inEnv_started hids hfresh hrunning hresults hdrawn hlt
      (blockParams_of_startWith hparams hstart) hsent

/-- Taking a result keeps the environment. -/
theorem inEnv_taken (hinv : ∀ seq data, w.sequencer.state = .sorting seq data → InEnv crates w data)
    (i : ℕ) (r : SimResult) :
    ∀ seq data, (taken w i r).sequencer.state = .sorting seq data →
      InEnv crates (taken w i r) data := by
  intro seq data hstate
  obtain ⟨params, hlast, hblock, hsims⟩ := hinv seq data hstate
  exact ⟨params, hlast, hblock, allSims_taken hsims i r⟩

/-- One simulator changes. -/
theorem follows_set {sims : List Simulator} {k : ℕ} {sim' : Simulator}
    (hfollows : ∀ sim ∈ sims, Follows params sim) (hsim' : Follows params sim') :
    ∀ sim ∈ sims.set k sim', Follows params sim := by
  intro sim hsim
  obtain hold | rfl := List.mem_or_eq_of_mem_set hsim
  · exact hfollows sim hold
  · exact hsim'

/-- Simulators read in order. -/
theorem follows_simStep {e : WorldEvent} (hfollows : ∀ sim ∈ w.simulators, Follows w.params sim)
    (h : SimStep crates w e w') : ∀ sim ∈ w'.simulators, Follows w'.params sim := by
  have hmem : ∀ {k sim}, w.simulators[k]? = some sim → Follows w.params sim :=
    fun hsim => hfollows _ (List.mem_of_getElem? hsim)
  cases h with
  | lose => exact hfollows
  | params hsim hphase hparams => exact follows_set hfollows (.receive hparams .atRequest)
  | noParams hsim =>
    exact follows_set hfollows ⟨(hmem hsim).cursor_le, (hmem hsim).params_eq⟩
  | begin hsim =>
    exact follows_set hfollows ⟨(hmem hsim).cursor_le, (hmem hsim).params_eq⟩
  | idle hsim =>
    exact follows_set hfollows ⟨(hmem hsim).cursor_le, (hmem hsim).params_eq⟩
  | finish outcome hsim =>
    exact follows_set hfollows ⟨(hmem hsim).cursor_le, (hmem hsim).params_eq⟩

/-- What one event does to the invariant. -/
theorem envInv_worldStep {e : WorldEvent} (hfresh : Fresh crates w'.sequencer.ctx)
    (hupToDate : UpToDate w e) (hinv : EnvInv crates w) (h : WorldStep crates w e w') :
    EnvInv crates w' := by
  have hids := idInv_worldStep hinv.ids h
  have hanswered := answered_worldStep hinv.answered h
  cases h with
  | sequencer hexternal hstep =>
    exact ⟨hids, hanswered, follows_moved hinv.follows _ _,
      fun seq data hstate => inEnv_moved hinv.ids hfresh hupToDate hinv.block hstep hstate⟩
  | @deliver i r sent s hr hstep =>
    have hfollows : ∀ sim ∈ (taken w i r).simulators, Follows (taken w i r).params sim :=
      hinv.follows
    have hquiet : UpToDate (taken w i r) (.sequencer (.simResult r.result)) := trivial
    exact ⟨hids, hanswered, follows_moved hfollows _ _, fun seq data hstate =>
      inEnv_moved (idInv_taken hinv.ids hr) hfresh hquiet (inEnv_taken hinv.block i r) hstep hstate⟩
  | simulator hsim =>
    refine ⟨hids, hanswered, follows_simStep hinv.follows hsim, fun seq data hstate => ?_⟩
    obtain ⟨hsequencer, hparams, -, -, -⟩ := hsim.quiet
    rw [hsequencer] at hstate
    obtain ⟨params, hlast, hblock, hsims⟩ := hinv.block seq data hstate
    refine ⟨params, by rw [hparams]; exact hlast, by rw [hsequencer]; exact hblock, ?_⟩
    refine hsim.allSims hsims fun k i sim request hevent hk _ _ => ?_
    subst hevent
    have hcursor := hupToDate sim hk
    rw [(hinv.follows sim (List.mem_of_getElem? hk)).last hcursor]
    exact hlast

/-- The invariant at the start. -/
theorem envInv_start (config : SequencerConfig) (db : SequencerDB S) (n : ℕ) :
    EnvInv crates (World.start (.new crates config db) n) where
  ids := idInv_start config db n
  answered := fun _ hr => (nomatch hr)
  follows := fun sim hsim => by
    rw [List.eq_of_mem_replicate hsim]
    exact ⟨le_rfl, rfl⟩
  block := fun _ _ h => (nomatch h)

/-! ## Runs -/

/-- Results that are accepted while a block is built were executed under the parameters of that
block, in every run with fresh ids in which every simulator that takes a request has received all
parameters, and no simulation for the pool is under way when a block is started.
SRCLINE: simulator.rs:69-81,139-162, sequencer/src/context.rs:174-199, sequencer/src/lib.rs:421-457
-/
theorem accepted_inBlockEnv {config : SequencerConfig} {db : SequencerDB S} {n : ℕ}
    {events : List WorldEvent} {r : SimResult}
    (hupToDate : Along (World.step crates) UpToDate (World.start (.new crates config db) n) events)
    (hrun : runSteps (World.step crates) (World.start (.new crates config db) n) events = some w)
    (hfresh : Fresh crates w.sequencer.ctx) (hr : r ∈ w.results)
    (haccepts : Accepts w.sequencer r.result) :
    ∃ params, BlockParams crates w.sequencer.ctx params ∧ r.params = some params := by
  have hinv : EnvInv crates w :=
    world_induction (fun w e w' hfresh hup hinv hstep => envInv_worldStep hfresh hup hinv hstep)
      hupToDate (envInv_start config db n) hrun hfresh
  obtain ⟨outcome, houtcome⟩ := hinv.answered r hr
  cases hstate : w.sequencer.state with
  | sorting seq data =>
    obtain ⟨params, -, hblock, hsims⟩ := hinv.block seq data hstate
    refine ⟨params, hblock, hsims.ofResults r hr ?_⟩
    unfold Accepts at haccepts
    rw [hstate] at haccepts
    unfold ofBlock
    cases hmsg : r.result.msg with
    | tx simulatedTx =>
      obtain ⟨tx, arc, hrequest, -⟩ := request_of_tx houtcome hmsg
      have hvalid : data.isValid r.result.stateId = true := by
        rw [hmsg] at haccepts
        cases simulatedTx with
        | ok => exact haccepts
        | error => exact haccepts.2
      have htagged : tagged data.db.stateId r.request = true := by
        rw [hrequest]
        exact hvalid
      rw [htagged]
      rfl
    | txPoolTopOfFrag =>
      obtain ⟨tx, hrequest, -⟩ := request_of_tof houtcome hmsg
      rw [hrequest]
      rfl
  | _ =>
    unfold Accepts at haccepts
    rw [hstate] at haccepts
    exact haccepts.elim

/-! ## Two blocks -/

/-- A block, for which the simulator has the parameters, and the next one, to which a transaction is
submitted; in between, the simulator may begin its loop again and look for parameters. -/
def twoBlocks (again poll : List WorldEvent) : List WorldEvent :=
  [.sequencer (newPayloadEvent plainPayload1),
    .sequencer (startEvent plainPayload1.blockHash (plainAttributes 102 [] false)),
    .pollParams 0] ++ again ++
  [.sequencer (.engineApi .getPayloadV3 1),
    .sequencer (newPayloadEvent plainPayload2),
    .sequencer (startEvent plainPayload2.blockHash (plainAttributes 103 [] false))] ++ poll ++
  [.sequencer (.newTx (plainRawTx [0])), .sequencer (.tick 1), .pollRequest 0 0,
    .finish 0 plainOutcome]

instance (s : Sequencer S) (result : SimulatorToSequencer) : Decidable (Accepts s result) := by
  unfold Accepts
  rcases s.state with _ | _ | _ | _ <;> rcases result.msg with (_ | _) | (_ | _) <;> infer_instance

/-- What is to be known of the end of such a run: the results with the numbers of the blocks under
whose parameters they were executed, and the number of the block that is built. -/
def envView (w : World ℕ) : List (Bool × Option UInt64) × Option UInt64 × Bool :=
  (w.results.map fun r =>
      (decide (Accepts w.sequencer r.result), r.params.map fun params => params.env.number),
    (w.sequencer.ctx.newBlockParams plainCrates).map fun params => params.env.number,
    decide (Fresh plainCrates w.sequencer.ctx))

/-- A result in the second block. -/
theorem accepted_inBlockEnv_twoBlocks :
    ∃ w r, runSteps (World.step plainCrates) (plainWorld false)
        (twoBlocks [.idle 0] [.pollParams 0]) = some w ∧
      w.results = [r] ∧ Accepts w.sequencer r.result ∧
      ∃ params, BlockParams plainCrates w.sequencer.ctx params ∧ r.params = some params := by
  have hview : (runSteps (World.step plainCrates) (plainWorld false)
      (twoBlocks [.idle 0] [.pollParams 0])).map envView =
        some ([(true, some 3)], some 3, true) := by
    decide +kernel
  obtain ⟨w, hrun, hw⟩ := Option.map_eq_some_iff.mp hview
  obtain ⟨hresults, -, hfresh⟩ : _ ∧ _ ∧ decide (Fresh plainCrates w.sequencer.ctx) = true := by
    simpa only [envView, Prod.mk.injEq] using hw
  obtain ⟨r, hr, heq⟩ := List.map_eq_singleton_iff.mp hresults
  have haccepts := of_decide_eq_true (Prod.mk.inj heq).1
  exact ⟨w, r, hrun, hr, haccepts,
    accepted_inBlockEnv (by decide +kernel) hrun (of_decide_eq_true hfresh)
      (by rw [hr]; exact List.mem_singleton_self r) haccepts⟩

/-- A simulator that has looked for parameters before the second block was started takes
the request after it, and its result is accepted.
SRCLINE: simulator.rs:139-162 -/
theorem accepted_underOldEnv :
    ∃ w r, runSteps (World.step plainCrates) (plainWorld false) (twoBlocks [] []) = some w ∧
      w.results = [r] ∧ Accepts w.sequencer r.result ∧
      ∀ params, BlockParams plainCrates w.sequencer.ctx params → r.params ≠ some params := by
  have hview : (runSteps (World.step plainCrates) (plainWorld false) (twoBlocks [] [])).map
      envView = some ([(true, some 2)], some 3, true) := by
    decide +kernel
  obtain ⟨w, hrun, hw⟩ := Option.map_eq_some_iff.mp hview
  obtain ⟨hresults, hnumber, -⟩ :
      _ ∧ (w.sequencer.ctx.newBlockParams plainCrates).map (fun params => params.env.number) =
        some 3 ∧ _ := by
    simpa only [envView, Prod.mk.injEq] using hw
  obtain ⟨r, hr, heq⟩ := List.map_eq_singleton_iff.mp hresults
  obtain ⟨haccepts, hold⟩ := Prod.mk.inj heq
  refine ⟨w, r, hrun, hr, of_decide_eq_true haccepts, fun params hblock hparams => ?_⟩
  rw [hblock.1] at hnumber
  rw [hparams] at hold
  have hsame : some (2 : UInt64) = some 3 := hold.symm.trans hnumber
  exact absurd hsame (by decide)

end BasedOp.Analysis.SimulationEnv
