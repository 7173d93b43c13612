import BasedOp.Model.SequencerState
import Mathlib.Logic.Function.Basic

/-!
# The sequencer among its simulators

The sequencer with any number of simulator threads (crates/sequencer/src/simulator.rs).
Requests wait until a simulator takes one, simulations run while the sequencer goes on,
and results wait until they are delivered or are lost. The parameters of new blocks are
broadcast: every simulator receives each of them, in order, one at a time. A simulator
polls for parameters once and then for a request once.

A simulator reads the state that its request names, not a copy of it. What it may have
seen is recorded: the contents when it began, and after every step that the sequencer
has taken since. What the execution makes of it is left open.
-/

set_option autoImplicit false

namespace BasedOp.Model.Gateway

/-- A simulation: the request, the parameters it is executed under, which are none
before the first block, and all that it may have seen. -/
structure Simulation where
  request : SequencerToSimulator
  params : Option EvmBlockParams
  seen : List DbView

/-- A simulation that is over. -/
structure SimResult extends Simulation where
  result : SimulatorToSequencer

inductive Phase where
  | atParams
  | atRequest
  | running (simulation : Simulation)

/-- A simulator; `cursor` counts the parameters it has received.
SRCLINE: simulator.rs:25-36 -/
structure Simulator where
  params : Option EvmBlockParams
  cursor : ℕ
  phase : Phase

/-- The sequencer, the simulators and what is under way between them. `arcs` gives the
states for sorting by their numbers, `delivered` and `lost` the results that have been
taken by the sequencer or by no one. -/
structure World (S : Type) where
  sequencer : Sequencer S
  params : List EvmBlockParams
  requests : List SequencerToSimulator
  simulators : List Simulator
  results : List SimResult
  delivered : List SimResult
  lost : List SimResult
  arcs : ℕ → State

/-- What an execution gives: the outcome with the payment and the nonce of a deposit. -/
abbrev SimOutcome := Except SimulationError (ResultAndState × U256 × Option UInt64)

/-- The message of a result.
SRCLINE: simulator.rs:145-160 -/
def resultMessage (request : SequencerToSimulator) (outcome : SimOutcome) :
    SimulatorToSequencer :=
  let tx := request.tx
  let simulated : Except SimulationError SimulatedTx := outcome.map
    fun (resultAndState, payment, depositNonce) => { tx, resultAndState, payment, depositNonce }
  { senderInfo := (tx.sender, tx.nonce)
    stateId := request.stateId
    msg := match request with
      | .simulateTx _ _ _ => .tx simulated
      | .simulateTxTof _ _ => .txPoolTopOfFrag simulated }

inductive WorldEvent where
  | sequencer (e : Event)
  | deliver (i : ℕ)
  | lose (i : ℕ)
  | pollParams (k : ℕ)
  | pollRequest (k i : ℕ)
  | idle (k : ℕ)
  | finish (k : ℕ) (outcome : SimOutcome)

/-- Whether an event comes from outside of this world. -/
def Event.isExternal : Event → Bool
  | .simResult _ => false
  | _ => true

namespace World

variable {S : Type} (crates : Crates S)

/-- The contents of the state that a request names. -/
def contents (arcs : ℕ → State) (s : Sequencer S) : SequencerToSimulator → DbView
  | .simulateTx _ arc _ => (arcs arc).view (s.ctx.fragView crates)
  | .simulateTxTof _ _ => s.ctx.fragView crates

/-- The states for sorting after a step of the sequencer, which only writes to the one it holds. -/
def recordArc (arcs : ℕ → State) (s : Sequencer S) : ℕ → State :=
  match s.state with
  | .sorting _ data => Function.update arcs data.db.arc data.db.db
  | _ => arcs

/-- A running simulation sees what a step of the sequencer has made of its state. -/
def observe (arcs : ℕ → State) (s : Sequencer S) (sim : Simulator) : Simulator :=
  match sim.phase with
  | .running simulation => { sim with
      phase := .running { simulation with
        seen := simulation.seen ++ [contents crates arcs s simulation.request] } }
  | _ => sim

def sentParams (sent : List Output) : List EvmBlockParams :=
  sent.filterMap fun
    | .evmBlockParams params => some params
    | _ => none

def sentRequests (sent : List Output) : List SequencerToSimulator :=
  sent.filterMap fun
    | .simulate request => some request
    | _ => none

/-- A step of the sequencer, unless it panics. -/
def advance (w : World S) (e : Event) : Option (World S) :=
  if w.sequencer.takes e then
    let h := w.sequencer.handle crates e
    h.next.map fun s =>
      let arcs := recordArc w.arcs s
      { w with
        sequencer := s
        params := w.params ++ sentParams h.sent
        requests := w.requests ++ sentRequests h.sent
        simulators := w.simulators.map (observe crates arcs s)
        arcs := arcs }
  else none

/-- A simulator polls for parameters.
SRCLINE: simulator.rs:69-80,140-143 -/
def pollParams (w : World S) (sim : Simulator) : Option Simulator :=
  match sim.phase with
  | .atParams =>
    match w.params[sim.cursor]? with
    | none => some { sim with phase := .atRequest }
    | some params => some
      { params := some params, cursor := sim.cursor + 1, phase := .atRequest }
  | _ => none

/-- A simulator begins a simulation.
SRCLINE: simulator.rs:53-67,145-156 -/
def begin (w : World S) (sim : Simulator) (request : SequencerToSimulator) : Option Simulator :=
  match sim.phase with
  | .atRequest => some { sim with
      phase := .running
        { request, params := sim.params, seen := [contents crates w.arcs w.sequencer request] } }
  | _ => none

/-- One event of the world. A request that is taken may be any of those that wait. -/
def step (w : World S) : WorldEvent → Option (World S)
  | .sequencer e => if e.isExternal then w.advance crates e else none
  | .deliver i =>
    match w.results[i]? with
    | none => none
    | some r =>
      { w with results := w.results.eraseIdx i, delivered := w.delivered ++ [r] }.advance crates
        (.simResult r.result)
  | .lose i =>
    match w.results[i]? with
    | none => none
    | some r => some { w with results := w.results.eraseIdx i, lost := w.lost ++ [r] }
  | .pollParams k =>
    match w.simulators[k]? with
    | none => none
    | some sim => (w.pollParams sim).map fun sim =>
        { w with simulators := w.simulators.set k sim }
  | .pollRequest k i =>
    match w.simulators[k]?, w.requests[i]? with
    | some sim, some request => (w.begin crates sim request).map fun sim =>
        { w with simulators := w.simulators.set k sim, requests := w.requests.eraseIdx i }
    | _, _ => none
  | .idle k =>
    match w.simulators[k]? with
    | some { params, cursor, phase := .atRequest } =>
      if w.requests = [] then
        some { w with simulators := w.simulators.set k { params, cursor, phase := .atParams } }
      else none
    | _ => none
  | .finish k outcome =>
    match w.simulators[k]? with
    | some { params, cursor, phase := .running simulation } => some { w with
        simulators := w.simulators.set k { params, cursor, phase := .atParams }
        results := w.results ++
          [{ simulation with result := resultMessage simulation.request outcome }] }
    | _ => none

/-- A sequencer with a number of simulators that have not received anything yet. -/
def start (s : Sequencer S) (n : ℕ) : World S where
  sequencer := s
  params := []
  requests := []
  simulators := List.replicate n { params := none, cursor := 0, phase := .atParams }
  results := []
  delivered := []
  lost := []
  arcs := fun _ => State.new

end World

/-! ## Simulators to run the definitions with -/

/-- The gateway to run the definitions with, among one simulator. -/
def plainWorld (commitSealedFragsToDb : Bool) : World ℕ :=
  World.start (.new plainCrates (plainSequencerConfig commitSealedFragsToDb) plainDB) 1

/-- The outcome of a simulation that has gone well. -/
def plainOutcome : SimOutcome := .ok ({ result := .success 21000 [], state := [] }, 1, none)

/-- The first request that waits is executed and its result delivered. -/
def plainSimulation : List WorldEvent :=
  [.pollParams 0, .pollRequest 0 0, .finish 0 plainOutcome, .deliver 0]

end BasedOp.Model.Gateway
