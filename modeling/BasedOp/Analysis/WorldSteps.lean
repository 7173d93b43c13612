import BasedOp.Analysis.SequencerSteps
import BasedOp.Model.Simulators
import Mathlib.Data.List.Perm.Basic

/-!
# What one event does to the sequencer among its simulators

`WorldStep` lists what can happen: the sequencer takes a step (`Step`) on an event from
outside or on a result that is delivered, or something happens between the simulators and
the channels (`SimStep`), which the sequencer does not notice. The requests that are under
way are the same after the latter (`SimStep.quiet`); a step of the sequencer adds those
that it sends. What holds of all simulations is carried over by `AllSims`.
-/

set_option autoImplicit false

namespace BasedOp.Analysis.WorldSteps

open Model Model.Gateway SequencerSteps

variable {S : Type}

/-! ## What is under way -/

/-- The simulation that a simulator is at. -/
def simulationOf (sim : Simulator) : Option Simulation :=
  match sim.phase with
  | .running simulation => some simulation
  | _ => none

def running (w : World S) : List Simulation := w.simulators.filterMap simulationOf

/-- The requests whose results the sequencer has not been given, be it that they wait, are
executed, or have a result that is under way or lost. -/
def outstanding (w : World S) : List SequencerToSimulator :=
  w.requests ++ (running w).map (·.request) ++ w.results.map (·.request) ++ w.lost.map (·.request)

/-- Something holds of all simulations that go on or whose results are under way. -/
structure AllSims (Q : Simulation → Prop) (w : World S) : Prop where
  ofRunning : ∀ sim ∈ running w, Q sim
  ofResults : ∀ r ∈ w.results, Q r.toSimulation

/-- The world after a step of the sequencer. -/
def moved (crates : Crates S) (w : World S) (sent : List Output) (s : Sequencer S) : World S :=
  { w with
    sequencer := s
    params := w.params ++ World.sentParams sent
    requests := w.requests ++ World.sentRequests sent
    simulators := w.simulators.map (World.observe crates (World.recordArc w.arcs s) s)
    arcs := World.recordArc w.arcs s }

/-- The world when the result at a place has been taken out. -/
def taken (w : World S) (i : ℕ) (r : SimResult) : World S :=
  { w with results := w.results.eraseIdx i, delivered := w.delivered ++ [r] }

/-- What can happen besides the sequencer. -/
inductive SimStep (crates : Crates S) (w : World S) : WorldEvent → World S → Prop
  | lose {i : ℕ} {r : SimResult} (hr : w.results[i]? = some r) :
      SimStep crates w (.lose i) { w with results := w.results.eraseIdx i, lost := w.lost ++ [r] }
  | params {k : ℕ} {sim : Simulator} {params : EvmBlockParams} (hsim : w.simulators[k]? = some sim)
      (hphase : sim.phase = .atParams) (hparams : w.params[sim.cursor]? = some params) :
      SimStep crates w (.pollParams k) { w with
        simulators := w.simulators.set k ⟨some params, sim.cursor + 1, .atRequest⟩ }
  | noParams {k : ℕ} {sim : Simulator} (hsim : w.simulators[k]? = some sim)
      (hphase : sim.phase = .atParams) (hparams : w.params[sim.cursor]? = none) :
      SimStep crates w (.pollParams k) { w with
        simulators := w.simulators.set k { sim with phase := .atRequest } }
  | begin {k i : ℕ} {sim : Simulator} {request : SequencerToSimulator}
      (hsim : w.simulators[k]? = some sim) (hphase : sim.phase = .atRequest)
      (hrequest : w.requests[i]? = some request) :
      SimStep crates w (.pollRequest k i) { w with
        simulators := w.simulators.set k { sim with
          phase := .running ⟨request, sim.params,
            [World.contents crates w.arcs w.sequencer request]⟩ }
        requests := w.requests.eraseIdx i }
  | idle {k : ℕ} {sim : Simulator} (hsim : w.simulators[k]? = some sim)
      (hphase : sim.phase = .atRequest) :
      SimStep crates w (.idle k) { w with
        simulators := w.simulators.set k { sim with phase := .atParams } }
  | finish {k : ℕ} {sim : Simulator} {simulation : Simulation} (outcome : SimOutcome)
      (hsim : w.simulators[k]? = some sim) (hphase : sim.phase = .running simulation) :
      SimStep crates w (.finish k outcome) { w with
        simulators := w.simulators.set k { sim with phase := .atParams }
        results := w.results ++
          [{ simulation with result := resultMessage simulation.request outcome }] }

/-- What can happen in the world on an event. -/
inductive WorldStep (crates : Crates S) (w : World S) : WorldEvent → World S → Prop
  | sequencer {e : Event} {sent : List Output} {s : Sequencer S} (hexternal : e.isExternal = true)
      (hstep : Step crates w.sequencer e sent s) :
      WorldStep crates w (.sequencer e) (moved crates w sent s)
  | deliver {i : ℕ} {r : SimResult} {sent : List Output} {s : Sequencer S}
      (hr : w.results[i]? = some r)
      (hstep : Step crates w.sequencer (.simResult r.result) sent s) :
      WorldStep crates w (.deliver i) (moved crates (taken w i r) sent s)
  | simulator {e : WorldEvent} {w' : World S} (hsim : SimStep crates w e w') : WorldStep crates w e w'

variable {crates : Crates S} {w w' : World S}

/-- The sequencer takes a step. -/
theorem moved_of_advance {e : Event} (h : w.advance crates e = some w') :
    ∃ sent s, Step crates w.sequencer e sent s ∧ w' = moved crates w sent s := by
  unfold World.advance at h
  split at h
  · rename_i htakes
    obtain ⟨s, hnext, rfl⟩ := Option.map_eq_some_iff.mp h
    exact ⟨_, s, (handles_of_takes htakes).step s hnext, rfl⟩
  · cases h

variable {e : WorldEvent} {r : SimResult} {Q : Simulation → Prop}

/-- Nothing else happens in the world. -/
theorem worldStep_of_step (h : w.step crates e = some w') : WorldStep crates w e w' := by
  cases e with
  | sequencer =>
    rw [World.step] at h
    split at h
    · rename_i hexternal
      obtain ⟨sent, s, hstep, rfl⟩ := moved_of_advance h
      exact .sequencer hexternal hstep
    · cases h
  | deliver =>
    rw [World.step] at h
    split at h
    · cases h
    · rename_i r hr
      obtain ⟨sent, s, hstep, rfl⟩ := moved_of_advance h
      exact .deliver hr hstep
  | lose =>
    rw [World.step] at h
    split at h
    · cases h
    · rename_i r hr
      obtain rfl := Option.some.inj h
      exact .simulator (.lose hr)
  | pollParams =>
    rw [World.step] at h
    split at h
    · cases h
    · rename_i sim hsim
      obtain ⟨sim', hpoll, rfl⟩ := Option.map_eq_some_iff.mp h
      unfold World.pollParams at hpoll
      split at hpoll
      · rename_i hphase
        split at hpoll
        · rename_i hparams
          obtain rfl := Option.some.inj hpoll
          exact .simulator (.noParams hsim hphase hparams)
        · rename_i params hparams
          obtain rfl := Option.some.inj hpoll
          exact .simulator (.params hsim hphase hparams)
      · cases hpoll
  | pollRequest =>
    rw [World.step] at h
    split at h
    · rename_i sim request hsim hrequest
      obtain ⟨sim', hbegin, rfl⟩ := Option.map_eq_some_iff.mp h
      unfold World.begin at hbegin
      split at hbegin
      · rename_i hphase
        obtain rfl := Option.some.inj hbegin
        exact .simulator (.begin hsim hphase hrequest)
      · cases hbegin
    · cases h
  | idle =>
    rw [World.step] at h
    split at h
    · rename_i params cursor hsim
      split at h
      · obtain rfl := Option.some.inj h
        exact .simulator (.idle hsim rfl)
      · cases h
    · cases h
  | finish k outcome =>
    rw [World.step] at h
    split at h
    · rename_i params cursor simulation hsim
      obtain rfl := Option.some.inj h
      exact .simulator (.finish outcome hsim rfl)
    · cases h

variable {sims : List Simulator} {outcome : SimOutcome}
  {simulatedTx : Except SimulationError SimulatedTx}

/-! ## Simulators -/

/-- The simulations when one simulator is replaced. -/
theorem running_set {k : ℕ} {sim : Simulator} (hsim : sims[k]? = some sim) (sim' : Simulator) :
    ∃ rest, (sims.filterMap simulationOf).Perm ((simulationOf sim).toList ++ rest) ∧
      ((sims.set k sim').filterMap simulationOf).Perm ((simulationOf sim').toList ++ rest) := by
  obtain ⟨hk, rfl⟩ := List.getElem?_eq_some_iff.mp hsim
  have hcons : ∀ x xs, (x :: xs).filterMap simulationOf =
      (simulationOf x).toList ++ xs.filterMap simulationOf := by
    intro x xs
    cases hx : simulationOf x with
    | none => simp [hx]
    | some => simp [hx]
  refine ⟨(sims.eraseIdx k).filterMap simulationOf, ?_, ?_⟩
  · rw [← hcons]
    exact ((List.getElem_cons_eraseIdx_perm hk).symm).filterMap _
  · rw [← hcons]
    exact (List.set_perm_cons_eraseIdx hk sim').filterMap _

/-- A simulator goes from one thing that is no simulation to another. -/
theorem running_set_same {k : ℕ} {sim sim' : Simulator} (hsim : sims[k]? = some sim)
    (hnone : simulationOf sim = none) (hnone' : simulationOf sim' = none) :
    ((sims.set k sim').filterMap simulationOf).Perm (sims.filterMap simulationOf) := by
  obtain ⟨rest, hbefore, hafter⟩ := running_set hsim sim'
  rw [hnone] at hbefore
  rw [hnone'] at hafter
  exact hafter.trans hbefore.symm

/-- Observing adds what is seen. -/
theorem simulationOf_observe (arcs : ℕ → State) (s : Sequencer S) (sim : Simulator) :
    simulationOf (World.observe crates arcs s sim) = (simulationOf sim).map fun simulation =>
      { simulation with
        seen := simulation.seen ++ [World.contents crates arcs s simulation.request] } := by
  unfold simulationOf World.observe
  cases hphase : sim.phase with
  | running => rfl
  | atParams => simp [hphase]
  | atRequest => simp [hphase]

/-- What runs sees the new state. -/
theorem running_moved (w : World S) (sent : List Output) (s : Sequencer S) :
    running (moved crates w sent s) = (running w).map fun simulation =>
      { simulation with
        seen := simulation.seen ++
          [World.contents crates (World.recordArc w.arcs s) s simulation.request] } := by
  simp only [running, moved, List.filterMap_map, List.map_filterMap]
  congr 1
  funext sim
  exact simulationOf_observe _ s sim

/-! ## The requests that are under way -/

/-- What the sequencer does not notice. -/
structure Quiet (w w' : World S) : Prop where
  sequencer : w'.sequencer = w.sequencer
  params : w'.params = w.params
  arcs : w'.arcs = w.arcs
  delivered : w'.delivered = w.delivered
  outstanding : (outstanding w').Perm (outstanding w)

/-- The others are left. -/
theorem erase_perm {α : Type} {xs : List α} {i : ℕ} {x : α} (h : xs[i]? = some x) :
    (x :: xs.eraseIdx i).Perm xs := by
  obtain ⟨hi, rfl⟩ := List.getElem?_eq_some_iff.mp h
  exact List.getElem_cons_eraseIdx_perm hi

/-- A request that waits is taken, executed and answered, and its result may be
lost; it stays under way in all of this. -/
theorem SimStep.quiet (h : SimStep crates w e w') : Quiet w w' := by
  cases h with
  | @lose i r hr =>
    refine ⟨rfl, rfl, rfl, rfl, List.perm_iff_count.mpr fun request => ?_⟩
    have hresults := ((erase_perm hr).map (·.request)).count_eq request
    simp only [outstanding, running, List.map_cons, List.map_append, List.map_nil,
      List.count_append, List.count_cons] at hresults ⊢
    rw [List.count_nil]
    omega
  | @params k sim params hsim hphase hparams =>
    refine ⟨rfl, rfl, rfl, rfl, ?_⟩
    have hsame := running_set_same hsim (by simp [simulationOf, hphase])
      (show simulationOf ⟨some params, sim.cursor + 1, .atRequest⟩ = none from rfl)
    exact (((hsame.map _).append_left _).append_right _).append_right _
  | @noParams k sim hsim hphase hparams =>
    refine ⟨rfl, rfl, rfl, rfl, ?_⟩
    have hsame := running_set_same hsim (by simp [simulationOf, hphase])
      (show simulationOf { sim with phase := .atRequest } = none from rfl)
    exact (((hsame.map _).append_left _).append_right _).append_right _
  | @begin k i sim request hsim hphase hrequest =>
    refine ⟨rfl, rfl, rfl, rfl, List.perm_iff_count.mpr fun other => ?_⟩
    obtain ⟨rest, hbefore, hafter⟩ := running_set hsim { sim with
      phase := .running ⟨request, sim.params, [World.contents crates w.arcs w.sequencer request]⟩ }
    have hrequests := (erase_perm hrequest).count_eq other
    have hbefore := (hbefore.map (·.request)).count_eq other
    have hafter := (hafter.map (·.request)).count_eq other
    simp only [simulationOf, hphase, Option.toList_none, Option.toList_some, List.nil_append,
      List.map_append, List.map_cons, List.map_nil, List.count_append, List.count_cons,
      List.count_nil] at hrequests hbefore hafter
    simp only [outstanding, running, List.count_append]
    omega
  | @idle k sim hsim hphase =>
    refine ⟨rfl, rfl, rfl, rfl, ?_⟩
    have hsame := running_set_same hsim (by simp [simulationOf, hphase])
      (show simulationOf { sim with phase := .atParams } = none from rfl)
    exact (((hsame.map _).append_left _).append_right _).append_right _
  | @finish k sim simulation outcome hsim hphase =>
    refine ⟨rfl, rfl, rfl, rfl, List.perm_iff_count.mpr fun other => ?_⟩
    obtain ⟨rest, hbefore, hafter⟩ := running_set hsim { sim with phase := .atParams }
    have hbefore := (hbefore.map (·.request)).count_eq other
    have hafter := (hafter.map (·.request)).count_eq other
    simp only [simulationOf, hphase, Option.toList_none, Option.toList_some, List.nil_append,
      List.map_append, List.map_cons, List.map_nil, List.count_append, List.count_cons,
      List.count_nil] at hbefore hafter
    simp only [outstanding, running, List.map_append, List.map_cons, List.map_nil,
      List.count_append, List.count_cons, List.count_nil]
    omega

/-- A step of the sequencer adds the requests that it sends. -/
theorem outstanding_moved (w : World S) (sent : List Output) (s : Sequencer S) :
    (outstanding (moved crates w sent s)).Perm (outstanding w ++ World.sentRequests sent) := by
  have hrunning : (running (moved crates w sent s)).map (·.request) =
      (running w).map (·.request) := by
    rw [running_moved, List.map_map]
    rfl
  refine List.perm_iff_count.mpr fun request => ?_
  rw [outstanding, hrunning]
  simp only [outstanding, moved, List.count_append]
  omega

/-- A result is no longer outstanding. -/
theorem outstanding_taken {i : ℕ} (hr : w.results[i]? = some r) :
    (r.request :: outstanding (taken w i r)).Perm (outstanding w) := by
  refine List.perm_iff_count.mpr fun request => ?_
  have hresults := ((erase_perm hr).map (·.request)).count_eq request
  simp only [outstanding, running, taken, List.map_cons, List.count_append,
    List.count_cons] at hresults ⊢
  omega

/-! ## What holds of all simulations -/

/-- Taking it keeps the simulations. -/
theorem allSims_taken (h : AllSims Q w) (i : ℕ) (r : SimResult) : AllSims Q (taken w i r) :=
  ⟨h.ofRunning, fun r' hr' => h.ofResults r' (List.mem_of_mem_eraseIdx hr')⟩

/-- After a step of the sequencer, what holds of all simulations once they have seen it. -/
theorem allSims_moved {Q' : Simulation → Prop} (h : AllSims Q w) (sent : List Output)
    (s : Sequencer S) (hrunning : ∀ sim ∈ running w, Q sim → Q' { sim with
      seen := sim.seen ++ [World.contents crates (World.recordArc w.arcs s) s sim.request] })
    (hresults : ∀ r ∈ w.results, Q r.toSimulation → Q' r.toSimulation) :
    AllSims Q' (moved crates w sent s) := by
  constructor
  · intro sim hsim
    rw [running_moved] at hsim
    obtain ⟨sim₀, hsim₀, rfl⟩ := List.mem_map.mp hsim
    exact hrunning sim₀ hsim₀ (h.ofRunning sim₀ hsim₀)
  · intro r hr
    exact hresults r hr (h.ofResults r hr)

/-- Besides the sequencer, the only new simulations are those that begin. -/
theorem SimStep.allSims (h : SimStep crates w e w') (hall : AllSims Q w)
    (hbegin : ∀ k i sim request, e = .pollRequest k i → w.simulators[k]? = some sim →
      request ∈ w.requests →
      Q ⟨request, sim.params, [World.contents crates w.arcs w.sequencer request]⟩) :
    AllSims Q w' := by
  cases h with
  | @lose i r hr =>
    exact ⟨hall.ofRunning, fun r' hr' => hall.ofResults r' (List.mem_of_mem_eraseIdx hr')⟩
  | @params k sim params hsim hphase hparams =>
    refine ⟨fun sim' hsim' => hall.ofRunning sim' ?_, hall.ofResults⟩
    exact (running_set_same hsim (by simp [simulationOf, hphase]) rfl).mem_iff.mp hsim'
  | @noParams k sim hsim hphase hparams =>
    refine ⟨fun sim' hsim' => hall.ofRunning sim' ?_, hall.ofResults⟩
    exact (running_set_same hsim (by simp [simulationOf, hphase]) rfl).mem_iff.mp hsim'
  | @begin k i sim request hsim hphase hrequest =>
    refine ⟨fun sim' hsim' => ?_, hall.ofResults⟩
    obtain ⟨rest, hbefore, hafter⟩ := running_set hsim { sim with
      phase := .running ⟨request, sim.params, [World.contents crates w.arcs w.sequencer request]⟩ }
    obtain hnew | hold := List.mem_append.mp (hafter.mem_iff.mp hsim')
    · obtain rfl := List.mem_singleton.mp hnew
      exact hbegin k i sim request rfl hsim (List.mem_of_getElem? hrequest)
    · exact hall.ofRunning sim' (hbefore.mem_iff.mpr (List.mem_append_right _ hold))
  | @idle k sim hsim hphase =>
    refine ⟨fun sim' hsim' => hall.ofRunning sim' ?_, hall.ofResults⟩
    exact (running_set_same hsim (by simp [simulationOf, hphase]) rfl).mem_iff.mp hsim'
  | @finish k sim simulation outcome hsim hphase =>
    obtain ⟨rest, hbefore, hafter⟩ := running_set hsim { sim with phase := .atParams }
    constructor
    · intro sim' hsim'
      exact hall.ofRunning sim'
        (hbefore.mem_iff.mpr (List.mem_append_right _ (hafter.mem_iff.mp hsim')))
    · intro r hr
      obtain hold | hnew := List.mem_append.mp hr
      · exact hall.ofResults r hold
      · obtain rfl := List.mem_singleton.mp hnew
        exact hall.ofRunning simulation (hbefore.mem_iff.mpr (by simp [simulationOf, hphase]))

/-- What runs is outstanding. -/
theorem mem_outstanding_of_running {sim : Simulation} (h : sim ∈ running w) :
    sim.request ∈ outstanding w := by
  simp only [outstanding, List.mem_append, List.mem_map]
  exact .inl (.inl (.inr ⟨sim, h, rfl⟩))

/-- So are results. -/
theorem mem_outstanding_of_result (h : r ∈ w.results) : r.request ∈ outstanding w := by
  simp only [outstanding, List.mem_append, List.mem_map]
  exact .inl (.inr ⟨r, h, rfl⟩)

/-- So are requests. -/
theorem mem_outstanding_of_request {request : SequencerToSimulator} (h : request ∈ w.requests) :
    request ∈ outstanding w := by
  simp only [outstanding, List.mem_append]
  exact .inl (.inl (.inl h))

/-! ## Results -/

/-- Every result that is under way is the answer to its request. -/
def Answered (w : World S) : Prop :=
  ∀ r ∈ w.results, ∃ outcome, r.result = resultMessage r.request outcome

/-- Results answer their requests. -/
theorem answered_worldStep (hinv : Answered w) (h : WorldStep crates w e w') : Answered w' := by
  have herase : ∀ i, ∀ r ∈ w.results.eraseIdx i,
      ∃ outcome, r.result = resultMessage r.request outcome :=
    fun i r hr => hinv r (List.mem_of_mem_eraseIdx hr)
  cases h with
  | sequencer => exact hinv
  | @deliver i r sent s hr hstep => exact herase i
  | simulator hsim =>
    cases hsim with
    | @lose i r hr => exact herase i
    | params => exact hinv
    | noParams => exact hinv
    | begin => exact hinv
    | idle => exact hinv
    | finish outcome =>
      intro r hr
      obtain hold | hnew := List.mem_append.mp hr
      · exact hinv r hold
      · obtain rfl := List.mem_singleton.mp hnew
        exact ⟨outcome, rfl⟩

/-- The request of a result for the frag that is sorted. -/
theorem request_of_tx (hr : r.result = resultMessage r.request outcome)
    (hmsg : r.result.msg = .tx simulatedTx) :
    ∃ tx arc, r.request = .simulateTx tx arc r.result.stateId ∧
      ∀ t, simulatedTx = .ok t → t.tx = tx := by
  cases hrequest : r.request with
  | simulateTx tx arc =>
    rw [hrequest] at hr
    rw [hr] at hmsg ⊢
    refine ⟨tx, arc, rfl, ?_⟩
    rintro t rfl
    cases outcome with
    | error => cases hmsg
    | ok =>
      cases hmsg
      rfl
  | simulateTxTof =>
    rw [hr, hrequest] at hmsg
    cases hmsg

/-- The request of a result for the pool. -/
theorem request_of_tof (hr : r.result = resultMessage r.request outcome)
    (hmsg : r.result.msg = .txPoolTopOfFrag simulatedTx) :
    ∃ tx, r.request = .simulateTxTof tx r.result.stateId ∧ ∀ t, simulatedTx = .ok t → t.tx = tx := by
  cases hrequest : r.request with
  | simulateTx =>
    rw [hr, hrequest] at hmsg
    cases hmsg
  | simulateTxTof tx =>
    rw [hrequest] at hr
    rw [hr] at hmsg ⊢
    refine ⟨tx, rfl, ?_⟩
    rintro t rfl
    cases outcome with
    | error => cases hmsg
    | ok =>
      cases hmsg
      rfl

end BasedOp.Analysis.WorldSteps
