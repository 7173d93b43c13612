import BasedOp.Analysis.StateIds

/-!
# Transactions are applied to the state that they were simulated on

The simulators read the frag that is being sorted while the sequencer goes on. As long as
ids are fresh, a simulation that is tagged with the id of the frag has seen nothing but
the contents that the frag has (`ContentsInv`): the contents only change together with
the id, and then no request under way has the new one. The counter of the simulations in
flight counts the requests that are tagged with the id of the frag and have no result that
was handled (`CountInv`), so that taking a result off it does not wrap.
-/

set_option autoImplicit false

namespace BasedOp.Analysis.SimulatedState

open BasedOp.Computation Model Model.Gateway
open SequencerSteps SequencerFrames
open WorldSteps StateIds

variable {S : Type} {crates : Crates S} {w w' : World S}

/-! ## The contents -/

/-- What is read through the frag that is sorted.
SRCLINE: sorting.rs:36-61 -/
def sortingView (crates : Crates S) (s : Sequencer S) (data : SortingData) : DbView :=
  data.db.db.view (s.ctx.fragView crates)

/-- A simulation has seen the same contents all the time. -/
def Saw (view : DbView) (seen : List DbView) : Prop := seen ≠ [] ∧ ∀ v ∈ seen, v = view

/-- It has seen the same once more. -/
theorem Saw.snoc {view : DbView} {seen : List DbView} (h : Saw view seen) :
    Saw view (seen ++ [view]) := by
  refine ⟨by simp, fun v hv => ?_⟩
  obtain hold | hnew := List.mem_append.mp hv
  · exact h.2 v hold
  · exact List.mem_singleton.mp hnew

/-- What the simulations on the frag that is sorted have seen, and its best result so far. -/
structure SawContents (crates : Crates S) (w : World S) (data : SortingData) : Prop where
  arc : w.arcs data.db.arc = data.db.db
  ofRequests : ∀ tx arc, .simulateTx tx arc data.db.stateId ∈ outstanding w → arc = data.db.arc
  sims : AllSims (fun sim => tagged data.db.stateId sim.request = true →
    Saw (sortingView crates w.sequencer data) sim.seen) w
  best : ∀ tx, data.nextToBeApplied = some tx → ∃ r ∈ w.delivered, r.result.msg = .tx (.ok tx) ∧
    Saw (sortingView crates w.sequencer data) r.seen

def ContentsInv (crates : Crates S) (w : World S) : Prop :=
  ∀ seq data, w.sequencer.state = .sorting seq data → SawContents crates w data

variable {s : Sequencer S} {seq : FragSequence} {data data' data₁ : SortingData} {e : Event}
  {sent : List Output} {ctx : SequencerContext S} {i : ℕ} {r : SimResult}

/-- The recorded state is the one sorted on. -/
theorem recordArc_sorting (hstate : s.state = .sorting seq data) (arcs : ℕ → State) :
    World.recordArc arcs s data.db.arc = data.db.db := by
  simp [World.recordArc, hstate]

/-- The requests for the frag that is sorted name its state. -/
theorem arc_of_outstanding (hfrag : FragStep crates w.sequencer e sent s)
    (hstate : s.state = .sorting seq data)
    (hold : ∀ tx arc, .simulateTx tx arc data.db.stateId ∈ outstanding w → arc = data.db.arc) :
    ∀ tx arc, .simulateTx tx arc data.db.stateId ∈ outstanding (moved crates w sent s) →
      arc = data.db.arc := by
  intro tx arc hmem
  obtain hmem | hnew := List.mem_append.mp ((outstanding_moved w sent s).mem_iff.mp hmem)
  · exact hold tx arc hmem
  · obtain ⟨seq', data', hstate', harc, -⟩ := hfrag.sent hnew
    rw [hstate] at hstate'
    cases hstate'
    exact harc

/-- A frag with a new id: no simulation has seen anything of it yet. -/
theorem sawContents_of_fresh (hfrag : FragStep crates w.sequencer e sent s)
    (hstate : s.state = .sorting seq data)
    (hfresh : ∀ request ∈ outstanding w, tagged data.db.stateId request = false)
    (hnext : data.nextToBeApplied = none) : SawContents crates (moved crates w sent s) data where
  arc := recordArc_sorting hstate w.arcs
  ofRequests := arc_of_outstanding hfrag hstate fun tx arc hmem => by
    have := hfresh _ hmem
    simp [tagged] at this
  sims := by
    refine allSims_moved (Q := fun _ => True) ⟨fun _ _ => trivial, fun _ _ => trivial⟩ sent s
      (fun sim hsim _ htagged => ?_) (fun r hr _ htagged => ?_)
    · rw [hfresh _ (mem_outstanding_of_running hsim)] at htagged
      cases htagged
    · rw [hfresh _ (mem_outstanding_of_result hr)] at htagged
      cases htagged
  best := fun tx htx => by
    rw [hnext] at htx
    cases htx

/-- A frag with the id and the contents of before. -/
theorem sawContents_of_same (hinv : SawContents crates w data)
    (hfrag : FragStep crates w.sequencer e sent s) (hstate : s.state = .sorting seq data')
    (hdb : data'.db = data.db) (hview : s.ctx.fragView crates = w.sequencer.ctx.fragView crates)
    (hbest : ∀ tx, data'.nextToBeApplied = some tx → data.nextToBeApplied = some tx ∨
      ∃ r ∈ w.delivered, r.result.msg = .tx (.ok tx) ∧
        Saw (sortingView crates w.sequencer data) r.seen) :
    SawContents crates (moved crates w sent s) data' := by
  have hsame : sortingView crates s data' = sortingView crates w.sequencer data := by
    rw [sortingView, sortingView, hdb, hview]
  have hid : data'.db.stateId = data.db.stateId := by rw [hdb]
  refine ⟨recordArc_sorting hstate w.arcs, ?_, ?_, fun tx htx => ?_⟩
  · apply arc_of_outstanding hfrag hstate
    rw [hdb]
    exact hinv.ofRequests
  · refine allSims_moved hinv.sims sent s (fun sim hsim hQ htagged => ?_) (fun r hr hQ htagged => ?_)
    · dsimp only at htagged
      rw [hid] at htagged
      have hsaw := hQ htagged
      cases hrequest : sim.request with
      | simulateTxTof =>
        rw [hrequest] at htagged
        cases htagged
      | simulateTx tx arc id =>
        rw [hrequest] at htagged
        obtain rfl : id = data.db.stateId := by simpa [tagged] using htagged
        have hmem := mem_outstanding_of_running hsim
        rw [hrequest] at hmem
        obtain rfl := hinv.ofRequests tx arc hmem
        have hcontents : World.contents crates (World.recordArc w.arcs s) s
            (.simulateTx tx data.db.arc data.db.stateId) = sortingView crates s data' := by
          have harc := recordArc_sorting hstate w.arcs
          rw [hdb] at harc
          rw [World.contents, harc, sortingView, hdb]
        show Saw (sortingView crates s data') _
        dsimp only
        rw [hcontents, hsame]
        exact hsaw.snoc
    · rw [hid] at htagged
      show Saw (sortingView crates s data') _
      rw [hsame]
      exact hQ htagged
  · show ∃ r ∈ w.delivered, _ ∧ Saw (sortingView crates s data') _
    rw [hsame]
    obtain hold | hnew := hbest tx htx
    · exact hinv.best tx hold
    · exact hnew

/-- The result that an event brings is one that was delivered, and if it is valid, then it
was simulated on the contents of the frag that is sorted. -/
def Brings (crates : Crates S) (w : World S) (e : Event) : Prop :=
  ∀ result, e = .simResult result → ∃ r ∈ w.delivered, r.result = result ∧
    ∀ seq data simulatedTx, w.sequencer.state = .sorting seq data →
      data.isValid result.stateId = true → result.msg = .tx simulatedTx →
      Saw (sortingView crates w.sequencer data) r.seen

variable {seq' : FragSequence}

/-- A frag that something may have been applied to, before orders or a deposit were sent. -/
theorem sawContents_of_applied (hids : IdInv crates w) (hfresh : Fresh crates s.ctx)
    (hsettled : ∀ seq data, w.sequencer.state = .sorting seq data → w.sequencer.waiting = true →
      data.nextToBeApplied = none) (hinv : ContentsInv crates w)
    (hfrag : FragStep crates w.sequencer e sent s) (hstate' : s.state = .sorting seq' data')
    (happlies : Applies crates w.sequencer e seq data₁ ctx) (hdraws : s.ctx.draws = ctx.draws)
    (hview : s.ctx.fragView crates = ctx.fragView crates) (hdb : data'.db = data₁.db)
    (hnext : data'.nextToBeApplied = data₁.nextToBeApplied) :
    SawContents crates (moved crates w sent s) data' := by
  obtain ⟨data, hstate, happlied⟩ := applied_of_applies happlies
  have hnone : data'.nextToBeApplied = none :=
    hnext.trans (happlied.best_eq_none (hsettled seq data hstate))
  obtain ⟨-, hsame, -⟩ | ⟨hid, hdraws'⟩ := happlied.id
  · refine sawContents_of_same (hinv seq data hstate) hfrag hstate' (hdb.trans hsame) ?_ ?_
    · rw [hview]
      unfold SequencerContext.fragView
      rw [happlied.sharedState, happlied.same.db]
    · intro tx htx
      rw [hnone] at htx
      cases htx
  · refine sawContents_of_fresh hfrag hstate' ?_ hnone
    rw [hdb, hid]
    exact hids.fresh hfresh le_rfl (by omega)

/-- What a step of the sequencer does to the contents. -/
theorem contentsInv_moved (hids : IdInv crates w) (hfresh : Fresh crates s.ctx)
    (hsettled : ∀ seq data, w.sequencer.state = .sorting seq data → w.sequencer.waiting = true →
      data.nextToBeApplied = none) (hinv : ContentsInv crates w) (hbrings : Brings crates w e)
    (hstep : Step crates w.sequencer e sent s) : ContentsInv crates (moved crates w sent s) := by
  have hfrag := fragStep_of_step hstep
  intro seq' data' hstate'
  cases fragStep_of_step hstep with
  | leaves hstate => exact absurd hstate' (hstate _ _)
  | starts attributes now hstate hparent hparams hstart =>
    cases hstate'
    obtain ⟨hid, hlt, -, hnext, -⟩ := grows_of_startWith hstart
    refine sawContents_of_fresh hfrag rfl ?_ hnext
    rw [hid]
    exact hids.fresh hfresh le_rfl hlt
  | cuts now hstate hwaiting hmined hcuts =>
    cases hstate'
    obtain ⟨hid, hdraws, -, hnext, -⟩ := grows_of_cuts hcuts
    obtain ⟨pool, -, rfl⟩ := Option.map_eq_some_iff.mp hmined
    refine sawContents_of_fresh hfrag rfl ?_ hnext
    rw [hid]
    exact hids.fresh hfresh (Nat.le_succ _) (by dsimp only at hdraws ⊢; omega)
  | @keeps e sent seq data _ ctx hstate hdata hsame hshared hdraws hdeposits hresult hpooling =>
    cases hstate'
    have hview : ctx.fragView crates = w.sequencer.ctx.fragView crates := by
      unfold SequencerContext.fragView
      rw [hshared, hsame.db]
    refine sawContents_of_same (hinv _ _ hstate) hfrag rfl ?_ hview ?_
    · obtain rfl | ⟨tx, -, rfl⟩ := hdata <;> rfl
    · obtain rfl | ⟨tx, -, rfl⟩ := hdata <;> exact fun tx htx => .inl htx
  | takes result hstate hwaiting hvalid hmsg hsim =>
    cases hstate'
    have htakes := takesSim_of_handleSim hsim
    refine sawContents_of_same (hinv _ _ hstate) hfrag rfl htakes.db rfl ?_
    intro tx htx
    obtain hold | ⟨tx', rfl, hbest⟩ := htakes.best
    · exact .inl (hold ▸ htx)
    · obtain rfl : tx' = tx := Option.some.inj (hbest.symm.trans htx)
      obtain ⟨r, hr, rfl, hsaw⟩ := hbrings result rfl
      exact .inr ⟨r, hr, hmsg, hsaw _ _ _ hstate hvalid hmsg⟩
  | orders happlies hdeposits hsend =>
    cases hstate'
    have hsends := sends_of_sendNext hsend
    exact sawContents_of_applied hids hfresh hsettled hinv hfrag rfl happlies rfl rfl hsends.db
      hsends.nextToBeApplied
  | deposit happlies =>
    cases hstate'
    exact sawContents_of_applied hids hfresh hsettled hinv hfrag rfl happlies rfl rfl rfl rfl

/-! ## The simulations in flight -/

/-- The event brings a result for the frag that is sorted. -/
def answers (data : SortingData) : Event → Bool
  | .simResult result =>
    match result.msg with
    | .tx _ => data.isValid result.stateId
    | .txPoolTopOfFrag _ => false
  | _ => false

/-- The requests under way that are tagged with the id of the frag. -/
def taggedCount (w : World S) (data : SortingData) : ℕ :=
  (outstanding w).countP (tagged data.db.stateId)

/-- The simulations in flight are counted, of which `owed` are being handled. -/
structure Counted (w : World S) (data : SortingData) (owed : ℕ) : Prop where
  settled : w.sequencer.waiting = true → data.inFlightSims = 0 ∧ data.nextToBeApplied = none
  count : w.sequencer.waiting = false → data.inFlightSims.toNat = taggedCount w data + owed

def CountInv (w : World S) : Prop :=
  ∀ seq data, w.sequencer.state = .sorting seq data → Counted w data 0

/-- The tagged requests after a step. -/
theorem taggedCount_moved (w : World S) (sent : List Output) (s : Sequencer S)
    (data : SortingData) :
    taggedCount (moved crates w sent s) data =
      taggedCount w data + (World.sentRequests sent).countP (tagged data.db.stateId) := by
  unfold taggedCount
  rw [(outstanding_moved w sent s).countP_eq, List.countP_append]

/-- Those of the pool are not tagged. -/
theorem countP_tagged_pooling (h : Pooling sent) (id : UInt64) :
    (World.sentRequests sent).countP (tagged id) = 0 := by
  rw [List.countP_eq_zero]
  intro request hrequest
  rw [untagged_pooling h id request hrequest]
  exact Bool.false_ne_true

/-- Those of the frag all are. -/
theorem countP_tagged_of_frag {requests : List SequencerToSimulator}
    (h : ∀ request ∈ requests, ∃ tx, request = data.request tx) :
    requests.countP (tagged data.db.stateId) = requests.length := by
  rw [List.countP_eq_length]
  intro request hrequest
  obtain ⟨tx, rfl⟩ := h request hrequest
  simp [tagged, SortingData.request]

/-- No answer while none is waited for. -/
theorem answers_of_applies (h : Applies crates s e seq data₁ ctx) (hwaiting : s.waiting = false) :
    answers data e = false := by
  cases h with
  | best => rfl
  | deposit result tx hstate hwaiting' => simp [hwaiting] at hwaiting'

/-- No request under way has a new id. -/
theorem taggedCount_new (hids : IdInv crates w) (hfresh : Fresh crates s.ctx)
    (hle : w.sequencer.ctx.draws ≤ i) (hlt : i < s.ctx.draws)
    (hid : data.db.stateId = crates.rand i) : taggedCount w data = 0 := by
  rw [taggedCount, List.countP_eq_zero, hid]
  intro request hrequest
  rw [hids.fresh hfresh hle hlt request hrequest]
  exact Bool.false_ne_true

/-- Nothing is under way for a frag after something may have been applied to it. -/
theorem counted_of_applied (hids : IdInv crates w) (hfresh : Fresh crates s.ctx)
    (hinv : ∀ seq data, w.sequencer.state = .sorting seq data →
      Counted w data (answers data e).toNat)
    (happlies : Applies crates w.sequencer e seq data₁ ctx) (hdraws : s.ctx.draws = ctx.draws)
    (hdb : data'.db = data₁.db) :
    taggedCount w data' = 0 ∧ data₁.inFlightSims = 0 ∧ data₁.nextToBeApplied = none := by
  obtain ⟨data, hstate, happlied⟩ := applied_of_applies happlies
  have hcounted := hinv seq data hstate
  have hnone : data₁.nextToBeApplied = none :=
    happlied.best_eq_none fun hwaiting => (hcounted.settled hwaiting).2
  have hzero : data.inFlightSims = 0 := by
    by_cases hwaiting : w.sequencer.waiting = true
    · exact (hcounted.settled hwaiting).1
    · exact (happlied.settled (by simpa using hwaiting)).1
  refine ⟨?_, happlied.inFlightSims.trans hzero, hnone⟩
  obtain ⟨hwaiting, hsame, -⟩ | ⟨hid, hdraws'⟩ := happlied.id
  · have hcount := hcounted.count hwaiting
    rw [hzero, answers_of_applies happlies hwaiting] at hcount
    have hsame' : taggedCount w data' = taggedCount w data := by
      rw [taggedCount, taggedCount, hdb, hsame]
    simp only [UInt64.toNat_zero, Bool.toNat_false] at hcount
    omega
  · exact taggedCount_new hids hfresh le_rfl (by omega) (by rw [hdb]; exact hid)

/-- An event that leaves the frag alone brings no result for it. -/
theorem answers_of_keeps (hwaiting : s.waiting = false)
    (hresult : ∀ result, e = .simResult result → data.isValid result.stateId = true →
      (∀ tx, result.msg ≠ .tx (.ok tx)) ∧ (s.waiting = false → ∀ tx, result.msg ≠ .tx tx)) :
    answers data e = false := by
  cases e with
  | simResult result =>
    cases hmsg : result.msg with
    | txPoolTopOfFrag => simp only [answers, hmsg]
    | tx simulatedTx =>
      simp only [answers, hmsg]
      by_contra hvalid
      exact (hresult result rfl (by simpa using hvalid)).2 hwaiting simulatedTx hmsg
  | _ => rfl

/-- What a step of the sequencer does to the count. -/
theorem countInv_moved (hids : IdInv crates w) (hfresh : Fresh crates s.ctx)
    (hinv : ∀ seq data, w.sequencer.state = .sorting seq data →
      Counted w data (answers data e).toNat) (hstep : Step crates w.sequencer e sent s) :
    CountInv (moved crates w sent s) := by
  intro seq' data' hstate'
  cases fragStep_of_step hstep with
  | leaves hstate => exact absurd hstate' (hstate _ _)
  | starts attributes now hstate hparent hparams hstart =>
    cases hstate'
    obtain ⟨hid, hlt, hflight, -⟩ := grows_of_startWith hstart
    refine ⟨by rintro ⟨⟩, fun _ => ?_⟩
    rw [taggedCount_moved, taggedCount_new hids hfresh le_rfl hlt hid, hflight]
    rfl
  | cuts now hstate hwaiting hmined hcuts =>
    cases hstate'
    obtain ⟨hid, hdraws, hflight, -⟩ := grows_of_cuts hcuts
    obtain ⟨pool, -, rfl⟩ := Option.map_eq_some_iff.mp hmined
    refine ⟨by rintro ⟨⟩, fun _ => ?_⟩
    have hnone : taggedCount w data' = 0 :=
      taggedCount_new hids hfresh (Nat.le_succ _) (by dsimp only at hdraws ⊢; omega) hid
    rw [taggedCount_moved, hnone, hflight]
    rfl
  | @keeps e sent seq data _ ctx hstate hdata hsame hshared hdraws hdeposits hresult hpooling =>
    cases hstate'
    have hcounted := hinv _ _ hstate
    obtain ⟨hdb, hflight, hnext⟩ : data'.db = data.db ∧
        data'.inFlightSims = data.inFlightSims ∧
        data'.nextToBeApplied = data.nextToBeApplied := by
      obtain rfl | ⟨tx, -, rfl⟩ := hdata <;> exact ⟨rfl, rfl, rfl⟩
    refine ⟨fun hwaiting => ?_, fun hwaiting => ?_⟩
    · rw [hflight, hnext]
      exact hcounted.settled hwaiting
    · have hcount := hcounted.count hwaiting
      rw [answers_of_keeps hwaiting hresult] at hcount
      rw [taggedCount_moved, countP_tagged_pooling hpooling, hflight, taggedCount, hdb]
      exact hcount
  | @takes result simulatedTx _ data _ hstate hwaiting hvalid hmsg hsim =>
    cases hstate'
    have htakes := takesSim_of_handleSim hsim
    refine ⟨by rintro ⟨⟩, fun _ => ?_⟩
    have hcount := (hinv _ _ hstate).count hwaiting
    have howed : answers data (.simResult result) = true := by
      simp only [answers, hmsg]
      exact hvalid
    rw [howed] at hcount
    have hone : (1 : UInt64) ≤ data.inFlightSims := by
      rw [UInt64.le_iff_toNat_le, hcount]
      simp
    rw [taggedCount_moved, htakes.inFlightSims, taggedCount, htakes.db,
      UInt64.toNat_sub_of_le _ _ hone, hcount]
    simp [World.sentRequests, taggedCount]
  | orders happlies hdeposits hsend =>
    cases hstate'
    have hsends := sends_of_sendNext hsend
    obtain ⟨hcount, hflight, -⟩ := counted_of_applied hids hfresh hinv happlies rfl hsends.db
    refine ⟨by rintro ⟨⟩, fun _ => ?_⟩
    rw [taggedCount_moved, hcount, sentRequests_simulate, hsends.inFlightSims, hflight, hsends.db,
      countP_tagged_of_frag hsends.ofFrag]
    simp
  | deposit happlies =>
    cases hstate'
    obtain ⟨-, hflight, hnext⟩ := counted_of_applied hids hfresh hinv happlies rfl rfl
    exact ⟨fun _ => ⟨hflight, hnext⟩, by rintro ⟨⟩⟩

/-! ## The invariant -/

structure SimInv (crates : Crates S) (w : World S) : Prop where
  ids : IdInv crates w
  answered : Answered w
  contents : ContentsInv crates w
  counts : CountInv w

/-- Nor in events from outside. -/
theorem answers_of_external (h : e.isExternal = true) (data : SortingData) :
    answers data e = false := by
  cases e with
  | simResult => cases h
  | _ => rfl

/-- A result is for the frag that is sorted if its request is. -/
theorem answers_eq_tagged {outcome : SimOutcome} (hr : r.result = resultMessage r.request outcome)
    (data : SortingData) :
    answers data (.simResult r.result) = tagged data.db.stateId r.request := by
  rw [hr]
  cases r.request with
  | simulateTx => rfl
  | simulateTxTof => rfl

/-- Taking a result keeps the contents. -/
theorem contentsInv_taken (hinv : ContentsInv crates w) (hr : w.results[i]? = some r) :
    ContentsInv crates (taken w i r) := by
  intro seq data hstate
  obtain ⟨harc, hrequests, hsims, hbest⟩ := hinv seq data hstate
  refine ⟨harc, fun tx arc hmem => hrequests tx arc ?_, allSims_taken hsims i r, fun tx htx => ?_⟩
  · exact (outstanding_taken hr).mem_iff.mp (List.mem_cons_of_mem _ hmem)
  · obtain ⟨r', hr', hsaw⟩ := hbest tx htx
    exact ⟨r', List.mem_append_left _ hr', hsaw⟩

/-- A result brings what it has seen. -/
theorem brings_taken (hinv : SimInv crates w) (hr : w.results[i]? = some r) :
    Brings crates (taken w i r) (.simResult r.result) := by
  rintro result ⟨⟩
  have hmem := List.mem_of_getElem? hr
  refine ⟨r, List.mem_append_right _ (List.mem_singleton_self r), rfl, ?_⟩
  intro seq data simulatedTx hstate hvalid hmsg
  exact (hinv.contents seq data hstate).sims.ofResults r hmem
    (tagged_of_valid hinv.answered hmem hvalid hmsg)

/-- It is counted once. -/
theorem counted_taken (hanswered : Answered w) (hinv : CountInv w) (hr : w.results[i]? = some r)
    (hstate : w.sequencer.state = .sorting seq data) :
    Counted (taken w i r) data (answers data (.simResult r.result)).toNat := by
  have hcounted := hinv seq data hstate
  refine ⟨hcounted.settled, fun hwaiting => ?_⟩
  have hcount := hcounted.count hwaiting
  obtain ⟨outcome, houtcome⟩ := hanswered r (List.mem_of_getElem? hr)
  rw [taggedCount, ← (outstanding_taken hr).countP_eq, List.countP_cons] at hcount
  rw [answers_eq_tagged houtcome, taggedCount]
  cases htagged : tagged data.db.stateId r.request with
  | false => simpa [htagged] using hcount
  | true => simpa [htagged] using hcount

/-- Simulators keep the contents. -/
theorem contentsInv_simStep {e : WorldEvent} (hinv : ContentsInv crates w)
    (h : SimStep crates w e w') : ContentsInv crates w' := by
  obtain ⟨hsequencer, -, harcs, hdelivered, hperm⟩ := h.quiet
  intro seq data hstate
  rw [hsequencer] at hstate
  obtain ⟨harc, hrequests, hsims, hbest⟩ := hinv seq data hstate
  refine ⟨harcs ▸ harc, fun tx arc hmem => hrequests tx arc (hperm.mem_iff.mp hmem), ?_, ?_⟩
  · rw [hsequencer]
    refine h.allSims hsims fun k i sim request _ _ hrequest htagged => ?_
    cases request with
    | simulateTxTof => cases htagged
    | simulateTx tx arc id =>
      obtain rfl : id = data.db.stateId := by simpa [tagged] using htagged
      obtain rfl := hrequests tx arc (mem_outstanding_of_request hrequest)
      refine ⟨by simp, fun v hv => ?_⟩
      rw [List.mem_singleton.mp hv, World.contents, harc]
      rfl
  · rw [hsequencer, hdelivered]
    exact hbest

/-- Simulators keep the counts. -/
theorem countInv_simStep {e : WorldEvent} (hinv : CountInv w) (h : SimStep crates w e w') :
    CountInv w' := by
  obtain ⟨hsequencer, -, -, -, hperm⟩ := h.quiet
  intro seq data hstate
  rw [hsequencer] at hstate
  obtain ⟨hsettled, hcount⟩ := hinv seq data hstate
  refine ⟨?_, fun hwaiting => ?_⟩
  · rw [hsequencer]
    exact hsettled
  · rw [hsequencer] at hwaiting
    rw [taggedCount, hperm.countP_eq]
    exact hcount hwaiting

/-- What one event does to the invariant. -/
theorem simInv_worldStep {e : WorldEvent} (hfresh : Fresh crates w'.sequencer.ctx)
    (hinv : SimInv crates w) (h : WorldStep crates w e w') : SimInv crates w' := by
  have hids := idInv_worldStep hinv.ids h
  have hanswered := answered_worldStep hinv.answered h
  have hsettled : ∀ seq data, w.sequencer.state = .sorting seq data →
      w.sequencer.waiting = true → data.nextToBeApplied = none :=
    fun seq data hstate hwaiting => ((hinv.counts seq data hstate).settled hwaiting).2
  cases h with
  | @sequencer e sent s hexternal hstep =>
    have hbrings : Brings crates w e := by
      rintro result rfl
      cases hexternal
    refine ⟨hids, hanswered,
      contentsInv_moved hinv.ids hfresh hsettled hinv.contents hbrings hstep,
      countInv_moved hinv.ids hfresh (fun seq data hstate => ?_) hstep⟩
    rw [answers_of_external hexternal]
    exact hinv.counts seq data hstate
  | deliver hr hstep =>
    exact ⟨hids, hanswered,
      contentsInv_moved (idInv_taken hinv.ids hr) hfresh hsettled
        (contentsInv_taken hinv.contents hr) (brings_taken hinv hr) hstep,
      countInv_moved (idInv_taken hinv.ids hr) hfresh
        (fun seq data hstate => counted_taken hinv.answered hinv.counts hr hstate) hstep⟩
  | simulator hsim =>
    exact ⟨hids, hanswered, contentsInv_simStep hinv.contents hsim,
      countInv_simStep hinv.counts hsim⟩

/-- The invariant at the start. -/
theorem simInv_start (config : SequencerConfig) (db : SequencerDB S) (n : ℕ) :
    SimInv crates (World.start (.new crates config db) n) where
  ids := idInv_start config db n
  answered := fun _ hr => (nomatch hr)
  contents := fun _ _ h => (nomatch h)
  counts := fun _ _ h => (nomatch h)

/-! ## Runs -/

/-- An event makes `apply_tx` commit a transaction to the frag that is sorted: a tick the best
result of a round, and a result that is delivered itself, when it is that of the deposit that is
waited for.
SRCLINE: sequencer/src/lib.rs:483-498, sorting_data.rs:205-227,275-280 -/
inductive CommitsTx (w : World S) (data : SortingData) : WorldEvent → SimulatedTx → Prop
  | best {now : ℕ} {tx : SimulatedTx} (hwaiting : w.sequencer.waiting = false)
      (hseal : data.shouldSealFrag now = false) (hflight : data.shouldSendNextSims = true)
      (hnext : data.nextToBeApplied = some tx) : CommitsTx w data (.sequencer (.tick now)) tx
  | deposit {i : ℕ} {r : SimResult} {tx : SimulatedTx} (hr : w.results[i]? = some r)
      (hwaiting : w.sequencer.waiting = true) (hvalid : data.isValid r.result.stateId = true)
      (hmsg : r.result.msg = .tx (.ok tx)) : CommitsTx w data (.deliver i) tx

/-- The frag that is sorted changes only when it is cut or when `apply_tx`
commits a transaction to it. -/
theorem commitsTx_of_worldStep {e : WorldEvent} (h : WorldStep crates w e w')
    (hstate : w.sequencer.state = .sorting seq data)
    (hstate' : w'.sequencer.state = .sorting seq' data') :
    (data'.txs = data.txs ∧ data'.db = data.db) ∨ data'.txs = [] ∨
      ∃ tx, CommitsTx w data e tx ∧ Gains crates w.sequencer data data' tx := by
  cases h with
  | sequencer hexternal hstep =>
    cases changes_of_step hstep hstate hstate' with
    | kept hseq htxs hdb => exact .inl ⟨htxs, hdb⟩
    | cut hseq htxs => exact .inr (.inl htxs)
    | best hseq hwaiting hseal hflight hnext hgains =>
      exact .inr (.inr ⟨_, .best hwaiting hseal hflight hnext, hgains⟩)
    | deposit => cases hexternal
  | @deliver i r sent s hr hstep =>
    generalize hresult : Event.simResult r.result = event at hstep
    cases changes_of_step hstep hstate hstate' with
    | kept hseq htxs hdb => exact .inl ⟨htxs, hdb⟩
    | cut hseq htxs => exact .inr (.inl htxs)
    | best => cases hresult
    | deposit hseq hwaiting hvalid hmsg hgains =>
      cases hresult
      exact .inr (.inr ⟨_, .deposit hr hwaiting hvalid hmsg, hgains⟩)
  | simulator hsim =>
    rw [hsim.quiet.sequencer, hstate] at hstate'
    cases hstate'
    exact .inl ⟨rfl, rfl⟩

/-- Transactions are applied to the state that they were simulated on. In every state of the
sequencer among any number of simulators that can be reached with fresh ids, a transaction that
`apply_tx` commits came back as a result of a simulation that has seen exactly the contents that it
is committed to, and nothing else is ever added to the frag. While no deposit is waited for, the
simulations in flight are the requests tagged with the id of the frag whose result was not handled,
and there is one if a result for the frag is to be handled.
SRCLINE: sorting_data.rs:143-280, sequencer/src/lib.rs:425-502, sorting.rs:14-34,
simulator.rs:139-162 -/
theorem applied_asSimulated {config : SequencerConfig} {db : SequencerDB S} {n : ℕ}
    {events : List WorldEvent} {seq : FragSequence} {data : SortingData}
    (hrun : runSteps (World.step crates) (World.start (.new crates config db) n) events = some w)
    (hfresh : Fresh crates w.sequencer.ctx) (hstate : w.sequencer.state = .sorting seq data) :
    (∀ e tx, CommitsTx w data e tx → ∃ r ∈ w.delivered ++ w.results,
      r.result.msg = .tx (.ok tx) ∧ Saw (sortingView crates w.sequencer data) r.seen) ∧
    (∀ e w' seq' data', w.step crates e = some w' → w'.sequencer.state = .sorting seq' data' →
      (data'.txs = data.txs ∧ data'.db = data.db) ∨ data'.txs = [] ∨
        ∃ tx, CommitsTx w data e tx ∧ Gains crates w.sequencer data data' tx) ∧
    (w.sequencer.waiting = false →
      data.inFlightSims.toNat = (outstanding w).countP (tagged data.db.stateId) ∧
      ∀ r ∈ w.results, data.isValid r.result.stateId = true →
        ∀ simulatedTx, r.result.msg = .tx simulatedTx → 1 ≤ data.inFlightSims) := by
  have hinv : SimInv crates w :=
    world_induction (P := fun _ _ => True)
      (fun w e w' hfresh _ hinv hstep => simInv_worldStep hfresh hinv hstep)
      (along_of_forall (fun _ _ => trivial) _ _) (simInv_start config db n) hrun hfresh
  refine ⟨fun e tx hcommits => ?_, fun e w' seq' data' hstep hstate' => ?_, fun hwaiting => ?_⟩
  · cases hcommits with
    | best hwaiting hseal hflight hnext =>
      obtain ⟨r, hr, hmsg, hsaw⟩ := (hinv.contents seq data hstate).best tx hnext
      exact ⟨r, List.mem_append_left _ hr, hmsg, hsaw⟩
    | @deposit i r tx hr hwaiting hvalid hmsg =>
      have hmem := List.mem_of_getElem? hr
      have htagged := tagged_of_valid hinv.answered hmem hvalid hmsg
      exact ⟨r, List.mem_append_right _ hmem, hmsg,
        (hinv.contents seq data hstate).sims.ofResults r hmem htagged⟩
  · exact commitsTx_of_worldStep (worldStep_of_step hstep) hstate hstate'
  · have hcount := (hinv.counts seq data hstate).count hwaiting
    refine ⟨hcount, fun r hr hvalid simulatedTx hmsg => ?_⟩
    have htagged := tagged_of_valid hinv.answered hr hvalid hmsg
    have hpos : 0 < taggedCount w data :=
      List.countP_pos_iff.mpr ⟨r.request, mem_outstanding_of_result hr, htagged⟩
    rw [UInt64.le_iff_toNat_le, hcount]
    exact hpos

/-- A block to which a transaction was submitted, and the result of its simulation was delivered. -/
def oneRound : List WorldEvent :=
  [.sequencer (newPayloadEvent plainPayload1),
    .sequencer (startEvent plainPayload1.blockHash (plainAttributes 102 [] false)),
    .sequencer (.newTx (plainRawTx [0])),
    .sequencer (.tick 1)] ++ plainSimulation

/-- What is to be known of the end of that run. -/
def roundView (w : World ℕ) : Option (Bool × Bool × Bool × Bool) :=
  match w.sequencer.state with
  | .sorting _ data =>
    some (w.sequencer.waiting, data.shouldSealFrag 2, data.shouldSendNextSims,
      data.nextToBeApplied.isSome)
  | _ => none

/-- One round of sorting. -/
theorem applied_asSimulated_oneRound :
    ∃ w seq data tx, runSteps (World.step plainCrates) (plainWorld false) oneRound = some w ∧
      w.sequencer.state = .sorting seq data ∧ CommitsTx w data (.sequencer (.tick 2)) tx ∧
      (∃ r ∈ w.delivered ++ w.results, r.result.msg = .tx (.ok tx) ∧
        Saw (sortingView plainCrates w.sequencer data) r.seen) ∧
      data.inFlightSims.toNat = (outstanding w).countP (tagged data.db.stateId) := by
  have hview : (runSteps (World.step plainCrates) (plainWorld false) oneRound).bind
      (fun w => (roundView w).map (·, decide (Fresh plainCrates w.sequencer.ctx))) =
        some ((false, false, true, true), true) := by
    decide +kernel
  obtain ⟨w, hrun, hw⟩ := Option.bind_eq_some_iff.mp hview
  obtain ⟨view, hround, heq⟩ := Option.map_eq_some_iff.mp hw
  obtain ⟨rfl, hfresh⟩ := Prod.mk.inj heq
  have hfresh := of_decide_eq_true hfresh
  unfold roundView at hround
  split at hround
  · rename_i seq data hstate
    obtain ⟨hwaiting, hseal, hflight, hsome⟩ : w.sequencer.waiting = false ∧
        data.shouldSealFrag 2 = false ∧ data.shouldSendNextSims = true ∧
        data.nextToBeApplied.isSome = true := by
      simpa only [Option.some.injEq, Prod.mk.injEq] using hround
    obtain ⟨tx, hnext⟩ := Option.isSome_iff_exists.mp hsome
    obtain ⟨hsaw, -, hcount⟩ := applied_asSimulated hrun hfresh hstate
    have hcommits : CommitsTx w data (.sequencer (.tick 2)) tx :=
      .best hwaiting hseal hflight hnext
    exact ⟨w, seq, data, tx, hrun, hstate, hcommits, hsaw _ _ hcommits, (hcount hwaiting).1⟩
  · cases hround

end BasedOp.Analysis.SimulatedState
