import BasedOp.Analysis.SortingOrders
import BasedOp.Computation.Runs
import BasedOp.Model.SequencerState

/-!
# The best result of a round

In a round of sorting the orders are asked, all results come back in some order, and the best
one is applied. What holds after all results is shown by one rule (`handle_induction`). With
one order for each sender, the best result and what is put back do not depend on the order in
which the results come (`best_of_round`).
-/

set_option autoImplicit false

namespace BasedOp.Analysis.SortingRounds

open BasedOp.Computation Model Model.Gateway
open PoolContents SortingOrders

/-! ## The results of a round -/

/-- What comes back for a request: an error, or a simulation of its transaction. -/
structure Answer where
  request : SequencerToSimulator
  result : Except SimulationError SimulatedTx
  ofRequest : ∀ tx, result = .ok tx → tx.tx = request.tx

variable {answer : Answer} {tx : SimulatedTx} {gasRemaining : UInt64} {answers done : List Answer}
  {data : SortingData} {orders orders' : List SimulatedTxList}

namespace Answer

def sender (answer : Answer) : Address := answer.request.tx.sender

/-- A success is of its sender. -/
theorem sender_of_ok (h : answer.result = .ok tx) : tx.sender = answer.sender :=
  congrArg Transaction.sender (answer.ofRequest tx h)

end Answer

/-- A result is taken in.
SRCLINE: sequencer/src/lib.rs:425-442 -/
def handle (baseFee : UInt64) (data : SortingData) (answer : Answer) : Option SortingData :=
  data.handleSim answer.result answer.sender baseFee

/-- The state after some results, up to the orders that were asked and the best result. -/
def handled (data : SortingData) (count : ℕ) (orders : ActiveOrders) (best : Option SimulatedTx) :
    SortingData :=
  { data with
    inFlightSims := data.inFlightSims - UInt64.ofNat count
    tofSnapshot := orders
    nextToBeApplied := best }

variable {front : List SimulatedTxList} {best : Option SimulatedTx}

/-- The rule for the results of a round: none of them panics, and what holds before
and is kept by each of them holds after all. -/
theorem handle_induction {I : List Answer → List SimulatedTxList → Option SimulatedTx → Prop}
    {all : List Answer} (baseFee : UInt64)
    (hstep : ∀ done answer rest orders best orders' best', done ++ answer :: rest = all →
      I done orders best →
      ResultStep gasRemaining baseFee answer.sender orders best answer.result orders' best' →
      I (done ++ [answer]) orders' best') (hall : done ++ answers = all)
    (hgas : data.gasRemaining = gasRemaining) (horders : data.tofSnapshot = front ++ orders)
    (hcovers : Covers orders data.nextToBeApplied (answers.map Answer.sender))
    (hI : I done orders data.nextToBeApplied) :
    ∃ orders' best, runSteps (handle baseFee) data answers =
        some (handled data answers.length (front ++ orders') best) ∧
      Covers orders' best [] ∧ I all orders' best := by
  induction answers generalizing data done orders with
  | nil =>
    refine ⟨orders, data.nextToBeApplied, ?_, hcovers, ?_⟩
    · rw [runSteps, handled, ← horders, List.length_nil]
      simp
    · rw [← hall, List.append_nil]
      exact hI
  | cons answer answers ih =>
    have hresult : ∀ tx, answer.result = .ok tx → tx.sender = answer.sender :=
      fun tx htx => Answer.sender_of_ok htx
    obtain ⟨orders₁, best₁, hsim, hresultStep⟩ := handleSim_spec baseFee horders hcovers hresult
    have hcovers₁ := hresultStep.covers hresult hcovers
    rw [hgas] at hresultStep
    have hI₁ := hstep done answer answers orders _ orders₁ best₁ hall hI hresultStep
    have hall₁ : (done ++ [answer]) ++ answers = all := by
      rw [List.append_assoc, List.singleton_append, hall]
    have hgas₁ : (handled data 1 (front ++ orders₁) best₁).gasRemaining = gasRemaining := hgas
    obtain ⟨orders', best, hrun, hrest⟩ := ih hall₁ hgas₁ rfl hcovers₁ hI₁
    refine ⟨orders', best, ?_, hrest⟩
    have hcount : data.inFlightSims - 1 - UInt64.ofNat answers.length =
        data.inFlightSims - UInt64.ofNat (answers.length + 1) := by
      rw [UInt64.ofNat_add, UInt64.add_comm]
      exact sub_sub data.inFlightSims 1 _
    rw [runSteps, handle, hsim, Option.bind_some]
    refine hrun.trans (congrArg some ?_)
    unfold handled
    rw [List.length_cons, ← hcount]
    rfl

/-! ## The best result -/

/-- What is selected of the results so far, and where the others are. -/
structure Picked (gasRemaining : UInt64) (done : List Answer) (orders : List SimulatedTxList)
    (best : Option SimulatedTx) : Prop where
  ofDone : ∀ tx, best = some tx → (∃ answer ∈ done, answer.result = .ok tx) ∧
    tx.gasUsed < gasRemaining
  greatest : ∀ answer ∈ done, ∀ tx, answer.result = .ok tx → tx.gasUsed < gasRemaining →
    ∃ picked, best = some picked ∧ tx.payment ≤ picked.payment
  current : ∀ answer ∈ done, ∀ tx, answer.result = .ok tx → tx.gasUsed ≤ gasRemaining →
    best = some tx ∨ ∃ order ∈ orders, order.sender = tx.sender ∧ order.current = some tx

/-- Nothing is picked yet. -/
theorem picked_nil (gasRemaining : UInt64) (orders : List SimulatedTxList) :
    Picked gasRemaining [] orders none where
  ofDone := fun _ h => nomatch h
  greatest := fun _ h => nomatch h
  current := fun _ h => nomatch h

/-- The order that a result was put back into stays, if only the orders of another sender change. -/
theorem current_of_frame {sender : Address} (hne : tx.sender ≠ sender)
    (hframe : ∀ order : SimulatedTxList, order.sender ≠ sender → order ∈ orders → order ∈ orders')
    (h : ∃ order ∈ orders, order.sender = tx.sender ∧ order.current = some tx) :
    ∃ order ∈ orders', order.sender = tx.sender ∧ order.current = some tx := by
  obtain ⟨order, horder, hsender, hcurrent⟩ := h
  exact ⟨order, hframe order (hsender ▸ hne) horder, hsender, hcurrent⟩

/-- One more answer. -/
theorem forall_concat {p : Answer → Prop} (hdone : ∀ a ∈ done, p a) (hanswer : p answer) :
    ∀ a ∈ done ++ [answer], p a := by
  intro a ha
  obtain ha | ha := List.mem_append.mp ha
  · exact hdone a ha
  · rw [List.mem_singleton.mp ha]
    exact hanswer

/-- The best result stays the best one, and one more result is put where it belongs. -/
theorem picked_of_kept (hother : ∀ a ∈ done, ∀ tx, a.result = .ok tx → tx.sender ≠ answer.sender)
    (h : Picked gasRemaining done orders best)
    (hframe : ∀ order : SimulatedTxList, order.sender ≠ answer.sender → order ∈ orders →
      order ∈ orders') (hless : ∀ tx, answer.result = .ok tx → tx.gasUsed < gasRemaining →
      ∃ picked, best = some picked ∧ tx.payment ≤ picked.payment)
    (hback : ∀ tx, answer.result = .ok tx → tx.gasUsed ≤ gasRemaining →
      ∃ order ∈ orders', order.sender = tx.sender ∧ order.current = some tx) :
    Picked gasRemaining (done ++ [answer]) orders' best := by
  refine ⟨?_, forall_concat h.greatest hless, forall_concat ?_ ?_⟩
  · intro tx hbest
    obtain ⟨⟨a, ha, htx⟩, hgas⟩ := h.ofDone tx hbest
    exact ⟨⟨a, List.mem_append_left _ ha, htx⟩, hgas⟩
  · intro a ha tx htx hle
    exact (h.current a ha tx htx hle).imp_right (current_of_frame (hother a ha tx htx) hframe)
  · intro tx htx hle
    exact .inr (hback tx htx hle)

/-- One more result becomes the best one. -/
theorem picked_of_selected (hresult : answer.result = .ok tx) (hgas : tx.gasUsed < gasRemaining)
    (hbetter : ∀ a ∈ done, ∀ other, a.result = .ok other → other.gasUsed < gasRemaining →
      other.payment ≤ tx.payment)
    (hback : ∀ a ∈ done, ∀ other, a.result = .ok other → other.gasUsed ≤ gasRemaining →
      ∃ order ∈ orders, order.sender = other.sender ∧ order.current = some other) :
    Picked gasRemaining (done ++ [answer]) orders (some tx) := by
  have hsame : ∀ other, answer.result = .ok other → tx = other :=
    fun other hother => Except.ok.inj (hresult.symm.trans hother)
  refine ⟨?_, forall_concat ?_ ?_, forall_concat ?_ ?_⟩
  · rintro _ ⟨⟩
    exact ⟨⟨answer, List.mem_append_right _ List.mem_cons_self, hresult⟩, hgas⟩
  · intro a ha other hother hbelow
    exact ⟨tx, rfl, hbetter a ha other hother hbelow⟩
  · intro other hother _
    obtain rfl := hsame other hother
    exact ⟨tx, rfl, BitVec.le_refl _⟩
  · intro a ha other hother hle
    exact .inr (hback a ha other hother hle)
  · intro other hother _
    exact .inl (congrArg some (hsame other hother))

/-- The result that was the best one is put back, and the others stay where they are. -/
theorem current_of_replaced {old : SimulatedTx} (hdistinct : (done.map Answer.sender).Nodup)
    (h : Picked gasRemaining done orders (some old)) (hputs : Puts old orders orders')
    {a : Answer} (ha : a ∈ done) (htx : a.result = .ok tx) (hle : tx.gasUsed ≤ gasRemaining) :
    ∃ order ∈ orders', order.sender = tx.sender ∧ order.current = some tx := by
  obtain ⟨⟨b, hb, hold⟩, -⟩ := h.ofDone old rfl
  by_cases hsender : tx.sender = old.sender
  · -- results of one sender are one result
    have heq : a = b := by
      refine List.inj_on_of_nodup_map hdistinct ha hb ?_
      rw [← Answer.sender_of_ok htx, hsender, Answer.sender_of_ok hold]
    rw [heq] at htx
    obtain rfl := Except.ok.inj (hold.symm.trans htx)
    exact hputs.exists_current
  · obtain hpicked | hcurrent := h.current a ha tx htx hle
    · obtain rfl := Option.some.inj hpicked
      exact absurd rfl hsender
    · exact current_of_frame hsender (fun order hne => (hputs.mem_iff hne).mpr) hcurrent

/-- One more result, when no two are of one sender. -/
theorem picked_step {baseFee : UInt64} {best' : Option SimulatedTx}
    (hdistinct : ((done ++ [answer]).map Answer.sender).Nodup)
    (h : Picked gasRemaining done orders best)
    (hstep : ResultStep gasRemaining baseFee answer.sender orders best answer.result orders'
      best') :
    Picked gasRemaining (done ++ [answer]) orders' best' := by
  rw [List.map_append, List.nodup_append] at hdistinct
  obtain ⟨hdone, -, hnew⟩ := hdistinct
  have hother : ∀ a ∈ done, ∀ tx, a.result = .ok tx → tx.sender ≠ answer.sender := by
    intro a ha tx htx heq
    exact hnew a.sender (List.mem_map_of_mem ha) answer.sender List.mem_cons_self
      ((Answer.sender_of_ok htx).symm.trans heq)
  generalize hresult : answer.result = result at hstep
  cases hstep with
  | dropped hgas hpops =>
    have hlarge : ∀ tx, answer.result = .ok tx → gasRemaining < tx.gasUsed :=
      fun tx htx => hgas tx (hresult.symm.trans htx)
    refine picked_of_kept hother h (fun order hne => (hpops.mem_iff hne).mpr) ?_ ?_
    · intro tx htx hbelow
      exact absurd (UInt64.lt_trans hbelow (hlarge tx htx)) (UInt64.lt_irrefl _)
    · intro tx htx hle
      exact absurd (hlarge tx htx) (UInt64.not_lt.mpr hle)
  | first hbest hgas =>
    rw [hbest] at h
    refine picked_of_selected hresult hgas ?_ ?_
    · intro a ha other hother hbelow
      obtain ⟨picked, hpicked, -⟩ := h.greatest a ha other hother hbelow
      cases hpicked
    · intro a ha other hother hle
      obtain hpicked | hcurrent := h.current a ha other hother hle
      · cases hpicked
      · exact hcurrent
  | @better tx old _ hbest hgas hpays hputs =>
    rw [hbest] at h
    refine picked_of_selected hresult hgas ?_ ?_
    · intro a ha other hother hbelow
      obtain ⟨picked, hpicked, hle⟩ := h.greatest a ha other hother hbelow
      obtain rfl := Option.some.inj hpicked
      exact BitVec.le_trans hle (BitVec.le_of_lt hpays)
    · intro a ha other hother hle
      exact current_of_replaced hdone h hputs ha hother hle
  | @putBack tx _ hgas hpays hputs =>
    have hsender := Answer.sender_of_ok hresult
    refine picked_of_kept hother h ?_ ?_ ?_
    · intro order hne
      exact (hputs.mem_iff (hsender ▸ hne)).mpr
    · intro other hother hbelow
      obtain rfl := Except.ok.inj (hresult.symm.trans hother)
      exact hpays hbelow
    · intro other hother _
      obtain rfl := Except.ok.inj (hresult.symm.trans hother)
      exact hputs.exists_current

/-- A part has no duplicates either. -/
theorem nodup_of_subperm {α : Type} {xs ys : List α} (h : xs.Subperm ys) (hys : ys.Nodup) :
    xs.Nodup := by
  obtain ⟨zs, hperm, hsub⟩ := h
  exact hperm.nodup_iff.mp (hys.sublist hsub)

/-- What a round has selected: nothing just when no result is a success that uses less gas than
remains, and else one of these successes that pays no less than all others. Every other success for
which there is enough gas is the current transaction of the one order of its sender. -/
structure BestOfRound (gasRemaining : UInt64) (answers : List Answer) (data : SortingData) :
    Prop where
  none_iff : data.nextToBeApplied = none ↔
    ∀ answer ∈ answers, ∀ tx, answer.result = .ok tx → ¬ tx.gasUsed < gasRemaining
  ofAnswers : ∀ best, data.nextToBeApplied = some best →
    (∃ answer ∈ answers, answer.result = .ok best) ∧ best.gasUsed < gasRemaining
  greatest : ∀ best, data.nextToBeApplied = some best → ∀ answer ∈ answers, ∀ tx,
    answer.result = .ok tx → tx.gasUsed < gasRemaining → tx.payment ≤ best.payment
  current : ∀ answer ∈ answers, ∀ tx, answer.result = .ok tx → tx.gasUsed ≤ gasRemaining →
    data.nextToBeApplied = some tx ∨
      ∃ order ∈ data.tofSnapshot, order.sender = tx.sender ∧ order.current = some tx
  oneOrder : (senders data.tofSnapshot).Nodup

/-- What is picked is the best. -/
theorem bestOfRound_of_picked (horders : data.tofSnapshot = front ++ orders)
    (h : Picked gasRemaining answers orders data.nextToBeApplied)
    (hone : (senders (front ++ orders)).Nodup) : BestOfRound gasRemaining answers data where
  none_iff := by
    constructor
    · intro hnone answer hanswer tx htx hbelow
      obtain ⟨picked, hpicked, -⟩ := h.greatest answer hanswer tx htx hbelow
      rw [hnone] at hpicked
      cases hpicked
    · intro hnone
      rw [Option.eq_none_iff_forall_ne_some]
      intro tx hbest
      obtain ⟨⟨answer, hanswer, htx⟩, hbelow⟩ := h.ofDone tx hbest
      exact hnone answer hanswer tx htx hbelow
  ofAnswers := h.ofDone
  greatest := by
    intro best hbest answer hanswer tx htx hbelow
    obtain ⟨picked, hpicked, hle⟩ := h.greatest answer hanswer tx htx hbelow
    obtain rfl := Option.some.inj (hbest.symm.trans hpicked)
    exact hle
  current := by
    intro answer hanswer tx htx hle
    refine (h.current answer hanswer tx htx hle).imp_right ?_
    rintro ⟨order, horder, hcurrent⟩
    exact ⟨order, horders ▸ List.mem_append_right _ horder, hcurrent⟩
  oneOrder := horders ▸ hone

/-- The senders of the results of all requests are those of the orders that were asked. -/
theorem covers_of_asking {data₁ : SortingData} {limit : UInt64}
    {requests : List SequencerToSimulator} (asking : Asking data limit [] data₁ requests)
    (howns : Owns data.tofSnapshot) (hbest : data.nextToBeApplied = none)
    (hanswers : (answers.map Answer.request).Perm requests) :
    Covers asking.asked data₁.nextToBeApplied (answers.map Answer.sender) := by
  have hperm := (hanswers.map fun request => request.tx.sender).trans (asking.senders_perm howns)
  rw [List.map_map] at hperm
  unfold Covers
  rw [asking.nextToBeApplied_eq, hbest]
  exact hperm.subperm

/-- Whatever the order in which the results of a round come back: if there was one order for each
sender, the best result is selected and every other one that there is enough gas for is put back,
and nothing panics.
SRCLINE: sorting_data.rs:147-183,231-257, sorting/mod.rs:37-72 -/
theorem best_of_round {data : SortingData} (hbest : data.nextToBeApplied = none)
    (hone : (senders data.tofSnapshot).Nodup) (howns : Owns data.tofSnapshot)
    (limit baseFee : UInt64) :
    ∃ data₁ requests, data.sendNext limit = some (data₁, requests) ∧
      ∀ answers : List Answer, (answers.map Answer.request).Perm requests →
        ∃ data₂, runSteps (handle baseFee) data₁ answers = some data₂ ∧
          BestOfRound data.gasRemaining answers data₂ := by
  obtain ⟨data₁, requests, hsend, ⟨asking⟩⟩ := sendNext_spec data limit
  refine ⟨data₁, requests, hsend, fun answers hanswers => ?_⟩
  have hnone := asking.nextToBeApplied_eq.trans hbest
  have hone₁ : (senders (asking.front ++ asking.asked)).Nodup :=
    nodup_of_subperm asking.senders_subperm hone
  have hdistinct : (answers.map Answer.sender).Nodup := by
    have hperm := (hanswers.map fun request => request.tx.sender).trans (asking.senders_perm howns)
    rw [List.map_map] at hperm
    refine hperm.nodup_iff.mpr ?_
    unfold senders at hone₁
    rw [List.map_append] at hone₁
    exact (List.nodup_append.mp hone₁).2.1
  obtain ⟨orders, best, hrun, -, hpicked, hone₂⟩ := handle_induction
    (I := fun done orders best => Picked data.gasRemaining done orders best ∧
      (senders (asking.front ++ orders)).Nodup) baseFee
    (by
      rintro done answer rest orders best orders' best' hall ⟨hpicked, hnodup⟩ hstep
      refine ⟨picked_step ?_ hpicked hstep, nodup_of_subperm ?_ hnodup⟩
      · refine List.Nodup.sublist ?_ hdistinct
        rw [← hall]
        exact (((List.nil_sublist rest).cons_cons answer).append_left done).map _
      · unfold senders
        rw [List.map_append, List.map_append, List.subperm_append_left]
        exact hstep.subperm_senders)
    (List.nil_append answers) asking.gasRemaining_eq asking.tofSnapshot_eq
    (covers_of_asking asking howns hbest hanswers)
    ⟨hnone ▸ picked_nil data.gasRemaining asking.asked, hone₁⟩
  exact ⟨_, hrun, bestOfRound_of_picked rfl hpicked hone₂⟩

/-- A frag that is being sorted, with some gas left and an order for each of some transactions. -/
def plainSorting (gasRemaining : UInt64) (txs : List Transaction) : SortingData where
  db := .new 0 0
  gasRemaining := gasRemaining
  payment := 0
  txs := []
  untilTime := 0
  inFlightSims := 0
  tofSnapshot := txs.map fun tx => { current := none, pending := .fromTx tx }
  nextToBeApplied := none

/-- The orders of the example. -/
theorem owns_plainSorting (gasRemaining : UInt64) (txs : List Transaction) :
    Owns (plainSorting gasRemaining txs).tofSnapshot := by
  intro order horder
  obtain ⟨tx, -, rfl⟩ := List.mem_map.mp horder
  exact own_fromTx tx

/-- Two senders. -/
theorem best_of_round_two :
    ∃ data₁ requests,
      (plainSorting 50000 [plainRawTx [1], { plainRawTx [1] with sender := 8 }]).sendNext 2 =
        some (data₁, requests) ∧
      ∀ answers : List Answer, (answers.map Answer.request).Perm requests →
        ∃ data₂, runSteps (handle 1) data₁ answers = some data₂ ∧
          BestOfRound 50000 answers data₂ :=
  best_of_round rfl (by decide +kernel) (owns_plainSorting _ _) 2 1

end BasedOp.Analysis.SortingRounds
