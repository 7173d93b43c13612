import BasedOp.Analysis.SequencerSteps

/-!
# The loop over the deposits

`handle_deposits` sends the deposits of the queue to be simulated, one after the other,
and waits for a successful result of each before it goes on. A result of an error is
dropped like one of an earlier state, so that the loop waits on for an answer that it has
had already. It returns exactly when every request is answered with success.

The messages that the loop receives are a sequence without end. `stateAfter` is the loop
after so many of them; `receiveDeposit_eq` says that the sequencer that waits for a
deposit runs this loop, and sends the next orders when it has returned.
-/

set_option autoImplicit false

namespace BasedOp.Analysis.DepositLoop

open Model Model.Gateway

variable {S : Type} (crates : Crates S)

/-! ## The loop -/

/-- The loop with the frag that is being sorted, the context with the queue, and the
request whose result it waits for; without one it has returned. -/
structure Loop (S : Type) where
  data : SortingData
  ctx : SequencerContext S
  request : Option SequencerToSimulator

/-- The head of the loop: the next deposit is sent, if there is one.
SRCLINE: sorting_data.rs:201-203 -/
def handleDeposits (data : SortingData) (ctx : SequencerContext S) : Loop S :=
  match ctx.deposits with
  | [] => { data, ctx, request := none }
  | deposit :: rest =>
    { data, ctx := { ctx with deposits := rest }, request := some (data.request deposit) }

/-- The loop receives a message.
SRCLINE: sorting_data.rs:205-227 -/
def receive (l : Loop S) (result : SimulatorToSequencer) : Loop S :=
  match l.request with
  | none => l
  | some _ =>
    if !l.data.isValid result.stateId then l
    else
      match result.msg with
      | .tx (.ok res) =>
        handleDeposits (l.data.applyTx crates res l.ctx).1 (l.data.applyTx crates res l.ctx).2
      | _ => l

/-- The loop after a number of messages. -/
def stateAfter (l : Loop S) (msgs : ℕ → SimulatorToSequencer) : ℕ → Loop S
  | 0 => l
  | n + 1 => receive crates (stateAfter l msgs n) (msgs n)

/-- What the sequencer does when the loop has come to a state.
SRCLINE: sequencer/src/lib.rs:486-497 -/
def resume (seq : FragSequence) (l : Loop S) : Handled S :=
  match l.request with
  | some request =>
    { sent := [.simulate request], next := some ⟨.sorting seq l.data, l.ctx, true⟩ }
  | none =>
    match l.data.sendNext l.ctx.config.nPerLoop with
    | none => Sequencer.panicked []
    | some (data, requests) => Sequencer.goto (.sorting seq data) l.ctx (requests.map .simulate)

/-- The sequencer handles deposits first. -/
theorem depositsOrOrders_eq (seq : FragSequence) (data : SortingData) (ctx : SequencerContext S) :
    Sequencer.depositsOrOrders seq data ctx = resume seq (handleDeposits data ctx) := by
  unfold Sequencer.depositsOrOrders handleDeposits resume
  cases ctx.deposits with
  | nil => rfl
  | cons => rfl

/-- While it waits for a deposit, the sequencer runs the loop: a message that
the loop takes is followed by what the sequencer does then, another one by nothing. -/
theorem receiveDeposit_eq {s : Sequencer S} {seq : FragSequence} {data : SortingData}
    (hstate : s.state = .sorting seq data) (request : SequencerToSimulator)
    (result : SimulatorToSequencer) :
    (∃ tx, data.isValid result.stateId = true ∧ result.msg = .tx (.ok tx) ∧
      s.receiveDeposit crates result =
        resume seq (receive crates ⟨data, s.ctx, some request⟩ result)) ∨
    (s.receiveDeposit crates result = { sent := [], next := some s } ∧
      receive crates ⟨data, s.ctx, some request⟩ result = ⟨data, s.ctx, some request⟩) := by
  unfold Sequencer.receiveDeposit receive
  simp only [hstate]
  cases hvalid : data.isValid result.stateId with
  | false => exact .inr ⟨rfl, rfl⟩
  | true =>
    cases hmsg : result.msg with
    | tx simulatedTx =>
      cases simulatedTx with
      | ok tx => exact .inl ⟨tx, rfl, rfl, depositsOrOrders_eq seq _ _⟩
      | error => exact .inr ⟨rfl, rfl⟩
    | txPoolTopOfFrag => exact .inr ⟨rfl, rfl⟩

/-! ## Requests and answers -/

/-- A message answers a request: it is the result of a simulation of its kind on its state. -/
def Answers (request : SequencerToSimulator) (msg : SimulatorToSequencer) : Prop :=
  msg.stateId = request.stateId ∧ ∃ result, msg.msg = .tx result

/-- A request is sent before the first message, or after a message that is taken as the
successful result of the one before it. -/
inductive Issued (l : Loop S) (msgs : ℕ → SimulatorToSequencer) : ℕ → SequencerToSimulator → Prop
  | first {request : SequencerToSimulator} (h : l.request = some request) : Issued l msgs 0 request
  | next {n : ℕ} {previous request : SequencerToSimulator} {tx : SimulatedTx}
      (hwaits : (stateAfter crates l msgs n).request = some previous)
      (hanswer : (msgs n).stateId = previous.stateId) (hok : (msgs n).msg = .tx (.ok tx))
      (h : (stateAfter crates l msgs (n + 1)).request = some request) :
      Issued l msgs (n + 1) request

/-- Every request is answered exactly once after it was sent. -/
def AnsweredOnce (l : Loop S) (msgs : ℕ → SimulatorToSequencer) : Prop :=
  ∀ k request, Issued crates l msgs k request →
    ∃ n, k ≤ n ∧ Answers request (msgs n) ∧ ∀ m, k ≤ m → Answers request (msgs m) → m = n

/-- The loop has returned with an empty queue. -/
def Returned (l : Loop S) : Prop := l.request = none ∧ l.ctx.deposits = []

/-- Every request is answered with success. -/
def AllSucceed (l : Loop S) (msgs : ℕ → SimulatorToSequencer) : Prop :=
  ∀ k request, Issued crates l msgs k request → ∀ n, k ≤ n → Answers request (msgs n) →
    ∃ tx, (msgs n).msg = .tx (.ok tx)

variable {crates} {l : Loop S} {msgs : ℕ → SimulatorToSequencer}

/-- What holds of every state of the loop: a request is for the state that is sorted,
and without one the queue is empty. -/
def Sound (l : Loop S) : Prop :=
  match l.request with
  | none => l.ctx.deposits = []
  | some request => request.stateId = l.data.db.stateId

/-- The loop starts sound. -/
theorem sound_handleDeposits (data : SortingData) (ctx : SequencerContext S) :
    Sound (handleDeposits data ctx) := by
  unfold handleDeposits
  split
  · assumption
  · rfl

/-- A message keeps it sound. -/
theorem sound_receive (h : Sound l) (result : SimulatorToSequencer) :
    Sound (receive crates l result) := by
  unfold receive
  split
  · exact h
  · split
    · exact h
    · split
      · exact sound_handleDeposits _ _
      · exact h

/-- All messages keep it sound. -/
theorem sound_stateAfter (h : Sound l) (n : ℕ) : Sound (stateAfter crates l msgs n) := by
  induction n with
  | zero => exact h
  | succ n ih => exact sound_receive ih (msgs n)

variable {request : SequencerToSimulator} {k : ℕ} {outcome : Except SimulationError SimulatedTx}
  {result : SimulatorToSequencer} {n m : ℕ}

/-- A message that is no successful answer leaves the loop as it is. -/
theorem receive_eq_self (hsound : Sound l) (hwaits : l.request = some request)
    (h : Answers request result → ∀ tx, result.msg ≠ .tx (.ok tx)) :
    receive crates l result = l := by
  have hid : request.stateId = l.data.db.stateId := by
    rw [Sound, hwaits] at hsound
    exact hsound
  unfold receive
  rw [hwaits]
  dsimp only
  split
  · rfl
  · rename_i hvalid
    split
    · rename_i tx hmsg
      refine absurd hmsg (h ⟨?_, _, hmsg⟩ tx)
      rw [hid]
      simpa [SortingData.isValid] using hvalid
    · rfl

/-- A successful answer is applied, and the next deposit is sent. -/
theorem receive_of_ok {tx : SimulatedTx} (hsound : Sound l) (hwaits : l.request = some request)
    (hid : result.stateId = request.stateId) (hok : result.msg = .tx (.ok tx)) :
    receive crates l result =
      handleDeposits (l.data.applyTx crates tx l.ctx).1 (l.data.applyTx crates tx l.ctx).2 := by
  rw [Sound, hwaits] at hsound
  dsimp only at hsound
  have hvalid : l.data.isValid result.stateId = true := by
    simp [SortingData.isValid, hid, hsound]
  unfold receive
  rw [hwaits]
  simp [hvalid, hok]

/-- The loop waits on while no successful answer comes. -/
theorem stateAfter_eq_of_unanswered (hsound : Sound l)
    (hwaits : (stateAfter crates l msgs k).request = some request) (hle : k ≤ n)
    (h : ∀ m, k ≤ m → m < n → Answers request (msgs m) → ∀ tx, (msgs m).msg ≠ .tx (.ok tx)) :
    stateAfter crates l msgs n = stateAfter crates l msgs k := by
  induction n, hle using Nat.le_induction with
  | base => rfl
  | succ n hle ih =>
    have hsame := ih fun m hm hlt => h m hm (by omega)
    rw [stateAfter, hsame]
    exact receive_eq_self (sound_stateAfter hsound k) hwaits (h n hle (by omega))

/-- An issued request is waited for. -/
theorem issued_waits (h : Issued crates l msgs k request) :
    (stateAfter crates l msgs k).request = some request := by
  cases h with
  | first h => exact h
  | next hwaits hanswer hok h => exact h

/-- The state after the successful answer to a request. -/
theorem stateAfter_of_answer (hsound : Sound l) (hissued : Issued crates l msgs k request)
    (honce : AnsweredOnce crates l msgs) (hsucceed : AllSucceed crates l msgs) :
    ∃ n tx, (stateAfter crates l msgs n).request = some request ∧
      (msgs n).stateId = request.stateId ∧ (msgs n).msg = .tx (.ok tx) ∧
      stateAfter crates l msgs (n + 1) =
        handleDeposits ((stateAfter crates l msgs k).data.applyTx crates tx
            (stateAfter crates l msgs k).ctx).1
          ((stateAfter crates l msgs k).data.applyTx crates tx
            (stateAfter crates l msgs k).ctx).2 := by
  have hwaits := issued_waits hissued
  obtain ⟨n, hle, hanswer, honly⟩ := honce k request hissued
  obtain ⟨tx, hok⟩ := hsucceed k request hissued n hle hanswer
  have hsame : stateAfter crates l msgs n = stateAfter crates l msgs k := by
    apply stateAfter_eq_of_unanswered hsound hwaits hle
    intro m hkm hmn hm
    exact absurd (honly m hkm hm) (by omega)
  refine ⟨n, tx, by rw [hsame]; exact hwaits, hanswer.1, hok, ?_⟩
  rw [stateAfter, hsame]
  exact receive_of_ok (sound_stateAfter hsound k) hwaits hanswer.1 hok

/-- A loop whose requests are all answered with success returns: every answer
takes one deposit off the queue. -/
theorem returns_of_allSucceed (hsound : Sound l) (honce : AnsweredOnce crates l msgs)
    (hsucceed : AllSucceed crates l msgs) (hissued : Issued crates l msgs k request) :
    ∃ n, (stateAfter crates l msgs n).request = none := by
  induction hq : (stateAfter crates l msgs k).ctx.deposits generalizing k request with
  | nil =>
    obtain ⟨n, tx, -, -, -, hnext⟩ := stateAfter_of_answer hsound hissued honce hsucceed
    refine ⟨n + 1, ?_⟩
    rw [hnext, handleDeposits]
    simp [SortingData.applyTx, hq]
  | cons deposit rest ih =>
    obtain ⟨n, tx, hwaits, hid, hok, hnext⟩ :=
      stateAfter_of_answer hsound hissued honce hsucceed
    have hhead : stateAfter crates l msgs (n + 1) =
        { data := ((stateAfter crates l msgs k).data.applyTx crates tx
              (stateAfter crates l msgs k).ctx).1
          ctx := { ((stateAfter crates l msgs k).data.applyTx crates tx
              (stateAfter crates l msgs k).ctx).2 with deposits := rest }
          request := some (((stateAfter crates l msgs k).data.applyTx crates tx
              (stateAfter crates l msgs k).ctx).1.request deposit) } := by
      rw [hnext, handleDeposits]
      simp [SortingData.applyTx, hq]
    exact ih (.next hwaits hid hok (by rw [hhead])) (by rw [hhead])

/-- A request that is answered with an error is waited for without end. -/
theorem waits_of_error (hsound : Sound l) (hissued : Issued crates l msgs k request)
    (honly : ∀ m, k ≤ m → Answers request (msgs m) → m = n)
    (herror : ∀ tx, (msgs n).msg ≠ .tx (.ok tx)) (hle : k ≤ m) :
    (stateAfter crates l msgs m).request = some request := by
  have hwaits := issued_waits hissued
  rw [stateAfter_eq_of_unanswered hsound hwaits hle, hwaits]
  intro j hkj _ hj
  rw [honly j hkj hj]
  exact herror

/-- A loop that has returned stays so. -/
theorem request_none_mono (h : (stateAfter crates l msgs n).request = none) (hle : n ≤ m) :
    (stateAfter crates l msgs m).request = none := by
  induction m, hle using Nat.le_induction with
  | base => exact h
  | succ m _ ih =>
    rw [stateAfter, receive]
    split
    · assumption
    · rename_i hsome
      rw [ih] at hsome
      cases hsome

/-! ## When it terminates -/

/-- If every request is answered exactly once, the loop over the deposits
returns with an empty queue if and only if all of them are answered with success.
SRCLINE: sorting_data.rs:195-229 -/
theorem returns_iff_allSucceed (data : SortingData) (ctx : SequencerContext S)
    (honce : AnsweredOnce crates (handleDeposits data ctx) msgs) :
    (∃ n, Returned (stateAfter crates (handleDeposits data ctx) msgs n)) ↔
      AllSucceed crates (handleDeposits data ctx) msgs := by
  have hsound := sound_handleDeposits data ctx
  constructor
  · rintro ⟨n, hreturned, -⟩ k request hissued m hkm hanswer
    by_contra herror
    obtain ⟨m', -, -, honly⟩ := honce k request hissued
    obtain rfl := honly m hkm hanswer
    have hwaits := waits_of_error hsound hissued honly (fun tx htx => herror ⟨tx, htx⟩)
      (Nat.le_max_left k n)
    rw [request_none_mono hreturned (Nat.le_max_right k n)] at hwaits
    cases hwaits
  · intro hsucceed
    have hreturns : ∃ n, (stateAfter crates (handleDeposits data ctx) msgs n).request = none := by
      cases hrequest : (handleDeposits data ctx).request with
      | none => exact ⟨0, hrequest⟩
      | some => exact returns_of_allSucceed hsound honce hsucceed (.first hrequest)
    obtain ⟨n, hn⟩ := hreturns
    have hqueue : Sound (stateAfter crates (handleDeposits data ctx) msgs n) :=
      sound_stateAfter hsound n
    rw [Sound, hn] at hqueue
    exact ⟨n, hn, hqueue⟩

/-! ## One deposit -/

def oneDeposit : Transaction := plainRawTx [0x7e]

/-- A frag that was just begun. -/
def begun : SortingData × SequencerContext ℕ :=
  SortingData.new plainCrates (.new 30000000 1 101)
    (Sequencer.newContext plainCrates (plainSequencerConfig false) plainDB) 0

/-- The loop over a queue of one deposit. -/
abbrev oneDepositLoop : Loop ℕ :=
  handleDeposits begun.1 { begun.2 with deposits := [oneDeposit] }

/-- The answer to the request for it, then results of no state of the loop. -/
def answeredWith (outcome : Except SimulationError SimulatedTx) : ℕ → SimulatorToSequencer
  | 0 => { plainResult oneDeposit 2 with msg := .tx outcome }
  | _ + 1 => plainResult oneDeposit 0

def succeeded : Except SimulationError SimulatedTx :=
  .ok
    { tx := oneDeposit
      resultAndState := { result := .success 21000 [], state := [] }
      payment := 0
      depositNonce := none }

/-- The first message is the answer. -/
theorem answeredWith_answers (hrequest : oneDepositLoop.request = some request) :
    Answers request (answeredWith outcome m) ↔ m = 0 := by
  obtain rfl := Option.some.inj hrequest
  constructor
  · rintro ⟨hid, -⟩
    cases m with
    | zero => rfl
    | succ =>
      have hne : (plainResult oneDeposit 0).stateId ≠ (begun.1.request oneDeposit).stateId := by
        decide
      exact absurd hid hne
  · rintro rfl
    exact ⟨rfl, outcome, rfl⟩

/-- Only the first request is ever sent, when the state after the answer is one
that does not send another. -/
theorem issued_answeredWith (hrest : ∀ n previous tx,
      (stateAfter plainCrates oneDepositLoop (answeredWith outcome) n).request = some previous →
      (answeredWith outcome n).stateId = previous.stateId →
      (answeredWith outcome n).msg = .tx (.ok tx) →
      (stateAfter plainCrates oneDepositLoop (answeredWith outcome) (n + 1)).request = none)
    (h : Issued plainCrates oneDepositLoop (answeredWith outcome) k request) :
    k = 0 ∧ oneDepositLoop.request = some request := by
  cases h with
  | first h => exact ⟨rfl, h⟩
  | next hwaits hanswer hok h =>
    rw [hrest _ _ _ hwaits hanswer hok] at h
    cases h

/-- A single request is answered once. -/
theorem answeredOnce_of_issued
    (h : ∀ k request, Issued plainCrates oneDepositLoop (answeredWith outcome) k request →
      k = 0 ∧ oneDepositLoop.request = some request) :
    AnsweredOnce plainCrates oneDepositLoop (answeredWith outcome) := by
  intro k request hissued
  obtain ⟨rfl, hrequest⟩ := h k request hissued
  exact ⟨0, le_rfl, (answeredWith_answers hrequest).mpr rfl,
    fun m _ hm => (answeredWith_answers hrequest).mp hm⟩

/-- After a success no request follows. -/
theorem issued_succeeded
    (h : Issued plainCrates oneDepositLoop (answeredWith succeeded) k request) :
    k = 0 ∧ oneDepositLoop.request = some request := by
  refine issued_answeredWith (fun n _ _ _ _ _ => ?_) h
  have hone : (stateAfter plainCrates oneDepositLoop (answeredWith succeeded) 1).request = none :=
    rfl
  exact request_none_mono hone (by omega)

/-- An error changes nothing. -/
theorem stateAfter_error (err : SimulationError) (n : ℕ) :
    stateAfter plainCrates oneDepositLoop (answeredWith (.error err)) n = oneDepositLoop := by
  induction n with
  | zero => rfl
  | succ n ih =>
    rw [stateAfter, ih]
    cases n with
    | zero => rfl
    | succ => rfl

/-- After an error no request follows. -/
theorem issued_error {err : SimulationError}
    (h : Issued plainCrates oneDepositLoop (answeredWith (.error err)) k request) :
    k = 0 ∧ oneDepositLoop.request = some request := by
  refine issued_answeredWith (fun n previous tx hwaits hid hok => ?_) h
  rw [stateAfter_error] at hwaits
  have hzero := (answeredWith_answers hwaits).mp ⟨hid, _, hok⟩
  subst hzero
  cases hok

/-- One deposit that succeeds. -/
theorem returns_iff_allSucceed_oneDeposit :
    AnsweredOnce plainCrates oneDepositLoop (answeredWith succeeded) ∧
      ∃ n, Returned (stateAfter plainCrates oneDepositLoop (answeredWith succeeded) n) := by
  have honce : AnsweredOnce plainCrates oneDepositLoop (answeredWith succeeded) :=
    answeredOnce_of_issued fun _ _ => issued_succeeded
  refine ⟨honce, (returns_iff_allSucceed begun.1 _ honce).mpr ?_⟩
  intro k request hissued n _ hanswer
  obtain ⟨-, hrequest⟩ := issued_succeeded hissued
  obtain rfl := (answeredWith_answers hrequest).mp hanswer
  exact ⟨_, rfl⟩

/-- A deposit that claims to be a system transaction is rejected by the execution. -/
def rejected : Except SimulationError SimulatedTx :=
  .error (.evmError "DepositSystemTxPostRegolith")

/-- A deposit whose simulation fails is answered once, and the loop never returns. -/
theorem not_returns_failedDeposit :
    AnsweredOnce plainCrates oneDepositLoop (answeredWith rejected) ∧
      ¬ ∃ n, Returned
        (stateAfter plainCrates oneDepositLoop (answeredWith rejected) n) := by
  refine ⟨answeredOnce_of_issued fun _ _ => issued_error, ?_⟩
  rintro ⟨n, hreturned, -⟩
  rw [rejected, stateAfter_error] at hreturned
  cases hreturned

end BasedOp.Analysis.DepositLoop
