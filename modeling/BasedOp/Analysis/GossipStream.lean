import Mathlib.Data.List.Forall2
import BasedOp.Computation.Runs
import BasedOp.Analysis.SequencerFrames

/-!
# The gossip stream of the gateway

What the gateway tells its peers is a sequence of block groups: the environment of a
block, its frags in order, and its seal, after which the payload is handed out. Only the
last group may be unfinished. The invariant relates what was sent of the open group to
the sequence of frags that the sequencer keeps (`OpenBlock`); a step either is silent,
opens a group, adds a frag to it or closes it.
-/

set_option autoImplicit false

namespace BasedOp.Analysis.GossipStream

open BasedOp.Computation Model Model.Gateway
open SequencerSteps SequencerFrames

/-! ## The stream -/

/-- The messages to the peers, in order. -/
def messages (sent : List Output) : List VersionedMessage :=
  sent.filterMap fun
    | .gossip msg => some msg
    | _ => none

/-- The payloads that were handed out, in order. -/
def payloads (sent : List Output) : List OpExecutionPayloadEnvelope :=
  sent.filterMap fun
    | .payload envelope => some envelope
    | _ => none

variable {sent : List Output} {envelope : OpExecutionPayloadEnvelope} {seq : FragSequence}
  {env : EnvV0} {frags : List FragV0} {data data' : SortingData} {now : ℕ}
  {unfinished : List VersionedMessage} {e : Event}

/-- Payloads were sent. -/
theorem mem_of_mem_payloads (h : envelope ∈ payloads sent) : .payload envelope ∈ sent := by
  obtain ⟨output, houtput, heq⟩ := List.mem_filterMap.mp h
  split at heq
  · cases heq
    exact houtput
  · cases heq

/-- The one payload, by its image. -/
theorem exists_payload_of_map {α : Type} {f : OpExecutionPayloadEnvelope → α} {a : α}
    (h : (payloads sent).map f = [a]) :
    ∃ envelope, .payload envelope ∈ sent ∧ f envelope = a := by
  obtain ⟨envelope, henvelope, ha⟩ := List.map_eq_singleton_iff.mp h
  exact ⟨envelope, mem_of_mem_payloads (by rw [henvelope]; exact List.mem_singleton_self _), ha⟩

/-- What is published of one block. -/
structure BlockGroup where
  env : EnvV0
  frags : List FragV0
  sl : SealV0
  envelope : OpExecutionPayloadEnvelope

def BlockGroup.messages (g : BlockGroup) : List VersionedMessage :=
  .envV0 g.env :: (g.frags.map .fragV0 ++ [.sealV0 g.sl])

/-- The frags of a block are numbered from zero; numbers are words. -/
def Numbered (number : UInt64) (frags : List FragV0) : Prop :=
  ∀ i frag, frags[i]? = some frag → frag.blockNumber = number ∧ frag.seq = UInt64.ofNat i

/-- A finished group, with the transactions of its block. -/
structure BlockGroup.WellFormed (g : BlockGroup) (txs : List SimulatedTx) : Prop where
  numbered : Numbered g.env.number g.frags
  last : ∀ i frag, g.frags[i]? = some frag → (frag.isLast = true ↔ i + 1 = g.frags.length)
  nonempty : g.frags ≠ []
  sealNumber : g.sl.blockNumber = g.env.number
  totalFrags : g.sl.totalFrags = UInt64.ofNat g.frags.length
  fragTxs : g.frags.flatMap FragV0.txs = g.envelope.executionPayload.transactions
  payloadTxs : g.envelope.executionPayload.transactions = txs.map fun t => t.tx.encode
  gasUsed : g.sl.gasUsed = sumGasUsed txs

/-- An unfinished group: nothing, or an environment with the first frags of its block. -/
def Unfinished (msgs : List VersionedMessage) : Prop :=
  msgs = [] ∨ ∃ env frags, msgs = .envV0 env :: frags.map .fragV0 ∧ Numbered env.number frags ∧
    ∀ frag ∈ frags, frag.isLast = false

variable {seq' : FragSequence}

section

variable {S : Type} (crates : Crates S)

/-- The transactions of the block that is being built. -/
def blockTxs (s : Sequencer S) : List SimulatedTx :=
  match s.state with
  | .sorting seq data => seq.txs ++ data.txs
  | _ => []

/-- At a step that hands a payload out, the transactions of the block that was being built. -/
def sealedTxs (p : Process S) (e : Event) : Option (List SimulatedTx) :=
  p.sequencer.bind fun s =>
    if payloads (s.handle crates e).sent = [] then none else some (blockTxs s)

/-- The transactions of the frag that is being sorted. -/
def sortedTxs : SequencerState → List SimulatedTx
  | .sorting _ data => data.txs
  | _ => []

/-- The frag that is being sorted is within the limits of the lists of its message. -/
def FragFits (p : Process S) : Prop :=
  ∀ s ∈ p.sequencer, (sortedTxs s.state).length ≤ maxTransactionsPerPayload ∧
    ∀ t ∈ sortedTxs s.state, t.tx.encode.length ≤ maxBytesPerTransaction

instance (p : Process S) : Decidable (FragFits p) :=
  inferInstanceAs (Decidable (∀ s ∈ p.sequencer,
    (sortedTxs s.state).length ≤ maxTransactionsPerPayload ∧
      ∀ t ∈ sortedTxs s.state, t.tx.encode.length ≤ maxBytesPerTransaction))

/-! ## The open group -/

/-- What was sent of the block that is being built. -/
structure OpenBlock (ctx : SequencerContext S) (seq : FragSequence) (env : EnvV0)
    (frags : List FragV0) : Prop where
  env_eq : ∃ extraData root, ctx.extraData crates = some extraData ∧
    ctx.payloadAttributes.parentBeaconBlockRoot = some root ∧
    env = .new ctx.blockEnv ctx.parentHash extraData root
  difficulty : ctx.blockEnv.difficulty = 0
  blockNumber : seq.blockNumber = ctx.blockEnv.number
  numbered : Numbered ctx.blockEnv.number frags
  notLast : ∀ frag ∈ frags, frag.isLast = false
  nextSeq : seq.nextSeq = UInt64.ofNat frags.length
  txs : frags.flatMap FragV0.txs = seq.txs.map fun t => t.tx.encode
  gasUsed : seq.gasUsed = sumGasUsed seq.txs

/-- The unfinished group of a sequencer. -/
def Open (s : Sequencer S) (unfinished : List VersionedMessage) : Prop :=
  match s.state with
  | .sorting seq _ => ∃ env frags, unfinished = .envV0 env :: frags.map .fragV0 ∧
      OpenBlock crates s.ctx seq env frags
  | _ => unfinished = []

variable {crates} {ctx ctx' : SequencerContext S}

/-- The pool does not matter to an open block. -/
theorem OpenBlock.of_same (h : OpenBlock crates ctx seq env frags) (hsame : SameBlock ctx ctx') :
    OpenBlock crates ctx' seq env frags := by
  obtain ⟨extraData, root, hextra, hroot, henv⟩ := h.env_eq
  refine ⟨⟨extraData, root, ?_, ?_, ?_⟩, ?_, ?_, ?_, h.notLast, h.nextSeq, h.txs, h.gasUsed⟩
  · rw [hsame.extraData_eq, hextra]
  · rw [hsame.payloadAttributes, hroot]
  · rw [hsame.blockEnv, hsame.parentHash, henv]
  · rw [hsame.blockEnv, h.difficulty]
  · rw [hsame.blockEnv, h.blockNumber]
  · rw [hsame.blockEnv]
    exact h.numbered

/-- The next frag has the next number. -/
theorem numbered_append {number : UInt64} {frag : FragV0} (h : Numbered number frags)
    (hnumber : frag.blockNumber = number) (hseq : frag.seq = UInt64.ofNat frags.length) :
    Numbered number (frags ++ [frag]) := by
  intro i f hf
  by_cases hi : i < frags.length
  · rw [List.getElem?_append_left hi] at hf
    exact h i f hf
  · rw [List.getElem?_append_right (by omega)] at hf
    obtain ⟨hi', rfl⟩ : i - frags.length = 0 ∧ frag = f := by
      rw [List.getElem?_singleton] at hf
      split at hf
      · exact ⟨by assumption, Option.some.inj hf⟩
      · cases hf
    have : i = frags.length := by omega
    exact ⟨hnumber, this ▸ hseq⟩

/-- No frags are numbered. -/
theorem numbered_nil (number : UInt64) : Numbered number [] := by
  intro i frag h
  simp at h

/-- Within the limits of the lists, a frag carries the encodings of its transactions whole. -/
theorem txs_fragV0_new {number seq : UInt64} {isLast : Bool} {txs : List SimulatedTx}
    (hlength : txs.length ≤ maxTransactionsPerPayload)
    (hbytes : ∀ t ∈ txs, t.tx.encode.length ≤ maxBytesPerTransaction) :
    (FragV0.new number seq (txs.map SimulatedTx.tx) isLast).txs = txs.map fun t => t.tx.encode := by
  unfold FragV0.new variableList
  dsimp only
  rw [List.take_of_length_le (by simpa using hlength), List.map_map]
  apply List.map_congr_left
  intro t ht
  exact List.take_of_length_le (hbytes t ht)

/-- A cut frag joins the open group. -/
theorem OpenBlock.cut {msg : FragV0} (h : OpenBlock crates ctx seq env frags)
    (hcut : Cuts crates ctx data seq now msg data' seq' ctx')
    (hlength : data.txs.length ≤ maxTransactionsPerPayload)
    (hbytes : ∀ t ∈ data.txs, t.tx.encode.length ≤ maxBytesPerTransaction) :
    OpenBlock crates ctx' seq' env (frags ++ [msg]) := by
  obtain ⟨henv, hdifficulty, hnumber, hnumbered, hnotLast, hnext, htxs, hgas⟩ :=
    h.of_same hcut.same
  rw [hcut.seq_eq]
  refine ⟨henv, hdifficulty, hnumber, ?_, ?_, ?_, ?_, ?_⟩
  · apply numbered_append hnumbered
    · rw [hcut.msg_eq]
      exact hnumber
    · rw [hcut.msg_eq]
      exact hnext
  · intro frag hfrag
    rcases List.mem_append.mp hfrag with hold | hnew
    · exact hnotLast frag hold
    · rw [List.mem_singleton.mp hnew, hcut.msg_eq]
      rfl
  · show seq.nextSeq + 1 = _
    rw [hnext, List.length_append, UInt64.ofNat_add]
    rfl
  · rw [List.flatMap_append, htxs, List.flatMap_singleton, hcut.msg_eq,
      txs_fragV0_new hlength hbytes]
    simp [cutSeq, DBFrag.takeState]
  · show seq.gasUsed + _ = _
    rw [hgas, cutSeq, sumGasUsed_append, sumGasUsed_map_takeState]

/-- The last frag and the seal close the open group. -/
theorem OpenBlock.wellFormed {ctx₁ : SequencerContext S} {msg : FragV0} {sl : SealV0}
    (h : OpenBlock crates ctx seq env frags)
    (hcut : Cuts crates ctx data seq now msg data' seq' ctx₁)
    (hsealed : SealedFrom crates ctx₁ seq' sl envelope ctx')
    (hlength : data.txs.length ≤ maxTransactionsPerPayload)
    (hbytes : ∀ t ∈ data.txs, t.tx.encode.length ≤ maxBytesPerTransaction) :
    BlockGroup.WellFormed ⟨env, frags ++ [{ msg with isLast := true }], sl, envelope⟩
      (seq.txs ++ data.txs) := by
  have hopen := h.cut hcut hlength hbytes
  obtain ⟨extraData, root, -, -, henv⟩ := hopen.env_eq
  have hnumber : env.number = ctx₁.blockEnv.number := by rw [henv]; rfl
  have htransactions : envelope.executionPayload.transactions =
      (seq.txs ++ data.txs).map fun t => t.tx.encode := by
    rw [hsealed.transactions, hcut.seq_eq]
    simp [cutSeq, DBFrag.takeState]
  have hmark : (frags ++ [{ msg with isLast := true }]).flatMap FragV0.txs =
      (frags ++ [msg]).flatMap FragV0.txs := by
    simp only [List.flatMap_append, List.flatMap_singleton]
  refine ⟨?_, ?_, by simp, ?_, ?_, ?_, htransactions, ?_⟩
  · have hlast := hopen.numbered frags.length msg (by simp)
    have hfirst : Numbered ctx₁.blockEnv.number frags := (h.of_same hcut.same).numbered
    show Numbered env.number _
    rw [hnumber]
    exact numbered_append hfirst hlast.1 hlast.2
  · intro i frag hfrag
    by_cases hi : i < frags.length
    · rw [List.getElem?_append_left hi] at hfrag
      have hno := h.notLast frag (List.mem_of_getElem? hfrag)
      simp only [hno, Bool.false_eq_true, List.length_append, List.length_singleton, false_iff]
      omega
    · rw [List.getElem?_append_right (by omega)] at hfrag
      rw [List.getElem?_singleton] at hfrag
      split at hfrag
      · obtain rfl := Option.some.inj hfrag
        simp only [List.length_append, List.length_singleton, true_iff]
        omega
      · cases hfrag
  · rw [hsealed.blockNumber, hnumber]
  · rw [hsealed.totalFrags, hopen.nextSeq]
    simp
  · show (frags ++ [{ msg with isLast := true }]).flatMap FragV0.txs = _
    rw [hmark, hopen.txs, hsealed.transactions]
  · rw [hsealed.gasUsed, hopen.gasUsed, hcut.seq_eq, cutSeq, sumGasUsed_append,
      sumGasUsed_map_takeState, ← sumGasUsed_append]

/-! ## Steps -/

/-- Messages of two outputs. -/
theorem messages_append (xs ys : List Output) : messages (xs ++ ys) = messages xs ++ messages ys :=
  List.filterMap_append

/-- Payloads of two outputs. -/
theorem payloads_append (xs ys : List Output) : payloads (xs ++ ys) = payloads xs ++ payloads ys :=
  List.filterMap_append

/-- Simulations are no messages. -/
@[simp] theorem messages_simulate (requests : List SequencerToSimulator) :
    messages (requests.map .simulate) = [] := by
  induction requests with
  | nil => rfl
  | cons r rs ih => exact ih

/-- Simulations are no payloads. -/
@[simp] theorem payloads_simulate (requests : List SequencerToSimulator) :
    payloads (requests.map .simulate) = [] := by
  induction requests with
  | nil => rfl
  | cons r rs ih => exact ih

/-- Nothing is open unless sorting. -/
theorem open_iff {s : Sequencer S} (hstate : ∀ seq data, s.state ≠ .sorting seq data) :
    Open crates s unfinished ↔ unfinished = [] := by
  unfold Open
  split
  · rename_i hsorting
    exact absurd hsorting (hstate _ _)
  · exact Iff.rfl

/-- While sorting, an env and frags are open. -/
theorem open_sorting {s : Sequencer S} (hstate : s.state = .sorting seq data) :
    Open crates s unfinished ↔ ∃ env frags, unfinished = .envV0 env :: frags.map .fragV0 ∧
      OpenBlock crates s.ctx seq env frags := by
  unfold Open
  rw [hstate]

/-- What is open is an unfinished group. -/
theorem unfinished_of_open {s : Sequencer S} (h : Open crates s unfinished) :
    Unfinished unfinished := by
  cases hstate : s.state with
  | sorting =>
    obtain ⟨env, frags, hmsgs, hopen⟩ := (open_sorting hstate).mp h
    obtain ⟨extraData, root, -, -, henv⟩ := hopen.env_eq
    exact .inr ⟨env, frags, hmsgs, by rw [henv]; exact hopen.numbered, hopen.notLast⟩
  | _ => exact .inl ((open_iff (by simp [hstate])).mp h)

variable (crates) in
/-- A step leaves the group open, with what it adds to it, or closes it. -/
def Adds (s : Sequencer S) (unfinished : List VersionedMessage) (sent : List Output)
    (next : Option (Sequencer S)) : Prop :=
  (payloads sent = [] ∧ Unfinished (unfinished ++ messages sent) ∧
    ∀ s' ∈ next, Open crates s' (unfinished ++ messages sent)) ∨
  ∃ g : BlockGroup, unfinished ++ messages sent = g.messages ∧ payloads sent = [g.envelope] ∧
    g.WellFormed (blockTxs s) ∧ ∀ s' ∈ next, Open crates s' []

variable {s s' : Sequencer S} {unfinished : List VersionedMessage}

/-- Output without a payload adds to the open group. -/
theorem adds_of_open (hpayloads : payloads sent = [])
    (hopen : Open crates s' (unfinished ++ messages sent)) :
    Adds crates s unfinished sent (some s') := by
  refine .inl ⟨hpayloads, unfinished_of_open hopen, ?_⟩
  rintro _ ⟨⟩
  exact hopen

/-- A step that sends neither messages nor payloads, out of a state without an
open group into another one. -/
theorem adds_silent (hmessages : messages sent = []) (hpayloads : payloads sent = [])
    (hopen : Open crates s unfinished) (hstate : ∀ seq data, s.state ≠ .sorting seq data)
    (hstate' : ∀ seq data, s'.state ≠ .sorting seq data) :
    Adds crates s unfinished sent (some s') := by
  obtain rfl := (open_iff hstate).mp hopen
  apply adds_of_open hpayloads
  rw [hmessages]
  exact (open_iff hstate').mpr rfl

/-- A step within a block that only asks for simulations. -/
theorem adds_sorting (requests : List SequencerToSimulator) (hopen : Open crates s unfinished)
    (hstate : s.state = .sorting seq data) (hstate' : s'.state = .sorting seq data')
    (hsame : SameBlock s.ctx s'.ctx) :
    Adds crates s unfinished (requests.map .simulate) (some s') := by
  obtain ⟨env, frags, hmsgs, hblock⟩ := (open_sorting hstate).mp hopen
  apply adds_of_open (payloads_simulate requests)
  rw [messages_simulate, List.append_nil]
  exact (open_sorting hstate').mpr ⟨env, frags, hmsgs, hblock.of_same hsame⟩

/-- What arrives in any state leaves the open group alone. -/
theorem adds_arrival (requests : List SequencerToSimulator) (hopen : Open crates s unfinished)
    (hstate : s'.state = s.state ∨ ∃ tx, s'.state = addOrder tx s.state)
    (hsame : SameBlock s.ctx s'.ctx) :
    Adds crates s unfinished (requests.map .simulate) (some s') := by
  cases hs : s.state with
  | sorting =>
    rw [hs] at hstate
    obtain hkept | ⟨tx, hadded⟩ := hstate
    · exact adds_sorting requests hopen hs hkept hsame
    · exact adds_sorting requests hopen hs hadded hsame
  | _ =>
    refine adds_silent (messages_simulate requests) (payloads_simulate requests) hopen
      (by simp [hs]) ?_
    rw [hs] at hstate
    obtain hkept | ⟨tx, hadded⟩ := hstate
    · simp [hkept]
    · simp [hadded, addOrder]

/-- The seal closes the open group. -/
theorem adds_seals {frag : FragV0} {sl : SealV0} {next : Option (Sequencer S)}
    (hopen : Open crates s unfinished) (hseals : Seals crates s now seq data frag sl envelope ctx)
    (hfits : data.txs.length ≤ maxTransactionsPerPayload ∧
      ∀ t ∈ data.txs, t.tx.encode.length ≤ maxBytesPerTransaction)
    (hnext : ∀ s' ∈ next, ∀ seq data, s'.state ≠ .sorting seq data) :
    Adds crates s unfinished [.gossip (.fragV0 frag), .gossip (.sealV0 sl), .payload envelope]
      next := by
  obtain ⟨seq', ctx₁, hlast, hsealed⟩ := hseals.hsealed
  obtain ⟨msg, data', rfl, hcut⟩ := cuts_of_sealLastFrag hlast
  obtain ⟨env, frags, rfl, hblock⟩ := (open_sorting hseals.hstate).mp hopen
  have hwell := hblock.wellFormed hcut (sealedFrom_of_sealBlock hsealed) hfits.1 hfits.2
  refine .inr ⟨⟨env, frags ++ [{ msg with isLast := true }], sl, envelope⟩, ?_, rfl, ?_,
    fun s' hs' => (open_iff (hnext s' hs')).mpr rfl⟩
  · simp [messages, BlockGroup.messages]
  · rw [blockTxs, hseals.hstate]
    exact hwell

/-- What a step adds to the stream. -/
theorem adds_of_step (hstep : Step crates s e sent s')
    (hfits : ∀ seq data, s.state = .sorting seq data →
      data.txs.length ≤ maxTransactionsPerPayload ∧
        ∀ t ∈ data.txs, t.tx.encode.length ≤ maxBytesPerTransaction)
    (hopen : Open crates s unfinished) : Adds crates s unfinished sent (some s') := by
  cases hstep with
  | ignored => exact adds_of_open rfl (by simpa [messages] using hopen)
  | fetch payload hashes root now hstate =>
    exact adds_silent rfl rfl hopen hstate (by simp)
  | known payload hashes root now hstate =>
    exact adds_silent rfl rfl hopen (ne_sorting_of_awaits hstate) (by simp)
  | @newPayload payload hashes root now block ctx fetch hstate hahead hhead hblock hcommit =>
    exact adds_silent (by cases fetch <;> rfl) (by cases fetch <;> rfl) hopen
      (ne_sorting_of_awaits hstate) (state_fetch_ne_sorting fetch)
  | noAttributes now hstate =>
    exact adds_silent rfl rfl hopen (ne_sorting_of_awaits hstate) (by simp)
  | start attributes now hstate hparent hparams hstart hextra hroot =>
    obtain rfl := (open_iff (ne_sorting_of_awaits hstate)).mp hopen
    have hstarts := starts_of_startWith hstart
    apply adds_of_open rfl
    refine (open_sorting rfl).mpr ⟨_, [], rfl, ⟨⟨_, _, hextra, hroot, rfl⟩, ?_, ?_, numbered_nil _,
      by simp, ?_, ?_, ?_⟩⟩
    · rw [hstarts.same.blockEnv]
      exact difficulty_of_newBlockParams hparams
    · rw [hstarts.seq_eq, hstarts.same.blockEnv]
      rfl
    all_goals
      rw [hstarts.seq_eq]
      rfl
  | sealed now hseals =>
    apply adds_seals hopen hseals (hfits _ _ hseals.hstate)
    rintro _ ⟨⟩
    simp
  | committed now hseals =>
    apply adds_seals hopen hseals (hfits _ _ hseals.hstate)
    rintro _ ⟨⟩
    simp
  | @synced block last ctx fetch hstate hcommit =>
    exact adds_silent (by cases fetch <;> rfl) (by cases fetch <;> rfl) hopen (by simp [hstate])
      (afterSync_ne_sorting last _ fetch)
  | imported block hstate =>
    exact adds_silent rfl rfl hopen (ne_sorting_of_awaits hstate) (by simp)
  | newTx tx hwaiting htx =>
    exact adds_arrival _ hopen (.inr ⟨tx, rfl⟩) (takesTx_of_handleTx htx).same
  | simulated result hstate =>
    exact adds_sorting [] hopen hstate rfl (.refl s.ctx)
  | topOfFrag =>
    exact adds_arrival [] hopen (.inl rfl) ⟨rfl, rfl, rfl, rfl, rfl, rfl, rfl⟩
  | topOfFragFailed =>
    exact adds_arrival [] hopen (.inl rfl) ⟨rfl, rfl, rfl, rfl, rfl, rfl, rfl⟩
  | cut now hstate hwaiting hseal hmined hfrag =>
    obtain ⟨env, frags, rfl, hblock⟩ := (open_sorting hstate).mp hopen
    have hcut := cuts_of_sealFrag hfrag
    have hjoined := (hblock.of_same (sameBlock_removeMinedTxs hmined)).cut hcut
      (hfits _ _ hstate).1 (hfits _ _ hstate).2
    apply adds_of_open rfl
    exact (open_sorting rfl).mpr ⟨env, _, by simp [messages], hjoined⟩
  | orders happlies =>
    obtain ⟨⟨data₀, hstate⟩, hsame⟩ := sameBlock_applies happlies
    exact adds_sorting _ hopen hstate rfl hsame
  | @deposit e seq data ctx deposit rest happlies hdeposits =>
    obtain ⟨⟨data₀, hstate⟩, hsame⟩ := sameBlock_applies happlies
    exact adds_sorting [data.request deposit] hopen hstate rfl hsame.setDeposits

/-- A panic may cut the stream off within a group, or after it. -/
theorem adds_of_panics (hpanics : Panics crates s e sent)
    (hfits : ∀ seq data, s.state = .sorting seq data →
      data.txs.length ≤ maxTransactionsPerPayload ∧
        ∀ t ∈ data.txs, t.tx.encode.length ≤ maxBytesPerTransaction)
    (hopen : Open crates s unfinished) : Adds crates s unfinished sent none := by
  cases hpanics with
  | silent =>
    exact .inl ⟨rfl, by simpa [messages] using unfinished_of_open hopen, by simp⟩
  | starting =>
    exact .inl ⟨rfl, by simpa [messages] using unfinished_of_open hopen, by simp⟩
  | @sealing now seq seq' data frag ctx hstate hlast hnone =>
    -- the environment was told, so the header of the block can be filled in
    obtain ⟨msg, data', rfl, hcut⟩ := cuts_of_sealLastFrag hlast
    obtain ⟨env, frags, rfl, hblock⟩ := (open_sorting hstate).mp hopen
    obtain ⟨extraData, root, hextra, hroot, -⟩ := (hblock.of_same hcut.same).env_eq
    have hsome := sealBlock_isSome seq' hextra hroot
    rw [hnone] at hsome
    cases hsome
  | committing now hseals =>
    exact adds_seals hopen hseals (hfits _ _ hseals.hstate) (by simp)

/-! ## Runs -/

variable (crates) in
/-- The stream of a process, with the transactions of the blocks that it has sealed. -/
def Stream (p : Process S) (sealed : List (List SimulatedTx)) : Prop :=
  ∃ (groups : List BlockGroup) (unfinished : List VersionedMessage),
    messages p.sent = groups.flatMap BlockGroup.messages ++ unfinished ∧
    payloads p.sent = groups.map BlockGroup.envelope ∧
    List.Forall₂ BlockGroup.WellFormed groups sealed ∧ Unfinished unfinished ∧
    ∀ s ∈ p.sequencer, Open crates s unfinished

/-- A step keeps the stream well formed. -/
theorem stream_step {p p' : Process S} {sealed : List (List SimulatedTx)} (hfits : FragFits p)
    (hstream : Stream crates p sealed) (hstep : processStep crates p e = some p') :
    Stream crates p' (sealed ++ (sealedTxs crates p e).toList) := by
  obtain ⟨s, hs, htakes, rfl⟩ := processStep_eq_some.mp hstep
  obtain ⟨groups, unfinished, hmessages, hpayloads, hwell, -, hopen⟩ := hstream
  have hfits' : ∀ seq data, s.state = .sorting seq data →
      data.txs.length ≤ maxTransactionsPerPayload ∧
        ∀ t ∈ data.txs, t.tx.encode.length ≤ maxBytesPerTransaction := by
    intro seq data hstate
    have := hfits s hs
    rwa [hstate] at this
  have hadds : Adds crates s unfinished (s.handle crates e).sent (s.handle crates e).next := by
    have hhandles : Handles crates s e (s.handle crates e) := handles_of_takes htakes
    cases hnext : (s.handle crates e).next with
    | none => exact adds_of_panics (hhandles.panics hnext) hfits' (hopen s hs)
    | some s' => exact adds_of_step (hhandles.step s' hnext) hfits' (hopen s hs)
  obtain ⟨hnone, hleft, hnext⟩ | ⟨g, hclosed, hone, hg, hnext⟩ := hadds
  · refine ⟨groups, unfinished ++ messages (s.handle crates e).sent, ?_, ?_, ?_, hleft, hnext⟩
    · rw [messages_append, hmessages, List.append_assoc]
    · rw [payloads_append, hpayloads, hnone, List.append_nil]
    · simpa [sealedTxs, hs, hnone] using hwell
  · refine ⟨groups ++ [g], [], ?_, ?_, ?_, .inl rfl, hnext⟩
    · rw [messages_append, hmessages, List.append_assoc, hclosed]
      simp
    · rw [payloads_append, hpayloads, hone, List.map_append]
      rfl
    · simpa [sealedTxs, hs, hone] using List.rel_append hwell (List.Forall₂.cons hg .nil)

/-- The stream of a run from the start. -/
theorem stream_of_run {config : SequencerConfig} {db : SequencerDB S} {events : List Event}
    {p : Process S}
    (hfits : Along (processStep crates) (fun p _ => FragFits p)
      ⟨some (.new crates config db), []⟩ events)
    (hrun : runSteps (processStep crates) ⟨some (.new crates config db), []⟩ events = some p) :
    Stream crates p (observed (processStep crates) (sealedTxs crates)
      ⟨some (.new crates config db), []⟩ events) := by
  have hinit : Stream crates ⟨some (.new crates config db), []⟩ [] := by
    refine ⟨[], [], rfl, rfl, .nil, .inl rfl, ?_⟩
    rintro _ ⟨⟩
    rfl
  have hstream := hfits.observed_induction (I := Stream crates)
    (fun p e p' sealed hfits hstream hstep => stream_step hfits hstream hstep) hinit hrun
  rwa [List.nil_append] at hstream

/-- The gossip stream is well formed: what the gateway has sent to its peers is a concatenation of
block groups, of which the last may be unfinished, and the payloads are those of the finished
groups. Each finished group is an environment, frags that are numbered from zero with exactly the
last one marked, and a seal that counts them; its frags carry the transactions of the payload, whose
gas the seal adds up. The blocks are given by the transactions that they had when the payload was
asked for.
SRCLINE: sequencer/src/lib.rs:155-502, sequencer/src/context.rs:142-313, frag_sequence.rs:45-93 -/
theorem gossip_wellFormed {config : SequencerConfig} {db : SequencerDB S} {events : List Event}
    {p : Process S}
    (hfits : Along (processStep crates) (fun p _ => FragFits p)
      ⟨some (.new crates config db), []⟩ events)
    (hrun : runSteps (processStep crates) ⟨some (.new crates config db), []⟩ events = some p) :
    ∃ (groups : List BlockGroup) (unfinished : List VersionedMessage),
      messages p.sent = groups.flatMap BlockGroup.messages ++ unfinished ∧
      payloads p.sent = groups.map BlockGroup.envelope ∧
      List.Forall₂ BlockGroup.WellFormed groups (observed (processStep crates) (sealedTxs crates)
        ⟨some (.new crates config db), []⟩ events) ∧
      Unfinished unfinished := by
  obtain ⟨groups, unfinished, hmessages, hpayloads, hwell, hunfinished, -⟩ :=
    stream_of_run hfits hrun
  exact ⟨groups, unfinished, hmessages, hpayloads, hwell, hunfinished⟩

/-- A block with a deposit in its first frag and a transaction of a user in its last. -/
def oneBlock : List Event :=
  [newPayloadEvent plainPayload1,
    startEvent plainPayload1.blockHash (plainAttributes 102 [[0x7e, 1]] false),
    .tick 11,
    .newTx (plainRawTx [0]),
    .tick 12,
    .simResult (plainResult (plainRawTx [0]) 6),
    .tick 13,
    .engineApi .getPayloadV3 14]

/-- The stream of one block. -/
theorem gossip_wellFormed_oneBlock :
    ∃ p, runSteps (processStep plainCrates) (plainProcess false) oneBlock = some p ∧
      (payloads p.sent).length = 1 ∧
      ∃ (groups : List BlockGroup) (unfinished : List VersionedMessage),
        messages p.sent = groups.flatMap BlockGroup.messages ++ unfinished ∧
        payloads p.sent = groups.map BlockGroup.envelope ∧
        List.Forall₂ BlockGroup.WellFormed groups (observed (processStep plainCrates)
          (sealedTxs plainCrates) (plainProcess false) oneBlock) ∧
        Unfinished unfinished := by
  have hlength : (runSteps (processStep plainCrates) (plainProcess false) oneBlock).map
      (fun p => (payloads p.sent).length) = some 1 := by decide +kernel
  obtain ⟨p, hrun, hp⟩ := Option.map_eq_some_iff.mp hlength
  exact ⟨p, hrun, hp, gossip_wellFormed (by decide +kernel) hrun⟩

end

end BasedOp.Analysis.GossipStream
