import BasedOp.Analysis.Provenance

/-!
# The form in which transactions are published

`Transaction::decode` keeps the bytes it is given, and these are what frags and payloads
carry and what the transactions root is computed from. They are the encoding of the decoded
transaction if and only if nothing follows it in the bytes and it was encoded as alloy encodes
it. If all bytes that come in are of this form, then so are all that are published.
-/

set_option autoImplicit false

namespace BasedOp.Analysis.CanonicalTxs

open BasedOp.Computation Model Model.Gateway
open SequencerSteps SequencerFrames
open BlockContents Provenance

section

variable {S : Type} (crates : Crates S) (encoded2718 : OpTxEnvelope → Bytes)

/-- `Transaction::decode` returns, and a transaction that it returns has its canonical encoding. -/
def DecodesCanonically (bytes : Bytes) : Prop :=
  ∃ outcome, Transaction.decode crates bytes = some outcome ∧
    ∀ t, outcome = .ok t → t.encode = encoded2718 t.tx

/-- If a transaction can be read from the bytes, its signer can be recovered and the bytes are
its encoding. -/
def Canonical (bytes : Bytes) : Prop :=
  ∀ tx, crates.decode2718 bytes = .ok tx →
    (recoverSigner crates tx).isSome = true ∧ encoded2718 tx = bytes

/-- What a follower has after decoding and encoding. -/
def reencode (bytes : Bytes) : Except String Bytes := (crates.decode2718 bytes).map encoded2718

/-- The transaction was sent to the gateway in canonical form. -/
def ReceivedCanonical (tx : Transaction) : Prop :=
  ∃ bytes hash, Canonical crates encoded2718 bytes ∧
    sendRawTransaction crates bytes = some (.ok (hash, tx))

/-- The attributes have their transactions in canonical form. -/
def ForcedCanonical (attributes : OpPayloadAttributes) : Prop :=
  ∀ bytes ∈ attributes.transactions.getD [], Canonical crates encoded2718 bytes

end

variable {S : Type} {crates : Crates S} {encoded2718 : OpTxEnvelope → Bytes} {bytes : Bytes}
  {t : Transaction} {data : SortingData} {seq : FragSequence} {now : ℕ} {frag : FragV0} {e : Event}

/-! ## One transaction -/

/-- What a decoded transaction is. -/
theorem decode_eq_ok (h : Transaction.decode crates bytes = some (.ok t)) :
    crates.decode2718 bytes = .ok t.tx ∧ t.encode = bytes := by
  refine ⟨?_, envelope_of_decode h⟩
  unfold Transaction.decode at h
  split at h
  · cases h
  · rename_i tx hdecode
    split at h
    · cases h
    · cases h
      exact hdecode

/-- Canonical bytes decode to themselves. -/
theorem decodesCanonically_iff (bytes : Bytes) :
    DecodesCanonically crates encoded2718 bytes ↔ Canonical crates encoded2718 bytes := by
  constructor
  · rintro ⟨outcome, hdecode, hcanonical⟩ tx htx
    simp only [Transaction.decode, htx] at hdecode
    split at hdecode
    · cases hdecode
    · rename_i sender hsender
      obtain rfl := Option.some.inj hdecode
      exact ⟨by rw [hsender]; rfl, (hcanonical _ rfl).symm⟩
  · intro hcanonical
    cases hread : crates.decode2718 bytes with
    | error err =>
      refine ⟨.error err, by simp only [Transaction.decode, hread], ?_⟩
      intro t ht
      cases ht
    | ok tx =>
      obtain ⟨hsome, hencode⟩ := hcanonical tx hread
      obtain ⟨sender, hsender⟩ := Option.isSome_iff_exists.mp hsome
      refine ⟨.ok { tx, sender, envelope := bytes },
        by simp only [Transaction.decode, hread, hsender], ?_⟩
      intro t ht
      cases ht
      exact hencode.symm

/-- What was decoded from canonical bytes is published as these. -/
theorem reencode_of_decode (hcanonical : Canonical crates encoded2718 bytes)
    (h : Transaction.decode crates bytes = some (.ok t)) :
    reencode crates encoded2718 t.encode = .ok t.encode := by
  obtain ⟨hread, hencode⟩ := decode_eq_ok h
  rw [hencode, reencode, hread]
  exact congrArg Except.ok (hcanonical t.tx hread).2

/-- What was received canonically is encoded again. -/
theorem reencode_of_received (h : ReceivedCanonical crates encoded2718 t) :
    reencode crates encoded2718 t.encode = .ok t.encode := by
  obtain ⟨bytes, hash, hcanonical, hsend⟩ := h
  unfold sendRawTransaction at hsend
  split at hsend
  · cases hsend
  · cases hsend
  · rename_i tx hdecode
    cases hsend
    exact reencode_of_decode hcanonical hdecode

/-- So is what was forced. -/
theorem reencode_of_forced {attributes : OpPayloadAttributes}
    (hcanonical : ForcedCanonical crates encoded2718 attributes)
    (h : t ∈ forcedTxs crates attributes) :
    reencode crates encoded2718 t.encode = .ok t.encode := by
  obtain ⟨bytes, hbytes, hdecoded⟩ := List.mem_filterMap.mp h
  unfold decoded at hdecoded
  split at hdecoded
  · rename_i tx hdecode
    cases hdecoded
    exact reencode_of_decode (hcanonical bytes hbytes) hdecode
  · cases hdecoded

variable {seq' : FragSequence} {envelope : OpExecutionPayloadEnvelope}

/-! ## What is published -/

/-- A frag carries transactions of the block that is being built, cut off at the
limit for one transaction. -/
theorem mem_txs_of_cuts {s : Sequencer S} {ctx ctx' : SequencerContext S} {data' : SortingData}
    {msg : FragV0} (hstate : s.state = .sorting seq data)
    (hcuts : Cuts crates ctx data seq now msg data' seq' ctx') (hbytes : bytes ∈ msg.txs) :
    ∃ t ∈ included s, bytes = t.encode.take maxBytesPerTransaction := by
  rw [hcuts.msg_eq] at hbytes
  obtain ⟨t, ht, rfl⟩ := List.mem_map.mp (List.mem_of_mem_take hbytes)
  obtain ⟨simulated, hsimulated, rfl⟩ := List.mem_map.mp ht
  refine ⟨simulated.tx, ?_, rfl⟩
  rw [included_eq hstate]
  exact List.mem_map_of_mem (List.mem_append_right _ hsimulated)

/-- The last frag has included transactions, cut off. -/
theorem mem_txs_of_sealLastFrag {s : Sequencer S} {ctx : SequencerContext S}
    (hstate : s.state = .sorting seq data)
    (hlast : s.ctx.sealLastFrag crates data seq now = some (frag, seq', ctx))
    (hbytes : bytes ∈ frag.txs) :
    ∃ t ∈ included s, bytes = t.encode.take maxBytesPerTransaction := by
  obtain ⟨msg, data', rfl, hcuts⟩ := cuts_of_sealLastFrag hlast
  exact mem_txs_of_cuts hstate hcuts hbytes

/-- Every frag that is sent carries transactions of the block that is being built. -/
theorem mem_txs_of_gossip {s : Sequencer S} (htakes : s.takes e = true)
    (hsent : .gossip (.fragV0 frag) ∈ (s.handle crates e).sent) (hbytes : bytes ∈ frag.txs) :
    ∃ t ∈ included s, bytes = t.encode.take maxBytesPerTransaction := by
  have hhandles : Handles crates s e (s.handle crates e) := handles_of_takes htakes
  have hof : ∀ {now seq data last sl envelope ctx},
      Seals crates s now seq data last sl envelope ctx →
      .gossip (.fragV0 frag) ∈
        [Output.gossip (.fragV0 last), .gossip (.sealV0 sl), .payload envelope] →
      ∃ t ∈ included s, bytes = t.encode.take maxBytesPerTransaction := by
    intro now seq data last sl envelope ctx hseals hmem
    obtain rfl : frag = last := by simpa using hmem
    obtain ⟨seq', ctx₁, hlast, -⟩ := hseals.hsealed
    exact mem_txs_of_sealLastFrag hseals.hstate hlast hbytes
  generalize s.handle crates e = handled at hhandles hsent
  obtain ⟨sent, next⟩ := handled
  cases next with
  | none =>
    cases hhandles.panics rfl with
    | silent => cases hsent
    | starting => simp at hsent
    | sealing now hstate hlast =>
      obtain rfl : frag = _ := by simpa using hsent
      exact mem_txs_of_sealLastFrag hstate hlast hbytes
    | committing now hseals => exact hof hseals hsent
  | some s' =>
    cases hhandles.step s' rfl with
    | sealed now hseals => exact hof hseals hsent
    | committed now hseals => exact hof hseals hsent
    | cut now hstate hwaiting hseal hmined hfrag =>
      obtain rfl : frag = _ := by simpa using hsent
      exact mem_txs_of_cuts hstate (cuts_of_sealFrag hfrag) hbytes
    | _ => simp at hsent

/-- The root in a seal is that of the transactions of the payload. -/
theorem transactionsRoot_of_seals {s : Sequencer S} {sl : SealV0} {ctx : SequencerContext S}
    (h : Seals crates s now seq data frag sl envelope ctx) :
    sl.transactionsRoot =
      crates.orderedTrieRootTransactions envelope.executionPayload.transactions := by
  obtain ⟨msg, data', seq', ctx₁, -, -, hfrom⟩ := sealedFrom_of_seals h
  obtain ⟨extraData, root, -, -, hroot, -⟩ := hfrom.header
  rw [hroot, hfrom.transactions]
  rfl

/-- The root of a seal is that of the payload. -/
theorem transactionsRoot_of_sent {s : Sequencer S} (htakes : s.takes e = true) {sl : SealV0}
    (hseal : .gossip (.sealV0 sl) ∈ (s.handle crates e).sent)
    (hpayload : .payload envelope ∈ (s.handle crates e).sent) :
    sl.transactionsRoot =
      crates.orderedTrieRootTransactions envelope.executionPayload.transactions := by
  obtain ⟨now, seq, data, frag, sl', ctx, -, hsent, hseals⟩ := sent_of_payload htakes hpayload
  rw [hsent] at hseal
  obtain rfl : sl = sl' := by simpa using hseal
  exact transactionsRoot_of_seals hseals

/-- Whatever is sent on an event is what a follower obtains from it by decoding and encoding. -/
structure PublishesCanonically (crates : Crates S) (encoded2718 : OpTxEnvelope → Bytes)
    (sent : List Output) : Prop where
  frags : ∀ frag, .gossip (.fragV0 frag) ∈ sent → ∀ bytes ∈ frag.txs,
    bytes.length < maxBytesPerTransaction → reencode crates encoded2718 bytes = .ok bytes
  payload : ∀ envelope, .payload envelope ∈ sent →
    envelope.executionPayload.transactions.mapM (reencode crates encoded2718) =
      .ok envelope.executionPayload.transactions
  transactionsRoot : ∀ sl envelope, .gossip (.sealV0 sl) ∈ sent → .payload envelope ∈ sent →
    (envelope.executionPayload.transactions.mapM (reencode crates encoded2718)).map
      crates.orderedTrieRootTransactions = .ok sl.transactionsRoot

/-- All transactions of the block that is being built are in canonical form. -/
theorem reencode_of_included {s : Sequencer S}
    (hinv : Holds crates (ReceivedCanonical crates encoded2718)
      (ForcedCanonical crates encoded2718) s) :
    ∀ t ∈ included s, reencode crates encoded2718 t.encode = .ok t.encode := by
  intro t ht
  cases hstate : s.state with
  | sorting seq data =>
    obtain ⟨rest, hincluded, hrest⟩ := hinv.block seq data hstate
    rw [hincluded] at ht
    rcases List.mem_append.mp ht with hforced | hsubmitted
    · exact reencode_of_forced (hinv.attributes seq data hstate).1 hforced
    · exact reencode_of_received (hrest t hsubmitted)
  | _ => simp [included, GossipStream.blockTxs, hstate] at ht

/-- Lists are encoded again one by one. -/
theorem mapM_reencode {txs : List Transaction}
    (h : ∀ t ∈ txs, reencode crates encoded2718 t.encode = .ok t.encode) :
    (txs.map Transaction.encode).mapM (reencode crates encoded2718) =
      .ok (txs.map Transaction.encode) := by
  induction txs with
  | nil => rfl
  | cons t txs ih =>
    have hrest := ih fun t' ht' => h t' (List.mem_cons_of_mem t ht')
    rw [List.map_cons, List.mapM_cons, h t List.mem_cons_self, hrest]
    rfl

/-- What the pool and the block hold is published. -/
theorem publishesCanonically_of_holds {s : Sequencer S}
    (hinv : Holds crates (ReceivedCanonical crates encoded2718)
      (ForcedCanonical crates encoded2718) s) (htakes : s.takes e = true) :
    PublishesCanonically crates encoded2718 (s.handle crates e).sent := by
  have hincluded := reencode_of_included hinv
  have hpayload : ∀ envelope, .payload envelope ∈ (s.handle crates e).sent →
      envelope.executionPayload.transactions.mapM (reencode crates encoded2718) =
        .ok envelope.executionPayload.transactions := by
    intro envelope hsent
    rw [(transactions_of_payload htakes hsent).2]
    exact mapM_reencode hincluded
  refine ⟨?_, hpayload, ?_⟩
  · intro frag hsent bytes hbytes hlength
    obtain ⟨t, ht, rfl⟩ := mem_txs_of_gossip htakes hsent hbytes
    rw [List.length_take] at hlength
    rw [List.take_of_length_le (by omega)]
    exact hincluded t ht
  · intro sl envelope hseal hsent
    rw [hpayload envelope hsent, transactionsRoot_of_sent htakes hseal hsent]
    rfl

/-- `Transaction::decode` returns without a panic, with an error or with a transaction in its
canonical encoding, exactly if the bytes are canonical. If all bytes that are received by the
gateway or forced by attributes are, whatever it publishes is what a follower obtains when it
decodes and encodes it again; a transaction in a frag is cut off at its limit.
SRCLINE: common/src/transaction/mod.rs:198-216, crates/rpc/src/lib.rs:82-90,
frag_sequence.rs:69-93 -/
theorem canonical_published (crates : Crates S) (encoded2718 : OpTxEnvelope → Bytes) :
    (∀ bytes, DecodesCanonically crates encoded2718 bytes ↔ Canonical crates encoded2718 bytes) ∧
    ∀ (config : SequencerConfig) (db : SequencerDB S) (n : ℕ) (events : List WorldEvent)
      (w : World S),
      Along (World.step crates)
        (fun _ e => Inputs (ReceivedCanonical crates encoded2718)
          (ForcedCanonical crates encoded2718) e)
        (World.start (.new crates config db) n) events →
      runSteps (World.step crates) (World.start (.new crates config db) n) events = some w →
      ∀ e, w.sequencer.takes e = true →
        PublishesCanonically crates encoded2718 (w.sequencer.handle crates e).sent := by
  refine ⟨decodesCanonically_iff, ?_⟩
  intro config db n events w hinputs hrun e htakes
  exact publishesCanonically_of_holds (submittedInv_run hinputs hrun).holds htakes

/-- The encoding that `plainDecode` reads. -/
def plainEncode : OpTxEnvelope → Bytes
  | .deposit d => 0x7e :: d.body
  | .legacy tx => UInt8.ofNat tx.nonce.toNat :: tx.body
  | _ => []

/-- A block of a forced and a submitted transaction. -/
theorem canonical_published_oneSubmitted :
    ∃ w envelope, runSteps (World.step plainCrates) (plainWorld false) oneSubmitted = some w ∧
      .payload envelope ∈ (w.sequencer.handle plainCrates (.engineApi .getPayloadV3 9)).sent ∧
      envelope.executionPayload.transactions.mapM (reencode plainCrates plainEncode) =
        .ok [[0x7e, 1], [0]] := by
  have hview : (runSteps (World.step plainCrates) (plainWorld false) oneSubmitted).map
      (sealedView ·.sequencer) =
        some ⟨true, [[[0x7e, 1], [0]]], some true, some [[0x7e, 1]], true⟩ := by
    decide +kernel
  obtain ⟨w, hrun, hw⟩ := Option.map_eq_some_iff.mp hview
  obtain ⟨htakes, ⟨envelope, hpayload, htransactions⟩, -⟩ := sealed_of_view hw
  have hdeposit : Canonical plainCrates plainEncode [0x7e, 1] := by
    intro tx htx
    cases htx
    decide
  have hlegacy : Canonical plainCrates plainEncode [0] := by
    intro tx htx
    cases htx
    decide
  have hinputs : ∀ e ∈ oneSubmitted, Inputs (ReceivedCanonical plainCrates plainEncode)
      (ForcedCanonical plainCrates plainEncode) e := by
    have hreceived : ReceivedCanonical plainCrates plainEncode (plainRawTx [0]) :=
      ⟨[0], 0, hlegacy, rfl⟩
    simpa [oneSubmitted, oneForced, plainSimulation, Inputs, Admits, newPayloadEvent, startEvent,
      ForcedCanonical, plainAttributes, hreceived] using hdeposit
  have hpublished := (canonical_published plainCrates plainEncode).2 _ _ _ _ w
    (along_of_forall_mem (fun e he _ => hinputs e he) _) hrun _ htakes
  refine ⟨w, envelope, hrun, hpayload, ?_⟩
  rw [hpublished.payload envelope hpayload, htransactions]

/-- A transaction is read from the first two bytes. -/
def prefixCrates : Crates ℕ :=
  { plainCrates with decode2718 := fun bytes => plainDecode (bytes.take 2) }

/-- No signer can be recovered. -/
def unsignedCrates : Crates ℕ := { plainCrates with recoverSigner := fun _ => none }

/-- A byte that follows a transaction is published with it, and signatures that do not
recover are a panic.
SRCLINE: common/src/transaction/mod.rs:198-211 -/
theorem notCanonical_published :
    ∃ t w envelope, Transaction.decode prefixCrates [0, 1, 2] = some (.ok t) ∧
      t.encode = [0, 1, 2] ∧ plainEncode t.tx = [0, 1] ∧
      Transaction.decode unsignedCrates [0] = none ∧
      runSteps (World.step prefixCrates)
        (World.start (.new prefixCrates (plainSequencerConfig false) plainDB) 1)
        (oneForced [] [.sequencer (.newTx t)] ++ plainSimulation ++ [.sequencer (.tick 2)]) =
          some w ∧
      .payload envelope ∈ (w.sequencer.handle prefixCrates (.engineApi .getPayloadV3 9)).sent ∧
      envelope.executionPayload.transactions = [[0x7e, 1], [0, 1, 2]] ∧
      envelope.executionPayload.transactions.mapM (reencode prefixCrates plainEncode) =
        .ok [[0x7e, 1], [0, 1]] := by
  have hdecode : Transaction.decode prefixCrates [0, 1, 2] =
      some (.ok { plainRawTx [0, 1] with envelope := [0, 1, 2] }) := rfl
  have hview : (runSteps (World.step prefixCrates)
      (World.start (.new prefixCrates (plainSequencerConfig false) plainDB) 1)
      (oneForced [] [.sequencer (.newTx { plainRawTx [0, 1] with envelope := [0, 1, 2] })] ++
        plainSimulation ++ [.sequencer (.tick 2)])).map
      (fun w => (envelopes (w.sequencer.handle prefixCrates (.engineApi .getPayloadV3 9)).sent).map
        (·.executionPayload.transactions)) = some [[[0x7e, 1], [0, 1, 2]]] := by
    decide +kernel
  obtain ⟨w, hrun, hw⟩ := Option.map_eq_some_iff.mp hview
  obtain ⟨envelope, hpayload, htransactions⟩ := payload_of_envelopes hw
  refine ⟨_, w, envelope, hdecode, rfl, rfl, rfl, hrun, hpayload, htransactions, ?_⟩
  rw [htransactions]
  rfl

end BasedOp.Analysis.CanonicalTxs
