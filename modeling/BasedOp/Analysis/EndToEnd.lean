import Mathlib.Data.List.DropRight
import BasedOp.Analysis.Authenticity
import BasedOp.Analysis.GossipStream
import BasedOp.Analysis.PreconfConfluence

/-!
# The engine of every node gets the stream of the gateway

The messages of the blocks that a gateway has finished are posted to a node, published, and
brought to another node in any order, among anything else that its validators reject. The
calls that this node makes to its engine are those messages in the order of the gateway.

The stream of the gateway is a sequence of complete blocks (`exists_blocks`); what a node has
received and not yet received is what has arrived (`received_run`), so its handler has the
messages in some order; and the order does not matter to the handler.
-/

set_option autoImplicit false

namespace BasedOp.Analysis.EndToEnd

open BasedOp.Computation Model Model.Gateway Model.OpNode
open Authenticity GatewayTransport
open GossipStream PreconfBlocks
open PreconfConfluence SignedHash
open WireFormat (plainCrypto)

/-! ## The stream as complete blocks -/

def isSeal : VersionedMessage → Bool
  | .sealV0 _ => true
  | _ => false

/-- The messages of the blocks that are finished: those up to the last seal. -/
def finished (msgs : List VersionedMessage) : List VersionedMessage :=
  msgs.rdropWhile fun m => !isSeal m

/-- The blocks that are opened. -/
def envNumbers (msgs : List VersionedMessage) : List UInt64 :=
  msgs.filterMap fun
    | .envV0 env => some env.number
    | _ => none

variable {unfinished : List VersionedMessage}

/-- Messages without a seal are not finished. -/
theorem finished_append {msgs : List VersionedMessage} (h : ∀ m ∈ unfinished, isSeal m = false) :
    finished (msgs ++ unfinished) = finished msgs := by
  induction unfinished using List.reverseRecOn with
  | nil => rw [List.append_nil]
  | append_singleton unfinished m ih =>
    have hm : (!isSeal m) = true := by
      rw [h m (by simp)]
      rfl
    have hrest := ih fun x hx => h x (List.mem_append_left _ hx)
    rw [← List.append_assoc, finished, List.rdropWhile_concat, if_pos hm]
    exact hrest

/-- An open block has no seal. -/
theorem isSeal_of_unfinished (h : Unfinished unfinished) : ∀ m ∈ unfinished, isSeal m = false := by
  obtain rfl | ⟨env, frags, rfl, -, -⟩ := h
  · simp
  · simp [isSeal]

/-- Whole blocks are finished. -/
theorem finished_groups (groups : List BlockGroup) :
    finished (groups.flatMap BlockGroup.messages) = groups.flatMap BlockGroup.messages := by
  rcases List.eq_nil_or_concat' groups with rfl | ⟨groups, g, rfl⟩
  · rfl
  · have hlast : (groups ++ [g]).flatMap BlockGroup.messages =
        (groups.flatMap BlockGroup.messages ++ (.envV0 g.env :: g.frags.map .fragV0)) ++
          [.sealV0 g.sl] := by
      simp [BlockGroup.messages]
    rw [hlast, finished, List.rdropWhile_concat_neg _ _ _ (by simp [isSeal])]

/-- The numbers of the blocks. -/
theorem envNumbers_groups (groups : List BlockGroup) :
    envNumbers (groups.flatMap BlockGroup.messages) = groups.map fun g => g.env.number := by
  have hone (g : BlockGroup) : envNumbers g.messages = [g.env.number] := by
    simp [envNumbers, BlockGroup.messages, List.filterMap_map]
  induction groups with
  | nil => rfl
  | cons g groups ih =>
    rw [List.flatMap_cons, envNumbers, List.filterMap_append]
    exact congrArg₂ (· ++ ·) (hone g) ih

section

variable {sha256 : Bytes → Bytes} {signer : JsonSigner}

/-- A finished group is a complete block for the preconfirmation state. -/
theorem exists_block [Ssz.Library] {g : BlockGroup} {txs : List SimulatedTx}
    (hwell : g.WellFormed txs)
    (hfew : g.frags.length < 2 ^ 64) :
    ∃ block : CompleteBlock, block.messages = g.messages.map (delivered sha256 signer) ∧
      block.number = g.env.number := by
  let signature (m : VersionedMessage) : Bytes65 :=
    normalizeSignature (signer.signHash (m.treeHashRoot sha256))
  have hfrag {i : ℕ} (hi : i < g.frags.length) :
      g.frags[i].blockNumber = g.env.number ∧ g.frags[i].seq = UInt64.ofNat i :=
    hwell.numbered i g.frags[i] (List.getElem?_eq_getElem hi)
  refine ⟨⟨⟨signature (.envV0 g.env), toEnv g.env⟩,
    g.frags.map fun frag => ⟨signature (.fragV0 frag), toNewFrag frag⟩,
    ⟨signature (.sealV0 g.sl), toSeal g.sl⟩, ?_, ?_, ?_, ?_, ?_⟩, ?_, rfl⟩
  · simpa using hwell.nonempty
  · intro f hf
    obtain ⟨frag, hmem, rfl⟩ := List.mem_map.mp hf
    obtain ⟨i, hi, rfl⟩ := List.mem_iff_getElem.mp hmem
    exact (hfrag hi).1
  · intro i hi
    rw [List.length_map] at hi
    rw [List.getElem_map]
    show g.frags[i].seq.toNat = i
    rw [(hfrag hi).2]
    exact GatewayLookups.toNat_ofNat_of_lt (Nat.lt_trans hi hfew)
  · intro i hi
    rw [List.length_map] at hi ⊢
    rw [List.getElem_map]
    exact hwell.last i g.frags[i] (List.getElem?_eq_getElem hi)
  · exact hwell.sealNumber
  · simp [CompleteBlock.messages, BlockGroup.messages, delivered, signed, signature]

/-- The groups are delivered as complete blocks. -/
theorem exists_blocks [Ssz.Library] {groups : List BlockGroup} {sealed : List (List SimulatedTx)}
    (hwell : List.Forall₂ BlockGroup.WellFormed groups sealed)
    (hfew : (groups.flatMap BlockGroup.messages).length < 2 ^ 64) :
    ∃ blocks : List CompleteBlock,
      canonical blocks = (groups.flatMap BlockGroup.messages).map (delivered sha256 signer) ∧
      blocks.map CompleteBlock.number = groups.map fun g => g.env.number := by
  induction hwell with
  | nil => exact ⟨[], rfl, rfl⟩
  | @cons g txs groups sealed hg _ ih =>
    rw [List.flatMap_cons, List.length_append] at hfew
    have hlength : g.messages.length = g.frags.length + 2 := by simp [BlockGroup.messages]
    obtain ⟨block, hmessages, hnumber⟩ : ∃ block : CompleteBlock,
        block.messages = g.messages.map (delivered sha256 signer) ∧
          block.number = g.env.number := exists_block hg (by omega)
    obtain ⟨blocks, hcanonical, hnumbers⟩ := ih (by omega)
    refine ⟨block :: blocks, ?_, ?_⟩
    · rw [canonical, List.flatMap_cons, hmessages, List.flatMap_cons, List.map_append]
      exact congrArg _ hcanonical
    · rw [List.map_cons, List.map_cons, hnumber, hnumbers]

end

/-! ## What arrives at a node -/

/-- A message of the gateway, or any other input. -/
inductive Arrival where
  | message (m : VersionedMessage)
  | other (input : Input)

/-- The messages of the gateway among what arrives. -/
def carried (arrivals : List Arrival) : List VersionedMessage :=
  arrivals.filterMap fun
    | .message m => some m
    | .other _ => none

/-- Arrivals are carried one by one. -/
theorem carried_append (as bs : List Arrival) : carried (as ++ bs) = carried as ++ carried bs :=
  List.filterMap_append

/-- Messages carry themselves. -/
theorem carried_message (msgs : List VersionedMessage) : carried (msgs.map .message) = msgs := by
  simp [carried, List.filterMap_map]

/-- The messages of a node that were accepted and not yet received. -/
def queued (node : BasedNode) : List Message :=
  node.subscribed .newFragV0 ++ (node.subscribed .sealFragV0 ++ node.subscribed .envV0)

variable {node : BasedNode} {arrivals : List Arrival}

section

variable (crypto : GossipCrypto) (decode : List Char → List Message) (signer : JsonSigner)

/-- A node reads a request of the gateway as the single request that it is. -/
def ReadsRequests [Ssz.Library] : Prop :=
  ∀ m : VersionedMessage, decode (m.gossip crypto.sha256 signer) =
    (parseRequest (m.gossip crypto.sha256 signer)).toList

/-- The gateway posts its messages to the node. -/
def posted [Ssz.Library] : Arrival → Input
  | .message m => .request (m.gossip crypto.sha256 signer)
  | .other input => input

/-- The messages of the gateway arrive at the node on their topics. -/
def gossiped [Ssz.Library] : Arrival → Input
  | .message m =>
    .payload (delivered crypto.sha256 signer m).topic (payload crypto.sha256 signer m)
  | .other input => input

/-- One arrival at the node that the gateway posts to. -/
def postStep [Ssz.Library] (node : BasedNode) (a : Arrival) : Option BasedNode :=
  some (node.step crypto decode (posted crypto signer a))

/-- One arrival at a subscriber. -/
def gossipStep [Ssz.Library] (node : BasedNode) (a : Arrival) : Option BasedNode :=
  some (node.step crypto decode (gossiped crypto signer a))

/-- The client of the registry has the address of the gateway for the block of a message. -/
def Knows (node : BasedNode) (m : VersionedMessage) : Prop :=
  node.registrySource.gatewayForBlock (blockNumber m) = .ok signer.address

/-- A message arrives while the gateway of its block is cached. -/
def Posts (node : BasedNode) : Arrival → Prop
  | .message m => Knows signer node m
  | .other _ => True

/-- So does a message on its topic; other payloads are rejected, and no L2 block comes. -/
def Gossips [Ssz.Library] (node : BasedNode) : Arrival → Prop
  | .message m => Knows signer node m ∧ Fits m
  | .other (.payload topic data) => topicValidator crypto node.registrySource topic data = none
  | .other (.l2Block _) => False
  | .other _ => True

instance : ∀ node a, Decidable (Posts signer node a)
  | _, .message _ => inferInstanceAs (Decidable (_ = Except.ok signer.address))
  | _, .other _ => isTrue trivial

instance [Ssz.Library] : ∀ node a, Decidable (Gossips crypto signer node a)
  | _, .message m => inferInstanceAs (Decidable (_ = Except.ok signer.address ∧ Fits m))
  | _, .other (.payload _ _) => inferInstanceAs (Decidable (_ = none))
  | _, .other (.l2Block _) => isFalse not_false
  | _, .other (.request _) => isTrue trivial
  | _, .other (.receive _) => isTrue trivial
  | _, .other (.answers _ _) => isTrue trivial
  | _, .other .cleanup => isTrue trivial

variable {crypto decode signer}

/-- The calls of a request only add to what is published, and change nothing else. -/
theorem calls_of_request [Ssz.Library] (crypto : GossipCrypto) (node : BasedNode)
    (ms : List Message) :
    node.published ⊆ (ms.foldl (BasedNode.onCall crypto) node).published ∧
      (ms.foldl (BasedNode.onCall crypto) node).preconf = node.preconf ∧
      (ms.foldl (BasedNode.onCall crypto) node).subscribed = node.subscribed := by
  refine List.foldlRecOn ms _ (motive := fun node' : BasedNode => node.published ⊆ node'.published ∧
    node'.preconf = node.preconf ∧ node'.subscribed = node.subscribed)
    ⟨List.Subset.refl _, rfl, rfl⟩ fun node' h m _ => ?_
  rw [BasedNode.onCall]
  split
  · exact h
  · exact ⟨List.Subset.trans h.1 (List.subset_append_left _ _), h.2⟩

/-- Nothing published is taken back. -/
theorem published_subset_step [Ssz.Library] (node : BasedNode) (input : Input) :
    node.published ⊆ (node.step crypto decode input).published := by
  cases input with
  | request text => exact (calls_of_request crypto node (decode text)).1
  | payload =>
    rw [BasedNode.step, BasedNode.onPayload]
    split <;> exact List.Subset.refl _
  | receive =>
    rw [BasedNode.step, BasedNode.onReceive]
    split <;> exact List.Subset.refl _
  | answers =>
    rw [BasedNode.step, BasedNode.onAnswers]
    split <;> exact List.Subset.refl _
  | cleanup => exact List.Subset.refl _
  | l2Block => exact List.Subset.refl _

/-- A message that is posted is published. -/
theorem published_of_posted [Ssz.Library] (hsigns : Signs crypto signer)
    (hreads : ReadsRequests crypto decode signer)
    (hposts : Along (postStep crypto decode signer) (Posts signer) node arrivals) :
    node.published ⊆ (run crypto decode node (arrivals.map (posted crypto signer))).published ∧
    ∀ m ∈ carried arrivals, ((delivered crypto.sha256 signer m).topic,
      payload crypto.sha256 signer m) ∈
        (run crypto decode node (arrivals.map (posted crypto signer))).published := by
  induction arrivals generalizing node with
  | nil => exact ⟨List.Subset.refl _, by simp [carried]⟩
  | cons a arrivals ih =>
    obtain ⟨hkept, hrest⟩ := ih (hposts.2 _ rfl)
    refine ⟨List.Subset.trans (published_subset_step node _) hkept, ?_⟩
    cases a with
    | other => exact hrest
    | message =>
      intro x hx
      rcases List.mem_cons.mp hx with rfl | hx
      · refine hkept ?_
        have hcall := basedAPI_signed hsigns hposts.1
        have htopic : (signed (signer.signHash (x.treeHashRoot crypto.sha256)) x).topic =
            (delivered crypto.sha256 signer x).topic := by
          cases x <;> rfl
        simp only [posted, BasedNode.step, BasedNode.onRequest, hreads x, parseRequest_gossip,
          Option.toList_some, List.foldl_cons, List.foldl_nil, BasedNode.onCall, hcall, htopic]
        exact List.mem_append_right _ (List.mem_singleton_self _)
      · exact hrest x hx

/-- Messages that leave a queue at its front and come in at its end. -/
theorem queued_update (node : BasedNode) (topic : Topic) {before after extra : List Message}
    (hextra : node.subscribed topic ++ extra = before ++ after) :
    (before ++ queued { node with
      subscribed := Function.update node.subscribed topic after }).Perm
        (queued node ++ extra) := by
  rw [List.perm_iff_count]
  intro m
  have hcount := congrArg (List.count m) hextra
  cases topic <;> simp [queued, List.count_append] at hcount ⊢ <;> omega

/-- What one arrival adds to the messages that were received or wait. -/
theorem received_step [Ssz.Library] (hsigns : Signs crypto signer) {a : Arrival}
    (h : Gossips crypto signer node a) :
    ∃ received, (node.step crypto decode (gossiped crypto signer a)).preconf =
        preconfHandler node.preconf (received.map .message) ∧
      (received ++ queued (node.step crypto decode (gossiped crypto signer a))).Perm
        (queued node ++ (carried [a]).map (delivered crypto.sha256 signer)) := by
  cases a with
  | message m =>
    have hvalid := topicValidator_payload hsigns h.2 h.1
    refine ⟨[], ?_, ?_⟩
    · simp only [gossiped, BasedNode.step, BasedNode.onPayload, hvalid]
      rfl
    · simp only [gossiped, BasedNode.step, BasedNode.onPayload, hvalid]
      have hextra (topic : Topic) : node.subscribed topic ++ [delivered crypto.sha256 signer m] =
          [] ++ (node.subscribed topic ++ [delivered crypto.sha256 signer m]) := rfl
      exact queued_update node _ (hextra _)
  | other input =>
    have hsame {node' : BasedNode} (hpreconf : node'.preconf = node.preconf)
        (hsubscribed : node'.subscribed = node.subscribed) :
        ∃ received, node'.preconf = preconfHandler node.preconf (received.map .message) ∧
          (received ++ queued node').Perm
            (queued node ++ (carried [.other input]).map (delivered crypto.sha256 signer)) := by
      refine ⟨[], hpreconf, ?_⟩
      simp [queued, hsubscribed, carried]
    cases input with
    | request text =>
      obtain ⟨-, hpreconf, hsubscribed⟩ := calls_of_request crypto node (decode text)
      exact hsame hpreconf hsubscribed
    | payload topic data =>
      have hnone : topicValidator crypto node.registrySource topic data = none := h
      rw [gossiped, BasedNode.step, BasedNode.onPayload, hnone]
      exact hsame rfl rfl
    | receive topic =>
      rw [gossiped, BasedNode.step, BasedNode.onReceive]
      split
      · exact hsame rfl rfl
      · rename_i m rest hqueue
        refine ⟨[m], rfl, ?_⟩
        have hextra : node.subscribed topic ++ [] = [m] ++ rest := by
          rw [List.append_nil, hqueue]
          rfl
        exact queued_update { node with preconf := handle node.preconf (.message m) } topic hextra
    | answers =>
      rw [gossiped, BasedNode.step, BasedNode.onAnswers]
      split <;> exact hsame rfl rfl
    | cleanup => exact hsame rfl rfl
    | l2Block => exact h.elim

/-- What a node has received, in some order, and what still waits are what waited
before and what has arrived. -/
theorem received_run [Ssz.Library] (hsigns : Signs crypto signer)
    (h : Along (gossipStep crypto decode signer) (Gossips crypto signer) node arrivals) :
    ∃ received, (run crypto decode node (arrivals.map (gossiped crypto signer))).preconf =
        preconfHandler node.preconf (received.map .message) ∧
      (received ++ queued (run crypto decode node (arrivals.map (gossiped crypto signer)))).Perm
        (queued node ++ (carried arrivals).map (delivered crypto.sha256 signer)) := by
  induction arrivals generalizing node with
  | nil => exact ⟨[], rfl, by simp [run, carried]⟩
  | cons a arrivals ih =>
    obtain ⟨now, hnow, hperm⟩ := received_step hsigns h.1
    obtain ⟨later, hlater, hperms⟩ := ih (h.2 _ rfl)
    have hcarried := carried_append [a] arrivals
    refine ⟨now ++ later, ?_, ?_⟩
    · rw [List.map_append, preconfHandler, List.foldl_append]
      rw [preconfHandler] at hnow
      rw [← hnow]
      exact hlater
    · rw [List.singleton_append] at hcarried
      rw [hcarried, List.map_append, List.append_assoc, ← List.append_assoc (queued node)]
      refine ((hperms.append_left now).trans ?_)
      rw [← List.append_assoc]
      exact hperm.append_right _

end

/-! ## From the gateway to the engine -/

/-- The handler forwards the messages of a stream in its order, however they come. -/
theorem e_preconfHandler {s : PreconfState} {b : UInt64} {blocks : List CompleteBlock}
    {ms : List Message} (hs : SealedBefore s b) (hb : Consecutive b blocks)
    (hms : ms.Perm (canonical blocks)) :
    (preconfHandler s (ms.map .message)).e = s.e ++ canonical blocks := by
  have hnodup : ms.Nodup := hms.nodup_iff.mpr (nodup_map_key (isChain_canonical hb)).of_map
  have hempty := PreconfActivation.pending_of_maps_empty hs.pendingEnvs hs.pendingFrags
    hs.pendingSeals
  have hwarm : s.lastSealSent = none → Waits b (canonical blocks) ms := by
    rw [hs.lastSealSent]
    intro h
    cases h
  rw [preconfHandler_e_eq_released hb hs.expecting hempty ms hnodup (fun m => hms.mem_iff.mp) hwarm,
    released_of_subset fun m => hms.mem_iff.mpr]

/-- What a gateway has sent of its finished blocks, which have consecutive numbers, reaches the
engine of a node. The gateway posts the messages to one node, in whatever order among other inputs,
and that node publishes them all. They arrive, within the size limits, at another node that has
sealed the block before them and has nothing pending, in any order, among payloads that are rejected
and other inputs but no L2 block; once this node has received them all, it has made the calls of the
gateway's stream to its engine, in the order of the gateway and each once.
SRCLINE: sequencer/src/lib.rs:155-502, src/p2p.rs:127-145, op-node/node/api.go:230-306,
gossip.go:285-391, preconf.go:123-253 -/
theorem engine_receives_stream [Ssz.Library] {S : Type} {crates : Crates S}
    {config : SequencerConfig}
    {db : SequencerDB S} {events : List Gateway.Event} {p : Process S}
    (hfits : Along (processStep crates) (fun p _ => FragFits p)
      ⟨some (.new crates config db), []⟩ events)
    (hrun : runSteps (processStep crates) ⟨some (.new crates config db), []⟩ events = some p)
    {crypto : GossipCrypto} {decode : List Char → List Message} {signer : JsonSigner}
    (hsigns : Signs crypto signer) (hreads : ReadsRequests crypto decode signer) {b : UInt64}
    (hnumbers : ∀ i n, (envNumbers (finished (messages p.sent)))[i]? = some n →
      n.toNat = b.toNat + i)
    (hfew : (finished (messages p.sent)).length < 2 ^ 64)
    {entry subscriber : BasedNode} {posts gossips : List Arrival}
    (hposts : Along (postStep crypto decode signer) (Posts signer) entry posts)
    (hposted : ∀ m ∈ finished (messages p.sent), m ∈ carried posts)
    (hgossips : Along (gossipStep crypto decode signer) (Gossips crypto signer) subscriber gossips)
    (hgossiped : (carried gossips).Perm (finished (messages p.sent)))
    (hsealed : SealedBefore subscriber.preconf b) (hempty : queued subscriber = [])
    (hdrained : queued (run crypto decode subscriber
      (gossips.map (gossiped crypto signer))) = []) :
    (∀ m ∈ finished (messages p.sent), ((delivered crypto.sha256 signer m).topic,
      payload crypto.sha256 signer m) ∈
        (run crypto decode entry (posts.map (posted crypto signer))).published) ∧
    (run crypto decode subscriber (gossips.map (gossiped crypto signer))).preconf.e =
      subscriber.preconf.e ++
        (finished (messages p.sent)).map (delivered crypto.sha256 signer) := by
  refine ⟨fun m hm => (published_of_posted hsigns hreads hposts).2 m (hposted m hm), ?_⟩
  obtain ⟨groups, unfinished, hmessages, -, hwell, hunfinished, -⟩ := stream_of_run hfits hrun
  have hfinished : finished (messages p.sent) = groups.flatMap BlockGroup.messages := by
    rw [hmessages, finished_append (isSeal_of_unfinished hunfinished), finished_groups]
  rw [hfinished] at hnumbers hfew hgossiped ⊢
  obtain ⟨blocks, hcanonical, hblocks⟩ : ∃ blocks : List CompleteBlock,
      canonical blocks =
        (groups.flatMap BlockGroup.messages).map (delivered crypto.sha256 signer) ∧
      blocks.map CompleteBlock.number = groups.map fun g => g.env.number :=
    exists_blocks hwell hfew
  have hconsecutive : Consecutive b blocks := by
    intro i hi
    rw [envNumbers_groups, ← hblocks] at hnumbers
    exact hnumbers i blocks[i].number (by rw [List.getElem?_map, List.getElem?_eq_getElem hi]; rfl)
  obtain ⟨received, hpreconf, hperm⟩ := received_run hsigns hgossips
  rw [hempty, hdrained, List.append_nil, List.nil_append] at hperm
  have hreceived : received.Perm (canonical blocks) := by
    rw [hcanonical]
    exact hperm.trans (hgossiped.map _)
  rw [hpreconf, e_preconfHandler hsealed hconsecutive hreceived, hcanonical]

/-- Every request is read as a single one. -/
def plainDecode (text : List Char) : List Message := (parseRequest text).toList

/-- A node that has sealed block 1 and knows the gateway of block 2. -/
def plainNode : BasedNode where
  registrySource := plainClient 2
  published := []
  subscribed := fun _ => []
  preconf := { newPreconfState with lastSealSent := some 1 }

/-- The messages arrive backwards, and are then received. -/
def plainGossips (p : Process ℕ) : List Arrival :=
  (finished (messages p.sent)).reverse.map .message ++
    [.newFragV0, .sealFragV0, .newFragV0, .envV0].map fun topic => .other (.receive topic)

/-- What the run of `oneBlock` has to meet. -/
def PlainStream (p : Process ℕ) : Prop :=
  (finished (messages p.sent)).length = 4 ∧ envNumbers (finished (messages p.sent)) = [2] ∧
    Along (postStep plainCrypto plainDecode plainSigner) (Posts plainSigner) plainNode
      ((finished (messages p.sent)).map .message) ∧
    Along (gossipStep plainCrypto plainDecode plainSigner) (Gossips plainCrypto plainSigner)
      plainNode (plainGossips p) ∧
    queued (run plainCrypto plainDecode plainNode
      ((plainGossips p).map (gossiped plainCrypto plainSigner))) = []

instance : DecidablePred PlainStream := fun _ =>
  inferInstanceAs (Decidable (_ ∧ _ ∧ _ ∧ _ ∧ _))

/-- The example of one block. -/
theorem plainStream_oneBlock :
    ∃ p, runSteps (processStep plainCrates) (plainProcess false) oneBlock = some p ∧
      PlainStream p := by
  have hstream : (runSteps (processStep plainCrates) (plainProcess false) oneBlock).map
      (fun p => decide (PlainStream p)) = some true := by decide +kernel
  obtain ⟨p, hrun, hp⟩ := Option.map_eq_some_iff.mp hstream
  exact ⟨p, hrun, of_decide_eq_true hp⟩

/-- One block reaches the engine. -/
theorem engine_receives_stream_oneBlock :
    ∃ p, runSteps (processStep plainCrates) (plainProcess false) oneBlock = some p ∧
      (finished (messages p.sent)).length = 4 ∧
      (run plainCrypto plainDecode plainNode
        ((plainGossips p).map (gossiped plainCrypto plainSigner))).preconf.e =
          (finished (messages p.sent)).map (delivered plainCrypto.sha256 plainSigner) := by
  obtain ⟨p, hrun, hlength, hnumbers, hposts, hgossips, hdrained⟩ := plainStream_oneBlock
  have hgossiped : (carried (plainGossips p)).Perm (finished (messages p.sent)) := by
    rw [plainGossips, carried_append, carried_message]
    exact (List.append_nil _).symm ▸ List.reverse_perm _
  have hsealed : SealedBefore plainNode.preconf 2 :=
    ⟨rfl, rfl, rfl, rfl, by decide, by simp [plainNode, newPreconfState],
      by simp [plainNode, newPreconfState], by simp [plainNode, newPreconfState],
      by simp [plainNode, newPreconfState]⟩
  refine ⟨p, hrun, hlength, ?_⟩
  refine (engine_receives_stream (by decide +kernel) hrun signs_plainSigner (fun _ => rfl) ?_
    (by omega) hposts ?_ hgossips hgossiped hsealed rfl hdrained).2
  · intro i n hi
    rw [hnumbers] at hi
    obtain ⟨rfl, rfl⟩ : i = 0 ∧ n = 2 := by
      cases i with
      | zero => simpa using hi.symm
      | succ => simp at hi
    rfl
  · intro m hm
    rw [carried_message]
    exact hm

end BasedOp.Analysis.EndToEnd
