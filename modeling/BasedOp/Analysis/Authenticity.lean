import BasedOp.Analysis.GatewayLookups
import BasedOp.Analysis.GatewayTransport
import BasedOp.Analysis.PreconfRuns

/-!
# Only the scheduled gateway reaches the engine

Whatever requests and payloads a node gets, and however they are interleaved with its other
steps, a message that it forwards to the engine or publishes was signed with the key of a
gateway that the registry had named for the block. If the registry keeps its list and its
interval, that is the gateway whose turn the block is.
-/

set_option autoImplicit false

namespace BasedOp.Analysis.Authenticity

open BasedOp.Computation Model Model.Gateway Model.OpNode
open Model.Registry
open GatewayLookups GatewayTransport
open PreconfActivation PreconfRuns WireFormat

/-! ## The preconfirmation state invents nothing -/

/-- Every message that was forwarded, is pending or is in hand has a property. -/
def AllHave (P : Message → Prop) (s : PreconfState) (hand : Option Message) : Prop :=
  (∀ m ∈ s.e, P m) ∧ (∀ κ m, pending s κ = some m → P m) ∧ ∀ m ∈ hand, P m

/-- What all messages have is preserved. -/
theorem preserved_allHave (P : Message → Prop) : Preserved (AllHave P) where
  forward s m _ h := by
    refine ⟨?_, fun κ x hx => h.2.1 κ x (pending_of_pending_forward hx), by simp⟩
    intro x hx
    rw [e_forward, List.mem_append, List.mem_singleton] at hx
    obtain hx | rfl := hx
    · exact h.1 x hx
    · exact h.2.2 x rfl
  take s κ m hm h := by
    refine ⟨by simpa using h.1, ?_, ?_⟩
    · intro κ' x hx
      rw [pending_forget] at hx
      split at hx
      · cases hx
      · exact h.2.1 κ' x hx
    · rintro x ⟨⟩
      exact h.2.1 κ m hm
  keep s m h := by
    refine ⟨by simpa using h.1, ?_, by simp⟩
    intro κ x hx
    rw [pending_keep] at hx
    split at hx
    · cases hx
      exact h.2.2 m rfl
    · exact h.2.1 κ x hx
  drop s m h := ⟨h.1, h.2.1, by simp⟩
  prune s n h := by
    refine ⟨by simpa using h.1, ?_, by simp⟩
    intro κ x hx
    rw [pending_prune] at hx
    split at hx
    · cases hx
    · exact h.2.1 κ x hx
  l2Block s n h := ⟨h.1, fun κ x hx => h.2.1 κ x (by cases κ <;> exact hx), by simp⟩

/-! ## What a check says -/

/-- The block that a message is for. -/
def number : Message → UInt64
  | .newFrag m => m.frag.blockNumber
  | .sealFrag m => m.sealData.blockNumber
  | .env m => m.env.number

/-- A message on its topic. -/
def marshalMessage [Ssz.Library] : Message → Bytes
  | .newFrag m => m.marshalSSZ
  | .sealFrag m => m.marshalSSZ
  | .env m => m.marshalSSZ

def messageSignature : Message → Bytes65
  | .newFrag m => m.signature
  | .sealFrag m => m.signature
  | .env m => m.signature

/-- The signature of a message was made with the key of an address. -/
def SignedBy [Ssz.Library] (crypto : GossipCrypto) (m : Message) (address : Address) : Prop :=
  ∃ pub, crypto.sigToPub (messageRoot crypto.sha256 m) (messageSignature m) = some pub ∧
    crypto.pubkeyToAddress pub = address

variable {crypto : GossipCrypto} {decode : List Char → List Message} {r : RegistryClient}
  {data : Bytes} {m : Message} {inputs : List Input} {node : BasedNode}

section

variable {α : Type} {root : α → Bytes} {number : α → UInt64}

/-- What one of the validators accepts is signed by the gateway that is cached for its block. -/
theorem signed_of_validate {unmarshal : UInt32 → Bytes → Option (α × Bytes)} {signature : Bytes65}
    {message : α} (h : validate crypto (unmarshalSigned unmarshal) root number
      (fun b => (r.gatewayForBlock b).toOption) data = some (signature, message)) :
    ∃ address, r.gatewayForBlock (number message) = .ok address ∧ ∃ pub,
      crypto.sigToPub (root message) signature = some pub ∧
        crypto.pubkeyToAddress pub = address := by
  obtain ⟨sent, rest, address, -, hgateway, hverify⟩ := of_validate h
  refine ⟨address, ?_, (verifyGatewaySignature_eq_some.mp hverify).2⟩
  cases hr : r.gatewayForBlock (number message) with
  | error => simp [hr, Except.toOption] at hgateway
  | ok => simpa [hr, Except.toOption] using hgateway

end

/-- A payload is accepted if it is signed by the gateway that is cached for its block. -/
theorem of_topicValidator [Ssz.Library] {topic : Topic}
    (h : topicValidator crypto r topic data = some m) :
    ∃ address, r.gatewayForBlock (number m) = .ok address ∧ SignedBy crypto m address := by
  cases topic with
  | newFragV0 =>
    obtain ⟨⟨signature, frag⟩, hvalid, rfl⟩ := Option.map_eq_some_iff.mp h
    obtain ⟨address, hgateway, hsigned⟩ := signed_of_validate hvalid
    exact ⟨address, hgateway, hsigned⟩
  | sealFragV0 =>
    obtain ⟨⟨signature, sl⟩, hvalid, rfl⟩ := Option.map_eq_some_iff.mp h
    obtain ⟨address, hgateway, hsigned⟩ := signed_of_validate hvalid
    exact ⟨address, hgateway, hsigned⟩
  | envV0 =>
    obtain ⟨⟨signature, env⟩, hvalid, rfl⟩ := Option.map_eq_some_iff.mp h
    obtain ⟨address, hgateway, hsigned⟩ := signed_of_validate hvalid
    exact ⟨address, hgateway, hsigned⟩

/-- The based API publishes what is signed so. -/
theorem of_basedAPI [Ssz.Library] (h : basedAPI crypto r m = .ok data) :
    ∃ m' address, m'.topic = m.topic ∧ data = marshalMessage m' ∧
      r.gatewayForBlock (number m') = .ok address ∧ SignedBy crypto m' address := by
  cases m with
  | newFrag m =>
    obtain ⟨address, signature, hgateway, hverify, rfl⟩ := basedCall_eq_ok.mp h
    exact ⟨.newFrag ⟨signature, m.frag⟩, address, rfl, rfl, hgateway,
      (verifyGatewaySignature_eq_some.mp hverify).2⟩
  | sealFrag m =>
    obtain ⟨address, signature, hgateway, hverify, rfl⟩ := basedCall_eq_ok.mp h
    exact ⟨.sealFrag ⟨signature, m.sealData⟩, address, rfl, rfl, hgateway,
      (verifyGatewaySignature_eq_some.mp hverify).2⟩
  | env m =>
    obtain ⟨address, signature, hgateway, hverify, rfl⟩ := basedCall_eq_ok.mp h
    exact ⟨.env ⟨signature, m.env⟩, address, rfl, rfl, hgateway,
      (verifyGatewaySignature_eq_some.mp hverify).2⟩

/-! ## The cache holds answers of the registry -/

/-- The registry gave a response to one of the requests of a run. -/
def Answered (inputs : List Input) (response : RegistryResponse) : Prop :=
  ∃ moments n, .answers moments n ∈ inputs ∧ ∃ i ≤ n.toNat,
    futureGateway (moments i) (UInt64.ofNat i) = .ok response

/-- The cache has responses of a run, each under its own number. -/
def CacheHolds (inputs : List Input) (r : RegistryClient) : Prop :=
  ∀ b response, r.gateways.lookup b = some response →
    response.blockNumber = b ∧ Answered inputs response

variable {responses : List RegistryResponse} {response : RegistryResponse} {address : Address}

/-- Answers may be cached. -/
theorem cacheHolds_updateGatewayInfo (h : CacheHolds inputs r)
    (hresponses : ∀ response ∈ responses, Answered inputs response) :
    CacheHolds inputs (r.updateGatewayInfo responses) := by
  induction responses generalizing r with
  | nil => exact h
  | cons response responses ih =>
    refine ih (r := r.put response) ?_ fun x hx => hresponses x (List.mem_cons_of_mem _ hx)
    intro b x hx
    by_cases hb : b = response.blockNumber
    · subst hb
      rw [RegistryClient.put, AList.lookup_insert] at hx
      cases hx
      exact ⟨rfl, hresponses response List.mem_cons_self⟩
    · rw [RegistryClient.put, AList.lookup_insert_ne hb] at hx
      exact h b x hx

/-- What is left after erasing was there. -/
theorem lookup_foldl_erase {gateways : HashMap UInt64 RegistryResponse} {nums : List UInt64}
    {b : UInt64}
    (h : (nums.foldl (fun gateways num => gateways.erase num) gateways).lookup b = some response) :
    gateways.lookup b = some response := by
  induction nums generalizing gateways with
  | nil => exact h
  | cons num nums ih =>
    have hrest := ih h
    by_cases hb : b = num
    · subst hb
      rw [AList.lookup_erase] at hrest
      cases hrest
    · rwa [AList.lookup_erase_ne hb] at hrest

/-- The cleanup only erases. -/
theorem cacheHolds_cleanup (h : CacheHolds inputs r) (maxSize targetSize : ℕ) :
    CacheHolds inputs (r.cleanupOldGateways maxSize targetSize) := by
  intro b response hlookup
  unfold RegistryClient.cleanupOldGateways at hlookup
  split at hlookup
  · exact h b response hlookup
  · exact h b response (lookup_foldl_erase hlookup)

/-- A gateway of a block is cached for it. -/
theorem exists_of_gatewayForBlock {b : UInt64} (h : r.gatewayForBlock b = .ok address) :
    ∃ response, r.gateways.lookup b = some response ∧ response.gatewayAddress = address := by
  unfold RegistryClient.gatewayForBlock at h
  split at h
  · cases h
  · rename_i response hlookup
    cases h
    exact ⟨response, hlookup, rfl⟩

/-! ## Runs -/

/-- The node after some inputs, where `decode` has the messages of a request. -/
def run [Ssz.Library] (crypto : GossipCrypto) (decode : List Char → List Message) (node : BasedNode)
    (inputs : List Input) : BasedNode :=
  inputs.foldl (BasedNode.step crypto decode) node

/-- A message is signed by a gateway that the registry has named for its block. -/
def Authentic [Ssz.Library] (crypto : GossipCrypto) (inputs : List Input) (m : Message) : Prop :=
  ∃ response, Answered inputs response ∧ response.blockNumber = number m ∧
    SignedBy crypto m response.gatewayAddress

/-- What holds of a node after some of the inputs. -/
structure Holds [Ssz.Library] (crypto : GossipCrypto) (inputs : List Input) (node : BasedNode) :
    Prop where
  cache : CacheHolds inputs node.registrySource
  published : ∀ topic data, (topic, data) ∈ node.published →
    ∃ m, m.topic = topic ∧ data = marshalMessage m ∧ Authentic crypto inputs m
  subscribed : ∀ topic, ∀ m ∈ node.subscribed topic, Authentic crypto inputs m
  preconf : AllHave (Authentic crypto inputs) node.preconf none

/-- Signed by the cached gateway means authentic. -/
theorem CacheHolds.authentic [Ssz.Library] (h : CacheHolds inputs r)
    (haddress : r.gatewayForBlock (number m) = .ok address) (hsigned : SignedBy crypto m address) :
    Authentic crypto inputs m := by
  obtain ⟨response, hlookup, rfl⟩ := exists_of_gatewayForBlock haddress
  obtain ⟨hnumber, hanswered⟩ := h _ _ hlookup
  exact ⟨response, hanswered, hnumber, hsigned⟩

/-- Fetched responses were answers. -/
theorem answered_of_requestGateways {moments : ℕ → Moment} {n : UInt64}
    (hinput : .answers moments n ∈ inputs)
    (h : RegistryClient.requestGateways moments 0 0 (n.toNat + 1) = .ok responses) :
    ∀ response ∈ responses, Answered inputs response := by
  obtain ⟨hlength, hanswers⟩ := answers_of_requestGateways h
  intro response hmem
  obtain ⟨i, hi⟩ := List.mem_iff_getElem?.mp hmem
  obtain ⟨hlt, -⟩ := List.getElem?_eq_some_iff.mp hi
  have hanswer := hanswers i response hi
  rw [Nat.zero_add, UInt64.zero_add] at hanswer
  exact ⟨moments, n, hinput, i, by omega, hanswer⟩

/-- The calls of a request, whatever messages they have. -/
theorem holds_calls [Ssz.Library] (ms : List Message) (h : Holds crypto inputs node) :
    Holds crypto inputs (ms.foldl (BasedNode.onCall crypto) node) := by
  refine List.foldlRecOn ms _ h fun node h m _ => ?_
  rw [BasedNode.onCall]
  split
  · exact h
  · rename_i data hdata
    obtain ⟨m', address, htopic, hmarshal, hgateway, hsigned⟩ := of_basedAPI hdata
    refine ⟨h.cache, ?_, h.subscribed, h.preconf⟩
    intro topic x hx
    rcases List.mem_append.mp hx with hx | hx
    · exact h.published topic x hx
    · cases List.mem_singleton.mp hx
      exact ⟨m', htopic, hmarshal, h.cache.authentic hgateway hsigned⟩

/-- A queue may be replaced by one of authentic messages. -/
theorem Holds.update [Ssz.Library] (h : Holds crypto inputs node) (topic : Topic)
    {queue : List Message} (hqueue : ∀ x ∈ queue, Authentic crypto inputs x) :
    ∀ topic', ∀ x ∈ Function.update node.subscribed topic queue topic',
      Authentic crypto inputs x :=
  (Function.forall_update_iff _ (p := fun _ queue => ∀ x ∈ queue, Authentic crypto inputs x)).mpr
    ⟨hqueue, fun topic' _ => h.subscribed topic'⟩

/-- Every step of a node keeps the invariant. -/
theorem holds_step [Ssz.Library] {input : Input} (h : Holds crypto inputs node)
    (hinput : input ∈ inputs) :
    Holds crypto inputs (node.step crypto decode input) := by
  cases input with
  | request text => exact holds_calls (decode text) h
  | payload topic =>
    rw [BasedNode.step, BasedNode.onPayload]
    split
    · exact h
    · rename_i m hm
      obtain ⟨address, hgateway, hsigned⟩ := of_topicValidator hm
      refine ⟨h.cache, h.published, h.update topic fun x hx => ?_, h.preconf⟩
      rw [List.mem_append, List.mem_singleton] at hx
      obtain hx | rfl := hx
      · exact h.subscribed topic x hx
      · exact h.cache.authentic hgateway hsigned
  | receive topic =>
    rw [BasedNode.step, BasedNode.onReceive]
    split
    · exact h
    · rename_i m rest hqueue
      have hall := h.subscribed topic
      rw [hqueue, List.forall_mem_cons] at hall
      refine ⟨h.cache, h.published, h.update topic hall.2, ?_⟩
      rw [handle_message]
      apply (preserved_allHave _).put
      exact ⟨h.preconf.1, h.preconf.2.1, by simpa using hall.1⟩
  | answers =>
    rw [BasedNode.step, BasedNode.onAnswers]
    split
    · exact h
    · rename_i responses hresponses
      exact ⟨cacheHolds_updateGatewayInfo h.cache (answered_of_requestGateways hinput hresponses),
        h.published, h.subscribed, h.preconf⟩
  | cleanup => exact ⟨cacheHolds_cleanup h.cache 100 50, h.published, h.subscribed, h.preconf⟩
  | l2Block block =>
    exact ⟨h.cache, h.published, h.subscribed,
      (preserved_allHave _).putL2Block node.preconf block h.preconf⟩

/-- A new node has nothing. -/
theorem holds_new [Ssz.Library] (inputs : List Input) : Holds crypto inputs .new := by
  refine ⟨?_, by simp [BasedNode.new], by simp [BasedNode.new], ?_, ?_, by simp⟩
  · intro b response hlookup
    cases hlookup
  · simp [BasedNode.new, newPreconfState]
  · intro κ m hm
    rw [pending_of_maps_empty rfl rfl rfl] at hm
    cases hm

/-- Any number of steps of a node, of inputs that are given in advance. -/
theorem holds_run [Ssz.Library] {rest : List Input} (h : Holds crypto inputs node)
    (hrest : rest ⊆ inputs) : Holds crypto inputs (run crypto decode node rest) := by
  induction rest generalizing node with
  | nil => exact h
  | cons input rest ih =>
    obtain ⟨hinput, hrest⟩ := List.cons_subset.mp hrest
    exact ih (holds_step h hinput) hrest

/-! ## The schedule -/

/-- The gateway whose turn a block is.
SRCLINE: gateway_registry/src/main.rs:154-165 -/
def scheduled (registry : RegistryServer) (b : UInt64) : Option (Url × Address × Hash) :=
  registry.gatewayClients[(b / registry.gatewayUpdateBlocks).toNat %
    registry.gatewayClients.length]?

/-- An answer names the gateway whose turn its block is, if its number is not rounded. -/
theorem scheduled_of_futureGateway {m : Moment} {i : UInt64}
    (h : futureGateway m i = .ok response) (hsmall : m.head.toNat + 1 + i.toNat < 2 ^ 53) :
    ∃ gateway, scheduled m.registry response.blockNumber = some gateway ∧
      gateway.2.1 = response.gatewayAddress := by
  have hnumber := blockNumber_of_futureGateway h hsmall
  have hnext : (m.head + 1).toNat = m.head.toNat + 1 := by
    rw [BitVec.toNat_add]
    exact Nat.mod_eq_of_lt (by show _ + 1 < _; omega)
  have htarget : UInt64.ofNat (m.head + 1).toNat + i = response.blockNumber := by
    rw [← UInt64.toNat_inj, hnumber, hnext, UInt64.toNat_add, toNat_ofNat_of_lt (by omega)]
    exact Nat.mod_eq_of_lt (by omega)
  unfold futureGateway at h
  split at h
  · cases h
  · rename_i tuple htuple
    split at h
    · cases h
      unfold RegistryServer.getFutureGateway at htuple
      dsimp only at htuple
      split at htuple
      · rw [htarget] at htuple
        obtain ⟨entry, hentry, htuple⟩ := Option.map_eq_some_iff.mp htuple
        exact ⟨entry, hentry, congrArg (fun tuple => tuple.2.2.1) htuple⟩
      · cases htuple
    · cases h

/-- A message is signed by the gateway whose turn its block is. -/
def SignedByScheduled [Ssz.Library] (crypto : GossipCrypto) (registry : RegistryServer)
    (m : Message) : Prop :=
  ∃ gateway, scheduled registry (number m) = some gateway ∧ SignedBy crypto m gateway.2.1

/-- The registry keeps its list and its interval, and its blocks are below `2 ^ 53`. -/
def FixedSchedule (registry : RegistryServer) (inputs : List Input) : Prop :=
  ∀ moments n, .answers moments n ∈ inputs → ∀ i ≤ n.toNat,
    (moments i).registry = registry ∧ (moments i).head.toNat + 1 + i < 2 ^ 53

/-- On a fixed schedule the signer is the scheduled one. -/
theorem Authentic.signedByScheduled [Ssz.Library] {registry : RegistryServer}
    (hschedule : FixedSchedule registry inputs) (h : Authentic crypto inputs m) :
    SignedByScheduled crypto registry m := by
  obtain ⟨response, ⟨moments, n, hinput, i, hi, hanswer⟩, hnumber, hsigned⟩ := h
  obtain ⟨rfl, hsmall⟩ := hschedule moments n hinput i hi
  have hword : (UInt64.ofNat i).toNat = i := toNat_ofNat_of_lt (by omega)
  obtain ⟨gateway, hgateway, haddress⟩ :=
    scheduled_of_futureGateway hanswer (by rw [hword]; exact hsmall)
  rw [hnumber] at hgateway
  exact ⟨gateway, hgateway, haddress ▸ hsigned⟩

/-- Whatever requests and payloads reach a node, whatever messages it reads in the requests and
whatever the order of its steps, every message that it has forwarded to the engine is signed by the
gateway whose turn the block is, and so is every message that it has published.
SRCLINE: op-node/node/api.go:230-306, gossip.go:285-391, preconf.go:123-201 -/
theorem forwarded_signed_by_scheduled [Ssz.Library] (crypto : GossipCrypto)
    (decode : List Char → List Message) (registry : RegistryServer) (inputs : List Input)
    (hschedule : FixedSchedule registry inputs) :
    (∀ m ∈ (run crypto decode .new inputs).preconf.e, SignedByScheduled crypto registry m) ∧
    ∀ topic data, (topic, data) ∈ (run crypto decode .new inputs).published →
      ∃ m, m.topic = topic ∧ data = marshalMessage m ∧ SignedByScheduled crypto registry m := by
  have h : Holds crypto inputs (run crypto decode .new inputs) :=
    holds_run (holds_new inputs) (List.Subset.refl inputs)
  refine ⟨fun m hm => (h.preconf.1 m hm).signedByScheduled hschedule, ?_⟩
  intro topic data hmem
  obtain ⟨m, htopic, hdata, hm⟩ := h.published topic data hmem
  exact ⟨m, htopic, hdata, hm.signedByScheduled hschedule⟩

/-- A registry with two gateways, of which the second one has the address of `plainCrypto`. -/
def plainRegistry : RegistryServer where
  gatewayClients := [("http://a", 7, 1), ("http://b", 9, 2)]
  gatewayUpdateBlocks := 1

/-- The env of block 7 comes twice in a request and twice as a payload, the second time with
bytes that are not signed. -/
def plainInputs : List Input :=
  [.answers (fun _ => { plainMoment 6 with registry := plainRegistry }) 0,
    .request [],
    .payload .envV0 (marshalSigned 0 plainEnv.marshalSSZ),
    .payload .envV0 (marshalSigned 4 plainEnv.marshalSSZ),
    .receive .envV0, .receive .envV0]

/-- Every request is read as a batch of two calls. -/
def batchDecode (_ : List Char) : List Message := [.env ⟨0, plainEnv⟩, .env ⟨4, plainEnv⟩]

/-- A batch with an env, which is forwarded. -/
theorem forwarded_signed_by_scheduled_plain :
    (run plainCrypto batchDecode .new plainInputs).preconf.e = [.env ⟨0, plainEnv⟩] ∧
      (run plainCrypto batchDecode .new plainInputs).published.length = 1 ∧
      SignedByScheduled plainCrypto plainRegistry (.env ⟨0, plainEnv⟩) := by
  have he : (run plainCrypto batchDecode .new plainInputs).preconf.e = [.env ⟨0, plainEnv⟩] := by
    decide +kernel
  have hschedule : FixedSchedule plainRegistry plainInputs := by
    intro moments n hmem i hi
    simp only [plainInputs, List.mem_cons, Input.answers.injEq, reduceCtorEq, List.not_mem_nil,
      or_false] at hmem
    obtain ⟨rfl, rfl⟩ := hmem
    obtain rfl : i = 0 := Nat.le_zero.mp hi
    exact ⟨rfl, by decide⟩
  have hsigned := (forwarded_signed_by_scheduled plainCrypto batchDecode plainRegistry plainInputs
    hschedule).1
  rw [he] at hsigned
  exact ⟨he, by decide +kernel, hsigned _ (List.mem_singleton_self _)⟩

end BasedOp.Analysis.Authenticity
