import BasedOp.Computation.SortedVectors
import BasedOp.Model.Registry

/-!
# Which gateways can be looked up

The answers to the requests of one fetch are kept by the block numbers they have, and each is
for the head at its own moment. If the head has moved between two requests, the numbers skip
what lies between, and a lookup there fails unless the number was cached before.
-/

set_option autoImplicit false

namespace BasedOp.Analysis.GatewayLookups

open BasedOp.Computation Model Model.Gateway Model.Registry

variable {r : RegistryClient} {b n : UInt64} {moments : ℕ → Moment} {j : ℕ}

/-! ## The cache -/

/-- A lookup succeeds if the number is cached. -/
theorem exists_gatewayForBlock_iff :
    (∃ address, r.gatewayForBlock b = .ok address) ↔ b ∈ r.gateways := by
  rw [← AList.lookup_isSome]
  unfold RegistryClient.gatewayForBlock
  cases r.gateways.lookup b with
  | none => simp
  | some => simp

/-- An update adds the numbers of the answers. -/
theorem mem_updateGatewayInfo {results : List RegistryResponse} :
    b ∈ (r.updateGatewayInfo results).gateways ↔
      b ∈ r.gateways ∨ ∃ result ∈ results, result.blockNumber = b := by
  induction results generalizing r with
  | nil => simp [RegistryClient.updateGatewayInfo]
  | cons result results ih =>
    have hput : b ∈ (r.put result).gateways ↔ b = result.blockNumber ∨ b ∈ r.gateways :=
      AList.mem_insert _
    have hrest := ih (r := r.put result)
    rw [RegistryClient.updateGatewayInfo, List.foldl_cons]
    rw [RegistryClient.updateGatewayInfo, hput] at hrest
    rw [hrest, List.exists_mem_cons_iff, eq_comm (a := b), or_comm (b := b ∈ r.gateways), or_assoc]

variable {nums : List UInt64} {responses : List RegistryResponse} {r' : RegistryClient}
  {response current : RegistryResponse}

/-- Erasing takes away the given numbers. -/
theorem mem_foldl_erase {gateways : HashMap UInt64 RegistryResponse} :
    b ∈ nums.foldl (fun gateways num => gateways.erase num) gateways ↔
      b ∉ nums ∧ b ∈ gateways := by
  induction nums generalizing gateways with
  | nil => simp
  | cons num nums ih =>
    rw [List.foldl_cons, ih, AList.mem_erase, List.mem_cons, not_or, and_left_comm, and_assoc]

/-- Different numbers are sorted strictly. -/
theorem pairwise_lt_mergeSort (h : nums.Nodup) :
    (nums.mergeSort fun a b => decide (a ≤ b)).Pairwise fun a b => decide (a < b) = true := by
  have hle : (nums.mergeSort fun a b => decide (a ≤ b)).Pairwise
      fun a b => decide (a ≤ b) = true := by
    apply List.pairwise_mergeSort
    · intro a b c hab hbc
      exact decide_eq_true (UInt64.le_trans (of_decide_eq_true hab) (of_decide_eq_true hbc))
    · intro a b
      simpa using UInt64.le_total a b
  have hne := (List.mergeSort_perm nums fun a b => decide (a ≤ b)).nodup_iff.mpr h
  refine (hle.and hne).imp ?_
  rintro a b ⟨hle, hne⟩
  exact decide_eq_true (Std.lt_of_le_of_ne (of_decide_eq_true hle) hne)

/-- The numbers that are greater than a block's. -/
def above (r : RegistryClient) (b : UInt64) : List UInt64 :=
  r.gateways.keys.filter fun num => decide (b < num)

/-- A cleanup keeps the greatest numbers. -/
theorem mem_cleanupOldGateways {maxSize targetSize : ℕ} (hsize : targetSize ≤ maxSize) :
    b ∈ (r.cleanupOldGateways maxSize targetSize).gateways ↔ b ∈ r.gateways ∧
      (r.gateways.keys.length ≤ maxSize ∨ (above r b).length < targetSize) := by
  unfold RegistryClient.cleanupOldGateways
  by_cases hfew : r.gateways.keys.length ≤ maxSize
  · simp [hfew]
  · rw [if_neg hfew]
    dsimp only
    have hperm := List.mergeSort_perm r.gateways.keys fun a b => decide (a ≤ b)
    have hsorted := pairwise_lt_mergeSort r.gateways.keys_nodup
    generalize r.gateways.keys.mergeSort (fun a b => decide (a ≤ b)) = sorted at hperm hsorted
    have hasymm : ∀ a b : UInt64, decide (a < b) = true → decide (b < a) = false := by
      intro a b hab
      exact decide_eq_false (Std.not_lt.mpr (Std.le_of_lt (of_decide_eq_true hab)))
    rw [mem_foldl_erase, and_comm]
    refine and_congr_right ?_
    intro hb
    have htake : b ∈ sorted.take (sorted.length - targetSize) ↔
        targetSize ≤ (sorted.filter fun num => decide (b < num)).length :=
      mem_take_iff_le_filter hasymm hsorted (hperm.mem_iff.mpr (AList.mem_keys.mp hb))
        (by rw [hperm.length_eq]; omega)
    have habove : (sorted.filter fun num => decide (b < num)).length = (above r b).length :=
      (hperm.filter _).length_eq
    rw [htake, habove, Nat.not_le]
    simp [hfew]

/-! ## The requests -/

/-- The requests for `n + 1` gateways that begin at the moment `j` were answered. -/
structure Answered (moments : ℕ → Moment) (j : ℕ) (n : UInt64)
    (responses : List RegistryResponse) : Prop where
  length_eq : responses.length = n.toNat + 1
  answers : ∀ i response, responses[i]? = some response →
    futureGateway (moments (j + i)) (UInt64.ofNat i) = .ok response

/-- Each response answers its own request. -/
theorem answers_of_requestGateways {count : ℕ} {i : UInt64}
    (h : RegistryClient.requestGateways moments j i count = .ok responses) :
    responses.length = count ∧ ∀ k response, responses[k]? = some response →
      futureGateway (moments (j + k)) (i + UInt64.ofNat k) = .ok response := by
  induction count generalizing j i responses with
  | zero =>
    cases h
    simp
  | succ count ih =>
    unfold RegistryClient.requestGateways at h
    split at h
    · cases h
    · rename_i gateway hgateway
      split at h
      · cases h
      · rename_i gateways hrest
        cases h
        obtain ⟨hlength, hanswers⟩ := ih hrest
        refine ⟨by rw [List.length_cons, hlength], ?_⟩
        intro k response hk
        cases k with
        | zero =>
          cases hk
          simpa using hgateway
        | succ k =>
          have hanswer := hanswers k response hk
          have hindex : i + 1 + UInt64.ofNat k = i + UInt64.ofNat (k + 1) := by
            rw [UInt64.ofNat_add, UInt64.add_assoc, UInt64.add_comm 1]
            rfl
          rwa [hindex, Nat.add_assoc, Nat.add_comm 1] at hanswer

/-- An attempt that succeeds stores the answers to all its requests. -/
theorem answered_of_fetchSingle (h : r.fetchNextNGatewaysSingle moments j n = some (.ok r')) :
    ∃ responses, Answered moments j n responses ∧
      r' = (r.updateGatewayInfo responses).cleanupOldGateways 100 50 := by
  unfold RegistryClient.fetchNextNGatewaysSingle at h
  split at h
  · cases h
  · rename_i current hcurrent
    split at h
    · cases h
    · split at h
      · cases h
      · rename_i gateways hgateways
        cases h
        -- the current gateway is asked for as one that is 0 blocks further
        have hall : RegistryClient.requestGateways moments j 0 (n.toNat + 1) =
            .ok (current :: gateways) := by
          rw [RegistryClient.requestGateways, hcurrent]
          dsimp only
          rw [UInt64.zero_add, hgateways]
        obtain ⟨hlength, hanswers⟩ := answers_of_requestGateways hall
        refine ⟨current :: gateways, ⟨hlength, ?_⟩, rfl⟩
        intro i response hi
        have hanswer := hanswers i response hi
        rwa [UInt64.zero_add] at hanswer

/-- Failed attempts store nothing. -/
theorem answered_of_retry {attempt left : ℕ}
    (h : r.retry moments n attempt left j = some (.ok r')) :
    ∃ first responses, Answered moments first n responses ∧
      r' = (r.updateGatewayInfo responses).cleanupOldGateways 100 50 := by
  induction left generalizing attempt j with
  | zero =>
    unfold RegistryClient.retry at h
    split at h
    · cases h
    · rename_i r₁ hsingle
      cases h
      exact ⟨j, answered_of_fetchSingle hsingle⟩
    · cases h
  | succ left ih =>
    unfold RegistryClient.retry at h
    split at h
    · cases h
    · rename_i r₁ hsingle
      cases h
      exact ⟨j, answered_of_fetchSingle hsingle⟩
    · exact ih h

/-! ## The numbers of the answers -/

/-- A number that fits is kept. -/
theorem toNat_ofNat_of_lt {n : ℕ} (h : n < 2 ^ 64) : (UInt64.ofNat n).toNat = n :=
  UInt64.toNat_ofNat_of_lt' h

/-- Small numbers are not rounded. -/
theorem toFloat64_of_lt {n : ℕ} (h : n < 2 ^ 53) : toFloat64 n = n := by
  have hlog : n.log2 - 52 = 0 := by
    by_cases hn : n = 0
    · subst hn
      rfl
    · have := (Nat.log2_lt hn).mpr h
      omega
  simp [toFloat64, hlog, Nat.mod_one]

/-- An answer is for the head at its moment. Numbers below `2 ^ 53` are not rounded. -/
theorem blockNumber_of_futureGateway {m : Moment} {i : UInt64}
    (h : futureGateway m i = .ok response) (hsmall : m.head.toNat + 1 + i.toNat < 2 ^ 53) :
    response.blockNumber.toNat = m.head.toNat + 1 + i.toNat := by
  have hnext : (m.head + 1).toNat = m.head.toNat + 1 := by
    rw [BitVec.toNat_add]
    exact Nat.mod_eq_of_lt (by show _ + 1 < _; omega)
  have htarget : (UInt64.ofNat (m.head + 1).toNat + i).toNat = m.head.toNat + 1 + i.toNat := by
    rw [hnext, UInt64.toNat_add, toNat_ofNat_of_lt (by omega)]
    exact Nat.mod_eq_of_lt (by omega)
  have hnumber : (registryResponseFromTuple
      (UInt64.ofNat (m.head + 1).toNat + i, response.url, response.gatewayAddress,
        response.jwtSecret)).blockNumber.toNat = m.head.toNat + 1 + i.toNat := by
    simp only [registryResponseFromTuple, htarget, toFloat64_of_lt hsmall, uint64OfFloat64]
    rw [if_pos (by omega), toNat_ofNat_of_lt (by omega)]
  unfold futureGateway at h
  split at h
  · cases h
  · rename_i tuple htuple
    split at h
    · cases h
      unfold RegistryServer.getFutureGateway at htuple
      dsimp only at htuple
      split at htuple
      · obtain ⟨entry, -, rfl⟩ := Option.map_eq_some_iff.mp htuple
        exact hnumber
      · cases htuple
    · cases h

/-- Requests that each reach further by one cover a range without holes only if the
head does not move. -/
theorem covers_iff {head : ℕ → ℕ} {n : ℕ} (hheads : ∀ i, head 0 ≤ head i) :
    (∀ k ≤ n, ∃ i ≤ n, head i + i = head 0 + k) ↔ ∀ i ≤ n, head i = head 0 := by
  constructor
  · intro hcovers k
    -- the request that covers `k` is the `k`-th one: an earlier one has the first head
    induction k using Nat.strong_induction_on with
    | _ k ih =>
      intro hk
      obtain ⟨i, hi, heq⟩ := hcovers k hk
      have hle := hheads i
      rcases Nat.lt_trichotomy i k with hlt | rfl | hgt
      · have := ih i hlt hi
        omega
      · omega
      · omega
  · intro hsame k hk
    exact ⟨k, hk, by rw [hsame k hk]⟩

/-- The head never goes back. -/
theorem head_le (hheads : ∀ j, (moments j).head.toNat ≤ (moments (j + 1)).head.toNat) {k : ℕ}
    (h : j ≤ k) :
    (moments j).head.toNat ≤ (moments k).head.toNat :=
  monotone_nat_of_le_succ (f := fun j => (moments j).head.toNat) hheads h

/-- `GatewayForBlock` succeeds for all numbers from `c` to `c + n`. -/
def NoHoles (r : RegistryClient) (c n : UInt64) : Prop :=
  ∀ k ≤ n, ∃ address, r.gatewayForBlock (c + k) = .ok address

/-- The number was cached before or answered, and the cleanup keeps it. -/
def Kept (r : RegistryClient) (responses : List RegistryResponse) (b : UInt64) : Prop :=
  (b ∈ r.gateways ∨ ∃ response ∈ responses, response.blockNumber = b) ∧
    ((r.updateGatewayInfo responses).gateways.keys.length ≤ 100 ∨
      (above (r.updateGatewayInfo responses) b).length < 50)

/-- Every number of the range is kept. -/
theorem noHoles_iff_kept {c : UInt64} :
    NoHoles ((r.updateGatewayInfo responses).cleanupOldGateways 100 50) c n ↔
      ∀ k ≤ n, Kept r responses (c + k) := by
  refine forall_congr' fun k => imp_congr_right fun _ => ?_
  rw [exists_gatewayForBlock_iff, mem_cleanupOldGateways (by omega), mem_updateGatewayInfo, Kept]

section

variable {moments : ℕ → Moment} {first : ℕ} {n : UInt64} {responses : List RegistryResponse}

/-- The head at a request. -/
def headAt (moments : ℕ → Moment) (first i : ℕ) : ℕ := (moments (first + i)).head.toNat

/-- The number of every answer, if none is rounded. -/
theorem blockNumber_of_answered
    (hheads : ∀ j, (moments j).head.toNat ≤ (moments (j + 1)).head.toNat)
    (hanswered : Answered moments first n responses)
    (hsmall : headAt moments first n.toNat + 1 + n.toNat < 2 ^ 53) {i : ℕ}
    (hi : responses[i]? = some response) :
    i ≤ n.toNat ∧ response.blockNumber.toNat = headAt moments first i + 1 + i := by
  obtain ⟨hlt, -⟩ := List.getElem?_eq_some_iff.mp hi
  rw [hanswered.length_eq] at hlt
  have hle : headAt moments first i ≤ headAt moments first n.toNat :=
    head_le hheads (by omega)
  have hindex : (UInt64.ofNat i).toNat = i := toNat_ofNat_of_lt (by omega)
  have hnumber := blockNumber_of_futureGateway (hanswered.answers i response hi)
    (by rw [hindex]; unfold headAt at *; omega)
  rw [hindex] at hnumber
  exact ⟨by omega, hnumber⟩

/-- The numbers that follow that of the first answer. -/
theorem toNat_current_add (hheads : ∀ j, (moments j).head.toNat ≤ (moments (j + 1)).head.toNat)
    (hanswered : Answered moments first n responses)
    (hsmall : headAt moments first n.toNat + 1 + n.toNat < 2 ^ 53)
    (hcurrent : responses.head? = some current) {k : UInt64} (hk : k ≤ n) :
    (current.blockNumber + k).toNat = headAt moments first 0 + 1 + k.toNat := by
  have hfirst := (blockNumber_of_answered hheads hanswered hsmall
    (List.head?_eq_getElem? ▸ hcurrent)).2
  have hle : headAt moments first 0 ≤ headAt moments first n.toNat := head_le hheads (by omega)
  have hkn : k.toNat ≤ n.toNat := UInt64.le_iff_toNat_le.mp hk
  rw [UInt64.toNat_add, hfirst]
  exact Nat.mod_eq_of_lt (by omega)

/-- The answers cover a range exactly if the head does not move. -/
theorem answered_covers_iff (hheads : ∀ j, (moments j).head.toNat ≤ (moments (j + 1)).head.toNat)
    (hanswered : Answered moments first n responses)
    (hsmall : headAt moments first n.toNat + 1 + n.toNat < 2 ^ 53)
    (hcurrent : responses.head? = some current) :
    (∀ k ≤ n, ∃ response ∈ responses, response.blockNumber = current.blockNumber + k) ↔
      ∀ i ≤ n.toNat, headAt moments first i = headAt moments first 0 := by
  have hle : ∀ i, headAt moments first 0 ≤ headAt moments first i := fun i =>
    head_le hheads (by omega)
  rw [← covers_iff hle]
  constructor
  · intro hcovers k hk
    have hlt := n.toNat_lt
    have hword : (UInt64.ofNat k).toNat = k := toNat_ofNat_of_lt (by omega)
    have hkn : UInt64.ofNat k ≤ n := UInt64.le_iff_toNat_le.mpr (by rw [hword]; exact hk)
    obtain ⟨response, hmem, heq⟩ := hcovers (UInt64.ofNat k) hkn
    obtain ⟨i, hi⟩ := List.mem_iff_getElem?.mp hmem
    obtain ⟨hin, hnumber⟩ := blockNumber_of_answered hheads hanswered hsmall hi
    have hsum := toNat_current_add hheads hanswered hsmall hcurrent hkn
    rw [← heq, hnumber, hword] at hsum
    exact ⟨i, hin, by omega⟩
  · intro hcovers k hk
    obtain ⟨i, hin, heq⟩ := hcovers k.toNat (UInt64.le_iff_toNat_le.mp hk)
    have hlt : i < responses.length := by
      rw [hanswered.length_eq]
      omega
    obtain ⟨response, hi⟩ : ∃ response, responses[i]? = some response :=
      ⟨_, List.getElem?_eq_getElem hlt⟩
    refine ⟨response, List.mem_of_getElem? hi, ?_⟩
    apply UInt64.toNat_inj.mp
    rw [(blockNumber_of_answered hheads hanswered hsmall hi).2,
      toNat_current_add hheads hanswered hsmall hcurrent hk]
    omega

end

/-- What can be looked up after a fetch that has succeeded: all numbers from that of the first
answer on, to the one `n` further, exactly if each of them was cached before or is that of
another answer, and the cleanup keeps it. If none of them was cached, there is no cleanup and
no number is rounded, this is so exactly if the head is the same at all requests.
SRCLINE: registry_client.go:83-162, gateway_registry/src/main.rs:154-165 -/
theorem noHoles_iff {r r' : RegistryClient} {moments : ℕ → Moment} {n maxRetries : UInt64}
    (hheads : ∀ j, (moments j).head.toNat ≤ (moments (j + 1)).head.toNat)
    (hfetch : r.fetchNextNGateways moments n maxRetries = some (.ok r')) :
    ∃ first responses current, Answered moments first n responses ∧
      responses.head? = some current ∧
      (NoHoles r' current.blockNumber n ↔
        ∀ k ≤ n, Kept r responses (current.blockNumber + k)) ∧
      ((r.updateGatewayInfo responses).gateways.keys.length ≤ 100 →
        (∀ k ≤ n, current.blockNumber + k ∉ r.gateways) →
        headAt moments first n.toNat + 1 + n.toNat < 2 ^ 53 →
        (NoHoles r' current.blockNumber n ↔
          ∀ i ≤ n.toNat, headAt moments first i = headAt moments first 0)) := by
  obtain ⟨first, responses, hanswered, rfl⟩ := answered_of_retry hfetch
  obtain ⟨current, hcurrent⟩ : ∃ current, responses.head? = some current := by
    cases responses with
    | nil => exact absurd hanswered.length_eq (by simp)
    | cons current => exact ⟨current, rfl⟩
  refine ⟨first, responses, current, hanswered, hcurrent, noHoles_iff_kept, ?_⟩
  intro hfew hfresh hsmall
  rw [noHoles_iff_kept, ← answered_covers_iff hheads hanswered hsmall hcurrent]
  refine forall_congr' fun k => imp_congr_right fun hk => ?_
  simp [Kept, hfew, hfresh k hk]

/-! ## A head that stays and one that moves -/

/-- A registry with one gateway, at a head. -/
def plainMoment (head : U256) : Moment where
  head := head
  registry := { gatewayClients := [("http://a", 7, 1)], gatewayUpdateBlocks := 30 }
  reachable := true
  err := "timeout"

/-- A fetch of three gateways at one head. -/
theorem noHoles_plain :
    ∃ r', RegistryClient.new.fetchNextNGateways (fun _ => plainMoment 5) 2 3 = some (.ok r') ∧
      NoHoles r' 6 2 := by
  obtain ⟨r', hfetch⟩ : ∃ r', RegistryClient.new.fetchNextNGateways (fun _ => plainMoment 5) 2 3 =
      some (.ok r') := ⟨_, rfl⟩
  obtain ⟨first, responses, current, hanswered, hcurrent, -, hsame⟩ :=
    noHoles_iff (fun _ => le_rfl) hfetch
  obtain ⟨x, y, z, rfl⟩ := List.length_eq_three.mp hanswered.length_eq
  obtain ⟨rfl⟩ : Except.ok _ = Except.ok x := hanswered.answers 0 x rfl
  obtain ⟨rfl⟩ : Except.ok _ = Except.ok y := hanswered.answers 1 y rfl
  obtain ⟨rfl⟩ : Except.ok _ = Except.ok z := hanswered.answers 2 z rfl
  obtain rfl := Option.some.inj hcurrent
  refine ⟨r', hfetch, (hsame (by decide) ?_ (show 5 + 1 + 2 < 2 ^ 53 by omega)).mpr fun _ _ => rfl⟩
  intro k hk hmem
  cases hmem

/-- The head moves from 5 to 6 after the first request: the answers are for the blocks 6 and 8.
SRCLINE: registry_client.go:103-117 -/
theorem hole_plain :
    ∃ r', RegistryClient.new.fetchNextNGateways
        (fun j => if j = 0 then plainMoment 5 else plainMoment 6) 1 0 = some (.ok r') ∧
      r'.gatewayForBlock 6 = .ok 7 ∧
      r'.gatewayForBlock 7 =
        .error "gateway not cached for block number 7. Latest cached block number: 8" ∧
      r'.gatewayForBlock 8 = .ok 7 ∧ ¬ NoHoles r' 6 1 := by
  obtain ⟨r', hfetch, h6, h7, h8⟩ : ∃ r', RegistryClient.new.fetchNextNGateways
        (fun j => if j = 0 then plainMoment 5 else plainMoment 6) 1 0 = some (.ok r') ∧
      r'.gatewayForBlock 6 = .ok 7 ∧
      r'.gatewayForBlock 7 =
        .error "gateway not cached for block number 7. Latest cached block number: 8" ∧
      r'.gatewayForBlock 8 = .ok 7 := ⟨_, rfl, rfl, by decide, rfl⟩
  refine ⟨r', hfetch, h6, h7, h8, ?_⟩
  intro hnone
  obtain ⟨address, haddress⟩ := hnone 1 (by decide)
  cases h7.symm.trans haddress

end BasedOp.Analysis.GatewayLookups
