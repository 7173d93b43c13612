import BasedOp.Computation.Runs
import BasedOp.Model.BlockFetcher
import BasedOp.Model.SequencerState

/-!
# Requested blocks are fetched

The fetcher holds one range of blocks, from the next one to the last one that is wanted. A
request widens it and a batch takes blocks from its lower end, so a requested block stays in
the range until it is sent. The loop does not fetch a range of one block, though: a block is
sent for sure only if no round begins with the next block as the last one.
-/

set_option autoImplicit false

namespace BasedOp.Analysis.BlockFetching

open BasedOp.Computation Model Model.Gateway

/-- Both ends are in the range. -/
theorem mem_rangeInclusive {first last n : UInt64} :
    n ∈ rangeInclusive first last ↔ first ≤ n ∧ n ≤ last := by
  have hfirst := first.toNat_lt
  have hlast := last.toNat_lt
  have hadd : ∀ i < last.toNat + 1 - first.toNat,
      (first + UInt64.ofNat i).toNat = first.toNat + i := by
    intro i hi
    rw [UInt64.toNat_add, UInt64.toNat_ofNat']
    omega
  simp only [rangeInclusive, List.mem_map, List.mem_range, UInt64.le_iff_toNat_le]
  constructor
  · rintro ⟨i, hi, rfl⟩
    rw [hadd i hi]
    omega
  · rintro ⟨hle, hge⟩
    have hi : n.toNat - first.toNat < last.toNat + 1 - first.toNat := by omega
    refine ⟨n.toNat - first.toNat, hi, UInt64.toNat_inj.mp ?_⟩
    rw [hadd _ hi]
    omega

/-! ## The range of a fetcher -/

/-- A block is still to be fetched. -/
def Remains (b : UInt64) (f : BlockFetcher) : Prop :=
  f.nextBlock ≤ b ∧ b ≤ f.syncUntil

variable {b start stop : UInt64} {f : BlockFetcher}

/-- A request loses no block. -/
theorem remains_handleFetch (h : Remains b f) (request : BlockFetch) :
    Remains b (f.handleFetch request) := by
  obtain ⟨start, stop⟩ := request
  simp only [Remains, BlockFetcher.handleFetch, UInt64.le_iff_toNat_le, UInt64.toNat_min,
    UInt64.toNat_max] at h ⊢
  omega

/-- The blocks of a request remain to be sent. -/
theorem remains_of_request (f : BlockFetcher) (hstart : start ≤ b) (hstop : b ≤ stop) :
    Remains b (f.handleFetch (.fromTo start stop)) := by
  simp only [Remains, BlockFetcher.handleFetch, UInt64.le_iff_toNat_le, UInt64.toNat_min,
    UInt64.toNat_max] at hstart hstop ⊢
  omega

/-- Requests lose no block. -/
theorem remains_foldl (h : Remains b f) (requests : List BlockFetch) :
    Remains b (requests.foldl BlockFetcher.handleFetch f) := by
  induction requests generalizing f with
  | nil => exact h
  | cons request requests ih => exact ih (remains_handleFetch h request)

variable {requests : List BlockFetch} {round first : FetchRound}

/-- The blocks of a request are in the range once it was received, whatever comes with it. -/
theorem remains_of_mem (f : BlockFetcher) (hmem : .fromTo start stop ∈ requests)
    (hstart : start ≤ b) (hstop : b ≤ stop) :
    Remains b (requests.foldl BlockFetcher.handleFetch f) := by
  obtain ⟨before, after, rfl⟩ := List.append_of_mem hmem
  rw [List.foldl_append, List.foldl_cons]
  exact remains_foldl (remains_of_request _ hstart hstop) after

/-- Requests that start above a number do not make the fetcher go back to it. -/
theorem lt_nextBlock_foldl {n : UInt64} (hf : n < f.nextBlock)
    (h : ∀ start stop, .fromTo start stop ∈ requests → n < start) :
    n < (requests.foldl BlockFetcher.handleFetch f).nextBlock := by
  induction requests generalizing f with
  | nil => exact hf
  | cons request requests ih =>
    obtain ⟨start, stop⟩ := request
    refine ih ?_ fun start' stop' hmem => h start' stop' (List.mem_cons_of_mem _ hmem)
    have hstart := h start stop List.mem_cons_self
    simp only [BlockFetcher.handleFetch, UInt64.lt_iff_toNat_lt, UInt64.toNat_min] at hf hstart ⊢
    omega

/-! ## Rounds of the loop -/

/-- A round of the loop. -/
def fetcherStep (f : BlockFetcher) (round : FetchRound) : Option BlockFetcher :=
  some (f.loopBody round).2

/-- The block is sent in a round. -/
def Sends (b : UInt64) (f : BlockFetcher) (round : FetchRound) (_ : BlockFetcher) : Prop :=
  ∃ block ∈ (f.loopBody round).1, block.header.number = b

/-- The provider answers with the block of the number it is asked for. -/
def Answers (round : FetchRound) : Prop :=
  ∀ n, (round.provider n).header.number = n

/-- Counting to the end of a batch does not wrap. -/
def HasRoom (f : BlockFetcher) : Prop :=
  f.syncUntil.toNat + f.batchSize.toNat + 1 < 2 ^ 64

/-- The next block is not the last one, and no number wraps. -/
def CanReach (f : BlockFetcher) (_ : FetchRound) : Prop :=
  f.nextBlock ≠ f.syncUntil ∧ HasRoom f

/-- No request starts at or below the next block. -/
def StaysAhead (f : BlockFetcher) (round : FetchRound) : Prop :=
  ∀ start stop, .fromTo start stop ∈ round.requests → f.nextBlock < start

/-- What a round does with a range of more than one block. -/
theorem loopBody_of_lt (hroom : HasRoom f) (hlt : f.nextBlock < f.syncUntil) (round : FetchRound) :
    ∃ stop : UInt64, stop.toNat = min (f.nextBlock.toNat + f.batchSize.toNat) f.syncUntil.toNat ∧
      (stop + 1).toNat = stop.toNat + 1 ∧
      f.loopBody round = ((rangeInclusive f.nextBlock stop).map round.provider,
        round.requests.foldl BlockFetcher.handleFetch { f with nextBlock := stop + 1 }) := by
  have hbatch : f.fetchBatch round.provider =
      (asyncFetchBlocksAndSendSequentially f.nextBlock
        (min (f.nextBlock + f.batchSize) f.syncUntil) round.provider,
        { f with nextBlock := min (f.nextBlock + f.batchSize) f.syncUntil + 1 }) := if_pos hlt
  have hstop : (min (f.nextBlock + f.batchSize) f.syncUntil).toNat =
      min (f.nextBlock.toNat + f.batchSize.toNat) f.syncUntil.toNat := by
    have := UInt64.lt_iff_toNat_lt.mp hlt
    unfold HasRoom at hroom
    rw [UInt64.toNat_min, UInt64.toNat_add]
    omega
  refine ⟨min (f.nextBlock + f.batchSize) f.syncUntil, hstop, ?_, ?_⟩
  · unfold HasRoom at hroom
    rw [UInt64.toNat_add, hstop]
    change (_ + 1) % 2 ^ 64 = _
    omega
  · simp only [BlockFetcher.loopBody, hbatch, asyncFetchBlocksAndSendSequentially]

/-- A block of the range is sent or remains, with fewer blocks before it. -/
theorem sends_or_remains (hanswers : Answers round) (hreach : CanReach f round) (hb : Remains b f) :
    (Remains b (f.loopBody round).2 ∧
        (StaysAhead f round → f.nextBlock < (f.loopBody round).2.nextBlock)) ∨
      Sends b f round (f.loopBody round).2 := by
  have hlt : f.nextBlock < f.syncUntil :=
    UInt64.lt_of_le_of_ne (UInt64.le_trans hb.1 hb.2) hreach.1
  obtain ⟨stop, hstop, hnext, hloop⟩ := loopBody_of_lt hreach.2 hlt round
  simp only [Sends, hloop]
  by_cases hle : b ≤ stop
  · right
    exact ⟨round.provider b, List.mem_map_of_mem (mem_rangeInclusive.mpr ⟨hb.1, hle⟩), hanswers b⟩
  · left
    have hgt := UInt64.lt_iff_toNat_lt.mp (UInt64.not_le.mp hle)
    have hremains : Remains b { f with nextBlock := stop + 1 } := by
      refine ⟨?_, hb.2⟩
      rw [UInt64.le_iff_toNat_le, hnext]
      exact hgt
    have hahead : f.nextBlock < stop + 1 := by
      have := UInt64.lt_iff_toNat_lt.mp hlt
      rw [UInt64.lt_iff_toNat_lt, hnext]
      omega
    exact ⟨remains_foldl hremains _, lt_nextBlock_foldl hahead⟩

/-- The fetcher never fails. -/
theorem exists_run (f : BlockFetcher) (rounds : List FetchRound) :
    ∃ g, runSteps fetcherStep f rounds = some g := by
  induction rounds generalizing f with
  | nil => exact ⟨f, rfl⟩
  | cons round rounds ih => exact ih (f.loopBody round).2

/-- The blocks of a request are sent by rounds that come after it, once there are enough of them in
which no request goes back, if no round begins with the next block as the last one. -/
theorem occurs_sends {g : BlockFetcher} {busy steady : List FetchRound}
    (hrequest : .fromTo start stop ∈ first.requests) (hstart : start ≤ b) (hstop : b ≤ stop)
    (hanswers : ∀ round ∈ busy ++ steady, Answers round)
    (hreach : Along fetcherStep CanReach (f.loopBody first).2 (busy ++ steady))
    (hbusy : runSteps fetcherStep (f.loopBody first).2 busy = some g)
    (hsteady : Along fetcherStep StaysAhead g steady)
    (hlong : b.toNat - g.nextBlock.toNat < steady.length) :
    Occurs fetcherStep (Sends b) (f.loopBody first).2 (busy ++ steady) := by
  have hanswers' : ∀ {rounds}, (∀ round ∈ rounds, Answers round) → ∀ s,
      Along fetcherStep (fun _ round => Answers round) s rounds :=
    fun h s => along_of_forall_mem (fun round hmem _ => h round hmem) s
  obtain ⟨hbefore, hafter⟩ := List.forall_mem_append.mp hanswers
  obtain ⟨hreach₁, hreach₂⟩ := along_append.mp hreach
  have hstep₁ : ∀ s round s', CanReach s round ∧ Answers round → Remains b s →
      fetcherStep s round = some s' → Remains b s' ∨ Sends b s round s' := by
    rintro s round s' ⟨hcan, hans⟩ hb hs
    obtain rfl := Option.some.inj hs
    exact (sends_or_remains hans hcan hb).imp_left And.left
  have hremains : Remains b (f.loopBody first).2 := remains_of_mem _ hrequest hstart hstop
  obtain hg | hsent := (hreach₁.and (hanswers' hbefore _)).until_occurs hstep₁ hremains hbusy
  · -- the block remains after the busy rounds: now each round comes closer to it
    have hstep₂ : ∀ s round s', (CanReach s round ∧ Answers round) ∧ StaysAhead s round →
        Remains b s → fetcherStep s round = some s' →
        (Remains b s' ∧ b.toNat - s'.nextBlock.toNat < b.toNat - s.nextBlock.toNat) ∨
          Sends b s round s' := by
      rintro s round s' ⟨⟨hcan, hans⟩, hstays⟩ hb hs
      obtain rfl := Option.some.inj hs
      refine (sends_or_remains hans hcan hb).imp_left fun ⟨hb', hlt⟩ => ⟨hb', ?_⟩
      have hlt := UInt64.lt_iff_toNat_lt.mp (hlt hstays)
      have hle := UInt64.le_iff_toNat_le.mp hb'.1
      omega
    obtain ⟨h, hrun⟩ := exists_run g steady
    have halong := ((hreach₂ g hbusy).and (hanswers' hafter g)).and hsteady
    exact Occurs.append_right hbusy (halong.occurs_of_measure hstep₂ hg hrun hlong)
  · exact hsent.append_left

/-! ## Fetching a range without further requests -/

/-- A round in which no request arrives. -/
def quietRound (provider : BlockProvider) : FetchRound where
  provider := provider
  requests := []

/-- When the next block is the last one, nothing is fetched any more. -/
theorem loopBody_of_eq (h : f.nextBlock = f.syncUntil) (provider : BlockProvider) :
    f.loopBody (quietRound provider) = ([], f) := by
  have hnot : ¬f.nextBlock < f.syncUntil := by
    rw [h]
    exact UInt64.lt_irrefl _
  simp only [BlockFetcher.loopBody, BlockFetcher.fetchBatch, if_neg hnot, quietRound,
    List.foldl_nil]

/-- A fetcher that has caught up sends nothing. -/
theorem not_occurs_of_eq (h : f.nextBlock = f.syncUntil) (b : UInt64) (provider : BlockProvider)
    (n : ℕ) :
    ¬Occurs fetcherStep (Sends b) f (List.replicate n (quietRound provider)) := by
  induction n with
  | zero => exact id
  | succ n ih =>
    rintro ⟨g, hg, hsends | hlater⟩
    · obtain ⟨block, hmem, -⟩ := hsends
      rw [loopBody_of_eq h] at hmem
      cases hmem
    · obtain rfl := Option.some.inj hg
      rw [loopBody_of_eq h] at hlater
      exact ih hlater

/-- A block that the next round does not send has to be sent by a later one. -/
theorem exists_occurs_iff (h : ¬Sends b f round (f.loopBody round).2) :
    (∃ n, Occurs fetcherStep (Sends b) f (List.replicate n round)) ↔
      ∃ n, Occurs fetcherStep (Sends b) (f.loopBody round).2 (List.replicate n round) := by
  constructor
  · rintro ⟨n, hn⟩
    cases n with
    | zero => exact hn.elim
    | succ n =>
      obtain ⟨g, hg, hsends | hlater⟩ := hn
      · exact absurd hsends h
      · obtain rfl := Option.some.inj hg
        exact ⟨n, hlater⟩
  · rintro ⟨n, hn⟩
    exact ⟨n + 1, _, rfl, .inr hn⟩

/-- Without further requests the last block of the range is sent exactly if the range
is not some whole batches and one block more. -/
theorem last_sent_iff (hroom : HasRoom f) (hle : f.nextBlock ≤ f.syncUntil)
    {provider : BlockProvider} (hanswers : Answers (quietRound provider)) :
    (∃ n, Occurs fetcherStep (Sends f.syncUntil) f (List.replicate n (quietRound provider))) ↔
      (f.syncUntil.toNat - f.nextBlock.toNat) % (f.batchSize.toNat + 1) ≠ 0 := by
  -- on the length of the range, which a round that does not end it makes shorter by a batch
  induction hd : f.syncUntil.toNat - f.nextBlock.toNat using Nat.strong_induction_on
    generalizing f with
  | _ d ih =>
    have hle := UInt64.le_iff_toNat_le.mp hle
    obtain hzero | hpos := Nat.eq_zero_or_pos d
    · have heq : f.nextBlock = f.syncUntil := UInt64.toNat_inj.mp (by omega)
      simp [hzero, not_occurs_of_eq heq]
    · have hlt : f.nextBlock < f.syncUntil := UInt64.lt_iff_toNat_lt.mpr (by omega)
      obtain ⟨stop, hstop, hnext, hloop⟩ := loopBody_of_lt hroom hlt (quietRound provider)
      obtain hshort | hlong := Nat.lt_or_ge d (f.batchSize.toNat + 1)
      · have hlast : stop = f.syncUntil := UInt64.toNat_inj.mp (by omega)
        have hmem : provider f.syncUntil ∈ (f.loopBody (quietRound provider)).1 := by
          rw [hloop, hlast]
          exact List.mem_map_of_mem
            (mem_rangeInclusive.mpr ⟨UInt64.le_of_lt hlt, UInt64.le_refl _⟩)
        rw [Nat.mod_eq_of_lt hshort]
        exact iff_of_true ⟨1, _, rfl, .inl ⟨_, hmem, hanswers _⟩⟩ (Nat.ne_of_gt hpos)
      · have hrest := ih (d - (f.batchSize.toNat + 1)) (by omega)
          (f := { f with nextBlock := stop + 1 }) hroom
          (UInt64.le_iff_toNat_le.mpr (by dsimp only; omega)) (by dsimp only; omega)
        have hnot : ¬Sends f.syncUntil f (quietRound provider)
            (f.loopBody (quietRound provider)).2 := by
          rintro ⟨block, hmem, hnumber⟩
          rw [hloop] at hmem
          obtain ⟨n, hn, rfl⟩ := List.mem_map.mp hmem
          rw [hanswers n] at hnumber
          have := UInt64.le_iff_toNat_le.mp (mem_rangeInclusive.mp (hnumber ▸ hn)).2
          omega
        rw [Nat.mod_eq_sub_mod hlong, ← hrest, exists_occurs_iff hnot, hloop]
        rfl

/-- What one request that extends the range to both sides leaves to be fetched. -/
theorem loopBody_of_request (hrequest : first.requests = [.fromTo start stop])
    (hstart : start ≤ (f.fetchBatch first.provider).2.nextBlock) (hstop : f.syncUntil ≤ stop) :
    (f.loopBody first).2 =
      { nextBlock := start, syncUntil := stop, batchSize := f.batchSize } := by
  have hsame : (f.fetchBatch first.provider).2.syncUntil = f.syncUntil ∧
      (f.fetchBatch first.provider).2.batchSize = f.batchSize := by
    unfold BlockFetcher.fetchBatch
    split <;> exact ⟨rfl, rfl⟩
  have hnext : min start (f.fetchBatch first.provider).2.nextBlock = start := by
    rw [← UInt64.toNat_inj, UInt64.toNat_min]
    exact Nat.min_eq_left (UInt64.le_iff_toNat_le.mp hstart)
  have hlast : max stop f.syncUntil = stop := by
    rw [← UInt64.toNat_inj, UInt64.toNat_max]
    exact Nat.max_eq_left (UInt64.le_iff_toNat_le.mp hstop)
  simp only [BlockFetcher.loopBody, hrequest, List.foldl_cons, List.foldl_nil,
    BlockFetcher.handleFetch, hsame, hnext, hlast]

/-- The blocks of a request are sent by rounds that come after it, once there are enough of them
in which no request goes back, if no round begins with the next block as the last one. Of a
single request that is followed by none, the last block is sent exactly if the range is not some
whole batches and one block more.
SRCLINE: block_fetcher.rs:33-67 -/
theorem requested_sent (f : BlockFetcher) (first : FetchRound) {start stop : UInt64} :
    (∀ {g : BlockFetcher} {busy steady : List FetchRound} {b : UInt64},
      .fromTo start stop ∈ first.requests → start ≤ b → b ≤ stop →
      (∀ round ∈ busy ++ steady, Answers round) →
      Along fetcherStep CanReach (f.loopBody first).2 (busy ++ steady) →
      runSteps fetcherStep (f.loopBody first).2 busy = some g →
      Along fetcherStep StaysAhead g steady → b.toNat - g.nextBlock.toNat < steady.length →
      Occurs fetcherStep (Sends b) (f.loopBody first).2 (busy ++ steady)) ∧
    (∀ {provider : BlockProvider}, first.requests = [.fromTo start stop] → start ≤ stop →
      start ≤ (f.fetchBatch first.provider).2.nextBlock → f.syncUntil ≤ stop →
      stop.toNat + f.batchSize.toNat + 1 < 2 ^ 64 → Answers (quietRound provider) →
      ((∃ n, Occurs fetcherStep (Sends stop) (f.loopBody first).2
          (List.replicate n (quietRound provider))) ↔
        (stop.toNat - start.toNat) % (f.batchSize.toNat + 1) ≠ 0)) := by
  refine ⟨occurs_sends, fun {provider} hrequest hle hstart hstop hroom hanswers => ?_⟩
  rw [loopBody_of_request hrequest hstart hstop]
  exact last_sent_iff (f := ⟨start, stop, f.batchSize⟩) hroom hle hanswers

/-! ## Two requests -/

/-- A provider whose blocks are empty. -/
def plainProvider : BlockProvider := fun n =>
  { plainBlock plainPayload1 with header := { (plainBlock plainPayload1).header with number := n } }

/-- The example provider answers. -/
theorem answers_plainProvider (requests : List BlockFetch) : Answers ⟨plainProvider, requests⟩ :=
  fun _ => rfl

/-- A fetcher that has fetched everything up to block 10. -/
def plainFetcher : BlockFetcher := (BlockFetcher.new 10).onInit 10

instance (f : BlockFetcher) (round : FetchRound) : Decidable (CanReach f round) :=
  inferInstanceAs (Decidable (_ ≠ _ ∧ _ < _))

/-- Of three blocks the second one is sent, and so is the last one. -/
theorem requested_sent_threeBlocks :
    Occurs fetcherStep (Sends 12) (plainFetcher.loopBody ⟨plainProvider, [.fromTo 11 13]⟩).2
      [quietRound plainProvider, quietRound plainProvider] ∧
    ∃ n, Occurs fetcherStep (Sends 13) (plainFetcher.loopBody ⟨plainProvider, [.fromTo 11 13]⟩).2
      (List.replicate n (quietRound plainProvider)) := by
  have hanswers : ∀ round ∈ [quietRound plainProvider, quietRound plainProvider],
      Answers round := by
    simp only [List.mem_cons, List.not_mem_nil, or_false, or_self, forall_eq]
    exact answers_plainProvider []
  have hsteady : ∀ g, Along fetcherStep StaysAhead g
      [quietRound plainProvider, quietRound plainProvider] := by
    refine along_of_forall_mem fun round hmem g start stop hrequest => ?_
    simp only [List.mem_cons, List.not_mem_nil, or_false, or_self] at hmem
    subst hmem
    cases hrequest
  obtain ⟨hsent, hlast⟩ := @requested_sent plainFetcher ⟨plainProvider, [.fromTo 11 13]⟩ 11 13
  refine ⟨@hsent _ [] _ 12 List.mem_cons_self (by decide) (by decide) hanswers (by decide) rfl
    (hsteady _) (by decide), ?_⟩
  exact (hlast rfl (by decide) (by decide) (by decide) (by decide)
    (answers_plainProvider [])).mpr (by decide)

/-- A request for one block leaves it as the next and as the last one: it is never sent. -/
theorem requested_not_sent :
    ¬∃ n, Occurs fetcherStep (Sends 11)
      (plainFetcher.loopBody ⟨plainProvider, [.fromTo 11 11]⟩).2
      (List.replicate n (quietRound plainProvider)) :=
  fun ⟨n, h⟩ => not_occurs_of_eq rfl 11 plainProvider n h

end BasedOp.Analysis.BlockFetching
