import BasedOp.Analysis.PreconfBlocks
import BasedOp.Computation.Reorder

/-!
# Delivery order does not matter

The messages of consecutive complete blocks reach the preconfirmation state in
any order. `Tracks` relates the state to the in-order channel of
`BasedOp.Computation.Reorder`: what has been forwarded is the longest prefix of
the canonical order that has been delivered, what is pending is what has been
delivered beyond it, and the cursors expect the first message that is missing.
One delivery preserves it (`tracks_put`), so a run does (`tracks_run`), and once
every message has been delivered the canonical order has been forwarded.

On a new state the guard of an env is open until the first seal. There the
canonical order comes out exactly when the envs of the later blocks wait for the
first block.
-/

set_option autoImplicit false

namespace BasedOp.Analysis.PreconfConfluence

open BasedOp.Computation Model Model.OpNode
open PreconfActivation PreconfOrder
open PreconfBlocks

/-! ## One delivery -/

/-- The pending messages are those of `rest` that have been delivered. -/
def PendingIs (s : PreconfState) (rest D : List Message) : Prop :=
  ∀ κ m, pending s κ = some m ↔ key m = κ ∧ m ∈ rest ∧ m ∈ D

/-- No seal has been forwarded, neither before nor during the run. -/
def Cold (s₀ : PreconfState) (done : List Message) : Prop :=
  s₀.lastSealSent = none ∧ ∀ sSeal, Message.sealFrag sSeal ∉ done

/-- The state `s`, reached from `s₀` by delivering the messages `D` of the chain
`L`, has forwarded `done` and not yet `rest`. -/
structure Tracks (s₀ : PreconfState) (L D done rest : List Message) (s : PreconfState) : Prop where
  split : L = done ++ rest
  sent : s.e = s₀.e ++ done
  arrived : ∀ m ∈ done, m ∈ D
  next : ∀ m ∈ rest.head?, m ∉ D ∧ Expecting (cursors s) (key m)
  held : PendingIs s rest D
  cold : s.lastSealSent = none ↔ Cold s₀ done

/-- The state while the expected message `m` is being put. -/
structure Releasing (s₀ : PreconfState) (L D done : List Message) (m : Message)
    (rest : List Message) (s : PreconfState) : Prop where
  split : L = done ++ m :: rest
  sent : s.e = s₀.e ++ done
  arrived : ∀ x ∈ done ++ [m], x ∈ D
  next : Expecting (cursors s) (key m)
  held : PendingIs s rest D
  cold : s.lastSealSent = none ↔ Cold s₀ done

variable {x : Message} {D done rest : List Message} {s : PreconfState} {b : UInt64}

section Delivery

variable {s₀ s : PreconfState} {L D done rest : List Message} {m : Message}

/-- Later messages have higher ranks. -/
theorem rank_lt_of_mem_rest (hL : L.IsChain Follows) (hs : L = done ++ m :: rest) (hx : x ∈ rest) :
    rank (key m) < rank (key x) := by
  have hp := pairwise_rank hL
  rw [hs] at hp
  exact (List.pairwise_cons.mp (List.pairwise_append.mp hp).2.1).1 x hx

/-- Forwarding the expected message prunes nothing that is pending,
because everything pending is of its block or a later one. -/
theorem pending_forward_of_releasing (hL : L.IsChain Follows)
    (h : Releasing s₀ L D done m rest s) (κ : Key) :
    pending (forward s m) κ = pending s κ := by
  rcases pending_forward s m κ with heq | ⟨sEnv, rfl, hprunes, hlt, hnone⟩
  · exact heq
  · rw [hnone]
    cases hp : pending s κ with
    | none => rfl
    | some x =>
      obtain ⟨rfl, hx, -⟩ := (h.held κ x).mp hp
      have hle := block_le_of_rank_le (rank_lt_of_mem_rest hL h.split hx).le
      have hpl := h.next.pruned_le
      simp only [key, Key.block, prunes, pruneSafeWindow] at hle hpl hprunes hlt
      grind

/-- A start stays cold until a seal. -/
theorem cold_forward (h : s.lastSealSent = none ↔ Cold s₀ done) :
    (forward s m).lastSealSent = none ↔ Cold s₀ (done ++ [m]) := by
  have hc : (forward s m).lastSealSent = (advance (cursors s) m).lastSealSent := by
    rw [← cursors_forward]
    rfl
  rw [hc]
  cases m with
  | env sEnv =>
    have hp : (advance (cursors s) (.env sEnv)).lastSealSent = s.lastSealSent := by
      simp only [advance, pruned]
      split_ifs <;> rfl
    rw [hp, h]
    simp [Cold]
  | newFrag => simpa [advance, cursors, Cold] using h
  | sealFrag sSeal =>
    constructor
    · intro hx
      cases hx
    · intro hx
      exact absurd List.mem_concat_self (hx.2 sSeal)

/-- Taking the first message to come out of its pending map leaves those beyond it. -/
theorem pendingIs_forget (hL : L.IsChain Follows) (hs : L = done ++ m :: rest)
    (h : PendingIs s (m :: rest) D) : PendingIs (forget s (key m)) rest D := by
  intro κ x
  rw [pending_forget]
  split_ifs with hκ
  · refine ⟨fun hx => (nomatch hx), ?_⟩
    rintro ⟨hkey, hmem, -⟩
    have hlt := rank_lt_of_mem_rest hL hs hmem
    rw [hkey, hκ] at hlt
    exact absurd hlt (lt_irrefl _)
  · rw [h κ x, List.mem_cons]
    constructor
    · rintro ⟨rfl, rfl | hmem, hD⟩
      · exact absurd rfl hκ
      · exact ⟨rfl, hmem, hD⟩
    · rintro ⟨hkey, hmem, hD⟩
      exact ⟨hkey, Or.inr hmem, hD⟩

/-- The next message was not delivered. -/
theorem pending_nextKey_eq_none (h : PendingIs s rest D)
    (hmissing : ∀ x ∈ rest, key x = nextKey m → x ∉ D) : pending s (nextKey m) = none := by
  rw [Option.eq_none_iff_forall_ne_some]
  intro x hx
  obtain ⟨hkey, hmem, hD⟩ := (h _ x).mp hx
  exact hmissing x hmem hkey hD

/-- One step of the cascade stops with the follower missing, or goes on with it. -/
theorem releasing_step (hL : L.IsChain Follows) (h : Releasing s₀ L D done m rest s) :
    (∃ rest', (s.putBody m).2 = none ∧ Tracks s₀ L D (done ++ [m]) rest' (s.putBody m).1) ∨
    (∃ m' rest', (s.putBody m).2 = some m' ∧
      Releasing s₀ L D (done ++ [m]) m' rest' (s.putBody m).1) := by
  have hready := ready_of_expecting h.next
  have hsplit : L = (done ++ [m]) ++ rest := by rw [h.split, List.append_cons]
  have hsent : (forward s m).e = s₀.e ++ (done ++ [m]) := by
    rw [e_forward, h.sent, List.append_assoc]
  have hheld : PendingIs (forward s m) rest D := by
    intro κ x
    rw [pending_forward_of_releasing hL h]
    exact h.held κ x
  have hcold := cold_forward (m := m) h.cold
  cases rest with
  | nil =>
    have hnone : pending (forward s m) (nextKey m) = none := by
      apply pending_nextKey_eq_none hheld
      intro x hx
      cases hx
    refine Or.inl ⟨[], ?_⟩
    rw [putBody_of_no_follower hready hnone]
    exact ⟨rfl, hsplit, hsent, h.arrived, by simp, hheld, hcold⟩
  | cons y rest =>
    have hfollows : Follows m y := by
      have hc := hL
      rw [h.split] at hc
      exact (List.isChain_cons_cons.mp hc.right_of_append).1
    have hrest : ∀ x ∈ y :: rest, x ∈ L := by
      intro x hx
      rw [hsplit]
      exact List.mem_append_right _ hx
    have hexp : Expecting (cursors (forward s m)) (key y) := by
      rw [cursors_forward]
      exact expecting_advance h.next hfollows
    by_cases hy : y ∈ D
    · have hsome : pending (forward s m) (nextKey m) = some y :=
        (hheld _ y).mpr ⟨hfollows.1, List.mem_cons_self, hy⟩
      refine Or.inr ⟨y, rest, ?_⟩
      rw [putBody_of_follower hready hsome, ← hfollows.1]
      refine ⟨rfl, hsplit, ?_, ?_, ?_, pendingIs_forget hL hsplit hheld, ?_⟩
      · rw [e_forget, hsent]
      · intro x hx
        rcases List.mem_append.mp hx with hx | hx
        · exact h.arrived x hx
        · rwa [List.mem_singleton.mp hx]
      · rw [cursors_forget]
        exact hexp
      · have hseal : (forget (forward s m) (key y)).lastSealSent = (forward s m).lastSealSent :=
          congrArg Cursors.lastSealSent (cursors_forget _ _)
        rw [hseal]
        exact hcold
    · have hnone : pending (forward s m) (nextKey m) = none := by
        apply pending_nextKey_eq_none hheld
        intro x hmem hkey
        rw [← hfollows.1] at hkey
        obtain rfl := eq_of_key_eq hL (hrest x hmem) (hrest y List.mem_cons_self) hkey
        exact hy
      refine Or.inl ⟨y :: rest, ?_⟩
      rw [putBody_of_no_follower hready hnone]
      refine ⟨rfl, hsplit, hsent, h.arrived, ?_, hheld, hcold⟩
      intro x hx
      obtain rfl : y = x := by simpa using hx
      exact ⟨hy, hexp⟩

/-- The cascade started by the expected message releases what has been delivered. -/
theorem tracks_put_expected (hL : L.IsChain Follows) (h : Releasing s₀ L D done m rest s) :
    ∃ done' rest', Tracks s₀ L D done' rest' (s.put m) := by
  refine PreconfState.cascade.run_induction
    (fun s m => ∃ done rest, Releasing s₀ L D done m rest s)
    (fun s => ∃ done rest, Tracks s₀ L D done rest s) ?_ ?_ s m ⟨done, rest, h⟩
  · rintro s m ⟨done, rest, h⟩ hnone
    rcases releasing_step hL h with ⟨rest', -, ht⟩ | ⟨m', rest', hsome, -⟩
    · exact ⟨_, rest', ht⟩
    · exact absurd (hsome.symm.trans hnone) (by simp)
  · rintro s m m' ⟨done, rest, h⟩ hcall
    rcases releasing_step hL h with ⟨rest', hnone, -⟩ | ⟨m'', rest', hsome, hr⟩
    · exact absurd (hnone.symm.trans hcall) (by simp)
    · obtain rfl : m'' = m' := Option.some.inj (hsome.symm.trans hcall)
      exact ⟨_, rest', hr⟩

/-- A kept message is delivered. -/
theorem pendingIs_keep (hL : L.IsChain Follows) (hs : L = done ++ rest) (hm : m ∈ rest)
    (h : PendingIs s rest D) : PendingIs (keep s m) rest (D ++ [m]) := by
  have hrest : ∀ x ∈ rest, x ∈ L := by
    intro x hx
    rw [hs]
    exact List.mem_append_right _ hx
  intro κ x
  rw [pending_keep, List.mem_append, List.mem_singleton]
  split_ifs with hκ
  · rw [Option.some.injEq]
    constructor
    · rintro rfl
      exact ⟨hκ.symm, hm, Or.inr rfl⟩
    · rintro ⟨hkey, hx, -⟩
      exact eq_of_key_eq hL (hrest m hm) (hrest x hx) (hkey.trans hκ).symm
  · rw [h κ x]
    constructor
    · rintro ⟨hkey, hx, hD⟩
      exact ⟨hkey, hx, Or.inl hD⟩
    · rintro ⟨hkey, hx, hD | rfl⟩
      · exact ⟨hkey, hx, hD⟩
      · exact absurd hkey.symm hκ

/-- A message beyond the expected one is not forwarded. -/
theorem Tracks.putBody_later (hL : L.IsChain Follows) (h : Tracks s₀ L D done (x :: rest) s)
    (hm : m ∈ rest)
    (hcold : s.lastSealSent = none → ∀ sEnv, m = .env sEnv → sEnv.env.number = (key x).block) :
    s.putBody m = (keep s m, none) := by
  have hlt := rank_lt_of_mem_rest hL h.split hm
  obtain ⟨-, hexp⟩ := h.next x rfl
  have hready : ¬ ready (cursors s) m := by
    intro hr
    have hkey := key_eq_of_ready hexp hlt.le hr hcold
    rw [hkey] at hlt
    exact absurd hlt (lt_irrefl _)
  exact putBody_of_not_ready hready
    (UInt64.le_trans hexp.pruned_le (block_le_of_rank_le hlt.le))

/-- A message beyond the expected one is kept. -/
theorem tracks_put_later (hL : L.IsChain Follows) (h : Tracks s₀ L D done (x :: rest) s)
    (hm : m ∈ rest)
    (hcold : s.lastSealSent = none → ∀ sEnv, m = .env sEnv → sEnv.env.number = (key x).block) :
    Tracks s₀ L (D ++ [m]) done (x :: rest) (s.put m) := by
  have hlt := rank_lt_of_mem_rest hL h.split hm
  obtain ⟨hx, hexp⟩ := h.next x rfl
  have hne : m ≠ x := by
    rintro rfl
    exact absurd hlt (lt_irrefl _)
  have hput : s.put m = keep s m :=
    PreconfState.cascade.run_of_step_none (h.putBody_later hL hm hcold)
  rw [hput]
  refine ⟨h.split, ?_, ?_, ?_, ?_, ?_⟩
  · rw [e_keep, h.sent]
  · intro y hy
    exact List.mem_append_left _ (h.arrived y hy)
  · intro y hy
    obtain rfl : x = y := by simpa using hy
    rw [cursors_keep]
    simp [hx, Ne.symm hne, hexp]
  · exact pendingIs_keep hL h.split (List.mem_cons_of_mem _ hm) h.held
  · have hseal : (keep s m).lastSealSent = s.lastSealSent :=
      congrArg Cursors.lastSealSent (cursors_keep _ _)
    rw [hseal, h.cold]

/-- The expected message is delivered, and is not pending. -/
theorem Tracks.releasing (hL : L.IsChain Follows) (h : Tracks s₀ L D done (m :: rest) s)
    (hD : m ∉ D) : Releasing s₀ L (D ++ [m]) done m rest s := by
  refine ⟨h.split, h.sent, ?_, (h.next m rfl).2, ?_, h.cold⟩
  · intro y hy
    rcases List.mem_append.mp hy with hy | hy
    · exact List.mem_append_left _ (h.arrived y hy)
    · exact List.mem_append_right _ hy
  · intro κ y
    rw [h.held κ y, List.mem_append, List.mem_singleton, List.mem_cons]
    constructor
    · rintro ⟨hkey, rfl | hy, hyD⟩
      · exact absurd hyD hD
      · exact ⟨hkey, hy, Or.inl hyD⟩
    · rintro ⟨hkey, hy, hyD | rfl⟩
      · exact ⟨hkey, Or.inr hy, hyD⟩
      · exact absurd (rank_lt_of_mem_rest hL h.split hy) (lt_irrefl _)

/-- A new message was not forwarded. -/
theorem Tracks.mem_rest (h : Tracks s₀ L D done rest s) (hm : m ∈ L) (hD : m ∉ D) : m ∈ rest := by
  rw [h.split, List.mem_append] at hm
  exact hm.resolve_left fun hdone => hD (h.arrived m hdone)

/-- One delivery of a message of the chain. While no seal has been sent
the env of a later block must not come. -/
theorem tracks_put (hL : L.IsChain Follows) (h : Tracks s₀ L D done rest s) (hm : m ∈ L)
    (hD : m ∉ D) (hcold : s.lastSealSent = none → ∀ sEnv, m = .env sEnv →
      ∀ x ∈ rest.head?, sEnv.env.number = (key x).block) :
    ∃ done' rest', Tracks s₀ L (D ++ [m]) done' rest' (s.put m) := by
  have hrest := h.mem_rest hm hD
  cases rest with
  | nil => cases hrest
  | cons x rest =>
    rcases List.mem_cons.mp hrest with rfl | hlater
    · exact tracks_put_expected hL (h.releasing hL hD)
    · exact ⟨done, x :: rest, tracks_put_later hL h hlater fun hn sEnv he => hcold hn sEnv he x rfl⟩

end Delivery

/-! ## Runs -/

/-- Every message of block `b` comes before the envs of the other blocks. -/
def Waits (b : UInt64) (L ms : List Message) : Prop :=
  ∀ pre sEnv post, ms = pre ++ Message.env sEnv :: post → sEnv.env.number ≠ b →
    ∀ x ∈ L, (key x).block = b → x ∈ pre

section Run

variable {b : UInt64} {blocks : List CompleteBlock} {s₀ : PreconfState}

/-- The first part waits, too. -/
theorem Waits.of_append {L ms ms' : List Message} (h : Waits b L (ms ++ ms')) : Waits b L ms := by
  intro pre sEnv post hms
  refine h pre sEnv (post ++ ms') ?_
  rw [hms, List.append_assoc, List.cons_append]

/-- The next message is of the stream. -/
theorem Tracks.mem_of_head? {L : List Message} (h : Tracks s₀ L D done rest s)
    (hx : x ∈ rest.head?) : x ∈ L := by
  rw [h.split]
  exact List.mem_append_right _ (List.mem_of_head? hx)

/-- As long as no seal has been sent, the message that is missing is of the first block. -/
theorem Tracks.block_of_cold (h : Tracks s₀ (canonical blocks) D done rest s)
    (hb : Consecutive b blocks) (hcold : Cold s₀ done) (hx : x ∈ rest.head?) :
    (key x).block = b := by
  cases rest with
  | nil => simp at hx
  | cons y =>
    obtain rfl : y = x := by simpa using hx
    exact block_eq_of_no_seal hb h.split hcold.2

/-- The handler puts the messages one after the other. -/
theorem preconfHandler_message (s : PreconfState) (ms : List Message) :
    preconfHandler s (ms.map .message) = ms.foldl PreconfState.put s := by
  simp only [preconfHandler, List.foldl_map, handle_message]

/-- The state and the in-order channel agree after every delivery of
distinct messages, if on a state that has sent no seal the later envs wait. -/
theorem tracks_run (hb : Consecutive b blocks) (hexp : Expecting (cursors s₀) (.env b))
    (hempty : ∀ κ, pending s₀ κ = none) (ms : List Message) (hnodup : ms.Nodup)
    (hsub : ∀ m ∈ ms, m ∈ canonical blocks)
    (hwait : s₀.lastSealSent = none → Waits b (canonical blocks) ms) :
    ∃ done rest, Tracks s₀ (canonical blocks) ms done rest (ms.foldl PreconfState.put s₀) := by
  -- the induction adds the delivery made last
  induction ms using List.reverseRecOn with
  | nil =>
    refine ⟨[], canonical blocks, rfl, by simp, by simp, ?_, ?_, by simp [Cold]⟩
    · intro m hm
      rw [key_of_head? hb hm]
      exact ⟨by simp, hexp⟩
    · intro κ m
      simp [hempty]
  | append_singleton ms m ih =>
    have hsplit := List.nodup_append.mp hnodup
    have hm : m ∉ ms := fun hmem => hsplit.2.2 m hmem m (by simp) rfl
    obtain ⟨done, rest, h⟩ := ih hsplit.1 (fun x hx => hsub x (List.mem_append_left _ hx))
      (fun hn => (hwait hn).of_append)
    rw [List.foldl_append]
    refine tracks_put (isChain_canonical hb) h (hsub m (by simp)) hm ?_
    rintro hnone sEnv rfl x hx
    have hblock := h.block_of_cold hb (h.cold.mp hnone) hx
    by_contra hne
    -- the env of a later block has waited for the message that is missing
    have hx' : x ∈ ms :=
      hwait (h.cold.mp hnone).1 ms sEnv [] rfl (fun he => hne (he.trans hblock.symm))
      x (h.mem_of_head? hx) hblock
    exact (h.next x hx).1 hx'

/-- The state hands on what the in-order channel releases. -/
theorem preconfHandler_e_eq_released (hb : Consecutive b blocks)
    (hexp : Expecting (cursors s₀) (.env b)) (hempty : ∀ κ, pending s₀ κ = none)
    (ms : List Message) (hnodup : ms.Nodup) (hsub : ∀ m ∈ ms, m ∈ canonical blocks)
    (hwait : s₀.lastSealSent = none → Waits b (canonical blocks) ms) :
    (preconfHandler s₀ (ms.map .message)).e = s₀.e ++ released (canonical blocks) ms := by
  obtain ⟨done, rest, h⟩ := tracks_run hb hexp hempty ms hnodup hsub hwait
  rw [preconfHandler_message, h.sent,
    released_eq_of_append h.split h.arrived fun x hx => (h.next x hx).1]

/-- If nothing is pending, the maps are empty. -/
theorem maps_empty_of_pending (h : ∀ κ, pending s κ = none) :
    s.pendingEnvs = ∅ ∧ s.pendingFrags = ∅ ∧ s.pendingSeals = ∅ := by
  refine ⟨?_, ?_, ?_⟩
  · exact eq_empty_of_lookup_eq_none fun n => Option.map_eq_none_iff.mp (h (.env n))
  · exact eq_empty_of_lookup_eq_none fun idx => Option.map_eq_none_iff.mp (h (.frag idx))
  · exact eq_empty_of_lookup_eq_none fun n => Option.map_eq_none_iff.mp (h (.sealFrag n))

/-- Once every message has been delivered, nothing is pending. -/
theorem pending_preconfHandler (hb : Consecutive b blocks)
    (hexp : Expecting (cursors s₀) (.env b)) (hempty : ∀ κ, pending s₀ κ = none)
    (ms : List Message) (hnodup : ms.Nodup) (hmem : ∀ m, m ∈ ms ↔ m ∈ canonical blocks)
    (hwait : s₀.lastSealSent = none → Waits b (canonical blocks) ms) (κ : Key) :
    pending (preconfHandler s₀ (ms.map .message)) κ = none := by
  obtain ⟨done, rest, h⟩ := tracks_run hb hexp hempty ms hnodup (fun m => (hmem m).mp) hwait
  have hrest : rest = [] := by
    cases rest with
    | nil => rfl
    | cons x => exact absurd ((hmem x).mpr (h.mem_of_head? rfl)) (h.next x rfl).1
  subst hrest
  rw [preconfHandler_message, Option.eq_none_iff_forall_ne_some]
  intro m hm
  obtain ⟨-, hnil, -⟩ := (h.held κ m).mp hm
  cases hnil

end Run

/-! ## From a sealed block -/

/-- The state between the seal of block `b - 1` and the env of block `b`. -/
structure SealedBefore (s : PreconfState) (b : UInt64) : Prop where
  pendingEnvs : s.pendingEnvs = ∅
  pendingFrags : s.pendingFrags = ∅
  pendingSeals : s.pendingSeals = ∅
  lastSealSent : s.lastSealSent = some (b - 1)
  lastBlockPruned : s.lastBlockPruned ≤ b
  lastL2BlockSent : ∀ n, s.lastL2BlockSent = some n → n < b
  lastEnvSent : ∀ n, s.lastEnvSent = some n → n < b
  lastFragSent : ∀ idx, s.lastFragSent = some idx → idx.blockNumber < b
  lastBlockWithAllFrags : ∀ n, s.lastBlockWithAllFrags = some n → n < b

/-- After a seal the next env is expected. -/
theorem SealedBefore.expecting (h : SealedBefore s b) : Expecting (cursors s) (.env b) :=
  ⟨Or.inr h.lastSealSent, h.lastL2BlockSent, h.lastBlockPruned,
    h.lastEnvSent, h.lastFragSent, h.lastBlockWithAllFrags⟩

/-- Delivery-order confluence: from a state that has sealed block `b - 1`, the messages of
consecutive complete blocks from `b` on are forwarded in their canonical order, each of them once,
whatever the order of delivery, and none is left pending.
SRCLINE: preconf.go:124-189,206-233 -/
theorem preconfHandler_confluent (s : PreconfState) (b : UInt64) (blocks : List CompleteBlock)
    (ms : List Message) (hs : SealedBefore s b) (hb : Consecutive b blocks)
    (hms : ms.Perm (canonical blocks)) :
    (preconfHandler s (ms.map .message)).e = s.e ++ canonical blocks ∧
    ((canonical blocks).map key).Nodup ∧
    (preconfHandler s (ms.map .message)).pendingEnvs = ∅ ∧
    (preconfHandler s (ms.map .message)).pendingFrags = ∅ ∧
    (preconfHandler s (ms.map .message)).pendingSeals = ∅ := by
  have hkeys := nodup_map_key (isChain_canonical hb)
  have hnodup : ms.Nodup := hms.nodup_iff.mpr hkeys.of_map
  have hempty := pending_of_maps_empty hs.pendingEnvs hs.pendingFrags hs.pendingSeals
  have hwarm : s.lastSealSent = none → Waits b (canonical blocks) ms := by
    rw [hs.lastSealSent]
    intro h
    cases h
  refine ⟨?_, hkeys, maps_empty_of_pending fun κ => ?_⟩
  · rw [preconfHandler_e_eq_released hb hs.expecting hempty ms hnodup
      (fun m => hms.mem_iff.mp) hwarm, released_of_subset fun m => hms.mem_iff.mpr]
  · exact pending_preconfHandler hb hs.expecting hempty ms hnodup (fun m => hms.mem_iff) hwarm κ

/-- The state after block 4 has been sealed, with nothing pending. -/
def sealedFour : PreconfState :=
  { newPreconfState with
    lastEnvSent := some 4
    lastFragSent := some ⟨4, 2⟩
    lastSealSent := some 4
    lastL2BlockSent := some 3
    lastBlockWithAllFrags := some 4 }

/-- The messages of blocks 5 and 6, delivered backwards from the seal of block 6. -/
theorem preconfHandler_confluent_backwards :
    (preconfHandler sealedFour
      ((canonical [minimalBlock 5, minimalBlock 6]).reverse.map .message)).e =
      canonical [minimalBlock 5, minimalBlock 6] :=
  (preconfHandler_confluent sealedFour 5 [minimalBlock 5, minimalBlock 6]
    (canonical [minimalBlock 5, minimalBlock 6]).reverse
    ⟨rfl, rfl, rfl, rfl, by decide, by simp [sealedFour], by simp [sealedFour],
      by simp [sealedFour], by simp [sealedFour]⟩
    (fun i hi => by match i, hi with | 0, _ => rfl | 1, _ => rfl) (List.reverse_perm _)).1

/-! ## From a new state -/

/-- At the start any env is. -/
theorem expecting_newPreconfState (b : UInt64) : Expecting (cursors newPreconfState) (.env b) :=
  ⟨Or.inl rfl, by simp [cursors, newPreconfState], UInt64.zero_le, by simp [cursors, newPreconfState],
    by simp [cursors, newPreconfState], by simp [cursors, newPreconfState]⟩

variable {blocks : List CompleteBlock}

/-- While a message of the first block is missing, no seal has been forwarded. -/
theorem Tracks.cold_of_missing (h : Tracks newPreconfState (canonical blocks) D done rest s)
    (hb : Consecutive b blocks) (hx : x ∈ canonical blocks) (hblock : (key x).block = b)
    (hD : x ∉ D) :
    Cold newPreconfState done := by
  refine ⟨rfl, fun sSeal hseal => ?_⟩
  have hp := pairwise_rank (isChain_canonical hb)
  have hle := le_block_of_mem_canonical hb (x := .sealFrag sSeal)
    (h.split ▸ List.mem_append_left _ hseal)
  rw [h.split, List.mem_append] at hx
  have hrest : x ∈ rest := hx.resolve_left fun hdone => hD (h.arrived x hdone)
  rw [h.split] at hp
  have hlt := (List.pairwise_append.mp hp).2.2 _ hseal x hrest
  rcases rank_lt_iff.mp hlt with hlt | ⟨-, hph⟩
  · rw [hblock] at hlt
    exact absurd (UInt64.lt_of_lt_of_le hlt hle) (UInt64.lt_irrefl _)
  · have hx := phase_lt (key x)
    have hs : phase (key (.sealFrag sSeal)) = 1 + 2 ^ 64 := rfl
    omega

/-- If what a new state has forwarded is a part of the canonical order,
the later envs have waited for the first block. -/
theorem waits_of_isPrefix (hb : Consecutive b blocks) (ms : List Message) (hnodup : ms.Nodup)
    (hsub : ∀ m ∈ ms, m ∈ canonical blocks)
    (hpre : (ms.foldl PreconfState.put newPreconfState).e <+: canonical blocks) :
    Waits b (canonical blocks) ms := by
  induction ms using List.reverseRecOn with
  | nil => intro pre sEnv post hms; simp at hms
  | append_singleton ms m ih =>
    have hnodup' := (List.nodup_append.mp hnodup).1
    have hsub' : ∀ m ∈ ms, m ∈ canonical blocks := fun x hx => hsub x (List.mem_append_left _ hx)
    rw [List.foldl_append] at hpre
    have hwait := ih hnodup' hsub' ((e_isPrefix_put _ m).trans hpre)
    intro pre sEnv post hms hne x hx hblock
    rcases List.eq_nil_or_concat' post with rfl | ⟨post, m', rfl⟩
    · obtain ⟨rfl, hm⟩ := List.append_inj' hms rfl
      obtain rfl := (List.cons.inj hm).1
      by_contra hmissing
      obtain ⟨done, rest, h⟩ := tracks_run hb (expecting_newPreconfState b)
        (pending_of_maps_empty rfl rfl rfl) ms hnodup' hsub' fun _ => hwait
      have hcold := h.cold_of_missing hb hx hblock hmissing
      -- no seal has been sent, so the env is forwarded at once
      have hready : ready (cursors (ms.foldl PreconfState.put newPreconfState)) (.env sEnv) :=
        Or.inl (h.cold.mpr hcold)
      have hsent := (e_isPrefix_put_of_ready hready).trans hpre
      rw [h.sent, show newPreconfState.e = [] from rfl, List.nil_append, h.split,
        List.prefix_append_right_inj] at hsent
      obtain ⟨rest', hrest⟩ := hsent
      have hhead : Message.env sEnv ∈ rest.head? := by
        rw [← hrest]
        rfl
      exact hne (h.block_of_cold hb hcold hhead)
    · rw [← List.cons_append, ← List.append_assoc] at hms
      obtain ⟨rfl, -⟩ := List.append_inj' hms rfl
      exact hwait pre sEnv post rfl hne x hx hblock

/-- Blocks 1 and 2, with the env of block 2 delivered first. -/
def earlyEnv : List Message :=
  [.env (minimalBlock 2).env, .env (minimalBlock 1).env] ++
    ((minimalBlock 1).messages.tail ++ (minimalBlock 2).messages.tail)

/-- On a new state the env of block 2 is forwarded before that of block 1, and
then the frag and the seal of block 2 are not forwarded at all.
SRCLINE: preconf.go:126 -/
theorem preconfHandler_new_not_confluent :
    Consecutive 1 [minimalBlock 1, minimalBlock 2] ∧
    earlyEnv.Perm (canonical [minimalBlock 1, minimalBlock 2]) ∧
    (preconfHandler newPreconfState (earlyEnv.map .message)).e =
      [.env (minimalBlock 2).env] ++ (minimalBlock 1).messages ∧
    (preconfHandler newPreconfState (earlyEnv.map .message)).e ≠
      canonical [minimalBlock 1, minimalBlock 2] :=
  ⟨fun i hi => by match i, hi with | 0, _ => rfl | 1, _ => rfl, by decide +kernel,
    by decide +kernel, by decide +kernel⟩

/-- Cold start: a new state forwards the messages of consecutive complete blocks in their canonical
order exactly when the envs of the later blocks are delivered after all messages of the first block.
Until the first seal has been sent every env is forwarded as it comes.
SRCLINE: preconf.go:98-114,124-189 -/
theorem preconfHandler_new_iff (b : UInt64) (blocks : List CompleteBlock) (ms : List Message)
    (hb : Consecutive b blocks) (hms : ms.Perm (canonical blocks)) :
    (preconfHandler newPreconfState (ms.map .message)).e = canonical blocks ↔
      Waits b (canonical blocks) ms := by
  have hnodup : ms.Nodup := hms.nodup_iff.mpr (nodup_map_key (isChain_canonical hb)).of_map
  constructor
  · intro he
    rw [preconfHandler_message] at he
    exact waits_of_isPrefix hb ms hnodup (fun m => hms.mem_iff.mp) (he ▸ List.prefix_rfl)
  · intro hwait
    rw [preconfHandler_e_eq_released hb (expecting_newPreconfState b)
      (pending_of_maps_empty rfl rfl rfl) ms hnodup (fun m => hms.mem_iff.mp) fun _ => hwait,
      released_of_subset fun m => hms.mem_iff.mpr]
    rfl

/-- The messages of blocks 1 and 2, delivered in order to a new state. -/
theorem preconfHandler_new_iff_in_order :
    (preconfHandler newPreconfState
      ((canonical [minimalBlock 1, minimalBlock 2]).map .message)).e =
      canonical [minimalBlock 1, minimalBlock 2] ↔
    Waits 1 (canonical [minimalBlock 1, minimalBlock 2])
      (canonical [minimalBlock 1, minimalBlock 2]) :=
  preconfHandler_new_iff 1 [minimalBlock 1, minimalBlock 2] _
    (fun i hi => by match i, hi with | 0, _ => rfl | 1, _ => rfl) (List.Perm.refl _)

end BasedOp.Analysis.PreconfConfluence
