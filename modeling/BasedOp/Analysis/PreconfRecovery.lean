import BasedOp.Analysis.PreconfConfluence

/-!
# An L2 block closes a gap

When a message is lost, the blocks after it wait: the env of a block is forwarded only after the
seal of the block before it. A safe L2 block ends this. From then on the blocks from its number on
are forwarded in their order, each message once, whatever waited already and in whatever order the
rest is delivered, although the gap stays (`resumes_at_l2Block`).

The state behaves like one that has sealed the block before the L2 block and has nothing older
pending (`Mends`), and that one hands on the blocks in order.
-/

set_option autoImplicit false

namespace BasedOp.Analysis.PreconfRecovery

open Model Model.OpNode
open PreconfActivation PreconfOrder
open PreconfBlocks PreconfConfluence

/-! ## The state without the gap -/

/-- An L2 block of number `b` has come last, and a seal has been sent. -/
structure PutAt (b : UInt64) (c : Cursors) : Prop where
  l2Block : c.lastL2BlockSent = some b
  warm : c.lastSealSent ≠ none

/-- The cursors without the gap before block `b`. -/
def mend (b : UInt64) (c : Cursors) : Cursors :=
  { c with
    lastSealSent := c.lastSealSent.map fun n => if n < b then b - 1 else n
    lastL2BlockSent := none }

/-- An L2 block has put the state `s` at block `b`, and `t` is the state without the gap. -/
structure Mends (b : UInt64) (s t : PreconfState) : Prop where
  putAt : PutAt b (cursors s)
  cursors_eq : cursors t = mend b (cursors s)
  pending_eq : ∀ κ, b ≤ κ.block → pending t κ = pending s κ
  e : t.e = s.e

section

variable {b : UInt64} {c : Cursors} {m : Message}

/-- Pruning commutes with mending. -/
theorem pruned_mend (b : UInt64) (c : Cursors) (n : UInt64) :
    pruned (mend b c) n = mend b (pruned c n) := by
  have hsame : prunes (mend b c) n ↔ prunes c n := Iff.rfl
  by_cases hp : prunes c n
  · rw [pruned, pruned, if_pos hp, if_pos (hsame.mpr hp)]
    rfl
  · rw [pruned, pruned, if_neg hp, if_neg (mt hsame.mp hp)]

/-- Pruning keeps the L2 block. -/
theorem PutAt.after_pruned (h : PutAt b c) (n : UInt64) : PutAt b (pruned c n) := by
  rw [pruned]
  split_ifs
  · exact ⟨h.l2Block, h.warm⟩
  · exact h

/-- So does advancing, from the block on. -/
theorem advance_mend (hm : b ≤ (key m).block) : advance (mend b c) m = mend b (advance c m) := by
  cases m with
  | env sEnv => exact pruned_mend b { c with lastEnvSent := some sEnv.env.number } _
  | newFrag => rfl
  | sealFrag sSeal =>
    have hle : ¬ sSeal.sealData.blockNumber < b := UInt64.not_lt.mpr hm
    simp only [advance, mend, Option.map_some, if_neg hle]

/-- Advancing keeps the L2 block. -/
theorem PutAt.after_advance (h : PutAt b c) (m : Message) : PutAt b (advance c m) := by
  cases m with
  | env sEnv =>
    have henv : PutAt b { c with lastEnvSent := some sEnv.env.number } := ⟨h.l2Block, h.warm⟩
    exact henv.after_pruned sEnv.env.number
  | newFrag => exact ⟨h.l2Block, h.warm⟩
  | sealFrag => exact ⟨h.l2Block, Option.some_ne_none _⟩

end

section

variable {b : UInt64} {s t : PreconfState} (h : Mends b s t) {m : Message}

include h

/-- The two states forward the same messages at once. -/
theorem Mends.ready_iff (hpos : 0 < b) (hm : b ≤ (key m).block)
    (hfirst : key m = .env b → t.lastSealSent = some (b - 1)) :
    ready (cursors t) m ↔ ready (cursors s) m := by
  have hseal : t.lastSealSent = _ := congrArg Cursors.lastSealSent h.cursors_eq
  rw [h.cursors_eq]
  cases m with
  | newFrag => rfl
  | sealFrag => rfl
  | env =>
    obtain ⟨n, hn⟩ := Option.ne_none_iff_exists'.mp h.putAt.warm
    simp only [key, Key.block, Key.env.injEq] at hm hfirst
    simp only [ready, mend, hn, h.putAt.l2Block, hseal, Option.map_some, reduceCtorEq,
      Option.some.injEq, false_or, or_false] at hfirst ⊢
    split_ifs at hfirst ⊢ with hlt
    · grind
    · grind

/-- Both states are pruned. -/
theorem Mends.after_prune (n : UInt64) : Mends b (s.prune n) (t.prune n) where
  putAt := by
    rw [cursors_prune]
    exact h.putAt.after_pruned n
  cursors_eq := by rw [cursors_prune, cursors_prune, h.cursors_eq, pruned_mend]
  pending_eq κ hκ := by
    rw [pending_prune, pending_prune, h.pending_eq κ hκ, h.cursors_eq]
    rfl
  e := by rw [e_prune, e_prune, h.e]

/-- Both states forget the same. -/
theorem Mends.after_forget (κ : Key) : Mends b (forget s κ) (forget t κ) where
  putAt := by
    rw [cursors_forget]
    exact h.putAt
  cursors_eq := by rw [cursors_forget, cursors_forget, h.cursors_eq]
  pending_eq κ' hκ := by rw [pending_forget, pending_forget, h.pending_eq κ' hκ]
  e := by rw [e_forget, e_forget, h.e]

/-- Both states keep the same. -/
theorem Mends.after_keep (m : Message) : Mends b (keep s m) (keep t m) where
  putAt := by
    rw [cursors_keep]
    exact h.putAt
  cursors_eq := by rw [cursors_keep, cursors_keep, h.cursors_eq]
  pending_eq κ hκ := by rw [pending_keep, pending_keep, h.pending_eq κ hκ]
  e := by rw [e_keep, e_keep, h.e]

/-- Both states forward the same. -/
theorem Mends.after_forward (hm : b ≤ (key m).block) : Mends b (forward s m) (forward t m) where
  putAt := by
    rw [cursors_forward]
    exact h.putAt.after_advance m
  cursors_eq := by rw [cursors_forward, cursors_forward, h.cursors_eq, advance_mend hm]
  pending_eq κ hκ := by
    cases m with
    | env sEnv =>
      have hsent : Mends b ({ s with lastEnvSent := some sEnv.env.number }.send (.env sEnv))
          ({ t with lastEnvSent := some sEnv.env.number }.send (.env sEnv)) := by
        refine ⟨⟨h.putAt.l2Block, h.putAt.warm⟩, ?_, ?_, congrArg (· ++ [_]) h.e⟩
        · exact congrArg (fun c : Cursors => { c with lastEnvSent := some sEnv.env.number })
            h.cursors_eq
        · intro κ hκ
          cases κ <;> exact h.pending_eq _ hκ
      exact (hsent.after_prune _).pending_eq κ hκ
    | newFrag sFrag =>
      have hκ := h.pending_eq κ hκ
      cases hl : sFrag.frag.isLast <;> cases κ <;>
        simpa [forward, PreconfState.send, pending, hl] using hκ
    | sealFrag => cases κ <;> exact h.pending_eq _ hκ
  e := by rw [e_forward, e_forward, h.e]

/-- One activation does the same to the two states. -/
theorem Mends.after_putBody (hpos : 0 < b) (hm : b ≤ (key m).block) (hnext : b ≤ (nextKey m).block)
    (hfirst : key m = .env b → t.lastSealSent = some (b - 1)) :
    (t.putBody m).2 = (s.putBody m).2 ∧ Mends b (s.putBody m).1 (t.putBody m).1 := by
  have hready := h.ready_iff hpos hm hfirst
  have hpruned : t.lastBlockPruned = s.lastBlockPruned :=
    congrArg Cursors.lastBlockPruned h.cursors_eq
  have hforward := h.after_forward hm
  rw [putBody_eq, putBody_eq]
  by_cases hr : ready (cursors s) m
  · rw [if_pos hr, if_pos (hready.mpr hr), hforward.pending_eq _ hnext]
    split
    · exact ⟨rfl, hforward.after_forget _⟩
    · exact ⟨rfl, hforward⟩
  · rw [if_neg hr, if_neg (mt hready.mp hr), hpruned]
    split
    · exact ⟨rfl, h.after_keep m⟩
    · exact ⟨rfl, h⟩

end

/-! ## What is forwarded -/

section

variable {b : UInt64} {t₀ s t : PreconfState} {blocks : List CompleteBlock}
  {D done rest ms : List Message} {m : Message} (hb : Consecutive b blocks)
  (hroom : b.toNat + blocks.length < 2 ^ 64) (hwindow : pruneSafeWindow ≤ b)

include hb hroom in
/-- Followers are of no earlier block. -/
theorem le_nextKey_block (hm : m ∈ canonical blocks) : b ≤ (nextKey m).block := by
  have hle := le_block_of_mem_canonical hb hm
  cases m with
  | env => exact hle
  | newFrag =>
    rw [nextKey]
    split_ifs <;> exact hle
  | sealFrag =>
    obtain ⟨B, hB, hmem⟩ := List.mem_flatMap.mp hm
    obtain ⟨i, hi, rfl⟩ := List.mem_iff_getElem.mp hB
    have hnumber := block_of_mem_messages hmem
    have hi' := hb i hi
    simp only [key, nextKey, Key.block] at hle hnumber ⊢
    rw [UInt64.le_iff_toNat_le, UInt64.toNat_add, UInt64.toNat_one, hnumber,
      Nat.mod_eq_of_lt (by omega)]
    omega

/-- The mended state has a seal. -/
theorem Mends.warm (h : Mends b s t) : t.lastSealSent ≠ none := by
  have hseal : t.lastSealSent = _ := congrArg Cursors.lastSealSent h.cursors_eq
  rw [hseal]
  exact mt Option.map_eq_none_iff.mp h.putAt.warm

/-- The state stands where the state without the gap does, after the messages `D` of the chain
`L`. -/
def Resumed (b : UInt64) (t₀ : PreconfState) (L D : List Message) (s : PreconfState) : Prop :=
  ∃ t done rest, Mends b s t ∧ Tracks t₀ L D done rest t

include hb hroom hwindow

/-- An activation for a message of the blocks does the same to the two states, if an env
that is not expected is not that of the first block. -/
theorem Mends.putBody_mem (h : Mends b s t) (hm : m ∈ canonical blocks)
    (hfirst : key m = .env b → Expecting (cursors t) (key m)) :
    (t.putBody m).2 = (s.putBody m).2 ∧ Mends b (s.putBody m).1 (t.putBody m).1 := by
  refine h.after_putBody (UInt64.lt_of_lt_of_le (by decide) hwindow)
    (le_block_of_mem_canonical hb hm) (le_nextKey_block hb hroom hm) fun hkey => ?_
  have hseal := (hfirst hkey).seal_eq
  rw [hkey] at hseal
  exact hseal.resolve_left h.warm

/-- The cascade started by the expected message. -/
theorem resumed_put_expected (hmends : Mends b s t)
    (h : Releasing t₀ (canonical blocks) D done m rest t) :
    Resumed b t₀ (canonical blocks) D (s.put m) := by
  have hbody : ∀ {s t : PreconfState} {m : Message} {done rest : List Message}, Mends b s t →
      Releasing t₀ (canonical blocks) D done m rest t →
        (t.putBody m).2 = (s.putBody m).2 ∧ Mends b (s.putBody m).1 (t.putBody m).1 :=
    fun hmends h => hmends.putBody_mem hb hroom hwindow (by rw [h.split]; simp) fun _ => h.next
  refine PreconfState.cascade.run_induction
    (fun s m => ∃ t done rest, Mends b s t ∧ Releasing t₀ (canonical blocks) D done m rest t)
    (Resumed b t₀ (canonical blocks) D) ?_ ?_ s m ⟨t, done, rest, hmends, h⟩
  · rintro s m ⟨t, done, rest, hmends, h⟩ hnone
    obtain ⟨hsame, hnext⟩ := hbody hmends h
    rcases releasing_step (isChain_canonical hb) h with ⟨rest', -, ht⟩ | ⟨m', rest', hsome, -⟩
    · exact ⟨_, _, rest', hnext, ht⟩
    · exact absurd (hsome.symm.trans (hsame.trans hnone)) (by simp)
  · rintro s m m' ⟨t, done, rest, hmends, h⟩ hcall
    obtain ⟨hsame, hnext⟩ := hbody hmends h
    rcases releasing_step (isChain_canonical hb) h with ⟨rest', hnone, -⟩ | ⟨m'', rest', hsome, hr⟩
    · exact absurd (hnone.symm.trans (hsame.trans hcall)) (by simp)
    · obtain rfl : m'' = m' := Option.some.inj (hsome.symm.trans (hsame.trans hcall))
      exact ⟨_, _, rest', hnext, hr⟩

/-- One delivery. -/
theorem Resumed.put (h : Resumed b t₀ (canonical blocks) D s) (hm : m ∈ canonical blocks)
    (hD : m ∉ D) : Resumed b t₀ (canonical blocks) (D ++ [m]) (s.put m) := by
  obtain ⟨t, done, rest, hmends, h⟩ := h
  have hL := isChain_canonical hb
  have hrest := h.mem_rest hm hD
  cases rest with
  | nil => cases hrest
  | cons x rest =>
    rcases List.mem_cons.mp hrest with rfl | hlater
    · exact resumed_put_expected hb hroom hwindow hmends (h.releasing hL hD)
    · have hcold : t.lastSealSent = none → ∀ sEnv, m = .env sEnv →
          sEnv.env.number = (key x).block := fun hnone => absurd hnone hmends.warm
      have hbody := h.putBody_later hL hlater hcold
      have hfirst : key m ≠ .env b := by
        intro hkey
        have hlt := rank_lt_of_mem_rest hL h.split hlater
        have hle := le_block_of_mem_canonical hb (h.mem_of_head? rfl)
        rw [hkey] at hlt
        rcases rank_lt_iff.mp hlt with hlt | ⟨-, hphase⟩
        · exact absurd hlt (UInt64.not_lt.mpr hle)
        · cases hphase
      obtain ⟨hsame, hnext⟩ :=
        hmends.putBody_mem hb hroom hwindow hm fun hkey => absurd hkey hfirst
      rw [hbody] at hsame hnext
      have hs : s.put m = (s.putBody m).1 :=
        PreconfState.cascade.run_of_step_none (Prod.ext rfl hsame.symm)
      have ht : t.put m = keep t m := PreconfState.cascade.run_of_step_none hbody
      rw [hs]
      exact ⟨_, done, x :: rest, hnext, ht ▸ tracks_put_later hL h hlater hcold⟩

/-- Any number of deliveries. -/
theorem Resumed.run (h : Resumed b t₀ (canonical blocks) D s) (hnodup : (D ++ ms).Nodup)
    (hsub : ∀ m ∈ ms, m ∈ canonical blocks) :
    Resumed b t₀ (canonical blocks) (D ++ ms) (ms.foldl PreconfState.put s) := by
  induction ms generalizing s D with
  | nil => simpa using h
  | cons m ms ih =>
    rw [List.append_cons] at hnodup ⊢
    have hm : m ∉ D := by
      have hfirst := (List.nodup_append.mp hnodup).1
      exact fun hmem => (List.nodup_append.mp hfirst).2.2 m hmem m (by simp) rfl
    exact ih (h.put hb hroom hwindow (hsub m List.mem_cons_self) hm) hnodup
      fun x hx => hsub x (List.mem_cons_of_mem m hx)

omit hroom in
/-- Pruning at block `b` concerns none of the blocks from `b` on. -/
theorem Resumed.after_prune (h : Resumed b t₀ (canonical blocks) D s) :
    Resumed b t₀ (canonical blocks) D (s.prune b) := by
  obtain ⟨t, done, rest, hmends, h⟩ := h
  have hle {x : Message} (hx : x ∈ rest) : b ≤ (key x).block := by
    refine le_block_of_mem_canonical hb ?_
    rw [h.split]
    exact List.mem_append_right _ hx
  have hseal : (t.prune b).lastSealSent = t.lastSealSent := by
    rw [PreconfState.prune]
    split_ifs <;> rfl
  refine ⟨_, done, rest, hmends.after_prune b, h.split, by rw [e_prune, h.sent], h.arrived,
    fun x hx => ⟨(h.next x hx).1, ?_⟩, ?_, ?_⟩
  · have hexp := (h.next x hx).2
    have hx := hle (List.mem_of_head? hx)
    rw [cursors_prune, pruned]
    split_ifs
    · refine ⟨hexp.seal_eq, hexp.l2_lt, ?_, ?_⟩
      · simp only [pruneSafeWindow] at hwindow ⊢
        grind
      · have hphase := hexp.phase
        cases hkey : key x <;> (rw [hkey] at hphase; exact hphase)
    · exact hexp
  · intro κ x
    rw [pending_prune, ← h.held κ x]
    split_ifs with hpruned
    · refine ⟨by simp, fun hx => ?_⟩
      obtain ⟨rfl, hrest, -⟩ := (h.held κ x).mp hx
      have hx := hle hrest
      have hlt := hpruned.2
      simp only [pruneSafeWindow] at hwindow hlt
      grind
    · rfl
  · rw [hseal, h.cold]

end

/-! ## The L2 block -/

/-- The state at a gap before block `b`. The last seal is of an earlier block, nothing from block
`b` on has been forwarded, and of it `waiting` is pending. -/
structure Behind (s : PreconfState) (b : UInt64) (waiting : List Message) : Prop where
  lastSealSent : ∃ n, s.lastSealSent = some n ∧ n < b
  lastEnvSent : ∀ n, s.lastEnvSent = some n → n < b
  lastFragSent : ∀ idx, s.lastFragSent = some idx → idx.blockNumber < b
  lastBlockWithAllFrags : ∀ n, s.lastBlockWithAllFrags = some n → n < b
  lastBlockPruned : s.lastBlockPruned ≤ b
  waits : ∀ κ m, b ≤ κ.block → (pending s κ = some m ↔ key m = κ ∧ m ∈ waiting)

/-- The state without the gap, when the L2 block has come. -/
def mended (s : PreconfState) (b : UInt64) : PreconfState :=
  { s with
    lastSealSent := some (b - 1)
    lastL2BlockSent := none
    pendingEnvs := Computation.discard (fun n => decide (n < b)) s.pendingEnvs
    pendingFrags := Computation.discard (fun idx => decide (idx.blockNumber < b)) s.pendingFrags
    pendingSeals := Computation.discard (fun n => decide (n < b)) s.pendingSeals }

/-- What is pending from the block on. -/
theorem pending_mended (s : PreconfState) (b : UInt64) (κ : Key) :
    pending (mended s b) κ = if κ.block < b then none else pending s κ := by
  by_cases hlt : κ.block < b
  · rw [if_pos hlt]
    cases κ <;> (rw [Key.block] at hlt; simp [mended, pending, hlt])
  · rw [if_neg hlt]
    cases κ <;> (rw [Key.block] at hlt; simp [mended, pending, hlt])

section

variable {s : PreconfState} {b : UInt64} {waiting ms : List Message} {blocks : List CompleteBlock}

/-- The L2 block mends the gap. -/
theorem Behind.mends (h : Behind s b waiting) :
    Mends b { s with lastL2BlockSent := some b } (mended s b) := by
  obtain ⟨n, hn, hlt⟩ := h.lastSealSent
  refine ⟨⟨rfl, ?_⟩, ?_, fun κ hκ => ?_, rfl⟩
  · simp [cursors, hn]
  · simp [cursors, mended, mend, hn, hlt]
  · rw [pending_mended, if_neg (UInt64.not_lt.mpr hκ)]
    cases κ <;> rfl

/-- Its env is expected then. -/
theorem Behind.expecting (h : Behind s b waiting) : Expecting (cursors (mended s b)) (.env b) :=
  ⟨.inr rfl, by simp [cursors, mended], h.lastBlockPruned, h.lastEnvSent, h.lastFragSent,
    h.lastBlockWithAllFrags⟩

/-- What waits is held. -/
theorem Behind.held (h : Behind s b waiting) (hb : Consecutive b blocks)
    (hsub : ∀ m ∈ waiting, m ∈ canonical blocks) :
    PendingIs (mended s b) (canonical blocks) waiting := by
  intro κ m
  rw [pending_mended]
  split_ifs with hlt
  · refine ⟨by simp, ?_⟩
    rintro ⟨rfl, hm, -⟩
    exact absurd hlt (UInt64.not_lt.mpr (le_block_of_mem_canonical hb hm))
  · rw [h.waits κ m (UInt64.not_lt.mp hlt)]
    exact ⟨fun ⟨hkey, hm⟩ => ⟨hkey, hsub m hm, hm⟩, fun ⟨hkey, _, hm⟩ => ⟨hkey, hm⟩⟩

/-- The L2 block puts the state at its number, and releases the blocks from there on as
far as they wait. -/
theorem Behind.resumed (h : Behind s b waiting) (hb : Consecutive b blocks)
    (hroom : b.toNat + blocks.length < 2 ^ 64) (hwindow : pruneSafeWindow ≤ b)
    (hsub : ∀ m ∈ waiting, m ∈ canonical blocks) :
    Resumed b (mended s b) (canonical blocks) waiting (s.putL2Block ⟨b⟩) := by
  have hheld := h.held hb hsub
  have hwarm : (mended s b).lastSealSent = none ↔ Cold (mended s b) [] := by simp [Cold]
  have henv := fun m => h.waits (.env b) m (UInt64.le_refl b)
  cases hlookup : s.pendingEnvs.lookup b with
  | none =>
    simp only [PreconfState.putL2Block, PreconfState.takePendingEnv, hlookup]
    apply Resumed.after_prune hb hwindow
    refine ⟨mended s b, [], canonical blocks, h.mends, rfl, by simp [mended], by simp, ?_, hheld,
      hwarm⟩
    intro m hm
    have hkey := key_of_head? hb hm
    rw [hkey]
    refine ⟨fun hmem => ?_, h.expecting⟩
    have hpending := (henv m).mpr ⟨hkey, hmem⟩
    simp [pending, hlookup] at hpending
  | some nextEnv =>
    simp only [PreconfState.putL2Block, PreconfState.takePendingEnv, hlookup]
    apply Resumed.after_prune hb hwindow
    have hpending : pending s (.env b) = some (.env nextEnv) := by simp [pending, hlookup]
    obtain ⟨hkey, hmem⟩ := (henv _).mp hpending
    obtain ⟨rest, hsplit⟩ : ∃ rest, canonical blocks = [] ++ .env nextEnv :: rest := by
      cases hcanonical : canonical blocks with
      | nil =>
        rw [hcanonical] at hsub
        cases hsub _ hmem
      | cons x rest =>
        have hx : x ∈ (canonical blocks).head? := by
          rw [hcanonical]
          rfl
        have heq := eq_of_key_eq (isChain_canonical hb) (List.mem_of_head? hx) (hsub _ hmem)
          ((key_of_head? hb hx).trans hkey.symm)
        exact ⟨rest, by rw [heq, List.nil_append]⟩
    have hreleasing : Releasing (mended s b) (canonical blocks) waiting [] (.env nextEnv) rest
        (forget (mended s b) (.env b)) := by
      refine ⟨hsplit, ?_, by simpa using hmem, ?_, ?_, ?_⟩
      · rw [e_forget, List.append_nil]
      · rw [cursors_forget, hkey]
        exact h.expecting
      · rw [hsplit] at hheld
        rw [← hkey]
        exact pendingIs_forget (isChain_canonical hb) hsplit hheld
      · exact hwarm
    exact resumed_put_expected hb hroom hwindow (h.mends.after_forget (.env b)) hreleasing

/-- A safe L2 block closes a gap. Of the consecutive complete blocks from its number on some
messages wait, and the others are delivered after it in any order. They are all forwarded in their
canonical order, each once, and none is left pending, although the seal of the block before was
never sent.
SRCLINE: preconf.go:124-233 -/
theorem resumes_at_l2Block (h : Behind s b waiting) (hb : Consecutive b blocks)
    (hroom : b.toNat + blocks.length < 2 ^ 64) (hwindow : pruneSafeWindow ≤ b)
    (hms : (waiting ++ ms).Perm (canonical blocks)) :
    (preconfHandler s (.l2Block ⟨b⟩ :: ms.map .message)).e = s.e ++ canonical blocks ∧
    ∀ κ, b ≤ κ.block →
      pending (preconfHandler s (.l2Block ⟨b⟩ :: ms.map .message)) κ = none := by
  have hnodup : (waiting ++ ms).Nodup :=
    hms.nodup_iff.mpr (nodup_map_key (isChain_canonical hb)).of_map
  have hstart := h.resumed hb hroom hwindow
    fun m hm => hms.mem_iff.mp (List.mem_append_left ms hm)
  obtain ⟨t, done, rest, hmends, htracks⟩ := hstart.run hb hroom hwindow hnodup
    fun m hm => hms.mem_iff.mp (List.mem_append_right waiting hm)
  have hhandler : preconfHandler s (.l2Block ⟨b⟩ :: ms.map .message) =
      ms.foldl PreconfState.put (s.putL2Block ⟨b⟩) := preconfHandler_message _ ms
  -- everything has been delivered, so no message is missing
  have hrest : rest = [] := by
    cases rest with
    | nil => rfl
    | cons x =>
      exact absurd (hms.mem_iff.mpr (htracks.mem_of_head? rfl)) (htracks.next x rfl).1
  subst hrest
  rw [hhandler]
  refine ⟨?_, fun κ hκ => ?_⟩
  · rw [← hmends.e, htracks.sent, htracks.split, List.append_nil]
    rfl
  · rw [← hmends.pending_eq κ hκ, Option.eq_none_iff_forall_ne_some]
    intro m hm
    cases ((htracks.held κ m).mp hm).2.1

end

/-- Block 5 is lost but for its seal, and the env of block 6 waits. -/
def gapped : PreconfState := keep (keep sealedFour (.sealFrag (blankSeal 5))) (.env (blankEnv 6))

/-- The example of a gap. -/
theorem behind_gapped : Behind gapped 6 [.env (blankEnv 6)] where
  lastSealSent := ⟨4, rfl, by decide⟩
  lastEnvSent := by simp [gapped, keep, sealedFour]
  lastFragSent := by simp [gapped, keep, sealedFour]
  lastBlockWithAllFrags := by simp [gapped, keep, sealedFour]
  lastBlockPruned := by decide
  waits κ m hκ := by
    rw [gapped, pending_keep, pending_keep, pending_of_maps_empty (s := sealedFour) rfl rfl rfl,
      List.mem_singleton]
    split_ifs with henv hseal
    · rw [henv, Option.some.injEq, eq_comm]
      exact ⟨fun h => ⟨congrArg key h, h⟩, And.right⟩
    · rw [hseal] at hκ
      exact absurd hκ (by decide)
    · refine ⟨by simp, ?_⟩
      rintro ⟨rfl, rfl⟩
      exact absurd rfl henv

/-- Two blocks after a gap. -/
theorem resumes_at_l2Block_gapped :
    (preconfHandler gapped (.l2Block ⟨6⟩ :: ([.sealFrag (blankSeal 7),
      .newFrag (blankFrag 7 0 true), .sealFrag (blankSeal 6), .newFrag (blankFrag 6 0 true),
      .env (blankEnv 7)] : List Message).map .message)).e =
        canonical [minimalBlock 6, minimalBlock 7] := by
  have hb : Consecutive 6 [minimalBlock 6, minimalBlock 7] :=
    fun i hi => by match i, hi with | 0, _ => rfl | 1, _ => rfl
  exact (resumes_at_l2Block behind_gapped hb (by decide) (by decide) (by decide +kernel)).1

end BasedOp.Analysis.PreconfRecovery
