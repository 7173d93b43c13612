import BasedOp.Analysis.PreconfOrder

/-!
# Complete blocks

A complete block is an env, frags numbered from zero of which exactly the last
one is marked, and a seal. The messages of consecutive complete blocks, in their
canonical order, are a chain in which every message is followed by the one that
the put functions look for next.
-/

set_option autoImplicit false

namespace BasedOp.Analysis.PreconfBlocks

open Model Model.OpNode
open PreconfActivation PreconfOrder

/-- A complete block: one env, frags numbered from zero of which exactly the last
one is marked as such, and one seal, all of the same block. -/
structure CompleteBlock where
  env : SignedEnv
  frags : List SignedNewFrag
  sealing : SignedSeal
  frags_ne_nil : frags ≠ []
  frag_blockNumber : ∀ f ∈ frags, f.frag.blockNumber = env.env.number
  frag_seq : ∀ i (h : i < frags.length), frags[i].frag.seq.toNat = i
  frag_isLast : ∀ i (h : i < frags.length), frags[i].frag.isLast = true ↔ i + 1 = frags.length
  seal_blockNumber : sealing.sealData.blockNumber = env.env.number

def CompleteBlock.number (B : CompleteBlock) : UInt64 := B.env.env.number

/-- The messages of a block in their canonical order. -/
def CompleteBlock.messages (B : CompleteBlock) : List Message :=
  .env B.env :: (B.frags.map .newFrag ++ [.sealFrag B.sealing])

/-- The messages of a family of blocks in their canonical order. -/
def canonical (blocks : List CompleteBlock) : List Message :=
  blocks.flatMap CompleteBlock.messages

/-- The blocks are numbered `b, b + 1, ...`, with no number wrapping around. -/
def Consecutive (b : UInt64) (blocks : List CompleteBlock) : Prop :=
  ∀ i (h : i < blocks.length), blocks[i].number.toNat = b.toNat + i

/-! ## The canonical order is a chain -/

/-- The index of the `i`-th frag. -/
theorem index_frag (B : CompleteBlock) (i : ℕ) (h : i < B.frags.length) :
    index B.frags[i].frag = { blockNumber := B.number, sequence := B.frags[i].frag.seq } := by
  rw [index, B.frag_blockNumber _ (List.getElem_mem h)]
  rfl

/-- The frags follow each other. -/
theorem follows_frag (B : CompleteBlock) (i : ℕ) (h : i + 1 < B.frags.length) :
    Follows (.newFrag B.frags[i]) (.newFrag B.frags[i + 1]) := by
  have hi := B.frag_seq i (by omega)
  have hi' := B.frag_seq (i + 1) h
  have hlt := B.frags[i + 1].frag.seq.toNat_lt
  have hlast : B.frags[i].frag.isLast = false := by
    rw [Bool.eq_false_iff, ne_eq, B.frag_isLast i (by omega)]
    omega
  constructor
  · simp only [key, nextKey, hlast, Bool.false_eq_true, if_false, index_frag, FragIndex.next]
    congr 2
    apply UInt64.toNat_inj.mp
    rw [UInt64.toNat_add, hi, hi']
    simp
    omega
  · rw [rank_lt_iff]
    right
    simp only [key, Key.block, phase, index_frag, true_and]
    omega

/-- The first frag follows the env. -/
theorem follows_env (B : CompleteBlock) (h : 0 < B.frags.length) :
    Follows (.env B.env) (.newFrag B.frags[0]) := by
  have h0 : B.frags[0].frag.seq = 0 := UInt64.toNat_inj.mp (B.frag_seq 0 h)
  constructor
  · simp only [key, nextKey, index_frag, h0]
    rfl
  · rw [rank_lt_iff]
    right
    simp only [key, Key.block, phase, index_frag]
    exact ⟨rfl, by omega⟩

/-- The seal follows the last frag. -/
theorem follows_last (B : CompleteBlock) (i : ℕ) (h : i < B.frags.length)
    (hlast : i + 1 = B.frags.length) :
    Follows (.newFrag B.frags[i]) (.sealFrag B.sealing) := by
  have hl : B.frags[i].frag.isLast = true := (B.frag_isLast i h).mpr hlast
  have hb := B.frag_blockNumber _ (List.getElem_mem h)
  constructor
  · simp only [key, nextKey, hl, if_true, B.seal_blockNumber, hb]
  · rw [rank_lt_iff]
    right
    have := B.frags[i].frag.seq.toNat_lt
    simp only [key, Key.block, phase, index, B.seal_blockNumber, hb, true_and]
    omega

/-- The next env follows the seal. -/
theorem follows_seal (B B' : CompleteBlock) (h : B'.number.toNat = B.number.toNat + 1) :
    Follows (.sealFrag B.sealing) (.env B'.env) := by
  have hlt := B'.number.toNat_lt
  have hnum : B'.number = B.number + 1 := by
    apply UInt64.toNat_inj.mp
    rw [UInt64.toNat_add, h]
    simp
    omega
  constructor
  · simp only [key, nextKey, B.seal_blockNumber]
    exact congrArg Key.env hnum
  · rw [rank_lt_iff]
    left
    simp only [key, Key.block, B.seal_blockNumber, UInt64.lt_iff_toNat_lt]
    exact lt_of_lt_of_eq (Nat.lt_succ_self _) h.symm

/-- The messages of a block are a chain. -/
theorem isChain_messages (B : CompleteBlock) : B.messages.IsChain Follows := by
  have hfrags : (B.frags.map Message.newFrag).IsChain Follows := by
    rw [List.isChain_map, List.isChain_iff_getElem]
    intro i hi
    exact follows_frag B i hi
  have htail : (B.frags.map Message.newFrag ++ [Message.sealFrag B.sealing]).IsChain Follows := by
    refine List.isChain_append.mpr ⟨hfrags, List.isChain_singleton _, ?_⟩
    intro x hx y hy
    obtain rfl : Message.sealFrag B.sealing = y := by simpa using hy
    rw [List.getLast?_map, List.getLast?_eq_getElem?, Option.mem_def, Option.map_eq_some_iff] at hx
    obtain ⟨f, hf, rfl⟩ := hx
    obtain ⟨hlt, rfl⟩ := List.getElem?_eq_some_iff.mp hf
    exact follows_last B _ hlt (by omega)
  refine List.isChain_cons.mpr ⟨?_, htail⟩
  intro y hy
  have hpos : 0 < B.frags.length := List.length_pos_iff.mpr B.frags_ne_nil
  have hhead : (B.frags.map Message.newFrag ++ [Message.sealFrag B.sealing]).head? =
      some (.newFrag B.frags[0]) := by
    rw [List.head?_eq_getElem?, List.getElem?_append_left (by simpa using hpos)]
    simp [hpos]
  rw [hhead, Option.mem_some_iff] at hy
  exact hy ▸ follows_env B hpos

/-- A block ends in its seal. -/
theorem getLast?_messages (B : CompleteBlock) :
    B.messages.getLast? = some (.sealFrag B.sealing) := by
  rw [CompleteBlock.messages, ← List.cons_append, List.getLast?_concat]

variable {b : UInt64} {blocks : List CompleteBlock} {L : List Message} {x : Message}

/-- So are those of consecutive blocks. -/
theorem isChain_canonical (h : Consecutive b blocks) : (canonical blocks).IsChain Follows := by
  rw [canonical, List.flatMap_def, List.isChain_flatten (by simp [CompleteBlock.messages])]
  constructor
  · simpa using fun B _ => isChain_messages B
  · rw [List.isChain_map, List.isChain_iff_getElem]
    intro i hi x hx y hy
    rw [getLast?_messages, Option.mem_some_iff] at hx
    obtain rfl : Message.env blocks[i + 1].env = y := by simpa [CompleteBlock.messages] using hy
    subst hx
    have h0 := h i (by omega)
    have h1 := h (i + 1) hi
    exact follows_seal _ _ (by omega)

/-- Along a chain of followers the places increase. -/
theorem pairwise_rank (h : L.IsChain Follows) :
    L.Pairwise fun m m' => rank (key m) < rank (key m') :=
  (h.imp fun _ _ hf => hf.2).pairwise

/-- The keys of a chain are different. -/
theorem nodup_map_key (h : L.IsChain Follows) : (L.map key).Nodup := by
  rw [List.Nodup, List.pairwise_map]
  refine (pairwise_rank h).imp fun hlt heq => ?_
  rw [heq] at hlt
  exact absurd hlt (lt_irrefl _)

/-- A key determines its message. -/
theorem eq_of_key_eq (h : L.IsChain Follows) {m m' : Message} (hm : m ∈ L) (hm' : m' ∈ L)
    (hkey : key m = key m') : m = m' :=
  List.inj_on_of_nodup_map (nodup_map_key h) hm hm' hkey

/-- Keys have the number of the block. -/
theorem block_of_mem_messages {B : CompleteBlock} (h : x ∈ B.messages) :
    (key x).block = B.number := by
  simp only [CompleteBlock.messages, List.mem_cons, List.mem_append, List.mem_map,
    List.not_mem_nil, or_false] at h
  rcases h with rfl | ⟨f, hf, rfl⟩ | rfl
  · rfl
  · exact B.frag_blockNumber f hf
  · exact B.seal_blockNumber

/-- Up to the first seal every message is of the first block. -/
theorem block_eq_of_no_seal (h : Consecutive b blocks) {done rest : List Message}
    (hs : canonical blocks = done ++ x :: rest) (hseal : ∀ sSeal, Message.sealFrag sSeal ∉ done) :
    (key x).block = b := by
  cases blocks with
  | nil => simp [canonical] at hs
  | cons B =>
    have hlast : Message.sealFrag B.sealing ∈ B.messages :=
      List.mem_of_getLast? (getLast?_messages B)
    have hb : B.number = b := UInt64.toNat_inj.mp (h 0 (by simp))
    rw [canonical, List.flatMap_cons] at hs
    rcases List.append_eq_append_iff.mp hs with ⟨l, hdone, -⟩ | ⟨l, hmessages, hl⟩
    · rw [hdone] at hseal
      exact absurd (List.mem_append_left l hlast) (hseal B.sealing)
    · cases l with
      | nil =>
        rw [List.append_nil] at hmessages
        rw [hmessages] at hlast
        exact absurd hlast (hseal B.sealing)
      | cons =>
        obtain ⟨rfl, -⟩ := List.cons.inj hl
        rw [← hb]
        apply block_of_mem_messages
        rw [hmessages]
        simp

/-- A stream starts with an env. -/
theorem key_of_head? (h : Consecutive b blocks) (hx : x ∈ (canonical blocks).head?) :
    key x = .env b := by
  cases blocks with
  | nil => simp [canonical] at hx
  | cons B =>
    have hb : B.number = b := UInt64.toNat_inj.mp (h 0 (by simp))
    obtain rfl : Message.env B.env = x := by simpa [canonical, CompleteBlock.messages] using hx
    exact congrArg Key.env hb

/-- No message is of an earlier block. -/
theorem le_block_of_mem_canonical (h : Consecutive b blocks) (hx : x ∈ canonical blocks) :
    b ≤ (key x).block := by
  obtain ⟨B, hB, hmem⟩ := List.mem_flatMap.mp hx
  obtain ⟨i, hi, rfl⟩ := List.mem_iff_getElem.mp hB
  rw [block_of_mem_messages hmem, UInt64.le_iff_toNat_le, h i hi]
  omega

def minimalBlock (n : UInt64) : CompleteBlock where
  env := blankEnv n
  frags := [blankFrag n 0 true]
  sealing := blankSeal n
  frags_ne_nil := by simp
  frag_blockNumber := by simp [blankFrag, blankEnv]
  frag_seq := by simp [blankFrag]
  frag_isLast := by simp [blankFrag]
  seal_blockNumber := rfl

end BasedOp.Analysis.PreconfBlocks
