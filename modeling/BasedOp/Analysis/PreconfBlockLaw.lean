import BasedOp.Analysis.PreconfTrace

/-!
# Frags and seals belong to the block opened last

The law of admitted traces. `frag_after_env` and `seal_after_last` hold in every
run: the calls that admit a frag have forwarded the env of its block and, without
a frag of another block in between, the frags before it. `blockLaw_of_orderly` is
the full law of a block, for the traces in which every env is forwarded while no
block is open.
-/

set_option autoImplicit false

namespace BasedOp.Analysis.PreconfBlockLaw

open BasedOp.Computation Model Model.OpNode
open PreconfActivation
open PreconfRuns PreconfTrace

variable {t : List Message} {f : SignedNewFrag} {sSeal : SignedSeal}

/-! ## Splitting a trace at its last env or frag -/

/-- The frags of a trace. -/
theorem mem_frags : f ∈ frags t ↔ .newFrag f ∈ t := by
  unfold frags
  rw [List.mem_filterMap]
  constructor
  · rintro ⟨m, hm, hf⟩
    cases m with
    | newFrag => rwa [← Option.some.inj hf]
    | env => cases hf
    | sealFrag => cases hf
  · intro h
    exact ⟨_, h, rfl⟩

/-- The numbers of its envs. -/
theorem mem_envs {n : UInt64} : n ∈ envs t ↔ ∃ sEnv, .env sEnv ∈ t ∧ sEnv.env.number = n := by
  unfold envs
  rw [List.mem_filterMap]
  constructor
  · rintro ⟨m, hm, hn⟩
    cases m with
    | env sEnv => exact ⟨sEnv, hm, Option.some.inj hn⟩
    | newFrag => cases hn
    | sealFrag => cases hn
  · rintro ⟨sEnv, hm, rfl⟩
    exact ⟨_, hm, rfl⟩

/-- The numbers of its seals. -/
theorem mem_seals {n : UInt64} :
    n ∈ seals t ↔ ∃ sSeal, .sealFrag sSeal ∈ t ∧ sSeal.sealData.blockNumber = n := by
  unfold seals
  rw [List.mem_filterMap]
  constructor
  · rintro ⟨m, hm, hn⟩
    cases m with
    | sealFrag sSeal => exact ⟨sSeal, hm, Option.some.inj hn⟩
    | env => cases hn
    | newFrag => cases hn
  · rintro ⟨sSeal, hm, rfl⟩
    exact ⟨_, hm, rfl⟩

/-- A trace splits at its last env. -/
theorem exists_split_of_lastEnv {b : UInt64} (h : lastEnv t = some b) :
    ∃ p sEnv q, t = p ++ .env sEnv :: q ∧ sEnv.env.number = b ∧ envs q = [] := by
  obtain ⟨p, m, q, rfl, hm, hq⟩ := exists_split_of_getLast?_filterMap h
  cases m with
  | env sEnv => exact ⟨p, sEnv, q, rfl, Option.some.inj hm, hq⟩
  | newFrag => cases hm
  | sealFrag => cases hm

/-- A trace splits at its last frag. -/
theorem exists_split_of_lastFrag (h : (frags t).getLast? = some f) :
    ∃ p q, t = p ++ .newFrag f :: q ∧ frags q = [] := by
  obtain ⟨p, m, q, rfl, hm, hq⟩ := exists_split_of_getLast?_filterMap h
  cases m with
  | newFrag =>
    obtain rfl := Option.some.inj hm
    exact ⟨p, q, rfl, hq⟩
  | env => cases hm
  | sealFrag => cases hm

/-! ## What holds in every run -/

def place (f : SignedNewFrag) : UInt64 × ℕ := (f.frag.blockNumber, f.frag.seq.toNat)

/-- The places of the first `n` frags of a block. -/
def firstPlaces (b : UInt64) (n : ℕ) : List (UInt64 × ℕ) := (List.range n).map fun i => (b, i)

/-- One more place. -/
theorem firstPlaces_succ (b : UInt64) (n : ℕ) :
    firstPlaces b (n + 1) = firstPlaces b n ++ [(b, n)] := by
  simp [firstPlaces, List.range_succ]

variable {g : SignedNewFrag} {pre : List Message}

/-- The previous frag has the previous place. -/
theorem place_of_prev (hg : g.frag.seq.toNat + 1 < 2 ^ 64) (h : fragIndex g = (fragIndex f).prev) :
    g.frag.blockNumber = f.frag.blockNumber ∧ f.frag.seq.toNat = g.frag.seq.toNat + 1 := by
  simp only [fragIndex, FragIndex.prev, index, FragIndex.mk.injEq] at h
  have hs : f.frag.seq = g.frag.seq + 1 := by grind
  refine ⟨h.1, ?_⟩
  rw [hs, UInt64.toNat_add]
  simp
  omega

/-- The law of a frag in every run: the env of its block has been forwarded, and the frags forwarded
last, all after that env, are the earlier ones of its block. -/
def FragAfterEnv (pre : List Message) (f : SignedNewFrag) : Prop :=
  ∃ p sEnv q, pre = p ++ .env sEnv :: q ∧ sEnv.env.number = f.frag.blockNumber ∧
    firstPlaces f.frag.blockNumber f.frag.seq.toNat <:+ (frags q).map place

/-- Every admitted frag obeys it. -/
theorem frag_after_env (h : Admitted admits pre)
    (hseq : ∀ g ∈ frags pre, g.frag.seq.toNat + 1 < 2 ^ 64) (hf : admits pre (.newFrag f)) :
    FragAfterEnv pre f := by
  induction hn : pre.length using Nat.strong_induction_on generalizing pre f with
  | _ n ih =>
    rcases hf with ⟨h0, he⟩ | hp
    · obtain ⟨p, sEnv, q, hpre, hnum, -⟩ := exists_split_of_lastEnv he
      exact ⟨p, sEnv, q, hpre, hnum, by rw [h0]; exact List.nil_suffix⟩
    · -- the frag before it was admitted by a shorter trace
      obtain ⟨g, hg, hplace⟩ := Option.map_eq_some_iff.mp hp
      obtain ⟨p, q, rfl, hq⟩ := exists_split_of_lastFrag hg
      obtain ⟨hp', hadm⟩ := h.split rfl
      obtain ⟨p', sEnv, q', rfl, hnum, hsuf⟩ := ih p.length (by simp [← hn]) hp'
        (fun x hx => hseq x (by simp [hx])) hadm rfl
      have hgseq := hseq g (by simp [frags])
      obtain ⟨hblock, hs⟩ := place_of_prev hgseq hplace
      refine ⟨p', sEnv, q' ++ .newFrag g :: q, by simp, hnum.trans hblock, ?_⟩
      have hfrags : (frags (q' ++ .newFrag g :: q)).map place =
          (frags q').map place ++ [(g.frag.blockNumber, g.frag.seq.toNat)] := by
        have hg' : frags (.newFrag g :: q) = [g] := congrArg (g :: ·) hq
        simp [hg', place]
      rw [hs, firstPlaces_succ, hfrags, ← hblock]
      obtain ⟨l, hl⟩ := hsuf
      exact ⟨l, by rw [← List.append_assoc, hl]⟩

/-- The law of a seal in every run: of the frags marked as last, the one forwarded
last is of its block. -/
def SealAfterLast (pre : List Message) (b : UInt64) : Prop :=
  ∃ p f q, pre = p ++ .newFrag f :: q ∧ f.frag.isLast = true ∧ f.frag.blockNumber = b ∧
    ∀ g ∈ frags q, g.frag.isLast = false

/-- Every admitted seal obeys it. -/
theorem seal_after_last (h : admits pre (.sealFrag sSeal)) :
    SealAfterLast pre sSeal.sealData.blockNumber := by
  obtain ⟨f, hf, hblock⟩ := Option.map_eq_some_iff.mp h
  rw [frags, List.filter_filterMap] at hf
  obtain ⟨p, m, q, rfl, hm, hq⟩ := exists_split_of_getLast?_filterMap hf
  cases m with
  | newFrag f' =>
    simp only [Option.filter_some, Option.ite_none_right_eq_some, Option.some.injEq] at hm
    obtain ⟨hlast, rfl⟩ := hm
    refine ⟨p, f', q, rfl, hlast, hblock, fun g hg => ?_⟩
    rw [← List.filter_filterMap, List.filter_eq_nil_iff] at hq
    simpa using hq g hg
  | env => cases hm
  | sealFrag => cases hm

/-! ## The law of a block -/

/-- A frag is forwarded while its block is the one opened last, right after the
frags before it and before any frag marked as last; a seal while its block is the
one opened last, after its last frag. -/
def BlockLaw (pre : List Message) : Message → Prop
  | .env _ => True
  | .newFrag f => lastEnv pre = some f.frag.blockNumber ∧
      (sinceEnv pre).map place = firstPlaces f.frag.blockNumber f.frag.seq.toNat ∧
      ∀ g ∈ sinceEnv pre, g.frag.isLast = false
  | .sealFrag sSeal => lastEnv pre = some sSeal.sealData.blockNumber ∧
      ∃ f, (frags pre).getLast? = some f ∧ f.frag.isLast = true ∧
        f.frag.blockNumber = sSeal.sealData.blockNumber

/-- Every env is forwarded while no block is open: it is the first one, or the
block opened last has been sealed. -/
def OpensClosed (t : List Message) : Prop :=
  ∀ p sEnv q, t = p ++ .env sEnv :: q → ∀ b, lastEnv p = some b → b ∈ seals p

/-- No frag lies beyond one of its block that is marked as last. -/
def NoneBeyondLast (fs : List SignedNewFrag) : Prop :=
  ∀ f ∈ fs, ∀ g ∈ fs, f.frag.isLast = true → f.frag.blockNumber = g.frag.blockNumber →
    g.frag.seq ≤ f.frag.seq

/-- The traces the law of a block is stated for. -/
structure Clean (t : List Message) : Prop where
  nodup : (t.map key).Nodup
  seq_lt : ∀ f ∈ frags t, f.frag.seq.toNat + 1 < 2 ^ 64
  noneBeyondLast : NoneBeyondLast (frags t)
  opensClosed : OpensClosed t

/-- A part of a clean trace is clean. -/
theorem Clean.of_append {t' : List Message} (h : Clean (t ++ t')) : Clean t where
  nodup := (List.nodup_append.mp (List.map_append ▸ h.nodup)).1
  seq_lt f hf := h.seq_lt f (by simp [hf])
  noneBeyondLast f hf g hg := h.noneBeyondLast f (by simp [hf]) g (by simp [hg])
  opensClosed p sEnv q ht := h.opensClosed p sEnv (q ++ t') (by simp [ht])

/-- A new message has a new key. -/
theorem Clean.key_notMem {m : Message} (h : Clean (t ++ [m])) : key m ∉ t.map key := by
  have hn := h.nodup
  rw [List.map_append, List.nodup_append] at hn
  exact fun hm => hn.2.2 _ hm (key m) (by simp) rfl

/-- What a trace that obeys the law looks like between two calls: the frags since the last env are
the first ones of its block and only the last of them may be marked as last; a block is sealed after
such a frag; every earlier block with such a frag has been sealed, and it ended in one. -/
structure Orderly (t : List Message) : Prop where
  frags_nil : lastEnv t = none → frags t = []
  since : ∀ b, lastEnv t = some b → (sinceEnv t).map place = firstPlaces b (sinceEnv t).length
  since_suffix : sinceEnv t <:+ frags t
  since_last : ∀ f ∈ (sinceEnv t).dropLast, f.frag.isLast = false
  closed : ∀ f ∈ frags t, f.frag.isLast = true → f ∈ sinceEnv t ∨ f.frag.blockNumber ∈ seals t
  ended : sinceEnv t = [] → ∀ f ∈ (frags t).getLast?, f.frag.isLast = true
  closed_last : ∀ b, lastEnv t = some b → b ∈ seals t →
    ∃ f ∈ (sinceEnv t).getLast?, f.frag.isLast = true

section Step

variable {t : List Message}

/-- A suffix has the same last element. -/
theorem getLast?_of_suffix {α : Type} {l l' : List α} (h : l <:+ l') (hne : l ≠ []) :
    l'.getLast? = l.getLast? := by
  obtain ⟨k, rfl⟩ := h
  exact List.getLast?_append_of_ne_nil k hne

/-- Frags since the env are of its block. -/
theorem Orderly.block_of_mem (h : Orderly t) (hf : f ∈ sinceEnv t) :
    lastEnv t = some f.frag.blockNumber := by
  cases he : lastEnv t with
  | none =>
    have hmem := h.since_suffix.subset hf
    rw [h.frags_nil he] at hmem
    cases hmem
  | some b =>
    have hplace : place f ∈ firstPlaces b (sinceEnv t).length := by
      rw [← h.since b he]
      exact List.mem_map_of_mem hf
    obtain ⟨i, -, hi⟩ := List.mem_map.mp hplace
    rw [(Prod.mk.inj hi).1]

/-- A new frag has a new place. -/
theorem place_ne_of_mem (hc : Clean (t ++ [.newFrag f])) (hg : g ∈ frags t) :
    place g ≠ place f := by
  intro hp
  obtain ⟨hb, hs⟩ := Prod.mk.inj hp
  refine hc.key_notMem (List.mem_map.mpr ⟨.newFrag g, mem_frags.mp hg, ?_⟩)
  simp only [key, index, hb, UInt64.toNat_inj.mp hs]

/-- The first frag of the block opened last finds no other there. -/
theorem sinceEnv_eq_nil (h : Orderly t) (hc : Clean (t ++ [.newFrag f])) (h0 : f.frag.seq = 0)
    (he : lastEnv t = some f.frag.blockNumber) : sinceEnv t = [] := by
  have hplaces := h.since _ he
  have hsub := h.since_suffix.subset
  cases hfs : sinceEnv t with
  | nil => rfl
  | cons g =>
    rw [hfs] at hplaces hsub
    have hg : place g = place f := by
      simp only [List.map_cons, firstPlaces, List.length_cons, List.range_succ_eq_map] at hplaces
      rw [(List.cons.inj hplaces).1, place, h0]
      rfl
    exact absurd hg (place_ne_of_mem hc (hsub List.mem_cons_self))

/-- The law of a frag after an orderly trace. -/
theorem blockLaw_newFrag (h : Orderly t) (hc : Clean (t ++ [.newFrag f]))
    (hf : admits t (.newFrag f)) : BlockLaw t (.newFrag f) := by
  rcases hf with ⟨h0, he⟩ | hp
  · have hnil := sinceEnv_eq_nil h hc h0 he
    refine ⟨he, ?_, by simp [hnil]⟩
    rw [hnil, h0]
    rfl
  · obtain ⟨g, hg, hprev⟩ := Option.map_eq_some_iff.mp hp
    have hgmem : g ∈ frags t := List.mem_of_getLast? hg
    obtain ⟨hblock, hs⟩ := place_of_prev (hc.seq_lt g (by simp [hgmem])) hprev
    -- the frag before it is not marked as last
    have hglast : g.frag.isLast = false := by
      by_contra hl
      have hle := hc.noneBeyondLast g (by simp [hgmem]) f (by simp [frags])
        (by simpa using hl) hblock
      rw [UInt64.le_iff_toNat_le] at hle
      omega
    have hne : sinceEnv t ≠ [] := by
      intro hnil
      rw [h.ended hnil g hg] at hglast
      cases hglast
    rw [getLast?_of_suffix h.since_suffix hne] at hg
    obtain ⟨fs, hfs⟩ : ∃ fs, sinceEnv t = fs ++ [g] := List.getLast?_eq_some_iff.mp hg
    have he : lastEnv t = some g.frag.blockNumber := h.block_of_mem (by simp [hfs])
    have hplaces := h.since _ he
    rw [hfs] at hplaces
    simp only [List.map_append, List.length_append, List.length_singleton, firstPlaces_succ,
      List.map_cons, List.map_nil] at hplaces
    obtain ⟨hfirst, hgplace⟩ := List.append_inj' hplaces rfl
    have hgs : g.frag.seq.toNat = fs.length := (Prod.mk.inj (List.cons.inj hgplace).1).2
    refine ⟨by rw [he, hblock], ?_, ?_⟩
    · rw [hfs, hs, ← hblock, hgs, firstPlaces_succ, List.map_append, hfirst]
      simp [place, hgs]
    · intro x hx
      rw [hfs, List.mem_append, List.mem_singleton] at hx
      rcases hx with hx | rfl
      · refine h.since_last x ?_
        rw [hfs, List.dropLast_concat]
        exact hx
      · exact hglast

/-- A seal after an orderly trace finds the last frag of the block opened last. -/
theorem since_getLast?_of_seal (h : Orderly t) (hc : Clean (t ++ [.sealFrag sSeal]))
    (hs : admits t (.sealFrag sSeal)) :
    ∃ f, (sinceEnv t).getLast? = some f ∧ f.frag.isLast = true ∧
      f.frag.blockNumber = sSeal.sealData.blockNumber := by
  obtain ⟨p, f, q, hsplit, hlast, hblock, -⟩ := seal_after_last hs
  have hf : f ∈ frags t := mem_frags.mpr (by simp [hsplit])
  rcases h.closed f hf hlast with hmem | hseal
  · have hne : sinceEnv t ≠ [] := List.ne_nil_of_mem hmem
    rw [← List.dropLast_concat_getLast hne, List.mem_append, List.mem_singleton] at hmem
    rcases hmem with hmem | heq
    · rw [h.since_last f hmem] at hlast
      cases hlast
    · exact ⟨f, by rw [heq, List.getLast?_eq_some_getLast hne], hlast, hblock⟩
  · -- the seal of that block has been forwarded before
    obtain ⟨sSeal', hmem, hb⟩ := mem_seals.mp hseal
    refine absurd (List.mem_map.mpr ⟨_, hmem, ?_⟩) hc.key_notMem
    simp only [key, hb, hblock]

/-- The law of a seal after an orderly trace. -/
theorem blockLaw_sealFrag (h : Orderly t) (hc : Clean (t ++ [.sealFrag sSeal]))
    (hs : admits t (.sealFrag sSeal)) :
    BlockLaw t (.sealFrag sSeal) := by
  obtain ⟨f, hf, hlast, hblock⟩ := since_getLast?_of_seal h hc hs
  have hmem := List.mem_of_getLast? hf
  refine ⟨by rw [h.block_of_mem hmem, hblock], f, ?_, hlast, hblock⟩
  rw [getLast?_of_suffix h.since_suffix (List.ne_nil_of_mem hmem), hf]

/-- A sealed block has an env. -/
theorem mem_envs_of_mem_seals (ha : Admitted admits t)
    (hseq : ∀ f ∈ frags t, f.frag.seq.toNat + 1 < 2 ^ 64) {b : UInt64} (hb : b ∈ seals t) :
    b ∈ envs t := by
  obtain ⟨sSeal, hmem, rfl⟩ := mem_seals.mp hb
  obtain ⟨pre, post, rfl⟩ := List.append_of_mem hmem
  obtain ⟨hpre, hadm⟩ := ha.split rfl
  obtain ⟨p, f, q, rfl, -, hblock, -⟩ := seal_after_last hadm
  obtain ⟨hp, hf⟩ := hpre.split rfl
  obtain ⟨p', sEnv, q', rfl, hnum, -⟩ := frag_after_env hp (fun g hg => hseq g (by simp [hg])) hf
  exact mem_envs.mpr ⟨sEnv, by simp, hnum.trans hblock⟩

/-- An env keeps the trace orderly. -/
theorem orderly_snoc_env {sEnv : SignedEnv} (h : Orderly t) (ha : Admitted admits t)
    (hc : Clean (t ++ [.env sEnv])) : Orderly (t ++ [.env sEnv]) := by
  have hfrags : frags (t ++ [.env sEnv]) = frags t := by simp [frags]
  have hseals : seals (t ++ [.env sEnv]) = seals t := by simp [seals]
  have hopen : ∀ b, lastEnv t = some b → b ∈ seals t := hc.opensClosed t sEnv [] rfl
  refine ⟨by simp, by simp [firstPlaces], by simp, by simp, ?_, ?_, ?_⟩
  · intro f hf hlast
    rw [hfrags] at hf
    rw [hseals]
    rcases h.closed f hf hlast with hmem | hseal
    · exact Or.inr (hopen _ (h.block_of_mem hmem))
    · exact Or.inr hseal
  · intro _ f hf
    rw [hfrags] at hf
    cases hs : sinceEnv t with
    | nil => exact h.ended hs f hf
    | cons g =>
      -- the block left behind has been sealed, so it ended in its last frag
      have he := h.block_of_mem (f := g) (by simp [hs])
      obtain ⟨f', hf', hlast⟩ := h.closed_last _ he (hopen _ he)
      rw [getLast?_of_suffix h.since_suffix (by simp [hs]), hf'] at hf
      rwa [← Option.some.inj hf]
  · intro b hb hseal
    rw [lastEnv_snoc_env, Option.some.injEq] at hb
    rw [hseals] at hseal
    obtain ⟨sEnv', hmem, hnum⟩ :=
      mem_envs.mp (mem_envs_of_mem_seals ha hc.of_append.seq_lt hseal)
    refine absurd (List.mem_map.mpr ⟨_, hmem, ?_⟩) hc.key_notMem
    simp only [key, hnum, hb]

/-- So does a frag that obeys the law. -/
theorem orderly_snoc_newFrag (h : Orderly t) (hlaw : BlockLaw t (.newFrag f)) :
    Orderly (t ++ [.newFrag f]) := by
  obtain ⟨he, hplaces, hnone⟩ := hlaw
  have hfrags : frags (t ++ [.newFrag f]) = frags t ++ [f] := by simp [frags]
  have hseals : seals (t ++ [.newFrag f]) = seals t := by simp [seals]
  have hlen : (sinceEnv t).length = f.frag.seq.toNat := by
    have := congrArg List.length hplaces
    simpa [firstPlaces] using this
  refine ⟨?_, ?_, ?_, ?_, ?_, by simp, ?_⟩
  · rw [lastEnv_snoc_newFrag, he]
    intro hx
    cases hx
  · intro b hb
    rw [lastEnv_snoc_newFrag, he, Option.some.injEq] at hb
    subst hb
    rw [sinceEnv_snoc_newFrag, List.map_append, hplaces, List.length_append, hlen]
    simp [firstPlaces_succ, place]
  · rw [sinceEnv_snoc_newFrag, hfrags]
    obtain ⟨l, hl⟩ := h.since_suffix
    exact ⟨l, by rw [← List.append_assoc, hl]⟩
  · rw [sinceEnv_snoc_newFrag, List.dropLast_concat]
    exact hnone
  · intro g hg hlast
    rw [hfrags, List.mem_append, List.mem_singleton] at hg
    rw [sinceEnv_snoc_newFrag, hseals, List.mem_append, List.mem_singleton]
    rcases hg with hg | rfl
    · rcases h.closed g hg hlast with hmem | hseal
      · exact Or.inl (Or.inl hmem)
      · exact Or.inr hseal
    · exact Or.inl (Or.inr rfl)
  · intro b hb hseal
    rw [lastEnv_snoc_newFrag] at hb
    rw [hseals] at hseal
    -- a sealed block has ended in its last frag, which admits no further one
    obtain ⟨g, hg, hlast⟩ := h.closed_last b hb hseal
    rw [hnone g (List.mem_of_getLast? hg)] at hlast
    cases hlast

/-- So does a seal after a last frag. -/
theorem orderly_snoc_sealFrag (h : Orderly t)
    (hlast : ∃ f ∈ (sinceEnv t).getLast?, f.frag.isLast = true) :
    Orderly (t ++ [.sealFrag sSeal]) := by
  have hfrags : frags (t ++ [.sealFrag sSeal]) = frags t := by simp [frags]
  refine ⟨?_, ?_, ?_, ?_, ?_, ?_, ?_⟩
  · rw [lastEnv_snoc_sealFrag, hfrags]
    exact h.frags_nil
  · rw [lastEnv_snoc_sealFrag, sinceEnv_snoc_sealFrag]
    exact h.since
  · rw [sinceEnv_snoc_sealFrag, hfrags]
    exact h.since_suffix
  · rw [sinceEnv_snoc_sealFrag]
    exact h.since_last
  · intro f hf hl
    rw [hfrags] at hf
    rw [sinceEnv_snoc_sealFrag, seals_append, List.mem_append]
    rcases h.closed f hf hl with hmem | hseal
    · exact Or.inl hmem
    · exact Or.inr (Or.inl hseal)
  · rw [sinceEnv_snoc_sealFrag, hfrags]
    exact h.ended
  · rw [sinceEnv_snoc_sealFrag]
    intro _ _ _
    exact hlast

/-- Clean traces that are admitted are orderly. -/
theorem orderly_of_admitted (ha : Admitted admits t) (hc : Clean t) : Orderly t := by
  induction ha with
  | nil => exact ⟨by simp [frags], by simp [lastEnv, envs], by simp [sinceEnv, frags],
      by simp [sinceEnv], by simp [frags], by simp [frags], by simp [lastEnv, envs]⟩
  | @snoc t m ha hm ih =>
    have h := ih hc.of_append
    cases m with
    | env => exact orderly_snoc_env h ha hc
    | newFrag => exact orderly_snoc_newFrag h (blockLaw_newFrag h hc hm)
    | sealFrag =>
      obtain ⟨f, hf, hlast, -⟩ := since_getLast?_of_seal h hc hm
      exact orderly_snoc_sealFrag h ⟨f, hf, hlast⟩

end Step

/-! ## Runs -/

/-- What every run ensures of a message when it is forwarded. -/
def RunLaw (pre : List Message) : Message → Prop
  | .env _ => True
  | .newFrag f => FragAfterEnv pre f
  | .sealFrag sSeal => SealAfterLast pre sSeal.sealData.blockNumber

/-- Block 1 with two frags, the second of which is delivered after the env of block 2. -/
def lateFrag : List Message :=
  [.env (blankEnv 1), .newFrag (blankFrag 1 0 false), .env (blankEnv 2),
    .newFrag (blankFrag 1 1 true)]

/-- The late frag of block 1 is forwarded although block 2 was opened last.
SRCLINE: preconf.go:126,150 -/
theorem lateFrag_forwarded :
    ((delivered (lateFrag.map .message)).map key).Nodup ∧
    (∀ f ∈ frags (delivered (lateFrag.map .message)), f.frag.seq.toNat + 1 < 2 ^ 64) ∧
    (preconfHandler newPreconfState (lateFrag.map .message)).e =
      lateFrag.take 3 ++ .newFrag (blankFrag 1 1 true) :: [] ∧
    ¬ BlockLaw (lateFrag.take 3) (.newFrag (blankFrag 1 1 true)) := by
  refine ⟨by decide +kernel, by decide +kernel, by decide +kernel, ?_⟩
  rintro ⟨he, -, -⟩
  revert he
  decide +kernel

/-- When a message is forwarded, in a run in which every message is delivered at most once: a frag
follows the earlier frags of its block, which were forwarded after the env of its block with no frag
of another block in between; a seal follows the last frag of its block, with no last frag of another
block in between. The block of either is the one opened last, its frags are those forwarded since it
was opened, and the last frag is the last one forwarded, as long as no env is forwarded while a
block is open and no frag lies beyond a last one.
SRCLINE: preconf.go:124-201 -/
theorem blockLaw_forwarded (events : List Event) (hnodup : ((delivered events).map key).Nodup)
    (hseq : ∀ f ∈ frags (delivered events), f.frag.seq.toNat + 1 < 2 ^ 64)
    (pre : List Message) (x : Message) (post : List Message)
    (he : (preconfHandler newPreconfState events).e = pre ++ x :: post) :
    RunLaw pre x ∧
    (NoneBeyondLast (frags (delivered events)) → OpensClosed pre → BlockLaw pre x) := by
  have hdel : ∀ f ∈ frags (pre ++ [x]), f ∈ frags (delivered events) := by
    intro f hf
    refine mem_frags.mpr (mem_delivered_of_forwarded ?_)
    rw [he, List.append_cons]
    exact List.mem_append_left _ (mem_frags.mp hf)
  have hkeys : ((pre ++ [x]).map key).Nodup := by
    have hn := nodup_forwarded hnodup
    rw [he, List.append_cons, List.map_append] at hn
    exact (List.nodup_append.mp hn).1
  obtain ⟨hpre, hx⟩ := (admitted_preconfHandler events).split he
  have hpreseq : ∀ f ∈ frags pre, f.frag.seq.toNat + 1 < 2 ^ 64 :=
    fun f hf => hseq f (hdel f (by simp [hf]))
  constructor
  · cases x with
    | env => trivial
    | newFrag => exact frag_after_env hpre hpreseq hx
    | sealFrag => exact seal_after_last hx
  · intro hbeyond hopen
    have hclean : (∀ sEnv, x ≠ .env sEnv) → Clean (pre ++ [x]) := by
      intro hne
      refine ⟨hkeys, fun f hf => hseq f (hdel f hf),
        fun f hf g hg => hbeyond f (hdel f hf) g (hdel g hg), ?_⟩
      intro p sEnv q ht b hb
      rcases List.eq_nil_or_concat' q with rfl | ⟨q, y, rfl⟩
      · obtain ⟨-, hy⟩ := List.append_inj' ht rfl
        exact absurd (List.cons.inj hy).1 (hne sEnv)
      · rw [← List.cons_append, ← List.append_assoc] at ht
        exact hopen p sEnv q (List.append_inj' ht rfl).1 b hb
    cases x with
    | env => trivial
    | newFrag =>
      have hc := hclean (fun _ h => nomatch h)
      exact blockLaw_newFrag (orderly_of_admitted hpre hc.of_append) hc hx
    | sealFrag =>
      have hc := hclean (fun _ h => nomatch h)
      exact blockLaw_sealFrag (orderly_of_admitted hpre hc.of_append) hc hx

/-- Block 1 with one frag and block 2 with two, up to the second frag of block 2. -/
def twoBlocks : List Message :=
  [.env (blankEnv 1), .newFrag (blankFrag 1 0 true), .sealFrag (blankSeal 1),
    .env (blankEnv 2), .newFrag (blankFrag 2 0 false), .newFrag (blankFrag 2 1 true)]

/-- The seal of block 2, delivered first, is forwarded after its last frag. -/
theorem blockLaw_forwarded_twoBlocks : BlockLaw twoBlocks (.sealFrag (blankSeal 2)) := by
  refine (blockLaw_forwarded ((.sealFrag (blankSeal 2) :: twoBlocks).map .message)
    (by decide +kernel) (by decide +kernel) twoBlocks (.sealFrag (blankSeal 2)) []
    (by decide +kernel)).2 (by unfold NoneBeyondLast; decide +kernel) ?_
  intro p sEnv q h b hb
  -- the two envs of the list stand at its head and right after the seal of block 1
  rcases p with _ | ⟨m₁, _ | ⟨m₂, _ | ⟨m₃, _ | ⟨m₄, _ | ⟨m₅, _ | ⟨m₆, p⟩⟩⟩⟩⟩⟩ <;>
    simp [twoBlocks] at h
  · simp [lastEnv, envs] at hb
  · obtain ⟨rfl, rfl, rfl, -⟩ := h
    simp [lastEnv, envs, blankEnv] at hb
    simp [seals, blankSeal, ← hb]

end BasedOp.Analysis.PreconfBlockLaw
