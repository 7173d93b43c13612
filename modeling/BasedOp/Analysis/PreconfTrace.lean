import BasedOp.Analysis.PreconfRuns
import BasedOp.Computation.Trace

/-!
# The calls made to the engine

The guards of the put functions read cursors that mirror the calls made so far,
so the list of calls obeys a law of its own: each frag and each seal is admitted
by the calls before it (`admits`). The law of a block is then a matter of lists.
What holds in every run is that a frag is preceded by the earlier frags of its
block with no frag of another block in between, and a seal by the last frag of its
block. That both belong to the block opened last needs in addition that no env is
forwarded while another block is open, which the guards of envs do not ensure on
a new state or when an L2 block reopens the chain.
-/

set_option autoImplicit false

namespace BasedOp.Analysis.PreconfTrace

open BasedOp.Computation Model Model.OpNode
open PreconfActivation PreconfRuns

def envs (t : List Message) : List UInt64 :=
  t.filterMap fun
    | .env sEnv => some sEnv.env.number
    | _ => none

def frags (t : List Message) : List SignedNewFrag :=
  t.filterMap fun
    | .newFrag sFrag => some sFrag
    | _ => none

def seals (t : List Message) : List UInt64 :=
  t.filterMap fun
    | .sealFrag sSeal => some sSeal.sealData.blockNumber
    | _ => none

def lastEnv (t : List Message) : Option UInt64 := (envs t).getLast?

def sinceEnv (t : List Message) : List SignedNewFrag :=
  t.foldl (fun fs m => match m with
    | .env _ => []
    | .newFrag sFrag => fs ++ [sFrag]
    | .sealFrag _ => fs) []

def fragIndex (sFrag : SignedNewFrag) : FragIndex := index sFrag.frag

/-- The calls made so far let a message through; an env may always be let through, by an L2 block.
SRCLINE: preconf.go:126,148-150,177 -/
def admits (t : List Message) : Message → Prop
  | .env _ => True
  | .newFrag sFrag =>
      (sFrag.frag.seq = 0 ∧ lastEnv t = some sFrag.frag.blockNumber) ∨
      (frags t).getLast?.map fragIndex = some (fragIndex sFrag).prev
  | .sealFrag sSeal =>
      ((frags t).filter fun f => f.frag.isLast).getLast?.map (fun f => f.frag.blockNumber) =
        some sSeal.sealData.blockNumber

/-- The cursors mirror the calls made so far.
SRCLINE: preconf.go:75-96 -/
structure Mirrors (c : Cursors) (t : List Message) : Prop where
  lastEnvSent : c.lastEnvSent = lastEnv t
  lastFragSent : c.lastFragSent = (frags t).getLast?.map fragIndex
  lastBlockWithAllFrags : c.lastBlockWithAllFrags =
    ((frags t).filter fun f => f.frag.isLast).getLast?.map (fun f => f.frag.blockNumber)

section Append

variable (t t' : List Message)

/-- The frags of two parts. -/
@[simp] theorem frags_append : frags (t ++ t') = frags t ++ frags t' := List.filterMap_append ..

/-- The seals of two parts. -/
@[simp] theorem seals_append : seals (t ++ t') = seals t ++ seals t' := List.filterMap_append ..

/-- No frag came since an env. -/
@[simp] theorem sinceEnv_snoc_env (sEnv : SignedEnv) : sinceEnv (t ++ [.env sEnv]) = [] := by
  simp [sinceEnv]

/-- A frag came since the env. -/
@[simp] theorem sinceEnv_snoc_newFrag (sFrag : SignedNewFrag) :
    sinceEnv (t ++ [.newFrag sFrag]) = sinceEnv t ++ [sFrag] := by
  simp [sinceEnv]

/-- A seal is no frag. -/
@[simp] theorem sinceEnv_snoc_sealFrag (sSeal : SignedSeal) :
    sinceEnv (t ++ [.sealFrag sSeal]) = sinceEnv t := by
  simp [sinceEnv]

/-- An env is the last one. -/
@[simp] theorem lastEnv_snoc_env (sEnv : SignedEnv) :
    lastEnv (t ++ [.env sEnv]) = some sEnv.env.number := by
  simp [lastEnv, envs]

/-- A frag is no env. -/
@[simp] theorem lastEnv_snoc_newFrag (sFrag : SignedNewFrag) :
    lastEnv (t ++ [.newFrag sFrag]) = lastEnv t := by
  simp [lastEnv, envs]

/-- A seal is no env. -/
@[simp] theorem lastEnv_snoc_sealFrag (sSeal : SignedSeal) :
    lastEnv (t ++ [.sealFrag sSeal]) = lastEnv t := by
  simp [lastEnv, envs]

end Append

variable {c : Cursors} {t : List Message}

/-! ## Every run makes admitted calls -/

/-- A message that is ready is admitted by the calls the cursors mirror. -/
theorem Mirrors.admits_of_ready {m : Message} (h : Mirrors c t) (hr : ready c m) : admits t m := by
  cases m with
  | env => trivial
  | newFrag =>
    rcases hr with ⟨h0, he⟩ | hp
    · exact Or.inl ⟨h0, h.lastEnvSent ▸ he⟩
    · exact Or.inr (h.lastFragSent ▸ hp)
  | sealFrag => exact h.lastBlockWithAllFrags.symm.trans hr

/-- Forwarding a message moves the cursors along with the calls. -/
theorem Mirrors.advance (h : Mirrors c t) (m : Message) : Mirrors (advance c m) (t ++ [m]) := by
  cases m with
  | env =>
    simp only [PreconfActivation.advance, pruned]
    split_ifs
    all_goals
      refine ⟨by simp, ?_, ?_⟩
      · simpa [frags] using h.lastFragSent
      · simpa [frags] using h.lastBlockWithAllFrags
  | newFrag sFrag =>
    refine ⟨?_, ?_, ?_⟩
    · rw [lastEnv_snoc_newFrag]
      exact h.lastEnvSent
    · simp [PreconfActivation.advance, frags, fragIndex]
    · cases hl : sFrag.frag.isLast with
      | true => simp [PreconfActivation.advance, frags, hl]
      | false => simpa [PreconfActivation.advance, frags, hl] using h.lastBlockWithAllFrags
  | sealFrag =>
    refine ⟨?_, ?_, ?_⟩
    · rw [lastEnv_snoc_sealFrag]
      exact h.lastEnvSent
    · simpa [PreconfActivation.advance, frags] using h.lastFragSent
    · simpa [PreconfActivation.advance, frags] using h.lastBlockWithAllFrags

/-- Pruning does not touch the mirrored cursors. -/
theorem Mirrors.pruned (h : Mirrors c t) (n : UInt64) : Mirrors (pruned c n) t := by
  unfold PreconfActivation.pruned
  split_ifs
  · exact ⟨h.lastEnvSent, h.lastFragSent, h.lastBlockWithAllFrags⟩
  · exact h

/-- The moves of the put functions keep the calls admitted. -/
theorem preserved_admitted :
    Preserved fun s _ => Admitted admits s.e ∧ Mirrors (cursors s) s.e where
  forward s m hr h := by
    rw [e_forward, cursors_forward]
    exact ⟨.snoc h.1 (h.2.admits_of_ready hr), h.2.advance m⟩
  take s κ m _ h := by
    rw [e_forget, cursors_forget]
    exact h
  keep s m h := by
    rw [e_keep, cursors_keep]
    exact h
  drop s m h := h
  prune s n h := by
    rw [e_prune, cursors_prune]
    exact ⟨h.1, h.2.pruned n⟩
  l2Block s n h := ⟨h.1, h.2.lastEnvSent, h.2.lastFragSent, h.2.lastBlockWithAllFrags⟩

/-- The calls of every run from a new state are admitted. -/
theorem admitted_preconfHandler (events : List Event) :
    Admitted admits (preconfHandler newPreconfState events).e :=
  (preserved_admitted.preconfHandler events (fun _ _ _ h => h) newPreconfState
    ⟨.nil, rfl, rfl, rfl⟩).1

end BasedOp.Analysis.PreconfTrace
