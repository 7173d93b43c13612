import Mathlib.Data.Nat.Init
import Mathlib.Tactic.Common

/-!
# Cascades of tail calls

A group of functions that call one another only in tail position is one step
function: it takes the state and the call that is being made, and returns the
new state and, possibly, the next call. When every further call is paid for by
a smaller state, the whole cascade is a total function of the first call, and
anything that holds of the first call and is handed on by every step holds when
the cascade stops. The number of calls is bounded by the size of the first state
(`exists_stops`).
-/

set_option autoImplicit false

namespace BasedOp.Computation

/-- A group of mutually tail-calling functions: `step s m` runs the body of the
call `m` and returns the call it ends in, if any. A call is only made on a state
that is smaller than the one its caller was given. -/
structure Cascade (σ μ : Type) where
  step : σ → μ → σ × Option μ
  size : σ → ℕ
  size_lt : ∀ s m m', (step s m).2 = some m' → size (step s m).1 < size s

namespace Cascade

variable {σ μ : Type}

/-- Follow at most `n` calls. -/
def runFuel (step : σ → μ → σ × Option μ) : ℕ → σ → μ → σ
  | 0, s, _ => s
  | n + 1, s, m =>
    match (step s m).2 with
    | none => (step s m).1
    | some m' => runFuel step n (step s m).1 m'

/-- Run a call and every call it leads to. -/
def run (c : Cascade σ μ) (s : σ) (m : μ) : σ :=
  runFuel c.step (c.size s + 1) s m

/-- One more call may always be allowed for than the size of the
state, so any two such allowances give the same result. -/
theorem runFuel_eq_of_size_lt (c : Cascade σ μ) (n k : ℕ) (s : σ) (m : μ)
    (hn : c.size s < n) (hk : c.size s < k) :
    runFuel c.step n s m = runFuel c.step k s m := by
  induction n generalizing k s m with
  | zero => omega
  | succ n ih =>
    cases k with
    | zero => omega
    | succ k =>
      simp only [runFuel]
      cases h : (c.step s m).2 with
      | none => rfl
      | some m' =>
        have hlt := c.size_lt s m m' h
        exact ih k _ m' (by omega) (by omega)

/-- The cascade unfolds one call at a time, with no allowance left in sight. -/
theorem run_eq (c : Cascade σ μ) (s : σ) (m : μ) :
    c.run s m = match (c.step s m).2 with
      | none => (c.step s m).1
      | some m' => c.run (c.step s m).1 m' := by
  rw [run, runFuel]
  cases h : (c.step s m).2 with
  | none => rfl
  | some m' =>
    have hlt := c.size_lt s m m' h
    exact runFuel_eq_of_size_lt c _ _ _ _ (by omega) (by omega)

variable {s' : σ}

/-- A step without a follower ends the run. -/
theorem run_of_step_none (c : Cascade σ μ) {s : σ} {m : μ} (h : c.step s m = (s', none)) :
    c.run s m = s' := by
  rw [run_eq, h]

/-- A step with a follower goes on. -/
theorem run_of_step_some (c : Cascade σ μ) {s : σ} {m m' : μ} (h : c.step s m = (s', some m')) :
    c.run s m = c.run s' m' := by
  rw [run_eq, h]

/-- The cascade rule. If every step hands `P` on to the call it ends in, and turns `P` into `Q` when
it ends in none, then a cascade started in `P` stops in `Q`. -/
theorem run_induction (c : Cascade σ μ) (P : σ → μ → Prop) (Q : σ → Prop)
    (hstop : ∀ s m, P s m → (c.step s m).2 = none → Q (c.step s m).1)
    (hcall : ∀ s m m', P s m → (c.step s m).2 = some m' → P (c.step s m).1 m')
    (s : σ) (m : μ) (h : P s m) : Q (c.run s m) := by
  -- the states get smaller, so the induction is on the size of the state
  induction hn : c.size s using Nat.strong_induction_on generalizing s m with
  | _ n ih =>
    rw [run_eq]
    cases hm : (c.step s m).2 with
    | none => exact hstop s m h hm
    | some m' =>
      have hlt := c.size_lt s m m' hm
      exact ih _ (hn ▸ hlt) _ m' (hcall s m m' h hm) rfl

/-- The call on a state makes so many calls in all, itself included, and stops in a state. -/
inductive Stops (step : σ → μ → σ × Option μ) : σ → μ → ℕ → σ → Prop
  | last {s s' : σ} {m : μ} : step s m = (s', none) → Stops step s m 1 s'
  | call {s t s' : σ} {m m' : μ} {n : ℕ} : step s m = (t, some m') → Stops step t m' n s' →
      Stops step s m (n + 1) s'

/-- A cascade stops, after one call more than the size of the state at most. -/
theorem exists_stops (c : Cascade σ μ) (s : σ) (m : μ) :
    ∃ n ≤ c.size s + 1, Stops c.step s m n (c.run s m) := by
  induction hn : c.size s using Nat.strong_induction_on generalizing s m with
  | _ k ih =>
    rcases hstep : c.step s m with ⟨t, _ | m'⟩
    · refine ⟨1, by omega, ?_⟩
      rw [c.run_of_step_none hstep]
      exact .last hstep
    · have hlt : c.size t < c.size s := by
        have := c.size_lt s m m' (by rw [hstep])
        rwa [hstep] at this
      obtain ⟨n, hle, hstops⟩ := ih (c.size t) (hn ▸ hlt) t m' rfl
      refine ⟨n + 1, by omega, ?_⟩
      rw [c.run_of_step_some hstep]
      exact .call hstep hstops

/-- What grows by one at most with every call grows by their number at most. -/
theorem Stops.le_add {step : σ → μ → σ × Option μ} {f : σ → ℕ}
    (hf : ∀ s m, f (step s m).1 ≤ f s + 1) {s : σ} {m : μ} {n : ℕ} (h : Stops step s m n s') :
    f s' ≤ f s + n := by
  induction h with
  | @last s s' m hstep =>
    have := hf s m
    rwa [hstep] at this
  | @call s t s' m m' n hstep _ ih =>
    have hone := hf s m
    rw [hstep] at hone
    dsimp only at hone
    omega

end Cascade

end BasedOp.Computation
