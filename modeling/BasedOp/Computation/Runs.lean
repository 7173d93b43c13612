import Mathlib.Data.List.Induction
import Mathlib.Data.Option.Basic

/-!
# Runs of a step function

A system takes events one after another; a step that does not return ends the run.
What a step preserves, a run preserves (`runSteps_induction`), and what a step
preserves when it is taken under a condition, a run preserves all of whose steps
are taken under that condition (`Along.induction`). An invariant that speaks of the
events so far has a rule of its own (`runSteps_history`), and so has one that speaks of
what was seen of the steps (`Along.observed_induction`). Steps that change nothing may be
left out of a run (`Along.runSteps_filter`), and what only some steps can end holds until one
of them is taken (`Along.until_occurs`), which happens in the end if every other step leaves
less to do (`Along.occurs_of_measure`).
-/

set_option autoImplicit false

namespace BasedOp.Computation

variable {σ ε : Type}

/-- Take the events one after another; `none` is a step that does not return. -/
def runSteps (step : σ → ε → Option σ) : σ → List ε → Option σ
  | s, [] => some s
  | s, e :: es => (step s e).bind fun s' => runSteps step s' es

/-- Every step of a run is taken in a state that meets a condition on the event. -/
def Along (step : σ → ε → Option σ) (P : σ → ε → Prop) : σ → List ε → Prop
  | _, [] => True
  | s, e :: es => P s e ∧ ∀ s', step s e = some s' → Along step P s' es

variable {step : σ → ε → Option σ} {s s' : σ} {es fs : List ε} {P : σ → ε → Prop} {I : σ → Prop}
  {E : σ → ε → σ → Prop}

/-- A run by its first step. -/
theorem runSteps_cons_eq_some {e : ε} :
    runSteps step s (e :: es) = some s' ↔ ∃ t, step s e = some t ∧ runSteps step t es = some s' := by
  simp only [runSteps, Option.bind_eq_some_iff]

instance Along.decidable (P : σ → ε → Prop) [∀ s e, Decidable (P s e)] :
    ∀ (s : σ) (es : List ε), Decidable (Along step P s es)
  | _, [] => isTrue trivial
  | s, e :: es =>
    have : ∀ t, Decidable (Along step P t es) := fun t => Along.decidable P t es
    inferInstanceAs (Decidable (P s e ∧ ∀ t ∈ step s e, Along step P t es))

/-- The run rule under a condition on the steps. -/
theorem Along.induction (hstep : ∀ s e s', P s e → I s → step s e = some s' → I s')
    (halong : Along step P s es) (hI : I s) (hrun : runSteps step s es = some s') : I s' := by
  induction es generalizing s with
  | nil =>
    obtain rfl := Option.some.inj hrun
    exact hI
  | cons e es ih =>
    obtain ⟨t, ht, hrest⟩ := runSteps_cons_eq_some.mp hrun
    exact ih (halong.2 t ht) (hstep s e t halong.1 hI ht) hrest

/-- What holds of the events holds along the run. -/
theorem along_of_forall_mem (h : ∀ e ∈ es, ∀ s, P s e) (s : σ) : Along step P s es := by
  induction es generalizing s with
  | nil => trivial
  | cons e es ih =>
    exact ⟨h e List.mem_cons_self s,
      fun s' _ => ih (fun f hf => h f (List.mem_cons_of_mem e hf)) s'⟩

/-- What always holds does. -/
theorem along_of_forall (h : ∀ s e, P s e) (s : σ) (es : List ε) : Along step P s es :=
  along_of_forall_mem (fun e _ s => h s e) s

/-- The run rule: what every step preserves holds at the end of a run. -/
theorem runSteps_induction (hstep : ∀ s e s', I s → step s e = some s' → I s') (hI : I s)
    (hrun : runSteps step s es = some s') : I s' :=
  Along.induction (P := fun _ _ => True) (fun s e s' _ => hstep s e s')
    (along_of_forall (fun _ _ => trivial) s es) hI hrun

/-- Steps that return whenever an invariant holds, and keep it, never end a run. -/
theorem runSteps_total (hstep : ∀ s e, I s → ∃ s', step s e = some s' ∧ I s') (es : List ε)
    (hI : I s) : ∃ s', runSteps step s es = some s' ∧ I s' := by
  induction es generalizing s with
  | nil => exact ⟨s, rfl, hI⟩
  | cons e es ih =>
    obtain ⟨t, ht, hIt⟩ := hstep s e hI
    obtain ⟨s', hrun, hI'⟩ := ih hIt
    exact ⟨s', runSteps_cons_eq_some.mpr ⟨t, ht, hrun⟩, hI'⟩

/-- A run of two parts. -/
theorem runSteps_append (s : σ) (es fs : List ε) :
    runSteps step s (es ++ fs) = (runSteps step s es).bind fun t => runSteps step t fs := by
  induction es generalizing s with
  | nil => rfl
  | cons e es ih => simp only [List.cons_append, runSteps, ih, Option.bind_assoc]

/-- The run rule for an invariant that speaks of the events so far. -/
theorem runSteps_history {I : List ε → σ → Prop} {s₀ : σ} (hinit : I [] s₀)
    (hstep : ∀ es s e s', runSteps step s₀ es = some s → I es s → step s e = some s' →
      I (es ++ [e]) s') (hrun : runSteps step s₀ es = some s) : I es s := by
  induction es using List.reverseRecOn generalizing s with
  | nil =>
    obtain rfl := Option.some.inj hrun
    exact hinit
  | append_singleton es e ih =>
    rw [runSteps_append, Option.bind_eq_some_iff] at hrun
    obtain ⟨t, ht, hlast⟩ := hrun
    obtain ⟨u, hu, hnil⟩ := runSteps_cons_eq_some.mp hlast
    obtain rfl := Option.some.inj hnil
    exact hstep es t e u ht (ih ht) hu

/-- Events that change nothing where they happen may be left out. -/
theorem Along.runSteps_filter {keeps : ε → Bool}
    (h : Along step (fun s e => keeps e = false → ∀ t, step s e = some t → t = s) s es)
    (hrun : runSteps step s es = some s') : runSteps step s (es.filter keeps) = some s' := by
  induction es generalizing s with
  | nil => exact hrun
  | cons e es ih =>
    obtain ⟨he, halong⟩ := h
    obtain ⟨t, ht, hrest⟩ := runSteps_cons_eq_some.mp hrun
    have hrec := ih (halong t ht) hrest
    cases hk : keeps e with
    | false =>
      obtain rfl := he hk t ht
      rw [List.filter_cons_of_neg (by simp [hk])]
      exact hrec
    | true =>
      rw [List.filter_cons_of_pos hk]
      exact runSteps_cons_eq_some.mpr ⟨t, ht, hrec⟩

/-- What is seen of the steps of a run, in order. -/
def observed {α : Type} (step : σ → ε → Option σ) (obs : σ → ε → Option α) : σ → List ε → List α
  | _, [] => []
  | s, e :: es => (obs s e).toList ++ (step s e).elim [] fun t => observed step obs t es

/-- One more step is observed. -/
theorem observed_concat {α : Type} {obs : σ → ε → Option α} {e : ε}
    (hrun : runSteps step s es = some s') :
    observed step obs s (es ++ [e]) = observed step obs s es ++ (obs s' e).toList := by
  induction es generalizing s with
  | nil =>
    obtain rfl := Option.some.inj hrun
    cases hstep : step s e <;> simp [observed, hstep]
  | cons f es ih =>
    obtain ⟨t, ht, hrest⟩ := runSteps_cons_eq_some.mp hrun
    simp [observed, ht, ih hrest]

/-- The run rule for an invariant that speaks of what was seen so far. -/
theorem Along.observed_induction {α : Type} {obs : σ → ε → Option α} {I : σ → List α → Prop}
    (hstep : ∀ s e s' seen, P s e → I s seen → step s e = some s' →
      I s' (seen ++ (obs s e).toList)) {seen : List α} (halong : Along step P s es)
    (hI : I s seen) (hrun : runSteps step s es = some s') :
    I s' (seen ++ observed step obs s es) := by
  induction es generalizing s seen with
  | nil =>
    obtain rfl := Option.some.inj hrun
    simpa [observed] using hI
  | cons e es ih =>
    obtain ⟨t, ht, hrest⟩ := runSteps_cons_eq_some.mp hrun
    have hseen := ih (halong.2 t ht) (hstep s e t seen halong.1 hI ht) hrest
    simpa [observed, ht] using hseen

/-- Some step of a run is of a kind. -/
def Occurs (step : σ → ε → Option σ) (E : σ → ε → σ → Prop) : σ → List ε → Prop
  | _, [] => False
  | s, e :: es => ∃ t, step s e = some t ∧ (E s e t ∨ Occurs step E t es)

/-- The run rule for what holds until a step of a kind is taken. -/
theorem Along.until_occurs (hstep : ∀ s e s', P s e → I s → step s e = some s' → I s' ∨ E s e s')
    (halong : Along step P s es) (hI : I s) (hrun : runSteps step s es = some s') :
    I s' ∨ Occurs step E s es := by
  induction es generalizing s with
  | nil =>
    obtain rfl := Option.some.inj hrun
    exact .inl hI
  | cons e es ih =>
    obtain ⟨t, ht, hrest⟩ := runSteps_cons_eq_some.mp hrun
    obtain hI | hE := hstep s e t halong.1 hI ht
    · obtain hI | hoccurs := ih (halong.2 t ht) hI hrest
      · exact .inl hI
      · exact .inr ⟨t, ht, .inr hoccurs⟩
    · exact .inr ⟨t, ht, .inl hE⟩

/-- It occurs in a longer run. -/
theorem Occurs.append_left (h : Occurs step E s es) : Occurs step E s (es ++ fs) := by
  induction es generalizing s with
  | nil => exact h.elim
  | cons e es ih =>
    obtain ⟨t, ht, h⟩ := h
    exact ⟨t, ht, h.imp_right ih⟩

/-- Also after another one. -/
theorem Occurs.append_right (hrun : runSteps step s es = some s') (h : Occurs step E s' fs) :
    Occurs step E s (es ++ fs) := by
  induction es generalizing s with
  | nil =>
    obtain rfl := Option.some.inj hrun
    exact h
  | cons e es ih =>
    obtain ⟨t, ht, hrest⟩ := runSteps_cons_eq_some.mp hrun
    exact ⟨t, ht, .inr (ih hrest)⟩

/-- The rule for what has to happen: every step that is not of the kind leaves less to
do, and there are more steps than that. -/
theorem Along.occurs_of_measure {left : σ → ℕ}
    (hstep : ∀ s e s', P s e → I s → step s e = some s' → (I s' ∧ left s' < left s) ∨ E s e s')
    (halong : Along step P s es) (hI : I s) (hrun : runSteps step s es = some s')
    (hlong : left s < es.length) : Occurs step E s es := by
  induction es generalizing s with
  | nil => exact absurd hlong (Nat.not_lt_zero _)
  | cons e es ih =>
    obtain ⟨t, ht, hrest⟩ := runSteps_cons_eq_some.mp hrun
    obtain ⟨hI', hless⟩ | hE := hstep s e t halong.1 hI ht
    · have hlong' : left t < es.length := by
        rw [List.length_cons] at hlong
        omega
      exact ⟨t, ht, .inr (ih (halong.2 t ht) hI' hrest hlong')⟩
    · exact ⟨t, ht, .inl hE⟩

/-- A property along a run of two parts. -/
theorem along_append :
    Along step P s (es ++ fs) ↔
      Along step P s es ∧ ∀ s', runSteps step s es = some s' → Along step P s' fs := by
  induction es generalizing s with
  | nil => simp [Along, runSteps]
  | cons e es ih =>
    simp only [List.cons_append, Along, ih, runSteps_cons_eq_some]
    constructor
    · rintro ⟨he, hrest⟩
      exact ⟨⟨he, fun t ht => (hrest t ht).1⟩, fun s' ⟨t, ht, hrun⟩ => (hrest t ht).2 s' hrun⟩
    · rintro ⟨⟨he, hrest⟩, hfs⟩
      exact ⟨he, fun t ht => ⟨hrest t ht, fun s' hrun => hfs s' ⟨t, ht, hrun⟩⟩⟩

/-- If a condition on a step says exactly when an invariant is kept, then it is met
along a run exactly if the invariant holds in every state of the run. -/
theorem along_iff_throughout (hstep : ∀ s e, I s → (P s e ↔ ∀ s', step s e = some s' → I s'))
    (hI : I s) :
    Along step P s es ↔
      ∀ before after s', es = before ++ after → runSteps step s before = some s' → I s' := by
  induction es generalizing s with
  | nil =>
    refine iff_of_true trivial fun before after s' hnil hrun => ?_
    obtain ⟨rfl, -⟩ := List.append_eq_nil_iff.mp hnil.symm
    obtain rfl := Option.some.inj hrun
    exact hI
  | cons e es ih =>
    constructor
    · rintro ⟨he, hrest⟩ before after s' heq hrun
      cases before with
      | nil =>
        obtain rfl := Option.some.inj hrun
        exact hI
      | cons e' before =>
        obtain ⟨rfl, hes⟩ := List.cons.inj heq
        obtain ⟨t, ht, hrun⟩ := runSteps_cons_eq_some.mp hrun
        exact (ih ((hstep s e hI).mp he t ht)).mp (hrest t ht) before after s' hes hrun
    · intro h
      have hnext : ∀ t, step s e = some t → I t :=
        fun t ht => h [e] es t rfl (runSteps_cons_eq_some.mpr ⟨t, ht, rfl⟩)
      refine ⟨(hstep s e hI).mpr hnext, fun t ht => (ih (hnext t ht)).mpr ?_⟩
      intro before after s' heq hrun
      exact h (e :: before) after s' (congrArg (e :: ·) heq)
        (runSteps_cons_eq_some.mpr ⟨t, ht, hrun⟩)

variable {Q : σ → ε → Prop}

/-- Two properties hold together. -/
theorem Along.and (hP : Along step P s es) (hQ : Along step Q s es) :
    Along step (fun s e => P s e ∧ Q s e) s es := by
  induction es generalizing s with
  | nil => trivial
  | cons e es ih => exact ⟨⟨hP.1, hQ.1⟩, fun s' h => ih (hP.2 s' h) (hQ.2 s' h)⟩

/-- A weaker property holds, too. -/
theorem Along.mono (hPQ : ∀ s e, P s e → Q s e) (h : Along step P s es) : Along step Q s es := by
  induction es generalizing s with
  | nil => trivial
  | cons e es ih => exact ⟨hPQ s e h.1, fun t ht => ih (h.2 t ht)⟩

end BasedOp.Computation
