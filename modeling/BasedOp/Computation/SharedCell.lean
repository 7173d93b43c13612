import Mathlib.Data.List.Basic
import Mathlib.Data.List.Induction

/-!
# A cell that many write and read

A read of a shared cell gives what was written last, whoever wrote it. So a read gives what
an earlier read gave exactly if nothing else was written last in between
(`value_eq_getD_writtenSince`). A system whose steps go to the cell in this way has such a
history in every run (`follows_runEffects`).
-/

set_option autoImplicit false

namespace BasedOp.Computation

/-- An access to a cell; a read has the one who reads, and what was read. -/
inductive Access (ρ α : Type) where
  | write (a : α)
  | read (reader : ρ) (a : α)
deriving DecidableEq

namespace Access

variable {ρ α : Type}

/-- What the cell holds after an access. -/
def after (held : α) : Access ρ α → α
  | .write a => a
  | .read _ _ => held

/-- What the cell holds after a history. -/
def value (held : α) (history : List (Access ρ α)) : α := history.foldl after held

/-- Every read of a history gives what the cell holds. -/
def Consistent : α → List (Access ρ α) → Prop
  | _, [] => True
  | held, access :: rest => (∀ reader a, access = .read reader a → a = held) ∧
      Consistent (access.after held) rest

variable {held : α} {h₁ h₂ history : List (Access ρ α)}

/-- Two histories one after the other. -/
theorem consistent_append :
    Consistent held (h₁ ++ h₂) ↔ Consistent held h₁ ∧ Consistent (value held h₁) h₂ := by
  induction h₁ generalizing held with
  | nil => simp [Consistent, value]
  | cons access rest ih => simp [Consistent, value, ih, and_assoc]

/-- The value after both. -/
theorem value_append (held : α) (h₁ h₂ : List (Access ρ α)) :
    value held (h₁ ++ h₂) = value (value held h₁) h₂ := List.foldl_append

/-! ## Since a read -/

section

variable (marks : ρ → Bool)

/-- What the last marked read gave. -/
def lastRead (history : List (Access ρ α)) : Option α :=
  history.foldl (fun last access => match access with
    | .write _ => last
    | .read reader a => if marks reader then some a else last) none

/-- What was written last, if anything was since the last marked read. -/
def writtenSince (history : List (Access ρ α)) : Option α :=
  history.foldl (fun last access => match access with
    | .write a => some a
    | .read reader _ => if marks reader then none else last) none

/-- The cell holds what was written since the last marked read, or else what this read gave. -/
theorem value_eq_getD_writtenSince {a : α} (hconsistent : Consistent held history)
    (hread : lastRead marks history = some a) :
    value held history = (writtenSince marks history).getD a := by
  -- what the history of a prefix says is only changed by the access that follows it
  induction history using List.reverseRecOn generalizing a with
  | nil => cases hread
  | append_singleton history access ih =>
    obtain ⟨hbefore, hlast⟩ := consistent_append.mp hconsistent
    rw [value_append, writtenSince, List.foldl_append]
    rw [lastRead, List.foldl_append] at hread
    cases access with
    | write => rfl
    | read reader b =>
      simp only [List.foldl_cons, List.foldl_nil, value, after] at hread ⊢
      by_cases hmarks : marks reader = true
      · rw [if_pos hmarks] at hread ⊢
        obtain rfl := Option.some.inj hread
        exact (hlast.1 reader b rfl).symm
      · rw [if_neg hmarks] at hread ⊢
        exact ih hbefore hread

/-- When two reads give the same. -/
theorem eq_iff_writtenSince {a b : α} {rest : List (Access ρ α)} {reader : ρ}
    (hconsistent : Consistent held (history ++ .read reader b :: rest))
    (hread : lastRead marks history = some a) :
    b = a ↔ ∀ w, writtenSince marks history = some w → w = a := by
  obtain ⟨hbefore, hnow, -⟩ := consistent_append.mp hconsistent
  have hvalue := value_eq_getD_writtenSince marks hbefore hread
  rw [hnow reader b rfl, hvalue]
  cases writtenSince marks history with
  | none => simp
  | some => simp

end

/-- A history takes a cell from one value to another. -/
structure Follows (held : α) (history : List (Access ρ α)) (held' : α) : Prop where
  consistent : Consistent held history
  value_eq : value held history = held'

/-- No access leaves the value. -/
theorem follows_nil (held : α) : Follows held ([] : List (Access ρ α)) held := ⟨trivial, rfl⟩

/-- A write leaves what is written. -/
theorem follows_write (held a : α) : Follows held ([.write a] : List (Access ρ α)) a where
  consistent := by simp [Consistent]
  value_eq := rfl

/-- A read leaves the value it returns. -/
theorem follows_read (held : α) (reader : ρ) : Follows held [.read reader held] held where
  consistent := by simp [Consistent]
  value_eq := rfl

/-- Accesses one after the other. -/
theorem Follows.append {a b c : α} (hab : Follows a h₁ b) (hbc : Follows b h₂ c) :
    Follows a (h₁ ++ h₂) c where
  consistent := consistent_append.mpr ⟨hab.consistent, hab.value_eq ▸ hbc.consistent⟩
  value_eq := by rw [value_append, hab.value_eq, hbc.value_eq]

end Access

/-! ## Systems around a cell -/

section

variable {σ ε β : Type}

/-- Take the steps of a run, with all their effects in order. -/
def runEffects (step : σ → ε → Option (σ × List β)) : σ → List ε → Option (σ × List β)
  | s, [] => some (s, [])
  | s, e :: es => (step s e).bind fun (t, effects) =>
      (runEffects step t es).map fun (u, rest) => (u, effects ++ rest)

variable {ρ α : Type} {step : σ → ε → Option (σ × List β)}

/-- The run rule: if every step goes to the cell as the cell allows, every run does. -/
theorem follows_runEffects {cell : σ → α} {access : β → Option (Access ρ α)}
    (hstep : ∀ s e t effects, step s e = some (t, effects) →
      Access.Follows (cell s) (effects.filterMap access) (cell t))
    {es : List ε} {s t : σ} {effects : List β} (hrun : runEffects step s es = some (t, effects)) :
    Access.Follows (cell s) (effects.filterMap access) (cell t) := by
  induction es generalizing s effects with
  | nil =>
    cases hrun
    exact Access.follows_nil _
  | cons e es ih =>
    obtain ⟨⟨u, first⟩, hfirst, hmap⟩ := Option.bind_eq_some_iff.mp hrun
    obtain ⟨⟨t', rest⟩, hrest, heq⟩ := Option.map_eq_some_iff.mp hmap
    obtain ⟨rfl, rfl⟩ := Prod.mk.inj heq
    rw [List.filterMap_append]
    exact (hstep s e u first hfirst).append (ih hrest)

end

end BasedOp.Computation
