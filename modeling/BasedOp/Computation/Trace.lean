import Mathlib.Data.List.Basic
import Mathlib.Data.List.Induction

/-!
# Traces built under a guard

A trace is a list of events, oldest first, each of which was let through by the
events before it. What holds of the empty trace and is preserved by every event
that is let through holds of every such trace, and every event of it was let
through by the part before it.
-/

set_option autoImplicit false

namespace BasedOp.Computation

variable {α β : Type}

/-- A trace each of whose events is admitted by those before it. -/
inductive Admitted (admits : List α → α → Prop) : List α → Prop where
  | nil : Admitted admits []
  | snoc {t : List α} {a : α} (h : Admitted admits t) (ha : admits t a) : Admitted admits (t ++ [a])

/-- Each event of an admitted trace is admitted by those before it. -/
theorem Admitted.split {admits : List α → α → Prop} {t pre post : List α} {a : α}
    (h : Admitted admits t) (ht : t = pre ++ a :: post) : Admitted admits pre ∧ admits pre a := by
  induction h generalizing post with
  | nil => simp at ht
  | @snoc t b h hb ih =>
    rcases List.eq_nil_or_concat' post with rfl | ⟨post, c, rfl⟩
    · obtain ⟨rfl, hx⟩ := List.append_inj' ht rfl
      obtain rfl := (List.cons.inj hx).1
      exact ⟨h, hb⟩
    · rw [← List.cons_append, ← List.append_assoc] at ht
      exact ih (List.append_inj' ht rfl).1

/-- The last event that an observation sees splits the trace. -/
theorem exists_split_of_getLast?_filterMap {g : α → Option β} {t : List α} {b : β}
    (h : (t.filterMap g).getLast? = some b) :
    ∃ pre a post, t = pre ++ a :: post ∧ g a = some b ∧ post.filterMap g = [] := by
  induction t using List.reverseRecOn with
  | nil => simp at h
  | append_singleton t a ih =>
    cases ha : g a with
    | none =>
      simp only [List.filterMap_append, List.filterMap_cons, ha, List.filterMap_nil,
        List.append_nil] at h
      obtain ⟨pre, a', post, rfl, hb, hpost⟩ := ih h
      exact ⟨pre, a', post ++ [a], by simp, hb, by simp [hpost, ha]⟩
    | some =>
      simp only [List.filterMap_append, List.filterMap_cons, ha, List.filterMap_nil,
        List.getLast?_concat, Option.some.injEq] at h
      exact ⟨t, a, [], rfl, by rw [ha, h], rfl⟩

end BasedOp.Computation
