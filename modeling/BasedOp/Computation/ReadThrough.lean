import Mathlib.Data.List.AList

/-!
# Reading a table through a cache

A cache keeps values of a table that were read or written before. A read takes the value
from the cache and fills it from the table if it is not there; an entry may be dropped at
any time. Every read gives the value of the table exactly if every entry does
(`readThrough_iff`), and neither reads nor drops change that.
-/

set_option autoImplicit false

namespace BasedOp.Computation

variable {κ α : Type} [DecidableEq κ]

/-- Read a key; `row` is what the table holds, unless it cannot be read. -/
def readThrough (cache : AList fun _ : κ => α) (k : κ) (row : Option α) :
    Option α × AList fun _ : κ => α :=
  match cache.lookup k, row with
  | some v, _ => (some v, cache)
  | none, some v => (some v, cache.insert k v)
  | none, none => (none, cache)

/-- The entries of a cache are those of the table, up to a relation. -/
def Coherent (same : α → α → Prop) (cache : AList fun _ : κ => α) (table : κ → α) : Prop :=
  ∀ k v, cache.lookup k = some v → same v (table k)

variable {same : α → α → Prop} {cache : AList fun _ : κ => α} {table : κ → α}

/-- An empty cache is coherent. -/
theorem coherent_empty : Coherent same (∅ : AList fun _ : κ => α) table :=
  fun _ _ h => nomatch h

/-- An entry may be dropped. -/
theorem Coherent.erase (h : Coherent same cache table) (k : κ) :
    Coherent same (cache.erase k) table := by
  intro k' v hv
  by_cases hk : k' = k
  · subst hk
    rw [AList.lookup_erase] at hv
    cases hv
  · rw [AList.lookup_erase_ne hk] at hv
    exact h k' v hv

/-- A read keeps the cache coherent. -/
theorem Coherent.readThrough (hrefl : ∀ v, same v v) (h : Coherent same cache table) (k : κ)
    (readable : Bool) :
    Coherent same (readThrough cache k (if readable then some (table k) else none)).2 table := by
  unfold BasedOp.Computation.readThrough
  split
  · exact h
  · rename_i w hnone hrow
    obtain rfl : table k = w := by
      cases readable
      · cases hrow
      · exact Option.some.inj hrow
    intro k' v hv
    by_cases hk : k' = k
    · subst hk
      rw [AList.lookup_insert] at hv
      obtain rfl := Option.some.inj hv
      exact hrefl _
    · rw [AList.lookup_insert_ne hk] at hv
      exact h k' v hv
  · exact h

/-- Every read that gives a value gives that of the table exactly if the cache is
coherent with it. -/
theorem readThrough_iff (hrefl : ∀ v, same v v) :
    (∀ k (readable : Bool) v,
      (readThrough cache k (if readable then some (table k) else none)).1 = some v →
      same v (table k)) ↔ Coherent same cache table := by
  constructor
  · intro h k v hv
    refine h k false v ?_
    simp only [readThrough, hv]
  · intro h k readable v hv
    cases hcached : cache.lookup k with
    | some w =>
      simp only [readThrough, hcached] at hv
      obtain rfl := Option.some.inj hv
      exact h k w hcached
    | none =>
      cases readable with
      | false => simp only [readThrough, hcached, Bool.false_eq_true, if_false, reduceCtorEq] at hv
      | true =>
        simp only [readThrough, hcached, if_true] at hv
        obtain rfl := Option.some.inj hv
        exact hrefl _

end BasedOp.Computation
