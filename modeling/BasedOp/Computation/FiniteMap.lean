import Mathlib.Data.List.AList

/-!
# Finite maps with bulk deletion

`AList` has insertion, lookup and deletion of one key. The loop that deletes
every key with some property is `discard`; this module gives its lookup, and the
sizes after each of the operations, which is what a termination argument reads. For a loop
over the entries in which each one changes only what belongs to its key there is
`foldl_of_local`.
-/

set_option autoImplicit false

namespace BasedOp.Computation

variable {α : Type} {β : α → Type}

/-- Delete every key that satisfies `p`. -/
def discard (p : α → Bool) (m : AList β) : AList β :=
  ⟨m.entries.filter fun e => !p e.1,
    List.NodupKeys.sublist List.filter_sublist m.nodupKeys⟩

def mapSize (m : AList β) : ℕ := m.entries.length

variable [DecidableEq α]

/-- Deleting by a property leaves the other keys as they were. -/
@[simp] theorem lookup_discard (p : α → Bool) (m : AList β) (a : α) :
    (discard p m).lookup a = if p a then none else m.lookup a := by
  rcases m with ⟨l, hl⟩
  simp only [AList.lookup, discard]
  induction l with
  | nil => simp
  | cons e l ih =>
    rcases e with ⟨k, v⟩
    have ih := ih (List.nodupKeys_cons.mp hl).2
    by_cases hk : a = k
    · subst hk
      cases hp : p a with
      | true => simpa [hp] using ih
      | false => simp [hp]
    · have hne : ∀ l' : List (Sigma β), List.dlookup a (⟨k, v⟩ :: l') = List.dlookup a l' :=
        fun l' => List.dlookup_cons_ne l' ⟨k, v⟩ hk
      cases hp : p k with
      | true => simp [hp, ih, hne]
      | false => simp [hp, ih, hne]

omit [DecidableEq α] in
/-- Discarding adds no entry. -/
theorem mapSize_discard_le (p : α → Bool) (m : AList β) :
    mapSize (discard p m) ≤ mapSize m :=
  List.length_filter_le _ _

/-- Erasing an entry that is there. -/
theorem mapSize_erase_of_lookup {m : AList β} {a : α} {b : β a} (h : m.lookup a = some b) :
    mapSize (m.erase a) + 1 = mapSize m := by
  have hmem : a ∈ m.keys := by
    rw [← AList.mem_keys, ← AList.lookup_isSome, h]
    rfl
  have hlen := List.length_erase_of_mem hmem
  have hpos := List.length_pos_of_mem hmem
  rw [← AList.keys_erase] at hlen
  simp only [AList.keys, List.keys, List.length_map] at hlen hpos
  simp only [mapSize]
  omega

/-- Erasing adds no entry. -/
theorem mapSize_erase_le (m : AList β) (a : α) : mapSize (m.erase a) ≤ mapSize m :=
  (List.kerase_sublist a m.entries).length_le

/-- Inserting adds at most one. -/
theorem mapSize_insert_le (m : AList β) (a : α) (b : β a) :
    mapSize (m.insert a b) ≤ mapSize m + 1 := by
  unfold mapSize
  rw [AList.entries_insert, List.length_cons]
  exact Nat.succ_le_succ (mapSize_erase_le m a)

/-- A map without entries is empty. -/
theorem eq_empty_of_lookup_eq_none {m : AList β} (h : ∀ a, m.lookup a = none) : m = ∅ := by
  apply AList.ext
  cases hm : m.entries with
  | nil => rfl
  | cons e =>
    have hmem : e.1 ∈ m := by
      rw [AList.mem_keys, AList.keys, hm]
      simp
    exact absurd hmem (AList.lookup_eq_none.mp (h e.1))

/-- A loop over the entries of a map in which each entry changes only what is seen
at its own key. -/
theorem foldl_of_local {α β γ δ : Type} [DecidableEq α] {f : γ → α → β → γ} (view : γ → α → δ)
    (effect : β → δ → δ) (hself : ∀ c k v, view (f c k v) k = effect v (view c k))
    (hother : ∀ c k v k', k' ≠ k → view (f c k v) k' = view c k') (m : AList fun _ : α => β) (c : γ)
    (k : α) :
    view (m.foldl f c) k = (m.lookup k).elim (view c k) fun v => effect v (view c k) := by
  rcases m with ⟨l, hl⟩
  simp only [AList.lookup, AList.foldl]
  induction l generalizing c with
  | nil => rfl
  | cons e l ih =>
    obtain ⟨k', v⟩ := e
    obtain ⟨hnotin, hl⟩ := List.nodupKeys_cons.mp hl
    rw [List.foldl_cons, ih (f c k' v) hl]
    by_cases hk : k = k'
    · subst hk
      rw [List.dlookup_eq_none.mpr hnotin, List.dlookup_cons_eq, hself]
      rfl
    · rw [List.dlookup_cons_ne _ _ hk, hother c k' v k hk]

end BasedOp.Computation
