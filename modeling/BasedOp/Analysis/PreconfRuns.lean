import BasedOp.Analysis.PreconfActivation
import Mathlib.Data.List.Induction

/-!
# Runs of the preconfirmation state

A run alternates between a state at rest and a state with one message in hand.
Whatever the elementary moves between the two preserve holds after every event of
the handler (`Preserved`). The first use of the rule bounds how often a message
is forwarded: a message is forwarded, pending or in hand at most as many times as
it has been delivered.
-/

set_option autoImplicit false

namespace BasedOp.Analysis.PreconfRuns

open Model Model.OpNode PreconfActivation

/-- What the elementary moves of the put functions preserve; the second argument
is the message in hand.
SRCLINE: preconf.go:124-233 -/
structure Preserved (I : PreconfState → Option Message → Prop) : Prop where
  forward : ∀ s m, ready (cursors s) m → I s (some m) → I (forward s m) none
  take : ∀ s κ m, pending s κ = some m → I s none → I (forget s κ) (some m)
  keep : ∀ s m, I s (some m) → I (keep s m) none
  drop : ∀ s m, I s (some m) → I s none
  prune : ∀ s n, I s none → I (s.prune n) none
  l2Block : ∀ s n, I s none → I { s with lastL2BlockSent := some n } none

section Rules

variable {I : PreconfState → Option Message → Prop}

/-- The cascade preserves what its moves preserve. -/
theorem Preserved.put (hI : Preserved I) (s : PreconfState) (m : Message) (h : I s (some m)) :
    I (s.put m) none := by
  refine PreconfState.cascade.run_induction (fun s m => I s (some m)) (fun s => I s none)
    ?_ ?_ s m h
  · intro s m h hnone
    change (s.putBody m).2 = none at hnone
    change I (s.putBody m).1 none
    rcases putBody_cases s m with ⟨hr, m', hp, hb⟩ | ⟨hr, hb⟩ | ⟨-, hb⟩ | ⟨-, hb⟩
    · rw [hb] at hnone
      cases hnone
    · rw [hb]
      exact hI.forward s m hr h
    · rw [hb]
      exact hI.keep s m h
    · rw [hb]
      exact hI.drop s m h
  · intro s m m' h hcall
    change (s.putBody m).2 = some m' at hcall
    change I (s.putBody m).1 (some m')
    rcases putBody_cases s m with ⟨hr, m'', hp, hb⟩ | ⟨-, hb⟩ | ⟨-, hb⟩ | ⟨-, hb⟩
    · rw [hb, Option.some.injEq] at hcall
      subst hcall
      rw [hb]
      exact hI.take _ _ _ hp (hI.forward s m hr h)
    all_goals
      rw [hb] at hcall
      cases hcall

/-- So does an L2 block, which may take a pending env in hand. -/
theorem Preserved.putL2Block (hI : Preserved I) (s : PreconfState) (block : L2BlockRef)
    (h : I s none) : I (s.putL2Block block) none := by
  have hl2 := hI.l2Block s block.number h
  unfold PreconfState.putL2Block PreconfState.takePendingEnv
  apply hI.prune
  cases hp : s.pendingEnvs.lookup block.number with
  | none => exact hl2
  | some =>
    apply hI.put
    refine hI.take _ (.env block.number) _ ?_ hl2
    simp [pending, hp]

/-- What every delivered message may be taken in hand with holds after every run. -/
theorem Preserved.preconfHandler (hI : Preserved I) (events : List Event)
    (hhand : ∀ s m, .message m ∈ events → I s none → I s (some m)) (s : PreconfState)
    (h : I s none) : I (preconfHandler s events) none := by
  induction events generalizing s with
  | nil => exact h
  | cons ev events ih =>
    apply ih (fun s m hm => hhand s m (List.mem_cons_of_mem _ hm))
    cases ev with
    | message m =>
      rw [handle_message]
      exact hI.put s m (hhand s m List.mem_cons_self h)
    | l2Block block => exact hI.putL2Block s block h

end Rules

/-! ## How often a message is forwarded -/

/-- How many messages of a list have a key. -/
def occurrences (κ : Key) (ms : List Message) : ℕ := ms.countP fun m => decide (key m = κ)

def delivered (events : List Event) : List Message :=
  events.filterMap fun
    | .message m => some m
    | .l2Block _ => none

/-- Every pending message is kept under its own key, and every key has been
forwarded, is pending and is in hand at most as often as `N` allows. -/
def Accounted (N : Key → ℕ) (s : PreconfState) (hand : Option Message) : Prop :=
  (∀ κ m, pending s κ = some m → key m = κ) ∧
  ∀ κ, occurrences κ s.e + occurrences κ (pending s κ).toList + occurrences κ hand.toList ≤ N κ

/-- Nothing occurs in no messages. -/
@[simp] theorem occurrences_nil (κ : Key) : occurrences κ [] = 0 := rfl

/-- Occurrences add up. -/
@[simp] theorem occurrences_append (κ : Key) (ms ms' : List Message) :
    occurrences κ (ms ++ ms') = occurrences κ ms + occurrences κ ms' :=
  List.countP_append

/-- One message occurs once. -/
@[simp] theorem occurrences_singleton (κ : Key) (m : Message) :
    occurrences κ [m] = if key m = κ then 1 else 0 := by
  simp [occurrences, List.countP_cons]

variable {s : PreconfState} {N : Key → ℕ} {m : Message} {s' : PreconfState} {events : List Event}

/-- Less is pending. -/
theorem occurrences_pending_le {κ : Key} (h : ∀ m, pending s' κ = some m → pending s κ = some m) :
    occurrences κ (pending s' κ).toList ≤ occurrences κ (pending s κ).toList := by
  cases hm : pending s' κ with
  | none => simp
  | some m => rw [h m hm]

/-- Losing messages keeps the account. -/
theorem Accounted.of_pending (h : Accounted N s none) (he : s'.e = s.e)
    (hp : ∀ κ m, pending s' κ = some m → pending s κ = some m) :
    Accounted N s' none := by
  refine ⟨fun κ m hm => h.1 κ m (hp κ m hm), fun κ => ?_⟩
  have hκ := h.2 κ
  have hle := occurrences_pending_le (hp κ)
  rw [he]
  omega

/-- Forwarding keeps the account. -/
theorem accounted_forward (h : Accounted N s (some m)) : Accounted N (forward s m) none := by
  refine ⟨fun κ x hx => h.1 κ x (pending_of_pending_forward hx), fun κ => ?_⟩
  have hκ := h.2 κ
  have hle := occurrences_pending_le (s := s) fun x => pending_of_pending_forward (m := m) (κ := κ)
  rw [e_forward, occurrences_append]
  simp only [Option.toList_some, Option.toList_none, occurrences_nil] at hκ ⊢
  omega

/-- Taking a pending message keeps the account. -/
theorem accounted_forget {κ : Key} (hm : pending s κ = some m) (h : Accounted N s none) :
    Accounted N (forget s κ) (some m) := by
  have hkey := h.1 κ m hm
  refine ⟨fun κ' x hx => ?_, fun κ' => ?_⟩
  · rw [pending_forget] at hx
    split_ifs at hx
    exact h.1 κ' x hx
  · have hκ := h.2 κ'
    rw [e_forget, pending_forget]
    split_ifs with heq
    · subst heq
      rw [hm] at hκ
      simpa using hκ
    · have hne : key m ≠ κ' := fun hk => heq (hk.symm.trans hkey)
      simpa [hne] using hκ

/-- Keeping a message keeps the account. -/
theorem accounted_keep (h : Accounted N s (some m)) : Accounted N (keep s m) none := by
  refine ⟨fun κ x hx => ?_, fun κ => ?_⟩
  · rw [pending_keep] at hx
    split_ifs at hx with heq
    · rw [heq, Option.some.inj hx]
    · exact h.1 κ x hx
  · have hκ := h.2 κ
    rw [e_keep, pending_keep]
    split_ifs with heq
    · -- a message kept under the same key before is overwritten
      simp only [Option.toList_some, Option.toList_none, occurrences_nil] at hκ ⊢
      omega
    · simp only [Option.toList_some, Option.toList_none, occurrences_nil] at hκ ⊢
      omega

/-- The moves of the put functions keep the account. -/
theorem preserved_accounted (N : Key → ℕ) : Preserved (Accounted N) where
  forward s m _ h := accounted_forward h
  take s κ m hm h := accounted_forget hm h
  keep s m h := accounted_keep h
  drop s m h := ⟨h.1, fun κ => le_trans (Nat.add_le_add_left (Nat.zero_le _) _) (h.2 κ)⟩
  prune s n h := by
    refine h.of_pending (e_prune s n) fun κ m hm => ?_
    rw [pending_prune] at hm
    split_ifs at hm
    exact hm
  l2Block s n h := h.of_pending rfl fun κ m hm => by cases κ <;> exact hm

/-- After every run from a new state, what has been forwarded and what
is pending has been delivered. -/
theorem accounted_preconfHandler (events : List Event) :
    Accounted (fun κ => occurrences κ (delivered events))
      (preconfHandler newPreconfState events) none := by
  induction events using List.reverseRecOn with
  | nil =>
    have hnone : ∀ κ, pending (preconfHandler newPreconfState []) κ = none :=
      pending_of_maps_empty rfl rfl rfl
    refine ⟨fun κ m hm => ?_, fun κ => ?_⟩
    · rw [hnone] at hm
      cases hm
    · rw [hnone]
      exact le_rfl
  | append_singleton events ev ih =>
    rw [preconfHandler, List.foldl_append]
    cases ev with
    | message =>
      simp only [List.foldl_cons, List.foldl_nil, handle_message]
      apply (preserved_accounted _).put
      refine ⟨ih.1, fun κ => ?_⟩
      have hκ := ih.2 κ
      simp only [delivered, List.filterMap_append, occurrences_append] at hκ ⊢
      simp only [Option.toList_some, Option.toList_none, List.filterMap_cons, List.filterMap_nil,
        occurrences_nil] at hκ ⊢
      exact Nat.add_le_add_right hκ _
    | l2Block block =>
      simp only [List.foldl_cons, List.foldl_nil, handle_l2Block]
      have hN : delivered (events ++ [.l2Block block]) = delivered events := by
        simp [delivered]
      rw [hN]
      exact (preserved_accounted _).putL2Block _ block ih

/-- A new state forwards the env of block 1 as often as it is delivered.
SRCLINE: preconf.go:126-129 -/
theorem env_forwarded_twice :
    (preconfHandler newPreconfState
      [.message (.env (blankEnv 1)), .message (.env (blankEnv 1))]).e =
        [.env (blankEnv 1), .env (blankEnv 1)] ∧
    ¬ occurrences (.env 1) (preconfHandler newPreconfState
      [.message (.env (blankEnv 1)), .message (.env (blankEnv 1))]).e ≤ 1 := by
  decide +kernel

/-- Every env, frag and seal is forwarded at most as often as it is delivered, whatever the events;
nothing in the state remembers what was forwarded before the last env, frag and seal, so a message
that is delivered again may be forwarded again.
SRCLINE: preconf.go:124-201 -/
theorem forwarded_le_delivered (events : List Event) (κ : Key) :
    occurrences κ (preconfHandler newPreconfState events).e ≤
      occurrences κ (delivered events) := by
  have h := (accounted_preconfHandler events).2 κ
  dsimp only at h
  omega

/-- Delivered once, forwarded at most once. -/
theorem nodup_forwarded (h : ((delivered events).map key).Nodup) :
    ((preconfHandler newPreconfState events).e.map key).Nodup := by
  rw [List.nodup_iff_count_le_one] at h ⊢
  intro κ
  have hcount : ∀ ms : List Message, (ms.map key).count κ = occurrences κ ms := by
    intro ms
    rw [occurrences, List.count, List.countP_map]
    rfl
  have hκ := (accounted_preconfHandler events).2 κ
  have hone := h κ
  rw [hcount] at hone ⊢
  dsimp only at hκ
  omega

/-- What is delivered is all there is. -/
theorem preserved_origin (D : Message → Prop) : Preserved fun s hand =>
    (∀ m ∈ s.e, D m) ∧ (∀ κ m, pending s κ = some m → D m) ∧ ∀ m ∈ hand, D m where
  forward s m _ h := by
    refine ⟨fun x hx => ?_, fun κ x hx => h.2.1 κ x (pending_of_pending_forward hx), by simp⟩
    rw [e_forward, List.mem_append, List.mem_singleton] at hx
    rcases hx with hx | rfl
    · exact h.1 x hx
    · exact h.2.2 x rfl
  take s κ m hm h := by
    refine ⟨by simpa using h.1, fun κ' x hx => ?_, fun x hx => ?_⟩
    · rw [pending_forget] at hx
      split_ifs at hx
      exact h.2.1 κ' x hx
    · exact Option.some.inj hx ▸ h.2.1 κ m hm
  keep s m h := by
    refine ⟨by simpa using h.1, fun κ x hx => ?_, by simp⟩
    rw [pending_keep] at hx
    split_ifs at hx
    · exact Option.some.inj hx ▸ h.2.2 m rfl
    · exact h.2.1 κ x hx
  drop s m h := ⟨h.1, h.2.1, by simp⟩
  prune s n h := by
    refine ⟨by simpa using h.1, fun κ x hx => ?_, by simp⟩
    rw [pending_prune] at hx
    split_ifs at hx
    exact h.2.1 κ x hx
  l2Block s n h := ⟨h.1, fun κ x hx => h.2.1 κ x (by cases κ <;> exact hx), by simp⟩

/-- What is forwarded was delivered. -/
theorem mem_delivered_of_forwarded (h : m ∈ (preconfHandler newPreconfState events).e) :
    m ∈ delivered events := by
  refine ((preserved_origin (· ∈ delivered events)).preconfHandler events ?_ newPreconfState ?_).1 m h
  · intro s x hx hs
    refine ⟨hs.1, hs.2.1, fun y hy => ?_⟩
    rw [← Option.some.inj hy]
    exact List.mem_filterMap.mpr ⟨_, hx, rfl⟩
  · refine ⟨fun x hx => (nomatch hx), fun κ x hx => ?_, by simp⟩
    rw [pending_of_maps_empty rfl rfl rfl] at hx
    cases hx

end BasedOp.Analysis.PreconfRuns
