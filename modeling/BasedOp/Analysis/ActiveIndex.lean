import BasedOp.Analysis.PoolAndChain
import BasedOp.Computation.IndexedVector

/-!
# The index of the active list

The active list is a vector of the lists of the senders, with a map from senders to places.
`put`, `forward` and `remove` keep the two in agreement, so no place is read that is not
there (`active_never_panics`), and what they do to one sender leaves the others what they
were. What `forward` does
to the list of its sender depends on what is pending: a nonce that is not there takes
everything, and when nothing is left pending the entry goes, whatever its simulated
transaction (`forward_keepsAbove_iff`).
-/

set_option autoImplicit false

namespace BasedOp.Analysis.ActiveIndex

open BasedOp.Computation Model Model.Gateway
open PoolContents PoolRetention PoolAndChain

/-- The map gives the place of the list of every sender. -/
def ActiveIndexed (a : Active) : Prop := Indexed SimulatedTxList.sender a.txs a.senders

/-- The list of a sender. -/
def entry (a : Active) (sender : Address) : Option SimulatedTxList := find a.txs a.senders sender

variable {a a' : Active} {sender : Address} {l : SimulatedTxList} {nonce : UInt64}

/-- An entry depends on the lists of its sender only. -/
theorem entry_congr (ha : ActiveIndexed a) (ha' : ActiveIndexed a')
    (h : ∀ l : SimulatedTxList, l.sender = sender → (l ∈ a'.txs ↔ l ∈ a.txs)) :
    entry a' sender = entry a sender := by
  apply Option.ext
  intro l
  unfold entry
  rw [ha'.find_eq_some_iff, ha.find_eq_some_iff]
  constructor
  · rintro ⟨hmem, hsender⟩
    exact ⟨(h l hsender).mp hmem, hsender⟩
  · rintro ⟨hmem, hsender⟩
    exact ⟨(h l hsender).mpr hmem, hsender⟩

/-! ## The operations -/

/-- What holds of the lists after one of them was put in the place of its sender's. -/
def PutsList (a a' : Active) (l : SimulatedTxList) : Prop :=
  ∀ l', l' ∈ a'.txs ↔ l' = l ∨ (l' ∈ a.txs ∧ l'.sender ≠ l.sender)

/-- A list is put in the place of the one of its sender, or at the end. -/
theorem put_spec (h : ActiveIndexed a) (l : SimulatedTxList) :
    ∃ a', a.put l = some a' ∧ ActiveIndexed a' ∧ PutsList a a' l := by
  unfold Active.put
  cases hindex : a.senders.lookup l.sender with
  | none =>
    refine ⟨_, rfl, Indexed.push h hindex, ?_⟩
    intro l'
    have hothers : l' ∈ a.txs → l'.sender ≠ l.sender := fun hl' =>
      h.notMem_of_lookup_eq_none hindex hl'
    constructor
    · intro hl'
      obtain hold | hnew := List.mem_append.mp hl'
      · exact .inr ⟨hold, hothers hold⟩
      · exact .inl (List.mem_singleton.mp hnew)
    · rintro (rfl | ⟨hold, -⟩)
      · exact List.mem_append_right _ List.mem_cons_self
      · exact List.mem_append_left _ hold
  | some =>
    obtain ⟨old, hold, hsender⟩ := h.item_of_lookup hindex
    dsimp only
    rw [if_pos (List.getElem?_eq_some_iff.mp hold).1]
    refine ⟨_, rfl, Indexed.set h hold hsender.symm, ?_⟩
    intro l'
    dsimp only
    rw [h.mem_set_iff hold, hsender]

/-- What holds of the lists after that of a sender was removed. -/
def DropsList (a a' : Active) (sender : Address) : Prop :=
  ∀ l', l' ∈ a'.txs ↔ l' ∈ a.txs ∧ l'.sender ≠ sender

variable {i : ℕ} {f : SimulatedTxList → Option SimulatedTxList} {txs : List Transaction}

/-- The list at a place is removed. -/
theorem remove_spec (h : ActiveIndexed a) (hl : a.txs[i]? = some l) :
    ∃ a', a.remove i l.sender = some a' ∧ ActiveIndexed a' ∧ DropsList a a' l.sender := by
  have hi : i < a.txs.length := (List.getElem?_eq_some_iff.mp hl).1
  have hdrops : ∀ l', l' ∈ swapRemove a.txs i ↔ l' ∈ a.txs ∧ l'.sender ≠ l.sender :=
    fun l' => h.mem_rest_iff (perm_swapRemove hl)
  obtain ⟨front, last, htxs⟩ : ∃ front last, a.txs = front ++ [last] :=
    ⟨_, _, (List.dropLast_concat_getLast (List.ne_nil_of_length_pos (by omega))).symm⟩
  have hswap : swapRemove a.txs i = front.set i last := by rw [htxs, swapRemove_concat]
  have hindexed : Indexed SimulatedTxList.sender (front ++ [last]) a.senders := htxs ▸ h
  unfold Active.remove
  rw [if_pos hi]
  dsimp only
  rw [htxs] at hl
  obtain hfront | ⟨hlast, heq⟩ := front_or_last hl
  · have hlt := (List.getElem?_eq_some_iff.mp hfront).1
    have hswapped : (front.set i last)[i]? = some last := List.getElem?_set_self hlt
    have hne : last.sender ≠ l.sender := by
      intro hsender
      have := hindexed.place_eq hl List.getElem?_concat_length hsender.symm
      omega
    have hplace : (a.senders.erase l.sender).lookup last.sender = some front.length := by
      rw [AList.lookup_erase_ne hne]
      exact hindexed.lookup_of_item List.getElem?_concat_length
    have hlength : i ≠ (front.set i last).length := by
      rw [List.length_set]
      omega
    rw [hswap] at hdrops ⊢
    rw [if_neg hlength, hswapped]
    dsimp only
    rw [hplace]
    exact ⟨_, rfl, hindexed.swapLast hfront, hdrops⟩
  · have hlength : i = (front.set i last).length := by rw [List.length_set, hlast]
    rw [hswap] at hdrops ⊢
    rw [if_pos hlength]
    refine ⟨_, rfl, ?_, hdrops⟩
    have hsame : front.set i last = front := List.set_eq_of_length_le (Nat.le_of_eq hlast.symm)
    rw [heq, hsame]
    exact hindexed.dropLast

/-- The list of a sender is changed in its place. -/
theorem modifyTxList_spec (h : ActiveIndexed a)
    (hf : ∀ l l', l.sender = sender → f l = some l' → l'.sender = sender)
    (hmodify : a.modifyTxList sender f = some a') :
    ActiveIndexed a' ∧ ((entry a sender = none ∧ a' = a) ∨
      ∃ l l', entry a sender = some l ∧ f l = some l' ∧ PutsList a a' l') := by
  unfold Active.modifyTxList at hmodify
  cases hindex : a.senders.lookup sender with
  | none =>
    rw [hindex] at hmodify
    obtain rfl := Option.some.inj hmodify
    exact ⟨h, .inl ⟨h.find_eq_none_iff.mpr hindex, rfl⟩⟩
  | some =>
    obtain ⟨l, hl, hsender⟩ := h.item_of_lookup hindex
    rw [hindex] at hmodify
    dsimp only at hmodify
    rw [hl] at hmodify
    dsimp only at hmodify
    cases hl' : f l with
    | none =>
      rw [hl'] at hmodify
      cases hmodify
    | some l' =>
      rw [hl'] at hmodify
      obtain rfl := Option.some.inj hmodify
      have hkey : l'.sender = l.sender := (hf l l' hsender hl').trans hsender.symm
      refine ⟨Indexed.set h hl hkey, .inr ⟨l, l', ?_, hl', ?_⟩⟩
      · exact h.find_eq_some_iff.mpr ⟨List.mem_of_getElem? hl, hsender⟩
      · intro l''
        dsimp only
        rw [h.mem_set_iff hl, hkey]

/-! ## Removing the nonces of a sender -/

/-- The list of a sender once the nonces up to one were removed and something is pending. -/
def keptAbove (l : SimulatedTxList) (nonce : UInt64) : SimulatedTxList where
  current := l.current.filter fun c => nonce < c.nonce
  pending := (l.pending.forward nonce).2

/-- `forward` keeps the sender. -/
theorem sender_forward (l : TxList) (nonce : UInt64) : (l.forward nonce).2.sender = l.sender := by
  unfold TxList.forward
  split <;> rfl

/-- A sender without a list changes nothing. -/
theorem forward_of_none (h : a.senders.lookup sender = none) (nonce : UInt64) :
    a.forward sender nonce = some a := by
  unfold Active.forward
  rw [h]

/-- Something stays pending. -/
theorem forward_of_kept (hindex : a.senders.lookup sender = some i) (hl : a.txs[i]? = some l)
    (hforward : (l.pending.forward nonce).1 = false) :
    a.forward sender nonce = some { a with txs := a.txs.set i (keptAbove l nonce) } := by
  unfold Active.forward keptAbove
  rw [hindex]
  dsimp only
  rw [hl]
  dsimp only
  rcases hpending : l.pending.forward nonce with ⟨_ | _, pending⟩
  · dsimp only
    cases hc : l.current with
    | none => rfl
    | some c =>
      dsimp only
      by_cases hlt : nonce < c.nonce
      · rw [if_neg (UInt64.not_le.mpr hlt), Option.filter_some_pos (by simpa using hlt)]
      · rw [if_pos (UInt64.not_lt.mp hlt), Option.filter_some_neg (by simpa using hlt)]
  · rw [hpending] at hforward
    cases hforward

/-- Nothing stays pending, and the entry is removed. -/
theorem forward_of_emptied (hindex : a.senders.lookup sender = some i) (hl : a.txs[i]? = some l)
    (hforward : (l.pending.forward nonce).1 = true) :
    a.forward sender nonce =
      { a with txs := a.txs.set i { l with pending := (l.pending.forward nonce).2 } }.remove i
        sender := by
  unfold Active.forward
  rw [hindex]
  dsimp only
  rw [hl]
  dsimp only
  rcases hpending : l.pending.forward nonce with ⟨_ | _, pending⟩
  · rw [hpending] at hforward
    cases hforward
  · rfl

/-- What a removal does to the list of its sender. -/
theorem forward_spec (h : ActiveIndexed a) (sender : Address) (nonce : UInt64) :
    ∃ a', a.forward sender nonce = some a' ∧ ActiveIndexed a' ∧
      match entry a sender with
      | none => a' = a
      | some l =>
        if (l.pending.forward nonce).1 then DropsList a a' sender
        else PutsList a a' (keptAbove l nonce) := by
  cases hindex : a.senders.lookup sender with
  | none =>
    refine ⟨a, forward_of_none hindex nonce, h, ?_⟩
    rw [show entry a sender = none from h.find_eq_none_iff.mpr hindex]
  | some i =>
    obtain ⟨l, hl, rfl⟩ := h.item_of_lookup hindex
    rw [show entry a l.sender = some l from
      h.find_eq_some_iff.mpr ⟨List.mem_of_getElem? hl, rfl⟩]
    dsimp only
    cases hforward : (l.pending.forward nonce).1 with
    | false =>
      have hkey : (keptAbove l nonce).sender = l.sender := sender_forward l.pending nonce
      refine ⟨_, forward_of_kept hindex hl hforward, Indexed.set h hl hkey, ?_⟩
      intro l'
      dsimp only
      rw [h.mem_set_iff hl, hkey]
    | true =>
      rw [forward_of_emptied hindex hl hforward]
      have hi := (List.getElem?_eq_some_iff.mp hl).1
      have hkey : SimulatedTxList.sender { l with pending := (l.pending.forward nonce).2 } =
          l.sender := sender_forward l.pending nonce
      obtain ⟨a', hremove, hindexed, hdrops⟩ :=
        remove_spec (a := { a with txs := a.txs.set i _ }) (Indexed.set h hl hkey)
          (List.getElem?_set_self hi)
      rw [hkey] at hremove hdrops
      refine ⟨a', hremove, hindexed, ?_⟩
      rw [if_pos rfl]
      intro l'
      rw [hdrops l']
      dsimp only
      rw [h.mem_set_iff hl]
      constructor
      · rintro ⟨rfl | ⟨hmem, -⟩, hsender⟩
        · exact absurd hkey hsender
        · exact ⟨hmem, hsender⟩
      · rintro ⟨hmem, hsender⟩
        exact ⟨.inr ⟨hmem, hsender⟩, hsender⟩

/-! ## What is kept of a sender -/

/-- Without the nonce everything is dropped. -/
theorem dropThrough_of_notMem (h : ∀ t ∈ txs, t.nonce ≠ nonce) :
    TxList.dropThrough nonce txs = [] := by
  induction txs with
  | nil => rfl
  | cons t txs ih =>
    have hne : ¬ (t.nonce == nonce) = true := by simpa using h t List.mem_cons_self
    rw [TxList.dropThrough, if_neg hne]
    exact ih fun u hu => h u (List.mem_cons_of_mem _ hu)

/-- With the nonce what is above it is kept. -/
theorem dropThrough_of_mem (h : Ordered txs) (hmem : ∃ t ∈ txs, t.nonce = nonce) :
    TxList.dropThrough nonce txs = txs.filter fun t => nonce < t.nonce := by
  induction txs with
  | nil =>
    obtain ⟨t, ht, -⟩ := hmem
    cases ht
  | cons t txs ih =>
    obtain ⟨hfirst, hrest⟩ := List.pairwise_cons.mp h
    rw [TxList.dropThrough]
    by_cases hnonce : t.nonce = nonce
    · subst hnonce
      have hall : txs.filter (fun u => t.nonce < u.nonce) = txs :=
        List.filter_eq_self.mpr fun u hu => decide_eq_true (hfirst u hu)
      rw [if_pos (beq_self_eq_true _), List.filter_cons_of_neg (by simp), hall]
    · obtain ⟨u, hu, rfl⟩ := hmem
      have hu' : u ∈ txs := (List.mem_cons.mp hu).resolve_left fun heq => hnonce (heq ▸ rfl)
      have hle : ¬ u.nonce < t.nonce :=
        UInt64.not_lt.mpr (UInt64.le_of_lt (hfirst u hu'))
      rw [if_neg (by simpa using hnonce), List.filter_cons_of_neg (by simpa using hle)]
      exact ih hrest ⟨u, hu', rfl⟩

/-- An exact removal leaves what has a higher nonce. -/
theorem forward_eq_filter {l : TxList} (h : Ordered l.txs) (hexact : Exact l.txs nonce) :
    (l.forward nonce).2.txs = l.txs.filter fun t => nonce < t.nonce := by
  unfold TxList.forward
  split
  · rename_i hhead
    symm
    rw [List.filter_eq_self]
    intro t ht
    have hkept : t ∈ (l.forward nonce).2.txs := by
      unfold TxList.forward
      rw [if_pos hhead]
      exact ht
    exact decide_eq_true (lt_of_mem_forward h hkept)
  · rename_i hhead
    obtain hmem | hlower | hhigher := hexact
    · exact dropThrough_of_mem h hmem
    · have hnone : l.txs.filter (fun t => nonce < t.nonce) = [] := by
        rw [List.filter_eq_nil_iff]
        intro t ht hlt
        exact UInt64.lt_irrefl _ (UInt64.lt_trans (of_decide_eq_true hlt) (hlower t ht))
      rw [hnone]
      exact dropThrough_of_notMem fun t ht => UInt64.ne_of_lt (hlower t ht)
    · cases htxs : l.txs with
      | nil => rfl
      | cons first =>
        have hlt := hhigher first (by rw [htxs]; exact List.mem_cons_self)
        rw [htxs] at hhead
        exact absurd (by simpa using hlt) hhead

/-- A list that reports to be empty is. -/
theorem empty_of_forward {l : TxList} (h : (l.forward nonce).1 = true) :
    (l.forward nonce).2.txs = [] := by
  unfold TxList.forward at h ⊢
  split at h
  · cases h
  · rename_i hhead
    rw [if_neg hhead]
    exact List.isEmpty_iff.mp h

/-- If something is left, the removal was exact. -/
theorem exact_of_forward {l : TxList} (h : Ordered l.txs) (hforward : (l.forward nonce).1 = false) :
    Exact l.txs nonce ∧ ∃ t ∈ l.txs, nonce < t.nonce := by
  have hne : (l.forward nonce).2.txs ≠ [] := by
    unfold TxList.forward at hforward ⊢
    split
    · rename_i hhead
      intro hnil
      dsimp only at hnil
      rw [hnil] at hhead
      cases hhead
    · rename_i hhead
      rw [if_neg hhead] at hforward
      simpa using hforward
  obtain ⟨t, ht⟩ := List.exists_mem_of_ne_nil _ hne
  have hlt := lt_of_mem_forward h ht
  refine ⟨?_, t, (forward_sublist l nonce).subset ht, hlt⟩
  by_cases hmem : ∃ u ∈ l.txs, u.nonce = nonce
  · exact .inl hmem
  · refine .inr (.inr ?_)
    -- the loop would have taken everything, so it was not run
    unfold TxList.forward at ht
    split at ht
    · rename_i hhead
      intro u hu
      have hkept : u ∈ (l.forward nonce).2.txs := by
        unfold TxList.forward
        rw [if_pos hhead]
        exact hu
      exact lt_of_mem_forward h hkept
    · rw [dropThrough_of_notMem fun u hu heq => hmem ⟨u, hu, heq⟩] at ht
      cases ht

/-- The transactions of a list, the simulated one first. -/
def listTxs (l : SimulatedTxList) : List Transaction :=
  (l.current.map (·.tx)).toList ++ l.pending.txs

/-- The transactions of a sender that are in the active list. -/
def entryTxs (a : Active) (sender : Address) : List Transaction :=
  ((entry a sender).map listTxs).getD []

/-- The transactions of a sender that have a higher nonce. -/
def txsAbove (a : Active) (sender : Address) (nonce : UInt64) : List Transaction :=
  (entryTxs a sender).filter fun t => nonce < t.nonce

/-- Exactly what has a higher nonce is kept of a sender, which is dropped when that is
nothing, and the lists of the other senders are what they were. -/
structure KeepsAbove (a a' : Active) (sender : Address) (nonce : UInt64) : Prop where
  txs : entryTxs a' sender = txsAbove a sender nonce
  dropped : entry a' sender = none ↔ txsAbove a sender nonce = []
  others : ∀ other, other ≠ sender → entry a' other = entry a other

/-- What is pending has the nonce, or only lower or only higher ones; and if nothing that is
pending has a higher nonce, neither has the simulated transaction. -/
def ForwardsExactly (l : SimulatedTxList) (nonce : UInt64) : Prop :=
  Exact l.pending.txs nonce ∧
    ((∀ t ∈ l.pending.txs, t.nonce ≤ nonce) → ∀ c ∈ l.current, c.nonce ≤ nonce)

/-- A list that is put is the entry of its sender. -/
theorem entry_of_puts (ha : ActiveIndexed a) (ha' : ActiveIndexed a') (h : PutsList a a' l) :
    entry a' l.sender = some l ∧ ∀ other, other ≠ l.sender → entry a' other = entry a other := by
  refine ⟨ha'.find_eq_some_iff.mpr ⟨(h l).mpr (.inl rfl), rfl⟩, ?_⟩
  intro other hother
  apply entry_congr ha ha'
  rintro l' rfl
  rw [h l']
  constructor
  · rintro (rfl | ⟨hmem, -⟩)
    · exact absurd rfl hother
    · exact hmem
  · intro hmem
    exact .inr ⟨hmem, hother⟩

/-- A dropped list leaves no entry. -/
theorem entry_of_drops (ha : ActiveIndexed a) (ha' : ActiveIndexed a') (h : DropsList a a' sender) :
    entry a' sender = none ∧ ∀ other, other ≠ sender → entry a' other = entry a other := by
  constructor
  · rw [Option.eq_none_iff_forall_ne_some]
    intro l hl
    obtain ⟨hmem, hsender⟩ := ha'.find_eq_some_iff.mp hl
    exact ((h l).mp hmem).2 hsender
  · intro other hother
    apply entry_congr ha ha'
    rintro l rfl
    rw [h l]
    exact ⟨And.left, fun hmem => ⟨hmem, hother⟩⟩

/-- What is above a nonce, read off the entry. -/
theorem txsAbove_of_entry (h : entry a sender = some l) (nonce : UInt64) :
    txsAbove a sender nonce =
      ((l.current.filter fun c => nonce < c.nonce).map (·.tx)).toList ++
        l.pending.txs.filter fun t => nonce < t.nonce := by
  unfold txsAbove entryTxs
  rw [h, Option.map_some, Option.getD_some, listTxs, List.filter_append]
  congr 1
  cases hc : l.current with
  | none => rfl
  | some c =>
    by_cases hlt : nonce < c.nonce
    · rw [Option.filter_some_pos (by simpa using hlt)]
      exact List.filter_cons_of_pos (decide_eq_true hlt)
    · rw [Option.filter_some_neg (by simpa using hlt)]
      exact List.filter_cons_of_neg fun habove => hlt (of_decide_eq_true habove)

/-- When nothing stays pending, nothing is to be kept just when the removal is exact. -/
theorem txsAbove_eq_nil_iff (hentry : entry a sender = some l) (hordered : Ordered l.pending.txs)
    (hforward : (l.pending.forward nonce).1 = true) :
    txsAbove a sender nonce = [] ↔ ForwardsExactly l nonce := by
  have hempty := empty_of_forward hforward
  rw [txsAbove_of_entry hentry, List.append_eq_nil_iff, List.filter_eq_nil_iff]
  constructor
  · rintro ⟨hcurrent, hpending⟩
    have hle : ∀ t ∈ l.pending.txs, t.nonce ≤ nonce := fun t ht =>
      UInt64.not_lt.mp fun hlt => hpending t ht (decide_eq_true hlt)
    refine ⟨?_, fun _ c hc => ?_⟩
    · by_cases hmem : ∃ t ∈ l.pending.txs, t.nonce = nonce
      · exact .inl hmem
      · exact .inr (.inl fun t ht =>
          UInt64.lt_of_le_of_ne (hle t ht) fun heq => hmem ⟨t, ht, heq⟩)
    · by_contra hgt
      rw [show l.current = some c from hc,
        Option.filter_some_pos (by simpa using UInt64.not_le.mp hgt)] at hcurrent
      cases hcurrent
  · rintro ⟨hexact, hcurrent⟩
    have hnone : ∀ t ∈ l.pending.txs, ¬ nonce < t.nonce := by
      intro t ht hlt
      have hkept := mem_forward hordered hexact ht hlt
      rw [hempty] at hkept
      cases hkept
    refine ⟨?_, fun t ht hlt => hnone t ht (of_decide_eq_true hlt)⟩
    have hle := hcurrent fun t ht => UInt64.not_lt.mp (hnone t ht)
    cases hc : l.current with
    | none => rfl
    | some c =>
      rw [Option.filter_some_neg (by simpa using hle c hc)]
      rfl

/-- Without an entry nothing can be lost. -/
theorem keepsAbove_of_none (hentry : entry a sender = none) (nonce : UInt64) :
    KeepsAbove a a sender nonce := by
  have hnil : entryTxs a sender = [] := by
    unfold entryTxs
    rw [hentry]
    rfl
  have habove : txsAbove a sender nonce = [] := by
    unfold txsAbove
    rw [hnil]
    rfl
  exact ⟨hnil.trans habove.symm, iff_of_true hentry habove, fun _ _ => rfl⟩

/-- When the sender is dropped, nothing is to be kept just when the removal is exact. -/
theorem keepsAbove_dropped_iff (hindexed : ActiveIndexed a) (hindexed' : ActiveIndexed a')
    (hentry : entry a l.sender = some l) (hordered : Ordered l.pending.txs)
    (hpending : (l.pending.forward nonce).1 = true) (hdrops : DropsList a a' l.sender) :
    KeepsAbove a a' l.sender nonce ↔ ForwardsExactly l nonce := by
  obtain ⟨hnone, hothers⟩ := entry_of_drops hindexed hindexed' hdrops
  rw [← txsAbove_eq_nil_iff hentry hordered hpending]
  constructor
  · intro hkeeps
    exact hkeeps.dropped.mp hnone
  · intro hnil
    refine ⟨?_, iff_of_true hnone hnil, hothers⟩
    rw [hnil, entryTxs, hnone]
    rfl

/-- When something stays pending, the removal was exact. -/
theorem keepsAbove_kept (hindexed : ActiveIndexed a) (hindexed' : ActiveIndexed a')
    (hentry : entry a l.sender = some l) (hordered : Ordered l.pending.txs)
    (hpending : (l.pending.forward nonce).1 = false) (hputs : PutsList a a' (keptAbove l nonce)) :
    KeepsAbove a a' l.sender nonce ∧ ForwardsExactly l nonce := by
  obtain ⟨hsome, hothers⟩ := entry_of_puts hindexed hindexed' hputs
  rw [show (keptAbove l nonce).sender = l.sender from sender_forward l.pending nonce]
    at hsome hothers
  obtain ⟨hexact, t, ht, hlt⟩ := exact_of_forward hordered hpending
  have htxs : entryTxs a' l.sender = txsAbove a l.sender nonce := by
    rw [txsAbove_of_entry hentry, ← forward_eq_filter hordered hexact, entryTxs, hsome]
    rfl
  have hne : txsAbove a l.sender nonce ≠ [] := by
    rw [txsAbove_of_entry hentry]
    apply List.append_ne_nil_of_right_ne_nil
    exact List.ne_nil_of_mem (List.mem_filter.mpr ⟨ht, decide_eq_true hlt⟩)
  refine ⟨⟨htxs, ?_, hothers⟩, hexact, ?_⟩
  · rw [hsome]
    exact iff_of_false (Option.some_ne_none _) hne
  · intro hle
    exact absurd hlt (UInt64.not_lt.mpr (hle t ht))

/-- `forward` keeps exactly what has a higher nonce, for every active list, sender and nonce, just
when the removal from the list of the sender is exact: its pending transactions have the nonce, or
only lower or only higher ones, and its simulated transaction has no higher nonce if none of these
has.
SRCLINE: transaction/active.rs:71-103, transaction/tx_list.rs:44-57 -/
theorem forward_keepsAbove_iff {a : Active} (hindexed : ActiveIndexed a)
    (hordered : ∀ l ∈ a.txs, Ordered l.pending.txs) (sender : Address) (nonce : UInt64) :
    (∃ a', a.forward sender nonce = some a' ∧ KeepsAbove a a' sender nonce) ↔
      ∀ l, entry a sender = some l → ForwardsExactly l nonce := by
  obtain ⟨a', hforward, hindexed', hspec⟩ := forward_spec hindexed sender nonce
  simp only [hforward, Option.some.injEq, exists_eq_left']
  cases hentry : entry a sender with
  | none =>
    rw [hentry] at hspec
    rw [show a' = a from hspec]
    exact iff_of_true (keepsAbove_of_none hentry nonce) fun l hl => absurd hl.symm
      (Option.some_ne_none l)
  | some l =>
    rw [hentry] at hspec
    dsimp only at hspec
    obtain ⟨hmem, rfl⟩ := hindexed.find_eq_some_iff.mp hentry
    have hl := hordered l hmem
    simp only [Option.some.injEq, forall_eq']
    cases hpending : (l.pending.forward nonce).1 with
    | true =>
      rw [if_pos hpending] at hspec
      exact keepsAbove_dropped_iff hindexed hindexed' hentry hl hpending hspec
    | false =>
      rw [if_neg (by rw [hpending]; decide)] at hspec
      obtain ⟨hkeeps, hexact⟩ := keepsAbove_kept hindexed hindexed' hentry hl hpending hspec
      exact iff_of_true hkeeps hexact

/-- An active list with one sender, whose transactions with the given nonces are pending. -/
def onePending (current : Option SimulatedTx) (nonces : List UInt8) : Active where
  txs := [⟨current, ⟨7, nonces.map fun n => plainRawTx [n]⟩⟩]
  senders := (∅ : HashMap Address ℕ).insert 7 0

/-- The example lists are indexed. -/
theorem activeIndexed_onePending (current : Option SimulatedTx) (nonces : List UInt8) :
    ActiveIndexed (onePending current nonces) := by
  have hempty : Indexed SimulatedTxList.sender [] (∅ : HashMap Address ℕ) := Indexed.empty
  exact hempty.push rfl

/-- A removal at a nonce that is pending. -/
theorem forward_keepsAbove_onePending :
    ∃ a', (onePending none [1, 2, 5]).forward 7 2 = some a' ∧
      KeepsAbove (onePending none [1, 2, 5]) a' 7 2 := by
  apply (forward_keepsAbove_iff (activeIndexed_onePending _ _) ?_ 7 2).mpr
  · intro l hl
    obtain rfl := Option.some.inj (show some _ = some l from hl)
    exact ⟨by decide, fun _ c hc => nomatch hc⟩
  · intro l hl
    rw [List.mem_singleton.mp hl]
    decide

/-- The simulation of the transaction with a nonce. -/
def plainSimulated (nonce : UInt8) : SimulatedTx where
  tx := plainRawTx [nonce]
  resultAndState := { result := .success 21000 [], state := [] }
  payment := 1
  depositNonce := none

/-- Computed: a removal that is not exact. -/
theorem not_keepsAbove_of_view (h : (a.forward sender nonce).map
      (fun a' => decide (entryTxs a' sender = txsAbove a sender nonce)) = some false) :
    ∃ a', a.forward sender nonce = some a' ∧ ¬ KeepsAbove a a' sender nonce := by
  obtain ⟨a', hforward, hview⟩ := Option.map_eq_some_iff.mp h
  exact ⟨a', hforward, fun hkeeps => of_decide_eq_false hview hkeeps.txs⟩

/-- The simulated transaction goes with the last of the pending ones, and a nonce that is not
pending takes everything that is.
SRCLINE: transaction/active.rs:78-81, transaction/tx_list.rs:51-56 -/
theorem forward_loses :
    (∃ a', (onePending (some (plainSimulated 5)) []).forward 7 3 = some a' ∧
      ¬ KeepsAbove (onePending (some (plainSimulated 5)) []) a' 7 3) ∧
    ∃ a', (onePending none [1, 5]).forward 7 3 = some a' ∧
      ¬ KeepsAbove (onePending none [1, 5]) a' 7 3 := by
  constructor
  · apply not_keepsAbove_of_view
    decide +kernel
  · apply not_keepsAbove_of_view
    decide +kernel

/-! ## All operations -/

/-- An operation on the active list. What is changed through `tx_list_mut` keeps its sender. -/
inductive ActiveOp where
  | put (l : SimulatedTxList)
  | forward (address : Address) (nonce : UInt64)
  | clear
  | txListMut (sender : Address) (f : SimulatedTxList → SimulatedTxList)
      (keeps : ∀ l, (f l).sender = l.sender)

def activeStep (a : Active) : ActiveOp → Option Active
  | .put l => a.put l
  | .forward address nonce => a.forward address nonce
  | .clear => some a.clear
  | .txListMut sender f _ => a.modifyTxList sender fun l => some (f l)

/-- The place of a sender that is in the map is there. -/
theorem exists_modifyTxList (h : ActiveIndexed a) (sender : Address) (hf : ∀ l, f l ≠ none) :
    ∃ a', a.modifyTxList sender f = some a' := by
  unfold Active.modifyTxList
  cases hindex : a.senders.lookup sender with
  | none => exact ⟨a, rfl⟩
  | some =>
    obtain ⟨l, hl, -⟩ := h.item_of_lookup hindex
    obtain ⟨l', hl'⟩ := Option.ne_none_iff_exists'.mp (hf l)
    dsimp only
    rw [hl]
    dsimp only
    rw [hl']
    exact ⟨_, rfl⟩

/-- Every operation keeps the index. -/
theorem activeIndexed_step (op : ActiveOp) (h : ActiveIndexed a) :
    ∃ a', activeStep a op = some a' ∧ ActiveIndexed a' := by
  cases op with
  | put l =>
    obtain ⟨a', hput, hindexed, -⟩ := put_spec h l
    exact ⟨a', hput, hindexed⟩
  | forward address nonce =>
    obtain ⟨a', hforward, hindexed, -⟩ := forward_spec h address nonce
    exact ⟨a', hforward, hindexed⟩
  | clear => exact ⟨_, rfl, Indexed.empty⟩
  | txListMut sender f keeps =>
    obtain ⟨a', hmodify⟩ := exists_modifyTxList h sender fun l => Option.some_ne_none (f l)
    refine ⟨a', hmodify, (modifyTxList_spec h ?_ hmodify).1⟩
    intro l l' hsender hf
    obtain rfl := Option.some.inj hf
    rw [keeps, hsender]

/-- Whatever is done to an active list, no place is read that is not there, and the map gives
exactly the places of the lists by their senders.
SRCLINE: transaction/active.rs:14-103 -/
theorem active_never_panics (ops : List ActiveOp) :
    ∃ a, runSteps activeStep .empty ops = some a ∧
      (∀ sender, sender ∈ a.senders ↔ ∃ l ∈ a.txs, l.sender = sender) ∧
      ∀ sender i, a.senders.lookup sender = some i ↔
        ∃ l, a.txs[i]? = some l ∧ l.sender = sender := by
  have hempty : ActiveIndexed .empty := Indexed.empty
  obtain ⟨a, hrun, h⟩ := runSteps_total (fun a op => activeIndexed_step (a := a) op) ops hempty
  have hplace : ∀ sender i, a.senders.lookup sender = some i ↔
      ∃ l, a.txs[i]? = some l ∧ l.sender = sender := by
    intro sender i
    constructor
    · intro hlookup
      exact h.item_of_lookup hlookup
    · rintro ⟨l, hl, rfl⟩
      exact h.lookup_of_item hl
  refine ⟨a, hrun, ?_, hplace⟩
  intro sender
  rw [← AList.lookup_isSome, Option.isSome_iff_exists]
  constructor
  · rintro ⟨i, hi⟩
    obtain ⟨l, hl, hsender⟩ := (hplace sender i).mp hi
    exact ⟨l, List.mem_of_getElem? hl, hsender⟩
  · rintro ⟨l, hmem, hsender⟩
    obtain ⟨i, hi⟩ := List.getElem?_of_mem hmem
    exact ⟨i, (hplace sender i).mpr ⟨l, hi, hsender⟩⟩

end BasedOp.Analysis.ActiveIndex
