import BasedOp.Analysis.ReadySenders

/-!
# The active list against the pool

The active list holds copies of transactions of the pool. One that replaces another in the
pool is only copied on some paths (`stays`), and a removal that is not exact takes more from
the pool than from the copy, so that the copies are those of the pool as long as neither
happens to a sender of the active list (`mirrors_of_run`).
-/

set_option autoImplicit false

namespace BasedOp.Analysis.ActiveMirror

open BasedOp.Computation Model Model.Gateway
open PoolContents PoolRetention PoolAndChain
open ActiveIndex ReadySenders

variable {l : SimulatedTxList} {t tx : Transaction} {pool pool' : TxPool}
  {getNonce : Address → UInt64} {baseFee : UInt64} {syncing : Bool} {sender : Address}
  {txs : List Transaction}

/-! ## The copies of the active list -/

/-- A list has its simulated and its pending transactions. -/
theorem mem_listTxs_iff : t ∈ listTxs l ↔ (∃ c ∈ l.current, c.tx = t) ∨ t ∈ l.pending.txs := by
  rw [listTxs, List.mem_append, Option.mem_toList, Option.map_eq_some_iff]
  rfl

/-- Every transaction of the active list is the one that the pool has for its sender and nonce. -/
def Mirrors (pool : TxPool) : Prop :=
  ∀ l ∈ pool.activeTxs.txs, ∀ t ∈ listTxs l, ∃ list,
    pool.poolData.lookup l.sender = some list ∧ list.get t.nonce = some t

/-- Every transaction of the active list is in the pool. -/
def Copies (pool : TxPool) : Prop :=
  ∀ l ∈ pool.activeTxs.txs, ∀ t ∈ listTxs l, t ∈ senderTxs pool l.sender

/-- Copies of the pool's transactions mirror it. -/
theorem mirrors_of_copies (h : WellFormed pool) (hcopies : Copies pool) : Mirrors pool := by
  intro l hl t ht
  have hmem := hcopies l hl t ht
  cases hlist : pool.poolData.lookup l.sender with
  | none =>
    rw [senderTxs_of_none hlist] at hmem
    cases hmem
  | some list =>
    rw [senderTxs_of_lookup hlist] at hmem
    exact ⟨list, rfl, get_of_mem (h.lists _ _ hlist).ordered hmem⟩

/-- A new list has nothing else. -/
theorem listTxs_new_subset {current : Option SimulatedTx} {l : TxList}
    (ht : t ∈ listTxs (.new current l)) : (∃ c ∈ current, c.tx = t) ∨ t ∈ l.txs :=
  (mem_listTxs_iff.mp ht).imp_right fun hpending => (trim_sublist current l).2.subset hpending

/-- What stays of the active list of a sender when a transaction of it arrives: nothing where
it is copied anew, the simulated transaction where the pending ones are, and else all.
SRCLINE: transaction/pool.rs:63-78 -/
def stays (pool : TxPool) (tx : Transaction) (getNonce : Address → UInt64) (baseFee : UInt64)
    (syncing : Bool) (l : SimulatedTxList) : List Transaction :=
  if syncing = true ∨ tx.validForBlock baseFee = false then listTxs l
  else if tx.nonce = getNonce tx.sender then []
  else if (listWith pool tx).nonceReady (getNonce tx.sender) baseFee tx.nonce = true then
    (l.current.map (·.tx)).toList
  else listTxs l

/-- The pool does not take a new transaction, or no other one of its nonce stays in the active
list. -/
def ReplacesCopy (pool : TxPool) (tx : Transaction) (getNonce : Address → UInt64)
    (baseFee : UInt64) (syncing : Bool) : Prop :=
  Refused pool tx getNonce baseFee ∨ ∀ l ∈ entry pool.activeTxs tx.sender,
    ∀ t ∈ stays pool tx getNonce baseFee syncing l, t.nonce = tx.nonce → t = tx

/-- A removal is exact for the pool, if something of the active list of the sender stays pending. -/
def RemovesAlike (pool : TxPool) (removal : Address × UInt64) : Prop :=
  ∀ l ∈ entry pool.activeTxs removal.1,
    Exact l.pending.txs removal.2 → (∃ t ∈ l.pending.txs, removal.2 < t.nonce) →
      Exact (senderTxs pool removal.1) removal.2

/-- An operation does to the active list what it does to the pool. -/
def KeepsCopies (pool : TxPool) : PoolOp → Prop
  | .handleNewTx tx getNonce baseFee syncing _ => ReplacesCopy pool tx getNonce baseFee syncing
  | .handleSimulated tx => Pooled pool tx.tx
  | .remove sender nonce => RemovesAlike pool (sender, nonce)
  | .removeMinedTxs mined => Along removeStep RemovesAlike pool mined
  | .handleNewBlock _ _ _ _ _ => True

/-- The arrival replaces only its own nonce. -/
theorem mem_listWith (h : WellFormed pool) (ht : t ∈ senderTxs pool tx.sender)
    (hsame : t.nonce = tx.nonce → t = tx) :
    t ∈ (listWith pool tx).txs := by
  cases hl : pool.poolData.lookup tx.sender with
  | none =>
    rw [senderTxs_of_none hl] at ht
    cases ht
  | some =>
    rw [senderTxs_of_lookup hl] at ht
    have hordered := (h.lists _ _ hl).ordered
    rw [listWith, hl]
    by_cases hnonce : t.nonce = tx.nonce
    · rw [hsame hnonce]
      exact mem_put_self hordered
    · exact mem_put_of_mem hordered ht hnonce

/-- The simulated transaction stays, unless it is refreshed. -/
theorem current_subset_stays (hnonce : tx.nonce ≠ getNonce tx.sender) {c : SimulatedTx}
    (hc : c ∈ l.current) :
    c.tx ∈ stays pool tx getNonce baseFee syncing l := by
  have hall : c.tx ∈ listTxs l := mem_listTxs_iff.mpr (.inl ⟨c, hc, rfl⟩)
  unfold stays
  rw [if_neg hnonce]
  split
  · exact hall
  · split
    · rw [Option.mem_toList, Option.map_eq_some_iff]
      exact ⟨c, hc, rfl⟩
    · exact hall

/-- Without a refresh the list stays. -/
theorem stays_of_not_refreshed (h : syncing = true ∨ tx.validForBlock baseFee = false ∨
      (tx.nonce ≠ getNonce tx.sender ∧
        (listWith pool tx).nonceReady (getNonce tx.sender) baseFee tx.nonce = false))
    (l : SimulatedTxList) : stays pool tx getNonce baseFee syncing l = listTxs l := by
  unfold stays
  split
  · rfl
  · rename_i hlive
    obtain hsyncing | hinvalid | ⟨hnonce, hready⟩ := h
    · exact absurd (.inl hsyncing) hlive
    · exact absurd (.inr hinvalid) hlive
    · rw [if_neg hnonce, hready]
      rfl

/-- The copies of the other senders are those of before, so only the lists of the
sender of the change are to be looked at. -/
theorem copies_of_updates (hcopies : Copies pool) (hupdates : Updates pool pool' sender txs)
    (hothers : ∀ l ∈ pool'.activeTxs.txs, l.sender ≠ sender → l ∈ pool.activeTxs.txs)
    (hown : ∀ l ∈ pool'.activeTxs.txs, l.sender = sender → ∀ t ∈ listTxs l, t ∈ txs) :
    Copies pool' := by
  intro l hl t ht
  rw [hupdates l.sender]
  split
  · rename_i heq
    exact hown l hl heq t ht
  · rename_i hne
    exact hcopies l (hothers l hl hne) t ht

/-- The list of the sender of the change is a new one. -/
theorem copies_of_puts (hcopies : Copies pool) (hupdates : Updates pool pool' sender txs)
    (hputs : PutsList pool.activeTxs pool'.activeTxs l) (hsender : l.sender = sender)
    (hown : ∀ t ∈ listTxs l, t ∈ txs) : Copies pool' := by
  refine copies_of_updates hcopies hupdates ?_ ?_
  · intro l' hl' hne
    obtain rfl | ⟨hold, -⟩ := (hputs l').mp hl'
    · exact absurd hsender hne
    · exact hold
  · intro l' hl' hsender'
    obtain rfl | ⟨-, hne⟩ := (hputs l').mp hl'
    · exact hown
    · exact absurd (hsender'.trans hsender.symm) hne

/-- The sender of the change is not in the active list. -/
theorem copies_of_entry_eq_none (h : WellFormed pool) (hcopies : Copies pool)
    (hupdates : Updates pool pool' sender txs) (hactive : pool'.activeTxs = pool.activeTxs)
    (hnone : entry pool.activeTxs sender = none) :
    Copies pool' := by
  refine copies_of_updates hcopies hupdates (fun l hl _ => hactive ▸ hl) ?_
  intro l hl hsender
  rw [hactive] at hl
  have hentry : entry pool.activeTxs sender = some l :=
    h.indexed.find_eq_some_iff.mpr ⟨hl, hsender⟩
  rw [hnone] at hentry
  cases hentry

/-- The arrival changes the list of its sender. -/
theorem updates_listWith (pool : TxPool) (active : Active) (tx : Transaction) :
    Updates pool ⟨pool.poolData.insert tx.sender (listWith pool tx), active⟩ tx.sender
      (listWith pool tx).txs :=
  fun other => senderTxs_insert pool active tx.sender other (listWith pool tx)

/-- A new transaction keeps the copies if no other one of its nonce stays. -/
theorem copies_newTx (h : WellFormed pool) (hcopies : Copies pool)
    (hkeeps : ReplacesCopy pool tx getNonce baseFee syncing)
    (hstep : NewTxStep pool tx getNonce baseFee syncing pool') : Copies pool' := by
  have hlist := listOf_listWith h tx
  -- a copy that stays is in the new list
  have hkept : ¬ Refused pool tx getNonce baseFee → ∀ l ∈ pool.activeTxs.txs,
      l.sender = tx.sender → ∀ t ∈ listTxs l, t ∈ stays pool tx getNonce baseFee syncing l →
        t ∈ (listWith pool tx).txs := by
    intro htaken l hl hsender t ht hstays
    have hentry : l ∈ entry pool.activeTxs tx.sender :=
      h.indexed.find_eq_some_iff.mpr ⟨hl, hsender⟩
    exact mem_listWith h (hsender ▸ hcopies l hl t ht)
      (hkeeps.resolve_left htaken l hentry t hstays)
  cases hstep with
  | refused => exact hcopies
  | stored htaken hquiet =>
    refine copies_of_updates hcopies (updates_listWith pool _ tx) (fun l hl _ => hl) ?_
    intro l hl hsender t ht
    obtain hsyncing | hinvalid | ⟨hnone, -⟩ := hquiet
    · refine hkept htaken l hl hsender t ht ?_
      rw [stays_of_not_refreshed (.inl hsyncing)]
      exact ht
    · refine hkept htaken l hl hsender t ht ?_
      rw [stays_of_not_refreshed (.inr (.inl hinvalid))]
      exact ht
    · have hmem := hcopies l hl t ht
      rw [hsender, senderTxs_of_none hnone] at hmem
      cases hmem
  | first htaken hput =>
    obtain ⟨a', heq, -, hputs⟩ := put_spec h.indexed (.new none (listWith pool tx))
    obtain rfl := Option.some.inj (hput.symm.trans heq)
    have hsame := (orderOf_new hlist none fun _ h => nomatch h).2
    refine copies_of_puts hcopies (updates_listWith pool _ tx) hputs hsame ?_
    intro t ht
    obtain ⟨c, hc, -⟩ | hmem := listTxs_new_subset ht
    · cases hc
    · exact hmem
  | later htaken hnonce hmodify =>
    obtain ⟨-, ⟨hnone, rfl⟩ | ⟨l₀, l', hentry, hl', hputs⟩⟩ :=
      modifyTxList_spec h.indexed (fun l l' hsender hl' =>
        (sender_refresh (hsender ▸ hlist) hl').1.trans hsender) hmodify
    · exact copies_of_entry_eq_none h hcopies (updates_listWith pool _ tx) rfl hnone
    · obtain ⟨hmem, hsender₀⟩ := h.indexed.find_eq_some_iff.mp hentry
      obtain ⟨hsame, hcurrent, hrefreshed⟩ := sender_refresh (hsender₀ ▸ hlist) hl'
      refine copies_of_puts hcopies (updates_listWith pool _ tx) hputs (hsame.trans hsender₀) ?_
      intro t ht
      obtain ⟨hready, rfl⟩ | hsub := hrefreshed
      · refine hkept htaken l' hmem hsender₀ t ht ?_
        rw [stays_of_not_refreshed (.inr (.inr ⟨hnonce, hready⟩))]
        exact ht
      · obtain ⟨c, hc, rfl⟩ | hpending := mem_listTxs_iff.mp ht
        · rw [hcurrent] at hc
          exact hkept htaken l₀ hmem hsender₀ c.tx (mem_listTxs_iff.mpr (.inl ⟨c, hc, rfl⟩))
            (current_subset_stays hnonce hc)
        · exact hsub.subset hpending

/-- What is kept was there and is above. -/
theorem above_of_mem_keptAbove {nonce : UInt64} (h : Ordered l.pending.txs)
    (ht : t ∈ listTxs (keptAbove l nonce)) :
    t ∈ listTxs l ∧ nonce < t.nonce := by
  obtain ⟨c, hc, rfl⟩ | hpending := mem_listTxs_iff.mp ht
  · obtain ⟨hcurrent, habove⟩ := Option.mem_filter_iff.mp hc
    exact ⟨mem_listTxs_iff.mpr (.inl ⟨c, hcurrent, rfl⟩), of_decide_eq_true habove⟩
  · exact ⟨mem_listTxs_iff.mpr (.inr ((forward_sublist l.pending nonce).subset hpending)),
      lt_of_mem_forward h hpending⟩

/-- `remove` forwards the active list. -/
theorem forward_of_remove {nonce : UInt64} (h : pool.remove sender nonce = some pool') :
    pool.activeTxs.forward sender nonce = some pool'.activeTxs := by
  unfold TxPool.remove at h
  dsimp only at h
  obtain ⟨active, hactive, rfl⟩ := Option.map_eq_some_iff.mp h
  exact hactive

/-- A removal keeps the copies if it is exact for the pool where one stays. -/
theorem copies_remove {removal : Address × UInt64} (h : WellFormed pool) (hcopies : Copies pool)
    (hkeeps : RemovesAlike pool removal) (hstep : removeStep pool removal = some pool') :
    Copies pool' := by
  obtain ⟨sender, nonce⟩ := removal
  have hupdates := updates_remove hstep
  obtain ⟨a', hforward, -, hspec⟩ := forward_spec h.indexed sender nonce
  obtain rfl := Option.some.inj ((forward_of_remove hstep).symm.trans hforward)
  cases hentry : entry pool.activeTxs sender with
  | none =>
    rw [hentry] at hspec
    exact copies_of_entry_eq_none h hcopies hupdates hspec hentry
  | some l₀ =>
    rw [hentry] at hspec
    dsimp only at hspec
    obtain ⟨hmem, hsender₀⟩ := h.indexed.find_eq_some_iff.mp hentry
    split at hspec
    · refine copies_of_updates hcopies hupdates (fun l hl _ => ((hspec l).mp hl).1) ?_
      intro l hl hsender
      exact absurd hsender ((hspec l).mp hl).2
    · rename_i hkept
      have hordered := (h.orders l₀ hmem).pending.ordered
      have hsame : (keptAbove l₀ nonce).sender = sender :=
        (sender_forward l₀.pending nonce).trans hsender₀
      refine copies_of_puts hcopies hupdates hspec hsame ?_
      intro t ht
      -- something stays pending, so that the removal is exact for the pool too
      obtain ⟨hexact, habove⟩ := exact_of_forward hordered (Bool.not_eq_true _ ▸ hkept)
      obtain ⟨hold, hlt⟩ := above_of_mem_keptAbove hordered ht
      have hpooled := hcopies l₀ hmem t hold
      rw [hsender₀] at hpooled
      exact mem_forward (orderedPool_of_wellFormed h sender)
        (hkeeps l₀ hentry hexact habove) hpooled hlt

variable {mined : List (Address × UInt64)}

/-- Exact removals keep the copies, one after the other. -/
theorem copies_removeMinedTxs (h : WellFormed pool) (hcopies : Copies pool)
    (hkeeps : Along removeStep RemovesAlike pool mined)
    (hstep : pool.removeMinedTxs mined = some pool') : Copies pool' := by
  induction mined generalizing pool with
  | nil =>
    obtain rfl := Option.some.inj hstep
    exact hcopies
  | cons r mined ih =>
    obtain ⟨pool₁, hremove, h₁⟩ := wellFormed_remove h r.1 r.2
    rw [TxPool.removeMinedTxs, hremove] at hstep
    exact ih h₁ (copies_remove h hcopies hkeeps.1 hremove) (hkeeps.2 pool₁ hremove) hstep

/-- The simulation of a transaction of the pool goes before a copy of its list. -/
theorem copies_handleSimulated {tx : SimulatedTx} (h : WellFormed pool) (hcopies : Copies pool)
    (hpooled : Pooled pool tx.tx) (hstep : pool.handleSimulated tx = some pool') :
    Copies pool' := by
  unfold TxPool.handleSimulated at hstep
  split at hstep
  · rw [← Option.some.inj hstep]
    exact hcopies
  · rename_i list hlist
    obtain ⟨active, hput, rfl⟩ := Option.map_eq_some_iff.mp hstep
    obtain ⟨a', heq, -, hputs⟩ := put_spec h.indexed (.new (some tx) list)
    obtain rfl := Option.some.inj (hput.symm.trans heq)
    have hsame := (orderOf_new (h.lists _ _ hlist) (some tx) fun c hc =>
      congrArg SimulatedTx.sender (Option.some.inj hc).symm).2
    intro l hl t ht
    obtain rfl | ⟨hold, -⟩ := (hputs l).mp hl
    · rw [hsame]
      obtain ⟨c, hc, rfl⟩ | hmem := listTxs_new_subset ht
      · obtain rfl := Option.some.inj hc
        exact hpooled
      · exact (senderTxs_of_lookup hlist).symm ▸ hmem
    · exact hcopies l hold t ht

/-- A new block makes all copies anew. -/
theorem copies_handleNewBlock {simSender : Bool} {requests : List Transaction}
    (h : WellFormed pool') (hstep : pool.handleNewBlock mined baseFee getNonce syncing simSender =
      some (pool', requests)) : Copies pool' := by
  have hlists : ∀ e ∈ pool'.poolData.entries, OfList (Pooled pool') e.2 := by
    rintro ⟨sender, list⟩ he t ht
    have hlist := AList.mem_lookup_iff.mpr he
    rw [Pooled, (h.lists sender list hlist).own t ht, senderTxs_of_lookup hlist]
    exact ht
  have hactive := (ofPool_of_poolData hstep hlists).activeTxs
  intro l hl t ht
  have horder := h.orders l hl
  obtain ⟨c, hc, rfl⟩ | hpending := mem_listTxs_iff.mp ht
  · rw [← horder.current c hc]
    exact (hactive l hl).current c hc
  · rw [← horder.pending.own t hpending]
    exact (hactive l hl).pending t hpending

/-- An operation that does to the active list what it does to the pool keeps the copies. -/
theorem copies_step {op : PoolOp} (h : WellFormed pool) (hcopies : Copies pool)
    (hkeeps : KeepsCopies pool op) (hstep : poolStep pool op = some pool') : Copies pool' := by
  cases op with
  | handleNewTx =>
    obtain ⟨⟨pool₁, requests⟩, hnew, rfl⟩ := Option.map_eq_some_iff.mp hstep
    exact copies_newTx h hcopies hkeeps (newTxStep_of_handleNewTx hnew)
  | handleSimulated => exact copies_handleSimulated h hcopies hkeeps hstep
  | remove => exact copies_remove h hcopies hkeeps hstep
  | removeMinedTxs => exact copies_removeMinedTxs h hcopies hkeeps hstep
  | handleNewBlock =>
    have h' := wellFormed_step h hstep
    obtain ⟨⟨pool₁, requests⟩, hblock, rfl⟩ := Option.map_eq_some_iff.mp hstep
    exact copies_handleNewBlock h' hblock

/-- In every run of the pool, whatever the operations, the transactions of the active list are those
that the pool has for their senders and nonces, as long as every transaction that arrives leaves no
other one of its nonce in the active list, every simulation is of a transaction of the pool, and
every removal that leaves something pending in the active list is exact for the pool.
SRCLINE: transaction/pool.rs:28-161 -/
theorem mirrors_of_run {ops : List PoolOp} {pool : TxPool}
    (hkeeps : Along poolStep KeepsCopies .empty ops)
    (hrun : runSteps poolStep .empty ops = some pool) : Mirrors pool := by
  have hinv : WellFormed pool ∧ Copies pool := by
    refine Along.induction (I := fun pool => WellFormed pool ∧ Copies pool) ?_ hkeeps ?_ hrun
    · rintro pool op pool' hkeeps ⟨h, hcopies⟩ hstep
      exact ⟨wellFormed_step h hstep, copies_step h hcopies hkeeps hstep⟩
    · exact ⟨wellFormed_empty, fun _ h => nomatch h⟩
  exact mirrors_of_copies hinv.1 hinv.2

instance (pool : TxPool) (tx : Transaction) (getNonce : Address → UInt64) (baseFee : UInt64) :
    Decidable (Refused pool tx getNonce baseFee) :=
  inferInstanceAs (Decidable (_ ∨ ∃ l ∈ pool.poolData.lookup tx.sender, _))

instance (pool : TxPool) (tx : Transaction) (getNonce : Address → UInt64) (baseFee : UInt64)
    (syncing : Bool) : Decidable (ReplacesCopy pool tx getNonce baseFee syncing) :=
  inferInstanceAs (Decidable (_ ∨ ∀ l ∈ entry pool.activeTxs tx.sender, _))

instance (pool : TxPool) (removal : Address × UInt64) : Decidable (RemovesAlike pool removal) :=
  inferInstanceAs (Decidable (∀ l ∈ entry pool.activeTxs removal.1, _ → _ → _))

instance (pool : TxPool) : (op : PoolOp) → Decidable (KeepsCopies pool op)
  | .handleNewTx tx getNonce baseFee syncing _ =>
    inferInstanceAs (Decidable (ReplacesCopy pool tx getNonce baseFee syncing))
  | .handleSimulated tx => inferInstanceAs (Decidable (Pooled pool tx.tx))
  | .remove sender nonce => inferInstanceAs (Decidable (RemovesAlike pool (sender, nonce)))
  | .removeMinedTxs mined => inferInstanceAs (Decidable (Along removeStep RemovesAlike pool mined))
  | .handleNewBlock _ _ _ _ _ => isTrue trivial

/-- Another transaction of nonce 5 arrives. -/
def anotherFive : PoolOp := .handleNewTx (plainRawTx [5, 1]) (fun _ => 1) 1 false false

/-- A run with a simulation and a mined transaction. -/
theorem mirrors_of_run_mined :
    ∃ pool, runSteps poolStep .empty
        [arrives 1, .handleSimulated (plainSimulated 1), arrives 2, .removeMinedTxs [(7, 1)]] =
          some pool ∧ pool.activeTxs.txs ≠ [] ∧ Mirrors pool := by
  have hview : (runSteps poolStep .empty
      [arrives 1, .handleSimulated (plainSimulated 1), arrives 2, .removeMinedTxs [(7, 1)]]).map
        (fun pool => pool.activeTxs.txs.isEmpty) = some false := by
    decide +kernel
  have hkeeps : Along poolStep KeepsCopies .empty
      [arrives 1, .handleSimulated (plainSimulated 1), arrives 2, .removeMinedTxs [(7, 1)]] := by
    decide +kernel
  obtain ⟨pool, hrun, hsome⟩ := Option.map_eq_some_iff.mp hview
  exact ⟨pool, hrun, List.isEmpty_eq_false_iff.mp hsome, mirrors_of_run hkeeps hrun⟩

instance (pool : TxPool) : Decidable (Mirrors pool) :=
  inferInstanceAs (Decidable (∀ l ∈ pool.activeTxs.txs, ∀ t ∈ listTxs l,
    ∃ list ∈ pool.poolData.lookup l.sender, list.get t.nonce = some t))

/-- Computed: a run that ends without the mirror. -/
theorem not_mirrors_of_view {ops : List PoolOp}
    (h : (runSteps poolStep .empty ops).map (fun pool => decide (Mirrors pool)) = some false) :
    ∃ pool, runSteps poolStep .empty ops = some pool ∧ ¬ Mirrors pool := by
  obtain ⟨pool, hrun, hview⟩ := Option.map_eq_some_iff.mp h
  exact ⟨pool, hrun, of_decide_eq_false hview⟩

/-- A transaction that is replaced in the pool stays in the active list when a nonce before it
is missing; and the removal of a nonce that is not there takes a higher one from the pool that
stays in the active list.
SRCLINE: transaction/pool.rs:69-77, transaction/pool.rs:109-118 -/
theorem replaced_stays_active :
    (∃ pool, runSteps poolStep .empty [arrives 5, arrives 1, anotherFive] = some pool ∧
      ¬ Mirrors pool) ∧
    ∃ pool, runSteps poolStep .empty [arrives 5, arrives 1, .handleSimulated (plainSimulated 1),
      .remove 7 3] = some pool ∧ ¬ Mirrors pool := by
  constructor
  · apply not_mirrors_of_view
    decide +kernel
  · apply not_mirrors_of_view
    decide +kernel

end BasedOp.Analysis.ActiveMirror
