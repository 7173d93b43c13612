import BasedOp.Analysis.ChainLinks

/-!
# Pending blocks that could be applied

When `commit_block` has committed a block and the pending ones after it, none of those that
still wait is at or below the head, and none comes right after it. The loop looks only at the
lowest pending block, so this needs that no two of them have the same number: a block that is
given twice while it waits is left behind.
-/

set_option autoImplicit false

namespace BasedOp.Analysis.PendingBlocks

open BasedOp.Computation Model Model.Gateway
open CommitSteps ChainLinks

variable {σ ε : Type}

/-! ## The numbers of the headers -/

/-- The numbers are listed from the highest down, each of them once. -/
def Descending (numbers : List UInt64) : Prop :=
  numbers.Pairwise fun a b => b < a

variable {numbers : List UInt64} {sync : BlockSync} {s s' : σ} {result : Except ε Unit}
  {block : BlockWithSenders} {rest : List BlockWithSenders} {out : CallOutcome σ ε}
  {search : PendingSearch}

/-- Rolled-back numbers lower the head. -/
theorem headNumber_append_le {dropped : List UInt64} (h : Descending (dropped ++ numbers)) :
    headNumber id numbers ≤ headNumber id (dropped ++ numbers) := by
  cases dropped with
  | nil => exact UInt64.le_refl _
  | cons =>
    cases numbers with
    | nil => exact UInt64.zero_le
    | cons top => exact UInt64.le_of_lt ((List.pairwise_cons.mp h).1 top (by simp))

/-- Rolling back one number lowers the head. -/
theorem headNumber_tail_le (h : Descending numbers) :
    headNumber id numbers.tail ≤ headNumber id numbers := by
  cases numbers with
  | nil => exact UInt64.le_refl _
  | cons top rest => exact headNumber_append_le (show Descending ([top] ++ rest) from h)

/-- Lower numbers keep the head below. -/
theorem headNumber_insertRow_lt {n bound : UInt64} (hn : n < bound)
    (hhead : headNumber id numbers < bound) :
    headNumber id (insertRow id n numbers) < bound := by
  cases numbers with
  | nil => exact hn
  | cons =>
    simp only [insertRow]
    split
    · exact hn
    · split
      · exact hn
      · exact hhead

/-- Only the number is added. -/
theorem mem_insertRow {n m : UInt64} (h : m ∈ insertRow id n numbers) : m = n ∨ m ∈ numbers := by
  induction numbers with
  | nil => exact .inl (List.mem_singleton.mp h)
  | cons top rest ih =>
    simp only [insertRow] at h
    split at h
    · exact List.mem_cons.mp h
    · split at h
      · exact (List.mem_cons.mp h).imp_right (List.mem_cons_of_mem top)
      · obtain rfl | h := List.mem_cons.mp h
        · exact .inr List.mem_cons_self
        · exact (ih h).imp_right (List.mem_cons_of_mem top)

/-- Inserting keeps the numbers descending. -/
theorem descending_insertRow (h : Descending numbers) (n : UInt64) :
    Descending (insertRow id n numbers) := by
  induction numbers with
  | nil => exact List.pairwise_singleton _ n
  | cons top rest ih =>
    obtain ⟨htop, hrest⟩ := List.pairwise_cons.mp h
    simp only [insertRow]
    split
    · rename_i hlt
      refine List.pairwise_cons.mpr ⟨fun m hm => ?_, h⟩
      obtain rfl | hm := List.mem_cons.mp hm
      · exact hlt
      · exact UInt64.lt_trans (htop m hm) hlt
    · rename_i hnlt
      split
      · rename_i heq
        obtain rfl : top = n := heq
        exact h
      · rename_i hne
        refine List.pairwise_cons.mpr ⟨fun m hm => ?_, ih hrest⟩
        obtain rfl | hm := mem_insertRow hm
        · exact UInt64.lt_of_le_of_ne (UInt64.not_lt.mp hnlt) (Ne.symm hne)
        · exact htop m hm

/-! ## What is kept -/

/-- Every pending block is above the head. -/
def Ahead (sync : BlockSync) (numbers : List UInt64) : Prop :=
  ∀ block ∈ sync.pendingBlocks, headNumber id numbers < block.header.number

/-- No two pending blocks have the same number, and all of them are above the head. -/
structure PendingInv (R : σ → List UInt64 → Prop) (sync : BlockSync) (s : σ) : Prop where
  ahead : ∃ numbers, R s numbers ∧ Descending numbers ∧ Ahead sync numbers
  distinct : sync.pendingBlocks.Pairwise fun a b => b.header.number < a.header.number

/-- The invariant has the order. -/
theorem PendingInv.sorted {R : σ → List UInt64 → Prop} (h : PendingInv R sync s) :
    PendingSorted sync :=
  h.distinct.imp UInt64.le_of_lt

/-- A block that is not needed any more: it is at or below the head, or it could be
committed right away. -/
def LeftBehind (db : ChainDatabase σ ε) (s : σ) (block : BlockWithSenders) : Prop :=
  ∃ head, db.headBlockNumber s = .ok head ∧
    (block.header.number ≤ head ∨
      block.header.number = head + 1 ∧ db.headBlockHash s = some block.header.parentHash)

variable {pending : BlockWithSenders}

section

variable {db : ChainDatabase σ ε} {R : σ → List UInt64 → Prop}

/-- Rolling back leaves the blocks ahead. -/
theorem ahead_rollBackHead (hdb : KeepsRows db id Header.number R) (hR : R s numbers)
    (hdesc : Descending numbers) (hahead : Ahead sync numbers)
    (h : db.rollBackHead s = (result, s')) :
    ∃ numbers', R s' numbers' ∧ Descending numbers' ∧ Ahead sync numbers' ∧
      headNumber id numbers' ≤ headNumber id numbers := by
  cases result with
  | error => exact ⟨numbers, hdb.rollBackHead_fails hR h, hdesc, hahead, UInt64.le_refl _⟩
  | ok =>
    have hle := headNumber_tail_le hdesc
    exact ⟨numbers.tail, hdb.rollBackHead hR h, hdesc.tail,
      fun block hmem => UInt64.lt_of_le_of_lt hle (hahead block hmem), hle⟩

/-- The loop leaves the blocks ahead, too. -/
theorem ahead_rollBackTo (hdb : KeepsRows db id Header.number R) {target : UInt64} {rounds : ℕ}
    (hR : R s numbers) (hdesc : Descending numbers) (hahead : Ahead sync numbers)
    (h : db.rollBackTo target rounds s = some (result, s')) :
    ∃ numbers', R s' numbers' ∧ Descending numbers' ∧ Ahead sync numbers' ∧
      (result = .ok () → headNumber id numbers' < target) := by
  obtain ⟨dropped, numbers', rfl, hR', -, hlt⟩ := rows_of_rollBackTo hdb hR h
  have hle := headNumber_append_le hdesc
  exact ⟨numbers', hR', (List.pairwise_append.mp hdesc).2.1,
    fun block hmem => UInt64.lt_of_le_of_lt hle (hahead block hmem), hlt⟩

/-- A lower block leaves them ahead. -/
theorem ahead_executeAndMaybeCommit (hdb : KeepsRows db id Header.number R) (hR : R s numbers)
    (hdesc : Descending numbers) (hahead : Ahead sync numbers)
    (hlower : ∀ pending ∈ sync.pendingBlocks, block.header.number < pending.header.number)
    (h : db.executeAndMaybeCommit s block true = (result, s')) :
    ∃ numbers', R s' numbers' ∧ Descending numbers' ∧ Ahead sync numbers' := by
  cases result with
  | error => exact ⟨numbers, rows_of_executeAndMaybeCommit_fails hdb hR h, hdesc, hahead⟩
  | ok =>
    refine ⟨_, rows_of_executeAndMaybeCommit hdb hR h, descending_insertRow hdesc _, ?_⟩
    intro pending hmem
    exact headNumber_insertRow_lt (hlower pending hmem) (hahead pending hmem)

/-- The pending blocks but for the lowest one are above it. -/
theorem PendingInv.popped (h : PendingInv R ⟨(pending :: rest).reverse⟩ s) :
    (∀ block ∈ rest, pending.header.number < block.header.number) ∧
      rest.reverse.Pairwise fun a b => b.header.number < a.header.number := by
  have hdistinct := h.distinct
  simp only [List.reverse_cons] at hdistinct
  obtain ⟨hrest, -, hlower⟩ := List.pairwise_append.mp hdistinct
  exact ⟨fun block hmem => hlower block (List.mem_reverse.mpr hmem) pending List.mem_cons_self,
    hrest⟩

/-- The loop ends before a gap. -/
theorem not_leftBehind_of_break (hdb : KeepsRows db id Header.number R) {head : UInt64}
    (hinv : PendingInv R ⟨(pending :: rest).reverse⟩ s) (hhead : db.headBlockNumber s = .ok head)
    (hne : pending.header.number ≠ head + 1) :
    ∀ block ∈ (pending :: rest).reverse, ¬LeftBehind db s block := by
  intro block hmem hleft
  obtain ⟨head', hhead', hleft⟩ := hleft
  obtain rfl : head = head' := Except.ok.inj (hhead.symm.trans hhead')
  obtain ⟨numbers, hR, -, hahead⟩ := hinv.ahead
  have heq := hdb.headBlockNumber hR hhead
  have habove := heq ▸ hahead block hmem
  obtain hle | ⟨hnext, -⟩ := hleft
  · exact absurd habove (UInt64.not_lt.mpr hle)
  · obtain rfl | hrest := List.mem_cons.mp (List.mem_reverse.mp hmem)
    · exact hne hnext
    · -- the lowest one would be between the head and the number after it
      have hlowest := heq ▸ hahead pending (by simp)
      have hlt := UInt64.lt_iff_toNat_lt.mp (hinv.popped.1 block hrest)
      have hgt := UInt64.lt_iff_toNat_lt.mp hlowest
      have hnat := toNat_of_eq_add_one hnext fun hzero => UInt64.not_lt_zero (hzero ▸ habove)
      omega

/-- The others stay ahead. -/
theorem Ahead.popped (h : Ahead ⟨(block :: rest).reverse⟩ numbers) :
    Ahead ⟨rest.reverse⟩ numbers := by
  intro pending hmem
  refine h pending ?_
  rw [List.reverse_cons]
  exact List.mem_append_left _ hmem

/-- Also after a commit of the first. -/
theorem ahead_executeAndMaybeCommit_popped (hdb : KeepsRows db id Header.number R)
    (hinv : PendingInv R ⟨(block :: rest).reverse⟩ s)
    (h : db.executeAndMaybeCommit s block true = (result, s')) :
    ∃ numbers, R s' numbers ∧ Descending numbers ∧ Ahead ⟨rest.reverse⟩ numbers := by
  obtain ⟨numbers, hR, hdesc, hahead⟩ := hinv.ahead
  refine ahead_executeAndMaybeCommit hdb hR hdesc hahead.popped (fun pending hmem => ?_) h
  exact hinv.popped.1 pending (List.mem_reverse.mp hmem)

/-- Draining leaves no block behind. -/
theorem pendingInv_of_drains (hdb : KeepsRows db id Header.number R)
    {pending : List BlockWithSenders} (h : Drains db true s pending out)
    (hinv : PendingInv R ⟨pending.reverse⟩ s) :
    PendingInv R out.2.1 out.2.2 ∧
      (out.1 = .ok none → ∀ block ∈ out.2.1.pendingBlocks, ¬LeftBehind db out.2.2 block) := by
  induction h with
  | done => exact ⟨hinv, fun _ block hmem => absurd hmem List.not_mem_nil⟩
  | unread => exact ⟨hinv, by rintro ⟨⟩⟩
  | waits hhead hnumber => exact ⟨hinv, fun _ => not_leftBehind_of_break hdb hinv hhead hnumber⟩
  | @reorgs _ _ _ _ _ _ rolled _ _ _ _ hroll =>
    obtain ⟨numbers, hR, hdesc, hahead⟩ := hinv.ahead
    obtain ⟨numbers', hR', hdesc', hahead', -⟩ :=
      ahead_rollBackHead hdb hR hdesc hahead.popped hroll
    refine ⟨⟨⟨numbers', hR', hdesc', hahead'⟩, hinv.popped.2⟩, fun hnone => ?_⟩
    cases rolled <;> cases hnone
  | rejects _ _ _ hexec =>
    exact ⟨⟨ahead_executeAndMaybeCommit_popped hdb hinv hexec, hinv.popped.2⟩, by rintro ⟨⟩⟩
  | applies _ _ _ hexec _ ih =>
    exact ih ⟨ahead_executeAndMaybeCommit_popped hdb hinv hexec, hinv.popped.2⟩

/-- Parking a new number keeps the invariant. -/
theorem pendingInv_insertPendingBlock (hsearch : IsBinarySearch search)
    (hinv : PendingInv R sync s)
    (hfresh : ∀ pending ∈ sync.pendingBlocks, pending.header.number ≠ block.header.number)
    (hR : R s' numbers) (hdesc : Descending numbers) (hahead : Ahead sync numbers)
    (hblock : headNumber id numbers < block.header.number) :
    PendingInv R (ChainDatabase.insertPendingBlock search sync block) s' := by
  refine ⟨⟨numbers, hR, hdesc, fun b hb => ?_⟩, ?_⟩
  · obtain rfl | hb := (mem_insertPendingBlock hsearch hinv.sorted).mp hb
    · exact hblock
    · exact hahead b hb
  · obtain ⟨before, after, hblocks, hinsert, hbefore, hafter⟩ :=
      split_of_insertPendingBlock hsearch hinv.sorted block
    have hdistinct := hinv.distinct
    rw [hblocks] at hdistinct hfresh
    rw [hinsert]
    refine pairwise_insert hdistinct (fun b hb => ?_) fun b hb => ?_
    · exact UInt64.lt_of_le_of_ne (hbefore b hb) (hfresh b (List.mem_append_left _ hb)).symm
    · exact UInt64.lt_of_le_of_ne (hafter b hb) (hfresh b (List.mem_append_right _ hb))

/-- A commit on the head keeps the invariant. -/
theorem pendingInv_of_commitsOnHead (hsearch : IsBinarySearch search)
    (hdb : KeepsRows db id Header.number R) (h : CommitsOnHead search db true sync s block out)
    (hinv : PendingInv R sync s)
    (hlower : ∀ pending ∈ sync.pendingBlocks, block.header.number < pending.header.number)
    (hR : R s numbers) (hdesc : Descending numbers) (hahead : Ahead sync numbers)
    (hblock : block.header.number ≠ 0 → headNumber id numbers < block.header.number) :
    PendingInv R out.2.1 out.2.2 ∧
      (out.1 = .ok none → ∀ pending ∈ out.2.1.pendingBlocks, ¬LeftBehind db out.2.2 pending) := by
  cases h with
  | unrolled _ _ _ hroll =>
    obtain ⟨numbers', hR', hdesc', hahead', -⟩ := ahead_rollBackHead hdb hR hdesc hahead hroll
    exact ⟨⟨⟨numbers', hR', hdesc', hahead'⟩, hinv.distinct⟩, by rintro ⟨⟩⟩
  | reorgs _ hpositive _ hroll =>
    obtain ⟨numbers', hR', hdesc', hahead', hle⟩ := ahead_rollBackHead hdb hR hdesc hahead hroll
    refine ⟨pendingInv_insertPendingBlock hsearch hinv (fun b hb => ?_) hR' hdesc' hahead'
      (UInt64.lt_of_le_of_lt hle (hblock hpositive)), by rintro ⟨⟩⟩
    exact (UInt64.ne_of_lt (hlower b hb)).symm
  | rejects _ hexec =>
    have hahead' := ahead_executeAndMaybeCommit hdb hR hdesc hahead hlower hexec
    exact ⟨⟨hahead', hinv.distinct⟩, by rintro ⟨⟩⟩
  | commits _ hexec hdrains =>
    refine pendingInv_of_drains hdb hdrains ?_
    rw [List.reverse_reverse]
    exact ⟨ahead_executeAndMaybeCommit hdb hR hdesc hahead hlower hexec, hinv.distinct⟩

/-- The block is the one that the database has under its number, so that there is nothing to commit.
SRCLINE: block_sync/mod.rs:67-75 -/
def AlreadyCommitted (db : ChainDatabase σ ε) (hashSlow : Header → Hash) (s : σ)
    (block : BlockWithSenders) : Prop :=
  ∃ head, db.headBlockNumber s = .ok head ∧ block.header.number ≠ 0 ∧ block.header.number ≤ head ∧
    db.blockHashRef s block.header.number = some (hashSlow block.header)

/-- A block that is not above the number after the head, and that is not pending, is below all
the pending ones. -/
theorem lower_of_ahead (hahead : Ahead sync numbers)
    (hfresh : ∀ pending ∈ sync.pendingBlocks, pending.header.number ≠ block.header.number)
    (hle : block.header.number ≤ headNumber id numbers + 1) :
    ∀ pending ∈ sync.pendingBlocks, block.header.number < pending.header.number := by
  intro pending hmem
  refine UInt64.lt_of_le_of_ne (UInt64.le_trans hle ?_) (hfresh pending hmem).symm
  exact add_one_le_of_lt (hahead pending hmem)

/-- A whole call keeps the invariant. -/
theorem pendingInv_of_commitsBlock (hsearch : IsBinarySearch search)
    (hdb : KeepsRows db id Header.number R) {hashSlow : Header → Hash} {rounds : ℕ}
    (h : CommitsBlock search hashSlow db rounds sync block s true out)
    (hinv : PendingInv R sync s)
    (hfresh : ∀ pending ∈ sync.pendingBlocks, pending.header.number ≠ block.header.number)
    (hlast : ∀ head, db.headBlockNumber s = .ok head → head + 1 ≠ 0) :
    PendingInv R out.2.1 out.2.2 ∧
      (out.1 = .ok none → ¬AlreadyCommitted db hashSlow s block →
        ∀ pending ∈ out.2.1.pendingBlocks, ¬LeftBehind db out.2.2 pending) := by
  obtain ⟨numbers, hR, hdesc, hahead⟩ := hinv.ahead
  cases h with
  | unread => exact ⟨hinv, by rintro ⟨⟩⟩
  | @waits head hhead hgap =>
    refine ⟨pendingInv_insertPendingBlock hsearch hinv hfresh hR hdesc hahead ?_, by rintro ⟨⟩⟩
    have hnat := toNat_of_eq_add_one rfl (hlast head hhead)
    have hgap := UInt64.lt_iff_toNat_lt.mp hgap
    rw [← hdb.headBlockNumber hR hhead, UInt64.lt_iff_toNat_lt]
    omega
  | @known head hhead hpositive hle hhash =>
    exact ⟨hinv, fun _ hnew => absurd ⟨head, hhead, hpositive, hle, hhash⟩ hnew⟩
  | unrolled _ _ _ _ _ _ hroll =>
    obtain ⟨numbers', hR', hdesc', hahead', -⟩ := ahead_rollBackTo hdb hR hdesc hahead hroll
    exact ⟨⟨⟨numbers', hR', hdesc', hahead'⟩, hinv.distinct⟩, by rintro ⟨⟩⟩
  | replaces hhead hnext _ _ _ _ hroll hcommits =>
    have hlower := lower_of_ahead hahead hfresh (hdb.headBlockNumber hR hhead ▸ hnext)
    obtain ⟨numbers', hR', hdesc', hahead', hlt⟩ := ahead_rollBackTo hdb hR hdesc hahead hroll
    have hresult := pendingInv_of_commitsOnHead hsearch hdb hcommits
      ⟨⟨numbers', hR', hdesc', hahead'⟩, hinv.distinct⟩ hlower hR' hdesc' hahead' fun _ => hlt rfl
    exact ⟨hresult.1, fun hnone _ => hresult.2 hnone⟩
  | follows hhead hnext hgt hcommits =>
    have heq := hdb.headBlockNumber hR hhead
    have hlower := lower_of_ahead hahead hfresh (heq ▸ hnext)
    have hresult := pendingInv_of_commitsOnHead hsearch hdb hcommits hinv hlower hR hdesc hahead
      (heq ▸ hgt)
    exact ⟨hresult.1, fun hnone _ => hresult.2 hnone⟩

end

/-! ## Sequences of calls -/

/-- The block of a call has not the number of one that is pending, and the head is
not the last number there is. -/
def FreshNumber (now : BlockSync × σ) (call : Call σ ε) : Prop :=
  (∀ pending ∈ now.1.pendingBlocks, pending.header.number ≠ call.block.header.number) ∧
    ∀ head, call.db.headBlockNumber now.2 = .ok head → head + 1 ≠ 0

/-- After any calls whose blocks have fresh numbers, one that commits a block and
asks for none leaves no pending block behind.
SRCLINE: block_sync/mod.rs:100-144 -/
theorem none_left_behind {search : PendingSearch} (hsearch : IsBinarySearch search)
    {hashSlow : Header → Hash} {R : σ → List UInt64 → Prop} {calls : List (Call σ ε)}
    {call : Call σ ε} {s s₁ s' : σ} {sync₁ sync' : BlockSync} {numbers : List UInt64}
    (hdbs : ∀ c ∈ call :: calls, KeepsRows c.db id Header.number R)
    (hR : R s numbers) (hdesc : Descending numbers)
    (hfresh : Along (callStep search hashSlow) FreshNumber (BlockSync.new, s) calls)
    (hrun : runSteps (callStep search hashSlow) (BlockSync.new, s) calls = some (sync₁, s₁))
    (hlast : FreshNumber (sync₁, s₁) call)
    (hcall : call.db.commitBlock search hashSlow call.rounds sync₁ call.block s₁ true =
      some (.ok none, sync', s'))
    (hcommits : ¬AlreadyCommitted call.db hashSlow s₁ call.block) :
    ∀ pending ∈ sync'.pendingBlocks, ¬LeftBehind call.db s' pending := by
  have hstep : ∀ (now : BlockSync × σ) (c : Call σ ε) (next : BlockSync × σ),
      FreshNumber now c ∧ KeepsRows c.db id Header.number R → PendingInv R now.1 now.2 →
      callStep search hashSlow now c = some next → PendingInv R next.1 next.2 := by
    intro now c next hc hinv h
    obtain ⟨result, hcommit⟩ := commitBlock_of_callStep h
    have hcommits := commitsBlock_of_commitBlock hcommit
    exact (pendingInv_of_commitsBlock hsearch hc.2 hcommits hinv hc.1.1 hc.1.2).1
  have hstart : PendingInv R BlockSync.new s :=
    ⟨⟨numbers, hR, hdesc, by rintro b ⟨⟩⟩, List.Pairwise.nil⟩
  have halong : Along (callStep search hashSlow)
      (fun _ c => KeepsRows c.db id Header.number R) (BlockSync.new, s) calls :=
    along_of_forall_mem (fun c hmem _ => hdbs c (List.mem_cons_of_mem call hmem)) _
  have hinv := (hfresh.and halong).induction (I := fun now => PendingInv R now.1 now.2) hstep
    hstart hrun
  exact (pendingInv_of_commitsBlock hsearch (hdbs call List.mem_cons_self)
    (commitsBlock_of_commitBlock hcall) hinv hlast.1 hlast.2).2 rfl hcommits

/-! ## The database of the gateway -/

/-- The numbers in the gateway's table of headers. -/
def HoldsNumbers {S : Type} (db : SequencerDB S) (numbers : List UInt64) : Prop :=
  db.canonicalHeaders.map (·.1) = numbers

/-- The numbers of the rows. -/
theorem map_putHeader (number : UInt64) (hash : Hash) (rows : List (UInt64 × Hash)) :
    (putHeader number hash rows).map (·.1) = insertRow id number (rows.map (·.1)) := by
  induction rows with
  | nil => rfl
  | cons row rest ih =>
    simp only [putHeader, List.map_cons, insertRow, id]
    split
    · rfl
    · split
      · rfl
      · rw [List.map_cons, ih]

/-- The database keeps the numbers. -/
theorem keepsNumbers_chainDatabase {S : Type} (crates : Crates S) :
    KeepsRows (SequencerDB.chainDatabase crates) id Header.number HoldsNumbers where
  headBlockNumber := by
    intro db numbers n hR h
    cases h
    subst hR
    unfold SequencerDB.headBlockNumber
    cases db.canonicalHeaders <;> rfl
  rollBackHead := by
    intro db numbers db' hR h
    cases h
    subst hR
    exact List.map_tail
  rollBackHead_fails := fun _ h => nomatch h
  commit := by
    intro db numbers db' block state hR h
    cases h
    subst hR
    exact map_putHeader _ _ _
  commit_fails := fun _ h => nomatch h

/-- What is to be known of a call after others: what it returns, if that is not an error, and the
numbers of the pending blocks and of the headers. -/
def lastCall (calls : List (Call (SequencerDB ℕ) BlockSyncError)) (payload : ExecutionPayload) :
    Option (Option (Option (UInt64 × UInt64)) × List UInt64 × List UInt64) := do
  let (sync, db) ← runSteps (callStep binarySearchBy plainCrates.hashSlow)
    (BlockSync.new, plainDB) calls
  let (result, next) ← (plainCall payload).db.commitBlock binarySearchBy plainCrates.hashSlow
    (plainCall payload).rounds sync (plainCall payload).block db true
  return (result.toOption, numbersView next)

/-- What the computed view says. -/
theorem run_of_lastCall {calls : List (Call (SequencerDB ℕ) BlockSyncError)}
    {payload : ExecutionPayload} {fetch : Option (UInt64 × UInt64)} {pending headers : List UInt64}
    (h : lastCall calls payload = some (some fetch, pending, headers)) :
    ∃ sync₁ db₁ sync' db',
      runSteps (callStep binarySearchBy plainCrates.hashSlow) (BlockSync.new, plainDB) calls =
        some (sync₁, db₁) ∧
      (plainCall payload).db.commitBlock binarySearchBy plainCrates.hashSlow
        (plainCall payload).rounds sync₁ (plainCall payload).block db₁ true =
        some (.ok fetch, sync', db') ∧
      numbersView (sync', db') = (pending, headers) := by
  obtain ⟨⟨sync₁, db₁⟩, hrun, h⟩ := Option.bind_eq_some_iff.mp h
  obtain ⟨⟨result, sync', db'⟩, hcall, h⟩ := Option.bind_eq_some_iff.mp h
  obtain ⟨hresult, hview⟩ := Prod.mk.inj (Option.some.inj h)
  cases result with
  | error => cases hresult
  | ok =>
    cases hresult
    exact ⟨sync₁, db₁, sync', db', hrun, hcall, hview⟩

instance (now : BlockSync × σ) (call : Call σ ε) : Decidable (FreshNumber now call) :=
  match h : call.db.headBlockNumber now.2 with
  | .ok head => decidable_of_iff
      ((∀ pending ∈ now.1.pendingBlocks, pending.header.number ≠ call.block.header.number) ∧
        head + 1 ≠ 0)
      (by simp only [FreshNumber, h, Except.ok.injEq, forall_eq'])
  | .error _ => decidable_of_iff
      (∀ pending ∈ now.1.pendingBlocks, pending.header.number ≠ call.block.header.number)
      (by simp only [FreshNumber, h, reduceCtorEq, false_implies, implies_true, and_true])

/-- The second block waits for the first one and is committed with it. -/
theorem none_left_behind_twoBlocks :
    ∃ sync₁ db₁ sync' db',
      runSteps (callStep binarySearchBy plainCrates.hashSlow) (BlockSync.new, plainDB)
        [plainCall plainPayload2] = some (sync₁, db₁) ∧
      (plainCall plainPayload1).db.commitBlock binarySearchBy plainCrates.hashSlow
        (plainCall plainPayload1).rounds sync₁ (plainCall plainPayload1).block db₁ true =
        some (.ok none, sync', db') ∧
      numbersView (sync', db') = ([], [2, 1, 0]) ∧
      ∀ pending ∈ sync'.pendingBlocks, ¬LeftBehind (plainCall plainPayload1).db db' pending := by
  have hfirst : runSteps (callStep binarySearchBy plainCrates.hashSlow) (BlockSync.new, plainDB)
      [plainCall plainPayload2] = some (⟨[plainBlock plainPayload2]⟩, plainDB) := rfl
  have hview : lastCall [plainCall plainPayload2] plainPayload1 =
      some (some none, [], [2, 1, 0]) := by
    decide +kernel
  obtain ⟨sync₁, db₁, sync', db', hrun, hcall, hnumbers⟩ := run_of_lastCall hview
  obtain ⟨rfl, rfl⟩ := Prod.mk.inj (Option.some.inj (hfirst.symm.trans hrun))
  have hdbs : ∀ c ∈ [plainCall plainPayload1, plainCall plainPayload2],
      KeepsRows c.db id Header.number HoldsNumbers := by
    simp only [List.mem_cons, List.not_mem_nil, or_false, forall_eq_or_imp, forall_eq]
    exact ⟨keepsNumbers_chainDatabase plainCrates, keepsNumbers_chainDatabase plainCrates⟩
  have hnew : ¬AlreadyCommitted (plainCall plainPayload1).db plainCrates.hashSlow plainDB
      (plainCall plainPayload1).block := by
    rintro ⟨head, hhead, -, hle, -⟩
    cases hhead
    exact absurd hle (by decide)
  have hgenesis : HoldsNumbers plainDB [0] := rfl
  exact ⟨_, _, sync', db', hrun, hcall, hnumbers, none_left_behind isBinarySearch_binarySearchBy
    hdbs hgenesis (List.pairwise_singleton _ _) (by decide +kernel) hrun (by decide +kernel) hcall
    hnew⟩

/-- A block that is given twice while it waits is left behind once: when the missing block has
come, the copy stays with the number of the head. -/
theorem left_behind_sentTwice :
    ∃ sync₁ db₁ sync' db',
      runSteps (callStep binarySearchBy plainCrates.hashSlow) (BlockSync.new, plainDB)
        [plainCall plainPayload2, plainCall plainPayload2] = some (sync₁, db₁) ∧
      (plainCall plainPayload1).db.commitBlock binarySearchBy plainCrates.hashSlow
        (plainCall plainPayload1).rounds sync₁ (plainCall plainPayload1).block db₁ true =
        some (.ok none, sync', db') ∧
      numbersView (sync', db') = ([2], [2, 1, 0]) ∧
      ∃ pending ∈ sync'.pendingBlocks, LeftBehind (plainCall plainPayload1).db db' pending := by
  have hview : lastCall [plainCall plainPayload2, plainCall plainPayload2] plainPayload1 =
      some (some none, [2], [2, 1, 0]) := by
    decide +kernel
  obtain ⟨sync₁, db₁, sync', db', hrun, hcall, hnumbers⟩ := run_of_lastCall hview
  obtain ⟨hpending, hheaders⟩ := Prod.mk.inj hnumbers
  have hhead := (keepsNumbers_chainDatabase plainCrates).headBlockNumber hheaders rfl
  obtain ⟨pending, hmem, htwo⟩ : ∃ pending ∈ sync'.pendingBlocks, pending.header.number = 2 := by
    have hmem : (2 : UInt64) ∈ sync'.pendingBlocks.map fun block => block.header.number := by
      rw [hpending]
      exact List.mem_cons_self
    exact List.mem_map.mp hmem
  refine ⟨sync₁, db₁, sync', db', hrun, hcall, hnumbers, pending, hmem, db'.headBlockNumber, rfl,
    .inl ?_⟩
  rw [htwo, hhead]
  exact UInt64.le_refl _

end BasedOp.Analysis.PendingBlocks
