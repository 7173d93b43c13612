import BasedOp.Analysis.CommitSteps
import BasedOp.Computation.Runs
import BasedOp.Computation.SortedVectors
import BasedOp.Model.SequencerState
import Mathlib.Data.List.Chain

/-!
# The chain in the database

`BlockSync::commit_block` over any database that rolls back its highest header and adds the
headers of blocks, or fails to. Blocks may come in any order and may be executed or not: the
headers of the database stay linked, each to the one before it, and the pending blocks stay
sorted. The database of the gateway is one of those databases, and what the model says of
`commit_block` over it is what is said here.
-/

set_option autoImplicit false

namespace BasedOp.Analysis.ChainLinks

open BasedOp.Computation Model Model.Gateway
open CommitSteps

variable {σ ε ρ : Type}

/-! ## What is assumed of a database -/

/-- The number of the first row, which is the highest; zero if there is none. -/
def headNumber (number : ρ → UInt64) : List ρ → UInt64
  | [] => 0
  | row :: _ => number row

/-- Write a row of a table that is listed from the highest number down. -/
def insertRow (number : ρ → UInt64) (new : ρ) : List ρ → List ρ
  | [] => [new]
  | row :: rest =>
    if number row < number new then new :: row :: rest
    else if number row = number new then new :: rest
    else row :: insertRow number new rest

/-- The first row does not get lower when a row is written, which is not above it then. -/
theorem le_headNumber_insertRow (number : ρ → UInt64) (new : ρ) (rows : List ρ) :
    number new ≤ headNumber number (insertRow number new rows) ∧
      headNumber number rows ≤ headNumber number (insertRow number new rows) := by
  cases rows with
  | nil => exact ⟨UInt64.le_refl _, UInt64.zero_le⟩
  | cons =>
    unfold insertRow
    split
    · rename_i hlt
      exact ⟨UInt64.le_refl _, UInt64.le_of_lt hlt⟩
    · rename_i hge
      split
      · rename_i heq
        exact ⟨UInt64.le_refl _, UInt64.le_of_eq heq⟩
      · exact ⟨UInt64.not_lt.mp hge, UInt64.le_refl _⟩

/-- A database keeps rows: it reads the number of the first one, it takes that one away or adds the
row of a block, or fails to and keeps them as they are. `R` says which rows a database holds. -/
structure KeepsRows (db : ChainDatabase σ ε) (number : ρ → UInt64) (row : Header → ρ)
    (R : σ → List ρ → Prop) : Prop where
  headBlockNumber : ∀ {s rows n}, R s rows → db.headBlockNumber s = .ok n →
    n = headNumber number rows
  rollBackHead : ∀ {s rows s'}, R s rows → db.rollBackHead s = (.ok (), s') → R s' rows.tail
  rollBackHead_fails : ∀ {s rows s' err}, R s rows → db.rollBackHead s = (.error err, s') →
    R s' rows
  commit : ∀ {s rows s' block state}, R s rows →
    db.commitBlockUnchecked s block state = (.ok (), s') →
    R s' (insertRow number (row block.header) rows)
  commit_fails : ∀ {s rows s' block state err}, R s rows →
    db.commitBlockUnchecked s block state = (.error err, s') → R s' rows

variable {s s' : σ} {rows : List ρ} {block : BlockWithSenders} {rounds : ℕ} {result : Except ε Unit}
  {search : PendingSearch} {sync : BlockSync} {headers : List Header} {out : CallOutcome σ ε}

section

variable {db : ChainDatabase σ ε} {number : ρ → UInt64} {row : Header → ρ} {R : σ → List ρ → Prop}

/-- A success inserts one row. -/
theorem rows_of_executeAndMaybeCommit (hdb : KeepsRows db number row R) (hR : R s rows)
    (h : db.executeAndMaybeCommit s block true = (.ok (), s')) :
    R s' (insertRow number (row block.header) rows) := by
  unfold ChainDatabase.executeAndMaybeCommit at h
  split at h
  · cases (Prod.mk.inj h).1
  · rw [if_pos rfl] at h
    exact hdb.commit hR h

/-- A failure changes no row. -/
theorem rows_of_executeAndMaybeCommit_fails (hdb : KeepsRows db number row R) {err : ε}
    (hR : R s rows) (h : db.executeAndMaybeCommit s block true = (.error err, s')) : R s' rows := by
  unfold ChainDatabase.executeAndMaybeCommit at h
  split at h
  · rw [← (Prod.mk.inj h).2]
    exact hR
  · rw [if_pos rfl] at h
    exact hdb.commit_fails hR h

/-- The loop that rolls back takes rows from the first one on, none of which is
below the number; if no operation fails the rows that are left are below it. -/
theorem rows_of_rollBackTo (hdb : KeepsRows db number row R) {target : UInt64} (hR : R s rows)
    (h : db.rollBackTo target rounds s = some (result, s')) :
    ∃ dropped rows', rows = dropped ++ rows' ∧ R s' rows' ∧
      (∀ d ∈ dropped, target ≤ number d) ∧
      (result = .ok () → headNumber number rows' < target) := by
  induction rounds generalizing s rows with
  | zero => cases h
  | succ rounds ih =>
    unfold ChainDatabase.rollBackTo at h
    split at h
    · obtain ⟨rfl, rfl⟩ := Prod.mk.inj (Option.some.inj h)
      exact ⟨[], rows, rfl, hR, by simp, fun h => nomatch h⟩
    · rename_i head hhead
      have heq := hdb.headBlockNumber hR hhead
      split at h
      · rename_i hge
        split at h
        · rename_i err s₁ hroll
          obtain ⟨rfl, rfl⟩ := Prod.mk.inj (Option.some.inj h)
          exact ⟨[], rows, rfl, hdb.rollBackHead_fails hR hroll, by simp, fun h => nomatch h⟩
        · rename_i s₁ hroll
          obtain ⟨dropped, rows', hrows, hR', hdropped, hok⟩ := ih (hdb.rollBackHead hR hroll) h
          cases rows with
          | nil =>
            obtain ⟨rfl, rfl⟩ := List.append_eq_nil_iff.mp hrows.symm
            exact ⟨[], [], rfl, hR', by simp, hok⟩
          | cons first =>
            refine ⟨first :: dropped, rows', congrArg (first :: ·) hrows, hR', ?_, hok⟩
            intro d hd
            obtain rfl | hd := List.mem_cons.mp hd
            · rw [heq] at hge
              exact hge
            · exact hdropped d hd
      · rename_i hlt
        obtain ⟨rfl, rfl⟩ := Prod.mk.inj (Option.some.inj h)
        exact ⟨[], rows, rfl, hR, by simp, fun _ => by rw [← heq]; exact UInt64.not_le.mp hlt⟩

end

/-! ## Pending blocks -/

/-- The pending blocks are sorted from the highest number down. -/
def PendingSorted (sync : BlockSync) : Prop :=
  sync.pendingBlocks.Pairwise fun a b => b.header.number ≤ a.header.number

/-- A block is put among the pending ones after those that are higher and before
those that are lower. -/
theorem split_of_insertPendingBlock (hsearch : IsBinarySearch search) (hsync : PendingSorted sync)
    (block : BlockWithSenders) :
    ∃ before after, sync.pendingBlocks = before ++ after ∧
      (ChainDatabase.insertPendingBlock search sync block).pendingBlocks =
        before ++ block :: after ∧
      (∀ b ∈ before, block.header.number ≤ b.header.number) ∧
      ∀ b ∈ after, b.header.number ≤ block.header.number := by
  have hpartitioned := partitioned_of_ge hsync block.header.number
  unfold ChainDatabase.insertPendingBlock
  dsimp only
  split
  · rename_i i hi
    obtain ⟨before, x, after, hblocks, rfl, heq⟩ := hsearch.ok hpartitioned hi
    have hx : x.header.number = block.header.number :=
      Std.compare_eq_iff_eq.mp (Ordering.swap_eq_eq.mp heq)
    have hsorted : (before ++ x :: after).Pairwise
        fun a b => b.header.number ≤ a.header.number := by
      rw [← hblocks]
      exact hsync
    obtain ⟨-, hafter, hbefore⟩ := List.pairwise_append.mp hsorted
    refine ⟨before, x :: after, hblocks, ?_, ?_, ?_⟩
    · rw [hblocks]
      exact insertIdx_append before (x :: after) block
    · intro b hb
      rw [← hx]
      exact hbefore b hb x List.mem_cons_self
    · intro b hb
      rw [← hx]
      obtain rfl | hb := List.mem_cons.mp hb
      · exact UInt64.le_refl _
      · exact (List.pairwise_cons.mp hafter).1 b hb
  · rename_i i hi
    obtain ⟨before, after, hblocks, rfl, hbefore, hafter⟩ := hsearch.error hpartitioned hi
    refine ⟨before, after, hblocks, by rw [hblocks]; exact insertIdx_append _ _ _, ?_, ?_⟩
    · intro b hb
      exact UInt64.le_of_lt (Std.compare_eq_gt.mp (Ordering.swap_eq_lt.mp (hbefore b hb)))
    · intro b hb
      exact UInt64.le_of_lt (Std.compare_eq_lt.mp (Ordering.swap_eq_gt.mp (hafter b hb)))

/-- Pending blocks stay sorted. -/
theorem pendingSorted_insert (hsearch : IsBinarySearch search) (hsync : PendingSorted sync)
    (block : BlockWithSenders) :
    PendingSorted (ChainDatabase.insertPendingBlock search sync block) := by
  obtain ⟨before, after, hblocks, hinsert, hbefore, hafter⟩ :=
    split_of_insertPendingBlock hsearch hsync block
  unfold PendingSorted at hsync ⊢
  rw [hinsert]
  rw [hblocks] at hsync
  exact pairwise_insert hsync hbefore hafter

/-- Only the block is added. -/
theorem mem_insertPendingBlock (hsearch : IsBinarySearch search) (hsync : PendingSorted sync)
    {b : BlockWithSenders} :
    b ∈ (ChainDatabase.insertPendingBlock search sync block).pendingBlocks ↔
      b = block ∨ b ∈ sync.pendingBlocks := by
  obtain ⟨before, after, hblocks, hinsert, -, -⟩ := split_of_insertPendingBlock hsearch hsync block
  rw [hinsert, hblocks]
  simp only [List.mem_append, List.mem_cons]
  exact or_left_comm

/-! ## Headers stay linked -/

/-- The headers of a database: the rows are the headers themselves, and the hash of the head
is that of the first one. -/
structure KeepsHeaders (db : ChainDatabase σ ε) (hash : Header → Hash)
    (R : σ → List Header → Prop) : Prop extends KeepsRows db Header.number id R where
  headBlockHash : ∀ {s top rest h}, R s (top :: rest) → db.headBlockHash s = some h → h = hash top

/-- The numbers are consecutive and each header has the hash of the one below it as its
parent hash. -/
def Linked (hash : Header → Hash) (headers : List Header) : Prop :=
  headers.IsChain fun later earlier =>
    later.number.toNat = earlier.number.toNat + 1 ∧ later.parentHash = hash earlier

/-- A header that fits comes on top. -/
theorem insertRow_of_linked {hash : Header → Hash} {header : Header}
    (h : Linked hash (header :: headers)) :
    insertRow Header.number header headers = header :: headers := by
  cases headers with
  | nil => rfl
  | cons top =>
    have hlt : top.number < header.number := by
      have := (List.isChain_cons_cons.mp h).1.1
      rw [UInt64.lt_iff_toNat_lt]
      omega
    exact if_pos hlt

/-- What every call keeps. -/
structure ChainInv (hash : Header → Hash) (R : σ → List Header → Prop) (sync : BlockSync) (s : σ) :
    Prop where
  linked : ∃ headers, R s headers ∧ Linked hash headers
  sorted : PendingSorted sync
  positive : ∀ block ∈ sync.pendingBlocks, block.header.number ≠ 0

variable {rest : List BlockWithSenders} {hashSlow : Header → Hash}

section

variable {db : ChainDatabase σ ε} {hash : Header → Hash} {R : σ → List Header → Prop}

/-- Rolling back keeps the links. -/
theorem linked_rollBackHead (hdb : KeepsHeaders db hash R) (hR : R s headers)
    (hlinked : Linked hash headers) (h : db.rollBackHead s = (result, s')) :
    ∃ headers, R s' headers ∧ Linked hash headers := by
  cases result with
  | error => exact ⟨headers, hdb.rollBackHead_fails hR h, hlinked⟩
  | ok => exact ⟨headers.tail, hdb.rollBackHead hR h, hlinked.tail⟩

/-- A block that fits keeps the links. -/
theorem linked_executeAndMaybeCommit (hdb : KeepsHeaders db hash R) (hR : R s headers)
    (hfits : Linked hash (block.header :: headers))
    (h : db.executeAndMaybeCommit s block true = (result, s')) :
    ∃ headers, R s' headers ∧ Linked hash headers := by
  cases result with
  | error =>
    exact ⟨headers, rows_of_executeAndMaybeCommit_fails hdb.toKeepsRows hR h, hfits.tail⟩
  | ok =>
    have hR' := rows_of_executeAndMaybeCommit hdb.toKeepsRows hR h
    rw [id, insertRow_of_linked hfits] at hR'
    exact ⟨_, hR', hfits⟩

/-- A block of the next number whose parent is the head fits the headers. -/
theorem linked_cons (hdb : KeepsHeaders db hash R) {header : Header} (hR : R s headers)
    (hlinked : Linked hash headers) (hparent : db.headBlockHash s = some header.parentHash)
    (hnumber : headers ≠ [] →
      header.number.toNat = (headNumber Header.number headers).toNat + 1) :
    Linked hash (header :: headers) := by
  cases headers with
  | nil => exact List.isChain_singleton _
  | cons =>
    refine List.isChain_cons_cons.mpr ⟨⟨hnumber (List.cons_ne_nil _ _), ?_⟩, hlinked⟩
    exact hdb.headBlockHash hR hparent

/-- A pending block is taken out. -/
theorem ChainInv.popped {pending : BlockWithSenders}
    (h : ChainInv hash R ⟨(pending :: rest).reverse⟩ s)
    (hlinked : ∃ headers, R s' headers ∧ Linked hash headers) :
    ChainInv hash R ⟨rest.reverse⟩ s' := by
  obtain ⟨-, hsorted, hpositive⟩ := h
  simp only [PendingSorted, List.reverse_cons] at hsorted hpositive
  exact ⟨hlinked, (List.pairwise_append.mp hsorted).1,
    fun b hb => hpositive b (List.mem_append_left _ hb)⟩

/-- A pending block on the head fits. -/
theorem linked_cons_of_pending (hdb : KeepsHeaders db hash R) {head : UInt64}
    (hinv : ChainInv hash R ⟨(block :: rest).reverse⟩ s) (hR : R s headers)
    (hlinked : Linked hash headers) (hhead : db.headBlockNumber s = .ok head)
    (hnumber : block.header.number = head + 1)
    (hparent : db.headBlockHash s = some block.header.parentHash) :
    Linked hash (block.header :: headers) := by
  refine linked_cons hdb hR hlinked hparent fun _ => ?_
  rw [← hdb.headBlockNumber hR hhead]
  exact toNat_of_eq_add_one hnumber (hinv.positive block (by simp))

/-- Draining keeps the invariant. -/
theorem chainInv_of_drains (hdb : KeepsHeaders db hash R) {pending : List BlockWithSenders}
    (h : Drains db true s pending out) (hinv : ChainInv hash R ⟨pending.reverse⟩ s) :
    ChainInv hash R out.2.1 out.2.2 := by
  induction h with
  | done => exact hinv
  | unread => exact hinv
  | waits => exact hinv
  | reorgs _ _ _ _ hroll =>
    obtain ⟨headers, hR, hlinked⟩ := hinv.linked
    exact hinv.popped (linked_rollBackHead hdb hR hlinked hroll)
  | rejects hhead hnumber hparent hexec =>
    obtain ⟨headers, hR, hlinked⟩ := hinv.linked
    have hfits := linked_cons_of_pending hdb hinv hR hlinked hhead hnumber hparent
    exact hinv.popped (linked_executeAndMaybeCommit hdb hR hfits hexec)
  | applies hhead hnumber hparent hexec _ ih =>
    obtain ⟨headers, hR, hlinked⟩ := hinv.linked
    have hfits := linked_cons_of_pending hdb hinv hR hlinked hhead hnumber hparent
    exact ih (hinv.popped (linked_executeAndMaybeCommit hdb hR hfits hexec))

/-- Parking a block keeps the invariant. -/
theorem chainInv_insertPendingBlock (hsearch : IsBinarySearch search)
    (hinv : ChainInv hash R sync s) (hblock : block.header.number ≠ 0)
    (hlinked : ∃ headers, R s' headers ∧ Linked hash headers) :
    ChainInv hash R (ChainDatabase.insertPendingBlock search sync block) s' := by
  refine ⟨hlinked, pendingSorted_insert hsearch hinv.sorted block, fun b hb => ?_⟩
  obtain rfl | hb := (mem_insertPendingBlock hsearch hinv.sorted).mp hb
  · exact hblock
  · exact hinv.positive b hb

/-- A commit on the head keeps the invariant. -/
theorem chainInv_of_commitsOnHead (hsearch : IsBinarySearch search) (hdb : KeepsHeaders db hash R)
    (h : CommitsOnHead search db true sync s block out) (hinv : ChainInv hash R sync s)
    (hblock : block.header.number ≠ 0) (hR : R s headers) (hlinked : Linked hash headers)
    (hnumber : headers ≠ [] →
      block.header.number.toNat = (headNumber Header.number headers).toNat + 1) :
    ChainInv hash R out.2.1 out.2.2 := by
  cases h with
  | unrolled _ _ _ hroll =>
    exact ⟨linked_rollBackHead hdb hR hlinked hroll, hinv.sorted, hinv.positive⟩
  | reorgs _ _ _ hroll =>
    exact chainInv_insertPendingBlock hsearch hinv hblock (linked_rollBackHead hdb hR hlinked hroll)
  | rejects hparent hexec =>
    have hfits := linked_cons hdb hR hlinked (hparent hblock) hnumber
    exact ⟨linked_executeAndMaybeCommit hdb hR hfits hexec, hinv.sorted, hinv.positive⟩
  | commits hparent hexec hdrains =>
    have hfits := linked_cons hdb hR hlinked (hparent hblock) hnumber
    refine chainInv_of_drains hdb hdrains ?_
    rw [List.reverse_reverse]
    exact ⟨linked_executeAndMaybeCommit hdb hR hfits hexec, hinv.sorted, hinv.positive⟩

/-- Of linked headers that were rolled back below a number that the head had reached, the first
one that is left is the number before it. -/
theorem headNumber_of_dropped {target : UInt64} {dropped : List Header}
    (hlinked : Linked hash (dropped ++ headers)) (hdropped : ∀ d ∈ dropped, target ≤ d.number)
    (hhead : target ≤ headNumber Header.number (dropped ++ headers))
    (hlt : headNumber Header.number headers < target) (hne : headers ≠ []) :
    target.toNat = (headNumber Header.number headers).toNat + 1 := by
  obtain rfl | ⟨init, last, rfl⟩ := dropped.eq_nil_or_concat'
  · exact absurd hlt (UInt64.not_lt.mpr hhead)
  · obtain ⟨top, rest, rfl⟩ := List.exists_cons_of_ne_nil hne
    rw [Linked, List.append_assoc] at hlinked
    have hlink := (List.isChain_cons_cons.mp (hlinked.right_of_append)).1.1
    have hle := UInt64.le_iff_toNat_le.mp (hdropped last (by simp))
    have hlt := UInt64.lt_iff_toNat_lt.mp hlt
    change top.number.toNat < target.toNat at hlt
    change target.toNat = top.number.toNat + 1
    omega

/-- A whole call keeps the invariant. -/
theorem chainInv_of_commitsBlock (hsearch : IsBinarySearch search) (hdb : KeepsHeaders db hash R)
    (h : CommitsBlock search hashSlow db rounds sync block s true out)
    (hinv : ChainInv hash R sync s) (hblock : block.header.number ≠ 0) :
    ChainInv hash R out.2.1 out.2.2 := by
  obtain ⟨headers, hR, hlinked⟩ := hinv.linked
  cases h with
  | unread => exact hinv
  | waits => exact chainInv_insertPendingBlock hsearch hinv hblock hinv.linked
  | known => exact hinv
  | unrolled _ _ _ _ _ _ hroll =>
    obtain ⟨dropped, headers', rfl, hR', -, -⟩ := rows_of_rollBackTo hdb.toKeepsRows hR hroll
    exact ⟨⟨headers', hR', hlinked.right_of_append⟩, hinv.sorted, hinv.positive⟩
  | replaces hhead _ _ hle _ _ hroll hcommits =>
    have hle := hdb.headBlockNumber hR hhead ▸ hle
    obtain ⟨dropped, headers', rfl, hR', hdropped, hlt⟩ :=
      rows_of_rollBackTo hdb.toKeepsRows hR hroll
    have hlinked' : Linked hash headers' := hlinked.right_of_append
    refine chainInv_of_commitsOnHead hsearch hdb hcommits
      ⟨⟨headers', hR', hlinked'⟩, hinv.sorted, hinv.positive⟩ hblock hR' hlinked' fun hne => ?_
    exact headNumber_of_dropped hlinked hdropped hle (hlt rfl) hne
  | follows hhead hnext hgt hcommits =>
    refine chainInv_of_commitsOnHead hsearch hdb hcommits hinv hblock hR hlinked fun _ => ?_
    rw [← hdb.headBlockNumber hR hhead]
    exact toNat_of_eq_add_one (UInt64.le_antisymm hnext (add_one_le_of_lt (hgt hblock))) hblock

end

/-! ## The database of the gateway -/

section

variable {S : Type} (crates : Crates S)

/-- The rows of the gateway's table of headers are those of some headers. -/
def HoldsHeaders (db : SequencerDB S) (headers : List Header) : Prop :=
  db.canonicalHeaders = headers.map fun header => (header.number, crates.hashSlow header)

/-- Inserting commutes with hashing. -/
theorem map_insertRow (header : Header) (headers : List Header) :
    (insertRow Header.number header headers).map (fun h => (h.number, crates.hashSlow h)) =
      putHeader header.number (crates.hashSlow header)
        (headers.map fun h => (h.number, crates.hashSlow h)) := by
  induction headers with
  | nil => rfl
  | cons top rest ih =>
    simp only [insertRow, List.map_cons, putHeader]
    split
    · rfl
    · split
      · rfl
      · rw [List.map_cons, ih]

/-- The database of the sequencer keeps its headers. -/
theorem keepsHeaders_chainDatabase :
    KeepsHeaders (SequencerDB.chainDatabase crates) crates.hashSlow (HoldsHeaders crates) where
  headBlockNumber := by
    intro db headers n hR h
    cases h
    unfold HoldsHeaders at hR
    cases headers <;> simp only [SequencerDB.headBlockNumber, hR, headNumber, List.map_nil,
      List.map_cons]
  rollBackHead := by
    intro db headers db' hR h
    cases h
    unfold HoldsHeaders at hR
    simp only [HoldsHeaders, SequencerDB.rollBackHead, List.map_tail, ← hR]
  rollBackHead_fails := fun _ h => nomatch h
  commit := by
    intro db headers db' block state hR h
    cases h
    unfold HoldsHeaders at hR
    simp only [HoldsHeaders, SequencerDB.commitBlockUnchecked, hR, id, map_insertRow]
  commit_fails := fun _ h => nomatch h
  headBlockHash := by
    intro db top rest h hR heq
    cases heq
    unfold HoldsHeaders at hR
    simp only [SequencerDB.headBlockHash, hR, List.map_cons]

/-! With enough rounds `commit_block` over this database is the function of the model. -/

/-- Execution as an operation of the database. -/
theorem executeAndMaybeCommit_chainDatabase (db : SequencerDB S) (block : BlockWithSenders)
    (commit : Bool) :
    (SequencerDB.chainDatabase crates).executeAndMaybeCommit db block commit =
      match db.executeAndMaybeCommit crates block commit with
      | .error err => (.error err, db)
      | .ok db' => (.ok (), db') := by
  unfold ChainDatabase.executeAndMaybeCommit SequencerDB.executeAndMaybeCommit
  cases h : db.execute crates block with
  | error => simp only [SequencerDB.chainDatabase, h]
  | ok => cases commit <;> simp [SequencerDB.chainDatabase, h]

/-- Rolling back as a loop over its operations. -/
theorem rollBackTo_chainDatabase {number : UInt64} (hnumber : number ≠ 0)
    {rows : List (UInt64 × Hash)} (hrounds : rows.length < rounds) (tables : S) :
    (SequencerDB.chainDatabase crates).rollBackTo number rounds ⟨rows, tables⟩ =
      some (.ok (), SequencerDB.rollBackTo crates number rows tables) := by
  induction rows generalizing rounds tables with
  | nil =>
    obtain ⟨rounds, rfl⟩ := Nat.exists_eq_succ_of_ne_zero (Nat.ne_of_gt hrounds)
    have hlt : ¬(0 : UInt64) ≥ number := fun h => hnumber (UInt64.le_zero_iff.mp h)
    exact if_neg hlt
  | cons row rest ih =>
    obtain ⟨rounds, rfl⟩ := Nat.exists_eq_succ_of_ne_zero (Nat.ne_of_gt (Nat.zero_lt_of_lt hrounds))
    obtain ⟨n, hash⟩ := row
    unfold SequencerDB.rollBackTo ChainDatabase.rollBackTo
    simp only [SequencerDB.chainDatabase, SequencerDB.headBlockNumber, SequencerDB.rollBackHead,
      List.tail_cons]
    split
    · exact ih (Nat.lt_of_succ_lt_succ hrounds) _
    · rfl

/-- Draining is that of the sequencer. -/
theorem drainPending_chainDatabase (commit : Bool) (db : SequencerDB S)
    (pending : List BlockWithSenders) :
    (SequencerDB.chainDatabase crates).drainPending commit db pending =
      some (BlockSync.drainPending crates commit db pending) := by
  induction pending generalizing db with
  | nil => rfl
  | cons block rest ih =>
    unfold ChainDatabase.drainPending BlockSync.drainPending
    simp only [executeAndMaybeCommit_chainDatabase]
    simp only [SequencerDB.chainDatabase]
    split
    · rfl
    · split
      · rfl
      · cases h : db.executeAndMaybeCommit crates block commit with
        | error => rfl
        | ok db' => exact ih db'

/-- Committing on the head is that of the sequencer. -/
theorem commitOnHead_chainDatabase (sync : BlockSync) (db : SequencerDB S)
    (block : BlockWithSenders) (commit : Bool) :
    (SequencerDB.chainDatabase crates).commitOnHead binarySearchBy sync db block commit =
      some (BlockSync.commitOnHead crates sync db block commit) := by
  unfold ChainDatabase.commitOnHead BlockSync.commitOnHead
  simp only [executeAndMaybeCommit_chainDatabase]
  simp only [SequencerDB.chainDatabase]
  split
  · rfl
  · cases h : db.executeAndMaybeCommit crates block commit with
    | error => rfl
    | ok db' => exact drainPending_chainDatabase crates commit db' _

variable {db : SequencerDB S}

/-- The whole call is that of the sequencer. -/
theorem commitBlock_chainDatabase {commit : Bool} (hrounds : db.canonicalHeaders.length < rounds) :
    (SequencerDB.chainDatabase crates).commitBlock binarySearchBy crates.hashSlow rounds sync block
      db commit = BlockSync.commitBlock crates sync block db commit := by
  unfold ChainDatabase.commitBlock BlockSync.commitBlock
  simp only [commitOnHead_chainDatabase]
  simp only [SequencerDB.chainDatabase]
  split
  · rfl
  · split
    · rename_i hle
      cases h : db.blockHashRef block.header.number with
      | none => rfl
      | some =>
        dsimp only
        split
        · rfl
        · have hroll := rollBackTo_chainDatabase crates hle.1 hrounds db.tables
          simp only [SequencerDB.chainDatabase] at hroll
          rw [hroll]
    · rfl

variable {crates} in
/-- A call of the sequencer takes its steps. -/
theorem commitsBlock_chainDatabase {commit : Bool} {out : BlockSync.Outcome S}
    (h : sync.commitBlock crates block db commit = some out) :
    CommitsBlock binarySearchBy crates.hashSlow (SequencerDB.chainDatabase crates)
      (db.canonicalHeaders.length + 1) sync block db commit out := by
  rw [← commitBlock_chainDatabase crates (Nat.lt_succ_self _)] at h
  exact commitsBlock_of_commitBlock h

end

/-! ## Sequences of calls -/

/-- A call: the block it is given, the database as it answers in this call, and how often the
loop that rolls back may go round. -/
structure Call (σ ε : Type) where
  db : ChainDatabase σ ε
  block : BlockWithSenders
  rounds : ℕ

/-- A call of `commit_block` that commits, and returns. -/
def callStep (search : PendingSearch) (hashSlow : Header → Hash) (now : BlockSync × σ)
    (call : Call σ ε) : Option (BlockSync × σ) :=
  (call.db.commitBlock search hashSlow call.rounds now.1 call.block now.2 true).map Prod.snd

/-- A step is a call that returns. -/
theorem commitBlock_of_callStep {sync' : BlockSync} {call : Call σ ε}
    (h : callStep search hashSlow (sync, s) call = some (sync', s')) :
    ∃ result, call.db.commitBlock search hashSlow call.rounds sync call.block s true =
      some (result, sync', s') := by
  obtain ⟨⟨result, sync'', s''⟩, hcommit, heq⟩ := Option.map_eq_some_iff.mp h
  obtain ⟨rfl, rfl⟩ := Prod.mk.inj heq
  exact ⟨result, hcommit⟩

/-- After any calls with blocks that are not the genesis block, in whatever order and
whether or not the blocks are executed and the database fails, its headers are linked and the
pending blocks are sorted.
SRCLINE: block_sync/mod.rs:45-144 -/
theorem chain_stays_linked {search : PendingSearch} (hsearch : IsBinarySearch search)
    {hashSlow : Header → Hash} {R : σ → List Header → Prop} {calls : List (Call σ ε)}
    (hcalls : ∀ call ∈ calls, KeepsHeaders call.db hashSlow R ∧ call.block.header.number ≠ 0)
    {s s' : σ} {sync' : BlockSync} {headers : List Header} (hR : R s headers)
    (hlinked : Linked hashSlow headers)
    (hrun : runSteps (callStep search hashSlow) (BlockSync.new, s) calls = some (sync', s')) :
    (∃ headers', R s' headers' ∧ Linked hashSlow headers') ∧ PendingSorted sync' := by
  have hstep : ∀ (now : BlockSync × σ) (call : Call σ ε) (next : BlockSync × σ),
      KeepsHeaders call.db hashSlow R ∧ call.block.header.number ≠ 0 →
      ChainInv hashSlow R now.1 now.2 → callStep search hashSlow now call = some next →
      ChainInv hashSlow R next.1 next.2 := by
    intro now call next hcall hinv h
    obtain ⟨result, hcommit⟩ := commitBlock_of_callStep h
    exact chainInv_of_commitsBlock hsearch hcall.1 (commitsBlock_of_commitBlock hcommit) hinv
      hcall.2
  have hstart : ChainInv hashSlow R BlockSync.new s :=
    ⟨⟨headers, hR, hlinked⟩, List.Pairwise.nil, fun b hb => nomatch hb⟩
  have halong : Along (callStep search hashSlow)
      (fun _ call => KeepsHeaders call.db hashSlow R ∧ call.block.header.number ≠ 0)
      (BlockSync.new, s) calls :=
    along_of_forall_mem (fun call hmem _ => hcalls call hmem) _
  have hinv := halong.induction (I := fun now => ChainInv hashSlow R now.1 now.2) hstep hstart hrun
  exact ⟨hinv.linked, hinv.sorted⟩

/-- What is to be known of the pending blocks and the database after calls: the numbers of
the former and of the headers. -/
def numbersView (now : BlockSync × SequencerDB ℕ) : List UInt64 × List UInt64 :=
  (now.1.pendingBlocks.map fun block => block.header.number, now.2.canonicalHeaders.map (·.1))

/-- A call that commits the block of a payload to the gateway's database. -/
def plainCall (payload : ExecutionPayload) : Call (SequencerDB ℕ) BlockSyncError where
  db := SequencerDB.chainDatabase plainCrates
  block := plainBlock payload
  rounds := 2

/-- The second block waits for the first one. -/
theorem chain_stays_linked_twoBlocks :
    ∃ sync' db', runSteps (callStep binarySearchBy plainCrates.hashSlow) (BlockSync.new, plainDB)
        [plainCall plainPayload2, plainCall plainPayload1] = some (sync', db') ∧
      numbersView (sync', db') = ([], [2, 1, 0]) ∧
      (∃ headers', HoldsHeaders plainCrates db' headers' ∧
        Linked plainCrates.hashSlow headers') ∧ PendingSorted sync' := by
  have hview : (runSteps (callStep binarySearchBy plainCrates.hashSlow) (BlockSync.new, plainDB)
      [plainCall plainPayload2, plainCall plainPayload1]).map numbersView =
      some ([], [2, 1, 0]) := by
    decide +kernel
  obtain ⟨⟨sync', db'⟩, hrun, hnumbers⟩ := Option.map_eq_some_iff.mp hview
  have hgenesis : HoldsHeaders plainCrates plainDB [(plainBlock plainPayload0).header] := rfl
  have hcalls : ∀ call ∈ [plainCall plainPayload2, plainCall plainPayload1],
      KeepsHeaders call.db plainCrates.hashSlow (HoldsHeaders plainCrates) ∧
        call.block.header.number ≠ 0 := by
    intro call hmem
    obtain rfl | rfl : call = plainCall plainPayload2 ∨ call = plainCall plainPayload1 := by
      simpa using hmem
    · exact ⟨keepsHeaders_chainDatabase plainCrates, by decide⟩
    · exact ⟨keepsHeaders_chainDatabase plainCrates, by decide⟩
  exact ⟨sync', db', hrun, hnumbers, chain_stays_linked isBinarySearch_binarySearchBy hcalls
    hgenesis (List.isChain_singleton _) hrun⟩

end BasedOp.Analysis.ChainLinks
