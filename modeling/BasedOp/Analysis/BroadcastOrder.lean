import BasedOp.Computation.Runs
import BasedOp.Computation.RingSlots
import BasedOp.Model.BroadcastQueue

/-!
# The broadcast queue delivers in order

A consumer keeps a place in the ring and the version it expects of the slot there. Together they
stand for the index of the element it is to get next (`At`): the place is the index modulo the
length, and the version is twice the number of the lap, plus two. A consumer that was lapped
finds a later version, and raises the one it expects until they agree; it has then gone over
whole laps, and gets the element that was written last at its place (`tryConsume_of_lt`).

Versions have 32 bits, so this holds while the lap that is being written has a number below
`2 ^ 31 - 1` (`broadcast_delivers`). In the lap with that number a consumer expects version zero,
which every slot has passed, and gets an element of the lap before (`overtaken_by_wrap`).
-/

set_option autoImplicit false

namespace BasedOp.Analysis.BroadcastOrder

open BasedOp.Computation Model.Communication

variable {α : Type}

/-! ## The parties -/

/-- A consumer, the count when it was created, and what its calls have returned. -/
structure Client (α : Type) where
  consumer : ConsumerBare
  created : ℕ
  received : List (Option α)

/-- A queue, the elements that were produced, and the consumers. -/
structure Broadcast (α : Type) where
  queue : InnerQueue α
  produced : List α
  clients : List (Client α)

/-- What the parties do. A producer may be at its first call; a consumer calls itself at most
the given number of times. -/
inductive Op (α : Type) where
  | produce (first : Bool) (item : α)
  | create
  | tryConsume (client calls : ℕ)

def step (b : Broadcast α) : Op α → Option (Broadcast α)
  | .produce first item =>
    (if first then b.queue.produceFirst item else b.queue.produce item).map fun r =>
      { b with queue := r.2, produced := b.produced ++ [item] }
  | .create =>
    some { b with clients := b.clients ++ [⟨.fromQueue b.queue, b.produced.length, []⟩] }
  | .tryConsume i calls =>
    b.clients[i]?.bind fun client =>
      (client.consumer.tryConsume b.queue calls).map fun r =>
        { b with
          clients := b.clients.set i
            { client with consumer := r.2, received := client.received ++ r.1.toList } }

/-- The parties before anything is produced. -/
def start (q : InnerQueue α) : Broadcast α := ⟨q, [], []⟩

/-! ## Indices in order -/

/-- The indices that are received by one that is to get `next`: each is whole laps after the one
that was to come. -/
def InOrder (len : ℕ) : ℕ → List ℕ → Prop
  | _, [] => True
  | next, i :: indices => (∃ laps, i = next + laps * len) ∧ InOrder len (i + 1) indices

/-- The index to come after some were received. -/
def nextAfter : ℕ → List ℕ → ℕ
  | next, [] => next
  | _, i :: indices => nextAfter (i + 1) indices

/-- The next index follows the last. -/
theorem nextAfter_concat (next : ℕ) (indices : List ℕ) (i : ℕ) :
    nextAfter next (indices ++ [i]) = i + 1 := by
  induction indices generalizing next with
  | nil => rfl
  | cons j indices ih => exact ih (j + 1)

variable {len next i calls n : ℕ} {indices : List ℕ} {q : InnerQueue α} {produced : List α}
  {c : ConsumerBare} {r : Option (Option α) × ConsumerBare} {client : Client α} {b b' : Broadcast α}
  {op : Op α} {item : α}

/-- One more index, whole laps further on. -/
theorem inOrder_concat :
    InOrder len next (indices ++ [i]) ↔
      InOrder len next indices ∧ ∃ laps, i = nextAfter next indices + laps * len := by
  induction indices generalizing next with
  | nil => simp [InOrder, nextAfter]
  | cons j indices ih => simp only [List.cons_append, InOrder, nextAfter, ih, and_assoc]

/-- No index is below the first. -/
theorem InOrder.le (h : InOrder len next indices) : ∀ i ∈ indices, next ≤ i := by
  induction indices generalizing next with
  | nil => simp
  | cons j indices ih =>
    obtain ⟨⟨laps, hj⟩, hrest⟩ := h
    intro i hi
    rcases List.mem_cons.mp hi with rfl | hi
    · omega
    · have := ih hrest i hi
      omega

/-- The indices increase. -/
theorem InOrder.pairwise (h : InOrder len next indices) : indices.Pairwise (· < ·) := by
  induction indices generalizing next with
  | nil => exact List.Pairwise.nil
  | cons j indices ih => exact List.Pairwise.cons h.2.le (ih h.2)

/-! ## What is asked of the queue -/

/-- A client has received the elements with the given indices, which are in order and not older
than it is. Its next call returns, and without an element only if there is none to come. -/
structure Delivered (len : ℕ) (b : Broadcast α) (client : Client α) (indices : List ℕ) :
    Prop where
  increasing : indices.Pairwise (· < ·)
  since : ∀ i ∈ indices, client.created ≤ i
  skips : InOrder len client.created indices
  lt_length : ∀ i ∈ indices, i < b.produced.length
  received : client.received = indices.map fun i => b.produced[i]?
  returns : ∃ calls r, client.consumer.tryConsume b.queue calls = some r
  nothing : ∀ calls c, client.consumer.tryConsume b.queue calls = some (none, c) →
    b.produced.length ≤ nextAfter client.created indices

/-! ## Masks and versions -/

/-- The mask of a length that is a power of two. -/
structure Masks (mask : UInt64) (len : ℕ) : Prop where
  power : ∃ k, len = 2 ^ k
  lt : len < 2 ^ 64
  succ_eq : mask.toNat + 1 = len

namespace Masks

variable {mask : UInt64} {len : ℕ}

/-- A masked length is positive. -/
theorem pos (h : Masks mask len) : 0 < len := by
  have := h.succ_eq
  omega

/-- Masking is the remainder. -/
theorem toNat_and (h : Masks mask len) (x : UInt64) : (x &&& mask).toNat = x.toNat % len := by
  obtain ⟨k, rfl⟩ := h.power
  have hmask : mask.toNat = 2 ^ k - 1 := by
    have := h.succ_eq
    omega
  rw [UInt64.toNat_and, hmask, Nat.and_two_pow_sub_one_eq_mod]

/-- The length divides the range of the words. -/
theorem dvd (h : Masks mask len) : len ∣ 2 ^ 64 := by
  obtain ⟨k, rfl⟩ := h.power
  exact Nat.pow_dvd_pow 2 (Nat.le_of_lt ((Nat.pow_lt_pow_iff_right (by decide)).mp h.lt))

/-- The length is the mask and one. -/
theorem toNat_succ (h : Masks mask len) : (mask + 1).toNat = len := by
  have hlt := h.lt
  have hsucc := h.succ_eq
  rw [UInt64.toNat_add, UInt64.toNat_one, hsucc, Nat.mod_eq_of_lt hlt]

end Masks

/-- A power of two is masked by one less. -/
theorem masks_of_isPowerOfTwo {len : UInt64} (h : isPowerOfTwo len = true) :
    Masks (len - 1) len.toNat := by
  have hpow : 2 ^ len.toNat.log2 = len.toNat := by simpa [isPowerOfTwo] using h
  have hpos : 0 < len.toNat := by
    rw [← hpow]
    exact Nat.two_pow_pos _
  have hle : (1 : UInt64) ≤ len := by
    rw [UInt64.le_iff_toNat_le, UInt64.toNat_one]
    exact hpos
  refine ⟨⟨_, hpow.symm⟩, len.toNat_lt, ?_⟩
  rw [UInt64.toNat_sub_of_le _ _ hle, UInt64.toNat_one]
  omega

/-- The version of a slot after the write with index `i`. -/
def versionOf (len i : ℕ) : UInt32 := UInt32.ofNat (2 * (i / len) + 2)

/-- Two does not wrap. -/
theorem toNat_two : (2 : UInt32).toNat = 2 := rfl

/-- From a lap to the next one. -/
theorem versionOf_of_div {j : ℕ} (h : j / len = i / len + 1) :
    versionOf len j = versionOf len i + 2 := by
  have hlap : 2 * (j / len) + 2 = 2 * (i / len) + 2 + 2 := by omega
  rw [versionOf, hlap, UInt32.ofNat_add]
  rfl

/-- The version of the first lap. -/
theorem versionOf_of_lt (h : i < len) : versionOf len i = 2 := by
  rw [versionOf, Nat.div_eq_of_lt h]
  rfl

/-- Below the lap in which it wraps, a version tells the lap. -/
theorem toNat_versionOf (h : i / len < 2 ^ 31 - 1) :
    (versionOf len i).toNat = 2 * (i / len) + 2 := by
  rw [versionOf, UInt32.toNat_ofNat_of_lt']
  have : UInt32.size = 2 ^ 32 := rfl
  omega

/-! ## The queue after a number of writes -/

/-- What the write with index `i` leaves in its slot. -/
def written (len : ℕ) (produced : List α) (i : ℕ) : Seqlock α where
  data := produced[i]?
  version := versionOf len i

structure QueueHolds (len : ℕ) (produced : List α) (q : InnerQueue α) : Prop where
  masks : Masks q.mask len
  count : q.count.toNat = produced.length % 2 ^ 64
  length : q.buffer.length = len
  ring : RingHolds q.buffer .zeroed (written len produced) produced.length

variable {queueType : QueueType} {lock : Seqlock α}

/-- A new queue holds nothing. -/
theorem queueHolds_new {len : UInt64}
    (hnew : InnerQueue.fromUninitializedPtr len queueType = some q) :
    QueueHolds len.toNat [] q := by
  unfold InnerQueue.fromUninitializedPtr at hnew
  split at hnew
  · rename_i hpow
    obtain rfl := Option.some.inj hnew
    exact ⟨masks_of_isPowerOfTwo hpow, rfl, List.length_replicate,
      RingHolds.replicate len.toNat Seqlock.zeroed _⟩
  · cases hnew

namespace QueueHolds

variable {len : ℕ} {produced : List α} {q : InnerQueue α}

/-- The elements of the last lap can be loaded. -/
theorem load_of_recent (h : QueueHolds len produced q) {pos : UInt64} (hpos : pos.toNat = i % len)
    (hi : i < produced.length) (hround : produced.length ≤ i + len) :
    q.load pos = some (written len produced i) := by
  have hring := h.ring.recent i hi
  rw [h.length] at hring
  rw [InnerQueue.load, hpos]
  exact hring hround

/-- The slot that is written next has the version of the lap before. -/
theorem load_next (h : QueueHolds len produced q) {pos : UInt64}
    (hpos : pos.toNat = produced.length % len) :
    ∃ lock, q.load pos = some lock ∧ lock.version + 2 = versionOf len produced.length := by
  by_cases hfirst : produced.length < len
  · refine ⟨.zeroed, ?_, ?_⟩
    · rw [Nat.mod_eq_of_lt hfirst] at hpos
      rw [InnerQueue.load, hpos]
      exact h.ring.unwritten _ (Nat.le_refl _) (by rw [h.length]; exact hfirst)
    · rw [versionOf_of_lt hfirst]
      rfl
  · -- what is overwritten was written a lap ago
    have hlen := h.masks.pos
    have hback : produced.length - len + len = produced.length := by omega
    have hmod : pos.toNat = (produced.length - len) % len := by
      rw [hpos, ← Nat.add_mod_right (produced.length - len) len, hback]
    refine ⟨_, h.load_of_recent hmod (by omega) (by omega), ?_⟩
    have hlap : produced.length / len = (produced.length - len) / len + 1 := by
      rw [← Nat.add_div_right _ hlen, hback]
    rw [versionOf_of_div hlap, written]

/-- The next slot is the count modulo the length. -/
theorem toNat_pos (h : QueueHolds len produced q) :
    (q.count &&& q.mask).toNat = produced.length % len := by
  rw [h.masks.toNat_and, h.count, Nat.mod_mod_of_dvd _ h.masks.dvd]

/-- A write goes to the next slot. -/
theorem produce (h : QueueHolds len produced q) (hkind : q.queueType ≠ .unknown) (item : α) :
    ∃ q', q.produce item = some (q.count, q') ∧ q'.queueType = q.queueType ∧
      QueueHolds len (produced ++ [item]) q' := by
  obtain ⟨lock, hload, hversion⟩ := h.load_next h.toNat_pos
  have hnext : q.nextCount = some (q.count, { q with count := q.count + 1 }) := by
    unfold InnerQueue.nextCount
    cases hq : q.queueType with
    | unknown => exact absurd hq hkind
    | mpmc => rfl
    | spmc => rfl
  have hproduce : q.produce item = some (q.count,
      { q with
        count := q.count + 1
        buffer := q.buffer.set (q.count &&& q.mask).toNat (lock.write item) }) := by
    have hload' : InnerQueue.load { q with count := q.count + 1 } (q.count &&& q.mask) =
        some lock := hload
    simp only [InnerQueue.produce, hnext, hload']
  refine ⟨_, hproduce, rfl, h.masks, ?_, ?_, ?_⟩
  · rw [UInt64.toNat_add, h.count, UInt64.toNat_one, List.length_append, List.length_singleton,
      Nat.mod_add_mod]
  · rw [List.length_set, h.length]
  · have hold : RingHolds q.buffer .zeroed (written len (produced ++ [item])) produced.length := by
      refine h.ring.congr fun i hi => ?_
      rw [written, written, List.getElem?_append_left hi]
    have hlock : lock.write item = written len (produced ++ [item]) produced.length := by
      rw [Seqlock.write, written, hversion, List.getElem?_concat_length]
    have hwrite := hold.write (by rw [h.length]; exact h.masks.pos)
    rw [h.length] at hwrite
    rw [h.toNat_pos, hlock, List.length_append, List.length_singleton]
    exact hwrite

/-- No write is left unfinished, so the first call of a producer is like any other. -/
theorem produceFirst_eq (h : QueueHolds len produced q) (item : α) :
    q.produceFirst item = q.produce item := by
  obtain ⟨lock, hload, hversion⟩ := h.load_next h.toNat_pos
  have heven : lock.version &&& 1 ≠ 1 := by
    intro hodd
    have hbit : (lock.version + 2) &&& 1 = lock.version &&& 1 := by
      apply UInt32.toNat_inj.mp
      simp only [UInt32.toNat_and, UInt32.toNat_add, UInt32.toNat_one, toNat_two,
        Nat.and_one_is_mod]
      omega
    have htwo : (versionOf len produced.length &&& 1).toNat = 0 := by
      simp only [versionOf, UInt32.toNat_and, UInt32.toNat_one, Nat.and_one_is_mod,
        UInt32.toNat_ofNat']
      omega
    rw [← hversion, hbit, hodd] at htwo
    exact absurd htwo (by decide)
  unfold InnerQueue.produceFirst
  cases hq : q.queueType with
  | unknown => simp only [InnerQueue.produce, InnerQueue.nextCount, hq]
  | mpmc => rfl
  | spmc => simp only [hload, if_neg heven]

end QueueHolds

/-! ## Where a consumer is -/

/-- The consumer is to get the element with index `i`. -/
structure At (len : ℕ) (c : ConsumerBare) (i : ℕ) : Prop where
  masks : Masks c.mask len
  pos : c.pos.toNat = i % len
  version : c.expectedVersion = versionOf len i

/-- A new consumer is at the next element. -/
theorem at_fromQueue (h : QueueHolds len produced q) (hcount : produced.length < 2 ^ 64) :
    At len (.fromQueue q) produced.length where
  masks := h.masks
  pos := h.toNat_pos
  version := by
    apply UInt32.toNat_inj.mp
    have hlap : (q.count / (q.mask + 1)).toNat = produced.length / len := by
      rw [UInt64.toNat_div, h.count, Nat.mod_eq_of_lt hcount, h.masks.toNat_succ]
    have hone : (1 : UInt64).toNat % 64 = 1 := rfl
    have htwo : (2 : UInt64).toNat = 2 := rfl
    simp only [ConsumerBare.fromQueue, InnerQueue.version, versionOf, UInt64.toNat_toUInt32,
      UInt64.toNat_add, UInt64.toNat_shiftLeft, hlap, hone, htwo, UInt32.toNat_ofNat',
      Nat.shiftLeft_eq]
    omega

/-- A consumer moves on by one. -/
theorem At.updatePos (h : At len c i) : At len c.updatePos (i + 1) := by
  have hlen := h.masks.pos
  have hlt := Nat.mod_lt i hlen
  have hpos : ((c.pos + 1) &&& c.mask).toNat = (i + 1) % len := by
    have hbound := h.masks.lt
    rw [h.masks.toNat_and, UInt64.toNat_add, UInt64.toNat_one, h.pos,
      Nat.mod_eq_of_lt (a := i % len + 1) (by omega), mod_add_one_mod]
  refine ⟨h.masks, hpos, ?_⟩
  have hzero : (c.pos + 1) &&& c.mask = 0 ↔ len ∣ i + 1 := by
    rw [← UInt64.toNat_inj, hpos, UInt64.toNat_zero, Nat.dvd_iff_mod_eq_zero]
  simp only [ConsumerBare.updatePos, h.version]
  by_cases hturn : len ∣ i + 1
  · -- the place turns around, and the next lap begins
    have hlap : (i + 1) / len = i / len + 1 := by rw [Nat.succ_div, if_pos hturn]
    rw [if_pos (hzero.mpr hturn), versionOf_of_div hlap]
  · rw [if_neg (fun hz => hturn (hzero.mp hz)), versionOf, versionOf, Nat.succ_div, if_neg hturn]
    exact UInt32.add_zero _

/-! ## A call of a consumer -/

/-- An older version means that nothing is new. -/
theorem tryConsume_of_empty (hload : q.load c.pos = some lock)
    (hlt : lock.version < c.expectedVersion) (calls : ℕ) :
    c.tryConsume q (calls + 1) = some (none, c) := by
  simp only [ConsumerBare.tryConsume, ConsumerBare.tryConsumeClone, InnerQueue.consumeClone, hload,
    Option.map_some, Seqlock.readWithVersionClone, if_pos hlt]

/-- A consumer that expects an earlier version of its slot, by an even number, raises
it until it is the one of the slot. -/
theorem tryConsume_of_version (laps : ℕ) (hload : q.load c.pos = some lock)
    (hversion : lock.version.toNat = c.expectedVersion.toNat + 2 * laps) :
    c.tryConsume q (laps + 1) =
      some (some lock.data, ConsumerBare.updatePos { c with expectedVersion := lock.version }) := by
  have hnot : ¬ lock.version < c.expectedVersion := by
    rw [UInt32.lt_iff_toNat_lt]
    omega
  induction laps generalizing c with
  | zero =>
    have heq : lock.version = c.expectedVersion := UInt32.toNat_inj.mp (by omega)
    simp only [ConsumerBare.tryConsume, ConsumerBare.tryConsumeClone, InnerQueue.consumeClone,
      hload, Option.map_some, Seqlock.readWithVersionClone, if_neg hnot, if_pos heq]
    rw [heq]
  | succ laps ih =>
    have hne : lock.version ≠ c.expectedVersion := by
      intro heq
      rw [heq] at hversion
      omega
    have hraised : c.recoverAfterError.expectedVersion.toNat = c.expectedVersion.toNat + 2 := by
      have hlt := lock.version.toNat_lt
      rw [ConsumerBare.recoverAfterError, UInt32.toNat_add, toNat_two, Nat.mod_eq_of_lt (by omega)]
    have hrec := ih (c := c.recoverAfterError) hload (by rw [hraised]; omega) (by
      rw [UInt32.lt_iff_toNat_lt, hraised]
      omega)
    rw [ConsumerBare.tryConsume]
    simp only [ConsumerBare.tryConsumeClone, InnerQueue.consumeClone, hload, Option.map_some,
      Seqlock.readWithVersionClone, if_neg hnot, if_neg hne]
    exact hrec

/-- More calls change nothing. -/
theorem tryConsume_mono {more : ℕ} (h : c.tryConsume q calls = some r) (hle : calls ≤ more) :
    c.tryConsume q more = some r := by
  induction calls generalizing c more with
  | zero => cases h
  | succ calls ih =>
    obtain ⟨more, rfl⟩ : ∃ m, more = m + 1 := ⟨more - 1, by omega⟩
    rw [ConsumerBare.tryConsume] at h ⊢
    cases hread : c.tryConsumeClone q with
    | none =>
      rw [hread] at h
      cases h
    | some res =>
      obtain ⟨out, c'⟩ := res
      rw [hread] at h
      cases out with
      | ok => exact h
      | error e =>
        cases e with
        | spedPast => exact ih h (by omega)
        | empty => exact h

/-- What a call returns does not depend on the bound. -/
theorem tryConsume_unique {calls' : ℕ} {r' : Option (Option α) × ConsumerBare}
    (h : c.tryConsume q calls = some r) (h' : c.tryConsume q calls' = some r') : r = r' := by
  have hmore := tryConsume_mono h (Nat.le_max_left calls calls')
  have hmore' := tryConsume_mono h' (Nat.le_max_right calls calls')
  exact Option.some.inj (hmore.symm.trans hmore')

section Calls

variable {len : ℕ} {produced : List α} {q : InnerQueue α} {c : ConsumerBare} {i : ℕ}

/-- A consumer that has got everything gets nothing. -/
theorem tryConsume_of_eq (h : QueueHolds len produced q) (hat : At len c produced.length)
    (hlaps : produced.length / len < 2 ^ 31 - 1) : c.tryConsume q 1 = some (none, c) := by
  obtain ⟨lock, hload, hversion⟩ := h.load_next hat.pos
  refine tryConsume_of_empty hload ?_ 0
  -- the version to come does not wrap, so the one of the slot is below it
  have hnat := toNat_versionOf hlaps
  rw [hat.version, UInt32.lt_iff_toNat_lt]
  rw [← hversion, UInt32.toNat_add, toNat_two] at hnat
  rw [← hversion, UInt32.toNat_add, toNat_two]
  have hlt := lock.version.toNat_lt
  omega

/-- A consumer to which something is to come gets what was written last at its place,
whole laps after what it was to get. -/
theorem tryConsume_of_lt (h : QueueHolds len produced q) (hat : At len c i)
    (hlt : i < produced.length) (hlaps : produced.length / len < 2 ^ 31 - 1) :
    ∃ laps c', i + laps * len < produced.length ∧
      c.tryConsume q (laps + 1) = some (some produced[i + laps * len]?, c') ∧
      At len c' (i + laps * len + 1) := by
  have hpos := h.masks.pos
  obtain ⟨laps, hlast⟩ : ∃ laps, laps = (produced.length - 1 - i) / len := ⟨_, rfl⟩
  have hmul : laps * len ≤ produced.length - 1 - i := by
    rw [hlast]
    exact Nat.div_mul_le_self _ _
  have hround : produced.length - 1 - i < laps * len + len := by
    rw [hlast]
    exact Nat.lt_div_mul_add hpos
  have hmod : (i + laps * len) % len = i % len := Nat.add_mul_mod_self_right i laps len
  have hdiv : (i + laps * len) / len = i / len + laps := Nat.add_mul_div_right i laps hpos
  have hload : q.load c.pos = some (written len produced (i + laps * len)) :=
    h.load_of_recent (by rw [hmod]; exact hat.pos) (by omega) (by omega)
  have hle : (i + laps * len) / len ≤ produced.length / len := Nat.div_le_div_right (by omega)
  have hversion : (written len produced (i + laps * len)).version.toNat =
      c.expectedVersion.toNat + 2 * laps := by
    rw [hat.version, written, toNat_versionOf (by omega), toNat_versionOf (by omega), hdiv]
    omega
  have hread := tryConsume_of_version laps hload hversion
  have hthere : At len { c with expectedVersion := versionOf len (i + laps * len) }
      (i + laps * len) := ⟨hat.masks, by rw [hmod]; exact hat.pos, rfl⟩
  exact ⟨laps, _, by omega, hread, hthere.updatePos⟩

/-- What a call does: it returns, with nothing at the end, and otherwise with an
element whole laps on. -/
theorem tryConsume_returns (h : QueueHolds len produced q) (hat : At len c i)
    (hle : i ≤ produced.length) (hlaps : produced.length / len < 2 ^ 31 - 1) :
    ∃ calls r, c.tryConsume q calls = some r ∧
      ((r = (none, c) ∧ i = produced.length) ∨
        ∃ laps c', r = (some produced[i + laps * len]?, c') ∧
          i + laps * len < produced.length ∧ At len c' (i + laps * len + 1)) := by
  rcases Nat.lt_or_ge i produced.length with hlt | hge
  · obtain ⟨laps, c', hi, hread, hnext⟩ := tryConsume_of_lt h hat hlt hlaps
    exact ⟨_, _, hread, .inr ⟨laps, c', rfl, hi, hnext⟩⟩
  · obtain rfl := Nat.le_antisymm hle hge
    exact ⟨_, _, tryConsume_of_eq h hat hlaps, .inl ⟨rfl, rfl⟩⟩

end Calls

/-! ## Runs -/

/-- A client is at the index after those it has received. -/
structure ClientHolds (len : ℕ) (produced : List α) (client : Client α) (indices : List ℕ) :
    Prop where
  skips : InOrder len client.created indices
  lt_length : ∀ i ∈ indices, i < produced.length
  received : client.received = indices.map fun i => produced[i]?
  next : At len client.consumer (nextAfter client.created indices)
  next_le : nextAfter client.created indices ≤ produced.length

structure Holds (len : ℕ) (b : Broadcast α) : Prop where
  queue : QueueHolds len b.produced b.queue
  clients : ∀ client ∈ b.clients, ∃ indices, ClientHolds len b.produced client indices

/-- What was produced has not wrapped a count or a version. -/
structure Bounded (len : ℕ) (b : Broadcast α) : Prop where
  laps : b.produced.length / len < 2 ^ 31 - 1
  count : b.produced.length < 2 ^ 64

/-- An element more changes no client. -/
theorem ClientHolds.produce (h : ClientHolds len produced client indices) (item : α) :
    ClientHolds len (produced ++ [item]) client indices where
  skips := h.skips
  lt_length := by
    intro i hi
    have := h.lt_length i hi
    rw [List.length_append]
    omega
  received := by
    rw [h.received]
    refine List.map_congr_left fun i hi => ?_
    rw [List.getElem?_append_left (h.lt_length i hi)]
  next := h.next
  next_le := by
    have := h.next_le
    rw [List.length_append]
    omega

/-- A new client has got nothing. -/
theorem clientHolds_create (h : QueueHolds len produced q) (hcount : produced.length < 2 ^ 64) :
    ClientHolds len produced ⟨.fromQueue q, produced.length, []⟩ [] where
  skips := trivial
  lt_length := by simp
  received := rfl
  next := at_fromQueue h hcount
  next_le := Nat.le_refl _

/-- A call that returns leaves the client after one index more, or where it was. -/
theorem ClientHolds.tryConsume (h : ClientHolds len produced client indices)
    (hq : QueueHolds len produced q) (hlaps : produced.length / len < 2 ^ 31 - 1)
    (hcall : client.consumer.tryConsume q calls = some r) :
    ∃ indices', ClientHolds len produced
      { client with consumer := r.2, received := client.received ++ r.1.toList } indices' := by
  obtain ⟨_, _, hread, hcases⟩ := tryConsume_returns hq h.next h.next_le hlaps
  obtain rfl := tryConsume_unique hread hcall
  rcases hcases with ⟨rfl, _⟩ | ⟨laps, c', rfl, hi, hat⟩
  · exact ⟨indices, h.skips, h.lt_length, by simp [h.received], h.next, h.next_le⟩
  · refine ⟨indices ++ [nextAfter client.created indices + laps * len], ?_, ?_, ?_, ?_, ?_⟩
    · exact inOrder_concat.mpr ⟨h.skips, laps, rfl⟩
    · intro i hmem
      rcases List.mem_append.mp hmem with hold | hnew
      · exact h.lt_length i hold
      · rw [List.mem_singleton.mp hnew]
        exact hi
    · simp [h.received]
    · simp only [nextAfter_concat]
      exact hat
    · simp only [nextAfter_concat]
      exact hi

/-- What was produced is never taken back. -/
theorem step_produced (hstep : step b op = some b') : b.produced.length ≤ b'.produced.length := by
  cases op with
  | produce =>
    obtain ⟨r, _, rfl⟩ := Option.map_eq_some_iff.mp hstep
    simp
  | create =>
    obtain rfl := Option.some.inj hstep
    exact Nat.le_refl _
  | tryConsume =>
    obtain ⟨client, _, hcall⟩ := Option.bind_eq_some_iff.mp hstep
    obtain ⟨r, _, rfl⟩ := Option.map_eq_some_iff.mp hcall
    exact Nat.le_refl _

/-- The bounds held before the step. -/
theorem Bounded.of_step (h : Bounded len b') (hstep : step b op = some b') : Bounded len b := by
  have hle := step_produced hstep
  have hdiv : b.produced.length / len ≤ b'.produced.length / len := Nat.div_le_div_right hle
  exact ⟨Nat.lt_of_le_of_lt hdiv h.laps, Nat.lt_of_le_of_lt hle h.count⟩

/-- The step lemma. -/
theorem Holds.step (h : Holds len b) (hbound : Bounded len b') (hstep : step b op = some b') :
    Holds len b' := by
  have hbefore := hbound.of_step hstep
  cases op with
  | produce first item =>
    have hproduce : BroadcastOrder.step b (.produce first item) =
        (b.queue.produce item).map fun r =>
          { b with queue := r.2, produced := b.produced ++ [item] } := by
      cases first with
      | false => rfl
      | true => rw [← h.queue.produceFirst_eq item]; rfl
    rw [hproduce] at hstep
    obtain ⟨⟨p, q'⟩, hq', rfl⟩ := Option.map_eq_some_iff.mp hstep
    have hkind : b.queue.queueType ≠ .unknown := by
      intro hunknown
      simp [InnerQueue.produce, InnerQueue.nextCount, hunknown] at hq'
    obtain ⟨q'', hq'', _, hholds⟩ := h.queue.produce hkind item
    rw [hq''] at hq'
    obtain ⟨_, rfl⟩ := Prod.mk.inj (Option.some.inj hq')
    refine ⟨hholds, fun client hmem => ?_⟩
    obtain ⟨indices, hclient⟩ := h.clients client hmem
    exact ⟨indices, hclient.produce item⟩
  | create =>
    obtain rfl := Option.some.inj hstep
    refine ⟨h.queue, fun client hmem => ?_⟩
    rcases List.mem_append.mp hmem with hold | hnew
    · exact h.clients client hold
    · rw [List.mem_singleton.mp hnew]
      exact ⟨[], clientHolds_create h.queue hbefore.count⟩
  | tryConsume =>
    obtain ⟨client, hget, hcall⟩ := Option.bind_eq_some_iff.mp hstep
    obtain ⟨r, hr, rfl⟩ := Option.map_eq_some_iff.mp hcall
    refine ⟨h.queue, fun client' hmem => ?_⟩
    rcases List.mem_or_eq_of_mem_set hmem with hold | rfl
    · exact h.clients client' hold
    · obtain ⟨indices, hclient⟩ := h.clients client (List.mem_of_getElem? hget)
      exact hclient.tryConsume h.queue hbefore.laps hr

/-- The run lemma. The bound is on what was produced in all, so it holds all along. -/
theorem holds_run {ops : List (Op α)} (h : Holds len b) (hrun : runSteps step b ops = some b')
    (hbound : Bounded len b') : Holds len b' := by
  have hinv : Bounded len b' → Holds len b' := by
    refine runSteps_induction (I := fun b => Bounded len b → Holds len b) ?_ (fun _ => h) hrun
    intro s op s' hs hstep hbound'
    exact (hs (hbound'.of_step hstep)).step hbound' hstep
  exact hinv hbound

/-- A new queue satisfies the invariant. -/
theorem holds_start {len : UInt64} (hnew : InnerQueue.fromUninitializedPtr len queueType = some q) :
    Holds len.toNat (start q) :=
  ⟨queueHolds_new hnew, fun _ hmem => absurd hmem List.not_mem_nil⟩

/-- The invariant says what was delivered. -/
theorem ClientHolds.delivered (h : ClientHolds len b.produced client indices)
    (hq : QueueHolds len b.produced b.queue) (hlaps : b.produced.length / len < 2 ^ 31 - 1) :
    Delivered len b client indices where
  increasing := h.skips.pairwise
  since := h.skips.le
  skips := h.skips
  lt_length := h.lt_length
  received := h.received
  returns := by
    obtain ⟨calls, r, hread, _⟩ := tryConsume_returns hq h.next h.next_le hlaps
    exact ⟨calls, r, hread⟩
  nothing := by
    intro calls c hcall
    obtain ⟨_, _, hread, hcases⟩ := tryConsume_returns hq h.next h.next_le hlaps
    obtain rfl := tryConsume_unique hread hcall
    rcases hcases with ⟨_, hend⟩ | ⟨laps, c', hsome, _⟩
    · exact Nat.le_of_eq hend.symm
    · cases hsome

/-- While neither the count nor a version has wrapped, every consumer gets elements in the order
in which they were produced, from those after its creation. It misses whole laps only, a call
returns, and it returns nothing only when nothing is left. -/
theorem broadcast_delivers {len : UInt64} {queueType : QueueType} {q : InnerQueue α}
    (hnew : InnerQueue.fromUninitializedPtr len queueType = some q)
    {ops : List (Op α)} {b : Broadcast α} (hrun : runSteps step (start q) ops = some b)
    (hbound : Bounded len.toNat b) :
    ∀ client ∈ b.clients, ∃ indices, Delivered len.toNat b client indices := by
  intro client hmem
  have hholds := holds_run (holds_start hnew) hrun hbound
  obtain ⟨indices, hclient⟩ := hholds.clients client hmem
  exact ⟨indices, hclient.delivered hholds.queue hbound.laps⟩

/-- A queue of two slots. -/
def twoSlots : InnerQueue ℕ where
  queueType := .spmc
  mask := 1
  count := 0
  buffer := [.zeroed, .zeroed]

/-- A consumer that was lapped once, and has called. -/
def lappedOnce : Broadcast ℕ where
  queue := { twoSlots with count := 3, buffer := [⟨some 12, 4⟩, ⟨some 11, 2⟩] }
  produced := [10, 11, 12]
  clients := [⟨⟨1, 1, 4⟩, 0, [some 12]⟩]

/-- A consumer that was lapped once. -/
theorem broadcast_delivers_lapped :
    InnerQueue.fromUninitializedPtr 2 .spmc = some twoSlots ∧
      runSteps step (start twoSlots)
        [.create, .produce true 10, .produce false 11, .produce false 12, .tryConsume 0 2] =
        some lappedOnce ∧
      ∀ client ∈ lappedOnce.clients, ∃ indices, Delivered 2 lappedOnce client indices := by
  have hnew : InnerQueue.fromUninitializedPtr 2 .spmc = some twoSlots := rfl
  have hrun : runSteps step (start twoSlots)
      [.create, .produce true 10, .produce false 11, .produce false 12, .tryConsume 0 2] =
      some lappedOnce := rfl
  exact ⟨hnew, hrun, broadcast_delivers hnew hrun ⟨by decide, by decide⟩⟩

/-! ## Where the version or the count wraps -/

/-- Producing `n` times succeeds. -/
theorem run_produces (h : QueueHolds len [] q) (hkind : q.queueType ≠ .unknown) (item : α) (n : ℕ) :
    ∃ q', runSteps step (start q) (List.replicate n (.produce false item)) =
        some ⟨q', List.replicate n item, []⟩ ∧
      q'.queueType = q.queueType ∧ QueueHolds len (List.replicate n item) q' := by
  induction n with
  | zero => exact ⟨q, rfl, rfl, h⟩
  | succ n ih =>
    obtain ⟨q', hrun, hsame, hholds⟩ := ih
    obtain ⟨q'', hq'', hsame', hholds'⟩ := hholds.produce (by rw [hsame]; exact hkind) item
    refine ⟨q'', ?_, hsame'.trans hsame, by rw [List.replicate_succ']; exact hholds'⟩
    rw [List.replicate_succ', runSteps_append, hrun, List.replicate_succ']
    simp [runSteps, step, hq'']

/-- If a consumer that is created after `n` writes gets an element at once, it is not
one to come. -/
theorem exists_overtaken {len : UInt64} {q₀ : InnerQueue α}
    (hnew : InnerQueue.fromUninitializedPtr len .spmc = some q₀) (item : α)
    (hread : ∀ q, QueueHolds len.toNat (List.replicate n item) q →
      ∃ c, (ConsumerBare.fromQueue q).tryConsume q calls = some (some (some item), c)) :
    ∃ ops b, runSteps step (start q₀) ops = some b ∧ b.produced.length = n ∧
      ∃ client ∈ b.clients, ∀ indices, ¬ Delivered len.toNat b client indices := by
  have hkind : q₀.queueType ≠ .unknown := by
    unfold InnerQueue.fromUninitializedPtr at hnew
    split at hnew
    · obtain rfl := Option.some.inj hnew
      exact QueueType.noConfusion
    · cases hnew
  obtain ⟨q, hrun, -, hq⟩ := run_produces (queueHolds_new hnew) hkind item n
  obtain ⟨c, hread⟩ := hread q hq
  refine ⟨List.replicate n (.produce false item) ++ [.create, .tryConsume 0 calls],
    ⟨q, List.replicate n item, [⟨c, n, [some item]⟩]⟩, ?_, List.length_replicate,
    ⟨c, n, [some item]⟩, List.mem_singleton_self _, ?_⟩
  · simp only [runSteps_append, hrun, Option.bind_some, runSteps, step, List.nil_append,
      List.getElem?_cons_zero, List.length_replicate, hread, Option.map_some, List.set_cons_zero,
      Option.toList_some]
  · intro indices h
    -- an index that was received is neither before the creation nor still to be produced
    cases indices with
    | nil => exact absurd h.received (by simp)
    | cons i =>
      have hsince := h.since i List.mem_cons_self
      have hlt := h.lt_length i List.mem_cons_self
      rw [List.length_replicate] at hlt
      exact absurd hsince (Nat.not_le.mpr hlt)

/-- A consumer that is created with too low a version for its slot gets the element
that is there already. -/
theorem tryConsume_of_written {laps : ℕ} (h : QueueHolds len (List.replicate n item) q)
    (hpos : (ConsumerBare.fromQueue q).pos.toNat = i % len) (hi : i < n) (hround : n ≤ i + len)
    (hlaps : i / len < 2 ^ 31 - 1)
    (hversion : 2 * (i / len) + 2 = (ConsumerBare.fromQueue q).expectedVersion.toNat + 2 * laps) :
    ∃ c, (ConsumerBare.fromQueue q).tryConsume q (laps + 1) = some (some (some item), c) := by
  have hload : q.load (ConsumerBare.fromQueue q).pos =
      some (written len (List.replicate n item) i) :=
    h.load_of_recent hpos (by rwa [List.length_replicate]) (by rwa [List.length_replicate])
  have hread := tryConsume_of_version laps hload (by
    rw [written, toNat_versionOf hlaps]
    exact hversion)
  have hdata : (written len (List.replicate n item) i).data = some item := by
    rw [written, List.getElem?_replicate, if_pos hi]
  rw [hdata] at hread
  exact ⟨_, hread⟩

/-- With one slot, a consumer that is created in the lap in which the version wraps. -/
theorem tryConsume_of_wrap (hn : n + 1 = 2 ^ 31) (h : QueueHolds 1 (List.replicate n item) q) :
    ∃ c, (ConsumerBare.fromQueue q).tryConsume q (n + 1) = some (some (some item), c) := by
  have hat := at_fromQueue h (by rw [List.length_replicate]; omega)
  have hexpected : (ConsumerBare.fromQueue q).expectedVersion.toNat = 0 := by
    rw [hat.version, versionOf, List.length_replicate, Nat.div_one, UInt32.toNat_ofNat']
    omega
  refine tryConsume_of_written h (i := n - 1) ?_ (by omega) (by omega)
    (by rw [Nat.div_one]; omega) (by rw [hexpected, Nat.div_one]; omega)
  rw [hat.pos, Nat.mod_one, Nat.mod_one]

/-- With `2 ^ 34` slots, a consumer that is created when the count has just wrapped. -/
theorem tryConsume_of_count_wrap {laps : ℕ} (hlen : len = 2 ^ 34) (hn : n = 2 ^ 64)
    (hlaps : laps + 1 = 2 ^ 30) (h : QueueHolds len (List.replicate n item) q) :
    ∃ c, (ConsumerBare.fromQueue q).tryConsume q (laps + 1) = some (some (some item), c) := by
  have hcount : q.count = 0 := by
    apply UInt64.toNat_inj.mp
    rw [h.count, List.length_replicate, hn]
    rfl
  have hexpected : (ConsumerBare.fromQueue q).expectedVersion.toNat = 2 := by
    simp only [ConsumerBare.fromQueue, InnerQueue.version, hcount, UInt64.zero_div]
    rfl
  have hlast : n - len = laps * len := by
    rw [hn, hlen]
    omega
  have hdiv : (n - len) / len = laps := by
    rw [hlast, Nat.mul_div_cancel _ (by omega)]
  refine tryConsume_of_written h (i := n - len) ?_ (by omega) (by omega) (by omega)
    (by rw [hexpected, hdiv]; omega)
  rw [hlast, Nat.mul_mod_left, ConsumerBare.fromQueue]
  simp [InnerQueue.curPos, hcount]

/-- A consumer that is created after `2 ^ 31 - 1` laps gets an element from before its creation;
and so does one that is created after `2 ^ 64` elements, although they are fewer laps if the
queue is long. -/
theorem overtaken_by_wrap :
    (∃ (q : InnerQueue ℕ) (ops : List (Op ℕ)) (b : Broadcast ℕ),
      InnerQueue.fromUninitializedPtr 1 .spmc = some q ∧ runSteps step (start q) ops = some b ∧
      b.produced.length / 1 < 2 ^ 31 ∧ b.produced.length < 2 ^ 64 ∧
      ∃ client ∈ b.clients, ∀ indices, ¬ Delivered 1 b client indices) ∧
    ∃ (q : InnerQueue ℕ) (ops : List (Op ℕ)) (b : Broadcast ℕ),
      InnerQueue.fromUninitializedPtr (.ofNat (2 ^ 34)) .spmc = some q ∧
      runSteps step (start q) ops = some b ∧
      b.produced.length / 2 ^ 34 < 2 ^ 31 - 1 ∧ b.produced.length = 2 ^ 64 ∧
      ∃ client ∈ b.clients, ∀ indices, ¬ Delivered (2 ^ 34) b client indices := by
  constructor
  · obtain ⟨n, hn⟩ : ∃ n, n + 1 = 2 ^ 31 := ⟨2 ^ 31 - 1, by omega⟩
    have hnew : InnerQueue.fromUninitializedPtr 1 .spmc =
        some (⟨.spmc, 0, 0, [.zeroed]⟩ : InnerQueue ℕ) := rfl
    obtain ⟨ops, b, hrun, hlength, hovertaken⟩ :=
      exists_overtaken hnew 7 fun q hq => tryConsume_of_wrap hn hq
    exact ⟨_, ops, b, hnew, hrun, by rw [hlength, Nat.div_one]; omega, by rw [hlength]; omega,
      hovertaken⟩
  · obtain ⟨n, hn⟩ : ∃ n, n = 2 ^ 64 := ⟨_, rfl⟩
    obtain ⟨laps, hlaps⟩ : ∃ laps, laps + 1 = 2 ^ 30 := ⟨2 ^ 30 - 1, by omega⟩
    have hlen : (UInt64.ofNat (2 ^ 34)).toNat = 2 ^ 34 := by decide
    have hpower : isPowerOfTwo (.ofNat (2 ^ 34)) = true := by decide +kernel
    obtain ⟨q, hnew⟩ : ∃ q : InnerQueue ℕ,
        InnerQueue.fromUninitializedPtr (.ofNat (2 ^ 34)) .spmc = some q := ⟨_, if_pos hpower⟩
    obtain ⟨ops, b, hrun, hlength, hovertaken⟩ :=
      exists_overtaken hnew 7 fun q hq => tryConsume_of_count_wrap hlen hn hlaps hq
    rw [hlen] at hovertaken
    exact ⟨q, ops, b, hnew, hrun, by rw [hlength, hn]; decide, hlength.trans hn, hovertaken⟩

end BasedOp.Analysis.BroadcastOrder
