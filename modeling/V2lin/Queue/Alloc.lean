import V2lin.Queue.Control
import V2lin.Arith.Words
import Mathlib.Tactic.Ring
import Mathlib.Tactic.Linarith

/-! The memory of a new queue.

`msgQCreate` asks for its control block and `data_extent_for` for an extent of one element
more than the queue holds messages, and clears the extent. The size is a product of `int`
and `size_t`, and it is narrowed to an `int` on its way to `bzero`. All of this is right up
to a size of `2 ^ 31 - 1` bytes; there the queue is the one of `Queue.msgQCreate`, whose
pointers count from the start of the extent. -/
namespace V2lin.Queue.Alloc
open V2lin.Arith V2lin.Ring

/-- Clear `n` bytes from address `a` on. -/
def bzero (mem : Bytes) (a n : ℤ) : Bytes := fun x => if a ≤ x ∧ x < a + n then 0 else mem x

/-- `alloc_size`: the number of elements is computed in `int`. -/
def allocSize (vmsgLen : ℕ) (msgsPerQueue : ℤ) : ℤ :=
  toUnsigned 64 (vmsgLen * toUnsigned 64 (toSigned 32 (msgsPerQueue + 1)))

/-- `(int)alloc_size`, as the count of `bzero`. -/
def clearSize (allocSize : ℤ) : ℤ := toUnsigned 64 (toSigned 32 allocSize)

/-- `queue->msg_len` -/
def msgLenOf (msglen : ℤ) : ℕ := (toUnsigned 32 msglen).toNat

/-- `queue->vmsg_len` -/
def vmsgLenOf (msglen : ℤ) : ℕ := headerLen + msgLenOf msglen

/-- `sizeof(v2pt_mqueue_t)`, with mutexes of 40 bytes and condition variables of 48. -/
def controlBlockSize : ℤ := 360

section
variable {σ : Type} (tsMalloc : σ → ℤ → Option ℤ × σ) (tsFree : σ → ℤ → σ) (θ : Type)

/-- `data_extent_for`: the extent, the last element and the memory. -/
def dataExtentFor (heap : σ) (mem : Bytes) (vmsgLen : ℕ) (msgsPerQueue : ℤ) : Option (ℤ × ℤ × Bytes) × σ :=
  match tsMalloc heap (allocSize vmsgLen msgsPerQueue) with
  | (none, heap) => (none, heap)
  | (some newExtent, heap) =>
    (some (newExtent, newExtent + toUnsigned 64 (vmsgLen * toUnsigned 64 msgsPerQueue),
      bzero mem newExtent (clearSize (allocSize vmsgLen msgsPerQueue))), heap)

/-- `msgQCreate`, up to its linking: the control block, whose pointers are addresses and
whose extent is the memory, and its address. -/
def msgQCreate (heap : σ) (mem : Bytes) (maxMsgs msglen : ℤ) (opt : ℕ) : Except Status (ℤ × V2ptMqueue θ) × σ :=
  match tsMalloc heap controlBlockSize with
  | (none, heap) => (.error .notEnoughMemory, heap)
  | (some queue, heap) =>
    match dataExtentFor tsMalloc heap mem (vmsgLenOf msglen) maxMsgs with
    | (none, heap) => (.error .notEnoughMemory, tsFree heap queue)
    | (some (firstMsg, lastMsg, mem), heap) =>
      (.ok (queue,
        { queueHead := firstMsg, queueTail := firstMsg, sendType := .send
          firstMsgInQueue := firstMsg, lastMsgInQueue := lastMsg
          firstSusp := [], firstWriteSusp := []
          msgCount := 0, msgsPerQueue := maxMsgs
          msgLen := msgLenOf msglen, vmsgLen := vmsgLenOf msglen
          order := if opt &&& msgQPriority ≠ 0 then 1 else 0
          extent := mem }), heap)

end

/-! ### Sizes -/

/-- An `int` of the API that is not negative. -/
def Natural (n : ℤ) : Prop := 0 ≤ n ∧ FitsSigned 32 n

instance (n : ℤ) : Decidable (Natural n) := inferInstanceAs (Decidable (_ ∧ _))

variable {maxMsgs msglen : ℤ}

/-- `(max_msgs + 1) * (header + msglen)` -/
def extentSize (maxMsgs msglen : ℤ) : ℤ := (maxMsgs + 1) * (headerLen + msglen)

theorem vmsgLenOf_eq (hlen : Natural msglen) : (vmsgLenOf msglen : ℤ) = headerLen + msglen := by
  obtain ⟨h0, hfits⟩ := hlen
  have hword : toUnsigned 32 msglen = msglen := by
    refine toUnsigned_of_fits ⟨h0, ?_⟩
    unfold FitsSigned at hfits
    omega
  rw [vmsgLenOf, msgLenOf, hword, Nat.cast_add, Int.toNat_of_nonneg h0]

/-- A size is never near the end of the address space. -/
theorem extentSize_bounds (hmax : Natural maxMsgs) (hlen : Natural msglen) :
    0 < extentSize maxMsgs msglen ∧ extentSize maxMsgs msglen < 2 ^ 63 := by
  obtain ⟨hm0, hm⟩ := hmax
  obtain ⟨hl0, hl⟩ := hlen
  unfold FitsSigned at hm hl
  have hm1 : maxMsgs + 1 ≤ 2147483648 := by omega
  have hl1 : (headerLen : ℤ) + msglen ≤ 2147483655 := by
    unfold headerLen
    omega
  have hpos : (0 : ℤ) < headerLen + msglen := by
    unfold headerLen
    omega
  constructor
  · exact Int.mul_pos (by omega) hpos
  · calc extentSize maxMsgs msglen ≤ 2147483648 * 2147483655 :=
          Int.mul_le_mul hm1 hl1 (Int.le_of_lt hpos) (by decide)
      _ < 2 ^ 63 := by decide

/-- The number of elements fits: the size comes out right. -/
theorem allocSize_eq (hmax : Natural maxMsgs) (hlen : Natural msglen) (hcount : FitsSigned 32 (maxMsgs + 1)) :
    allocSize (vmsgLenOf msglen) maxMsgs = extentSize maxMsgs msglen := by
  have hbounds := extentSize_bounds hmax hlen
  have hword : toUnsigned 64 (maxMsgs + 1) = maxMsgs + 1 := by
    have h0 := hmax.1
    unfold FitsSigned at hcount
    exact toUnsigned_of_fits ⟨by omega, by omega⟩
  rw [allocSize, toSigned_of_fits hcount, hword, vmsgLenOf_eq hlen, Int.mul_comm]
  exact toUnsigned_of_fits ⟨Int.le_of_lt hbounds.1, by unfold extentSize at hbounds; omega⟩

/-- Whatever the number of elements, there is room for them in what is asked for. -/
theorem extentSize_le_allocSize (hmax : Natural maxMsgs) (hlen : Natural msglen) :
    extentSize maxMsgs msglen ≤ allocSize (vmsgLenOf msglen) maxMsgs := by
  by_cases hcount : FitsSigned 32 (maxMsgs + 1)
  · exact (allocSize_eq hmax hlen hcount).symm.le
  · -- one more than the largest `int` is the least: the product wraps around to a huge size
    have hmost : maxMsgs = 2147483647 := by
      obtain ⟨h0, hfits⟩ := hmax
      unfold FitsSigned at hfits hcount
      omega
    have hslot := vmsgLenOf_eq hlen
    obtain ⟨hl0, hl⟩ := hlen
    unfold FitsSigned at hl
    subst hmost
    have hwrap : toUnsigned 64 (toSigned 32 (2147483647 + 1)) = 18446744071562067968 := by decide
    unfold allocSize extentSize
    rw [hwrap, hslot]
    unfold toUnsigned
    simp only [headerLen, Nat.cast_ofNat]
    have hsplit : (8 + msglen) * 18446744071562067968 =
        18446744073709551616 - (8 + msglen) * 2147483648 + 18446744073709551616 * (msglen + 7) := by
      ring
    rw [hsplit, show (2 : ℤ) ^ 64 = 18446744073709551616 by decide, Int.add_mul_emod_self_left,
      Int.emod_eq_of_lt (by omega) (by omega)]
    omega

/-- The whole extent is cleared, and no more, unless the size is too large for an `int`. -/
theorem clearSize_eq_iff {n : ℤ} (h0 : 0 < n) (h63 : n < 2 ^ 63) : clearSize n = n ↔ n < 2 ^ 31 := by
  have hfits := toSigned_fits 32 n
  unfold FitsSigned at hfits
  constructor
  · intro heq
    by_cases hneg : toSigned 32 n < 0
    · -- a negative `int` is a count beyond any extent
      have hwrap : clearSize n = toSigned 32 n + 2 ^ 64 := by
        unfold clearSize toUnsigned
        omega
      omega
    · have hsame : clearSize n = toSigned 32 n := toUnsigned_of_fits ⟨by omega, by omega⟩
      omega
  · intro hlt
    have hsigned : toSigned 32 n = n := by
      refine toSigned_of_fits ⟨?_, ?_⟩ <;> omega
    rw [clearSize, hsigned]
    exact toUnsigned_of_fits ⟨by omega, by omega⟩

/-- Clearing some bytes is clearing as many others only if they are as many. -/
theorem bzero_count (a : ℤ) {n k : ℤ} (hn : 0 ≤ n) (hk : 0 ≤ k) (h : ∀ mem x, bzero mem a k x = bzero mem a n x) : k = n := by
  have hcleared : ∀ x, (a ≤ x ∧ x < a + k) ↔ a ≤ x ∧ x < a + n := by
    intro x
    have hx := h (fun _ => 1) x
    unfold bzero at hx
    split at hx <;> split at hx
    · simp only [*]
    · exact absurd (show (0 : UInt8) = 1 from hx) (by decide)
    · exact absurd (show (1 : UInt8) = 0 from hx) (by decide)
    · simp only [*]
  have hlast := hcleared (a + k)
  have hlast' := hcleared (a + n)
  omega

/-! ### The new queue -/

/-- An empty ring of `n + 1` elements of `l` bytes in the extent at `a`. -/
structure EmptyRing {θ : Type} (q : V2ptMqueue θ) (a n l : ℤ) : Prop where
  head : q.queueHead = a
  tail : q.queueTail = a
  first : q.firstMsgInQueue = a
  last : q.lastMsgInQueue = a + n * l
  fin : q.lastMsgInQueue + q.vmsgLen = a + (n + 1) * l
  count : q.msgCount = 0

/-- What `msgQCreate` should do once it has the extent at `a`. -/
structure Creates {σ : Type} (tsMalloc : σ → ℤ → Option ℤ × σ) (tsFree : σ → ℤ → σ) (θ : Type) (heap : σ) (maxMsgs msglen : ℤ)
    (opt : ℕ) (a : ℤ) : Prop where
  /-- No computation overflows. -/
  count : FitsSigned 32 (maxMsgs + 1)
  product : FitsUnsigned 64 (extentSize maxMsgs msglen)
  size : allocSize (vmsgLenOf msglen) maxMsgs = extentSize maxMsgs msglen
  created : ∀ mem, ∃ queue q heap', msgQCreate tsMalloc tsFree θ heap mem maxMsgs msglen opt = (.ok (queue, q), heap') ∧
    q.extent = bzero mem a (extentSize maxMsgs msglen) ∧ EmptyRing q a maxMsgs (headerLen + msglen)

variable {σ θ : Type} {tsMalloc : σ → ℤ → Option ℤ × σ} {tsFree : σ → ℤ → σ} {heap heap₁ heap₂ : σ} {queue a : ℤ}

/-- What is created when the memory is there. -/
theorem msgQCreate_ok (tsFree : σ → ℤ → σ) (θ : Type) (hblock : tsMalloc heap controlBlockSize = (some queue, heap₁))
    (hextent : tsMalloc heap₁ (allocSize (vmsgLenOf msglen) maxMsgs) = (some a, heap₂)) (mem : Bytes) (opt : ℕ) :
    ∃ q, msgQCreate tsMalloc tsFree θ heap mem maxMsgs msglen opt = (.ok (queue, q), heap₂) ∧
      q.extent = bzero mem a (clearSize (allocSize (vmsgLenOf msglen) maxMsgs)) ∧
      q.queueHead = a ∧ q.queueTail = a ∧ q.firstMsgInQueue = a ∧
      q.lastMsgInQueue = a + toUnsigned 64 (vmsgLenOf msglen * toUnsigned 64 maxMsgs) ∧
      q.vmsgLen = vmsgLenOf msglen ∧ q.msgCount = 0 := by
  simp only [msgQCreate, hblock, dataExtentFor, hextent]
  exact ⟨_, rfl, rfl, rfl, rfl, rfl, rfl, rfl, rfl⟩

/-- The last element is where it should be, for every size. -/
theorem last_offset (hmax : Natural maxMsgs) (hlen : Natural msglen) :
    toUnsigned 64 (vmsgLenOf msglen * toUnsigned 64 maxMsgs) = maxMsgs * (headerLen + msglen) := by
  have hbounds := extentSize_bounds hmax hlen
  obtain ⟨hm0, hm⟩ := hmax
  have hword : toUnsigned 64 maxMsgs = maxMsgs := by
    unfold FitsSigned at hm
    exact toUnsigned_of_fits ⟨hm0, by omega⟩
  have hslot : (0 : ℤ) ≤ headerLen + msglen := by
    have := hlen.1
    omega
  have hsplit : extentSize maxMsgs msglen = maxMsgs * (headerLen + msglen) + (headerLen + msglen) := by
    unfold extentSize
    ring
  rw [hword, vmsgLenOf_eq hlen, Int.mul_comm]
  exact toUnsigned_of_fits ⟨Int.mul_nonneg hm0 hslot, by omega⟩

/-- A queue is created as it should be if and only if its extent has fewer than `2 ^ 31`
bytes. -/
theorem creates_iff (tsFree : σ → ℤ → σ) (θ : Type) (opt : ℕ) (hmax : Natural maxMsgs) (hlen : Natural msglen)
    (hblock : tsMalloc heap controlBlockSize = (some queue, heap₁))
    (hextent : tsMalloc heap₁ (allocSize (vmsgLenOf msglen) maxMsgs) = (some a, heap₂)) :
    Creates tsMalloc tsFree θ heap maxMsgs msglen opt a ↔ extentSize maxMsgs msglen < 2 ^ 31 := by
  obtain ⟨hpos, h63⟩ := extentSize_bounds hmax hlen
  constructor
  · intro h
    rw [← clearSize_eq_iff hpos h63]
    refine bzero_count a (Int.le_of_lt hpos) (toUnsigned_fits 64 _).1 fun mem x => ?_
    obtain ⟨q, hq, hextent', _⟩ := msgQCreate_ok tsFree θ hblock hextent mem opt
    obtain ⟨queue', q', heap', hq', hcleared, _⟩ := h.created mem
    have hsame : q = q' := by
      rw [hq] at hq'
      cases hq'
      rfl
    rw [← h.size, ← hextent', hsame, hcleared, h.size]
  · intro hlt
    have hcount : FitsSigned 32 (maxMsgs + 1) := by
      have hm0 := hmax.1
      have hslot : (8 : ℤ) ≤ headerLen + msglen := by
        have := hlen.1
        unfold headerLen
        omega
      have hle : (maxMsgs + 1) * 8 ≤ extentSize maxMsgs msglen := Int.mul_le_mul_of_nonneg_left hslot (by omega)
      unfold FitsSigned
      omega
    have hsize := allocSize_eq hmax hlen hcount
    refine ⟨hcount, ⟨Int.le_of_lt hpos, by omega⟩, hsize, fun mem => ?_⟩
    obtain ⟨q, hq, hcleared, hhead, htail, hfirst, hlast, hslot, hcnt⟩ :=
      msgQCreate_ok tsFree θ hblock hextent mem opt
    rw [last_offset hmax hlen] at hlast
    rw [hsize, (clearSize_eq_iff hpos h63).mpr hlt] at hcleared
    refine ⟨queue, q, heap₂, hq, hcleared, hhead, htail, hfirst, hlast, ?_, hcnt⟩
    rw [hlast, hslot, vmsgLenOf_eq hlen]
    ring

/-- An allocator that gives out one block after the other. -/
def bump (heap : ℤ) (n : ℤ) : Option ℤ × ℤ := (some heap, heap + n)

theorem ten_messages_created : Creates bump (fun heap _ => heap) (Fin 1) 4096 10 50 0 (4096 + 360) :=
  (creates_iff (fun heap _ => heap) (Fin 1) 0 (by decide) (by decide)
    (show bump 4096 controlBlockSize = (some 4096, 4096 + 360) from rfl)
    (show bump (4096 + 360) (allocSize (vmsgLenOf 50) 10) = (some (4096 + 360), 4096 + 360 + 638) by decide)).mpr (by decide)

/-- The extent for 67108864 messages of 56 bytes is `2 ^ 32 + 64` bytes long, and only the first
64 are cleared. -/
theorem large_extent_not_cleared :
    ¬ Creates bump (fun heap _ => heap) (Fin 1) 4096 67108864 56 0 (4096 + 360) ∧
      allocSize (vmsgLenOf 56) 67108864 = 2 ^ 32 + 64 ∧ clearSize (2 ^ 32 + 64) = 64 := by
  refine ⟨fun h => ?_, by decide, by decide⟩
  obtain ⟨queue, q, heap', hq, hcleared, _⟩ := h.created fun _ => 1
  have hextent : q.extent (4096 + 360 + 64) = 1 := by
    cases hq
    decide
  rw [hcleared] at hextent
  exact absurd hextent (by decide)

/-! ### The queue as seen from its extent -/

/-- The queue with its pointers counted from `a`, and the `size` bytes there. -/
def rebase (q : V2ptMqueue θ) (a size : ℤ) : V2ptMqueue θ :=
  {q with
    queueHead := q.queueHead - a
    queueTail := q.queueTail - a
    firstMsgInQueue := q.firstMsgInQueue - a
    lastMsgInQueue := q.lastMsgInQueue - a
    extent := fun x => if 0 ≤ x ∧ x < size then q.extent (a + x) else 0}

/-- Up to `2 ^ 31 - 1` bytes the new queue is the one that the operations start from. -/
theorem created_rebased (mem : Bytes) (opt : ℕ) (hmax : Natural maxMsgs) (hlen : Natural msglen)
    (hblock : tsMalloc heap controlBlockSize = (some queue, heap₁))
    (hextent : tsMalloc heap₁ (allocSize (vmsgLenOf msglen) maxMsgs) = (some a, heap₂))
    (hlt : extentSize maxMsgs msglen < 2 ^ 31) :
    ∃ q, msgQCreate tsMalloc tsFree θ heap mem maxMsgs msglen opt = (.ok (queue, q), heap₂) ∧
      rebase q a (extentSize maxMsgs msglen) = Queue.msgQCreate θ maxMsgs msglen opt := by
  obtain ⟨hpos, h63⟩ := extentSize_bounds hmax hlen
  have hcount := ((creates_iff tsFree θ opt hmax hlen hblock hextent).mpr hlt).count
  have hsize := allocSize_eq hmax hlen hcount
  have hclear : clearSize (extentSize maxMsgs msglen) = extentSize maxMsgs msglen := (clearSize_eq_iff hpos h63).mpr hlt
  simp only [msgQCreate, hblock, dataExtentFor, hextent]
  refine ⟨_, rfl, ?_⟩
  have hcleared : (fun x => if 0 ≤ x ∧ x < extentSize maxMsgs msglen then
      bzero mem a (clearSize (allocSize (vmsgLenOf msglen) maxMsgs)) (a + x) else 0) = fun _ => (0 : UInt8) := by
    funext x
    rw [hsize, hclear]
    unfold bzero
    split
    · rw [if_pos (by omega)]
    · rfl
  have hlast : a + toUnsigned 64 (vmsgLenOf msglen * toUnsigned 64 maxMsgs) - a = vmsgLenOf msglen * maxMsgs := by
    rw [last_offset hmax hlen, vmsgLenOf_eq hlen]
    ring
  simp only [rebase, Int.sub_self, hcleared, hlast]
  rfl

end V2lin.Queue.Alloc
