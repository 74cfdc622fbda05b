import V2lin.Queue.Alloc
import V2lin.Queue.Extent
import V2lin.Queue.Messages
import Mathlib.Logic.Relation

/-! Where the queue's operations write.

A queue's head and tail are at its elements from its making on, whatever is sent and
fetched. An operation stores into the element that the head or the tail is at, and nowhere
else, with one exception: `fetch_msg_from` clears the first byte of the message in any
case, and the elements of a queue for messages of no bytes have none. -/
namespace V2lin.Queue
open Threads V2lin.Task V2lin.Ring Relation

/-- What is done to the messages of a queue. -/
inductive RingOp where
  | send (msg : Msg)
  | urgent (msg : Msg)
  | fetch (hasBuf : Bool)
  deriving DecidableEq

namespace RingOp

def fetches : RingOp → Bool
  | .fetch _ => true
  | _ => false

section
variable {θ : Type}

def run (q : V2ptMqueue θ) : RingOp → V2ptMqueue θ
  | .send msg => q.sendMsgTo msg
  | .urgent msg => q.urgentMsgTo msg
  | .fetch hasBuf => (q.fetchMsgFrom hasBuf).2

/-- The element that the operation is about: at the tail, at the head once it has been
moved back, or at the head. -/
def target (q : V2ptMqueue θ) : RingOp → ℤ
  | .send _ => q.queueTail
  | .urgent msg => (q.urgentMsgTo msg).queueHead
  | .fetch _ => q.queueHead

/-- The stores of the operation, in the order of the code. -/
def stores (q : V2ptMqueue θ) : RingOp → List Store
  | .send msg => msgStores q.queueTail msg
  | .urgent msg => msgStores (q.urgentMsgTo msg).queueHead msg
  | .fetch _ => copies (q.queueHead + headerLen) [0] ++ copies q.queueHead (wordBytes 0)

/-- What is checked before: the length of a message, or that there is one. A sender that has
waited does not look again whether there is space. -/
def Accepted (q : V2ptMqueue θ) : RingOp → Prop
  | .send msg | .urgent msg => msg.msglen ≤ q.msgLen
  | .fetch _ => 0 < q.msgCount

/-- The extent after the operation is the extent before with its stores. -/
theorem run_extent (op : RingOp) (q : V2ptMqueue θ) : (op.run q).extent = q.extent.stores (op.stores q) := by
  cases op with
  | send msg => exact storeMsg_stores
  | urgent msg => exact storeMsg_stores
  | fetch hasBuf =>
    rw [stores, Bytes.stores_append, Bytes.stores_copies, Bytes.stores_copies]
    rfl

end

end RingOp

section
variable {θ : Type}

/-- A step of the ring: an operation on its messages, or a change of what is no part of it. -/
inductive RingStep : V2ptMqueue θ → V2ptMqueue θ → Prop where
  | does {q} (op : RingOp) : op.Accepted q → RingStep q (op.run q)
  | relisted {q} (receivers senders : List θ) (sendType : SendType) :
      RingStep q {q with firstSusp := receivers, firstWriteSusp := senders, sendType := sendType}

/-- The head and the tail are at elements of the extent at `a`, for `n` messages of up to `l` bytes. -/
structure AtElements (q : V2ptMqueue θ) (a : ℤ) (n l : ℕ) : Prop where
  first : q.firstMsgInQueue = a
  last : q.lastMsgInQueue = slot a (headerLen + l : ℕ) n
  msgLen : q.msgLen = l
  vmsgLen : q.vmsgLen = headerLen + l
  head : ∃ i < n + 1, q.queueHead = slot a (headerLen + l : ℕ) i
  tail : ∃ i < n + 1, q.queueTail = slot a (headerLen + l : ℕ) i

variable {q q' : V2ptMqueue θ} {a size : ℤ} {n l : ℕ} {op : RingOp}

/-- An operation is about one of the elements. -/
theorem AtElements.target (h : AtElements q a n l) (op : RingOp) :
    ∃ i < n + 1, op.target q = slot a (headerLen + l : ℕ) i := by
  cases op with
  | send msg => exact h.tail
  | fetch hasBuf => exact h.head
  | urgent msg =>
    obtain ⟨i, hi, hhead⟩ := h.head
    refine ⟨prev (n + 1) i, prev_lt hi, ?_⟩
    simp only [RingOp.target, V2ptMqueue.urgentMsgTo, h.first, h.last, h.vmsgLen, hhead]
    exact slot_prev (slotSize_pos l) hi

theorem AtElements.run (h : AtElements q a n l) (op : RingOp) : AtElements (op.run q) a n l := by
  cases op with
  | send msg =>
    obtain ⟨i, hi, htail⟩ := h.tail
    refine ⟨h.first, h.last, h.msgLen, h.vmsgLen, h.head, next (n + 1) i, next_lt hi, ?_⟩
    simp only [RingOp.run, V2ptMqueue.sendMsgTo, h.first, h.last, h.vmsgLen, htail]
    exact slot_next (slotSize_pos l) hi
  | urgent msg => exact ⟨h.first, h.last, h.msgLen, h.vmsgLen, h.target (.urgent msg), h.tail⟩
  | fetch hasBuf =>
    obtain ⟨i, hi, hhead⟩ := h.head
    refine ⟨h.first, h.last, h.msgLen, h.vmsgLen, ⟨next (n + 1) i, next_lt hi, ?_⟩, h.tail⟩
    simp only [RingOp.run, V2ptMqueue.fetchMsgFrom, h.first, h.last, h.vmsgLen, hhead]
    exact slot_next (slotSize_pos l) hi

theorem RingStep.atElements (h : RingStep q q') (hq : AtElements q a n l) : AtElements q' a n l := by
  cases h with
  | does op => exact hq.run op
  | relisted => exact ⟨hq.first, hq.last, hq.msgLen, hq.vmsgLen, hq.head, hq.tail⟩

theorem AtElements.reachable (h : AtElements q a n l) (hr : ReflTransGen RingStep q q') : AtElements q' a n l := by
  induction hr with
  | refl => exact h
  | tail _ hs ih => exact hs.atElements ih

/-! ### The stores of an operation -/

/-- The stores of an operation on a queue with `size` bytes at `a`. -/
structure Confined (q : V2ptMqueue θ) (a size : ℤ) (n l : ℕ) (op : RingOp) : Prop where
  /-- They are to the element that the operation is about, which is one of the queue's. -/
  element : ∃ i < n + 1, op.target q = slot a (headerLen + l : ℕ) i
  inElement : Inside (op.target q) (headerLen + l : ℕ) (op.stores q)
  inExtent : Inside a size (op.stores q)
  /-- The bytes of the other elements stay as they are. -/
  others : ∀ i < n + 1, slot a (headerLen + l : ℕ) i ≠ op.target q → ∀ x, slot a (headerLen + l : ℕ) i ≤ x →
    x < slot a (headerLen + l : ℕ) i + (headerLen + l : ℕ) → (op.run q).extent x = q.extent x

/-- A fetch clears a byte behind the header. -/
theorem fetch_inside_iff (q : V2ptMqueue θ) (l : ℕ) (hasBuf : Bool) :
    Inside q.queueHead (headerLen + l : ℕ) ((RingOp.fetch hasBuf).stores q) ↔ 0 < l := by
  constructor
  · intro h
    have hcleared := (h ⟨q.queueHead + headerLen, 0⟩ (List.mem_append_left _ (List.mem_singleton_self _))).2
    simp only at hcleared
    omega
  · intro hl
    have hbyte : Inside q.queueHead (headerLen + l : ℕ) (copies (q.queueHead + headerLen) [0]) := by
      refine inside_copies.mono (by omega) ?_
      simp only [List.length_singleton]
      omega
    exact hbyte.append (inside_word 0)

/-- An operation stores into its element, unless it is a fetch of a message without bytes. -/
theorem AtElements.inside_iff (h : AtElements q a n l) (hacc : op.Accepted q) :
    Inside (op.target q) (headerLen + l : ℕ) (op.stores q) ↔ (op.fetches = true → 0 < l) := by
  cases op with
  | send msg => exact iff_of_true (inside_msgStores (h.msgLen ▸ hacc)) nofun
  | urgent msg => exact iff_of_true (inside_msgStores (h.msgLen ▸ hacc)) nofun
  | fetch hasBuf => exact (fetch_inside_iff q l hasBuf).trans ⟨fun hl _ => hl, fun hl => hl rfl⟩

theorem AtElements.confined_iff (h : AtElements q a n l) (hacc : op.Accepted q)
    (hsize : ((headerLen + l : ℕ) : ℤ) * (n + 1) ≤ size) : Confined q a size n l op ↔ (op.fetches = true → 0 < l) := by
  rw [← h.inside_iff hacc]
  refine ⟨Confined.inElement, fun hin => ?_⟩
  obtain ⟨i, hi, htarget⟩ := h.target op
  have hpos := Int.le_of_lt (slotSize_pos l)
  refine ⟨⟨i, hi, htarget⟩, hin, ?_, fun j hj hne x hx hx' => ?_⟩
  · obtain ⟨hlow, hhigh⟩ := slot_inside (a := a) hpos hi
    rw [← htarget] at hlow hhigh
    exact hin.mono hlow (by omega)
  · have hij : i ≠ j := by
      rintro rfl
      exact hne htarget.symm
    have hapart := slot_apart (a := a) hpos hij
    rw [← htarget] at hapart
    rw [RingOp.run_extent]
    exact Bytes.stores_outside hin (by omega)

/-! ### A queue that has been made -/

open V2lin.Arith V2lin.Queue.Alloc

section
variable {σ : Type} {tsMalloc : σ → ℤ → Option ℤ × σ} {tsFree : σ → ℤ → σ} {heap heap₁ heap₂ : σ} {mem : Bytes}
  {queue maxMsgs msglen : ℤ} {opt : ℕ} {q₀ : V2ptMqueue θ}

/-- A new queue's head and tail are at its first element. -/
theorem made_atElements (hmax : Natural maxMsgs) (hlen : Natural msglen)
    (hblock : tsMalloc heap controlBlockSize = (some queue, heap₁))
    (hextent : tsMalloc heap₁ (allocSize (vmsgLenOf msglen) maxMsgs) = (some a, heap₂))
    (hmade : Alloc.msgQCreate tsMalloc tsFree θ heap mem maxMsgs msglen opt = (.ok (queue, q₀), heap₂)) :
    AtElements q₀ a maxMsgs.toNat msglen.toNat := by
  have hmsg : msgLenOf msglen = msglen.toNat := by
    have hslot := vmsgLenOf_eq hlen
    unfold vmsgLenOf at hslot
    omega
  have hsize : ((headerLen + msglen.toNat : ℕ) : ℤ) = headerLen + msglen := by
    have h0 := hlen.1
    omega
  have hlast := last_offset hmax hlen
  simp only [Alloc.msgQCreate, hblock, dataExtentFor, hextent] at hmade
  cases hmade
  refine ⟨rfl, ?_, hmsg, ?_, ⟨0, Nat.succ_pos _, ?_⟩, 0, Nat.succ_pos _, ?_⟩
  · show a + _ = _
    rw [hlast, slot, hsize, Int.toNat_of_nonneg hmax.1]
    ring
  · show headerLen + msgLenOf msglen = _
    rw [hmsg]
  · simp [slot]
  · simp [slot]

/-- On a queue that has been made, however it has been used, an operation keeps to its element
if and only if it is not a fetch, or there is at least one byte for a message. -/
theorem made_confined_iff (hmax : Natural maxMsgs) (hlen : Natural msglen)
    (hblock : tsMalloc heap controlBlockSize = (some queue, heap₁))
    (hextent : tsMalloc heap₁ (allocSize (vmsgLenOf msglen) maxMsgs) = (some a, heap₂))
    (hmade : Alloc.msgQCreate tsMalloc tsFree θ heap mem maxMsgs msglen opt = (.ok (queue, q₀), heap₂))
    (hr : ReflTransGen RingStep q₀ q) (hacc : op.Accepted q) :
    Confined q a (allocSize (vmsgLenOf msglen) maxMsgs) maxMsgs.toNat msglen.toNat op ↔
      (op.fetches = true → 0 < msglen) := by
  have hq : AtElements q a maxMsgs.toNat msglen.toNat :=
    (made_atElements hmax hlen hblock hextent hmade).reachable hr
  have hroom : ((headerLen + msglen.toNat : ℕ) : ℤ) * (maxMsgs.toNat + 1) ≤ allocSize (vmsgLenOf msglen) maxMsgs := by
    refine Eq.trans_le ?_ (extentSize_le_allocSize hmax hlen)
    have h0 := hlen.1
    rw [extentSize, Int.toNat_of_nonneg hmax.1, Nat.cast_add, Int.toNat_of_nonneg h0]
    ring
  rw [hq.confined_iff hacc hroom]
  have hpos : 0 < msglen.toNat ↔ 0 < msglen := by omega
  rw [hpos]

end

end

open V2lin.Queue.Alloc in
/-- A message of three bytes is sent to a queue for messages of 50, and fetched. -/
theorem short_message_confined : ∃ q₀ q : V2ptMqueue (Fin 1),
    Alloc.msgQCreate bump (fun heap _ => heap) (Fin 1) 4096 (fun _ => 0) 10 50 0 = (.ok (4096, q₀), 4456 + 638) ∧
      ReflTransGen RingStep q₀ q ∧ Confined q 4456 638 10 50 (.fetch true) := by
  have hblock : bump 4096 controlBlockSize = (some 4096, 4456) := rfl
  have hextent : bump 4456 (allocSize (vmsgLenOf 50) 10) = (some 4456, 4456 + 638) := by decide
  obtain ⟨q₀, hmade, _, _, _, _, _, _, hcount⟩ := msgQCreate_ok (fun heap _ => heap) (Fin 1) hblock hextent (fun _ => 0) 0
  have hsent : (RingOp.send (.bytes [1, 2, 3])).Accepted q₀ := by
    rw [RingOp.Accepted, (made_atElements (by decide) (by decide) hblock hextent hmade).msgLen]
    decide
  have hr : ReflTransGen RingStep q₀ ((RingOp.send (.bytes [1, 2, 3])).run q₀) := .single (.does _ hsent)
  have hfetch : (RingOp.fetch true).Accepted ((RingOp.send (.bytes [1, 2, 3])).run q₀) := by
    show 0 < q₀.msgCount + 1
    omega
  exact ⟨q₀, _, hmade, hr, (made_confined_iff (by decide) (by decide) hblock hextent hmade hr hfetch).mpr (by decide)⟩

open V2lin.Queue.Alloc in
/-- The extent of a queue for no messages of no bytes is its header. An urgent message goes
in, and its fetch clears the byte behind the extent. -/
theorem empty_message_escapes : ∃ q₀ q : V2ptMqueue (Fin 1),
    Alloc.msgQCreate bump (fun heap _ => heap) (Fin 1) 4096 (fun _ => 0) 0 0 0 = (.ok (4096, q₀), 4456 + 8) ∧
      ReflTransGen RingStep q₀ q ∧ (RingOp.fetch true).Accepted q ∧ ⟨4456 + 8, 0⟩ ∈ (RingOp.fetch true).stores q ∧
      ¬ Confined q 4456 8 0 0 (.fetch true) := by
  have hblock : bump 4096 controlBlockSize = (some 4096, 4456) := rfl
  have hextent : bump 4456 (allocSize (vmsgLenOf 0) 0) = (some 4456, 4456 + 8) := by decide
  obtain ⟨q₀, hmade, _, hhead, _, hfirst, hlast, hslot, hcount⟩ :=
    msgQCreate_ok (fun heap _ => heap) (Fin 1) hblock hextent (fun _ => 0) 0
  have hsent : (RingOp.urgent (.bytes [])).Accepted q₀ := Nat.zero_le _
  have hfetch : (RingOp.fetch true).Accepted ((RingOp.urgent (.bytes [])).run q₀) := by
    show 0 < q₀.msgCount + 1
    omega
  have hat : ((RingOp.urgent (.bytes [])).run q₀).queueHead = 4456 := by
    simp only [RingOp.run, V2ptMqueue.urgentMsgTo, hhead, hfirst, hlast, hslot]
    decide
  refine ⟨q₀, _, hmade, .single (.does _ hsent), hfetch, ?_, fun h => ?_⟩
  · rw [RingOp.stores, hat]
    exact List.mem_append_left _ (List.mem_singleton_self _)
  · exact absurd ((fetch_inside_iff _ 0 true).mp h.inElement) (Nat.lt_irrefl 0)

/-! ### The library's threads -/

section
variable {θ ι : Type} [DecidableEq θ] [DecidableEq ι]
variable {prio : θ → ℤ} {t : θ} {p p' : Pc ι} {id : ι} {s s' : QueueState θ ι} {m m' : Mem θ ι}
variable {tr : List (QueueTransition θ ι)} {n l : ℕ}

omit [DecidableEq θ] in
theorem post_step {q : V2ptMqueue θ} {msg : Msg} (hmsg : msg.msglen ≤ q.msgLen) (pri : ℤ) :
    RingStep q (q.post msg pri) := by
  unfold V2ptMqueue.post
  split
  · exact .does (.urgent msg) hmsg
  · exact .does (.send msg) hmsg

/-- A block does to a queue what the ring does in some steps. -/
theorem Runs.ringSteps (h : Runs some prio t p m m' p') (hb : m.block id ≠ .fresh)
    (hargs : ∀ a, waitArgs p = some (a, id) → a.msg.msglen ≤ (m.queue id).msgLen) :
    ReflTransGen RingStep (m.queue id) (m'.queue id) := by
  have hset : ∀ {j : ι} {q : V2ptMqueue θ}, (j = id → ReflTransGen RingStep (m.queue j) q) →
      ReflTransGen RingStep (m.queue id) ((m.setQueue j q).queue id) := by
    intro j q hq
    by_cases hj : j = id
    · subst hj
      rw [Mem.setQueue_self]
      exact hq rfl
    · rw [Mem.setQueue_of_ne m q (Ne.symm hj)]
  cases h with
  | created j _ _ _ _ hf => exact hset fun hj => absurd (hj ▸ hf) hb
  | sentTail hlen => exact hset fun _ => .single (.does (.send _) hlen)
  | sentFront hlen => exact hset fun _ => .single (.does (.urgent _) hlen)
  | @sentLate m q a j retcode _ _ hq =>
    refine hset fun hj => ?_
    subst hj
    have hrelist : RingStep (m.queue j) q := by
      rw [hq]
      exact .relisted _ _ _
    have hlen : a.msg.msglen ≤ q.msgLen := by
      rw [hq]
      exact hargs a rfl
    exact .tail (.single hrelist) (post_step hlen a.pri)
  | @fetched p m q a j retcode _ _ hcount _ hq =>
    refine hset fun _ => ?_
    have hrelist : RingStep (m.queue j) q := by
      rw [hq]
      exact .relisted _ _ _
    have hsome : (RingOp.fetch a.hasBuf).Accepted q := by
      rw [hq]
      exact hcount
    exact .tail (.single hrelist) (.does _ hsome)
  | sendPended => exact hset fun _ => .single (.relisted _ _ _)
  | sendDeleted _ hq => exact hset fun _ => hq ▸ .single (.relisted _ _ _)
  | sendTimedOut => exact hset fun _ => .single (.relisted _ _ _)
  | pended => exact hset fun _ => .single (.relisted _ _ _)
  | receiveDeleted _ _ hq => exact hset fun _ => hq ▸ .single (.relisted _ _ _)
  | receiveTimedOut => exact hset fun _ => .single (.relisted _ _ _)
  | deleteMarked => exact hset fun _ => .single (.relisted _ _ _)
  | _ => exact .refl

/-- A queue's head and tail are at its elements, and no message too long waits for space. -/
structure Placed (id : ι) (n l : ℕ) (s : QueueState θ ι) : Prop where
  made : s.mem.block id ≠ .fresh
  place : AtElements (s.mem.queue id) 0 n l
  args : ∀ t a, waitArgs (s.ctl t).point = some (a, id) → a.msg.msglen ≤ l

omit [DecidableEq θ] [DecidableEq ι] in
theorem msgQCreate_atElements (θ : Type) (opt : ℕ) (hl : l < 2 ^ 32) : AtElements (msgQCreate θ n l opt) 0 n l := by
  have hlen : ((l : ℤ) % 2 ^ 32).toNat = l := by omega
  refine ⟨rfl, ?_, hlen, ?_, ⟨0, Nat.succ_pos n, ?_⟩, 0, Nat.succ_pos n, ?_⟩
  · simp only [msgQCreate, slot, hlen, Int.zero_add]
  · simp only [msgQCreate, hlen]
  · simp [msgQCreate, slot]
  · simp [msgQCreate, slot]

theorem Placed.ringSteps (h : Placed id n l s) (hs : Step (code some prio) t s s') :
    ReflTransGen RingStep (s.mem.queue id) (s'.mem.queue id) := by
  obtain ⟨hm, _⟩ | ⟨p, p', hp, _, hr, _⟩ := step_cases hs
  · rw [hm]
  · refine hr.ringSteps h.made fun a ha => ?_
    rw [h.place.msgLen]
    exact h.args t a (by rwa [hp])

theorem Placed.step (h : Placed id n l s) (hs : Step (code some prio) t s s') : Placed id n l s' :=
  ⟨block_step hs h.made, h.place.reachable (h.ringSteps hs), args_step h.args h.place.msgLen hs⟩

theorem placed (h : Run (code some prio) Initial tr s) {order : ℕ} (hmade : ∃ x ∈ tr, Creates id n l order x) :
    Placed id n l s := by
  induction h with
  | start _ =>
    obtain ⟨x, hx, _⟩ := hmade
    cases hx
  | @step tr s t s' hr hs ih =>
    obtain ⟨x, hx, hmade⟩ := hmade
    obtain rfl | hx := List.mem_cons.mp hx
    · have hl := linked hr
      obtain ⟨opt, hsmall, hq, hp'⟩ := created_step hl hs hmade
      obtain ⟨hf, hlive, _⟩ := hmade
      exact ⟨fun hb => Block.noConfusion (hlive.symm.trans hb), hq ▸ msgQCreate_atElements θ opt hsmall,
        args_created hl hs hf hp'⟩
    · exact (ih ⟨x, hx, hmade⟩).step hs

omit [DecidableEq θ] [DecidableEq ι] in
/-- What the ring does keeps to the extent, if there is at least one byte for a message. -/
theorem AtElements.extent_outside {q q' : V2ptMqueue θ} {a x : ℤ} (h : AtElements q a n l) (hl : 0 < l)
    (hr : ReflTransGen RingStep q q') (hx : x < a ∨ a + (headerLen + l : ℕ) * (n + 1) ≤ x) : q'.extent x = q.extent x := by
  induction hr with
  | refl => rfl
  | @tail q₁ q₂ hr hs ih =>
    rw [← ih]
    cases hs with
    | does op hacc =>
      have hin := (((h.reachable hr).confined_iff hacc (Int.le_refl _)).mpr fun _ => hl).inExtent
      rw [RingOp.run_extent]
      exact Bytes.stores_outside hin hx
    | relisted => rfl

/-- No thread ever writes outside the extent of a queue for messages of at least one byte. -/
theorem step_extent_outside (h : Run (code some prio) Initial tr s) {order : ℕ} (hmade : ∃ x ∈ tr, Creates id n l order x)
    (hl : 0 < l) (hs : Step (code some prio) t s s') {x : ℤ} (hx : x < 0 ∨ ((headerLen + l : ℕ) : ℤ) * (n + 1) ≤ x) :
    (s'.mem.queue id).extent x = (s.mem.queue id).extent x := by
  have hplaced := placed h hmade
  exact hplaced.place.extent_outside hl (hplaced.ringSteps hs) (by rwa [Int.zero_add])

end

end V2lin.Queue
