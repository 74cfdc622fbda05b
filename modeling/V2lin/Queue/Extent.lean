import V2lin.Queue.Control
import V2lin.Ring.Slots

/-! The extent of a queue as a ring of messages.

A queue for `n` messages of up to `l` bytes has `n + 1` elements of `8 + l` bytes.
`Holds` says that its elements from the head on are the messages of a list; sending and
fetching keep it. -/
namespace V2lin.Queue
open V2lin.Ring

/-- The message in element `i` of an extent of elements for `l` bytes. -/
def element (extent : Bytes) (l i : ℕ) : List UInt8 := loadMsg extent ((headerLen + l : ℕ) * i)

/-- The messages of the queue `q`, made for `n` messages of up to `l` bytes. -/
structure Holds {θ : Type} (q : V2ptMqueue θ) (n l : ℕ) (msgs : List (List UInt8)) : Prop where
  first : q.firstMsgInQueue = 0
  last : q.lastMsgInQueue = (headerLen + l : ℕ) * n
  capacity : q.msgsPerQueue = n
  msgLen : q.msgLen = l
  vmsgLen : q.vmsgLen = headerLen + l
  count : q.msgCount = msgs.length
  room : msgs.length ≤ n + 1
  short : ∀ m ∈ msgs, m.length ≤ l
  /-- The head is at some element, and the tail as many elements behind it. -/
  elements : ∃ head < n + 1, q.queueHead = (headerLen + l : ℕ) * head ∧
    q.queueTail = (headerLen + l : ℕ) * place (n + 1) head msgs.length ∧
    contents (element q.extent l) (n + 1) head msgs.length = msgs

/-- The bytes of a stored message: the sender's, or from a null pointer any as many. -/
def Carries : Msg → List UInt8 → Prop
  | .bytes l, m => m = l
  | .null msglen, m => m.length = msglen

theorem Carries.length {msg : Msg} {m : List UInt8} (h : Carries msg m) : m.length = msg.msglen := by
  cases msg with
  | bytes l => rw [show m = l from h]; rfl
  | null msglen => exact h

variable {mem mem' : Bytes} {a b : ℤ} {l n : ℕ} {msg : Msg}

theorem loadMsg_length : (loadMsg mem a).length = mem.readWord a := by
  simp [loadMsg]

/-- A message depends on its length word and on its own bytes. -/
theorem loadMsg_congr (hword : mem'.readWord a = mem.readWord a)
    (hbytes : ∀ x, a + headerLen ≤ x → x < a + headerLen + mem.readWord a → mem' x = mem x) :
    loadMsg mem' a = loadMsg mem a := by
  unfold loadMsg
  rw [hword]
  exact Bytes.read_congr hbytes

/-- The stores of `storeMsg`, in the order of the code. -/
def msgStores (a : ℤ) : Msg → List Store
  | .bytes l => copies (a + headerLen) l ++ copies a (wordBytes l.length)
  | .null msglen => copies a (wordBytes msglen)

theorem storeMsg_stores : storeMsg mem a msg = mem.stores (msgStores a msg) := by
  cases msg with
  | bytes m => rw [msgStores, Bytes.stores_append, Bytes.stores_copies, Bytes.stores_copies]; rfl
  | null msglen => rw [msgStores, Bytes.stores_copies]; rfl

/-- The length word lies in the header. -/
theorem inside_word (n : ℕ) : Inside a (headerLen + l : ℕ) (copies a (wordBytes n)) := by
  refine inside_copies.mono (Int.le_refl a) ?_
  simp only [wordBytes, List.length_cons, List.length_nil, headerLen]
  omega

/-- A message that is not too long is stored in its element. -/
theorem inside_msgStores (hmsg : msg.msglen ≤ l) : Inside a (headerLen + l : ℕ) (msgStores a msg) := by
  cases msg with
  | bytes m =>
    have hbytes : Inside a (headerLen + l : ℕ) (copies (a + headerLen) m) := by
      refine inside_copies.mono (by omega) ?_
      simp only [Msg.msglen] at hmsg
      omega
    exact hbytes.append (inside_word m.length)
  | null msglen => exact inside_word msglen

/-- Writing an element changes bytes of that element only. -/
theorem storeMsg_outside (hmsg : msg.msglen ≤ l) {x : ℤ} (hx : x < a ∨ a + (headerLen + l : ℕ) ≤ x) :
    storeMsg mem a msg x = mem x := by
  rw [storeMsg_stores]
  exact Bytes.stores_outside (inside_msgStores hmsg) hx

/-- What is stored can be read back. -/
theorem loadMsg_storeMsg (hmsg : msg.msglen < 2 ^ 32) : Carries msg (loadMsg (storeMsg mem a msg) a) := by
  cases msg with
  | bytes m =>
    have hword : (storeMsg mem a (.bytes m)).readWord a = m.length := Bytes.readWord_writeWord hmsg
    have hbytes : (storeMsg mem a (.bytes m)).read (a + headerLen) m.length =
        (mem.write (a + headerLen) m).read (a + headerLen) m.length := by
      refine Bytes.read_congr fun x hx _ => Bytes.write_outside (.inr ?_)
      simp only [wordBytes, List.length_cons, List.length_nil, headerLen] at hx ⊢
      omega
    show loadMsg _ a = m
    rw [loadMsg, hword, hbytes, Bytes.read_write]
  | null msglen =>
    show (loadMsg _ a).length = msglen
    rw [loadMsg_length]
    exact Bytes.readWord_writeWord hmsg

/-- Different elements do not overlap. -/
theorem element_apart {i j : ℕ} (h : i ≠ j) :
    ((headerLen + l : ℕ) : ℤ) * j + (headerLen + l : ℕ) ≤ (headerLen + l : ℕ) * i ∨
      ((headerLen + l : ℕ) : ℤ) * i + (headerLen + l : ℕ) ≤ (headerLen + l : ℕ) * j := by
  have hapart := @slot_apart 0 (headerLen + l : ℕ) j i (Int.natCast_nonneg _) h.symm
  simpa only [slot, Int.zero_add] using hapart

/-- Storing a message leaves the other elements alone. -/
theorem element_storeMsg_other {i j : ℕ} (hmsg : msg.msglen ≤ l) (h : i ≠ j)
    (hshort : (element mem l i).length ≤ l) :
    element (storeMsg mem ((headerLen + l : ℕ) * j) msg) l i = element mem l i := by
  rw [element, loadMsg_length] at hshort
  have hapart := element_apart (l := l) h
  have hsame : ∀ x : ℤ, (headerLen + l : ℕ) * i ≤ x → x < (headerLen + l : ℕ) * i + (headerLen + l : ℕ) →
      storeMsg mem ((headerLen + l : ℕ) * j) msg x = mem x :=
    fun x hx hx' => storeMsg_outside hmsg (by omega)
  refine loadMsg_congr (Bytes.readWord_congr fun x hx hx' => hsame x hx ?_) fun x hx hx' => hsame x ?_ ?_
  all_goals
    simp only [headerLen] at *
    omega

/-! ### The pointers -/

theorem slotSize_pos (l : ℕ) : (0 : ℤ) < (headerLen + l : ℕ) := by
  simp only [headerLen]
  omega

theorem pointer_next {i : ℕ} (hi : i < n + 1) :
    (if ((headerLen + l : ℕ) : ℤ) * i + (headerLen + l : ℕ) > (headerLen + l : ℕ) * n then 0
      else ((headerLen + l : ℕ) : ℤ) * i + (headerLen + l : ℕ)) = (headerLen + l : ℕ) * next (n + 1) i := by
  have hnext := @slot_next 0 (headerLen + l : ℕ) n i (slotSize_pos l) hi
  simpa only [slot, Int.zero_add] using hnext

theorem pointer_prev {i : ℕ} (hi : i < n + 1) :
    (if ((headerLen + l : ℕ) : ℤ) * i - (headerLen + l : ℕ) < 0 then ((headerLen + l : ℕ) : ℤ) * n
      else (headerLen + l : ℕ) * i - (headerLen + l : ℕ)) = (headerLen + l : ℕ) * prev (n + 1) i := by
  have hprev := @slot_prev 0 (headerLen + l : ℕ) n i (slotSize_pos l) hi
  simpa only [slot, Int.zero_add] using hprev

/-! ### Operations -/

section
variable {θ : Type} {q : V2ptMqueue θ} {msgs : List (List UInt8)}

theorem msgQCreate_holds (θ : Type) {n l : ℕ} (opt : ℕ) (hl : l < 2 ^ 32) : Holds (msgQCreate θ n l opt) n l [] := by
  have hlen : ((l : ℤ) % 2 ^ 32).toNat = l := by omega
  refine ⟨rfl, ?_, rfl, hlen, ?_, rfl, by simp, by simp, 0, by omega, ?_, ?_, rfl⟩
  · simp only [msgQCreate, hlen]
  · simp only [msgQCreate, hlen]
  · simp [msgQCreate]
  · simp [msgQCreate, place]

/-- The lists of pended tasks and the kind of the last send are no part of the ring. -/
theorem Holds.relist (h : Holds q n l msgs) (receivers senders : List θ) (sendType : SendType) :
    Holds {q with firstSusp := receivers, firstWriteSusp := senders, sendType := sendType} n l msgs :=
  ⟨h.first, h.last, h.capacity, h.msgLen, h.vmsgLen, h.count, h.room, h.short, h.elements⟩

/-- A message that is read is one of the messages. -/
theorem Holds.element_short {head k : ℕ} (h : Holds q n l msgs)
    (hc : contents (element q.extent l) (n + 1) head msgs.length = msgs)
    (hk : k < msgs.length) : (element q.extent l (place (n + 1) head k)).length ≤ l := by
  refine h.short _ ?_
  rw [← hc]
  exact List.mem_map.mpr ⟨k, List.mem_range.mpr hk, rfl⟩

/-- `send_msg_to` appends to a queue that is not full. -/
theorem Holds.sendMsgTo (h : Holds q n l msgs) (hroom : msgs.length ≤ n) (hmsg : msg.msglen ≤ l) (hl : l < 2 ^ 32) :
    ∃ m, Carries msg m ∧ Holds (q.sendMsgTo msg) n l (msgs ++ [m]) := by
  obtain ⟨head, hhead, hqhead, hqtail, hc⟩ := h.elements
  have hcarry : Carries msg (loadMsg (storeMsg q.extent q.queueTail msg) q.queueTail) :=
    loadMsg_storeMsg (show msg.msglen < 2 ^ 32 by omega)
  refine ⟨_, hcarry, ?_⟩
  have htail : place (n + 1) head msgs.length < n + 1 := place_lt hhead
  refine ⟨h.first, h.last, h.capacity, h.msgLen, h.vmsgLen, ?_, ?_, ?_, head, hhead, hqhead, ?_, ?_⟩
  · simp [V2ptMqueue.sendMsgTo, h.count]
  · simpa using hroom
  · intro m hm
    obtain hm | hm := List.mem_append.mp hm
    · exact h.short m hm
    · rw [List.mem_singleton.mp hm, hcarry.length]
      exact hmsg
  · simp only [V2ptMqueue.sendMsgTo, h.first, h.last, h.vmsgLen, hqtail]
    rw [pointer_next htail, next_place hhead, List.length_append]
    rfl
  · have hsame : ∀ k < msgs.length, element (q.sendMsgTo msg).extent l (place (n + 1) head k) =
        element q.extent l (place (n + 1) head k) := by
      intro k hk
      rw [V2ptMqueue.sendMsgTo, hqtail]
      exact element_storeMsg_other hmsg (place_ne hk (by omega)) (h.element_short hc hk)
    rw [List.length_append, List.length_singleton, contents_push_back hsame, hc, element, ← hqtail]
    rfl

/-- `urgent_msg_to` prepends to a queue that is not full. -/
theorem Holds.urgentMsgTo (h : Holds q n l msgs) (hroom : msgs.length ≤ n) (hmsg : msg.msglen ≤ l)
    (hl : l < 2 ^ 32) : ∃ m, Carries msg m ∧ Holds (q.urgentMsgTo msg) n l (m :: msgs) := by
  obtain ⟨head, hhead, hqhead, hqtail, hc⟩ := h.elements
  have hnew : (q.urgentMsgTo msg).queueHead = (headerLen + l : ℕ) * prev (n + 1) head := by
    simp only [V2ptMqueue.urgentMsgTo, h.first, h.last, h.vmsgLen, hqhead]
    exact pointer_prev hhead
  have hcarry : Carries msg (loadMsg (storeMsg q.extent (q.urgentMsgTo msg).queueHead msg)
      (q.urgentMsgTo msg).queueHead) :=
    loadMsg_storeMsg (show msg.msglen < 2 ^ 32 by omega)
  refine ⟨_, hcarry, ?_⟩
  refine ⟨h.first, h.last, h.capacity, h.msgLen, h.vmsgLen, ?_, ?_, ?_, prev (n + 1) head, prev_lt hhead,
    hnew, ?_, ?_⟩
  · simp [V2ptMqueue.urgentMsgTo, h.count]
  · simpa using hroom
  · intro m hm
    obtain rfl | hm := List.mem_cons.mp hm
    · rw [hcarry.length]
      exact hmsg
    · exact h.short m hm
  · rw [List.length_cons, ← place_next (prev_lt hhead), next_prev hhead]
    exact hqtail
  · have hextent : (q.urgentMsgTo msg).extent = storeMsg q.extent (q.urgentMsgTo msg).queueHead msg := rfl
    have hsame : ∀ k < msgs.length,
        element (q.urgentMsgTo msg).extent l (place (n + 1) head k) =
          element q.extent l (place (n + 1) head k) := by
      intro k hk
      rw [hextent, hnew]
      exact element_storeMsg_other hmsg (place_ne_prev hhead (by omega)) (h.element_short hc hk)
    rw [List.length_cons, contents_push_front hhead hsame, hc, element, ← hnew]
    rfl

/-- The bytes that `fetch_msg_from` clears hold nothing of the other elements. -/
theorem element_clear_other {i j : ℕ} (h : i ≠ j)
    (hshort : (element mem l i).length ≤ l) :
    element ((mem.write ((headerLen + l : ℕ) * j + headerLen) [0]).writeWord ((headerLen + l : ℕ) * j) 0) l i =
      element mem l i := by
  rw [element, loadMsg_length] at hshort
  have hapart := element_apart (l := l) h
  have hsame : ∀ x : ℤ, (headerLen + l : ℕ) * i ≤ x → x < (headerLen + l : ℕ) * i + (headerLen + l : ℕ) →
      (x < (headerLen + l : ℕ) * i + 4 ∨ (headerLen + l : ℕ) * i + headerLen ≤ x) →
      (mem.write ((headerLen + l : ℕ) * j + headerLen) [0]).writeWord ((headerLen + l : ℕ) * j) 0 x = mem x := by
    intro x hx hx' hin
    have hword : x < (headerLen + l : ℕ) * j ∨ (headerLen + l : ℕ) * j + (wordBytes 0).length ≤ x := by
      simp only [wordBytes, List.length_cons, List.length_nil, headerLen] at *
      omega
    rw [Bytes.writeWord, Bytes.write_outside hword]
    by_cases hl : l = 0 ∧ x = (headerLen + l : ℕ) * i
    · obtain ⟨rfl, rfl⟩ := hl
      have hzero : mem ((headerLen + 0 : ℕ) * i) = 0 := by
        unfold Bytes.readWord at hshort
        refine UInt8.toNat_inj.mp ?_
        rw [UInt8.toNat_zero]
        omega
      by_cases hat : ((headerLen + 0 : ℕ) : ℤ) * i = (headerLen + 0 : ℕ) * j + headerLen
      · rw [hat, Bytes.write_inside (by omega) (by simp), ← hat, hzero]
        simp
      · refine Bytes.write_outside ?_
        simp only [List.length_cons, List.length_nil]
        omega
    · refine Bytes.write_outside ?_
      simp only [List.length_cons, List.length_nil, headerLen] at *
      omega
  refine loadMsg_congr (Bytes.readWord_congr fun x hx hx' => hsame x hx ?_ (.inl hx')) fun x hx hx' =>
    hsame x ?_ ?_ (.inr hx)
  all_goals
    simp only [headerLen] at *
    omega

/-- `fetch_msg_from` takes the first message. -/
theorem Holds.fetchMsgFrom {m : List UInt8} (h : Holds q n l (m :: msgs)) (hasBuf : Bool) :
    (q.fetchMsgFrom hasBuf).1 = (if hasBuf then m else []) ∧ Holds (q.fetchMsgFrom hasBuf).2 n l msgs := by
  obtain ⟨head, hhead, hqhead, hqtail, hc⟩ := h.elements
  have hread := hc
  rw [List.length_cons, contents_succ_left hhead] at hread
  obtain ⟨hfirst, hrest⟩ := List.cons.inj hread
  have hroom := h.room
  rw [List.length_cons] at hroom
  refine ⟨?_, h.first, h.last, h.capacity, h.msgLen, h.vmsgLen, ?_, by omega,
    fun m hm => h.short m (List.mem_cons_of_mem _ hm), next (n + 1) head, next_lt hhead, ?_, ?_, ?_⟩
  · rw [element] at hfirst
    simp only [V2ptMqueue.fetchMsgFrom, hqhead, hfirst]
  · simp [V2ptMqueue.fetchMsgFrom, h.count]
  · simp only [V2ptMqueue.fetchMsgFrom, h.first, h.last, h.vmsgLen, hqhead]
    exact pointer_next hhead
  · rw [place_next hhead]
    exact hqtail
  · refine Eq.trans (contents_congr fun k hk => ?_) hrest
    simp only [V2ptMqueue.fetchMsgFrom, hqhead]
    rw [place_next hhead]
    refine element_clear_other ?_ (h.element_short hc (by rw [List.length_cons]; omega))
    have hne : place (n + 1) head 0 ≠ place (n + 1) head (k + 1) := place_ne (by omega) (by omega)
    rw [place_zero hhead] at hne
    exact hne.symm

end

end V2lin.Queue
