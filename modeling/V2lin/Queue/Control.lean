import V2lin.Status
import V2lin.Ring.Bytes
import V2lin.Task.SuspList
import V2lin.Threads.Machine

/-! The message queue control block and the code that runs on it under its lock.

Pointers into a queue's extent are byte offsets from its start. -/
namespace V2lin.Queue
open Threads V2lin.Task V2lin.Ring

def msgPriUrgent : Int := 0x01
def msgQPriority : Nat := 0x01

/-- `send_type`. -/
inductive SendType where
  | send
  | urgnt
  | killd
  deriving DecidableEq

/-- What a sender passes: the bytes at its pointer, or a null pointer and a length. -/
inductive Msg where
  | bytes (l : List UInt8)
  | null (msglen : ℕ)
  deriving DecidableEq

def Msg.msglen : Msg → ℕ
  | .bytes l => l.length
  | .null msglen => msglen

/-- `v2pt_mqueue_t`, less its mutexes and condition variables and its place on
`mqueue_list`, with the bytes of its extent. -/
structure V2ptMqueue (θ : Type) where
  queueHead : ℤ
  queueTail : ℤ
  sendType : SendType
  firstMsgInQueue : ℤ
  lastMsgInQueue : ℤ
  firstSusp : List θ
  firstWriteSusp : List θ
  msgCount : ℤ
  msgsPerQueue : ℤ
  msgLen : ℕ
  vmsgLen : ℕ
  order : ℕ
  extent : Bytes

/-- `sizeof(q_msg_t) - sizeof(char *)`: the offset of `msgbuf` in a `q_msg_t`. -/
def headerLen : ℕ := 8

/-- `msgQCreate` with its `data_extent_for`, up to its linking. -/
def msgQCreate (θ : Type) (maxMsgs msglen : ℤ) (opt : ℕ) : V2ptMqueue θ :=
  let msgLen := (msglen % 2 ^ 32).toNat
  let vmsgLen := headerLen + msgLen
  { queueHead := 0, queueTail := 0, sendType := .send
    firstMsgInQueue := 0, lastMsgInQueue := vmsgLen * maxMsgs
    firstSusp := [], firstWriteSusp := []
    msgCount := 0, msgsPerQueue := maxMsgs
    msgLen := msgLen, vmsgLen := vmsgLen
    order := if opt &&& msgQPriority ≠ 0 then 1 else 0
    extent := fun _ => 0 }

/-! ### The messages -/

/-- Store a message in the element at `a`. -/
def storeMsg (extent : Bytes) (a : ℤ) : Msg → Bytes
  | .bytes l => (extent.write (a + headerLen) l).writeWord a l.length
  | .null msglen => extent.writeWord a msglen

/-- The message in the element at `a`. -/
def loadMsg (extent : Bytes) (a : ℤ) : List UInt8 :=
  extent.read (a + headerLen) (extent.readWord a)

section
variable {θ : Type}

/-- `urgent_msg_to`. -/
def V2ptMqueue.urgentMsgTo (q : V2ptMqueue θ) (msg : Msg) : V2ptMqueue θ :=
  let element := q.queueHead - q.vmsgLen
  let head := if element < q.firstMsgInQueue then q.lastMsgInQueue else element
  {q with
    queueHead := head
    extent := storeMsg q.extent head msg
    msgCount := q.msgCount + 1
    sendType := .urgnt}

/-- `send_msg_to`, up to its broadcast. -/
def V2ptMqueue.sendMsgTo (q : V2ptMqueue θ) (msg : Msg) : V2ptMqueue θ :=
  let element := q.queueTail + q.vmsgLen
  {q with
    queueTail := if element > q.lastMsgInQueue then q.firstMsgInQueue else element
    extent := storeMsg q.extent q.queueTail msg
    msgCount := q.msgCount + 1
    sendType := .send}

/-- `fetch_msg_from`, up to its look at the waiting senders: the bytes it copies, none into
a null buffer, and the queue without the message. -/
def V2ptMqueue.fetchMsgFrom (q : V2ptMqueue θ) (hasBuf : Bool) : List UInt8 × V2ptMqueue θ :=
  let element := q.queueHead + q.vmsgLen
  (if hasBuf then loadMsg q.extent q.queueHead else [],
    {q with
      queueHead := if element > q.lastMsgInQueue then q.firstMsgInQueue else element
      extent := (q.extent.write (q.queueHead + headerLen) [0]).writeWord q.queueHead 0
      msgCount := q.msgCount - 1})

def V2ptMqueue.post (q : V2ptMqueue θ) (msg : Msg) (pri : ℤ) : V2ptMqueue θ :=
  if pri = msgPriUrgent then q.urgentMsgTo msg else q.sendMsgTo msg

/-! ### Sending -/

/-- What `msgQSend` does with a message of legal length. -/
inductive Admission where
  | tail
  | front
  | full
  deriving DecidableEq

def V2ptMqueue.admission (q : V2ptMqueue θ) (pri : ℤ) : Admission :=
  if q.msgCount > q.msgsPerQueue then .full
  else if q.msgCount = q.msgsPerQueue then
    if q.msgsPerQueue = 0 ∧ q.firstSusp ≠ [] then .tail
    else if pri = msgPriUrgent then .front
    else .full
  else if pri = msgPriUrgent then .front
  else .tail

/-- One turn of the loops of `waiting_on_q_space` and `waiting_on_q_msg`. -/
inductive Turn where
  | ours
  | notOurs
  | unavailable
  deriving DecidableEq

variable [DecidableEq θ]

/-- `waiting_on_q_space`: space in the queue, or a receiver for a queue without any. -/
def V2ptMqueue.spaceFor (q : V2ptMqueue θ) (prio : θ → ℤ) (me : Option θ) : Turn :=
  if q.msgCount ≤ q.msgsPerQueue - 1 ∨ q.msgsPerQueue = 0 ∧ q.firstSusp ≠ [] then
    if signalForMyTask q.firstWriteSusp q.order prio me then .ours else .notOurs
  else .unavailable

/-- `waiting_on_q_msg`. -/
def V2ptMqueue.msgFor (q : V2ptMqueue θ) (prio : θ → ℤ) (me : Option θ) : Turn :=
  if q.msgCount > 0 then
    if signalForMyTask q.firstSusp q.order prio me then .ours else .notOurs
  else .unavailable

/-- How `waitToSend` and `msgQReceive` end. -/
inductive End where
  /-- The queue has been deleted; `last`: nobody is left on its lists. -/
  | deleted (last : Bool)
  | failed (error : Status)
  | posted
  /-- `space`: there is space again for waiting senders. -/
  | received (msg : List UInt8) (space : Bool)
  deriving DecidableEq

def V2ptMqueue.drained (q : V2ptMqueue θ) : Bool := q.firstSusp = [] ∧ q.firstWriteSusp = []

/-- `waitToSend` from its second lock. -/
def V2ptMqueue.leaveSpace (q : V2ptMqueue θ) (me : Option θ) (msg : Msg) (pri : ℤ) (retcode : Retcode) :
    V2ptMqueue θ × End :=
  let q := {q with firstWriteSusp := unlinkSuspTask q.firstWriteSusp me}
  if q.sendType = .killd then (q, .deleted q.drained)
  else if retcode = .etimedout then (q, .failed .objTimeout)
  else (q.post msg pri, .posted)

/-- `msgQReceive` from the end of its wait loops. -/
def V2ptMqueue.leaveMsg (q : V2ptMqueue θ) (me : Option θ) (hasBuf : Bool) (maxWait : ℤ) (retcode : Retcode) :
    V2ptMqueue θ × End :=
  let q := {q with firstSusp := unlinkSuspTask q.firstSusp me}
  if q.sendType = .killd then (q, .deleted q.drained)
  else if retcode = .etimedout then (q, .failed (if maxWait = noWait then .objUnavailable else .objTimeout))
  else
    let (msg, q) := q.fetchMsgFrom hasBuf
    (q, .received msg (q.firstWriteSusp ≠ [] ∧ q.msgCount ≤ q.msgsPerQueue - 1))

end

end V2lin.Queue
