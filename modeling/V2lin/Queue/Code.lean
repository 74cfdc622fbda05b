import V2lin.Queue.Control
import V2lin.Task.SchedLock
import V2lin.Threads.Locks

/-! The message queue library as a program of the thread machine.

A point of the code (`Pc`) is a place in one of the operations with the locals that are
still read. Senders that wait test for space without `queue_lock`, and the code between
two locks of it is one block. Queues are named by the address of their control block
(`ι`), and `ts_malloc` never hands an address out twice. -/
namespace V2lin.Queue
open Threads V2lin.Task

inductive Lock (ι : Type) where
  | mqueueListLock
  | queueLock (id : ι)
  | qdletLock (id : ι)
  | qfullLock (id : ι)
  deriving DecidableEq

inductive Cond (ι : Type) where
  | queueSend (id : ι)
  | queueSpace (id : ι)
  | qdletCmplt (id : ι)
  deriving DecidableEq

/-- A control block's memory. -/
inductive Block where
  | fresh
  | live
  | freed
  deriving DecidableEq

/-- The arguments of `msgQSend`. -/
structure SendArgs where
  msg : Msg
  wait : ℤ
  pri : ℤ
  deriving DecidableEq

/-- The arguments of `msgQReceive`; `hasBuf`: `msgbuf` is not null. -/
structure ReceiveArgs where
  hasBuf : Bool
  buflen : ℕ
  maxWait : ℤ
  deriving DecidableEq

inductive Op where
  | send (a : SendArgs)
  | receive (a : ReceiveArgs)
  | numMsgs
  | delete
  deriving DecidableEq

/-- What an operation returns. -/
inductive Reply where
  | ok
  | failed (error : Status)
  | received (msg : List UInt8)
  | count (n : ℤ)
  deriving DecidableEq

inductive Pc (ι : Type) where
  | idle
  /-- Back from an operation with its reply. -/
  | returned (op : Op) (id : ι) (reply : Reply)
  -- `link_qcb`
  | linkLock (id : ι)
  | linkAppend (id : ι)
  | linkUnlock (id : ι)
  -- `mqueue_find_lock`
  | findLock (op : Op) (id : ι)
  | findScan (op : Op) (id : ι)
  | findQueue (op : Op) (id : ι)
  | findUnlock (op : Op) (id : ι) (found : Bool)
  -- `msgQSend`
  | sendStart (a : SendArgs) (id : ι)
  | sendNotify (a : SendArgs) (id : ι)
  -- `waitToSend`, `waiting_on_q_space`
  | waitUnlock (a : SendArgs) (id : ι)
  | waitTest (a : SendArgs) (id : ι) (retcode : Retcode)
  | waitSleep (a : SendArgs) (id : ι)
  | waitPoll (a : SendArgs) (id : ι) (retcode : Retcode)
  | waitPollLock (a : SendArgs) (id : ι) (retcode : Retcode)
  | waitAgain (a : SendArgs) (id : ι) (retcode : Retcode)
  | waitRelock (a : SendArgs) (id : ι) (retcode : Retcode)
  | waitEnd (a : SendArgs) (id : ι) (retcode : Retcode)
  -- `msgQReceive`, `waiting_on_q_msg`
  | receiveStart (a : ReceiveArgs) (id : ι)
  | readyLock (a : ReceiveArgs) (id : ι)
  | readyNotify (a : ReceiveArgs) (id : ι)
  | readyUnlock (a : ReceiveArgs) (id : ι)
  | receiveTest (a : ReceiveArgs) (id : ι) (retcode : Retcode)
  | receiveSleep (a : ReceiveArgs) (id : ι)
  | receivePoll (a : ReceiveArgs) (id : ι) (retcode : Retcode)
  | receivePollLock (a : ReceiveArgs) (id : ι) (retcode : Retcode)
  | receiveAgain (a : ReceiveArgs) (id : ι) (retcode : Retcode)
  | spaceLock (a : ReceiveArgs) (id : ι) (msg : List UInt8)
  | spaceNotify (a : ReceiveArgs) (id : ι) (msg : List UInt8)
  | spaceUnlock (a : ReceiveArgs) (id : ι) (msg : List UInt8)
  -- `notify_if_delete_complete`
  | lastLock (op : Op) (id : ι)
  | lastNotify (op : Op) (id : ι)
  | lastUnlock (op : Op) (id : ι)
  -- `msgQNumMsgs`
  | numStart (id : ι)
  /-- About to release `queue_lock` and return. -/
  | leave (op : Op) (id : ι) (reply : Reply)
  -- `msgQDelete`
  | deleteMark (id : ι)
  | deleteTaskLock (id : ι)
  | deleteTest (id : ι)
  | deleteQueueUnlock (id : ι)
  | deleteQdletLock (id : ι)
  | deleteNotify (id : ι)
  | deleteQueueRelease (id : ι)
  | deleteQfullLock (id : ι)
  | deleteSpaceNotify (id : ι)
  | deleteQfullUnlock (id : ι)
  | deleteDrain (id : ι)
  | deleteWait (id : ι)
  | deleteQdletUnlock (id : ι)
  | deleteListLock (id : ι)
  | deleteUnlink (id : ι)
  | deleteListUnlock (id : ι)
  | deleteFree (id : ι)
  | deleteTaskUnlock (id : ι)
  deriving DecidableEq

/-- What the outside decides: the next call of an idle thread, with the address
`ts_malloc` returns if it is a creation, and what `time_expired` answers. -/
inductive Choice (ι : Type) where
  | none
  | create (id : ι) (maxMsgs msglen : ℤ) (opt : ℕ)
  | call (op : Op) (id : ι)
  | expired (answer : Bool)
  deriving DecidableEq

structure Mem (θ ι : Type) where
  mqueueList : List ι
  queue : ι → V2ptMqueue θ
  block : ι → Block
  sched : SchedLock θ

section
variable {θ ι : Type} [DecidableEq θ] [DecidableEq ι]

def Mem.setQueue (m : Mem θ ι) (id : ι) (q : V2ptMqueue θ) : Mem θ ι :=
  {m with queue := Function.update m.queue id q}

/-- The code that follows an operation's successful `mqueue_find_lock`. -/
def entry (op : Op) (id : ι) : Pc ι :=
  match op with
  | .send a => .sendStart a id
  | .receive a => .receiveStart a id
  | .numMsgs => .numStart id
  | .delete => .deleteMark id

/-- What an operation returns for a queue that `mqueue_find_lock` does not find. -/
def notFound (op : Op) : Reply :=
  match op with
  | .numMsgs => .count (-1)
  | _ => .failed .objIdError

/-- A thread outside the library makes its next call. -/
def callBlock (choice : Choice ι) (m : Mem θ ι) : Option (Mem θ ι × Pc ι) :=
  match choice with
  | .call op id => some (m, .findLock op id)
  | .create id maxMsgs msglen opt =>
    if m.block id = .fresh then
      some ({m.setQueue id (msgQCreate θ maxMsgs msglen opt) with block := Function.update m.block id .live},
        .linkLock id)
    else none
  | _ => none

/-- Where a call goes from the end of its wait. -/
def ending (op : Op) (id : ι) : End → Pc ι
  | .deleted last => if last then .lastLock op id else .leave op id (.failed .objDeleted)
  | .failed error => .leave op id (.failed error)
  | .posted => match op with
    | .send a => .sendNotify a id
    | _ => .leave op id .ok
  | .received msg space => match op with
    | .receive a => if space then .spaceLock a id msg else .leave op id (.received msg)
    | _ => .leave op id (.received msg)

/-- `msgQSend` from its lock, to the end or to the unlock of `waitToSend`. -/
def sendBlock (me : Option θ) (a : SendArgs) (id : ι) (m : Mem θ ι) : Mem θ ι × Pc ι :=
  let q := m.queue id
  if a.msg.msglen > q.msgLen then (m, .leave (.send a) id (.failed .invalidMsgLength))
  else match q.admission a.pri with
    | .tail => (m.setQueue id (q.sendMsgTo a.msg), .sendNotify a id)
    | .front => (m.setQueue id (q.urgentMsgTo a.msg), .sendNotify a id)
    | .full =>
      if a.wait ≠ noWait then
        (m.setQueue id {q with firstWriteSusp := linkSuspTask q.firstWriteSusp me}, .waitUnlock a id)
      else (m, .leave (.send a) id (.failed .objUnavailable))

/-- `waiting_on_q_space` has found nothing for us: go on after a timeout, else wait. -/
def noSpacePoint (a : SendArgs) (id : ι) (retcode : Retcode) : Pc ι :=
  if retcode = .etimedout then .waitRelock a id .etimedout else .waitSleep a id

/-- The loop of `waiting_on_q_space` from its test. -/
def spacePoint (prio : θ → ℤ) (me : Option θ) (a : SendArgs) (id : ι) (retcode : Retcode) (m : Mem θ ι) : Pc ι :=
  match (m.queue id).spaceFor prio me with
  | .ours => .waitRelock a id .ok
  | .notOurs => .waitPoll a id retcode
  | .unavailable => noSpacePoint a id retcode

/-- `waiting_on_q_space` from its start. -/
def spaceTestPoint (prio : θ → ℤ) (me : Option θ) (a : SendArgs) (id : ι) (retcode : Retcode) (m : Mem θ ι) : Pc ι :=
  if (m.queue id).sendType = .killd then .waitRelock a id .ok else spacePoint prio me a id retcode m

/-- `waiting_on_q_space` after its `taskDelay(1)`. -/
def spaceAgainBlock (prio : θ → ℤ) (me : Option θ) (a : SendArgs) (id : ι) (retcode : Retcode)
    (choice : Choice ι) (m : Mem θ ι) : Option (Mem θ ι × Pc ι) :=
  match choice with
  | .expired answer =>
    some (m, if a.wait ≠ waitForever ∧ answer = true then noSpacePoint a id retcode
      else spacePoint prio me a id retcode m)
  | _ => none

/-- `waitToSend` from its second lock. -/
def waitEndBlock (me : Option θ) (a : SendArgs) (id : ι) (retcode : Retcode) (m : Mem θ ι) : Mem θ ι × Pc ι :=
  let (q, result) := (m.queue id).leaveSpace me a.msg a.pri retcode
  (m.setQueue id q, ending (.send a) id result)

/-- `msgQReceive` from its lock to its wait loops. -/
def receiveBlock (me : Option θ) (a : ReceiveArgs) (id : ι) (m : Mem θ ι) : Mem θ ι × Pc ι :=
  let q := m.queue id
  if a.buflen < q.msgLen then (m, .leave (.receive a) id (.failed .invalidMsgLength))
  else
    (m.setQueue id {q with firstSusp := linkSuspTask q.firstSusp me},
      if q.msgsPerQueue = 0 ∧ q.firstWriteSusp ≠ [] then .readyLock a id else .receiveTest a id .ok)

/-- From the end of the wait loops of `msgQReceive`. -/
def receiveEndBlock (me : Option θ) (a : ReceiveArgs) (id : ι) (retcode : Retcode) (m : Mem θ ι) :
    Mem θ ι × Pc ι :=
  let (q, result) := (m.queue id).leaveMsg me a.hasBuf a.maxWait retcode
  (m.setQueue id q, ending (.receive a) id result)

/-- `waiting_on_q_msg` has found nothing for us: leave after a timeout, else wait. -/
def noMsgBlock (me : Option θ) (a : ReceiveArgs) (id : ι) (retcode : Retcode) (m : Mem θ ι) : Mem θ ι × Pc ι :=
  if retcode = .etimedout then receiveEndBlock me a id .etimedout m else (m, .receiveSleep a id)

/-- The loop of `waiting_on_q_msg` from its test. -/
def msgBlock (prio : θ → ℤ) (me : Option θ) (a : ReceiveArgs) (id : ι) (retcode : Retcode) (m : Mem θ ι) :
    Mem θ ι × Pc ι :=
  match (m.queue id).msgFor prio me with
  | .ours => receiveEndBlock me a id .ok m
  | .notOurs => (m, .receivePoll a id retcode)
  | .unavailable => noMsgBlock me a id retcode m

/-- `waiting_on_q_msg` from its start. -/
def receiveTestBlock (prio : θ → ℤ) (me : Option θ) (a : ReceiveArgs) (id : ι) (retcode : Retcode)
    (m : Mem θ ι) : Mem θ ι × Pc ι :=
  if (m.queue id).sendType = .killd then receiveEndBlock me a id .ok m else msgBlock prio me a id retcode m

/-- `waiting_on_q_msg` after its `taskDelay(1)`. -/
def receiveAgainBlock (prio : θ → ℤ) (me : Option θ) (a : ReceiveArgs) (id : ι) (retcode : Retcode)
    (choice : Choice ι) (m : Mem θ ι) : Option (Mem θ ι × Pc ι) :=
  match choice with
  | .expired answer =>
    some (if a.maxWait ≠ waitForever ∧ answer = true then noMsgBlock me a id retcode m
      else msgBlock prio me a id retcode m)
  | _ => none

/-- The library, for threads whose `my_task` is given. -/
def code (myTask : θ → Option θ) (prio : θ → ℤ) (t : θ) :
    Pc ι → Instr (Mem θ ι) (Lock ι) (Cond ι) (Pc ι) (Choice ι)
  | .idle => .run callBlock
  | .returned _ _ _ => .run callBlock
  | .linkLock id => .lock .mqueueListLock (.linkAppend id)
  | .linkAppend id => .run fun _ m => some ({m with mqueueList := m.mqueueList ++ [id]}, .linkUnlock id)
  | .linkUnlock _ => .unlock .mqueueListLock .idle
  | .findLock op id => .lock .mqueueListLock (.findScan op id)
  | .findScan op id => .run fun _ m =>
      some (m, if id ∈ m.mqueueList then .findQueue op id else .findUnlock op id false)
  | .findQueue op id => .lock (.queueLock id) (.findUnlock op id true)
  | .findUnlock op id found =>
      .unlock .mqueueListLock (if found then entry op id else .returned op id (notFound op))
  | .sendStart a id => .run fun _ m => some (sendBlock (myTask t) a id m)
  | .sendNotify a id => .broadcast (.queueSend id) (.leave (.send a) id .ok)
  | .waitUnlock a id => .unlock (.queueLock id) (.waitTest a id .ok)
  | .waitTest a id retcode => .run fun _ m => some (m, spaceTestPoint prio (myTask t) a id retcode m)
  | .waitSleep a id =>
      .wait (.queueSpace id) (.qfullLock id) (decide (a.wait ≠ waitForever)) (.waitTest a id)
  | .waitPoll a id retcode => .unlock (.qfullLock id) (.waitPollLock a id retcode)
  | .waitPollLock a id retcode => .lock (.qfullLock id) (.waitAgain a id retcode)
  | .waitAgain a id retcode => .run (spaceAgainBlock prio (myTask t) a id retcode)
  | .waitRelock a id retcode => .lock (.queueLock id) (.waitEnd a id retcode)
  | .waitEnd a id retcode => .run fun _ m => some (waitEndBlock (myTask t) a id retcode m)
  | .receiveStart a id => .run fun _ m => some (receiveBlock (myTask t) a id m)
  | .readyLock a id => .lock (.qfullLock id) (.readyNotify a id)
  | .readyNotify a id => .broadcast (.queueSpace id) (.readyUnlock a id)
  | .readyUnlock a id => .unlock (.qfullLock id) (.receiveTest a id .ok)
  | .receiveTest a id retcode => .run fun _ m => some (receiveTestBlock prio (myTask t) a id retcode m)
  | .receiveSleep a id =>
      .wait (.queueSend id) (.queueLock id) (decide (a.maxWait ≠ waitForever)) (.receiveTest a id)
  | .receivePoll a id retcode => .unlock (.queueLock id) (.receivePollLock a id retcode)
  | .receivePollLock a id retcode => .lock (.queueLock id) (.receiveAgain a id retcode)
  | .receiveAgain a id retcode => .run (receiveAgainBlock prio (myTask t) a id retcode)
  | .spaceLock a id msg => .lock (.qfullLock id) (.spaceNotify a id msg)
  | .spaceNotify a id msg => .broadcast (.queueSpace id) (.spaceUnlock a id msg)
  | .spaceUnlock a id msg => .unlock (.qfullLock id) (.leave (.receive a) id (.received msg))
  | .lastLock op id => .lock (.qdletLock id) (.lastNotify op id)
  | .lastNotify op id => .broadcast (.qdletCmplt id) (.lastUnlock op id)
  | .lastUnlock op id => .unlock (.qdletLock id) (.leave op id (.failed .objDeleted))
  | .numStart id => .run fun _ m => some (m, .leave .numMsgs id (.count (m.queue id).msgCount))
  | .leave op id reply => .unlock (.queueLock id) (.returned op id reply)
  | .deleteMark id => .run fun _ m =>
      some (m.setQueue id {m.queue id with sendType := .killd}, .deleteTaskLock id)
  | .deleteTaskLock id => .run fun _ m =>
      (m.sched.taskLock t).map fun k => ({m with sched := k}, .deleteTest id)
  | .deleteTest id => .run fun _ m =>
      some (m, if (m.queue id).drained then .deleteQueueUnlock id else .deleteQdletLock id)
  | .deleteQueueUnlock id => .unlock (.queueLock id) (.deleteListLock id)
  | .deleteQdletLock id => .lock (.qdletLock id) (.deleteNotify id)
  | .deleteNotify id => .broadcast (.queueSend id) (.deleteQueueRelease id)
  | .deleteQueueRelease id => .unlock (.queueLock id) (.deleteQfullLock id)
  | .deleteQfullLock id => .lock (.qfullLock id) (.deleteSpaceNotify id)
  | .deleteSpaceNotify id => .broadcast (.queueSpace id) (.deleteQfullUnlock id)
  | .deleteQfullUnlock id => .unlock (.qfullLock id) (.deleteDrain id)
  | .deleteDrain id => .run fun _ m =>
      some (m, if (m.queue id).drained then .deleteQdletUnlock id else .deleteWait id)
  | .deleteWait id => .wait (.qdletCmplt id) (.qdletLock id) false (fun _ => .deleteDrain id)
  | .deleteQdletUnlock id => .unlock (.qdletLock id) (.deleteListLock id)
  | .deleteListLock id => .lock .mqueueListLock (.deleteUnlink id)
  | .deleteUnlink id => .run fun _ m =>
      some ({m with mqueueList := m.mqueueList.erase id}, .deleteListUnlock id)
  | .deleteListUnlock id => .unlock .mqueueListLock (.deleteFree id)
  | .deleteFree id => .run fun _ m =>
      some ({m with block := Function.update m.block id .freed}, .deleteTaskUnlock id)
  | .deleteTaskUnlock id => .run fun _ m =>
      some ({m with sched := m.sched.taskUnlock t}, .returned .delete id .ok)

abbrev QueueState (θ ι : Type) := State θ (Mem θ ι) (Lock ι) (Cond ι) (Pc ι)

abbrev QueueTransition (θ ι : Type) := Transition θ (Mem θ ι) (Lock ι) (Cond ι) (Pc ι)

/-- No queue yet, no lock held, every thread outside the library. A block is blank until
it is allocated. -/
structure Initial (s : QueueState θ ι) : Prop where
  mqueueList : s.mem.mqueueList = []
  fresh : ∀ id, s.mem.block id = .fresh
  blank : ∀ id, s.mem.queue id = msgQCreate θ 0 0 0
  sched : s.mem.sched = {}
  owner : ∀ m, s.owner m = none
  idle : ∀ t, s.ctl t = .awake .idle

/-- The initial state. -/
def boot : QueueState θ ι where
  mem := ⟨[], fun _ => msgQCreate θ 0 0 0, fun _ => .fresh, {}⟩
  owner := fun _ => none
  signals := fun _ => 0
  ctl := fun _ => .awake .idle

omit [DecidableEq θ] [DecidableEq ι] in
theorem boot_initial : Initial (boot : QueueState θ ι) :=
  ⟨rfl, fun _ => rfl, fun _ => rfl, rfl, fun _ => rfl, fun _ => rfl⟩

/-! ### Schedules -/

def makes (t : θ) (id : ι) (maxMsgs msglen : ℤ) (opt : ℕ) : θ × Input (Choice ι) :=
  (t, {choice := .create id maxMsgs msglen opt})

def calls (t : θ) (op : Op) (id : ι) : θ × Input (Choice ι) := (t, {choice := .call op id})

/-- Thread `t` wakes with a timeout. -/
def timesOut (t : θ) : θ × Input (Choice ι) := (t, {choice := .none, ret := .etimedout})

/-- Thread `t` goes on for `n` steps. -/
def goesOn (t : θ) (n : ℕ) : List (θ × Input (Choice ι)) := List.replicate n (t, {choice := .none})

end

end V2lin.Queue
