import V2lin.Sched.Code
import V2lin.Task.SuspList
import V2lin.Task.Translate
import V2lin.TaskLib.Control

/-! The life of a task, as a program of the thread machine.

All of the task library that makes, starts, restarts, changes and removes tasks, with what
`taskLock` and `taskUnlock` do to the priorities under `task_list_lock`, and with the handles
of the threads. A task is named by the address of its control block (`τ`), a thread by its
handle (`θ`), and a task may have one thread after another. A point of the code carries the
point that follows the call it is in. What the calls report is left out; it is in `TaskLib`.

What `v2pthread_task_lock` protects is one instruction each. `pthread_create` may give the
handle of a thread that has been joined, or has detached itself and exited, to a new thread.
`pthread_cancel`, `pthread_join` and `pthread_detach` crash the caller at a null handle;
`pthread_setschedparam` refuses it, which the library ignores; a call with the handle of a
thread that is gone fails and changes nothing. The timer list is left out: a watchdog of
`selfRestart` is the identifier that it passes to `self_starter`. -/
namespace V2lin.Lifecycle
open Threads V2lin.Task V2lin.TaskLib

inductive Lock (τ : Type) where
  | taskListLock
  | tdeleteLock (t : τ)
  | dbcstLock (t : τ)
  deriving DecidableEq

inductive Cond (τ : Type) where
  | tDeletable (t : τ)
  | deleteBcplt (t : τ)
  deriving DecidableEq

inductive SchedPolicy where
  | fifo
  | rr
  deriving DecidableEq

/-- `pthread_attr_t`, as far as the library sets it. -/
structure Attr where
  schedPolicy : SchedPolicy
  schedPriority : ℤ

/-- `task_t`. A null `pthrid` is `none`, and of `state` only whether it is `DEAD` counts. -/
structure Tcb (θ τ ι : Type) where
  taskid : ℤ
  pthrid : Option θ
  dead : Bool
  staticTask : Bool
  vxwPriority : ℤ
  prvPriority : ℤ
  attr : Attr
  deleteSafeCount : ℤ
  firstSusp : List τ
  /-- The semaphore it waits for. -/
  waiting : Option ι

/-- A control block's memory: the user's own, or the heap's. -/
inductive Block where
  | user
  | free
  | allocated
  deriving DecidableEq

/-- A thread, with the task whose handle it has been made: `pthread_create` makes a thread
that runs in `task_wrapper`; the root task has stored its thread itself; a plain thread has
no task. -/
structure Pthread (τ : Type) where
  born : Bool
  task : Option τ
  wrapped : Bool := false
  cancelled : Bool := false
  detached : Bool := false
  exited : Bool := false
  joined : Bool := false

/-- There is no thread with the handle: `pthread_create` may give it to a new one. -/
def Pthread.Vacant {τ : Type} (b : Pthread τ) : Prop :=
  b.born = false ∨ b.joined = true ∨ b.detached = true ∧ b.exited = true

instance {τ : Type} (b : Pthread τ) : Decidable b.Vacant := inferInstanceAs (Decidable (_ ∨ _ ∨ _))

/-- The calls. -/
inductive Op (τ : Type) where
  | taskInit (task : Option τ) (pri opts : ℤ)
  | taskSpawn (pri opts : ℤ)
  | taskActivate (tid : ℤ)
  | taskDelete (tid : ℤ)
  | taskDeleteForce (tid : ℤ)
  | taskRestart (tid : ℤ)
  | taskPrioritySet (tid pri : ℤ)
  | taskPriorityGet (tid : ℤ)
  | taskSafe
  | taskUnsafe
  | taskIdListGet
  | kernelTimeSlice (ticksPerQuantum : ℤ)
  | enableRoundRobin
  | disableRoundRobin
  deriving DecidableEq

/-- What is done under `task_list_lock`. -/
inductive Edit (τ ι : Type) where
  /-- `taskInit`, which has read the round-robin flag -/
  | init (task : τ) (pri : ℤ) (schedPolicy : SchedPolicy)
  /-- `taskLock` -/
  | raise (task : Option τ)
  /-- `taskUnlock` -/
  | restore
  /-- `link_susp_task`, for the list of pended tasks of `t` -/
  | link (t newEntry : τ)
  /-- `unlink_susp_task`, for the list of a semaphore -/
  | unlink (id : ι) (entry : τ)
  /-- `task_delete` -/
  | remove (task : τ)
  deriving DecidableEq

inductive Pc (τ ι : Type) where
  /-- The thread has not been created yet. -/
  | unborn
  /-- In the user's code. -/
  | idle
  | enter (op : Op τ)
  -- `taskInit`
  | initLock (task : τ) (pri : ℤ) (next : Pc τ ι)
  | initFlag (task : τ) (pri : ℤ) (next : Pc τ ι)
  -- `taskLock`, and then `next`
  | lockFind (next : Pc τ ι)
  | lockFlag (task : Option τ) (next : Pc τ ι)
  | lockTest (task : Option τ) (next : Pc τ ι)
  -- a section under `task_list_lock`
  | listLock (edit : Edit τ ι) (next : Pc τ ι)
  | listEdit (edit : Edit τ ι) (next : Pc τ ι)
  | listUnlock (next : Pc τ ι)
  -- `taskUnlock`
  | unlockCount (next : Pc τ ι)
  | unlockClear (next : Pc τ ι)
  -- `task_delete`
  | remove (task : τ) (next : Pc τ ι)
  | free (task : τ) (next : Pc τ ι)
  -- `taskSpawn`
  | spawnTid (task : τ) (pri opts : ℤ)
  | spawnFree (task : τ) (tid : ℤ)
  | spawnName (task : τ) (tid : ℤ)
  -- `taskActivate`
  | activateFind (tid : ℤ)
  | activateCreate (task : τ)
  -- `taskDelete`
  | deleteFind (tid : ℤ) (selfTask : Option τ)
  | deleteTlock (tid : ℤ) (selfTask : Option τ) (t : τ)
  | deleteTest (tid : ℤ) (selfTask : Option τ) (t : τ)
  | deleteTunlock (tid : ℤ) (selfTask : Option τ) (t : τ) (deletable : Bool)
  -- `task_pend_delete`
  | pendLink (selfTask : Option τ) (t : τ)
  | pendTlock (selfTask : Option τ) (t : τ)
  | pendTest (selfTask : Option τ) (t : τ)
  | pendWait (selfTask : Option τ) (t : τ)
  | pendWoken (selfTask : Option τ) (t : τ)
  | pendUnlink (selfTask : Option τ) (t : τ)
  | pendCheck (t : τ)
  | pendDbcst (t : τ)
  | pendNotify (t : τ)
  | pendDunlock (t : τ)
  | pendTunlock (t : τ)
  | pendKilled (t : τ)
  -- `taskDeleteForce`
  | forceEnter (tid : ℤ) (next : Pc τ ι)
  | forceFind (tid : ℤ) (selfTask : Option τ) (next : Pc τ ι)
  | forceSplit (selfTask : Option τ) (t : τ) (next : Pc τ ι)
  | forceCancel (t : τ) (next : Pc τ ι)
  | forceJoin (t : τ) (next : Pc τ ι)
  -- `notify_task_delete`
  | notifyTest (t : τ) (next : Pc τ ι)
  | notifyDlock (t : τ) (next : Pc τ ι)
  | notifyTlock (t : τ) (next : Pc τ ι)
  | notifyBroadcast (t : τ) (next : Pc τ ι)
  | notifyTunlock (t : τ) (next : Pc τ ι)
  | notifyDrain (t : τ) (next : Pc τ ι)
  | notifyWait (t : τ) (next : Pc τ ι)
  | notifyWoken (t : τ) (next : Pc τ ι)
  | notifyDunlock (t : τ) (next : Pc τ ι)
  | notifyKilled (t : τ) (killed : Pc τ ι)
  -- `taskRestart`
  | restartFind (tid : ℤ)
  | restartSplit (selfTask : Option τ) (t : τ)
  | restartCancel (t : τ)
  | restartJoin (t : τ)
  | restartCreate (t : τ)
  | restartDetach (t : τ)
  | restartTimer (t : τ)
  -- `taskPrioritySet`, `taskPriorityGet`, `taskIdListGet`
  | prioFind (tid pri : ℤ)
  | prioSplit (tid : ℤ) (task : τ)
  | prioAttr (task : τ)
  | prioApply (task : τ)
  | getFind (tid : ℤ)
  | idList
  -- `kernelTimeSlice`
  | sliceSet (ticksPerQuantum : ℤ)
  | sliceTask (task : Option τ) (schedPolicy : SchedPolicy)
  | sliceApply (task : τ) (schedPolicy : SchedPolicy)
  -- `taskSafe`
  | safeFind
  | safeTlock (t : τ)
  | safeCount (t : τ)
  | safeTunlock (t : τ)
  -- `taskUnsafe`
  | unsafeFind
  | unsafeTlock (t : τ)
  | unsafeCount (t : τ)
  | unsafeTunlock (t : τ) (madeDeletable : Bool)
  | unsafeCheck (t : τ) (madeDeletable : Bool)
  -- `self_starter`
  | starterFind (tid : ℤ)
  | starterCreate (task : τ)
  -- `task_wrapper` after the entry point
  | closing
  | closeForce
  /-- `pthread_exit`, or the thread is killed: in `task_wrapper` its cleanup runs. -/
  | dying
  | exit
  | gone
  deriving DecidableEq

/-- What the outside decides: what the user's code does next, or the exception task when a
restart watchdog expires; the address that `ts_malloc` returns; the thread that
`pthread_create` creates; whether there is a watchdog; whether a cancellation acts now. -/
inductive Choice (θ τ : Type) where
  | none
  | call (op : Op τ)
  | lock
  | unlock
  | ret
  | starter (tid : ℤ)
  | address (task : τ)
  | thread (w : θ)
  | noThread
  | noTimer
  | kill
  deriving DecidableEq

structure Mem (θ τ ι : Type) where
  taskList : List τ
  /-- The last task on the list is its own successor. -/
  looped : Bool
  tcb : τ → Tcb θ τ ι
  heap : τ → Block
  locker : Option θ
  taskLockLevel : ℕ
  roundRobinEnabled : Bool
  pthread : θ → Pthread τ
  /-- The identifiers that the restart watchdogs will pass to `self_starter`. -/
  restarts : List ℤ
  /-- The `first_susp` of each semaphore. -/
  semSusp : ι → List τ

/-! ### Priorities -/

/-- `sched_get_priority_min`, the same for both policies. -/
def schedGetPriorityMin : ℤ := 1

/-- `sched_get_priority_max`. -/
def schedGetPriorityMax : ℤ := 99

/-- The priority of a thread that `translate_priority` makes of a task's, for either policy. -/
def newPriority (pri : ℤ) : ℤ := translatePriority schedGetPriorityMin schedGetPriorityMax pri

/-- `ULONG_MAX` -/
def ulongMax : ℕ := 2 ^ 64 - 1

section
variable {θ τ ι : Type} [DecidableEq θ] [DecidableEq τ] [DecidableEq ι]

def Mem.setTcb (m : Mem θ τ ι) (u : τ) (b : Tcb θ τ ι) : Mem θ τ ι := {m with tcb := Function.update m.tcb u b}

def Mem.setPthread (m : Mem θ τ ι) (w : θ) (b : Pthread τ) : Mem θ τ ι :=
  {m with pthread := Function.update m.pthread w b}

def Mem.setHeap (m : Mem θ τ ι) (u : τ) (b : Block) : Mem θ τ ι := {m with heap := Function.update m.heap u b}

/-! ### The list -/

/-- A walk along the list to the first task with a property. It never ends if there is none
and the list has no end. -/
def Mem.search (m : Mem θ τ ι) (p : τ → Bool) : Option (Option τ) :=
  match m.taskList.find? p with
  | some u => some (some u)
  | none => if m.looped then none else some none

/-- `my_task`, called by thread `t`. -/
def Mem.myTask (m : Mem θ τ ι) (t : θ) : Option (Option τ) := m.search fun u => (m.tcb u).pthrid = some t

/-- `task_for`, called by thread `t`. -/
def Mem.taskFor (m : Mem θ τ ι) (t : θ) (tid : ℤ) : Option (Option τ) :=
  if tid = 0 then m.myTask t else m.search fun u => (m.tcb u).taskid = tid

/-- `nxt_task` -/
def Mem.nxtTask (m : Mem θ τ ι) (u : τ) : Option τ :=
  if m.looped = true ∧ m.taskList.getLast? = some u then some u
  else (m.taskList.dropWhile (· ≠ u)).tail.head?

/-- `taskInit` appends the task, if its arguments are accepted. It has cleared the task's
`nxt_task` first, so the list ends with a task that is on it already, which then becomes
its own successor. -/
def Mem.append (m : Mem θ τ ι) (u : τ) (accepted : Bool) : Option (Mem θ τ ι) :=
  if u ∈ m.taskList then some {m with taskList := m.taskList.takeWhile (· ≠ u) ++ [u], looped := accepted}
  else if accepted = true then
    if m.looped = true then none else some {m with taskList := m.taskList ++ [u]}
  else some m

/-- `task_delete` takes the task off the list, unless it is its own successor. -/
def Mem.takeOff (m : Mem θ τ ι) (u : τ) : Option (Mem θ τ ι) :=
  if u ∈ m.taskList then
    if m.looped = true ∧ m.taskList.getLast? = some u then some m else some {m with taskList := m.taskList.erase u}
  else if m.looped = true then none else some m

/-- The policy of a new task. -/
def Mem.policy (m : Mem θ τ ι) : SchedPolicy := if m.roundRobinEnabled = true then .rr else .fifo

/-- The control block that `taskInit` makes. -/
def newTcb (ids : τ → ℤ) (u : τ) (pri : ℤ) (schedPolicy : SchedPolicy) : Tcb θ τ ι where
  taskid := ids u
  pthrid := none
  dead := true
  staticTask := true
  vxwPriority := pri
  prvPriority := newPriority pri
  attr := ⟨schedPolicy, newPriority pri⟩
  deleteSafeCount := 0
  firstSusp := []
  waiting := none

/-- What thread `t` does under `task_list_lock`. The address of a control block gives its
first identifier. -/
def Edit.run (ids : τ → ℤ) (t : θ) (edit : Edit τ ι) (m : Mem θ τ ι) : Option (Mem θ τ ι) :=
  match edit with
  | .init u pri schedPolicy => (m.setTcb u (newTcb ids u pri schedPolicy)).append u (decide (Legal pri))
  | .raise none => some m
  | .raise (some u) =>
    some (m.setTcb u {m.tcb u with attr := {(m.tcb u).attr with schedPriority := schedGetPriorityMax}})
  | .restore => (m.myTask t).map fun task => match task with
    | none => m
    | some u => m.setTcb u {m.tcb u with attr := {(m.tcb u).attr with schedPriority := (m.tcb u).prvPriority}}
  | .link u newEntry =>
    some (m.setTcb u {m.tcb u with firstSusp := linkSuspTask (m.tcb u).firstSusp (some newEntry)})
  | .unlink id entry =>
    some {m with semSusp := Function.update m.semSusp id (unlinkSuspTask (m.semSusp id) (some entry))}
  | .remove u => m.takeOff u

/-! ### Threads -/

/-- `pthread_create`, for a task. -/
def Mem.create (m : Mem θ τ ι) (u : τ) (w : θ) : Mem θ τ ι :=
  (m.setTcb u {m.tcb u with pthrid := some w}).setPthread w {born := true, task := some u, wrapped := true}

/-- `pthread_cancel(t->pthrid)` -/
def Mem.cancel (m : Mem θ τ ι) (u : τ) : Option (Mem θ τ ι) :=
  (m.tcb u).pthrid.map fun w => m.setPthread w {m.pthread w with cancelled := true}

/-- `pthread_join(t->pthrid, NULL)`: it waits for a thread that can be joined. -/
def Mem.join (m : Mem θ τ ι) (u : τ) : Option (Mem θ τ ι) :=
  match (m.tcb u).pthrid with
  | none => none
  | some w =>
    if (m.pthread w).detached = true ∨ (m.pthread w).joined = true then some m
    else if (m.pthread w).exited = true then some (m.setPthread w {m.pthread w with joined := true})
    else none

/-- `pthread_detach(self_task->pthrid)` -/
def Mem.detach (m : Mem θ τ ι) (u : τ) : Option (Mem θ τ ι) :=
  (m.tcb u).pthrid.map fun w => m.setPthread w {m.pthread w with detached := true}

/-- `task_wrapper_cleanup` in thread `t`. -/
def Mem.cleanup (m : Mem θ τ ι) (t : θ) : Mem θ τ ι :=
  if m.locker = some t then {m with locker := none, taskLockLevel := 0} else m

/-! ### Blocks -/

/-- The code that follows a walk along the list. -/
def found (walk : Option (Option τ)) (m : Mem θ τ ι) (next : Option τ → Pc τ ι) : Option (Mem θ τ ι × Pc τ ι) :=
  walk.map fun u => (m, next u)

/-- The code that needs a task; without one it crashes or walks on for ever. -/
def needs (walk : Option (Option τ)) (m : Mem θ τ ι) (next : τ → Pc τ ι) : Option (Mem θ τ ι × Pc τ ι) :=
  walk.bind fun u => u.map fun u => (m, next u)

/-- Where a thread goes that is killed in a `taskDeleteForce`: `task_wrapper` has popped its
cleanup handler before the closing one. -/
def Pc.leave : Pc τ ι → Pc τ ι
  | .exit => .exit
  | _ => .dying

/-- Where a thread goes that is killed on its way to a point. -/
def Pc.killed : Pc τ ι → Pc τ ι
  | .pendUnlink _ u => .pendKilled u
  | .forceFind _ _ next => next.leave
  | .forceSplit _ _ next => next.leave
  | _ => .dying

/-- A point where a thread goes on to `next`, or a cancellation acts. -/
def cancellable (t : θ) (killed next : Pc τ ι) (choice : Choice θ τ) (m : Mem θ τ ι) :
    Option (Mem θ τ ι × Pc τ ι) :=
  if choice = .kill then if (m.pthread t).cancelled = true then some (m, killed) else none else some (m, next)

/-- A `pthread_join`. -/
def joinBlock (t : θ) (u : τ) (killed next : Pc τ ι) (choice : Choice θ τ) (m : Mem θ τ ι) :
    Option (Mem θ τ ι × Pc τ ι) :=
  if choice = .kill then if (m.pthread t).cancelled = true then some (m, killed) else none
  else (m.join u).map fun m => (m, next)

/-- The flag of `taskLock`. -/
def flagBlock (t : θ) (task : Option τ) (next : Pc τ ι) (choice : Choice θ τ) (m : Mem θ τ ι) :
    Option (Mem θ τ ι × Pc τ ι) :=
  if choice = .kill then if (m.pthread t).cancelled = true then some (m, next.killed) else none
  else if m.locker = none ∨ m.locker = some t then
    some ({m with locker := some t, taskLockLevel := Sched.countUp ulongMax m.taskLockLevel}, .lockTest task next)
  else none

/-- `taskUnlock` as far as to the count. -/
def countBlock (t : θ) (next : Pc τ ι) (m : Mem θ τ ι) : Mem θ τ ι × Pc τ ι :=
  if m.locker = some t then
    let level := Sched.countDown m.taskLockLevel
    ({m with taskLockLevel := level}, if level < 1 then .listLock .restore (.unlockClear next) else next)
  else (m, next)

/-- `if (task->waiting) unlink_susp_task(&task->waiting->first_susp, task)`. -/
def unlinkWaiting (u : τ) (next : Pc τ ι) (m : Mem θ τ ι) : Pc τ ι :=
  match (m.tcb u).waiting with
  | none => next
  | some id => .listLock (.unlink id u) next

/-- `pthread_create` for a task whose `state` is `READY` and whose `pthrid` is null now. -/
def createBlock (u : τ) (created failed : Pc τ ι) (choice : Choice θ τ) (m : Mem θ τ ι) :
    Option (Mem θ τ ι × Pc τ ι) :=
  let m := m.setTcb u {m.tcb u with pthrid := none, dead := false}
  match choice with
  | .thread w => if (m.pthread w).Vacant then some (m.create u w, created) else none
  | .noThread => some (m, failed)
  | _ => none

/-- The user's code. -/
def userBlock (t : θ) (choice : Choice θ τ) (m : Mem θ τ ι) : Option (Mem θ τ ι × Pc τ ι) :=
  match choice with
  | .call op => some (m, .enter op)
  | .lock => some (m, .lockFind .idle)
  | .unlock => some (m, .unlockCount .idle)
  | .ret => some (m, if (m.pthread t).wrapped = true then .closing else .exit)
  | .starter tid => if tid ∈ m.restarts then some ({m with restarts := m.restarts.erase tid}, .starterFind tid) else none
  | .kill => if (m.pthread t).cancelled = true then some (m, .dying) else none
  | _ => none

/-- The calls, as far as to their first `taskLock` or `task_list_lock`. -/
def enterBlock (t : θ) (op : Op τ) (choice : Choice θ τ) (m : Mem θ τ ι) : Option (Mem θ τ ι × Pc τ ι) :=
  match op with
  | .taskInit task pri opts =>
    if opts ≠ 0 then some (m, .idle)
    else some (m, match task with
      -- `goto error`
      | none => .listUnlock .idle
      | some u => .initLock u pri .idle)
  | .taskSpawn pri opts =>
    match choice with
    | .address u => if m.heap u = .free then some (m.setHeap u .allocated, .spawnTid u pri opts) else none
    | _ => none
  | .taskActivate tid => some (m, .lockFind (.activateFind tid))
  | .taskDelete tid => found (m.myTask t) m fun self => .lockFind (.deleteFind tid self)
  | .taskDeleteForce tid => some (m, .forceEnter tid .idle)
  | .taskRestart tid => some (m, .lockFind (.restartFind tid))
  | .taskPrioritySet tid pri => some (m, .lockFind (.prioFind tid pri))
  | .taskPriorityGet tid => some (m, .lockFind (.getFind tid))
  | .taskSafe => some (m, .lockFind .safeFind)
  | .taskUnsafe => some (m, .lockFind .unsafeFind)
  | .taskIdListGet => some (m, .lockFind .idList)
  | .kernelTimeSlice ticks => some (m, .lockFind (.sliceSet ticks))
  | .enableRoundRobin => some ({m with roundRobinEnabled := true}, .idle)
  | .disableRoundRobin => some ({m with roundRobinEnabled := false}, .idle)

/-- `new_tid` and what `taskSpawn` does with the answer of `taskInit`. -/
def spawnTidBlock (u : τ) (pri opts : ℤ) (m : Mem θ τ ι) : Option (Mem θ τ ι × Pc τ ι) :=
  if m.looped = true then none
  else
    let tid := newTid (m.taskList.map fun u => (m.tcb u).taskid)
    some (m, if opts ≠ 0 then .spawnFree u tid
      else .initLock u pri (if Legal pri then .spawnName u tid else .spawnFree u tid))

/-- `taskActivate` under the scheduler lock. -/
def activateBlock (t : θ) (tid : ℤ) (m : Mem θ τ ι) : Option (Mem θ τ ι × Pc τ ι) :=
  found (m.taskFor t tid) m fun task => match task with
    | none => .unlockCount .idle
    | some u => if (m.tcb u).dead = true then .activateCreate u else .unlockCount .idle

/-- `taskRestart` under the scheduler lock. Without a task it leaves past `taskUnlock`. -/
def restartBlock (t : θ) (tid : ℤ) (m : Mem θ τ ι) : Option (Mem θ τ ι × Pc τ ι) :=
  (m.myTask t).bind fun self => found (m.taskFor t tid) m fun task => match task with
    | none => .idle
    | some u => unlinkWaiting u (.restartSplit self u) m

/-- `selfRestart`, for the task that restarts itself. -/
def timerBlock (u : τ) (choice : Choice θ τ) (m : Mem θ τ ι) : Mem θ τ ι × Pc τ ι :=
  (if choice = .noTimer then m else {m with restarts := (m.tcb u).taskid :: m.restarts}, .dying)

/-- `taskPrioritySet` under the scheduler lock: the control block gets the new priority. -/
def prioBlock (t : θ) (tid pri : ℤ) (m : Mem θ τ ι) : Option (Mem θ τ ι × Pc τ ι) :=
  (m.taskFor t tid).map fun task => match task with
    | none => (m, .unlockCount .idle)
    | some u =>
      (m.setTcb u {m.tcb u with vxwPriority := pri, prvPriority := newPriority pri}, .prioSplit tid u)

/-- `if ((tid != 0) && (task != my_task()))`. -/
def prioSplitBlock (t : θ) (tid : ℤ) (u : τ) (m : Mem θ τ ι) : Option (Mem θ τ ι × Pc τ ι) :=
  if tid ≠ 0 then found (m.myTask t) m fun self => if self = some u then .unlockCount .idle else .prioAttr u
  else some (m, .unlockCount .idle)

/-- One task of `kernelTimeSlice`. -/
def sliceBlock (task : Option τ) (policy : SchedPolicy) (m : Mem θ τ ι) : Mem θ τ ι × Pc τ ι :=
  match task with
  | none => (m, .unlockCount .idle)
  | some u => (m.setTcb u {m.tcb u with attr := {(m.tcb u).attr with schedPolicy := policy}}, .sliceApply u policy)

/-- `task_pend_delete` after its wait: without a control block it crashes. -/
def pendUnlinkBlock (selfTask : Option τ) (u : τ) (m : Mem θ τ ι) : Option (Mem θ τ ι × Pc τ ι) :=
  selfTask.map fun v => (m, unlinkWaiting v (.pendCheck u) m)

/-- The library. -/
def code (ids : τ → ℤ) (t : θ) : Pc τ ι → Instr (Mem θ τ ι) (Lock τ) (Cond τ) (Pc τ ι) (Choice θ τ)
  | .unborn => .run fun _ m => if (m.pthread t).born = true then some (m, .idle) else none
  | .idle => .run (userBlock t)
  | .enter op => .run (enterBlock t op)
  | .initLock u pri next => .lock .taskListLock (.initFlag u pri next)
  | .initFlag u pri next => .run fun _ m => some (m, .listEdit (.init u pri m.policy) next)
  | .lockFind next => .run fun _ m => found (m.myTask t) m fun task => .lockFlag task next
  | .lockFlag task next => .run (flagBlock t task next)
  | .lockTest task next => .run (cancellable t next.killed (.listLock (.raise task) next))
  | .listLock edit next => .lock .taskListLock (.listEdit edit next)
  | .listEdit edit next => .run fun _ m => (edit.run ids t m).map fun m => (m, .listUnlock next)
  | .listUnlock next => .unlock .taskListLock next
  | .unlockCount next => .run fun _ m => some (countBlock t next m)
  | .unlockClear next => .run fun _ m => some ({m with locker := none}, next)
  | .remove u next => .run fun _ m => some (m, unlinkWaiting u (.listLock (.remove u) (.free u next)) m)
  | .free u next => .run fun _ m => some (if (m.tcb u).staticTask = true then m else m.setHeap u .free, next)
  | .spawnTid u pri opts => .run fun _ m => spawnTidBlock u pri opts m
  | .spawnFree u tid => .run fun _ m => some (m.setHeap u .free, .lockFind (.activateFind tid))
  | .spawnName u tid => .run fun _ m =>
      some (m.setTcb u {m.tcb u with taskid := tid, staticTask := false}, .lockFind (.activateFind tid))
  | .activateFind tid => .run fun _ m => activateBlock t tid m
  | .activateCreate u => .run (createBlock u (.unlockCount .idle) (.remove u (.unlockCount .idle)))
  | .deleteFind tid self => .run fun _ m => found (m.taskFor t tid) m fun task => match task with
      | none => .unlockCount .idle
      | some u => .deleteTlock tid self u
  | .deleteTlock tid self u => .lock (.tdeleteLock u) (.deleteTest tid self u)
  | .deleteTest tid self u => .run fun _ m =>
      some (m, .deleteTunlock tid self u (if (m.tcb u).deleteSafeCount > 0 then false else true))
  | .deleteTunlock tid self u deletable => .unlock (.tdeleteLock u)
      (if deletable then .forceEnter tid (.unlockCount .idle)
      else if some u = self then .unlockCount .idle
      else .pendLink self u)
  | .pendLink self u => .run fun _ m => some (m, match self with
      | none => .pendTlock none u
      | some v => .listLock (.link u v) (.pendTlock (some v) u))
  | .pendTlock self u => .lock (.tdeleteLock u) (.unlockCount (.pendTest self u))
  | .pendTest self u => .run fun _ m =>
      some (m, if (m.tcb u).deleteSafeCount > 0 then .pendWait self u else .lockFind (.pendUnlink self u))
  | .pendWait self u => .wait (.tDeletable u) (.tdeleteLock u) false (fun _ => .pendWoken self u)
  | .pendWoken self u => .run (cancellable t (.pendKilled u) (.pendTest self u))
  | .pendUnlink self u => .run fun _ m => pendUnlinkBlock self u m
  | .pendCheck u => .run fun _ m => some (m, if (m.tcb u).firstSusp = [] then .pendDbcst u else .pendTunlock u)
  | .pendDbcst u => .lock (.dbcstLock u) (.pendNotify u)
  | .pendNotify u => .broadcast (.deleteBcplt u) (.pendDunlock u)
  | .pendDunlock u => .unlock (.dbcstLock u) (.pendTunlock u)
  | .pendTunlock u => .unlock (.tdeleteLock u) (.unlockCount .idle)
  | .pendKilled u => .unlock (.tdeleteLock u) .dying
  | .forceEnter tid next => .run fun _ m => found (m.myTask t) m fun self => .lockFind (.forceFind tid self next)
  | .forceFind tid self next => .run fun _ m => found (m.taskFor t tid) m fun task => match task with
      | none => .unlockCount next
      | some u => .notifyTest u (.forceSplit self u next)
  -- a task that deletes itself unlocks the scheduler once more
  | .forceSplit self u next => .run fun _ m =>
      some (m, if some u = self then .remove u (.unlockCount (.unlockCount next)) else .forceCancel u next)
  | .forceCancel u next => .run fun _ m => (m.cancel u).map fun m => (m, .forceJoin u next)
  | .forceJoin u next => .run (joinBlock t u next.leave (.remove u (.unlockCount next)))
  | .notifyTest u next => .run fun _ m => some (m, if (m.tcb u).firstSusp = [] then next else .notifyDlock u next)
  | .notifyDlock u next => .lock (.dbcstLock u) (.notifyTlock u next)
  | .notifyTlock u next => .lock (.tdeleteLock u) (.notifyBroadcast u next)
  | .notifyBroadcast u next => .broadcast (.tDeletable u) (.notifyTunlock u next)
  | .notifyTunlock u next => .unlock (.tdeleteLock u) (.notifyDrain u next)
  | .notifyDrain u next => .run fun _ m =>
      some (m, if (m.tcb u).firstSusp ≠ [] then .notifyWait u next else .notifyDunlock u next)
  | .notifyWait u next => .wait (.deleteBcplt u) (.dbcstLock u) false (fun _ => .notifyWoken u next)
  | .notifyWoken u next => .run (cancellable t (.notifyKilled u next.killed) (.notifyDrain u next))
  | .notifyDunlock u next => .unlock (.dbcstLock u) next
  | .notifyKilled u killed => .unlock (.dbcstLock u) killed
  | .restartFind tid => .run fun _ m => restartBlock t tid m
  | .restartSplit self u => .run fun _ m => some (m, if some u ≠ self then .restartCancel u else .restartDetach u)
  | .restartCancel u => .run fun _ m => (m.cancel u).map fun m => (m, .restartJoin u)
  | .restartJoin u => .run (joinBlock t u .dying (.restartCreate u))
  | .restartCreate u => .run (createBlock u (.unlockCount .idle) (.unlockCount .idle))
  | .restartDetach u => .run fun _ m => (m.detach u).map fun m => (m, .restartTimer u)
  | .restartTimer u => .run fun choice m => some (timerBlock u choice m)
  | .prioFind tid pri => .run fun _ m => prioBlock t tid pri m
  | .prioSplit tid u => .run fun _ m => prioSplitBlock t tid u m
  | .prioAttr u => .run fun _ m =>
      some (m.setTcb u {m.tcb u with attr := {(m.tcb u).attr with schedPriority := (m.tcb u).prvPriority}}, .prioApply u)
  -- `pthread_setschedparam`, whose result is ignored
  | .prioApply _ => .run fun _ m => some (m, .unlockCount .idle)
  | .getFind tid => .run fun _ m => found (m.taskFor t tid) m fun _ => .unlockCount .idle
  | .idList => .run fun _ m => if m.looped = true then none else some (m, .unlockCount .idle)
  | .sliceSet ticks => .run fun _ m =>
      some ({m with roundRobinEnabled := if ticks = 0 then false else true},
        .sliceTask m.taskList.head? (if ticks = 0 then .fifo else .rr))
  | .sliceTask task policy => .run fun _ m => some (sliceBlock task policy m)
  | .sliceApply u policy => .run fun _ m => some (m, .sliceTask (m.nxtTask u) policy)
  | .safeFind => .run fun _ m => needs (m.myTask t) m .safeTlock
  | .safeTlock u => .lock (.tdeleteLock u) (.safeCount u)
  | .safeCount u => .run fun _ m =>
      some (m.setTcb u {m.tcb u with deleteSafeCount := countUp (m.tcb u).deleteSafeCount}, .safeTunlock u)
  | .safeTunlock u => .unlock (.tdeleteLock u) (.unlockCount .idle)
  | .unsafeFind => .run fun _ m => needs (m.myTask t) m .unsafeTlock
  | .unsafeTlock u => .lock (.tdeleteLock u) (.unsafeCount u)
  | .unsafeCount u => .run fun _ m =>
      let count := countDown (m.tcb u).deleteSafeCount
      some (m.setTcb u {m.tcb u with deleteSafeCount := count},
        .unsafeTunlock u ((m.tcb u).deleteSafeCount > 0 ∧ count = 0))
  | .unsafeTunlock u madeDeletable => .unlock (.tdeleteLock u) (.unlockCount (.unsafeCheck u madeDeletable))
  | .unsafeCheck u madeDeletable => .run fun _ m =>
      some (m, if madeDeletable = true ∧ (m.tcb u).firstSusp ≠ [] then .notifyTest u .idle else .idle)
  | .starterFind tid => .run fun _ m => found (m.taskFor t tid) m fun task => match task with
      | none => .idle
      | some u => .starterCreate u
  | .starterCreate u => .run (createBlock u .idle .idle)
  | .closing => .run fun _ m => some (m.cleanup t, .closeForce)
  -- the control block may have been freed: it still holds its identifier
  | .closeForce => .run fun _ m => (m.pthread t).task.map fun u => (m, .forceEnter (m.tcb u).taskid .exit)
  | .dying => .run fun _ m => some (if (m.pthread t).wrapped = true then m.cleanup t else m, .exit)
  | .exit => .run fun _ m => some (m.setPthread t {m.pthread t with exited := true}, .gone)
  -- a new thread with the handle
  | .gone => .run fun _ m => if (m.pthread t).exited = true then none else some (m, .idle)

abbrev LifeState (θ τ ι : Type) := State θ (Mem θ τ ι) (Lock τ) (Cond τ) (Pc τ ι)

abbrev LifeTransition (θ τ ι : Type) := Transition θ (Mem θ τ ι) (Lock τ) (Cond τ) (Pc τ ι)

/-! ### Schedules -/

def does (t : θ) (choice : Choice θ τ) : θ × Input (Choice θ τ) := (t, {choice := choice})

/-- Thread `t` goes on for `n` steps. -/
def goesOn (t : θ) (n : ℕ) : List (θ × Input (Choice θ τ)) := List.replicate n (t, {choice := .none})

end

/-- The start: control block 0 is the root task's, which runs in thread 0, and it has stored
the highest priority. The other control blocks are the user's. -/
def boot (n k l : ℕ) [NeZero n] [NeZero k] : LifeState (Fin n) (Fin k) (Fin l) where
  mem := {
    taskList := [0]
    looped := false
    tcb := fun u => ⟨if u = 0 then 1 else 0, if u = 0 then some 0 else none, decide (u ≠ 0), true, 0,
      schedGetPriorityMax, ⟨.fifo, schedGetPriorityMax⟩, 0, [], none⟩
    heap := fun _ => .user
    locker := none
    taskLockLevel := 0
    roundRobinEnabled := false
    pthread := fun w => ⟨decide (w = 0), if w = 0 then some 0 else none, false, false, false, false, false⟩
    restarts := []
    semSusp := fun _ => [] }
  owner := fun _ => none
  signals := fun _ => 0
  ctl := fun w => .awake (if w = 0 then .idle else .unborn)

end V2lin.Lifecycle
