import V2lin.Status
import V2lin.TaskLib.Control
import V2lin.Task.SchedLock
import V2lin.Threads.Locks

/-! Spawning, protecting and deleting tasks, as a program of the thread machine.

A point of the code is a place in one of the functions with the locals that are still
read. `taskLock` and `taskUnlock` are one instruction each, and so is everything done under
`task_list_lock`, below which nothing else is taken. A semaphore or a queue is used by
the user's code here, which a task that has been cancelled may leave for good at any
time; inside the library it may at its waits. -/
namespace V2lin.TaskLib
open Threads V2lin.Task

inductive Lock (θ : Type) where
  | tdeleteLock (t : θ)
  | dbcstLock (t : θ)
  deriving DecidableEq

inductive Cond (θ : Type) where
  | tDeletable (t : θ)
  | deleteBcplt (t : θ)
  deriving DecidableEq

/-- A control block's memory; `live` while it is on the list. A plain thread has none. -/
inductive Block where
  | fresh
  | allocated
  | live
  | freed
  | plain
  deriving DecidableEq

/-- Who runs `taskDeleteForce`: the user, `taskDelete` having found `t`, `task_wrapper`
after the entry point has returned. -/
inductive Cause (θ : Type) where
  | direct
  | nested (t : θ)
  | closing
  deriving DecidableEq

/-- Who runs `notify_task_delete`: `taskDeleteForce` with its locals, or `taskUnsafe`. -/
inductive Caller (θ : Type) where
  | force (cause : Cause θ) (tid : ℤ) (selfTask : Option θ)
  | unsafely
  deriving DecidableEq

inductive Pc (θ : Type) where
  /-- In the user's code. -/
  | idle
  /-- The thread has not been created yet. -/
  | unborn
  | dead
  -- `taskSpawn`
  | spawnInit (n : θ) (tid : ℤ) (legal : Bool)
  | spawnName (n : θ) (tid : ℤ)
  | spawnLock (tid : ℤ)
  | spawnFind (tid : ℤ)
  | spawnUnlock (error : Status)
  -- `taskDelete`
  | deleteLock (tid : ℤ) (selfTask : Option θ)
  | deleteFind (tid : ℤ) (selfTask : Option θ)
  | deleteTlock (tid : ℤ) (selfTask : Option θ) (t : θ)
  | deleteTest (tid : ℤ) (selfTask : Option θ) (t : θ)
  | deleteTunlock (tid : ℤ) (selfTask : Option θ) (t : θ) (deletable : Bool)
  /-- `released`: a self-deletion has already unlocked the scheduler once more. -/
  | deleteUnlock (found : Option θ) (deletable : Bool) (error : Status) (released : Bool)
  -- `task_pend_delete`
  | pendLink (selfTask : Option θ) (t : θ)
  | pendTlock (selfTask : Option θ) (t : θ)
  | pendUnlock (selfTask : Option θ) (t : θ)
  | pendTest (selfTask : Option θ) (t : θ)
  | pendWait (selfTask : Option θ) (t : θ)
  | pendWoken (selfTask : Option θ) (t : θ)
  | pendRelock (selfTask : Option θ) (t : θ)
  | pendUnlink (selfTask : Option θ) (t : θ)
  | pendDbcst (t : θ)
  | pendNotify (t : θ)
  | pendDunlock (t : θ)
  | pendTunlock (t : θ)
  | pendKilled (t : θ)
  -- `taskDeleteForce`
  | forceEnter (cause : Cause θ) (tid : ℤ)
  | forceLock (cause : Cause θ) (tid : ℤ) (selfTask : Option θ)
  | forceFind (cause : Cause θ) (tid : ℤ) (selfTask : Option θ)
  | forceSplit (cause : Cause θ) (tid : ℤ) (selfTask : Option θ) (t : θ)
  | forceCancel (cause : Cause θ) (t : θ)
  | forceJoin (cause : Cause θ) (t : θ)
  | forceRemove (cause : Cause θ) (t : θ)
  | forceSelfRemove (cause : Cause θ) (t : θ)
  | forceSelfUnlock (cause : Cause θ)
  | forceUnlock (cause : Cause θ) (error : Status) (released : Bool)
  -- `notify_task_delete`
  | notifyTest (caller : Caller θ) (t : θ)
  | notifyDlock (caller : Caller θ) (t : θ)
  | notifyTlock (caller : Caller θ) (t : θ)
  | notifyBroadcast (caller : Caller θ) (t : θ)
  | notifyTunlock (caller : Caller θ) (t : θ)
  | notifyDrain (caller : Caller θ) (t : θ)
  | notifyWait (caller : Caller θ) (t : θ)
  | notifyWoken (caller : Caller θ) (t : θ)
  | notifyDunlock (caller : Caller θ) (t : θ)
  | notifyKilled (caller : Caller θ) (t : θ)
  -- `taskSafe`
  | safeLock
  | safeFind
  | safeTlock
  | safeCount
  | safeTunlock
  | safeUnlock
  -- `taskUnsafe`
  | unsafeLock
  | unsafeFind
  | unsafeTlock
  | unsafeCount
  | unsafeTunlock (madeDeletable : Bool)
  | unsafeUnlock (madeDeletable : Bool)
  | unsafeCheck
  -- `taskLock` by the user
  | userLock
  -- `task_wrapper` after the entry point
  | closeCleanup
  | closeForce
  /-- A killed thread runs `task_wrapper_cleanup`. -/
  | dying
  | exit
  deriving DecidableEq

/-- What the outside decides: the next call of the user's code, with the address that
`ts_malloc` returns and whether the priority is legal if it is a spawn; whether a pending
cancellation acts now; whether `pthread_create` succeeds. -/
inductive Choice (θ : Type) where
  | none
  | spawn (n : θ) (legal : Bool)
  | delete (tid : ℤ)
  | deleteForce (tid : ℤ)
  | safe
  | unsafely
  | lock
  | unlock
  | ret
  | kill
  | noThread
  deriving DecidableEq

structure Mem (θ ι : Type) where
  taskList : List θ
  tcb : θ → Tcb θ ι
  block : θ → Block
  sched : SchedLock θ
  cancelled : θ → Bool
  dead : θ → Bool
  /-- The `first_susp` of each semaphore. -/
  semSusp : ι → List θ

section
variable {θ ι : Type} [DecidableEq θ] [DecidableEq ι]

def Mem.setTcb (m : Mem θ ι) (t : θ) (b : Tcb θ ι) : Mem θ ι :=
  {m with tcb := Function.update m.tcb t b}

def Mem.setBlock (m : Mem θ ι) (t : θ) (b : Block) : Mem θ ι :=
  {m with block := Function.update m.block t b}

/-- `my_task`, called by thread `t`. -/
def Mem.myTask (m : Mem θ ι) (t : θ) : Option θ :=
  if t ∈ m.taskList ∧ (m.tcb t).started = true then some t else none

/-- `task_for`, called by thread `t`. -/
def Mem.taskFor (m : Mem θ ι) (t : θ) (tid : ℤ) : Option θ :=
  if tid = 0 then m.myTask t else m.taskList.find? fun u => (m.tcb u).taskid = tid

/-- `if (task->waiting) unlink_susp_task(&task->waiting->first_susp, task)`. -/
def Mem.unlinkWaiting (m : Mem θ ι) (t : θ) : Mem θ ι :=
  match (m.tcb t).waiting with
  | none => m
  | some id => {m with semSusp := Function.update m.semSusp id (unlinkSuspTask (m.semSusp id) (some t))}

/-- `task_delete`. -/
def Mem.taskDelete (m : Mem θ ι) (t : θ) : Mem θ ι :=
  ({m.unlinkWaiting t with taskList := m.taskList.erase t} : Mem θ ι).setBlock t .freed

def Mem.taskUnlock (m : Mem θ ι) (t : θ) : Mem θ ι := {m with sched := m.sched.taskUnlock t}

/-- `taskLock`, on to `next`; a thread that is cancelled may be killed while it waits. -/
def lockBlock (t : θ) (next killed : Pc θ) (choice : Choice θ) (m : Mem θ ι) : Option (Mem θ ι × Pc θ) :=
  cancelBlock (choice = .kill) (m.cancelled t) killed m
    ((m.sched.taskLock t).map fun k => ({m with sched := k}, next))

/-- What a thread does next when its wait is over or its cancellation acts. -/
def wokenBlock (t : θ) (next killed : Pc θ) (choice : Choice θ) (m : Mem θ ι) : Option (Mem θ ι × Pc θ) :=
  cancelBlock (choice = .kill) (m.cancelled t) killed m (some (m, next))

/-- Where a killed thread goes: `task_wrapper` has popped its cleanup handler before its
closing `taskDeleteForce`. -/
def Cause.killed : Cause θ → Pc θ
  | .closing => .exit
  | _ => .dying

def Caller.killed : Caller θ → Pc θ
  | .force cause _ _ => cause.killed
  | .unsafely => .dying

/-- The code that follows `notify_task_delete`. -/
def Caller.after (t : θ) : Caller θ → Pc θ
  | .force cause tid selfTask => .forceSplit cause tid selfTask t
  | .unsafely => .idle

/-- The code that follows `taskDeleteForce`. -/
def Cause.after (error : Status) (released : Bool) : Cause θ → Pc θ
  | .direct => .idle
  | .nested t => .deleteUnlock (some t) true error released
  | .closing => .exit

/-- The user's code. -/
def userBlock (t : θ) (choice : Choice θ) (m : Mem θ ι) : Option (Mem θ ι × Pc θ) :=
  match choice with
  | .none => none
  | .noThread => none
  | .spawn n legal =>
    if m.block n = .fresh then
      some (m.setBlock n .allocated, .spawnInit n (newTid (m.taskList.map fun u => (m.tcb u).taskid)) legal)
    else none
  | .delete tid => some (m, .deleteLock tid (m.myTask t))
  | .deleteForce tid => some (m, .forceEnter .direct tid)
  | .safe => some (m, .safeLock)
  | .unsafely => some (m, .unsafeLock)
  | .lock => some (m, .userLock)
  | .unlock => some (m.taskUnlock t, .idle)
  | .ret => some (m, if m.block t = .plain then .exit else .closeCleanup)
  | .kill => if m.cancelled t = true then some (m, .dying) else none

/-- `taskInit` for the block `n`: registered at the end of the list if the priority is
legal, given back to the heap by `taskSpawn` if not. -/
def spawnInitBlock (address : θ → ℤ) (n : θ) (tid : ℤ) (legal : Bool) (m : Mem θ ι) : Mem θ ι × Pc θ :=
  if legal then
    (({m with taskList := m.taskList ++ [n]} : Mem θ ι).setBlock n .live |>.setTcb n ⟨address n, false, 0, [], none⟩,
      .spawnName n tid)
  else (m.setBlock n .freed, .spawnLock tid)

/-- `taskActivate` under the scheduler lock. -/
def spawnFindBlock (t : θ) (tid : ℤ) (choice : Choice θ) (m : Mem θ ι) : Mem θ ι × Pc θ :=
  match m.taskFor t tid with
  | none => (m, .spawnUnlock .objIdError)
  | some u =>
    if (m.tcb u).started = true then (m, .spawnUnlock .ok)
    else if choice = .noThread then (m.taskDelete u, .spawnUnlock .notEnoughMemory)
    else (m.setTcb u {m.tcb u with started := true}, .spawnUnlock .ok)

/-- `taskSafe` and `taskUnsafe` read their own control block; without one they crash. -/
def ownBlock (t : θ) (next : Pc θ) (m : Mem θ ι) : Option (Mem θ ι × Pc θ) :=
  if m.myTask t = none then none else some (m, next)

/-- `task_pend_delete` after its wait: the caller, unless it has no control block, leaves
the list of the semaphore it waits for; the last one on the list of `t` goes to say so. -/
def pendUnlinkBlock (selfTask : Option θ) (t : θ) (m : Mem θ ι) : Option (Mem θ ι × Pc θ) :=
  match selfTask with
  | none => none
  | some u =>
    let m := m.unlinkWaiting u
    some (m, if (m.tcb t).firstSusp = [] then .pendDbcst t else .pendTunlock t)

/-- The library; `address` is a control block's address, cut to an `int`. -/
def code (address : θ → ℤ) (t : θ) : Pc θ → Instr (Mem θ ι) (Lock θ) (Cond θ) (Pc θ) (Choice θ)
  | .idle => .run (userBlock t)
  | .unborn => .run fun _ m => if (m.tcb t).started = true then some (m, .idle) else none
  | .dead => .run fun _ _ => none
  | .spawnInit n tid legal => .run fun _ m => some (spawnInitBlock address n tid legal m)
  | .spawnName n tid => .run fun _ m => some (m.setTcb n {m.tcb n with taskid := tid}, .spawnLock tid)
  | .spawnLock tid => .run (lockBlock t (.spawnFind tid) .dying)
  | .spawnFind tid => .run fun choice m => some (spawnFindBlock t tid choice m)
  | .spawnUnlock _ => .run fun _ m => some (m.taskUnlock t, .idle)
  | .deleteLock tid selfTask => .run (lockBlock t (.deleteFind tid selfTask) .dying)
  | .deleteFind tid selfTask => .run fun _ m =>
      some (m, match m.taskFor t tid with
        | none => .deleteUnlock none false .objDeleted false
        | some u => .deleteTlock tid selfTask u)
  | .deleteTlock tid selfTask u => .lock (.tdeleteLock u) (.deleteTest tid selfTask u)
  | .deleteTest tid selfTask u => .run fun _ m =>
      some (m, .deleteTunlock tid selfTask u (if (m.tcb u).deleteSafeCount > 0 then false else true))
  | .deleteTunlock tid selfTask u deletable => .unlock (.tdeleteLock u)
      (if deletable then .forceEnter (.nested u) tid
      else if some u = selfTask then .deleteUnlock (some u) false .objUnavailable false
      else .pendLink selfTask u)
  | .deleteUnlock _ _ _ _ => .run fun _ m => some (m.taskUnlock t, .idle)
  | .pendLink selfTask u => .run fun _ m =>
      some (m.setTcb u {m.tcb u with firstSusp := linkSuspTask (m.tcb u).firstSusp selfTask}, .pendTlock selfTask u)
  | .pendTlock selfTask u => .lock (.tdeleteLock u) (.pendUnlock selfTask u)
  | .pendUnlock selfTask u => .run fun _ m => some (m.taskUnlock t, .pendTest selfTask u)
  | .pendTest selfTask u => .run fun _ m =>
      some (m, if (m.tcb u).deleteSafeCount > 0 then .pendWait selfTask u else .pendRelock selfTask u)
  | .pendWait selfTask u => .wait (.tDeletable u) (.tdeleteLock u) false (fun _ => .pendWoken selfTask u)
  | .pendWoken selfTask u => .run (wokenBlock t (.pendTest selfTask u) (.pendKilled u))
  | .pendRelock selfTask u => .run (lockBlock t (.pendUnlink selfTask u) (.pendKilled u))
  | .pendUnlink selfTask u => .run fun _ m => pendUnlinkBlock selfTask u m
  | .pendDbcst u => .lock (.dbcstLock u) (.pendNotify u)
  | .pendNotify u => .broadcast (.deleteBcplt u) (.pendDunlock u)
  | .pendDunlock u => .unlock (.dbcstLock u) (.pendTunlock u)
  | .pendTunlock u => .unlock (.tdeleteLock u) (.deleteUnlock (some u) false .ok false)
  | .pendKilled u => .unlock (.tdeleteLock u) .dying
  | .forceEnter cause tid => .run fun _ m => some (m, .forceLock cause tid (m.myTask t))
  | .forceLock cause tid selfTask => .run (lockBlock t (.forceFind cause tid selfTask) cause.killed)
  | .forceFind cause tid selfTask => .run fun _ m =>
      some (m, match m.taskFor t tid with
        | none => .forceUnlock cause .objDeleted false
        | some u => .notifyTest (.force cause tid selfTask) u)
  | .forceSplit cause _ selfTask u => .run fun _ m =>
      some (m, if some u = selfTask then .forceSelfRemove cause u else .forceCancel cause u)
  -- a task without a thread has nothing to cancel: `pthrid` is zero
  | .forceCancel cause u => .run fun _ m =>
      if (m.tcb u).started = true then
        some ({m with cancelled := Function.update m.cancelled u true}, .forceJoin cause u)
      else none
  | .forceJoin cause u => .run fun _ m => if m.dead u = true then some (m, .forceRemove cause u) else none
  | .forceRemove cause u => .run fun _ m => some (m.taskDelete u, .forceUnlock cause .ok false)
  | .forceSelfRemove cause u => .run fun _ m => some (m.taskDelete u, .forceSelfUnlock cause)
  | .forceSelfUnlock cause => .run fun _ m => some (m.taskUnlock t, .forceUnlock cause .ok true)
  | .forceUnlock cause error released => .run fun _ m => some (m.taskUnlock t, cause.after error released)
  | .notifyTest caller u => .run fun _ m =>
      some (m, if (m.tcb u).firstSusp = [] then caller.after u else .notifyDlock caller u)
  | .notifyDlock caller u => .lock (.dbcstLock u) (.notifyTlock caller u)
  | .notifyTlock caller u => .lock (.tdeleteLock u) (.notifyBroadcast caller u)
  | .notifyBroadcast caller u => .broadcast (.tDeletable u) (.notifyTunlock caller u)
  | .notifyTunlock caller u => .unlock (.tdeleteLock u) (.notifyDrain caller u)
  | .notifyDrain caller u => .run fun _ m =>
      some (m, if (m.tcb u).firstSusp ≠ [] then .notifyWait caller u else .notifyDunlock caller u)
  | .notifyWait caller u => .wait (.deleteBcplt u) (.dbcstLock u) false (fun _ => .notifyWoken caller u)
  | .notifyWoken caller u => .run (wokenBlock t (.notifyDrain caller u) (.notifyKilled caller u))
  | .notifyDunlock caller u => .unlock (.dbcstLock u) (caller.after u)
  | .notifyKilled caller u => .unlock (.dbcstLock u) caller.killed
  | .safeLock => .run (lockBlock t .safeFind .dying)
  | .safeFind => .run fun _ m => ownBlock t .safeTlock m
  | .safeTlock => .lock (.tdeleteLock t) .safeCount
  | .safeCount => .run fun _ m =>
      some (m.setTcb t {m.tcb t with deleteSafeCount := countUp (m.tcb t).deleteSafeCount}, .safeTunlock)
  | .safeTunlock => .unlock (.tdeleteLock t) .safeUnlock
  | .safeUnlock => .run fun _ m => some (m.taskUnlock t, .idle)
  | .unsafeLock => .run (lockBlock t .unsafeFind .dying)
  | .unsafeFind => .run fun _ m => ownBlock t .unsafeTlock m
  | .unsafeTlock => .lock (.tdeleteLock t) .unsafeCount
  | .unsafeCount => .run fun _ m =>
      let count := countDown (m.tcb t).deleteSafeCount
      some (m.setTcb t {m.tcb t with deleteSafeCount := count},
        .unsafeTunlock ((m.tcb t).deleteSafeCount > 0 ∧ count = 0))
  | .unsafeTunlock madeDeletable => .unlock (.tdeleteLock t) (.unsafeUnlock madeDeletable)
  | .unsafeUnlock madeDeletable => .run fun _ m =>
      some (m.taskUnlock t, if madeDeletable then .unsafeCheck else .idle)
  | .unsafeCheck => .run fun _ m =>
      some (m, if (m.tcb t).firstSusp ≠ [] then .notifyTest .unsafely t else .idle)
  | .userLock => .run (lockBlock t .idle .dying)
  | .closeCleanup => .run fun _ m => some ({m with sched := m.sched.cleanup t}, .closeForce)
  -- the control block may have been freed: it still holds its identifier
  | .closeForce => .run fun _ m => some (m, .forceEnter .closing (m.tcb t).taskid)
  | .dying => .run fun _ m => some ({m with sched := m.sched.cleanup t}, .exit)
  | .exit => .run fun _ m => some ({m with dead := Function.update m.dead t true}, .dead)

abbrev TaskState (θ ι : Type) := State θ (Mem θ ι) (Lock θ) (Cond θ) (Pc θ)

abbrev TaskTransition (θ ι : Type) := Transition θ (Mem θ ι) (Lock θ) (Cond θ) (Pc θ)

/-- The tasks that the initialization has registered run, under the identifiers of their
addresses, and so may plain threads; nobody is protected, nobody waits. -/
structure Initial (address : θ → ℤ) (s : TaskState θ ι) : Prop where
  nodup : s.mem.taskList.Nodup
  listed : ∀ t ∈ s.mem.taskList, s.mem.block t = .live ∧ s.ctl t = .awake .idle
  tcb : ∀ t, s.mem.tcb t = ⟨address t, decide (t ∈ s.mem.taskList), 0, [], none⟩
  unlisted : ∀ t, t ∉ s.mem.taskList → s.mem.block t = .fresh ∧ s.ctl t = .awake .unborn ∨
    s.mem.block t = .plain ∧ s.ctl t = .awake .idle
  sched : s.mem.sched = {}
  alive : ∀ t, s.mem.cancelled t = false ∧ s.mem.dead t = false
  susp : ∀ id, s.mem.semSusp id = []
  owner : ∀ m, s.owner m = none

/-- An initial state: the tasks in `l` are registered, and there is no plain thread. -/
def boot (address : θ → ℤ) (l : List θ) : TaskState θ ι where
  mem := ⟨l, fun t => ⟨address t, decide (t ∈ l), 0, [], none⟩, fun t => if t ∈ l then .live else .fresh, {},
    fun _ => false, fun _ => false, fun _ => []⟩
  owner := fun _ => none
  signals := fun _ => 0
  ctl := fun t => .awake (if t ∈ l then .idle else .unborn)

omit [DecidableEq ι] in
theorem boot_initial (address : θ → ℤ) {l : List θ} (h : l.Nodup) :
    Initial address (boot address l : TaskState θ ι) where
  nodup := h
  listed _ ht := ⟨if_pos ht, congrArg Ctl.awake (if_pos ht)⟩
  tcb _ := rfl
  unlisted _ ht := .inl ⟨if_neg ht, congrArg Ctl.awake (if_neg ht)⟩
  sched := rfl
  alive _ := ⟨rfl, rfl⟩
  susp _ := rfl
  owner _ := rfl

omit [DecidableEq ι] in
/-- At the start nobody is pended or deletes anything. -/
theorem Initial.point {address : θ → ℤ} {s : TaskState θ ι} (h : Initial address s) (t : θ) :
    (s.ctl t).point = .idle ∨ (s.ctl t).point = .unborn := by
  by_cases hin : t ∈ s.mem.taskList
  · exact .inl (by rw [(h.listed t hin).2]; rfl)
  · obtain ⟨_, hp⟩ | ⟨_, hp⟩ := h.unlisted t hin
    · exact .inr (by rw [hp]; rfl)
    · exact .inl (by rw [hp]; rfl)

/-! ### Schedules -/

def does (t : θ) (choice : Choice θ) : θ × Input (Choice θ) := (t, {choice := choice})

/-- Thread `t` goes on for `n` steps. -/
def goesOn (t : θ) (n : ℕ) : List (θ × Input (Choice θ)) := List.replicate n (t, {choice := .none})

/-- Three tasks, at the addresses 65537 to 65539. -/
def threeIds : AddressIds (Fin 3) where
  id t := 65537 + t.val
  apart t := by omega

end

end V2lin.TaskLib
