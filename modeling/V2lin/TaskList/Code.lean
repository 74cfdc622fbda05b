import V2lin.Lists.Chain
import V2lin.Task.Translate
import V2lin.Threads.Lookups

/-! The list of tasks, link by link.

The other models of the task library have `task_list` as a list, and look a task up in one
step. Here are the loops: those that append a control block to the list and take one out,
under `task_list_lock`, and those that look along it for a task, with the lock, with the
scheduler lock only, or with no lock at all, as `my_task` does. A step reads or writes one
link, or another field.

The scheduler lock is left out: what it keeps apart may happen at the same time here. So are
the semaphores that tasks wait for, what ends the threads of deleted and restarted tasks, and
the error numbers. Memory that has been freed may hold anything. -/
namespace V2lin.TaskList
open Threads V2lin.Lists

/-- `task_t`, as far as the list and the lookups use it. A null pointer is `none`; of `state`
only whether it is `DEAD` counts. -/
structure Tcb (θ τ : Type) where
  taskid : ℤ
  taskname : Option String
  pthrid : Option θ
  staticTask : Bool
  dead : Bool
  nxtTask : Option τ
  deriving DecidableEq

inductive Op (τ : Type) where
  | taskInit (task : Option τ) (name : Option String) (pri opts : ℤ)
  | taskSpawn (name : Option String) (pri opts : ℤ)
  | taskActivate (tid : ℤ)
  /-- `taskDelete` and `taskDeleteForce`, once they may. -/
  | taskDelete (tid : ℤ)
  /-- `taskRestart` of another task, and `self_starter`. -/
  | taskRestart (tid : ℤ)
  /-- `my_task`, which is also the beginning of many other calls. -/
  | myTask
  | taskIdSelf
  | taskIdVerify (tid : ℤ)
  | taskTcb (tid : ℤ)
  | taskName (tid : ℤ)
  | taskNameToId (name : Option String)
  | taskIdListGet (maxIds : ℤ)
  deriving DecidableEq

inductive Reply (τ : Type) where
  | status (ok : Bool)
  | tcb (task : Option τ)
  | id (tid : ℤ)
  | name (name : Option String)
  | ids (list : List ℤ)
  deriving DecidableEq

/-- What a loop along the list looks for, with what it has collected. -/
inductive Search where
  | me
  | task (tid : ℤ)
  | named (name : String)
  | ids (maxIds : ℤ) (list : List ℤ)
  | newTid (newTaskid : ℤ)
  deriving DecidableEq

/-- A call that goes on with a task that it looks up by its identifier. -/
inductive Cause where
  | activate
  /-- The `taskActivate` in `taskSpawn`. -/
  | spawn (tid : ℤ)
  | delete
  | restart
  deriving DecidableEq

/-- The code around a loop. -/
inductive Caller (τ : Type) where
  | myTask
  | taskIdSelf
  | taskIdVerify
  | taskTcb
  | taskName
  | taskNameToId
  | taskIdListGet
  | newTid (task : τ) (name : Option String) (pri opts : ℤ)
  | taskFor (cause : Cause)
  deriving DecidableEq

/-- Who calls `taskInit`: the user, or `taskSpawn`, which has an identifier for the task. -/
inductive Maker where
  | user
  | spawn (tid : ℤ)
  deriving DecidableEq

inductive Pc (τ : Type) where
  /-- In the user's code. -/
  | idle
  | enter (op : Op τ)
  | returned (reply : Reply τ)
  /-- `pthread_mutex_unlock(&task_list_lock)` -/
  | unlock (next : Pc τ)
  -- a loop along the list
  | searchLock (caller : Caller τ) (q : Search)
  | search (caller : Caller τ) (q : Search)
  | test (caller : Caller τ) (q : Search) (t : Option τ)
  | next (caller : Caller τ) (q : Search) (t : τ)
  | found (caller : Caller τ) (q : Search) (t : Option τ)
  | selfRead (selfTask : Option τ)
  -- `taskInit`
  | initTest (maker : Maker) (task : Option τ) (name : Option String) (pri opts : ℤ)
  | initLock (maker : Maker) (task : τ) (name : Option String) (pri : ℤ)
  | initClear (maker : Maker) (task : τ) (name : Option String) (pri : ℤ)
  | initWalk (maker : Maker) (task : τ) (i : Cell Unit τ)
  | initLink (maker : Maker) (task : τ) (i : Cell Unit τ)
  | inited (maker : Maker) (task : Option τ) (ok : Bool)
  -- `taskSpawn`
  | spawnClear (task : τ) (name : Option String) (pri opts : ℤ)
  | spawnTaskid (task : τ) (tid : ℤ)
  | spawnStatic (task : τ) (tid : ℤ)
  | spawnFree (task : τ) (tid : ℤ)
  -- `taskActivate`, `taskRestart`
  | activate (cause : Cause) (task : τ)
  | restart (task : τ)
  | create (cause : Cause) (task : τ)
  -- `task_delete`
  | removeLock (cause : Cause) (task : τ)
  | removeWalk (cause : Cause) (task : τ) (i : Cell Unit τ)
  | removeLink (cause : Cause) (task : τ) (i : Cell Unit τ)
  | freeName (cause : Cause) (task : τ)
  | free (cause : Cause) (task : τ)
  deriving DecidableEq

/-- What the outside decides: the next call, the address that `ts_malloc` returns, the thread
that `pthread_create` makes, and what freed memory holds. -/
inductive Choice (θ τ : Type) where
  | none
  | call (op : Op τ)
  | address (task : τ)
  | thread (w : θ)
  | noThread
  | memory (b : Tcb θ τ)

inductive Lock where
  | taskListLock
  deriving DecidableEq

structure Mem (θ τ : Type) where
  taskList : Option τ
  tcb : τ → Tcb θ τ

section
variable {θ τ : Type} [DecidableEq θ] [DecidableEq τ]

/-- What a place for a link holds: `task_list`, or a `nxt_task`. -/
def Mem.links (m : Mem θ τ) : Cell Unit τ → Option τ
  | .head _ => m.taskList
  | .next u => (m.tcb u).nxtTask

def Mem.setTcb (m : Mem θ τ) (u : τ) (b : Tcb θ τ) : Mem θ τ := {m with tcb := Function.update m.tcb u b}

/-- `*i = v` -/
def Mem.store (m : Mem θ τ) (i : Cell Unit τ) (v : Option τ) : Mem θ τ :=
  match i with
  | .head _ => {m with taskList := v}
  | .next u => m.setTcb u {m.tcb u with nxtTask := v}

/-! ### The loops -/

/-- `task_for` looks for the caller's own task if the identifier is null. -/
def taskFor (tid : ℤ) : Search := if tid = 0 then .me else .task tid

/-- Whether the loop of thread `t` ends at a control block. `strcmp` crashes on a null name. -/
def Search.hit (t : θ) (q : Search) (b : Tcb θ τ) : Option Bool :=
  match q with
  | .me => some (b.pthrid = some t)
  | .task tid => some (b.taskid = tid)
  | .named name => b.taskname.map fun taskname => name = taskname
  | .ids _ _ => some false
  | .newTid _ => some false

/-- What the loop collects at a control block. -/
def Search.pass (q : Search) (b : Tcb θ τ) : Search :=
  match q with
  | .ids maxIds list => .ids maxIds (if (list.length : ℤ) < maxIds then list ++ [b.taskid] else list)
  | .newTid newTaskid => .newTid (if b.taskid < 65536 ∧ b.taskid ≥ newTaskid then b.taskid + 1 else newTaskid)
  | q => q

def Search.list : Search → List ℤ
  | .ids _ list => list
  | _ => []

def Search.newTaskid : Search → ℤ
  | .newTid newTaskid => newTaskid
  | _ => 1

/-- The loops under `task_list_lock`. -/
def Caller.locked : Caller τ → Bool
  | .taskIdSelf | .taskIdVerify | .taskTcb | .taskName | .taskNameToId => true
  | _ => false

/-! ### Blocks -/

def Cause.reply (ok : Bool) : Cause → Reply τ
  | .spawn tid => .id (if ok then tid else -1)
  | _ => .status ok

/-- The answer after `task_delete`: in `taskActivate` it follows a failed `pthread_create`. -/
def Cause.removed (cause : Cause) : Reply τ := cause.reply (cause = .delete)

/-- The control block that `taskInit` makes. -/
def newTcb (ids : τ → ℤ) (u : τ) (name : Option String) : Tcb θ τ where
  taskid := ids u
  taskname := name
  pthrid := none
  staticTask := true
  dead := true
  nxtTask := none

/-- `memset(task, 0, sizeof(*task))` -/
def zeroTcb : Tcb θ τ := ⟨0, none, none, false, false, none⟩

/-- The calls, as far as to their first loop or `taskInit`. -/
def enterBlock (op : Op τ) (choice : Choice θ τ) (m : Mem θ τ) : Option (Mem θ τ × Pc τ) :=
  match op with
  | .taskInit task name pri opts => some (m, .initTest .user task name pri opts)
  | .taskSpawn name pri opts =>
    match choice with
    | .address u => some (m, .spawnClear u name pri opts)
    | _ => none
  | .taskActivate tid => some (m, .search (.taskFor .activate) (taskFor tid))
  | .taskDelete tid => some (m, .search (.taskFor .delete) (taskFor tid))
  | .taskRestart tid => some (m, .search (.taskFor .restart) (taskFor tid))
  | .myTask => some (m, .search .myTask .me)
  | .taskIdSelf => some (m, .searchLock .taskIdSelf .me)
  | .taskIdVerify tid => some (m, .searchLock .taskIdVerify (taskFor tid))
  | .taskTcb tid => some (m, .searchLock .taskTcb (taskFor tid))
  | .taskName tid => some (m, .searchLock .taskName (taskFor tid))
  | .taskNameToId none => some (m, .returned (.id (-1)))
  | .taskNameToId (some name) => some (m, .searchLock .taskNameToId (.named name))
  | .taskIdListGet maxIds => some (m, .search .taskIdListGet (.ids maxIds []))

/-- The condition and the body of a loop. -/
def testBlock (t : θ) (caller : Caller τ) (q : Search) (p : Option τ) (m : Mem θ τ) : Option (Mem θ τ × Pc τ) :=
  match p with
  | none => some (m, .found caller q none)
  | some u => (q.hit t (m.tcb u)).map fun hit =>
      (m, if hit = true then .found caller q (some u) else .next caller (q.pass (m.tcb u)) u)

/-- `taskActivate` and `taskRestart` go on with the task that they have found, `taskDelete`
with `task_delete`. -/
def Cause.after (cause : Cause) (t : Option τ) : Pc τ :=
  match t with
  | none => .returned (cause.reply false)
  | some u =>
    match cause with
    | .activate => .activate .activate u
    | .spawn tid => .activate (.spawn tid) u
    | .delete => .removeLock .delete u
    | .restart => .restart u

/-- The code after a loop. -/
def foundBlock (caller : Caller τ) (q : Search) (t : Option τ) (m : Mem θ τ) : Pc τ :=
  match caller with
  | .myTask => .returned (.tcb t)
  | .taskIdSelf => .unlock (.selfRead t)
  | .taskIdVerify => .unlock (.returned (.status t.isSome))
  | .taskTcb => .unlock (.returned (.tcb t))
  | .taskName => .unlock (.returned (.name (match t with
      | none => some "NULLTASK"
      | some u => (m.tcb u).taskname)))
  | .taskNameToId => .unlock (.returned (.id (match t with
      | none => -1
      | some u => (m.tcb u).taskid)))
  | .taskIdListGet => .returned (.ids q.list)
  | .newTid u name pri opts =>
    let tid := q.newTaskid
    -- `sprintf(myname, "t%d", my_tid)`
    .initTest (.spawn tid) (some u) (some (name.getD ("t" ++ toString tid))) pri opts
  | .taskFor cause => cause.after t

/-- `taskInit` before it takes the lock. Without a control block it goes to the `unlock`. -/
def initTestBlock (maker : Maker) (task : Option τ) (name : Option String) (pri opts : ℤ) : Pc τ :=
  if opts ≠ 0 then .inited maker task false
  else match task with
    | none => .unlock (.inited maker none false)
    | some u => .initLock maker u name pri

/-- What follows `taskInit`. -/
def initedBlock (maker : Maker) (task : Option τ) (ok : Bool) : Pc τ :=
  match maker, task with
  | .spawn tid, some u => if ok = true then .spawnTaskid u tid else .spawnFree u tid
  | _, _ => .returned (.status ok)

/-- `pthread_create(&task->pthrid, ..)` -/
def createBlock (cause : Cause) (u : τ) (choice : Choice θ τ) (m : Mem θ τ) : Option (Mem θ τ × Pc τ) :=
  match choice with
  | .thread w => some (m.setTcb u {m.tcb u with pthrid := some w}, .returned (cause.reply true))
  | .noThread => some (m, if cause = .restart then .returned (cause.reply false) else .removeLock cause u)
  | _ => none

/-- `ts_free` -/
def freeBlock (u : τ) (next : Pc τ) (choice : Choice θ τ) (m : Mem θ τ) : Option (Mem θ τ × Pc τ) :=
  match choice with
  | .memory b => some (m.setTcb u b, next)
  | _ => none

/-- `if (task->taskname) ts_free(task->taskname)` -/
def freeNameBlock (u : τ) (next : Pc τ) (choice : Choice θ τ) (m : Mem θ τ) : Option (Mem θ τ × Pc τ) :=
  match (m.tcb u).taskname, choice with
  | none, _ => some (m, next)
  | some _, .memory b => some (m.setTcb u {m.tcb u with taskname := b.taskname}, next)
  | some _, _ => none

/-- The library. The address of a control block gives its first identifier. -/
def code (ids : τ → ℤ) (t : θ) : Pc τ → Instr (Mem θ τ) Lock Empty (Pc τ) (Choice θ τ)
  | .idle => .run fun choice m => match choice with
      | .call op => some (m, .enter op)
      | _ => none
  | .enter op => .run (enterBlock op)
  | .returned _ => .run fun _ m => some (m, .idle)
  | .unlock next => .unlock .taskListLock next
  | .searchLock caller q => .lock .taskListLock (.search caller q)
  | .search caller q => .run fun _ m => some (m, .test caller q m.taskList)
  | .test caller q p => .run fun _ m => testBlock t caller q p m
  | .next caller q u => .run fun _ m => some (m, .test caller q (m.tcb u).nxtTask)
  | .found caller q p => .run fun _ m => some (m, foundBlock caller q p m)
  | .selfRead selfTask => .run fun _ m => some (m, .returned (.id (match selfTask with
      | none => 0
      | some u => (m.tcb u).taskid)))
  | .initTest maker task name pri opts => .run fun _ m => some (m, initTestBlock maker task name pri opts)
  | .initLock maker u name pri => .lock .taskListLock (.initClear maker u name pri)
  | .initClear maker u name pri => .run fun _ m =>
      some (m.setTcb u (newTcb ids u name),
        if Task.Legal pri then .initWalk maker u (.head ()) else .unlock (.inited maker (some u) false))
  | .initWalk maker u i => .run fun _ m => some (m, match m.links i with
      | some v => .initWalk maker u (.next v)
      | none => .initLink maker u i)
  | .initLink maker u i => .run fun _ m => some (m.store i (some u), .unlock (.inited maker (some u) true))
  | .inited maker task ok => .run fun _ m => some (m, initedBlock maker task ok)
  | .spawnClear u name pri opts => .run fun _ m =>
      some (m.setTcb u zeroTcb, .search (.newTid u name pri opts) (.newTid 1))
  | .spawnTaskid u tid => .run fun _ m => some (m.setTcb u {m.tcb u with taskid := tid}, .spawnStatic u tid)
  | .spawnStatic u tid => .run fun _ m =>
      some (m.setTcb u {m.tcb u with staticTask := false}, .search (.taskFor (.spawn tid)) (taskFor tid))
  | .spawnFree u tid => .run (freeBlock u (.search (.taskFor (.spawn tid)) (taskFor tid)))
  | .activate cause u => .run fun _ m =>
      some (if (m.tcb u).dead = true then (m.setTcb u {m.tcb u with dead := false, pthrid := none}, .create cause u)
        else (m, .returned (cause.reply true)))
  | .restart u => .run fun _ m =>
      some (m.setTcb u {m.tcb u with dead := false, pthrid := none}, .create .restart u)
  | .create cause u => .run (createBlock cause u)
  | .removeLock cause u => .lock .taskListLock (.removeWalk cause u (.head ()))
  | .removeWalk cause u i => .run fun _ m => some (m, match m.links i with
      | none => .unlock (.freeName cause u)
      | some v => if u = v then .removeLink cause u i else .removeWalk cause u (.next v))
  -- `*i = (*i)->nxt_task`
  | .removeLink cause u i => .run fun _ m =>
      (m.links i).map fun v => (m.store i (m.links (.next v)), .unlock (.freeName cause u))
  | .freeName cause u => .run (freeNameBlock u (.free cause u))
  | .free cause u => .run fun choice m =>
      if (m.tcb u).staticTask = true then some (m, .returned cause.removed)
      else freeBlock u (.returned cause.removed) choice m

abbrev ListState (θ τ : Type) := State θ (Mem θ τ) Lock Empty (Pc τ)

abbrev ListTransition (θ τ : Type) := Transition θ (Mem θ τ) Lock Empty (Pc τ)

/-- Nobody is in the library, and the links from `task_list` on go through `l`. -/
structure Initial (l : List τ) (s : ListState θ τ) : Prop where
  chain : Chain s.mem.links (.head ()) l
  point : ∀ t, s.ctl t = .awake .idle
  owner : ∀ k, s.owner k = none

end

end V2lin.TaskList
