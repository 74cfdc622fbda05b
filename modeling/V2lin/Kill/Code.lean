import V2lin.TaskLib.Sound
import V2lin.Threads.Embed

/-! Tasks that are killed while they wait.

The task library runs as a part of this program; around it are the three calls in which a
task waits for a semaphore or a message queue, and `taskRestart`. What a call waits for is
not modelled: the outside decides whether it is there and whether it is the caller's. What
is modelled is what the claimants of a task rely on: on which lists its control block is,
what its `waiting` pointer says, and where its thread may be killed.

A task that restarts itself exits and leaves a watchdog timer behind, which calls
`self_starter` in the exception task; a timer may also be deleted before that. Whoever is
in its user's code may be the exception task here. -/
namespace V2lin.Kill
open Threads V2lin.Task V2lin.TaskLib

inductive Lock (θ ι κ : Type) where
  | task (l : TaskLib.Lock θ)
  | semLock (id : ι)
  | queueLock (q : κ)
  | qfullLock (q : κ)
  deriving DecidableEq

inductive Cond (θ ι κ : Type) where
  | task (c : TaskLib.Cond θ)
  | semSend (id : ι)
  | queueSend (q : κ)
  | queueSpace (q : κ)
  deriving DecidableEq

inductive Pc (θ ι κ : Type) where
  | task (p : TaskLib.Pc θ)
  -- `semTake`, `wait_for_token`
  | takeLock (id : ι)
  | takeFound (id : ι)
  | takeLink (id : ι) (ourTask : Option θ)
  | takeTest (id : ι) (ourTask : Option θ)
  | takeWait (id : ι) (ourTask : Option θ)
  | takeWoken (id : ι) (ourTask : Option θ)
  /-- The token is not ours: a `taskDelay` without the lock. -/
  | takeDelay (id : ι) (ourTask : Option θ)
  | takeSleep (id : ι) (ourTask : Option θ)
  | takeRelock (id : ι) (ourTask : Option θ)
  | takeUnlink (id : ι) (ourTask : Option θ)
  | takeClear (id : ι) (ourTask : Option θ)
  | takeUnlock (id : ι)
  | takeKilled (id : ι)
  -- `msgQReceive`
  | receiveLock (q : κ)
  | receiveLink (q : κ)
  | receiveTest (q : κ) (ourTask : Option θ)
  | receiveWait (q : κ) (ourTask : Option θ)
  | receiveWoken (q : κ) (ourTask : Option θ)
  | receiveDelay (q : κ) (ourTask : Option θ)
  | receiveSleep (q : κ) (ourTask : Option θ)
  | receiveRelock (q : κ) (ourTask : Option θ)
  | receiveUnlink (q : κ) (ourTask : Option θ)
  | receiveUnlock (q : κ)
  | receiveKilled (q : κ)
  -- `msgQSend`, `waitToSend`
  | sendLock (q : κ)
  | sendLink (q : κ)
  | sendRelease (q : κ) (ourTask : Option θ)
  | sendTest (q : κ) (ourTask : Option θ)
  | sendWait (q : κ) (ourTask : Option θ)
  | sendWoken (q : κ) (ourTask : Option θ)
  | sendDelay (q : κ) (ourTask : Option θ)
  | sendSleep (q : κ) (ourTask : Option θ)
  | sendRelock (q : κ) (ourTask : Option θ)
  | sendAgain (q : κ) (ourTask : Option θ)
  | sendUnlink (q : κ) (ourTask : Option θ)
  | sendUnlock (q : κ)
  | sendKilled (q : κ)
  -- `taskRestart`
  | restartLock (tid : ℤ)
  | restartFind (tid : ℤ)
  | restartUnlink (selfTask : Option θ) (t : θ)
  | restartCancel (t : θ)
  | restartJoin (t : θ)
  | restartCreate (t : θ)
  | restartUnlock
  /-- `selfRestart`, with the scheduler locked. -/
  | restartSelf (t : θ)
  -- `self_starter`
  | starterFind (tid : ℤ)
  | starterCreate (t : θ)
  deriving DecidableEq

/-- What the outside decides. -/
inductive Choice (θ ι κ : Type) where
  | task (c : TaskLib.Choice θ)
  | semTake (id : ι)
  | msgQReceive (q : κ)
  | msgQSend (q : κ)
  | taskRestart (tid : ℤ)
  /-- A restart timer calls `self_starter`. -/
  | selfStarter (tid : ℤ)
  /-- The call need not wait: the mutex is ours already, the arguments are refused, the
  message has been posted. -/
  | done
  /-- The wait has ended. -/
  | ended
  /-- There is something, for somebody else. -/
  | notOurs
  deriving DecidableEq

structure Mem (θ ι κ : Type) where
  task : TaskLib.Mem θ ι
  firstSusp : κ → List θ
  firstWriteSusp : κ → List θ
  /-- `taskRestart` or `self_starter` has created a new thread, which has not run yet. -/
  reborn : θ → Bool
  /-- The identifiers for which restart timers have been started. -/
  restartWdogs : List ℤ

/-- The lists of waiting tasks. -/
inductive WaitList (θ ι κ : Type) where
  | sem (id : ι)
  | receivers (q : κ)
  | writers (q : κ)
  | deleters (t : θ)
  deriving DecidableEq

section
variable {θ ι κ : Type}

def Mem.waitList (m : Mem θ ι κ) : WaitList θ ι κ → List θ
  | .sem id => m.task.semSusp id
  | .receivers q => m.firstSusp q
  | .writers q => m.firstWriteSusp q
  | .deleters t => (m.task.tcb t).firstSusp

variable [DecidableEq θ] [DecidableEq ι] [DecidableEq κ]

def Mem.setTask (m : Mem θ ι κ) (n : TaskLib.Mem θ ι) : Mem θ ι κ := {m with task := n}

def Mem.setSemSusp (m : Mem θ ι κ) (id : ι) (l : List θ) : Mem θ ι κ :=
  m.setTask {m.task with semSusp := Function.update m.task.semSusp id l}

def Mem.setFirstSusp (m : Mem θ ι κ) (q : κ) (l : List θ) : Mem θ ι κ :=
  {m with firstSusp := Function.update m.firstSusp q l}

def Mem.setFirstWriteSusp (m : Mem θ ι κ) (q : κ) (l : List θ) : Mem θ ι κ :=
  {m with firstWriteSusp := Function.update m.firstWriteSusp q l}

/-- `if (our_task) our_task->waiting = w`. -/
def Mem.setWaiting (m : Mem θ ι κ) (ourTask : Option θ) (w : Option ι) : Mem θ ι κ :=
  match ourTask with
  | none => m
  | some t => m.setTask (m.task.setTcb t {m.task.tcb t with waiting := w})

/-! ### The task library as a part -/

/-- A thread outside the task library is in its user's code. -/
def Pc.leave : Pc θ ι κ → TaskLib.Pc θ
  | .task p => p
  | _ => .idle

def Choice.toTask : Choice θ ι κ → TaskLib.Choice θ
  | .task c => c
  | _ => .none

def part : Embedding (TaskLib.Mem θ ι) (TaskLib.Lock θ) (TaskLib.Cond θ) (TaskLib.Pc θ) (TaskLib.Choice θ)
    (Mem θ ι κ) (Lock θ ι κ) (Cond θ ι κ) (Pc θ ι κ) (Choice θ ι κ) where
  get := Mem.task
  put m n := m.setTask n
  get_put _ _ := rfl
  lock := .task
  lock_injective _ _ h := Lock.task.inj h
  cond := .task
  cond_injective _ _ h := Cond.task.inj h
  enter := .task
  leave := Pc.leave
  leave_enter _ := rfl
  choice := Choice.toTask

/-- The next call of the user's code. -/
def userBlock (t : θ) (choice : Choice θ ι κ) (m : Mem θ ι κ) : Option (Mem θ ι κ × Pc θ ι κ) :=
  match choice with
  | .semTake id => some (m, .takeLock id)
  | .msgQReceive q => some (m, .receiveLock q)
  | .msgQSend q => some (m, .sendLock q)
  | .taskRestart tid => some (m, .restartLock tid)
  | .selfStarter tid =>
    if tid ∈ m.restartWdogs then some ({m with restartWdogs := m.restartWdogs.erase tid}, .starterFind tid) else none
  | .task c => (TaskLib.userBlock t c m.task).map fun r => (m.setTask r.1, .task r.2)
  | _ => none

/-- A thread that has been created for a task again starts at the entry point. -/
def rebornBlock (t : θ) (m : Mem θ ι κ) : Option (Mem θ ι κ × Pc θ ι κ) :=
  if m.reborn t = true then some ({m with reborn := Function.update m.reborn t false}, .task .idle) else none

def taskInstr (ids : AddressIds θ) (t : θ) (p : TaskLib.Pc θ) :
    Instr (Mem θ ι κ) (Lock θ ι κ) (Cond θ ι κ) (Pc θ ι κ) (Choice θ ι κ) :=
  if p = .idle then .run (userBlock t)
  else if p = .dead then .run fun _ m => rebornBlock t m
  else (TaskLib.code ids t p).embed part

/-! ### The waits -/

/-- What a thread does when its wait is over or its cancellation acts. -/
def wokenBlock (t : θ) (next killed : Pc θ ι κ) (choice : Choice θ ι κ) (m : Mem θ ι κ) :
    Option (Mem θ ι κ × Pc θ ι κ) :=
  cancelBlock (choice = .task .kill) (m.task.cancelled t) killed m (some (m, next))

/-- The test of a wait loop. -/
def testPoint (ended delay wait : Pc θ ι κ) (choice : Choice θ ι κ) : Pc θ ι κ :=
  match choice with
  | .ended => ended
  | .notOurs => delay
  | _ => wait

/-- `semTake` with the semaphore locked. -/
def takeFoundBlock (t : θ) (id : ι) (choice : Choice θ ι κ) (m : Mem θ ι κ) : Mem θ ι κ × Pc θ ι κ :=
  let ourTask := m.task.myTask t
  (m.setWaiting ourTask (some id), if choice = .done then .takeClear id ourTask else .takeLink id ourTask)

/-- `msgQReceive` with the queue locked. -/
def receiveLinkBlock (t : θ) (q : κ) (choice : Choice θ ι κ) (m : Mem θ ι κ) : Mem θ ι κ × Pc θ ι κ :=
  if choice = .done then (m, .receiveUnlock q)
  else
    let ourTask := m.task.myTask t
    (m.setFirstSusp q (linkSuspTask (m.firstSusp q) ourTask), .receiveTest q ourTask)

/-- `msgQSend` with the queue locked. -/
def sendLinkBlock (t : θ) (q : κ) (choice : Choice θ ι κ) (m : Mem θ ι κ) : Mem θ ι κ × Pc θ ι κ :=
  if choice = .done then (m, .sendUnlock q)
  else
    let ourTask := m.task.myTask t
    (m.setFirstWriteSusp q (linkSuspTask (m.firstWriteSusp q) ourTask), .sendRelease q ourTask)

/-! ### Restarting -/

def restartLockBlock (t : θ) (tid : ℤ) (choice : Choice θ ι κ) (m : Mem θ ι κ) : Option (Mem θ ι κ × Pc θ ι κ) :=
  match choice with
  | .task .kill => if m.task.cancelled t = true then some (m, .task .dying) else none
  | _ => (m.task.sched.taskLock t).map fun k => (m.setTask {m.task with sched := k}, .restartFind tid)

/-- Without a task the scheduler stays locked. -/
def restartFindBlock (t : θ) (tid : ℤ) (m : Mem θ ι κ) : Mem θ ι κ × Pc θ ι κ :=
  (m, match m.task.taskFor t tid with
    | none => .task .idle
    | some u => .restartUnlink (m.task.myTask t) u)

/-- The task leaves the list of the semaphore that it waits for. -/
def restartUnlinkBlock (selfTask : Option θ) (u : θ) (m : Mem θ ι κ) : Mem θ ι κ × Pc θ ι κ :=
  (m.setTask (m.task.unlinkWaiting u), if some u = selfTask then .restartSelf u else .restartCancel u)

/-- A new thread for the control block as it is. -/
def Mem.recreate (m : Mem θ ι κ) (u : θ) : Mem θ ι κ :=
  {m with
    task := {m.task with
      cancelled := Function.update m.task.cancelled u false
      dead := Function.update m.task.dead u false}
    reborn := Function.update m.reborn u true}

/-- `pthread_create`. -/
def restartCreateBlock (u : θ) (choice : Choice θ ι κ) (m : Mem θ ι κ) : Mem θ ι κ × Pc θ ι κ :=
  if choice = .task .noThread then (m, .restartUnlock) else (m.recreate u, .restartUnlock)

/-- A timer is started for the identifier of the task, which exits then. Its thread is
detached, but whoever comes to join it holds the scheduler lock, and then it has done all
but `exit`. -/
def restartSelfBlock (u : θ) (m : Mem θ ι κ) : Mem θ ι κ × Pc θ ι κ :=
  ({m with restartWdogs := (m.task.tcb u).taskid :: m.restartWdogs}, .task .dying)

/-- `task_for` in `self_starter`, without a lock. -/
def starterFindBlock (t : θ) (tid : ℤ) (m : Mem θ ι κ) : Mem θ ι κ × Pc θ ι κ :=
  (m, match m.task.taskFor t tid with
    | none => .task .idle
    | some u => .starterCreate u)

/-- `pthread_create` in `self_starter`. A second thread of a task whose thread is there still
is not followed: the results exclude the step that creates one. -/
def starterCreateBlock (u : θ) (choice : Choice θ ι κ) (m : Mem θ ι κ) : Mem θ ι κ × Pc θ ι κ :=
  if choice = .task .noThread ∨ m.task.dead u = false then (m, .task .idle) else (m.recreate u, .task .idle)

/-- The program. -/
def code (ids : AddressIds θ) (t : θ) :
    Pc θ ι κ → Instr (Mem θ ι κ) (Lock θ ι κ) (Cond θ ι κ) (Pc θ ι κ) (Choice θ ι κ)
  | .task p => taskInstr ids t p
  | .takeLock id => .lock (.semLock id) (.takeFound id)
  | .takeFound id => .run fun choice m => some (takeFoundBlock t id choice m)
  | .takeLink id ourTask => .run fun _ m =>
      some (m.setSemSusp id (linkSuspTask (m.task.semSusp id) ourTask), .takeTest id ourTask)
  | .takeTest id ourTask => .run fun choice m =>
      some (m, testPoint (.takeUnlink id ourTask) (.takeDelay id ourTask) (.takeWait id ourTask) choice)
  | .takeWait id ourTask => .wait (.semSend id) (.semLock id) true (fun _ => .takeWoken id ourTask)
  | .takeWoken id ourTask => .run (wokenBlock t (.takeTest id ourTask) (.takeKilled id))
  | .takeDelay id ourTask => .unlock (.semLock id) (.takeSleep id ourTask)
  | .takeSleep id ourTask => .run (wokenBlock t (.takeRelock id ourTask) (.takeKilled id))
  | .takeRelock id ourTask => .lock (.semLock id) (.takeTest id ourTask)
  | .takeUnlink id ourTask => .run fun _ m =>
      some (m.setSemSusp id (unlinkSuspTask (m.task.semSusp id) ourTask), .takeClear id ourTask)
  | .takeClear id ourTask => .run fun _ m => some (m.setWaiting ourTask none, .takeUnlock id)
  | .takeUnlock id => .unlock (.semLock id) (.task .idle)
  | .takeKilled id => .unlock (.semLock id) (.task .dying)
  | .receiveLock q => .lock (.queueLock q) (.receiveLink q)
  | .receiveLink q => .run fun choice m => some (receiveLinkBlock t q choice m)
  | .receiveTest q ourTask => .run fun choice m =>
      some (m, testPoint (.receiveUnlink q ourTask) (.receiveDelay q ourTask) (.receiveWait q ourTask) choice)
  | .receiveWait q ourTask => .wait (.queueSend q) (.queueLock q) true (fun _ => .receiveWoken q ourTask)
  | .receiveWoken q ourTask => .run (wokenBlock t (.receiveTest q ourTask) (.receiveKilled q))
  | .receiveDelay q ourTask => .unlock (.queueLock q) (.receiveSleep q ourTask)
  | .receiveSleep q ourTask => .run (wokenBlock t (.receiveRelock q ourTask) (.receiveKilled q))
  | .receiveRelock q ourTask => .lock (.queueLock q) (.receiveTest q ourTask)
  | .receiveUnlink q ourTask => .run fun _ m =>
      some (m.setFirstSusp q (unlinkSuspTask (m.firstSusp q) ourTask), .receiveUnlock q)
  | .receiveUnlock q => .unlock (.queueLock q) (.task .idle)
  | .receiveKilled q => .unlock (.queueLock q) (.task .dying)
  | .sendLock q => .lock (.queueLock q) (.sendLink q)
  | .sendLink q => .run fun choice m => some (sendLinkBlock t q choice m)
  | .sendRelease q ourTask => .unlock (.queueLock q) (.sendTest q ourTask)
  | .sendTest q ourTask => .run fun choice m =>
      some (m, testPoint (.sendAgain q ourTask) (.sendDelay q ourTask) (.sendWait q ourTask) choice)
  | .sendWait q ourTask => .wait (.queueSpace q) (.qfullLock q) true (fun _ => .sendWoken q ourTask)
  | .sendWoken q ourTask => .run (wokenBlock t (.sendTest q ourTask) (.sendKilled q))
  | .sendDelay q ourTask => .unlock (.qfullLock q) (.sendSleep q ourTask)
  | .sendSleep q ourTask => .run (wokenBlock t (.sendRelock q ourTask) (.sendKilled q))
  | .sendRelock q ourTask => .lock (.qfullLock q) (.sendTest q ourTask)
  | .sendAgain q ourTask => .lock (.queueLock q) (.sendUnlink q ourTask)
  | .sendUnlink q ourTask => .run fun _ m =>
      some (m.setFirstWriteSusp q (unlinkSuspTask (m.firstWriteSusp q) ourTask), .sendUnlock q)
  | .sendUnlock q => .unlock (.queueLock q) (.task .idle)
  -- the handler unlocks `queue_lock`, which is not held in the wait
  | .sendKilled q => .unlock (.queueLock q) (.task .dying)
  | .restartLock tid => .run (restartLockBlock t tid)
  | .restartFind tid => .run fun _ m => some (restartFindBlock t tid m)
  | .restartUnlink selfTask u => .run fun _ m => some (restartUnlinkBlock selfTask u m)
  | .restartCancel u => .run fun _ m =>
      if (m.task.tcb u).started = true then
        some (m.setTask {m.task with cancelled := Function.update m.task.cancelled u true}, .restartJoin u)
      else none
  | .restartJoin u => .run fun _ m => if m.task.dead u = true then some (m, .restartCreate u) else none
  | .restartCreate u => .run fun choice m => some (restartCreateBlock u choice m)
  | .restartUnlock => .run fun _ m => some (m.setTask (m.task.taskUnlock t), .task .idle)
  | .restartSelf u => .run fun _ m => some (restartSelfBlock u m)
  | .starterFind tid => .run fun _ m => some (starterFindBlock t tid m)
  | .starterCreate u => .run fun choice m => some (starterCreateBlock u choice m)

abbrev KillState (θ ι κ : Type) := State θ (Mem θ ι κ) (Lock θ ι κ) (Cond θ ι κ) (Pc θ ι κ)

abbrev KillTransition (θ ι κ : Type) := Transition θ (Mem θ ι κ) (Lock θ ι κ) (Cond θ ι κ) (Pc θ ι κ)

/-- The task library starts, nobody waits for a queue, nobody has been restarted and nobody
is going to be. -/
structure Initial (ids : AddressIds θ) (s : KillState θ ι κ) : Prop where
  task : TaskLib.Initial ids (s.view part)
  inside : ∀ t, ∃ p, s.ctl t = .awake (.task p)
  queues : ∀ q, s.mem.firstSusp q = [] ∧ s.mem.firstWriteSusp q = []
  reborn : ∀ t, s.mem.reborn t = false
  restartWdogs : s.mem.restartWdogs = []

/-- An initial state: the tasks in `l` are registered. -/
def boot (ids : AddressIds θ) (l : List θ) : KillState θ ι κ where
  mem := ⟨(TaskLib.boot ids l).mem, fun _ => [], fun _ => [], fun _ => false, []⟩
  owner := fun _ => none
  signals := fun _ => 0
  ctl := fun t => .awake (.task (if t ∈ l then .idle else .unborn))

omit [DecidableEq ι] [DecidableEq κ] in
theorem boot_initial (ids : AddressIds θ) {l : List θ} (h : l.Nodup) :
    Initial ids (boot ids l : KillState θ ι κ) where
  task := TaskLib.boot_initial ids h
  inside _ := ⟨_, rfl⟩
  queues _ := ⟨rfl, rfl⟩
  reborn _ := rfl
  restartWdogs := rfl

/-! ### Schedules -/

def does (t : θ) (choice : Choice θ ι κ) : θ × Input (Choice θ ι κ) := (t, {choice := choice})

/-- Thread `t` goes on for `n` steps. -/
def goesOn (t : θ) (n : ℕ) : List (θ × Input (Choice θ ι κ)) := List.replicate n (t, {choice := .task .none})

end

end V2lin.Kill
