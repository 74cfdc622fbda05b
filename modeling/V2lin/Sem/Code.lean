import V2lin.Sem.Control
import V2lin.Task.SchedLock
import V2lin.Threads.Locks

/-! The semaphore library as a program of the thread machine.

A point of the code (`Pc`) is a place in one of the operations with the locals
that are still read: the `max_wait` argument, `retcode`, `error`. `code` gives the
instruction at each point; a block runs from one operation on a mutex or a
condition variable to the next. Semaphores are named by the address of their
control block (`ι`), and `ts_malloc` never hands an address out twice. -/
namespace V2lin.Sem
open Threads V2lin.Arith V2lin.Task

inductive Lock (ι : Type) where
  | semListLock
  | semLock (id : ι)
  | smdelLock (id : ι)
  deriving DecidableEq

inductive Cond (ι : Type) where
  | semSend (id : ι)
  | smdelCplt (id : ι)
  deriving DecidableEq

/-- A control block's memory. -/
inductive Block where
  | fresh
  | live
  | freed
  deriving DecidableEq

inductive Op where
  | take (maxWait : Int)
  | give
  | flush
  | delete
  deriving DecidableEq

inductive Pc (ι : Type) where
  | idle
  /-- Back from an operation with its result. -/
  | returned (op : Op) (id : ι) (error : Status)
  -- `link_smcb`
  | linkLock (id : ι)
  | linkAppend (id : ι)
  | linkUnlock (id : ι)
  -- `sem_find_lock`
  | findLock (op : Op) (id : ι)
  | findScan (op : Op) (id : ι)
  | findSem (op : Op) (id : ι)
  | findUnlock (op : Op) (id : ι) (found : Bool)
  -- `semTake`, `wait_for_token`, `waiting_on_sem`
  | takeStart (maxWait : Int) (id : ι)
  | takeTest (maxWait : Int) (id : ι) (retcode : Retcode)
  | takeWait (maxWait : Int) (id : ι)
  | takePoll (maxWait : Int) (id : ι) (retcode : Retcode)
  | takeRelock (maxWait : Int) (id : ι) (retcode : Retcode)
  | takeAgain (maxWait : Int) (id : ι) (retcode : Retcode)
  | takeLastLock (maxWait : Int) (id : ι) (error : Status)
  | takeLastNotify (maxWait : Int) (id : ι) (error : Status)
  | takeLastReset (maxWait : Int) (id : ι) (error : Status)
  | takeLastUnlock (maxWait : Int) (id : ι) (error : Status)
  | takeEnd (maxWait : Int) (id : ι) (error : Status)
  | takeUnlock (maxWait : Int) (id : ι) (error : Status)
  -- `semGive`
  | giveStart (id : ι)
  | giveNotify (id : ι)
  | giveUnlock (id : ι) (error : Status)
  -- `semFlush`
  | flushStart (id : ι)
  | flushRefuse (id : ι)
  | flushTaskLock (id : ι)
  | flushTest (id : ι)
  | flushSmdelLock (id : ι)
  | flushMark (id : ι)
  | flushNotify (id : ι)
  | flushSemUnlock (id : ι)
  | flushDrain (id : ι)
  | flushWait (id : ι)
  | flushSmdelUnlock (id : ι)
  /-- `drained`: through the branch that found tasks pended. -/
  | flushTaskUnlock (id : ι) (drained : Bool)
  -- `semDelete`
  | deleteTaskLock (id : ι)
  | deleteTest (id : ι)
  | deleteSmdelLock (id : ι)
  | deleteMark (id : ι)
  | deleteNotify (id : ι)
  | deleteSemUnlock (id : ι)
  | deleteDrain (id : ι)
  | deleteWait (id : ι)
  | deleteListLock (id : ι) (drained : Bool)
  | deleteUnlink (id : ι) (drained : Bool)
  | deleteListUnlock (id : ι) (drained : Bool)
  | deleteFree (id : ι) (drained : Bool)
  | deleteTaskUnlock (id : ι) (drained : Bool)
  deriving DecidableEq

/-- What the outside decides: the next call of an idle thread, with the address
`ts_malloc` returns if it is a creation, and what `time_expired` answers. -/
inductive Choice (ι : Type) where
  | none
  | create (id : ι) (args : Create)
  | call (op : Op) (id : ι)
  | expired (answer : Bool)
  deriving DecidableEq

structure Mem (θ ι : Type) where
  semList : List ι
  sem : ι → V2lsem θ
  block : ι → Block
  /-- The `waiting` field of each task. -/
  waiting : θ → Option ι
  sched : SchedLock θ

section
variable {θ ι : Type} [DecidableEq θ] [DecidableEq ι]

def Mem.setSem (m : Mem θ ι) (id : ι) (v : V2lsem θ) : Mem θ ι :=
  {m with sem := Function.update m.sem id v}

/-- `our_task->waiting = w`, if there is such a task. -/
def Mem.setWaiting (m : Mem θ ι) (me : Option θ) (w : Option ι) : Mem θ ι :=
  match me with
  | none => m
  | some t => {m with waiting := Function.update m.waiting t w}

/-- The code that follows an operation's successful `sem_find_lock`. -/
def entry (op : Op) (id : ι) : Pc ι :=
  match op with
  | .take maxWait => .takeStart maxWait id
  | .give => .giveStart id
  | .flush => .flushStart id
  | .delete => .deleteTaskLock id

/-- A thread outside the library makes its next call. -/
def callBlock (choice : Choice ι) (m : Mem θ ι) : Option (Mem θ ι × Pc ι) :=
  match choice with
  | .call op id => some (m, .findLock op id)
  | .create id args =>
    if m.block id = .fresh then
      match args.block θ with
      | some v => some ({m.setSem id v with block := Function.update m.block id .live}, .linkLock id)
      | none => some (m, .idle)
    else none
  | _ => none

/-- `semTake` from its lock to the wait loop or to its end. -/
def takeStartBlock (me : Option θ) (maxWait : Int) (id : ι) (m : Mem θ ι) : Mem θ ι × Pc ι :=
  let m := m.setWaiting me (some id)
  let v := m.sem id
  if v.isMutex ∧ v.currentOwner = me then
    (m.setSem id {v with recursionLevel := increment v.recursionLevel}, .takeEnd maxWait id .ok)
  else (m.setSem id {v with firstSusp := linkSuspTask v.firstSusp me}, .takeTest maxWait id .ok)

/-- From the end of a wait loop, with the block `v`, to the end of `wait_for_token`. -/
def leaveBlock (me : Option θ) (maxWait : Int) (id : ι) (v : V2lsem θ) (retcode : Retcode)
    (m : Mem θ ι) : Mem θ ι × Pc ι :=
  let (v, error, last) := leaveWait v me maxWait retcode
  (m.setSem id v, if last then .takeLastLock maxWait id error else .takeEnd maxWait id error)

/-- `waiting_on_sem` has found nothing for us: leave after a timeout, else wait. -/
def stillWaitingBlock (me : Option θ) (maxWait : Int) (id : ι) (retcode : Retcode) (m : Mem θ ι) :
    Mem θ ι × Pc ι :=
  if retcode = .etimedout then leaveBlock me maxWait id (m.sem id) retcode m
  else (m, .takeWait maxWait id)

/-- The token loop of `waiting_on_sem` from its test. -/
def scanBlock (prio : θ → Int) (me : Option θ) (maxWait : Int) (id : ι) (retcode : Retcode)
    (m : Mem θ ι) : Mem θ ι × Pc ι :=
  match tokenFor prio (m.sem id) me with
  | .taken v => leaveBlock me maxWait id v .ok m
  | .notOurs => (m, .takePoll maxWait id retcode)
  | .unavailable => stillWaitingBlock me maxWait id retcode m

/-- `waiting_on_sem` from its start. -/
def testBlock (prio : θ → Int) (me : Option θ) (maxWait : Int) (id : ι) (retcode : Retcode)
    (m : Mem θ ι) : Mem θ ι × Pc ι :=
  if (m.sem id).sendType ≠ .send then leaveBlock me maxWait id (m.sem id) .ok m
  else scanBlock prio me maxWait id retcode m

/-- `waiting_on_sem` after its `taskDelay(1)`. -/
def againBlock (prio : θ → Int) (me : Option θ) (maxWait : Int) (id : ι) (retcode : Retcode)
    (choice : Choice ι) (m : Mem θ ι) : Option (Mem θ ι × Pc ι) :=
  match choice with
  | .expired answer =>
    some (if maxWait ≠ waitForever ∧ answer = true then stillWaitingBlock me maxWait id retcode m
      else scanBlock prio me maxWait id retcode m)
  | _ => none

/-- `semGive` under the lock. -/
def giveBlock (me : Option θ) (id : ι) (m : Mem θ ι) : Mem θ ι × Pc ι :=
  let (v, error) := giveToken (m.sem id) me
  (m.setSem id v, if error = .ok ∧ v.firstSusp ≠ [] then .giveNotify id else .giveUnlock id error)

/-- The library, for threads whose `my_task` is given. -/
def code (myTask : θ → Option θ) (prio : θ → Int) (t : θ) :
    Pc ι → Instr (Mem θ ι) (Lock ι) (Cond ι) (Pc ι) (Choice ι)
  | .idle => .run callBlock
  | .returned _ _ _ => .run callBlock
  | .linkLock id => .lock .semListLock (.linkAppend id)
  | .linkAppend id => .run fun _ m => some ({m with semList := m.semList ++ [id]}, .linkUnlock id)
  | .linkUnlock _ => .unlock .semListLock .idle
  | .findLock op id => .lock .semListLock (.findScan op id)
  | .findScan op id => .run fun _ m =>
      some (m, if id ∈ m.semList then .findSem op id else .findUnlock op id false)
  | .findSem op id => .lock (.semLock id) (.findUnlock op id true)
  | .findUnlock op id found =>
      .unlock .semListLock (if found then entry op id else .returned op id .objIdError)
  | .takeStart maxWait id => .run fun _ m => some (takeStartBlock (myTask t) maxWait id m)
  | .takeTest maxWait id retcode => .run fun _ m => some (testBlock prio (myTask t) maxWait id retcode m)
  | .takeWait maxWait id =>
      .wait (.semSend id) (.semLock id) (decide (maxWait ≠ waitForever)) (.takeTest maxWait id)
  | .takePoll maxWait id retcode => .unlock (.semLock id) (.takeRelock maxWait id retcode)
  | .takeRelock maxWait id retcode => .lock (.semLock id) (.takeAgain maxWait id retcode)
  | .takeAgain maxWait id retcode => .run (againBlock prio (myTask t) maxWait id retcode)
  | .takeLastLock maxWait id error => .lock (.smdelLock id) (.takeLastNotify maxWait id error)
  | .takeLastNotify maxWait id error => .broadcast (.smdelCplt id) (.takeLastReset maxWait id error)
  | .takeLastReset maxWait id error => .run fun _ m =>
      some (m.setSem id {m.sem id with sendType := .send}, .takeLastUnlock maxWait id error)
  | .takeLastUnlock maxWait id error => .unlock (.smdelLock id) (.takeEnd maxWait id error)
  | .takeEnd maxWait id error => .run fun _ m =>
      some (m.setWaiting (myTask t) none, .takeUnlock maxWait id error)
  | .takeUnlock maxWait id error => .unlock (.semLock id) (.returned (.take maxWait) id error)
  | .giveStart id => .run fun _ m => some (giveBlock (myTask t) id m)
  | .giveNotify id => .broadcast (.semSend id) (.giveUnlock id .ok)
  | .giveUnlock id error => .unlock (.semLock id) (.returned .give id error)
  | .flushStart id => .run fun _ m =>
      some (m, if (m.sem id).isMutex then .flushRefuse id else .flushTaskLock id)
  | .flushRefuse id => .unlock (.semLock id) (.returned .flush id .invalidOperation)
  | .flushTaskLock id => .run fun _ m =>
      (m.sched.taskLock t).map fun k => ({m with sched := k}, .flushTest id)
  | .flushTest id => .run fun _ m =>
      some (m, if (m.sem id).firstSusp ≠ [] then .flushSmdelLock id else .flushTaskUnlock id false)
  | .flushSmdelLock id => .lock (.smdelLock id) (.flushMark id)
  | .flushMark id => .run fun _ m => some (m.setSem id {m.sem id with sendType := .flush}, .flushNotify id)
  | .flushNotify id => .broadcast (.semSend id) (.flushSemUnlock id)
  | .flushSemUnlock id => .unlock (.semLock id) (.flushDrain id)
  | .flushDrain id => .run fun _ m =>
      some (m, if (m.sem id).firstSusp ≠ [] then .flushWait id else .flushSmdelUnlock id)
  | .flushWait id => .wait (.smdelCplt id) (.smdelLock id) false (fun _ => .flushDrain id)
  | .flushSmdelUnlock id => .unlock (.smdelLock id) (.flushTaskUnlock id true)
  | .flushTaskUnlock id _ => .run fun _ m =>
      some ({m with sched := m.sched.taskUnlock t}, .returned .flush id .ok)
  | .deleteTaskLock id => .run fun _ m =>
      (m.sched.taskLock t).map fun k => ({m with sched := k}, .deleteTest id)
  | .deleteTest id => .run fun _ m =>
      some (m, if (m.sem id).firstSusp ≠ [] then .deleteSmdelLock id else .deleteListLock id false)
  | .deleteSmdelLock id => .lock (.smdelLock id) (.deleteMark id)
  | .deleteMark id => .run fun _ m =>
      some (m.setSem id {m.sem id with sendType := .killd}, .deleteNotify id)
  | .deleteNotify id => .broadcast (.semSend id) (.deleteSemUnlock id)
  | .deleteSemUnlock id => .unlock (.semLock id) (.deleteDrain id)
  | .deleteDrain id => .run fun _ m =>
      some (m, if (m.sem id).firstSusp ≠ [] then .deleteWait id else .deleteListLock id true)
  | .deleteWait id => .wait (.smdelCplt id) (.smdelLock id) false (fun _ => .deleteDrain id)
  | .deleteListLock id drained => .lock .semListLock (.deleteUnlink id drained)
  | .deleteUnlink id drained => .run fun _ m =>
      some ({m with semList := m.semList.erase id}, .deleteListUnlock id drained)
  | .deleteListUnlock id drained => .unlock .semListLock (.deleteFree id drained)
  | .deleteFree id drained => .run fun _ m =>
      some ({m with block := Function.update m.block id .freed}, .deleteTaskUnlock id drained)
  | .deleteTaskUnlock id _ => .run fun _ m =>
      some ({m with sched := m.sched.taskUnlock t}, .returned .delete id .ok)

abbrev SemState (θ ι : Type) := State θ (Mem θ ι) (Lock ι) (Cond ι) (Pc ι)

abbrev SemTransition (θ ι : Type) := Transition θ (Mem θ ι) (Lock ι) (Cond ι) (Pc ι)

/-- No semaphore yet, no lock held, every thread outside the library. A block is blank
until it is allocated. -/
structure Initial (s : SemState θ ι) : Prop where
  semList : s.mem.semList = []
  fresh : ∀ id, s.mem.block id = .fresh
  blank : ∀ id, s.mem.sem id = newSem θ 0
  sched : s.mem.sched = {}
  owner : ∀ m, s.owner m = none
  idle : ∀ t, s.ctl t = .awake .idle

/-- The initial state. -/
def boot : SemState θ ι where
  mem := ⟨[], fun _ => newSem θ 0, fun _ => .fresh, fun _ => none, {}⟩
  owner := fun _ => none
  signals := fun _ => 0
  ctl := fun _ => .awake .idle

omit [DecidableEq θ] [DecidableEq ι] in
theorem boot_initial : Initial (boot : SemState θ ι) :=
  ⟨rfl, fun _ => rfl, fun _ => rfl, rfl, fun _ => rfl, fun _ => rfl⟩

/-! ### Schedules -/

def makes (t : θ) (id : ι) (args : Create) : θ × Input (Choice ι) := (t, {choice := .create id args})

def calls (t : θ) (op : Op) (id : ι) : θ × Input (Choice ι) := (t, {choice := .call op id})

/-- Thread `t` wakes with a timeout. -/
def timesOut (t : θ) : θ × Input (Choice ι) := (t, {choice := .none, ret := .etimedout})

/-- Thread `t` goes on for `n` steps. -/
def goesOn (t : θ) (n : Nat) : List (θ × Input (Choice ι)) := List.replicate n (t, {choice := .none})

end

end V2lin.Sem
