import V2lin.Kill.Waits

/-! Semaphores that are flushed and deleted while tasks are killed in `semTake`.

The program of `Kill` runs as a part. Around it are the list of the semaphores, on which
every operation first looks its semaphore up, and `semGive`, `semFlush` and `semDelete`.
As in `Kill`, what a taker finds of the semaphore itself, its tokens and its `send_type`,
is left to the outside, and so is when the wait for the end of a drain is over. No
semaphore protects its owner or changes a priority: `semMCreate` refuses those options. -/
namespace V2lin.Blocked
open Threads V2lin.Task V2lin.Kill
open V2lin.TaskLib (AddressIds)

inductive Lock (θ ι κ : Type) where
  | kill (l : Kill.Lock θ ι κ)
  | semListLock
  | smdelLock (id : ι)
  deriving DecidableEq

inductive Cond (θ ι κ : Type) where
  | kill (c : Kill.Cond θ ι κ)
  | smdelCplt (id : ι)
  deriving DecidableEq

/-- Who calls `sem_find_lock`. -/
inductive Op where
  | take
  | give
  | flush
  | delete
  deriving DecidableEq

/-- Who wakes all that wait. -/
inductive Drainer where
  | flush
  | delete
  deriving DecidableEq

inductive Pc (θ ι κ : Type) where
  | kill (p : Kill.Pc θ ι κ)
  -- `sem_find_lock`
  | findLock (op : Op) (id : ι)
  | findScan (op : Op) (id : ι)
  | findSem (op : Op) (id : ι)
  | findUnlock (op : Op) (id : ι) (found : Bool)
  -- `semGive`
  | giveTest (id : ι)
  | giveNotify (id : ι)
  | giveUnlock (id : ι)
  -- `semFlush`
  | flushTest (id : ι)
  | flushRefuse (id : ι)
  | flushSmdelUnlock (id : ι)
  -- `semFlush` and `semDelete`
  | drainTaskLock (d : Drainer) (id : ι)
  | drainTest (d : Drainer) (id : ι)
  | drainSmdelLock (d : Drainer) (id : ι)
  | drainNotify (d : Drainer) (id : ι)
  | drainSemUnlock (d : Drainer) (id : ι)
  | drainLoop (d : Drainer) (id : ι)
  | drainWait (d : Drainer) (id : ι)
  | drainWoken (d : Drainer) (id : ι)
  | drainTaskUnlock
  /-- The cleanup handlers of a killed thread. -/
  | drainKilled (id : ι)
  | drainDies (id : ι)
  -- `unlink_smcb`
  | deleteListLock (id : ι)
  | deleteUnlink (id : ι)
  | deleteListUnlock (id : ι)
  deriving DecidableEq

/-- What the outside decides. -/
inductive Choice (θ ι κ : Type) where
  | kill (c : Kill.Choice θ ι κ)
  | call (op : Op) (id : ι)
  deriving DecidableEq

structure Mem (θ ι κ : Type) where
  kill : Kill.Mem θ ι κ
  semList : List ι

section
variable {θ ι κ : Type} [DecidableEq θ] [DecidableEq ι] [DecidableEq κ]

/-! ### The program of `Kill` as a part -/

/-- A taker is in that program from where it locks its semaphore, and whoever drains a
semaphore locks and unlocks the scheduler there. -/
def Pc.leave : Pc θ ι κ → Kill.Pc θ ι κ
  | .kill p => p
  | .findSem .take id => .takeLock id
  | .findUnlock .take id true => .takeFound id
  | .drainTaskLock _ _ => .task .userLock
  | .drainKilled _ | .drainDies _ => .task .dying
  | _ => .task .idle

def Choice.toKill : Choice θ ι κ → Kill.Choice θ ι κ
  | .kill c => c
  | _ => .task .none

def part : Embedding (Kill.Mem θ ι κ) (Kill.Lock θ ι κ) (Kill.Cond θ ι κ) (Kill.Pc θ ι κ) (Kill.Choice θ ι κ)
    (Mem θ ι κ) (Lock θ ι κ) (Cond θ ι κ) (Pc θ ι κ) (Choice θ ι κ) where
  get := Mem.kill
  put m n := {m with kill := n}
  get_put _ _ := rfl
  lock := .kill
  lock_injective _ _ h := Lock.kill.inj h
  cond := .kill
  cond_injective _ _ h := Cond.kill.inj h
  enter := .kill
  leave := Pc.leave
  leave_enter _ := rfl
  choice := Choice.toKill

/-- The next call of the user's code; `semTake` looks its semaphore up as well. -/
def userBlock (t : θ) (choice : Choice θ ι κ) (m : Mem θ ι κ) : Option (Mem θ ι κ × Pc θ ι κ) :=
  match choice with
  | .call op id => some (m, .findLock op id)
  | .kill (.semTake _) => none
  | .kill c => (Kill.userBlock t c m.kill).map fun r => ({m with kill := r.1}, .kill r.2)

/-! ### The operations -/

/-- What follows `sem_find_lock`. -/
def Op.start (id : ι) : Op → Pc θ ι κ
  | .take => .kill (.takeFound id)
  | .give => .giveTest id
  | .flush => .flushTest id
  | .delete => .drainTaskLock .delete id

/-- What follows when nobody waits. A flush leaves the semaphore locked then. -/
def Drainer.nobody (id : ι) : Drainer → Pc θ ι κ
  | .flush => .drainTaskUnlock
  | .delete => .deleteListLock id

/-- What follows when nobody waits any more. -/
def Drainer.drained (id : ι) : Drainer → Pc θ ι κ
  | .flush => .flushSmdelUnlock id
  | .delete => .deleteListLock id

/-- `semGive` with the semaphore locked: somebody else's mutex is refused. -/
def giveTestPoint (id : ι) (choice : Choice θ ι κ) (m : Mem θ ι κ) : Pc θ ι κ :=
  if choice = .kill .done then .giveUnlock id
  else if m.kill.task.semSusp id = [] then .giveUnlock id
  else .giveNotify id

/-- `taskLock`. -/
def drainTaskLockBlock (t : θ) (d : Drainer) (id : ι) (choice : Choice θ ι κ) (m : Mem θ ι κ) :
    Option (Mem θ ι κ × Pc θ ι κ) :=
  cancelBlock (choice = .kill (.task .kill)) (m.kill.task.cancelled t) (.drainDies id) m
    ((m.kill.task.sched.taskLock t).map fun k =>
      ({m with kill := m.kill.setTask {m.kill.task with sched := k}}, .drainTest d id))

def drainWokenBlock (t : θ) (d : Drainer) (id : ι) (choice : Choice θ ι κ) (m : Mem θ ι κ) :
    Option (Mem θ ι κ × Pc θ ι κ) :=
  cancelBlock (choice = .kill (.task .kill)) (m.kill.task.cancelled t) (.drainKilled id) m
    (some (m, .drainLoop d id))

/-- The program. -/
def code (ids : AddressIds θ) (t : θ) :
    Pc θ ι κ → Instr (Mem θ ι κ) (Lock θ ι κ) (Cond θ ι κ) (Pc θ ι κ) (Choice θ ι κ)
  | .kill p => if p = .task .idle then .run (userBlock t) else (Kill.code ids t p).embed part
  | .findLock op id => .lock .semListLock (.findScan op id)
  | .findScan op id => .run fun _ m =>
      some (m, if id ∈ m.semList then .findSem op id else .findUnlock op id false)
  | .findSem op id => .lock (.kill (.semLock id)) (.findUnlock op id true)
  | .findUnlock op id found => .unlock .semListLock (if found then op.start id else .kill (.task .idle))
  | .giveTest id => .run fun choice m => some (m, giveTestPoint id choice m)
  | .giveNotify id => .broadcast (.kill (.semSend id)) (.giveUnlock id)
  | .giveUnlock id => .unlock (.kill (.semLock id)) (.kill (.task .idle))
  -- a mutex is not flushed
  | .flushTest id => .run fun choice m =>
      some (m, if choice = .kill .done then .flushRefuse id else .drainTaskLock .flush id)
  | .flushRefuse id => .unlock (.kill (.semLock id)) (.kill (.task .idle))
  | .flushSmdelUnlock id => .unlock (.smdelLock id) .drainTaskUnlock
  | .drainTaskLock d id => .run (drainTaskLockBlock t d id)
  | .drainTest d id => .run fun _ m =>
      some (m, if m.kill.task.semSusp id ≠ [] then .drainSmdelLock d id else d.nobody id)
  | .drainSmdelLock d id => .lock (.smdelLock id) (.drainNotify d id)
  | .drainNotify d id => .broadcast (.kill (.semSend id)) (.drainSemUnlock d id)
  | .drainSemUnlock d id => .unlock (.kill (.semLock id)) (.drainLoop d id)
  | .drainLoop d id => .run fun _ m =>
      some (m, if m.kill.task.semSusp id ≠ [] then .drainWait d id else d.drained id)
  | .drainWait d id => .wait (.smdelCplt id) (.smdelLock id) false (fun _ => .drainWoken d id)
  | .drainWoken d id => .run (drainWokenBlock t d id)
  | .drainTaskUnlock => .run fun _ m =>
      some ({m with kill := m.kill.setTask (m.kill.task.taskUnlock t)}, .kill (.task .idle))
  | .drainKilled id => .unlock (.smdelLock id) (.drainDies id)
  | .drainDies id => .unlock (.kill (.semLock id)) (.kill (.task .dying))
  | .deleteListLock id => .lock .semListLock (.deleteUnlink id)
  | .deleteUnlink id => .run fun _ m => some ({m with semList := m.semList.erase id}, .deleteListUnlock id)
  -- `ts_free` follows
  | .deleteListUnlock _ => .unlock .semListLock .drainTaskUnlock

abbrev BlockedState (θ ι κ : Type) := State θ (Mem θ ι κ) (Lock θ ι κ) (Cond θ ι κ) (Pc θ ι κ)

abbrev BlockedTransition (θ ι κ : Type) := Transition θ (Mem θ ι κ) (Lock θ ι κ) (Cond θ ι κ) (Pc θ ι κ)

/-- The program of `Kill` starts, and any semaphores have been created. -/
structure Initial (ids : AddressIds θ) (s : BlockedState θ ι κ) : Prop where
  kill : Kill.Initial ids (s.view part)
  inside : ∀ t, ∃ p, s.ctl t = .awake (.kill p)

/-- An initial state: the tasks in `l` are registered, the semaphores in `sems` exist. -/
def boot (ids : AddressIds θ) (l : List θ) (sems : List ι) : BlockedState θ ι κ where
  mem := ⟨(Kill.boot ids l).mem, sems⟩
  owner := fun _ => none
  signals := fun _ => 0
  ctl := fun t => .awake (.kill (.task (if t ∈ l then .idle else .unborn)))

omit [DecidableEq ι] [DecidableEq κ] in
theorem boot_initial (ids : AddressIds θ) {l : List θ} (h : l.Nodup) (sems : List ι) :
    Initial ids (boot ids l sems : BlockedState θ ι κ) where
  kill := Kill.boot_initial ids h
  inside _ := ⟨_, rfl⟩

/-! ### Schedules -/

def does (t : θ) (choice : Choice θ ι κ) : θ × Input (Choice θ ι κ) := (t, {choice := choice})

/-- Thread `t` goes on for `n` steps. -/
def goesOn (t : θ) (n : ℕ) : List (θ × Input (Choice θ ι κ)) := List.replicate n (t, {choice := .kill (.task .none)})

end

end V2lin.Blocked
