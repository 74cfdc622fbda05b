import V2lin.Watchdog.Pass

/-! Tasks that restart themselves, as a program of the thread machine.

`taskRestart(0)` makes a watchdog that is to start the task anew, keeps it in `restart_wdog`
and ends the task's thread; at the next tick the exception task's pass over the timer list
calls `self_starter`, which deletes `restart_wdog` and creates the thread. A step is one call
of the watchdog library, or one access to what the two sides share. `pthread_create` does not
fail, and a task that is deleted runs no more. -/
namespace V2lin.Restart
open Threads

inductive Thread where
  | excTask
  | task (taskid : ℤ)
  deriving DecidableEq

/-- The timeout functions of restart watchdogs. -/
inductive Fn where
  | selfStarter
  deriving DecidableEq

inductive Lock where
  /-- The scheduler lock. -/
  | taskLock
  deriving DecidableEq

inductive Pc (ι : Type) where
  /-- A task in its own code. -/
  | running
  -- `taskRestart(0)` with `selfRestart`
  | restartLock
  | restartFind
  | create
  | assign (id : Option ι)
  | start
  | exit
  /-- The thread is gone. -/
  | exited
  -- `taskDelete` of another task
  | deleteLock (taskid : ℤ)
  | deleteErase (taskid : ℤ)
  | deleteUnlock
  -- the exception task: between two passes, and in one
  | delay
  | tick (next : Option ι)
  -- `self_starter`, called for watchdog `id`
  | starterDelete (id : ι) (taskid : ℤ) (next : Option ι)
  | starterFind (id : ι) (taskid : ℤ) (next : Option ι)
  | starterCreate (id : ι) (taskid : ℤ) (next : Option ι)
  deriving DecidableEq

/-- What the outside decides: the next call of a task, and the address that `ts_malloc`
returns, if any. -/
inductive Choice (ι : Type) where
  | none
  | restart
  | delete (taskid : ℤ)
  | address (id : Option ι)
  deriving DecidableEq

structure Mem (ι : Type) where
  timers : Watchdog.Mem ι Fn
  restartWdog : Option ι
  /-- The ids of the tasks on `task_list`. -/
  taskList : List ℤ
  /-- The tasks for which `self_starter` has created a thread that has not run yet. -/
  created : ℤ → Bool

section
variable {ι : Type} [DecidableEq ι]

/-- A task makes its next call, unless it is deleted. -/
def userBlock (t : Thread) (choice : Choice ι) (m : Mem ι) : Option (Mem ι × Pc ι) :=
  match t with
  | .task taskid =>
    if taskid ∈ m.taskList then match choice with
      | .restart => some (m, .restartLock)
      | .delete k => some (m, .deleteLock k)
      | _ => none
    else none
  | .excTask => none

/-- `wdCreate` in `selfRestart`. -/
def createBlock (choice : Choice ι) (m : Mem ι) : Option (Mem ι × Pc ι) :=
  match choice with
  | .address (some id) =>
    if m.timers.block id = .fresh then some ({m with timers := m.timers.wdCreate id}, .assign (some id)) else none
  | .address none => some (m, .assign none)
  | _ => none

/-- `wdStart` in `selfRestart`, if there is a watchdog. -/
def startBlock (t : Thread) (m : Mem ι) : Option (Mem ι × Pc ι) :=
  match t, m.restartWdog with
  | .task taskid, some id =>
    some ({m with timers := (m.timers.wdStart id 1 (some .selfStarter) taskid).1}, .exit)
  | .task _, none => some (m, .exit)
  | .excTask, _ => none

/-- A thread that is gone comes back as the one that `self_starter` has created. -/
def exitedBlock (t : Thread) (m : Mem ι) : Option (Mem ι × Pc ι) :=
  match t with
  | .task taskid =>
    if m.created taskid then some ({m with created := Function.update m.created taskid false}, .running) else none
  | .excTask => none

/-- `process_tick_for`, as far as to the call of the timeout function. -/
def tickBlock (id : ι) (m : Mem ι) : Mem ι × Pc ι :=
  if id ∈ m.timers.wdogList then
    let (v, fires) := (m.timers.wdog id).tick
    let next := Watchdog.nextWdog m.timers.wdogList id
    ({m with timers := m.timers.setWdog id v},
      if fires then .starterDelete id v.timeoutParm next else .tick next)
  else (m, .tick none)

/-- `wdDelete(restart_wdog)`. A null pointer is on no list. -/
def Mem.wdDelete (m : Mem ι) : Mem ι :=
  match m.restartWdog with
  | some id => {m with timers := (m.timers.wdDelete id).1}
  | none => m

def code (t : Thread) : Pc ι → Instr (Mem ι) Lock Empty (Pc ι) (Choice ι)
  | .running => .run (userBlock t)
  | .restartLock => .lock .taskLock .restartFind
  | .restartFind => .run fun _ m => match t with
      | .task taskid => some (m, if taskid ∈ m.taskList then .create else .exit)
      | .excTask => none
  | .create => .run createBlock
  | .assign id => .run fun _ m => some ({m with restartWdog := id}, .start)
  | .start => .run fun _ m => startBlock t m
  | .exit => .unlock .taskLock .exited
  | .exited => .run fun _ m => exitedBlock t m
  | .deleteLock taskid => .lock .taskLock (.deleteErase taskid)
  | .deleteErase taskid => .run fun _ m => some ({m with taskList := m.taskList.erase taskid}, .deleteUnlock)
  | .deleteUnlock => .unlock .taskLock .running
  | .delay => .run fun _ m => some (m, .tick m.timers.wdogList.head?)
  | .tick none => .run fun _ m => some (m, .delay)
  | .tick (some id) => .run fun _ m => some (tickBlock id m)
  | .starterDelete id taskid next => .run fun _ m => some (m.wdDelete, .starterFind id taskid next)
  | .starterFind id taskid next => .run fun _ m =>
      some (m, if taskid ∈ m.taskList then .starterCreate id taskid next else .tick next)
  | .starterCreate _ taskid next => .run fun _ m =>
      some ({m with created := Function.update m.created taskid true}, .tick next)

abbrev RestartState (ι : Type) := State Thread (Mem ι) Lock Empty (Pc ι)

abbrev RestartTransition (ι : Type) := Transition Thread (Mem ι) Lock Empty (Pc ι)

/-- No watchdog yet, the tasks run, the exception task is between two passes. -/
structure Initial (s : RestartState ι) : Prop where
  wdogList : s.mem.timers.wdogList = []
  fresh : ∀ id, s.mem.timers.block id = .fresh
  nonzero : 0 ∉ s.mem.taskList
  created : ∀ taskid, s.mem.created taskid = false
  owner : ∀ l, s.owner l = none
  delay : s.ctl .excTask = .awake .delay
  running : ∀ taskid, s.ctl (.task taskid) = .awake .running

/-- An initial state. -/
def boot (taskList : List ℤ) : RestartState ι where
  mem := ⟨⟨[], fun _ => ⟨0, none, 0⟩, fun _ => .fresh⟩, none, taskList, fun _ => false⟩
  owner := fun _ => none
  signals := nofun
  ctl := fun t => if t = .excTask then .awake .delay else .awake .running

omit [DecidableEq ι] in
theorem boot_initial {taskList : List ℤ} (h : 0 ∉ taskList) : Initial (boot taskList : RestartState ι) :=
  ⟨rfl, fun _ => rfl, h, fun _ => rfl, fun _ => rfl, rfl, fun _ => rfl⟩

/-- Task `taskid` restarts itself: as far as to the end of its thread. -/
def restarts (taskid : ℤ) (id : ι) : List (Thread × Input (Choice ι)) :=
  [(.task taskid, {choice := .restart}), (.task taskid, {choice := .none}), (.task taskid, {choice := .none}),
    (.task taskid, {choice := .address (some id)}), (.task taskid, {choice := .none}),
    (.task taskid, {choice := .none}), (.task taskid, {choice := .none})]

/-- Thread `t` goes on for `n` steps. -/
def goesOn (t : Thread) (n : ℕ) : List (Thread × Input (Choice ι)) := List.replicate n (t, {choice := .none})

/-! ### The blocks -/

/-- The blocks, one constructor for each way through one. -/
inductive Runs (t : Thread) : Pc ι → Mem ι → Mem ι → Pc ι → Prop where
  | restarts {m taskid} : t = .task taskid → taskid ∈ m.taskList → Runs t .running m m .restartLock
  | deletes {m} (k : ℤ) : Runs t .running m m (.deleteLock k)
  | found {m taskid} : t = .task taskid → taskid ∈ m.taskList → Runs t .restartFind m m .create
  | killed {m taskid} : t = .task taskid → taskid ∉ m.taskList → Runs t .restartFind m m .exit
  | made {m id} : m.timers.block id = .fresh → Runs t .create m {m with timers := m.timers.wdCreate id} (.assign (some id))
  | noMemory {m} : Runs t .create m m (.assign none)
  | assigned {m} (id : Option ι) : Runs t (.assign id) m {m with restartWdog := id} .start
  | started {m id taskid} : t = .task taskid → m.restartWdog = some id →
      Runs t .start m {m with timers := (m.timers.wdStart id 1 (some .selfStarter) taskid).1} .exit
  | skipped {m} : m.restartWdog = none → Runs t .start m m .exit
  | reborn {m taskid} : t = .task taskid → m.created taskid = true →
      Runs t .exited m {m with created := Function.update m.created taskid false} .running
  | erased {m} (k : ℤ) : Runs t (.deleteErase k) m {m with taskList := m.taskList.erase k} .deleteUnlock
  | begun {m} : Runs t .delay m m (.tick m.timers.wdogList.head?)
  | ended {m} : Runs t (.tick none) m m .delay
  | ticked {m id} : id ∈ m.timers.wdogList → (m.timers.wdog id).tick.2 = false →
      Runs t (.tick (some id)) m {m with timers := m.timers.setWdog id (m.timers.wdog id).tick.1}
        (.tick (Watchdog.nextWdog m.timers.wdogList id))
  | fired {m id} : id ∈ m.timers.wdogList → (m.timers.wdog id).tick.2 = true →
      Runs t (.tick (some id)) m {m with timers := m.timers.setWdog id (m.timers.wdog id).tick.1}
        (.starterDelete id (m.timers.wdog id).tick.1.timeoutParm (Watchdog.nextWdog m.timers.wdogList id))
  | lost {m id} : id ∉ m.timers.wdogList → Runs t (.tick (some id)) m m (.tick none)
  | deleted {m} (id taskid next) : Runs t (.starterDelete id taskid next) m m.wdDelete (.starterFind id taskid next)
  | listed {m taskid} (id next) : taskid ∈ m.taskList →
      Runs t (.starterFind id taskid next) m m (.starterCreate id taskid next)
  | unlisted {m taskid} (id next) : taskid ∉ m.taskList → Runs t (.starterFind id taskid next) m m (.tick next)
  | created {m} (id taskid next) : Runs t (.starterCreate id taskid next) m
      {m with created := Function.update m.created taskid true} (.tick next)

variable {t : Thread}

theorem block_runs {p p' : Pc ι} {block : Choice ι → Mem ι → Option (Mem ι × Pc ι)} {c : Choice ι} {m m' : Mem ι}
    (hi : code t p = .run block) (h : block c m = some (m', p')) : Runs t p m m' p' := by
  cases p <;> simp only [code, Instr.run.injEq, reduceCtorEq] at hi
  case tick next =>
    cases next with
    | none =>
      simp only [Instr.run.injEq] at hi
      subst hi
      cases h
      exact .ended
    | some id =>
      simp only [Instr.run.injEq] at hi
      subst hi
      simp only [tickBlock, Option.some.injEq] at h
      split at h
      · rename_i hin
        cases hf : (m.timers.wdog id).tick.2 <;> simp only [hf, Prod.mk.injEq, if_true] at h
        · obtain ⟨rfl, rfl⟩ := h
          exact .ticked hin hf
        · obtain ⟨rfl, rfl⟩ := h
          exact .fired hin hf
      · cases h
        exact .lost (by assumption)
  all_goals subst hi
  case running =>
    cases t with
    | excTask => cases h
    | task taskid =>
      simp only [userBlock] at h
      split at h
      · cases c <;> cases h
        · exact .restarts rfl (by assumption)
        · exact .deletes _
      · cases h
  case restartFind =>
    cases t with
    | excTask => cases h
    | task taskid =>
      cases h
      split
      · exact .found rfl (by assumption)
      · exact .killed rfl (by assumption)
  case create =>
    cases c with
    | address id =>
      cases id with
      | none =>
        cases h
        exact .noMemory
      | some id =>
        simp only [createBlock] at h
        split at h
        · cases h
          exact .made (by assumption)
        · cases h
    | _ => cases h
  case assign id =>
    cases h
    exact .assigned id
  case start =>
    cases t with
    | excTask => cases h
    | task taskid =>
      simp only [startBlock] at h
      split at h
      · rename_i hk hw
        cases hk
        cases h
        exact .started rfl hw
      · rename_i hw
        cases h
        exact .skipped hw
      · cases h
  case exited =>
    cases t with
    | excTask => cases h
    | task taskid =>
      simp only [exitedBlock] at h
      split at h
      · cases h
        exact .reborn rfl (by assumption)
      · cases h
  case deleteErase k =>
    cases h
    exact .erased k
  case delay =>
    cases h
    exact .begun
  case starterDelete id taskid next =>
    cases h
    exact .deleted id taskid next
  case starterFind id taskid next =>
    cases h
    split
    · exact .listed id next (by assumption)
    · exact .unlisted id next (by assumption)
  case starterCreate id taskid next =>
    cases h
    exact .created id taskid next

/-- A step runs a block, or it leaves the memory alone and its thread goes on to the next
point. -/
theorem step_cases {s s' : RestartState ι} (h : Step code t s s') :
    (s'.mem = s.mem ∧ (∀ block, code t (s.ctl t).point ≠ .run block) ∧
      ((s'.ctl t).point = (s.ctl t).point ∨ (code t (s.ctl t).point).Next (s'.ctl t).point)) ∨
    ∃ p p', s.ctl t = .awake p ∧ s'.ctl t = .awake p' ∧ Runs t p s.mem s'.mem p' := by
  obtain hq | ⟨p, block, c, p', hp, hi, hb, hp', _⟩ := h.sync_or_block
  · exact .inl hq
  · exact .inr ⟨p, p', hp, hp', block_runs hi hb⟩

end

end V2lin.Restart
