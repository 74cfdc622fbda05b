import V2lin.Status
import V2lin.Threads.Locks
import Mathlib.Data.Int.Notation

/-! The watchdog library as a program of the thread machine.

A pass over the timer list calls timeout functions, which may call the library
themselves: a point carries the frame of its call, a task or a timeout function with the
watchdog that the pass goes on with. Watchdogs are named by the address of their control
block (`ι`), functions by their address (`φ`), and `ts_malloc` never hands an address out
twice. -/
namespace V2lin.Watchdog
open Threads

inductive Lock (ι : Type) where
  | wdogListLock
  | wdogLock (id : ι)
  deriving DecidableEq

/-- A control block's memory. -/
inductive Block where
  | fresh
  | live
  | freed
  deriving DecidableEq

/-- `v2pt_wdog_t`, less its mutex and its place on `wdog_list`. -/
structure V2ptWdog (φ : Type) where
  ticksRemaining : ℤ
  timeoutFunc : Option φ
  timeoutParm : ℤ
  deriving DecidableEq

inductive Op (φ : Type) where
  | start (delay : ℤ) (f : Option φ) (parm : ℤ)
  | cancel
  | delete
  deriving DecidableEq

/-- Who calls: a task, or a timeout function in a pass that goes on with `next`. -/
inductive Frame (ι : Type) where
  | task
  | callback (next : Option ι)
  deriving DecidableEq

/-- What a watchdog is looked up for. -/
inductive Use (ι φ : Type) where
  | call (frame : Frame ι) (op : Op φ)
  | tick
  deriving DecidableEq

inductive Pc (ι φ : Type) where
  | idle (frame : Frame ι)
  /-- Back from an operation with its result. -/
  | returned (frame : Frame ι) (op : Op φ) (id : ι) (error : Status)
  -- `link_wdog`
  | linkLock (frame : Frame ι) (id : ι)
  | linkAppend (frame : Frame ι) (id : ι)
  | linkUnlock (frame : Frame ι) (id : ι)
  -- `wdog_valid`
  | validLock (use : Use ι φ) (id : ι)
  | validScan (use : Use ι φ) (id : ι)
  | validWdog (use : Use ι φ) (id : ι)
  | validUnlock (use : Use ι φ) (id : ι) (found : Bool)
  -- `wdStart`, `wdCancel`
  | startSet (frame : Frame ι) (delay : ℤ) (f : Option φ) (parm : ℤ) (id : ι)
  | cancelZero (frame : Frame ι) (id : ι)
  /-- About to release `wdog_lock` and return. -/
  | leave (frame : Frame ι) (op : Op φ) (id : ι)
  -- `wdDelete`
  | deleteListLock (frame : Frame ι) (id : ι)
  | deleteUnlink (frame : Frame ι) (id : ι)
  | deleteListUnlock (frame : Frame ι) (id : ι)
  | deleteUnlock (frame : Frame ι) (id : ι)
  | deleteFree (frame : Frame ι) (id : ι)
  -- `process_tick_for`; `fires`: the last tick, with a timeout function
  | tickCount (id : ι)
  | tickUnlock (id : ι) (next : Option ι) (fires : Bool)
  | tickCall (id : ι) (next : Option ι)
  deriving DecidableEq

/-- What the outside decides: the next call of a task or a timeout function, with the
address `ts_malloc` returns if it is a creation, a pass over the timer list, and that a
timeout function returns. -/
inductive Choice (ι φ : Type) where
  | none
  | create (id : ι)
  | call (op : Op φ) (id : ι)
  | pass
  | finish
  deriving DecidableEq

structure Mem (ι φ : Type) where
  wdogList : List ι
  wdog : ι → V2ptWdog φ
  block : ι → Block

section
variable {θ ι φ : Type} [DecidableEq ι]

def Mem.setWdog (m : Mem ι φ) (id : ι) (v : V2ptWdog φ) : Mem ι φ :=
  {m with wdog := Function.update m.wdog id v}

/-- The watchdog behind another on the list, `wdId->next`. -/
def nextWdog : List ι → ι → Option ι
  | [], _ => none
  | a :: rest, id => if a = id then rest.head? else nextWdog rest id

/-- `process_timer_list` from its loop test. -/
def passOn (next : Option ι) : Pc ι φ :=
  match next with
  | none => .idle .task
  | some id => .validLock .tick id

/-- A thread outside the library makes its next call, starts a pass, or ends a timeout
function. -/
def callBlock (frame : Frame ι) (choice : Choice ι φ) (m : Mem ι φ) : Option (Mem ι φ × Pc ι φ) :=
  match choice with
  | .call op id => some (m, .validLock (.call frame op) id)
  | .create id =>
    if m.block id = .fresh then
      some ({m.setWdog id {m.wdog id with ticksRemaining := 0} with
        block := Function.update m.block id .live}, .linkLock frame id)
    else none
  | .pass => match frame with
    | .task => some (m, passOn m.wdogList.head?)
    | .callback _ => none
  | .finish => match frame with
    | .task => none
    | .callback next => some (m, passOn next)
  | .none => none

/-- The code that follows `wdog_valid`. -/
def entry (use : Use ι φ) (id : ι) (found : Bool) : Pc ι φ :=
  match use with
  | .call frame op =>
    if found then match op with
      | .start delay f parm => .startSet frame delay f parm id
      | .cancel => .cancelZero frame id
      | .delete => .deleteListLock frame id
    else .returned frame op id .objIdError
  | .tick => if found then .tickCount id else passOn none

/-- `wdStart` under the lock. -/
def V2ptWdog.start (v : V2ptWdog φ) (delay : ℤ) (f : Option φ) (parm : ℤ) : V2ptWdog φ :=
  let ticks := delay.tdiv 2
  {v with
    ticksRemaining := if ticks < 1 then 1 else ticks
    timeoutFunc := f
    timeoutParm := parm}

/-- `process_tick_for` under the lock: the control block after the tick, and whether its
timeout function is due. -/
def V2ptWdog.tick (v : V2ptWdog φ) : V2ptWdog φ × Bool :=
  if v.ticksRemaining > 0 then
    let v := {v with ticksRemaining := v.ticksRemaining - 1}
    (v, v.ticksRemaining = 0 ∧ v.timeoutFunc.isSome)
  else (v, false)

/-- `process_tick_for` from its lock to its unlock. -/
def tickBlock (id : ι) (m : Mem ι φ) : Mem ι φ × Pc ι φ :=
  let (v, fires) := (m.wdog id).tick
  (m.setWdog id v, .tickUnlock id (nextWdog m.wdogList id) fires)

/-- The library. -/
def code (_ : θ) : Pc ι φ → Instr (Mem ι φ) (Lock ι) Empty (Pc ι φ) (Choice ι φ)
  | .idle frame => .run (callBlock frame)
  | .returned frame _ _ _ => .run (callBlock frame)
  | .linkLock frame id => .lock .wdogListLock (.linkAppend frame id)
  | .linkAppend frame id => .run fun _ m => some ({m with wdogList := m.wdogList ++ [id]}, .linkUnlock frame id)
  | .linkUnlock frame _ => .unlock .wdogListLock (.idle frame)
  | .validLock use id => .lock .wdogListLock (.validScan use id)
  | .validScan use id => .run fun _ m =>
      some (m, if id ∈ m.wdogList then .validWdog use id else .validUnlock use id false)
  | .validWdog use id => .lock (.wdogLock id) (.validUnlock use id true)
  | .validUnlock use id found => .unlock .wdogListLock (entry use id found)
  | .startSet frame delay f parm id => .run fun _ m =>
      some (m.setWdog id ((m.wdog id).start delay f parm), .leave frame (.start delay f parm) id)
  | .cancelZero frame id => .run fun _ m =>
      some (m.setWdog id {m.wdog id with ticksRemaining := 0}, .leave frame .cancel id)
  | .leave frame op id => .unlock (.wdogLock id) (.returned frame op id .ok)
  | .deleteListLock frame id => .lock .wdogListLock (.deleteUnlink frame id)
  | .deleteUnlink frame id => .run fun _ m =>
      some ({m with wdogList := m.wdogList.erase id}, .deleteListUnlock frame id)
  | .deleteListUnlock frame id => .unlock .wdogListLock (.deleteUnlock frame id)
  | .deleteUnlock frame id => .unlock (.wdogLock id) (.deleteFree frame id)
  | .deleteFree frame id => .run fun _ m =>
      some ({m with block := Function.update m.block id .freed}, .returned frame .delete id .ok)
  | .tickCount id => .run fun _ m => some (tickBlock id m)
  | .tickUnlock id next fires =>
      .unlock (.wdogLock id) (if fires then .tickCall id next else passOn next)
  -- a null `timeout_func` is not called: the block cannot run
  | .tickCall id next => .run fun _ m => (m.wdog id).timeoutFunc.map fun _ => (m, .idle (.callback next))

abbrev WdogState (θ ι φ : Type) := State θ (Mem ι φ) (Lock ι) Empty (Pc ι φ)

abbrev WdogTransition (θ ι φ : Type) := Transition θ (Mem ι φ) (Lock ι) Empty (Pc ι φ)

/-- No watchdog yet, no lock held, every thread outside the library. What a block held
before it is allocated is anything. -/
structure Initial (s : WdogState θ ι φ) : Prop where
  wdogList : s.mem.wdogList = []
  fresh : ∀ id, s.mem.block id = .fresh
  owner : ∀ m, s.owner m = none
  idle : ∀ t, s.ctl t = .awake (.idle .task)

/-- An initial state. -/
def boot : WdogState θ ι φ where
  mem := ⟨[], fun _ => ⟨0, none, 0⟩, fun _ => .fresh⟩
  owner := fun _ => none
  signals := nofun
  ctl := fun _ => .awake (.idle .task)

omit [DecidableEq ι] in
theorem boot_initial : Initial (boot : WdogState θ ι φ) :=
  ⟨rfl, fun _ => rfl, fun _ => rfl, fun _ => rfl⟩

/-! ### Schedules -/

def makes (t : θ) (id : ι) : θ × Input (Choice ι φ) := (t, {choice := .create id})

def calls (t : θ) (op : Op φ) (id : ι) : θ × Input (Choice ι φ) := (t, {choice := .call op id})

/-- Thread `t` goes on for `n` steps. -/
def goesOn (t : θ) (n : ℕ) : List (θ × Input (Choice ι φ)) := List.replicate n (t, {choice := .none})

end

end V2lin.Watchdog
