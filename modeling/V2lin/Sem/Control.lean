import V2lin.Status
import V2lin.Arith.Words
import V2lin.Threads.Machine
import V2lin.Task.SuspList
import Mathlib.Data.Nat.Bitwise

/-! The semaphore control block and the code that runs on it under its lock. -/
namespace V2lin.Sem
open V2lin.Arith V2lin.Task

/-! ### Flags -/

def semQPriority : Nat := 0x01
def semDeleteSafe : Nat := 0x04
def semInversionSafe : Nat := 0x08
def semOptMask : Nat := 0x0f
def semTypeMask : Nat := 0xf0
def binarySema4 : Nat := 0x00
def mutexSema4 : Nat := 0x10
def countingSema4 : Nat := 0x20

/-- `send_type`: the kind of release in progress. -/
inductive SendType where
  | send
  | flush
  | killd
  deriving DecidableEq

/-- `v2lsem_t`, less its mutexes and condition variables, which the machine keeps,
and its place on `sem_list`. The two counters are `int`s. -/
structure V2lsem (θ : Type) where
  flags : Nat
  tokenCount : Int
  sendType : SendType
  recursionLevel : Int
  currentOwner : Option θ
  firstSusp : List θ
  deriving DecidableEq

/-- `(flags & SEM_TYPE_MASK) == MUTEX_SEMA4` -/
def V2lsem.isMutex {θ : Type} (v : V2lsem θ) : Prop := v.flags &&& semTypeMask = mutexSema4

instance {θ : Type} (v : V2lsem θ) : Decidable v.isMutex := inferInstanceAs (Decidable (_ = _))

/-! ### Creation -/

/-- `new_sem`. -/
def newSem (θ : Type) (count : Int) : V2lsem θ :=
  ⟨0, count, .send, 0, none, []⟩

/-- The option bits none of the creators implements. -/
def unimplemented (opt : Nat) : Prop :=
  opt &&& semQPriority ≠ 0 ∨ opt &&& semDeleteSafe ≠ 0 ∨ opt &&& semInversionSafe ≠ 0

instance (opt : Nat) : Decidable (unimplemented opt) := inferInstanceAs (Decidable (_ ∨ _ ∨ _))

/-- `semBCreate`, up to its linking; `none` is `ENOSYS`. -/
def semBCreate (θ : Type) (opt : Nat) (initialState : Int) : Option (V2lsem θ) :=
  if unimplemented opt then none
  else some {newSem θ (if initialState = 0 then 0 else 1) with
    flags := (opt &&& semQPriority) ||| binarySema4}

/-- `semCCreate`, up to its linking. -/
def semCCreate (θ : Type) (opt : Nat) (initialCount : Int) : Option (V2lsem θ) :=
  if unimplemented opt then none
  else some {newSem θ initialCount with flags := (opt &&& semQPriority) ||| countingSema4}

/-- `semMCreate`, up to its linking. -/
def semMCreate (θ : Type) (opt : Nat) : Option (V2lsem θ) :=
  if unimplemented opt then none
  else some {newSem θ 1 with flags := (opt &&& semOptMask) ||| mutexSema4}

/-- The three creators with their arguments. -/
inductive Create where
  | binary (opt : Nat) (initialState : Int)
  | counting (opt : Nat) (initialCount : Int)
  | mutex (opt : Nat)
  deriving DecidableEq

def Create.block (θ : Type) : Create → Option (V2lsem θ)
  | .binary opt initialState => semBCreate θ opt initialState
  | .counting opt initialCount => semCCreate θ opt initialCount
  | .mutex opt => semMCreate θ opt

/-- What a creator hands out: an idle, unowned block that asks for none of the
unimplemented options, and one token if it is a mutex. -/
structure Created {θ : Type} (c : Create) (v : V2lsem θ) : Prop where
  order : v.flags &&& semQPriority = 0
  deleteSafe : v.flags &&& semDeleteSafe = 0
  inversionSafe : v.flags &&& semInversionSafe = 0
  kind : v.isMutex ↔ ∃ opt, c = .mutex opt
  sendType : v.sendType = .send
  level : v.recursionLevel = 0
  owner : v.currentOwner = none
  susp : v.firstSusp = []
  token : v.isMutex → v.tokenCount = 1

/-- An option bit survives the masking of `semMCreate`, and its type is a mutex's. -/
theorem mutex_flags {opt bit : Nat} (h : opt &&& bit = 0) (hb : bit &&& mutexSema4 = 0) :
    ((opt &&& semOptMask) ||| mutexSema4) &&& bit = 0 := by
  rw [Nat.and_or_distrib_right, Nat.and_comm mutexSema4, hb, Nat.or_zero, Nat.and_assoc,
    Nat.and_comm semOptMask, ← Nat.and_assoc, h, Nat.zero_and]

theorem mutex_type (opt : Nat) :
    ((opt &&& semOptMask) ||| mutexSema4) &&& semTypeMask = mutexSema4 := by
  rw [Nat.and_or_distrib_right, Nat.and_assoc,
    show semOptMask &&& semTypeMask = 0 from rfl, Nat.and_zero, Nat.zero_or]
  rfl

theorem Create.block_created {θ : Type} {c : Create} {v : V2lsem θ} (h : c.block θ = some v) :
    Created c v := by
  cases c with
  | binary opt initialState =>
    simp only [Create.block, semBCreate] at h
    split at h
    · cases h
    · rename_i hu
      simp only [unimplemented, not_or, not_not] at hu
      cases h
      rw [hu.1]
      exact ⟨by simp [binarySema4], by simp [binarySema4], by simp [binarySema4],
        by simp [V2lsem.isMutex, binarySema4, mutexSema4], rfl, rfl, rfl, rfl,
        by simp [V2lsem.isMutex, binarySema4, mutexSema4]⟩
  | counting opt initialCount =>
    simp only [Create.block, semCCreate] at h
    split at h
    · cases h
    · rename_i hu
      simp only [unimplemented, not_or, not_not] at hu
      cases h
      rw [hu.1]
      exact ⟨by simp [countingSema4, semQPriority], by simp [countingSema4, semDeleteSafe],
        by simp [countingSema4, semInversionSafe],
        by simp [V2lsem.isMutex, countingSema4, semTypeMask, mutexSema4], rfl, rfl, rfl, rfl, by simp [V2lsem.isMutex, countingSema4, semTypeMask, mutexSema4]⟩
  | mutex opt =>
    simp only [Create.block, semMCreate] at h
    split at h
    · cases h
    · rename_i hu
      simp only [unimplemented, not_or, not_not] at hu
      cases h
      exact ⟨mutex_flags hu.1 rfl, mutex_flags hu.2.1 rfl, mutex_flags hu.2.2 rfl,
        iff_of_true (mutex_type opt) ⟨opt, rfl⟩, rfl, rfl, rfl, rfl, fun _ => rfl⟩

/-! ### Taking and giving -/

section
variable {θ : Type} [DecidableEq θ]

/-- One turn of the token loop of `waiting_on_sem`: the new block if there is a
token and it is the caller's, whether there is one at all otherwise. -/
inductive Token (θ : Type) where
  | taken (v : V2lsem θ)
  | notOurs
  | unavailable

def tokenFor (prio : θ → Int) (v : V2lsem θ) (me : Option θ) : Token θ :=
  if v.tokenCount > 0 then
    if signalForMyTask v.firstSusp (v.flags &&& semQPriority) prio me then
      .taken {v with tokenCount := v.tokenCount - 1}
    else .notOurs
  else .unavailable

/-- The error that the wait loops of `wait_for_token` leave behind. -/
def waitError (maxWait : Int) (retcode : Threads.Retcode) : Status :=
  if maxWait = noWait then
    if retcode ≠ .ok ∧ retcode ≠ .etimedout then .objUnavailable else .ok
  else if retcode = .etimedout then .objTimeout else .ok

/-- What `wait_for_token` does after its loops. The error it returns, the new block,
and whether it goes to signal that the last pended task has left. -/
def leaveWait (v : V2lsem θ) (me : Option θ) (maxWait : Int) (retcode : Threads.Retcode) :
    V2lsem θ × Status × Bool :=
  let v := {v with firstSusp := unlinkSuspTask v.firstSusp me}
  match v.sendType with
  | .killd => (v, .objIdError, v.firstSusp = [])
  | .flush => (v, waitError maxWait retcode, v.firstSusp = [])
  | .send =>
    if retcode = .ok then
      if v.isMutex then
        ({v with currentOwner := me, recursionLevel := increment v.recursionLevel}, waitError maxWait retcode, false)
      else ({v with currentOwner := me}, waitError maxWait retcode, false)
    else (v, waitError maxWait retcode, false)

/-- `semGive` under the lock. -/
def giveToken (v : V2lsem θ) (me : Option θ) : V2lsem θ × Status :=
  if v.isMutex ∧ v.currentOwner ≠ me then (v, .invalidOperation)
  else if v.recursionLevel > 0 then
    if v.recursionLevel - 1 = 0 then
      ({v with recursionLevel := 0, tokenCount := increment v.tokenCount, currentOwner := none}, .ok)
    else ({v with recursionLevel := v.recursionLevel - 1}, .ok)
  else ({v with tokenCount := increment v.tokenCount}, .ok)

end

end V2lin.Sem
