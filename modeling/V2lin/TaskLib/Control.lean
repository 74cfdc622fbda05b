import V2lin.Task.SuspList
import Mathlib.Data.Nat.Notation
import Mathlib.Logic.Function.Basic

/-! The task control block, the task list and the identifiers on it.

A task is named by the address of its control block (`θ`), and so is the thread that
runs it; `ts_malloc` never hands an address out twice. A plain thread is one whose block is
never on the list. -/
namespace V2lin.TaskLib
open V2lin.Task

/-- `task_t`, as far as deletion and protection read it. -/
structure Tcb (θ ι : Type) where
  taskid : ℤ
  /-- Its thread has been created: `pthrid` is set and `state` is no longer `DEAD`. -/
  started : Bool
  deleteSafeCount : ℤ
  firstSusp : List θ
  /-- The semaphore it waits for. -/
  waiting : Option ι
  deriving DecidableEq

/-- The identifiers that `taskInit` derives from the addresses of the control blocks, which
it cuts to an `int`: two blocks may have the same one. They differ from those that `new_tid`
assigns, which is what its 64K limit is for. -/
structure AddressIds (θ : Type) where
  id : θ → ℤ
  apart : ∀ t, ¬ (1 ≤ id t ∧ id t ≤ 65536)

instance {θ : Type} : CoeOut (AddressIds θ) (θ → ℤ) := ⟨AddressIds.id⟩

/-! ### Identifiers -/

/-- The scan of `new_tid`. -/
def newTid (ids : List ℤ) : ℤ :=
  ids.foldl (fun newTaskid id => if id < 65536 ∧ id ≥ newTaskid then id + 1 else newTaskid) 1

theorem newTid_range (ids : List ℤ) : 1 ≤ newTid ids ∧ newTid ids ≤ 65536 := by
  have hfold : ∀ (ids : List ℤ) (n : ℤ), 1 ≤ n ∧ n ≤ 65536 →
      1 ≤ ids.foldl (fun n id => if id < 65536 ∧ id ≥ n then id + 1 else n) n ∧
        ids.foldl (fun n id => if id < 65536 ∧ id ≥ n then id + 1 else n) n ≤ 65536 := by
    intro ids
    induction ids with
    | nil => exact fun n hn => hn
    | cons id ids ih =>
      intro n hn
      rw [List.foldl_cons]
      refine ih _ ?_
      split <;> omega
  exact hfold ids 1 (by decide)

/-! ### The protection count -/

/-- The largest `int`. -/
def intMax : ℤ := 2 ^ 31 - 1

/-- What an `int` holds after the value has been stored in it. -/
def wrapInt (n : ℤ) : ℤ := Int.bmod n (2 ^ 32)

/-- `delete_safe_count++`, adjusted for any overflow. -/
def countUp (count : ℤ) : ℤ :=
  let count := wrapInt (count + 1)
  if count ≤ 0 then wrapInt (count - 1) else count

/-- `if (delete_safe_count > 0) delete_safe_count--`. -/
def countDown (count : ℤ) : ℤ := if count > 0 then count - 1 else count

theorem countUp_of_lt {count : ℤ} (h : 0 ≤ count) (hlt : count < intMax) : countUp count = count + 1 := by
  have hwrap : wrapInt (count + 1) = count + 1 := by
    unfold intMax at hlt
    exact Int.bmod_eq_of_le (by omega) (by omega)
  rw [countUp, hwrap]
  exact if_neg (by omega)

/-- At its maximum the count stays where it is. -/
theorem countUp_intMax : countUp intMax = intMax := by decide

end V2lin.TaskLib
