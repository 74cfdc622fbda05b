import Mathlib.Algebra.Order.Ring.Int
import Mathlib.Data.Nat.Notation

/-! The scheduler lock, as the object libraries use it.

`taskLock` blocks until the lock is free or already the caller's and nests;
`taskUnlock` by anybody else does nothing. The raise of the caller's priority that
goes with them changes no field that a semaphore or a queue reads. -/
namespace V2lin.Task

structure SchedLock (θ : Type) where
  locker : Option θ := none
  taskLockLevel : ℕ := 0

section
variable {θ : Type} [DecidableEq θ]

/-- `taskLock` by thread `t`; `none` while another thread is the locker. -/
def SchedLock.taskLock (k : SchedLock θ) (t : θ) : Option (SchedLock θ) :=
  if k.locker = none ∨ k.locker = some t then some ⟨some t, k.taskLockLevel + 1⟩ else none

/-- `taskUnlock` by thread `t`. -/
def SchedLock.taskUnlock (k : SchedLock θ) (t : θ) : SchedLock θ :=
  if k.locker = some t then
    if k.taskLockLevel - 1 < 1 then ⟨none, k.taskLockLevel - 1⟩ else ⟨some t, k.taskLockLevel - 1⟩
  else k

/-- `task_wrapper_cleanup` by thread `t`. -/
def SchedLock.cleanup (k : SchedLock θ) (t : θ) : SchedLock θ :=
  if k.locker = some t then ⟨none, 0⟩ else k

theorem SchedLock.taskLock_some {k k' : SchedLock θ} {t : θ} (h : k.taskLock t = some k') :
    (k.locker = none ∨ k.locker = some t) ∧ k'.locker = some t := by
  unfold taskLock at h
  split at h
  · rename_i hk
    cases h
    exact ⟨hk, rfl⟩
  · cases h

theorem SchedLock.taskLock_level {k k' : SchedLock θ} {t : θ} (h : k.taskLock t = some k') :
    k'.taskLockLevel = k.taskLockLevel + 1 := by
  unfold taskLock at h
  split at h
  · cases h
    rfl
  · cases h

/-- Nobody else can lock a locked scheduler. -/
theorem SchedLock.taskLock_other {k : SchedLock θ} {t u : θ} (h : k.locker = some u) (hu : u ≠ t) :
    k.taskLock t = none := by
  refine if_neg ?_
  rw [h]
  rintro (hk | hk)
  · cases hk
  · exact hu (Option.some.inj hk)

/-- Above the last level `taskUnlock` only counts down. -/
theorem SchedLock.taskUnlock_nested {k : SchedLock θ} {t : θ} (h : k.locker = some t) (hl : 1 < k.taskLockLevel) :
    k.taskUnlock t = ⟨some t, k.taskLockLevel - 1⟩ := by
  rw [taskUnlock, if_pos h, if_neg (by omega)]

theorem SchedLock.taskUnlock_foreign {k : SchedLock θ} {t : θ} (h : k.locker ≠ some t) : k.taskUnlock t = k :=
  if_neg h

theorem SchedLock.cleanup_foreign {k : SchedLock θ} {t : θ} (h : k.locker ≠ some t) : k.cleanup t = k :=
  if_neg h

/-! ### The levels that a thread counts -/

/-- A step of a thread that counts `l` levels of its own before it and `l'` after it: it
takes a level, gives one up, gives all up, or leaves the lock alone. -/
inductive SchedLock.Counts (t : θ) (k : SchedLock θ) (l : ℕ) : SchedLock θ → ℕ → Prop where
  | keep {l'} : l' ≤ l → SchedLock.Counts t k l k l'
  | lock {k' l'} : k.taskLock t = some k' → l' ≤ l + 1 → SchedLock.Counts t k l k' l'
  | unlock {l'} : l' = l - 1 → SchedLock.Counts t k l (k.taskUnlock t) l'
  | cleanup {l'} : l' = 0 → SchedLock.Counts t k l (k.cleanup t) l'

variable {k k' : SchedLock θ} {t u : θ} {l l' : ℕ}

/-- Whoever counts a level is the locker. -/
theorem SchedLock.Counts.held (h : SchedLock.Counts t k l k' l') (hold : 0 < l → k.locker = some t ∧ l ≤ k.taskLockLevel)
    (hpos : 0 < l') : k'.locker = some t ∧ l' ≤ k'.taskLockLevel := by
  cases h with
  | keep hle =>
    obtain ⟨hlocker, hlevel⟩ := hold (Nat.lt_of_lt_of_le hpos hle)
    exact ⟨hlocker, Nat.le_trans hle hlevel⟩
  | lock hk hle =>
    refine ⟨(taskLock_some hk).2, ?_⟩
    rw [taskLock_level hk]
    by_cases hzero : l = 0
    · omega
    · have hlevel := (hold (Nat.pos_of_ne_zero hzero)).2
      omega
  | unlock heq =>
    obtain ⟨hlocker, hlevel⟩ := hold (by omega)
    rw [taskUnlock_nested hlocker (by omega), heq]
    exact ⟨rfl, by simp only; omega⟩
  | cleanup heq => omega

/-- The others do not touch the locker's levels. -/
theorem SchedLock.Counts.other (h : SchedLock.Counts t k l k' l') (hlocker : k.locker = some u) (hu : u ≠ t) :
    k' = k := by
  have hforeign : k.locker ≠ some t := fun he => hu (Option.some.inj (hlocker.symm.trans he))
  cases h with
  | keep => rfl
  | lock hk =>
    rw [taskLock_other hlocker hu] at hk
    cases hk
  | unlock => exact taskUnlock_foreign hforeign
  | cleanup => exact cleanup_foreign hforeign

end

end V2lin.Task
