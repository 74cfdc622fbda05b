import V2lin.TaskLib.Steps

/-! Where the scheduler is locked.

A function of the task library that has locked the scheduler keeps it locked to the end,
through the nested `taskLock` and `taskUnlock` of the functions it calls. So at the points
at which `locks` counts a level, the thread is the locker, and no two threads are at such
points. -/
namespace V2lin.TaskLib
open Threads V2lin.Task

section
variable {θ ι : Type}

/-- The levels below a `taskDeleteForce`. -/
def Cause.locks : Cause θ → ℕ
  | .nested _ => 1
  | _ => 0

def Caller.locks : Caller θ → ℕ
  | .force cause _ _ => cause.locks + 1
  | .unsafely => 0

/-- The levels of the scheduler lock that the library has taken at a point. -/
def locks : Pc θ → ℕ
  | .spawnFind _ | .spawnUnlock _ => 1
  | .deleteFind _ _ | .deleteTlock _ _ _ | .deleteTest _ _ _ | .deleteTunlock _ _ _ _ => 1
  | .deleteUnlock _ _ _ released => if released then 0 else 1
  | .pendLink _ _ | .pendTlock _ _ | .pendUnlock _ _ => 1
  | .pendUnlink _ _ | .pendDbcst _ | .pendNotify _ | .pendDunlock _ | .pendTunlock _ => 1
  | .forceEnter cause _ | .forceLock cause _ _ => cause.locks
  | .forceFind cause _ _ | .forceSplit cause _ _ _ | .forceCancel cause _ | .forceJoin cause _ => cause.locks + 1
  | .forceRemove cause _ | .forceSelfRemove cause _ | .forceSelfUnlock cause => cause.locks + 1
  | .forceUnlock cause _ released => if released then cause.locks else cause.locks + 1
  | .notifyTest caller _ | .notifyDlock caller _ | .notifyTlock caller _ | .notifyBroadcast caller _ => caller.locks
  | .notifyTunlock caller _ | .notifyDrain caller _ | .notifyWait caller _ | .notifyWoken caller _ => caller.locks
  | .notifyDunlock caller _ => caller.locks
  | .safeFind | .safeTlock | .safeCount | .safeTunlock | .safeUnlock => 1
  | .unsafeFind | .unsafeTlock | .unsafeCount | .unsafeTunlock _ | .unsafeUnlock _ => 1
  | _ => 0

@[simp] theorem locks_cause_killed (cause : Cause θ) : locks cause.killed = 0 := by
  cases cause <;> rfl

@[simp] theorem locks_caller_killed (caller : Caller θ) : locks caller.killed = 0 := by
  cases caller
  · exact locks_cause_killed _
  · rfl

@[simp] theorem locks_caller_after (caller : Caller θ) (u : θ) : locks (caller.after u) = caller.locks := by
  cases caller <;> rfl

variable {p p' : Pc θ}

theorem LockPoint.locks (h : LockPoint p p') : locks p' = locks p + 1 ∨ p' = .idle := by
  cases h <;> first | exact .inl rfl | exact .inr rfl

theorem UnlockPoint.locks (h : UnlockPoint p p') : TaskLib.locks p' = TaskLib.locks p - 1 := by
  cases h with
  | delete found deletable error released => cases released <;> rfl
  | force cause error released => cases cause <;> cases released <;> rfl
  | unsafely madeDeletable => cases madeDeletable <;> rfl
  | _ => rfl

theorem KillPoint.locks (h : KillPoint p p') : TaskLib.locks p' = 0 := by
  cases h <;> first | rfl | exact locks_cause_killed _

theorem CleanPoint.locks (h : CleanPoint p p') : TaskLib.locks p' = 0 := by
  cases h <;> rfl

variable [DecidableEq θ] {ids : AddressIds θ} {t : θ} {m m' : Mem θ ι}

theorem Goes.locks (h : Goes t m p p') : TaskLib.locks p' = TaskLib.locks p := by
  cases h <;> first | rfl | exact locks_caller_after _ _

variable [DecidableEq ι] {s s' : TaskState θ ι} {tr : List (TaskTransition θ ι)}

theorem next_locks (h : (code (ι := ι) ids t p).Next p') : TaskLib.locks p' = TaskLib.locks p := by
  cases p
  case deleteTunlock tid selfTask u deletable =>
    cases h
    cases deletable
    · simp only [Bool.false_eq_true, if_false]
      split <;> rfl
    · rfl
  case notifyDunlock caller u =>
    cases h
    exact locks_caller_after _ _
  case notifyKilled caller u =>
    cases h
    exact locks_caller_killed _
  all_goals first
    | exact False.elim h
    | (cases h; rfl)
    | (obtain ⟨r, rfl⟩ := h; rfl)

/-- The locker has locked the scheduler as often as its point says, at least. -/
def Held (k : SchedLock θ) (ctl : θ → Ctl (Pc θ)) : Prop :=
  ∀ t, 0 < locks (ctl t).point → k.locker = some t ∧ locks (ctl t).point ≤ k.taskLockLevel

theorem Runs.counts (h : Runs ids t p m m' p') : m.sched.Counts t (locks p) m'.sched (locks p') := by
  cases h with
  | reads hg => exact .keep (Nat.le_of_eq hg.locks)
  | locked hl hk =>
    refine .lock hk ?_
    obtain heq | rfl := hl.locks
    · exact Nat.le_of_eq heq
    · exact Nat.zero_le _
  | unlocked hu => exact .unlock hu.locks
  | cleaned hc => exact .cleanup hc.locks
  | killed hk => exact .keep (by rw [hk.locks]; exact Nat.zero_le _)
  | noThread =>
    rw [Mem.taskDelete_sched]
    exact .keep (Nat.le_refl _)
  | unlinked =>
    rw [Mem.unlinkWaiting_sched]
    split <;> exact .keep (Nat.le_refl _)
  | removed =>
    rw [Mem.taskDelete_sched]
    exact .keep (Nat.le_refl _)
  | selfRemoved =>
    rw [Mem.taskDelete_sched]
    exact .keep (Nat.le_refl _)
  | _ => exact .keep (Nat.le_refl _)

theorem held_step (h : Held s.mem.sched s.ctl) (hs : Step (code ids) t s s') : Held s'.mem.sched s'.ctl := by
  intro u hu
  by_cases hut : u = t
  · subst hut
    obtain ⟨hm, _, heq | hnext⟩ | ⟨p, p', hp, hp', hr, _⟩ := step_cases hs
    · rw [heq] at hu ⊢
      exact hm ▸ h u hu
    · rw [next_locks hnext] at hu ⊢
      exact hm ▸ h u hu
    · have hold := h u
      rw [hp, Ctl.point_awake] at hold
      rw [hp', Ctl.point_awake] at hu ⊢
      exact hr.counts.held hold hu
  · have hold := h u
    rw [hs.ctl_other hut] at hu ⊢
    obtain ⟨hm, _⟩ | ⟨p, p', _, _, hr, _⟩ := step_cases hs
    · rw [hm]
      exact hold hu
    · rw [hr.counts.other (hold hu).1 hut]
      exact hold hu

theorem held (h : Run (code ids) (Initial ids) tr s) : Held s.mem.sched s.ctl := by
  refine h.invariant (fun _ => True) (fun s => Held s.mem.sched s.ctl) ?_ ?_ fun _ _ => trivial
  · intro s hs t ht
    obtain hp | hp := hs.point t <;> rw [hp] at ht <;> exact absurd ht (Nat.lt_irrefl 0)
  · exact fun _ _ _ hh hs _ => held_step hh hs

omit [DecidableEq θ] [DecidableEq ι] in
/-- No two threads have the scheduler locked. -/
theorem Held.unique {k : SchedLock θ} {ctl : θ → Ctl (Pc θ)} (h : Held k ctl) {t u : θ}
    (ht : 0 < locks (ctl t).point) (hu : 0 < locks (ctl u).point) : t = u :=
  Option.some.inj ((h t ht).1.symm.trans (h u hu).1)

end

end V2lin.TaskLib
