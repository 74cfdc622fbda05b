import V2lin.TaskLib.Protection

/-! What `taskDelete` has done when it returns OK.

A task that was not protected when it was tested has been deleted, by the caller. One that
was protected is still there: its deleter has only waited for it to become deletable, and
still stands on its list. -/
namespace V2lin.TaskLib
open Threads V2lin.Task

section
variable {θ ι : Type}

/-- The task that `taskDelete` has found, and how it was tested if it has been. -/
def Cause.found : Cause θ → Option (θ × Option Bool)
  | .nested v => some (v, some true)
  | _ => none

def Caller.found : Caller θ → Option (θ × Option Bool)
  | .force cause _ _ => cause.found
  | .unsafely => none

theorem Cause.found_tested (cause : Cause θ) (t : θ) : cause.found ≠ some (t, none) := by
  cases cause <;> nofun

theorem Caller.found_tested (caller : Caller θ) (t : θ) : caller.found ≠ some (t, none) := by
  cases caller with
  | force cause => exact cause.found_tested t
  | unsafely => nofun

def found : Pc θ → Option (θ × Option Bool)
  | .deleteTlock _ _ v | .deleteTest _ _ v => some (v, none)
  | .deleteTunlock _ _ v deletable | .deleteUnlock (some v) deletable _ _ => some (v, some deletable)
  | .pendLink _ v | .pendTlock _ v | .pendUnlock _ v | .pendTest _ v | .pendWait _ v => some (v, some false)
  | .pendWoken _ v | .pendRelock _ v | .pendUnlink _ v => some (v, some false)
  | .pendDbcst v | .pendNotify v | .pendDunlock v | .pendTunlock v => some (v, some false)
  | .forceEnter cause _ | .forceLock cause _ _ | .forceFind cause _ _ | .forceSplit cause _ _ _ => cause.found
  | .forceCancel cause _ | .forceJoin cause _ | .forceRemove cause _ | .forceSelfRemove cause _ => cause.found
  | .forceSelfUnlock cause | .forceUnlock cause _ _ => cause.found
  | .notifyTest caller _ | .notifyDlock caller _ | .notifyTlock caller _ | .notifyBroadcast caller _ => caller.found
  | .notifyTunlock caller _ | .notifyDrain caller _ | .notifyWait caller _ | .notifyWoken caller _ => caller.found
  | .notifyDunlock caller _ => caller.found
  | _ => none

/-- The lookup of `taskDelete`. -/
def looksUp : Pc θ → Bool
  | .deleteFind _ _ => true
  | _ => false

/-- A return of OK without a task. -/
def returnsUnfound : Pc θ → Bool
  | .deleteUnlock none _ .ok _ => true
  | _ => false

/-- The thread is still about the same task, or about none, and returns OK for none only if
it did so before. -/
structure Stays (p p' : Pc θ) : Prop where
  found : found p' = found p ∨ found p' = none
  unfound : returnsUnfound p' = false

variable {p p' : Pc θ}

theorem LockPoint.stays (h : LockPoint p p') : Stays p p' := by
  cases h <;> exact ⟨.inl rfl, rfl⟩

theorem UnlockPoint.stays (h : UnlockPoint p p') : Stays p p' := by
  cases h with
  | force cause => cases cause <;> exact ⟨.inl rfl, rfl⟩
  | unsafely madeDeletable => cases madeDeletable <;> exact ⟨.inr rfl, rfl⟩
  | pend => exact ⟨.inl rfl, rfl⟩
  | self => exact ⟨.inl rfl, rfl⟩
  | _ => exact ⟨.inr rfl, rfl⟩

theorem KillPoint.stays (h : KillPoint p p') : Stays p p' := by
  cases h with
  | force cause => cases cause <;> exact ⟨.inr rfl, rfl⟩
  | _ => exact ⟨.inr rfl, rfl⟩

theorem CleanPoint.stays (h : CleanPoint p p') : Stays p p' := by
  cases h <;> exact ⟨.inr rfl, rfl⟩

variable [DecidableEq θ] {ids : AddressIds θ} {t w : θ} {m m' : Mem θ ι}

/-- A block that only reads stays with the task, but for the lookup and the test. -/
theorem Goes.stays (h : Goes w m p p') (hfind : looksUp p = false) :
    Stays p p' ∨ ∃ tid selfTask v, p = .deleteTest tid selfTask v ∧
      p' = .deleteTunlock tid selfTask v (decide ((m.tcb v).deleteSafeCount ≤ 0)) := by
  cases h with
  | notFound => cases hfind
  | found => cases hfind
  | deletable tid selfTask hcount => exact .inr ⟨tid, selfTask, _, rfl, by rw [decide_eq_true hcount]⟩
  | undeletable tid selfTask hcount =>
    exact .inr ⟨tid, selfTask, _, rfl, by rw [decide_eq_false (Int.not_le.mpr hcount)]⟩
  | nobody caller => cases caller <;> exact .inl ⟨.inl rfl, rfl⟩
  | _ => exact .inl ⟨.inl rfl, rfl⟩

variable [DecidableEq ι]

theorem next_stays (h : (code (ι := ι) ids w p).Next p') : Stays p p' := by
  cases p
  case deleteTunlock tid self u deletable =>
    cases h
    cases deletable
    · simp only [Bool.false_eq_true, if_false]
      split <;> exact ⟨.inl rfl, rfl⟩
    · exact ⟨.inl rfl, rfl⟩
  case notifyDunlock caller u =>
    cases h
    cases caller <;> exact ⟨.inl rfl, rfl⟩
  case notifyKilled caller u =>
    cases h
    cases caller
    · rename_i cause _ _
      cases cause <;> exact ⟨.inr rfl, rfl⟩
    · exact ⟨.inr rfl, rfl⟩
  all_goals first
    | exact False.elim h
    | (cases h; exact ⟨.inl rfl, rfl⟩)
    | (obtain ⟨r, rfl⟩ := h; exact ⟨.inl rfl, rfl⟩)

theorem Runs.stays (h : Runs ids w p m m' p') (hfind : looksUp p = false) :
    Stays p p' ∨ ∃ tid selfTask v, p = .deleteTest tid selfTask v ∧
      p' = .deleteTunlock tid selfTask v (decide ((m.tcb v).deleteSafeCount ≤ 0)) := by
  cases h with
  | reads hg => exact hg.stays hfind
  | locked hl => exact .inl hl.stays
  | unlocked hu => exact .inl hu.stays
  | cleaned hc => exact .inl hc.stays
  | killed hk => exact .inl hk.stays
  | unlinked v u =>
    refine .inl ?_
    split <;> exact ⟨.inl rfl, rfl⟩
  | _ => exact .inl ⟨.inl rfl, rfl⟩

/-! ### One call of `taskDelete` -/

variable {s s' : TaskState θ ι} {before later : List (TaskTransition θ ι)} {y : TaskTransition θ ι}

/-- A call of `taskDelete` that has found `t`, whose protection count was `count` then. -/
structure Deletes (d t : θ) (count : ℤ) (s : TaskState θ ι) : Prop where
  unfound : returnsUnfound (s.ctl d).point = false
  found : found (s.ctl d).point = some (t, none) ∧ (s.mem.tcb t).deleteSafeCount = count ∨
    found (s.ctl d).point = some (t, some (decide (count ≤ 0))) ∨ found (s.ctl d).point = none

omit [DecidableEq ι] [DecidableEq θ] in
theorem Deletes.stays {d : θ} {count : ℤ} (h : Deletes d t count s) (hstays : Stays (s.ctl d).point (s'.ctl d).point)
    (hcount : TaskLib.found (s.ctl d).point = some (t, none) →
      (s'.mem.tcb t).deleteSafeCount = (s.mem.tcb t).deleteSafeCount) : Deletes d t count s' := by
  refine ⟨hstays.unfound, ?_⟩
  obtain heq | hnone := hstays.found
  · rw [heq]
    exact h.found.imp (fun hseeks => ⟨hseeks.1, by rw [hcount hseeks.1, hseeks.2]⟩) fun hrest => hrest
  · exact .inr (.inr hnone)

/-- The count of a task that has been found stays until it is tested. -/
theorem found_count (hsound : Sound ids s.mem s.ctl) (hheld : Held s.mem.sched s.ctl) (hs : Step (code ids) w s s')
    {d : θ} (hfound : found (s.ctl d).point = some (t, none)) :
    (s'.mem.tcb t).deleteSafeCount = (s.mem.tcb t).deleteSafeCount := by
  have hseeks : ∃ tid, stage (s.ctl d).point = .seeks tid t ∧ 0 < locks (s.ctl d).point ∧
      (s.ctl d).point ≠ .safeCount ∧ (s.ctl d).point ≠ .unsafeCount := by
    generalize (s.ctl d).point = p at hfound
    cases p
    case deleteTlock tid self v =>
      cases hfound
      exact ⟨tid, rfl, Nat.zero_lt_one, nofun, nofun⟩
    case deleteTest tid self v =>
      cases hfound
      exact ⟨tid, rfl, Nat.zero_lt_one, nofun, nofun⟩
    case deleteUnlock found deletable error released => cases found <;> cases hfound
    all_goals first
      | cases hfound
      | exact absurd hfound (Cause.found_tested _ t)
      | exact absurd hfound (Caller.found_tested _ t)
  obtain ⟨tid, hstage, hlocks, hsafe, hunprot⟩ := hseeks
  have hlocker := (hheld d hlocks).1
  have hk := hsound.knows d
  rw [hstage] at hk
  obtain ⟨hm, _⟩ | ⟨p, p', hp, hp', hr, _⟩ := step_cases hs
  · rw [hm]
  · have hokw := hsound.ok w
    rw [hp, Ctl.point_awake] at hokw
    by_cases hw : w = d
    · subst hw
      rw [hp, Ctl.point_awake] at hsafe hunprot
      obtain ⟨heq, _⟩ | ⟨_, he, _⟩ | ⟨_, he, _⟩ := hr.count_cases hsound.registry hokw t
      · exact heq
      · exact absurd he hsafe
      · exact absurd he hunprot
    · refine ((hr.aside hokw hlocker hw fun hl => ?_).same t hk.1).2.1
      exact (hheld w (by rw [hp]; exact hl)).1

theorem deletes_step {d : θ} {count : ℤ} (h : Deletes d t count s) (hsound : Sound ids s.mem s.ctl)
    (hheld : Held s.mem.sched s.ctl) (hs : Step (code ids) w s s')
    (hfind : w = d → looksUp (s.ctl w).point = false) : Deletes d t count s' := by
  have hcount := fun hfound : found (s.ctl d).point = some (t, none) => found_count hsound hheld hs hfound
  by_cases hw : w = d
  · subst hw
    obtain ⟨_, _, heq | hnext⟩ | ⟨p, p', hp, hp', hr, _⟩ := step_cases hs
    · exact h.stays ⟨.inl (by rw [heq]), by rw [heq]; exact h.unfound⟩ hcount
    · exact h.stays (next_stays hnext) hcount
    · have hfindp := hfind rfl
      rw [hp, Ctl.point_awake] at hfindp
      obtain hstays | ⟨tid, selfTask, v, rfl, rfl⟩ := hr.stays hfindp
      · refine h.stays ?_ hcount
        rw [hp, hp']
        exact hstays
      · -- the test
        have hfound := h.found
        rw [hp, Ctl.point_awake] at hfound
        obtain ⟨he, hc⟩ | he | he := hfound
        · cases he
          rw [hc] at hp'
          exact ⟨by rw [hp']; rfl, .inr (.inl (by rw [hp']; rfl))⟩
        · cases he
        · cases he
  · refine h.stays ?_ hcount
    rw [hs.ctl_other (Ne.symm hw)]
    exact ⟨.inl rfl, h.unfound⟩

end

/-- Task 1 protects itself. Task 0 wants to delete it and waits until it is unprotected. -/
def handshake : List (Fin 3 × Input (Choice (Fin 3))) :=
  does 1 .safe :: goesOn 1 6 ++ does 0 (.delete 65538) :: goesOn 0 10 ++ does 1 .unsafely :: goesOn 1 14 ++ goesOn 0 7

/-- Task 1 protects itself and gives that up again. Tasks 0 and 2 both want to delete it; task
2 has called first, and task 0 has the scheduler lock first. -/
def twoDeleters : List (Fin 3 × Input (Choice (Fin 3))) :=
  does 1 .safe :: goesOn 1 6 ++ does 1 .unsafely :: goesOn 1 7 ++ does 2 (.delete 65538) :: does 0 (.delete 65538) ::
    goesOn 0 11 ++ does 1 .kill :: goesOn 1 2 ++ goesOn 0 4

end V2lin.TaskLib
