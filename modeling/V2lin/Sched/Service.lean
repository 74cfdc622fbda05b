import V2lin.Sched.Locker
import V2lin.Task.SchedLock
import V2lin.Threads.Linearize

/-! The scheduler lock as one object.

`taskLock`, `taskUnlock` and `task_wrapper_cleanup` are many steps each, and they write the
flag and the counter one after the other. Seen from outside each of them is one operation of
`SchedLock`, done between its call and its return, where it writes the counter: that is what
the libraries that are modelled with `SchedLock` build on. -/
namespace V2lin.Sched
open Threads V2lin.Task

section
variable {θ : Type} [DecidableEq θ] {ulongMax : ℕ} {t u : θ} {p p' : Pc} {m m' : Mem θ}
variable {tr : List (SchedTransition θ)} {s s' : SchedState θ} {op : Op}

/-! ### Deeds -/

inductive Outcome where
  | done
  /-- Killed before it had the lock. -/
  | killed
  deriving DecidableEq

inductive Deed (θ : Type) where
  | lock (t : θ)
  | unlock (t : θ)
  | cleanup (t : θ)
  | abandon (t : θ)
  deriving DecidableEq

/-- The call that a deed settles. -/
def Deed.settles : Deed θ → Option (θ × Op × Outcome)
  | .lock t => some (t, .taskLock, .done)
  | .unlock t => some (t, .taskUnlock, .done)
  | .cleanup t => some (t, .cleanup, .done)
  | .abandon t => some (t, .taskLock, .killed)

def act : Deed θ → SchedLock θ → Option (SchedLock θ)
  | .lock t, k => k.taskLock t
  | .unlock t, k => some (k.taskUnlock t)
  | .cleanup t, k => some (k.cleanup t)
  | .abandon _, k => some k

/-- What the flag and the counter stand for: the flag counts while the counter is not zero. -/
def shown (m : Mem θ) : SchedLock θ :=
  if m.taskLockLevel = 0 then {} else ⟨m.locker, m.taskLockLevel⟩

omit [DecidableEq θ] in
theorem shown_zero (h : m.taskLockLevel = 0) : shown m = {} := if_pos h

omit [DecidableEq θ] in
theorem shown_locked (h : m.taskLockLevel ≠ 0) : shown m = ⟨m.locker, m.taskLockLevel⟩ := if_neg h

omit [DecidableEq θ] in
theorem shown_foreign (h : m.locker ≠ some t) : (shown m).locker ≠ some t := by
  unfold shown
  split
  · exact nofun
  · exact h

/-- The deed of a step of thread `t`. -/
def deedAt (t : θ) : Pc → Pc → Option (Deed θ)
  | .lockCount, _ => some (.lock t)
  | .lockWoken, .lockKilled => some (.abandon t)
  | .lockTestcancel false, .lockCancelled _ => some (.abandon t)
  | .unlockTest, .unlockRelease => some (.unlock t)
  | .unlockCount, _ => some (.unlock t)
  | .cleanTest, .cleanRelease => some (.cleanup t)
  | .cleanReset, _ => some (.cleanup t)
  | _, _ => none

def deed (x : SchedTransition θ) : Option (Deed θ) :=
  deedAt x.thread (x.pre.ctl x.thread).point (x.post.ctl x.thread).point

theorem deedAt_sync (hnoblock : ∀ block, code ulongMax t p ≠ .run block) : deedAt t p p' = none := by
  cases p <;> first | rfl | exact absurd rfl (hnoblock _)

/-- A block does its deed to the scheduler lock. -/
theorem Runs.acts (hr : Runs ulongMax t p m m' p') {ctl : θ → Ctl Pc} (h : Good m ctl) (hp : ctl t = .awake p)
    (hmax : p = .lockCount → m.taskLockLevel < ulongMax) : Acts act (deedAt t p p') (shown m) (shown m') := by
  have hmine := h.locker t
  rw [hp, Ctl.point_awake] at hmine
  have hzero : clearing p = true → m.locker = some t → m.taskLockLevel = 0 := by
    intro hclears hm
    exact h.zero t hm (by rw [hp]; exact hclears)
  cases hr with
  | called op => cases op <;> rfl
  | goesOn gotLock => cases gotLock <;> rfl
  | cancelled gotLock => cases gotLock <;> rfl
  | taken =>
    show shown _ = shown m
    by_cases hlevel : m.taskLockLevel = 0
    · rw [shown_zero hlevel, shown_zero (m := {m with locker := some t}) hlevel]
    · have hm : m.locker = some t := (h.admitted t hp).resolve_left fun hnone => hlevel (h.free hnone)
      rw [shown_locked hlevel, shown_locked (m := {m with locker := some t}) hlevel, hm]
  | locked =>
    have hm := hmine rfl
    show (shown m).taskLock t = _
    rw [countUp_of_lt (hmax rfl), shown_locked (m := ⟨m.locker, m.taskLockLevel + 1⟩) (Nat.succ_ne_zero _), hm]
    by_cases hlevel : m.taskLockLevel = 0
    · rw [shown_zero hlevel, hlevel]
      rfl
    · rw [shown_locked hlevel, hm]
      exact if_pos (.inr rfl)
  | foreign hm => exact congrArg some (SchedLock.taskUnlock_foreign (shown_foreign hm))
  | unowned hm => exact congrArg some (SchedLock.cleanup_foreign (shown_foreign hm))
  | counted =>
    have hm := hmine rfl
    have hpos := h.unlock_pos hm hp
    have hdeed : deedAt t .unlockCount (if countDown m.taskLockLevel < 1 then .unlockListAcquire else .unlockRelease) =
        some (.unlock t) := by
      split <;> rfl
    rw [hdeed, countDown, if_pos hpos]
    show some ((shown m).taskUnlock t) = _
    rw [shown_locked (Nat.ne_of_gt hpos), hm]
    by_cases hlast : m.taskLockLevel = 1
    · rw [hlast, shown_zero (m := ⟨some t, 1 - 1⟩) rfl]
      simp [SchedLock.taskUnlock]
    · have hleft : 1 < m.taskLockLevel := by omega
      have hagain : m.taskLockLevel - 1 ≠ 0 := by omega
      rw [shown_locked (m := ⟨some t, m.taskLockLevel - 1⟩) hagain]
      exact congrArg some (SchedLock.taskUnlock_nested rfl hleft)
  | cleared | abandoned =>
    have hlevel := hzero rfl (hmine rfl)
    show shown _ = shown m
    rw [shown_zero hlevel, shown_zero (m := {m with locker := none}) hlevel]
  | reset =>
    show some ((shown m).cleanup t) = _
    rw [shown_zero (m := {m with taskLockLevel := 0}) rfl, SchedLock.cleanup]
    split
    · rfl
    · rename_i hforeign
      by_cases hlevel : m.taskLockLevel = 0
      · rw [shown_zero hlevel]
      · rw [shown_locked hlevel] at hforeign
        exact absurd (hmine rfl) hforeign
  | _ => rfl

theorem deed_step (h : Good s.mem s.ctl) (hs : Step (code ulongMax) t s s') (hmax : BelowMax ulongMax ⟨s, t, s'⟩) :
    Acts act (deed ⟨s, t, s'⟩) (shown s.mem) (shown s'.mem) := by
  obtain ⟨hm, hnoblock, _⟩ | ⟨p, p', hp, hp', hr⟩ := step_cases hs
  · have hnone : deed ⟨s, t, s'⟩ = none := deedAt_sync hnoblock
    rw [hnone, hm]
    rfl
  · have hdeed : deed ⟨s, t, s'⟩ = deedAt t p p' := by simp [deed, hp, hp']
    rw [hdeed]
    exact hr.acts h hp fun he => hmax (he ▸ hp)

/-! ### Calls -/

def stage : Pc → CallStage Op Outcome
  | .idle => .outside
  | .lockAcquire | .lockTest | .lockOwn | .lockCount | .lockWait | .lockWoken => .pending .taskLock
  | .lockRelease false | .lockTestcancel false => .pending .taskLock
  | .lockNotify | .lockRelease true | .lockTestcancel true | .lockCancelled true => .settled .taskLock .done
  | .lockListAcquire | .lockListRelease => .settled .taskLock .done
  | .lockKilled | .lockCancelled false => .settled .taskLock .killed
  | .unlockAcquire | .unlockTest | .unlockCount => .pending .taskUnlock
  | .unlockListAcquire | .unlockListRelease | .unlockClear => .settled .taskUnlock .done
  | .unlockNotify | .unlockRelease => .settled .taskUnlock .done
  | .cleanAcquire | .cleanTest | .cleanReset => .pending .cleanup
  | .cleanClear | .cleanRelease => .settled .cleanup .done

theorem next_goes (h : (code ulongMax t p).Next p') : (stage p).Goes (stage p') := by
  cases p
  case lockWait =>
    obtain ⟨_, rfl⟩ := h
    exact .stays _
  case lockRelease gotLock =>
    cases h
    cases gotLock <;> exact .stays _
  case lockListRelease =>
    cases h
    exact .left _ _
  case lockKilled =>
    cases h
    exact .called _ fun _ he => by cases he
  case lockCancelled gotLock =>
    cases h
    cases gotLock <;> exact .called _ fun _ he => by cases he
  case unlockRelease =>
    cases h
    exact .left _ _
  case cleanRelease =>
    cases h
    exact .left _ _
  all_goals first
    | exact False.elim h
    | (cases h; exact .stays _)

omit [DecidableEq θ] in
theorem Runs.stage_goes (hr : Runs ulongMax t p m m' p') : (stage p).Goes (stage p') := by
  cases hr with
  | called op => cases op <;> exact .called _ fun _ he => by cases he
  | locked | killed | foreign | unowned | reset => exact .settles _ _
  | goesOn gotLock => cases gotLock <;> exact .stays _
  | cancelled gotLock =>
    cases gotLock
    · exact .settles _ _
    · exact .stays _
  | counted => split <;> exact .settles _ _
  | _ => exact .stays _

theorem stage_step (hs : Step (code ulongMax) t s s') :
    (stage (s.ctl t).point).Goes (stage (s'.ctl t).point) := by
  obtain ⟨_, _, heq | hnext⟩ | ⟨p, p', hp, hp', hr⟩ := step_cases hs
  · rw [heq]
    exact .stays _
  · exact next_goes hnext
  · rw [hp, hp']
    exact hr.stage_goes

omit [DecidableEq θ] in
theorem initial_stage (s : SchedState θ) (t : θ) (h : Initial s) : stage (s.ctl t).point = .outside := by
  rw [h.idle t]
  rfl

theorem next_unsettled (h : (code ulongMax t p).Next p') (hp : stage p = .pending op) (r : Outcome) :
    stage p' ≠ .settled op r := by
  intro hp'
  cases p
  case lockWait =>
    obtain ⟨_, rfl⟩ := h
    cases hp'
  case lockRelease gotLock =>
    cases h
    cases gotLock
    · cases hp'
    · cases hp
  case lockCancelled gotLock =>
    cases h
    cases hp'
  all_goals first
    | exact False.elim h
    | cases hp; done
    | cases h; cases hp'

omit [DecidableEq θ] in
/-- A block that settles a call does the deed that settles it. -/
theorem Runs.settling (hr : Runs ulongMax t p m m' p') {r : Outcome} (hp : stage p = .pending op)
    (hp' : stage p' = .settled op r) : ∃ e, deedAt t p p' = some e ∧ e.settles = some (t, op, r) := by
  cases hr with
  | called => cases hp
  | goesOn gotLock => cases gotLock <;> first | cases hp; done | cases hp'
  | cancelled gotLock =>
    cases gotLock
    · cases hp
      cases hp'
      exact ⟨_, rfl, rfl⟩
    · cases hp
  | counted =>
    by_cases hlast : countDown m.taskLockLevel < 1
    · rw [if_pos hlast] at hp' ⊢
      cases hp
      cases hp'
      exact ⟨_, rfl, rfl⟩
    · rw [if_neg hlast] at hp' ⊢
      cases hp
      cases hp'
      exact ⟨_, rfl, rfl⟩
  | locked | killed | foreign | unowned | reset =>
    cases hp
    cases hp'
    exact ⟨_, rfl, rfl⟩
  | _ => first | cases hp; done | cases hp'

omit [DecidableEq θ] in
theorem Runs.settled (hr : Runs ulongMax t p m m' p') {e : Deed θ} {r : Outcome} (he : deedAt t p p' = some e)
    (hset : e.settles = some (u, op, r)) : stage p = .pending op ∧ stage p' = .settled op r := by
  cases hr with
  | called op => cases op <;> cases he
  | goesOn gotLock => cases gotLock <;> cases he
  | cancelled gotLock =>
    cases gotLock
    · cases he
      cases hset
      exact ⟨rfl, rfl⟩
    · cases he
  | counted =>
    by_cases hlast : countDown m.taskLockLevel < 1
    · rw [if_pos hlast] at he ⊢
      cases he
      cases hset
      exact ⟨rfl, rfl⟩
    · rw [if_neg hlast] at he ⊢
      cases he
      cases hset
      exact ⟨rfl, rfl⟩
  | locked | killed | foreign | unowned | reset =>
    cases he
    cases hset
    exact ⟨rfl, rfl⟩
  | _ => cases he

theorem settling_deed {x : SchedTransition θ} {r : Outcome} (hs : Step (code ulongMax) x.thread x.pre x.post)
    (hpre : stage (x.pre.ctl x.thread).point = .pending op) (hpost : stage (x.post.ctl x.thread).point = .settled op r) :
    ∃ e, deed x = some e ∧ e.settles = some (x.thread, op, r) := by
  obtain ⟨_, _, heq | hnext⟩ | ⟨p, p', hp, hp', hr⟩ := step_cases hs
  · rw [heq, hpre] at hpost
    cases hpost
  · exact absurd hpost (next_unsettled hnext hpre _)
  · rw [hp] at hpre
    rw [hp'] at hpost
    rw [deed, hp, hp']
    exact hr.settling hpre hpost

theorem deed_settling {x : SchedTransition θ} {e : Deed θ} {r : Outcome}
    (hs : Step (code ulongMax) x.thread x.pre x.post) (he : deed x = some e) (hset : e.settles = some (u, op, r)) :
    stage (x.pre.ctl x.thread).point = .pending op ∧ stage (x.post.ctl x.thread).point = .settled op r := by
  obtain ⟨_, hnoblock, _⟩ | ⟨p, p', hp, hp', hr⟩ := step_cases hs
  · rw [deed, deedAt_sync hnoblock] at he
    cases he
  · rw [deed, hp, hp'] at he
    rw [hp, hp']
    exact hr.settled he hset

/-! ### Service -/

/-- The last call of thread `t` has been settled by one deed since it was made, and by one
only. -/
def SettledOnce (t : θ) (op : Op) (r : Outcome) (tr : List (SchedTransition θ)) : Prop :=
  ∃ after y between x before e, tr = after ++ y :: (between ++ x :: before) ∧
    x.thread = t ∧ (∀ op, stage (x.pre.ctl t).point ≠ .pending op) ∧ stage (x.post.ctl t).point = .pending op ∧
    y.thread = t ∧ deed y = some e ∧ e.settles = some (t, op, r) ∧
    ∀ z ∈ after ++ between, z.thread = t → ∀ e, deed z = some e → e.settles = none

theorem settled_once (h : Run (code ulongMax) Initial tr s) {r : Outcome}
    (ht : stage (s.ctl t).point = .settled op r) : SettledOnce t op r tr :=
  h.settled_once (fun s t hi => initial_stage s t hi) (fun _ _ _ => stage_step)
    (fun _ _ _ hs hpre hpost => settling_deed hs hpre hpost) (fun _ _ _ _ _ hs he => deed_settling hs he) ht

omit [DecidableEq θ] in
theorem initial_shown (s : SchedState θ) (h : Initial s) : shown s.mem = {} := by
  exact shown_zero h.level

/-- While the counter is below its maximum and no second unlocking does harm, the steps of the
three functions are operations of one scheduler lock, and every call is one of them. -/
theorem lock_served (h : Run (code ulongMax) Initial tr s) (hall : ∀ x ∈ tr, Regular ulongMax x) :
    replay act {} (tr.filterMap deed) = some (shown s.mem) ∧
      ∀ t op r, stage (s.ctl t).point = .settled op r → SettledOnce t op r tr := by
  refine ⟨h.replays_initial (fun s => shown s.mem) deed (fun s hi => initial_shown s hi) ?_,
    fun _ _ _ ht => settled_once h ht⟩
  intro y l hrun hsuff hs
  have hgood := good hrun fun x hx => hall x (hsuff.subset (List.mem_cons_of_mem _ hx))
  exact deed_step hgood hs (hall y (hsuff.subset (List.mem_cons_self ..))).max

end

/-- Thread 0 locks the scheduler; thread 1 waits for it, and has it when thread 0 has
unlocked it; thread 2 waits as well, and is killed at the end of a turn. -/
def passOn : List (Fin 3 × Input Choice) :=
  calls 0 .taskLock :: goesOn 0 9 ++ calls 1 .taskLock :: goesOn 1 3 ++ calls 2 .taskLock :: goesOn 2 6 ++
    (2, {choice := .kill}) :: goesOn 2 4 ++ calls 0 .taskUnlock :: goesOn 0 8 ++ goesOn 1 10

theorem passOn_locked : ∃ (tr : List (SchedTransition (Fin 3))) (s : SchedState (Fin 3)),
    s.mem.locker = some 1 ∧ (tr.filterMap deed) = [.lock 1, .unlock 0, .cleanup 2, .abandon 2, .lock 0] ∧
      replay act {} (tr.filterMap deed) = some (shown s.mem) := by
  obtain ⟨tr, s, hr, hs⟩ := run_of_check (code (2 ^ 64 - 1)) passOn (fun tr s =>
      (∀ x ∈ tr, BelowMax (2 ^ 64 - 1) x ∧ Harmless x) ∧ s.mem.locker = some 1 ∧
        tr.filterMap deed = [.lock 1, .unlock 0, .cleanup 2, .abandon 2, .lock 0])
    boot_initial (by decide)
  obtain ⟨hall, hlocker, hdeeds⟩ := of_decide_eq_true hs
  exact ⟨tr, s, hlocker, hdeeds, (lock_served hr fun x hx => ⟨(hall x hx).1, (hall x hx).2⟩).1⟩

end V2lin.Sched
