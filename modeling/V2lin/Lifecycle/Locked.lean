import V2lin.Lifecycle.Steps
import V2lin.Sched.Locker

/-! Where calls return to, and the scheduler lock over a whole run.

A point carries the point that follows; `Plain` are those that a call may return to. They
neither hold `task_list_lock` nor stand inside `taskLock` or `taskUnlock`, so the points that
do are entered only by the way of their own function. -/
namespace V2lin.Lifecycle
open Threads V2lin.Task V2lin.TaskLib

section
variable {θ τ ι : Type}

/-- A point that a call may return to. The beginning of a call and the end of a task's entry
point are none. -/
def Plain : Pc τ ι → Prop
  | .lockFind _ | .lockFlag _ _ | .lockTest _ _ | .listLock _ _ | .listEdit _ _ | .listUnlock _ | .unlockClear _ => False
  | .enter _ | .initLock _ _ _ | .initFlag _ _ _ | .closing => False
  | .unlockCount next | .remove _ next | .free _ next => Plain next
  | .forceEnter _ next | .forceFind _ _ next | .forceSplit _ _ next | .forceCancel _ next | .forceJoin _ next => Plain next
  | .notifyTest _ next | .notifyDlock _ next | .notifyTlock _ next | .notifyBroadcast _ next | .notifyTunlock _ next => Plain next
  | .notifyDrain _ next | .notifyWait _ next | .notifyWoken _ next | .notifyDunlock _ next | .notifyKilled _ next => Plain next
  | _ => True

/-- A section under `task_list_lock` is followed by a plain point, by the end of
`taskUnlock`, or by another section. -/
def AfterSection : Pc τ ι → Prop
  | .unlockClear next | .listLock _ next => Plain next
  | p => Plain p

/-- A point from which the thread goes on to plain points only. -/
def Proper : Pc τ ι → Prop
  | .lockFind next | .lockFlag _ next | .lockTest _ next | .unlockClear next => Plain next
  | .initLock _ _ next | .initFlag _ _ next => Plain next
  | .listLock _ next | .listEdit _ next | .listUnlock next => AfterSection next
  | .enter _ | .closing => True
  | p => Plain p

theorem Plain.afterSection {p : Pc τ ι} (h : Plain p) : AfterSection p := by
  cases p <;> first | exact h | exact h.elim

theorem Plain.proper {p : Pc τ ι} (h : Plain p) : Proper p := by
  cases p <;> first | exact h | exact h.elim

theorem AfterSection.proper {p : Pc τ ι} (h : AfterSection p) : Proper p := by
  cases p <;> first | exact h | exact h.elim | exact Plain.afterSection h

theorem plain_leave (p : Pc τ ι) : Plain p.leave := by
  cases p <;> trivial

theorem plain_killed (p : Pc τ ι) : Plain p.killed := by
  cases p <;> first | trivial | exact plain_leave _

theorem KillPoint.plain {p p' : Pc τ ι} (h : KillPoint p p') : Plain p' := by
  cases h with
  | user => trivial
  | flag => exact plain_killed _
  | test => exact plain_killed _
  | pendWoken => trivial
  | notifyWoken u next => exact plain_killed next
  | forceJoin => exact plain_leave _
  | restartJoin => trivial

section
variable [DecidableEq θ] [DecidableEq τ] {t : θ} {m m' : Mem θ τ ι} {p p' : Pc τ ι}

omit [DecidableEq θ] [DecidableEq τ] in
theorem proper_unlinkWaiting {u : τ} {next : Pc τ ι} (h : AfterSection next) :
    Proper (unlinkWaiting u next m) := by
  unfold unlinkWaiting
  split
  · exact h.proper
  · exact h

theorem Goes.proper (hg : Goes t m p p') (h : Proper p) : Proper p' := by
  cases hg with
  | enters he => cases he <;> trivial
  | remove u next =>
    unfold unlinkWaiting
    have hplain : Plain next := h
    split
    · exact hplain
    · exact hplain
  | pendUnlink => exact proper_unlinkWaiting trivial
  | restartSome => exact proper_unlinkWaiting trivial
  | killed hk => exact hk.plain.proper
  | foreign next => exact Plain.proper h
  | kept next => exact Plain.proper h
  | nobody u next => exact Plain.proper h
  | lockTest task next => exact Plain.afterSection h
  | initFlag u pri next => exact Plain.afterSection h
  | _ => trivial

omit [DecidableEq θ] [DecidableEq τ] in
theorem CreatePoint.proper {u : τ} {created failed : Pc τ ι} (h : CreatePoint p u created failed) :
    Proper created ∧ Proper failed := by
  cases h <;> exact ⟨trivial, trivial⟩

variable [DecidableEq ι] {ids : τ → ℤ}

theorem Runs.proper (hr : Runs ids t p m m' p') (h : Proper p) : Proper p' := by
  cases hr with
  | reads hg => exact hg.proper h
  | flagged => exact h
  | counted next =>
    split
    · exact h
    · exact Plain.proper h
  | cleared next => exact Plain.proper h
  | edited edit next => exact h
  | freed next => exact Plain.proper h
  | created hc => exact hc.proper.1
  | notCreated hc => exact hc.proper.2
  | cancels hc => cases hc <;> trivial
  | joins hj => cases hj <;> trivial
  | protects count hc => cases hc <;> trivial
  | cleaned hc => cases hc <;> trivial
  | _ => trivial

theorem next_proper (h : (code (ι := ι) ids t p).Next p') (hp : Proper p) : Proper p' := by
  cases p <;> simp only [code, Instr.Next] at h
  case pendWait self u =>
    obtain ⟨_, rfl⟩ := h
    trivial
  case notifyWait u next =>
    obtain ⟨_, rfl⟩ := h
    exact hp
  all_goals subst h
  case deleteTunlock tid self u deletable =>
    split
    · trivial
    · split <;> trivial
  case listUnlock next => exact AfterSection.proper hp
  case notifyDunlock u next => exact Plain.proper hp
  case notifyKilled u killed => exact Plain.proper hp
  all_goals trivial

end

/-! ### The lock -/

/-- The points of the outermost `taskUnlock` between the count and the end. -/
def clears : Pc τ ι → Bool
  | .listLock _ (.unlockClear _) | .listEdit _ (.unlockClear _) | .listUnlock (.unlockClear _) | .unlockClear _ => true
  | _ => false

theorem Plain.clears {p : Pc τ ι} (h : Plain p) : clears p = false := by
  cases p <;> first | rfl | exact h.elim

theorem Plain.clears_listLock {p : Pc τ ι} (h : Plain p) (edit : Edit τ ι) :
    Lifecycle.clears (.listLock edit p) = false := by
  cases p <;> first | rfl | exact h.elim

variable [DecidableEq θ]

/-- How deep thread `t` has locked the scheduler. -/
def Mem.depth (m : Mem θ τ ι) (t : θ) : ℕ := if m.locker = some t then m.taskLockLevel else 0

theorem Mem.depth_of_locker {m : Mem θ τ ι} {t : θ} (h : m.locker = some t) : m.depth t = m.taskLockLevel := if_pos h

theorem Mem.depth_of_ne {m : Mem θ τ ι} {t : θ} (h : m.locker ≠ some t) : m.depth t = 0 := if_neg h

theorem Mem.locker_of_depth {m : Mem θ τ ι} {t : θ} (h : 0 < m.depth t) : m.locker = some t := by
  unfold Mem.depth at h
  split at h
  · assumption
  · cases h

/-- A free scheduler has no levels, and who is ending the outermost `taskUnlock` still has
it. -/
structure LockState (m : Mem θ τ ι) (ctl : θ → Ctl (Pc τ ι)) : Prop where
  proper : ∀ t, Proper (ctl t).point
  free : m.locker = none → m.taskLockLevel = 0
  bound : m.taskLockLevel ≤ ulongMax
  clears : ∀ t, clears (ctl t).point = true → m.locker = some t ∧ m.taskLockLevel = 0

theorem countUp_max : Sched.countUp ulongMax ulongMax = ulongMax := by
  simp [Sched.countUp]

theorem countUp_le {level : ℕ} (h : level ≤ ulongMax) : Sched.countUp ulongMax level ≤ ulongMax := by
  obtain hlt | heq := Nat.lt_or_eq_of_le h
  · rw [Sched.countUp_of_lt hlt]
    exact hlt
  · rw [heq, countUp_max]

theorem countDown_le (level : ℕ) : Sched.countDown level ≤ level := by
  unfold Sched.countDown
  split <;> omega

variable [DecidableEq τ] [DecidableEq ι] {ids : τ → ℤ} {t w : θ} {m m' : Mem θ τ ι} {p p' : Pc τ ι}

/-- The section that is edited leaves the scheduler lock and the threads alone. -/
theorem Edit.run_keeps {edit : Edit τ ι} (h : edit.run ids t m = some m') :
    m'.locker = m.locker ∧ m'.taskLockLevel = m.taskLockLevel ∧ m'.pthread = m.pthread ∧ m'.restarts = m.restarts := by
  cases edit with
  | init u pri schedPolicy =>
    simp only [Edit.run, Mem.append] at h
    repeat' split at h
    all_goals cases h <;> exact ⟨rfl, rfl, rfl, rfl⟩
  | raise task =>
    cases task with
    | none =>
      cases h
      exact ⟨rfl, rfl, rfl, rfl⟩
    | some u =>
      cases h
      exact ⟨rfl, rfl, rfl, rfl⟩
  | restore =>
    obtain ⟨task, _, heq⟩ := Option.map_eq_some_iff.mp h
    cases task <;> cases heq <;> exact ⟨rfl, rfl, rfl, rfl⟩
  | link u newEntry =>
    cases h
    exact ⟨rfl, rfl, rfl, rfl⟩
  | unlink id entry =>
    cases h
    exact ⟨rfl, rfl, rfl, rfl⟩
  | remove u =>
    simp only [Edit.run, Mem.takeOff] at h
    repeat' split at h
    all_goals cases h <;> exact ⟨rfl, rfl, rfl, rfl⟩

/-- What a step may do to the scheduler lock. -/
theorem Runs.lock_cases (hr : Runs ids t p m m' p') :
    (m'.locker = m.locker ∧ m'.taskLockLevel = m.taskLockLevel ∧
      (∀ next, p = .unlockCount next → m.locker ≠ some t ∧ p' = next)) ∨
    (∃ task next, p = .lockFlag task next ∧ p' = .lockTest task next ∧ (m.locker = none ∨ m.locker = some t) ∧
      m'.locker = some t ∧ m'.taskLockLevel = Sched.countUp ulongMax m.taskLockLevel) ∨
    (∃ next, p = .unlockCount next ∧ m.locker = some t ∧ m'.locker = some t ∧
      m'.taskLockLevel = Sched.countDown m.taskLockLevel ∧
      p' = if Sched.countDown m.taskLockLevel < 1 then .listLock .restore (.unlockClear next) else next) ∨
    (∃ next, p = .unlockClear next ∧ p' = next ∧ m'.locker = none ∧ m'.taskLockLevel = m.taskLockLevel) ∨
    CleanPoint p p' ∧ m' = m.cleanup t := by
  cases hr with
  | reads hg =>
    refine .inl ⟨rfl, rfl, ?_⟩
    rintro next rfl
    cases hg with
    | foreign _ hne => exact ⟨hne, rfl⟩
    | killed hk => cases hk
  | flagged task next hl => exact .inr (.inl ⟨task, next, rfl, rfl, hl, rfl, rfl⟩)
  | counted next hl => exact .inr (.inr (.inl ⟨next, rfl, hl, hl, rfl, rfl⟩))
  | cleared next => exact .inr (.inr (.inr (.inl ⟨_, rfl, rfl, rfl, rfl⟩)))
  | edited edit next he =>
    obtain ⟨h1, h2, _⟩ := Edit.run_keeps he
    exact .inl ⟨h1, h2, nofun⟩
  | created hc => cases hc <;> exact .inl ⟨rfl, rfl, nofun⟩
  | notCreated hc => cases hc <;> exact .inl ⟨rfl, rfl, nofun⟩
  | cancels hc he =>
    obtain ⟨v, _, rfl⟩ := Option.map_eq_some_iff.mp he
    cases hc <;> exact .inl ⟨rfl, rfl, nofun⟩
  | joins hj he =>
    have hkeeps : m'.locker = m.locker ∧ m'.taskLockLevel = m.taskLockLevel := by
      unfold Mem.join at he
      repeat' split at he
      all_goals cases he <;> exact ⟨rfl, rfl⟩
    cases hj <;> exact .inl ⟨hkeeps.1, hkeeps.2, nofun⟩
  | detaches he =>
    obtain ⟨v, _, rfl⟩ := Option.map_eq_some_iff.mp he
    exact .inl ⟨rfl, rfl, nofun⟩
  | protects count hc => cases hc <;> exact .inl ⟨rfl, rfl, nofun⟩
  | cleaned hc => exact .inr (.inr (.inr (.inr ⟨hc, rfl⟩)))
  | _ => exact .inl ⟨rfl, rfl, nofun⟩

omit [DecidableEq θ] [DecidableEq ι] in
theorem Goes.clears [DecidableEq θ] (hg : Goes t m p p') (h : Proper p) : clears p' = false := by
  have hwaiting : ∀ {u : τ} {next : Pc τ ι}, Plain next → Lifecycle.clears (unlinkWaiting u next m) = false := by
    intro u next hplain
    unfold unlinkWaiting
    split
    · exact hplain.clears
    · exact hplain.clears_listLock _
  cases hg with
  | enters he => cases he <;> rfl
  | remove u next =>
    unfold unlinkWaiting
    split <;> rfl
  | pendUnlink => exact hwaiting trivial
  | restartSome => exact hwaiting trivial
  | killed hk => exact hk.plain.clears
  | foreign next => exact Plain.clears h
  | kept next => exact Plain.clears h
  | nobody u next => exact Plain.clears h
  | lockTest task next => exact Plain.clears_listLock h _
  | initFlag u pri next =>
    have hplain : Plain next := h
    cases next <;> first | rfl | exact hplain.elim
  | _ => rfl

/-- The end of `taskUnlock` is reached through its count only. -/
theorem Runs.clears (hr : Runs ids t p m m' p') (h : Proper p) (hc : clears p' = true) :
    clears p = true ∨ ∃ next, p = .unlockCount next := by
  cases hr with
  | reads hg =>
    rw [hg.clears h] at hc
    cases hc
  | counted next => exact .inr ⟨next, rfl⟩
  | cleared next => exact .inl rfl
  | edited edit next =>
    refine .inl ?_
    cases next <;> first | rfl | cases hc
  | freed next =>
    have hplain : Plain p' := h
    rw [hplain.clears] at hc
    cases hc
  | created hp => cases hp <;> cases hc
  | notCreated hp => cases hp <;> cases hc
  | cancels hp => cases hp <;> cases hc
  | joins hp => cases hp <;> cases hc
  | protects count hp => cases hp <;> cases hc
  | cleaned hp => cases hp <;> cases hc
  | _ => cases hc

theorem next_clears (h : (code (ι := ι) ids t p).Next p') (hp : Proper p) (hc : clears p' = true) : clears p = true := by
  cases p <;> simp only [code, Instr.Next] at h
  case pendWait self u =>
    obtain ⟨_, rfl⟩ := h
    cases hc
  case notifyWait u next =>
    obtain ⟨_, rfl⟩ := h
    cases hc
  all_goals subst h
  case listLock edit next => cases next <;> first | rfl | cases hc
  case listUnlock =>
    cases p'
    case unlockClear => rfl
    case listLock edit next =>
      rw [Plain.clears_listLock hp] at hc
      cases hc
    all_goals first | cases hc | exact hp.elim
  case deleteTunlock tid self u deletable => revert hc; split <;> [rintro ⟨⟩; (split <;> rintro ⟨⟩)]
  case notifyDunlock =>
    have hplain : Plain p' := hp
    rw [hplain.clears] at hc
    cases hc
  case notifyKilled =>
    have hplain : Plain p' := hp
    rw [hplain.clears] at hc
    cases hc
  all_goals cases hc

variable {s s' : LifeState θ τ ι}

theorem lockState_step (h : LockState s.mem s.ctl) (hs : Step (code ids) t s s') : LockState s'.mem s'.ctl := by
  have hpt := h.proper t
  obtain ⟨hm, _, hpoint⟩ | ⟨p, p', hp, hp', hr, _⟩ := step_cases hs
  · rw [hm]
    refine ⟨fun v => ?_, h.free, h.bound, fun v hv => ?_⟩
    · by_cases hvt : v = t
      · rw [hvt]
        obtain heq | hnext := hpoint
        · rw [heq]
          exact hpt
        · exact next_proper hnext hpt
      · rw [hs.ctl_other hvt]
        exact h.proper v
    · by_cases hvt : v = t
      · rw [hvt] at hv ⊢
        refine h.clears t ?_
        obtain heq | hnext := hpoint
        · rwa [heq] at hv
        · exact next_clears hnext hpt hv
      · rw [hs.ctl_other hvt] at hv
        exact h.clears v hv
  · rw [hp, Ctl.point_awake] at hpt
    have hproper : ∀ v, Proper (s'.ctl v).point := by
      intro v
      by_cases hvt : v = t
      · rw [hvt, hp', Ctl.point_awake]
        exact hr.proper hpt
      · rw [hs.ctl_other hvt]
        exact h.proper v
    -- who ends a `taskUnlock` is the locker, so it is no other thread than one that changes the lock
    have hclears : ∀ v, clears (s'.ctl v).point = true → v = t ∧ clears p' = true ∨
        v ≠ t ∧ s.mem.locker = some v ∧ s.mem.taskLockLevel = 0 := by
      intro v hv
      by_cases hvt : v = t
      · rw [hvt, hp', Ctl.point_awake] at hv
        exact .inl ⟨hvt, hv⟩
      · rw [hs.ctl_other hvt] at hv
        exact .inr ⟨hvt, h.clears v hv⟩
    have hself : clears p = true → s.mem.locker = some t ∧ s.mem.taskLockLevel = 0 := by
      intro hc
      refine h.clears t ?_
      rwa [hp, Ctl.point_awake]
    obtain ⟨hlocker, hlevel, hcount⟩ | ⟨task, next, rfl, rfl, hfree, hlocker, hlevel⟩ |
      ⟨next, rfl, hmine, hlocker, hlevel, rfl⟩ | ⟨next, rfl, rfl, hlocker, hlevel⟩ | ⟨hclean, hmem⟩ := hr.lock_cases
    · refine ⟨hproper, by rw [hlocker, hlevel]; exact h.free, by rw [hlevel]; exact h.bound, fun v hv => ?_⟩
      rw [hlocker, hlevel]
      obtain ⟨rfl, hv⟩ | ⟨_, hv⟩ := hclears v hv
      · obtain hc | ⟨next, rfl⟩ := hr.clears hpt hv
        · exact hself hc
        · -- the count of a thread without the lock leads to a plain point
          have hplain : Plain p' := (hcount next rfl).2 ▸ hpt
          rw [hplain.clears] at hv
          cases hv
      · exact hv
    · refine ⟨hproper, (by rw [hlocker]; exact nofun), by rw [hlevel]; exact countUp_le h.bound, fun v hv => ?_⟩
      obtain ⟨_, hv⟩ | ⟨hvt, hv, _⟩ := hclears v hv
      · cases hv
      · obtain hnone | hsome := hfree
        · rw [hv] at hnone
          cases hnone
        · rw [hv] at hsome
          exact absurd (Option.some.inj hsome) hvt
    · refine ⟨hproper, (by rw [hlocker]; exact nofun), ?_, fun v hv => ?_⟩
      · rw [hlevel]
        exact Nat.le_trans (countDown_le _) h.bound
      · obtain ⟨rfl, hv⟩ | ⟨hvt, hv, _⟩ := hclears v hv
        · refine ⟨hlocker, ?_⟩
          split at hv
          · omega
          · have hplain : Plain next := hpt
            rw [hplain.clears] at hv
            cases hv
        · rw [hmine] at hv
          exact absurd (Option.some.inj hv).symm hvt
    · obtain ⟨hmine, hzero⟩ := hself rfl
      refine ⟨hproper, fun _ => by rw [hlevel, hzero], by rw [hlevel]; exact h.bound, fun v hv => ?_⟩
      obtain ⟨_, hv⟩ | ⟨hvt, hv, _⟩ := hclears v hv
      · have hplain : Plain p' := hpt
        rw [hplain.clears] at hv
        cases hv
      · rw [hmine] at hv
        exact absurd (Option.some.inj hv).symm hvt
    · have hpoint : clears p' = false := by cases hclean <;> rfl
      rw [hmem]
      unfold Mem.cleanup
      split
      · rename_i hmine
        refine ⟨hproper, fun _ => rfl, Nat.zero_le _, fun v hv => ?_⟩
        obtain ⟨_, hv⟩ | ⟨hvt, hv, _⟩ := hclears v hv
        · rw [hpoint] at hv
          cases hv
        · rw [hmine] at hv
          exact absurd (Option.some.inj hv).symm hvt
      · refine ⟨hproper, h.free, h.bound, fun v hv => ?_⟩
        obtain ⟨_, hv⟩ | ⟨_, hv⟩ := hclears v hv
        · rw [hpoint] at hv
          cases hv
        · exact hv

end

end V2lin.Lifecycle
