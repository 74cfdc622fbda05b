import V2lin.Lifecycle.Locked

/-! Which points follow which.

`Shape` says of every point what may follow it, exactly: a `taskLock` is followed by the
search that it protects, a section under `task_list_lock` by the rest of its own function,
`task_delete` by the way back to the caller. So a property of the points that is carried
over a section needs to be looked at for these few only. The first such property is
`holds`: the points at which a thread has the scheduler lock. -/
namespace V2lin.Lifecycle
open Threads V2lin.Task V2lin.TaskLib

section
variable {θ τ ι : Type}

/-! ### What may follow -/

/-- The way back to the caller, or to the end of the thread. -/
def Back : Pc τ ι → Prop
  | .idle | .exit => True
  | .unlockCount next => Back next
  | _ => False

/-- What follows a `taskUnlock`. -/
def Released : Pc τ ι → Prop
  | .pendTest _ _ | .unsafeCheck _ _ => True
  | p => Back p

/-- What follows a `taskLock`. -/
def Acquired : Pc τ ι → Prop
  | .idle | .activateFind _ | .deleteFind _ _ | .pendUnlink _ _ | .restartFind _ => True
  | .prioFind _ _ | .getFind _ | .idList | .sliceSet _ | .safeFind | .unsafeFind => True
  | .forceFind _ _ next => Back next
  | _ => False

/-- What follows a `notify_task_delete`. -/
def Notified : Pc τ ι → Prop
  | .idle => True
  | .forceSplit _ _ next => Back next
  | _ => False

/-- What follows a `taskInit`. -/
def Made : Pc τ ι → Prop
  | .idle | .spawnName _ _ | .spawnFree _ _ => True
  | _ => False

/-- What follows a section under `task_list_lock`. -/
def Sectioned : Edit τ ι → Pc τ ι → Prop
  | .init _ _ _, p => Made p
  | .raise _, p => Acquired p
  | .restore, .unlockClear next => Released next
  | .link _ _, .pendTlock _ _ => True
  | .unlink _ _, .pendCheck _ | .unlink _ _, .restartSplit _ _ => True
  | .unlink _ _, .listLock (.remove _) (.free _ next) => Back next
  | .remove _, .free _ next => Back next
  | _, _ => False

def Shape : Pc τ ι → Prop
  | .initLock _ _ next | .initFlag _ _ next => Made next
  | .lockFind next | .lockFlag _ next | .lockTest _ next => Acquired next
  | .listLock edit next | .listEdit edit next => Sectioned edit next
  | .listUnlock next => ∃ edit, Sectioned edit next
  | .unlockCount next | .unlockClear next => Released next
  | .remove _ next | .free _ next | .forceEnter _ next | .forceFind _ _ next => Back next
  | .forceSplit _ _ next | .forceCancel _ next | .forceJoin _ next => Back next
  | .notifyTest _ next | .notifyDlock _ next | .notifyTlock _ next | .notifyBroadcast _ next => Notified next
  | .notifyTunlock _ next | .notifyDrain _ next | .notifyWait _ next | .notifyWoken _ next => Notified next
  | .notifyDunlock _ next => Notified next
  | .notifyKilled _ killed => killed = .dying ∨ killed = .exit
  | _ => True

theorem Back.released {p : Pc τ ι} (h : Back p) : Released p := by
  cases p <;> first | exact h | exact h.elim

theorem Released.shape {p : Pc τ ι} (h : Released p) : Shape p := by
  cases p
  case unlockCount next =>
    have hback : Back next := h
    exact hback.released
  all_goals trivial

theorem Back.shape {p : Pc τ ι} (h : Back p) : Shape p := h.released.shape

theorem Acquired.shape {p : Pc τ ι} (h : Acquired p) : Shape p := by
  cases p <;> first | exact h | trivial

theorem Notified.shape {p : Pc τ ι} (h : Notified p) : Shape p := by
  cases p <;> first | exact h | trivial

theorem Sectioned.shape {edit : Edit τ ι} {p : Pc τ ι} (h : Sectioned edit p) : Shape p := by
  cases edit
  case raise => exact Acquired.shape h
  case unlink id entry =>
    cases p
    case listLock edit next =>
      cases edit
      case remove u => cases next <;> exact h
      all_goals exact h.elim
    all_goals trivial
  all_goals cases p <;> first | exact h | trivial

theorem leave_cases (p : Pc τ ι) : p.leave = .dying ∨ p.leave = .exit := by
  cases p <;> first | exact .inl rfl | exact .inr rfl

theorem killed_cases (p : Pc τ ι) : p.killed = .dying ∨ p.killed = .exit ∨ ∃ u, p.killed = .pendKilled u := by
  cases p
  case pendUnlink self u => exact .inr (.inr ⟨u, rfl⟩)
  case forceFind tid self next => exact (leave_cases next).imp id .inl
  case forceSplit self u next => exact (leave_cases next).imp id .inl
  all_goals exact .inl rfl

theorem Notified.killed {p : Pc τ ι} (h : Notified p) : p.killed = .dying ∨ p.killed = .exit := by
  cases p
  case idle => exact .inl rfl
  case forceSplit self u next => exact leave_cases next
  all_goals exact h.elim

/-- A killed thread is on its way out. -/
theorem KillPoint.cases {p p' : Pc τ ι} (h : KillPoint p p') (hp : Shape p) :
    p' = .dying ∨ p' = .exit ∨ (∃ u, p' = .pendKilled u) ∨ ∃ u killed, p' = .notifyKilled u killed ∧ Shape p' := by
  cases h with
  | user => exact .inl rfl
  | flag task next => exact (killed_cases next).imp id (Or.imp id .inl)
  | test task next => exact (killed_cases next).imp id (Or.imp id .inl)
  | pendWoken self u => exact .inr (.inr (.inl ⟨u, rfl⟩))
  | notifyWoken u next => exact .inr (.inr (.inr ⟨u, next.killed, rfl, Notified.killed hp⟩))
  | forceJoin u next => exact (leave_cases next).imp id .inl
  | restartJoin => exact .inl rfl

section
variable [DecidableEq θ] [DecidableEq τ] {t : θ} {m m' : Mem θ τ ι} {p p' : Pc τ ι}

theorem Goes.shape (hg : Goes t m p p') (h : Shape p) : Shape p' := by
  cases hg with
  | enters he =>
    cases he with
    | null => exact ⟨.raise none, trivial⟩
    | _ => trivial
  | remove u next =>
    unfold unlinkWaiting
    split
    · exact h
    · exact h
  | pendUnlink =>
    unfold unlinkWaiting
    split <;> trivial
  | restartSome =>
    unfold unlinkWaiting
    split <;> trivial
  | killed hk =>
    obtain rfl | rfl | ⟨u, rfl⟩ | ⟨u, killed, _, hshape⟩ := hk.cases h
    · trivial
    · trivial
    · trivial
    · exact hshape
  | foreign next => exact Released.shape h
  | kept next => exact Back.shape h
  | nobody u next => exact Notified.shape h
  | drained u next => exact h
  | forceNone tid self next => exact Back.released h
  | forceEnter tid next => exact h
  | forceSelf u next => exact h
  | _ => exact h

variable [DecidableEq ι] {ids : τ → ℤ}

theorem Runs.shape (hr : Runs ids t p m m' p') (h : Shape p) : Shape p' := by
  cases hr with
  | reads hg => exact hg.shape h
  | flagged => exact h
  | counted next =>
    split
    · exact h
    · exact Released.shape h
  | cleared next => exact Released.shape h
  | edited edit next => exact ⟨edit, h⟩
  | freed next => exact Back.shape h
  | created hc => cases hc <;> trivial
  | notCreated hc => cases hc <;> trivial
  | cancels hc => cases hc <;> exact h
  | joins hj => cases hj <;> exact h
  | protects count hc => cases hc <;> trivial
  | cleaned hc => cases hc <;> trivial
  | _ => trivial

theorem next_shape (h : (code (ι := ι) ids t p).Next p') (hp : Shape p) : Shape p' := by
  cases p <;> simp only [code, Instr.Next] at h
  case pendWait self u =>
    obtain ⟨_, rfl⟩ := h
    trivial
  case notifyWait u next =>
    obtain ⟨_, rfl⟩ := h
    exact hp
  all_goals subst h
  case deleteTunlock tid self u deletable =>
    split
    · trivial
    · split <;> trivial
  case listUnlock next =>
    obtain ⟨edit, hnext⟩ := hp
    exact hnext.shape
  case notifyDunlock u next => exact Notified.shape hp
  case notifyKilled u killed =>
    obtain rfl | rfl := hp
    · trivial
    · trivial
  all_goals exact hp

end

/-! ### Who has the scheduler lock -/

/-- Points at which the thread has the scheduler lock: from the flag of `taskLock` to the
last use of what is found under it. -/
def holds : Pc τ ι → Bool
  | .lockTest _ _ | .listLock (.raise _) _ | .listEdit (.raise _) _ => true
  | .listLock (.unlink _ _) next | .listEdit (.unlink _ _) next | .listUnlock next => holds next
  | .notifyTest _ next | .notifyDlock _ next | .notifyTlock _ next | .notifyBroadcast _ next => holds next
  | .notifyTunlock _ next | .notifyDrain _ next | .notifyWait _ next | .notifyWoken _ next => holds next
  | .notifyDunlock _ next => holds next
  | .activateFind _ | .activateCreate _ => true
  | .deleteFind _ _ | .deleteTlock _ _ _ | .deleteTest _ _ _ | .deleteTunlock _ _ _ _ => true
  | .pendLink _ _ | .listLock (.link _ _) _ | .listEdit (.link _ _) _ | .pendTlock _ _ => true
  | .safeFind | .safeTlock _ | .safeCount _ | .safeTunlock _ => true
  | .unsafeFind | .unsafeTlock _ | .unsafeCount _ | .unsafeTunlock _ _ => true
  | .forceFind _ _ _ | .forceSplit _ _ _ | .forceCancel _ _ | .forceJoin _ _ => true
  | .restartFind _ | .restartSplit _ _ | .restartCancel _ | .restartJoin _ | .restartCreate _ => true
  | .restartDetach _ | .restartTimer _ => true
  | .prioFind _ _ | .prioSplit _ _ | .prioAttr _ | .prioApply _ => true
  | .sliceSet _ | .sliceTask _ _ | .sliceApply _ _ => true
  | _ => false

theorem Back.holds {p : Pc τ ι} (h : Back p) : holds p = false := by
  cases p <;> first | rfl | exact h.elim

theorem Released.holds {p : Pc τ ι} (h : Released p) : holds p = false := by
  cases p <;> first | rfl | exact h.elim

section
variable [DecidableEq θ] [DecidableEq τ] {t w : θ} {m m' : Mem θ τ ι} {p p' : Pc τ ι}

theorem Goes.holds (hg : Goes t m p p') (h : Shape p) (hp' : holds p' = true) : Lifecycle.holds p = true := by
  cases hg with
  | enters he => cases he <;> cases hp'
  | remove u next =>
    unfold unlinkWaiting at hp'
    split at hp' <;> cases hp'
  | pendUnlink =>
    unfold unlinkWaiting at hp'
    split at hp' <;> cases hp'
  | killed hk =>
    obtain rfl | rfl | ⟨u, rfl⟩ | ⟨u, killed, rfl, _⟩ := hk.cases h <;> cases hp'
  | foreign next =>
    have hnext : Released p' := h
    rw [hnext.holds] at hp'
    cases hp'
  | kept next =>
    have hnext : Back p' := h
    rw [hnext.holds] at hp'
    cases hp'
  | nobody u next => exact hp'
  | notifies u next => exact hp'
  | undrained u next => exact hp'
  | drained u next => exact hp'
  | notifyWoken u next => exact hp'
  | _ => first | rfl | cases hp'

variable [DecidableEq ι] {ids : τ → ℤ}

/-- A thread comes to hold the scheduler lock by the flag of `taskLock` only. -/
theorem Runs.holds (hr : Runs ids t p m m' p') (h : Shape p) (hp' : holds p' = true) :
    (∃ task next, p = .lockFlag task next ∧ m'.locker = some t) ∨ Lifecycle.holds p = true ∧ m'.locker = m.locker := by
  cases hr with
  | reads hg => exact .inr ⟨hg.holds h hp', rfl⟩
  | flagged task next => exact .inl ⟨task, next, rfl, rfl⟩
  | counted next =>
    have hnext : Released next := h
    split at hp'
    · cases hp'
    · rw [hnext.holds] at hp'
      cases hp'
  | cleared next =>
    have hnext : Released p' := h
    rw [hnext.holds] at hp'
    cases hp'
  | edited edit next he =>
    refine .inr ⟨?_, (Edit.run_keeps he).1⟩
    cases edit
    case raise => rfl
    case link => rfl
    case unlink => exact hp'
    all_goals cases next <;> first | exact h.elim | cases hp'
  | freed next =>
    have hnext : Back p' := h
    rw [hnext.holds] at hp'
    cases hp'
  | created hc => cases hc <;> cases hp'
  | notCreated hc => cases hc <;> cases hp'
  | cancels hc he =>
    obtain ⟨v, _, rfl⟩ := Option.map_eq_some_iff.mp he
    cases hc <;> exact .inr ⟨rfl, rfl⟩
  | joins hj he =>
    have hlocker : m'.locker = m.locker := by
      unfold Mem.join at he
      repeat' split at he
      all_goals cases he <;> rfl
    cases hj <;> exact .inr ⟨rfl, hlocker⟩
  | detaches he =>
    obtain ⟨v, _, rfl⟩ := Option.map_eq_some_iff.mp he
    exact .inr ⟨rfl, rfl⟩
  | protects count hc => cases hc <;> exact .inr ⟨rfl, rfl⟩
  | cleaned hc => cases hc <;> cases hp'
  | _ => first | exact .inr ⟨rfl, rfl⟩ | cases hp'

theorem next_holds (h : (code (ι := ι) ids t p).Next p') (hp : Shape p) (hp' : holds p' = true) : holds p = true := by
  cases p <;> simp only [code, Instr.Next] at h
  case pendWait self u =>
    obtain ⟨_, rfl⟩ := h
    cases hp'
  case notifyWait u next =>
    obtain ⟨_, rfl⟩ := h
    exact hp'
  all_goals subst h
  case listLock edit next => cases edit <;> exact hp'
  case notifyKilled u killed => obtain rfl | rfl := hp <;> cases hp'
  all_goals first | rfl | exact hp'

variable {s s' : LifeState θ τ ι}

/-- The scheduler lock, the points of all threads, and whose the lock is. -/
structure Held (s : LifeState θ τ ι) : Prop where
  lock : LockState s.mem s.ctl
  shape : ∀ t, Shape (s.ctl t).point
  holder : ∀ t, Lifecycle.holds (s.ctl t).point = true → s.mem.locker = some t

omit [DecidableEq θ] [DecidableEq τ] [DecidableEq ι] in
theorem Held.unique (h : Held s) (ht : Lifecycle.holds (s.ctl t).point = true)
    (hw : Lifecycle.holds (s.ctl w).point = true) : t = w :=
  Option.some.inj ((h.holder t ht).symm.trans (h.holder w hw))

/-- A step of another thread does not take the scheduler lock away. -/
theorem Runs.locker_other (hr : Runs ids t p m m' p') (hne : w ≠ t) (hclears : Lifecycle.clears p = true → m.locker = some t)
    (hw : m.locker = some w) : m'.locker = some w := by
  have hother : m.locker ≠ some t := by
    rw [hw]
    exact fun he => hne (Option.some.inj he)
  obtain ⟨hlocker, _, _⟩ | ⟨_, _, _, _, hfree, _⟩ | ⟨_, _, hmine, _⟩ | ⟨next, rfl, _⟩ | ⟨_, rfl⟩ := hr.lock_cases
  · rw [hlocker, hw]
  · obtain hnone | hsome := hfree
    · rw [hw] at hnone
      cases hnone
    · exact absurd hsome hother
  · exact absurd hmine hother
  · exact absurd (hclears rfl) hother
  · rw [Mem.cleanup, if_neg hother, hw]

theorem held_step (h : Held s) (hs : Step (code ids) t s s') : Held s' := by
  have hpt := h.shape t
  refine ⟨lockState_step h.lock hs, fun w => ?_, fun w hw => ?_⟩
  · by_cases hwt : w = t
    · subst hwt
      obtain ⟨_, _, heq | hnext⟩ | ⟨p, p', hp, hp', hr, _⟩ := step_cases hs
      · rwa [heq]
      · exact next_shape hnext hpt
      · rw [hp']
        rw [hp] at hpt
        exact hr.shape hpt
    · rw [hs.ctl_other hwt]
      exact h.shape w
  · by_cases hwt : w = t
    · subst hwt
      obtain ⟨hm, _, heq | hnext⟩ | ⟨p, p', hp, hp', hr, _⟩ := step_cases hs
      · rw [hm]
        exact h.holder w (heq ▸ hw)
      · rw [hm]
        exact h.holder w (next_holds hnext hpt hw)
      · rw [hp] at hpt
        rw [hp'] at hw
        obtain ⟨_, _, _, hlocker⟩ | ⟨hbefore, hlocker⟩ := hr.holds hpt hw
        · exact hlocker
        · rw [hlocker]
          refine h.holder w ?_
          rwa [hp]
    · rw [hs.ctl_other hwt] at hw
      have hlocker := h.holder w hw
      obtain ⟨hm, _⟩ | ⟨p, p', hp, _, hr, _⟩ := step_cases hs
      · rwa [hm]
      · refine hr.locker_other hwt (fun hc => (h.lock.clears t ?_).1) hlocker
        rwa [hp]

end

end

end V2lin.Lifecycle
