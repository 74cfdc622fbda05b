import V2lin.Lifecycle.Locked

/-! A call gives back what it locks.

Every point has a number of scheduler levels that the call has taken and will give back, and
either holds `task_list_lock` or does not. Along a call these agree with what the thread has
really done, but for two places: `taskRestart` that finds no task leaves past its
`taskUnlock`, and `taskInit` without a control block unlocks `task_list_lock`, which it has
not locked. At `ULONG_MAX` a level more is not counted, and so the level that a call gives
back is one that its caller had taken. -/
namespace V2lin.Lifecycle
open Threads V2lin.Task V2lin.TaskLib

section
variable {θ τ ι : Type}

/-! ### What a point stands for -/

/-- The levels of the scheduler lock that a call has taken itself. -/
def levels : Pc τ ι → ℕ
  | .initLock _ _ next | .initFlag _ _ next => levels next
  | .lockFind next | .lockFlag _ next => levels next - 1
  | .lockTest _ next | .listLock _ next | .listEdit _ next | .listUnlock next => levels next
  | .unlockCount next => levels next + 1
  | .unlockClear next | .remove _ next | .free _ next => levels next
  | .forceEnter _ next => levels next
  | .forceFind _ _ next | .forceSplit _ _ next | .forceCancel _ next | .forceJoin _ next => levels next + 1
  | .notifyTest _ next | .notifyDlock _ next | .notifyTlock _ next | .notifyBroadcast _ next => levels next
  | .notifyTunlock _ next | .notifyDrain _ next | .notifyWait _ next | .notifyWoken _ next => levels next
  | .notifyDunlock _ next | .notifyKilled _ next => levels next
  | .activateFind _ | .activateCreate _ => 1
  | .deleteFind _ _ | .deleteTlock _ _ _ | .deleteTest _ _ _ | .deleteTunlock _ _ _ _ => 1
  | .pendLink _ _ | .pendTlock _ _ | .pendUnlink _ _ | .pendCheck _ | .pendDbcst _ | .pendNotify _ => 1
  | .pendDunlock _ | .pendTunlock _ => 1
  | .restartFind _ | .restartSplit _ _ | .restartCancel _ | .restartJoin _ | .restartCreate _ => 1
  | .restartDetach _ | .restartTimer _ => 1
  | .prioFind _ _ | .prioSplit _ _ | .prioAttr _ | .prioApply _ | .getFind _ | .idList => 1
  | .sliceSet _ | .sliceTask _ _ | .sliceApply _ _ => 1
  | .safeFind | .safeTlock _ | .safeCount _ | .safeTunlock _ => 1
  | .unsafeFind | .unsafeTlock _ | .unsafeCount _ | .unsafeTunlock _ _ => 1
  | _ => 0

/-- The points that hold `task_list_lock`. -/
def listHeld : Pc τ ι → Bool
  | .initFlag _ _ _ | .listEdit _ _ | .listUnlock _ => true
  | _ => false

/-- The points that lock `task_list_lock`, with those at which it is locked. -/
def locksList : Pc τ ι → Option (Pc τ ι)
  | .initLock u pri next => some (.initFlag u pri next)
  | .listLock edit next => some (.listEdit edit next)
  | _ => none

/-- A bound on the levels that the call is still going to take. -/
def flagsLeft : Pc τ ι → ℕ
  | .enter _ => 2
  | .initLock _ _ next | .initFlag _ _ next => flagsLeft next
  | .lockFind next | .lockFlag _ next | .forceEnter _ next => flagsLeft next + 1
  | .lockTest _ next | .listLock _ next | .listEdit _ next | .listUnlock next => flagsLeft next
  | .unlockCount next | .unlockClear next | .remove _ next | .free _ next => flagsLeft next
  | .forceFind _ _ next | .forceSplit _ _ next | .forceCancel _ next | .forceJoin _ next => flagsLeft next
  | .notifyTest _ next | .notifyDlock _ next | .notifyTlock _ next | .notifyBroadcast _ next => flagsLeft next
  | .notifyTunlock _ next | .notifyDrain _ next | .notifyWait _ next | .notifyWoken _ next => flagsLeft next
  | .notifyDunlock _ next | .notifyKilled _ next => flagsLeft next
  | .spawnTid _ _ _ | .spawnFree _ _ | .spawnName _ _ => 1
  | .deleteFind _ _ | .deleteTlock _ _ _ | .deleteTest _ _ _ | .deleteTunlock _ _ _ _ => 1
  | .pendLink _ _ | .pendTlock _ _ | .pendTest _ _ | .pendWait _ _ | .pendWoken _ _ => 1
  | .closing | .closeForce => 1
  | _ => 0

/-- A `taskLock` is followed by a point that has its level. -/
def Counted : Pc τ ι → Prop
  | .lockFind next | .lockFlag _ next => 1 ≤ levels next
  | _ => True

@[simp] theorem levels_idle : levels (.idle : Pc τ ι) = 0 := rfl

@[simp] theorem levels_lockFlag (task : Option τ) (next : Pc τ ι) : levels (.lockFlag task next) = levels next - 1 := rfl

@[simp] theorem levels_lockTest (task : Option τ) (next : Pc τ ι) : levels (.lockTest task next) = levels next := rfl

@[simp] theorem levels_unlockCount (next : Pc τ ι) : levels (.unlockCount next) = levels next + 1 := rfl

@[simp] theorem levels_restartFind (tid : ℤ) : levels (.restartFind tid : Pc τ ι) = 1 := rfl

@[simp] theorem flagsLeft_lockFlag (task : Option τ) (next : Pc τ ι) :
    flagsLeft (.lockFlag task next) = flagsLeft next + 1 := rfl

@[simp] theorem flagsLeft_lockTest (task : Option τ) (next : Pc τ ι) :
    flagsLeft (.lockTest task next) = flagsLeft next := rfl

/-- The thread is going to exit. -/
def doomed : Pc τ ι → Bool
  | .pendKilled _ | .dying | .exit | .gone => true
  | .notifyKilled _ killed => doomed killed
  | _ => false

theorem Plain.listHeld {p : Pc τ ι} (h : Plain p) : listHeld p = false := by
  cases p <;> first | rfl | exact h.elim

theorem Plain.counted {p : Pc τ ι} (h : Plain p) : Counted p := by
  cases p <;> trivial

theorem Plain.not_closing {p : Pc τ ι} (h : Plain p) : p ≠ .closing := by
  rintro rfl
  exact h

theorem AfterSection.keeps {p : Pc τ ι} (h : AfterSection p) :
    Lifecycle.listHeld p = false ∧ Counted p ∧ p ≠ .closing := by
  cases p
  case closing => exact h.elim
  all_goals first | exact ⟨rfl, trivial, nofun⟩ | exact h.elim

theorem doomed_leave (p : Pc τ ι) : doomed p.leave = true := by
  cases p <;> rfl

theorem doomed_killed (p : Pc τ ι) : doomed p.killed = true := by
  cases p <;> first | rfl | exact doomed_leave _

theorem KillPoint.doomed {p p' : Pc τ ι} (h : KillPoint p p') : doomed p' = true := by
  cases h with
  | flag => exact doomed_killed _
  | test => exact doomed_killed _
  | notifyWoken u next => exact doomed_killed next
  | forceJoin => exact doomed_leave _
  | _ => rfl

/-- From one point of a section under `task_list_lock` to the next. -/
structure Inside (p p' : Pc τ ι) : Prop where
  levels : levels p' = levels p
  flagsLeft : flagsLeft p' = flagsLeft p
  listHeld : listHeld p' = true
  counted : Counted p'

/-- From one point of a call to the next: the levels stay, no more are to come than before. -/
structure Passes (p p' : Pc τ ι) : Prop where
  levels : levels p' = levels p
  flagsLeft : flagsLeft p' ≤ flagsLeft p
  listHeld : listHeld p' = false
  counted : Counted p'
  inside : p' ≠ .closing

theorem Passes.of_plain {p p' : Pc τ ι} (hlevels : Lifecycle.levels p' = Lifecycle.levels p)
    (hflags : Lifecycle.flagsLeft p' ≤ Lifecycle.flagsLeft p) (h : Plain p') : Passes p p' :=
  ⟨hlevels, hflags, h.listHeld, h.counted, h.not_closing⟩

section
variable [DecidableEq θ] [DecidableEq τ] {w : θ} {m m' : Mem θ τ ι} {p p' : Pc τ ι}

omit [DecidableEq θ] [DecidableEq τ] in
theorem passes_unlinkWaiting {u : τ} {next : Pc τ ι} (hlevels : levels next = levels p)
    (hflags : flagsLeft next ≤ flagsLeft p) (h : AfterSection next) : Passes p (unlinkWaiting u next m) := by
  unfold unlinkWaiting
  split
  · exact ⟨hlevels, hflags, h.keeps.1, h.keeps.2.1, h.keeps.2.2⟩
  · exact ⟨hlevels, hflags, rfl, trivial, nofun⟩

/-- The ways through a call that only read, with the exceptions. -/
theorem Goes.passes (hg : Goes w m p p') (hp : Proper p) (hcounted : Counted p) (hidle : p ≠ .idle)
    (hdoomed : doomed p = false) (hheld : listHeld p = false) :
    doomed p' = true ∨ (∃ tid, p = .restartFind tid ∧ m.taskFor w tid = some none ∧ p' = .idle) ∨
      (∃ u next, p = .forceSplit (some u) u next) ∨ (∃ next, p = .unlockCount next ∧ m.locker ≠ some w) ∨
      (∃ pri, p = .enter (.taskInit none pri 0)) ∨ Passes p p' := by
  have hpasses : Passes p p' → doomed p' = true ∨
      (∃ tid, p = .restartFind tid ∧ m.taskFor w tid = some none ∧ p' = .idle) ∨
      (∃ u next, p = .forceSplit (some u) u next) ∨ (∃ next, p = .unlockCount next ∧ m.locker ≠ some w) ∨
      (∃ pri, p = .enter (.taskInit none pri 0)) ∨ Passes p p' :=
    fun h => .inr (.inr (.inr (.inr (.inr h))))
  cases hg with
  | killed hk => exact .inl hk.doomed
  | restartNone hf => exact .inr (.inl ⟨_, rfl, hf, rfl⟩)
  | forceSelf u next => exact .inr (.inr (.inl ⟨u, next, rfl⟩))
  | foreign next hne => exact .inr (.inr (.inr (.inl ⟨_, rfl, hne⟩)))
  | enters he =>
    cases he with
    | null pri => exact .inr (.inr (.inr (.inr (.inl ⟨pri, rfl⟩))))
    | deleteForce tid => exact hpasses ⟨rfl, Nat.le_succ 1, rfl, trivial, nofun⟩
    | refused => exact hpasses ⟨rfl, Nat.zero_le _, rfl, trivial, nofun⟩
    | init => exact hpasses ⟨rfl, Nat.zero_le _, rfl, trivial, nofun⟩
    | delete => exact hpasses ⟨rfl, Nat.le_refl _, rfl, Nat.le_refl _, nofun⟩
    | _ => exact hpasses ⟨rfl, Nat.le_succ 1, rfl, Nat.le_refl _, nofun⟩
  | lockTest task next => exact hpasses ⟨rfl, Nat.le_refl _, rfl, trivial, nofun⟩
  | remove u next => exact hpasses (passes_unlinkWaiting rfl (Nat.le_refl _) hp)
  | restartSome => exact hpasses (passes_unlinkWaiting rfl (Nat.le_refl _) trivial)
  | pendUnlink => exact hpasses (passes_unlinkWaiting rfl (Nat.le_refl _) trivial)
  | kept next => exact hpasses (.of_plain rfl (Nat.le_refl _) hp)
  | nobody u next => exact hpasses (.of_plain rfl (Nat.le_refl _) hp)
  | forceEnter tid next =>
    refine hpasses ⟨?_, Nat.le_refl _, rfl, Nat.succ_le_succ (Nat.zero_le _), nofun⟩
    exact Nat.add_sub_cancel ..
  | forceSome self next => exact hpasses ⟨rfl, Nat.le_refl _, rfl, trivial, nofun⟩
  | forceNone tid self next => exact hpasses ⟨rfl, Nat.le_refl _, rfl, trivial, nofun⟩
  | pended => exact hpasses ⟨rfl, Nat.le_refl _, rfl, Nat.le_refl _, nofun⟩
  | born => exact hpasses ⟨rfl, Nat.le_refl _, rfl, trivial, nofun⟩
  | calls op => exact absurd rfl hidle
  | userLock => exact absurd rfl hidle
  | userUnlock => exact absurd rfl hidle
  | ends => exact absurd rfl hidle
  | returns => exact absurd rfl hidle
  | lockFind next => exact hpasses ⟨rfl, Nat.le_refl _, rfl, hcounted, nofun⟩
  | deleteNone => exact hpasses ⟨rfl, Nat.zero_le _, rfl, trivial, nofun⟩
  | untimed => exact .inl rfl
  | initFlag => cases hheld
  | reborn => cases hdoomed
  | _ => exact hpasses ⟨rfl, Nat.le_refl _, rfl, trivial, nofun⟩

variable [DecidableEq ι] {ids : τ → ℤ}

/-- The instructions other than blocks and those on `task_list_lock`. -/
theorem next_passes (h : (code (ι := ι) ids w p).Next p') (hp : Proper p)
    (hlock : locksList p = none) (hunlock : ∀ next, p ≠ .listUnlock next) : doomed p' = true ∨ Passes p p' := by
  cases p
  case pendWait self u =>
    obtain ⟨_, rfl⟩ := h
    exact .inr ⟨rfl, Nat.le_refl _, rfl, trivial, by rintro ⟨⟩⟩
  case notifyWait u next =>
    obtain ⟨_, rfl⟩ := h
    exact .inr ⟨rfl, Nat.le_refl _, rfl, trivial, by rintro ⟨⟩⟩
  case initLock => cases hlock
  case listLock => cases hlock
  case listUnlock => exact absurd rfl (hunlock _)
  case deleteTunlock tid self u deletable =>
    obtain rfl := h
    refine .inr ?_
    split
    · exact ⟨rfl, Nat.le_refl _, rfl, trivial, by rintro ⟨⟩⟩
    · split
      · exact ⟨rfl, Nat.zero_le _, rfl, trivial, by rintro ⟨⟩⟩
      · exact ⟨rfl, Nat.le_refl _, rfl, trivial, by rintro ⟨⟩⟩
  case notifyDunlock =>
    obtain rfl := h
    exact .inr (.of_plain rfl (Nat.le_refl _) hp)
  case notifyKilled =>
    obtain rfl := h
    exact .inr (.of_plain rfl (Nat.le_refl _) hp)
  case pendKilled =>
    obtain rfl := h
    exact .inl rfl
  all_goals first
    | exact False.elim h
    | (obtain rfl := h; exact .inr ⟨rfl, Nat.le_refl _, rfl, trivial, by rintro ⟨⟩⟩)

/-- The ways through a call that change the memory, but for the count of `taskLock` and
`taskUnlock` and for the sections under `task_list_lock`. -/
theorem Runs.passes (hr : Runs ids w p m m' p') (hp : Proper p) (hcounted : Counted p) (hidle : p ≠ .idle)
    (hdoomed : doomed p = false) (hheld : listHeld p = false) :
    doomed p' = true ∨ (∃ tid, p = .restartFind tid ∧ m.taskFor w tid = some none ∧ p' = .idle) ∨
      (∃ u next, p = .forceSplit (some u) u next) ∨ (∃ next, p = .unlockCount next) ∨
      (∃ task next, p = .lockFlag task next) ∨ (∃ pri, p = .enter (.taskInit none pri 0)) ∨ Passes p p' := by
  have hpasses : Passes p p' → doomed p' = true ∨
      (∃ tid, p = .restartFind tid ∧ m.taskFor w tid = some none ∧ p' = .idle) ∨
      (∃ u next, p = .forceSplit (some u) u next) ∨ (∃ next, p = .unlockCount next) ∨
      (∃ task next, p = .lockFlag task next) ∨ (∃ pri, p = .enter (.taskInit none pri 0)) ∨ Passes p p' :=
    fun h => .inr (.inr (.inr (.inr (.inr (.inr h)))))
  cases hr with
  | reads hg =>
    obtain h | h | h | ⟨next, h, _⟩ | h | h := hg.passes hp hcounted hidle hdoomed hheld
    · exact .inl h
    · exact .inr (.inl h)
    · exact .inr (.inr (.inl h))
    · exact .inr (.inr (.inr (.inl ⟨next, h⟩)))
    · exact .inr (.inr (.inr (.inr (.inr (.inl h)))))
    · exact hpasses h
  | flagged task next => exact .inr (.inr (.inr (.inr (.inl ⟨task, next, rfl⟩))))
  | counted next => exact .inr (.inr (.inr (.inl ⟨next, rfl⟩)))
  | edited => cases hheld
  | cleared next => exact hpasses (.of_plain rfl (Nat.le_refl _) hp)
  | freed next => exact hpasses (.of_plain rfl (Nat.le_refl _) hp)
  | allocated => exact hpasses ⟨rfl, Nat.le_succ 1, rfl, trivial, nofun⟩
  | flagSet => exact hpasses ⟨rfl, Nat.zero_le _, rfl, trivial, nofun⟩
  | spawnFree => exact hpasses ⟨rfl, Nat.le_refl _, rfl, Nat.le_refl _, nofun⟩
  | named => exact hpasses ⟨rfl, Nat.le_refl _, rfl, Nat.le_refl _, nofun⟩
  | created hc => cases hc <;> exact hpasses ⟨rfl, Nat.le_refl _, rfl, trivial, nofun⟩
  | notCreated hc => cases hc <;> exact hpasses ⟨rfl, Nat.le_refl _, rfl, trivial, nofun⟩
  | cancels hc => cases hc <;> exact hpasses ⟨rfl, Nat.le_refl _, rfl, trivial, nofun⟩
  | joins hj => cases hj <;> exact hpasses ⟨rfl, Nat.le_refl _, rfl, trivial, nofun⟩
  | protects count hc => cases hc <;> exact hpasses ⟨rfl, Nat.le_refl _, rfl, trivial, nofun⟩
  | timed => exact .inl rfl
  | expired => exact absurd rfl hidle
  | cleaned hc =>
    cases hc with
    | closing => exact hpasses ⟨rfl, Nat.le_refl _, rfl, trivial, nofun⟩
    | dying => cases hdoomed
  | exits => cases hdoomed
  | _ => exact hpasses ⟨rfl, Nat.le_refl _, rfl, trivial, nofun⟩

/-- The handle of a thread that has exited may go to a new one. -/
theorem Runs.doomed (hr : Runs ids w p m m' p') (hgone : p ≠ .gone) (h : doomed p = true) : doomed p' = true := by
  cases hr with
  | reads hg =>
    cases hg with
    | killed hk => exact hk.doomed
    | unwrapped => rfl
    | reborn => exact absurd rfl hgone
    | _ => cases h
  | created hc => cases hc <;> cases h
  | notCreated hc => cases hc <;> cases h
  | cancels hc => cases hc <;> cases h
  | joins hj => cases hj <;> cases h
  | protects count hc => cases hc <;> cases h
  | cleaned hc =>
    cases hc with
    | closing => cases h
    | dying => rfl
  | exits => rfl
  | _ => cases h

theorem next_doomed (h : (code (ι := ι) ids w p).Next p') (hd : doomed p = true) : doomed p' = true := by
  cases p
  case notifyKilled =>
    obtain rfl := h
    exact hd
  case pendKilled =>
    obtain rfl := h
    rfl
  all_goals first
    | exact False.elim h
    | cases hd

end

/-! ### What a thread has done since its call -/

variable [DecidableEq θ] [DecidableEq τ] [DecidableEq ι]

/-- A step of thread `w` that locks `task_list_lock`. -/
def acquires (w : θ) (y : LifeTransition θ τ ι) : Bool :=
  y.thread = w && match y.pre.ctl w with
    | .awake p => (locksList p).isSome
    | _ => false

/-- A step of thread `w` that unlocks `task_list_lock`. -/
def releases (w : θ) (y : LifeTransition θ τ ι) : Bool :=
  y.thread = w && match y.pre.ctl w with
    | .awake (.listUnlock _) => true
    | _ => false

/-- A `taskLock` of thread `w` at `ULONG_MAX`. -/
def saturates (w : θ) (y : LifeTransition θ τ ι) : Bool :=
  y.thread = w && match y.pre.ctl w with
    | .awake (.lockFlag _ _) => y.pre.mem.taskLockLevel = ulongMax
    | _ => false

/-- A `taskRestart` by thread `w` that finds no task. -/
def misses (w : θ) (y : LifeTransition θ τ ι) : Bool :=
  y.thread = w && match y.pre.ctl w with
    | .awake (.restartFind tid) => y.pre.mem.taskFor w tid = some none
    | _ => false

/-- Thread `w` deletes or restarts the task that it runs itself, or it is another thread by
now: it has exited, and its handle has been given away. -/
def endsItself (w : θ) (y : LifeTransition θ τ ι) : Bool :=
  y.thread = w && match y.pre.ctl w with
    | .awake (.forceSplit (some self) u _) => self = u
    | .awake .gone => true
    | _ => false

/-- Whenever thread `w` unlocks `task_list_lock`, it has locked it since its call. -/
def Orderly (w : θ) (l : List (LifeTransition θ τ ι)) : Prop :=
  ∀ y l', y :: l' <:+ l → releases w y = true → l'.countP (releases w) < l'.countP (acquires w)

/-- The call that step `x` of its thread begins, and that has returned in `s`, has left the
locks as it found them. -/
structure Balanced (x : LifeTransition θ τ ι) (later : List (LifeTransition θ τ ι)) (s : LifeState θ τ ι) : Prop where
  depth : s.mem.depth x.thread = x.pre.mem.depth x.thread
  list : s.owner .taskListLock = some x.thread → x.pre.owner .taskListLock = some x.thread
  orderly : Orderly x.thread later

variable {ids : τ → ℤ} {t w : θ} {m m' : Mem θ τ ι} {p p' : Pc τ ι} {s s' : LifeState θ τ ι} {d : ℕ}
  {l : List (LifeTransition θ τ ι)} {y : LifeTransition θ τ ι}

omit [DecidableEq τ] [DecidableEq ι] in
theorem acquires_eq_false (h : ∀ p, y.pre.ctl w = .awake p → locksList p = none) : acquires w y = false := by
  unfold acquires
  split
  · rename_i heq
    rw [h _ heq]
    exact Bool.and_false _
  · exact Bool.and_false _

omit [DecidableEq τ] [DecidableEq ι] in
theorem acquires_at (hc : y.pre.ctl w = .awake p) (h : locksList p = none) : acquires w y = false := by
  refine acquires_eq_false fun q hq => ?_
  rw [hc] at hq
  rwa [← Ctl.awake.inj hq]

omit [DecidableEq τ] [DecidableEq ι] in
theorem releases_eq_false (h : ∀ next, y.pre.ctl w ≠ .awake (.listUnlock next)) : releases w y = false := by
  unfold releases
  split
  · rename_i heq
    exact absurd heq (h _)
  · exact Bool.and_false _

omit [DecidableEq τ] [DecidableEq ι] in
theorem saturates_eq_false (h : ∀ task next, y.pre.ctl w ≠ .awake (.lockFlag task next)) : saturates w y = false := by
  unfold saturates
  split
  · rename_i heq
    exact absurd heq (h _ _)
  · exact Bool.and_false _

omit [DecidableEq ι] in
theorem misses_eq_false (h : ∀ tid, y.pre.ctl w = .awake (.restartFind tid) → y.pre.mem.taskFor w tid ≠ some none) :
    misses w y = false := by
  unfold misses
  split
  · rename_i heq
    rw [decide_eq_false (h _ heq), Bool.and_false]
  · exact Bool.and_false _

/-- What a thread that is in a call has done so far, against the point that it has reached:
`d` levels were its caller's. -/
structure Ledger (w : θ) (d : ℕ) (l : List (LifeTransition θ τ ι)) (s : LifeState θ τ ι) : Prop where
  depth : s.mem.depth w + l.countP (saturates w) = d + levels (s.ctl w).point + l.countP (misses w)
  list : l.countP (acquires w) = l.countP (releases w) + if listHeld (s.ctl w).point then 1 else 0
  flags : l.countP (saturates w) + flagsLeft (s.ctl w).point ≤ 2
  nesting : levels (s.ctl w).point + flagsLeft (s.ctl w).point ≤ 2
  deep : l.countP (saturates w) = 0 ∨ ulongMax ≤ d + 2
  counted : Counted (s.ctl w).point
  inside : (s.ctl w).point ≠ .closing
  misses : (s.ctl w).point ≠ .idle → l.countP (misses w) = 0
  orderly : Orderly w l

omit [DecidableEq τ] [DecidableEq ι] in
theorem Orderly.cons (h : Orderly w l) (hy : releases w y = true → l.countP (releases w) < l.countP (acquires w)) :
    Orderly w (y :: l) := by
  intro z l' hz hrel
  obtain heq | hsuffix := List.suffix_cons_iff.mp hz
  · obtain ⟨rfl, rfl⟩ := List.cons.inj heq
    exact hy hrel
  · exact h z l' hsuffix hrel

omit [DecidableEq θ] [DecidableEq τ] [DecidableEq ι] in
theorem countP_quiet {f : LifeTransition θ τ ι → Bool} (hf : f y = false) : (y :: l).countP f = l.countP f :=
  List.countP_cons_of_neg (by rw [hf]; exact Bool.false_ne_true)

omit [DecidableEq θ] [DecidableEq τ] [DecidableEq ι] in
theorem elsewhere {q : Pc τ ι} (hc : s.ctl w = .awake p) (hq : q ≠ p) : s.ctl w ≠ .awake q := by
  intro he
  rw [hc] at he
  exact hq (Ctl.awake.inj he).symm

omit [DecidableEq ι] in
/-- A step that is not in the books: what it gives back of the thread's depth it gives back
of the point's levels, and `task_list_lock` is held after it if it was before. -/
theorem Ledger.quiet (h : Ledger w d l s) (hidle : (s.ctl w).point ≠ .idle) (hacquires : acquires w y = false)
    (hreleases : releases w y = false) (hsaturates : saturates w y = false) (hmisses : Lifecycle.misses w y = false)
    (hdepth : s'.mem.depth w + levels (s.ctl w).point = s.mem.depth w + levels (s'.ctl w).point)
    (hlevels : levels (s'.ctl w).point ≤ levels (s.ctl w).point)
    (hflags : flagsLeft (s'.ctl w).point ≤ flagsLeft (s.ctl w).point)
    (hheld : listHeld (s'.ctl w).point = listHeld (s.ctl w).point) (hcounted : Counted (s'.ctl w).point)
    (hinside : (s'.ctl w).point ≠ .closing) : Ledger w d (y :: l) s' := by
  have hmissed := h.misses hidle
  refine ⟨?_, ?_, ?_, ?_, ?_, hcounted, hinside, ?_, h.orderly.cons fun hrel => ?_⟩
  · have hdepth₀ := h.depth
    rw [countP_quiet hsaturates, countP_quiet hmisses]
    omega
  · rw [countP_quiet hacquires, countP_quiet hreleases, hheld]
    exact h.list
  · rw [countP_quiet hsaturates]
    exact Nat.le_trans (Nat.add_le_add_left hflags _) h.flags
  · exact Nat.le_trans (Nat.add_le_add hlevels hflags) h.nesting
  · rw [countP_quiet hsaturates]
    exact h.deep
  · rw [countP_quiet hmisses]
    exact fun _ => hmissed
  · rw [hreleases] at hrel
    cases hrel

omit [DecidableEq ι] in
/-- Most steps of a call leave its books alone. -/
theorem Ledger.passes (h : Ledger w d l s) (hp : (s.ctl w).point ≠ .idle) (hheld : listHeld (s.ctl w).point = false)
    (hpasses : Passes (s.ctl w).point (s'.ctl w).point) (hdepth : s'.mem.depth w = s.mem.depth w)
    (hacquires : acquires w y = false) (hreleases : releases w y = false) (hsaturates : saturates w y = false)
    (hmisses : Lifecycle.misses w y = false) : Ledger w d (y :: l) s' :=
  h.quiet hp hacquires hreleases hsaturates hmisses (by rw [hdepth, hpasses.levels]) (Nat.le_of_eq hpasses.levels)
    hpasses.flagsLeft (by rw [hpasses.listHeld, hheld]) hpasses.counted hpasses.inside

omit [DecidableEq ι] in
/-- In a call that is going to give a level back, the thread has the scheduler lock. -/
theorem Ledger.depth_pos (h : Ledger w d l s) (hlevels : 0 < levels (s.ctl w).point) : 0 < s.mem.depth w := by
  have hdepth := h.depth
  have hflags := h.flags
  have hdeep := h.deep
  unfold ulongMax at hdeep
  omega

theorem Runs.flag {task : Option τ} {next : Pc τ ι} (hr : Runs ids w (.lockFlag task next) m m' p') :
    Lifecycle.doomed p' = true ∨ p' = .lockTest task next ∧ (m.locker = none ∨ m.locker = some w) ∧
      m'.locker = some w ∧ m'.taskLockLevel = Sched.countUp ulongMax m.taskLockLevel := by
  cases hr with
  | reads hg =>
    cases hg with
    | killed hk => exact .inl hk.doomed
  | flagged _ _ hl => exact .inr ⟨rfl, hl, rfl, rfl⟩
  | created hc => cases hc
  | notCreated hc => cases hc
  | cancels hc => cases hc
  | joins hj => cases hj
  | protects count hc => cases hc
  | cleaned hc => cases hc

omit [DecidableEq τ] [DecidableEq ι] in
/-- A level more, unless the counter is at its maximum. -/
theorem depth_countUp (hfree : m.locker = none → m.taskLockLevel = 0) (hbound : m.taskLockLevel ≤ ulongMax)
    (hmine : m.locker = none ∨ m.locker = some w) (hlocker : m'.locker = some w)
    (hlevel : m'.taskLockLevel = Sched.countUp ulongMax m.taskLockLevel) :
    m.taskLockLevel = ulongMax ∧ m'.depth w = ulongMax ∧ m.depth w = ulongMax ∨
      m.taskLockLevel ≠ ulongMax ∧ m'.depth w = m.depth w + 1 := by
  rw [Mem.depth_of_locker hlocker, hlevel]
  have hdepth : m.depth w = m.taskLockLevel := by
    obtain hnone | hsome := hmine
    · rw [Mem.depth_of_ne (by rw [hnone]; exact nofun), hfree hnone]
    · exact Mem.depth_of_locker hsome
  by_cases hmax : m.taskLockLevel = ulongMax
  · exact .inl ⟨hmax, by rw [hmax, countUp_max], by rw [hdepth, hmax]⟩
  · refine .inr ⟨hmax, ?_⟩
    rw [hdepth, Sched.countUp_of_lt (by omega)]

/-- The steps of others leave the depth of a thread alone. -/
theorem Runs.depth_other (hr : Runs ids t p m m' p') (hne : w ≠ t)
    (hclears : Lifecycle.clears p = true → m.locker = some t) :
    m'.depth w = m.depth w := by
  have hzero : m.locker = some t → m.depth w = 0 := fun h => by
    refine Mem.depth_of_ne ?_
    rw [h]
    exact fun he => hne (Option.some.inj he).symm
  have htaken : m'.locker = some t → m'.depth w = 0 := fun h => by
    refine Mem.depth_of_ne ?_
    rw [h]
    exact fun he => hne (Option.some.inj he).symm
  obtain ⟨hlocker, hlevel, _⟩ | ⟨_, _, _, _, hfree, hlocker, _⟩ | ⟨_, _, hmine, hlocker, _⟩ | ⟨next, rfl, _, hlocker, _⟩ |
    ⟨_, rfl⟩ := hr.lock_cases
  · rw [Mem.depth, Mem.depth, hlocker, hlevel]
  · rw [htaken hlocker]
    obtain hnone | hsome := hfree
    · exact (Mem.depth_of_ne (by rw [hnone]; exact nofun)).symm
    · exact (hzero hsome).symm
  · rw [htaken hlocker, hzero hmine]
  · rw [Mem.depth_of_ne (by rw [hlocker]; exact nofun), hzero (hclears rfl)]
  · unfold Mem.cleanup
    split
    · rename_i hmine
      rw [hzero hmine]
      exact Mem.depth_of_ne nofun
    · rfl

omit [DecidableEq ι] in
/-- `task_list_lock` is locked. -/
theorem Ledger.acquires (h : Ledger w d l s) (hp : locksList p = some p') (hc : s.ctl w = .awake p)
    (hc' : s'.ctl w = .awake p') (hmem : s'.mem = s.mem) : Ledger w d (⟨s, w, s'⟩ :: l) s' := by
  have hne : ∀ q, locksList q = none → s.ctl w ≠ .awake q := by
    intro q hq he
    rw [hc] at he
    rw [Ctl.awake.inj he, hq] at hp
    cases hp
  have hacquires : Lifecycle.acquires w ⟨s, w, s'⟩ = true := by simp [Lifecycle.acquires, hc, hp]
  have hreleases : releases w ⟨s, w, s'⟩ = false := releases_eq_false fun _ => hne _ rfl
  have hsaturates : saturates w ⟨s, w, s'⟩ = false := saturates_eq_false fun _ _ => hne _ rfl
  have hmisses : Lifecycle.misses w ⟨s, w, s'⟩ = false := misses_eq_false fun _ he => absurd he (hne _ rfl)
  obtain ⟨hdepth, hlist, hflags, hnesting, hdeep, _, _, hmissed, horderly⟩ := h
  rw [hc, Ctl.point_awake] at hdepth hlist hflags hnesting hmissed
  obtain ⟨hlevels, hleft, hbefore, hafter, hcounted, hinside, hidle⟩ : levels p' = levels p ∧ flagsLeft p' = flagsLeft p ∧
      listHeld p = false ∧ listHeld p' = true ∧ Counted p' ∧ p' ≠ .closing ∧ p ≠ .idle := by
    cases p <;> cases hp <;> exact ⟨rfl, rfl, rfl, rfl, trivial, nofun, nofun⟩
  refine ⟨?_, ?_, ?_, ?_, ?_, ?_, ?_, ?_, horderly.cons fun hrel => ?_⟩
  · rw [hmem, hc', countP_quiet hsaturates, countP_quiet hmisses, Ctl.point_awake, hlevels]
    exact hdepth
  · rw [hbefore] at hlist
    rw [hc', List.countP_cons_of_pos hacquires, countP_quiet hreleases, Ctl.point_awake, hafter]
    exact congrArg (· + 1) hlist
  · rw [hc', countP_quiet hsaturates, Ctl.point_awake, hleft]
    exact hflags
  · rw [hc', Ctl.point_awake, hlevels, hleft]
    exact hnesting
  · rw [countP_quiet hsaturates]
    exact hdeep
  · rw [hc']
    exact hcounted
  · rw [hc']
    exact hinside
  · rw [countP_quiet hmisses]
    exact fun _ => hmissed hidle
  · rw [hreleases] at hrel
    cases hrel

omit [DecidableEq ι] in
/-- `task_list_lock` is unlocked. -/
theorem Ledger.releases (h : Ledger w d l s) {next : Pc τ ι} (hc : s.ctl w = .awake (.listUnlock next))
    (hc' : s'.ctl w = .awake next) (hnext : AfterSection next) (hmem : s'.mem = s.mem) :
    Ledger w d (⟨s, w, s'⟩ :: l) s' := by
  have hreleases : Lifecycle.releases w ⟨s, w, s'⟩ = true := by simp [Lifecycle.releases, hc]
  have hacquires : Lifecycle.acquires w ⟨s, w, s'⟩ = false := acquires_at hc rfl
  have hsaturates : saturates w ⟨s, w, s'⟩ = false := saturates_eq_false fun task n => elsewhere hc nofun
  have hmisses : Lifecycle.misses w ⟨s, w, s'⟩ = false := misses_eq_false fun tid he => absurd he (elsewhere hc nofun)
  obtain ⟨hheld, hcounted, hinside⟩ := hnext.keeps
  obtain ⟨hdepth, hlist, hflags, hnesting, hdeep, _, _, hmissed, horderly⟩ := h
  rw [hc, Ctl.point_awake] at hdepth hlist hflags hnesting hmissed
  refine ⟨?_, ?_, ?_, ?_, ?_, ?_, ?_, ?_, horderly.cons fun _ => ?_⟩
  · rw [hmem, hc', countP_quiet hsaturates, countP_quiet hmisses]
    exact hdepth
  · rw [hc', countP_quiet hacquires, List.countP_cons_of_pos hreleases, Ctl.point_awake, hheld]
    exact hlist
  · rw [hc', countP_quiet hsaturates]
    exact hflags
  · rw [hc']
    exact hnesting
  · rw [countP_quiet hsaturates]
    exact hdeep
  · rw [hc']
    exact hcounted
  · rw [hc']
    exact hinside
  · rw [countP_quiet hmisses]
    exact fun _ => hmissed nofun
  · rw [hlist]
    exact Nat.lt_succ_self _

/-- Where a thread stands that is not about to wait, it is awake. -/
theorem awake_of_point (hs : Step (code ids) w s s')
    (hwait : ∀ c mutex timed next, code (ι := ι) ids w (s.ctl w).point ≠ .wait c mutex timed next) :
    s.ctl w = .awake (s.ctl w).point := by
  cases hc : s.ctl w with
  | awake p => rfl
  | asleep p n =>
    have hw := hs.wakes hc
    rw [hc, Ctl.point_asleep] at hwait
    cases hi : code (ι := ι) ids w p with
    | wait c mutex timed next => exact absurd hi (hwait c mutex timed next)
    | _ =>
      rw [hi] at hw
      exact hw.elim

/-- An instruction of the call that is no block. -/
theorem Ledger.sync (h : Ledger w d l s) (hproper : Proper (s.ctl w).point) (hs : Step (code ids) w s s')
    (hidle : (s.ctl w).point ≠ .idle) (hmem : s'.mem = s.mem)
    (hblock : ∀ block, code (ι := ι) ids w (s.ctl w).point ≠ .run block)
    (hpoint : (s'.ctl w).point = (s.ctl w).point ∨ (code (ι := ι) ids w (s.ctl w).point).Next (s'.ctl w).point) :
    doomed (s'.ctl w).point = true ∨ Ledger w d (⟨s, w, s'⟩ :: l) s' := by
  cases hlock : locksList (s.ctl w).point with
  | some p' =>
    have hi : code (ι := ι) ids w (s.ctl w).point = .lock .taskListLock p' := by
      cases hp : (s.ctl w).point <;> rw [hp] at hlock <;> cases hlock <;> rfl
    have hc := awake_of_point hs (by rw [hi]; exact nofun)
    have hdone := hs.does hc
    rw [hi] at hdone
    exact .inr (h.acquires hlock hc (by rw [hdone.2]; exact Function.update_self ..) hmem)
  | none =>
    by_cases hunlock : ∃ next, (s.ctl w).point = .listUnlock next
    · obtain ⟨next, hp⟩ := hunlock
      have hc : s.ctl w = .awake (.listUnlock next) := hp ▸ awake_of_point hs (by rw [hp]; exact nofun)
      have hs' := hs.does hc
      rw [hp] at hproper
      exact .inr (h.releases hc (by rw [hs']; exact Function.update_self ..) hproper hmem)
    · have hpoint' : ∀ q, s.ctl w = .awake q → (s.ctl w).point = q := by
        intro q hq
        rw [hq]
        rfl
      have hheld : listHeld (s.ctl w).point = false := by
        cases hp : (s.ctl w).point
        case initFlag u pri next =>
          rw [hp] at hblock
          exact absurd rfl (hblock _)
        case listEdit edit next =>
          rw [hp] at hblock
          exact absurd rfl (hblock _)
        case listUnlock next => exact absurd ⟨next, hp⟩ hunlock
        all_goals rfl
      have hdone : Passes (s.ctl w).point (s'.ctl w).point → Ledger w d (⟨s, w, s'⟩ :: l) s' := by
        intro hpasses
        refine h.passes hidle hheld hpasses (by rw [hmem]) ?_ ?_ ?_ ?_
        · exact acquires_eq_false fun q hc => hpoint' q hc ▸ hlock
        · exact releases_eq_false fun next hc => hunlock ⟨next, hpoint' _ hc⟩
        · refine saturates_eq_false fun task next hc => hblock (flagBlock w task next) ?_
          rw [hpoint' _ hc]
          rfl
        · refine misses_eq_false fun tid hc => absurd ?_ (hblock fun _ m => restartBlock w tid m)
          rw [hpoint' _ hc]
          rfl
      obtain heq | hnext := hpoint
      · exact .inr (hdone ⟨by rw [heq], by rw [heq], by rw [heq]; exact hheld, by rw [heq]; exact h.counted,
          by rw [heq]; exact h.inside⟩)
      · exact (next_passes hnext hproper hlock fun next hp => hunlock ⟨next, hp⟩).imp id hdone

/-- A block leaves the scheduler lock alone unless it is one of five. -/
theorem Runs.depth_same (hr : Runs ids w p m m' p') (hflag : ∀ task next, p ≠ .lockFlag task next)
    (hcount : ∀ next, p ≠ .unlockCount next) (hclear : Lifecycle.clears p = true → m.locker = some w ∧ m.taskLockLevel = 0)
    (hclosing : p ≠ .closing) (hdying : p ≠ .dying) : m'.depth w = m.depth w := by
  obtain ⟨hlocker, hlevel, _⟩ | ⟨task, next, rfl, _⟩ | ⟨next, rfl, _⟩ | ⟨next, rfl, _, hlocker, _⟩ | ⟨hclean, _⟩ := hr.lock_cases
  · rw [Mem.depth, Mem.depth, hlocker, hlevel]
  · exact absurd rfl (hflag task next)
  · exact absurd rfl (hcount next)
  · obtain ⟨hmine, hzero⟩ := hclear rfl
    rw [Mem.depth_of_ne (by rw [hlocker]; exact nofun), Mem.depth_of_locker hmine, hzero]
  · cases hclean with
    | closing => exact absurd rfl hclosing
    | dying => exact absurd rfl hdying

omit [DecidableEq ι] in
/-- `taskLock` takes a level, at `ULONG_MAX` in name only. -/
theorem Ledger.locks (h : Ledger w d l s) (hlock : LockState s.mem s.ctl) {task : Option τ} {next : Pc τ ι}
    (hc : s.ctl w = .awake (.lockFlag task next)) (hc' : s'.ctl w = .awake (.lockTest task next))
    (hmine : s.mem.locker = none ∨ s.mem.locker = some w) (hlocker : s'.mem.locker = some w)
    (hlevel : s'.mem.taskLockLevel = Sched.countUp ulongMax s.mem.taskLockLevel) :
    Ledger w d (⟨s, w, s'⟩ :: l) s' := by
  have hacquires : Lifecycle.acquires w ⟨s, w, s'⟩ = false := acquires_at hc rfl
  have hreleases : Lifecycle.releases w ⟨s, w, s'⟩ = false := releases_eq_false fun n => elsewhere hc nofun
  have hmisses : Lifecycle.misses w ⟨s, w, s'⟩ = false := misses_eq_false fun tid he => absurd he (elsewhere hc nofun)
  have hsaturates : saturates w ⟨s, w, s'⟩ = decide (s.mem.taskLockLevel = ulongMax) := by simp [saturates, hc]
  obtain ⟨hdepth, hlist, hflags, hnesting, hdeep, hcounted, _, hmissed, horderly⟩ := h
  rw [hc, Ctl.point_awake] at hdepth hlist hflags hnesting hcounted hmissed
  have hzero := hmissed nofun
  have hlevels : 1 ≤ levels next := hcounted
  rw [levels_lockFlag] at hdepth hnesting
  rw [flagsLeft_lockFlag] at hflags hnesting
  refine ⟨?_, ?_, ?_, ?_, ?_, ?_, ?_, ?_, horderly.cons fun hrel => ?_⟩
  · obtain ⟨hmax, hd', hd⟩ | ⟨hmax, hd'⟩ := depth_countUp hlock.free hlock.bound hmine hlocker hlevel
    · rw [hc', List.countP_cons_of_pos (by simp [hsaturates, hmax]), countP_quiet hmisses, hzero,
        Ctl.point_awake, levels_lockTest]
      omega
    · rw [hc', List.countP_cons_of_neg (by simp [hsaturates, hmax]), countP_quiet hmisses, hzero,
        Ctl.point_awake, levels_lockTest]
      omega
  · rw [hc', countP_quiet hacquires, countP_quiet hreleases]
    exact hlist
  · rw [hc', List.countP_cons, Ctl.point_awake, flagsLeft_lockTest]
    split <;> omega
  · rw [hc', Ctl.point_awake, levels_lockTest, flagsLeft_lockTest]
    omega
  · obtain ⟨hmax, _, hd⟩ | ⟨hmax, _⟩ := depth_countUp hlock.free hlock.bound hmine hlocker hlevel
    · exact .inr (by omega)
    · rw [List.countP_cons_of_neg (by simp [hsaturates, hmax])]
      exact hdeep
  · rw [hc']
    trivial
  · rw [hc']
    exact nofun
  · rw [countP_quiet hmisses]
    exact fun _ => hzero
  · rw [hreleases] at hrel
    cases hrel

omit [DecidableEq ι] in
/-- `taskUnlock` gives a level back. -/
theorem Ledger.unlocks (h : Ledger w d l s) {next : Pc τ ι} (hc : s.ctl w = .awake (.unlockCount next))
    (hc' : s'.ctl w = .awake p') (hnext : Plain next) (hp' : p' = .listLock .restore (.unlockClear next) ∨ p' = next)
    (hmine : s.mem.locker = some w) (hlocker : s'.mem.locker = some w)
    (hlevel : s'.mem.taskLockLevel = Sched.countDown s.mem.taskLockLevel) : Ledger w d (⟨s, w, s'⟩ :: l) s' := by
  have hacquires : Lifecycle.acquires w ⟨s, w, s'⟩ = false := acquires_at hc rfl
  have hreleases : Lifecycle.releases w ⟨s, w, s'⟩ = false := releases_eq_false fun n => elsewhere hc nofun
  have hmisses : Lifecycle.misses w ⟨s, w, s'⟩ = false := misses_eq_false fun tid he => absurd he (elsewhere hc nofun)
  have hsaturates : saturates w ⟨s, w, s'⟩ = false := saturates_eq_false fun task n => elsewhere hc nofun
  have hpos := h.depth_pos (by rw [hc]; exact Nat.succ_pos _)
  obtain ⟨hlevels, hleft, hheld, hcounted, hinside⟩ : levels p' = levels next ∧ flagsLeft p' = flagsLeft next ∧
      listHeld p' = false ∧ Counted p' ∧ p' ≠ .closing := by
    obtain rfl | rfl := hp'
    · exact ⟨rfl, rfl, rfl, trivial, nofun⟩
    · exact ⟨rfl, rfl, hnext.listHeld, hnext.counted, hnext.not_closing⟩
  refine h.quiet ?_ hacquires hreleases hsaturates hmisses ?_ ?_ ?_ ?_ ?_ ?_
  · rw [hc]
    exact nofun
  · rw [Mem.depth_of_locker hmine] at hpos ⊢
    rw [Mem.depth_of_locker hlocker, hlevel, Sched.countDown, if_pos hpos, hc, hc']
    simp only [Ctl.point_awake, hlevels, levels_unlockCount]
    omega
  · rw [hc, hc', Ctl.point_awake, Ctl.point_awake, hlevels]
    exact Nat.le_succ _
  · rw [hc, hc', Ctl.point_awake, Ctl.point_awake, hleft]
    exact Nat.le_refl _
  · rw [hc, hc']
    exact hheld
  · rw [hc']
    exact hcounted
  · rw [hc']
    exact hinside

omit [DecidableEq ι] in
/-- `taskRestart` leaves past its `taskUnlock`. -/
theorem Ledger.leaves (h : Ledger w d l s) {tid : ℤ} (hc : s.ctl w = .awake (.restartFind tid))
    (hc' : s'.ctl w = .awake .idle) (hnone : s.mem.taskFor w tid = some none) (hdepth' : s'.mem.depth w = s.mem.depth w) :
    Ledger w d (⟨s, w, s'⟩ :: l) s' := by
  have hacquires : Lifecycle.acquires w ⟨s, w, s'⟩ = false := acquires_at hc rfl
  have hreleases : Lifecycle.releases w ⟨s, w, s'⟩ = false := releases_eq_false fun n => elsewhere hc (by rintro ⟨⟩)
  have hsaturates : saturates w ⟨s, w, s'⟩ = false := saturates_eq_false fun task n => elsewhere hc (by rintro ⟨⟩)
  have hmisses : Lifecycle.misses w ⟨s, w, s'⟩ = true := by simp [Lifecycle.misses, hc, hnone]
  obtain ⟨hdepth, hlist, hflags, _, hdeep, _, _, hmissed, horderly⟩ := h
  rw [hc, Ctl.point_awake] at hdepth hlist hflags hmissed
  refine ⟨?_, ?_, ?_, ?_, ?_, ?_, ?_, ?_, horderly.cons fun hrel => ?_⟩
  · rw [hc', hdepth', countP_quiet hsaturates, List.countP_cons_of_pos hmisses]
    rw [levels_restartFind] at hdepth
    rw [Ctl.point_awake, levels_idle]
    omega
  · rw [hc', countP_quiet hacquires, countP_quiet hreleases]
    exact hlist
  · rw [hc', countP_quiet hsaturates]
    exact hflags
  · rw [hc']
    exact Nat.zero_le _
  · rw [countP_quiet hsaturates]
    exact hdeep
  · rw [hc']
    trivial
  · rw [hc']
    rintro ⟨⟩
  · rw [hc']
    exact fun hne => absurd rfl hne
  · rw [hreleases] at hrel
    cases hrel

omit [DecidableEq ι] in
/-- A section is passed. -/
theorem Ledger.edits (h : Ledger w d l s) (hp : listHeld p = true) (hunlock : ∀ next, p ≠ .listUnlock next)
    (hinside : Inside p p') (hc : s.ctl w = .awake p) (hc' : s'.ctl w = .awake p')
    (hdepth' : s'.mem.depth w = s.mem.depth w) : Ledger w d (⟨s, w, s'⟩ :: l) s' := by
  have hne : ∀ q, listHeld q = false → s.ctl w ≠ .awake q := by
    intro q hq he
    rw [hc] at he
    rw [Ctl.awake.inj he, hq] at hp
    cases hp
  have hacquires : Lifecycle.acquires w ⟨s, w, s'⟩ = false := by
    refine acquires_at hc ?_
    cases p <;> first | rfl | cases hp
  have hreleases : Lifecycle.releases w ⟨s, w, s'⟩ = false := releases_eq_false fun n => elsewhere hc (hunlock n).symm
  have hsaturates : saturates w ⟨s, w, s'⟩ = false := saturates_eq_false fun _ _ => hne _ rfl
  have hmisses : Lifecycle.misses w ⟨s, w, s'⟩ = false := misses_eq_false fun _ he => absurd he (hne _ rfl)
  refine h.quiet ?_ hacquires hreleases hsaturates hmisses ?_ ?_ ?_ ?_ ?_ ?_
  · rw [hc]
    rintro rfl
    cases hp
  · rw [hc, hc', hdepth', Ctl.point_awake, Ctl.point_awake, hinside.levels]
  · rw [hc, hc']
    exact Nat.le_of_eq hinside.levels
  · rw [hc, hc']
    exact Nat.le_of_eq hinside.flagsLeft
  · rw [hc, hc', Ctl.point_awake, Ctl.point_awake, hinside.listHeld, hp]
  · rw [hc']
    exact hinside.counted
  · rw [hc']
    rintro rfl
    cases hinside.listHeld

theorem Runs.not_locksList {q : Pc τ ι} (hp : locksList p = some q) : ¬ Runs ids w p m m' p' := by
  intro hr
  cases hr with
  | reads hg =>
    cases hg with
    | killed hk => cases hk <;> cases hp
    | _ => cases hp
  | created hc => cases hc <;> cases hp
  | notCreated hc => cases hc <;> cases hp
  | cancels hc => cases hc <;> cases hp
  | joins hj => cases hj <;> cases hp
  | protects count hc => cases hc <;> cases hp
  | cleaned hc => cases hc <;> cases hp
  | _ => cases hp

theorem Runs.not_listUnlock {next : Pc τ ι} : ¬ Runs ids w (.listUnlock next) m m' p' := by
  intro hr
  cases hr with
  | reads hg =>
    cases hg with
    | killed hk => cases hk
  | created hc => cases hc
  | notCreated hc => cases hc
  | cancels hc => cases hc
  | joins hj => cases hj
  | protects count hc => cases hc
  | cleaned hc => cases hc

/-- A block of a section leads to its next point. -/
theorem Runs.inside (hr : Runs ids w p m m' p') (hp : listHeld p = true) : Inside p p' := by
  cases hr with
  | reads hg =>
    cases hg with
    | killed hk => cases hk <;> cases hp
    | initFlag => exact ⟨rfl, rfl, rfl, trivial⟩
    | _ => cases hp
  | edited => exact ⟨rfl, rfl, rfl, trivial⟩
  | created hc => cases hc <;> cases hp
  | notCreated hc => cases hc <;> cases hp
  | cancels hc => cases hc <;> cases hp
  | joins hj => cases hj <;> cases hp
  | protects count hc => cases hc <;> cases hp
  | cleaned hc => cases hc <;> cases hp
  | _ => cases hp

theorem Runs.missed {tid : ℤ} (hr : Runs ids w (.restartFind tid) m m' p') (hnone : m.taskFor w tid = some none) :
    p' = .idle := by
  cases hr with
  | reads hg =>
    cases hg with
    | killed hk => cases hk
    | restartNone => rfl
    | restartSome _ hu =>
      rw [hu] at hnone
      cases hnone
  | created hc => cases hc
  | notCreated hc => cases hc
  | cancels hc => cases hc
  | joins hj => cases hj
  | protects count hc => cases hc
  | cleaned hc => cases hc

/-- A block of the call. -/
theorem Ledger.runs (h : Ledger w d l s) (hlock : LockState s.mem s.ctl) (hp : s.ctl w = .awake p)
    (hp' : s'.ctl w = .awake p') (hr : Runs ids w p s.mem s'.mem p') (hidle : p ≠ .idle) (hdoomed : doomed p = false)
    (hself : endsItself w ⟨s, w, s'⟩ = false) (hnull : ∀ pri, p ≠ .enter (.taskInit none pri 0)) :
    doomed p' = true ∨ Ledger w d (⟨s, w, s'⟩ :: l) s' := by
  have hproper : Proper p := by
    have hproper := hlock.proper w
    rwa [hp] at hproper
  have hcounted : Counted p := by
    have hcounted := h.counted
    rwa [hp] at hcounted
  by_cases hflag : ∃ task next, p = .lockFlag task next
  · obtain ⟨task, next, rfl⟩ := hflag
    obtain hd | ⟨rfl, hmine, hlocker, hlevel⟩ := hr.flag
    · exact .inl hd
    · exact .inr (h.locks hlock hp hp' hmine hlocker hlevel)
  · by_cases hcount : ∃ next, p = .unlockCount next
    · obtain ⟨next, rfl⟩ := hcount
      have hmine := Mem.locker_of_depth (h.depth_pos (by rw [hp]; exact Nat.succ_pos _))
      obtain ⟨_, _, hforeign⟩ | ⟨_, _, he, _⟩ | ⟨n, he, _, hlocker, hlevel, hnext⟩ | ⟨_, he, _⟩ | ⟨hclean, _⟩ := hr.lock_cases
      · exact absurd hmine (hforeign next rfl).1
      · cases he
      · cases he
        refine .inr (h.unlocks hp hp' hproper ?_ hmine hlocker hlevel)
        rw [hnext]
        split
        · exact .inl rfl
        · exact .inr rfl
      · cases he
      · cases hclean
    · have hdepth : s'.mem.depth w = s.mem.depth w := by
        refine hr.depth_same (fun task next he => hflag ⟨task, next, he⟩) (fun next he => hcount ⟨next, he⟩) (fun hc => ?_)
          (fun he => ?_) fun he => ?_
        · refine hlock.clears w ?_
          rwa [hp]
        · exact h.inside (by rw [hp, he]; rfl)
        · rw [he] at hdoomed
          cases hdoomed
      have hunlock : ∀ next, p ≠ .listUnlock next := by
        rintro next rfl
        exact hr.not_listUnlock
      cases hlist : listHeld p with
      | true => exact .inr (h.edits hlist hunlock (hr.inside hlist) hp hp' hdepth)
      | false =>
        obtain hd | ⟨tid, rfl, hnone, rfl⟩ | ⟨u, next, rfl⟩ | hc | hf | ⟨pri, he⟩ | hpasses :=
          hr.passes hproper hcounted hidle hdoomed hlist
        · exact .inl hd
        · exact .inr (h.leaves hp hp' hnone hdepth)
        · simp [endsItself, hp] at hself
        · exact absurd hc hcount
        · exact absurd hf hflag
        · exact absurd he (hnull pri)
        · have hpoint : ∀ q, s.ctl w = .awake q → p = q := fun q hq => by
            rw [hp] at hq
            exact Ctl.awake.inj hq
          refine .inr (h.passes (by rw [hp]; exact hidle) (by rw [hp]; exact hlist) (by rw [hp, hp']; exact hpasses) hdepth
            ?_ ?_ ?_ ?_)
          · refine acquires_at hp ?_
            cases hl : locksList p with
            | none => rfl
            | some q => exact absurd hr (Runs.not_locksList hl)
          · exact releases_eq_false fun next hc => hunlock next (hpoint _ hc)
          · exact saturates_eq_false fun task next hc => hflag ⟨task, next, hpoint _ hc⟩
          · refine misses_eq_false fun tid hc hnone => ?_
            obtain rfl := hpoint _ hc
            obtain rfl := hr.missed hnone
            have hlevels := hpasses.levels
            cases hlevels

/-! ### Every call -/

/-- A state between calls: nobody is in one, and the scheduler lock is as `taskUnlock`
leaves it. -/
structure Resting (s : LifeState θ τ ι) : Prop where
  resting : ∀ t, s.ctl t = .awake .idle ∨ s.ctl t = .awake .unborn ∨ s.ctl t = .awake .gone
  free : s.mem.locker = none → s.mem.taskLockLevel = 0
  bound : s.mem.taskLockLevel ≤ ulongMax

omit [DecidableEq θ] [DecidableEq τ] [DecidableEq ι] in
theorem Resting.lockState (h : Resting s) : LockState s.mem s.ctl := by
  refine ⟨fun t => ?_, h.free, h.bound, fun t ht => ?_⟩
  · obtain hp | hp | hp := h.resting t <;> rw [hp] <;> trivial
  · obtain hp | hp | hp := h.resting t <;> rw [hp] at ht <;> cases ht

theorem lockState {tr : List (LifeTransition θ τ ι)} (hr : Run (code ids) Resting tr s) : LockState s.mem s.ctl := by
  induction hr with
  | start hs => exact hs.lockState
  | step _ hs ih => exact lockState_step ih hs

/-- Step `x` calls `op`. -/
def Calls (x : LifeTransition θ τ ι) (op : Op τ) : Prop :=
  x.pre.ctl x.thread = .awake .idle ∧ x.post.ctl x.thread = .awake (.enter op)

omit [DecidableEq ι] in
/-- A step of another thread changes no books. -/
theorem Ledger.other (h : Ledger w d l s) (hne : y.thread ≠ w) (hctl : s'.ctl w = s.ctl w)
    (hdepth : s'.mem.depth w = s.mem.depth w) : Ledger w d (y :: l) s' := by
  have hacquires : Lifecycle.acquires w y = false := by simp [Lifecycle.acquires, hne]
  have hreleases : Lifecycle.releases w y = false := by simp [Lifecycle.releases, hne]
  have hsaturates : saturates w y = false := by simp [saturates, hne]
  have hmisses : Lifecycle.misses w y = false := by simp [Lifecycle.misses, hne]
  obtain ⟨h1, h2, h3, h4, h5, h6, h7, h8, horderly⟩ := h
  rw [← hctl] at h1 h2 h3 h4 h6 h7 h8
  rw [← hdepth] at h1
  refine ⟨?_, ?_, ?_, h4, ?_, h6, h7, ?_, horderly.cons fun hrel => ?_⟩
  · rwa [countP_quiet hsaturates, countP_quiet hmisses]
  · rwa [countP_quiet hacquires, countP_quiet hreleases]
  · rwa [countP_quiet hsaturates]
  · rwa [countP_quiet hsaturates]
  · rwa [countP_quiet hmisses]
  · rw [hreleases] at hrel
    cases hrel

omit [DecidableEq θ] [DecidableEq τ] [DecidableEq ι] in
theorem Plain.not_enter (h : Plain p) (op : Op τ) : p ≠ .enter op := by
  rintro rfl
  exact h

/-- A call begins in the user's code only. -/
theorem Runs.not_enter (hr : Runs ids w p m m' p') (hp : Proper p) (hidle : p ≠ .idle) (op : Op τ) : p' ≠ .enter op := by
  have hwaiting : ∀ {u : τ} {next : Pc τ ι}, AfterSection next → unlinkWaiting u next m ≠ .enter op := by
    intro u next hnext
    unfold unlinkWaiting
    split
    · rintro rfl
      exact hnext
    · exact nofun
  cases hr with
  | reads hg =>
    cases hg with
    | enters he => cases he <;> exact nofun
    | killed hk => exact hk.plain.not_enter op
    | remove u next => exact hwaiting hp
    | pendUnlink => exact hwaiting trivial
    | restartSome => exact hwaiting trivial
    | foreign next => exact Plain.not_enter (p := p') hp op
    | kept next => exact Plain.not_enter (p := p') hp op
    | nobody u next => exact Plain.not_enter (p := p') hp op
    | calls op => exact absurd rfl hidle
    | _ => exact nofun
  | counted next =>
    split
    · exact nofun
    · exact Plain.not_enter (p := next) hp op
  | cleared next => exact Plain.not_enter (p := p') hp op
  | freed next => exact Plain.not_enter (p := p') hp op
  | created hc => cases hc <;> exact nofun
  | notCreated hc => cases hc <;> exact nofun
  | cancels hc => cases hc <;> exact nofun
  | joins hj => cases hj <;> exact nofun
  | protects count hc => cases hc <;> exact nofun
  | cleaned hc => cases hc <;> exact nofun
  | _ => exact nofun

theorem next_not_enter (h : (code (ι := ι) ids w p).Next p') (hp : Proper p) (op : Op τ) : p' ≠ .enter op := by
  cases p <;> simp only [code, Instr.Next] at h
  case pendWait self u =>
    obtain ⟨_, rfl⟩ := h
    rintro ⟨⟩
  case notifyWait u next =>
    obtain ⟨_, rfl⟩ := h
    rintro ⟨⟩
  all_goals subst h
  case deleteTunlock tid self u deletable =>
    split
    · rintro ⟨⟩
    · split <;> rintro ⟨⟩
  case listUnlock =>
    rintro rfl
    exact hp
  case notifyDunlock => exact Plain.not_enter (p := p') hp op
  case notifyKilled => exact Plain.not_enter (p := p') hp op
  all_goals rintro ⟨⟩

/-- A thread in a call: it is going to exit, or its books are in order. -/
structure InCall (w : θ) (d : ℕ) (op : Op τ) (l : List (LifeTransition θ τ ι)) (s : LifeState θ τ ι) : Prop where
  books : doomed (s.ctl w).point = true ∨ Ledger w d l s
  op : ∀ op', (s.ctl w).point = .enter op' → op' = op

theorem inCall_step {op : Op τ} (h : InCall w d op l s) (hlock : LockState s.mem s.ctl) (hs : Step (code ids) t s s')
    (hidle : s.ctl w ≠ .awake .idle) (hself : endsItself w ⟨s, t, s'⟩ = false) (hnull : ∀ pri, op ≠ .taskInit none pri 0) :
    InCall w d op (⟨s, t, s'⟩ :: l) s' := by
  by_cases ht : t = w
  · subst ht
    have hproper := hlock.proper t
    have hpoint : (s.ctl t).point ≠ .idle := by
      intro he
      refine hidle ?_
      rw [← he]
      exact awake_of_point hs (by rw [he]; exact nofun)
    obtain ⟨hm, hblock, hstep⟩ | ⟨p, p', hp, hp', hr, _⟩ := step_cases hs
    · refine ⟨?_, fun op' he => ?_⟩
      · obtain hd | hledger := h.books
        · obtain heq | hnext := hstep
          · exact .inl (by rwa [heq])
          · exact .inl (next_doomed hnext hd)
        · exact hledger.sync hproper hs hpoint hm hblock hstep
      · obtain heq | hnext := hstep
        · exact h.op op' (by rw [← heq, he])
        · exact absurd he (next_not_enter hnext hproper op')
    · rw [hp, Ctl.point_awake] at hproper hpoint
      refine ⟨?_, fun op' he => ?_⟩
      · rw [hp', Ctl.point_awake]
        have hgone : p ≠ .gone := by
          rintro rfl
          simp [endsItself, hp] at hself
        obtain hd | hledger := h.books
        · rw [hp, Ctl.point_awake] at hd
          exact .inl (hr.doomed hgone hd)
        · cases hd : doomed p with
          | true => exact .inl (hr.doomed hgone hd)
          | false =>
            refine hledger.runs hlock hp hp' hr hpoint hd hself fun pri he => hnull pri ?_
            exact (h.op _ (by rw [hp, he]; rfl)).symm
      · rw [hp'] at he
        exact absurd he (hr.not_enter hproper hpoint op')
  · have hctl := hs.ctl_other (Ne.symm ht)
    have hdepth : s'.mem.depth w = s.mem.depth w := by
      obtain ⟨hm, _⟩ | ⟨p, p', hp, _, hr, _⟩ := step_cases hs
      · rw [hm]
      · refine hr.depth_other (Ne.symm ht) fun hc => (hlock.clears t ?_).1
        rwa [hp]
    refine ⟨h.books.imp (fun hd => by rwa [hctl]) fun hledger => hledger.other ht hctl hdepth, fun op' he => ?_⟩
    rw [hctl] at he
    exact h.op op' he

end

end V2lin.Lifecycle
