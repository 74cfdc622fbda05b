import V2lin.Threads.Locks
import Mathlib.Data.Nat.Notation

/-! The scheduler lock as it is made: a flag and a counter under a mutex.

`taskLock` takes the flag if it is free or the caller's already and else waits for a
change; `taskUnlock` counts down and gives the flag up at zero, with `task_list_lock`
taken in between to restore the caller's priority; a thread that ends resets both. The
reading of the flag and each of the writes that follow are instructions of their own, so
what makes them one action is `v2pthread_task_lock` alone.

The priorities that are raised and restored under `task_list_lock` are no part of the
model, nor is `waiting_m`, which only `taskShow` prints. A thread that is killed inside
`taskLock` dies in its wait or at the `pthread_testcancel` that ends a turn of the loop; the
handler that it has pushed unlocks `v2pthread_task_lock`, and its cleanup resets the
scheduler lock. At the `pthread_testcancel` the mutex has been unlocked already, so that the
handler unlocks it once more, whoever has it by then. -/
namespace V2lin.Sched
open Threads

inductive Lock where
  /-- `v2pthread_task_lock`. -/
  | taskLock
  | taskListLock
  deriving DecidableEq

inductive Cond where
  | taskLockChange
  deriving DecidableEq

inductive Op where
  | taskLock
  | taskUnlock
  | cleanup
  deriving DecidableEq

inductive Pc where
  | idle
  -- `taskLock`
  | lockAcquire
  | lockTest
  | lockOwn
  | lockCount
  | lockNotify
  | lockWait
  | lockWoken
  /-- `gotLock`: the loop ends here. -/
  | lockRelease (gotLock : Bool)
  | lockTestcancel (gotLock : Bool)
  | lockCancelled (gotLock : Bool)
  | lockListAcquire
  | lockListRelease
  | lockKilled
  -- `taskUnlock`
  | unlockAcquire
  | unlockTest
  | unlockCount
  | unlockListAcquire
  | unlockListRelease
  | unlockClear
  | unlockNotify
  | unlockRelease
  -- `task_wrapper_cleanup`
  | cleanAcquire
  | cleanTest
  | cleanReset
  | cleanClear
  | cleanRelease
  deriving DecidableEq

/-- What the outside decides: the next call of an idle thread, whether a thread is killed
where it can be. -/
inductive Choice where
  | none
  | call (op : Op)
  | kill
  deriving DecidableEq

structure Mem (θ : Type) where
  locker : Option θ
  taskLockLevel : ℕ

def entry : Op → Pc
  | .taskLock => .lockAcquire
  | .taskUnlock => .unlockAcquire
  | .cleanup => .cleanAcquire

/-- `taskLock_level++` on an unsigned long that ends at `ulongMax`, taken back if it has
wrapped to zero. -/
def countUp (ulongMax level : ℕ) : ℕ :=
  let level := (level + 1) % (ulongMax + 1)
  if level = 0 then ulongMax else level

/-- `if (taskLock_level > 0L) taskLock_level--`. -/
def countDown (level : ℕ) : ℕ := if level > 0 then level - 1 else level

section
variable {θ : Type} [DecidableEq θ]

def callBlock (choice : Choice) (m : Mem θ) : Option (Mem θ × Pc) :=
  match choice with
  | .call op => some (m, entry op)
  | _ => none

/-- The three functions, on a machine whose unsigned long ends at `ulongMax`. -/
def code (ulongMax : ℕ) (t : θ) : Pc → Instr (Mem θ) Lock Cond Pc Choice
  | .idle => .run callBlock
  | .lockAcquire => .lock .taskLock .lockTest
  | .lockTest => .run fun _ m =>
      some (m, if m.locker = none ∨ m.locker = some t then .lockOwn else .lockWait)
  | .lockOwn => .run fun _ m => some ({m with locker := some t}, .lockCount)
  | .lockCount => .run fun _ m => some ({m with taskLockLevel := countUp ulongMax m.taskLockLevel}, .lockNotify)
  | .lockNotify => .broadcast .taskLockChange (.lockRelease true)
  | .lockWait => .wait .taskLockChange .taskLock false (fun _ => .lockWoken)
  | .lockWoken => .run fun choice m => some (m, if choice = .kill then .lockKilled else .lockRelease false)
  | .lockRelease gotLock => .unlock .taskLock (.lockTestcancel gotLock)
  | .lockTestcancel gotLock => .run fun choice m => some (m,
      if choice = .kill then .lockCancelled gotLock else if gotLock = true then .lockListAcquire else .lockAcquire)
  | .lockCancelled _ => .unlock .taskLock .cleanAcquire
  | .lockListAcquire => .lock .taskListLock .lockListRelease
  | .lockListRelease => .unlock .taskListLock .idle
  | .lockKilled => .unlock .taskLock .cleanAcquire
  | .unlockAcquire => .lock .taskLock .unlockTest
  | .unlockTest => .run fun _ m => some (m, if m.locker = some t then .unlockCount else .unlockRelease)
  | .unlockCount => .run fun _ m =>
      let level := countDown m.taskLockLevel
      some ({m with taskLockLevel := level}, if level < 1 then .unlockListAcquire else .unlockRelease)
  | .unlockListAcquire => .lock .taskListLock .unlockListRelease
  | .unlockListRelease => .unlock .taskListLock .unlockClear
  | .unlockClear => .run fun _ m => some ({m with locker := none}, .unlockNotify)
  | .unlockNotify => .broadcast .taskLockChange .unlockRelease
  | .unlockRelease => .unlock .taskLock .idle
  | .cleanAcquire => .lock .taskLock .cleanTest
  | .cleanTest => .run fun _ m => some (m, if m.locker = some t then .cleanReset else .cleanRelease)
  | .cleanReset => .run fun _ m => some ({m with taskLockLevel := 0}, .cleanClear)
  | .cleanClear => .run fun _ m => some ({m with locker := none}, .cleanRelease)
  | .cleanRelease => .unlock .taskLock .idle

abbrev SchedState (θ : Type) := State θ (Mem θ) Lock Cond Pc

abbrev SchedTransition (θ : Type) := Transition θ (Mem θ) Lock Cond Pc

/-- The scheduler is not locked, and no thread is in one of the functions. -/
structure Initial (s : SchedState θ) : Prop where
  locker : s.mem.locker = none
  level : s.mem.taskLockLevel = 0
  owner : ∀ m, s.owner m = none
  idle : ∀ t, s.ctl t = .awake .idle

/-- The initial state. -/
def boot : SchedState θ where
  mem := ⟨none, 0⟩
  owner := fun _ => none
  signals := fun _ => 0
  ctl := fun _ => .awake .idle

omit [DecidableEq θ] in
theorem boot_initial : Initial (boot : SchedState θ) := ⟨rfl, rfl, fun _ => rfl, fun _ => rfl⟩

def calls (t : θ) (op : Op) : θ × Input Choice := (t, {choice := .call op})

/-- Thread `t` goes on for `n` steps. -/
def goesOn (t : θ) (n : ℕ) : List (θ × Input Choice) := List.replicate n (t, {choice := .none})

/-! ### The blocks -/

/-- The straight-line code, one constructor for each way through it. -/
inductive Runs (ulongMax : ℕ) (t : θ) : Pc → Mem θ → Mem θ → Pc → Prop where
  | called {m} (op : Op) : Runs ulongMax t .idle m m (entry op)
  | admitted {m} : m.locker = none ∨ m.locker = some t → Runs ulongMax t .lockTest m m .lockOwn
  | barred {m} : ¬ (m.locker = none ∨ m.locker = some t) → Runs ulongMax t .lockTest m m .lockWait
  | taken {m} : Runs ulongMax t .lockOwn m {m with locker := some t} .lockCount
  | locked {m} : Runs ulongMax t .lockCount m {m with taskLockLevel := countUp ulongMax m.taskLockLevel} .lockNotify
  | again {m} : Runs ulongMax t .lockWoken m m (.lockRelease false)
  | killed {m} : Runs ulongMax t .lockWoken m m .lockKilled
  | goesOn {m} (gotLock : Bool) :
      Runs ulongMax t (.lockTestcancel gotLock) m m (if gotLock = true then .lockListAcquire else .lockAcquire)
  | cancelled {m} (gotLock) : Runs ulongMax t (.lockTestcancel gotLock) m m (.lockCancelled gotLock)
  | mine {m} : m.locker = some t → Runs ulongMax t .unlockTest m m .unlockCount
  | foreign {m} : m.locker ≠ some t → Runs ulongMax t .unlockTest m m .unlockRelease
  | counted {m} : Runs ulongMax t .unlockCount m {m with taskLockLevel := countDown m.taskLockLevel}
      (if countDown m.taskLockLevel < 1 then .unlockListAcquire else .unlockRelease)
  | cleared {m} : Runs ulongMax t .unlockClear m {m with locker := none} .unlockNotify
  | owned {m} : m.locker = some t → Runs ulongMax t .cleanTest m m .cleanReset
  | unowned {m} : m.locker ≠ some t → Runs ulongMax t .cleanTest m m .cleanRelease
  | reset {m} : Runs ulongMax t .cleanReset m {m with taskLockLevel := 0} .cleanClear
  | abandoned {m} : Runs ulongMax t .cleanClear m {m with locker := none} .cleanRelease

variable {ulongMax : ℕ} {t : θ}

theorem block_runs {p p' : Pc} {block : Choice → Mem θ → Option (Mem θ × Pc)} {c : Choice} {m m' : Mem θ}
    (hi : code ulongMax t p = .run block) (h : block c m = some (m', p')) : Runs ulongMax t p m m' p' := by
  cases p <;> simp only [code, Instr.run.injEq, reduceCtorEq] at hi <;> subst hi
  case idle =>
    cases c with
    | call op =>
      cases h
      exact .called op
    | _ => cases h
  case lockTest =>
    cases h
    split
    · exact .admitted (by assumption)
    · exact .barred (by assumption)
  case lockOwn =>
    cases h
    exact .taken
  case lockCount =>
    cases h
    exact .locked
  case lockWoken =>
    cases h
    split
    · exact .killed
    · exact .again
  case lockTestcancel gotLock =>
    cases h
    split
    · exact .cancelled gotLock
    · exact .goesOn gotLock
  case unlockTest =>
    cases h
    split
    · exact .mine (by assumption)
    · exact .foreign (by assumption)
  case unlockCount =>
    cases h
    exact .counted
  case unlockClear =>
    cases h
    exact .cleared
  case cleanTest =>
    cases h
    split
    · exact .owned (by assumption)
    · exact .unowned (by assumption)
  case cleanReset =>
    cases h
    exact .reset
  case cleanClear =>
    cases h
    exact .abandoned

/-- A step runs a block, or it leaves the flag and the counter alone. -/
theorem step_cases {s s' : SchedState θ} (h : Step (code ulongMax) t s s') :
    (s'.mem = s.mem ∧ (∀ block, code ulongMax t (s.ctl t).point ≠ .run block) ∧
      ((s'.ctl t).point = (s.ctl t).point ∨ (code ulongMax t (s.ctl t).point).Next (s'.ctl t).point)) ∨
    ∃ p p', s.ctl t = .awake p ∧ s'.ctl t = .awake p' ∧ Runs ulongMax t p s.mem s'.mem p' := by
  obtain hq | ⟨p, block, c, p', hp, hi, hb, hp', _⟩ := h.sync_or_block
  · exact .inl hq
  · exact .inr ⟨p, p', hp, hp', block_runs hi hb⟩

/-! ### The mutex -/

/-- The mutexes held at a point. -/
def held : Pc → List Lock
  | .lockTest | .lockOwn | .lockCount | .lockNotify | .lockWait | .lockWoken => [.taskLock]
  | .lockRelease _ | .lockKilled => [.taskLock]
  | .lockListRelease => [.taskListLock]
  | .unlockTest | .unlockCount | .unlockListAcquire => [.taskLock]
  | .unlockListRelease => [.taskLock, .taskListLock]
  | .unlockClear | .unlockNotify | .unlockRelease => [.taskLock]
  | .cleanTest | .cleanReset | .cleanClear | .cleanRelease => [.taskLock]
  | _ => []

omit [DecidableEq θ] in
theorem Runs.held_eq {p p' : Pc} {m m' : Mem θ} (h : Runs ulongMax t p m m' p') : held p' = held p := by
  cases h with
  | called op => cases op <;> rfl
  | counted => split <;> rfl
  | goesOn => split <;> rfl
  | _ => rfl

/-- The second unlocking of `v2pthread_task_lock` by a thread that is killed at the end of a
turn does no harm, for nobody has it then. -/
def Harmless (x : SchedTransition θ) : Prop :=
  ∀ gotLock, x.pre.ctl x.thread = .awake (.lockCancelled gotLock) → x.pre.owner .taskLock = none

/-- The code without the second unlocking. -/
def tidy (ulongMax : ℕ) (t : θ) : Pc → Instr (Mem θ) Lock Cond Pc Choice
  | .lockCancelled _ => .run fun _ m => some (m, .cleanAcquire)
  | p => code ulongMax t p

theorem tidy_cases (ulongMax : ℕ) (t : θ) (p : Pc) :
    (∃ gotLock, p = .lockCancelled gotLock) ∨ tidy ulongMax t p = code ulongMax t p := by
  cases p
  case lockCancelled gotLock => exact .inl ⟨gotLock, rfl⟩
  all_goals exact .inr rfl

theorem tidy_step {s s' : SchedState θ} (h : Step (code ulongMax) t s s') (hc : Harmless ⟨s, t, s'⟩) :
    Step (tidy ulongMax) t s s' := by
  obtain ⟨gotLock, hpoint⟩ | hsame := tidy_cases ulongMax t (s.ctl t).point
  · cases hp : s.ctl t with
    | awake p =>
      rw [hp, Ctl.point_awake] at hpoint
      subst hpoint
      have hd := h.does hp
      simp only [code, Instr.Does] at hd
      have hfree : Function.update s.owner .taskLock none = s.owner :=
        (hc gotLock hp).symm ▸ Function.update_eq_self ..
      rw [hfree] at hd
      rw [hd]
      exact Step.run (x := .none) hp rfl rfl
    | asleep p n =>
      rw [hp, Ctl.point_asleep] at hpoint
      subst hpoint
      exact (h.wakes hp).elim
  · exact h.congr hsame

theorem tidy_run {tr : List (SchedTransition θ)} {s : SchedState θ} (h : Run (code ulongMax) Initial tr s)
    (hc : ∀ x ∈ tr, Harmless x) : Run (tidy ulongMax) Initial tr s := by
  induction h with
  | start hi => exact .start hi
  | step _ hs ih =>
    exact .step (ih fun x hx => hc x (List.mem_cons_of_mem _ hx)) (tidy_step hs (hc _ (List.mem_cons_self ..)))

/-- What is held changes with the locking instructions as `held` says. -/
theorem guarded (lock : Lock) : Guarded (tidy ulongMax : θ → _) held lock := by
  intro t p
  by_cases hr : ∃ block, code ulongMax t p = .run block
  · obtain ⟨block, hi⟩ := hr
    have hsame : tidy ulongMax t p = code ulongMax t p :=
      (tidy_cases ulongMax t p).resolve_left fun ⟨_, he⟩ => by rw [he] at hi; cases hi
    rw [hsame, hi]
    intro c v v' p' hb hl
    exact (block_runs hi hb).held_eq ▸ hl
  · cases p
    case lockCancelled gotLock =>
      intro c v v' p' hb hl
      cases hb
      cases hl
    all_goals first
      | exact absurd ⟨_, rfl⟩ hr
      | (cases lock <;> simp [tidy, code, Instr.Tracked, held])

/-- What is claimed does not depend on the second unlocking. -/
theorem claims_tidy {s : SchedState θ} {lock : Lock} (h : Claims (code ulongMax) held s t lock) :
    Claims (tidy ulongMax) held s t lock := by
  cases hp : s.ctl t with
  | awake p => exact (claims_awake hp).mpr ((claims_awake hp).mp h)
  | asleep p n =>
    obtain ⟨hin, hwait⟩ := (claims_asleep hp).mp h
    refine (claims_asleep hp).mpr ⟨hin, ?_⟩
    obtain ⟨gotLock, rfl⟩ | hsame := tidy_cases ulongMax t p
    · cases hin
    · rwa [hsame]

theorem owned {tr : List (SchedTransition θ)} {s : SchedState θ} (h : Run (code ulongMax) Initial tr s)
    (hc : ∀ x ∈ tr, Harmless x) (lock : Lock) : Owned (code ulongMax) held lock s := by
  have htidy : Owned (tidy ulongMax) held lock s := by
    refine (guarded lock).owned (fun s hs t hc => ?_) (tidy_run h hc)
    rw [claims_awake (hs.idle t)] at hc
    cases hc
  exact fun t ht => htidy t (claims_tidy ht)

end

end V2lin.Sched
