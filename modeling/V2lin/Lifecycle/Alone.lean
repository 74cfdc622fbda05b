import V2lin.Lifecycle.Steps
import Mathlib.Logic.Relation

/-! Calls that nobody disturbs.

A call of one thread, made while the others stand still, is a function on the memory. The
scheduler lock is what every call here begins and ends with: `taskLock` raises the caller's
priority in its attributes, and the outermost `taskUnlock` puts its own back. -/
namespace V2lin.Lifecycle
open Threads V2lin.Task V2lin.TaskLib

/-! ### Codes -/

/-- `OK` -/
def ok : ℤ := 0

/-- `ERROR` -/
def error : ℤ := -1

/-- `S_taskLib_ILLEGAL_PRIORITY` -/
def illegalPriority : ℤ := 0x00030065

/-- `S_memLib_NOT_ENOUGH_MEMORY` -/
def notEnoughMemory : ℤ := 0x00110001

/-- `S_objLib_OBJ_ID_ERROR` -/
def objIdError : ℤ := 0x003d0001

section
variable {θ τ ι : Type} [DecidableEq θ] [DecidableEq τ] [DecidableEq ι]

/-! ### Taking and giving the scheduler lock -/

/-- `taskLock` in thread `t`. -/
def taskLock (ids : τ → ℤ) (t : θ) (m : Mem θ τ ι) : Option (Mem θ τ ι) :=
  (m.myTask t).bind fun task =>
    if m.locker = none ∨ m.locker = some t then
      (Edit.raise task).run ids t {m with locker := some t, taskLockLevel := Sched.countUp ulongMax m.taskLockLevel}
    else none

/-- `taskUnlock` in thread `t`. -/
def taskUnlock (ids : τ → ℤ) (t : θ) (m : Mem θ τ ι) : Option (Mem θ τ ι) :=
  if m.locker = some t then
    let level := Sched.countDown m.taskLockLevel
    let m := {m with taskLockLevel := level}
    if level < 1 then (Edit.restore.run ids t m).map fun m => {m with locker := none} else some m
  else some m

/-- The caller's priority in its attributes. -/
def Mem.setOwn (m : Mem θ τ ι) (task : Option τ) (priority : τ → ℤ) : Mem θ τ ι :=
  match task with
  | none => m
  | some u => m.setTcb u {m.tcb u with attr := {(m.tcb u).attr with schedPriority := priority u}}

/-- A `taskLock` now would be the outermost. -/
def Mem.outermost (m : Mem θ τ ι) : Prop := Sched.countDown (Sched.countUp ulongMax m.taskLockLevel) < 1

instance (m : Mem θ τ ι) : Decidable m.outermost := inferInstanceAs (Decidable (_ < _))

/-- The lists and the identities of the tasks are the same: every walk finds the same task. -/
structure SameWalks (m m' : Mem θ τ ι) : Prop where
  taskList : m'.taskList = m.taskList
  looped : m'.looped = m.looped
  pthrid : ∀ v, (m'.tcb v).pthrid = (m.tcb v).pthrid
  taskid : ∀ v, (m'.tcb v).taskid = (m.tcb v).taskid

variable {ids : τ → ℤ} {t : θ} {tid : ℤ} {m m' m'' : Mem θ τ ι} {task : Option τ} {u v : τ}

omit [DecidableEq τ] [DecidableEq ι] in
theorem SameWalks.myTask (h : SameWalks m m') (t : θ) : m'.myTask t = m.myTask t := by
  simp only [Mem.myTask, Mem.search, h.taskList, h.looped, h.pthrid]

omit [DecidableEq τ] [DecidableEq ι] in
theorem SameWalks.taskFor (h : SameWalks m m') (t : θ) (tid : ℤ) : m'.taskFor t tid = m.taskFor t tid := by
  simp only [Mem.taskFor, h.myTask, Mem.search, h.taskList, h.looped, h.taskid]

omit [DecidableEq θ] [DecidableEq τ] [DecidableEq ι] in
theorem SameWalks.trans (h : SameWalks m m') (h' : SameWalks m' m'') : SameWalks m m'' :=
  ⟨h'.taskList.trans h.taskList, h'.looped.trans h.looped, fun v => (h'.pthrid v).trans (h.pthrid v),
    fun v => (h'.taskid v).trans (h.taskid v)⟩

omit [DecidableEq θ] [DecidableEq ι] in
/-- Storing a control block of the same identity changes no walk. -/
theorem sameWalks_setTcb {b : Tcb θ τ ι} (hpthrid : b.pthrid = (m.tcb u).pthrid) (htaskid : b.taskid = (m.tcb u).taskid) :
    SameWalks m (m.setTcb u b) :=
  ⟨rfl, rfl, Mem.setTcb_congr Tcb.pthrid m hpthrid, Mem.setTcb_congr Tcb.taskid m htaskid⟩

omit [DecidableEq θ] [DecidableEq ι] in
theorem sameWalks_setOwn (m : Mem θ τ ι) (task : Option τ) (priority : τ → ℤ) : SameWalks m (m.setOwn task priority) := by
  cases task with
  | none => exact ⟨rfl, rfl, fun _ => rfl, fun _ => rfl⟩
  | some u => exact sameWalks_setTcb rfl rfl

omit [DecidableEq θ] [DecidableEq ι] in
@[simp] theorem setOwn_locker (m : Mem θ τ ι) (task : Option τ) (priority : τ → ℤ) :
    (m.setOwn task priority).locker = m.locker := by
  cases task <;> rfl

omit [DecidableEq θ] [DecidableEq ι] in
@[simp] theorem setOwn_level (m : Mem θ τ ι) (task : Option τ) (priority : τ → ℤ) :
    (m.setOwn task priority).taskLockLevel = m.taskLockLevel := by
  cases task <;> rfl

omit [DecidableEq θ] [DecidableEq ι] in
theorem setOwn_other (h : task ≠ some v) (priority : τ → ℤ) : (m.setOwn task priority).tcb v = m.tcb v := by
  cases task with
  | none => rfl
  | some u => exact Mem.setTcb_of_ne m _ fun hv => h (by rw [hv])

omit [DecidableEq θ] [DecidableEq ι] in
theorem setOwn_self (m : Mem θ τ ι) (v : τ) (priority : τ → ℤ) : (m.setOwn (some v) priority).tcb v =
    {m.tcb v with attr := {(m.tcb v).attr with schedPriority := priority v}} :=
  Mem.setTcb_self ..

omit [DecidableEq θ] [DecidableEq ι] in
theorem setOwn_tcb (m : Mem θ τ ι) (task : Option τ) (priority : τ → ℤ) (v : τ) : (m.setOwn task priority).tcb v =
    {m.tcb v with attr :=
      {(m.tcb v).attr with schedPriority := if task = some v then priority v else (m.tcb v).attr.schedPriority}} := by
  by_cases hv : task = some v
  · subst hv
    rw [setOwn_self, if_pos rfl]
  · rw [setOwn_other hv, if_neg hv]

/-! ### The scheduler lock -/

/-- The memory after the `taskLock` of thread `t`, whose task is `task`. -/
def Mem.raised (m : Mem θ τ ι) (t : θ) (task : Option τ) : Mem θ τ ι :=
  Mem.setOwn {m with locker := some t, taskLockLevel := Sched.countUp ulongMax m.taskLockLevel} task
    fun _ => schedGetPriorityMax

omit [DecidableEq θ] [DecidableEq ι] in
@[simp] theorem raised_level (m : Mem θ τ ι) (t : θ) (task : Option τ) :
    (m.raised t task).taskLockLevel = Sched.countUp ulongMax m.taskLockLevel :=
  setOwn_level ..

omit [DecidableEq θ] [DecidableEq ι] in
theorem raised_tcb (m : Mem θ τ ι) (t : θ) (task : Option τ) (v : τ) : (m.raised t task).tcb v =
    {m.tcb v with attr :=
      {(m.tcb v).attr with schedPriority := if task = some v then schedGetPriorityMax else (m.tcb v).attr.schedPriority}} :=
  setOwn_tcb ..

/-- `taskLock` gets the lock if it is free or the caller's. -/
theorem taskLock_eq (h : taskLock ids t m = some m') : ∃ task, m.myTask t = some task ∧
    (m.locker = none ∨ m.locker = some t) ∧ m' = m.raised t task := by
  obtain ⟨task, htask, h⟩ := Option.bind_eq_some_iff.mp h
  refine ⟨task, htask, ?_⟩
  split at h
  · rename_i hfree
    refine ⟨hfree, ?_⟩
    cases task <;> exact (Option.some.inj h).symm
  · cases h

theorem taskLock_of (htask : m.myTask t = some task) (hfree : m.locker = none ∨ m.locker = some t) :
    taskLock ids t m = some (m.raised t task) := by
  rw [taskLock, htask, Option.bind_some, if_pos hfree]
  cases task <;> rfl

/-- `taskUnlock` of a thread that has not the lock does nothing. -/
theorem taskUnlock_foreign (h : m.locker ≠ some t) : taskUnlock ids t m = some m := if_neg h

/-- The memory after the `taskUnlock` of the locker, whose task is `task`. -/
def Mem.unlocked (m : Mem θ τ ι) (task : Option τ) : Mem θ τ ι :=
  let level := Sched.countDown m.taskLockLevel
  if level < 1 then
    {(m.setOwn task fun u => (m.tcb u).prvPriority) with locker := none, taskLockLevel := level}
  else {m with taskLockLevel := level}

theorem taskUnlock_eq (h : m.locker = some t) (htask : m.myTask t = some task) :
    taskUnlock ids t m = some (m.unlocked task) := by
  have hsame : Mem.myTask {m with taskLockLevel := Sched.countDown m.taskLockLevel} t = some task := htask
  simp only [taskUnlock, if_pos h, Mem.unlocked]
  split
  · simp only [Edit.run, hsame, Option.map_some]
    cases task <;> rfl
  · rfl

omit [DecidableEq θ] [DecidableEq ι] in
theorem sameWalks_unlocked (m : Mem θ τ ι) (task : Option τ) : SameWalks m (m.unlocked task) := by
  unfold Mem.unlocked
  simp only
  split
  · obtain ⟨hlist, hlooped, hpthrid, htaskid⟩ := sameWalks_setOwn m task fun u => (m.tcb u).prvPriority
    exact ⟨hlist, hlooped, hpthrid, htaskid⟩
  · exact ⟨rfl, rfl, fun _ => rfl, fun _ => rfl⟩

omit [DecidableEq θ] [DecidableEq ι] in
theorem unlocked_tcb (m : Mem θ τ ι) (task : Option τ) (v : τ) : (m.unlocked task).tcb v =
    if Sched.countDown m.taskLockLevel < 1 then (m.setOwn task fun u => (m.tcb u).prvPriority).tcb v else m.tcb v := by
  unfold Mem.unlocked
  simp only
  split <;> rfl

omit [DecidableEq θ] [DecidableEq ι] in
/-- An outermost `taskUnlock` frees the scheduler, another one keeps it. -/
theorem unlocked_locker (m : Mem θ τ ι) (task : Option τ) :
    (m.unlocked task).locker = if Sched.countDown m.taskLockLevel < 1 then none else m.locker := by
  unfold Mem.unlocked
  simp only
  split <;> rfl

/-! ### A section under the scheduler lock -/

/-- The body of a call between its `taskLock` and its `taskUnlock`. -/
def underLock {α : Type} (ids : τ → ℤ) (t : θ) (body : Mem θ τ ι → Option (Mem θ τ ι × α)) (m : Mem θ τ ι) :
    Option (Mem θ τ ι × α) :=
  (taskLock ids t m).bind fun m => (body m).bind fun r => (taskUnlock ids t r.1).map fun m => (m, r.2)

omit [DecidableEq θ] [DecidableEq ι] in
theorem sameWalks_raised (m : Mem θ τ ι) (t : θ) (task : Option τ) : SameWalks m (m.raised t task) := by
  obtain ⟨hlist, hlooped, hpthrid, htaskid⟩ := sameWalks_setOwn
    {m with locker := some t, taskLockLevel := Sched.countUp ulongMax m.taskLockLevel} task fun _ => schedGetPriorityMax
  exact ⟨hlist, hlooped, hpthrid, htaskid⟩

/-- What a body may not change: the scheduler lock and whose task the caller's is. -/
structure KeepsLock (t : θ) (m m' : Mem θ τ ι) : Prop where
  locker : m'.locker = m.locker
  level : m'.taskLockLevel = m.taskLockLevel
  myTask : m'.myTask t = m.myTask t

/-- A call is its body, between a raised memory and an unlocked one. -/
theorem underLock_eq {α : Type} {body : Mem θ τ ι → Option (Mem θ τ ι × α)} {a : α}
    (h : underLock ids t body m = some (m', a))
    (hkeeps : ∀ m₁ m₂ a, body m₁ = some (m₂, a) → KeepsLock t m₁ m₂) :
    ∃ task m₂, m.myTask t = some task ∧ (m.locker = none ∨ m.locker = some t) ∧
      body (m.raised t task) = some (m₂, a) ∧ m' = m₂.unlocked task ∧ KeepsLock t (m.raised t task) m₂ := by
  obtain ⟨m₁, hlock, hrest⟩ := Option.bind_eq_some_iff.mp h
  obtain ⟨⟨m₂, a₂⟩, hbody, hunlock⟩ := Option.bind_eq_some_iff.mp hrest
  obtain ⟨task, htask, hfree, rfl⟩ := taskLock_eq hlock
  have hkeep := hkeeps _ _ _ hbody
  have hlocker : m₂.locker = some t := by
    rw [hkeep.locker]
    exact setOwn_locker ..
  have hmine : m₂.myTask t = some task := by
    rw [hkeep.myTask, ← htask]
    exact (sameWalks_raised m t task).myTask t
  rw [taskUnlock_eq hlocker hmine] at hunlock
  cases hunlock
  exact ⟨task, m₂, htask, hfree, hbody, rfl, hkeep⟩

/-- A call returns if the scheduler is free for it and its body returns. -/
theorem underLock_of {α : Type} {body : Mem θ τ ι → Option (Mem θ τ ι × α)} {a : α} {m₂ : Mem θ τ ι}
    (htask : m.myTask t = some task) (hfree : m.locker = none ∨ m.locker = some t)
    (hbody : body (m.raised t task) = some (m₂, a)) (hkeep : KeepsLock t (m.raised t task) m₂) :
    underLock ids t body m = some (m₂.unlocked task, a) := by
  have hlocker : m₂.locker = some t := by
    rw [hkeep.locker]
    exact setOwn_locker ..
  have hmine : m₂.myTask t = some task := by
    rw [hkeep.myTask, ← htask]
    exact (sameWalks_raised m t task).myTask t
  rw [underLock, taskLock_of htask hfree, Option.bind_some, hbody, Option.bind_some, taskUnlock_eq hlocker hmine,
    Option.map_some]

/-! ### In the machine -/

/-- The state in which thread `t` has come to the point `p`, with the memory `m`. -/
def movedTo (s : LifeState θ τ ι) (t : θ) (m : Mem θ τ ι) (p : Pc τ ι) : LifeState θ τ ι :=
  {s with mem := m, ctl := Function.update s.ctl t (.awake p)}

/-- Thread `t` can go from one point to another by its own steps. -/
def GoesAlone (ids : τ → ℤ) (t : θ) (s : LifeState θ τ ι) (m m' : Mem θ τ ι) (p p' : Pc τ ι) : Prop :=
  Relation.ReflTransGen (Step (code ids) t) (movedTo s t m p) (movedTo s t m' p')

variable {s : LifeState θ τ ι} {p p' next : Pc τ ι}

theorem GoesAlone.trans {p'' : Pc τ ι} (h : GoesAlone ids t s m m' p p') (h' : GoesAlone ids t s m' m'' p' p'') :
    GoesAlone ids t s m m'' p p'' :=
  Relation.ReflTransGen.trans h h'

/-- What a block of the code does. -/
def block (ids : τ → ℤ) (t : θ) (choice : Choice θ τ) (m : Mem θ τ ι) (p : Pc τ ι) : Option (Mem θ τ ι × Pc τ ι) :=
  match code ids t p with
  | .run f => f choice m
  | _ => none

theorem goesAlone_block (choice : Choice θ τ) (h : block ids t choice m p = some (m', p')) : GoesAlone ids t s m m' p p' := by
  unfold block at h
  split at h
  · rename_i f hi
    have hctl : (movedTo s t m p).ctl t = .awake p := Function.update_self ..
    have hstep := Step.run hctl hi (x := choice) h
    simp only [movedTo, Function.update_idem] at hstep
    exact .single hstep
  · cases h

/-- The state in which thread `t` has come to the point `p` and owns `task_list_lock`. -/
def holdingList (s : LifeState θ τ ι) (t : θ) (m : Mem θ τ ι) (p : Pc τ ι) : LifeState θ τ ι :=
  {movedTo s t m p with owner := Function.update s.owner .taskListLock (some t)}

theorem entersList (hfree : s.owner .taskListLock = none) (hi : code ids t p = .lock .taskListLock p') :
    Step (code ids) t (movedTo s t m p) (holdingList s t m p') := by
  have hstep := Step.lock (t := t) (s := movedTo s t m p) Choice.none (Function.update_self ..) hi hfree
  simpa only [holdingList, movedTo, Function.update_idem] using hstep

/-- The rest of a section under `task_list_lock`. -/
theorem leavesList {edit : Edit τ ι} (hfree : s.owner .taskListLock = none) (he : edit.run ids t m = some m') :
    Relation.ReflTransGen (Step (code ids) t) (holdingList s t m (.listEdit edit next)) (movedTo s t m' next) := by
  have hedit : Step (code ids) t (holdingList s t m (.listEdit edit next)) (holdingList s t m' (.listUnlock next)) := by
    have hstep := Step.run (t := t) (x := Choice.none) (s := holdingList s t m (.listEdit edit next))
      (Function.update_self ..) (by rfl : code ids t (.listEdit edit next) = _)
      (by simp only [holdingList, movedTo, he, Option.map_some]; rfl)
    simpa only [holdingList, movedTo, Function.update_idem] using hstep
  have hunlock : Step (code ids) t (holdingList s t m' (.listUnlock next)) (movedTo s t m' next) := by
    have hstep := Step.unlock (t := t) (s := holdingList s t m' (.listUnlock next)) Choice.none
      (Function.update_self ..) (by rfl : code ids t (.listUnlock next) = _)
    have howner : Function.update s.owner Lock.taskListLock none = s.owner := by
      rw [← hfree, Function.update_eq_self]
    simpa only [holdingList, movedTo, Function.update_idem, howner] using hstep
  exact (Relation.ReflTransGen.single hedit).tail hunlock

/-- A section under `task_list_lock`. -/
theorem goesAlone_edit {edit : Edit τ ι} (hfree : s.owner .taskListLock = none) (he : edit.run ids t m = some m') :
    GoesAlone ids t s m m' (.listLock edit next) next :=
  .head (entersList hfree (by rfl)) (leavesList hfree he)

/-- The section of `taskInit`, which begins with the round-robin flag. -/
theorem goesAlone_init {pri : ℤ} (hfree : s.owner .taskListLock = none)
    (he : (Edit.init u pri m.policy).run ids t m = some m') : GoesAlone ids t s m m' (.initLock u pri next) next := by
  have hflag : Step (code ids) t (holdingList s t m (.initFlag u pri next))
      (holdingList s t m (.listEdit (.init u pri m.policy) next)) := by
    have hstep := Step.run (t := t) (x := Choice.none) (s := holdingList s t m (.initFlag u pri next))
      (Function.update_self ..) (by rfl : code ids t (.initFlag u pri next) = _) (by rfl)
    simpa only [holdingList, movedTo, Function.update_idem] using hstep
  exact .head (entersList hfree (by rfl)) (.head hflag (leavesList hfree he))

/-- `taskLock`, if the list is free. -/
theorem goesAlone_taskLock (hfree : s.owner .taskListLock = none) (h : taskLock ids t m = some m') :
    GoesAlone ids t s m m' (.lockFind next) next := by
  obtain ⟨task, htask, h⟩ := Option.bind_eq_some_iff.mp h
  split at h
  · rename_i hlocker
    have hfind : GoesAlone ids t s m m (.lockFind next) (.lockFlag task next) :=
      goesAlone_block .none (by simp only [block, code, found, htask, Option.map_some])
    refine (hfind.trans (goesAlone_block .none ?_)).trans
      (.trans (goesAlone_block (p := .lockTest task next) .none (by rfl)) (goesAlone_edit hfree h))
    simp only [block, code, flagBlock, reduceCtorEq, if_false, if_pos hlocker]
  · cases h

/-- `taskUnlock`, if the list is free. -/
theorem goesAlone_taskUnlock (hfree : s.owner .taskListLock = none) (h : taskUnlock ids t m = some m') :
    GoesAlone ids t s m m' (.unlockCount next) next := by
  unfold taskUnlock at h
  split at h
  · rename_i hlocker
    simp only at h
    split at h
    · rename_i hlast
      obtain ⟨m₁, hrestore, rfl⟩ := Option.map_eq_some_iff.mp h
      refine .trans (goesAlone_block .none ?_)
        ((goesAlone_edit hfree hrestore).trans (goesAlone_block (p := .unlockClear next) .none (by rfl)))
      simp only [block, code, countBlock, if_pos hlocker, if_pos hlast]
    · rename_i hlast
      cases h
      refine goesAlone_block .none ?_
      simp only [block, code, countBlock, if_pos hlocker, if_neg hlast]
  · rename_i hlocker
    cases h
    refine goesAlone_block .none ?_
    simp only [block, code, countBlock, if_neg hlocker]

/-- A call is what its thread does, when it runs alone. -/
theorem goesAlone_underLock {α : Type} {body : Mem θ τ ι → Option (Mem θ τ ι × α)} {a : α}
    (hfree : s.owner .taskListLock = none) (h : underLock ids t body m = some (m', a))
    (hbody : ∀ m₁ m₂, body m₁ = some (m₂, a) → GoesAlone ids t s m₁ m₂ p (.unlockCount next)) :
    GoesAlone ids t s m m' (.lockFind p) next := by
  obtain ⟨m₁, hlock, hrest⟩ := Option.bind_eq_some_iff.mp h
  obtain ⟨⟨m₂, a₂⟩, hb, hunlock⟩ := Option.bind_eq_some_iff.mp hrest
  obtain ⟨m₃, hm₃, heq⟩ := Option.map_eq_some_iff.mp hunlock
  cases heq
  exact ((goesAlone_taskLock hfree hlock).trans (hbody m₁ m₂ hb)).trans (goesAlone_taskUnlock hfree hm₃)

end

end V2lin.Lifecycle
