import V2lin.Lifecycle.Alone
import Mathlib.Data.List.Find

/-! What `taskSpawn` reports.

`taskSpawn` makes a control block, has `taskInit` put it on the list, and has `taskActivate`
create its thread. Whatever has gone wrong before, it ends with a `taskActivate` of the new
identifier, and what that returns becomes `errno`: `ERROR`, not the code of the cause, which
`taskActivate` and `taskInit` have left in `errno` and which is now lost. -/
namespace V2lin.Lifecycle
open Threads V2lin.Task V2lin.TaskLib

/-- `ENOSYS` -/
def enosys : ℤ := 38

/-- The arguments of `taskSpawn`. -/
structure SpawnArgs (φ : Type) where
  name : Option String
  pri : ℤ
  opts : ℤ
  funcptr : φ
  args : Fin 10 → ℤ

/-- The memory with `errno` and with what a control block holds for the thread. -/
structure Env (θ τ ι φ : Type) where
  mem : Mem θ τ ι
  errno : ℤ
  taskname : τ → Option String
  entryPoint : τ → φ
  parms : τ → Fin 10 → ℤ

section
variable {θ τ ι φ : Type} [DecidableEq θ] [DecidableEq τ] [DecidableEq ι]

/-- The end of a call: `if (error != OK) { errno = (int)error; error = ERROR; }`. -/
def Env.report (s : Env θ τ ι φ) (code : ℤ) : Env θ τ ι φ × ℤ :=
  if code ≠ ok then ({s with errno := code}, error) else (s, ok)

/-- `taskInit`, for a control block with nothing in it but what it shares with other calls. -/
def taskInit (ids : τ → ℤ) (task : Option τ) (a : SpawnArgs φ) (s : Env θ τ ι φ) : Option (Env θ τ ι φ × ℤ) :=
  if a.opts ≠ 0 then some ({s with errno := enosys}, enosys)
  else match task with
    | none => some (s.report objIdError)
    | some u =>
      ((s.mem.setTcb u (newTcb ids u a.pri s.mem.policy)).append u (decide (Legal a.pri))).map fun m =>
        Env.report
          { mem := m
            errno := s.errno
            taskname := Function.update s.taskname u a.name
            entryPoint := Function.update s.entryPoint u a.funcptr
            parms := Function.update s.parms u a.args }
          (if Legal a.pri then ok else illegalPriority)

/-- `task_delete` -/
def taskDelete (ids : τ → ℤ) (t : θ) (u : τ) (m : Mem θ τ ι) : Option (Mem θ τ ι) :=
  let unlinked := match (m.tcb u).waiting with
    | none => some m
    | some id => (Edit.unlink id u).run ids t m
  unlinked.bind fun m => (m.takeOff u).map fun m => if (m.tcb u).staticTask = true then m else m.setHeap u .free

/-- `taskActivate` under the scheduler lock. `created` is the thread that `pthread_create`
creates. -/
def activate (ids : τ → ℤ) (t : θ) (created : Option θ) (tid : ℤ) (m : Mem θ τ ι) : Option (Mem θ τ ι × ℤ) :=
  (m.taskFor t tid).bind fun task => match task with
    | none => some (m, objIdError)
    | some u =>
      if (m.tcb u).dead = true then
        let m := m.setTcb u {m.tcb u with pthrid := none, dead := false}
        match created with
        | some w => if (m.pthread w).Vacant then some (m.create u w, ok) else none
        | none => (taskDelete ids t u m).map fun m => (m, notEnoughMemory)
      else some (m, ok)

def taskActivate (ids : τ → ℤ) (t : θ) (created : Option θ) (tid : ℤ) (s : Env θ τ ι φ) : Option (Env θ τ ι φ × ℤ) :=
  (underLock ids t (activate ids t created tid) s.mem).map fun r => {s with mem := r.1}.report r.2

/-- `taskSpawn` as far as to `exit`: the new task, or the freed control block. -/
def spawnInit (ids : τ → ℤ) (u : τ) (myTid : ℤ) (a : SpawnArgs φ) (s : Env θ τ ι φ) : Option (Env θ τ ι φ) :=
  (taskInit ids (some u) {a with name := some (a.name.getD ("t" ++ toString myTid))} s).map fun r =>
    let m := r.1.mem
    {r.1 with mem :=
      if r.2 ≠ ok then m.setHeap u .free else m.setTcb u {m.tcb u with taskid := myTid, staticTask := false}}

/-- The identifier that `new_tid` picks. -/
def Mem.myTid (m : Mem θ τ ι) : ℤ := newTid (m.taskList.map fun v => (m.tcb v).taskid)

/-- `taskSpawn`. The outside gives the address `u` that `ts_malloc` returns, and the thread. -/
def taskSpawn (ids : τ → ℤ) (t : θ) (u : τ) (created : Option θ) (a : SpawnArgs φ) (s : Env θ τ ι φ) :
    Option (Env θ τ ι φ × ℤ) :=
  if s.mem.heap u = .free then
    if s.mem.looped = true then none
    else
      let myTid := s.mem.myTid
      (spawnInit ids u myTid a {s with mem := s.mem.setHeap u .allocated}).bind fun s =>
        (taskActivate ids t created myTid s).map fun r =>
          if r.2 ≠ ok then ({r.1 with errno := r.2}, r.2) else (r.1, myTid)
  else none

/-! ### What is expected -/

/-- Why a call fails. -/
def SpawnArgs.cause (a : SpawnArgs φ) : ℤ :=
  if a.opts ≠ 0 then enosys else if Legal a.pri then notEnoughMemory else illegalPriority

/-- The two memories have the same task `v`. -/
structure SameTask (s s' : Env θ τ ι φ) (v : τ) : Prop where
  tcb : s'.mem.tcb v = s.mem.tcb v
  taskname : s'.taskname v = s.taskname v
  entryPoint : s'.entryPoint v = s.entryPoint v
  parms : s'.parms v = s.parms v

/-- The task that a call has made. -/
structure Spawned (a : SpawnArgs φ) (s' : Env θ τ ι φ) (tid : ℤ) (u : τ) : Prop where
  taskid : (s'.mem.tcb u).taskid = tid
  active : (s'.mem.tcb u).dead = false ∧ (s'.mem.tcb u).pthrid ≠ none
  priority : (s'.mem.tcb u).vxwPriority = a.pri ∧ (s'.mem.tcb u).prvPriority = newPriority a.pri
  entryPoint : s'.entryPoint u = a.funcptr
  parms : s'.parms u = a.args

/-- A call that fails changes no task and reports the cause; one that succeeds appends its task. -/
structure SpawnLaw (a : SpawnArgs φ) (s s' : Env θ τ ι φ) (ret : ℤ) : Prop where
  failed : ret = error → s'.mem.taskList = s.mem.taskList ∧ (∀ v ∈ s.mem.taskList, SameTask s s' v) ∧
    s'.errno = a.cause
  succeeded : ret ≠ error → ∃ u, u ∉ s.mem.taskList ∧ s'.mem.taskList = s.mem.taskList ++ [u] ∧ Spawned a s' ret u

variable {ids : τ → ℤ} {t : θ} {u v : τ} {created : Option θ} {tid ret code : ℤ} {a : SpawnArgs φ} {m m' m'' : Mem θ τ ι}
  {s s' : Env θ τ ι φ}

/-! ### What the scheduler lock leaves alone -/

/-- The memories differ in the lock and in the attributes only. -/
structure OnlyAttr (m m' : Mem θ τ ι) : Prop where
  taskList : m'.taskList = m.taskList
  looped : m'.looped = m.looped
  heap : m'.heap = m.heap
  tcb : ∀ v, m'.tcb v = {m.tcb v with attr := (m'.tcb v).attr}

omit [DecidableEq θ] [DecidableEq ι] in
theorem onlyAttr_setOwn (m : Mem θ τ ι) (task : Option τ) (priority : τ → ℤ) : OnlyAttr m (m.setOwn task priority) := by
  cases task with
  | none => exact ⟨rfl, rfl, rfl, fun _ => rfl⟩
  | some u => exact ⟨rfl, rfl, rfl, fun v => by rw [setOwn_tcb]⟩

theorem taskLock_onlyAttr (h : taskLock ids t m = some m') : OnlyAttr m m' := by
  obtain ⟨task, _, _, rfl⟩ := taskLock_eq h
  obtain ⟨hlist, hlooped, hheap, htcb⟩ := onlyAttr_setOwn
    {m with locker := some t, taskLockLevel := Sched.countUp ulongMax m.taskLockLevel} task fun _ => schedGetPriorityMax
  exact ⟨hlist, hlooped, hheap, htcb⟩

theorem taskUnlock_onlyAttr (h : taskUnlock ids t m = some m') : OnlyAttr m m' := by
  unfold taskUnlock at h
  split at h
  · simp only at h
    split at h
    · obtain ⟨m₁, hrestore, rfl⟩ := Option.map_eq_some_iff.mp h
      obtain ⟨task, _, rfl⟩ := Option.map_eq_some_iff.mp hrestore
      cases task with
      | none => exact ⟨rfl, rfl, rfl, fun _ => rfl⟩
      | some u =>
        refine ⟨rfl, rfl, rfl, fun v => ?_⟩
        by_cases hv : v = u
        · subst hv
          simp
        · simp [hv]
    · cases h
      exact ⟨rfl, rfl, rfl, fun _ => rfl⟩
  · cases h
    exact ⟨rfl, rfl, rfl, fun _ => rfl⟩

/-- A call is its body, up to the lock and the attributes. -/
theorem underLock_onlyAttr {α : Type} {body : Mem θ τ ι → Option (Mem θ τ ι × α)} {r : α}
    (h : underLock ids t body m = some (m', r)) :
    ∃ m₁ m₂, OnlyAttr m m₁ ∧ body m₁ = some (m₂, r) ∧ OnlyAttr m₂ m' := by
  obtain ⟨m₁, hlock, hrest⟩ := Option.bind_eq_some_iff.mp h
  obtain ⟨⟨m₂, r₂⟩, hbody, hunlock⟩ := Option.bind_eq_some_iff.mp hrest
  obtain ⟨m₃, hm₃, heq⟩ := Option.map_eq_some_iff.mp hunlock
  cases heq
  exact ⟨m₁, m₂, taskLock_onlyAttr hlock, hbody, taskUnlock_onlyAttr hm₃⟩

/-! ### `taskActivate` -/

/-- The task `v` has been found and runs. -/
structure Activated (created : Option θ) (tid : ℤ) (m m' : Mem θ τ ι) (v : τ) : Prop where
  found : m.search (fun u => (m.tcb u).taskid = tid) = some (some v)
  taskList : m'.taskList = m.taskList
  other : ∀ u, u ≠ v → m'.tcb u = {m.tcb u with attr := (m'.tcb u).attr}
  started : (m.tcb v).dead = true → ∃ w, created = some w ∧
    m'.tcb v = {m.tcb v with pthrid := some w, dead := false, attr := (m'.tcb v).attr}

/-- There is no task with the identifier, or it gets no thread. -/
def Unstarted (created : Option θ) (tid : ℤ) (m : Mem θ τ ι) : Prop :=
  m.search (fun u => (m.tcb u).taskid = tid) = some none ∨
  ∃ v, m.search (fun u => (m.tcb u).taskid = tid) = some (some v) ∧ (m.tcb v).dead = true ∧ created = none

theorem activate_ends (htid : tid ≠ 0) (h : activate ids t created tid m = some (m', code)) :
    code ≠ ok ∧ Unstarted created tid m ∨ code = ok ∧ ∃ v, Activated created tid m m' v := by
  obtain ⟨task, htask, h⟩ := Option.bind_eq_some_iff.mp h
  rw [Mem.taskFor, if_neg htid] at htask
  cases task with
  | none =>
    cases h
    exact .inl ⟨by decide, .inl htask⟩
  | some v =>
    by_cases hdead : (m.tcb v).dead = true
    · simp only [if_pos hdead] at h
      cases created with
      | none =>
        obtain ⟨m₁, _, heq⟩ := Option.map_eq_some_iff.mp h
        cases heq
        exact .inl ⟨by decide, .inr ⟨v, htask, hdead, rfl⟩⟩
      | some w =>
        simp only at h
        split at h
        · cases h
          refine .inr ⟨rfl, v, htask, rfl, fun u hu => ?_, fun _ => ⟨w, rfl, ?_⟩⟩
          · simp [Mem.create, Mem.setPthread, hu]
          · simp [Mem.create, Mem.setPthread]
        · cases h
    · simp only [if_neg hdead] at h
      cases h
      exact .inr ⟨rfl, v, htask, rfl, fun _ _ => rfl, fun hd => absurd hd hdead⟩

omit [DecidableEq θ] [DecidableEq τ] [DecidableEq ι] in
theorem OnlyAttr.search (h : OnlyAttr m m') (tid : ℤ) :
    m'.search (fun u => (m'.tcb u).taskid = tid) = m.search fun u => (m.tcb u).taskid = tid := by
  have htaskid : ∀ u, (m'.tcb u).taskid = (m.tcb u).taskid := fun u => by rw [h.tcb]
  simp only [Mem.search, h.taskList, h.looped, htaskid]

omit [DecidableEq θ] [DecidableEq τ] [DecidableEq ι] in
theorem OnlyAttr.dead (h : OnlyAttr m m') (v : τ) : (m'.tcb v).dead = (m.tcb v).dead := by
  rw [h.tcb]

omit [DecidableEq θ] [DecidableEq τ] [DecidableEq ι] in
theorem OnlyAttr.unstarted (h : OnlyAttr m m') (hu : Unstarted created tid m') : Unstarted created tid m := by
  unfold Unstarted at hu ⊢
  simpa only [h.search, h.dead] using hu

omit [DecidableEq θ] [DecidableEq τ] [DecidableEq ι] in
theorem OnlyAttr.activated {m₁ m₂ : Mem θ τ ι} (hbefore : OnlyAttr m m₁) (hafter : OnlyAttr m₂ m')
    (h : Activated created tid m₁ m₂ v) : Activated created tid m m' v := by
  refine ⟨(hbefore.search tid).symm.trans h.found, ?_, fun u hu => ?_, fun hdead => ?_⟩
  · rw [hafter.taskList, h.taskList, hbefore.taskList]
  · rw [hafter.tcb u, h.other u hu, hbefore.tcb u]
  · obtain ⟨w, hw, hstarted⟩ := h.started (by rw [hbefore.dead, hdead])
    refine ⟨w, hw, ?_⟩
    rw [hafter.tcb v, hstarted, hbefore.tcb v]

/-- What `taskActivate` returns, and why. -/
theorem taskActivate_ends (htid : tid ≠ 0) (h : taskActivate ids t created tid s = some (s', code)) :
    code = error ∧ Unstarted created tid s.mem ∨
    code = ok ∧ s'.entryPoint = s.entryPoint ∧ s'.parms = s.parms ∧ ∃ v, Activated created tid s.mem s'.mem v := by
  obtain ⟨⟨m', c⟩, hcall, heq⟩ := Option.map_eq_some_iff.mp h
  obtain ⟨m₁, m₂, hbefore, hbody, hafter⟩ := underLock_onlyAttr hcall
  obtain ⟨hc, hunstarted⟩ | ⟨rfl, v, hv⟩ := activate_ends htid hbody
  · simp only [Env.report, if_pos hc] at heq
    cases heq
    exact .inl ⟨rfl, hbefore.unstarted hunstarted⟩
  · cases heq
    exact .inr ⟨rfl, rfl, rfl, v, OnlyAttr.activated hbefore hafter hv⟩

/-! ### `taskInit` -/

omit [DecidableEq θ] [DecidableEq ι] in
theorem append_new (hnew : u ∉ m.taskList) (h : m.append u true = some m') :
    m' = {m with taskList := m.taskList ++ [u]} := by
  rw [Mem.append, if_neg hnew, if_pos rfl] at h
  split at h
  · cases h
  · exact (Option.some.inj h).symm

omit [DecidableEq θ] [DecidableEq ι] in
theorem append_refused (hnew : u ∉ m.taskList) (h : m.append u false = some m') : m' = m := by
  rw [Mem.append, if_neg hnew, if_neg nofun] at h
  exact (Option.some.inj h).symm

/-- What `taskSpawn` has made before it activates the task. -/
inductive Prepared (ids : τ → ℤ) (u : τ) (myTid : ℤ) (a : SpawnArgs φ) (s s' : Env θ τ ι φ) : Prop where
  | refused : ¬ (a.opts = 0 ∧ Legal a.pri) → s'.mem.taskList = s.mem.taskList → Prepared ids u myTid a s s'
  | listed : a.opts = 0 → Legal a.pri → s'.mem.taskList = s.mem.taskList ++ [u] →
      s'.mem.tcb = Function.update s.mem.tcb u {newTcb ids u a.pri s.mem.policy with taskid := myTid, staticTask := false} →
      s'.entryPoint u = a.funcptr → s'.parms u = a.args → Prepared ids u myTid a s s'

omit [DecidableEq θ] [DecidableEq ι] in
theorem spawnInit_prepared (hnew : u ∉ s.mem.taskList) (h : spawnInit ids u tid a s = some s') :
    Prepared ids u tid a s s' := by
  obtain ⟨⟨s₁, code⟩, hinit, rfl⟩ := Option.map_eq_some_iff.mp h
  unfold taskInit at hinit
  split at hinit
  · rename_i hopts
    cases hinit
    exact .refused (fun hlegal => hopts hlegal.1) rfl
  · rename_i hopts
    obtain ⟨m, happend, hreport⟩ := Option.map_eq_some_iff.mp hinit
    by_cases hlegal : Legal a.pri
    · rw [decide_eq_true hlegal] at happend
      have hm := append_new (by exact hnew) happend
      subst hm
      simp only [Env.report, if_pos hlegal] at hreport
      cases hreport
      refine .listed (not_not.mp hopts) hlegal rfl ?_ (Function.update_self ..) (Function.update_self ..)
      simp [Mem.setTcb, Function.update_idem]
    · rw [decide_eq_false hlegal] at happend
      have hm := append_refused (by exact hnew) happend
      subst hm
      simp only [Env.report, if_neg hlegal] at hreport
      cases hreport
      exact .refused (fun hl => hlegal hl.2) rfl

/-! ### `taskSpawn` -/

omit [DecidableEq θ] [DecidableEq τ] [DecidableEq ι] in
theorem myTid_pos (m : Mem θ τ ι) : 1 ≤ m.myTid := (newTid_range _).1

/-- A call prepares its task, and then activates the task that has the new identifier. -/
theorem taskSpawn_ends (hnew : u ∉ s.mem.taskList) (h : taskSpawn ids t u created a s = some (s', ret)) :
    ∃ s₁ : Env θ τ ι φ, Prepared ids u s.mem.myTid a s s₁ ∧
      ((ret = error ∧ s'.errno = error ∧ Unstarted created s.mem.myTid s₁.mem) ∨
      (ret = s.mem.myTid ∧ s'.entryPoint = s₁.entryPoint ∧ s'.parms = s₁.parms ∧
        ∃ v, Activated created s.mem.myTid s₁.mem s'.mem v)) := by
  have htid : s.mem.myTid ≠ 0 := Int.ne_of_gt (myTid_pos s.mem)
  unfold taskSpawn at h
  split at h
  · split at h
    · cases h
    · obtain ⟨s₁, hinit, hrest⟩ := Option.bind_eq_some_iff.mp h
      obtain ⟨⟨s₂, code⟩, hactivate, heq⟩ := Option.map_eq_some_iff.mp hrest
      refine ⟨s₁, ?_, ?_⟩
      · cases spawnInit_prepared (by exact hnew) hinit with
        | refused hbad hlist => exact .refused hbad hlist
        | listed hopts hlegal hlist htcb hentry hparms =>
          exact .listed hopts hlegal hlist htcb hentry hparms
      · obtain ⟨rfl, hunstarted⟩ | ⟨rfl, hentry, hparms, hv⟩ := taskActivate_ends htid hactivate
        · cases heq
          exact .inl ⟨rfl, rfl, hunstarted⟩
        · cases heq
          exact .inr ⟨rfl, hentry, hparms, hv⟩
  · cases h

omit [DecidableEq θ] [DecidableEq ι] in
/-- A walk to the new task ends there, or at a task before it with its identifier. -/
theorem search_new (hnew : u ∉ m.taskList) (hlist : m'.taskList = m.taskList ++ [u])
    {b : Tcb θ τ ι} (htcb : m'.tcb = Function.update m.tcb u b) :
    m'.search (fun v => (m'.tcb v).taskid = b.taskid) =
      some (some ((m.taskList.find? fun v => (m.tcb v).taskid = b.taskid).getD u)) := by
  have hold : m.taskList.find? (fun v => (m'.tcb v).taskid = b.taskid) =
      m.taskList.find? fun v => (m.tcb v).taskid = b.taskid := by
    refine List.find?_congr fun v hv => ?_
    have hne : v ≠ u := fun heq => hnew (heq ▸ hv)
    rw [htcb, Function.update_of_ne hne]
  have hself : decide ((m'.tcb u).taskid = b.taskid) = true := by
    rw [htcb, Function.update_self]
    exact decide_eq_true rfl
  simp only [Mem.search, hlist, List.find?_append, hold, List.find?_singleton, hself, if_true]
  cases m.taskList.find? fun v => (m.tcb v).taskid = b.taskid <;> rfl

omit [DecidableEq θ] [DecidableEq τ] [DecidableEq ι] in
/-- A call that returns `ERROR` has lost the cause. -/
theorem not_law_of_error (hret : ret = error) (herrno : s'.errno = error) : ¬ SpawnLaw a s s' ret := by
  intro hlaw
  have hcause := (hlaw.failed hret).2.2
  rw [herrno, SpawnArgs.cause] at hcause
  split at hcause
  · cases hcause
  · split at hcause <;> cases hcause

omit [DecidableEq θ] [DecidableEq τ] [DecidableEq ι] in
theorem myTid_ne_error (m : Mem θ τ ι) : m.myTid ≠ error := by
  have hpos := myTid_pos m
  unfold error
  omega

section
variable {s₁ : Env θ τ ι φ} (hlist : s₁.mem.taskList = s.mem.taskList ++ [u])
  (htcb : s₁.mem.tcb = Function.update s.mem.tcb u {newTcb ids u a.pri s.mem.policy with taskid := s.mem.myTid, staticTask := false})
include hlist htcb

omit [DecidableEq θ] [DecidableEq ι] in
/-- The call keeps the law if its walk comes to the new task, which gets a thread. -/
theorem law_of_new (hnew : u ∉ s.mem.taskList) (hentry : s'.entryPoint u = a.funcptr) (hparms : s'.parms u = a.args)
    (hv : Activated created s.mem.myTid s₁.mem s'.mem u) : SpawnLaw a s s' s.mem.myTid ∧ created ≠ none := by
  obtain ⟨w, hw, hstarted⟩ := hv.started (by rw [htcb, Function.update_self]; rfl)
  rw [htcb, Function.update_self] at hstarted
  refine ⟨⟨fun herr => absurd herr (myTid_ne_error s.mem), fun _ => ⟨u, hnew, hv.taskList.trans hlist, ?_⟩⟩,
    by rw [hw]; exact nofun⟩
  refine ⟨?_, ⟨?_, ?_⟩, ⟨?_, ?_⟩, hentry, hparms⟩
  · rw [hstarted]
  · rw [hstarted]
  · rw [hstarted]
    exact nofun
  · rw [hstarted]
    rfl
  · rw [hstarted]
    rfl

omit [DecidableEq θ] [DecidableEq ι] in
/-- It does not if the walk comes to another task: the new one does not run. -/
theorem not_law_of_older (hvu : v ≠ u) (hv : Activated created s.mem.myTid s₁.mem s'.mem v) :
    ¬ SpawnLaw a s s' s.mem.myTid := by
  intro hlaw
  obtain ⟨w, _, happend, hspawned⟩ := hlaw.succeeded (myTid_ne_error s.mem)
  rw [hv.taskList, hlist] at happend
  have hwu : w = u := by simpa using happend.symm
  subst hwu
  have hdead := hspawned.active.1
  rw [hv.other w hvu.symm, htcb, Function.update_self] at hdead
  cases hdead

end

/-- When a call of `taskSpawn` keeps the law. -/
theorem taskSpawn_law_iff (hnew : u ∉ s.mem.taskList) (h : taskSpawn ids t u created a s = some (s', ret)) :
    SpawnLaw a s s' ret ↔ a.opts = 0 ∧ Legal a.pri ∧ created ≠ none ∧
      ∀ v ∈ s.mem.taskList, (s.mem.tcb v).taskid ≠ s.mem.myTid := by
  obtain ⟨s₁, hprepared, hends⟩ := taskSpawn_ends hnew h
  cases hprepared with
  | refused hbad hlist =>
    refine iff_of_false ?_ fun hgood => hbad ⟨hgood.1, hgood.2.1⟩
    obtain ⟨hret, herrno, _⟩ | ⟨hret, _, _, v, hv⟩ := hends
    · exact not_law_of_error hret herrno
    · intro hlaw
      obtain ⟨w, _, happend, _⟩ := hlaw.succeeded (by rw [hret]; exact myTid_ne_error s.mem)
      rw [hv.taskList, hlist] at happend
      exact absurd (congrArg List.length happend) (by simp)
  | listed hopts hlegal hlist htcb hentry hparms =>
    have hsearch : s₁.mem.search (fun v => (s₁.mem.tcb v).taskid = s.mem.myTid) =
        some (some ((s.mem.taskList.find? fun v => (s.mem.tcb v).taskid = s.mem.myTid).getD u)) :=
      search_new hnew hlist htcb
    obtain ⟨hret, herrno, hunstarted⟩ | ⟨hret, hentry', hparms', v, hv⟩ := hends
    · refine iff_of_false (not_law_of_error hret herrno) fun hgood => ?_
      obtain hnone | ⟨_, _, _, hcreated⟩ := hunstarted
      · exact absurd (hsearch.symm.trans hnone) (by simp)
      · exact hgood.2.2.1 hcreated
    · have hfound := hsearch.symm.trans hv.found
      simp only [Option.some.injEq] at hfound
      subst hret
      cases hfind : s.mem.taskList.find? (fun w => (s.mem.tcb w).taskid = s.mem.myTid) with
      | none =>
        -- the walk has come to the new task
        rw [hfind, Option.getD_none] at hfound
        subst hfound
        obtain ⟨hlaw, hcreated⟩ := law_of_new hlist htcb hnew (by rw [hentry', hentry]) (by rw [hparms', hparms]) hv
        refine iff_of_true hlaw ⟨hopts, hlegal, hcreated, fun w hw => ?_⟩
        simpa using List.find?_eq_none.mp hfind w hw
      | some w =>
        -- it has come to an older task
        rw [hfind, Option.getD_some] at hfound
        subst hfound
        have hin : w ∈ s.mem.taskList := List.mem_of_find?_eq_some hfind
        have hid : (s.mem.tcb w).taskid = s.mem.myTid := by simpa using List.find?_some hfind
        have hold := not_law_of_older hlist htcb (ne_of_mem_of_not_mem hin hnew) hv
        exact iff_of_false hold fun hgood => hgood.2.2.2 w hin hid

/-! ### In the machine -/

variable {w : LifeState θ τ ι} {next : Pc τ ι}

/-- The list is free, as it is when the others stand still. -/
theorem goesAlone_taskDelete (hfree : w.owner .taskListLock = none) (h : taskDelete ids t u m = some m') :
    GoesAlone ids t w m m' (.remove u next) next := by
  obtain ⟨m₁, hunlink, hrest⟩ := Option.bind_eq_some_iff.mp h
  obtain ⟨m₂, htake, rfl⟩ := Option.map_eq_some_iff.mp hrest
  have hremove : GoesAlone ids t w m₁ m₂ (.listLock (.remove u) (.free u next)) (.free u next) :=
    goesAlone_edit hfree htake
  have hfreed : GoesAlone ids t w m₂ (if (m₂.tcb u).staticTask = true then m₂ else m₂.setHeap u .free) (.free u next) next :=
    goesAlone_block .none (by rfl)
  have hstart : GoesAlone ids t w m m (.remove u next) (unlinkWaiting u (.listLock (.remove u) (.free u next)) m) :=
    goesAlone_block .none (by rfl)
  refine hstart.trans (.trans ?_ (hremove.trans hfreed))
  unfold unlinkWaiting
  cases hwaiting : (m.tcb u).waiting with
  | none =>
    simp only [hwaiting] at hunlink
    cases hunlink
    exact .refl
  | some id =>
    simp only [hwaiting] at hunlink
    exact goesAlone_edit hfree hunlink

theorem goesAlone_activate (hfree : w.owner .taskListLock = none) (h : activate ids t created tid m = some (m', code)) :
    GoesAlone ids t w m m' (.activateFind tid) (.unlockCount .idle) := by
  obtain ⟨task, htask, hrest⟩ := Option.bind_eq_some_iff.mp h
  cases task with
  | none =>
    cases hrest
    exact goesAlone_block .none (by simp only [block, Lifecycle.code, activateBlock, found, htask, Option.map_some])
  | some v =>
    by_cases hdead : (m.tcb v).dead = true
    · simp only [if_pos hdead] at hrest
      have hfind : GoesAlone ids t w m m (.activateFind tid) (.activateCreate v) :=
        goesAlone_block .none (by
          simp only [block, Lifecycle.code, activateBlock, found, htask, Option.map_some, if_pos hdead])
      refine hfind.trans ?_
      cases created with
      | none =>
        obtain ⟨m₁, hdelete, heq⟩ := Option.map_eq_some_iff.mp hrest
        cases heq
        have hfails : GoesAlone ids t w m (m.setTcb v {m.tcb v with pthrid := none, dead := false}) (.activateCreate v)
            (.remove v (.unlockCount .idle)) := goesAlone_block .noThread (by rfl)
        exact hfails.trans (goesAlone_taskDelete hfree hdelete)
      | some x =>
        simp only at hrest
        split at hrest
        · rename_i hvacant
          cases hrest
          exact goesAlone_block (.thread x) (if_pos hvacant)
        · cases hrest
    · simp only [if_neg hdead] at hrest
      cases hrest
      exact goesAlone_block .none (by
        simp only [block, Lifecycle.code, activateBlock, found, htask, Option.map_some, if_neg hdead])

theorem goesAlone_taskActivate (hfree : w.owner .taskListLock = none)
    (h : taskActivate ids t created tid s = some (s', code)) :
    GoesAlone ids t w s.mem s'.mem (.lockFind (.activateFind tid)) .idle := by
  obtain ⟨⟨m', c⟩, hcall, heq⟩ := Option.map_eq_some_iff.mp h
  have hmem : s'.mem = m' := by
    unfold Env.report at heq
    split at heq <;> cases heq <;> rfl
  rw [hmem]
  exact goesAlone_underLock hfree hcall fun _ _ hb => goesAlone_activate hfree hb

theorem goesAlone_spawnInit (hfree : w.owner .taskListLock = none) (hend : s.mem.looped = false)
    (h : spawnInit ids u s.mem.myTid a s = some s') :
    GoesAlone ids t w s.mem s'.mem (.spawnTid u a.pri a.opts) (.lockFind (.activateFind s.mem.myTid)) := by
  obtain ⟨⟨s₁, c⟩, hinit, rfl⟩ := Option.map_eq_some_iff.mp h
  have htid : ∀ p, (if a.opts ≠ 0 then .spawnFree u s.mem.myTid
        else .initLock u a.pri (if Legal a.pri then .spawnName u s.mem.myTid
          else .spawnFree u s.mem.myTid)) = p → GoesAlone ids t w s.mem s.mem (.spawnTid u a.pri a.opts) p := by
    rintro p rfl
    refine goesAlone_block .none ?_
    simp only [block, Lifecycle.code, spawnTidBlock, hend, Bool.false_eq_true, if_false, Mem.myTid]
  have hfreed : ∀ m : Mem θ τ ι, GoesAlone ids t w m (m.setHeap u .free) (.spawnFree u s.mem.myTid)
      (.lockFind (.activateFind s.mem.myTid)) := fun _ => goesAlone_block .none (by rfl)
  unfold taskInit at hinit
  split at hinit
  · rename_i hopts
    cases hinit
    exact (htid _ (if_pos hopts)).trans (hfreed _)
  · rename_i hopts
    obtain ⟨m, happend, hreport⟩ := Option.map_eq_some_iff.mp hinit
    have hstart := htid _ (if_neg hopts)
    by_cases hlegal : Legal a.pri
    · simp only [Env.report, if_pos hlegal] at hreport
      cases hreport
      rw [if_pos hlegal] at hstart
      have hnamed : GoesAlone ids t w m (m.setTcb u {m.tcb u with taskid := s.mem.myTid, staticTask := false})
          (.spawnName u s.mem.myTid) (.lockFind (.activateFind s.mem.myTid)) := goesAlone_block .none (by rfl)
      exact (hstart.trans (goesAlone_init hfree happend)).trans hnamed
    · simp only [Env.report, if_neg hlegal] at hreport
      cases hreport
      rw [if_neg hlegal] at hstart
      exact (hstart.trans (goesAlone_init hfree happend)).trans (hfreed _)

/-- `taskSpawn` is what its thread does in the machine, while the others stand still. -/
theorem goesAlone_taskSpawn (hfree : w.owner .taskListLock = none) (h : taskSpawn ids t u created a s = some (s', ret)) :
    GoesAlone ids t w s.mem s'.mem (.enter (.taskSpawn a.pri a.opts)) .idle := by
  unfold taskSpawn at h
  split at h
  · rename_i hheap
    split at h
    · cases h
    · rename_i hend
      obtain ⟨s₁, hinit, hrest⟩ := Option.bind_eq_some_iff.mp h
      obtain ⟨⟨s₂, c⟩, hactivate, heq⟩ := Option.map_eq_some_iff.mp hrest
      have hmem : s'.mem = s₂.mem := by
        split at heq <;> cases heq <;> rfl
      have hmalloc : GoesAlone ids t w s.mem (s.mem.setHeap u .allocated) (.enter (.taskSpawn a.pri a.opts))
          (.spawnTid u a.pri a.opts) := goesAlone_block (.address u) (if_pos hheap)
      have hprepare := goesAlone_spawnInit (s := {s with mem := s.mem.setHeap u .allocated}) (t := t) hfree
        (eq_false_of_ne_true hend) hinit
      rw [hmem]
      exact (hmalloc.trans hprepare).trans (goesAlone_taskActivate hfree hactivate)
  · cases h

end

/-- The root task runs alone, and the second control block is free. -/
def rootAlone : Env (Fin 2) (Fin 2) (Fin 1) Unit where
  mem := (boot 2 2 1).mem.setHeap 1 .free
  errno := 0
  taskname := fun _ => none
  entryPoint := fun _ => ()
  parms := fun _ _ => 0

/-- The root task spawns a task. -/
theorem root_spawns : ∃ s', taskSpawn (fun u => u.val + 1) 0 1 (some 1) ⟨none, 100, 0, (), fun i => i.val⟩ rootAlone =
    some (s', 2) ∧ SpawnLaw ⟨none, 100, 0, (), fun i => i.val⟩ rootAlone s' 2 := by
  obtain ⟨s', hcall⟩ : ∃ s', taskSpawn (fun u => u.val + 1) 0 1 (some 1) ⟨none, 100, 0, (), fun i => i.val⟩ rootAlone =
    some (s', 2) := ⟨_, rfl⟩
  refine ⟨s', hcall, (taskSpawn_law_iff (by decide) hcall).mpr ⟨rfl, by decide, by decide, ?_⟩⟩
  decide

/-- A priority that is refused leaves `ERROR` in `errno`. -/
theorem spawn_error_lost :
    ¬ ∀ (a : SpawnArgs Unit) (created : Option (Fin 2)) (s' : Env (Fin 2) (Fin 2) (Fin 1) Unit) (ret : ℤ),
      taskSpawn (fun u => u.val + 1) 0 1 created a rootAlone = some (s', ret) → SpawnLaw a rootAlone s' ret := by
  intro hclaim
  obtain ⟨s', hcall, herrno⟩ : ∃ s', taskSpawn (fun u => u.val + 1) 0 1 (some 1) ⟨none, 300, 0, (), fun _ => 0⟩ rootAlone =
    some (s', error) ∧ s'.errno = error := ⟨_, rfl, rfl⟩
  exact not_law_of_error rfl herrno (hclaim _ _ _ _ hcall)

end V2lin.Lifecycle
