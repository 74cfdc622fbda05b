import V2lin.Lifecycle.Alone

/-! What `taskPrioritySet` changes.

`translate_priority` reports an illegal priority and returns a number all the same, and
`taskPrioritySet` stores both before it looks at the report. So a call that fails because
of its priority changes the task, unless the task holds just these values already. What a
call leaves in the attributes of its own task is what every call leaves there: the task's
own priority, or the highest as long as the scheduler stays locked. -/
namespace V2lin.Lifecycle
open Threads V2lin.Task V2lin.TaskLib

section
variable {θ τ ι : Type} [DecidableEq θ] [DecidableEq τ] [DecidableEq ι]

/-- `taskPrioritySet` under the scheduler lock, with its `error`. -/
def setPriority (t : θ) (tid pri : ℤ) (m : Mem θ τ ι) : Option (Mem θ τ ι × ℤ) :=
  (m.taskFor t tid).bind fun task => match task with
    | none => some (m, objIdError)
    | some u =>
      let code := if Legal pri then ok else illegalPriority
      let m := m.setTcb u {m.tcb u with vxwPriority := pri, prvPriority := newPriority pri}
      if tid ≠ 0 then
        (m.myTask t).bind fun self =>
          if self = some u then some (m, code)
          -- `pthread_setschedparam` may refuse the handle, and nobody looks at that
          else some (m.setOwn (some u) fun u => (m.tcb u).prvPriority, code)
      else some (m, code)

/-- `taskPrioritySet`: the code for `errno`, or `ok`. -/
def taskPrioritySet (ids : τ → ℤ) (t : θ) (tid pri : ℤ) (m : Mem θ τ ι) : Option (Mem θ τ ι × ℤ) :=
  underLock ids t (setPriority t tid pri) m

/-- `taskPriorityGet`: the code for `errno`, or `ok` and the priority. -/
def taskPriorityGet (ids : τ → ℤ) (t : θ) (tid : ℤ) (m : Mem θ τ ι) : Option (Mem θ τ ι × Except ℤ ℤ) :=
  underLock ids t (fun m => (m.taskFor t tid).map fun task => match task with
    | none => (m, .error objIdError)
    | some u => (m, .ok (m.tcb u).vxwPriority)) m

/-- `n` calls of `taskUnlock`. -/
def taskUnlocks (ids : τ → ℤ) (t : θ) (m : Mem θ τ ι) : ℕ → Option (Mem θ τ ι)
  | 0 => some m
  | n + 1 => (taskUnlock ids t m).bind fun m => taskUnlocks ids t m n

/-! ### What is expected -/

/-- What the priority of a task is recorded in. -/
def Mem.prio (m : Mem θ τ ι) (v : τ) : ℤ × ℤ × Attr := ((m.tcb v).vxwPriority, (m.tcb v).prvPriority, (m.tcb v).attr)

/-- A successful call: exactly the named task has changed, its priority can be read, and its
attributes have the translated one as soon as the caller has given up the scheduler lock. -/
structure Sets (ids : τ → ℤ) (t : θ) (tid pri : ℤ) (m m' : Mem θ τ ι) : Prop where
  named : ∃ u, m.taskFor t tid = some (some u) ∧ (∀ v, v ≠ u → m'.prio v = m.prio v) ∧
    (m'.tcb u).vxwPriority = pri ∧ (m'.tcb u).prvPriority = newPriority pri ∧
    ∀ n m'', taskUnlocks ids t m' n = some m'' → m''.locker ≠ some t →
      (m''.tcb u).attr.schedPriority = newPriority pri
  get : ∃ m'', taskPriorityGet ids t tid m' = some (m'', .ok pri)

/-- A call that fails changes no priority, and one that succeeds sets the named task's. -/
structure SetLaw (ids : τ → ℤ) (t : θ) (tid pri : ℤ) (m m' : Mem θ τ ι) (code : ℤ) : Prop where
  failed : code ≠ ok → ∀ v, m'.prio v = m.prio v
  succeeded : code = ok → Sets ids t tid pri m m'

/-- What every call leaves in the attributes of its own task is there already. -/
def Settled (t : θ) (m : Mem θ τ ι) : Prop := ∀ v, m.myTask t = some (some v) →
  (m.tcb v).attr.schedPriority = if m.outermost then (m.tcb v).prvPriority else schedGetPriorityMax

/-- The task holds what an illegal priority would store. -/
def Already (t : θ) (pri : ℤ) (m : Mem θ τ ι) (u : τ) : Prop :=
  (m.tcb u).vxwPriority = pri ∧ (m.tcb u).prvPriority = newPriority pri ∧
    (m.myTask t ≠ some (some u) → (m.tcb u).attr.schedPriority = newPriority pri)

variable {ids : τ → ℤ} {t : θ} {tid pri code : ℤ} {m m' m₁ m₂ : Mem θ τ ι} {task : Option τ} {u v : τ}

/-! ### The body -/

/-- The task for which the body has set a priority. -/
def Mem.set (m : Mem θ τ ι) (pri : ℤ) (u : τ) : Mem θ τ ι :=
  m.setTcb u {m.tcb u with vxwPriority := pri, prvPriority := newPriority pri}

omit [DecidableEq θ] [DecidableEq ι] in
theorem sameWalks_set (m : Mem θ τ ι) (pri : ℤ) (u : τ) : SameWalks m (m.set pri u) := sameWalks_setTcb rfl rfl

/-- The three ways through `taskPrioritySet`. -/
inductive SetEnd (t : θ) (tid pri : ℤ) (m : Mem θ τ ι) : Mem θ τ ι → ℤ → Prop where
  | unknown : m.taskFor t tid = some none → SetEnd t tid pri m m objIdError
  | own {w : τ} : m.taskFor t tid = some (some w) → m.myTask t = some (some w) →
      SetEnd t tid pri m (m.set pri w) (if Legal pri then ok else illegalPriority)
  | other {w : τ} : m.taskFor t tid = some (some w) → m.myTask t ≠ some (some w) →
      SetEnd t tid pri m ((m.set pri w).setOwn (some w) fun _ => newPriority pri)
        (if Legal pri then ok else illegalPriority)

omit [DecidableEq ι] in
theorem setPriority_end (h : setPriority t tid pri m₁ = some (m₂, code)) : SetEnd t tid pri m₁ m₂ code := by
  obtain ⟨task, htask, h⟩ := Option.bind_eq_some_iff.mp h
  cases task with
  | none =>
    cases h
    exact .unknown htask
  | some u =>
    have hown : Mem.setOwn (m₁.set pri u) (some u) (fun v => ((m₁.set pri u).tcb v).prvPriority) =
        (m₁.set pri u).setOwn (some u) fun _ => newPriority pri := by
      simp only [Mem.setOwn, Mem.set, Mem.setTcb_self]
    simp only at h
    split at h
    · obtain ⟨self, hself, h⟩ := Option.bind_eq_some_iff.mp h
      have hself' : m₁.myTask t = some self := by
        rw [← hself]
        exact ((sameWalks_set m₁ pri u).myTask t).symm
      split at h
      · cases h
        exact .own htask (by rw [hself']; exact congrArg some (by assumption))
      · cases h
        have hend : SetEnd t tid pri m₁ _ _ := .other htask fun heq => by
          rw [hself'] at heq
          exact absurd (Option.some.inj heq) (by assumption)
        rwa [← hown] at hend
    · cases h
      rename_i hzero
      have hmine : m₁.myTask t = some (some u) := by
        rwa [Mem.taskFor, if_pos (not_not.mp hzero)] at htask
      exact .own htask hmine

omit [DecidableEq ι] in
theorem SetEnd.keepsLock (h : SetEnd t tid pri m₁ m₂ code) : KeepsLock t m₁ m₂ := by
  cases h with
  | unknown => exact ⟨rfl, rfl, rfl⟩
  | @own u => exact ⟨rfl, rfl, (sameWalks_set m₁ pri u).myTask t⟩
  | @other u =>
    refine ⟨setOwn_locker .., setOwn_level .., ?_⟩
    exact ((sameWalks_set m₁ pri u).trans (sameWalks_setOwn _ _ _)).myTask t

omit [DecidableEq ι] in
theorem SetEnd.sameWalks (h : SetEnd t tid pri m₁ m₂ code) : SameWalks m₁ m₂ := by
  cases h with
  | unknown => exact ⟨rfl, rfl, fun _ => rfl, fun _ => rfl⟩
  | @own u => exact sameWalks_set m₁ pri u
  | @other u => exact (sameWalks_set m₁ pri u).trans (sameWalks_setOwn _ _ _)

/-- What the priority of `v` is recorded in after a call of the thread of `task` for `target`. -/
def Mem.after (m : Mem θ τ ι) (pri : ℤ) (task target : Option τ) (v : τ) : ℤ × ℤ × Attr :=
  let b := m.tcb v
  let prvPriority := if target = some v then newPriority pri else b.prvPriority
  (if target = some v then pri else b.vxwPriority, prvPriority,
    {b.attr with schedPriority :=
      if task = some v then if m.outermost then prvPriority else schedGetPriorityMax
      else if target = some v then newPriority pri
      else b.attr.schedPriority})

/-- The code of a call for `target`. -/
def setCode (pri : ℤ) (target : Option τ) : ℤ :=
  if target = none then objIdError else if Legal pri then ok else illegalPriority

/-- What a call does: `task` is the caller's, `target` the named one. -/
structure SetDone (t : θ) (tid pri : ℤ) (m m' : Mem θ τ ι) (code : ℤ) (task target : Option τ) : Prop where
  mine : m.myTask t = some task
  names : m.taskFor t tid = some target
  code : code = setCode pri target
  prio : ∀ v, m'.prio v = m.after pri task target v
  walks : SameWalks m m'
  locker : m'.locker = if m.outermost then none else some t

omit [DecidableEq θ] [DecidableEq ι] in
/-- Which attributes a body leaves, between a raised memory and an unlocked one. -/
theorem prio_unlocked {task target : Option τ} (hlevel : m₂.taskLockLevel = Sched.countUp ulongMax m.taskLockLevel)
    (htcb : ∀ v, ((m₂.tcb v).vxwPriority, (m₂.tcb v).prvPriority, (m₂.tcb v).attr) =
      (if target = some v then pri else (m.tcb v).vxwPriority,
        if target = some v then newPriority pri else (m.tcb v).prvPriority,
        {(m.tcb v).attr with schedPriority := if task = some v then schedGetPriorityMax
          else if target = some v then newPriority pri else (m.tcb v).attr.schedPriority})) (v : τ) :
    (m₂.unlocked task).prio v = m.after pri task target v := by
  have hout : Sched.countDown m₂.taskLockLevel < 1 ↔ m.outermost := by
    rw [hlevel, Mem.outermost]
  have hv := htcb v
  simp only [Prod.mk.injEq] at hv
  obtain ⟨hvxw, hprv, hattr⟩ := hv
  simp only [Mem.prio, Mem.after, unlocked_tcb, hout]
  by_cases hm : m.outermost <;> by_cases htask : task = some v <;>
    simp [hm, htask, setOwn_tcb, hvxw, hprv, hattr]

/-- The call as a whole: its body, on a raised memory, and the `taskUnlock`. -/
theorem taskPrioritySet_done (h : taskPrioritySet ids t tid pri m = some (m', code)) :
    ∃ task target, SetDone t tid pri m m' code task target := by
  obtain ⟨task, m₂, htask, _, hbody, rfl, _⟩ :=
    underLock_eq h fun _ _ _ hb => (setPriority_end hb).keepsLock
  have hend := setPriority_end hbody
  have hkeep := hend.keepsLock
  have hraised := sameWalks_raised m t task
  have hwalks := (hraised.trans hend.sameWalks).trans (sameWalks_unlocked m₂ task)
  have hlocker : (m₂.unlocked task).locker = if m.outermost then none else some t := by
    rw [unlocked_locker, hkeep.level, hkeep.locker]
    simp only [Mem.raised, setOwn_level, setOwn_locker]
    rfl
  cases hend with
  | unknown hnone =>
    rw [hraised.taskFor] at hnone
    refine ⟨task, none, htask, hnone, rfl, prio_unlocked (raised_level ..) fun v => ?_, hwalks, hlocker⟩
    simp [raised_tcb]
  | @own u hu hmine =>
    rw [hraised.taskFor] at hu
    rw [hraised.myTask, htask] at hmine
    cases hmine
    refine ⟨some u, some u, htask, hu, rfl, prio_unlocked (raised_level ..) fun v => ?_, hwalks, hlocker⟩
    by_cases hv : u = v
    · subst hv
      simp [Mem.set, raised_tcb]
    · simp [Mem.set, raised_tcb, hv, Ne.symm hv]
  | @other u hu hmine =>
    rw [hraised.taskFor] at hu
    rw [hraised.myTask, htask] at hmine
    have hne : task ≠ some u := fun heq => hmine (congrArg some heq)
    refine ⟨task, some u, htask, hu, rfl, prio_unlocked ((setOwn_level ..).trans (raised_level ..)) fun v => ?_, hwalks, hlocker⟩
    by_cases hv : u = v
    · subst hv
      simp [Mem.set, raised_tcb, setOwn_tcb, hne]
    · simp [Mem.set, raised_tcb, setOwn_tcb, hv, Ne.symm hv]

/-! ### In the machine -/

/-- The body is what the thread does under the scheduler lock. -/
theorem goesAlone_setPriority {s : LifeState θ τ ι} (h : setPriority t tid pri m₁ = some (m₂, code)) :
    GoesAlone ids t s m₁ m₂ (.prioFind tid pri) (.unlockCount .idle) := by
  obtain ⟨target, htarget, hrest⟩ := Option.bind_eq_some_iff.mp h
  cases target with
  | none =>
    cases hrest
    exact goesAlone_block .none (by simp only [block, Lifecycle.code, prioBlock, htarget, Option.map_some])
  | some u =>
    have hstore : GoesAlone ids t s m₁ (m₁.set pri u) (.prioFind tid pri) (.prioSplit tid u) :=
      goesAlone_block .none (by simp only [block, Lifecycle.code, prioBlock, htarget, Option.map_some]; rfl)
    refine hstore.trans ?_
    simp only at hrest
    split at hrest
    · rename_i hzero
      obtain ⟨self, hself, hrest⟩ := Option.bind_eq_some_iff.mp hrest
      have hsplit : block ids t .none (m₁.set pri u) (.prioSplit tid u) =
          some (m₁.set pri u, if self = some u then .unlockCount .idle else .prioAttr u) := by
        simp only [block, Lifecycle.code, prioSplitBlock, if_pos hzero, found, Mem.set, hself, Option.map_some]
      split at hrest
      · rename_i hmine
        cases hrest
        rw [if_pos hmine] at hsplit
        exact goesAlone_block .none hsplit
      · rename_i hmine
        cases hrest
        rw [if_neg hmine] at hsplit
        refine (goesAlone_block .none hsplit).trans (.trans (goesAlone_block (p := .prioAttr u) .none (by rfl)) ?_)
        exact goesAlone_block (p := .prioApply u) .none (by rfl)
    · rename_i hzero
      cases hrest
      exact goesAlone_block .none (by simp only [block, Lifecycle.code, prioSplitBlock, if_neg hzero]; rfl)

/-- `taskPrioritySet` is what its thread does in the machine, while the others stand still. -/
theorem goesAlone_taskPrioritySet {s : LifeState θ τ ι} (hfree : s.owner .taskListLock = none)
    (h : taskPrioritySet ids t tid pri m = some (m', code)) :
    GoesAlone ids t s m m' (.enter (.taskPrioritySet tid pri)) .idle := by
  have henter : GoesAlone ids t s m m (.enter (.taskPrioritySet tid pri)) (.lockFind (.prioFind tid pri)) :=
    goesAlone_block .none (by rfl)
  exact henter.trans (goesAlone_underLock hfree h fun _ _ hb => goesAlone_setPriority hb)

/-! ### After the call -/

/-- The attributes of task `u` have its priority `p`, or will have it when its own thread
gives up the scheduler lock. -/
structure Due (t : θ) (task : Option τ) (u : τ) (p : ℤ) (m : Mem θ τ ι) : Prop where
  mine : m.myTask t = some task
  prvPriority : (m.tcb u).prvPriority = p
  attr : (m.tcb u).attr.schedPriority = p ∨ m.locker = some t ∧ task = some u

theorem Due.taskUnlock {p : ℤ} (h : Due t task u p m) (hunlock : taskUnlock ids t m = some m') : Due t task u p m' := by
  by_cases hlocker : m.locker = some t
  · rw [taskUnlock_eq hlocker h.mine] at hunlock
    cases hunlock
    have hmine : (m.unlocked task).myTask t = some task := by
      rw [(sameWalks_unlocked m task).myTask, h.mine]
    by_cases hlast : Sched.countDown m.taskLockLevel < 1
    · refine ⟨hmine, ?_, .inl ?_⟩
      · rw [unlocked_tcb, if_pos hlast, setOwn_tcb]
        exact h.prvPriority
      · rw [unlocked_tcb, if_pos hlast, setOwn_tcb]
        by_cases htask : task = some u
        · simpa [htask] using h.prvPriority
        · simpa [htask] using h.attr.resolve_right fun hown => htask hown.2
    · refine ⟨hmine, ?_, ?_⟩
      · rw [unlocked_tcb, if_neg hlast]
        exact h.prvPriority
      · rw [unlocked_tcb, if_neg hlast, unlocked_locker, if_neg hlast]
        exact h.attr
  · rw [taskUnlock_foreign hlocker] at hunlock
    cases hunlock
    exact h

theorem Due.taskUnlocks {p : ℤ} (h : Due t task u p m) {n : ℕ} (hunlocks : taskUnlocks ids t m n = some m') :
    Due t task u p m' := by
  induction n generalizing m with
  | zero =>
    cases hunlocks
    exact h
  | succ n ih =>
    obtain ⟨m₁, hunlock, hrest⟩ := Option.bind_eq_some_iff.mp hunlocks
    exact ih (h.taskUnlock hunlock) hrest

omit [DecidableEq τ] [DecidableEq ι] in
/-- A task whose thread has not the scheduler lock has the priority by now. -/
theorem Due.free {p : ℤ} (h : Due t task u p m) (hlocker : m.locker ≠ some t) : (m.tcb u).attr.schedPriority = p :=
  h.attr.resolve_right fun hown => hlocker hown.1

omit [DecidableEq ι] in
theorem SetDone.due (h : SetDone t tid pri m m' code task (some u)) : Due t task u (newPriority pri) m' := by
  have hprio := h.prio u
  simp only [Mem.prio, Mem.after, if_true, Prod.mk.injEq] at hprio
  obtain ⟨_, hprv, hattr⟩ := hprio
  refine ⟨by rw [h.walks.myTask, h.mine], hprv, ?_⟩
  rw [hattr, h.locker]
  by_cases htask : task = some u
  · by_cases hout : m.outermost
    · simp [htask, hout]
    · simp [htask, hout]
  · simp [htask]

/-- `taskPriorityGet` reads what the call has stored. -/
theorem SetDone.get (h : SetDone t tid pri m m' code task (some u)) :
    ∃ m'', taskPriorityGet ids t tid m' = some (m'', .ok pri) := by
  have hvxw : (m'.tcb u).vxwPriority = pri := by
    have hprio := h.prio u
    simp only [Mem.prio, Mem.after, if_true, Prod.mk.injEq] at hprio
    exact hprio.1
  have hmine : m'.myTask t = some task := by rw [h.walks.myTask, h.mine]
  have hfree : m'.locker = none ∨ m'.locker = some t := by
    rw [h.locker]
    split
    · exact .inl rfl
    · exact .inr rfl
  have hfor : (m'.raised t task).taskFor t tid = some (some u) := by
    rw [(sameWalks_raised m' t task).taskFor, h.walks.taskFor, h.names]
  refine ⟨(m'.raised t task).unlocked task, underLock_of hmine hfree ?_ ⟨rfl, rfl, rfl⟩⟩
  simp only [hfor, Option.map_some, raised_tcb, hvxw]

/-! ### When it does what is expected -/

omit [DecidableEq θ] [DecidableEq ι] in
/-- When a call leaves the priority of `v` as it is. -/
theorem after_eq_iff {target : Option τ} : m.after pri task target v = m.prio v ↔
    (target = some v → (m.tcb v).vxwPriority = pri ∧ (m.tcb v).prvPriority = newPriority pri ∧
      (task ≠ some v → (m.tcb v).attr.schedPriority = newPriority pri)) ∧
    (task = some v → (m.tcb v).attr.schedPriority = if m.outermost then
      if target = some v then newPriority pri else (m.tcb v).prvPriority else schedGetPriorityMax) := by
  have hattr : ∀ p, ({(m.tcb v).attr with schedPriority := p} : Attr) = (m.tcb v).attr ↔ (m.tcb v).attr.schedPriority = p := by
    intro p
    constructor
    · intro h
      rw [← congrArg Attr.schedPriority h]
    · rintro rfl
      rfl
  simp only [Mem.after, Mem.prio, Prod.mk.injEq, hattr]
  by_cases htarget : target = some v
  · by_cases htask : task = some v
    · simp [htarget, htask, eq_comm, and_assoc]
    · simp [htarget, htask, eq_comm]
  · by_cases htask : task = some v
    · simp [htarget, htask]
    · simp [htarget, htask]

omit [DecidableEq τ] [DecidableEq ι] in
theorem settled_iff (h : m.myTask t = some task) : Settled t m ↔ ∀ v, task = some v →
    (m.tcb v).attr.schedPriority = if m.outermost then (m.tcb v).prvPriority else schedGetPriorityMax := by
  simp only [Settled, h, Option.some.injEq]

omit [DecidableEq ι] in
/-- A call that names no task changes no priority, if the caller's own is settled. -/
theorem SetDone.unknown_iff (h : SetDone t tid pri m m' code task none) :
    (∀ v, m'.prio v = m.prio v) ↔ Settled t m := by
  simp only [h.prio, after_eq_iff, settled_iff h.mine, reduceCtorEq, false_implies, true_and, if_false]

omit [DecidableEq ι] in
/-- A call for `u` changes no priority, if `u` has it already. -/
theorem SetDone.same_iff (h : SetDone t tid pri m m' code task (some u)) :
    (∀ v, m'.prio v = m.prio v) ↔ Already t pri m u ∧ Settled t m := by
  simp only [h.prio, after_eq_iff, settled_iff h.mine, Already, h.mine, Option.some.injEq, ne_eq]
  constructor
  · intro hsame
    obtain ⟨hvxw, hprv, hattr⟩ := (hsame u).1 rfl
    refine ⟨⟨hvxw, hprv, hattr⟩, fun v hv => ?_⟩
    have hv' := (hsame v).2 hv
    by_cases huv : u = v
    · subst huv
      simpa [hprv] using hv'
    · simpa [huv] using hv'
  · rintro ⟨hset, hsettled⟩ v
    refine ⟨?_, fun hv => ?_⟩
    · rintro rfl
      exact hset
    · by_cases huv : u = v
      · subst huv
        simpa [hset.2.1] using hsettled u hv
      · simpa [huv] using hsettled v hv

omit [DecidableEq ι] in
/-- A call for `u` changes nobody else, if it is the caller's own or that is settled. -/
theorem SetDone.others_iff (h : SetDone t tid pri m m' code task (some u)) :
    (∀ v, v ≠ u → m'.prio v = m.prio v) ↔ task = some u ∨ Settled t m := by
  simp only [h.prio, after_eq_iff, settled_iff h.mine, Option.some.injEq, ne_eq]
  constructor
  · intro hothers
    by_cases htask : task = some u
    · exact .inl htask
    · refine .inr fun v hv => ?_
      have hne : v ≠ u := fun heq => htask (heq ▸ hv)
      simpa [Ne.symm hne] using (hothers v hne).2 hv
  · rintro hown v hv
    refine ⟨fun heq => absurd heq.symm hv, fun htask => ?_⟩
    obtain hown | hsettled := hown
    · exact absurd (Option.some.inj (htask.symm.trans hown)) hv
    · simpa [Ne.symm hv] using hsettled v htask

/-- A call for `u` sets its priority, whatever the report. -/
theorem SetDone.sets_iff (h : SetDone t tid pri m m' code task (some u)) :
    Sets ids t tid pri m m' ↔ task = some u ∨ Settled t m := by
  rw [← h.others_iff]
  have hprio := h.prio u
  simp only [Mem.prio, Mem.after, if_true, Prod.mk.injEq] at hprio
  constructor
  · rintro ⟨⟨w, hw, hothers, _⟩, _⟩
    rw [h.names] at hw
    cases hw
    exact hothers
  · intro hothers
    refine ⟨⟨u, h.names, hothers, hprio.1, hprio.2.1, ?_⟩, h.get⟩
    intro n m'' hunlocks hlocker
    exact (h.due.taskUnlocks hunlocks).free hlocker

/-- When a call of `taskPrioritySet` keeps the law. -/
theorem taskPrioritySet_law_iff (h : taskPrioritySet ids t tid pri m = some (m', code)) :
    SetLaw ids t tid pri m m' code ↔
      (∀ u, m.taskFor t tid = some (some u) → Legal pri ∨ Already t pri m u) ∧
      (Settled t m ∨
        ∃ u, m.myTask t = some (some u) ∧ m.taskFor t tid = some (some u) ∧ Legal pri) := by
  obtain ⟨task, target, hdone⟩ := taskPrioritySet_done h
  have hcode := hdone.code
  cases target with
  | none =>
    have hbad : code ≠ ok := by
      rw [hcode, setCode, if_pos rfl]
      decide
    have hlaw : SetLaw ids t tid pri m m' code ↔ Settled t m := by
      rw [← hdone.unknown_iff]
      exact ⟨fun hl => hl.failed hbad, fun hsame => ⟨fun _ => hsame, fun hok => absurd hok hbad⟩⟩
    simp [hlaw, hdone.names]
  | some u =>
    by_cases hlegal : Legal pri
    · have hok : code = ok := by simpa [setCode, hlegal] using hcode
      have hlaw : SetLaw ids t tid pri m m' code ↔ Sets ids t tid pri m m' :=
        ⟨fun hl => hl.succeeded hok, fun hsets => ⟨fun hne => absurd hok hne, fun _ => hsets⟩⟩
      rw [hlaw, hdone.sets_iff]
      simp [hdone.names, hdone.mine, hlegal, or_comm]
    · have hbad : code ≠ ok := by
        simp only [setCode, reduceCtorEq, if_false, if_neg hlegal] at hcode
        rw [hcode]
        decide
      have hlaw : SetLaw ids t tid pri m m' code ↔ ∀ v, m'.prio v = m.prio v :=
        ⟨fun hl => hl.failed hbad, fun hsame => ⟨fun _ => hsame, fun hok => absurd hok hbad⟩⟩
      rw [hlaw, hdone.same_iff]
      simp [hdone.names, hlegal]

end

/-- The root task, which runs alone, sets its priority. -/
theorem root_priority_set : ∃ m', taskPrioritySet (fun u => u.val + 1) 0 1 50 (boot 2 2 1).mem = some (m', ok) ∧
    SetLaw (fun u => u.val + 1) 0 1 50 (boot 2 2 1).mem m' ok := by
  obtain ⟨m', hcall⟩ : ∃ m', taskPrioritySet (fun u => u.val + 1) 0 1 50 (boot 2 2 1).mem = some (m', ok) := ⟨_, rfl⟩
  refine ⟨m', hcall, (taskPrioritySet_law_iff hcall).mpr ⟨fun _ _ => .inl (by decide), .inr ⟨0, ?_⟩⟩⟩
  decide

/-- A priority that is refused is stored all the same. -/
theorem illegal_priority_stored :
    ¬ ∀ (tid pri code : ℤ) (m' : Mem (Fin 2) (Fin 2) (Fin 1)),
      taskPrioritySet (fun u => u.val + 1) 0 tid pri (boot 2 2 1).mem = some (m', code) →
      SetLaw (fun u => u.val + 1) 0 tid pri (boot 2 2 1).mem m' code := by
  intro hclaim
  obtain ⟨m', hcall, hstored⟩ : ∃ m', taskPrioritySet (fun u => u.val + 1) 0 1 300 (boot 2 2 1).mem =
      some (m', illegalPriority) ∧ (m'.tcb 0).vxwPriority = 300 := ⟨_, rfl, rfl⟩
  have hsame := (hclaim 1 300 illegalPriority m' hcall).failed (by decide) 0
  have hvxw : (m'.tcb 0).vxwPriority = 0 := congrArg Prod.fst hsame
  rw [hstored] at hvxw
  cases hvxw

end V2lin.Lifecycle
