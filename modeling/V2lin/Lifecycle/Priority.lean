import V2lin.Lifecycle.Uses
import V2lin.Lifecycle.Balance

/-! The priority that a thread is created with.

`taskLock` stores the highest priority in the attributes of the caller's task, and the
outermost `taskUnlock` puts the task's own priority back. A thread that leaves
`task_wrapper` with the scheduler lock gives the lock up, but not the priority. Where that
does not happen, every task has its own priority in its attributes, but for the task of the
thread that has the scheduler lock, and for one whose priority is being set. -/
namespace V2lin.Lifecycle
open Threads V2lin.Task V2lin.TaskLib

section
variable {θ τ ι : Type}

/-- The task's own priority is in its attributes. -/
def Own (m : Mem θ τ ι) (u : τ) : Prop := (m.tcb u).attr.schedPriority = (m.tcb u).prvPriority

/-- The task has the highest priority in its attributes. -/
def Raised (m : Mem θ τ ι) (u : τ) : Prop := (m.tcb u).attr.schedPriority = schedGetPriorityMax

/-- The end of the outermost `taskUnlock`: the priority has been put back. -/
def restored : Pc τ ι → Bool
  | .listUnlock (.unlockClear _) | .unlockClear _ => true
  | _ => false

/-- The beginning of `taskLock`: the priority has not been raised yet. -/
def raising : Pc τ ι → Bool
  | .lockTest _ _ | .listLock (.raise _) _ | .listEdit (.raise _) _ => true
  | _ => false

/-- The task whose own priority has been set, but not its attributes yet. -/
def setting : Pc τ ι → Option τ
  | .prioSplit _ u | .prioAttr u => some u
  | _ => none

/-- A `taskLock` that has found no task of the caller's. -/
def alone : Pc τ ι → Bool
  | .lockFlag none _ | .lockTest none _ | .listLock (.raise none) _ | .listEdit (.raise none) _ => true
  | _ => false

/-- What holds of the priorities in between. -/
structure Priorities (s : LifeState θ τ ι) : Prop where
  own : ∀ u ∈ s.mem.taskList, Own s.mem u ∨
    (∃ w, (s.mem.tcb u).pthrid = some w ∧ s.mem.locker = some w ∧ restored (s.ctl w).point = false) ∨
    ∃ w, setting (s.ctl w).point = some u
  locked : ∀ u ∈ s.mem.taskList, ∀ w, (s.mem.tcb u).pthrid = some w → s.mem.locker = some w → Raised s.mem u ∨ Own s.mem u
  raised : ∀ u ∈ s.mem.taskList, ∀ w, (s.mem.tcb u).pthrid = some w → s.mem.locker = some w →
    raising (s.ctl w).point = false → restored (s.ctl w).point = false → doomed (s.ctl w).point = false → Raised s.mem u
  alone : ∀ w, alone (s.ctl w).point = true → ∀ u ∈ s.mem.taskList, (s.mem.tcb u).pthrid ≠ some w
  other : ∀ w u, (s.ctl w).point = .prioAttr u → u ∈ s.mem.taskList → (s.mem.tcb u).pthrid ≠ some w
  locker : ∀ w, s.mem.locker = some w → (s.mem.pthread w).born = true
  reborn : ∀ w, (s.ctl w).point = .gone → (s.mem.pthread w).exited = false → s.mem.locker ≠ some w

/-- Thread `t` is about to go through `task_wrapper_cleanup`. -/
def cleansUp (m : Mem θ τ ι) (t : θ) : Pc τ ι → Bool
  | .closing => true
  | .dying => (m.pthread t).wrapped
  | _ => false

/-- Nothing that makes the raised priority last happens in the step. -/
structure Restores (x : LifeTransition θ τ ι) : Prop where
  undisturbed : Undisturbed x
  fresh : Fresh x
  starter : ∀ u, (x.pre.ctl x.thread).point = .starterCreate u →
    ∀ w, (x.pre.mem.tcb u).pthrid = some w → x.pre.mem.locker ≠ some w
  cleanup : cleansUp x.pre.mem x.thread (x.pre.ctl x.thread).point = true → x.pre.mem.locker = some x.thread →
    ∀ u ∈ x.pre.mem.taskList, (x.pre.mem.tcb u).pthrid = some x.thread →
    (x.pre.mem.tcb u).prvPriority = schedGetPriorityMax

section
variable [DecidableEq θ] [DecidableEq τ] [DecidableEq ι] {ids : τ → ℤ} {t w : θ} {m m' : Mem θ τ ι} {p p' : Pc τ ι}

/-- What a step does to the priorities of a task on the list. -/
theorem Runs.priority_cases (hr : Runs ids t p m m' p') {u : τ} (hin : u ∈ m'.taskList) :
    (∃ pri policy next, p = .listEdit (.init u pri policy) next ∧ Own m' u ∧ (m'.tcb u).pthrid = none) ∨
    u ∈ m.taskList ∧ (
      ((m'.tcb u).attr.schedPriority = (m.tcb u).attr.schedPriority ∧ (m'.tcb u).prvPriority = (m.tcb u).prvPriority) ∨
      (∃ next, p = .listEdit (.raise (some u)) next ∧ Raised m' u) ∨
      (∃ next, p = .listEdit .restore next ∧ m.myTask t = some (some u) ∧ Own m' u) ∨
      (∃ tid pri, p = .prioFind tid pri ∧ p' = .prioSplit tid u ∧
        (m'.tcb u).attr.schedPriority = (m.tcb u).attr.schedPriority) ∨
      (p = .prioAttr u ∧ Own m' u)) := by
  have hsame : m'.taskList = m.taskList → m'.tcb = m.tcb →
      u ∈ m.taskList ∧ ((m'.tcb u).attr.schedPriority = (m.tcb u).attr.schedPriority ∧
        (m'.tcb u).prvPriority = (m.tcb u).prvPriority) := by
    intro hl ht
    rw [ht, ← hl]
    exact ⟨hin, rfl, rfl⟩
  have hstore : ∀ (v : τ) (b : Tcb θ τ ι), m'.taskList = m.taskList → m'.tcb = (m.setTcb v b).tcb →
      b.attr.schedPriority = (m.tcb v).attr.schedPriority → b.prvPriority = (m.tcb v).prvPriority →
      u ∈ m.taskList ∧ ((m'.tcb u).attr.schedPriority = (m.tcb u).attr.schedPriority ∧
        (m'.tcb u).prvPriority = (m.tcb u).prvPriority) := by
    intro v b hl ht hattr hprv
    rw [ht, ← hl]
    exact ⟨hin, Mem.setTcb_congr (·.attr.schedPriority) m hattr u, Mem.setTcb_congr (·.prvPriority) m hprv u⟩
  have hplain : (u ∈ m.taskList ∧ ((m'.tcb u).attr.schedPriority = (m.tcb u).attr.schedPriority ∧
      (m'.tcb u).prvPriority = (m.tcb u).prvPriority)) →
      (∃ pri policy next, p = .listEdit (.init u pri policy) next ∧ Own m' u ∧ (m'.tcb u).pthrid = none) ∨
      u ∈ m.taskList ∧ (
        ((m'.tcb u).attr.schedPriority = (m.tcb u).attr.schedPriority ∧ (m'.tcb u).prvPriority = (m.tcb u).prvPriority) ∨
        (∃ next, p = .listEdit (.raise (some u)) next ∧ Raised m' u) ∨
        (∃ next, p = .listEdit .restore next ∧ m.myTask t = some (some u) ∧ Own m' u) ∨
        (∃ tid pri, p = .prioFind tid pri ∧ p' = .prioSplit tid u ∧
          (m'.tcb u).attr.schedPriority = (m.tcb u).attr.schedPriority) ∨
        (p = .prioAttr u ∧ Own m' u)) :=
    fun h => .inr ⟨h.1, .inl h.2⟩
  cases hr with
  | edited edit next he =>
    cases edit with
    | init v pri policy =>
      obtain ⟨htcb, hlist⟩ := Mem.append_eq he
      by_cases hv : u = v
      · subst hv
        have hnew : m'.tcb u = newTcb ids u pri policy := by rw [htcb, Mem.setTcb_self]
        refine .inl ⟨pri, policy, next, rfl, ?_, ?_⟩
        · rw [Own, hnew]
          rfl
        · rw [hnew]
          rfl
      · refine hplain ⟨(hlist u hin).resolve_left hv, ?_⟩
        rw [htcb, Mem.setTcb_of_ne _ _ hv]
        exact ⟨rfl, rfl⟩
    | raise task =>
      cases task with
      | none =>
        cases he
        exact hplain (hsame rfl rfl)
      | some v =>
        cases he
        by_cases hv : u = v
        · subst hv
          refine .inr ⟨hin, .inr (.inl ⟨next, rfl, ?_⟩)⟩
          show ((m.setTcb u _).tcb u).attr.schedPriority = _
          rw [Mem.setTcb_self]
        · refine hplain ⟨hin, ?_⟩
          rw [Mem.setTcb_of_ne _ _ hv]
          exact ⟨rfl, rfl⟩
    | restore =>
      obtain ⟨task, hmine, heq⟩ := Option.map_eq_some_iff.mp he
      cases task with
      | none =>
        cases heq
        exact hplain (hsame rfl rfl)
      | some v =>
        cases heq
        by_cases hv : u = v
        · subst hv
          refine .inr ⟨hin, .inr (.inr (.inl ⟨next, rfl, hmine, ?_⟩))⟩
          show ((m.setTcb u _).tcb u).attr.schedPriority = ((m.setTcb u _).tcb u).prvPriority
          rw [Mem.setTcb_self]
        · refine hplain ⟨hin, ?_⟩
          rw [Mem.setTcb_of_ne _ _ hv]
          exact ⟨rfl, rfl⟩
    | link v newEntry =>
      cases he
      exact hplain (hstore v _ rfl rfl rfl rfl)
    | unlink id entry =>
      cases he
      exact hplain (hsame rfl rfl)
    | remove v =>
      simp only [Edit.run, Mem.takeOff] at he
      repeat' split at he
      all_goals cases he
      · exact hplain (hsame rfl rfl)
      · exact hplain ⟨List.mem_of_mem_erase hin, rfl, rfl⟩
      · exact hplain (hsame rfl rfl)
  | created =>
    refine hplain ⟨hin, ?_, ?_⟩
    · exact (Mem.setTcb_congr (·.attr.schedPriority) (m.setTcb _ _) (by rfl) u).trans
        (Mem.setTcb_congr (·.attr.schedPriority) m (by rfl) u)
    · exact (Mem.setTcb_congr (·.prvPriority) (m.setTcb _ _) (by rfl) u).trans
        (Mem.setTcb_congr (·.prvPriority) m (by rfl) u)
  | notCreated => exact hplain (hstore _ _ rfl rfl rfl rfl)
  | cancels hc he =>
    obtain ⟨_, _, rfl⟩ := Mem.cancel_eq he
    exact hplain (hsame rfl rfl)
  | joins hj he =>
    obtain ⟨_, _, ⟨_, rfl⟩ | ⟨_, rfl⟩⟩ := Mem.join_eq he
    · exact hplain (hsame rfl rfl)
    · exact hplain (hsame rfl rfl)
  | detaches he =>
    obtain ⟨_, _, rfl⟩ := Mem.detach_eq he
    exact hplain (hsame rfl rfl)
  | named v tid => exact hplain (hstore v _ rfl rfl rfl rfl)
  | prioStored pri hv =>
    rename_i tid v
    by_cases hu : u = v
    · subst hu
      refine .inr ⟨hin, .inr (.inr (.inr (.inl ⟨tid, pri, rfl, rfl, ?_⟩)))⟩
      rw [Mem.setTcb_self]
    · refine hplain ⟨hin, ?_⟩
      rw [Mem.setTcb_of_ne _ _ hu]
      exact ⟨rfl, rfl⟩
  | prioAttr v =>
    by_cases hu : u = v
    · subst hu
      refine .inr ⟨hin, .inr (.inr (.inr (.inr ⟨rfl, ?_⟩)))⟩
      show ((m.setTcb u _).tcb u).attr.schedPriority = ((m.setTcb u _).tcb u).prvPriority
      rw [Mem.setTcb_self]
    · refine hplain ⟨hin, ?_⟩
      rw [Mem.setTcb_of_ne _ _ hu]
      exact ⟨rfl, rfl⟩
  | sliceAttr v policy => exact hplain (hstore v _ rfl rfl rfl rfl)
  | protects count => exact hplain (hstore _ _ rfl rfl rfl rfl)
  | cleaned =>
    refine hplain (hsame ?_ ?_)
    · unfold Mem.cleanup
      split <;> rfl
    · unfold Mem.cleanup
      split <;> rfl
  | exits => exact hplain (hsame rfl rfl)
  | _ => exact hplain (hsame rfl rfl)

/-! Where the points of a thread lead. -/

omit [DecidableEq θ] [DecidableEq τ] [DecidableEq ι] in
theorem Released.not_restored (h : Released p) : restored p = false := by
  cases p <;> first | rfl | exact h.elim

omit [DecidableEq θ] [DecidableEq τ] [DecidableEq ι] in
theorem Acquired.not_restored (h : Acquired p) : restored (.listUnlock p : Pc τ ι) = false := by
  cases p <;> first | rfl | exact h.elim

omit [DecidableEq ι] in
theorem Goes.restored (hg : Goes t m p p') (hp : Shape p) : restored p' = false := by
  cases hg with
  | enters he => cases he <;> rfl
  | remove u next =>
    unfold unlinkWaiting
    split <;> rfl
  | pendUnlink =>
    unfold unlinkWaiting
    split <;> rfl
  | restartSome =>
    unfold unlinkWaiting
    split <;> rfl
  | killed hk => obtain rfl | rfl | ⟨u, rfl⟩ | ⟨u, killed, rfl, _⟩ := hk.cases hp <;> rfl
  | foreign next => exact Released.not_restored hp
  | kept next => exact Released.not_restored (Back.released hp)
  | nobody u next =>
    have hnext : Notified p' := hp
    cases p' <;> first | rfl | exact hnext.elim
  | _ => rfl

/-- The priority is put back by the section of the outermost `taskUnlock` only. -/
theorem Runs.restored (hr : Runs ids t p m m' p') (hp : Shape p) (h : restored p' = true) :
    ∃ next, p = .listEdit .restore next := by
  cases hr with
  | reads hg =>
    rw [hg.restored hp] at h
    cases h
  | counted next =>
    split at h
    · cases h
    · rw [Released.not_restored hp] at h
      cases h
  | cleared next =>
    rw [Released.not_restored (p := p') hp] at h
    cases h
  | edited edit next =>
    cases edit with
    | restore => exact ⟨next, rfl⟩
    | raise task =>
      rw [Acquired.not_restored hp] at h
      cases h
    | _ => cases next <;> first | exact hp.elim | cases h
  | freed next =>
    rw [Released.not_restored (p := p') (Back.released hp)] at h
    cases h
  | created hc => cases hc <;> cases h
  | notCreated hc => cases hc <;> cases h
  | cancels hc => cases hc <;> cases h
  | joins hj => cases hj <;> cases h
  | protects count hc => cases hc <;> cases h
  | cleaned hc => cases hc <;> cases h
  | _ => cases h

theorem Runs.raising (hr : Runs ids t p m m' p') (h : raising p = true) :
    Lifecycle.raising p' = true ∨ Lifecycle.doomed p' = true ∨ ∃ task next, p = .listEdit (.raise task) next := by
  cases hr with
  | reads hg =>
    cases hg with
    | killed hk => exact .inr (.inl hk.doomed)
    | lockTest task next => exact .inl rfl
    | _ => cases h
  | edited edit next =>
    cases edit with
    | raise task => exact .inr (.inr ⟨task, next, rfl⟩)
    | _ => cases h
  | created hc => cases hc <;> cases h
  | notCreated hc => cases hc <;> cases h
  | cancels hc => cases hc <;> cases h
  | joins hj => cases hj <;> cases h
  | protects count hc => cases hc <;> cases h
  | cleaned hc => cases hc <;> cases h
  | _ => cases h

/-- Who is past the restoring gives the scheduler lock up. -/
theorem Runs.of_restored (hr : Runs ids t p m m' p') (h : Lifecycle.restored p = true) : m'.locker = none := by
  cases hr with
  | reads hg =>
    cases hg with
    | killed hk => cases hk <;> cases h
    | _ => cases h
  | cleared next => rfl
  | created hc => cases hc <;> cases h
  | notCreated hc => cases hc <;> cases h
  | cancels hc => cases hc <;> cases h
  | joins hj => cases hj <;> cases h
  | protects count hc => cases hc <;> cases h
  | cleaned hc => cases hc <;> cases h
  | _ => cases h

/-- `taskPrioritySet` leaves the attributes of the caller's own task to `taskUnlock`. -/
theorem Runs.setting (hr : Runs ids t p m m' p') {u : τ} (h : setting p = some u) :
    setting p' = some u ∨ (∃ tid, p = .prioSplit tid u ∧ p' = .unlockCount .idle ∧ (tid ≠ 0 → m.myTask t = some (some u))) ∨
      p = .prioAttr u ∧ Own m' u := by
  cases hr with
  | reads hg =>
    cases hg with
    | killed hk => cases hk <;> cases h
    | prioSelf tid hself =>
      cases h
      exact .inr (.inl ⟨tid, rfl, rfl, hself⟩)
    | prioOther => exact .inl h
    | _ => cases h
  | prioAttr v =>
    cases h
    refine .inr (.inr ⟨rfl, ?_⟩)
    show ((m.setTcb u _).tcb u).attr.schedPriority = ((m.setTcb u _).tcb u).prvPriority
    rw [Mem.setTcb_self]
  | created hc => cases hc <;> cases h
  | notCreated hc => cases hc <;> cases h
  | cancels hc => cases hc <;> cases h
  | joins hj => cases hj <;> cases h
  | protects count hc => cases hc <;> cases h
  | cleaned hc => cases hc <;> cases h
  | _ => cases h

theorem Runs.alone (hr : Runs ids t p m m' p') (hp : Shape p) (h : alone p' = true) :
    alone p = true ∨ m.myTask t = some none ∧ m' = m := by
  cases hr with
  | reads hg =>
    cases hg with
    | lockFind next htask =>
      rename_i task
      cases task with
      | none => exact .inr ⟨htask, rfl⟩
      | some u => cases h
    | lockTest task next => cases task <;> exact .inl h
    | enters he => cases he <;> cases h
    | killed hk => obtain rfl | rfl | ⟨u, rfl⟩ | ⟨u, killed, rfl, _⟩ := hk.cases hp <;> cases h
    | remove u next =>
      unfold unlinkWaiting at h
      split at h <;> cases h
    | pendUnlink =>
      unfold unlinkWaiting at h
      split at h <;> cases h
    | restartSome =>
      unfold unlinkWaiting at h
      split at h <;> cases h
    | foreign next =>
      have hnext : Released p' := hp
      cases p' <;> first | exact hnext.elim | cases h
    | kept next =>
      have hnext : Back p' := hp
      cases p' <;> first | exact hnext.elim | cases h
    | nobody u next =>
      have hnext : Notified p' := hp
      cases p' <;> first | exact hnext.elim | cases h
    | _ => cases h
  | flagged task next => cases task <;> exact .inl h
  | counted next =>
    have hnext : Released next := hp
    split at h
    · cases h
    · cases next <;> first | exact hnext.elim | cases h
  | cleared next =>
    have hnext : Released p' := hp
    cases p' <;> first | exact hnext.elim | cases h
  | freed next =>
    have hnext : Back p' := hp
    cases p' <;> first | exact hnext.elim | cases h
  | created hc => cases hc <;> cases h
  | notCreated hc => cases hc <;> cases h
  | cancels hc => cases hc <;> cases h
  | joins hj => cases hj <;> cases h
  | protects count hc => cases hc <;> cases h
  | cleaned hc => cases hc <;> cases h
  | _ => cases h

theorem Runs.to_prioAttr (hr : Runs ids t p m m' p') (hp : Shape p) {u : τ} (h : p' = .prioAttr u) :
    ∃ self, m.myTask t = some self ∧ self ≠ some u ∧ m' = m := by
  cases hr with
  | reads hg =>
    cases hg with
    | prioOther _ hself hne =>
      cases h
      exact ⟨_, hself, hne, rfl⟩
    | enters he => cases he <;> cases h
    | killed hk => obtain rfl | rfl | ⟨v, rfl⟩ | ⟨v, killed, rfl, _⟩ := hk.cases hp <;> cases h
    | remove v next =>
      unfold unlinkWaiting at h
      split at h <;> cases h
    | pendUnlink =>
      unfold unlinkWaiting at h
      split at h <;> cases h
    | restartSome =>
      unfold unlinkWaiting at h
      split at h <;> cases h
    | foreign next =>
      subst h
      exact hp.elim
    | kept next =>
      subst h
      exact hp.elim
    | nobody v next =>
      subst h
      exact hp.elim
    | _ => cases h
  | counted next =>
    split at h
    · cases h
    · subst h
      exact hp.elim
  | cleared next =>
    subst h
    exact hp.elim
  | freed next =>
    subst h
    exact hp.elim
  | created hc => cases hc <;> cases h
  | notCreated hc => cases hc <;> cases h
  | cancels hc => cases hc <;> cases h
  | joins hj => cases hj <;> cases h
  | protects count hc => cases hc <;> cases h
  | cleaned hc => cases hc <;> cases h
  | _ => cases h

/-! The same for the instructions that are no blocks. -/

theorem next_restored (h : (code (ι := ι) ids t p).Next p') (hp : Shape p) (hr : restored p' = true) : restored p = true := by
  cases p <;> simp only [code, Instr.Next] at h
  case pendWait self u =>
    obtain ⟨_, rfl⟩ := h
    cases hr
  case notifyWait u next =>
    obtain ⟨_, rfl⟩ := h
    cases hr
  all_goals subst h
  case deleteTunlock tid self u deletable => revert hr; split <;> [rintro ⟨⟩; (split <;> rintro ⟨⟩)]
  case listUnlock =>
    cases p'
    case unlockClear => rfl
    case listUnlock next =>
      obtain ⟨edit, hnext⟩ := hp
      cases edit <;> exact hnext.elim
    all_goals cases hr
  case notifyDunlock =>
    have hnext : Notified p' := hp
    cases p' <;> first | exact hnext.elim | cases hr
  case notifyKilled => obtain rfl | rfl := hp <;> cases hr
  all_goals cases hr

theorem next_keeps (h : (code (ι := ι) ids t p).Next p') :
    (raising p = true → raising p' = true) ∧ (restored p = true → restored p' = true) := by
  cases p <;> simp only [code, Instr.Next] at h
  case pendWait self u => constructor <;> rintro ⟨⟩
  case notifyWait u next => constructor <;> rintro ⟨⟩
  all_goals subst h
  case listLock edit next =>
    refine ⟨?_, by rintro ⟨⟩⟩
    cases edit <;> exact id
  case listUnlock =>
    refine ⟨by rintro ⟨⟩, fun hr => ?_⟩
    cases p' <;> first | exact hr | cases hr
  all_goals constructor <;> rintro ⟨⟩

theorem next_alone (h : (code (ι := ι) ids t p).Next p') (hp : Shape p) (ha : alone p' = true) : alone p = true := by
  cases p <;> simp only [code, Instr.Next] at h
  case pendWait self u =>
    obtain ⟨_, rfl⟩ := h
    cases ha
  case notifyWait u next =>
    obtain ⟨_, rfl⟩ := h
    cases ha
  all_goals subst h
  case deleteTunlock tid self u deletable => revert ha; split <;> [rintro ⟨⟩; (split <;> rintro ⟨⟩)]
  case listLock edit next =>
    cases edit
    case raise task => cases task <;> exact ha
    all_goals cases ha
  case listUnlock =>
    obtain ⟨edit, hnext⟩ := hp
    cases edit
    case raise =>
      have hacquired : Acquired p' := hnext
      cases p' <;> first | exact hacquired.elim | cases ha
    case unlink =>
      cases p'
      case listLock edit next => cases edit <;> first | exact hnext.elim | cases ha
      all_goals first | exact hnext.elim | cases ha
    all_goals cases p' <;> first | exact hnext.elim | cases ha
  case notifyDunlock =>
    have hnext : Notified p' := hp
    cases p' <;> first | exact hnext.elim | cases ha
  case notifyKilled => obtain rfl | rfl := hp <;> cases ha
  all_goals cases ha

theorem next_not_prioAttr (h : (code (ι := ι) ids t p).Next p') (hp : Shape p) (u : τ) : p' ≠ .prioAttr u := by
  rintro rfl
  have hholds := next_willUse (u := u) h hp rfl
  cases p <;> simp only [code, Instr.Next] at h
  case listUnlock =>
    subst h
    obtain ⟨edit, hnext⟩ := hp
    cases edit <;> exact hnext.elim
  case notifyDunlock =>
    subst h
    exact hp.elim
  case deleteTunlock tid self v deletable => revert h; split <;> [rintro ⟨⟩; (split <;> rintro ⟨⟩)]
  case notifyWait v next =>
    obtain ⟨_, h⟩ := h
    cases h
  all_goals first | cases hholds | cases h

variable {s s' : LifeState θ τ ι}

/-- The handle of the task of the thread that has the scheduler lock is stored by `taskInit`
only. -/
theorem Runs.handle_locker (hr : Runs ids t p s.mem s'.mem p') (hh : Handles s.mem s.ctl) (hheld : Held s)
    (hp : s.ctl t = .awake p) (hc : Restores ⟨s, t, s'⟩) {u : τ} (hw : (s.mem.tcb u).pthrid = some w)
    (hl : s.mem.locker = some w) : (s'.mem.tcb u).pthrid = some w ∨ ∃ pri policy next, p = .listEdit (.init u pri policy) next := by
  have hhas : Has s.mem t p := by
    have hhas := hh.has t
    rwa [hp] at hhas
  have hmine : Lifecycle.holds p = true → t = w := by
    intro hholds
    have hlocker := hheld.holder t (by rw [hp]; exact hholds)
    exact Option.some.inj (hlocker.symm.trans hl)
  have hcreate : ∀ created failed, ¬ CreatePoint p u created failed := by
    intro created failed hc'
    cases hc' with
    | activate u =>
      have hnone : (s.mem.tcb u).pthrid = none := hhas
      rw [hnone] at hw
      cases hw
    | restart u =>
      obtain rfl := hmine rfl
      obtain hdetached | hjoined := hhas t hw
      · have hleaving := hh.detached t hdetached
        rw [hp] at hleaving
        cases hleaving
      · have hgone := hh.exited t (hh.joined t hjoined)
        rw [hp] at hgone
        cases hgone
    | starter u => exact hc.starter u (by rw [hp]; rfl) w hw hl
  obtain ⟨hsame, _⟩ | ⟨_, hreplaces | ⟨_, _, hc'⟩⟩ | ⟨_, ⟨⟨_, hc'⟩, _⟩⟩ := hr.handle_cases u
  · exact .inl (hsame.trans hw)
  · cases p
    case listEdit edit next =>
      cases edit <;> cases hreplaces
      exact .inr ⟨_, _, next, rfl⟩
    case starterCreate v =>
      cases hreplaces
      exact absurd hl (hc.starter u (by rw [hp]; rfl) w hw)
    all_goals cases hreplaces
  · exact absurd hc' (hcreate _ _)
  · exact absurd hc' (hcreate _ _)

theorem Runs.cleanup_wrapped (hr : Runs ids t p m m' p') (hne : m'.locker ≠ m.locker) (hp : CleanPoint p p') :
    cleansUp m t p = true := by
  cases hr with
  | reads hg => exact absurd rfl hne
  | cleaned hc hwrapped =>
    cases hc with
    | closing => rfl
    | dying => exact hwrapped rfl
  | created hc => cases hc <;> cases hp
  | notCreated hc => cases hc <;> cases hp
  | cancels hc => cases hc <;> cases hp
  | joins hj => cases hj <;> cases hp
  | protects count hc => cases hc <;> cases hp
  | _ => cases hp

/-- How the thread that has the scheduler lock loses it. -/
theorem Runs.locker_keeps (hr : Runs ids t p m m' p') (hclears : Lifecycle.clears p = true → m.locker = some t)
    (hl : m.locker = some w) : m'.locker = some w ∨ w = t ∧ (Lifecycle.restored p = true ∨ cleansUp m t p = true) := by
  obtain ⟨hlocker, _, _⟩ | ⟨_, _, rfl, _, hfree, hlocker, _⟩ | ⟨_, _, hmine, hlocker, _⟩ | ⟨next, rfl, _⟩ |
    ⟨hclean, hm⟩ := hr.lock_cases
  · exact .inl (hlocker.trans hl)
  · obtain hnone | hsome := hfree
    · rw [hl] at hnone
      cases hnone
    · exact .inl (hlocker.trans (hsome.symm.trans hl))
  · exact .inl (hlocker.trans (hmine.symm.trans hl))
  · exact .inr ⟨Option.some.inj (hl.symm.trans (hclears rfl)), .inl rfl⟩
  · by_cases hmine : m.locker = some t
    · refine .inr ⟨Option.some.inj (hl.symm.trans hmine), .inr (hr.cleanup_wrapped ?_ hclean)⟩
      rw [hm, Mem.cleanup, if_pos hmine, hmine]
      rintro ⟨⟩
    · rw [hm, Mem.cleanup, if_neg hmine]
      exact .inl hl

/-- How a thread comes to have it. -/
theorem Runs.locker_new (hr : Runs ids t p m m' p') (hl : m'.locker = some w) :
    m.locker = some w ∨ w = t ∧ m.locker = none ∧ ∃ task next, p = .lockFlag task next ∧ p' = .lockTest task next := by
  obtain ⟨hlocker, _, _⟩ | ⟨task, next, rfl, rfl, hfree, hlocker, _⟩ | ⟨_, _, hmine, hlocker, _⟩ | ⟨next, rfl, _, hlocker, _⟩ |
    ⟨hclean, hm⟩ := hr.lock_cases
  · exact .inl (hlocker.symm.trans hl)
  · obtain hnone | hsome := hfree
    · exact .inr ⟨Option.some.inj (hl.symm.trans hlocker), hnone, task, next, rfl, rfl⟩
    · exact .inl (hsome.trans (hlocker.symm.trans hl))
  · exact .inl (hmine.trans (hlocker.symm.trans hl))
  · rw [hlocker] at hl
    cases hl
  · rw [hm, Mem.cleanup] at hl
    split at hl
    · cases hl
    · exact .inl hl

/-- A handle that is new is that of a thread that has just been created. -/
theorem Runs.handle_new (hr : Runs ids t p m m' p') {u : τ} (hw : (m'.tcb u).pthrid = some w) :
    (m.tcb u).pthrid = some w ∨ Created p p' m m' u w := by
  obtain ⟨hsame, _⟩ | ⟨hnone, _⟩ | ⟨v, hc⟩ := hr.handle_cases u
  · exact .inl (hsame.symm.trans hw)
  · rw [hnone] at hw
    cases hw
  · exact .inr (Option.some.inj (hc.pthrid.symm.trans hw) ▸ hc)

theorem Runs.own_init (hr : Runs ids t p m m' p') {u : τ} {pri : ℤ} {policy : SchedPolicy} {next : Pc τ ι}
    (hp : p = .listEdit (.init u pri policy) next) : Own m' u := by
  subst hp
  cases hr with
  | reads hg =>
    cases hg with
    | killed hk => cases hk
  | edited edit next he =>
    obtain ⟨htcb, _⟩ := Mem.append_eq he
    rw [Own, htcb, Mem.setTcb_self]
    rfl
  | created hc => cases hc
  | notCreated hc => cases hc
  | cancels hc => cases hc
  | joins hj => cases hj
  | protects count hc => cases hc
  | cleaned hc => cases hc

theorem Runs.restore (hr : Runs ids t p m m' p') {next : Pc τ ι} (hp : p = .listEdit .restore next) :
    p' = .listUnlock next ∧ ∃ task, m.myTask t = some task ∧ ∀ v, task = some v → Own m' v := by
  subst hp
  cases hr with
  | reads hg =>
    cases hg with
    | killed hk => cases hk
  | edited edit next he =>
    obtain ⟨task, hmine, heq⟩ := Option.map_eq_some_iff.mp he
    refine ⟨rfl, task, hmine, fun v hv => ?_⟩
    subst hv
    rw [← heq]
    show ((m.setTcb v _).tcb v).attr.schedPriority = ((m.setTcb v _).tcb v).prvPriority
    rw [Mem.setTcb_self]
  | created hc => cases hc
  | notCreated hc => cases hc
  | cancels hc => cases hc
  | joins hj => cases hj
  | protects count hc => cases hc
  | cleaned hc => cases hc

theorem Runs.raise (hr : Runs ids t p m m' p') {u : τ} {next : Pc τ ι} (hp : p = .listEdit (.raise (some u)) next) :
    Raised m' u := by
  subst hp
  cases hr with
  | reads hg =>
    cases hg with
    | killed hk => cases hk
  | edited edit next he =>
    cases he
    show ((m.setTcb u _).tcb u).attr.schedPriority = schedGetPriorityMax
    rw [Mem.setTcb_self]
  | created hc => cases hc
  | notCreated hc => cases hc
  | cancels hc => cases hc
  | joins hj => cases hj
  | protects count hc => cases hc
  | cleaned hc => cases hc

end

end

end V2lin.Lifecycle
