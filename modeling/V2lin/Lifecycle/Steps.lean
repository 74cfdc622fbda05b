import V2lin.Lifecycle.Code

/-! What the straight-line code of the task library's whole life can do.

`Goes` lists the ways through the blocks that only read, `Runs` those that change the
memory; each way is one constructor, with what is true of the memory on it. -/
namespace V2lin.Lifecycle
open Threads V2lin.Task V2lin.TaskLib

section
variable {θ τ ι : Type}

/-! ### The memory -/

/-- A walk that ends has found a task on the list with the property, or none has it. -/
theorem Mem.search_some {m : Mem θ τ ι} {p : τ → Bool} {u : τ} (h : m.search p = some (some u)) :
    u ∈ m.taskList ∧ p u = true := by
  unfold Mem.search at h
  cases hf : m.taskList.find? p with
  | some v =>
    rw [hf] at h
    cases h
    exact ⟨List.mem_of_find?_eq_some hf, List.find?_some hf⟩
  | none =>
    rw [hf] at h
    dsimp only at h
    split at h <;> cases h

theorem Mem.search_none {m : Mem θ τ ι} {p : τ → Bool} (h : m.search p = some none) :
    ∀ u ∈ m.taskList, p u = false := by
  unfold Mem.search at h
  cases hf : m.taskList.find? p with
  | some v =>
    rw [hf] at h
    cases h
  | none => exact fun u hu => Bool.eq_false_iff.mpr (List.find?_eq_none.mp hf u hu)

section
variable [DecidableEq τ]

@[simp] theorem Mem.setTcb_self (m : Mem θ τ ι) (u : τ) (b : Tcb θ τ ι) : (m.setTcb u b).tcb u = b :=
  Function.update_self ..

@[simp] theorem Mem.setTcb_of_ne (m : Mem θ τ ι) {u v : τ} (b : Tcb θ τ ι) (h : v ≠ u) :
    (m.setTcb u b).tcb v = m.tcb v :=
  Function.update_of_ne h ..

/-- Storing a control block that agrees with the old one on `f` changes `f` nowhere. -/
theorem Mem.setTcb_congr {α : Type} (f : Tcb θ τ ι → α) (m : Mem θ τ ι) {u : τ} {b : Tcb θ τ ι}
    (h : f b = f (m.tcb u)) (v : τ) : f ((m.setTcb u b).tcb v) = f (m.tcb v) := by
  by_cases hv : v = u
  · rw [hv, Mem.setTcb_self, h]
  · rw [Mem.setTcb_of_ne m b hv]

end

variable [DecidableEq θ]

@[simp] theorem Mem.setPthread_self (m : Mem θ τ ι) (w : θ) (b : Pthread τ) : (m.setPthread w b).pthread w = b :=
  Function.update_self ..

@[simp] theorem Mem.setPthread_of_ne (m : Mem θ τ ι) {w v : θ} (b : Pthread τ) (h : v ≠ w) :
    (m.setPthread w b).pthread v = m.pthread v :=
  Function.update_of_ne h ..

/-- `my_task` finds a task on the list whose handle is the caller's. -/
theorem Mem.myTask_some {m : Mem θ τ ι} {t : θ} {u : τ} (h : m.myTask t = some (some u)) :
    u ∈ m.taskList ∧ (m.tcb u).pthrid = some t := by
  obtain ⟨hin, hp⟩ := Mem.search_some h
  exact ⟨hin, of_decide_eq_true hp⟩

theorem Mem.myTask_none {m : Mem θ τ ι} {t : θ} (h : m.myTask t = some none) :
    ∀ u ∈ m.taskList, (m.tcb u).pthrid ≠ some t :=
  fun u hu => of_decide_eq_false (Mem.search_none h u hu)

theorem Mem.taskFor_listed {m : Mem θ τ ι} {t : θ} {tid : ℤ} {u : τ} (h : m.taskFor t tid = some (some u)) :
    u ∈ m.taskList := by
  unfold Mem.taskFor at h
  split at h
  · exact (Mem.myTask_some h).1
  · exact (Mem.search_some h).1

variable [DecidableEq τ]

/-! ### The blocks -/

/-- The first point of a call whose first step reads no more than the caller's own task. -/
inductive Enters (t : θ) (m : Mem θ τ ι) : Op τ → Pc τ ι → Prop where
  | refused (task pri) {opts} : opts ≠ 0 → Enters t m (.taskInit task pri opts) .idle
  | null (pri) : Enters t m (.taskInit none pri 0) (.listUnlock .idle)
  | init (u pri) : Enters t m (.taskInit (some u) pri 0) (.initLock u pri .idle)
  | activate (tid) : Enters t m (.taskActivate tid) (.lockFind (.activateFind tid))
  | delete (tid) {self} : m.myTask t = some self → Enters t m (.taskDelete tid) (.lockFind (.deleteFind tid self))
  | deleteForce (tid) : Enters t m (.taskDeleteForce tid) (.forceEnter tid .idle)
  | restart (tid) : Enters t m (.taskRestart tid) (.lockFind (.restartFind tid))
  | prioritySet (tid pri) : Enters t m (.taskPrioritySet tid pri) (.lockFind (.prioFind tid pri))
  | priorityGet (tid) : Enters t m (.taskPriorityGet tid) (.lockFind (.getFind tid))
  | safe : Enters t m .taskSafe (.lockFind .safeFind)
  | unsafely : Enters t m .taskUnsafe (.lockFind .unsafeFind)
  | idListGet : Enters t m .taskIdListGet (.lockFind .idList)
  | timeSlice (ticks) : Enters t m (.kernelTimeSlice ticks) (.lockFind (.sliceSet ticks))

/-- The places where a cancelled thread may be killed, with those where it dies. -/
inductive KillPoint : Pc τ ι → Pc τ ι → Prop where
  | user : KillPoint .idle .dying
  | flag (task next) : KillPoint (.lockFlag task next) next.killed
  | test (task next) : KillPoint (.lockTest task next) next.killed
  | pendWoken (self u) : KillPoint (.pendWoken self u) (.pendKilled u)
  | notifyWoken (u next) : KillPoint (.notifyWoken u next) (.notifyKilled u next.killed)
  | forceJoin (u next) : KillPoint (.forceJoin u next) next.leave
  | restartJoin (u) : KillPoint (.restartJoin u) .dying

/-- The blocks that read the memory only. -/
inductive Goes (t : θ) (m : Mem θ τ ι) : Pc τ ι → Pc τ ι → Prop where
  | born : (m.pthread t).born = true → Goes t m .unborn .idle
  | calls (op) : Goes t m .idle (.enter op)
  | userLock : Goes t m .idle (.lockFind .idle)
  | userUnlock : Goes t m .idle (.unlockCount .idle)
  | ends : (m.pthread t).wrapped = false → Goes t m .idle .exit
  | returns : (m.pthread t).wrapped = true → Goes t m .idle .closing
  | enters {op p'} : Enters t m op p' → Goes t m (.enter op) p'
  | initFlag (u pri next) : Goes t m (.initFlag u pri next) (.listEdit (.init u pri m.policy) next)
  | lockFind {task} (next) : m.myTask t = some task → Goes t m (.lockFind next) (.lockFlag task next)
  | lockTest (task next) : Goes t m (.lockTest task next) (.listLock (.raise task) next)
  | foreign (next) : m.locker ≠ some t → Goes t m (.unlockCount next) next
  | remove (u next) : Goes t m (.remove u next) (unlinkWaiting u (.listLock (.remove u) (.free u next)) m)
  | kept {u} (next) : (m.tcb u).staticTask = true → Goes t m (.free u next) next
  | spawnRefused (u pri) {opts} : opts ≠ 0 →
      Goes t m (.spawnTid u pri opts) (.spawnFree u (newTid (m.taskList.map fun u => (m.tcb u).taskid)))
  | spawnInit (u) {pri} : Legal pri → Goes t m (.spawnTid u pri 0)
      (.initLock u pri (.spawnName u (newTid (m.taskList.map fun u => (m.tcb u).taskid))))
  | spawnIllegal (u) {pri} : ¬ Legal pri → Goes t m (.spawnTid u pri 0)
      (.initLock u pri (.spawnFree u (newTid (m.taskList.map fun u => (m.tcb u).taskid))))
  | activateNone (tid) : Goes t m (.activateFind tid) (.unlockCount .idle)
  | activateDead {tid u} : m.taskFor t tid = some (some u) → (m.tcb u).dead = true →
      Goes t m (.activateFind tid) (.activateCreate u)
  | deleteNone (tid self) : Goes t m (.deleteFind tid self) (.unlockCount .idle)
  | deleteSome {tid u} (self) : m.taskFor t tid = some (some u) →
      Goes t m (.deleteFind tid self) (.deleteTlock tid self u)
  | deleteTest (tid self u deletable) : Goes t m (.deleteTest tid self u) (.deleteTunlock tid self u deletable)
  | pendAlone (u) : Goes t m (.pendLink none u) (.pendTlock none u)
  | pendLink (u v) : Goes t m (.pendLink (some v) u) (.listLock (.link u v) (.pendTlock (some v) u))
  | pends (self u) : Goes t m (.pendTest self u) (.pendWait self u)
  | pended (self u) : Goes t m (.pendTest self u) (.lockFind (.pendUnlink self u))
  | pendWoken (self u) : Goes t m (.pendWoken self u) (.pendTest self u)
  | pendUnlink (u v) : Goes t m (.pendUnlink (some v) u) (unlinkWaiting v (.pendCheck u) m)
  | pendLast (u) : Goes t m (.pendCheck u) (.pendDbcst u)
  | pendMore (u) : Goes t m (.pendCheck u) (.pendTunlock u)
  | forceEnter {self} (tid next) : m.myTask t = some self → Goes t m (.forceEnter tid next) (.lockFind (.forceFind tid self next))
  | forceNone (tid self next) : Goes t m (.forceFind tid self next) (.unlockCount next)
  | forceSome {tid u} (self next) : m.taskFor t tid = some (some u) →
      Goes t m (.forceFind tid self next) (.notifyTest u (.forceSplit self u next))
  | forceSelf (u next) : Goes t m (.forceSplit (some u) u next) (.remove u (.unlockCount (.unlockCount next)))
  | forceOther {u self} (next) : some u ≠ self → Goes t m (.forceSplit self u next) (.forceCancel u next)
  | nobody (u next) : Goes t m (.notifyTest u next) next
  | notifies (u next) : Goes t m (.notifyTest u next) (.notifyDlock u next)
  | undrained (u next) : Goes t m (.notifyDrain u next) (.notifyWait u next)
  | drained (u next) : Goes t m (.notifyDrain u next) (.notifyDunlock u next)
  | notifyWoken (u next) : Goes t m (.notifyWoken u next) (.notifyDrain u next)
  | restartNone {tid} : m.taskFor t tid = some none → Goes t m (.restartFind tid) .idle
  | restartSome {tid self u} : m.myTask t = some self → m.taskFor t tid = some (some u) →
      Goes t m (.restartFind tid) (unlinkWaiting u (.restartSplit self u) m)
  | restartOther {u self} : some u ≠ self → Goes t m (.restartSplit self u) (.restartCancel u)
  | restartSelf (u) : Goes t m (.restartSplit (some u) u) (.restartDetach u)
  | untimed (u) : Goes t m (.restartTimer u) .dying
  | prioNone (tid pri) : Goes t m (.prioFind tid pri) (.unlockCount .idle)
  | prioSelf {u} (tid) : (tid ≠ 0 → m.myTask t = some (some u)) → Goes t m (.prioSplit tid u) (.unlockCount .idle)
  | prioOther {tid u self} : tid ≠ 0 → m.myTask t = some self → self ≠ some u → Goes t m (.prioSplit tid u) (.prioAttr u)
  | prioApply (u) : Goes t m (.prioApply u) (.unlockCount .idle)
  | getFind (tid) : Goes t m (.getFind tid) (.unlockCount .idle)
  | idList : Goes t m .idList (.unlockCount .idle)
  | sliceEnd (policy) : Goes t m (.sliceTask none policy) (.unlockCount .idle)
  | sliceApply (u policy) : Goes t m (.sliceApply u policy) (.sliceTask (m.nxtTask u) policy)
  | safeFind {u} : m.myTask t = some (some u) → Goes t m .safeFind (.safeTlock u)
  | unsafeFind {u} : m.myTask t = some (some u) → Goes t m .unsafeFind (.unsafeTlock u)
  | unsafeNotify (u madeDeletable) : Goes t m (.unsafeCheck u madeDeletable) (.notifyTest u .idle)
  | unsafeDone (u madeDeletable) : Goes t m (.unsafeCheck u madeDeletable) .idle
  | starterNone (tid) : Goes t m (.starterFind tid) .idle
  | starterSome {tid u} : m.taskFor t tid = some (some u) → Goes t m (.starterFind tid) (.starterCreate u)
  | unwrapped : (m.pthread t).wrapped = false → Goes t m .dying .exit
  | reborn : (m.pthread t).exited = false → Goes t m .gone .idle
  | closeForce {u} : (m.pthread t).task = some u → Goes t m .closeForce (.forceEnter (m.tcb u).taskid .exit)
  | killed {p p'} : KillPoint p p' → (m.pthread t).cancelled = true → Goes t m p p'

/-- The calls of `pthread_create`, with the points that follow a success and a failure. -/
inductive CreatePoint : Pc τ ι → τ → Pc τ ι → Pc τ ι → Prop where
  | activate (u) : CreatePoint (.activateCreate u) u (.unlockCount .idle) (.remove u (.unlockCount .idle))
  | restart (u) : CreatePoint (.restartCreate u) u (.unlockCount .idle) (.unlockCount .idle)
  | starter (u) : CreatePoint (.starterCreate u) u .idle .idle

/-- The calls of `pthread_cancel`. -/
inductive CancelPoint : Pc τ ι → τ → Pc τ ι → Prop where
  | force (u next) : CancelPoint (.forceCancel u next) u (.forceJoin u next)
  | restart (u) : CancelPoint (.restartCancel u) u (.restartJoin u)

/-- The calls of `pthread_join`. -/
inductive JoinPoint : Pc τ ι → τ → Pc τ ι → Prop where
  | force (u next) : JoinPoint (.forceJoin u next) u (.remove u (.unlockCount next))
  | restart (u) : JoinPoint (.restartJoin u) u (.restartCreate u)

/-- The functions that set the round-robin flag and change no task. -/
inductive FlagOp : Op τ → Bool → Prop where
  | enable : FlagOp .enableRoundRobin true
  | disable : FlagOp .disableRoundRobin false

/-- The places where `delete_safe_count` is changed. -/
inductive CountPoint : Pc τ ι → τ → Pc τ ι → Prop where
  | safe (u) : CountPoint (.safeCount u) u (.safeTunlock u)
  | unsafely (u madeDeletable) : CountPoint (.unsafeCount u) u (.unsafeTunlock u madeDeletable)

/-- The places where `task_wrapper_cleanup` is called. -/
inductive CleanPoint : Pc τ ι → Pc τ ι → Prop where
  | closing : CleanPoint .closing .closeForce
  | dying : CleanPoint .dying .exit

variable [DecidableEq ι]

inductive Runs (ids : τ → ℤ) (t : θ) : Pc τ ι → Mem θ τ ι → Mem θ τ ι → Pc τ ι → Prop where
  | reads {p m p'} : Goes t m p p' → Runs ids t p m m p'
  | flagged {m} (task next) : m.locker = none ∨ m.locker = some t → Runs ids t (.lockFlag task next) m
      {m with locker := some t, taskLockLevel := Sched.countUp ulongMax m.taskLockLevel} (.lockTest task next)
  | counted {m} (next) : m.locker = some t → Runs ids t (.unlockCount next) m
      {m with taskLockLevel := Sched.countDown m.taskLockLevel}
      (if Sched.countDown m.taskLockLevel < 1 then .listLock .restore (.unlockClear next) else next)
  | cleared {m} (next) : Runs ids t (.unlockClear next) m {m with locker := none} next
  | edited {m m'} (edit : Edit τ ι) (next) : edit.run ids t m = some m' → Runs ids t (.listEdit edit next) m m' (.listUnlock next)
  | freed {m u} (next) : (m.tcb u).staticTask = false → Runs ids t (.free u next) m (m.setHeap u .free) next
  | allocated {m u} (pri opts) : m.heap u = .free →
      Runs ids t (.enter (.taskSpawn pri opts)) m (m.setHeap u .allocated) (.spawnTid u pri opts)
  | spawnFree {m} (u tid) : Runs ids t (.spawnFree u tid) m (m.setHeap u .free) (.lockFind (.activateFind tid))
  | named {m} (u tid) : Runs ids t (.spawnName u tid) m (m.setTcb u {m.tcb u with taskid := tid, staticTask := false})
      (.lockFind (.activateFind tid))
  | created {m p u w created failed} : CreatePoint p u created failed → (m.pthread w).Vacant →
      Runs ids t p m ((m.setTcb u {m.tcb u with pthrid := none, dead := false}).create u w) created
  | notCreated {m p u created failed} : CreatePoint p u created failed →
      Runs ids t p m (m.setTcb u {m.tcb u with pthrid := none, dead := false}) failed
  | cancels {m m' p u p'} : CancelPoint p u p' → m.cancel u = some m' → Runs ids t p m m' p'
  | joins {m m' p u p'} : JoinPoint p u p' → m.join u = some m' → Runs ids t p m m' p'
  | detaches {m m' u} : m.detach u = some m' → Runs ids t (.restartDetach u) m m' (.restartTimer u)
  | timed {m} (u) : Runs ids t (.restartTimer u) m {m with restarts := (m.tcb u).taskid :: m.restarts} .dying
  | expired {m tid} : tid ∈ m.restarts → Runs ids t .idle m {m with restarts := m.restarts.erase tid} (.starterFind tid)
  | prioStored {m tid u} (pri) : m.taskFor t tid = some (some u) → Runs ids t (.prioFind tid pri) m
      (m.setTcb u {m.tcb u with vxwPriority := pri, prvPriority := newPriority pri}) (.prioSplit tid u)
  | prioAttr {m} (u) : Runs ids t (.prioAttr u) m
      (m.setTcb u {m.tcb u with attr := {(m.tcb u).attr with schedPriority := (m.tcb u).prvPriority}}) (.prioApply u)
  | flagSet {m op enabled} : FlagOp op enabled → Runs ids t (.enter op) m {m with roundRobinEnabled := enabled} .idle
  | sliceSet {m} (ticks enabled policy) : Runs ids t (.sliceSet ticks) m {m with roundRobinEnabled := enabled}
      (.sliceTask m.taskList.head? policy)
  | sliceAttr {m} (u policy) : Runs ids t (.sliceTask (some u) policy) m
      (m.setTcb u {m.tcb u with attr := {(m.tcb u).attr with schedPolicy := policy}}) (.sliceApply u policy)
  | protects {m p u p'} (count) : CountPoint p u p' →
      Runs ids t p m (m.setTcb u {m.tcb u with deleteSafeCount := count}) p'
  | cleaned {m p p'} : CleanPoint p p' → (p = .dying → (m.pthread t).wrapped = true) → Runs ids t p m (m.cleanup t) p'
  | exits {m} : Runs ids t .exit m (m.setPthread t {m.pthread t with exited := true}) .gone

variable {ids : τ → ℤ} {t : θ} {p p' next killed : Pc τ ι} {c : Choice θ τ} {m m' : Mem θ τ ι}

omit [DecidableEq θ] [DecidableEq τ] [DecidableEq ι] in
theorem found_eq {walk : Option (Option τ)} {next : Option τ → Pc τ ι} (h : found walk m next = some (m', p')) :
    ∃ task, walk = some task ∧ m' = m ∧ p' = next task := by
  obtain ⟨task, hw, heq⟩ := Option.map_eq_some_iff.mp h
  cases heq
  exact ⟨task, hw, rfl, rfl⟩

omit [DecidableEq θ] [DecidableEq τ] [DecidableEq ι] in
theorem needs_eq {walk : Option (Option τ)} {next : τ → Pc τ ι} (h : needs walk m next = some (m', p')) :
    ∃ u, walk = some (some u) ∧ m' = m ∧ p' = next u := by
  obtain ⟨task, hw, heq⟩ := Option.bind_eq_some_iff.mp h
  obtain ⟨u, rfl, heq⟩ := Option.map_eq_some_iff.mp heq
  cases heq
  exact ⟨u, hw, rfl, rfl⟩

theorem cancellable_runs (hg : Goes t m p next) (hk : KillPoint p killed)
    (h : cancellable t killed next c m = some (m', p')) : Runs ids t p m m' p' := by
  unfold cancellable at h
  split at h
  · split at h
    · cases h
      exact .reads (.killed hk (by assumption))
    · cases h
  · cases h
    exact .reads hg

theorem joinBlock_runs {u : τ} (hj : JoinPoint p u next) (hk : KillPoint p killed)
    (h : joinBlock t u killed next c m = some (m', p')) : Runs ids t p m m' p' := by
  unfold joinBlock at h
  split at h
  · split at h
    · cases h
      exact .reads (.killed hk (by assumption))
    · cases h
  · obtain ⟨n, hn, heq⟩ := Option.map_eq_some_iff.mp h
    cases heq
    exact .joins hj hn

theorem flagBlock_runs {task : Option τ} (h : flagBlock t task next c m = some (m', p')) :
    Runs ids t (.lockFlag task next) m m' p' := by
  unfold flagBlock at h
  split at h
  · split at h
    · cases h
      exact .reads (.killed (.flag task next) (by assumption))
    · cases h
  · split at h
    · cases h
      exact .flagged task next (by assumption)
    · cases h

theorem countBlock_runs : Runs ids t (.unlockCount next) m (countBlock t next m).1 (countBlock t next m).2 := by
  unfold countBlock
  split
  · exact .counted next (by assumption)
  · exact .reads (.foreign next (by assumption))

theorem createBlock_runs {u : τ} {created failed : Pc τ ι} (hc : CreatePoint p u created failed)
    (h : createBlock u created failed c m = some (m', p')) : Runs ids t p m m' p' := by
  cases c with
  | thread w =>
    simp only [createBlock] at h
    split at h
    · cases h
      exact .created hc (by assumption)
    · cases h
  | noThread =>
    cases h
    exact .notCreated hc
  | _ => cases h

theorem userBlock_runs (h : userBlock t c m = some (m', p')) : Runs ids t .idle m m' p' := by
  cases c with
  | call op =>
    cases h
    exact .reads (.calls op)
  | lock =>
    cases h
    exact .reads .userLock
  | unlock =>
    cases h
    exact .reads .userUnlock
  | ret =>
    cases h
    split
    · exact .reads (.returns (by assumption))
    · exact .reads (.ends (Bool.eq_false_iff.mpr (by assumption)))
  | starter tid =>
    simp only [userBlock] at h
    split at h
    · cases h
      exact .expired (by assumption)
    · cases h
  | kill =>
    simp only [userBlock] at h
    split at h
    · cases h
      exact .reads (.killed .user (by assumption))
    · cases h
  | _ => cases h

theorem enterBlock_runs {op : Op τ} (h : enterBlock t op c m = some (m', p')) : Runs ids t (.enter op) m m' p' := by
  cases op with
  | taskInit task pri opts =>
    simp only [enterBlock] at h
    split at h
    · cases h
      exact .reads (.enters (.refused task pri (by assumption)))
    · rename_i hopts
      obtain rfl := not_not.mp hopts
      cases h
      cases task with
      | none => exact .reads (.enters (.null pri))
      | some u => exact .reads (.enters (.init u pri))
  | taskSpawn pri opts =>
    cases c with
    | address u =>
      simp only [enterBlock] at h
      split at h
      · cases h
        exact .allocated pri opts (by assumption)
      · cases h
    | _ => cases h
  | taskActivate tid =>
    cases h
    exact .reads (.enters (.activate tid))
  | taskDelete tid =>
    obtain ⟨self, hself, rfl, rfl⟩ := found_eq h
    exact .reads (.enters (.delete tid hself))
  | taskDeleteForce tid =>
    cases h
    exact .reads (.enters (.deleteForce tid))
  | taskRestart tid =>
    cases h
    exact .reads (.enters (.restart tid))
  | taskPrioritySet tid pri =>
    cases h
    exact .reads (.enters (.prioritySet tid pri))
  | taskPriorityGet tid =>
    cases h
    exact .reads (.enters (.priorityGet tid))
  | taskSafe =>
    cases h
    exact .reads (.enters .safe)
  | taskUnsafe =>
    cases h
    exact .reads (.enters .unsafely)
  | taskIdListGet =>
    cases h
    exact .reads (.enters .idListGet)
  | kernelTimeSlice ticks =>
    cases h
    exact .reads (.enters (.timeSlice ticks))
  | enableRoundRobin =>
    cases h
    exact .flagSet .enable
  | disableRoundRobin =>
    cases h
    exact .flagSet .disable

theorem spawnTidBlock_runs {u : τ} {pri opts : ℤ} (h : spawnTidBlock u pri opts m = some (m', p')) :
    Runs ids t (.spawnTid u pri opts) m m' p' := by
  unfold spawnTidBlock at h
  split at h
  · cases h
  · cases h
    by_cases hopts : opts = 0
    · subst hopts
      simp only [ne_eq, not_true_eq_false, if_false]
      by_cases hl : Legal pri
      · rw [if_pos hl]
        exact .reads (.spawnInit u hl)
      · rw [if_neg hl]
        exact .reads (.spawnIllegal u hl)
    · rw [if_pos hopts]
      exact .reads (.spawnRefused u pri hopts)

theorem activateBlock_runs {tid : ℤ} (h : activateBlock t tid m = some (m', p')) :
    Runs ids t (.activateFind tid) m m' p' := by
  obtain ⟨task, htask, rfl, rfl⟩ := found_eq h
  cases task with
  | none => exact .reads (.activateNone tid)
  | some u =>
    dsimp only
    split
    · exact .reads (.activateDead htask (by assumption))
    · exact .reads (.activateNone tid)

theorem restartBlock_runs {tid : ℤ} (h : restartBlock t tid m = some (m', p')) :
    Runs ids t (.restartFind tid) m m' p' := by
  obtain ⟨self, hself, hfound⟩ := Option.bind_eq_some_iff.mp h
  obtain ⟨task, htask, rfl, rfl⟩ := found_eq hfound
  cases task with
  | none => exact .reads (.restartNone htask)
  | some u => exact .reads (.restartSome hself htask)

theorem prioBlock_runs {tid pri : ℤ} (h : prioBlock t tid pri m = some (m', p')) :
    Runs ids t (.prioFind tid pri) m m' p' := by
  obtain ⟨task, htask, heq⟩ := Option.map_eq_some_iff.mp h
  cases task with
  | none =>
    cases heq
    exact .reads (.prioNone tid pri)
  | some u =>
    cases heq
    exact .prioStored pri htask

theorem prioSplitBlock_runs {tid : ℤ} {u : τ} (h : prioSplitBlock t tid u m = some (m', p')) :
    Runs ids t (.prioSplit tid u) m m' p' := by
  unfold prioSplitBlock at h
  split at h
  · rename_i htid
    obtain ⟨self, hself, rfl, rfl⟩ := found_eq h
    split
    · rename_i heq
      exact .reads (.prioSelf tid fun _ => heq ▸ hself)
    · exact .reads (.prioOther htid hself (by assumption))
  · rename_i htid
    cases h
    exact .reads (.prioSelf tid fun hne => absurd hne htid)

theorem block_runs {block : Choice θ τ → Mem θ τ ι → Option (Mem θ τ ι × Pc τ ι)}
    (hi : code ids t p = .run block) (h : block c m = some (m', p')) : Runs ids t p m m' p' := by
  cases p <;> simp only [code, Instr.run.injEq, reduceCtorEq] at hi <;> subst hi
  case unborn =>
    dsimp only at h
    split at h
    · cases h
      exact .reads (.born (by assumption))
    · cases h
  case idle => exact userBlock_runs h
  case enter op => exact enterBlock_runs h
  case initFlag u pri next =>
    cases h
    exact .reads (.initFlag u pri next)
  case lockFind next =>
    obtain ⟨task, htask, rfl, rfl⟩ := found_eq h
    exact .reads (.lockFind next htask)
  case lockFlag task next => exact flagBlock_runs h
  case lockTest task next => exact cancellable_runs (.lockTest task next) (.test task next) h
  case listEdit edit next =>
    obtain ⟨n, hn, heq⟩ := Option.map_eq_some_iff.mp h
    cases heq
    exact .edited edit next hn
  case unlockCount next =>
    have hruns : Runs ids t (.unlockCount next) m (countBlock t next m).1 (countBlock t next m).2 := countBlock_runs
    rwa [Option.some.inj h] at hruns
  case unlockClear next =>
    cases h
    exact .cleared _
  case remove u next =>
    cases h
    exact .reads (.remove u next)
  case free u next =>
    cases h
    split
    · exact .reads (.kept _ (by assumption))
    · rename_i hstatic
      exact .freed _ (Bool.eq_false_iff.mpr hstatic)
  case spawnTid u pri opts => exact spawnTidBlock_runs h
  case spawnFree u tid =>
    cases h
    exact .spawnFree u tid
  case spawnName u tid =>
    cases h
    exact .named u tid
  case activateFind tid => exact activateBlock_runs h
  case activateCreate u => exact createBlock_runs (.activate u) h
  case deleteFind tid self =>
    obtain ⟨task, htask, rfl, rfl⟩ := found_eq h
    cases task with
    | none => exact .reads (.deleteNone tid self)
    | some u => exact .reads (.deleteSome self htask)
  case deleteTest tid self u =>
    cases h
    exact .reads (.deleteTest tid self u _)
  case pendLink self u =>
    cases h
    cases self with
    | none => exact .reads (.pendAlone u)
    | some v => exact .reads (.pendLink u v)
  case pendTest self u =>
    cases h
    split
    · exact .reads (.pends self u)
    · exact .reads (.pended self u)
  case pendWoken self u => exact cancellable_runs (.pendWoken self u) (.pendWoken self u) h
  case pendUnlink self u =>
    obtain ⟨v, rfl, heq⟩ := Option.map_eq_some_iff.mp h
    cases heq
    exact .reads (.pendUnlink u v)
  case pendCheck u =>
    cases h
    split
    · exact .reads (.pendLast u)
    · exact .reads (.pendMore u)
  case forceEnter tid next =>
    obtain ⟨self, hself, rfl, rfl⟩ := found_eq h
    exact .reads (.forceEnter tid next hself)
  case forceFind tid self next =>
    obtain ⟨task, htask, rfl, rfl⟩ := found_eq h
    cases task with
    | none => exact .reads (.forceNone tid self next)
    | some u => exact .reads (.forceSome self next htask)
  case forceSplit self u next =>
    cases h
    split
    · rename_i heq
      subst heq
      exact .reads (.forceSelf u next)
    · exact .reads (.forceOther next (by assumption))
  case forceCancel u next =>
    obtain ⟨n, hn, heq⟩ := Option.map_eq_some_iff.mp h
    cases heq
    exact .cancels (.force u next) hn
  case forceJoin u next => exact joinBlock_runs (.force u next) (.forceJoin u next) h
  case notifyTest u next =>
    cases h
    split
    · exact .reads (.nobody u next)
    · exact .reads (.notifies u next)
  case notifyDrain u next =>
    cases h
    split
    · exact .reads (.undrained u next)
    · exact .reads (.drained u next)
  case notifyWoken u next => exact cancellable_runs (.notifyWoken u next) (.notifyWoken u next) h
  case restartFind tid => exact restartBlock_runs h
  case restartSplit self u =>
    cases h
    split
    · exact .reads (.restartOther (by assumption))
    · rename_i heq
      obtain rfl := not_not.mp heq
      exact .reads (.restartSelf u)
  case restartCancel u =>
    obtain ⟨n, hn, heq⟩ := Option.map_eq_some_iff.mp h
    cases heq
    exact .cancels (.restart u) hn
  case restartJoin u => exact joinBlock_runs (.restart u) (.restartJoin u) h
  case restartCreate u => exact createBlock_runs (.restart u) h
  case restartDetach u =>
    obtain ⟨n, hn, heq⟩ := Option.map_eq_some_iff.mp h
    cases heq
    exact .detaches hn
  case restartTimer u =>
    cases h
    split
    · exact .reads (.untimed u)
    · exact .timed u
  case prioFind tid pri => exact prioBlock_runs h
  case prioSplit tid u => exact prioSplitBlock_runs h
  case prioAttr u =>
    cases h
    exact .prioAttr u
  case prioApply u =>
    cases h
    exact .reads (.prioApply u)
  case getFind tid =>
    obtain ⟨task, _, rfl, rfl⟩ := found_eq h
    exact .reads (.getFind tid)
  case idList =>
    dsimp only at h
    split at h
    · cases h
    · cases h
      exact .reads .idList
  case sliceSet ticks =>
    cases h
    exact .sliceSet ticks _ _
  case sliceTask task policy =>
    cases task with
    | none =>
      cases h
      exact .reads (.sliceEnd policy)
    | some u =>
      cases h
      exact .sliceAttr u policy
  case sliceApply u policy =>
    cases h
    exact .reads (.sliceApply u policy)
  case safeFind =>
    obtain ⟨u, hu, rfl, rfl⟩ := needs_eq h
    exact .reads (.safeFind hu)
  case safeCount u =>
    cases h
    exact .protects _ (.safe u)
  case unsafeFind =>
    obtain ⟨u, hu, rfl, rfl⟩ := needs_eq h
    exact .reads (.unsafeFind hu)
  case unsafeCount u =>
    cases h
    exact .protects _ (.unsafely u _)
  case unsafeCheck u madeDeletable =>
    cases h
    split
    · exact .reads (.unsafeNotify u madeDeletable)
    · exact .reads (.unsafeDone u madeDeletable)
  case starterFind tid =>
    obtain ⟨task, htask, rfl, rfl⟩ := found_eq h
    cases task with
    | none => exact .reads (.starterNone tid)
    | some u => exact .reads (.starterSome htask)
  case starterCreate u => exact createBlock_runs (.starter u) h
  case closing =>
    cases h
    exact .cleaned .closing nofun
  case closeForce =>
    obtain ⟨u, hu, heq⟩ := Option.map_eq_some_iff.mp h
    cases heq
    exact .reads (.closeForce hu)
  case dying =>
    cases h
    split
    · exact .cleaned .dying fun _ => by assumption
    · exact .reads (.unwrapped (Bool.eq_false_iff.mpr (by assumption)))
  case exit =>
    cases h
    exact .exits
  case gone =>
    dsimp only at h
    split at h
    · cases h
    · cases h
      exact .reads (.reborn (Bool.eq_false_iff.mpr (by assumption)))

/-- A step of the library runs a block, or it leaves the memory alone and its thread
falls asleep where it is or goes on to the next point. -/
theorem step_cases {s s' : LifeState θ τ ι} (h : Step (code ids) t s s') :
    (s'.mem = s.mem ∧ (∀ block, code (ι := ι) ids t (s.ctl t).point ≠ .run block) ∧
      ((s'.ctl t).point = (s.ctl t).point ∨ (code (ι := ι) ids t (s.ctl t).point).Next (s'.ctl t).point)) ∨
    ∃ p p', s.ctl t = .awake p ∧ s'.ctl t = .awake p' ∧ Runs ids t p s.mem s'.mem p' ∧ s'.owner = s.owner := by
  obtain hq | ⟨p, block, c, p', hp, hi, hb, hp', ho⟩ := h.sync_or_block
  · exact .inl hq
  · exact .inr ⟨p, p', hp, hp', block_runs hi hb, ho⟩

end

end V2lin.Lifecycle
