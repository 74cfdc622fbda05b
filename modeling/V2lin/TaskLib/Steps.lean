import V2lin.TaskLib.Code

/-! What the straight-line code of the task library can do.

Most blocks only read: `Goes` lists the ways through them. `Runs` lists those that change
the memory. Everything proved about the memory goes through it. -/
namespace V2lin.TaskLib
open Threads V2lin.Task

section
variable {θ ι : Type} [DecidableEq θ]

/-! ### The memory -/

@[simp] theorem Mem.setTcb_self (m : Mem θ ι) (t : θ) (b : Tcb θ ι) : (m.setTcb t b).tcb t = b :=
  Function.update_self ..

@[simp] theorem Mem.setTcb_of_ne (m : Mem θ ι) {t u : θ} (b : Tcb θ ι) (h : u ≠ t) :
    (m.setTcb t b).tcb u = m.tcb u :=
  Function.update_of_ne h ..

/-- Storing a control block that agrees with the old one on `f` changes `f` nowhere. -/
theorem Mem.setTcb_congr {α : Type} (f : Tcb θ ι → α) (m : Mem θ ι) {t : θ} {b : Tcb θ ι} (h : f b = f (m.tcb t))
    (u : θ) : f ((m.setTcb t b).tcb u) = f (m.tcb u) := by
  by_cases hu : u = t
  · rw [hu, Mem.setTcb_self, h]
  · rw [Mem.setTcb_of_ne m b hu]

@[simp] theorem Mem.setTcb_taskList (m : Mem θ ι) (t : θ) (b : Tcb θ ι) : (m.setTcb t b).taskList = m.taskList := rfl
@[simp] theorem Mem.setTcb_block (m : Mem θ ι) (t : θ) (b : Tcb θ ι) : (m.setTcb t b).block = m.block := rfl
@[simp] theorem Mem.setTcb_sched (m : Mem θ ι) (t : θ) (b : Tcb θ ι) : (m.setTcb t b).sched = m.sched := rfl
@[simp] theorem Mem.setTcb_dead (m : Mem θ ι) (t : θ) (b : Tcb θ ι) : (m.setTcb t b).dead = m.dead := rfl

@[simp] theorem Mem.setBlock_self (m : Mem θ ι) (t : θ) (b : Block) : (m.setBlock t b).block t = b :=
  Function.update_self ..

@[simp] theorem Mem.setBlock_of_ne (m : Mem θ ι) {t u : θ} (b : Block) (h : u ≠ t) :
    (m.setBlock t b).block u = m.block u :=
  Function.update_of_ne h ..

@[simp] theorem Mem.setBlock_taskList (m : Mem θ ι) (t : θ) (b : Block) : (m.setBlock t b).taskList = m.taskList := rfl
@[simp] theorem Mem.setBlock_tcb (m : Mem θ ι) (t : θ) (b : Block) : (m.setBlock t b).tcb = m.tcb := rfl
@[simp] theorem Mem.setBlock_sched (m : Mem θ ι) (t : θ) (b : Block) : (m.setBlock t b).sched = m.sched := rfl
@[simp] theorem Mem.setBlock_dead (m : Mem θ ι) (t : θ) (b : Block) : (m.setBlock t b).dead = m.dead := rfl

theorem myTask_eq {t u : θ} {m : Mem θ ι} (h : m.myTask t = some u) :
    u = t ∧ t ∈ m.taskList ∧ (m.tcb t).started = true := by
  unfold Mem.myTask at h
  split at h
  · cases h
    exact ⟨rfl, by assumption⟩
  · cases h

/-- A lookup finds a task on the list. -/
theorem taskFor_listed {t u : θ} {tid : ℤ} {m : Mem θ ι} (h : m.taskFor t tid = some u) : u ∈ m.taskList := by
  unfold Mem.taskFor at h
  split at h
  · rw [(myTask_eq h).1]
    exact (myTask_eq h).2.1
  · exact List.mem_of_find?_eq_some h

theorem taskFor_id {t u : θ} {tid : ℤ} {m : Mem θ ι} (htid : tid ≠ 0) (h : m.taskFor t tid = some u) :
    (m.tcb u).taskid = tid := by
  rw [Mem.taskFor, if_neg htid] at h
  simpa using List.find?_some h

variable [DecidableEq ι]

@[simp] theorem Mem.unlinkWaiting_taskList (m : Mem θ ι) (t : θ) : (m.unlinkWaiting t).taskList = m.taskList := by
  unfold unlinkWaiting
  split <;> rfl

@[simp] theorem Mem.unlinkWaiting_tcb (m : Mem θ ι) (t : θ) : (m.unlinkWaiting t).tcb = m.tcb := by
  unfold unlinkWaiting
  split <;> rfl

@[simp] theorem Mem.unlinkWaiting_block (m : Mem θ ι) (t : θ) : (m.unlinkWaiting t).block = m.block := by
  unfold unlinkWaiting
  split <;> rfl

@[simp] theorem Mem.unlinkWaiting_sched (m : Mem θ ι) (t : θ) : (m.unlinkWaiting t).sched = m.sched := by
  unfold unlinkWaiting
  split <;> rfl

@[simp] theorem Mem.unlinkWaiting_dead (m : Mem θ ι) (t : θ) : (m.unlinkWaiting t).dead = m.dead := by
  unfold unlinkWaiting
  split <;> rfl

@[simp] theorem Mem.taskDelete_taskList (m : Mem θ ι) (t : θ) : (m.taskDelete t).taskList = m.taskList.erase t := rfl

@[simp] theorem Mem.taskDelete_tcb (m : Mem θ ι) (t : θ) : (m.taskDelete t).tcb = m.tcb := by
  simp [Mem.taskDelete]

@[simp] theorem Mem.taskDelete_block (m : Mem θ ι) (t : θ) :
    (m.taskDelete t).block = Function.update m.block t .freed := by
  simp [Mem.taskDelete, Mem.setBlock]

@[simp] theorem Mem.taskDelete_sched (m : Mem θ ι) (t : θ) : (m.taskDelete t).sched = m.sched := by
  simp [Mem.taskDelete]

@[simp] theorem Mem.taskDelete_dead (m : Mem θ ι) (t : θ) : (m.taskDelete t).dead = m.dead := by
  simp [Mem.taskDelete]

/-! ### The blocks -/

/-- The places where `taskLock` is called, with those that follow it. -/
inductive LockPoint : Pc θ → Pc θ → Prop where
  | spawn (tid) : LockPoint (.spawnLock tid) (.spawnFind tid)
  | delete (tid selfTask) : LockPoint (.deleteLock tid selfTask) (.deleteFind tid selfTask)
  | pend (selfTask u) : LockPoint (.pendRelock selfTask u) (.pendUnlink selfTask u)
  | force (cause tid selfTask) : LockPoint (.forceLock cause tid selfTask) (.forceFind cause tid selfTask)
  | safe : LockPoint .safeLock .safeFind
  | unsafely : LockPoint .unsafeLock .unsafeFind
  | user : LockPoint .userLock .idle

/-- The places where `taskUnlock` is called, with those that follow it. -/
inductive UnlockPoint : Pc θ → Pc θ → Prop where
  | user : UnlockPoint .idle .idle
  | spawn (error) : UnlockPoint (.spawnUnlock error) .idle
  | delete (found deletable error released) : UnlockPoint (.deleteUnlock found deletable error released) .idle
  | pend (selfTask u) : UnlockPoint (.pendUnlock selfTask u) (.pendTest selfTask u)
  | self (cause) : UnlockPoint (.forceSelfUnlock cause) (.forceUnlock cause .ok true)
  | force (cause : Cause θ) (error released) :
      UnlockPoint (.forceUnlock cause error released) (cause.after error released)
  | safe : UnlockPoint .safeUnlock .idle
  | unsafely (madeDeletable) :
      UnlockPoint (.unsafeUnlock madeDeletable) (if madeDeletable then .unsafeCheck else .idle)

/-- The places where a cancelled thread may be killed, with those where it dies. -/
inductive KillPoint : Pc θ → Pc θ → Prop where
  | user : KillPoint .idle .dying
  | spawn (tid) : KillPoint (.spawnLock tid) .dying
  | delete (tid selfTask) : KillPoint (.deleteLock tid selfTask) .dying
  | pend (selfTask u) : KillPoint (.pendRelock selfTask u) (.pendKilled u)
  | force (cause : Cause θ) (tid selfTask) : KillPoint (.forceLock cause tid selfTask) cause.killed
  | safe : KillPoint .safeLock .dying
  | unsafely : KillPoint .unsafeLock .dying
  | lock : KillPoint .userLock .dying
  | pendWoken (selfTask u) : KillPoint (.pendWoken selfTask u) (.pendKilled u)
  | notifyWoken (caller u) : KillPoint (.notifyWoken caller u) (.notifyKilled caller u)

/-- The places where `task_wrapper_cleanup` is called, with those that follow it. -/
inductive CleanPoint : Pc θ → Pc θ → Prop where
  | closing : CleanPoint .closeCleanup .closeForce
  | dying : CleanPoint .dying .exit

/-- The blocks that read the memory only. -/
inductive Goes (t : θ) (m : Mem θ ι) : Pc θ → Pc θ → Prop where
  | born : (m.tcb t).started = true → Goes t m .unborn .idle
  | delete (tid) : Goes t m .idle (.deleteLock tid (m.myTask t))
  | deleteForce (tid) : Goes t m .idle (.forceEnter .direct tid)
  | safe : Goes t m .idle .safeLock
  | unsafely : Goes t m .idle .unsafeLock
  | lock : Goes t m .idle .userLock
  | returns : m.block t ≠ .plain → Goes t m .idle .closeCleanup
  | ends : m.block t = .plain → Goes t m .idle .exit
  | activateNone {tid} : m.taskFor t tid = none → Goes t m (.spawnFind tid) (.spawnUnlock .objIdError)
  | activateAgain {tid u} : m.taskFor t tid = some u → (m.tcb u).started = true →
      Goes t m (.spawnFind tid) (.spawnUnlock .ok)
  | notFound {tid} (selfTask) : m.taskFor t tid = none →
      Goes t m (.deleteFind tid selfTask) (.deleteUnlock none false .objDeleted false)
  | found {tid u} (selfTask) : m.taskFor t tid = some u →
      Goes t m (.deleteFind tid selfTask) (.deleteTlock tid selfTask u)
  | deletable {u} (tid selfTask) : (m.tcb u).deleteSafeCount ≤ 0 →
      Goes t m (.deleteTest tid selfTask u) (.deleteTunlock tid selfTask u true)
  | undeletable {u} (tid selfTask) : 0 < (m.tcb u).deleteSafeCount →
      Goes t m (.deleteTest tid selfTask u) (.deleteTunlock tid selfTask u false)
  | pends {u} (selfTask) : 0 < (m.tcb u).deleteSafeCount → Goes t m (.pendTest selfTask u) (.pendWait selfTask u)
  | pended {u} (selfTask) : (m.tcb u).deleteSafeCount ≤ 0 → Goes t m (.pendTest selfTask u) (.pendRelock selfTask u)
  | pendWoken (selfTask u) : Goes t m (.pendWoken selfTask u) (.pendTest selfTask u)
  | forceEnter (cause tid) : Goes t m (.forceEnter cause tid) (.forceLock cause tid (m.myTask t))
  | forceNone {tid} (cause selfTask) : m.taskFor t tid = none →
      Goes t m (.forceFind cause tid selfTask) (.forceUnlock cause .objDeleted false)
  | forceFound {tid u} (cause selfTask) : m.taskFor t tid = some u →
      Goes t m (.forceFind cause tid selfTask) (.notifyTest (.force cause tid selfTask) u)
  | self {u} (cause tid) : Goes t m (.forceSplit cause tid (some u) u) (.forceSelfRemove cause u)
  | other {u selfTask} (cause tid) : some u ≠ selfTask →
      Goes t m (.forceSplit cause tid selfTask u) (.forceCancel cause u)
  | joined {u} (cause) : m.dead u = true → Goes t m (.forceJoin cause u) (.forceRemove cause u)
  | nobody {u} (caller : Caller θ) : (m.tcb u).firstSusp = [] → Goes t m (.notifyTest caller u) (caller.after u)
  | notifies {u} (caller) : (m.tcb u).firstSusp ≠ [] → Goes t m (.notifyTest caller u) (.notifyDlock caller u)
  | undrained {u} (caller) : (m.tcb u).firstSusp ≠ [] → Goes t m (.notifyDrain caller u) (.notifyWait caller u)
  | drained {u} (caller) : (m.tcb u).firstSusp = [] → Goes t m (.notifyDrain caller u) (.notifyDunlock caller u)
  | notifyWoken (caller u) : Goes t m (.notifyWoken caller u) (.notifyDrain caller u)
  | safeFind : m.myTask t = some t → Goes t m .safeFind .safeTlock
  | unsafeFind : m.myTask t = some t → Goes t m .unsafeFind .unsafeTlock
  | unsafeSome : (m.tcb t).firstSusp ≠ [] → Goes t m .unsafeCheck (.notifyTest .unsafely t)
  | unsafeNobody : (m.tcb t).firstSusp = [] → Goes t m .unsafeCheck .idle
  | closes : Goes t m .closeForce (.forceEnter .closing (m.tcb t).taskid)

inductive Runs (address : θ → ℤ) (t : θ) : Pc θ → Mem θ ι → Mem θ ι → Pc θ → Prop where
  | reads {p m p'} : Goes t m p p' → Runs address t p m m p'
  | locked {p m k p'} : LockPoint p p' → m.sched.taskLock t = some k → Runs address t p m {m with sched := k} p'
  | unlocked {p m p'} : UnlockPoint p p' → Runs address t p m (m.taskUnlock t) p'
  | cleaned {p m p'} : CleanPoint p p' → Runs address t p m {m with sched := m.sched.cleanup t} p'
  | killed {p m p'} : KillPoint p p' → m.cancelled t = true → Runs address t p m m p'
  | allocated {m n} (legal) : m.block n = .fresh → Runs address t .idle m (m.setBlock n .allocated)
      (.spawnInit n (newTid (m.taskList.map fun u => (m.tcb u).taskid)) legal)
  | registered {m} (n tid) : Runs address t (.spawnInit n tid true) m
      ((({m with taskList := m.taskList ++ [n]} : Mem θ ι).setBlock n .live).setTcb n ⟨address n, false, 0, [], none⟩)
      (.spawnName n tid)
  | refused {m} (n tid) : Runs address t (.spawnInit n tid false) m (m.setBlock n .freed) (.spawnLock tid)
  | named {m} (n tid) : Runs address t (.spawnName n tid) m (m.setTcb n {m.tcb n with taskid := tid}) (.spawnLock tid)
  | activated {m tid u} : m.taskFor t tid = some u → (m.tcb u).started = false →
      Runs address t (.spawnFind tid) m (m.setTcb u {m.tcb u with started := true}) (.spawnUnlock .ok)
  | noThread {m tid u} : m.taskFor t tid = some u → (m.tcb u).started = false →
      Runs address t (.spawnFind tid) m (m.taskDelete u) (.spawnUnlock .notEnoughMemory)
  | linked {m} (selfTask u) : Runs address t (.pendLink selfTask u) m
      (m.setTcb u {m.tcb u with firstSusp := linkSuspTask (m.tcb u).firstSusp selfTask}) (.pendTlock selfTask u)
  | unlinked {m} (v u) : Runs address t (.pendUnlink (some v) u) m (m.unlinkWaiting v)
      (if (m.tcb u).firstSusp = [] then .pendDbcst u else .pendTunlock u)
  | cancels {m u} (cause) : (m.tcb u).started = true → Runs address t (.forceCancel cause u) m
      {m with cancelled := Function.update m.cancelled u true} (.forceJoin cause u)
  | removed {m} (cause u) : Runs address t (.forceRemove cause u) m (m.taskDelete u) (.forceUnlock cause .ok false)
  | selfRemoved {m} (cause u) : Runs address t (.forceSelfRemove cause u) m (m.taskDelete u) (.forceSelfUnlock cause)
  | protects {m} : Runs address t .safeCount m
      (m.setTcb t {m.tcb t with deleteSafeCount := countUp (m.tcb t).deleteSafeCount}) .safeTunlock
  | unprotects {m} : Runs address t .unsafeCount m
      (m.setTcb t {m.tcb t with deleteSafeCount := countDown (m.tcb t).deleteSafeCount})
      (.unsafeTunlock ((m.tcb t).deleteSafeCount > 0 ∧ countDown (m.tcb t).deleteSafeCount = 0))
  | ended {m} : Runs address t .exit m {m with dead := Function.update m.dead t true} .dead

variable {address : θ → ℤ} {t : θ} {p p' next killed : Pc θ} {c : Choice θ} {m m' : Mem θ ι}

theorem lockBlock_runs (hl : LockPoint p next) (hk : KillPoint p killed)
    (h : lockBlock t next killed c m = some (m', p')) : Runs address t p m m' p' := by
  obtain ⟨hc, heq⟩ | hlocks := cancelBlock_cases h
  · cases heq
    exact .killed hk hc
  · obtain ⟨k, hk, heq⟩ := Option.map_eq_some_iff.mp hlocks
    cases heq
    exact .locked hl hk

theorem wokenBlock_runs (hg : Goes t m p next) (hk : KillPoint p killed)
    (h : wokenBlock t next killed c m = some (m', p')) : Runs address t p m m' p' := by
  obtain ⟨hc, heq⟩ | heq := cancelBlock_cases h
  · cases heq
    exact .killed hk hc
  · cases heq
    exact .reads hg

theorem userBlock_runs (h : userBlock t c m = some (m', p')) : Runs address t .idle m m' p' := by
  cases c with
  | none => cases h
  | noThread => cases h
  | spawn n legal =>
    simp only [userBlock] at h
    split at h
    · cases h
      exact .allocated legal (by assumption)
    · cases h
  | delete tid =>
    cases h
    exact .reads (.delete tid)
  | deleteForce tid =>
    cases h
    exact .reads (.deleteForce tid)
  | safe =>
    cases h
    exact .reads .safe
  | unsafely =>
    cases h
    exact .reads .unsafely
  | lock =>
    cases h
    exact .reads .lock
  | unlock =>
    cases h
    exact .unlocked .user
  | ret =>
    cases h
    split
    · exact .reads (.ends (by assumption))
    · exact .reads (.returns (by assumption))
  | kill =>
    simp only [userBlock] at h
    split at h
    · cases h
      exact .killed .user (by assumption)
    · cases h

theorem spawnInitBlock_runs (n : θ) (tid : ℤ) (legal : Bool) :
    Runs address t (.spawnInit n tid legal) m (spawnInitBlock address n tid legal m).1
      (spawnInitBlock address n tid legal m).2 := by
  cases legal with
  | true => exact .registered n tid
  | false => exact .refused n tid

theorem spawnFindBlock_runs (tid : ℤ) :
    Runs address t (.spawnFind tid) m (spawnFindBlock t tid c m).1 (spawnFindBlock t tid c m).2 := by
  unfold spawnFindBlock
  split
  · exact .reads (.activateNone (by assumption))
  · rename_i u hu
    by_cases hs : (m.tcb u).started = true
    · rw [if_pos hs]
      exact .reads (.activateAgain hu hs)
    · rw [if_neg hs]
      split
      · exact .noThread hu (Bool.eq_false_iff.mpr hs)
      · exact .activated hu (Bool.eq_false_iff.mpr hs)

omit [DecidableEq ι] in
theorem ownBlock_eq (h : ownBlock t next m = some (m', p')) : m.myTask t = some t ∧ m' = m ∧ p' = next := by
  unfold ownBlock at h
  split at h
  · cases h
  · rename_i hsome
    obtain ⟨u, hu⟩ := Option.ne_none_iff_exists'.mp hsome
    cases h
    exact ⟨by rw [hu, (myTask_eq hu).1], rfl, rfl⟩

/-- Every block of the library is one of `Runs`. -/
theorem block_runs {block : Choice θ → Mem θ ι → Option (Mem θ ι × Pc θ)} (hi : code address t p = .run block)
    (h : block c m = some (m', p')) : Runs address t p m m' p' := by
  cases p <;> simp only [code, Instr.run.injEq, reduceCtorEq] at hi <;> subst hi
  case idle => exact userBlock_runs h
  case unborn =>
    simp only at h
    split at h
    · cases h
      exact .reads (.born (by assumption))
    · cases h
  case dead => cases h
  case spawnInit n tid legal =>
    have hr : Runs address t (.spawnInit n tid legal) m _ _ := spawnInitBlock_runs n tid legal
    rwa [Option.some.inj h] at hr
  case spawnName n tid =>
    cases h
    exact .named n tid
  case spawnLock tid => exact lockBlock_runs (.spawn tid) (.spawn tid) h
  case spawnFind tid =>
    have hr : Runs address t (.spawnFind tid) m _ _ := spawnFindBlock_runs (c := c) tid
    rwa [Option.some.inj h] at hr
  case spawnUnlock error =>
    cases h
    exact .unlocked (.spawn error)
  case deleteLock tid selfTask => exact lockBlock_runs (.delete tid selfTask) (.delete tid selfTask) h
  case deleteFind tid selfTask =>
    cases h
    split
    · exact .reads (.notFound selfTask (by assumption))
    · exact .reads (.found selfTask (by assumption))
  case deleteTest tid selfTask u =>
    cases h
    split
    · exact .reads (.undeletable tid selfTask (by assumption))
    · exact .reads (.deletable tid selfTask (Int.not_lt.mp (by assumption)))
  case deleteUnlock found deletable error released =>
    cases h
    exact .unlocked (.delete found deletable error released)
  case pendLink selfTask u =>
    cases h
    exact .linked selfTask u
  case pendUnlock selfTask u =>
    cases h
    exact .unlocked (.pend selfTask u)
  case pendTest selfTask u =>
    cases h
    split
    · exact .reads (.pends selfTask (by assumption))
    · exact .reads (.pended selfTask (Int.not_lt.mp (by assumption)))
  case pendWoken selfTask u => exact wokenBlock_runs (.pendWoken selfTask u) (.pendWoken selfTask u) h
  case pendRelock selfTask u => exact lockBlock_runs (.pend selfTask u) (.pend selfTask u) h
  case pendUnlink selfTask u =>
    cases selfTask with
    | none => cases h
    | some v =>
      simp only [pendUnlinkBlock, Mem.unlinkWaiting_tcb] at h
      cases h
      exact .unlinked v u
  case forceEnter cause tid =>
    cases h
    exact .reads (.forceEnter cause tid)
  case forceLock cause tid selfTask => exact lockBlock_runs (.force cause tid selfTask) (.force cause tid selfTask) h
  case forceFind cause tid selfTask =>
    cases h
    split
    · exact .reads (.forceNone cause selfTask (by assumption))
    · exact .reads (.forceFound cause selfTask (by assumption))
  case forceSplit cause tid selfTask u =>
    cases h
    split
    · rename_i hself
      subst hself
      exact .reads (.self cause tid)
    · exact .reads (.other cause tid (by assumption))
  case forceCancel cause u =>
    simp only at h
    split at h
    · cases h
      exact .cancels cause (by assumption)
    · cases h
  case forceJoin cause u =>
    simp only at h
    split at h
    · cases h
      exact .reads (.joined cause (by assumption))
    · cases h
  case forceRemove cause u =>
    cases h
    exact .removed cause u
  case forceSelfRemove cause u =>
    cases h
    exact .selfRemoved cause u
  case forceSelfUnlock cause =>
    cases h
    exact .unlocked (.self cause)
  case forceUnlock cause error released =>
    cases h
    exact .unlocked (.force cause error released)
  case notifyTest caller u =>
    cases h
    split
    · exact .reads (.nobody caller (by assumption))
    · exact .reads (.notifies caller (by assumption))
  case notifyDrain caller u =>
    cases h
    split
    · exact .reads (.undrained caller (by assumption))
    · exact .reads (.drained caller (not_not.mp (by assumption)))
  case notifyWoken caller u => exact wokenBlock_runs (.notifyWoken caller u) (.notifyWoken caller u) h
  case safeLock => exact lockBlock_runs .safe .safe h
  case safeFind =>
    obtain ⟨hmine, rfl, rfl⟩ := ownBlock_eq h
    exact .reads (.safeFind hmine)
  case safeCount =>
    cases h
    exact .protects
  case safeUnlock =>
    cases h
    exact .unlocked .safe
  case unsafeLock => exact lockBlock_runs .unsafely .unsafely h
  case unsafeFind =>
    obtain ⟨hmine, rfl, rfl⟩ := ownBlock_eq h
    exact .reads (.unsafeFind hmine)
  case unsafeCount =>
    cases h
    exact .unprotects
  case unsafeUnlock madeDeletable =>
    cases h
    exact .unlocked (.unsafely madeDeletable)
  case unsafeCheck =>
    cases h
    split
    · exact .reads (.unsafeSome (by assumption))
    · exact .reads (.unsafeNobody (not_not.mp (by assumption)))
  case userLock => exact lockBlock_runs .user .lock h
  case closeCleanup =>
    cases h
    exact .cleaned .closing
  case closeForce =>
    cases h
    exact .reads .closes
  case dying =>
    cases h
    exact .cleaned .dying
  case exit =>
    cases h
    exact .ended

/-- A step of the library runs a block, or it leaves the memory alone and its thread
falls asleep where it is or goes on to the next point. -/
theorem step_cases {s s' : TaskState θ ι} (h : Step (code address) t s s') :
    (s'.mem = s.mem ∧ (∀ block, code (ι := ι) address t (s.ctl t).point ≠ .run block) ∧
      ((s'.ctl t).point = (s.ctl t).point ∨
        (code (ι := ι) address t (s.ctl t).point).Next (s'.ctl t).point)) ∨
    ∃ p p', s.ctl t = .awake p ∧ s'.ctl t = .awake p' ∧ Runs address t p s.mem s'.mem p' ∧
      s'.owner = s.owner := by
  obtain hq | ⟨p, block, c, p', hp, hi, hb, hp', ho⟩ := h.sync_or_block
  · exact .inl hq
  · exact .inr ⟨p, p', hp, hp', block_runs hi hb, ho⟩

end

end V2lin.TaskLib
