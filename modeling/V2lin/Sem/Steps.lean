import V2lin.Sem.Code

/-! What the straight-line code of the semaphore library can do.

`Runs` lists the blocks, one constructor for each way through one, with what was
found on the way. Everything proved about the memory goes through it. -/
namespace V2lin.Sem
open Threads V2lin.Arith V2lin.Task

section
variable {θ ι : Type}

/-! ### The memory -/

@[simp] theorem Mem.setSem_self [DecidableEq ι] (m : Mem θ ι) (id : ι) (v : V2lsem θ) :
    (m.setSem id v).sem id = v :=
  Function.update_self ..

@[simp] theorem Mem.setSem_of_ne [DecidableEq ι] (m : Mem θ ι) {id j : ι} (v : V2lsem θ) (h : j ≠ id) :
    (m.setSem id v).sem j = m.sem j :=
  Function.update_of_ne h ..

/-- Storing a block that agrees with the old one on `f` changes `f` nowhere. -/
theorem Mem.setSem_congr [DecidableEq ι] {α : Type} (f : V2lsem θ → α) (m : Mem θ ι) {id : ι} {v : V2lsem θ}
    (h : f v = f (m.sem id)) (j : ι) : f ((m.setSem id v).sem j) = f (m.sem j) := by
  by_cases hj : j = id
  · rw [hj, Mem.setSem_self, h]
  · rw [Mem.setSem_of_ne m v hj]

@[simp] theorem Mem.setSem_block [DecidableEq ι] (m : Mem θ ι) (id : ι) (v : V2lsem θ) :
    (m.setSem id v).block = m.block :=
  rfl

@[simp] theorem Mem.setSem_semList [DecidableEq ι] (m : Mem θ ι) (id : ι) (v : V2lsem θ) :
    (m.setSem id v).semList = m.semList :=
  rfl

@[simp] theorem Mem.setSem_sched [DecidableEq ι] (m : Mem θ ι) (id : ι) (v : V2lsem θ) :
    (m.setSem id v).sched = m.sched :=
  rfl

variable [DecidableEq θ]

@[simp] theorem Mem.setWaiting_sem (m : Mem θ ι) (me : Option θ) (w : Option ι) :
    (m.setWaiting me w).sem = m.sem := by
  cases me <;> rfl

@[simp] theorem Mem.setWaiting_block (m : Mem θ ι) (me : Option θ) (w : Option ι) :
    (m.setWaiting me w).block = m.block := by
  cases me <;> rfl

@[simp] theorem Mem.setWaiting_semList (m : Mem θ ι) (me : Option θ) (w : Option ι) :
    (m.setWaiting me w).semList = m.semList := by
  cases me <;> rfl

@[simp] theorem Mem.setWaiting_sched (m : Mem θ ι) (me : Option θ) (w : Option ι) :
    (m.setWaiting me w).sched = m.sched := by
  cases me <;> rfl

/-! ### Leaving the wait loops -/

/-- `wait_for_token` after its loops, as its callers use it: the block `v` becomes
`v'`, `error` is returned, `last` says that the last pended task leaves a flush or a
deletion. -/
structure Left (v : V2lsem θ) (me : Option θ) (maxWait : Int) (retcode : Retcode) (v' : V2lsem θ)
    (error : Status) (last : Bool) : Prop where
  flags : v'.flags = v.flags
  tokenCount : v'.tokenCount = v.tokenCount
  sendType : v'.sendType = v.sendType
  firstSusp : v'.firstSusp = unlinkSuspTask v.firstSusp me
  last : last = true ↔ v.sendType ≠ .send ∧ v'.firstSusp = []
  killd : v.sendType = .killd → error = .objIdError
  spared : v.sendType ≠ .killd → error = waitError maxWait retcode
  own : v.sendType = .send → retcode = .ok → v'.currentOwner = me ∧
    v'.recursionLevel = if v.isMutex then increment v.recursionLevel else v.recursionLevel
  disown : v.sendType ≠ .send ∨ retcode ≠ .ok → v'.currentOwner = v.currentOwner ∧
    v'.recursionLevel = v.recursionLevel

theorem leaveWait_left (v : V2lsem θ) (me : Option θ) (maxWait : Int) (retcode : Retcode) :
    Left v me maxWait retcode (leaveWait v me maxWait retcode).1 (leaveWait v me maxWait retcode).2.1
      (leaveWait v me maxWait retcode).2.2 := by
  cases hs : v.sendType with
  | send =>
    by_cases hr : retcode = .ok
    · by_cases hm : v.isMutex
      · have hm' : V2lsem.isMutex {v with sendType := .send, firstSusp := unlinkSuspTask v.firstSusp me} := hm
        constructor <;> simp [leaveWait, hs, hr, hm, hm']
      · have hm' : ¬ V2lsem.isMutex {v with sendType := .send, firstSusp := unlinkSuspTask v.firstSusp me} := hm
        constructor <;> simp [leaveWait, hs, hr, hm, hm']
    · constructor <;> simp [leaveWait, hs, hr]
  | flush => constructor <;> simp [leaveWait, hs]
  | killd => constructor <;> simp [leaveWait, hs]

/-! ### Giving -/

/-- `semGive` under the lock: a mutex is given by its owner only; a level above the
first is left without a token. -/
structure Gave (v : V2lsem θ) (me : Option θ) (v' : V2lsem θ) (error : Status) : Prop where
  flags : v'.flags = v.flags
  sendType : v'.sendType = v.sendType
  firstSusp : v'.firstSusp = v.firstSusp
  allowed : error = .ok ↔ (v.isMutex → v.currentOwner = me)
  refused : error ≠ .ok → v' = v
  nested : error = .ok → 1 < v.recursionLevel → v'.tokenCount = v.tokenCount ∧
    v'.recursionLevel = v.recursionLevel - 1 ∧ v'.currentOwner = v.currentOwner
  last : error = .ok → v.recursionLevel = 1 → v'.tokenCount = increment v.tokenCount ∧
    v'.recursionLevel = 0 ∧ v'.currentOwner = none
  plain : error = .ok → v.recursionLevel ≤ 0 → v'.tokenCount = increment v.tokenCount ∧
    v'.recursionLevel = v.recursionLevel ∧ v'.currentOwner = v.currentOwner

theorem giveToken_gave {v v' : V2lsem θ} {me : Option θ} {error : Status}
    (h : giveToken v me = (v', error)) : Gave v me v' error := by
  unfold giveToken at h
  split at h
  · rename_i hno
    cases h
    exact ⟨rfl, rfl, rfl, iff_of_false nofun fun h => hno.2 (h hno.1), fun _ => rfl, nofun, nofun, nofun⟩
  · rename_i hok
    have hallowed : v.isMutex → v.currentOwner = me := fun hm => not_not.mp fun hne => hok ⟨hm, hne⟩
    split at h
    · split at h
      · cases h
        exact ⟨rfl, rfl, rfl, iff_of_true rfl hallowed, fun h => absurd rfl h, fun _ h => by omega,
          fun _ _ => ⟨rfl, rfl, rfl⟩, fun _ h => by omega⟩
      · cases h
        exact ⟨rfl, rfl, rfl, iff_of_true rfl hallowed, fun h => absurd rfl h, fun _ _ => ⟨rfl, rfl, rfl⟩,
          fun _ h => by omega, fun _ h => by omega⟩
    · cases h
      exact ⟨rfl, rfl, rfl, iff_of_true rfl hallowed, fun h => absurd rfl h, fun _ h => by omega,
        fun _ h => by omega, fun _ _ => ⟨rfl, rfl, rfl⟩⟩

omit [DecidableEq θ] in
theorem Gave.tokenCount {v v' : V2lsem θ} {me : Option θ} {error : Status} (h : Gave v me v' error) :
    v'.tokenCount = v.tokenCount ∨ v'.tokenCount = increment v.tokenCount := by
  by_cases he : error = .ok
  · by_cases hnested : 1 < v.recursionLevel
    · exact .inl (h.nested he hnested).1
    · by_cases hlast : v.recursionLevel = 1
      · exact .inr (h.last he hlast).1
      · exact .inr (h.plain he (by omega)).1
  · exact .inl (by rw [h.refused he])

/-- A point that ends in `waiting_on_sem`'s answer: its start, or after its delay. -/
inductive WaitPoint (maxWait : Int) (id : ι) (retcode : Retcode) : Pc ι → Prop where
  | test : WaitPoint maxWait id retcode (.takeTest maxWait id retcode)
  | again : WaitPoint maxWait id retcode (.takeAgain maxWait id retcode)

/-- The three ways out of the wait loops, with the block and `retcode` they leave.
The kill and flush marks are looked at from `takeTest` only. -/
inductive WaitEnd (prio : θ → Int) (me : Option θ) (m : Mem θ ι) (maxWait : Int) (id : ι) :
    Pc ι → V2lsem θ → Retcode → Prop where
  | released {retcode} : (m.sem id).sendType ≠ .send →
      WaitEnd prio me m maxWait id (.takeTest maxWait id retcode) (m.sem id) .ok
  | taken {p retcode} : WaitPoint maxWait id retcode p →
      (p = .takeTest maxWait id retcode → (m.sem id).sendType = .send) → (m.sem id).tokenCount > 0 →
      signalForMyTask (m.sem id).firstSusp ((m.sem id).flags &&& semQPriority) prio me = true →
      WaitEnd prio me m maxWait id p {m.sem id with tokenCount := (m.sem id).tokenCount - 1} .ok
  | timedOut {p} : WaitPoint maxWait id .etimedout p →
      (p = .takeTest maxWait id .etimedout → (m.sem id).sendType = .send) →
      WaitEnd prio me m maxWait id p (m.sem id) .etimedout

theorem WaitEnd.point {prio : θ → Int} {me : Option θ} {m : Mem θ ι} {maxWait : Int} {id : ι} {p : Pc ι}
    {v : V2lsem θ} {retcode : Retcode} (h : WaitEnd prio me m maxWait id p v retcode) :
    ∃ retcode, WaitPoint maxWait id retcode p := by
  cases h with
  | released _ => exact ⟨_, .test⟩
  | taken hp => exact ⟨_, hp⟩
  | timedOut hp => exact ⟨_, hp⟩

/-! ### The blocks -/

variable [DecidableEq ι]

/-- A point outside the library. -/
def Pc.resting : Pc ι → Bool
  | .idle | .returned _ _ _ => true
  | _ => false

inductive Runs (myTask : θ → Option θ) (prio : θ → Int) (t : θ) : Pc ι → Mem θ ι → Mem θ ι → Pc ι → Prop where
  | called {p m} (op id) : p.resting = true → Runs myTask prio t p m m (.findLock op id)
  | refused {p m} : p.resting = true → Runs myTask prio t p m m .idle
  | created {p m v} (id) (args : Create) : p.resting = true → m.block id = .fresh → args.block θ = some v →
      Runs myTask prio t p m {m.setSem id v with block := Function.update m.block id .live} (.linkLock id)
  | linked {m} (id) : Runs myTask prio t (.linkAppend id) m {m with semList := m.semList ++ [id]} (.linkUnlock id)
  | found {m id} (op) : id ∈ m.semList → Runs myTask prio t (.findScan op id) m m (.findSem op id)
  | notFound {m id} (op) : id ∉ m.semList → Runs myTask prio t (.findScan op id) m m (.findUnlock op id false)
  | reentered {m maxWait id} : (m.sem id).isMutex → (m.sem id).currentOwner = myTask t →
      Runs myTask prio t (.takeStart maxWait id) m
        ((m.setWaiting (myTask t) (some id)).setSem id
          {m.sem id with recursionLevel := increment (m.sem id).recursionLevel}) (.takeEnd maxWait id .ok)
  | pended {m maxWait id} : ¬ ((m.sem id).isMutex ∧ (m.sem id).currentOwner = myTask t) →
      Runs myTask prio t (.takeStart maxWait id) m
        ((m.setWaiting (myTask t) (some id)).setSem id
          {m.sem id with firstSusp := linkSuspTask (m.sem id).firstSusp (myTask t)}) (.takeTest maxWait id .ok)
  | left {p m maxWait id v retcode v' error last} : WaitEnd prio (myTask t) m maxWait id p v retcode →
      Left v (myTask t) maxWait retcode v' error last →
      Runs myTask prio t p m (m.setSem id v')
        (if last then .takeLastLock maxWait id error else .takeEnd maxWait id error)
  | sleeps {p m maxWait id retcode} : WaitPoint maxWait id retcode p →
      (p = .takeTest maxWait id retcode → (m.sem id).sendType = .send) →
      Runs myTask prio t p m m (.takeWait maxWait id)
  | polls {p m maxWait id retcode} : WaitPoint maxWait id retcode p →
      (p = .takeTest maxWait id retcode → (m.sem id).sendType = .send) →
      Runs myTask prio t p m m (.takePoll maxWait id retcode)
  | reset {m} (maxWait id error) : Runs myTask prio t (.takeLastReset maxWait id error) m
      (m.setSem id {m.sem id with sendType := .send}) (.takeLastUnlock maxWait id error)
  | ended {m} (maxWait id error) : Runs myTask prio t (.takeEnd maxWait id error) m
      (m.setWaiting (myTask t) none) (.takeUnlock maxWait id error)
  | gave {m id v error} : giveToken (m.sem id) (myTask t) = (v, error) →
      Runs myTask prio t (.giveStart id) m (m.setSem id v)
        (if error = .ok ∧ v.firstSusp ≠ [] then .giveNotify id else .giveUnlock id error)
  | flushRefused {m id} : (m.sem id).isMutex → Runs myTask prio t (.flushStart id) m m (.flushRefuse id)
  | flushAdmitted {m id} : ¬ (m.sem id).isMutex →
      Runs myTask prio t (.flushStart id) m m (.flushTaskLock id)
  | flushTaskLocked {m k} (id) : m.sched.taskLock t = some k →
      Runs myTask prio t (.flushTaskLock id) m {m with sched := k} (.flushTest id)
  | flushSome {m id} : (m.sem id).firstSusp ≠ [] →
      Runs myTask prio t (.flushTest id) m m (.flushSmdelLock id)
  | flushNobody {m id} : (m.sem id).firstSusp = [] →
      Runs myTask prio t (.flushTest id) m m (.flushTaskUnlock id false)
  | flushMarked {m} (id) : Runs myTask prio t (.flushMark id) m
      (m.setSem id {m.sem id with sendType := .flush}) (.flushNotify id)
  | flushUndrained {m id} : (m.sem id).firstSusp ≠ [] →
      Runs myTask prio t (.flushDrain id) m m (.flushWait id)
  | flushDrained {m id} : (m.sem id).firstSusp = [] →
      Runs myTask prio t (.flushDrain id) m m (.flushSmdelUnlock id)
  | flushTaskUnlocked {m} (id drained) : Runs myTask prio t (.flushTaskUnlock id drained) m
      {m with sched := m.sched.taskUnlock t} (.returned .flush id .ok)
  | deleteTaskLocked {m k} (id) : m.sched.taskLock t = some k →
      Runs myTask prio t (.deleteTaskLock id) m {m with sched := k} (.deleteTest id)
  | deleteSome {m id} : (m.sem id).firstSusp ≠ [] →
      Runs myTask prio t (.deleteTest id) m m (.deleteSmdelLock id)
  | deleteNobody {m id} : (m.sem id).firstSusp = [] →
      Runs myTask prio t (.deleteTest id) m m (.deleteListLock id false)
  | deleteMarked {m} (id) : Runs myTask prio t (.deleteMark id) m
      (m.setSem id {m.sem id with sendType := .killd}) (.deleteNotify id)
  | deleteUndrained {m id} : (m.sem id).firstSusp ≠ [] →
      Runs myTask prio t (.deleteDrain id) m m (.deleteWait id)
  | deleteDrained {m id} : (m.sem id).firstSusp = [] →
      Runs myTask prio t (.deleteDrain id) m m (.deleteListLock id true)
  | unlinked {m} (id drained) : Runs myTask prio t (.deleteUnlink id drained) m
      {m with semList := m.semList.erase id} (.deleteListUnlock id drained)
  | freed {m} (id drained) : Runs myTask prio t (.deleteFree id drained) m
      {m with block := Function.update m.block id .freed} (.deleteTaskUnlock id drained)
  | deleteTaskUnlocked {m} (id drained) : Runs myTask prio t (.deleteTaskUnlock id drained) m
      {m with sched := m.sched.taskUnlock t} (.returned .delete id .ok)

variable {myTask : θ → Option θ} {prio : θ → Int} {t : θ}

theorem callBlock_runs {p p' : Pc ι} {c : Choice ι} {m m' : Mem θ ι} (hp : p.resting = true)
    (h : callBlock c m = some (m', p')) : Runs myTask prio t p m m' p' := by
  cases c with
  | none => cases h
  | expired answer => cases h
  | call op id =>
    cases h
    exact .called op id hp
  | create id args =>
    simp only [callBlock] at h
    split at h
    · rename_i hfresh
      split at h
      · rename_i v hv
        cases h
        exact .created id args hp hfresh hv
      · cases h
        exact .refused hp
    · cases h

theorem takeStartBlock_runs (maxWait : Int) (id : ι) (m : Mem θ ι) :
    Runs myTask prio t (.takeStart maxWait id) m (takeStartBlock (myTask t) maxWait id m).1
      (takeStartBlock (myTask t) maxWait id m).2 := by
  unfold takeStartBlock
  simp only [Mem.setWaiting_sem]
  split
  · rename_i h
    exact .reentered h.1 h.2
  · rename_i h
    exact .pended h

theorem leaveBlock_runs {p : Pc ι} {m : Mem θ ι} {maxWait : Int} {id : ι} {v : V2lsem θ} {retcode : Retcode}
    (h : WaitEnd prio (myTask t) m maxWait id p v retcode) :
    Runs myTask prio t p m (leaveBlock (myTask t) maxWait id v retcode m).1
      (leaveBlock (myTask t) maxWait id v retcode m).2 :=
  .left h (leaveWait_left ..)

theorem stillWaitingBlock_runs {p : Pc ι} {m : Mem θ ι} {maxWait : Int} {id : ι} {retcode : Retcode}
    (hp : WaitPoint maxWait id retcode p)
    (hs : p = .takeTest maxWait id retcode → (m.sem id).sendType = .send) :
    Runs myTask prio t p m (stillWaitingBlock (myTask t) maxWait id retcode m).1
      (stillWaitingBlock (myTask t) maxWait id retcode m).2 := by
  unfold stillWaitingBlock
  split
  · rename_i hr
    subst hr
    exact leaveBlock_runs (.timedOut hp hs)
  · exact .sleeps hp hs

theorem scanBlock_runs {p : Pc ι} {m : Mem θ ι} {maxWait : Int} {id : ι} {retcode : Retcode}
    (hp : WaitPoint maxWait id retcode p)
    (hs : p = .takeTest maxWait id retcode → (m.sem id).sendType = .send) :
    Runs myTask prio t p m (scanBlock prio (myTask t) maxWait id retcode m).1
      (scanBlock prio (myTask t) maxWait id retcode m).2 := by
  unfold scanBlock tokenFor
  by_cases htok : (m.sem id).tokenCount > 0
  · rw [if_pos htok]
    by_cases hsig : signalForMyTask (m.sem id).firstSusp ((m.sem id).flags &&& semQPriority) prio
        (myTask t) = true
    · rw [if_pos hsig]
      exact leaveBlock_runs (.taken hp hs htok hsig)
    · rw [if_neg hsig]
      exact .polls hp hs
  · rw [if_neg htok]
    exact stillWaitingBlock_runs hp hs

theorem testBlock_runs (maxWait : Int) (id : ι) (retcode : Retcode) (m : Mem θ ι) :
    Runs myTask prio t (.takeTest maxWait id retcode) m (testBlock prio (myTask t) maxWait id retcode m).1
      (testBlock prio (myTask t) maxWait id retcode m).2 := by
  unfold testBlock
  split
  · rename_i hs
    exact leaveBlock_runs (.released hs)
  · rename_i hs
    exact scanBlock_runs .test fun _ => not_not.mp hs

theorem againBlock_runs {maxWait : Int} {id : ι} {retcode : Retcode} {m m' : Mem θ ι} {c : Choice ι}
    {p' : Pc ι} (h : againBlock prio (myTask t) maxWait id retcode c m = some (m', p')) :
    Runs myTask prio t (.takeAgain maxWait id retcode) m m' p' := by
  have hs : Pc.takeAgain maxWait id retcode = .takeTest maxWait id retcode → (m.sem id).sendType = .send :=
    fun h => by cases h
  cases c with
  | expired answer =>
    simp only [againBlock] at h
    split at h
    · have hr : Runs myTask prio t (.takeAgain maxWait id retcode) m _ _ := stillWaitingBlock_runs .again hs
      rwa [Option.some.inj h] at hr
    · have hr : Runs myTask prio t (.takeAgain maxWait id retcode) m _ _ := scanBlock_runs .again hs
      rwa [Option.some.inj h] at hr
  | _ => cases h

theorem giveBlock_runs (id : ι) (m : Mem θ ι) :
    Runs myTask prio t (.giveStart id) m (giveBlock (myTask t) id m).1 (giveBlock (myTask t) id m).2 :=
  .gave rfl

/-- Every block of the library is one of `Runs`. -/
theorem block_runs {p p' : Pc ι} {block : Choice ι → Mem θ ι → Option (Mem θ ι × Pc ι)} {c : Choice ι}
    {m m' : Mem θ ι} (hi : code myTask prio t p = .run block) (h : block c m = some (m', p')) :
    Runs myTask prio t p m m' p' := by
  cases p <;> simp only [code, Instr.run.injEq, reduceCtorEq] at hi <;> subst hi
  case idle => exact callBlock_runs rfl h
  case returned => exact callBlock_runs rfl h
  case linkAppend id =>
    cases h
    exact .linked id
  case findScan op id =>
    cases h
    split
    · exact .found op (by assumption)
    · exact .notFound op (by assumption)
  case takeStart maxWait id =>
    have hr : Runs myTask prio t (.takeStart maxWait id) m _ _ := takeStartBlock_runs maxWait id m
    rwa [Option.some.inj h] at hr
  case takeTest maxWait id retcode =>
    have hr : Runs myTask prio t (.takeTest maxWait id retcode) m _ _ := testBlock_runs maxWait id retcode m
    rwa [Option.some.inj h] at hr
  case takeAgain maxWait id retcode => exact againBlock_runs h
  case takeLastReset maxWait id error =>
    cases h
    exact .reset maxWait id error
  case takeEnd maxWait id error =>
    cases h
    exact .ended maxWait id error
  case giveStart id =>
    have hr : Runs myTask prio t (.giveStart id) m _ _ := giveBlock_runs id m
    rwa [Option.some.inj h] at hr
  case flushStart id =>
    cases h
    split
    · exact .flushRefused (by assumption)
    · exact .flushAdmitted (by assumption)
  case flushTaskLock id =>
    obtain ⟨k, hk, he⟩ := Option.map_eq_some_iff.mp h
    cases he
    exact .flushTaskLocked id hk
  case flushTest id =>
    cases h
    split
    · exact .flushSome (by assumption)
    · exact .flushNobody (not_not.mp (by assumption))
  case flushMark id =>
    cases h
    exact .flushMarked id
  case flushDrain id =>
    cases h
    split
    · exact .flushUndrained (by assumption)
    · exact .flushDrained (not_not.mp (by assumption))
  case flushTaskUnlock id drained =>
    cases h
    exact .flushTaskUnlocked id drained
  case deleteTaskLock id =>
    obtain ⟨k, hk, he⟩ := Option.map_eq_some_iff.mp h
    cases he
    exact .deleteTaskLocked id hk
  case deleteTest id =>
    cases h
    split
    · exact .deleteSome (by assumption)
    · exact .deleteNobody (not_not.mp (by assumption))
  case deleteMark id =>
    cases h
    exact .deleteMarked id
  case deleteDrain id =>
    cases h
    split
    · exact .deleteUndrained (by assumption)
    · exact .deleteDrained (not_not.mp (by assumption))
  case deleteUnlink id drained =>
    cases h
    exact .unlinked id drained
  case deleteFree id drained =>
    cases h
    exact .freed id drained
  case deleteTaskUnlock id drained =>
    cases h
    exact .deleteTaskUnlocked id drained

/-! ### The steps -/

/-- A step of the library runs a block, or it leaves the memory alone and its thread
falls asleep where it is or goes on to the next point. -/
theorem step_cases {s s' : SemState θ ι} (h : Step (code myTask prio) t s s') :
    (s'.mem = s.mem ∧ (∀ block, code myTask prio t (s.ctl t).point ≠ .run block) ∧
      ((s'.ctl t).point = (s.ctl t).point ∨
        (code myTask prio t (s.ctl t).point).Next (s'.ctl t).point)) ∨
    ∃ p p', s.ctl t = .awake p ∧ s'.ctl t = .awake p' ∧ Runs myTask prio t p s.mem s'.mem p' ∧
      s'.owner = s.owner := by
  obtain hq | ⟨p, block, c, p', hp, hi, hb, hp', ho⟩ := h.sync_or_block
  · exact .inl hq
  · exact .inr ⟨p, p', hp, hp', block_runs hi hb, ho⟩

/-- A control block is made live by a creation and freed by a deletion, for good. -/
theorem Runs.block_cases {p p' : Pc ι} {m m' : Mem θ ι} (h : Runs myTask prio t p m m' p') :
    m'.block = m.block ∨
      (∃ id, p.resting = true ∧ m.block id = .fresh ∧ m'.block = Function.update m.block id .live) ∨
      ∃ id drained, p = .deleteFree id drained ∧ m'.block = Function.update m.block id .freed := by
  cases h with
  | created id args hp hfresh => exact .inr (.inl ⟨id, hp, hfresh, rfl⟩)
  | freed id drained => exact .inr (.inr ⟨id, drained, rfl, rfl⟩)
  | _ => exact .inl (by simp)

theorem freed_step {s s' : SemState θ ι} {id : ι} (h : Step (code myTask prio) t s s')
    (hf : s.mem.block id = .freed) : s'.mem.block id = .freed := by
  obtain ⟨hm, _⟩ | ⟨p, p', _, _, hr, _⟩ := step_cases h
  · rwa [hm]
  · obtain heq | ⟨id', _, hfresh, heq⟩ | ⟨id', _, _, heq⟩ := hr.block_cases
    · rwa [heq]
    · have hne : id ≠ id' := by
        rintro rfl
        rw [hf] at hfresh
        cases hfresh
      rwa [heq, Function.update_of_ne hne]
    · by_cases hid : id = id'
      · rw [heq, hid, Function.update_self]
      · rwa [heq, Function.update_of_ne hid]

end

end V2lin.Sem
