import V2lin.Kill.Code

/-! What the straight-line code around the task library can do.

`Goes` lists the blocks that only read, `Runs` those that change the memory; at a point of
the task library it is that library's own `Runs`. -/
namespace V2lin.Kill
open Threads V2lin.Task V2lin.TaskLib

section
variable {θ ι κ : Type} [DecidableEq θ] [DecidableEq ι] [DecidableEq κ]

/-! ### The lists -/

def Mem.setList (m : Mem θ ι κ) (L : WaitList θ ι κ) (l : List θ) : Mem θ ι κ :=
  match L with
  | .sem id => m.setSemSusp id l
  | .receivers q => m.setFirstSusp q l
  | .writers q => m.setFirstWriteSusp q l
  | .deleters t => m.setTask (m.task.setTcb t {m.task.tcb t with firstSusp := l})

@[simp] theorem Mem.setList_self (m : Mem θ ι κ) (L : WaitList θ ι κ) (l : List θ) : (m.setList L l).waitList L = l := by
  cases L with
  | deleters t =>
    show ((m.task.setTcb t {m.task.tcb t with firstSusp := l}).tcb t).firstSusp = l
    rw [Mem.setTcb_self]
  | _ => exact Function.update_self ..

theorem Mem.setList_of_ne (m : Mem θ ι κ) {L L' : WaitList θ ι κ} (l : List θ) (h : L' ≠ L) :
    (m.setList L l).waitList L' = m.waitList L' := by
  cases L <;> cases L' <;> try rfl
  case sem.sem id id' => exact Function.update_of_ne (fun he => h (by rw [he])) ..
  case receivers.receivers q q' => exact Function.update_of_ne (fun he => h (by rw [he])) ..
  case writers.writers q q' => exact Function.update_of_ne (fun he => h (by rw [he])) ..
  case deleters.deleters t t' =>
    show ((m.task.setTcb t {m.task.tcb t with firstSusp := l}).tcb t').firstSusp = _
    rw [Mem.setTcb_of_ne _ _ fun he => h (by rw [he])]
    rfl

/-! ### The blocks -/

/-- The places where a task puts itself on a list. -/
inductive LinkPoint (t : θ) (m : Mem θ ι κ) : Pc θ ι κ → WaitList θ ι κ → Option θ → Pc θ ι κ → Prop where
  | take (id ourTask) : LinkPoint t m (.takeLink id ourTask) (.sem id) ourTask (.takeTest id ourTask)
  | receive (q) : LinkPoint t m (.receiveLink q) (.receivers q) (m.task.myTask t) (.receiveTest q (m.task.myTask t))
  | send (q) : LinkPoint t m (.sendLink q) (.writers q) (m.task.myTask t) (.sendRelease q (m.task.myTask t))

/-- The places where a task leaves a list. -/
inductive UnlinkPoint : Pc θ ι κ → WaitList θ ι κ → Option θ → Pc θ ι κ → Prop where
  | take (id ourTask) : UnlinkPoint (.takeUnlink id ourTask) (.sem id) ourTask (.takeClear id ourTask)
  | receive (q ourTask) : UnlinkPoint (.receiveUnlink q ourTask) (.receivers q) ourTask (.receiveUnlock q)
  | send (q ourTask) : UnlinkPoint (.sendUnlink q ourTask) (.writers q) ourTask (.sendUnlock q)

/-- The places outside the task library where a cancelled thread may be killed. -/
inductive KillPoint : Pc θ ι κ → Pc θ ι κ → Prop where
  | takeWoken (id ourTask) : KillPoint (.takeWoken id ourTask) (.takeKilled id)
  | takeSleep (id ourTask) : KillPoint (.takeSleep id ourTask) (.takeKilled id)
  | receiveWoken (q ourTask) : KillPoint (.receiveWoken q ourTask) (.receiveKilled q)
  | receiveSleep (q ourTask) : KillPoint (.receiveSleep q ourTask) (.receiveKilled q)
  | sendWoken (q ourTask) : KillPoint (.sendWoken q ourTask) (.sendKilled q)
  | sendSleep (q ourTask) : KillPoint (.sendSleep q ourTask) (.sendKilled q)
  | restart (tid) : KillPoint (.restartLock tid) (.task .dying)

inductive Goes (t : θ) (m : Mem θ ι κ) : Pc θ ι κ → Pc θ ι κ → Prop where
  | semTake (id) : Goes t m (.task .idle) (.takeLock id)
  | msgQReceive (q) : Goes t m (.task .idle) (.receiveLock q)
  | msgQSend (q) : Goes t m (.task .idle) (.sendLock q)
  | taskRestart (tid) : Goes t m (.task .idle) (.restartLock tid)
  | takeOver (id ourTask) : Goes t m (.takeTest id ourTask) (.takeUnlink id ourTask)
  | takeNotOurs (id ourTask) : Goes t m (.takeTest id ourTask) (.takeDelay id ourTask)
  | takeWaits (id ourTask) : Goes t m (.takeTest id ourTask) (.takeWait id ourTask)
  | takeWoken (id ourTask) : Goes t m (.takeWoken id ourTask) (.takeTest id ourTask)
  | takeSlept (id ourTask) : Goes t m (.takeSleep id ourTask) (.takeRelock id ourTask)
  | receiveRefused (q) : Goes t m (.receiveLink q) (.receiveUnlock q)
  | receiveOver (q ourTask) : Goes t m (.receiveTest q ourTask) (.receiveUnlink q ourTask)
  | receiveNotOurs (q ourTask) : Goes t m (.receiveTest q ourTask) (.receiveDelay q ourTask)
  | receiveWaits (q ourTask) : Goes t m (.receiveTest q ourTask) (.receiveWait q ourTask)
  | receiveWoken (q ourTask) : Goes t m (.receiveWoken q ourTask) (.receiveTest q ourTask)
  | receiveSlept (q ourTask) : Goes t m (.receiveSleep q ourTask) (.receiveRelock q ourTask)
  | sendDone (q) : Goes t m (.sendLink q) (.sendUnlock q)
  | sendOver (q ourTask) : Goes t m (.sendTest q ourTask) (.sendAgain q ourTask)
  | sendNotOurs (q ourTask) : Goes t m (.sendTest q ourTask) (.sendDelay q ourTask)
  | sendWaits (q ourTask) : Goes t m (.sendTest q ourTask) (.sendWait q ourTask)
  | sendWoken (q ourTask) : Goes t m (.sendWoken q ourTask) (.sendTest q ourTask)
  | sendSlept (q ourTask) : Goes t m (.sendSleep q ourTask) (.sendRelock q ourTask)
  | restartNone {tid} : m.task.taskFor t tid = none → Goes t m (.restartFind tid) (.task .idle)
  | restartFound {tid u} : m.task.taskFor t tid = some u →
      Goes t m (.restartFind tid) (.restartUnlink (m.task.myTask t) u)
  | restartJoined {u} : m.task.dead u = true → Goes t m (.restartJoin u) (.restartCreate u)
  | restartFailed (u) : Goes t m (.restartCreate u) .restartUnlock
  | starterNone {tid} : m.task.taskFor t tid = none → Goes t m (.starterFind tid) (.task .idle)
  | starterFound {tid u} : m.task.taskFor t tid = some u → Goes t m (.starterFind tid) (.starterCreate u)
  | starterFailed (u) : Goes t m (.starterCreate u) (.task .idle)

inductive Runs (ids : AddressIds θ) (t : θ) : Pc θ ι κ → Mem θ ι κ → Mem θ ι κ → Pc θ ι κ → Prop where
  | task {p m n p'} : TaskLib.Runs ids t p m.task n p' → Runs ids t (.task p) m (m.setTask n) (.task p')
  | reads {p m p'} : Goes t m p p' → Runs ids t p m m p'
  | killed {p m p'} : KillPoint p p' → m.task.cancelled t = true → Runs ids t p m m p'
  | reborn {m} : m.reborn t = true →
      Runs ids t (.task .dead) m {m with reborn := Function.update m.reborn t false} (.task .idle)
  | owned {m} (id) : Runs ids t (.takeFound id) m (m.setWaiting (m.task.myTask t) (some id))
      (.takeClear id (m.task.myTask t))
  | found {m} (id) : Runs ids t (.takeFound id) m (m.setWaiting (m.task.myTask t) (some id))
      (.takeLink id (m.task.myTask t))
  | cleared {m} (id ourTask) : Runs ids t (.takeClear id ourTask) m (m.setWaiting ourTask none) (.takeUnlock id)
  | linked {p m L ourTask p'} : LinkPoint t m p L ourTask p' →
      Runs ids t p m (m.setList L (linkSuspTask (m.waitList L) ourTask)) p'
  | unlinked {p m L ourTask p'} : UnlinkPoint p L ourTask p' →
      Runs ids t p m (m.setList L (unlinkSuspTask (m.waitList L) ourTask)) p'
  | restartLocked {m k} (tid) : m.task.sched.taskLock t = some k →
      Runs ids t (.restartLock tid) m (m.setTask {m.task with sched := k}) (.restartFind tid)
  | restartUnlinked {m} (selfTask u) : Runs ids t (.restartUnlink selfTask u) m (m.setTask (m.task.unlinkWaiting u))
      (if some u = selfTask then .restartSelf u else .restartCancel u)
  | restartCancels {m u} : (m.task.tcb u).started = true → Runs ids t (.restartCancel u) m
      (m.setTask {m.task with cancelled := Function.update m.task.cancelled u true}) (.restartJoin u)
  | restartCreated {m} (u) : Runs ids t (.restartCreate u) m (m.recreate u) .restartUnlock
  | restartUnlocked {m} : Runs ids t .restartUnlock m (m.setTask (m.task.taskUnlock t)) (.task .idle)
  | restartedSelf {m} (u) : Runs ids t (.restartSelf u) m
      {m with restartWdogs := (m.task.tcb u).taskid :: m.restartWdogs} (.task .dying)
  | starterCalled {m} (tid) : Runs ids t (.task .idle) m {m with restartWdogs := m.restartWdogs.erase tid}
      (.starterFind tid)
  | starterCreated {m u} : m.task.dead u = true → Runs ids t (.starterCreate u) m (m.recreate u) (.task .idle)

variable {ids : AddressIds θ} {t : θ} {p p' next killed : Pc θ ι κ} {c : Choice θ ι κ} {m m' : Mem θ ι κ}

theorem userBlock_runs (h : userBlock t c m = some (m', p')) : Runs ids t (.task .idle) m m' p' := by
  cases c with
  | task c =>
    simp only [userBlock, Option.map_eq_some_iff] at h
    obtain ⟨⟨n, q⟩, hb, heq⟩ := h
    cases heq
    exact .task (TaskLib.userBlock_runs hb)
  | semTake id =>
    cases h
    exact .reads (.semTake id)
  | msgQReceive q =>
    cases h
    exact .reads (.msgQReceive q)
  | msgQSend q =>
    cases h
    exact .reads (.msgQSend q)
  | taskRestart tid =>
    cases h
    exact .reads (.taskRestart tid)
  | selfStarter tid =>
    simp only [userBlock] at h
    split at h
    · cases h
      exact .starterCalled tid
    · cases h
  | _ => cases h

theorem wokenBlock_runs (hg : Goes t m p next) (hk : KillPoint p killed)
    (h : wokenBlock t next killed c m = some (m', p')) : Runs ids t p m m' p' := by
  obtain ⟨hc, heq⟩ | heq := cancelBlock_cases h
  · cases heq
    exact .killed hk hc
  · cases heq
    exact .reads hg

omit [DecidableEq θ] [DecidableEq ι] [DecidableEq κ] in
theorem testPoint_cases {ended delay wait : Pc θ ι κ} (P : Pc θ ι κ → Prop) (hended : P ended) (hdelay : P delay)
    (hwait : P wait) : P (testPoint ended delay wait c) := by
  unfold testPoint
  split
  · exact hended
  · exact hdelay
  · exact hwait

omit [DecidableEq κ] in
theorem taskInstr_of_ne {p : TaskLib.Pc θ} (hidle : p ≠ .idle) (hdead : p ≠ .dead) :
    taskInstr ids t p = ((TaskLib.code ids t p).embed part :
      Instr (Mem θ ι κ) (Lock θ ι κ) (Cond θ ι κ) (Pc θ ι κ) (Choice θ ι κ)) := by
  rw [taskInstr, if_neg hidle, if_neg hdead]

theorem task_runs {p : TaskLib.Pc θ} {block : Choice θ ι κ → Mem θ ι κ → Option (Mem θ ι κ × Pc θ ι κ)}
    (hi : taskInstr ids t p = .run block) (h : block c m = some (m', p')) : Runs ids t (.task p) m m' p' := by
  unfold taskInstr at hi
  split at hi
  · rename_i hidle
    cases hi
    rw [hidle]
    exact userBlock_runs h
  · split at hi
    · rename_i hdead
      cases hi
      simp only [rebornBlock] at h
      split at h
      · cases h
        rw [hdead]
        exact .reborn (by assumption)
      · cases h
    · cases hcode : TaskLib.code (ι := ι) ids t p with
      | run b =>
        rw [hcode] at hi
        cases hi
        simp only [Option.map_eq_some_iff] at h
        obtain ⟨⟨n, q⟩, hb, heq⟩ := h
        cases heq
        exact .task (TaskLib.block_runs hcode hb)
      | _ =>
        rw [hcode] at hi
        cases hi

/-- Every block of the program is one of `Runs`. -/
theorem block_runs {block : Choice θ ι κ → Mem θ ι κ → Option (Mem θ ι κ × Pc θ ι κ)} (hi : code ids t p = .run block)
    (h : block c m = some (m', p')) : Runs ids t p m m' p' := by
  cases p <;> simp only [code, Instr.run.injEq, reduceCtorEq] at hi
  case task p => exact task_runs hi h
  all_goals subst hi
  case takeFound id =>
    simp only [takeFoundBlock] at h
    split at h <;> cases h
    · exact .owned id
    · exact .found id
  case takeLink id ourTask =>
    cases h
    exact .linked (.take id ourTask)
  case takeTest id ourTask =>
    cases h
    refine testPoint_cases (Runs ids t (.takeTest id ourTask) m m) ?_ ?_ ?_
    · exact .reads (.takeOver id ourTask)
    · exact .reads (.takeNotOurs id ourTask)
    · exact .reads (.takeWaits id ourTask)
  case takeWoken id ourTask => exact wokenBlock_runs (.takeWoken id ourTask) (.takeWoken id ourTask) h
  case takeSleep id ourTask => exact wokenBlock_runs (.takeSlept id ourTask) (.takeSleep id ourTask) h
  case takeUnlink id ourTask =>
    cases h
    exact .unlinked (.take id ourTask)
  case takeClear id ourTask =>
    cases h
    exact .cleared id ourTask
  case receiveLink q =>
    simp only [receiveLinkBlock] at h
    split at h <;> cases h
    · exact .reads (.receiveRefused q)
    · exact .linked (.receive q)
  case receiveTest q ourTask =>
    cases h
    refine testPoint_cases (Runs ids t (.receiveTest q ourTask) m m) ?_ ?_ ?_
    · exact .reads (.receiveOver q ourTask)
    · exact .reads (.receiveNotOurs q ourTask)
    · exact .reads (.receiveWaits q ourTask)
  case receiveWoken q ourTask => exact wokenBlock_runs (.receiveWoken q ourTask) (.receiveWoken q ourTask) h
  case receiveSleep q ourTask => exact wokenBlock_runs (.receiveSlept q ourTask) (.receiveSleep q ourTask) h
  case receiveUnlink q ourTask =>
    cases h
    exact .unlinked (.receive q ourTask)
  case sendLink q =>
    simp only [sendLinkBlock] at h
    split at h <;> cases h
    · exact .reads (.sendDone q)
    · exact .linked (.send q)
  case sendTest q ourTask =>
    cases h
    refine testPoint_cases (Runs ids t (.sendTest q ourTask) m m) ?_ ?_ ?_
    · exact .reads (.sendOver q ourTask)
    · exact .reads (.sendNotOurs q ourTask)
    · exact .reads (.sendWaits q ourTask)
  case sendWoken q ourTask => exact wokenBlock_runs (.sendWoken q ourTask) (.sendWoken q ourTask) h
  case sendSleep q ourTask => exact wokenBlock_runs (.sendSlept q ourTask) (.sendSleep q ourTask) h
  case sendUnlink q ourTask =>
    cases h
    exact .unlinked (.send q ourTask)
  case restartLock tid =>
    unfold restartLockBlock at h
    split at h
    · split at h
      · cases h
        exact .killed (.restart tid) (by assumption)
      · cases h
    · obtain ⟨k, hk, heq⟩ := Option.map_eq_some_iff.mp h
      cases heq
      exact .restartLocked tid hk
  case restartFind tid =>
    cases h
    split
    · exact .reads (.restartNone (by assumption))
    · exact .reads (.restartFound (by assumption))
  case restartUnlink selfTask u =>
    cases h
    exact .restartUnlinked selfTask u
  case restartCancel u =>
    simp only at h
    split at h
    · cases h
      exact .restartCancels (by assumption)
    · cases h
  case restartJoin u =>
    simp only at h
    split at h
    · cases h
      exact .reads (.restartJoined (by assumption))
    · cases h
  case restartCreate u =>
    simp only [restartCreateBlock] at h
    split at h <;> cases h
    · exact .reads (.restartFailed u)
    · exact .restartCreated u
  case restartUnlock =>
    cases h
    exact .restartUnlocked
  case restartSelf u =>
    cases h
    exact .restartedSelf u
  case starterFind tid =>
    cases h
    split
    · exact .reads (.starterNone (by assumption))
    · exact .reads (.starterFound (by assumption))
  case starterCreate u =>
    simp only [starterCreateBlock] at h
    split at h <;> cases h
    · exact .reads (.starterFailed u)
    · rename_i hcreates
      exact .starterCreated (by simpa using fun hno => hcreates (.inr hno))

/-- A step runs a block, or it leaves the memory alone and its thread falls asleep where it
is or goes on to the next point. -/
theorem step_cases {s s' : KillState θ ι κ} (h : Step (code ids) t s s') :
    (s'.mem = s.mem ∧ ((s'.ctl t).point = (s.ctl t).point ∨
        (code (ι := ι) (κ := κ) ids t (s.ctl t).point).Next (s'.ctl t).point)) ∨
      ∃ p p', s.ctl t = .awake p ∧ s'.ctl t = .awake p' ∧ Runs ids t p s.mem s'.mem p' := by
  obtain ⟨hm, _, hpoint⟩ | ⟨p, block, c, p', hp, hi, hb, hp', _⟩ := h.sync_or_block
  · exact .inl ⟨hm, hpoint⟩
  · exact .inr ⟨p, p', hp, hp', block_runs hi hb⟩

end

end V2lin.Kill
