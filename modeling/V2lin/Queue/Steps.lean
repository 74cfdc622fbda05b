import V2lin.Queue.Code

/-! What the straight-line code of the message queue library can do.

`Runs` lists the blocks, one constructor for each way through one, with what was found
on the way. Everything proved about the memory goes through it. -/
namespace V2lin.Queue
open Threads V2lin.Task

section
variable {θ ι : Type}

/-! ### The memory -/

@[simp] theorem Mem.setQueue_self [DecidableEq ι] (m : Mem θ ι) (id : ι) (q : V2ptMqueue θ) :
    (m.setQueue id q).queue id = q :=
  Function.update_self ..

@[simp] theorem Mem.setQueue_of_ne [DecidableEq ι] (m : Mem θ ι) {id j : ι} (q : V2ptMqueue θ) (h : j ≠ id) :
    (m.setQueue id q).queue j = m.queue j :=
  Function.update_of_ne h ..

/-- Storing a block that agrees with the old one on `f` changes `f` nowhere. -/
theorem Mem.setQueue_congr [DecidableEq ι] {α : Type} (f : V2ptMqueue θ → α) (m : Mem θ ι) {id : ι}
    {q : V2ptMqueue θ} (h : f q = f (m.queue id)) (j : ι) : f ((m.setQueue id q).queue j) = f (m.queue j) := by
  by_cases hj : j = id
  · rw [hj, Mem.setQueue_self, h]
  · rw [Mem.setQueue_of_ne m q hj]

@[simp] theorem Mem.setQueue_block [DecidableEq ι] (m : Mem θ ι) (id : ι) (q : V2ptMqueue θ) :
    (m.setQueue id q).block = m.block :=
  rfl

@[simp] theorem Mem.setQueue_mqueueList [DecidableEq ι] (m : Mem θ ι) (id : ι) (q : V2ptMqueue θ) :
    (m.setQueue id q).mqueueList = m.mqueueList :=
  rfl

@[simp] theorem Mem.setQueue_sched [DecidableEq ι] (m : Mem θ ι) (id : ι) (q : V2ptMqueue θ) :
    (m.setQueue id q).sched = m.sched :=
  rfl

/-! ### The blocks -/

/-- A point outside the library. -/
def Pc.resting : Pc ι → Bool
  | .idle | .returned _ _ _ => true
  | _ => false

/-- A point that ends in the answer of `waiting_on_q_space`: its start, or after its delay. -/
inductive SpacePoint (a : SendArgs) (id : ι) (retcode : Retcode) : Pc ι → Prop where
  | test : SpacePoint a id retcode (.waitTest a id retcode)
  | again : SpacePoint a id retcode (.waitAgain a id retcode)

/-- A point that ends in the answer of `waiting_on_q_msg`: its start, or after its delay. -/
inductive MsgPoint (a : ReceiveArgs) (id : ι) (retcode : Retcode) : Pc ι → Prop where
  | test : MsgPoint a id retcode (.receiveTest a id retcode)
  | again : MsgPoint a id retcode (.receiveAgain a id retcode)

/-- Where a call goes that a deletion has woken. -/
def deletedPoint (op : Op) (id : ι) (last : Bool) : Pc ι :=
  if last then .lastLock op id else .leave op id (.failed .objDeleted)

/-- Where `msgQReceive` goes with a message. -/
def receivedPoint (a : ReceiveArgs) (id : ι) (msg : List UInt8) (space : Bool) : Pc ι :=
  if space then .spaceLock a id msg else .leave (.receive a) id (.received msg)

variable [DecidableEq θ] [DecidableEq ι]

inductive Runs (myTask : θ → Option θ) (prio : θ → ℤ) (t : θ) : Pc ι → Mem θ ι → Mem θ ι → Pc ι → Prop where
  | called {p m} (op id) : p.resting = true → Runs myTask prio t p m m (.findLock op id)
  | created {p m} (id) (maxMsgs msglen : ℤ) (opt : ℕ) : p.resting = true → m.block id = .fresh →
      Runs myTask prio t p m
        {m.setQueue id (msgQCreate θ maxMsgs msglen opt) with block := Function.update m.block id .live}
        (.linkLock id)
  | linked {m} (id) : Runs myTask prio t (.linkAppend id) m {m with mqueueList := m.mqueueList ++ [id]}
      (.linkUnlock id)
  | found {m id} (op) : id ∈ m.mqueueList → Runs myTask prio t (.findScan op id) m m (.findQueue op id)
  | notFound {m id} (op) : id ∉ m.mqueueList → Runs myTask prio t (.findScan op id) m m (.findUnlock op id false)
  | sendTooLong {m a id} : a.msg.msglen > (m.queue id).msgLen →
      Runs myTask prio t (.sendStart a id) m m (.leave (.send a) id (.failed .invalidMsgLength))
  | sendFull {m a id} : a.msg.msglen ≤ (m.queue id).msgLen → (m.queue id).admission a.pri = .full →
      a.wait = noWait → Runs myTask prio t (.sendStart a id) m m (.leave (.send a) id (.failed .objUnavailable))
  | sentTail {m a id} : a.msg.msglen ≤ (m.queue id).msgLen → (m.queue id).admission a.pri = .tail →
      Runs myTask prio t (.sendStart a id) m (m.setQueue id ((m.queue id).sendMsgTo a.msg)) (.sendNotify a id)
  | sentFront {m a id} : a.msg.msglen ≤ (m.queue id).msgLen → (m.queue id).admission a.pri = .front →
      Runs myTask prio t (.sendStart a id) m (m.setQueue id ((m.queue id).urgentMsgTo a.msg)) (.sendNotify a id)
  | sendPended {m a id} : a.msg.msglen ≤ (m.queue id).msgLen → (m.queue id).admission a.pri = .full →
      a.wait ≠ noWait → Runs myTask prio t (.sendStart a id) m
        (m.setQueue id {m.queue id with firstWriteSusp := linkSuspTask (m.queue id).firstWriteSusp (myTask t)})
        (.waitUnlock a id)
  | spaceOver {p m a id retcode} : SpacePoint a id retcode p →
      (p = .waitTest a id retcode ∧ (m.queue id).sendType = .killd ∨
        (p = .waitTest a id retcode → (m.queue id).sendType ≠ .killd) ∧ (m.queue id).spaceFor prio (myTask t) = .ours) →
      Runs myTask prio t p m m (.waitRelock a id .ok)
  | spaceTimedOut {p m a id} : SpacePoint a id .etimedout p →
      (p = .waitTest a id .etimedout → (m.queue id).sendType ≠ .killd) →
      Runs myTask prio t p m m (.waitRelock a id .etimedout)
  | spaceSleeps {p m a id retcode} : SpacePoint a id retcode p →
      (p = .waitTest a id retcode → (m.queue id).sendType ≠ .killd) →
      Runs myTask prio t p m m (.waitSleep a id)
  | spacePolls {p m a id retcode} : SpacePoint a id retcode p →
      (p = .waitTest a id retcode → (m.queue id).sendType ≠ .killd) →
      Runs myTask prio t p m m (.waitPoll a id retcode)
  | sendDeleted {m q a id retcode} : (m.queue id).sendType = .killd →
      q = {m.queue id with firstWriteSusp := unlinkSuspTask (m.queue id).firstWriteSusp (myTask t)} →
      Runs myTask prio t (.waitEnd a id retcode) m (m.setQueue id q) (deletedPoint (.send a) id q.drained)
  | sendTimedOut {m a id} : (m.queue id).sendType ≠ .killd →
      Runs myTask prio t (.waitEnd a id .etimedout) m
        (m.setQueue id {m.queue id with firstWriteSusp := unlinkSuspTask (m.queue id).firstWriteSusp (myTask t)})
        (.leave (.send a) id (.failed .objTimeout))
  | sentLate {m q a id retcode} : (m.queue id).sendType ≠ .killd → retcode ≠ .etimedout →
      q = {m.queue id with firstWriteSusp := unlinkSuspTask (m.queue id).firstWriteSusp (myTask t)} →
      Runs myTask prio t (.waitEnd a id retcode) m (m.setQueue id (q.post a.msg a.pri)) (.sendNotify a id)
  | receiveTooShort {m a id} : a.buflen < (m.queue id).msgLen →
      Runs myTask prio t (.receiveStart a id) m m (.leave (.receive a) id (.failed .invalidMsgLength))
  | pended {m a id} : ¬ a.buflen < (m.queue id).msgLen → Runs myTask prio t (.receiveStart a id) m
      (m.setQueue id {m.queue id with firstSusp := linkSuspTask (m.queue id).firstSusp (myTask t)})
      (if (m.queue id).msgsPerQueue = 0 ∧ (m.queue id).firstWriteSusp ≠ [] then .readyLock a id
        else .receiveTest a id .ok)
  | receiveDeleted {p m q a id retcode} : MsgPoint a id retcode p → (m.queue id).sendType = .killd →
      q = {m.queue id with firstSusp := unlinkSuspTask (m.queue id).firstSusp (myTask t)} →
      Runs myTask prio t p m (m.setQueue id q) (deletedPoint (.receive a) id q.drained)
  | receiveTimedOut {p m a id} : MsgPoint a id .etimedout p → (m.queue id).sendType ≠ .killd →
      (m.queue id).msgFor prio (myTask t) = .unavailable ∨ p = .receiveAgain a id .etimedout →
      Runs myTask prio t p m
        (m.setQueue id {m.queue id with firstSusp := unlinkSuspTask (m.queue id).firstSusp (myTask t)})
        (.leave (.receive a) id (.failed (if a.maxWait = noWait then .objUnavailable else .objTimeout)))
  | fetched {p m q a id retcode} : MsgPoint a id retcode p → (m.queue id).sendType ≠ .killd →
      (m.queue id).msgCount > 0 →
      signalForMyTask (m.queue id).firstSusp (m.queue id).order prio (myTask t) = true →
      q = {m.queue id with firstSusp := unlinkSuspTask (m.queue id).firstSusp (myTask t)} →
      Runs myTask prio t p m (m.setQueue id (q.fetchMsgFrom a.hasBuf).2)
        (receivedPoint a id (q.fetchMsgFrom a.hasBuf).1
          ((q.fetchMsgFrom a.hasBuf).2.firstWriteSusp ≠ [] ∧
            (q.fetchMsgFrom a.hasBuf).2.msgCount ≤ (q.fetchMsgFrom a.hasBuf).2.msgsPerQueue - 1))
  | receiveSleeps {p m a id retcode} : MsgPoint a id retcode p →
      (p = .receiveTest a id retcode → (m.queue id).sendType ≠ .killd) →
      (m.queue id).msgFor prio (myTask t) = .unavailable ∨ p = .receiveAgain a id retcode →
      retcode ≠ .etimedout →
      Runs myTask prio t p m m (.receiveSleep a id)
  | receivePolls {p m a id retcode} : MsgPoint a id retcode p →
      (p = .receiveTest a id retcode → (m.queue id).sendType ≠ .killd) →
      (m.queue id).msgFor prio (myTask t) = .notOurs →
      Runs myTask prio t p m m (.receivePoll a id retcode)
  | counted {m} (id) : Runs myTask prio t (.numStart id) m m (.leave .numMsgs id (.count (m.queue id).msgCount))
  | deleteMarked {m} (id) : Runs myTask prio t (.deleteMark id) m
      (m.setQueue id {m.queue id with sendType := .killd}) (.deleteTaskLock id)
  | deleteTaskLocked {m k} (id) : m.sched.taskLock t = some k →
      Runs myTask prio t (.deleteTaskLock id) m {m with sched := k} (.deleteTest id)
  | deleteNobody {m id} : (m.queue id).drained = true →
      Runs myTask prio t (.deleteTest id) m m (.deleteQueueUnlock id)
  | deleteSome {m id} : (m.queue id).drained = false →
      Runs myTask prio t (.deleteTest id) m m (.deleteQdletLock id)
  | deleteDrained {m id} : (m.queue id).drained = true →
      Runs myTask prio t (.deleteDrain id) m m (.deleteQdletUnlock id)
  | deleteUndrained {m id} : (m.queue id).drained = false →
      Runs myTask prio t (.deleteDrain id) m m (.deleteWait id)
  | unlinked {m} (id) : Runs myTask prio t (.deleteUnlink id) m
      {m with mqueueList := m.mqueueList.erase id} (.deleteListUnlock id)
  | freed {m} (id) : Runs myTask prio t (.deleteFree id) m
      {m with block := Function.update m.block id .freed} (.deleteTaskUnlock id)
  | deleteTaskUnlocked {m} (id) : Runs myTask prio t (.deleteTaskUnlock id) m
      {m with sched := m.sched.taskUnlock t} (.returned .delete id .ok)

variable {myTask : θ → Option θ} {prio : θ → ℤ} {t : θ}

theorem callBlock_runs {p p' : Pc ι} {c : Choice ι} {m m' : Mem θ ι} (hp : p.resting = true)
    (h : callBlock c m = some (m', p')) : Runs myTask prio t p m m' p' := by
  cases c with
  | none => cases h
  | expired answer => cases h
  | call op id =>
    cases h
    exact .called op id hp
  | create id maxMsgs msglen opt =>
    simp only [callBlock] at h
    split at h
    · cases h
      exact .created id maxMsgs msglen opt hp (by assumption)
    · cases h

theorem sendBlock_runs (a : SendArgs) (id : ι) (m : Mem θ ι) :
    Runs myTask prio t (.sendStart a id) m (sendBlock (myTask t) a id m).1 (sendBlock (myTask t) a id m).2 := by
  unfold sendBlock
  dsimp only
  split
  · exact .sendTooLong (by assumption)
  · rename_i hlen
    have hlen : a.msg.msglen ≤ (m.queue id).msgLen := Nat.le_of_not_lt hlen
    split
    · exact .sentTail hlen (by assumption)
    · exact .sentFront hlen (by assumption)
    · rename_i hfull
      split
      · exact .sendPended hlen hfull (by assumption)
      · exact .sendFull hlen hfull (not_not.mp (by assumption))

section Space
variable {p : Pc ι} {m : Mem θ ι} {a : SendArgs} {id : ι} {retcode : Retcode}

theorem noSpacePoint_runs (hp : SpacePoint a id retcode p)
    (hs : p = .waitTest a id retcode → (m.queue id).sendType ≠ .killd) :
    Runs myTask prio t p m m (noSpacePoint a id retcode) := by
  unfold noSpacePoint
  split
  · rename_i hr
    subst hr
    exact .spaceTimedOut hp hs
  · exact .spaceSleeps hp hs

theorem spacePoint_runs (hp : SpacePoint a id retcode p)
    (hs : p = .waitTest a id retcode → (m.queue id).sendType ≠ .killd) :
    Runs myTask prio t p m m (spacePoint prio (myTask t) a id retcode m) := by
  unfold spacePoint
  split
  · exact .spaceOver hp (.inr ⟨hs, by assumption⟩)
  · exact .spacePolls hp hs
  · exact noSpacePoint_runs hp hs

theorem spaceTestPoint_runs :
    Runs myTask prio t (.waitTest a id retcode) m m (spaceTestPoint prio (myTask t) a id retcode m) := by
  unfold spaceTestPoint
  split
  · exact .spaceOver .test (.inl ⟨rfl, by assumption⟩)
  · rename_i hs
    exact spacePoint_runs .test fun _ => hs

theorem spaceAgainBlock_runs {c : Choice ι} {m' : Mem θ ι} {p' : Pc ι}
    (h : spaceAgainBlock prio (myTask t) a id retcode c m = some (m', p')) :
    Runs myTask prio t (.waitAgain a id retcode) m m' p' := by
  have hs : Pc.waitAgain a id retcode = .waitTest a id retcode → (m.queue id).sendType ≠ .killd := fun h => by cases h
  cases c with
  | expired answer =>
    simp only [spaceAgainBlock, Option.some.injEq, Prod.mk.injEq] at h
    obtain ⟨rfl, rfl⟩ := h
    split
    · exact noSpacePoint_runs .again hs
    · exact spacePoint_runs .again hs
  | _ => cases h

theorem waitEndBlock_runs :
    Runs myTask prio t (.waitEnd a id retcode) m (waitEndBlock (myTask t) a id retcode m).1
      (waitEndBlock (myTask t) a id retcode m).2 := by
  unfold waitEndBlock V2ptMqueue.leaveSpace
  by_cases hkill : (m.queue id).sendType = .killd
  · simp only [hkill, if_true, ending]
    exact .sendDeleted hkill (by rw [← hkill])
  · simp only [hkill, if_false]
    by_cases hr : retcode = .etimedout
    · subst hr
      exact .sendTimedOut hkill
    · simp only [hr, if_false]
      exact .sentLate hkill hr rfl

end Space

section Msg
variable {p : Pc ι} {m : Mem θ ι} {a : ReceiveArgs} {id : ι} {retcode : Retcode}

theorem receiveBlock_runs :
    Runs myTask prio t (.receiveStart a id) m (receiveBlock (myTask t) a id m).1
      (receiveBlock (myTask t) a id m).2 := by
  unfold receiveBlock
  dsimp only
  split
  · exact .receiveTooShort (by assumption)
  · exact .pended (by assumption)

theorem receiveEndBlock_deleted (hp : MsgPoint a id retcode p) (hkill : (m.queue id).sendType = .killd)
    (retcode' : Retcode) : Runs myTask prio t p m (receiveEndBlock (myTask t) a id retcode' m).1
      (receiveEndBlock (myTask t) a id retcode' m).2 := by
  unfold receiveEndBlock V2ptMqueue.leaveMsg
  simp only [hkill, if_true, ending]
  exact .receiveDeleted hp hkill (by rw [← hkill])

theorem noMsgBlock_runs (hp : MsgPoint a id retcode p)
    (hs : p = .receiveTest a id retcode → (m.queue id).sendType ≠ .killd)
    (hnone : (m.queue id).msgFor prio (myTask t) = .unavailable ∨ p = .receiveAgain a id retcode) :
    Runs myTask prio t p m (noMsgBlock (myTask t) a id retcode m).1 (noMsgBlock (myTask t) a id retcode m).2 := by
  unfold noMsgBlock
  split
  · rename_i hr
    subst hr
    by_cases hkill : (m.queue id).sendType = .killd
    · exact receiveEndBlock_deleted hp hkill _
    · unfold receiveEndBlock V2ptMqueue.leaveMsg
      simp only [hkill, if_false, if_true, ending]
      exact .receiveTimedOut hp hkill hnone
  · exact .receiveSleeps hp hs hnone (by assumption)

theorem msgBlock_runs (hp : MsgPoint a id retcode p)
    (hs : p = .receiveTest a id retcode → (m.queue id).sendType ≠ .killd) :
    Runs myTask prio t p m (msgBlock prio (myTask t) a id retcode m).1
      (msgBlock prio (myTask t) a id retcode m).2 := by
  unfold msgBlock
  split
  · rename_i hours
    by_cases hkill : (m.queue id).sendType = .killd
    · exact receiveEndBlock_deleted hp hkill _
    · unfold V2ptMqueue.msgFor at hours
      split at hours
      · rename_i hcount
        split at hours
        · rename_i hsig
          unfold receiveEndBlock V2ptMqueue.leaveMsg
          simp only [hkill, if_false, reduceCtorEq, ending]
          exact .fetched hp hkill hcount hsig rfl
        · cases hours
      · cases hours
  · exact .receivePolls hp hs (by assumption)
  · exact noMsgBlock_runs hp hs (.inl (by assumption))

theorem receiveTestBlock_runs :
    Runs myTask prio t (.receiveTest a id retcode) m (receiveTestBlock prio (myTask t) a id retcode m).1
      (receiveTestBlock prio (myTask t) a id retcode m).2 := by
  unfold receiveTestBlock
  split
  · exact receiveEndBlock_deleted .test (by assumption) _
  · rename_i hs
    exact msgBlock_runs .test fun _ => hs

theorem receiveAgainBlock_runs {c : Choice ι} {m' : Mem θ ι} {p' : Pc ι}
    (h : receiveAgainBlock prio (myTask t) a id retcode c m = some (m', p')) :
    Runs myTask prio t (.receiveAgain a id retcode) m m' p' := by
  have hs : Pc.receiveAgain a id retcode = .receiveTest a id retcode → (m.queue id).sendType ≠ .killd :=
    fun h => by cases h
  cases c with
  | expired answer =>
    simp only [receiveAgainBlock] at h
    split at h
    · have hr : Runs myTask prio t (.receiveAgain a id retcode) m _ _ := noMsgBlock_runs .again hs (.inr rfl)
      rwa [Option.some.inj h] at hr
    · have hr : Runs myTask prio t (.receiveAgain a id retcode) m _ _ := msgBlock_runs .again hs
      rwa [Option.some.inj h] at hr
  | _ => cases h

end Msg

/-- Every block of the library is one of `Runs`. -/
theorem block_runs {p p' : Pc ι} {block : Choice ι → Mem θ ι → Option (Mem θ ι × Pc ι)} {c : Choice ι}
    {m m' : Mem θ ι} (hi : code myTask prio t p = .run block) (h : block c m = some (m', p')) :
    Runs myTask prio t p m m' p' := by
  cases p <;> simp only [code, Instr.run.injEq, reduceCtorEq] at hi <;> subst hi
  case idle => exact callBlock_runs rfl h
  case returned => exact callBlock_runs rfl h
  case linkAppend id =>
    cases h
    exact .linked id
  case findScan op id =>
    cases h
    split
    · exact .found op (by assumption)
    · exact .notFound op (by assumption)
  case sendStart a id =>
    have hr : Runs myTask prio t (.sendStart a id) m _ _ := sendBlock_runs a id m
    rwa [Option.some.inj h] at hr
  case waitTest a id retcode =>
    cases h
    exact spaceTestPoint_runs
  case waitAgain a id retcode => exact spaceAgainBlock_runs h
  case waitEnd a id retcode =>
    have hr : Runs myTask prio t (.waitEnd a id retcode) m _ _ := waitEndBlock_runs
    rwa [Option.some.inj h] at hr
  case receiveStart a id =>
    have hr : Runs myTask prio t (.receiveStart a id) m _ _ := receiveBlock_runs
    rwa [Option.some.inj h] at hr
  case receiveTest a id retcode =>
    have hr : Runs myTask prio t (.receiveTest a id retcode) m _ _ := receiveTestBlock_runs
    rwa [Option.some.inj h] at hr
  case receiveAgain a id retcode => exact receiveAgainBlock_runs h
  case numStart id =>
    cases h
    exact .counted id
  case deleteMark id =>
    cases h
    exact .deleteMarked id
  case deleteTaskLock id =>
    obtain ⟨k, hk, he⟩ := Option.map_eq_some_iff.mp h
    cases he
    exact .deleteTaskLocked id hk
  case deleteTest id =>
    cases h
    split
    · exact .deleteNobody (by assumption)
    · exact .deleteSome (Bool.eq_false_iff.mpr (by assumption))
  case deleteDrain id =>
    cases h
    split
    · exact .deleteDrained (by assumption)
    · exact .deleteUndrained (Bool.eq_false_iff.mpr (by assumption))
  case deleteUnlink id =>
    cases h
    exact .unlinked id
  case deleteFree id =>
    cases h
    exact .freed id
  case deleteTaskUnlock id =>
    cases h
    exact .deleteTaskUnlocked id

/-! ### The steps -/

/-- A step of the library runs a block, or it leaves the memory alone and its thread
falls asleep where it is or goes on to the next point. -/
theorem step_cases {s s' : QueueState θ ι} (h : Step (code myTask prio) t s s') :
    (s'.mem = s.mem ∧ (∀ block, code myTask prio t (s.ctl t).point ≠ .run block) ∧
      ((s'.ctl t).point = (s.ctl t).point ∨
        (code myTask prio t (s.ctl t).point).Next (s'.ctl t).point)) ∨
    ∃ p p', s.ctl t = .awake p ∧ s'.ctl t = .awake p' ∧ Runs myTask prio t p s.mem s'.mem p' ∧
      s'.owner = s.owner := by
  obtain hq | ⟨p, block, c, p', hp, hi, hb, hp', ho⟩ := h.sync_or_block
  · exact .inl hq
  · exact .inr ⟨p, p', hp, hp', block_runs hi hb, ho⟩

end

end V2lin.Queue
