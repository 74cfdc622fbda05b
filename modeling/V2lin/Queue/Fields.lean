import V2lin.Queue.Steps

/-! What the blocks do to each field of a queue's control block. -/
namespace V2lin.Queue
open Threads V2lin.Task

section
variable {θ ι : Type}

/-- The two lists of a queue. -/
inductive Side where
  | receivers
  | senders
  deriving DecidableEq

/-- `first_susp` or `first_write_susp`. -/
def V2ptMqueue.list (side : Side) (q : V2ptMqueue θ) : List θ :=
  match side with
  | .receivers => q.firstSusp
  | .senders => q.firstWriteSusp

/-- The queue on whose list the thread at a point stands. -/
def pendsOn (side : Side) : Pc ι → Option ι
  | .readyLock _ id | .readyNotify _ id | .readyUnlock _ id | .receiveTest _ id _ | .receiveSleep _ id
  | .receivePoll _ id _ | .receivePollLock _ id _ | .receiveAgain _ id _ =>
    if side = .receivers then some id else none
  | .waitUnlock _ id | .waitTest _ id _ | .waitSleep _ id | .waitPoll _ id _ | .waitPollLock _ id _
  | .waitAgain _ id _ | .waitRelock _ id _ | .waitEnd _ id _ =>
    if side = .senders then some id else none
  | _ => none

/-- The queue whose control block has been made or found at a point. -/
def touches : Pc ι → Option ι
  | .idle | .returned _ _ _ | .findLock _ _ | .findScan _ _ => none
  | .findUnlock _ id found => if found then some id else none
  | .linkLock id | .linkAppend id | .linkUnlock id | .findQueue _ id => some id
  | .sendStart _ id | .sendNotify _ id | .waitUnlock _ id | .waitTest _ id _ | .waitSleep _ id => some id
  | .waitPoll _ id _ | .waitPollLock _ id _ | .waitAgain _ id _ | .waitRelock _ id _ | .waitEnd _ id _ => some id
  | .receiveStart _ id | .readyLock _ id | .readyNotify _ id | .readyUnlock _ id => some id
  | .receiveTest _ id _ | .receiveSleep _ id | .receivePoll _ id _ | .receivePollLock _ id _ => some id
  | .receiveAgain _ id _ | .spaceLock _ id _ | .spaceNotify _ id _ | .spaceUnlock _ id _ => some id
  | .lastLock _ id | .lastNotify _ id | .lastUnlock _ id | .numStart id | .leave _ id _ => some id
  | .deleteMark id | .deleteTaskLock id | .deleteTest id | .deleteQueueUnlock id => some id
  | .deleteQdletLock id | .deleteNotify id | .deleteQueueRelease id | .deleteQfullLock id => some id
  | .deleteSpaceNotify id | .deleteQfullUnlock id | .deleteDrain id | .deleteWait id => some id
  | .deleteQdletUnlock id | .deleteListLock id | .deleteUnlink id | .deleteListUnlock id => some id
  | .deleteFree id | .deleteTaskUnlock id => some id

variable {p : Pc ι} {id : ι} {side : Side}

theorem SpacePoint.pended {a : SendArgs} {retcode : Retcode} (h : SpacePoint a id retcode p) :
    pendsOn side p = if side = .senders then some id else none := by
  cases h <;> rfl

theorem MsgPoint.pended {a : ReceiveArgs} {retcode : Retcode} (h : MsgPoint a id retcode p) :
    pendsOn side p = if side = .receivers then some id else none := by
  cases h <;> rfl

theorem SpacePoint.touched {a : SendArgs} {retcode : Retcode} (h : SpacePoint a id retcode p) :
    touches p = some id := by
  cases h <;> rfl

theorem MsgPoint.touched {a : ReceiveArgs} {retcode : Retcode} (h : MsgPoint a id retcode p) :
    touches p = some id := by
  cases h <;> rfl

theorem pended_resting (h : p.resting = true) : pendsOn side p = none := by
  cases p <;> first | rfl | cases h

theorem pended_deletedPoint (op : Op) (id : ι) (last : Bool) : pendsOn side (deletedPoint op id last) = none := by
  cases last <;> rfl

theorem pended_receivedPoint (a : ReceiveArgs) (id : ι) (msg : List UInt8) (space : Bool) :
    pendsOn side (receivedPoint a id msg space) = none := by
  cases space <;> rfl

theorem touched_deletedPoint (op : Op) (id : ι) (last : Bool) : touches (deletedPoint op id last) = some id := by
  cases last <;> rfl

theorem touched_receivedPoint (a : ReceiveArgs) (id : ι) (msg : List UInt8) (space : Bool) :
    touches (receivedPoint a id msg space) = some id := by
  cases space <;> rfl

theorem touched_of_pended (h : pendsOn side p = some id) : touches p = some id := by
  cases side <;> cases p <;> first | exact h | cases h

variable [DecidableEq θ] [DecidableEq ι]
variable {myTask : θ → Option θ} {prio : θ → ℤ} {t : θ} {p' : Pc ι} {m m' : Mem θ ι}

theorem next_pended (h : (code myTask prio t p).Next p') : pendsOn side p' = pendsOn side p := by
  cases p
  case findUnlock op id found =>
    cases h
    cases found
    · rfl
    · cases op <;> rfl
  all_goals first
    | exact False.elim h
    | (cases h; rfl)
    | (obtain ⟨r, rfl⟩ := h; rfl)

theorem next_touched (h : (code myTask prio t p).Next p') (ht : touches p' = some id) : touches p = some id := by
  cases p
  case findUnlock op id found =>
    cases h
    cases found
    · cases ht
    · cases op <;> exact ht
  all_goals first
    | exact False.elim h
    | (cases h; exact ht)
    | (cases h; cases ht)
    | (obtain ⟨r, rfl⟩ := h; exact ht)

omit [DecidableEq θ] in
theorem post_list (q : V2ptMqueue θ) (msg : Msg) (pri : ℤ) : (q.post msg pri).list side = q.list side := by
  unfold V2ptMqueue.post
  split <;> cases side <;> rfl

/-- What a block does to a queue's list: nothing, link its task, unlink it, or make the
list with its queue. -/
theorem Runs.list_cases (h : Runs some prio t p m m' p') (side : Side) (id : ι) :
    ((m'.queue id).list side = (m.queue id).list side ∧ (pendsOn side p' = some id ↔ pendsOn side p = some id)) ∨
      (pendsOn side p = none ∧ pendsOn side p' = some id ∧
        (m'.queue id).list side = linkSuspTask ((m.queue id).list side) (some t)) ∨
      (pendsOn side p = some id ∧ pendsOn side p' = none ∧
        (m'.queue id).list side = unlinkSuspTask ((m.queue id).list side) (some t)) ∨
      (m.block id = .fresh ∧ pendsOn side p = none ∧ pendsOn side p' = none ∧ (m'.queue id).list side = []) := by
  cases h with
  | called _ _ hp => exact .inl ⟨rfl, by rw [pended_resting hp]; rfl⟩
  | created j _ _ _ hp hfresh =>
    by_cases hj : id = j
    · subst hj
      exact .inr (.inr (.inr ⟨hfresh, pended_resting hp, rfl, by cases side <;> simp [V2ptMqueue.list, msgQCreate]⟩))
    · exact .inl ⟨by simp [hj], by rw [pended_resting hp]; rfl⟩
  | sentTail => exact .inl ⟨Mem.setQueue_congr (V2ptMqueue.list side) m (by cases side <;> rfl) id, by rfl⟩
  | sentFront => exact .inl ⟨Mem.setQueue_congr (V2ptMqueue.list side) m (by cases side <;> rfl) id, by rfl⟩
  | @sendPended m a j =>
    cases side with
    | receivers => exact .inl ⟨Mem.setQueue_congr (V2ptMqueue.list .receivers) m (by rfl) id, by rfl⟩
    | senders =>
      by_cases hj : id = j
      · subst hj
        exact .inr (.inl ⟨rfl, rfl, by simp [V2ptMqueue.list]⟩)
      · exact .inl ⟨by simp [hj], by simp [pendsOn, Ne.symm hj]⟩
  | spaceOver hp => exact .inl ⟨rfl, by rw [hp.pended]; rfl⟩
  | spaceTimedOut hp => exact .inl ⟨rfl, by rw [hp.pended]; rfl⟩
  | spaceSleeps hp => exact .inl ⟨rfl, by rw [hp.pended]; rfl⟩
  | spacePolls hp => exact .inl ⟨rfl, by rw [hp.pended]; rfl⟩
  | @sendDeleted m q a j retcode _ hq =>
    rw [pended_deletedPoint]
    cases side with
    | receivers =>
      exact .inl ⟨Mem.setQueue_congr (V2ptMqueue.list .receivers) m (by rw [hq]; rfl) id, by rfl⟩
    | senders =>
      by_cases hj : id = j
      · subst hj
        exact .inr (.inr (.inl ⟨rfl, rfl, by simp [hq, V2ptMqueue.list]⟩))
      · exact .inl ⟨by simp [hj], by simp [pendsOn, Ne.symm hj]⟩
  | @sendTimedOut m a j =>
    cases side with
    | receivers => exact .inl ⟨Mem.setQueue_congr (V2ptMqueue.list .receivers) m (by rfl) id, by rfl⟩
    | senders =>
      by_cases hj : id = j
      · subst hj
        exact .inr (.inr (.inl ⟨rfl, rfl, by simp [V2ptMqueue.list]⟩))
      · exact .inl ⟨by simp [hj], by simp [pendsOn, Ne.symm hj]⟩
  | @sentLate m q a j retcode _ _ hq =>
    cases side with
    | receivers =>
      exact .inl ⟨Mem.setQueue_congr (V2ptMqueue.list .receivers) m (by rw [post_list, hq]; rfl) id, by rfl⟩
    | senders =>
      by_cases hj : id = j
      · subst hj
        refine .inr (.inr (.inl ⟨rfl, rfl, ?_⟩))
        rw [Mem.setQueue_self, post_list, hq]
        rfl
      · exact .inl ⟨by simp [hj], by simp [pendsOn, Ne.symm hj]⟩
  | @pended m a j =>
    have hp' : pendsOn side (if (m.queue j).msgsPerQueue = 0 ∧ (m.queue j).firstWriteSusp ≠ [] then
        .readyLock a j else .receiveTest a j .ok) = if side = .receivers then some j else none := by
      split <;> rfl
    rw [hp']
    cases side with
    | receivers =>
      by_cases hj : id = j
      · subst hj
        exact .inr (.inl ⟨rfl, rfl, by simp [V2ptMqueue.list]⟩)
      · exact .inl ⟨by simp [hj], by simp [pendsOn, Ne.symm hj]⟩
    | senders => exact .inl ⟨Mem.setQueue_congr (V2ptMqueue.list .senders) m (by rfl) id, by rfl⟩
  | @receiveDeleted p m q a j retcode hp _ hq =>
    rw [hp.pended, pended_deletedPoint]
    cases side with
    | receivers =>
      by_cases hj : id = j
      · subst hj
        exact .inr (.inr (.inl ⟨rfl, rfl, by simp [hq, V2ptMqueue.list]⟩))
      · exact .inl ⟨by simp [hj], by simp [Ne.symm hj]⟩
    | senders => exact .inl ⟨Mem.setQueue_congr (V2ptMqueue.list .senders) m (by rw [hq]; rfl) id, by rfl⟩
  | @receiveTimedOut p m a j hp =>
    rw [hp.pended]
    cases side with
    | receivers =>
      by_cases hj : id = j
      · subst hj
        exact .inr (.inr (.inl ⟨rfl, rfl, by simp [V2ptMqueue.list]⟩))
      · exact .inl ⟨by simp [hj], by simp [pendsOn, Ne.symm hj]⟩
    | senders => exact .inl ⟨Mem.setQueue_congr (V2ptMqueue.list .senders) m (by rfl) id, by rfl⟩
  | @fetched p m q a j retcode hp _ _ _ hq =>
    rw [hp.pended, pended_receivedPoint]
    cases side with
    | receivers =>
      by_cases hj : id = j
      · subst hj
        exact .inr (.inr (.inl ⟨rfl, rfl, by simp [hq, V2ptMqueue.fetchMsgFrom, V2ptMqueue.list]⟩))
      · exact .inl ⟨by simp [hj], by simp [Ne.symm hj]⟩
    | senders => exact .inl ⟨Mem.setQueue_congr (V2ptMqueue.list .senders) m (by rw [hq]; rfl) id, by rfl⟩
  | receiveSleeps hp => exact .inl ⟨rfl, by rw [hp.pended]; rfl⟩
  | receivePolls hp => exact .inl ⟨rfl, by rw [hp.pended]; rfl⟩
  | deleteMarked => exact .inl ⟨Mem.setQueue_congr (V2ptMqueue.list side) m (by cases side <;> rfl) id, by rfl⟩
  | _ => exact .inl ⟨rfl, by rfl⟩

/-- The control blocks that a block's point refers to were referred to before, or are
on the list, or have just been made. -/
theorem Runs.touches_cases (h : Runs myTask prio t p m m' p') (ht : touches p' = some id) :
    touches p = some id ∨ id ∈ m.mqueueList ∨ m'.block id ≠ .fresh := by
  cases h with
  | called => cases ht
  | created j =>
    cases ht
    exact .inr (.inr (by simp))
  | found op h =>
    cases ht
    exact .inr (.inl h)
  | notFound => cases ht
  | spaceOver hp => exact .inl (hp.touched.trans ht)
  | spaceTimedOut hp => exact .inl (hp.touched.trans ht)
  | spaceSleeps hp => exact .inl (hp.touched.trans ht)
  | spacePolls hp => exact .inl (hp.touched.trans ht)
  | sendDeleted =>
    rw [touched_deletedPoint] at ht
    exact .inl ht
  | pended =>
    refine .inl ?_
    split at ht <;> exact ht
  | receiveDeleted hp =>
    rw [touched_deletedPoint] at ht
    exact .inl (hp.touched.trans ht)
  | receiveTimedOut hp => exact .inl (hp.touched.trans ht)
  | fetched hp =>
    rw [touched_receivedPoint] at ht
    exact .inl (hp.touched.trans ht)
  | receiveSleeps hp => exact .inl (hp.touched.trans ht)
  | receivePolls hp => exact .inl (hp.touched.trans ht)
  | deleteTaskUnlocked => cases ht
  | _ => exact .inl ht

theorem Runs.listed_cases (h : Runs myTask prio t p m m' p') (hid : id ∈ m'.mqueueList) :
    id ∈ m.mqueueList ∨ touches p = some id := by
  cases h with
  | linked j =>
    obtain hid | hid := List.mem_append.mp hid
    · exact .inl hid
    · rw [List.mem_singleton.mp hid]
      exact .inr rfl
  | unlinked => exact .inl (List.mem_of_mem_erase hid)
  | _ => exact .inl (by simpa using hid)

/-- A control block is made live by a creation and freed by a deletion, for good. -/
theorem Runs.block_cases (h : Runs myTask prio t p m m' p') :
    m'.block = m.block ∨
      (∃ id, p.resting = true ∧ m.block id = .fresh ∧ m'.block = Function.update m.block id .live) ∨
      ∃ id, p = .deleteFree id ∧ m'.block = Function.update m.block id .freed := by
  cases h with
  | created id _ _ _ hp hfresh => exact .inr (.inl ⟨id, hp, hfresh, rfl⟩)
  | freed id => exact .inr (.inr ⟨id, rfl, rfl⟩)
  | _ => exact .inl (by simp)

/-- No block becomes unused again. -/
theorem Runs.block_ne_fresh (h : Runs myTask prio t p m m' p') (hb : m.block id ≠ .fresh) :
    m'.block id ≠ .fresh := by
  obtain heq | ⟨j, _, _, heq⟩ | ⟨j, _, heq⟩ := h.block_cases
  · rwa [heq]
  · rw [heq]
    by_cases hj : id = j
    · simp [hj]
    · rwa [Function.update_of_ne hj]
  · rw [heq]
    by_cases hj : id = j
    · simp [hj]
    · rwa [Function.update_of_ne hj]

/-- A block that comes into use has just been handed out by `msgQCreate`. -/
theorem Runs.born (h : Runs myTask prio t p m m' p') (hf : m.block id = .fresh) (hb : m'.block id ≠ .fresh)
    (ht : touches p ≠ some id) :
    ∃ maxMsgs msglen opt, m'.queue id = msgQCreate θ maxMsgs msglen opt ∧ p.resting = true ∧ p' = .linkLock id := by
  cases h with
  | created j maxMsgs msglen opt hp =>
    by_cases hj : id = j
    · subst hj
      exact ⟨maxMsgs, msglen, opt, Mem.setQueue_self .., hp, rfl⟩
    · simp [hj, hf] at hb
  | freed j =>
    have hj : id ≠ j := fun hj => ht (by rw [hj]; rfl)
    simp [hj, hf] at hb
  | _ => exact absurd hf (by simpa using hb)

end

end V2lin.Queue
