import V2lin.Queue.Box
import V2lin.Queue.Deque
import V2lin.Queue.Messages
import V2lin.Queue.Vacated

/-! Every message queue is a box.

The steps of a run that touch a queue, seen as deeds at its box, lead the box to what the
control block and the extent show, whatever deletions and timeouts come between, as long
as no sender that has waited for space posts to a full queue. Each call is settled by one
deed of its thread between its call and its return. -/
namespace V2lin.Queue
open Threads V2lin.Task V2lin.Ring

section
variable {θ ι : Type}

/-! ### Calls -/

/-- How far the call at a point is, and with which reply. -/
def progress : Pc ι → CallStage (Op × ι) Reply
  | .idle | .linkLock _ | .linkAppend _ | .linkUnlock _ => .outside
  | .findLock op id | .findScan op id | .findQueue op id => .pending (op, id)
  | .findUnlock op id found => if found then .pending (op, id) else .settled (op, id) (notFound op)
  | .sendStart a id | .waitUnlock a id | .waitTest a id _ | .waitSleep a id | .waitPoll a id _ => .pending (.send a, id)
  | .waitPollLock a id _ | .waitAgain a id _ | .waitRelock a id _ | .waitEnd a id _ => .pending (.send a, id)
  | .sendNotify a id => .settled (.send a, id) .ok
  | .receiveStart a id | .readyLock a id | .readyNotify a id | .readyUnlock a id => .pending (.receive a, id)
  | .receiveTest a id _ | .receiveSleep a id | .receivePoll a id _ => .pending (.receive a, id)
  | .receivePollLock a id _ | .receiveAgain a id _ => .pending (.receive a, id)
  | .spaceLock a id msg | .spaceNotify a id msg | .spaceUnlock a id msg => .settled (.receive a, id) (.received msg)
  | .lastLock op id | .lastNotify op id | .lastUnlock op id => .settled (op, id) (.failed .objDeleted)
  | .numStart id => .pending (.numMsgs, id)
  | .leave op id reply => .settled (op, id) reply
  | .deleteMark id | .deleteTaskLock id | .deleteTest id | .deleteQueueUnlock id => .pending (.delete, id)
  | .deleteQdletLock id | .deleteNotify id | .deleteQueueRelease id | .deleteQfullLock id => .pending (.delete, id)
  | .deleteSpaceNotify id | .deleteQfullUnlock id | .deleteDrain id | .deleteWait id => .pending (.delete, id)
  | .deleteQdletUnlock id | .deleteListLock id | .deleteUnlink id => .pending (.delete, id)
  | .deleteListUnlock id | .deleteFree id | .deleteTaskUnlock id => .settled (.delete, id) .ok
  | .returned op id reply => .settled (op, id) reply

variable {p p' : Pc ι} {id : ι}

theorem progress_resting (h : p.resting = true) : ∀ call, progress p ≠ .pending call := by
  cases p with
  | idle => exact fun call h => by cases h
  | returned op id reply => exact fun call h => by cases h
  | _ => cases h

theorem SpacePoint.progress {a : SendArgs} {retcode : Retcode} (h : SpacePoint a id retcode p) :
    progress p = .pending (.send a, id) := by
  cases h <;> rfl

theorem MsgPoint.progress {a : ReceiveArgs} {retcode : Retcode} (h : MsgPoint a id retcode p) :
    progress p = .pending (.receive a, id) := by
  cases h <;> rfl

theorem progress_deletedPoint (op : Op) (id : ι) (last : Bool) :
    progress (deletedPoint op id last) = .settled (op, id) (.failed .objDeleted) := by
  cases last <;> rfl

theorem progress_receivedPoint (a : ReceiveArgs) (id : ι) (msg : List UInt8) (space : Bool) :
    progress (receivedPoint a id msg space) = .settled (.receive a, id) (.received msg) := by
  cases space <;> rfl

variable [DecidableEq θ] [DecidableEq ι]

/-! ### The box of a queue -/

/-- The messages in a queue's extent, the first one first. -/
def V2ptMqueue.messages (q : V2ptMqueue θ) : List (List UInt8) :=
  contents (element q.extent q.msgLen) (q.msgsPerQueue.toNat + 1) (q.queueHead / q.vmsgLen).toNat q.msgCount.toNat

/-- The message that has been posted last. -/
def V2ptMqueue.posted (q : V2ptMqueue θ) (pri : ℤ) : List UInt8 :=
  (if pri = msgPriUrgent then q.messages.head? else q.messages.getLast?).getD []

def V2ptMqueue.box (q : V2ptMqueue θ) (listed : Bool) : Box θ where
  listed := listed
  killed := q.sendType = .killd
  capacity := q.msgsPerQueue.toNat
  limit := q.msgLen
  byPriority := q.order ≠ 0
  messages := q.messages
  receivers := q.firstSusp
  senders := q.firstWriteSusp

/-- The box that the library's memory shows. -/
def Mem.box (m : Mem θ ι) (id : ι) : Box θ := (m.queue id).box (id ∈ m.mqueueList)

/-! ### Deeds -/

/-- The deed at the box of queue `id` in a block of thread `t` from `p` to `p'`. -/
def deedAt (id : ι) (t : θ) (p p' : Pc ι) (m' : Mem θ ι) : Option (Deed θ) :=
  match p, p' with
  | .linkAppend j, _ => if j = id then some .opens else none
  | .findScan op j, .findUnlock _ _ _ => if j = id then some (.refuse t op) else none
  | .sendStart a j, .sendNotify _ _ => if j = id then some (.post t a ((m'.queue id).posted a.pri)) else none
  | .sendStart a j, .waitUnlock _ _ => if j = id then some (.joinSenders t a) else none
  | .sendStart a j, .leave _ _ (.failed .invalidMsgLength) => if j = id then some (.sendTooLong t a) else none
  | .sendStart a j, _ => if j = id then some (.sendFull t a) else none
  | .waitEnd a j _, .sendNotify _ _ => if j = id then some (.postLate t a ((m'.queue id).posted a.pri)) else none
  | .waitEnd a j _, .leave _ _ (.failed error) => if j = id then some (.leaveSenders t a error) else none
  | .waitEnd a j _, _ => if j = id then some (.leaveSenders t a .objDeleted) else none
  | .receiveStart a j, .leave _ _ _ => if j = id then some (.receiveTooShort t a) else none
  | .receiveStart a j, _ => if j = id then some (.joinReceivers t a) else none
  | .receiveTest a j _, .spaceLock _ _ msg | .receiveTest a j _, .leave _ _ (.received msg)
  | .receiveAgain a j _, .spaceLock _ _ msg | .receiveAgain a j _, .leave _ _ (.received msg) =>
    if j = id then some (.fetch t a msg) else none
  | .receiveTest a j _, .leave _ _ (.failed error) | .receiveAgain a j _, .leave _ _ (.failed error) =>
    if j = id then some (.leaveReceivers t a error) else none
  | .receiveTest a j _, .lastLock _ _ | .receiveAgain a j _, .lastLock _ _ =>
    if j = id then some (.leaveReceivers t a .objDeleted) else none
  | .numStart j, .leave _ _ (.count n) => if j = id then some (.count t n) else none
  | .deleteMark j, _ => if j = id then some (.kill t) else none
  | .deleteUnlink j, _ => if j = id then some (.close t) else none
  | _, _ => none

/-- The deed at the box of queue `id` that a step is. -/
def deed (id : ι) (x : QueueTransition θ ι) : Option (Deed θ) :=
  stepEvent (fun t p p' _ m' => deedAt id t p p' m') x

variable {prio : θ → ℤ} {t : θ} {m m' : Mem θ ι} {s s' : QueueState θ ι} {tr later before : List (QueueTransition θ ι)}
variable {x : QueueTransition θ ι}

section
attribute [local simp] deedAt

omit [DecidableEq θ] in
theorem deedAt_elsewhere (h : subject p ≠ some id) : deedAt id t p p' m' = none := by
  have hne : ∀ {j : ι}, subject p = some j → j ≠ id := fun hj heq => h (heq ▸ hj)
  unfold deedAt
  split <;> first | rfl | exact if_neg (hne rfl)

omit [DecidableEq θ] in
theorem deedAt_received {a : ReceiveArgs} {retcode : Retcode} (h : MsgPoint a id retcode p) (msg : List UInt8)
    (space : Bool) : deedAt id t p (receivedPoint a id msg space) m' = some (.fetch t a msg) := by
  cases h <;> cases space <;> simp [receivedPoint]

omit [DecidableEq θ] in
theorem deedAt_deleted {a : ReceiveArgs} {retcode : Retcode} (h : MsgPoint a id retcode p) (last : Bool) :
    deedAt id t p (deletedPoint (.receive a) id last) m' = some (.leaveReceivers t a .objDeleted) := by
  cases h <;> cases last <;> simp [deletedPoint]

end

/-! ### What the waiting calls have made sure of -/

/-- The receiver at a point that stands in line. -/
def receiveArgs : Pc ι → Option (ReceiveArgs × ι)
  | .readyLock a id | .readyNotify a id | .readyUnlock a id | .receiveTest a id _ | .receiveSleep a id
  | .receivePoll a id _ | .receivePollLock a id _ | .receiveAgain a id _ => some (a, id)
  | _ => none

/-- The `max_wait` of the call at a point in a wait loop, and what its last wait has reported. -/
def reported : Pc ι → Option (ℤ × Retcode)
  | .waitTest a _ retcode | .waitPoll a _ retcode | .waitPollLock a _ retcode | .waitAgain a _ retcode
  | .waitRelock a _ retcode | .waitEnd a _ retcode => some (a.wait, retcode)
  | .receiveTest a _ retcode | .receivePoll a _ retcode | .receivePollLock a _ retcode
  | .receiveAgain a _ retcode => some (a.maxWait, retcode)
  | _ => none

omit [DecidableEq ι] in
theorem MsgPoint.receiveArgs {a : ReceiveArgs} {retcode : Retcode} (h : MsgPoint a id retcode p) :
    receiveArgs p = some (a, id) := by
  cases h <;> rfl

omit [DecidableEq ι] in
theorem receiveArgs_touches {a : ReceiveArgs} (h : receiveArgs p = some (a, id)) : touches p = some id := by
  cases p <;> cases h <;> rfl

theorem next_receiveArgs (h : (code some prio t p).Next p') : receiveArgs p' = receiveArgs p := by
  cases p
  case findUnlock op j found =>
    cases h
    cases found
    · rfl
    · cases op <;> rfl
  all_goals first
    | exact False.elim h
    | (cases h; rfl)
    | (obtain ⟨r, rfl⟩ := h; rfl)

/-- A receiver that stands in line has a buffer for every message of the queue. -/
theorem Runs.receiveArgs_cases (h : Runs some prio t p m m' p') {a : ReceiveArgs}
    (ha : receiveArgs p' = some (a, id)) : receiveArgs p = some (a, id) ∨ (m.queue id).msgLen ≤ a.buflen := by
  cases h with
  | @pended _ b j hlen =>
    have hb : (b, j) = (a, id) := by
      split at ha <;> exact Option.some.inj ha
    cases hb
    exact .inr (Nat.le_of_not_lt hlen)
  | receiveSleeps hp => exact .inl (hp.receiveArgs.trans ha)
  | receivePolls hp => exact .inl (hp.receiveArgs.trans ha)
  | sendDeleted =>
    unfold deletedPoint at ha
    split at ha <;> cases ha
  | receiveDeleted =>
    unfold deletedPoint at ha
    split at ha <;> cases ha
  | fetched =>
    unfold receivedPoint at ha
    split at ha <;> cases ha
  | _ => cases ha

omit [DecidableEq ι] in
theorem SpacePoint.reported {a : SendArgs} {retcode : Retcode} (h : SpacePoint a id retcode p) :
    reported p = some (a.wait, retcode) := by
  cases h <;> rfl

omit [DecidableEq ι] in
theorem MsgPoint.reported {a : ReceiveArgs} {retcode : Retcode} (h : MsgPoint a id retcode p) :
    reported p = some (a.maxWait, retcode) := by
  cases h <;> rfl

/-- Where a call has a report after a synchronization, it has had it before, or has slept. -/
theorem next_reported (h : (code some prio t p).Next p') {wait : ℤ} (hw : reported p' = some (wait, .etimedout)) :
    reported p = some (wait, .etimedout) ∨
      ∃ c lock next, code some prio t p = .wait c lock (decide (wait ≠ waitForever)) next ∧
        ∀ r, reported (next r) = some (wait, r) := by
  cases p
  case findUnlock op j found =>
    cases h
    cases found
    · cases hw
    · cases op <;> cases hw
  case waitSleep a j =>
    obtain ⟨r, rfl⟩ := h
    cases hw
    exact .inr ⟨_, _, _, rfl, fun _ => rfl⟩
  case receiveSleep a j =>
    obtain ⟨r, rfl⟩ := h
    cases hw
    exact .inr ⟨_, _, _, rfl, fun _ => rfl⟩
  all_goals first
    | exact False.elim h
    | (cases h; exact .inl hw)
    | (cases h; cases hw)
    | (obtain ⟨r, rfl⟩ := h; cases hw)

theorem Runs.reported_cases (h : Runs some prio t p m m' p') {wait : ℤ}
    (hw : reported p' = some (wait, .etimedout)) : reported p = some (wait, .etimedout) := by
  cases h with
  | spaceOver => cases hw
  | spaceTimedOut hp => exact hp.reported.trans hw
  | spacePolls hp => exact hp.reported.trans hw
  | receivePolls hp => exact hp.reported.trans hw
  | sendDeleted =>
    unfold deletedPoint at hw
    split at hw <;> cases hw
  | pended => split at hw <;> cases hw
  | receiveDeleted =>
    unfold deletedPoint at hw
    split at hw <;> cases hw
  | fetched =>
    unfold receivedPoint at hw
    split at hw <;> cases hw
  | _ => cases hw

/-- A wait without a deadline does not time out. -/
theorem patience_step (h : ∀ t wait, reported (s.ctl t).point = some (wait, .etimedout) → wait ≠ waitForever)
    (hs : Step (code some prio) t s s') (u : θ) (wait : ℤ)
    (hw : reported (s'.ctl u).point = some (wait, .etimedout)) : wait ≠ waitForever := by
  by_cases hu : u = t
  · subst hu
    obtain ⟨_, _, heq | hnext⟩ | ⟨p, p', hp, hp', hr, _⟩ := step_cases hs
    · exact h u wait (heq ▸ hw)
    · obtain hold | ⟨c, lock, next, hwait, hreport⟩ := next_reported hnext hw
      · exact h u wait hold
      · obtain heq | ⟨r, hr, htimed⟩ := hs.reports hwait
        · exact h u wait (heq ▸ hw)
        · rw [hr, hreport, Option.some.injEq, Prod.mk.injEq] at hw
          exact of_decide_eq_true (htimed hw.2)
    · rw [hp', Ctl.point_awake] at hw
      exact h u wait (by rw [hp]; exact hr.reported_cases hw)
  · exact h u wait (by rwa [← hs.ctl_other hu])

/-! ### The box under the operations -/

section
variable {q q' : V2ptMqueue θ} {n l : ℕ} {msgs : List (List UInt8)} {listed : Bool} {pri : ℤ} {msg : List UInt8}

omit [DecidableEq θ] in
theorem Holds.messages (h : Holds q n l msgs) : q.messages = msgs := by
  obtain ⟨head, hhead, hqhead, _, hc⟩ := h.elements
  have hplace : (q.queueHead / q.vmsgLen).toNat = head := by
    rw [hqhead, h.vmsgLen, Int.mul_ediv_cancel_left _ (by simp [headerLen]; omega), Int.toNat_natCast]
  rw [V2ptMqueue.messages, hplace, h.msgLen, h.capacity, h.count, Int.toNat_natCast, Int.toNat_natCast, hc]

omit [DecidableEq θ] in
theorem Holds.box (h : Holds q n l msgs) (listed : Bool) :
    q.box listed = ⟨listed, q.sendType = .killd, n, l, q.order ≠ 0, msgs, q.firstSusp, q.firstWriteSusp⟩ := by
  rw [V2ptMqueue.box, h.messages, h.msgLen, h.capacity, Int.toNat_natCast]

omit [DecidableEq θ] in
theorem Holds.fits (h : Holds q n l msgs) (hroom : q.msgCount ≤ q.msgsPerQueue) : msgs.length ≤ n := by
  rw [h.count, h.capacity] at hroom
  exact_mod_cast hroom

omit [DecidableEq θ] in
/-- `msgQSend` lets a message in as the box does, and where the box puts it. -/
theorem Holds.admission (h : Holds q n l msgs) (listed : Bool) (pri : ℤ) (msg : List UInt8) :
    match q.admission pri with
    | .tail => (q.box listed).admits pri = true ∧ (q.box listed).put pri msg = msgs ++ [msg]
    | .front => (q.box listed).admits pri = true ∧ (q.box listed).put pri msg = msg :: msgs
    | .full => (q.box listed).admits pri = false := by
  have hcount : q.msgCount = (msgs.length : ℤ) := h.count
  have hcapacity : q.msgsPerQueue = (n : ℤ) := h.capacity
  rw [h.box]
  unfold V2ptMqueue.admission Box.admits Box.put
  dsimp only
  rcases Nat.lt_trichotomy msgs.length n with hlt | heq | hgt
  · have h₁ : ¬ q.msgCount > q.msgsPerQueue := by omega
    have h₂ : q.msgCount ≠ q.msgsPerQueue := by omega
    by_cases hurgent : pri = msgPriUrgent
    · simp [h₁, h₂, hurgent, hlt.le]
    · simp [h₁, h₂, hurgent, hlt]
  · have h₂ : q.msgCount = q.msgsPerQueue := by omega
    by_cases hwaiting : q.msgsPerQueue = 0 ∧ q.firstSusp ≠ []
    · have hn : n = 0 := by omega
      obtain rfl : msgs = [] := List.length_eq_zero_iff.mp (by omega)
      by_cases hurgent : pri = msgPriUrgent
      · simp [h₂, hwaiting, hurgent]
      · simp [h₂, hwaiting, hurgent, hn]
    · have hnot : ¬ (n = 0 ∧ msgs = [] ∧ q.firstSusp ≠ []) := fun hw => hwaiting ⟨by omega, hw.2.2⟩
      by_cases hurgent : pri = msgPriUrgent
      · simp [h₂, hwaiting, hurgent, heq]
      · simp [h₂, hwaiting, hurgent, heq, hnot]
  · have h₁ : q.msgCount > q.msgsPerQueue := by omega
    have hn : n ≠ 0 ∨ msgs ≠ [] := .inr (List.ne_nil_of_length_pos (by omega))
    have hnot : ¬ (n = 0 ∧ msgs = [] ∧ q.firstSusp ≠ []) := by
      rintro ⟨_, rfl, _⟩
      simp at hgt
    by_cases hurgent : pri = msgPriUrgent
    · simp [h₁, hurgent, hgt]
    · simp [h₁, hurgent, hgt.le, hnot]

omit [DecidableEq θ] in
theorem Holds.posted {d : Box θ} (h : Holds q n l (d.put pri msg)) : q.posted pri = msg := by
  rw [V2ptMqueue.posted, h.messages, Box.put]
  split <;> simp

omit [DecidableEq θ] in
/-- A queue that holds other messages is a box with other messages. -/
theorem Holds.box_next {msgs' : List (List UInt8)} (h : Holds q n l msgs) (h' : Holds q' n l msgs')
    (horder : q'.order = q.order) (listed : Bool) :
    q'.box listed = {q.box listed with
      killed := q'.sendType = .killd, messages := msgs', receivers := q'.firstSusp, senders := q'.firstWriteSusp} := by
  rw [h.box, h'.box, horder]

omit [DecidableEq θ] in
theorem Holds.put (h : Holds q n l msgs) (listed : Bool) (pri : ℤ) (msg : List UInt8) :
    (q.box listed).put pri msg = if pri = msgPriUrgent then msg :: msgs else msgs ++ [msg] := by
  rw [h.box]
  rfl

/-- A message that is let in goes where the box puts it. -/
theorem Holds.act_post {a : SendArgs} (h : Holds q n l msgs) (h' : Holds q' n l ((q.box listed).put a.pri msg))
    (hcarries : Carries a.msg msg) (hlen : a.msg.msglen ≤ l) (hadmits : (q.box listed).admits a.pri = true)
    (horder : q'.order = q.order) (halive : q'.sendType ≠ .killd) (hreceivers : q'.firstSusp = q.firstSusp)
    (hsenders : q'.firstWriteSusp = q.firstWriteSusp) :
    Box.act prio (.post t a (q'.posted a.pri)) (q.box listed) = some (q'.box listed) := by
  have hlimit : msg.length ≤ (q.box listed).limit := by
    rw [h.box, hcarries.length]
    exact hlen
  rw [h'.posted, h.box_next h' horder, hreceivers, hsenders, decide_eq_false halive]
  exact if_pos ⟨hcarries, hlimit, hadmits⟩

/-- The message of a sender that has stood in line goes where the box puts it. -/
theorem Holds.act_postLate {a : SendArgs} (h : Holds q n l msgs)
    (h' : Holds q' n l ((q.box listed).put a.pri msg)) (hcarries : Carries a.msg msg) (hlen : a.msg.msglen ≤ l)
    (hfits : msgs.length ≤ n) (hin : t ∈ q.firstWriteSusp) (halive : q.sendType ≠ .killd)
    (horder : q'.order = q.order) (hreceivers : q'.list .receivers = q.list .receivers)
    (hsenders : q'.list .senders = q.firstWriteSusp.erase t) (halive' : q'.sendType ≠ .killd) :
    Box.act prio (.postLate t a (q'.posted a.pri)) (q.box listed) = some (q'.box listed) := by
  have hlimit : msg.length ≤ (q.box listed).limit := by
    rw [h.box, hcarries.length]
    exact hlen
  have hkilled : (q.box listed).killed = false := decide_eq_false halive
  have hroom : (q.box listed).messages.length ≤ (q.box listed).capacity := by
    rw [h.box]
    exact hfits
  rw [h'.posted, h.box_next h' horder, decide_eq_false halive', ← hkilled,
    show q'.firstSusp = q.firstSusp from hreceivers, show q'.firstWriteSusp = _ from hsenders]
  exact if_pos ⟨hcarries, hlimit, hin, hkilled, hroom⟩

omit [DecidableEq θ] in
theorem Holds.post {m : Msg} (h : Holds q n l msgs) (hroom : msgs.length ≤ n) (hlen : m.msglen ≤ l) (hl : l < 2 ^ 32)
    (pri : ℤ) : ∃ msg, Carries m msg ∧
      Holds (q.post m pri) n l (if pri = msgPriUrgent then msg :: msgs else msgs ++ [msg]) := by
  unfold V2ptMqueue.post
  split
  · exact h.urgentMsgTo hroom hlen hl
  · exact h.sendMsgTo hroom hlen hl

omit [DecidableEq θ] in
/-- The selected task is the first of those with the highest priority. -/
theorem selected_find {line : List θ} (h : Selected prio line t) :
    line.find? (fun t => line.all fun u => prio u ≤ prio t) = some t := by
  obtain ⟨first, rest, hline, hlow⟩ := h.split
  have hmem : t ∈ line := by simp [hline]
  refine List.find?_eq_some_iff_append.mpr ⟨?_, first, rest, hline, fun u hu => ?_⟩
  · simpa using h.top
  · have hlt := hlow u hu
    simp only [Bool.not_eq_true', List.all_eq_false, decide_eq_true_eq]
    exact ⟨t, hmem, Int.not_le.mpr hlt⟩

/-- The signal is for the receiver that the box calls next. -/
theorem next_of_signal (h : signalForMyTask q.firstSusp q.order prio (some t) = true) :
    (q.box listed).next prio = some t := by
  by_cases horder : q.order = 0
  · rw [horder, signalForMyTask_fifo] at h
    simpa [V2ptMqueue.box, Box.next, horder] using h
  · have hsel := selected_find (signalForMyTask_priority horder h)
    simpa [V2ptMqueue.box, Box.next, horder] using hsel

end

/-! ### Blocks -/

/-- What is known of a queue where thread `t` is about to run a block on it. -/
structure Orders (id : ι) (n l : ℕ) (t : θ) (p : Pc ι) (m : Mem θ ι) : Prop where
  made : m.block id ≠ .fresh
  small : l < 2 ^ 32
  holds : ∃ msgs, Holds (m.queue id) n l msgs
  senders : t ∈ (m.queue id).firstWriteSusp ↔ pendsOn .senders p = some id
  receivers : t ∈ (m.queue id).firstSusp ↔ pendsOn .receivers p = some id
  message : ∀ a, waitArgs p = some (a, id) → a.msg.msglen ≤ l
  buffer : ∀ a, receiveArgs p = some (a, id) → l ≤ a.buflen
  patience : ∀ wait, reported p = some (wait, .etimedout) → wait ≠ waitForever
  unlinked : publishing p = some id → id ∉ m.mqueueList
  nodup : m.mqueueList.Nodup

omit [DecidableEq θ] in
theorem Mem.box_congr (hq : m'.queue id = m.queue id) (hl : id ∈ m'.mqueueList ↔ id ∈ m.mqueueList) :
    m'.box id = m.box id := by
  simp only [Mem.box, hq, hl]

omit [DecidableEq ι] in
theorem subject_of_touches (h : touches p = some id) : subject p = some id := by
  cases p <;> first | exact h | cases h | skip
  case findUnlock op j found =>
    cases found
    · cases h
    · exact h

omit [DecidableEq θ] in
theorem Mem.setQueue_box (m : Mem θ ι) (id : ι) (q : V2ptMqueue θ) :
    (m.setQueue id q).box id = q.box (id ∈ m.mqueueList) := by
  rw [Mem.box, Mem.setQueue_self]
  rfl

/-- Every block is what it is at the box. -/
theorem Runs.acts {n l : ℕ} (hr : Runs some prio t p m m' p') (ho : Orders id n l t p m)
    (hroom : ∀ a retcode, p = .waitEnd a id retcode → (m.queue id).sendType ≠ .killd → retcode ≠ .etimedout →
      (m.queue id).msgCount ≤ (m.queue id).msgsPerQueue) :
    Acts (Box.act prio) (deedAt id t p p' m') (m.box id) (m'.box id) := by
  by_cases hp : subject p = some id
  · obtain ⟨msgs, hholds⟩ := ho.holds
    cases hr with
    | called _ _ hrest => cases hp.symm.trans (subject_resting hrest)
    | created _ _ _ _ hrest => cases hp.symm.trans (subject_resting hrest)
    | linked j =>
      obtain rfl : j = id := Option.some.inj hp
      simp [deedAt, Acts, Box.act, Mem.box, V2ptMqueue.box, ho.unlinked rfl]
    | found => rfl
    | @notFound _ j op hnot =>
      obtain rfl : j = id := Option.some.inj hp
      simp [deedAt, Acts, Box.act, Mem.box, V2ptMqueue.box, hnot]
    | @sendTooLong _ a j hlen =>
      obtain rfl : j = id := Option.some.inj hp
      simpa [deedAt, Acts, Box.act, Mem.box, V2ptMqueue.box] using hlen
    | @sendFull _ a j hlen hfull hwait =>
      obtain rfl : j = id := Option.some.inj hp
      have hadmits := hholds.admission (decide (j ∈ m.mqueueList)) a.pri []
      rw [hfull] at hadmits
      simp only [deedAt, if_true]
      exact if_pos ⟨hlen, hadmits, hwait⟩
    | @sentTail _ a j hlen hadm =>
      obtain rfl : j = id := Option.some.inj hp
      have hfits := hholds.fits (admission_room (by rw [hadm]; exact fun h => by cases h))
      rw [hholds.msgLen] at hlen
      obtain ⟨msg, hcarries, hnew⟩ := hholds.sendMsgTo hfits hlen ho.small
      have hadmits := hholds.admission (decide (j ∈ m.mqueueList)) a.pri msg
      rw [hadm] at hadmits
      rw [Mem.setQueue_box]
      simp only [deedAt, if_true, Mem.setQueue_self]
      exact hholds.act_post (hadmits.2 ▸ hnew) hcarries hlen hadmits.1 rfl (fun h => by cases h) rfl rfl
    | @sentFront _ a j hlen hadm =>
      obtain rfl : j = id := Option.some.inj hp
      have hfits := hholds.fits (admission_room (by rw [hadm]; exact fun h => by cases h))
      rw [hholds.msgLen] at hlen
      obtain ⟨msg, hcarries, hnew⟩ := hholds.urgentMsgTo hfits hlen ho.small
      have hadmits := hholds.admission (decide (j ∈ m.mqueueList)) a.pri msg
      rw [hadm] at hadmits
      rw [Mem.setQueue_box]
      simp only [deedAt, if_true, Mem.setQueue_self]
      exact hholds.act_post (hadmits.2 ▸ hnew) hcarries hlen hadmits.1 rfl (fun h => by cases h) rfl rfl
    | @sendPended _ a j hlen hfull hwait =>
      obtain rfl : j = id := Option.some.inj hp
      have hout : t ∉ (m.queue j).firstWriteSusp := fun h => by cases ho.senders.mp h
      have hadmits := hholds.admission (decide (j ∈ m.mqueueList)) a.pri []
      rw [hfull] at hadmits
      rw [Mem.setQueue_box, linkSuspTask_of_notMem hout]
      simp only [deedAt, if_true]
      exact if_pos ⟨hlen, hadmits, hwait, hout⟩
    | spaceOver hpoint => cases hpoint <;> rfl
    | spaceTimedOut hpoint => cases hpoint <;> rfl
    | spaceSleeps hpoint => cases hpoint <;> rfl
    | spacePolls hpoint => cases hpoint <;> rfl
    | @sendDeleted _ q a j retcode hkill hq =>
      obtain rfl : j = id := Option.some.inj hp
      have hdeed : deedAt j t (.waitEnd a j retcode) (deletedPoint (.send a) j q.drained) (m.setQueue j q) =
          some (.leaveSenders t a .objDeleted) := by
        cases q.drained <;> simp [deletedPoint, deedAt]
      have hkilled : (m.box j).killed = true := decide_eq_true hkill
      rw [hdeed, Mem.setQueue_box, hq]
      exact if_pos ⟨ho.senders.mpr rfl, .inl hkilled, (if_pos hkilled).symm⟩
    | @sendTimedOut _ a j hkill =>
      obtain rfl : j = id := Option.some.inj hp
      have hkilled : ¬ (m.box j).killed = true := by simpa [Mem.box, V2ptMqueue.box] using hkill
      rw [Mem.setQueue_box]
      simp only [deedAt, if_true]
      exact if_pos ⟨ho.senders.mpr rfl, .inr (ho.patience a.wait rfl), (if_neg hkilled).symm⟩
    | @sentLate _ q a j retcode hkill hret hq =>
      obtain rfl : j = id := Option.some.inj hp
      have hfits := hholds.fits (hroom a retcode rfl hkill hret)
      have hlen := ho.message a rfl
      have hholds' : Holds q n l msgs := hq ▸ hholds.relist ..
      obtain ⟨msg, hcarries, hnew⟩ := hholds'.post hfits hlen ho.small a.pri
      rw [← hholds.put (decide (j ∈ m.mqueueList))] at hnew
      rw [Mem.setQueue_box]
      simp only [deedAt, if_true, Mem.setQueue_self]
      refine hholds.act_postLate hnew hcarries hlen hfits (ho.senders.mpr rfl) hkill ?_ ?_ ?_ ?_
      · rw [hq]
        unfold V2ptMqueue.post
        split <;> rfl
      · exact (post_list q a.msg a.pri).trans (by rw [hq]; rfl)
      · exact (post_list q a.msg a.pri).trans (by rw [hq]; rfl)
      · unfold V2ptMqueue.post
        split <;> exact fun h => by cases h
    | @receiveTooShort _ a j hlen =>
      obtain rfl : j = id := Option.some.inj hp
      simpa [deedAt, Acts, Box.act, Mem.box, V2ptMqueue.box] using hlen
    | @pended _ a j hlen =>
      obtain rfl : j = id := Option.some.inj hp
      have hout : t ∉ (m.queue j).firstSusp := fun h => by cases ho.receivers.mp h
      rw [Mem.setQueue_box, linkSuspTask_of_notMem hout]
      split <;> (simp only [deedAt, if_true]; exact if_pos ⟨Nat.le_of_not_lt hlen, hout⟩)
    | @receiveDeleted _ _ q a j retcode hpoint hkill hq =>
      obtain rfl : j = id := Option.some.inj (hpoint.subject.symm.trans hp)
      have hkilled : (m.box j).killed = true := decide_eq_true hkill
      have hin : t ∈ (m.queue j).firstSusp := ho.receivers.mpr (by rw [hpoint.pended]; rfl)
      rw [deedAt_deleted hpoint, Mem.setQueue_box, hq]
      exact if_pos ⟨hin, .inl hkilled, (if_pos hkilled).symm⟩
    | @receiveTimedOut _ _ a j hpoint hkill =>
      obtain rfl : j = id := Option.some.inj (hpoint.subject.symm.trans hp)
      have hkilled : ¬ (m.box j).killed = true := by simpa [Mem.box, V2ptMqueue.box] using hkill
      have hin : t ∈ (m.queue j).firstSusp := ho.receivers.mpr (by rw [hpoint.pended]; rfl)
      have hpatience := ho.patience a.maxWait hpoint.reported
      rw [Mem.setQueue_box]
      cases hpoint <;>
        (simp only [deedAt, if_true]; exact if_pos ⟨hin, .inr hpatience, (if_neg hkilled).symm⟩)
    | @fetched _ _ q a j retcode hpoint hkill hcount hsig hq =>
      obtain rfl : j = id := Option.some.inj (hpoint.subject.symm.trans hp)
      have hkilled : (m.box j).killed = false := decide_eq_false hkill
      cases msgs with
      | nil =>
        rw [hholds.count] at hcount
        exact absurd hcount (Int.lt_irrefl 0)
      | cons msg msgs =>
        have hlen : msg.length ≤ a.buflen :=
          (hholds.short msg (List.mem_cons_self ..)).trans (ho.buffer a hpoint.receiveArgs)
        have hholds' : Holds q n l (msg :: msgs) := hq ▸ hholds.relist ..
        obtain ⟨hmsg, hnew⟩ := hholds'.fetchMsgFrom a.hasBuf
        rw [deedAt_received hpoint, Mem.setQueue_box]
        refine (Box.act_fetch hholds.messages hkilled (next_of_signal hsig) hlen hmsg).trans (congrArg some ?_)
        rw [hholds.box_next hnew (by rw [hq]; rfl), hq]
        rfl
    | receiveSleeps hpoint => cases hpoint <;> rfl
    | receivePolls hpoint => cases hpoint <;> rfl
    | counted j =>
      obtain rfl : j = id := Option.some.inj hp
      simp only [deedAt, if_true]
      exact if_pos (hholds.count.trans (by rw [Mem.box, hholds.box]))
    | deleteMarked j =>
      obtain rfl : j = id := Option.some.inj hp
      rw [Mem.setQueue_box]
      simp only [deedAt, if_true]
      rfl
    | unlinked j =>
      obtain rfl : j = id := Option.some.inj hp
      have hgone : j ∉ m.mqueueList.erase j := ho.nodup.not_mem_erase
      simp [deedAt, Acts, Box.act, Mem.box, V2ptMqueue.box, hgone]
    | _ => rfl
  · rw [deedAt_elsewhere hp]
    obtain ⟨hq, hlists⟩ := hr.queue_other ho.made hp
    refine Mem.box_congr hq ⟨fun h => ?_, hlists⟩
    exact (hr.listed_cases h).resolve_right fun ht => hp (subject_of_touches ht)

/-! ### The calls of a block -/

theorem next_progress (h : (code some prio t p).Next p') : progress p' = progress p := by
  cases p
  case findUnlock op j found =>
    cases h
    cases found
    · rfl
    · cases op <;> rfl
  all_goals first
    | exact False.elim h
    | (cases h; rfl)
    | (obtain ⟨r, rfl⟩ := h; rfl)

/-- A block makes, settles or leaves a call, or leaves it where it is. -/
theorem Runs.progress_goes (hr : Runs some prio t p m m' p') : (progress p).Goes (progress p') := by
  cases hr with
  | called op j hp => exact .called _ (progress_resting hp)
  | created j _ _ _ hp =>
    cases p with
    | idle => exact .stays _
    | returned op k reply => exact .left _ _
    | _ => cases hp
  | notFound => exact .settles _ _
  | sendTooLong => exact .settles _ _
  | sendFull => exact .settles _ _
  | sentTail => exact .settles _ _
  | sentFront => exact .settles _ _
  | spaceOver hp => rw [hp.progress]; exact .stays _
  | spaceTimedOut hp => rw [hp.progress]; exact .stays _
  | spaceSleeps hp => rw [hp.progress]; exact .stays _
  | spacePolls hp => rw [hp.progress]; exact .stays _
  | sendDeleted => rw [progress_deletedPoint]; exact .settles _ _
  | sendTimedOut => exact .settles _ _
  | sentLate => exact .settles _ _
  | receiveTooShort => exact .settles _ _
  | pended => split <;> exact .stays _
  | receiveDeleted hp => rw [hp.progress, progress_deletedPoint]; exact .settles _ _
  | receiveTimedOut hp => rw [hp.progress]; exact .settles _ _
  | fetched hp => rw [hp.progress, progress_receivedPoint]; exact .settles _ _
  | receiveSleeps hp => rw [hp.progress]; exact .stays _
  | receivePolls hp => rw [hp.progress]; exact .stays _
  | counted => exact .settles _ _
  | unlinked => exact .settles _ _
  | _ => exact .stays _

/-- A block that settles a call is a deed that does. -/
theorem Runs.settles (hr : Runs some prio t p m m' p') {op : Op} {reply : Reply}
    (hp : progress p = .pending (op, id)) (hp' : progress p' = .settled (op, id) reply) :
    ∃ e, deedAt id t p p' m' = some e ∧ e.settles = some (t, op, reply) := by
  cases hr with
  | called => cases hp'
  | created => cases hp'
  | notFound =>
    cases hp
    cases hp'
    exact ⟨_, if_pos rfl, rfl⟩
  | sendTooLong =>
    cases hp
    cases hp'
    exact ⟨_, if_pos rfl, rfl⟩
  | sendFull =>
    cases hp
    cases hp'
    exact ⟨_, if_pos rfl, rfl⟩
  | sentTail =>
    cases hp
    cases hp'
    exact ⟨_, if_pos rfl, rfl⟩
  | sentFront =>
    cases hp
    cases hp'
    exact ⟨_, if_pos rfl, rfl⟩
  | spaceOver => cases hp'
  | spaceTimedOut => cases hp'
  | spaceSleeps => cases hp'
  | spacePolls => cases hp'
  | @sendDeleted _ q a =>
    cases hp
    rw [progress_deletedPoint] at hp'
    cases hp'
    exact ⟨.leaveSenders t a .objDeleted, by cases q.drained <;> simp [deletedPoint, deedAt], rfl⟩
  | sendTimedOut =>
    cases hp
    cases hp'
    exact ⟨_, if_pos rfl, rfl⟩
  | sentLate =>
    cases hp
    cases hp'
    exact ⟨_, if_pos rfl, rfl⟩
  | receiveTooShort =>
    cases hp
    cases hp'
    exact ⟨_, if_pos rfl, rfl⟩
  | pended => split at hp' <;> cases hp'
  | @receiveDeleted _ _ q a _ _ hpoint =>
    rw [hpoint.progress] at hp
    cases hp
    rw [progress_deletedPoint] at hp'
    cases hp'
    exact ⟨.leaveReceivers t a .objDeleted, deedAt_deleted hpoint _, rfl⟩
  | @receiveTimedOut _ _ a _ hpoint =>
    rw [hpoint.progress] at hp
    cases hp
    cases hp'
    exact ⟨.leaveReceivers t a _, by cases hpoint <;> simp [deedAt], rfl⟩
  | @fetched _ _ _ a _ _ hpoint =>
    rw [hpoint.progress] at hp
    cases hp
    rw [progress_receivedPoint] at hp'
    cases hp'
    exact ⟨.fetch t a _, deedAt_received hpoint _ _, rfl⟩
  | receiveSleeps => cases hp'
  | receivePolls => cases hp'
  | counted =>
    cases hp
    cases hp'
    exact ⟨_, if_pos rfl, rfl⟩
  | unlinked =>
    cases hp
    cases hp'
    exact ⟨_, if_pos rfl, rfl⟩
  | _ => first | cases hp; done | (cases hp; cases hp')

omit [DecidableEq θ] in
theorem of_deed {j : ι} {d e : Deed θ} (h : (if j = id then some d else none) = some e) : j = id ∧ d = e := by
  split at h
  · exact ⟨by assumption, Option.some.inj h⟩
  · cases h

/-- A deed settles the call that its thread is in. -/
theorem Runs.settled_of_deed (hr : Runs some prio t p m m' p') {e : Deed θ} {u : θ} {op : Op} {reply : Reply}
    (he : deedAt id t p p' m' = some e) (hset : e.settles = some (u, op, reply)) :
    progress p = .pending (op, id) ∧ progress p' = .settled (op, id) reply := by
  have hsubject : subject p = some id := by
    by_contra hp
    rw [deedAt_elsewhere hp] at he
    cases he
  cases hr with
  | called _ _ hp => cases hsubject.symm.trans (subject_resting hp)
  | created _ _ _ _ hp => cases hsubject.symm.trans (subject_resting hp)
  | spaceOver hpoint => cases hpoint <;> cases he
  | spaceTimedOut hpoint => cases hpoint <;> cases he
  | spaceSleeps hpoint => cases hpoint <;> cases he
  | spacePolls hpoint => cases hpoint <;> cases he
  | receiveSleeps hpoint => cases hpoint <;> cases he
  | receivePolls hpoint => cases hpoint <;> cases he
  | @sendDeleted _ q a j =>
    obtain rfl : j = id := Option.some.inj hsubject
    cases hd : q.drained <;> rw [hd] at he <;>
      (obtain ⟨_, rfl⟩ := of_deed he; cases hset; exact ⟨rfl, rfl⟩)
  | @pended _ a j =>
    split at he <;> (obtain ⟨_, rfl⟩ := of_deed he; cases hset)
  | @receiveDeleted _ _ q a j _ hpoint =>
    obtain rfl : j = id := Option.some.inj (hpoint.subject.symm.trans hsubject)
    rw [deedAt_deleted hpoint] at he
    cases he
    cases hset
    exact ⟨hpoint.progress, progress_deletedPoint ..⟩
  | @receiveTimedOut _ _ a j hpoint =>
    obtain rfl : j = id := Option.some.inj (hpoint.subject.symm.trans hsubject)
    refine ⟨?_, ?_⟩ <;> cases hpoint <;> (obtain ⟨_, rfl⟩ := of_deed he; cases hset; rfl)
  | @fetched _ _ _ a j _ hpoint =>
    obtain rfl : j = id := Option.some.inj (hpoint.subject.symm.trans hsubject)
    rw [deedAt_received hpoint] at he
    cases he
    cases hset
    exact ⟨hpoint.progress, progress_receivedPoint ..⟩
  | _ =>
    first
      | cases he
      | (obtain ⟨rfl, rfl⟩ := of_deed he; cases hset; done)
      | (obtain ⟨rfl, rfl⟩ := of_deed he; cases hset; exact ⟨rfl, rfl⟩)

/-- A call begins where its thread comes in from outside. -/
theorem Runs.calls (hr : Runs some prio t p m m' p') {call : Op × ι} (hp : ∀ call, progress p ≠ .pending call)
    (hp' : progress p' = .pending call) : p' = .findLock call.1 call.2 := by
  cases hr with
  | called =>
    cases hp'
    rfl
  | spaceOver hpoint => exact absurd hpoint.progress (hp _)
  | spaceTimedOut hpoint => exact absurd hpoint.progress (hp _)
  | spaceSleeps hpoint => exact absurd hpoint.progress (hp _)
  | spacePolls hpoint => exact absurd hpoint.progress (hp _)
  | receiveDeleted hpoint => exact absurd hpoint.progress (hp _)
  | fetched hpoint => exact absurd hpoint.progress (hp _)
  | receiveSleeps hpoint => exact absurd hpoint.progress (hp _)
  | receivePolls hpoint => exact absurd hpoint.progress (hp _)
  | _ => first | cases hp'; done | exact absurd rfl (hp _)

/-! ### Steps -/

theorem deedAt_sync (h : ∀ block, code some prio t p ≠ .run block) : deedAt id t p p' m' = none := by
  cases p <;> first | rfl | exact absurd rfl (h _)

theorem deed_sync (h : ∀ block, code some prio t (s.ctl t).point ≠ .run block) : deed id ⟨s, t, s'⟩ = none :=
  stepEvent_sync (fun _ _ _ _ => deedAt_sync) h

theorem progress_step (hs : Step (code some prio) t s s') :
    (progress (s.ctl t).point).Goes (progress (s'.ctl t).point) := by
  obtain ⟨_, _, heq | hnext⟩ | ⟨p, p', hp, hp', hr, _⟩ := step_cases hs
  · rw [heq]
    exact .stays _
  · rw [next_progress hnext]
    exact .stays _
  · rw [hp, hp', Ctl.point_awake, Ctl.point_awake]
    exact hr.progress_goes

/-- The step that settles a call is a deed that does. -/
theorem settling_deed (hs : Step (code some prio) t s s') {op : Op} {reply : Reply}
    (hp : progress (s.ctl t).point = .pending (op, id))
    (hp' : progress (s'.ctl t).point = .settled (op, id) reply) :
    ∃ e, deed id ⟨s, t, s'⟩ = some e ∧ e.settles = some (t, op, reply) := by
  obtain ⟨_, _, heq | hnext⟩ | ⟨p, p', hpc, hpc', hr, _⟩ := step_cases hs
  · rw [heq, hp] at hp'
    cases hp'
  · rw [next_progress hnext, hp] at hp'
    cases hp'
  · rw [hpc, Ctl.point_awake] at hp
    rw [hpc', Ctl.point_awake] at hp'
    obtain ⟨e, he, hset⟩ := hr.settles hp hp'
    exact ⟨e, (stepEvent_awake hpc hpc').trans he, hset⟩

/-- A deed that settles a call is the step in which its thread's call is settled. -/
theorem deed_settling (hs : Step (code some prio) t s s') {e : Deed θ} {u : θ} {op : Op} {reply : Reply}
    (he : deed id ⟨s, t, s'⟩ = some e) (hset : e.settles = some (u, op, reply)) :
    progress (s.ctl t).point = .pending (op, id) ∧ progress (s'.ctl t).point = .settled (op, id) reply := by
  obtain ⟨_, hrun, _⟩ | ⟨p, p', hp, hp', hr, _⟩ := step_cases hs
  · rw [deed_sync hrun] at he
    cases he
  · simp only [deed, stepEvent, hp, hp'] at he
    rw [hp, hp', Ctl.point_awake, Ctl.point_awake]
    exact hr.settled_of_deed he hset

theorem enter_step (hs : Step (code some prio) t s s') {op : Op}
    (hp : ∀ call, progress (s.ctl t).point ≠ .pending call)
    (hp' : progress (s'.ctl t).point = .pending (op, id)) : s'.ctl t = .awake (.findLock op id) := by
  obtain ⟨_, _, heq | hnext⟩ | ⟨p, p', hpc, hpc', hr, _⟩ := step_cases hs
  · rw [heq] at hp'
    exact absurd hp' (hp _)
  · rw [next_progress hnext] at hp'
    exact absurd hp' (hp _)
  · rw [hpc, Ctl.point_awake] at hp
    rw [hpc', Ctl.point_awake] at hp'
    rw [hpc', hr.calls hp hp']

/-! ### Runs -/

theorem patient (h : Run (code some prio) Initial tr s) (t : θ) (wait : ℤ)
    (hw : reported (s.ctl t).point = some (wait, .etimedout)) : wait ≠ waitForever := by
  refine h.invariant (fun _ => True)
    (fun s => ∀ t wait, reported (s.ctl t).point = some (wait, .etimedout) → wait ≠ waitForever) ?_
    (fun _ _ _ hold hs _ => patience_step hold hs) (fun _ _ => trivial) t wait hw
  intro s hi t wait hw
  rw [hi.idle t] at hw
  cases hw

/-- No receiver comes to stand in line with too short a buffer. -/
theorem buffer_step {l : ℕ} (h : ∀ u a, receiveArgs (s.ctl u).point = some (a, id) → l ≤ a.buflen)
    (hlen : (s.mem.queue id).msgLen = l) (hs : Step (code some prio) t s s') (u : θ) (a : ReceiveArgs)
    (ha : receiveArgs (s'.ctl u).point = some (a, id)) : l ≤ a.buflen := by
  by_cases hu : u = t
  · subst hu
    obtain ⟨_, _, heq | hnext⟩ | ⟨p, p', hp, hp', hr, _⟩ := step_cases hs
    · exact h u a (heq ▸ ha)
    · exact h u a ((next_receiveArgs hnext).symm.trans ha)
    · rw [hp', Ctl.point_awake] at ha
      obtain ha | hfits := hr.receiveArgs_cases ha
      · exact h u a (by rwa [hp])
      · rwa [hlen] at hfits
  · exact h u a (by rwa [← hs.ctl_other hu])

theorem buffers (h : Run (code some prio) Initial tr s) (hno : ∀ y ∈ tr, overfills id y = false) {n l order : ℕ}
    (hmade : ∃ y ∈ tr, Creates id n l order y) (t : θ) (a : ReceiveArgs)
    (ha : receiveArgs (s.ctl t).point = some (a, id)) : l ≤ a.buflen := by
  induction h generalizing t a with
  | start _ =>
    obtain ⟨y, hy, _⟩ := hmade
    cases hy
  | @step tr s u s' hr hs ih =>
    have hno' : ∀ y ∈ tr, overfills id y = false := fun y hy => hno y (List.mem_cons_of_mem _ hy)
    obtain ⟨y, hy, hcreates⟩ := hmade
    obtain rfl | hy := List.mem_cons.mp hy
    · have hlinked := linked hr
      obtain ⟨_, _, _, hp'⟩ := created_step hlinked hs hcreates
      by_cases ht : t = u
      · rw [ht, hp'] at ha
        cases ha
      · rw [hs.ctl_other ht] at ha
        exact absurd hcreates.1 (hlinked.touched t id (receiveArgs_touches ha))
    · obtain ⟨msgs, _, _, hholds, _⟩ := (books hr hno' ⟨y, hy, hcreates⟩).ledger
      exact buffer_step (ih hno' ⟨y, hy, hcreates⟩) hholds.msgLen hs t a ha

theorem orders (h : Run (code some prio) Initial tr s) (hno : ∀ y ∈ tr, overfills id y = false) {n l order : ℕ}
    (hmade : ∃ y ∈ tr, Creates id n l order y) (hp : s.ctl t = .awake p) : Orders id n l t p s.mem := by
  have hpoint : (s.ctl t).point = p := by rw [hp, Ctl.point_awake]
  have hbooks := books h hno hmade
  have hsound := registry_sound h
  have hlines : ∀ side, t ∈ (s.mem.queue id).list side ↔ pendsOn side p = some id := by
    intro side
    rw [((linked h).lists side id).mem t, waits, hpoint, decide_eq_true_iff]
  obtain ⟨msgs, _, _, hholds, _⟩ := hbooks.ledger
  exact {
    made := hbooks.made
    small := hbooks.small
    holds := ⟨msgs, hholds⟩
    senders := hlines .senders
    receivers := hlines .receivers
    message := fun a ha => hbooks.args t a (hpoint ▸ ha)
    buffer := fun a ha => buffers h hno hmade t a (hpoint ▸ ha)
    patience := fun wait hw => patient h t wait (hpoint ▸ hw)
    unlinked := fun hpub => hsound.unlisted (t := t) ((congrArg publishing hpoint).trans hpub)
    nodup := hsound.nodup }

/-- Every step is what it is at the box. -/
theorem deed_step (h : Run (code some prio) Initial tr s) (hs : Step (code some prio) t s s') {n l order : ℕ}
    (hno : ∀ y ∈ ⟨s, t, s'⟩ :: tr, overfills id y = false) (hmade : ∃ y ∈ tr, Creates id n l order y) :
    Acts (Box.act prio) (deed id ⟨s, t, s'⟩) (s.mem.box id) (s'.mem.box id) := by
  obtain ⟨hm, hrun, _⟩ | ⟨p, p', hp, hp', hr, _⟩ := step_cases hs
  · rw [deed_sync hrun, hm]
    rfl
  · have hdeed : deed id ⟨s, t, s'⟩ = deedAt id t p p' s'.mem := stepEvent_awake hp hp'
    rw [hdeed]
    refine hr.acts (orders h (fun y hy => hno y (List.mem_cons_of_mem _ hy)) hmade hp) ?_
    rintro a retcode rfl hkill hret
    have hroom := hno _ (List.mem_cons_self ..)
    simpa [overfills, hp, hkill, hret] using hroom

/-- A queue that is made is a box not opened yet. -/
theorem Creates.box (h : Run (code some prio) Initial (x :: before) x.post) {n l order : ℕ}
    (hx : Creates id n l order x) : x.post.mem.box id = .made n l order := by
  have hbefore := (show Run (code some prio) Initial ([] ++ x :: before) x.post from h).before
  obtain ⟨opt, hl, hq, hp'⟩ := created_step (linked hbefore) (h.steps x (List.mem_cons_self ..)) hx
  have hunlisted : id ∉ x.post.mem.mqueueList := by
    refine (registry_sound h).unlisted (t := x.thread) ?_
    show publishing (x.post.ctl x.thread).point = some id
    rw [hp']
    rfl
  have horder : (msgQCreate θ n l opt).order = order := by
    rw [← hq]
    exact hx.2.2.2.2
  rw [Mem.box, hq, (msgQCreate_holds θ opt hl).box, horder, decide_eq_false hunlisted]
  rfl

/-- The deeds since its creation lead the box of a queue to what its control block and its
extent show. -/
theorem served (h : Run (code some prio) Initial (later ++ x :: before) s) {n l order : ℕ}
    (hx : Creates id n l order x) (hno : ∀ y ∈ later ++ x :: before, overfills id y = false) :
    replay (Box.act prio) (.made n l order) (later.filterMap (deed id)) = some (s.mem.box id) := by
  have hx' : Run (code some prio) Initial (x :: before) x.post := .step h.before (h.steps x (by simp))
  rw [← hx.box hx']
  refine h.replays (fun s => s.mem.box id) (deed id) fun y r hrun hsuff hs => ?_
  refine deed_step hrun hs (fun z hz => hno z ?_) ⟨x, by simp, hx⟩
  rw [← List.cons_append] at hz
  exact (List.mem_append.mp hz).elim (fun hz => List.mem_append_left _ (hsuff.subset hz)) (List.mem_append_right _)

/-- The last call of thread `t`, of `op` on queue `id`, has been settled with `reply` by one
deed since it was made, and by one only. -/
def SettledOnce (t : θ) (op : Op) (id : ι) (reply : Reply) (tr : List (QueueTransition θ ι)) : Prop :=
  ∃ after y between x before e, tr = after ++ y :: (between ++ x :: before) ∧
    x.thread = t ∧ x.post.ctl t = .awake (.findLock op id) ∧
    y.thread = t ∧ deed id y = some e ∧ e.settles = some (t, op, reply) ∧
    ∀ z ∈ after ++ between, z.thread = t → ∀ e, deed id z = some e → e.settles = none

omit [DecidableEq θ] [DecidableEq ι] in
theorem initial_progress (s : QueueState θ ι) (t : θ) (h : Initial s) : progress (s.ctl t).point = .outside := by
  rw [h.idle t]
  rfl

theorem settled_once (h : Run (code some prio) Initial tr s) {op : Op} {reply : Reply}
    (ht : progress (s.ctl t).point = .settled (op, id) reply) : SettledOnce t op id reply tr := by
  obtain ⟨after, y, between, x, before, e, rfl, rfl, hout, hcall, hy⟩ :=
    h.settled_once (fun s t hi => initial_progress s t hi) (fun _ _ _ => progress_step)
      (fun _ _ _ hs hpre hpost => settling_deed hs hpre hpost) (fun _ _ _ _ _ hs he => deed_settling hs he) ht
  exact ⟨after, y, between, x, before, e, rfl, rfl, enter_step (h.steps x (by simp)) hout hcall, hy⟩

end

/-- Task 1 waits for space in a full queue and posts its message when task 0 has received
the first one; task 0 receives the second one too. -/
def passOn : List (Fin 2 × Input (Choice ℕ)) :=
  makes 0 7 1 1 0 :: goesOn 0 3 ++ calls 0 (.send ⟨.bytes [5], noWait, 0⟩) 7 :: goesOn 0 7 ++
    calls 1 (.send ⟨.bytes [6], waitForever, 0⟩) 7 :: goesOn 1 6 ++
    calls 0 (.receive ⟨true, 1, waitForever⟩) 7 :: goesOn 0 10 ++ goesOn 1 5 ++
    calls 0 (.receive ⟨true, 1, waitForever⟩) 7 :: goesOn 0 7

end V2lin.Queue
