import V2lin.Queue.Extent
import V2lin.Queue.Pended

/-! A queue as a double-ended queue of byte strings.

When calls are made one at a time and none of them waits, a queue made for `n` messages
of up to `l` bytes behaves as the double-ended queue below, which knows nothing of the
extent. -/
namespace V2lin.Queue
open Threads V2lin.Task

/-! ### The double-ended queue -/

/-- What a call returns that does not wait, and the messages it leaves. An urgent message
is pushed at the front, and may be one too many. -/
def Deque.call (n l : ℕ) (d : List (List UInt8)) : Op → Reply × List (List UInt8)
  | .send ⟨.bytes m, _, pri⟩ =>
    if m.length > l then (.failed .invalidMsgLength, d)
    else if pri = msgPriUrgent then
      if d.length ≤ n then (.ok, m :: d) else (.failed .objUnavailable, d)
    else if d.length < n then (.ok, d ++ [m]) else (.failed .objUnavailable, d)
  | .receive a =>
    if a.buflen < l then (.failed .invalidMsgLength, d)
    else match d with
      | [] => (.failed .objUnavailable, d)
      | m :: rest => (.received m, rest)
  | _ => (.ok, d)

/-- The messages after some calls, the newest first. -/
def Deque.after (n l : ℕ) : List (Op × Reply) → List (List UInt8)
  | [] => []
  | (op, _) :: calls => (Deque.call n l (Deque.after n l calls) op).2

/-- The calls, the newest first, have returned what they return of a double-ended queue. -/
def Deque.Explains (n l : ℕ) : List (Op × Reply) → Prop
  | [] => True
  | (op, reply) :: calls =>
    reply = (Deque.call n l (Deque.after n l calls) op).1 ∧ Deque.Explains n l calls

/-- A call without a wait, with a buffer. -/
def Op.immediate : Op → Prop
  | .send a => a.wait = noWait ∧ ∃ m, a.msg = .bytes m
  | .receive a => a.maxWait = noWait ∧ a.hasBuf = true
  | _ => False

instance : DecidablePred Op.immediate
  | .send ⟨.bytes m, wait, _⟩ =>
    decidable_of_iff (wait = noWait) ⟨fun h => ⟨h, m, rfl⟩, And.left⟩
  | .send ⟨.null _, _, _⟩ => isFalse fun ⟨_, _, h⟩ => Msg.noConfusion h
  | .receive a => inferInstanceAs (Decidable (a.maxWait = noWait ∧ a.hasBuf = true))
  | .numMsgs => isFalse id
  | .delete => isFalse id

section
variable {θ ι : Type} [DecidableEq θ] [DecidableEq ι]
variable {prio : θ → ℤ} {t : θ} {p p' : Pc ι} {id : ι} {s s' : QueueState θ ι} {m m' : Mem θ ι}
variable {n l : ℕ} {d : List (List UInt8)} {q : V2ptMqueue θ}

/-! ### The stages of a call -/

/-- The queue that a call or a creation is about. -/
def subject : Pc ι → Option ι
  | .findLock _ id | .findScan _ id | .findUnlock _ id _ => some id
  | p => touches p

/-- The queue holds the messages `d`, with these tasks pended for one. -/
structure Serves (n l : ℕ) (d : List (List UInt8)) (receivers : List θ) (q : V2ptMqueue θ) : Prop where
  holds : Holds q n l d
  alive : q.sendType ≠ .killd
  receivers : q.firstSusp = receivers
  senders : q.firstWriteSusp = []

/-- The call on `d` answers `reply`, and the queue holds what it leaves of `d`. -/
def Answers (n l : ℕ) (d : List (List UInt8)) (op : Op) (reply : Reply) (q : V2ptMqueue θ) : Prop :=
  reply = (Deque.call n l d op).1 ∧ Serves n l (Deque.call n l d op).2 [] q

/-- What the queue holds while thread `t` alone is in a call on it: `d`, or what the call
leaves of `d`. `listed`: the queue is on the list. -/
def Within (n l : ℕ) (d : List (List UInt8)) (listed : Prop) (q : V2ptMqueue θ) (t : θ) : Pc ι → Prop
  | .linkLock _ | .linkAppend _ => Serves n l d [] q
  | .linkUnlock _ => listed ∧ Serves n l d [] q
  | .findLock op _ | .findScan op _ | .findQueue op _ | .findUnlock op _ true =>
    listed ∧ op.immediate ∧ Serves n l d [] q
  | .sendStart a _ => listed ∧ (Op.send a).immediate ∧ Serves n l d [] q
  | .receiveStart a _ => listed ∧ (Op.receive a).immediate ∧ Serves n l d [] q
  | .receiveTest a _ _ | .receiveSleep a _ =>
    listed ∧ (Op.receive a).immediate ∧ l ≤ a.buflen ∧ Serves n l d [t] q
  | .sendNotify a _ => listed ∧ Answers n l d (.send a) .ok q
  | .leave op _ reply => listed ∧ Answers n l d op reply q
  | _ => False

/-- The same for any place of thread `t`. -/
def Stage (id : ι) (n l : ℕ) (d : List (List UInt8)) (m : Mem θ ι) (t : θ) (p : Pc ι) : Prop :=
  if subject p = some id then Within n l d (id ∈ m.mqueueList) (m.queue id) t p
  else id ∈ m.mqueueList ∧ Serves n l d [] (m.queue id)

/-- The call on the queue that has ended at a point, with its reply. -/
def answer (id : ι) : Pc ι → Option (Op × Reply)
  | .returned op j reply => if j = id then some (op, reply) else none
  | _ => none

/-- The call on the queue that returns in a step, with its reply. -/
def replied (id : ι) (x : QueueTransition θ ι) : Option (Op × Reply) := answer id (x.post.ctl x.thread).point

/-- The call on the queue that begins in a step. -/
def called (id : ι) (x : QueueTransition θ ι) : Option Op :=
  match (x.post.ctl x.thread).point with
  | .findLock op j => if j = id then some op else none
  | _ => none

/-- The step calls nothing on the queue but sends and receives without a wait. -/
def CallsImmediate (id : ι) (x : QueueTransition θ ι) : Prop := ∀ op ∈ called id x, op.immediate

instance (id : ι) (x : QueueTransition θ ι) : Decidable (CallsImmediate id x) :=
  inferInstanceAs (Decidable (∀ op ∈ called id x, op.immediate))

/-- After the step, nobody else is in a call on the queue if its thread is. -/
def Alone (id : ι) (x : QueueTransition θ ι) : Prop :=
  subject (x.post.ctl x.thread).point = some id → ∀ u ≠ x.thread, subject (x.post.ctl u).point ≠ some id

instance [Fintype θ] (id : ι) (x : QueueTransition θ ι) : Decidable (Alone id x) :=
  inferInstanceAs (Decidable (_ = _ → ∀ u, u ≠ x.thread → _ ≠ _))

/-- The stage of a call after a step, in which it may have ended. -/
def Advanced (id : ι) (n l : ℕ) (d : List (List UInt8)) (m : Mem θ ι) (t : θ) (p : Pc ι) : Prop :=
  match answer id p with
  | none => Stage id n l d m t p
  | some (op, reply) => reply = (Deque.call n l d op).1 ∧ Stage id n l (Deque.call n l d op).2 m t p

omit [DecidableEq θ] [DecidableEq ι] in
theorem Answers.of_call {op : Op} {reply : Reply} {d' : List (List UInt8)} (h : Deque.call n l d op = (reply, d'))
    (hs : Serves n l d' [] q) : Answers n l d op reply q := by
  rw [Answers, h]
  exact ⟨rfl, hs⟩

omit [DecidableEq θ] in
theorem Stage.within (h : Stage id n l d m t p) (hp : subject p = some id) :
    Within n l d (id ∈ m.mqueueList) (m.queue id) t p := by
  rwa [Stage, if_pos hp] at h

omit [DecidableEq θ] in
theorem Stage.elsewhere (h : Stage id n l d m t p) (hp : subject p ≠ some id) :
    id ∈ m.mqueueList ∧ Serves n l d [] (m.queue id) := by
  rwa [Stage, if_neg hp] at h

omit [DecidableEq θ] in
theorem Within.advanced (h : Within n l d (id ∈ m.mqueueList) (m.queue id) t p) (hp : subject p = some id) :
    Advanced id n l d m t p := by
  have hanswer : answer id p = none := by cases p <;> first | rfl | cases hp
  rw [Advanced, hanswer]
  exact (if_pos hp).mpr h

omit [DecidableEq θ] in
/-- A call goes on elsewhere. -/
theorem Serves.advanced (hl : id ∈ m.mqueueList) (h : Serves n l d [] (m.queue id)) (hp : subject p ≠ some id)
    (hanswer : answer id p = none) : Advanced id n l d m t p := by
  rw [Advanced, hanswer]
  exact (if_neg hp).mpr ⟨hl, h⟩

omit [DecidableEq θ] in
/-- What happens elsewhere is no matter for the stage. -/
theorem Stage.frame (h : Stage id n l d m t p) (hq : m'.queue id = m.queue id)
    (hl : id ∈ m.mqueueList → id ∈ m'.mqueueList) : Stage id n l d m' t p := by
  by_cases hp : subject p = some id
  · rw [Stage, if_pos hp, hq]
    have hw := h.within hp
    cases p
    case findUnlock op j found =>
      cases found
      · exact hw
      · exact ⟨hl hw.1, hw.2⟩
    all_goals first
      | exact hw
      | exact ⟨hl hw.1, hw.2⟩
  · rw [Stage, if_neg hp, hq]
    exact ⟨hl (h.elsewhere hp).1, (h.elsewhere hp).2⟩

omit [DecidableEq θ] in
theorem CallsImmediate.op {x : QueueTransition θ ι} (h : CallsImmediate id x) {op : Op}
    (hp : (x.post.ctl x.thread).point = .findLock op id) : op.immediate :=
  h op (by simp [called, hp])

/-! ### Elsewhere -/

omit [DecidableEq ι] in
theorem SpacePoint.subject {a : SendArgs} {retcode : Retcode} (h : SpacePoint a id retcode p) :
    subject p = some id := by
  cases h <;> rfl

omit [DecidableEq ι] in
theorem MsgPoint.subject {a : ReceiveArgs} {retcode : Retcode} (h : MsgPoint a id retcode p) :
    subject p = some id := by
  cases h <;> rfl

omit [DecidableEq ι] in
theorem subject_resting (h : p.resting = true) : subject p = none := by
  cases p <;> first | rfl | cases h

omit [DecidableEq ι] in
theorem subject_deletedPoint (op : Op) (id : ι) (last : Bool) : subject (deletedPoint op id last) = some id := by
  cases last <;> rfl

omit [DecidableEq ι] in
theorem subject_receivedPoint (a : ReceiveArgs) (id : ι) (msg : List UInt8) (space : Bool) :
    subject (receivedPoint a id msg space) = some id := by
  cases space <;> rfl

theorem answer_deletedPoint (op : Op) (j : ι) (last : Bool) : answer id (deletedPoint op j last) = none := by
  cases last <;> rfl

theorem answer_receivedPoint (a : ReceiveArgs) (j : ι) (msg : List UInt8) (space : Bool) :
    answer id (receivedPoint a j msg space) = none := by
  cases space <;> rfl

/-- A call stays with its queue until it ends. -/
theorem next_subject (h : (code some prio t p).Next p') :
    subject p' = subject p ∧ answer id p' = none ∨
      subject p' = none ∧ (answer id p' = none ∨ subject p = some id) := by
  cases p
  case findUnlock op j found =>
    cases h
    cases found
    · refine .inr ⟨rfl, ?_⟩
      by_cases hj : j = id
      · exact .inr (congrArg some hj)
      · exact .inl (if_neg hj)
    · exact .inl (by cases op <;> exact ⟨rfl, rfl⟩)
  case leave op j reply =>
    cases h
    refine .inr ⟨rfl, ?_⟩
    by_cases hj : j = id
    · exact .inr (congrArg some hj)
    · exact .inl (if_neg hj)
  case linkUnlock j =>
    cases h
    exact .inr ⟨rfl, .inl rfl⟩
  all_goals first
    | exact False.elim h
    | (cases h; exact .inl ⟨rfl, rfl⟩)
    | (obtain ⟨r, rfl⟩ := h; exact .inl ⟨rfl, rfl⟩)

theorem Runs.subject_cases (h : Runs some prio t p m m' p') :
    (subject p' = subject p ∧ answer id p' = none ∨
      subject p' = none ∧ (answer id p' = none ∨ subject p = some id)) ∨
    (∃ op j, p' = .findLock op j) ∨ ∃ j, p' = .linkLock j ∧ m.block j = .fresh := by
  cases h with
  | called op j => exact .inr (.inl ⟨op, j, rfl⟩)
  | created j _ _ _ _ hf => exact .inr (.inr ⟨j, rfl, hf⟩)
  | spaceOver h => exact .inl (.inl ⟨h.subject.symm, rfl⟩)
  | spaceTimedOut h => exact .inl (.inl ⟨h.subject.symm, rfl⟩)
  | spaceSleeps h => exact .inl (.inl ⟨h.subject.symm, rfl⟩)
  | spacePolls h => exact .inl (.inl ⟨h.subject.symm, rfl⟩)
  | sendDeleted => exact .inl (.inl ⟨subject_deletedPoint .., answer_deletedPoint ..⟩)
  | pended => exact .inl (.inl (by split <;> exact ⟨rfl, rfl⟩))
  | receiveDeleted h => exact .inl (.inl ⟨(subject_deletedPoint ..).trans h.subject.symm, answer_deletedPoint ..⟩)
  | receiveTimedOut h => exact .inl (.inl ⟨h.subject.symm, rfl⟩)
  | fetched h => exact .inl (.inl ⟨(subject_receivedPoint ..).trans h.subject.symm, answer_receivedPoint ..⟩)
  | receiveSleeps h => exact .inl (.inl ⟨h.subject.symm, rfl⟩)
  | receivePolls h => exact .inl (.inl ⟨h.subject.symm, rfl⟩)
  | deleteTaskUnlocked j =>
    refine .inl (.inr ⟨rfl, ?_⟩)
    by_cases hj : j = id
    · exact .inr (congrArg some hj)
    · exact .inl (if_neg hj)
  | _ => exact .inl (.inl ⟨by rfl, by rfl⟩)

/-- A block that is not about the queue leaves it alone. -/
theorem Runs.queue_other (h : Runs some prio t p m m' p') (hb : m.block id ≠ .fresh) (hp : subject p ≠ some id) :
    m'.queue id = m.queue id ∧ (id ∈ m.mqueueList → id ∈ m'.mqueueList) := by
  have hother : ∀ {j : ι} {q : V2ptMqueue θ}, subject p = some j → (m.setQueue j q).queue id = m.queue id :=
    fun hj => Mem.setQueue_of_ne m _ fun heq => hp (heq ▸ hj)
  cases h with
  | created j _ _ _ _ hf => exact ⟨Mem.setQueue_of_ne m _ fun hj => hb (hj ▸ hf), fun h => h⟩
  | linked => exact ⟨rfl, List.mem_append_left _⟩
  | unlinked => exact ⟨rfl, (List.mem_erase_of_ne fun hj => hp (congrArg some hj.symm)).mpr⟩
  | receiveDeleted h => exact ⟨hother h.subject, fun h => h⟩
  | receiveTimedOut h => exact ⟨hother h.subject, fun h => h⟩
  | fetched h => exact ⟨hother h.subject, fun h => h⟩
  | sentTail => exact ⟨hother rfl, fun h => h⟩
  | sentFront => exact ⟨hother rfl, fun h => h⟩
  | sendPended => exact ⟨hother rfl, fun h => h⟩
  | sendDeleted => exact ⟨hother rfl, fun h => h⟩
  | sendTimedOut => exact ⟨hother rfl, fun h => h⟩
  | sentLate => exact ⟨hother rfl, fun h => h⟩
  | pended => exact ⟨hother rfl, fun h => h⟩
  | deleteMarked => exact ⟨hother rfl, fun h => h⟩
  | _ => exact ⟨rfl, fun h => h⟩

/-! ### One step of a call -/

/-- A synchronization takes a call to its next stage, or ends it. -/
theorem next_advanced (h : (code some prio t p).Next p') (hs : Stage id n l d m t p) :
    Advanced id n l d m t p' := by
  by_cases hp : subject p = some id
  · have hw := hs.within hp
    cases p
    case linkLock j =>
      cases h
      exact Within.advanced hw hp
    case linkUnlock j =>
      cases h
      exact hw.2.advanced hw.1 nofun rfl
    case findLock op j =>
      cases h
      exact Within.advanced hw hp
    case findQueue op j =>
      cases h
      exact Within.advanced hw hp
    case findUnlock op j found =>
      cases h
      cases found
      · exact hw.elim
      · cases op with
        | send a => exact Within.advanced hw hp
        | receive a => exact Within.advanced hw hp
        | numMsgs => exact hw.2.1.elim
        | delete => exact hw.2.1.elim
    case sendNotify a j =>
      cases h
      exact Within.advanced hw hp
    case receiveSleep a j =>
      obtain ⟨r, rfl⟩ := h
      exact Within.advanced hw hp
    case leave op j reply =>
      cases h
      obtain rfl : j = id := Option.some.inj hp
      rw [Advanced, answer, if_pos rfl]
      exact ⟨hw.2.1, (if_neg nofun).mpr ⟨hw.1, hw.2.2⟩⟩
    all_goals first
      | exact hw.elim
      | exact False.elim h
  · obtain ⟨hl, hserves⟩ := hs.elsewhere hp
    obtain ⟨heq, hgoes⟩ | ⟨heq, hend⟩ := next_subject h
    · exact hserves.advanced hl (heq ▸ hp) hgoes
    · exact hserves.advanced hl (by rw [heq]; exact nofun) (hend.resolve_right hp)

omit [DecidableEq θ] in
/-- A message of legal length is accepted as the double-ended queue accepts it. -/
theorem Serves.admitted {a : SendArgs} (h : Serves n l d [] q) {msg : List UInt8} (hmsg : a.msg = .bytes msg)
    (hlen : a.msg.msglen ≤ q.msgLen) :
    match q.admission a.pri with
    | .tail => Deque.call n l d (.send a) = (.ok, d ++ [msg]) ∧ d.length ≤ n
    | .front => Deque.call n l d (.send a) = (.ok, msg :: d) ∧ d.length ≤ n
    | .full => Deque.call n l d (.send a) = (.failed .objUnavailable, d) := by
  obtain ⟨_, wait, pri⟩ := a
  subst hmsg
  rw [h.holds.msgLen] at hlen
  have hlen : ¬ msg.length > l := by simpa [Msg.msglen] using hlen
  have hcount : q.msgCount = (d.length : ℤ) := h.holds.count
  have hcapacity : q.msgsPerQueue = (n : ℤ) := h.holds.capacity
  have hnobody : ¬ (q.msgsPerQueue = 0 ∧ q.firstSusp ≠ []) := fun hw => hw.2 h.receivers
  unfold V2ptMqueue.admission Deque.call
  simp only [hlen, hnobody, if_false]
  rcases Nat.lt_trichotomy d.length n with hlt | heq | hgt
  · have h₁ : ¬ q.msgCount > q.msgsPerQueue := by omega
    have h₂ : q.msgCount ≠ q.msgsPerQueue := by omega
    by_cases hurgent : pri = msgPriUrgent
    · simp [h₁, h₂, hurgent, hlt.le]
    · simp [h₁, h₂, hurgent, hlt, hlt.le]
  · have h₁ : ¬ q.msgCount > q.msgsPerQueue := by omega
    have h₂ : q.msgCount = q.msgsPerQueue := by omega
    by_cases hurgent : pri = msgPriUrgent
    · simp [h₂, hurgent, heq]
    · simp [h₂, hurgent, heq]
  · have h₁ : q.msgCount > q.msgsPerQueue := by omega
    simp [h₁, hgt.not_ge, hgt.not_gt]

omit [DecidableEq θ] in
theorem Serves.tooLong {a : SendArgs} (h : Serves n l d [] q) {msg : List UInt8} (hmsg : a.msg = .bytes msg)
    (hlen : a.msg.msglen > q.msgLen) : Deque.call n l d (.send a) = (.failed .invalidMsgLength, d) := by
  obtain ⟨_, wait, pri⟩ := a
  subst hmsg
  rw [h.holds.msgLen] at hlen
  exact if_pos hlen

omit [DecidableEq θ] in
theorem Serves.sendMsgTo {msg : List UInt8} (h : Serves n l d [] q) (hroom : d.length ≤ n)
    (hlen : Msg.msglen (.bytes msg) ≤ q.msgLen) (hl : l < 2 ^ 32) :
    Serves n l (d ++ [msg]) [] (q.sendMsgTo (.bytes msg)) := by
  obtain ⟨_, rfl, hholds⟩ := h.holds.sendMsgTo hroom (h.holds.msgLen ▸ hlen) hl
  exact ⟨hholds, nofun, h.receivers, h.senders⟩

omit [DecidableEq θ] in
theorem Serves.urgentMsgTo {msg : List UInt8} (h : Serves n l d [] q) (hroom : d.length ≤ n)
    (hlen : Msg.msglen (.bytes msg) ≤ q.msgLen) (hl : l < 2 ^ 32) :
    Serves n l (msg :: d) [] (q.urgentMsgTo (.bytes msg)) := by
  obtain ⟨_, rfl, hholds⟩ := h.holds.urgentMsgTo hroom (h.holds.msgLen ▸ hlen) hl
  exact ⟨hholds, nofun, h.receivers, h.senders⟩

/-- The only task on the list is the one that a signal is for. -/
theorem signalForMyTask_alone (order : ℕ) : signalForMyTask [t] order prio (some t) = true := by
  simp [signalForMyTask, signalledTask, selectTask]

theorem Serves.unlink (h : Serves n l d [t] q) {q' : V2ptMqueue θ}
    (hq : q' = {q with firstSusp := unlinkSuspTask q.firstSusp (some t)}) : Serves n l d [] q' := by
  subst hq
  exact ⟨h.holds.relist _ q.firstWriteSusp q.sendType, h.alive, by simp [h.receivers, unlinkSuspTask], h.senders⟩

/-- A receiver that has found no message leaves with what the double-ended queue
answers. -/
theorem Serves.unavailable {a : ReceiveArgs} (h : Serves n l d [t] q) (hbuf : l ≤ a.buflen)
    (hnone : q.msgFor prio (some t) = .unavailable) :
    Deque.call n l d (.receive a) = (.failed .objUnavailable, d) := by
  unfold V2ptMqueue.msgFor at hnone
  split at hnone
  · split at hnone <;> cases hnone
  · rename_i hcount
    rw [h.holds.count] at hcount
    obtain rfl : d = [] := List.length_eq_zero_iff.mp (by omega)
    exact if_neg (Nat.not_lt.mpr hbuf)

theorem Serves.turn (h : Serves n l d [t] q) : q.msgFor prio (some t) ≠ .notOurs := by
  unfold V2ptMqueue.msgFor
  rw [h.receivers, signalForMyTask_alone]
  split <;> exact nofun

omit [DecidableEq θ] in
/-- A receiver takes the first message. -/
theorem Serves.fetchMsgFrom {a : ReceiveArgs} (h : Serves n l d [] q) (himm : (Op.receive a).immediate)
    (hbuf : l ≤ a.buflen) (hcount : q.msgCount > 0) :
    Answers n l d (.receive a) (.received (q.fetchMsgFrom a.hasBuf).1) (q.fetchMsgFrom a.hasBuf).2 := by
  rw [h.holds.count] at hcount
  cases d with
  | nil => exact absurd hcount (by simp)
  | cons msg rest =>
    obtain ⟨hmsg, hholds⟩ := h.holds.fetchMsgFrom a.hasBuf
    have hcall : Deque.call n l (msg :: rest) (.receive a) = (.received msg, rest) := if_neg (Nat.not_lt.mpr hbuf)
    rw [hmsg, himm.2]
    exact .of_call hcall ⟨himm.2 ▸ hholds, h.alive, h.receivers, h.senders⟩

/-- A block takes a call to its next stage. -/
theorem Runs.advanced (h : Runs some prio t p m m' p') (hb : m.block id ≠ .fresh) (hl : l < 2 ^ 32)
    (hs : Stage id n l d m t p) (himm : ∀ op, p' = .findLock op id → op.immediate) : Advanced id n l d m' t p' := by
  by_cases hp : subject p = some id
  · have hw := hs.within hp
    cases h with
    | called _ _ hr => cases hp.symm.trans (subject_resting hr)
    | created _ _ _ _ hr => cases hp.symm.trans (subject_resting hr)
    | linked j =>
      obtain rfl : j = id := Option.some.inj hp
      exact Within.advanced (m := {m with mqueueList := m.mqueueList ++ [j]}) ⟨by simp, hw⟩ hp
    | found op hlisted => exact Within.advanced hw hp
    | notFound op hlisted =>
      obtain rfl := Option.some.inj hp
      exact absurd hw.1 hlisted
    | sendTooLong hlen =>
      obtain rfl := Option.some.inj hp
      obtain ⟨hlisted, ⟨_, msg, hmsg⟩, hserves⟩ := hw
      exact Within.advanced ⟨hlisted, .of_call (hserves.tooLong hmsg hlen) hserves⟩ hp
    | sendFull hlen hadmission =>
      obtain rfl := Option.some.inj hp
      obtain ⟨hlisted, ⟨_, msg, hmsg⟩, hserves⟩ := hw
      have hcall := hserves.admitted hmsg hlen
      rw [hadmission] at hcall
      exact Within.advanced ⟨hlisted, .of_call hcall hserves⟩ hp
    | sentTail hlen hadmission =>
      obtain rfl := Option.some.inj hp
      obtain ⟨hlisted, ⟨_, msg, hmsg⟩, hserves⟩ := hw
      have hcall := hserves.admitted hmsg hlen
      rw [hadmission] at hcall
      refine Within.advanced ?_ hp
      rw [Mem.setQueue_self, hmsg]
      exact ⟨hlisted, .of_call hcall.1 (hserves.sendMsgTo hcall.2 (hmsg ▸ hlen) hl)⟩
    | sentFront hlen hadmission =>
      obtain rfl := Option.some.inj hp
      obtain ⟨hlisted, ⟨_, msg, hmsg⟩, hserves⟩ := hw
      have hcall := hserves.admitted hmsg hlen
      rw [hadmission] at hcall
      refine Within.advanced ?_ hp
      rw [Mem.setQueue_self, hmsg]
      exact ⟨hlisted, .of_call hcall.1 (hserves.urgentMsgTo hcall.2 (hmsg ▸ hlen) hl)⟩
    | sendPended _ _ hwait => exact absurd hw.2.1.1 hwait
    | receiveTooShort hlen =>
      obtain rfl := Option.some.inj hp
      obtain ⟨hlisted, _, hserves⟩ := hw
      rw [hserves.holds.msgLen] at hlen
      exact Within.advanced ⟨hlisted, .of_call (if_pos hlen) hserves⟩ hp
    | pended hlen =>
      obtain rfl := Option.some.inj hp
      obtain ⟨hlisted, himm, hserves⟩ := hw
      rw [if_neg fun hready => hready.2 hserves.senders]
      refine Within.advanced ?_ hp
      rw [Mem.setQueue_self]
      rw [hserves.holds.msgLen] at hlen
      exact ⟨hlisted, himm, Nat.le_of_not_lt hlen, hserves.holds.relist _ (m.queue _).firstWriteSusp (m.queue _).sendType,
        hserves.alive, by simp [hserves.receivers, linkSuspTask], hserves.senders⟩
    | receiveDeleted hpoint hkill =>
      cases hpoint with
      | test =>
        obtain rfl := Option.some.inj hp
        exact absurd hkill hw.2.2.2.alive
      | again => exact hw.elim
    | receiveTimedOut hpoint hkill hnone =>
      cases hpoint with
      | test =>
        obtain rfl := Option.some.inj hp
        obtain ⟨hlisted, himm, hbuf, hserves⟩ := hw
        have hcall := hserves.unavailable hbuf (hnone.resolve_right (by rintro ⟨⟩))
        rw [if_pos himm.1]
        refine Within.advanced ?_ hp
        rw [Mem.setQueue_self]
        exact ⟨hlisted, .of_call hcall (hserves.unlink rfl)⟩
      | again => exact hw.elim
    | fetched hpoint hkill hcount hsig hq =>
      cases hpoint with
      | test =>
        obtain rfl := Option.some.inj hp
        obtain ⟨hlisted, himm, hbuf, hserves⟩ := hw
        have hserves' := hserves.unlink hq
        have hfetch := hserves'.fetchMsgFrom himm hbuf (by rwa [hq])
        rw [decide_eq_false fun hspace => hspace.1 hfetch.2.senders]
        refine Within.advanced ?_ hp
        rw [Mem.setQueue_self]
        exact ⟨hlisted, hfetch⟩
      | again => exact hw.elim
    | receiveSleeps hpoint =>
      cases hpoint with
      | test => exact Within.advanced hw hp
      | again => exact hw.elim
    | receivePolls hpoint _ hturn =>
      cases hpoint with
      | test =>
        obtain rfl := Option.some.inj hp
        exact absurd hturn hw.2.2.2.turn
      | again => exact hw.elim
    | spaceOver hpoint => cases hpoint <;> exact hw.elim
    | spaceTimedOut hpoint => cases hpoint <;> exact hw.elim
    | spaceSleeps hpoint => cases hpoint <;> exact hw.elim
    | spacePolls hpoint => cases hpoint <;> exact hw.elim
    | _ => exact hw.elim
  · obtain ⟨hlisted, hserves⟩ := hs.elsewhere hp
    obtain ⟨hq, hlists⟩ := h.queue_other hb hp
    rw [← hq] at hserves
    obtain (⟨heq, hgoes⟩ | ⟨heq, hend⟩) | ⟨op, j, rfl⟩ | ⟨j, rfl, hf⟩ := h.subject_cases
    · exact hserves.advanced (hlists hlisted) (heq ▸ hp) hgoes
    · exact hserves.advanced (hlists hlisted) (by rw [heq]; rintro ⟨⟩) (hend.resolve_right hp)
    · by_cases hj : j = id
      · subst hj
        exact Within.advanced ⟨hlists hlisted, himm op rfl, hserves⟩ rfl
      · exact hserves.advanced (hlists hlisted) (fun h => hj (Option.some.inj h)) rfl
    · exact hserves.advanced (hlists hlisted) (fun h => hb (Option.some.inj h ▸ hf)) rfl

theorem answer_sync (h : ∀ block, code some prio t p ≠ .run block) : answer id p = none := by
  cases p <;> first | rfl | exact absurd rfl (h _)

theorem stage_step (hs : Step (code some prio) t s s') (hb : s.mem.block id ≠ .fresh) (hl : l < 2 ^ 32)
    (hstage : Stage id n l d s.mem t (s.ctl t).point) (himm : CallsImmediate id ⟨s, t, s'⟩) :
    Advanced id n l d s'.mem t (s'.ctl t).point := by
  obtain ⟨hm, hsync, hp⟩ | ⟨p, p', hp, hp', hr, _⟩ := step_cases hs
  · rw [hm]
    obtain heq | hnext := hp
    · rw [heq, Advanced, answer_sync hsync]
      exact hstage
    · exact next_advanced hnext hstage
  · have hp : (s.ctl t).point = p := by rw [hp, Ctl.point_awake]
    have hp' : (s'.ctl t).point = p' := by rw [hp', Ctl.point_awake]
    rw [hp']
    exact hr.advanced hb hl (hp ▸ hstage) fun op h => himm.op (hp'.trans h)

/-! ### The calls of a run -/

/-- At most one thread is in a call on the queue, which holds what that thread's place
asks for. -/
def Served (id : ι) (n l : ℕ) (d : List (List UInt8)) (s : QueueState θ ι) : Prop :=
  ∃ t, (∀ u ≠ t, subject (s.ctl u).point ≠ some id) ∧ Stage id n l d s.mem t (s.ctl t).point

theorem served_created (h : Linked s) (hs : Step (code some prio) t s s') {order : ℕ}
    (hnew : Creates id n l order ⟨s, t, s'⟩) (halone : Alone id ⟨s, t, s'⟩) : l < 2 ^ 32 ∧ Served id n l [] s' := by
  obtain ⟨opt, hl, hq, hp⟩ := created_step h hs hnew
  have hp : (s'.ctl t).point = .linkLock id := by rw [hp, Ctl.point_awake]
  have hsubject : subject (s'.ctl t).point = some id := by rw [hp]; rfl
  refine ⟨hl, t, halone hsubject, (if_pos hsubject).mpr ?_⟩
  rw [hp]
  exact ⟨hq ▸ msgQCreate_holds θ opt hl, by rw [hq]; exact nofun, by rw [hq]; rfl, by rw [hq]; rfl⟩

/-- A step from elsewhere is no matter for the queue, unless it begins a call. -/
theorem step_elsewhere (hs : Step (code some prio) t s s') (hb : s.mem.block id ≠ .fresh)
    (hp : subject (s.ctl t).point ≠ some id) :
    s'.mem.queue id = s.mem.queue id ∧ (id ∈ s.mem.mqueueList → id ∈ s'.mem.mqueueList) ∧
      answer id (s'.ctl t).point = none ∧
      (subject (s'.ctl t).point = some id → ∃ op, (s'.ctl t).point = .findLock op id) := by
  obtain ⟨hm, hsync, heq | hnext⟩ | ⟨p, p', hp₀, hp', hr, _⟩ := step_cases hs
  · rw [hm, heq]
    exact ⟨rfl, fun h => h, answer_sync hsync, fun h => absurd h hp⟩
  · rw [hm]
    obtain ⟨hsubject, hgoes⟩ | ⟨hsubject, hend⟩ := next_subject hnext
    · exact ⟨rfl, fun h => h, hgoes, fun h => absurd (hsubject ▸ h) hp⟩
    · exact ⟨rfl, fun h => h, hend.resolve_right hp, fun h => absurd (hsubject.symm.trans h) nofun⟩
  · rw [hp₀, Ctl.point_awake] at hp
    rw [hp', Ctl.point_awake]
    obtain ⟨hq, hl⟩ := hr.queue_other hb hp
    refine ⟨hq, hl, ?_⟩
    obtain (⟨hsubject, hgoes⟩ | ⟨hsubject, hend⟩) | ⟨op, j, rfl⟩ | ⟨j, rfl, hf⟩ := hr.subject_cases
    · exact ⟨hgoes, fun h => absurd (hsubject ▸ h) hp⟩
    · exact ⟨hend.resolve_right hp, fun h => absurd (hsubject.symm.trans h) nofun⟩
    · exact ⟨rfl, fun h => ⟨op, by rw [Option.some.inj h]⟩⟩
    · exact ⟨rfl, fun h => absurd (Option.some.inj h ▸ hf) hb⟩

/-- A step keeps a queue served, with one call more if one returns. -/
theorem served_step (h : Served id n l d s) (hs : Step (code some prio) t s s') (hb : s.mem.block id ≠ .fresh)
    (hl : l < 2 ^ 32) (himm : CallsImmediate id ⟨s, t, s'⟩) (halone : Alone id ⟨s, t, s'⟩) :
    match replied id ⟨s, t, s'⟩ with
    | none => Served id n l d s'
    | some (op, reply) => reply = (Deque.call n l d op).1 ∧ Served id n l (Deque.call n l d op).2 s' := by
  obtain ⟨v, hothers, hstage⟩ := h
  by_cases ht : t = v
  · subst ht
    have hothers' : ∀ u ≠ t, subject (s'.ctl u).point ≠ some id := by
      intro u hu
      rw [hs.ctl_other hu]
      exact hothers u hu
    have hadv := stage_step hs hb hl hstage himm
    show match answer id (s'.ctl t).point with
      | none => _
      | some (op, reply) => _
    unfold Advanced at hadv
    cases hans : answer id (s'.ctl t).point with
    | none =>
      rw [hans] at hadv
      exact ⟨t, hothers', hadv⟩
    | some call =>
      rw [hans] at hadv
      exact ⟨hadv.1, t, hothers', hadv.2⟩
  · obtain ⟨hq, hlists, hans, hcall⟩ := step_elsewhere hs hb (hothers t ht)
    have hv : (s'.ctl v).point = (s.ctl v).point := by rw [hs.ctl_other (Ne.symm ht)]
    rw [show replied id ⟨s, t, s'⟩ = none from hans]
    by_cases hin : subject (s'.ctl t).point = some id
    · -- the thread begins a call, so the one that was in a call is out
      have hout : subject (s.ctl v).point ≠ some id := hv ▸ halone hin v (Ne.symm ht)
      obtain ⟨hlisted, hserves⟩ := hstage.elsewhere hout
      obtain ⟨op, hop⟩ := hcall hin
      refine ⟨t, halone hin, (if_pos hin).mpr ?_⟩
      rw [hop, hq]
      exact ⟨hlists hlisted, himm.op hop, hserves⟩
    · refine ⟨v, fun u hu => ?_, ?_⟩
      · by_cases hut : u = t
        · exact hut ▸ hin
        · rw [hs.ctl_other hut]
          exact hothers u hu
      · rw [hv]
        exact hstage.frame hq hlists

end

end V2lin.Queue
