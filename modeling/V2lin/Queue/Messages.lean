import V2lin.Queue.Extent
import V2lin.Queue.Locks
import V2lin.Queue.Pended

/-! Where the messages go.

Every message that `msgQSend` has accepted is in the queue or has been handed out by one
call of `msgQReceive`, as long as no sender that has waited for space posts to a queue
that has filled up in the meantime: `waitToSend` does not test again under `queue_lock`. -/
namespace V2lin.Queue
open Threads V2lin.Task

section
variable {θ ι : Type} [DecidableEq θ] [DecidableEq ι]

/-- A message that goes into a queue, or comes out of it into a buffer or a null pointer. -/
inductive Event where
  | sent (msg : Msg)
  | received (hasBuf : Bool) (msg : List UInt8)
  deriving DecidableEq

/-- The message that a call has moved when its thread is at a point, up to its return. -/
def settle (id : ι) : Pc ι → Option Event
  | .sendNotify a j => if j = id then some (.sent a.msg) else none
  | .leave (.send a) j .ok => if j = id then some (.sent a.msg) else none
  | .spaceLock a j msg | .spaceNotify a j msg | .spaceUnlock a j msg =>
    if j = id then some (.received a.hasBuf msg) else none
  | .leave (.receive a) j (.received msg) => if j = id then some (.received a.hasBuf msg) else none
  | _ => none

/-- The message that a step moves. -/
def moves (id : ι) (x : QueueTransition θ ι) : Option Event :=
  if settle id (x.pre.ctl x.thread).point = none then settle id (x.post.ctl x.thread).point else none

/-- The message of the call that returns in a step. -/
def returns (id : ι) (x : QueueTransition θ ι) : Option Event :=
  match x.pre.ctl x.thread with
  | .awake (.leave op j reply) => settle id (.leave op j reply : Pc ι)
  | _ => none

def Event.sent? : Event → Option Msg
  | .sent msg => some msg
  | .received _ _ => none

def Event.received? : Event → Option (Bool × List UInt8)
  | .sent _ => none
  | .received hasBuf msg => some (hasBuf, msg)

/-- The messages of the calls of `msgQSend` that have returned OK, newest first. -/
def sentOk (id : ι) (tr : List (QueueTransition θ ι)) : List Msg :=
  (tr.filterMap (returns id)).filterMap Event.sent?

/-- What the calls of `msgQReceive` that did not fail have returned, newest first, and
whether into a buffer. -/
def receivedOk (id : ι) (tr : List (QueueTransition θ ι)) : List (Bool × List UInt8) :=
  (tr.filterMap (returns id)).filterMap Event.received?

/-- What a receiver gets of a message. -/
def Gets (r : Bool × List UInt8) (m : List UInt8) : Prop := r.2 = if r.1 then m else []

/-- The step in which a sender that has waited for space posts to a full queue. -/
def overfills (id : ι) (x : QueueTransition θ ι) : Bool :=
  match x.pre.ctl x.thread with
  | .awake (.waitEnd _ j retcode) =>
    j = id ∧ (x.pre.mem.queue id).sendType ≠ .killd ∧ retcode ≠ .etimedout ∧
      (x.pre.mem.queue id).msgsPerQueue < (x.pre.mem.queue id).msgCount
  | _ => false

variable {prio : θ → ℤ} {t : θ} {p p' : Pc ι} {id : ι} {s s' : QueueState θ ι} {tr : List (QueueTransition θ ι)}

/-! ### The ledger -/

/-- Every message sent is in the queue or has been received once. -/
def Ledger (n l : ℕ) (events : List Event) (q : V2ptMqueue θ) : Prop :=
  ∃ msgs stored taken, Holds q n l msgs ∧ List.Forall₂ Carries (events.filterMap Event.sent?) stored ∧
    List.Forall₂ Gets (events.filterMap Event.received?) taken ∧ stored.Perm (msgs ++ taken)

section
variable {q q' : V2ptMqueue θ} {n l : ℕ} {events : List Event} {msg : Msg}

omit [DecidableEq θ] in
theorem Ledger.keep (h : Ledger n l events q) (hq : ∀ msgs, Holds q n l msgs → Holds q' n l msgs) :
    Ledger n l events q' := by
  obtain ⟨msgs, stored, taken, hholds, hrest⟩ := h
  exact ⟨msgs, stored, taken, hq msgs hholds, hrest⟩

omit [DecidableEq θ] in
theorem Ledger.sendMsgTo (h : Ledger n l events q) (hroom : q.msgCount ≤ n) (hmsg : msg.msglen ≤ l)
    (hl : l < 2 ^ 32) : Ledger n l (.sent msg :: events) (q.sendMsgTo msg) := by
  obtain ⟨msgs, stored, taken, hholds, hsent, hreceived, hperm⟩ := h
  rw [hholds.count] at hroom
  obtain ⟨m, hcarry, hholds⟩ := hholds.sendMsgTo (by exact_mod_cast hroom) hmsg hl
  refine ⟨_, m :: stored, taken, hholds, .cons hcarry hsent, hreceived, ?_⟩
  rw [List.append_assoc]
  exact (hperm.cons m).trans List.perm_middle.symm

omit [DecidableEq θ] in
theorem Ledger.urgentMsgTo (h : Ledger n l events q) (hroom : q.msgCount ≤ n) (hmsg : msg.msglen ≤ l)
    (hl : l < 2 ^ 32) : Ledger n l (.sent msg :: events) (q.urgentMsgTo msg) := by
  obtain ⟨msgs, stored, taken, hholds, hsent, hreceived, hperm⟩ := h
  rw [hholds.count] at hroom
  obtain ⟨m, hcarry, hholds⟩ := hholds.urgentMsgTo (by exact_mod_cast hroom) hmsg hl
  exact ⟨_, m :: stored, taken, hholds, .cons hcarry hsent, hreceived, hperm.cons m⟩

omit [DecidableEq θ] in
theorem Ledger.post (h : Ledger n l events q) (hroom : q.msgCount ≤ n) (hmsg : msg.msglen ≤ l)
    (hl : l < 2 ^ 32) (pri : ℤ) : Ledger n l (.sent msg :: events) (q.post msg pri) := by
  unfold V2ptMqueue.post
  split
  · exact h.urgentMsgTo hroom hmsg hl
  · exact h.sendMsgTo hroom hmsg hl

omit [DecidableEq θ] in
theorem Ledger.fetchMsgFrom (h : Ledger n l events q) (hcount : q.msgCount > 0) (hasBuf : Bool) :
    Ledger n l (.received hasBuf (q.fetchMsgFrom hasBuf).1 :: events) (q.fetchMsgFrom hasBuf).2 := by
  obtain ⟨msgs, stored, taken, hholds, hsent, hreceived, hperm⟩ := h
  cases msgs with
  | nil =>
    have := hholds.count
    simp at this
    omega
  | cons m msgs =>
    obtain ⟨hget, hholds⟩ := hholds.fetchMsgFrom hasBuf
    exact ⟨msgs, stored, m :: taken, hholds, hsent, .cons hget hreceived, hperm.trans List.perm_middle.symm⟩

end

/-- The message and the queue of a sender that waits for space. -/
def waitArgs : Pc ι → Option (SendArgs × ι)
  | .waitUnlock a id | .waitTest a id _ | .waitSleep a id | .waitPoll a id _ | .waitPollLock a id _
  | .waitAgain a id _ | .waitRelock a id _ | .waitEnd a id _ => some (a, id)
  | _ => none

omit [DecidableEq ι] in
theorem SpacePoint.args {a : SendArgs} {retcode : Retcode} (h : SpacePoint a id retcode p) :
    waitArgs p = some (a, id) := by
  cases h <;> rfl

omit [DecidableEq ι] in
theorem args_touches {a : SendArgs} (h : waitArgs p = some (a, id)) : touches p = some id := by
  cases p <;> cases h <;> rfl

theorem next_args (h : (code some prio t p).Next p') {a : SendArgs} (ha : waitArgs p' = some (a, id)) :
    waitArgs p = some (a, id) := by
  cases p
  case findUnlock op j found =>
    cases h
    cases found
    · cases ha
    · cases op <;> cases ha
  all_goals first
    | exact False.elim h
    | (cases h; exact ha)
    | (obtain ⟨r, rfl⟩ := h; exact ha)

variable {m m' : Mem θ ι}

/-- A message that waits for space is not too long. -/
theorem Runs.args_cases (h : Runs some prio t p m m' p') {a : SendArgs} (ha : waitArgs p' = some (a, id)) :
    waitArgs p = some (a, id) ∨ a.msg.msglen ≤ (m.queue id).msgLen := by
  cases h with
  | sendPended hlen =>
    cases ha
    exact .inr hlen
  | spaceOver hp => exact .inl (hp.args.trans ha)
  | spaceTimedOut hp => exact .inl (hp.args.trans ha)
  | spaceSleeps hp => exact .inl (hp.args.trans ha)
  | spacePolls hp => exact .inl (hp.args.trans ha)
  | sendDeleted =>
    unfold deletedPoint at ha
    split at ha <;> cases ha
  | pended => split at ha <;> cases ha
  | receiveDeleted =>
    unfold deletedPoint at ha
    split at ha <;> cases ha
  | fetched =>
    unfold receivedPoint at ha
    split at ha <;> cases ha
  | _ => cases ha

theorem settle_deletedPoint (op : Op) (j : ι) (last : Bool) : settle id (deletedPoint op j last) = none := by
  cases last <;> cases op <;> rfl

theorem settle_receivedPoint (a : ReceiveArgs) (j : ι) (msg : List UInt8) (space : Bool) :
    settle id (receivedPoint a j msg space) = if j = id then some (.received a.hasBuf msg) else none := by
  cases space <;> rfl

omit [DecidableEq θ] in
/-- `msgQSend` without a wait posts where there is room. -/
theorem admission_room {q : V2ptMqueue θ} {pri : ℤ} (h : q.admission pri ≠ .full) : q.msgCount ≤ q.msgsPerQueue := by
  unfold V2ptMqueue.admission at h
  split at h
  · exact absurd rfl h
  · omega

omit [DecidableEq θ] in
theorem settle_held {e : Event} (h : settle id p = some e) : .queueLock id ∈ held p := by
  unfold settle at h
  split at h <;> first
    | (split at h <;> first | (rename_i hj; subst hj; exact List.mem_singleton_self _) | cases h)
    | cases h

omit [DecidableEq θ] in
theorem settle_resting (h : p.resting = true) : settle id p = none := by
  cases p <;> first | rfl | cases h

/-- A call has no message while its thread is about to run a block. -/
theorem Runs.unsettled (h : Runs some prio t p m m' p') : settle id p = none := by
  cases h with
  | called _ _ hp => exact settle_resting hp
  | created _ _ _ _ hp => exact settle_resting hp
  | spaceOver hp => cases hp <;> rfl
  | spaceTimedOut hp => cases hp <;> rfl
  | spaceSleeps hp => cases hp <;> rfl
  | spacePolls hp => cases hp <;> rfl
  | receiveDeleted hp => cases hp <;> rfl
  | receiveTimedOut hp => cases hp <;> rfl
  | fetched hp => cases hp <;> rfl
  | receiveSleeps hp => cases hp <;> rfl
  | receivePolls hp => cases hp <;> rfl
  | _ => rfl

/-- Outside the blocks a call keeps its message until it returns, and gets none. -/
theorem next_settle (h : (code some prio t p).Next p') :
    settle id p' = settle id p ∨ settle id p' = none ∧ ∃ op j reply, p = .leave op j reply := by
  cases p
  case findUnlock op j found =>
    cases h
    cases found
    · exact .inl rfl
    · exact .inl (by cases op <;> rfl)
  case leave op j reply =>
    cases h
    exact .inr ⟨rfl, op, j, reply, rfl⟩
  all_goals first
    | exact False.elim h
    | (cases h; exact .inl rfl)
    | (obtain ⟨r, rfl⟩ := h; exact .inl rfl)
    | (cases h; rename_i op _; cases op <;> exact .inl rfl)

/-- Every block keeps the ledger. -/
theorem Runs.ledger {n l : ℕ} {events : List Event} (h : Runs some prio t p m m' p') (hb : m.block id ≠ .fresh)
    (hl : l < 2 ^ 32) (hargs : ∀ a, waitArgs p = some (a, id) → a.msg.msglen ≤ l)
    (hno : ∀ a retcode, p = .waitEnd a id retcode → (m.queue id).sendType ≠ .killd → retcode ≠ .etimedout →
      (m.queue id).msgCount ≤ (m.queue id).msgsPerQueue)
    (hledger : Ledger n l events (m.queue id)) :
    Ledger n l ((settle id p').toList ++ events) (m'.queue id) := by
  have hkeep : ∀ {j : ι} {q : V2ptMqueue θ}, settle id p' = none →
      (∀ msgs, Holds (m.queue j) n l msgs → Holds q n l msgs) →
      Ledger n l ((settle id p').toList ++ events) ((m.setQueue j q).queue id) := by
    intro j q hp' hq
    rw [hp']
    by_cases hj : id = j
    · subst hj
      rw [Mem.setQueue_self]
      exact hledger.keep hq
    · rw [Mem.setQueue_of_ne m q hj]
      exact hledger
  have hsame : settle id p' = none → Ledger n l ((settle id p').toList ++ events) (m.queue id) := by
    intro hp'
    rw [hp']
    exact hledger
  have hcap : (m.queue id).msgsPerQueue = n ∧ (m.queue id).msgLen = l := by
    obtain ⟨_, _, _, hholds, _⟩ := hledger
    exact ⟨hholds.capacity, hholds.msgLen⟩
  cases h with
  | created j _ _ _ _ hf =>
    have hj : id ≠ j := fun hj => hb (hj ▸ hf)
    simp only [Mem.setQueue_of_ne m _ hj]
    exact hsame rfl
  | @sentTail m a j hlen hadm =>
    by_cases hj : j = id
    · subst hj
      have hroom := admission_room (by rw [hadm]; exact nofun)
      rw [hcap.1] at hroom
      rw [Mem.setQueue_self, settle, if_pos rfl]
      exact hledger.sendMsgTo hroom (hcap.2 ▸ hlen) hl
    · rw [Mem.setQueue_of_ne m _ (Ne.symm hj)]
      exact hsame (if_neg hj)
  | @sentFront m a j hlen hadm =>
    by_cases hj : j = id
    · subst hj
      have hroom := admission_room (by rw [hadm]; exact nofun)
      rw [hcap.1] at hroom
      rw [Mem.setQueue_self, settle, if_pos rfl]
      exact hledger.urgentMsgTo hroom (hcap.2 ▸ hlen) hl
    · rw [Mem.setQueue_of_ne m _ (Ne.symm hj)]
      exact hsame (if_neg hj)
  | @sentLate m q a j retcode hkill hret hq =>
    by_cases hj : j = id
    · subst hj
      have hroom := hno a retcode rfl hkill hret
      rw [hcap.1] at hroom
      rw [Mem.setQueue_self, settle, if_pos rfl]
      have hq' : Ledger n l events q := hledger.keep fun _ h => hq ▸ h.relist ..
      exact hq'.post (by rw [hq]; exact hroom) (hargs a rfl) hl a.pri
    · rw [Mem.setQueue_of_ne m _ (Ne.symm hj)]
      exact hsame (if_neg hj)
  | @fetched p m q a j retcode hp hkill hcount hsig hq =>
    rw [settle_receivedPoint]
    by_cases hj : j = id
    · subst hj
      have hq' : Ledger n l events q := hledger.keep fun _ h => hq ▸ h.relist ..
      rw [Mem.setQueue_self, if_pos rfl]
      exact hq'.fetchMsgFrom (by rw [hq]; exact hcount) a.hasBuf
    · rw [Mem.setQueue_of_ne m _ (Ne.symm hj), if_neg hj]
      exact hledger
  | sendPended => exact hkeep rfl fun _ h => h.relist ..
  | sendDeleted _ hq => exact hkeep (settle_deletedPoint ..) fun _ h => hq ▸ h.relist ..
  | sendTimedOut => exact hkeep rfl fun _ h => h.relist ..
  | pended => exact hkeep (by split <;> rfl) fun _ h => h.relist ..
  | receiveDeleted _ _ hq => exact hkeep (settle_deletedPoint ..) fun _ h => hq ▸ h.relist ..
  | receiveTimedOut => exact hkeep rfl fun _ h => h.relist ..
  | deleteMarked => exact hkeep rfl fun _ h => h.relist ..
  | _ => exact hsame rfl

/-! ### Runs -/

/-- The books of a queue: its ledger, and no message too long waits for space. -/
structure Books (id : ι) (n l : ℕ) (tr : List (QueueTransition θ ι)) (s : QueueState θ ι) : Prop where
  made : s.mem.block id ≠ .fresh
  small : l < 2 ^ 32
  ledger : Ledger n l (tr.filterMap (moves id)) (s.mem.queue id)
  args : ∀ t a, waitArgs (s.ctl t).point = some (a, id) → a.msg.msglen ≤ l

omit [DecidableEq θ] in
theorem settle_touches {e : Event} (h : settle id p = some e) : touches p = some id :=
  touches_of_held (settle_held h)

/-- A queue not made yet has moved no message. -/
theorem moves_fresh (h : Run (code some prio) Initial tr s) (hf : s.mem.block id = .fresh) :
    tr.filterMap (moves id) = [] := by
  induction h with
  | start _ => rfl
  | @step tr s t s' hr hs ih =>
    have hf' : s.mem.block id = .fresh := by
      by_contra hb
      exact block_step hs hb hf
    have hnone : settle id (s'.ctl t).point = none := by
      rw [Option.eq_none_iff_forall_not_mem]
      intro e he
      exact (linked_step (linked hr) hs).touched t id (settle_touches he) hf
    rw [List.filterMap_cons, ih hf']
    simp [moves, hnone]

/-- No message waits for space in a new queue. -/
theorem args_created (h : Linked s) (hs : Step (code some prio) t s s') (hf : s.mem.block id = .fresh)
    (hp' : s'.ctl t = .awake (.linkLock id)) {l : ℕ} (u : θ) (a : SendArgs)
    (ha : waitArgs (s'.ctl u).point = some (a, id)) : a.msg.msglen ≤ l := by
  by_cases hu : u = t
  · rw [hu, hp'] at ha
    cases ha
  · rw [hs.ctl_other hu] at ha
    exact absurd hf (h.touched u id (args_touches ha))

/-- No message too long comes to wait for space. -/
theorem args_step {l : ℕ} (h : ∀ u a, waitArgs (s.ctl u).point = some (a, id) → a.msg.msglen ≤ l)
    (hlen : (s.mem.queue id).msgLen = l) (hs : Step (code some prio) t s s') (u : θ) (a : SendArgs)
    (ha : waitArgs (s'.ctl u).point = some (a, id)) : a.msg.msglen ≤ l := by
  by_cases hu : u = t
  · subst hu
    obtain ⟨_, _, heq | hnext⟩ | ⟨p, p', hp, hp', hr, _⟩ := step_cases hs
    · rw [heq] at ha
      exact h u a ha
    · exact h u a (next_args hnext ha)
    · rw [hp', Ctl.point_awake] at ha
      obtain ha | hshort := hr.args_cases ha
      · exact h u a (by rwa [hp])
      · rwa [hlen] at hshort
  · rw [hs.ctl_other hu] at ha
    exact h u a ha

theorem books_made (h : Run (code some prio) Initial tr s) (hs : Step (code some prio) t s s') {n l order : ℕ}
    (hmade : Creates id n l order ⟨s, t, s'⟩) : Books id n l (⟨s, t, s'⟩ :: tr) s' := by
  have hl := linked h
  obtain ⟨opt, hsmall, hq, hp'⟩ := created_step hl hs hmade
  obtain ⟨hf, hlive, _⟩ := hmade
  refine ⟨fun hb => Block.noConfusion (hlive.symm.trans hb), hsmall, ?_, ?_⟩
  · have hmoves : moves id ⟨s, t, s'⟩ = none := by
      simp [moves, hp', settle]
    rw [List.filterMap_cons, hmoves, moves_fresh h hf, hq]
    exact ⟨[], [], [], msgQCreate_holds θ opt hsmall, .nil, .nil, .nil⟩
  · exact args_created hl hs hf hp'

theorem Books.step {n l : ℕ} (h : Books id n l tr s) (hs : Step (code some prio) t s s')
    (hno : overfills id ⟨s, t, s'⟩ = false) : Books id n l (⟨s, t, s'⟩ :: tr) s' := by
  have hlen : (s.mem.queue id).msgLen = l := by
    obtain ⟨_, _, _, hholds, _⟩ := h.ledger
    exact hholds.msgLen
  refine ⟨block_step hs h.made, h.small, ?_, ?_⟩
  · rw [List.filterMap_cons]
    obtain ⟨hm, _, hpoint⟩ | ⟨p, p', hp, hp', hr, _⟩ := step_cases hs
    · have hmoves : moves id ⟨s, t, s'⟩ = none := by
        unfold moves
        split
        · rename_i hnone
          obtain heq | hnext := hpoint
          · rwa [heq]
          · obtain heq | ⟨hnone', _⟩ := next_settle hnext
            · rwa [heq]
            · exact hnone'
        · rfl
      rw [hmoves, hm]
      exact h.ledger
    · have hmoves : moves id ⟨s, t, s'⟩ = settle id p' := by
        simp [moves, hp, hp', hr.unsettled]
      have hledger := hr.ledger h.made h.small (fun a ha => h.args t a (by rwa [hp])) ?_ h.ledger
      · rw [hmoves]
        cases hset : settle id p' with
        | none =>
          rw [hset] at hledger
          exact hledger
        | some e =>
          rw [hset] at hledger
          exact hledger
      · rintro a retcode rfl hkill hret
        simp [overfills, hp, hkill, hret] at hno
        exact hno
  · exact args_step h.args hlen hs

theorem books (h : Run (code some prio) Initial tr s) (hno : ∀ x ∈ tr, overfills id x = false) {n l order : ℕ}
    (hmade : ∃ x ∈ tr, Creates id n l order x) : Books id n l tr s := by
  induction h with
  | start _ =>
    obtain ⟨x, hx, _⟩ := hmade
    cases hx
  | step hr hs ih =>
    obtain ⟨x, hx, hmade⟩ := hmade
    obtain rfl | hx := List.mem_cons.mp hx
    · exact books_made hr hs hmade
    · exact (ih (fun y hy => hno y (List.mem_cons_of_mem _ hy)) ⟨x, hx, hmade⟩).step hs
        (hno _ (List.mem_cons_self ..))

/-- The message moved by the call that holds `queue_lock`. -/
def inFlight (id : ι) (s : QueueState θ ι) : Option Event :=
  match s.owner (.queueLock id) with
  | some t => settle id (s.ctl t).point
  | none => none

/-- A message is moved under `queue_lock`. -/
theorem moves_claims {e : Event} (hs : Step (code some prio) t s s') (hpre : settle id (s.ctl t).point = none)
    (hpost : settle id (s'.ctl t).point = some e) :
    Claims (code some prio) held s t (.queueLock id) ∧ Claims (code some prio) held s' t (.queueLock id) := by
  obtain ⟨_, _, heq | hnext⟩ | ⟨p, p', hp, hp', hr, _⟩ := step_cases hs
  · rw [heq, hpre] at hpost
    cases hpost
  · obtain heq | ⟨hnone, _⟩ := next_settle hnext
    · rw [heq, hpre] at hpost
      cases hpost
    · rw [hnone] at hpost
      cases hpost
  · rw [hp', Ctl.point_awake] at hpost
    have hheld := settle_held hpost
    rw [claims_awake hp, claims_awake hp', ← hr.held_eq]
    exact ⟨hheld, hheld⟩

/-- A thread with a message to return is about to do so, or keeps it and the lock. -/
theorem settled_step {e : Event} (hs : Step (code some prio) t s s') (hp : s.ctl t = .awake p)
    (he : settle id p = some e) :
    (returns id ⟨s, t, s'⟩ = some e ∧ s'.owner (.queueLock id) = none) ∨
      (returns id ⟨s, t, s'⟩ = none ∧ settle id (s'.ctl t).point = some e ∧
        s'.owner (.queueLock id) = s.owner (.queueLock id)) := by
  have hd := hs.does hp
  cases p <;> first | cases he | skip
  case leave op j reply =>
    have hj : j = id := by simpa [held, eq_comm] using settle_held he
    subst hj
    simp only [code, Instr.Does] at hd
    refine .inl ⟨by simp [returns, hp, he], ?_⟩
    rw [hd]
    exact Function.update_self ..
  all_goals
    simp only [code, Instr.Does] at hd
    refine .inr ⟨by simp [returns, hp], ?_⟩
  case sendNotify a j =>
    rw [hd]
    exact ⟨by simpa [settle] using he, rfl⟩
  case spaceLock a j msg =>
    rw [hd.2]
    exact ⟨by simpa [settle] using he, by simp⟩
  case spaceNotify a j msg =>
    rw [hd]
    exact ⟨by simpa [settle] using he, rfl⟩
  case spaceUnlock a j msg =>
    rw [hd]
    exact ⟨by simpa [settle] using he, by simp⟩

/-- The messages moved are those that have been returned, and the one in flight. -/
theorem moved_returned (h : Run (code some prio) Initial tr s) (id : ι) :
    tr.filterMap (moves id) = (inFlight id s).toList ++ tr.filterMap (returns id) := by
  induction h with
  | @start s hs => simp [inFlight, hs.owner]
  | @step tr s t s' hr hs ih =>
    have htracked : (Lock.queueLock id).tracked := trivial
    have howner : ∀ {u}, Claims (code some prio) held s u (.queueLock id) → s.owner (.queueLock id) = some u :=
      fun hc => (owner_iff htracked hr).mpr hc
    have howner' : ∀ {u}, Claims (code some prio) held s' u (.queueLock id) → s'.owner (.queueLock id) = some u :=
      fun hc => (owner_iff htracked (hr.step hs)).mpr hc
    rw [List.filterMap_cons, List.filterMap_cons, ih]
    cases hpre : settle id (s.ctl t).point with
    | some e =>
      -- the message of the call is in flight before the step, and nothing else is
      have hmoves : moves id ⟨s, t, s'⟩ = none := by simp [moves, hpre]
      obtain ⟨p, hp⟩ : ∃ p, s.ctl t = .awake p := by
        cases hc : s.ctl t with
        | awake p => exact ⟨p, rfl⟩
        | asleep p n =>
          obtain ⟨c, m, timed, next, hi⟩ := hr.asleep (fun s t p n hs => by rw [hs.idle t]; exact nofun) hc
          rw [hc, Ctl.point_asleep] at hpre
          cases p <;> cases hi <;> cases hpre
      rw [hp, Ctl.point_awake] at hpre
      have hflight : inFlight id s = some e := by
        have hown := howner ((claims_awake hp).mpr (settle_held hpre))
        simp only [inFlight, hown, hp, Ctl.point_awake, hpre]
      obtain ⟨hret, hfree⟩ | ⟨hret, hpost, hsame⟩ := settled_step hs hp hpre
      · have hflight' : inFlight id s' = none := by simp only [inFlight, hfree]
        rw [hmoves, hret, hflight, hflight']
        rfl
      · have hflight' : inFlight id s' = some e := by
          rw [howner ((claims_awake hp).mpr (settle_held hpre))] at hsame
          simp only [inFlight, hsame, hpost]
        rw [hmoves, hret, hflight, hflight']
    | none =>
      have hret : returns id ⟨s, t, s'⟩ = none := by
        unfold returns
        split
        · rename_i hp
          have hp : s.ctl t = .awake _ := hp
          rwa [hp] at hpre
        · rfl
      cases hpost : settle id (s'.ctl t).point with
      | some e =>
        have hmoves : moves id ⟨s, t, s'⟩ = some e := by simp [moves, hpre, hpost]
        obtain ⟨hclaim, hclaim'⟩ := moves_claims hs hpre hpost
        have hflight : inFlight id s = none := by simp only [inFlight, howner hclaim, hpre]
        have hflight' : inFlight id s' = some e := by simp only [inFlight, howner' hclaim', hpost]
        rw [hmoves, hret, hflight, hflight']
        rfl
      | none =>
        have hmoves : moves id ⟨s, t, s'⟩ = none := by simp [moves, hpost]
        have hflight : inFlight id s' = inFlight id s := by
          obtain heq | ⟨hfree, hown⟩ | ⟨hclaim, hfree⟩ := (guarded htracked).owner_step hs
          · unfold inFlight
            rw [heq]
            split
            · rename_i u _
              by_cases hu : u = t
              · rw [hu, hpre, hpost]
              · rw [hs.ctl_other hu]
            · rfl
          · simp only [inFlight, hfree, hown, hpost]
          · simp only [inFlight, howner hclaim, hfree, hpre]
        rw [hmoves, hret, hflight]

/-- In a run in which no sender that has waited for space posts to a full queue, the queue
never holds more messages than it has elements, and whenever its lock is free, the
messages of the calls of `msgQSend` that have returned OK are those in the queue and those
that calls of `msgQReceive` have returned, each once. -/
theorem messages_accounted (h : Run (code some prio) Initial tr s) (hno : ∀ x ∈ tr, overfills id x = false)
    {n l order : ℕ} (hmade : ∃ x ∈ tr, Creates id n l order x) :
    (s.mem.queue id).msgCount ≤ n + 1 ∧
      (s.owner (.queueLock id) = none → ∃ msgs stored taken, Holds (s.mem.queue id) n l msgs ∧
        List.Forall₂ Carries (sentOk id tr) stored ∧ List.Forall₂ Gets (receivedOk id tr) taken ∧
        stored.Perm (msgs ++ taken)) := by
  obtain ⟨msgs, stored, taken, hholds, hsent, hreceived, hperm⟩ := (books h hno hmade).ledger
  refine ⟨?_, fun hfree => ⟨msgs, stored, taken, hholds, ?_, ?_, hperm⟩⟩
  · rw [hholds.count]
    exact_mod_cast hholds.room
  all_goals
    have hflight : inFlight id s = none := by simp only [inFlight, hfree]
    rw [moved_returned h id, hflight] at hsent hreceived
    assumption

end

/-- A task sends two messages and another receives the first. -/
def sendReceive : List (Fin 2 × Input (Choice ℕ)) :=
  makes 0 7 1 1 0 :: goesOn 0 3 ++ calls 0 (.send ⟨.bytes [5], noWait, 0⟩) 7 :: goesOn 0 7 ++
    calls 0 (.send ⟨.bytes [6], noWait, msgPriUrgent⟩) 7 :: goesOn 0 7 ++
    calls 1 (.receive ⟨true, 1, waitForever⟩) 7 :: goesOn 1 7

theorem sendReceive_accounted : ∃ (tr : List (QueueTransition (Fin 2) ℕ)) (s : QueueState (Fin 2) ℕ),
    sentOk 7 tr = [.bytes [6], .bytes [5]] ∧ receivedOk 7 tr = [(true, [6])] ∧
      (s.mem.queue 7).msgCount ≤ 2 ∧ ∃ msgs stored taken, Holds (s.mem.queue 7) 1 1 msgs ∧
        List.Forall₂ Carries (sentOk 7 tr) stored ∧ List.Forall₂ Gets (receivedOk 7 tr) taken ∧
        stored.Perm (msgs ++ taken) := by
  obtain ⟨tr, s, hr, hs⟩ := run_of_check (code some fun _ => 0) sendReceive (fun tr s =>
      (∀ x ∈ tr, overfills 7 x = false) ∧ (∃ x ∈ tr, Creates 7 1 1 0 x) ∧ s.owner (.queueLock 7) = none ∧
      sentOk 7 tr = [.bytes [6], .bytes [5]] ∧ receivedOk 7 tr = [(true, [6])])
    boot_initial (by decide)
  obtain ⟨hno, hmade, hfree, hsent, hreceived⟩ := of_decide_eq_true hs
  obtain ⟨hcount, hbooks⟩ := messages_accounted hr hno hmade
  exact ⟨tr, s, hsent, hreceived, hcount, hbooks hfree⟩

/-- A queue for one message is full. Task 1 waits for space, task 2 receives the message,
and task 1 finds the space. Before it has taken `queue_lock` again, task 0 sends a message
and an urgent one. -/
def lateSender : List (Fin 3 × Input (Choice ℕ)) :=
  makes 0 7 1 1 0 :: goesOn 0 3 ++ calls 0 (.send ⟨.bytes [5], noWait, 0⟩) 7 :: goesOn 0 7 ++
    calls 1 (.send ⟨.bytes [6], waitForever, 0⟩) 7 :: goesOn 1 6 ++
    calls 2 (.receive ⟨true, 1, noWait⟩) 7 :: goesOn 2 10 ++ goesOn 1 1 ++
    calls 0 (.send ⟨.bytes [7], noWait, 0⟩) 7 :: goesOn 0 7 ++
    calls 0 (.send ⟨.bytes [8], noWait, msgPriUrgent⟩) 7 :: goesOn 0 7 ++ goesOn 1 2

/-- Task 1 posts its message nevertheless: there are three messages in two elements. -/
theorem late_sender_overfills :
    ¬ ∀ (tr : List (QueueTransition (Fin 3) ℕ)) (s : QueueState (Fin 3) ℕ) (id n l order : ℕ),
      Run (code some fun _ => 0) Initial tr s → (∃ x ∈ tr, Creates id n l order x) →
      (s.mem.queue id).msgCount ≤ n + 1 := by
  intro hclaim
  obtain ⟨tr, s, hr, hs⟩ := run_of_check (code some fun _ => 0) lateSender (fun tr s =>
      (∃ x ∈ tr, Creates 7 1 1 0 x) ∧ (s.mem.queue 7).msgCount = 3)
    boot_initial (by decide)
  obtain ⟨hmade, hcount⟩ := of_decide_eq_true hs
  have := hclaim tr s 7 1 1 0 hr hmade
  rw [hcount] at this
  cases this

end V2lin.Queue
