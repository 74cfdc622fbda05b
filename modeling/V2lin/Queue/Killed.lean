import V2lin.Queue.Wakeups

/-! What `msgQDelete` owes the tasks that are pended on its queue.

The mark in `send_type` is to stay until the queue is freed: whoever is pended finds it when
he wakes, and no message comes in any more. But the same field is written by every send, and
`msgQDelete` waits for the pended tasks with `queue_lock` released and the queue still on
`mqueue_list`. As long as no send gets through, the mark stays and everybody who was pended
leaves with the error. -/
namespace V2lin.Queue
open Threads V2lin.Task

section
variable {θ ι : Type}

/-! ### Points -/

section
variable [DecidableEq ι]

/-- A deletion that has marked its queue. -/
def deleting (id : ι) : Pc ι → Bool
  | .deleteTaskLock j | .deleteTest j | .deleteQueueUnlock j | .deleteQdletLock j | .deleteNotify j => j = id
  | .deleteQueueRelease j | .deleteQfullLock j | .deleteSpaceNotify j | .deleteQfullUnlock j => j = id
  | .deleteDrain j | .deleteWait j | .deleteQdletUnlock j | .deleteListLock j | .deleteUnlink j => j = id
  | .deleteListUnlock j | .deleteFree j | .deleteTaskUnlock j => j = id
  | _ => false

/-- A deletion that has still to call the tasks on a list of its queue. -/
def rouses (side : Side) (id : ι) : Pc ι → Bool
  | .deleteTaskLock j | .deleteTest j | .deleteQdletLock j | .deleteNotify j => j = id
  | .deleteQueueRelease j | .deleteQfullLock j | .deleteSpaceNotify j => side = .senders ∧ j = id
  | _ => false

/-- A deletion that has not seen its queue's lists empty. -/
def attends (id : ι) : Pc ι → Bool
  | .deleteTaskLock j | .deleteTest j | .deleteQdletLock j | .deleteNotify j | .deleteQueueRelease j => j = id
  | .deleteQfullLock j | .deleteSpaceNotify j | .deleteQfullUnlock j | .deleteDrain j | .deleteWait j => j = id
  | _ => false

/-- A call that leaves a killed queue, or has returned from it, with the error. -/
def refused (id : ι) : Pc ι → Bool
  | .lastLock _ j | .lastNotify _ j | .lastUnlock _ j => j = id
  | .leave _ j reply | .returned _ j reply => j = id ∧ reply = .failed .objDeleted
  | _ => false

end

/-! ### The law -/

/-- The step in which `msgQDelete` marks a queue. -/
def Marks (id : ι) (x : QueueTransition θ ι) : Prop := x.pre.ctl x.thread = .awake (.deleteMark id)

/-- A task makes its next call. -/
def NextCall (u : θ) (x : QueueTransition θ ι) : Prop := x.thread = u ∧ (x.pre.ctl u).point.resting = true

/-- The condition variable that the tasks on a list sleep on. -/
def Side.cond (side : Side) (id : ι) : Cond ι :=
  match side with
  | .receivers => .queueSend id
  | .senders => .queueSpace id

/-- A `msgQSend` that finds its queue killed and is about to add a message to it. -/
def Accepts (id : ι) (x : QueueTransition θ ι) : Prop :=
  ∃ a, x.pre.ctl x.thread = .awake (.sendStart a id) ∧ a.msg.msglen ≤ (x.pre.mem.queue id).msgLen ∧
    (x.pre.mem.queue id).admission a.pri ≠ .full

variable [DecidableEq θ] [DecidableEq ι]
variable {prio : θ → ℤ} {t u : θ} {p p' : Pc ι} {id : ι} {side : Side} {m m' : Mem θ ι}
variable {s s' : QueueState θ ι} {tr : List (QueueTransition θ ι)}

/-! ### The mark -/

omit [DecidableEq θ] [DecidableEq ι] in
theorem deletedPoint_ne_sendNotify (op : Op) (id j : ι) (last : Bool) (a : SendArgs) :
    deletedPoint op j last ≠ .sendNotify a id := by
  cases last <;> (rintro ⟨⟩)

/-- A block goes to the broadcast of a send from the send itself, or from a wait that has not
found its queue killed. -/
theorem Runs.to_sendNotify (h : Runs some prio t p m m' p') {a : SendArgs} (hp' : p' = .sendNotify a id) :
    (m'.queue id).sendType ≠ .killd ∧ ((m.queue id).sendType ≠ .killd ∨ p = .sendStart a id ∧
      a.msg.msglen ≤ (m.queue id).msgLen ∧ (m.queue id).admission a.pri ≠ .full) := by
  cases h with
  | sentTail hlen hadm =>
    cases hp'
    rw [Mem.setQueue_self, hadm]
    exact ⟨by rintro ⟨⟩, .inr ⟨rfl, hlen, by rintro ⟨⟩⟩⟩
  | sentFront hlen hadm =>
    cases hp'
    rw [Mem.setQueue_self, hadm]
    exact ⟨by rintro ⟨⟩, .inr ⟨rfl, hlen, by rintro ⟨⟩⟩⟩
  | sentLate halive =>
    cases hp'
    rw [Mem.setQueue_self]
    unfold V2ptMqueue.post
    split <;> exact ⟨by rintro ⟨⟩, .inl halive⟩
  | sendDeleted => exact absurd hp' (deletedPoint_ne_sendNotify _ _ _ _ _)
  | receiveDeleted => exact absurd hp' (deletedPoint_ne_sendNotify _ _ _ _ _)
  | pended => split at hp' <;> cases hp'
  | fetched =>
    unfold receivedPoint at hp'
    split at hp' <;> cases hp'
  | _ => cases hp'

theorem Runs.to_deleteTaskLock (h : Runs some prio t p m m' p') (hp' : p' = .deleteTaskLock id) :
    m'.queue id = {m.queue id with sendType := .killd} := by
  cases h with
  | deleteMarked j =>
    cases hp'
    exact Mem.setQueue_self ..
  | @sendDeleted m q => cases hq : q.drained <;> rw [hq] at hp' <;> cases hp'
  | @receiveDeleted p m q => cases hq : q.drained <;> rw [hq] at hp' <;> cases hp'
  | pended => split at hp' <;> cases hp'
  | fetched =>
    unfold receivedPoint at hp'
    split at hp' <;> cases hp'
  | _ => cases hp'

/-- A killed queue stays killed and gets no message, but for a send. -/
theorem Runs.killed (h : Runs some prio t p m m' p') (hb : m.block id ≠ .fresh) (hk : (m.queue id).sendType = .killd)
    (hno : ∀ a, p = .sendStart a id → a.msg.msglen ≤ (m.queue id).msgLen → (m.queue id).admission a.pri = .full) :
    (m'.queue id).sendType = .killd ∧ (m'.queue id).msgCount ≤ (m.queue id).msgCount := by
  obtain ⟨hcount, htype⟩ | ⟨a, hp'⟩ | hp' := h.announces hb
  · exact ⟨htype.trans hk, hcount⟩
  · obtain ⟨_, halive | ⟨rfl, hlen, hadm⟩⟩ := h.to_sendNotify hp'
    · exact absurd hk halive
    · exact absurd (hno a rfl hlen) hadm
  · rw [h.to_deleteTaskLock hp']
    exact ⟨rfl, Int.le_refl _⟩

theorem killed_step (hs : Step (code some prio) t s s') (hb : s.mem.block id ≠ .fresh)
    (hk : (s.mem.queue id).sendType = .killd) (hno : ¬ Accepts id ⟨s, t, s'⟩) :
    (s'.mem.queue id).sendType = .killd ∧ (s'.mem.queue id).msgCount ≤ (s.mem.queue id).msgCount := by
  obtain ⟨hm, _⟩ | ⟨p, p', hp, _, hr, _⟩ := step_cases hs
  · rw [hm]
    exact ⟨hk, Int.le_refl _⟩
  · refine hr.killed hb hk fun a hpa hlen => ?_
    by_contra hadm
    exact hno ⟨a, by rw [← hpa]; exact hp, hlen, hadm⟩

/-! ### Those who were pended -/

/-- Whoever is pended on a killed queue stays, or leaves with the error. -/
theorem Runs.of_pended_killed (h : Runs some prio t p m m' p') (hp : pendsOn side p = some id)
    (hk : (m.queue id).sendType = .killd) : pendsOn side p' = some id ∨ refused id p' = true := by
  have hdeleted : ∀ op j last, j = id → refused id (deletedPoint op j last) = true := by
    rintro op j last rfl
    cases last <;> simp [deletedPoint, refused]
  cases h with
  | called _ _ hrest => rw [pended_resting hrest] at hp; cases hp
  | created _ _ _ _ hrest => rw [pended_resting hrest] at hp; cases hp
  | spaceOver hpoint => exact .inl (by rw [← hp, hpoint.pended]; rfl)
  | spaceTimedOut hpoint => exact .inl (by rw [← hp, hpoint.pended]; rfl)
  | spaceSleeps hpoint => exact .inl (by rw [← hp, hpoint.pended]; rfl)
  | spacePolls hpoint => exact .inl (by rw [← hp, hpoint.pended]; rfl)
  | receiveSleeps hpoint => exact .inl (by rw [← hp, hpoint.pended]; rfl)
  | receivePolls hpoint => exact .inl (by rw [← hp, hpoint.pended]; rfl)
  | sendDeleted =>
    cases side <;> cases hp
    exact .inr (hdeleted _ _ _ rfl)
  | receiveDeleted hpoint =>
    rw [hpoint.pended] at hp
    cases side <;> cases hp
    exact .inr (hdeleted _ _ _ rfl)
  | sendTimedOut halive =>
    cases side <;> cases hp
    exact absurd hk halive
  | sentLate halive =>
    cases side <;> cases hp
    exact absurd hk halive
  | receiveTimedOut hpoint halive =>
    rw [hpoint.pended] at hp
    cases side <;> cases hp
    exact absurd hk halive
  | fetched hpoint halive =>
    rw [hpoint.pended] at hp
    cases side <;> cases hp
    exact absurd hk halive
  | _ => cases side <;> cases hp

theorem next_refused (h : (code some prio t p).Next p') (hp : refused id p = true) : refused id p' = true := by
  cases p
  case lastUnlock op j =>
    cases h
    simpa [refused] using hp
  case leave op j reply =>
    cases h
    exact hp
  all_goals first
    | cases hp
    | exact False.elim h
    | (cases h; exact hp)

theorem Runs.of_refused (h : Runs some prio t p m m' p') (hp : refused id p = true) : p.resting = true := by
  cases h with
  | called _ _ hrest => exact hrest
  | created _ _ _ _ hrest => exact hrest
  | spaceOver hpoint => cases hpoint <;> cases hp
  | spaceTimedOut hpoint => cases hpoint <;> cases hp
  | spaceSleeps hpoint => cases hpoint <;> cases hp
  | spacePolls hpoint => cases hpoint <;> cases hp
  | receiveDeleted hpoint => cases hpoint <;> cases hp
  | receiveTimedOut hpoint => cases hpoint <;> cases hp
  | fetched hpoint => cases hpoint <;> cases hp
  | receiveSleeps hpoint => cases hpoint <;> cases hp
  | receivePolls hpoint => cases hpoint <;> cases hp
  | _ => cases hp

/-- A task that was pended when its queue was killed is still, or leaves with the error, or
has got it. -/
def Answered (side : Side) (id : ι) (u : θ) (s : QueueState θ ι) : Prop :=
  pendsOn side (s.ctl u).point = some id ∨ refused id (s.ctl u).point = true

theorem pended_step (hu : pendsOn side (s.ctl u).point = some id) (hs : Step (code some prio) t s s')
    (hk : (s.mem.queue id).sendType = .killd) : Answered side id u s' := by
  by_cases hut : u = t
  · subst hut
    obtain ⟨_, _, heq | hnext⟩ | ⟨p, p', hp, hp', hr, _⟩ := step_cases hs
    · exact .inl (by rw [heq, hu])
    · exact .inl ((next_pended hnext).trans hu)
    · rw [hp, Ctl.point_awake] at hu
      unfold Answered
      rw [hp', Ctl.point_awake]
      exact hr.of_pended_killed hu hk
  · exact .inl (by rw [hs.ctl_other hut, hu])

/-- Whoever leaves with the error keeps it until his next call. -/
theorem refused_step (hu : refused id (s.ctl u).point = true) (hs : Step (code some prio) t s s')
    (hno : ¬ NextCall u ⟨s, t, s'⟩) : refused id (s'.ctl u).point = true := by
  by_cases hut : u = t
  · subst hut
    obtain ⟨_, _, heq | hnext⟩ | ⟨p, p', hp, hp', hr, _⟩ := step_cases hs
    · rwa [heq]
    · exact next_refused hnext hu
    · rw [hp, Ctl.point_awake] at hu
      refine absurd ⟨rfl, ?_⟩ hno
      show (s.ctl u).point.resting = true
      rw [hp]
      exact hr.of_refused hu
  · rwa [hs.ctl_other hut]

omit [DecidableEq θ] in
theorem refused_not_pended (h : refused id p = true) : pendsOn side p = none := by
  cases p <;> first | rfl | cases h

end

end V2lin.Queue
