import V2lin.Queue.Discipline
import V2lin.Queue.Killed
import V2lin.Threads.Progress

/-! How a killed queue's lists drain.

The deletion calls the pended tasks once: the receivers under `queue_lock`, then the senders
under `qfull_lock`. Nobody who is still on a list may go to sleep after his call, and nobody
may keep a mutex that those on the lists need: a sender comes back from its wait with
`qfull_lock` and does not give it back, a receiver takes it under `queue_lock`, and a second
deletion waits for the scheduler under `queue_lock`. If none of this happens, whoever is
still pended is not stuck, and the deletion waits for him. -/
namespace V2lin.Queue
open Threads V2lin.Task

section
variable {θ ι : Type}

/-! ### Points -/

section
variable [DecidableEq ι]

/-- A sender that needs `qfull_lock` to go on: asleep for space, or after a poll. -/
def needsSpaceLock (id : ι) : Ctl (Pc ι) → Bool
  | .asleep (.waitSleep _ j) _ | .awake (.waitPollLock _ j _) => j = id
  | _ => false

/-- A receiver that is about to take `qfull_lock`. -/
def asksForSpaceLock (id : ι) : Pc ι → Bool
  | .readyLock _ j | .spaceLock _ j _ => j = id
  | _ => false

/-- Where a thread may have taken `qfull_lock`, until its call is over. -/
def mayHaveSpaceLock (id : ι) : Pc ι → Bool
  | .waitTest _ j _ | .waitSleep _ j | .waitPoll _ j _ | .waitAgain _ j _ | .waitRelock _ j _ | .waitEnd _ j _ => j = id
  | .sendNotify _ j | .lastLock _ j | .lastNotify _ j | .lastUnlock _ j | .leave _ j _ => j = id
  | .readyNotify _ j | .readyUnlock _ j | .spaceNotify _ j _ | .spaceUnlock _ j _ => j = id
  | .deleteSpaceNotify j | .deleteQfullUnlock j => j = id
  | _ => false

end

/-! ### The law -/

/-- A call that comes to `waiting_on_q_msg` on a queue without space for messages, on which
senders are pended, and is about to call them. -/
def Asks (id : ι) (x : QueueTransition θ ι) : Prop :=
  ∃ a, x.pre.ctl x.thread = .awake (.receiveStart a id) ∧ ¬ a.buflen < (x.pre.mem.queue id).msgLen ∧
    (x.pre.mem.queue id).msgsPerQueue = 0 ∧ (x.pre.mem.queue id).firstWriteSusp ≠ []

/-- A receiver goes from a poll back to sleep. -/
def FallsBack (id : ι) (x : QueueTransition θ ι) : Prop :=
  ∃ a retcode, x.pre.ctl x.thread = .awake (.receiveAgain a id retcode) ∧ x.post.ctl x.thread = .awake (.receiveSleep a id)

variable [DecidableEq θ] [DecidableEq ι]

/-- A call ends with `qfull_lock` left locked. -/
def LeavesLocked (id : ι) (x : QueueTransition θ ι) : Prop :=
  (∃ op reply, x.pre.ctl x.thread = .awake (.leave op id reply)) ∧ x.pre.owner (.qfullLock id) = some x.thread

/-- The deletions of a queue are not interfered with: while it is killed no send gets
through, nobody goes to sleep uncalled and no receiver asks for `qfull_lock`; nobody goes
away with `qfull_lock` while others need it; and there is one deletion at a time. -/
structure Heeded (id : ι) (x : QueueTransition θ ι) : Prop where
  accepts : (x.pre.mem.queue id).sendType = .killd → ¬ Accepts id x
  fallsBack : (x.pre.mem.queue id).sendType = .killd → ¬ FallsBack id x
  sleeps : (x.pre.mem.queue id).sendType = .killd → sleepsForSpace id x = true →
    ∃ v, rouses .senders id (x.pre.ctl v).point = true
  asks : (x.pre.mem.queue id).sendType = .killd → ¬ Asks id x
  leaves : LeavesLocked id x → ∀ v, needsSpaceLock id (x.pre.ctl v) = false
  alone : Marks id x → ∀ v, deleting id (x.pre.ctl v).point = false

/-- A call at work. -/
def Pc.busy (p : Pc ι) : Bool := !p.resting

/-- What the deletion that marks the queue in step `x` owes in the state `s` after the later
steps. A task that was pended when it ran has got the error or is still pended; then the
deletion waits for it, and it is not stuck, or the deletion is not that is about to call it. -/
structure Kills (prio : θ → ℤ) (id : ι) (x : QueueTransition θ ι) (later : List (QueueTransition θ ι))
    (s : QueueState θ ι) : Prop where
  stays : (s.mem.queue id).sendType = .killd
  refuses : ∀ y ∈ later, (y.post.mem.queue id).msgCount ≤ (y.pre.mem.queue id).msgCount
  serves : ∀ side, ∀ u ∈ (x.pre.mem.queue id).list side, (∀ y ∈ later, ¬ NextCall u y) → Answered side id u s
  drains : ∀ side, ∀ u ∈ (x.pre.mem.queue id).list side, (∀ y ∈ later, ¬ NextCall u y) →
    pendsOn side (s.ctl u).point = some id → attends id (s.ctl x.thread).point = true ∧
      (s.ctl x.thread = .awake (.deleteTaskLock id) ∨ Proceeds (code some prio) Pc.busy s u ∨
        rouses side id (s.ctl x.thread).point = true ∧ Proceeds (code some prio) Pc.busy s x.thread)

variable {prio : θ → ℤ} {t u v : θ} {p p' : Pc ι} {id : ι} {side : Side} {m m' : Mem θ ι}
variable {s s' : QueueState θ ι} {tr : List (QueueTransition θ ι)}

/-! ### One deletion -/

theorem next_of_deleting (h : (code some prio t p).Next p') (hp : deleting id p' = true) : deleting id p = true := by
  cases p
  case findUnlock op j found =>
    cases h
    cases found
    · cases hp
    · cases op <;> cases hp
  all_goals first
    | exact False.elim h
    | (cases h; exact hp)
    | (cases h; cases hp)
    | (obtain ⟨r, rfl⟩ := h; exact hp)

theorem Runs.of_deleting (h : Runs some prio t p m m' p') (hp : deleting id p' = true) :
    deleting id p = true ∨ p = .deleteMark id := by
  cases h with
  | deleteMarked j => exact .inr (by rw [of_decide_eq_true hp])
  | @sendDeleted m q => cases hq : q.drained <;> rw [hq] at hp <;> cases hp
  | @receiveDeleted p m q => cases hq : q.drained <;> rw [hq] at hp <;> cases hp
  | pended => split at hp <;> cases hp
  | fetched =>
    unfold receivedPoint at hp
    split at hp <;> cases hp
  | _ => first
    | cases hp
    | exact .inl hp

/-- There is one deletion at a time. -/
theorem deleting_unique (h : Run (code some prio) Initial tr s) (hok : ∀ x ∈ tr, Heeded id x)
    (hu : deleting id (s.ctl u).point = true) (hv : deleting id (s.ctl v).point = true) : u = v := by
  refine h.invariant (Heeded id)
    (fun s => ∀ u v, deleting id (s.ctl u).point = true → deleting id (s.ctl v).point = true → u = v) ?_ ?_ hok u v hu hv
  · intro s hs u v hu
    rw [hs.idle u] at hu
    cases hu
  · intro t s s' ih hs hok u v hu hv
    -- whoever deletes after the step did so before, or has just marked the queue while nobody did
    have hcases : ∀ w, deleting id (s'.ctl w).point = true →
        deleting id (s.ctl w).point = true ∨ w = t ∧ ∀ x, deleting id (s.ctl x).point = false := by
      intro w hw
      by_cases hwt : w = t
      · subst hwt
        obtain ⟨_, _, heq | hnext⟩ | ⟨p, p', hp, hp', hr, _⟩ := step_cases hs
        · exact .inl (heq ▸ hw)
        · exact .inl (next_of_deleting hnext hw)
        · rw [hp', Ctl.point_awake] at hw
          obtain hbefore | rfl := hr.of_deleting hw
          · exact .inl (by rwa [hp])
          · exact .inr ⟨rfl, hok.alone hp⟩
      · exact .inl (hs.ctl_other hwt ▸ hw)
    obtain hu | ⟨rfl, hnone⟩ := hcases u hu
    · obtain hv | ⟨_, hnone⟩ := hcases v hv
      · exact ih u v hu hv
      · rw [hnone u] at hu
        cases hu
    · obtain hv | ⟨rfl, _⟩ := hcases v hv
      · rw [hnone v] at hv
        cases hv
      · rfl

/-! ### The deletion waits -/

omit [DecidableEq θ] in
theorem deleting_of_attends (h : attends id p = true) : deleting id p = true := by
  cases p <;> first | exact h | cases h

omit [DecidableEq θ] in
theorem deleting_of_rouses (h : rouses side id p = true) : deleting id p = true := by
  cases p <;> first | exact h | (simp [rouses] at h; simp [deleting, h]) | cases h

theorem next_attends (h : (code some prio t p).Next p') (hp : attends id p = true) : attends id p' = true := by
  cases p <;> first
    | cases hp
    | exact False.elim h
    | (cases h; exact hp)
    | (obtain ⟨r, rfl⟩ := h; exact hp)

theorem Runs.attends (h : Runs some prio t p m m' p') (hp : attends id p = true)
    (hlist : (m.queue id).drained = false) : attends id p' = true := by
  cases h with
  | called _ _ hrest => cases p <;> first | cases hp | cases hrest
  | created _ _ _ _ hrest => cases p <;> first | cases hp | cases hrest
  | spaceOver hpoint => cases hpoint <;> cases hp
  | spaceTimedOut hpoint => cases hpoint <;> cases hp
  | spaceSleeps hpoint => cases hpoint <;> cases hp
  | spacePolls hpoint => cases hpoint <;> cases hp
  | receiveDeleted hpoint => cases hpoint <;> cases hp
  | receiveTimedOut hpoint => cases hpoint <;> cases hp
  | fetched hpoint => cases hpoint <;> cases hp
  | receiveSleeps hpoint => cases hpoint <;> cases hp
  | receivePolls hpoint => cases hpoint <;> cases hp
  | deleteNobody hdrained =>
    rw [of_decide_eq_true hp, hlist] at hdrained
    cases hdrained
  | deleteDrained hdrained =>
    rw [of_decide_eq_true hp, hlist] at hdrained
    cases hdrained
  | deleteTaskLocked => exact hp
  | deleteSome => exact hp
  | deleteUndrained => exact hp
  | _ => cases hp

omit [DecidableEq θ] [DecidableEq ι] in
theorem V2ptMqueue.not_drained {q : V2ptMqueue θ} (hu : u ∈ q.list side) : q.drained = false := by
  rw [Bool.eq_false_iff]
  intro h
  obtain ⟨hreceivers, hsenders⟩ := of_decide_eq_true h
  cases side
  · exact List.ne_nil_of_mem hu hreceivers
  · exact List.ne_nil_of_mem hu hsenders

/-- As long as somebody is on a list the deletion waits. -/
theorem attends_step (hs : Step (code some prio) t s s') (hv : attends id (s.ctl v).point = true)
    (hlist : (s.mem.queue id).drained = false) : attends id (s'.ctl v).point = true := by
  by_cases hvt : v = t
  · subst hvt
    obtain ⟨_, _, heq | hnext⟩ | ⟨p, p', hp, hp', hr, _⟩ := step_cases hs
    · rwa [heq]
    · exact next_attends hnext hv
    · rw [hp, Ctl.point_awake] at hv
      rw [hp', Ctl.point_awake]
      exact hr.attends hv hlist
  · rwa [hs.ctl_other hvt]

/-- A deletion on its way to a call stays on it, as long as somebody is on a list. -/
theorem rouses_step (hs : Step (code some prio) t s s') (hv : rouses side id (s.ctl v).point = true)
    (hsame : s'.signals (side.cond id) = s.signals (side.cond id)) (hlist : (s.mem.queue id).drained = false) :
    rouses side id (s'.ctl v).point = true := by
  by_cases hvt : v = t
  · subst hvt
    cases hp : s.ctl v with
    | awake p =>
      rw [hp, Ctl.point_awake] at hv
      have hd := hs.does hp
      cases p <;> simp only [rouses, decide_eq_true_eq, reduceCtorEq] at hv
      case deleteTaskLock j =>
        obtain ⟨c, m', p', hb, rfl⟩ := hd
        obtain ⟨k, _, heq⟩ := Option.map_eq_some_iff.mp hb
        cases heq
        simp [rouses, hv]
      case deleteTest j =>
        obtain ⟨c, m', p', hb, rfl⟩ := hd
        subst hv
        cases hb
        simp [rouses, hlist]
      case deleteQdletLock j =>
        obtain ⟨_, rfl⟩ := hd
        simp [rouses, hv]
      case deleteNotify j =>
        cases side with
        | receivers => exact absurd hsame (hs.signals_ne hp (by rw [← hv]; rfl))
        | senders =>
          obtain rfl := hd
          simp [rouses, hv]
      case deleteQueueRelease j =>
        obtain rfl := hd
        simp [rouses, hv]
      case deleteQfullLock j =>
        obtain ⟨_, rfl⟩ := hd
        simp [rouses, hv]
      case deleteSpaceNotify j =>
        obtain ⟨rfl, rfl⟩ := hv
        exact absurd hsame (hs.signals_ne hp rfl)
    | asleep p n =>
      rw [hp, Ctl.point_asleep] at hv
      have hw := hs.wakes hp
      cases p <;> first | cases hv | exact False.elim hw
  · rwa [hs.ctl_other hvt]

/-! ### Who sleeps uncalled -/

theorem sleeper_listed (h : Linked s) (ht : Unreached (code some prio) (side.cond id) s t) :
    s.mem.block id ≠ .fresh ∧ t ∈ (s.mem.queue id).list side := by
  cases side with
  | receivers => exact sleeper_pends h ht
  | senders => exact space_sleeper_pends h ht

/-- A queue becomes killed by the mark of a deletion. -/
theorem Runs.to_killed (h : Runs some prio t p m m' p') (hb : m.block id ≠ .fresh)
    (halive : (m.queue id).sendType ≠ .killd) (hk : (m'.queue id).sendType = .killd) : p' = .deleteTaskLock id := by
  obtain ⟨_, htype⟩ | ⟨a, hp'⟩ | hp' := h.announces hb
  · exact absurd (htype.symm.trans hk) halive
  · exact absurd hk (h.to_sendNotify hp').1
  · exact hp'

/-- A receiver that is about to sleep has not found its queue killed. -/
theorem receiver_alive (h : Run (code some prio) Initial tr s) (hok : ∀ x ∈ tr, Heeded id x) {a : ReceiveArgs}
    (hp : s.ctl t = .awake (.receiveSleep a id)) : (s.mem.queue id).sendType ≠ .killd := by
  induction h with
  | start hi =>
    rw [hi.idle t] at hp
    cases hp
  | @step tr s u s' hr hs ih =>
    by_cases hu : t = u
    · subst hu
      obtain ⟨_, hnext⟩ | ⟨q, block, c, hq, hi, hb, _⟩ := hs.awake_cases hp
      · exact absurd rfl (next_not_receiveSleep hnext)
      · obtain ⟨hm, retcode, ⟨_, hquiet⟩ | rfl⟩ := (block_runs hi hb).to_receiveSleep rfl
        · rw [hm]
          exact hquiet.2
        · rw [hm]
          exact fun hk => (hok _ (List.mem_cons_self ..)).fallsBack hk ⟨a, retcode, hq, hp⟩
    · have hp₀ : s.ctl t = .awake (.receiveSleep a id) := by rw [← hs.ctl_other hu, hp]
      rw [queue_still hr hs hp₀ (List.mem_singleton_self _) hu]
      exact ih (fun x hx => hok x (List.mem_cons_of_mem _ hx)) hp₀

/-- Whoever sleeps uncalled on a killed queue will be called: the deletion is on its way. -/
theorem rouser (h : Run (code some prio) Initial tr s) (hok : ∀ x ∈ tr, Heeded id x)
    (hk : (s.mem.queue id).sendType = .killd) (ht : Unreached (code some prio) (side.cond id) s t) :
    ∃ v, rouses side id (s.ctl v).point = true := by
  induction h with
  | start hi =>
    obtain ⟨p, _, _, _, hp, _⟩ := ht
    exact absurd hp (initial_awake _ t p _ hi)
  | @step tr s u s' hr hs ih =>
    have hok' := fun x hx => hok x (List.mem_cons_of_mem _ hx)
    have hlast := hok _ (List.mem_cons_self ..)
    obtain ⟨hne, hbefore, hsame⟩ | ⟨rfl, hm, p, m, timed, next, hp, hi⟩ := ht.of_step hr initial_awake hs
    · obtain ⟨hb, hin⟩ := sleeper_listed (linked hr) hbefore
      by_cases hkilled : (s.mem.queue id).sendType = .killd
      · obtain ⟨v, hv⟩ := ih hok' hkilled hbefore
        exact ⟨v, rouses_step hs hv hsame (V2ptMqueue.not_drained hin)⟩
      · obtain ⟨hm, _⟩ | ⟨p, p', _, hp', hruns, _⟩ := step_cases hs
        · exact absurd (hm ▸ hk) hkilled
        · obtain rfl := hruns.to_killed hb hkilled hk
          exact ⟨u, by rw [hp']; exact decide_eq_true rfl⟩
    · rw [hm] at hk
      obtain ⟨q, m', timed', next', hasleep, _⟩ := ht
      cases side with
      | receivers =>
        cases p <;> simp only [Side.cond, code, reduceCtorEq, Instr.wait.injEq, Cond.queueSend.injEq, false_and] at hi
        case receiveSleep a j =>
          obtain ⟨rfl, _⟩ := hi
          exact absurd hk (receiver_alive hr hok' hp)
      | senders =>
        cases p <;> simp only [Side.cond, code, reduceCtorEq, Instr.wait.injEq, Cond.queueSpace.injEq, false_and] at hi
        case waitSleep a j =>
          obtain ⟨rfl, _⟩ := hi
          obtain ⟨v, hv⟩ := hlast.sleeps hk (by simp [sleepsForSpace, hp, hasleep])
          refine ⟨v, ?_⟩
          by_cases hvt : v = t
          · have hv : rouses .senders j (s.ctl v).point = true := hv
            rw [hvt, hp] at hv
            cases hv
          · rwa [hs.ctl_other hvt]

/-! ### Who has `qfull_lock` -/

/-- Whoever has `qfull_lock` while a sender needs it is at work under it. -/
def SpaceLocked (id : ι) (s : QueueState θ ι) : Prop :=
  ∀ u v, needsSpaceLock id (s.ctl u) = true → s.owner (.qfullLock id) = some v →
    ∃ p, s.ctl v = .awake p ∧ mayHaveSpaceLock id p = true

theorem next_waitPollLock {a : SendArgs} {retcode : Retcode}
    (h : (code some prio t p).Next (.waitPollLock a id retcode)) : p = .waitPoll a id retcode := by
  cases p
  case findUnlock op j found =>
    cases found
    · cases h
    · cases op <;> cases h
  all_goals first
    | exact False.elim h
    | (cases h; done)
    | (cases h; rfl)
    | (obtain ⟨r, h⟩ := h; cases h)

/-- Whoever comes to need `qfull_lock` has just given it up. -/
theorem needs_frees (hs : Step (code some prio) t s s') (hn : needsSpaceLock id (s'.ctl t) = true) :
    s'.owner (.qfullLock id) = none := by
  cases hc : s'.ctl t with
  | asleep p n =>
    rw [hc] at hn
    obtain ⟨c, lock, timed, next, hi, _, rfl⟩ := hs.falls_asleep hc
    cases p <;> first | cases hn | skip
    case waitSleep a j =>
      cases hi
      rw [of_decide_eq_true hn]
      exact Function.update_self ..
  | awake p =>
    rw [hc] at hn
    cases p <;> first | cases hn | skip
    case waitPollLock a j retcode =>
      obtain rfl : j = id := of_decide_eq_true hn
      obtain ⟨_, hnext⟩ | ⟨q, block, c, _, hi, hb, _⟩ := hs.awake_cases hc
      · cases hq : s.ctl t with
        | awake q =>
          rw [hq, Ctl.point_awake] at hnext
          obtain rfl := next_waitPollLock hnext
          obtain rfl := hs.does hq
          exact Function.update_self ..
        | asleep q n =>
          rw [hq, Ctl.point_asleep] at hnext
          obtain rfl := next_waitPollLock hnext
          exact False.elim (hs.wakes hq)
      · have hout := (block_runs hi hb).not_inside
        cases hout

theorem Runs.mayHaveSpaceLock (h : Runs some prio t p m m' p') (hp : mayHaveSpaceLock id p = true) :
    mayHaveSpaceLock id p' = true := by
  cases h with
  | called _ _ hrest => cases p <;> first | cases hp | cases hrest
  | created _ _ _ _ hrest => cases p <;> first | cases hp | cases hrest
  | spaceOver hpoint => cases hpoint <;> exact hp
  | spaceTimedOut hpoint => cases hpoint <;> exact hp
  | spaceSleeps hpoint => cases hpoint <;> exact hp
  | spacePolls hpoint => cases hpoint <;> exact hp
  | @sendDeleted m q => cases hq : q.drained <;> exact hp
  | sendTimedOut => exact hp
  | sentLate => exact hp
  | receiveDeleted hpoint => cases hpoint <;> cases hp
  | receiveTimedOut hpoint => cases hpoint <;> cases hp
  | fetched hpoint => cases hpoint <;> cases hp
  | receiveSleeps hpoint => cases hpoint <;> cases hp
  | receivePolls hpoint => cases hpoint <;> cases hp
  | _ => cases hp

/-- Whoever keeps `qfull_lock` goes on with his call. -/
theorem keeps_spaceLock (hs : Step (code some prio) t s s') (hp : s.ctl t = .awake p)
    (hmay : mayHaveSpaceLock id p = true) (hown : s.owner (.qfullLock id) = some t)
    (hown' : s'.owner (.qfullLock id) = some t) (hno : ¬ LeavesLocked id ⟨s, t, s'⟩) :
    ∃ p', s'.ctl t = .awake p' ∧ mayHaveSpaceLock id p' = true := by
  obtain ⟨_, hrun, _⟩ | ⟨q, q', hq, hq', hr, _⟩ := step_cases hs
  · rw [hp, Ctl.point_awake] at hrun
    have hd := hs.does hp
    cases p
    case waitSleep a j =>
      obtain rfl : j = id := of_decide_eq_true hmay
      obtain rfl | ⟨_, rfl⟩ := hd
      · simp at hown'
      · exact ⟨_, Function.update_self .., hmay⟩
    case leave op j reply =>
      obtain rfl : j = id := of_decide_eq_true hmay
      exact absurd ⟨⟨op, reply, hp⟩, hown⟩ hno
    case waitRelock =>
      obtain ⟨_, rfl⟩ := hd
      exact ⟨_, Function.update_self .., hmay⟩
    case lastLock =>
      obtain ⟨_, rfl⟩ := hd
      exact ⟨_, Function.update_self .., hmay⟩
    all_goals first
      | cases hmay
      | exact absurd rfl (hrun _)
      | (obtain rfl := hd; exact ⟨_, Function.update_self .., hmay⟩)
      | (obtain rfl := of_decide_eq_true hmay; obtain rfl := hd; simp at hown')
  · rw [hp] at hq
    cases hq
    exact ⟨q', hq', hr.mayHaveSpaceLock hmay⟩

theorem takes_spaceLock (hs : Step (code some prio) t s s') (hown : s.owner (.qfullLock id) ≠ some t)
    (hown' : s'.owner (.qfullLock id) = some t) : ∃ p', s'.ctl t = .awake p' ∧ mayHaveSpaceLock id p' = true := by
  obtain ⟨p, next, _, hi, hp'⟩ | ⟨p, n, c, timed, next, r, _, hi, hp'⟩ := hs.acquires hown hown'
  · refine ⟨next, hp', ?_⟩
    cases p <;> simp only [code, reduceCtorEq, Instr.lock.injEq, Lock.qfullLock.injEq, false_and] at hi <;>
      (obtain ⟨rfl, rfl⟩ := hi; exact decide_eq_true rfl)
  · refine ⟨next r, hp', ?_⟩
    cases p <;> simp only [code, reduceCtorEq, Instr.wait.injEq, Lock.qfullLock.injEq, false_and, and_false] at hi
    case waitSleep a j =>
      obtain ⟨_, rfl, _, rfl⟩ := hi
      exact decide_eq_true rfl

theorem SpaceLocked.step (hl : SpaceLocked id s) (hs : Step (code some prio) t s s') (hok : Heeded id ⟨s, t, s'⟩) :
    SpaceLocked id s' := by
  intro u v hu hv
  -- whoever needs it now needed it before: otherwise it is free
  have hut : u ≠ t := by
    rintro rfl
    rw [needs_frees hs hu] at hv
    cases hv
  rw [hs.ctl_other hut] at hu
  by_cases hvt : v = t
  · subst hvt
    by_cases hown : s.owner (.qfullLock id) = some v
    · obtain ⟨p, hp, hmay⟩ := hl u v hu hown
      refine keeps_spaceLock hs hp hmay hown hv fun hleaves => ?_
      have hneed : needsSpaceLock id (s.ctl u) = false := hok.leaves hleaves u
      rw [hu] at hneed
      cases hneed
    · exact takes_spaceLock hs hown hv
  · rw [hs.ctl_other hvt]
    exact hl u v hu (hs.owned_other hvt hv)

theorem spaceLocked (h : Run (code some prio) Initial tr s) (hok : ∀ x ∈ tr, Heeded id x) : SpaceLocked id s := by
  refine h.invariant (Heeded id) (SpaceLocked id) ?_ (fun _ _ _ hl hs hx => hl.step hs hx) hok
  intro s hs u v hu
  rw [hs.idle u] at hu
  cases hu

/-! ### Receivers that ask for `qfull_lock` -/

theorem next_not_asks (h : (code some prio t p).Next p') : asksForSpaceLock id p' = false := by
  cases p
  case findUnlock op j found =>
    cases h
    cases found
    · rfl
    · cases op <;> rfl
  all_goals first
    | exact False.elim h
    | (cases h; rfl)
    | (obtain ⟨r, rfl⟩ := h; rfl)

theorem Runs.of_asks (h : Runs some prio t p m m' p') (hp : asksForSpaceLock id p' = true) :
    (m.queue id).sendType ≠ .killd ∨ ∃ a, p = .receiveStart a id ∧ ¬ a.buflen < (m.queue id).msgLen ∧
      (m.queue id).msgsPerQueue = 0 ∧ (m.queue id).firstWriteSusp ≠ [] := by
  cases h with
  | @sendDeleted m q => cases hq : q.drained <;> rw [hq] at hp <;> cases hp
  | @receiveDeleted p m q => cases hq : q.drained <;> rw [hq] at hp <;> cases hp
  | @pended m a j hlen =>
    split at hp
    · obtain rfl : j = id := of_decide_eq_true hp
      rename_i hfull
      exact .inr ⟨a, rfl, hlen, hfull⟩
    · cases hp
  | fetched _ halive =>
    unfold receivedPoint at hp
    split at hp
    · rw [of_decide_eq_true hp] at halive
      exact .inl halive
    · cases hp
  | _ => cases hp

theorem asks_step (hs : Step (code some prio) t s s') (hk : (s.mem.queue id).sendType = .killd)
    (hno : ¬ Asks id ⟨s, t, s'⟩) (hv : asksForSpaceLock id (s.ctl v).point = false) :
    asksForSpaceLock id (s'.ctl v).point = false := by
  by_cases hvt : v = t
  · subst hvt
    obtain ⟨_, _, heq | hnext⟩ | ⟨p, p', hp, hp', hr, _⟩ := step_cases hs
    · rwa [heq]
    · exact next_not_asks hnext
    · rw [hp', Ctl.point_awake, Bool.eq_false_iff]
      intro hasks
      obtain halive | ⟨a, rfl, hlen, hfull⟩ := hr.of_asks hasks
      · exact halive hk
      · exact hno ⟨a, hp, hlen, hfull⟩
  · rwa [hs.ctl_other hvt]

/-! ### The last one -/

theorem next_not_lastLock {op : Op} (h : (code some prio t p).Next p') : p' ≠ .lastLock op id := by
  cases p
  case findUnlock op j found =>
    cases h
    cases found
    · rintro ⟨⟩
    · cases op <;> (rintro ⟨⟩)
  all_goals first
    | exact False.elim h
    | (cases h; rintro ⟨⟩; done)
    | (obtain ⟨r, rfl⟩ := h; rintro ⟨⟩)

theorem Runs.to_lastLock (h : Runs some prio t p m m' p') {op : Op} (hp' : p' = .lastLock op id) :
    (m'.queue id).drained = true := by
  cases h with
  | @sendDeleted m q =>
    cases hq : q.drained <;> rw [hq] at hp' <;> cases hp'
    rwa [Mem.setQueue_self]
  | @receiveDeleted p m q =>
    cases hq : q.drained <;> rw [hq] at hp' <;> cases hp'
    rwa [Mem.setQueue_self]
  | pended => split at hp' <;> cases hp'
  | fetched =>
    unfold receivedPoint at hp'
    split at hp' <;> cases hp'
  | _ => cases hp'

/-- Whoever has seen that he is the last has left empty lists behind. -/
theorem last_drained (h : Run (code some prio) Initial tr s) {op : Op} (hp : s.ctl t = .awake (.lastLock op id)) :
    (s.mem.queue id).drained = true := by
  induction h with
  | start hi =>
    rw [hi.idle t] at hp
    cases hp
  | @step tr s u s' hr hs ih =>
    by_cases hu : t = u
    · subst hu
      obtain ⟨_, hnext⟩ | ⟨q, block, c, _, hi, hb, _⟩ := hs.awake_cases hp
      · exact absurd rfl (next_not_lastLock hnext)
      · exact (block_runs hi hb).to_lastLock rfl
    · have hp₀ : s.ctl t = .awake (.lastLock op id) := by rw [← hs.ctl_other hu, hp]
      rw [queue_still hr hs hp₀ (List.mem_singleton_self _) hu]
      exact ih hp₀

/-! ### Who is not stuck -/

/-- What holds of a killed queue and its deletion as long as somebody is still pended who
was when it was killed. -/
structure Awaited (id : ι) (d : θ) (s : QueueState θ ι) : Prop where
  asks : ∀ v, asksForSpaceLock id (s.ctl v).point = false
  killed : (s.mem.queue id).sendType = .killd
  pended : (s.mem.queue id).drained = false
  attends : attends id (s.ctl d).point = true
  scheduled : s.ctl d ≠ .awake (.deleteTaskLock id)

theorem block_possible {block : Choice ι → Mem θ ι → Option (Mem θ ι × Pc ι)} (hbusy : p.busy = true)
    (htask : ∀ j, p ≠ .deleteTaskLock j) (hi : code some prio t p = .run block) (m : Mem θ ι) :
    ∃ c r, block c m = some r := by
  cases p <;> simp only [code, Instr.run.injEq, reduceCtorEq] at hi <;> subst hi
  case idle => cases hbusy
  case returned => cases hbusy
  case waitAgain => exact ⟨.expired false, _, rfl⟩
  case receiveAgain => exact ⟨.expired false, _, rfl⟩
  case deleteTaskLock j => exact absurd rfl (htask j)
  all_goals exact ⟨.none, _, rfl⟩

/-- A call goes on where it takes no mutex and does not lock the scheduler. -/
theorem proceeds_unlocked (hp : s.ctl t = .awake p) (hbusy : p.busy = true) (htask : ∀ j, p ≠ .deleteTaskLock j)
    (hlock : ∀ m next, code some prio t p ≠ .lock m next) : Proceeds (code some prio) Pc.busy s t :=
  .of_awake hp hbusy hlock .none fun _ hi => block_possible hbusy htask hi s.mem

omit [DecidableEq θ] in
theorem held_qdletLock (h : .qdletLock id ∈ held p) : .queueLock id ∈ held p ∨ deleting id p = true := by
  cases p
  case findUnlock op j found => cases found <;> simp [held] at h
  all_goals first
    | (simp [held] at h; done)
    | (simp [held] at h; subst h; exact .inl (List.mem_cons_self ..))
    | (simp [held] at h; subst h; exact .inr (decide_eq_true rfl))

/-- The deletion finds `qdlet_lock` free. -/
theorem qdletLock_free (h : Run (code some prio) Initial tr s) (hok : ∀ x ∈ tr, Heeded id x)
    (hp : s.ctl t = .awake (.deleteQdletLock id)) : s.owner (.qdletLock id) = none := by
  have htracked : (Lock.qdletLock id).tracked := trivial
  have hqueue : (Lock.queueLock id).tracked := trivial
  by_contra hown
  obtain ⟨w, hown⟩ := Option.ne_none_iff_exists'.mp hown
  have hclaim := (owner_iff htracked h).mp hown
  cases hq : s.ctl w with
  | awake q =>
    rw [claims_awake hq] at hclaim
    have hwt : w = t := by
      obtain hin | hdel := held_qdletLock hclaim
      · exact held_unique h hqueue hq hin hp (List.mem_singleton_self _)
      · refine deleting_unique h hok (by rwa [hq]) ?_
        rw [hp]
        exact decide_eq_true rfl
    rw [hwt, hp] at hq
    cases hq
    simp [held] at hclaim
  | asleep q n =>
    obtain ⟨c, lock, timed, next, hi⟩ := h.asleep initial_awake hq
    rw [claims_asleep hq] at hclaim
    obtain ⟨hin, m, hw, hne⟩ := hclaim
    cases q <;> simp only [code, reduceCtorEq] at hi
    case waitSleep => simp [held] at hin
    case receiveSleep => simp [held] at hin
    case deleteWait j =>
      simp only [held, List.mem_singleton] at hin
      cases hw
      exact hne hin

/-- The owner of `queue_lock` is not stuck. -/
theorem Awaited.queueLock {d : θ} (ha : Awaited id d s) (h : Run (code some prio) Initial tr s)
    (hok : ∀ x ∈ tr, Heeded id x) (hown : s.owner (.queueLock id) = some u) :
    Proceeds (code some prio) Pc.busy s u := by
  have htracked : (Lock.queueLock id).tracked := trivial
  obtain ⟨p, hp, hin⟩ := (claims_iff (.inr ⟨id, rfl⟩)).mp ((owner_iff htracked h).mp hown)
  have hbusy : p.busy = true := by
    cases hrest : p.resting
    · simp [Pc.busy, hrest]
    · rw [held_resting hrest] at hin
      cases hin
  by_cases hlock : ∃ m next, code some prio u p = .lock m next
  · obtain ⟨m, next, hi⟩ := hlock
    have hasks : asksForSpaceLock id p = false := by
      have hnone := ha.asks u
      rwa [hp] at hnone
    cases p <;> simp only [code, reduceCtorEq] at hi <;> simp [held] at hin
    case readyLock a j => simp [asksForSpaceLock, hin] at hasks
    case spaceLock a j msg => simp [asksForSpaceLock, hin] at hasks
    case lastLock op j =>
      subst hin
      have hdrained := last_drained h hp
      rw [ha.pended] at hdrained
      cases hdrained
    case deleteQdletLock j =>
      subst hin
      refine .of_lock hp rfl rfl .none fun w hw => ?_
      rw [qdletLock_free h hok hp] at hw
      cases hw
  · refine proceeds_unlocked hp hbusy ?_ fun m next hi => hlock ⟨m, next, hi⟩
    rintro j rfl
    simp only [held, List.mem_singleton, Lock.queueLock.injEq] at hin
    subst hin
    have hud : u = d := by
      refine deleting_unique h hok ?_ (deleting_of_attends ha.attends)
      rw [hp]
      exact decide_eq_true rfl
    exact ha.scheduled (hud ▸ hp)

/-- The owner of `qfull_lock`, while a sender needs it, is not stuck. -/
theorem Awaited.spaceLock {d : θ} (ha : Awaited id d s) (h : Run (code some prio) Initial tr s)
    (hok : ∀ x ∈ tr, Heeded id x) (hneed : needsSpaceLock id (s.ctl t) = true)
    (hown : s.owner (.qfullLock id) = some u) : Proceeds (code some prio) Pc.busy s u := by
  obtain ⟨p, hp, hmay⟩ := spaceLocked h hok t u hneed hown
  by_cases hlock : ∃ m next, code some prio u p = .lock m next
  · obtain ⟨m, next, hi⟩ := hlock
    cases p <;> simp only [code, reduceCtorEq] at hi <;> first | cases hmay | skip
    case waitRelock a j retcode =>
      obtain rfl : j = id := of_decide_eq_true hmay
      exact .of_lock hp rfl rfl .none fun w hw => ha.queueLock h hok hw
    case lastLock op j =>
      obtain rfl : j = id := of_decide_eq_true hmay
      have hdrained := last_drained h hp
      rw [ha.pended] at hdrained
      cases hdrained
  · refine proceeds_unlocked hp ?_ ?_ fun m next hi => hlock ⟨m, next, hi⟩
    · cases p <;> first | rfl | cases hmay
    · rintro j rfl
      cases hmay

/-- The deletion is not stuck on its way to call a sleeper. -/
theorem Awaited.rouser {d : θ} (ha : Awaited id d s) (h : Run (code some prio) Initial tr s)
    (hok : ∀ x ∈ tr, Heeded id x) (hd : rouses side id (s.ctl d).point = true)
    (hneed : side = .senders → needsSpaceLock id (s.ctl u) = true) : Proceeds (code some prio) Pc.busy s d := by
  cases hp : s.ctl d with
  | awake p =>
    rw [hp, Ctl.point_awake] at hd
    by_cases hlock : ∃ m next, code some prio d p = .lock m next
    · obtain ⟨m, next, hi⟩ := hlock
      cases p <;> simp only [code, reduceCtorEq] at hi <;> simp [rouses] at hd
      case deleteQdletLock j =>
        subst hd
        refine .of_lock hp rfl rfl .none fun w hw => ?_
        rw [qdletLock_free h hok hp] at hw
        cases hw
      case deleteQfullLock j =>
        obtain ⟨rfl, rfl⟩ := hd
        exact .of_lock hp rfl rfl .none fun w hw => ha.spaceLock h hok (hneed rfl) hw
    · refine proceeds_unlocked hp ?_ ?_ fun m next hi => hlock ⟨m, next, hi⟩
      · cases p <;> first | rfl | cases hd
      · rintro j rfl
        obtain rfl : j = id := of_decide_eq_true hd
        exact ha.scheduled hp
  | asleep p n =>
    rw [hp, Ctl.point_asleep] at hd
    obtain ⟨c, lock, timed, next, hi⟩ := h.asleep initial_awake hp
    cases p <;> simp only [code, reduceCtorEq] at hi <;> cases hd

/-- Nobody who is pended is stuck: he goes on, or the deletion that is about to call him. -/
theorem Awaited.proceeds {d : θ} (ha : Awaited id d s) (h : Run (code some prio) Initial tr s)
    (hok : ∀ x ∈ tr, Heeded id x) (hpend : pendsOn side (s.ctl u).point = some id) :
    Proceeds (code some prio) Pc.busy s u ∨
      rouses side id (s.ctl d).point = true ∧ Proceeds (code some prio) Pc.busy s d := by
  cases hp : s.ctl u with
  | awake p =>
    refine .inl ?_
    rw [hp, Ctl.point_awake] at hpend
    by_cases hlock : ∃ m next, code some prio u p = .lock m next
    · obtain ⟨m, next, hi⟩ := hlock
      cases p <;> simp only [code, reduceCtorEq] at hi <;> first | (cases side <;> cases hpend; done) | skip
      case readyLock a j =>
        have hasks := ha.asks u
        cases side <;> cases hpend
        rw [hp, Ctl.point_awake] at hasks
        simp [asksForSpaceLock] at hasks
      case receivePollLock a j retcode =>
        cases side <;> cases hpend
        exact .of_lock hp rfl rfl .none fun w hw => ha.queueLock h hok hw
      case waitPollLock a j retcode =>
        cases side <;> cases hpend
        refine .of_lock hp rfl rfl .none fun w hw => ha.spaceLock h hok (t := u) ?_ hw
        rw [hp]
        exact decide_eq_true rfl
      case waitRelock a j retcode =>
        cases side <;> cases hpend
        exact .of_lock hp rfl rfl .none fun w hw => ha.queueLock h hok hw
    · refine proceeds_unlocked hp ?_ ?_ fun m next hi => hlock ⟨m, next, hi⟩
      · cases p <;> first | rfl | (cases side <;> cases hpend)
      · rintro j rfl
        cases hpend
  | asleep p n =>
    rw [hp, Ctl.point_asleep] at hpend
    obtain ⟨c, lock, timed, next, hi⟩ := h.asleep initial_awake hp
    by_cases hcall : Unreached (code some prio) (side.cond id) s u
    · obtain ⟨v, hv⟩ := Queue.rouser h hok ha.killed hcall
      obtain rfl : v = d := deleting_unique h hok (deleting_of_rouses hv) (deleting_of_attends ha.attends)
      refine .inr ⟨hv, ha.rouser h hok hv (u := u) ?_⟩
      rintro rfl
      cases p <;> simp only [code, reduceCtorEq] at hi <;> cases hpend
      rw [hp]
      exact decide_eq_true rfl
    · refine .inl ?_
      cases p <;> simp only [code, reduceCtorEq] at hi
      case waitSleep a j =>
        cases side <;> cases hpend
        refine .of_wait hp rfl rfl hcall .none fun w hw => ha.spaceLock h hok (t := u) ?_ hw
        rw [hp]
        exact decide_eq_true rfl
      case receiveSleep a j =>
        cases side <;> cases hpend
        exact .of_wait hp rfl rfl hcall .none fun w hw => ha.queueLock h hok hw
      case deleteWait j => cases hpend

/-! ### The run -/

/-- What the deletions that are heeded keep after the mark of one. -/
structure Lasting (id : ι) (x : QueueTransition θ ι) (later : List (QueueTransition θ ι)) (s : QueueState θ ι) :
    Prop where
  made : s.mem.block id ≠ .fresh
  killed : (s.mem.queue id).sendType = .killd
  asks : ∀ v, asksForSpaceLock id (s.ctl v).point = false
  refuses : ∀ y ∈ later, (y.post.mem.queue id).msgCount ≤ (y.pre.mem.queue id).msgCount
  serves : ∀ side, ∀ u ∈ (x.pre.mem.queue id).list side, (∀ y ∈ later, ¬ NextCall u y) →
    pendsOn side (s.ctl u).point = some id ∧ attends id (s.ctl x.thread).point = true ∨
      refused id (s.ctl u).point = true

theorem lasting_marked {x : QueueTransition θ ι} (h : Run (code some prio) Initial tr x.pre)
    (hs : Step (code some prio) x.thread x.pre x.post) (hx : Marks id x) : Lasting id x [] x.post := by
  have hx : x.pre.ctl x.thread = .awake (.deleteMark id) := hx
  obtain ⟨c, p', hb, hp', _⟩ := hs.block hx rfl
  simp only [Option.some.injEq, Prod.mk.injEq] at hb
  obtain ⟨hm, rfl⟩ := hb
  constructor
  case made => exact block_step hs ((linked h).touched x.thread id (by rw [hx]; rfl))
  case killed => rw [← hm, Mem.setQueue_self]
  case asks =>
    intro v
    by_cases hv : v = x.thread
    · rw [hv, hp']
      rfl
    · rw [hs.ctl_other hv, Bool.eq_false_iff]
      intro hasks
      -- the deletion has `queue_lock`
      cases hp : x.pre.ctl v with
      | awake p =>
        rw [hp, Ctl.point_awake] at hasks
        have htracked : (Lock.queueLock id).tracked := trivial
        refine hv (held_unique h htracked hp ?_ hx (List.mem_singleton_self _))
        cases p <;> first
          | cases hasks
          | (rw [of_decide_eq_true hasks]; exact List.mem_singleton_self _)
      | asleep p n =>
        rw [hp, Ctl.point_asleep] at hasks
        obtain ⟨c, lock, timed, next, hi⟩ := h.asleep initial_awake hp
        cases p <;> simp only [code, reduceCtorEq] at hi <;> cases hasks
  case refuses =>
    intro y hy
    cases hy
  case serves =>
    intro side u hu _
    have hpend : pendsOn side (x.pre.ctl u).point = some id :=
      of_decide_eq_true (((linked h).lists side id).mem u |>.mp hu)
    refine .inl ⟨?_, ?_⟩
    · rw [hs.ctl_other, hpend]
      rintro rfl
      rw [hx] at hpend
      cases hpend
    · rw [hp']
      exact decide_eq_true rfl

theorem Lasting.step {x y : QueueTransition θ ι} {later : List (QueueTransition θ ι)} (hl : Lasting id x later y.pre)
    (h : Run (code some prio) Initial tr y.pre) (hs : Step (code some prio) y.thread y.pre y.post)
    (hok : Heeded id y) : Lasting id x (y :: later) y.post := by
  have hkilled := killed_step hs hl.made hl.killed (hok.accepts hl.killed)
  constructor
  case made => exact block_step hs hl.made
  case killed => exact hkilled.1
  case asks => exact fun v => asks_step hs hl.killed (hok.asks hl.killed) (hl.asks v)
  case refuses =>
    intro z hz
    obtain rfl | hz := List.mem_cons.mp hz
    · exact hkilled.2
    · exact hl.refuses z hz
  case serves =>
    intro side u hu hno
    obtain ⟨hpend, hattends⟩ | hleft := hl.serves side u hu fun z hz => hno z (List.mem_cons_of_mem _ hz)
    · have hin : u ∈ (y.pre.mem.queue id).list side :=
        ((linked h).lists side id).mem u |>.mpr (decide_eq_true hpend)
      obtain hpend | hleft := pended_step hpend hs hl.killed
      · exact .inl ⟨hpend, attends_step hs hattends (V2ptMqueue.not_drained hin)⟩
      · exact .inr hleft
    · exact .inr (refused_step hleft hs (hno y (List.mem_cons_self ..)))

variable {x : QueueTransition θ ι} {later before : List (QueueTransition θ ι)}

theorem lasting (h : Run (code some prio) Initial (later ++ x :: before) s)
    (hok : ∀ y ∈ later ++ x :: before, Heeded id y) (hx : Marks id x) : Lasting id x later s := by
  refine h.since (Lasting id x) (lasting_marked h.before (h.steps x (by simp)) hx) ?_
  rintro y l ⟨newer, rfl⟩ hs hl
  rw [List.append_assoc] at h
  exact hl.step h.before hs (hok y (by simp))

/-- In every run in which the deletions of a queue are heeded, they keep their word. -/
theorem kills (h : Run (code some prio) Initial (later ++ x :: before) s)
    (hok : ∀ y ∈ later ++ x :: before, Heeded id y) (hx : Marks id x) : Kills prio id x later s := by
  have hl := lasting h hok hx
  constructor
  case stays => exact hl.killed
  case refuses => exact hl.refuses
  case serves =>
    intro side u hu hno
    obtain ⟨hpend, _⟩ | hleft := hl.serves side u hu hno
    · exact .inl hpend
    · exact .inr hleft
  case drains =>
    intro side u hu hno hpend
    obtain ⟨_, hattends⟩ | hleft := hl.serves side u hu hno
    · refine ⟨hattends, ?_⟩
      by_cases hsched : s.ctl x.thread = .awake (.deleteTaskLock id)
      · exact .inl hsched
      · have hin : u ∈ (s.mem.queue id).list side := ((linked h).lists side id).mem u |>.mpr (decide_eq_true hpend)
        have ha : Awaited id x.thread s := ⟨hl.asks, hl.killed, V2ptMqueue.not_drained hin, hattends, hsched⟩
        exact .inr (ha.proceeds h hok hpend)
    · rw [refused_not_pended hleft] at hpend
      cases hpend

end

/-! ### A send that revives the queue -/

/-- Task 1 waits for a message, and task 0 deletes the queue and waits for task 1. Task 2
sends, and task 1 wakes. -/
def sendRevives : List (Fin 3 × Input (Choice ℕ)) :=
  makes 0 7 2 1 0 :: goesOn 0 3 ++ calls 1 (.receive ⟨true, 1, waitForever⟩) 7 :: goesOn 1 7 ++
    calls 0 .delete 7 :: goesOn 0 15 ++ calls 2 (.send ⟨.bytes [5], noWait, 0⟩) 7 :: goesOn 2 7 ++ goesOn 1 3

/-- The queue is not killed any more, it has taken a message, and task 1 returns it. -/
theorem send_revives_killed :
    ¬ ∀ (tr : List (QueueTransition (Fin 3) ℕ)) (s : QueueState (Fin 3) ℕ), Run (code some fun _ => 0) Initial tr s →
      ∀ later x before, tr = later ++ x :: before → Marks 7 x → Kills (fun _ => 0) 7 x later s := by
  intro hclaim
  obtain ⟨later, x, before, s, hr, hs⟩ := run_of_split_check (code some fun _ => 0) sendRevives 21
    (fun (later : List (QueueTransition (Fin 3) ℕ)) x s => x.pre.ctl x.thread = .awake (.deleteMark 7) ∧
      (s.mem.queue 7).sendType = .send ∧
      (∃ y ∈ later, (y.pre.mem.queue 7).msgCount < (y.post.mem.queue 7).msgCount) ∧
      s.ctl 1 = .awake (.returned (.receive ⟨true, 1, waitForever⟩) 7 (.received [5])))
    boot_initial (by decide)
  obtain ⟨hmark, hsend, _⟩ := of_decide_eq_true hs
  have hkilled := (hclaim _ s hr later x before rfl hmark).stays
  rw [hsend] at hkilled
  cases hkilled

/-- A queue for one message is full and task 1 waits for space. Task 0 deletes the queue. -/
def deleteFull : List (Fin 2 × Input (Choice ℕ)) :=
  makes 0 7 1 1 0 :: goesOn 0 3 ++ calls 0 (.send ⟨.bytes [5], noWait, 0⟩) 7 :: goesOn 0 7 ++
    calls 1 (.send ⟨.bytes [6], waitForever, 0⟩) 7 :: goesOn 1 8 ++ calls 0 .delete 7 :: goesOn 0 15 ++ goesOn 1 8 ++ goesOn 0 8

/-- The step is none that could be in the way of the deletion. -/
def leavesAlone (x : QueueTransition (Fin 2) ℕ) : Bool :=
  match x.pre.ctl x.thread with
  | .awake (.sendStart _ _) | .awake (.receiveAgain _ _ _) | .awake (.waitSleep _ _) | .awake (.receiveStart _ _) =>
    decide ((x.pre.mem.queue 7).sendType ≠ .killd)
  | .awake (.leave _ _ _) => decide (∀ v : Fin 2, needsSpaceLock 7 (x.pre.ctl v) = false)
  | .awake (.deleteMark _) => decide (∀ v : Fin 2, deleting 7 (x.pre.ctl v).point = false)
  | _ => true

theorem leavesAlone_heeded {x : QueueTransition (Fin 2) ℕ} (h : leavesAlone x = true) : Heeded 7 x where
  accepts hk := by
    rintro ⟨a, hp, _⟩
    rw [leavesAlone, hp] at h
    exact of_decide_eq_true h hk
  fallsBack hk := by
    rintro ⟨a, retcode, hp, _⟩
    rw [leavesAlone, hp] at h
    exact of_decide_eq_true h hk
  sleeps hk hsleeps := by
    unfold sleepsForSpace at hsleeps
    split at hsleeps
    · rename_i hp _
      rw [leavesAlone, hp] at h
      exact absurd hk (of_decide_eq_true h)
    · cases hsleeps
  asks hk := by
    rintro ⟨a, hp, _⟩
    rw [leavesAlone, hp] at h
    exact of_decide_eq_true h hk
  leaves := by
    rintro ⟨⟨op, reply, hp⟩, _⟩
    rw [leavesAlone, hp] at h
    exact of_decide_eq_true h
  alone hp := by
    have hp : x.pre.ctl x.thread = .awake (.deleteMark 7) := hp
    rw [leavesAlone, hp] at h
    exact of_decide_eq_true h

theorem deleteFull_kills : ∃ (later : List (QueueTransition (Fin 2) ℕ)) (x : QueueTransition (Fin 2) ℕ)
    (s : QueueState (Fin 2) ℕ), Marks 7 x ∧ Kills (fun _ => 0) 7 x later s ∧ 1 ∈ (x.pre.mem.queue 7).firstWriteSusp ∧
      s.ctl 1 = .awake (.returned (.send ⟨.bytes [6], waitForever, 0⟩) 7 (.failed .objDeleted)) ∧
      s.ctl 0 = .awake (.returned .delete 7 .ok) := by
  obtain ⟨tr, s, hr, hs⟩ := run_of_check (code some fun _ => 0) deleteFull
    (fun (tr : List (QueueTransition (Fin 2) ℕ)) s => (∀ y ∈ tr, leavesAlone y = true) ∧
      (∃ x ∈ tr, x.pre.ctl x.thread = .awake (.deleteMark 7) ∧ 1 ∈ (x.pre.mem.queue 7).firstWriteSusp) ∧
      s.ctl 1 = .awake (.returned (.send ⟨.bytes [6], waitForever, 0⟩) 7 (.failed .objDeleted)) ∧
      s.ctl 0 = .awake (.returned .delete 7 .ok))
    boot_initial (by decide)
  obtain ⟨hok, ⟨x, hx, hmark, hpended⟩, hsender, hdeletion⟩ := of_decide_eq_true hs
  obtain ⟨later, before, rfl⟩ := List.append_of_mem hx
  exact ⟨later, x, s, hmark, kills hr (fun y hy => leavesAlone_heeded (hok y hy)) hmark, hpended, hsender, hdeletion⟩

end V2lin.Queue
