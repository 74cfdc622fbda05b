import V2lin.Queue.Locks
import V2lin.Queue.Pended
import V2lin.Threads.Wakeups

/-! Who may go on sleeping on a queue's condition variables.

A receiver sleeps while there is no message, or while somebody who has changed that is
about to broadcast; a sender sleeps while the queue is full, or while a receiver is about
to broadcast. This holds as long as nobody falls asleep without the reason: a receiver
after its polls, a sender between whose test and whose wait a message was fetched. -/
namespace V2lin.Queue
open Threads V2lin.Task

section
variable {θ ι : Type} [DecidableEq θ] [DecidableEq ι]
variable {myTask : θ → Option θ} {prio : θ → ℤ} {t u : θ} {p p' : Pc ι} {id : ι} {m m' : Mem θ ι}
variable {tr : List (QueueTransition θ ι)} {s s' : QueueState θ ι}

omit [DecidableEq θ] [DecidableEq ι] in
theorem initial_awake (s : QueueState θ ι) (t : θ) (p : Pc ι) (n : ℕ) (h : Initial s) : s.ctl t ≠ .asleep p n := by
  rw [h.idle t]
  exact nofun

/-! ### Blocks -/

/-- A block changes a queue in use under its lock only. -/
theorem Runs.queue_locked (h : Runs myTask prio t p m m' p') (hb : m.block id ≠ .fresh) :
    m'.queue id = m.queue id ∨ .queueLock id ∈ held p := by
  have hset : ∀ {j : ι} {q : V2ptMqueue θ}, .queueLock j ∈ held p →
      (m.setQueue j q).queue id = m.queue id ∨ .queueLock id ∈ held p := by
    intro j q hj
    by_cases hid : id = j
    · exact .inr (hid ▸ hj)
    · exact .inl (Mem.setQueue_of_ne m q hid)
  cases h with
  | created j _ _ _ _ hf => exact .inl (Mem.setQueue_of_ne m _ fun hj => hb (hj ▸ hf))
  | sentTail => exact hset (by simp [held])
  | sentFront => exact hset (by simp [held])
  | sendPended => exact hset (by simp [held])
  | sendDeleted => exact hset (by simp [held])
  | sendTimedOut => exact hset (by simp [held])
  | sentLate => exact hset (by simp [held])
  | pended => exact hset (by simp [held])
  | receiveDeleted hp => exact hset (by simp [hp.held])
  | receiveTimedOut hp => exact hset (by simp [hp.held])
  | fetched hp => exact hset (by simp [hp.held])
  | deleteMarked => exact hset (by simp [held])
  | _ => exact .inl rfl

/-- A block adds a message or marks a queue as killed only on the way to a broadcast. -/
theorem Runs.announces (h : Runs myTask prio t p m m' p') (hb : m.block id ≠ .fresh) :
    ((m'.queue id).msgCount ≤ (m.queue id).msgCount ∧ (m'.queue id).sendType = (m.queue id).sendType) ∨
      (∃ a, p' = .sendNotify a id) ∨ p' = .deleteTaskLock id := by
  have hset : ∀ {j : ι} {q : V2ptMqueue θ}, q.msgCount ≤ (m.queue j).msgCount →
      q.sendType = (m.queue j).sendType →
      ((m.setQueue j q).queue id).msgCount ≤ (m.queue id).msgCount ∧
        ((m.setQueue j q).queue id).sendType = (m.queue id).sendType := by
    intro j q hcount htype
    by_cases hid : id = j
    · subst hid
      rw [Mem.setQueue_self]
      exact ⟨hcount, htype⟩
    · rw [Mem.setQueue_of_ne m q hid]
      exact ⟨Int.le_refl _, rfl⟩
  have hother : ∀ {j : ι} {q : V2ptMqueue θ}, id ≠ j →
      ((m.setQueue j q).queue id).msgCount ≤ (m.queue id).msgCount ∧
        ((m.setQueue j q).queue id).sendType = (m.queue id).sendType := by
    intro j q hid
    rw [Mem.setQueue_of_ne m q hid]
    exact ⟨Int.le_refl _, rfl⟩
  cases h with
  | created j _ _ _ _ hf => exact .inl (hother fun hj => hb (hj ▸ hf))
  | @sentTail m a j =>
    by_cases hid : id = j
    · exact .inr (.inl ⟨a, by rw [hid]⟩)
    · exact .inl (hother hid)
  | @sentFront m a j =>
    by_cases hid : id = j
    · exact .inr (.inl ⟨a, by rw [hid]⟩)
    · exact .inl (hother hid)
  | @sentLate m q a j =>
    by_cases hid : id = j
    · exact .inr (.inl ⟨a, by rw [hid]⟩)
    · exact .inl (hother hid)
  | deleteMarked j =>
    by_cases hid : id = j
    · exact .inr (.inr (by rw [hid]))
    · exact .inl (hother hid)
  | sendPended => exact .inl (hset (Int.le_refl _) rfl)
  | sendDeleted _ hq => exact .inl (hset (by rw [hq]) (by rw [hq]))
  | sendTimedOut => exact .inl (hset (Int.le_refl _) rfl)
  | pended => exact .inl (hset (Int.le_refl _) rfl)
  | receiveDeleted _ _ hq => exact .inl (hset (by rw [hq]) (by rw [hq]))
  | receiveTimedOut => exact .inl (hset (Int.le_refl _) rfl)
  | fetched _ _ _ _ hq => exact .inl (hset (by rw [hq]; simp [V2ptMqueue.fetchMsgFrom]) (by rw [hq]; rfl))
  | _ => exact .inl ⟨Int.le_refl _, rfl⟩

/-! ### Receivers -/

/-- There is nothing for a receiver. -/
def V2ptMqueue.Quiet (q : V2ptMqueue θ) : Prop := q.msgCount ≤ 0 ∧ q.sendType ≠ .killd

instance (q : V2ptMqueue θ) : Decidable q.Quiet := inferInstanceAs (Decidable (_ ∧ _))

/-- The step in which a receiver goes from a poll of the queue to sleep although there is
something for it: its time is over while messages are left, or the queue is killed. -/
def dozes (id : ι) (x : QueueTransition θ ι) : Bool :=
  match x.pre.ctl x.thread, x.post.ctl x.thread with
  | .awake (.receiveAgain _ j _), .awake (.receiveSleep _ _) => j = id ∧ ¬ (x.pre.mem.queue id).Quiet
  | _, _ => false

theorem Runs.to_receiveSleep (h : Runs myTask prio t p m m' p') {a : ReceiveArgs}
    (hp' : p' = .receiveSleep a id) :
    m' = m ∧ ∃ retcode, (p = .receiveTest a id retcode ∧ (m.queue id).Quiet) ∨ p = .receiveAgain a id retcode := by
  cases h with
  | @sendDeleted m q =>
    cases hq : q.drained <;> simp [deletedPoint, hq] at hp'
  | @receiveDeleted p m q =>
    cases hq : q.drained <;> simp [deletedPoint, hq] at hp'
  | pended =>
    split at hp' <;> cases hp'
  | fetched =>
    unfold receivedPoint at hp'
    split at hp' <;> cases hp'
  | @receiveSleeps p m a j retcode hpoint halive hnone =>
    cases hp'
    refine ⟨rfl, retcode, ?_⟩
    cases hpoint with
    | test =>
      refine .inl ⟨rfl, ?_, halive rfl⟩
      have hnone := hnone.resolve_right nofun
      unfold V2ptMqueue.msgFor at hnone
      split at hnone
      · split at hnone <;> cases hnone
      · omega
    | again => exact .inr rfl
  | _ => cases hp'

theorem next_not_receiveSleep {a : ReceiveArgs} (h : (code myTask prio t p).Next p') : p' ≠ .receiveSleep a id := by
  cases p
  case findUnlock op j found =>
    cases h
    cases found
    · simp
    · cases op <;> simp [entry]
  all_goals first
    | exact False.elim h
    | (cases h; simp; done)
    | (obtain ⟨r, rfl⟩ := h; simp)

/-- A queue stays as it is while somebody else has its lock. -/
theorem queue_still (h : Run (code some prio) Initial tr s) (hs : Step (code some prio) u s s')
    (hp : s.ctl t = .awake p) (hheld : .queueLock id ∈ held p) (htu : t ≠ u) : s'.mem.queue id = s.mem.queue id := by
  have hb : s.mem.block id ≠ .fresh := (linked h).touched t id (by rw [hp]; exact touches_of_held hheld)
  obtain ⟨hm, _⟩ | ⟨q, q', hq, _, hruns, _⟩ := step_cases hs
  · rw [hm]
  · obtain heq | hlock := hruns.queue_locked hb
    · exact heq
    · have htracked : (Lock.queueLock id).tracked := trivial
      exact absurd (held_unique h htracked hp hheld hq hlock) htu

/-- A receiver that is about to sleep has nothing to receive. -/
theorem sleepy_quiet (h : Run (code some prio) Initial tr s) (hno : ∀ x ∈ tr, dozes id x = false) {a : ReceiveArgs}
    (hp : s.ctl t = .awake (.receiveSleep a id)) : (s.mem.queue id).Quiet := by
  induction h with
  | start hi =>
    rw [hi.idle t] at hp
    cases hp
  | @step tr s u s' hr hs ih =>
    by_cases hu : t = u
    · subst hu
      obtain ⟨_, hnext⟩ | ⟨q, block, c, hq, hi, hb, _⟩ := hs.awake_cases hp
      · exact absurd rfl (next_not_receiveSleep hnext)
      · obtain ⟨hm, retcode, ⟨_, hquiet⟩ | rfl⟩ := (block_runs hi hb).to_receiveSleep rfl
        · rwa [hm]
        · have hdoze := hno _ (List.mem_cons_self ..)
          rw [hm]
          simpa [dozes, hq, hp] using hdoze
    · have hp₀ : s.ctl t = .awake (.receiveSleep a id) := by rw [← hs.ctl_other hu, hp]
      rw [queue_still hr hs hp₀ (List.mem_singleton_self _) hu]
      exact ih (fun x hx => hno x (List.mem_cons_of_mem _ hx)) hp₀

/-- A point on the way to a broadcast on `queue_send`. -/
def announcing (id : ι) : Pc ι → Bool
  | .sendNotify _ j | .deleteTaskLock j | .deleteTest j | .deleteQdletLock j | .deleteNotify j => j = id
  | _ => false

omit [DecidableEq θ] in
theorem announcing_held (h : announcing id p = true) : .queueLock id ∈ held p := by
  cases p <;> first | cases h | (simp [announcing] at h; simp [held, h])

/-- There is nothing for a receiver, or somebody is about to say otherwise. -/
def Silent (id : ι) (s : QueueState θ ι) : Prop :=
  (s.mem.queue id).Quiet ∨ ∃ u p, s.ctl u = .awake p ∧ announcing id p = true

theorem sleeper_pends (h : Linked s) (ht : Unreached (code some prio) (.queueSend id) s t) :
    s.mem.block id ≠ .fresh ∧ t ∈ (s.mem.queue id).firstSusp := by
  obtain ⟨p, c, timed, next, hp, hi⟩ := ht
  cases p <;> simp only [code, reduceCtorEq, Instr.wait.injEq, Cond.queueSend.injEq, false_and] at hi
  case receiveSleep a j =>
    obtain ⟨rfl, _⟩ := hi
    refine ⟨h.touched t j (by rw [hp]; rfl), ?_⟩
    refine ((h.lists .receivers j).mem t).mpr ?_
    simp [waits, hp, pendsOn]

/-- A thread on its way to the broadcast stays on it, as long as a receiver is pended. -/
theorem announcing_step (hs : Step (code some prio) u s s') (hp : s.ctl u = .awake p)
    (hann : announcing id p = true) (hsame : s'.signals (.queueSend id) = s.signals (.queueSend id))
    (hpended : (s.mem.queue id).firstSusp ≠ []) : ∃ p', s'.ctl u = .awake p' ∧ announcing id p' = true := by
  have hd := hs.does hp
  cases p <;> simp only [announcing, decide_eq_true_eq, reduceCtorEq] at hann
  case sendNotify a j => exact absurd hsame (hs.signals_ne hp (by rw [← hann]; rfl))
  case deleteNotify j => exact absurd hsame (hs.signals_ne hp (by rw [← hann]; rfl))
  case deleteTaskLock j =>
    obtain ⟨c, m', p', hb, rfl⟩ := hd
    obtain ⟨k, _, heq⟩ := Option.map_eq_some_iff.mp hb
    cases heq
    exact ⟨_, Function.update_self .., by simp [announcing, hann]⟩
  case deleteTest j =>
    obtain ⟨c, m', p', hb, rfl⟩ := hd
    cases hb
    refine ⟨_, Function.update_self .., ?_⟩
    rw [if_neg (by simp [V2ptMqueue.drained, hann, hpended])]
    simp [announcing, hann]
  case deleteQdletLock j =>
    obtain ⟨_, rfl⟩ := hd
    exact ⟨_, Function.update_self .., by simp [announcing, hann]⟩

theorem silent (h : Run (code some prio) Initial tr s) (hno : ∀ x ∈ tr, dozes id x = false)
    (ht : Unreached (code some prio) (.queueSend id) s t) : Silent id s := by
  refine h.unreached initial_awake (fun x => dozes id x = false) (Silent id) ?_ ?_ hno ht
  · intro tr t s s' p c timed next hr hno hs _ hp _ hi hm
    cases p <;> simp only [code, reduceCtorEq, Instr.wait.injEq, Cond.queueSend.injEq, false_and] at hi
    case receiveSleep a j =>
      obtain ⟨rfl, _⟩ := hi
      refine .inl ?_
      rw [hm]
      exact sleepy_quiet hr hno hp
  · intro tr t u s s' hr _ hs _ ht hne hsame hsilent
    obtain ⟨hb, hpended⟩ := sleeper_pends (linked hr) ht
    obtain hquiet | ⟨v, p, hp, hann⟩ := hsilent
    · obtain ⟨hm, _⟩ | ⟨p, p', _, hp', hruns, _⟩ := step_cases hs
      · exact .inl (hm ▸ hquiet)
      · obtain ⟨hcount, htype⟩ | ⟨a, rfl⟩ | rfl := hruns.announces hb
        · exact .inl ⟨Int.le_trans hcount hquiet.1, htype ▸ hquiet.2⟩
        · exact .inr ⟨u, _, hp', by simp [announcing]⟩
        · exact .inr ⟨u, _, hp', by simp [announcing]⟩
    · refine .inr ?_
      by_cases hv : v = u
      · subst hv
        obtain ⟨p', hp', hann'⟩ := announcing_step hs hp hann hsame (List.ne_nil_of_mem hpended)
        exact ⟨v, p', hp', hann'⟩
      · exact ⟨v, p, by rw [hs.ctl_other hv, hp], hann⟩

/-- A receiver that sleeps on a queue whose lock is free, and whom no broadcast has reached,
has no message to receive and the queue is not killed, unless a receiver has gone from a
poll to sleep in spite of either. -/
theorem receivers_woken (h : Run (code some prio) Initial tr s) (hno : ∀ x ∈ tr, dozes id x = false)
    (ht : Unreached (code some prio) (.queueSend id) s t) (hfree : s.owner (.queueLock id) = none) :
    (s.mem.queue id).msgCount = 0 ∧ (s.mem.queue id).sendType ≠ .killd := by
  obtain hquiet | ⟨u, p, hp, hann⟩ := silent h hno ht
  · exact ⟨Int.le_antisymm hquiet.1 (count_nonneg h id), hquiet.2⟩
  · have htracked : (Lock.queueLock id).tracked := trivial
    have hown := (owner_iff htracked h).mpr ((claims_awake hp).mpr (announcing_held hann))
    rw [hfree] at hown
    cases hown

/-! ### Senders -/

/-- A block takes a message from a queue on whose list of senders somebody stands only on
the way to a broadcast, or the queue stays full. -/
theorem Runs.frees (h : Runs myTask prio t p m m' p') (hb : m.block id ≠ .fresh)
    (hpended : (m.queue id).firstWriteSusp ≠ []) (hfull : (m.queue id).msgsPerQueue ≤ (m.queue id).msgCount) :
    (m'.queue id).msgsPerQueue ≤ (m'.queue id).msgCount ∨ ∃ a msg, p' = .spaceLock a id msg := by
  have hset : ∀ {j : ι} {q : V2ptMqueue θ},
      (id = j → (m.queue id).msgCount ≤ q.msgCount ∧ q.msgsPerQueue = (m.queue id).msgsPerQueue) →
      ((m.setQueue j q).queue id).msgsPerQueue ≤ ((m.setQueue j q).queue id).msgCount := by
    intro j q hq
    by_cases hid : id = j
    · obtain ⟨hcount, hcap⟩ := hq hid
      rw [hid, Mem.setQueue_self, hcap]
      exact Int.le_trans hfull hcount
    · rwa [Mem.setQueue_of_ne m q hid]
  cases h with
  | created j _ _ _ _ hf => exact .inl (hset fun hid => absurd (hid ▸ hf) hb)
  | sentTail => exact .inl (hset fun hid => by subst hid; simp [V2ptMqueue.sendMsgTo])
  | sentFront => exact .inl (hset fun hid => by subst hid; simp [V2ptMqueue.urgentMsgTo])
  | @sentLate m q a j retcode _ _ hq =>
    refine .inl (hset fun hid => ?_)
    subst hid
    rw [post_count, hq]
    refine ⟨by simp, ?_⟩
    unfold V2ptMqueue.post
    split <;> rfl
  | @fetched p m q a j retcode _ _ _ _ hq =>
    by_cases hid : id = j
    · subst hid
      have hsenders : (q.fetchMsgFrom a.hasBuf).2.firstWriteSusp ≠ [] := by
        rw [hq]
        exact hpended
      by_cases hspace : (q.fetchMsgFrom a.hasBuf).2.msgCount ≤ (q.fetchMsgFrom a.hasBuf).2.msgsPerQueue - 1
      · exact .inr ⟨a, _, if_pos (decide_eq_true ⟨hsenders, hspace⟩)⟩
      · refine .inl ?_
        rw [Mem.setQueue_self]
        omega
    · exact .inl (hset fun h => absurd h hid)
  | sendPended => exact .inl (hset fun hid => by subst hid; exact ⟨Int.le_refl _, rfl⟩)
  | sendDeleted _ hq => exact .inl (hset fun hid => by subst hid; rw [hq]; exact ⟨Int.le_refl _, rfl⟩)
  | sendTimedOut => exact .inl (hset fun hid => by subst hid; exact ⟨Int.le_refl _, rfl⟩)
  | pended => exact .inl (hset fun hid => by subst hid; exact ⟨Int.le_refl _, rfl⟩)
  | receiveDeleted _ _ hq => exact .inl (hset fun hid => by subst hid; rw [hq]; exact ⟨Int.le_refl _, rfl⟩)
  | receiveTimedOut => exact .inl (hset fun hid => by subst hid; exact ⟨Int.le_refl _, rfl⟩)
  | deleteMarked => exact .inl (hset fun hid => by subst hid; exact ⟨Int.le_refl _, rfl⟩)
  | _ => exact .inl hfull

/-- A receiver is between its fetch and its broadcast to the senders. -/
def fetching (id : ι) : Ctl (Pc ι) → Bool
  | .awake (.spaceLock _ j _) | .awake (.spaceNotify _ j _) => j = id
  | _ => false

/-- The step in which a sender falls asleep until there is space in the queue. -/
def sleepsForSpace (id : ι) (x : QueueTransition θ ι) : Bool :=
  match x.pre.ctl x.thread, x.post.ctl x.thread with
  | .awake (.waitSleep _ j), .asleep _ _ => j = id
  | _, _ => false

/-- The step in which a sender falls asleep although there is space, and no receiver is
about to say so. -/
def Misses (id : ι) (x : QueueTransition θ ι) : Prop :=
  sleepsForSpace id x = true ∧ (x.pre.mem.queue id).msgCount < (x.pre.mem.queue id).msgsPerQueue ∧
    ∀ u, fetching id (x.pre.ctl u) = false

instance [Fintype θ] (id : ι) (x : QueueTransition θ ι) : Decidable (Misses id x) :=
  inferInstanceAs (Decidable (_ = _ ∧ _ < _ ∧ ∀ _, _ = _))

/-- The queue is full, or a receiver is about to say otherwise. -/
def Full (id : ι) (s : QueueState θ ι) : Prop :=
  (s.mem.queue id).msgsPerQueue ≤ (s.mem.queue id).msgCount ∨ ∃ u, fetching id (s.ctl u) = true

theorem space_sleeper_pends (h : Linked s) (ht : Unreached (code some prio) (.queueSpace id) s t) :
    s.mem.block id ≠ .fresh ∧ t ∈ (s.mem.queue id).firstWriteSusp := by
  obtain ⟨p, c, timed, next, hp, hi⟩ := ht
  cases p <;> simp only [code, reduceCtorEq, Instr.wait.injEq, Cond.queueSpace.injEq, false_and] at hi
  case waitSleep a j =>
    obtain ⟨rfl, _⟩ := hi
    refine ⟨h.touched t j (by rw [hp]; rfl), ?_⟩
    refine ((h.lists .senders j).mem t).mpr ?_
    simp [waits, hp, pendsOn]

/-- A receiver between its fetch and its broadcast stays there until it broadcasts. -/
theorem fetching_step (hs : Step (code some prio) u s s') (hf : fetching id (s.ctl u) = true)
    (hsame : s'.signals (.queueSpace id) = s.signals (.queueSpace id)) : fetching id (s'.ctl u) = true := by
  cases hp : s.ctl u with
  | awake p =>
    rw [hp] at hf
    have hd := hs.does hp
    cases p <;> simp only [fetching, decide_eq_true_eq, reduceCtorEq] at hf
    case spaceLock a j msg =>
      obtain ⟨_, rfl⟩ := hd
      simp [fetching, hf]
    case spaceNotify a j msg => exact absurd hsame (hs.signals_ne hp (by rw [← hf]; rfl))
  | asleep p n =>
    rw [hp] at hf
    cases hf

theorem full (h : Run (code some prio) Initial tr s) (hno : ∀ x ∈ tr, ¬ Misses id x)
    (ht : Unreached (code some prio) (.queueSpace id) s t) : Full id s := by
  refine h.unreached initial_awake (fun x => ¬ Misses id x) (Full id) ?_ ?_ hno ht
  · intro tr t s s' p c timed next _ _ hs hok hp hp' hi hm
    cases p <;> simp only [code, reduceCtorEq, Instr.wait.injEq, Cond.queueSpace.injEq, false_and] at hi
    case waitSleep a j =>
      obtain ⟨rfl, _⟩ := hi
      by_contra hfull
      refine hok ⟨by simp [sleepsForSpace, hp, hp'], ?_, fun u => ?_⟩
      · refine Int.not_le.mp fun hle => hfull (.inl ?_)
        rwa [hm]
      · rw [Bool.eq_false_iff]
        intro hf
        refine hfull (.inr ⟨u, ?_⟩)
        by_cases hu : u = t
        · rw [hu, hp] at hf
          cases hf
        · rwa [hs.ctl_other hu]
  · intro tr t u s s' hr _ hs _ ht hne hsame hfull
    obtain ⟨hb, hpended⟩ := space_sleeper_pends (linked hr) ht
    obtain hfull | ⟨v, hf⟩ := hfull
    · obtain ⟨hm, _⟩ | ⟨p, p', _, hp', hruns, _⟩ := step_cases hs
      · exact .inl (hm ▸ hfull)
      · obtain hfull | ⟨a, msg, rfl⟩ := hruns.frees hb (List.ne_nil_of_mem hpended) hfull
        · exact .inl hfull
        · exact .inr ⟨u, by simp [hp', fetching]⟩
    · refine .inr ⟨v, ?_⟩
      by_cases hv : v = u
      · subst hv
        exact fetching_step hs hf hsame
      · rwa [hs.ctl_other hv]

/-- A sender that sleeps while no receiver is between its fetch and its broadcast, and
whom no broadcast has reached, finds the queue full, unless a sender has fallen asleep
although there was space. -/
theorem senders_woken (h : Run (code some prio) Initial tr s) (hno : ∀ x ∈ tr, ¬ Misses id x)
    (ht : Unreached (code some prio) (.queueSpace id) s t) (hidle : ∀ u, fetching id (s.ctl u) = false) :
    (s.mem.queue id).msgsPerQueue ≤ (s.mem.queue id).msgCount := by
  obtain hfull | ⟨u, hf⟩ := full h hno ht
  · exact hfull
  · rw [hidle u] at hf
    cases hf

end

/-! ### Sleepers that nobody wakes -/

/-- Two receivers sleep on the queue, and a message comes. Task 2 wakes first, finds the
message for task 1 and polls; task 1 takes it; task 0 deletes the queue and waits for task
2, whose poll ends. -/
def pollAndDelete : List (Fin 3 × Input (Choice ℕ)) :=
  makes 0 7 2 1 0 :: goesOn 0 3 ++ calls 1 (.receive ⟨true, 1, waitForever⟩) 7 :: goesOn 1 7 ++
    calls 2 (.receive ⟨true, 1, waitForever⟩) 7 :: goesOn 2 7 ++
    calls 0 (.send ⟨.bytes [5], noWait, 0⟩) 7 :: goesOn 0 7 ++ goesOn 2 3 ++ goesOn 1 3 ++
    calls 0 .delete 7 :: goesOn 0 15 ++ goesOn 2 1 ++ [(2, {choice := .expired false})] ++ goesOn 2 1

/-- Task 2 goes back to sleep on the killed queue. -/
theorem receiver_sleeps_killed :
    ¬ ∀ (tr : List (QueueTransition (Fin 3) ℕ)) (s : QueueState (Fin 3) ℕ) (id : ℕ) (t : Fin 3),
      Run (code some fun _ => 0) Initial tr s → Unreached (code some fun _ => 0) (.queueSend id) s t →
      s.owner (.queueLock id) = none → (s.mem.queue id).msgCount = 0 ∧ (s.mem.queue id).sendType ≠ .killd := by
  intro hclaim
  obtain ⟨tr, s, hr, hs⟩ := run_of_check (code some fun _ => 0) pollAndDelete (fun _ s =>
      s.ctl 2 = .asleep (.receiveSleep ⟨true, 1, waitForever⟩ 7) (s.signals (.queueSend 7)) ∧
      s.owner (.queueLock 7) = none ∧ (s.mem.queue 7).sendType = .killd)
    boot_initial (by decide)
  obtain ⟨hp, hfree, hkill⟩ := of_decide_eq_true hs
  exact (hclaim tr s 7 2 hr ⟨_, _, _, _, hp, rfl⟩ hfree).2 hkill

/-- Tasks 1 and 2 wait for a message, and task 0 sends one. Task 2 wakes first, sees that the
message is not for it, and goes back to sleep after task 1 has fetched it. -/
def oneMessage : List (Fin 3 × Input (Choice ℕ)) :=
  makes 0 7 1 1 0 :: goesOn 0 3 ++ calls 1 (.receive ⟨true, 1, waitForever⟩) 7 :: goesOn 1 7 ++
    calls 2 (.receive ⟨true, 1, waitForever⟩) 7 :: goesOn 2 7 ++ calls 0 (.send ⟨.bytes [5], noWait, 0⟩) 7 :: goesOn 0 7 ++
    goesOn 2 3 ++ goesOn 1 3 ++ goesOn 2 1 ++ (2, {choice := .expired false}) :: goesOn 2 1

theorem oneMessage_woken : ∃ (tr : List (QueueTransition (Fin 3) ℕ)) (s : QueueState (Fin 3) ℕ),
    (∃ x ∈ tr, x.pre.ctl 2 = .asleep (.receiveSleep ⟨true, 1, waitForever⟩ 7) 0 ∧
      x.post.ctl 2 = .awake (.receiveTest ⟨true, 1, waitForever⟩ 7 .ok)) ∧
      s.ctl 1 = .awake (.returned (.receive ⟨true, 1, waitForever⟩) 7 (.received [5])) ∧
      Unreached (code some fun _ => 0) (.queueSend 7) s 2 ∧
      (s.mem.queue 7).msgCount = 0 ∧ (s.mem.queue 7).sendType ≠ .killd := by
  obtain ⟨tr, s, hr, hs⟩ := run_of_check (code some fun _ => 0) oneMessage (fun tr s =>
      (∀ x ∈ tr, dozes 7 x = false) ∧ s.owner (.queueLock 7) = none ∧
      (∃ x ∈ tr, x.pre.ctl 2 = .asleep (.receiveSleep ⟨true, 1, waitForever⟩ 7) 0 ∧
        x.post.ctl 2 = .awake (.receiveTest ⟨true, 1, waitForever⟩ 7 .ok)) ∧
      s.ctl 1 = .awake (.returned (.receive ⟨true, 1, waitForever⟩) 7 (.received [5])) ∧
      s.ctl 2 = .asleep (.receiveSleep ⟨true, 1, waitForever⟩ 7) (s.signals (.queueSend 7)))
    boot_initial (by decide)
  obtain ⟨hno, hfree, hwoken, hgot, hp⟩ := of_decide_eq_true hs
  have ht : Unreached (code some fun _ => 0) (.queueSend 7) s 2 := ⟨_, _, _, _, hp, rfl⟩
  exact ⟨tr, s, hwoken, hgot, ht, receivers_woken hr hno ht hfree⟩

/-- A queue for one message is full. Task 1 finds no space; before it sleeps, task 0
receives the message and broadcasts. -/
def missedBroadcast : List (Fin 2 × Input (Choice ℕ)) :=
  makes 0 7 1 1 0 :: goesOn 0 3 ++ calls 0 (.send ⟨.bytes [5], noWait, 0⟩) 7 :: goesOn 0 7 ++
    calls 1 (.send ⟨.bytes [6], waitForever, 0⟩) 7 :: goesOn 1 7 ++
    calls 0 (.receive ⟨true, 1, noWait⟩) 7 :: goesOn 0 10 ++ goesOn 1 1

/-- Task 1 sleeps beside an empty queue. -/
theorem sender_misses_broadcast :
    ¬ ∀ (tr : List (QueueTransition (Fin 2) ℕ)) (s : QueueState (Fin 2) ℕ) (id : ℕ) (t : Fin 2),
      Run (code some fun _ => 0) Initial tr s → (∀ u, fetching id (s.ctl u) = false) →
      Unreached (code some fun _ => 0) (.queueSpace id) s t →
      ¬ (signalForMyTask (s.mem.queue id).firstWriteSusp (s.mem.queue id).order (fun _ => 0) (some t) = true ∧
        (s.mem.queue id).msgCount < (s.mem.queue id).msgsPerQueue) := by
  intro hclaim
  obtain ⟨tr, s, hr, hs⟩ := run_of_check (code some fun _ => 0) missedBroadcast (fun _ s =>
      (∀ u, fetching 7 (s.ctl u) = false) ∧
      s.ctl 1 = .asleep (.waitSleep ⟨.bytes [6], waitForever, 0⟩ 7) (s.signals (.queueSpace 7)) ∧
      signalForMyTask (s.mem.queue 7).firstWriteSusp (s.mem.queue 7).order (fun _ => 0) (some 1) = true ∧
      (s.mem.queue 7).msgCount < (s.mem.queue 7).msgsPerQueue)
    boot_initial (by decide)
  obtain ⟨hidle, hp, hselected, hspace⟩ := of_decide_eq_true hs
  exact hclaim tr s 7 1 hr hidle ⟨_, _, _, _, hp, rfl⟩ ⟨hselected, hspace⟩

/-- Task 1 waits for space and is woken when task 0 has received a message. It sends its
own, and waits again with the next one. -/
def oneSpace : List (Fin 2 × Input (Choice ℕ)) :=
  makes 0 7 1 1 0 :: goesOn 0 3 ++ calls 0 (.send ⟨.bytes [5], noWait, 0⟩) 7 :: goesOn 0 7 ++
    calls 1 (.send ⟨.bytes [6], waitForever, 0⟩) 7 :: goesOn 1 8 ++
    calls 0 (.receive ⟨true, 1, noWait⟩) 7 :: goesOn 0 10 ++ goesOn 1 6 ++
    calls 1 (.send ⟨.bytes [7], waitForever, 0⟩) 7 :: goesOn 1 8

theorem oneSpace_woken : ∃ (tr : List (QueueTransition (Fin 2) ℕ)) (s : QueueState (Fin 2) ℕ),
    (∃ x ∈ tr, x.pre.ctl 1 = .asleep (.waitSleep ⟨.bytes [6], waitForever, 0⟩ 7) 0 ∧
      x.post.ctl 1 = .awake (.waitTest ⟨.bytes [6], waitForever, 0⟩ 7 .ok)) ∧
      s.ctl 1 = .asleep (.waitSleep ⟨.bytes [7], waitForever, 0⟩ 7) 1 ∧
      Unreached (code some fun _ => 0) (.queueSpace 7) s 1 ∧
      (s.mem.queue 7).msgsPerQueue ≤ (s.mem.queue 7).msgCount := by
  obtain ⟨tr, s, hr, hs⟩ := run_of_check (code some fun _ => 0) oneSpace (fun tr s =>
      (∀ x ∈ tr, ¬ Misses 7 x) ∧ (∀ u, fetching 7 (s.ctl u) = false) ∧
      (∃ x ∈ tr, x.pre.ctl 1 = .asleep (.waitSleep ⟨.bytes [6], waitForever, 0⟩ 7) 0 ∧
        x.post.ctl 1 = .awake (.waitTest ⟨.bytes [6], waitForever, 0⟩ 7 .ok)) ∧
      s.ctl 1 = .asleep (.waitSleep ⟨.bytes [7], waitForever, 0⟩ 7) 1 ∧ s.signals (.queueSpace 7) = 1)
    boot_initial (by decide)
  obtain ⟨hno, hidle, hwoken, hp, hsignals⟩ := of_decide_eq_true hs
  have ht : Unreached (code some fun _ => 0) (.queueSpace 7) s 1 := ⟨_, _, _, _, hsignals.symm ▸ hp, rfl⟩
  exact ⟨tr, s, hwoken, hp, ht, senders_woken hr hno ht hidle⟩

end V2lin.Queue
