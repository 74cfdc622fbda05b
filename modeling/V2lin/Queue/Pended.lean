import V2lin.Queue.Fields
import V2lin.Task.Waiting

/-! Who is on a queue's lists of pended tasks, and in which order.

For registered tasks the lists are the sets of the tasks inside `waitToSend` and inside
the wait loops of `msgQReceive`, each once, in the order in which they came; a message
goes to the task that is selected. -/
namespace V2lin.Queue
open Threads V2lin.Task

section
variable {θ ι : Type} [DecidableEq θ] [DecidableEq ι]
variable {prio : θ → ℤ} {t : θ} {p p' : Pc ι} {s s' : QueueState θ ι} {tr : List (QueueTransition θ ι)}

/-- Task `t` waits on a queue's list. -/
def waits (side : Side) (id : ι) (s : QueueState θ ι) (t : θ) : Bool :=
  pendsOn side (s.ctl t).point = some id

/-- The library refers to made blocks only, and a queue's lists are the tasks that wait
on them. -/
structure Linked (s : QueueState θ ι) : Prop where
  listed : ∀ id ∈ s.mem.mqueueList, s.mem.block id ≠ .fresh
  touched : ∀ t id, touches (s.ctl t).point = some id → s.mem.block id ≠ .fresh
  lists : ∀ side id, Lists ((s.mem.queue id).list side) (waits side id s)

omit [DecidableEq θ] in
theorem initial_linked (s : QueueState θ ι) (h : Initial s) : Linked s where
  listed := by
    rw [h.mqueueList]
    exact nofun
  touched t id ht := by
    rw [h.idle t] at ht
    cases ht
  lists side id := by
    refine ⟨fun t => ?_, ?_⟩
    · simp only [waits, h.idle t]
      rw [h.blank id]
      cases side <;> simp [V2ptMqueue.list, msgQCreate, pendsOn]
    · rw [h.blank id]
      cases side <;> exact List.nodup_nil

omit [DecidableEq θ] in
/-- Nobody waits on the lists of a queue not made yet. -/
theorem Linked.fresh (h : Linked s) {id : ι} (hf : s.mem.block id = .fresh) (side : Side) :
    (s.mem.queue id).list side = [] := by
  rw [List.eq_nil_iff_forall_not_mem]
  intro t ht
  have hw : pendsOn side (s.ctl t).point = some id := of_decide_eq_true ((h.lists side id).mem t |>.mp ht)
  exact h.touched t id (touched_of_pended hw) hf

/-- Every step treats a queue's lists as the tasks' places ask for. -/
theorem list_step (h : Linked s) (hs : Step (code some prio) t s s') (side : Side) (id : ι) :
    ListStep (fun s => (s.mem.queue id).list side) (waits side id) ⟨s, t, s'⟩ := by
  obtain ⟨hm, _, hp⟩ | ⟨p, p', hp, hp', hr, _⟩ := step_cases hs
  · refine .same (by rw [hm]) ?_
    obtain heq | hnext := hp
    · simp only [waits, heq]
    · simp only [waits, next_pended hnext]
  · have hpoint : (s.ctl t).point = p := by rw [hp, Ctl.point_awake]
    have hpoint' : (s'.ctl t).point = p' := by rw [hp', Ctl.point_awake]
    obtain ⟨hl, hiff⟩ | ⟨hout, hin, hl⟩ | ⟨hin, hout, hl⟩ | ⟨hf, hout, hout', hl⟩ := hr.list_cases side id
    · refine .same hl ?_
      simp only [waits, hpoint, hpoint']
      rw [decide_eq_decide]
      exact hiff
    · refine .joined ?_ ?_ hl
      · simp [waits, hpoint, hout]
      · simp [waits, hpoint', hin]
    · refine .left ?_ ?_ hl
      · simp [waits, hpoint, hin]
      · simp [waits, hpoint', hout]
    · refine .same (hl.trans (h.fresh hf side).symm) ?_
      simp only [waits, hpoint, hpoint', hout, hout']

theorem waits_other {side : Side} {id : ι} {u : θ} (hs : Step (code some prio) t s s') (hu : u ≠ t) :
    waits side id s' u = waits side id s u := by
  simp only [waits, hs.ctl_other hu]

theorem block_step (hs : Step (code some prio) t s s') {id : ι} (hb : s.mem.block id ≠ .fresh) :
    s'.mem.block id ≠ .fresh := by
  obtain ⟨hm, _⟩ | ⟨_, _, _, _, hr, _⟩ := step_cases hs
  · rwa [hm]
  · exact hr.block_ne_fresh hb

theorem linked_step (h : Linked s) (hs : Step (code some prio) t s s') : Linked s' := by
  refine ⟨?_, ?_, fun side id => (list_step h hs side id).lists (fun u hu => waits_other hs hu) (h.lists side id)⟩
  · intro id hid
    obtain ⟨hm, _⟩ | ⟨p, p', hp, _, hr, _⟩ := step_cases hs
    · rw [hm] at hid ⊢
      exact h.listed id hid
    · obtain hid | ht := hr.listed_cases hid
      · exact hr.block_ne_fresh (h.listed id hid)
      · refine hr.block_ne_fresh (h.touched t id ?_)
        rwa [hp]
  · intro u id ht
    by_cases hu : u = t
    · subst hu
      obtain ⟨_, _, heq | hnext⟩ | ⟨p, p', hp, hp', hr, _⟩ := step_cases hs
      · rw [heq] at ht
        exact block_step hs (h.touched u id ht)
      · exact block_step hs (h.touched u id (next_touched hnext ht))
      · rw [hp', Ctl.point_awake] at ht
        obtain ht | hid | hb := hr.touches_cases ht
        · exact hr.block_ne_fresh (h.touched u id (by rwa [hp]))
        · exact hr.block_ne_fresh (h.listed id hid)
        · exact hb
    · rw [hs.ctl_other hu] at ht
      exact block_step hs (h.touched u id ht)

theorem linked (h : Run (code some prio) Initial tr s) : Linked s :=
  h.invariant (fun _ => True) Linked initial_linked (fun _ _ _ hl hs _ => linked_step hl hs) fun _ _ => trivial

/-- The tasks on a queue's list stand in the order in which they joined it. -/
theorem list_in_order (h : Run (code some prio) Initial tr s) (side : Side) (id : ι) :
    ((s.mem.queue id).list side).Pairwise fun a b =>
      stamp (arrives (waits side id) a) tr < stamp (arrives (waits side id) b) tr := by
  refine in_order_of_arrival (fun s => (s.mem.queue id).list side) (arrives (waits side id)) h ?_ ?_
  · intro s hs
    rw [hs.blank id]
    cases side <;> rfl
  · intro x hx
    have hl : Linked x.pre := h.invariant_pre (fun _ => True) Linked initial_linked
      (fun _ _ _ hl hs _ => linked_step hl hs) (fun _ _ => trivial) x hx
    have hs := h.steps x hx
    exact (list_step hl hs side id).moved (fun u hu => waits_other hs hu) (hl.lists side id)

/-! ### Whose the message is -/

/-- The pend order is the creator's. -/
theorem Runs.order_eq {m m' : Mem θ ι} {id : ι} (h : Runs some prio t p m m' p') (hb : m.block id ≠ .fresh) :
    (m'.queue id).order = (m.queue id).order := by
  cases h with
  | created j _ _ _ _ hf =>
    have hj : id ≠ j := fun hj => hb (hj ▸ hf)
    simp [hj]
  | sentLate _ _ hq =>
    refine Mem.setQueue_congr V2ptMqueue.order m ?_ id
    rw [hq]
    unfold V2ptMqueue.post
    split <;> rfl
  | sendDeleted _ hq => exact Mem.setQueue_congr V2ptMqueue.order m (by rw [hq]) id
  | receiveDeleted _ _ hq => exact Mem.setQueue_congr V2ptMqueue.order m (by rw [hq]) id
  | fetched _ _ _ _ hq => exact Mem.setQueue_congr V2ptMqueue.order m (by rw [hq]; rfl) id
  | sentTail => exact Mem.setQueue_congr V2ptMqueue.order m (by rfl) id
  | sentFront => exact Mem.setQueue_congr V2ptMqueue.order m (by rfl) id
  | sendPended => exact Mem.setQueue_congr V2ptMqueue.order m (by rfl) id
  | sendTimedOut => exact Mem.setQueue_congr V2ptMqueue.order m (by rfl) id
  | pended => exact Mem.setQueue_congr V2ptMqueue.order m (by rfl) id
  | receiveTimedOut => exact Mem.setQueue_congr V2ptMqueue.order m (by rfl) id
  | deleteMarked => exact Mem.setQueue_congr V2ptMqueue.order m (by rfl) id
  | _ => rfl

omit [DecidableEq θ] in
theorem post_count (q : V2ptMqueue θ) (msg : Msg) (pri : ℤ) : (q.post msg pri).msgCount = q.msgCount + 1 := by
  unfold V2ptMqueue.post
  split <;> rfl

/-- A block takes a message only where there is one. -/
theorem Runs.count_nonneg {myTask : θ → Option θ} {m m' : Mem θ ι} (h : Runs myTask prio t p m m' p')
    (hn : ∀ id, 0 ≤ (m.queue id).msgCount) (id : ι) : 0 ≤ (m'.queue id).msgCount := by
  have hset : ∀ {j : ι} {q : V2ptMqueue θ}, 0 ≤ q.msgCount → 0 ≤ ((m.setQueue j q).queue id).msgCount := by
    intro j q hq
    by_cases hid : id = j
    · rwa [hid, Mem.setQueue_self]
    · rw [Mem.setQueue_of_ne m q hid]
      exact hn id
  have hpost : ∀ {n : ℤ}, 0 ≤ n → 0 ≤ n + 1 := fun hn => Int.le_add_one hn
  cases h with
  | created => exact hset (by exact Int.le_refl 0)
  | @sentTail _ _ j => exact hset (hpost (hn j))
  | @sentFront _ _ j => exact hset (hpost (hn j))
  | @sentLate _ q a j _ _ _ hq =>
    refine hset ?_
    rw [post_count, hq]
    exact hpost (hn j)
  | @sendPended _ _ j => exact hset (hn j)
  | @sendDeleted _ _ _ j _ _ hq => exact hset (by rw [hq]; exact hn j)
  | @sendTimedOut _ _ j => exact hset (hn j)
  | @pended _ _ j => exact hset (hn j)
  | @receiveDeleted _ _ _ _ j _ _ _ hq => exact hset (by rw [hq]; exact hn j)
  | @receiveTimedOut _ _ _ j => exact hset (hn j)
  | @fetched _ _ q a j _ _ _ hcount _ hq =>
    refine hset ?_
    rw [hq]
    exact Int.le_sub_one_of_lt hcount
  | deleteMarked j => exact hset (hn j)
  | _ => exact hn id

theorem count_nonneg {myTask : θ → Option θ} (h : Run (code myTask prio) Initial tr s) (id : ι) :
    0 ≤ (s.mem.queue id).msgCount := by
  refine h.invariant (fun _ => True) (fun s => ∀ id, 0 ≤ (s.mem.queue id).msgCount) ?_ ?_ (fun _ _ => trivial) id
  · intro s hs id
    rw [hs.blank id]
    exact Int.le_refl 0
  · intro t s s' hn h _ id
    obtain ⟨hm, _⟩ | ⟨p, p', _, _, hr, _⟩ := step_cases h
    · rw [hm]
      exact hn id
    · exact hr.count_nonneg hn id

/-- The step in which `msgQCreate` makes a queue for `n` messages of up to `l` bytes. -/
def Creates (id : ι) (n l order : ℕ) (x : QueueTransition θ ι) : Prop :=
  x.pre.mem.block id = .fresh ∧ x.post.mem.block id = .live ∧ (x.post.mem.queue id).msgsPerQueue = n ∧
    (x.post.mem.queue id).msgLen = l ∧ (x.post.mem.queue id).order = order

instance (id : ι) (n l order : ℕ) (x : QueueTransition θ ι) : Decidable (Creates id n l order x) :=
  inferInstanceAs (Decidable (_ ∧ _ ∧ _ ∧ _ ∧ _))

omit [DecidableEq θ] [DecidableEq ι] in
/-- `msgQCreate` keeps the length of a message in 32 bits. -/
theorem msgQCreate_msgLen (θ : Type) (maxMsgs msglen : ℤ) (opt : ℕ) :
    msgQCreate θ maxMsgs (msglen % 2 ^ 32).toNat opt = msgQCreate θ maxMsgs msglen opt := by
  have hlen : (((msglen % 2 ^ 32).toNat : ℤ) % 2 ^ 32).toNat = (msglen % 2 ^ 32).toNat := by omega
  simp only [msgQCreate, hlen]

/-- The creator of a queue is about to link it. -/
theorem created_step (h : Linked s) (hs : Step (code some prio) t s s') {id : ι} {n l order : ℕ}
    (hnew : Creates id n l order ⟨s, t, s'⟩) :
    ∃ opt, l < 2 ^ 32 ∧ s'.mem.queue id = msgQCreate θ n l opt ∧ s'.ctl t = .awake (.linkLock id) := by
  obtain ⟨hf, hlive, hcap, hlen, _⟩ := hnew
  have hf : s.mem.block id = .fresh := hf
  have hb : s'.mem.block id ≠ .fresh := by
    rw [show s'.mem.block id = .live from hlive]
    exact nofun
  obtain ⟨hm, _⟩ | ⟨p, p', hp, hp', hr, _⟩ := step_cases hs
  · rw [hm] at hb
    exact absurd hf hb
  · obtain ⟨maxMsgs, msglen, opt, hq, _, rfl⟩ := hr.born hf hb fun ht => h.touched t id (by rwa [hp]) hf
    have hq : s'.mem.queue id = msgQCreate θ maxMsgs msglen opt := hq
    rw [hq] at hcap hlen
    have hcap : maxMsgs = n := hcap
    have hlen : (msglen % 2 ^ 32).toNat = l := hlen
    refine ⟨opt, by omega, ?_, hp'⟩
    rw [hq, ← msgQCreate_msgLen, hlen, hcap]

/-- What `msgQCreate` establishes of a queue and later blocks keep, holds of the queue in
every later state. -/
theorem made_invariant (P : V2ptMqueue θ → Prop) (h : Run (code some prio) Initial tr s)
    {y : QueueTransition θ ι} (hy : y ∈ tr) {id : ι} (hb : y.post.mem.block id ≠ .fresh)
    (hnew : P (y.post.mem.queue id))
    (hkeep : ∀ t p m m' p', Runs some prio t p m m' p' → m.block id ≠ .fresh → P (m.queue id) → P (m'.queue id)) :
    s.mem.block id ≠ .fresh ∧ P (s.mem.queue id) := by
  obtain ⟨later, before, rfl⟩ := List.append_of_mem hy
  refine h.after (fun s => s.mem.block id ≠ .fresh ∧ P (s.mem.queue id)) ⟨hb, hnew⟩ ?_
  rintro z _ hz ⟨hb, hP⟩
  refine ⟨block_step hz hb, ?_⟩
  obtain ⟨hm, _⟩ | ⟨p, p', _, _, hr, _⟩ := step_cases hz
  · rwa [hm]
  · exact hkeep _ p _ _ p' hr hb hP

theorem made_order (h : Run (code some prio) Initial tr s) {id : ι} {n l order : ℕ}
    (hmade : ∃ y ∈ tr, Creates id n l order y) : s.mem.block id ≠ .fresh ∧ (s.mem.queue id).order = order := by
  obtain ⟨y, hy, _, hlive, _, _, horder⟩ := hmade
  refine made_invariant (fun q => q.order = order) h hy ?_ horder ?_
  · rw [hlive]
    exact nofun
  · intro t p m m' p' hr hb hq
    exact (hr.order_eq hb).trans hq

/-- A message leaves a queue to the task that the signal is for. -/
theorem Runs.taken {m m' : Mem θ ι} {id : ι} (h : Runs some prio t p m m' p') (hb : m.block id ≠ .fresh)
    (htake : (m'.queue id).msgCount < (m.queue id).msgCount) :
    signalForMyTask (m.queue id).firstSusp (m.queue id).order prio (some t) = true := by
  have hkeep : ∀ {j : ι} {q : V2ptMqueue θ}, (m.queue j).msgCount ≤ q.msgCount →
      (m.queue id).msgCount ≤ ((m.setQueue j q).queue id).msgCount := by
    intro j q hq
    by_cases hj : id = j
    · subst hj
      rwa [Mem.setQueue_self]
    · rw [Mem.setQueue_of_ne m q hj]
  cases h with
  | created j _ _ _ _ hf =>
    have hj : id ≠ j := fun hj => hb (hj ▸ hf)
    simp [hj] at htake
  | @fetched p m q a j retcode _ _ _ hsig hq =>
    by_cases hj : id = j
    · rwa [hj]
    · rw [Mem.setQueue_of_ne m _ hj] at htake
      exact absurd htake (Int.lt_irrefl _)
  | sentTail => exact absurd htake (Int.not_lt.mpr (hkeep (by simp [V2ptMqueue.sendMsgTo])))
  | sentFront => exact absurd htake (Int.not_lt.mpr (hkeep (by simp [V2ptMqueue.urgentMsgTo])))
  | sentLate _ _ hq =>
    refine absurd htake (Int.not_lt.mpr (hkeep ?_))
    rw [post_count, hq]
    exact Int.le_add_one (Int.le_refl _)
  | sendDeleted _ hq => exact absurd htake (Int.not_lt.mpr (hkeep (by rw [hq])))
  | receiveDeleted _ _ hq => exact absurd htake (Int.not_lt.mpr (hkeep (by rw [hq])))
  | sendPended => exact absurd htake (Int.not_lt.mpr (hkeep (Int.le_refl _)))
  | sendTimedOut => exact absurd htake (Int.not_lt.mpr (hkeep (Int.le_refl _)))
  | pended => exact absurd htake (Int.not_lt.mpr (hkeep (Int.le_refl _)))
  | receiveTimedOut => exact absurd htake (Int.not_lt.mpr (hkeep (Int.le_refl _)))
  | deleteMarked => exact absurd htake (Int.not_lt.mpr (hkeep (Int.le_refl _)))
  | _ => exact absurd htake (Int.lt_irrefl _)

theorem taken_step {x : QueueTransition θ ι} {id : ι} (hs : Step (code some prio) x.thread x.pre x.post)
    (hb : x.pre.mem.block id ≠ .fresh) (htake : (x.post.mem.queue id).msgCount < (x.pre.mem.queue id).msgCount) :
    signalForMyTask (x.pre.mem.queue id).firstSusp (x.pre.mem.queue id).order prio (some x.thread) = true := by
  obtain ⟨hm, _⟩ | ⟨p, p', _, _, hr, _⟩ := step_cases hs
  · rw [hm] at htake
    exact absurd htake (Int.lt_irrefl _)
  · exact hr.taken hb htake

/-- Whoever takes a message of a queue in order of arrival is at the head of the list. -/
theorem message_to_first {x : QueueTransition θ ι} {id : ι} (hs : Step (code some prio) x.thread x.pre x.post)
    (hb : x.pre.mem.block id ≠ .fresh) (horder : (x.pre.mem.queue id).order = 0)
    (htake : (x.post.mem.queue id).msgCount < (x.pre.mem.queue id).msgCount) :
    (x.pre.mem.queue id).firstSusp.head? = some x.thread := by
  have hsig := taken_step hs hb htake
  rw [horder] at hsig
  exact signalForMyTask_fifo.mp hsig

/-- Whoever takes a message of a queue by priority has the highest priority on the list,
and has waited longest of those that have it. -/
theorem message_to_highest (h : Run (code some prio) Initial tr s) {x : QueueTransition θ ι} (hx : x.pre = s)
    {id : ι} (hs : Step (code some prio) x.thread x.pre x.post)
    (hb : x.pre.mem.block id ≠ .fresh) (horder : (x.pre.mem.queue id).order ≠ 0)
    (htake : (x.post.mem.queue id).msgCount < (x.pre.mem.queue id).msgCount) :
    ∀ u ∈ (x.pre.mem.queue id).firstSusp, prio u ≤ prio x.thread ∧ (u ≠ x.thread → prio u = prio x.thread →
      stamp (arrives (waits .receivers id) x.thread) tr < stamp (arrives (waits .receivers id) u) tr) := by
  have hsel := signalForMyTask_priority horder (taken_step hs hb htake)
  obtain ⟨before, after, hl, hlow⟩ := hsel.split
  intro u hu
  refine ⟨hsel.top u hu, fun hne heq => ?_⟩
  have hafter : u ∈ after := by
    rw [hl] at hu
    obtain hu | hu := List.mem_append.mp hu
    · exact absurd heq (Int.ne_of_lt (hlow u hu))
    · exact (List.mem_cons.mp hu).resolve_left hne
  have horder := list_in_order h .receivers id
  rw [← hx, show (x.pre.mem.queue id).list .receivers = (x.pre.mem.queue id).firstSusp from rfl, hl] at horder
  exact (List.pairwise_cons.mp (List.pairwise_append.mp horder).2.1).1 u hafter

end

end V2lin.Queue
