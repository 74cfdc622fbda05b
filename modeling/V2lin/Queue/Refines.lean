import V2lin.Queue.Deque
import V2lin.Queue.Locks

/-! A queue is a double-ended queue.

Calls without a wait that are made one at a time return, and they return what they return
of the double-ended queue. -/
namespace V2lin.Queue
open Threads V2lin.Task

section
variable {θ ι : Type} [DecidableEq θ] [DecidableEq ι]
variable {prio : θ → ℤ} {t : θ} {p p' : Pc ι} {id : ι} {s s' : QueueState θ ι} {m m' : Mem θ ι}
variable {n l : ℕ} {d : List (List UInt8)} {tr : List (QueueTransition θ ι)} {op : Op}

/-! ### Every call returns -/

/-- The call that a thread is in. -/
def pending : Pc ι → Option Op
  | .findLock op _ | .findScan op _ | .findQueue op _ | .findUnlock op _ _ | .leave op _ _ => some op
  | .sendStart a _ | .sendNotify a _ => some (.send a)
  | .receiveStart a _ | .receiveTest a _ _ | .receiveSleep a _ => some (.receive a)
  | _ => none

/-- A bound on the steps that a call without a wait, or a creation, has left, if its wait
times out; `0` off their ways. -/
def stepsLeft : Ctl (Pc ι) → ℕ
  | .awake (.linkLock _) => 3
  | .awake (.linkAppend _) => 2
  | .awake (.linkUnlock _) => 1
  | .awake (.findLock _ _) => 12
  | .awake (.findScan _ _) => 11
  | .awake (.findQueue _ _) => 10
  | .awake (.findUnlock _ _ _) => 9
  | .awake (.sendStart _ _) | .awake (.receiveStart _ _) => 8
  | .awake (.receiveTest _ _ retcode) => if retcode = .etimedout then 4 else 7
  | .awake (.receiveSleep _ _) => 6
  | .asleep _ _ => 5
  | .awake (.sendNotify _ _) => 3
  | .awake (.leave _ _ _) => 2
  | _ => 0

omit [DecidableEq ι] in
theorem stepsLeft_receiveTest (a : ReceiveArgs) (id : ι) (retcode : Retcode) :
    2 < stepsLeft (.awake (.receiveTest a id retcode)) := by
  simp only [stepsLeft]
  split <;> omega

omit [DecidableEq θ] [DecidableEq ι] in
theorem Within.stepsLeft_pos {listed : Prop} {q : V2ptMqueue θ} (h : Within n l d listed q t p) :
    0 < stepsLeft (.awake p) := by
  cases p
  case findUnlock op j found =>
    cases found
    · exact h.elim
    · simp [stepsLeft]
  case receiveTest a j retcode => exact Nat.lt_of_succ_lt (Nat.lt_of_succ_lt (stepsLeft_receiveTest a j retcode))
  all_goals first
    | exact False.elim h
    | simp [stepsLeft]

/-- Where a call on the queue is after a step: nearer to its end, back with a reply, or
lost to where it needs none. -/
inductive Goes (id : ι) (op : Op) (before after : Ctl (Pc ι)) : Prop where
  | nearer : subject after.point = some id → pending after.point = some op → stepsLeft after < stepsLeft before →
      Goes id op before after
  | back (reply) : after = .awake (.returned op id reply) → Goes id op before after
  | lost : subject after.point = some id → after = .awake after.point → stepsLeft after = 0 → Goes id op before after

theorem Runs.goes (h : Runs some prio t p m m' p') (hp : subject p = some id) (hop : pending p = some op) :
    Goes id op (.awake p) (.awake p') := by
  cases h with
  | found => exact .nearer hp hop (by simp [stepsLeft])
  | notFound => exact .nearer hp hop (by simp [stepsLeft])
  | sendTooLong => exact .nearer hp hop (by simp [stepsLeft])
  | sendFull => exact .nearer hp hop (by simp [stepsLeft])
  | sentTail => exact .nearer hp hop (by simp [stepsLeft])
  | sentFront => exact .nearer hp hop (by simp [stepsLeft])
  | sendPended => exact .lost hp rfl rfl
  | receiveTooShort => exact .nearer hp hop (by simp [stepsLeft])
  | pended =>
    split
    · exact .lost hp rfl rfl
    · exact .nearer hp hop (by simp [stepsLeft])
  | @receiveDeleted _ _ q =>
    rename_i hpoint _ _
    cases hpoint with
    | test =>
      cases q.drained
      · exact .nearer hp hop (stepsLeft_receiveTest ..)
      · exact .lost hp rfl rfl
    | again => cases hop
  | receiveTimedOut hpoint =>
    cases hpoint with
    | test => exact .nearer hp hop (by simp [stepsLeft])
    | again => cases hop
  | fetched hpoint =>
    cases hpoint with
    | test =>
      unfold receivedPoint
      split
      · exact .lost hp rfl rfl
      · exact .nearer hp hop (stepsLeft_receiveTest ..)
    | again => cases hop
  | receiveSleeps hpoint _ _ hret =>
    cases hpoint with
    | test => exact .nearer hp hop (by simp [stepsLeft, hret])
    | again => cases hop
  | receivePolls hpoint =>
    cases hpoint with
    | test => exact .lost hp rfl rfl
    | again => cases hop
  | called _ _ hr => exact absurd (hp.symm.trans (subject_resting hr)) nofun
  | created _ _ _ _ hr => exact absurd (hp.symm.trans (subject_resting hr)) nofun
  | spaceOver hpoint => cases hpoint <;> cases hop
  | spaceTimedOut hpoint => cases hpoint <;> cases hop
  | spaceSleeps hpoint => cases hpoint <;> cases hop
  | spacePolls hpoint => cases hpoint <;> cases hop
  | _ => cases hop

/-- A thread in a call can take a step if the mutexes it does not hold are free. -/
theorem call_step (hfree : ∀ lock : Lock ι, lock.tracked → ¬ Claims (code some prio) held s t lock → s.owner lock = none)
    (hwait : ∀ p n, s.ctl t = .asleep p n → ∃ c m timed next, code some prio t p = .wait c m timed next)
    (hp : subject (s.ctl t).point = some id) (hop : pending (s.ctl t).point = some op) (himm : op.immediate) :
    ∃ s' c, Step (code some prio) t s s' ∧ s'.ctl t = c ∧ Goes id op (s.ctl t) c := by
  cases hc : s.ctl t with
  | awake p =>
    have hclaims : ∀ lock : Lock ι, lock.tracked → lock ∉ held p → s.owner lock = none := by
      intro lock ht hn
      exact hfree lock ht (by rwa [claims_awake hc])
    rw [hc] at hp hop
    cases p
    case findLock op' j =>
      have hlist : s.owner .mqueueListLock = none := hclaims _ trivial nofun
      exact ⟨_, _, Step.lock .none hc rfl hlist, Function.update_self .., .nearer hp hop (by simp [stepsLeft])⟩
    case findQueue op' j =>
      have hqueue : s.owner (.queueLock j) = none := hclaims _ trivial (by simp [held])
      exact ⟨_, _, Step.lock .none hc rfl hqueue, Function.update_self .., .nearer hp hop (by simp [stepsLeft])⟩
    case findUnlock op' j found =>
      refine ⟨_, _, Step.unlock .none hc rfl, Function.update_self .., ?_⟩
      cases hop
      cases hp
      cases found
      · exact .back _ rfl
      · cases op with
        | send a => exact .nearer rfl rfl (by simp [stepsLeft, entry])
        | receive a => exact .nearer rfl rfl (by simp [stepsLeft, entry])
        | numMsgs => exact himm.elim
        | delete => exact himm.elim
    case sendNotify a j =>
      exact ⟨_, _, Step.broadcast .none hc rfl, Function.update_self .., .nearer hp hop (by simp [stepsLeft])⟩
    case receiveSleep a j =>
      exact ⟨_, _, Step.sleep .none hc rfl, Function.update_self .., .nearer hp hop (by simp [stepsLeft])⟩
    case leave op' j reply =>
      refine ⟨_, _, Step.unlock .none hc rfl, Function.update_self .., ?_⟩
      cases hop
      cases hp
      exact .back _ rfl
    case findScan op' j =>
      refine ⟨_, _, Step.run (x := .none) hc rfl rfl, Function.update_self .., ?_⟩
      exact (block_runs (c := .none) rfl rfl : Runs some prio t (.findScan op' j) s.mem _ _).goes hp hop
    case sendStart a j =>
      refine ⟨_, _, Step.run (x := .none) hc rfl rfl, Function.update_self .., ?_⟩
      exact (sendBlock_runs a j s.mem : Runs some prio t _ s.mem _ _).goes hp hop
    case receiveStart a j =>
      refine ⟨_, _, Step.run (x := .none) hc rfl rfl, Function.update_self .., ?_⟩
      exact (receiveBlock_runs : Runs some prio t _ s.mem _ _).goes hp hop
    case receiveTest a j retcode =>
      refine ⟨_, _, Step.run (x := .none) hc rfl rfl, Function.update_self .., ?_⟩
      exact (receiveTestBlock_runs : Runs some prio t _ s.mem _ _).goes hp hop
    all_goals cases hop
  | asleep p k =>
    obtain ⟨c, m, timed, next, hi⟩ := hwait p k hc
    rw [hc] at hp hop
    cases p <;> simp only [code, reduceCtorEq, Instr.wait.injEq] at hi
    case receiveSleep a j =>
      cases hop
      have hqueue : s.owner (.queueLock j) = none := by
        refine hfree _ trivial ?_
        rw [claims_asleep hc]
        rintro ⟨_, m', hm', hne⟩
        exact hne (Option.some.inj hm')
      have htimed : decide (a.maxWait ≠ waitForever) = true := by
        rw [himm.1]
        rfl
      have hcode : code some prio t (.receiveSleep a j) =
          .wait (.queueSend j) (.queueLock j) true (.receiveTest a j) := by
        simp only [code, htimed]
      exact ⟨_, _, Step.timeout .none hc hcode hqueue, Function.update_self .., .nearer hp rfl (by simp [stepsLeft])⟩
    all_goals cases hop

theorem answer_of_subject (h : subject p = some id) : answer id p = none := by
  cases p <;> first | rfl | cases h

omit [DecidableEq θ] in
/-- A step of a call calls nothing else. -/
theorem Goes.callsImmediate (h : Goes id op (s.ctl t) (s'.ctl t)) (himm : op.immediate) :
    CallsImmediate id ⟨s, t, s'⟩ := by
  intro op' hop'
  have hp : (s'.ctl t).point = .findLock op' id := by
    unfold called at hop'
    split at hop'
    · rename_i hp
      split at hop'
      · rename_i hj
        rw [← Option.mem_some.mp hop', ← hj]
        exact hp
      · cases hop'
    · cases hop'
  cases h with
  | nearer _ hop _ =>
    rw [hp] at hop
    cases hop
    exact himm
  | back reply hback =>
    rw [hback] at hp
    cases hp
  | lost _ hawake hzero =>
    rw [hawake, hp] at hzero
    cases hzero

theorem free_of_resting (h : Run (code some prio) Initial tr s) (hrest : ∀ u ≠ t, (s.ctl u).point.resting = true)
    {lock : Lock ι} (ht : lock.tracked) (hclaims : ¬ Claims (code some prio) held s t lock) :
    s.owner lock = none := by
  rw [Option.eq_none_iff_forall_ne_some]
  intro u hu
  have hclaim := (owner_iff ht h).mp hu
  by_cases hut : u = t
  · exact hclaims (hut ▸ hclaim)
  · have hheld := held_resting (hrest u hut)
    unfold Claims at hclaim
    split at hclaim
    all_goals
      rename_i hc
      rw [hc] at hheld
      simp only [Ctl.point_awake, Ctl.point_asleep] at hheld
      simp [hheld] at hclaim

/-- A call that has begun returns if its thread alone runs on. -/
theorem call_returns (h : Run (code some prio) Initial tr s) (hb : s.mem.block id ≠ .fresh) (hl : l < 2 ^ 32)
    (hstage : Stage id n l d s.mem t (s.ctl t).point) (hp : subject (s.ctl t).point = some id)
    (hop : pending (s.ctl t).point = some op) (himm : op.immediate)
    (hrest : ∀ u ≠ t, (s.ctl u).point.resting = true) :
    ∃ tr' s' reply, Run (code some prio) Initial (tr' ++ tr) s' ∧ (∀ y ∈ tr', y.thread = t) ∧
      tr'.filterMap (replied id) = [(op, reply)] := by
  induction hk : stepsLeft (s.ctl t) using Nat.strong_induction_on generalizing tr s with
  | h k ih =>
    obtain ⟨s', c, hs, rfl, hgoes⟩ := call_step (fun lock ht hn => free_of_resting h hrest ht hn)
      (fun p n hc => h.asleep (fun s t p n hi => by rw [hi.idle t]; exact nofun) hc) hp hop himm
    have hadv := stage_step hs hb hl hstage (hgoes.callsImmediate himm)
    cases hgoes with
    | nearer hp' hop' hlt =>
      rw [Advanced, answer_of_subject hp'] at hadv
      obtain ⟨tr', s'', reply, hr, hthread, hreply⟩ := ih _ (hk ▸ hlt) (h.step hs) (block_step hs hb) hadv hp' hop'
        (fun u hu => by rw [hs.ctl_other hu]; exact hrest u hu) rfl
      refine ⟨tr' ++ [⟨s, t, s'⟩], s'', reply, by rwa [List.append_assoc], ?_, ?_⟩
      · intro y hy
        obtain hy | hy := List.mem_append.mp hy
        · exact hthread y hy
        · rw [List.mem_singleton.mp hy]
      · have hnone : replied id ⟨s, t, s'⟩ = none := answer_of_subject hp'
        rw [List.filterMap_append, hreply, List.filterMap_cons, hnone]
        rfl
    | back reply hback =>
      refine ⟨[⟨s, t, s'⟩], s', reply, h.step hs, by simp, ?_⟩
      simp [replied, hback, answer]
    | lost hp' hawake hzero =>
      rw [Advanced, answer_of_subject hp'] at hadv
      have hpos := (hadv.within hp').stepsLeft_pos
      rw [← hawake] at hpos
      omega

/-- Calls without a wait, made one at a time on a queue made for `n` messages of up to `l`
bytes, return what they return of a double-ended queue, and between two of them the
queue's ring holds its messages. A call that has begun returns if its thread alone runs
on. -/
theorem deque_refined {later before : List (QueueTransition θ ι)} {x : QueueTransition θ ι} {order : ℕ}
    (h : Run (code some prio) Initial (later ++ x :: before) s) (hnew : Creates id n l order x)
    (halone : ∀ y ∈ x :: later, Alone id y) (himm : ∀ y ∈ later, CallsImmediate id y) :
    Deque.Explains n l (later.filterMap (replied id)) ∧
      ((∀ t, subject (s.ctl t).point ≠ some id) →
        Holds (s.mem.queue id) n l (Deque.after n l (later.filterMap (replied id)))) ∧
      ∀ t op, subject (s.ctl t).point = some id → pending (s.ctl t).point = some op → op.immediate →
        (∀ u ≠ t, (s.ctl u).point.resting = true) →
        ∃ tr s' reply, Run (code some prio) Initial (tr ++ (later ++ x :: before)) s' ∧ (∀ y ∈ tr, y.thread = t) ∧
          tr.filterMap (replied id) = [(op, reply)] := by
  have hx : Step (code some prio) x.thread x.pre x.post := h.steps x (by simp)
  obtain ⟨hl, hserved⟩ := served_created (linked h.before) hx hnew (halone x (List.mem_cons_self ..))
  have hrun := h.since (fun tr s => s.mem.block id ≠ .fresh ∧ Deque.Explains n l (tr.filterMap (replied id)) ∧
    Served id n l (Deque.after n l (tr.filterMap (replied id))) s) ?_ ?_
  · obtain ⟨hb, hexplains, v, hothers, hstage⟩ := hrun
    refine ⟨hexplains, fun hout => (hstage.elsewhere (hout v)).2.holds, fun t op hp hop himm hrest => ?_⟩
    have hv : t = v := by
      by_contra hne
      exact hothers t hne hp
    exact call_returns h hb hl (hv ▸ hstage) hp hop himm hrest
  · exact ⟨fun hf => Block.noConfusion (hnew.2.1.symm.trans hf), trivial, hserved⟩
  · rintro y tr hy hs ⟨hb, hexplains, hserved⟩
    have hmem : y ∈ later := hy.subset (List.mem_cons_self ..)
    have hstep := served_step hserved hs hb hl (himm y hmem) (halone y (List.mem_cons_of_mem _ hmem))
    refine ⟨block_step hs hb, ?_⟩
    rw [List.filterMap_cons]
    cases hreply : replied id y with
    | none =>
      rw [hreply] at hstep
      exact ⟨hexplains, hstep⟩
    | some call =>
      rw [hreply] at hstep
      exact ⟨⟨hstep.1, hexplains⟩, hstep.2⟩

end

/-- A queue for one message refuses a second one, takes an urgent one, and gives the
urgent one and the first one, and then there is none. -/
def fillAndDrain : List (Fin 2 × Input (Choice ℕ)) :=
  makes 0 7 1 1 0 :: goesOn 0 3 ++ calls 0 (.send ⟨.bytes [5], noWait, 0⟩) 7 :: goesOn 0 7 ++
    calls 0 (.send ⟨.bytes [6], noWait, 0⟩) 7 :: goesOn 0 6 ++
    calls 0 (.send ⟨.bytes [7], noWait, msgPriUrgent⟩) 7 :: goesOn 0 7 ++
    calls 1 (.receive ⟨true, 1, noWait⟩) 7 :: goesOn 1 7 ++
    calls 1 (.receive ⟨true, 0, noWait⟩) 7 :: goesOn 1 6 ++
    calls 1 (.receive ⟨true, 1, noWait⟩) 7 :: goesOn 1 7 ++
    calls 1 (.receive ⟨true, 1, noWait⟩) 7 :: goesOn 1 7 ++ timesOut 1 :: goesOn 1 2

theorem fillAndDrain_refined : ∃ (later : List (QueueTransition (Fin 2) ℕ)) (s : QueueState (Fin 2) ℕ),
    (later.filterMap (replied 7)).map Prod.snd =
      [.failed .objUnavailable, .received [5], .failed .invalidMsgLength, .received [7], .ok,
        .failed .objUnavailable, .ok] ∧
    Deque.Explains 1 1 (later.filterMap (replied 7)) ∧
      ((∀ t, subject (s.ctl t).point ≠ some 7) →
        Holds (s.mem.queue 7) 1 1 (Deque.after 1 1 (later.filterMap (replied 7)))) := by
  obtain ⟨later, x, before, s, hr, hs⟩ := run_of_split_check (code some fun _ => 0) fillAndDrain
    (fillAndDrain.length - 1) (fun later x _ => Creates 7 1 1 0 x ∧
      (later.filterMap (replied 7)).map Prod.snd =
        [.failed .objUnavailable, .received [5], .failed .invalidMsgLength, .received [7], .ok,
          .failed .objUnavailable, .ok] ∧
      (∀ y ∈ x :: later, Alone 7 y) ∧ ∀ y ∈ later, CallsImmediate 7 y)
    boot_initial (by decide)
  obtain ⟨hnew, hreplies, halone, himm⟩ := of_decide_eq_true hs
  have href := deque_refined hr hnew halone himm
  exact ⟨later, s, hreplies, href.1, href.2.1⟩

end V2lin.Queue
