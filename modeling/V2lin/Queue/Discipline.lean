import V2lin.Queue.Locks

/-! The locking discipline of the message queue library.

As long as no sender waits for space, every mutex is released and waited on by its owner
only, and an operation returns without any. `waitToSend` waits on `qfull_lock` without
having taken it, and its polls unlock it. -/
namespace V2lin.Queue
open Threads V2lin.Task

section
variable {θ ι : Type}

/-- The mutexes held at a point. -/
def heldAll (p : Pc ι) : List (Lock ι) :=
  held p ++ match p with
    | .readyNotify _ id | .readyUnlock _ id | .spaceNotify _ id _ | .spaceUnlock _ id _ => [.qfullLock id]
    | .deleteSpaceNotify id | .deleteQfullUnlock id => [.qfullLock id]
    | _ => []

/-- A point in a sender's wait for space: the wait itself, or its polls. -/
def Pc.blocked : Pc ι → Bool
  | .waitSleep _ _ | .waitPoll _ _ _ | .waitPollLock _ _ _ | .waitAgain _ _ _ => true
  | _ => false

theorem heldAll_resting {p : Pc ι} (h : p.resting = true) : heldAll p = [] := by
  cases p <;> first | rfl | cases h

variable [DecidableEq θ] [DecidableEq ι]

/-- The library without its waits for space. -/
def unblocked (myTask : θ → Option θ) (prio : θ → ℤ) (t : θ) (p : Pc ι) :
    Instr (Mem θ ι) (Lock ι) (Cond ι) (Pc ι) (Choice ι) :=
  if p.blocked then .run fun _ _ => none else code myTask prio t p

/-- The step in which a sender goes to sleep or polls for space. -/
def waitsForSpace (x : QueueTransition θ ι) : Bool :=
  match x.pre.ctl x.thread with
  | .awake (.waitSleep _ _) | .awake (.waitPoll _ _ _) => true
  | _ => false

variable {myTask : θ → Option θ} {prio : θ → ℤ} {t : θ} {p p' : Pc ι} {m m' : Mem θ ι}
variable {tr : List (QueueTransition θ ι)} {s s' : QueueState θ ι} {lock : Lock ι}

theorem Runs.heldAll_eq (h : Runs myTask prio t p m m' p') : heldAll p' = heldAll p := by
  have hheld := h.held_eq
  cases h with
  | called _ _ hp => exact (heldAll_resting hp).symm
  | created _ _ _ _ hp => exact (heldAll_resting hp).symm
  | spaceOver hp => cases hp <;> rfl
  | spaceTimedOut hp => cases hp <;> rfl
  | spaceSleeps hp => cases hp <;> rfl
  | spacePolls hp => cases hp <;> rfl
  | @sendDeleted m q => cases q.drained <;> rfl
  | pended => split <;> rfl
  | @receiveDeleted p m q _ _ _ hp => cases hp <;> cases q.drained <;> rfl
  | receiveTimedOut hp => cases hp <;> rfl
  | fetched hp =>
    unfold receivedPoint
    cases hp <;> split <;> rfl
  | receiveSleeps hp => cases hp <;> rfl
  | receivePolls hp => cases hp <;> rfl
  | _ => rfl

/-- Without the waits for space, what is held changes as `heldAll` says. -/
theorem unblocked_guarded (lock : Lock ι) : Guarded (unblocked myTask prio) heldAll lock := by
  intro t p
  unfold unblocked
  split
  · intro c v v' p' hb
    cases hb
  · rename_i hblocked
    by_cases hr : ∃ block, code myTask prio t p = .run block
    · obtain ⟨block, hi⟩ := hr
      rw [hi]
      intro c v v' p' hb hl
      rwa [(block_runs hi hb).heldAll_eq] at hl
    · cases p
      case findUnlock op id found =>
        cases found
        · cases lock <;> simp [code, Instr.Tracked, heldAll, held]
        · cases op <;> cases lock <;> simp [code, Instr.Tracked, heldAll, held, entry]
      all_goals first
        | exact absurd ⟨_, rfl⟩ hr
        | exact absurd rfl hblocked
        | (cases lock <;> simp [code, Instr.Tracked, heldAll, held])

/-- A thread is inside a sender's wait for space. -/
def inside : Ctl (Pc ι) → Bool
  | .awake (.waitPollLock _ _ _) | .awake (.waitAgain _ _ _) => true
  | .asleep (.receiveSleep _ _) _ | .asleep (.deleteWait _) _ => false
  | .asleep _ _ => true
  | _ => false

theorem Runs.not_inside (h : Runs myTask prio t p m m' p') : inside (.awake p') = false := by
  cases h with
  | @sendDeleted m q => cases q.drained <;> rfl
  | pended => split <;> rfl
  | @receiveDeleted p m q => cases q.drained <;> rfl
  | fetched =>
    unfold receivedPoint
    split <;> rfl
  | _ => rfl

theorem next_inside (h : (code myTask prio t p).Next p') (hp : p.blocked = false) : inside (.awake p') = false := by
  cases p
  case findUnlock op id found =>
    cases h
    cases found
    · rfl
    · cases op <;> rfl
  all_goals first
    | exact False.elim h
    | (cases h; rfl)
    | (obtain ⟨r, rfl⟩ := h; rfl)
    | cases hp

omit [DecidableEq θ] [DecidableEq ι] in
/-- A step from outside a sender's wait is not the step of a blocked one. -/
theorem not_blocked (hno : waitsForSpace ⟨s, t, s'⟩ = false)
    (hout : inside (s.ctl t) = false) : (s.ctl t).point.blocked = false := by
  cases hc : s.ctl t with
  | awake p =>
    rw [hc] at hout
    cases p
    case waitSleep a id => simp [waitsForSpace, hc] at hno
    case waitPoll a id retcode => simp [waitsForSpace, hc] at hno
    all_goals first
      | rfl
      | cases hout
  | asleep p n =>
    rw [hc] at hout
    cases p <;> first | rfl | cases hout

theorem inside_step (hs : Step (code myTask prio) t s s') (hno : waitsForSpace ⟨s, t, s'⟩ = false)
    (hout : inside (s.ctl t) = false) : inside (s'.ctl t) = false := by
  cases hc : s'.ctl t with
  | asleep p n =>
    obtain ⟨c, lock, timed, next, hi, hp, _⟩ := hs.falls_asleep hc
    cases p <;> simp only [code, reduceCtorEq] at hi
    case waitSleep a id => simp [waitsForSpace, hp] at hno
    all_goals rfl
  | awake p =>
    obtain ⟨_, hnext⟩ | ⟨q, block, c, _, hi, hb, _⟩ := hs.awake_cases hc
    · exact next_inside hnext (not_blocked hno hout)
    · exact (block_runs hi hb).not_inside

theorem run_not_blocked (h : Run (code myTask prio) Initial tr s) (hno : ∀ x ∈ tr, waitsForSpace x = false) :
    ∀ x ∈ tr, (x.pre.ctl x.thread).point.blocked = false := by
  have hout : ∀ x ∈ tr, ∀ t, inside (x.pre.ctl t) = false := by
    refine h.invariant_pre (fun x => waitsForSpace x = false) (fun s => ∀ t, inside (s.ctl t) = false) ?_ ?_ hno
    · intro s hs t
      rw [hs.idle t]
      rfl
    · intro t s s' hout hs hno u
      by_cases hu : u = t
      · rw [hu]
        exact inside_step hs hno (hout t)
      · rw [hs.ctl_other hu]
        exact hout u
  exact fun x hx => not_blocked (hno x hx) (hout x hx x.thread)

theorem unblocked_eq (h : p.blocked = false) : unblocked myTask prio t p = code myTask prio t p := by
  simp [unblocked, h]

/-- A run in which no sender waits for space is a run without the waits. -/
theorem unblocked_run (h : Run (code myTask prio) Initial tr s) (hno : ∀ x ∈ tr, waitsForSpace x = false) :
    Run (unblocked myTask prio) Initial tr s :=
  h.congr fun x hx => unblocked_eq (run_not_blocked h hno x hx)

theorem initial_unblocked_owned (s : QueueState θ ι) (h : Initial s) :
    Owned (unblocked myTask prio) heldAll lock s := by
  intro t hc
  rw [claims_awake (h.idle t)] at hc
  cases hc

/-- What an awake thread owns then is what it holds at its point. -/
theorem owner_unblocked_iff (h : Run (unblocked myTask prio) Initial tr s) (hp : s.ctl t = .awake p) :
    s.owner lock = some t ↔ lock ∈ heldAll p := by
  rw [(unblocked_guarded lock).owner_iff initial_unblocked_owned (fun _ hs => hs.owner lock) h, claims_awake hp]
  refine or_iff_left ?_
  rintro ⟨x, hx, hf⟩
  obtain ⟨q, block, c, q', _, hi, hb, _, hin, hout⟩ := hf.block (unblocked_guarded lock) (h.steps x hx)
  unfold unblocked at hi
  split at hi
  · cases hi
    cases hb
  · rw [(block_runs hi hb).heldAll_eq] at hout
    exact hout hin

/-- The step gives up only mutexes that its thread owns, and none is left to it if the
step ends its operation. -/
def Disciplined (myTask : θ → Option θ) (prio : θ → ℤ) (x : QueueTransition θ ι) : Prop :=
  (∀ lock, Releases (code myTask prio) lock x → x.pre.owner lock = some x.thread) ∧
    ((x.post.ctl x.thread).point.resting = true → ∀ lock, x.post.owner lock ≠ some x.thread)

theorem disciplined_last (h : Run (code myTask prio) Initial tr s) (hs : Step (code myTask prio) t s s')
    (hno : ∀ x ∈ ⟨s, t, s'⟩ :: tr, waitsForSpace x = false) : Disciplined myTask prio ⟨s, t, s'⟩ := by
  have hrun := unblocked_run (h.step hs) hno
  have hblocked := run_not_blocked (h.step hs) hno _ (List.mem_cons_self ..)
  refine ⟨?_, ?_⟩
  · rintro lock ⟨p, hp, hreleases⟩
    have hp : s.ctl t = .awake p := hp
    rw [hp, Ctl.point_awake] at hblocked
    refine (unblocked_guarded lock).releases_owned initial_unblocked_owned hrun (List.mem_cons_self ..) ⟨p, hp, ?_⟩
    rwa [unblocked_eq hblocked]
  · show (s'.ctl t).point.resting = true → ∀ lock, s'.owner lock ≠ some t
    intro hrest lock
    cases hc : s'.ctl t with
    | awake p =>
      rw [hc, Ctl.point_awake] at hrest
      rw [Ne, owner_unblocked_iff hrun hc, heldAll_resting hrest]
      exact List.not_mem_nil
    | asleep p n =>
      rw [hc, Ctl.point_asleep] at hrest
      obtain ⟨c, lock', timed, next, hi⟩ := hs.asleep hc
      cases p <;> simp only [code, reduceCtorEq] at hi <;> cases hrest

/-- In a run every mutex is released and waited on by its owner only, and no operation
returns with one, if and only if no sender waits for space in it. -/
theorem disciplined_iff (h : Run (code myTask prio) Initial tr s) :
    (∀ x ∈ tr, Disciplined myTask prio x) ↔ ∀ x ∈ tr, waitsForSpace x = false := by
  refine ⟨fun hall => ?_, fun hno x hx => ?_⟩
  · induction h with
    | start _ =>
      intro x hx
      cases hx
    | @step tr s t s' hr hs ih =>
      have hno := ih fun x hx => hall x (List.mem_cons_of_mem _ hx)
      intro x hx
      obtain rfl | hx := List.mem_cons.mp hx
      · -- the first wait gives up a `qfull_lock` that its thread does not own
        rw [Bool.eq_false_iff]
        intro hwaits
        have hgives := (hall _ (List.mem_cons_self ..)).1
        have howns : ∀ p lock, s.ctl t = .awake p → s.owner lock = some t → lock ∈ heldAll p :=
          fun p lock hp ho => (owner_unblocked_iff (unblocked_run hr hno) hp).mp ho
        unfold waitsForSpace at hwaits
        split at hwaits
        · rename_i a id hp
          have hown := hgives (.qfullLock id) ⟨_, hp, .inr ⟨_, _, _, rfl⟩⟩
          exact absurd (howns _ _ hp hown) (by simp [heldAll, held])
        · rename_i a id retcode hp
          have hown := hgives (.qfullLock id) ⟨_, hp, .inl ⟨_, rfl⟩⟩
          exact absurd (howns _ _ hp hown) (by simp [heldAll, held])
        · cases hwaits
      · exact hno x hx
  · have hs := h.steps x hx
    obtain ⟨later, before, rfl⟩ := List.append_of_mem hx
    exact disciplined_last h.before hs fun y hy => hno y (List.mem_append_right _ hy)

end

/-- A queue for one message is full, and task 1 waits for space. -/
def fullWait : List (Fin 2 × Input (Choice ℕ)) :=
  makes 0 7 1 1 0 :: goesOn 0 3 ++ calls 0 (.send ⟨.bytes [5], noWait, 0⟩) 7 :: goesOn 0 7 ++
    calls 1 (.send ⟨.bytes [6], waitForever, 0⟩) 7 :: goesOn 1 8

/-- It waits with a mutex that it does not own. -/
theorem sender_waits_unlocked :
    ¬ ∀ (tr : List (QueueTransition (Fin 2) ℕ)) (s : QueueState (Fin 2) ℕ),
      Run (code some fun _ => 0) Initial tr s → ∀ x ∈ tr, ∀ lock,
        Releases (code some fun _ => 0) lock x → x.pre.owner lock = some x.thread := by
  intro hclaim
  obtain ⟨tr, s, hr, hs⟩ := run_of_check (code some fun _ => 0) fullWait (fun tr _ =>
      ∃ x ∈ tr, x.thread = 1 ∧ x.pre.ctl 1 = .awake (.waitSleep ⟨.bytes [6], waitForever, 0⟩ 7) ∧
        x.pre.owner (.qfullLock 7) = none)
    boot_initial (by decide)
  obtain ⟨x, hx, hthread, hp, hfree⟩ := of_decide_eq_true hs
  have hown := hclaim tr s hr x hx (.qfullLock 7) ⟨_, hthread ▸ hp, .inr ⟨_, _, _, rfl⟩⟩
  rw [hfree] at hown
  cases hown

/-- A sender fills the queue, a receiver empties it, and a deletion finds nobody. -/
def sendReceiveDelete : List (Fin 2 × Input (Choice ℕ)) :=
  makes 0 7 1 1 0 :: goesOn 0 3 ++ calls 0 (.send ⟨.bytes [5], noWait, 0⟩) 7 :: goesOn 0 7 ++
    calls 1 (.receive ⟨true, 1, waitForever⟩) 7 :: goesOn 1 7 ++ calls 0 .delete 7 :: goesOn 0 13

theorem sendReceiveDelete_disciplined : ∃ (tr : List (QueueTransition (Fin 2) ℕ)) (s : QueueState (Fin 2) ℕ),
    s.ctl 0 = .awake (.returned .delete 7 .ok) ∧
      s.ctl 1 = .awake (.returned (.receive ⟨true, 1, waitForever⟩) 7 (.received [5])) ∧
      ∀ x ∈ tr, Disciplined some (fun _ => 0) x := by
  obtain ⟨tr, s, hr, hs⟩ := run_of_check (code some fun _ => 0) sendReceiveDelete (fun tr s =>
      s.ctl 0 = .awake (.returned .delete 7 .ok) ∧
      s.ctl 1 = .awake (.returned (.receive ⟨true, 1, waitForever⟩) 7 (.received [5])) ∧
      ∀ x ∈ tr, waitsForSpace x = false)
    boot_initial (by decide)
  obtain ⟨hdeleted, hreceived, hno⟩ := of_decide_eq_true hs
  exact ⟨tr, s, hdeleted, hreceived, (disciplined_iff hr).mpr hno⟩

end V2lin.Queue
