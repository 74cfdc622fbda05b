import V2lin.Queue.Drains
import V2lin.Threads.Ranks

/-! The message queue library is never stuck if no sender waits for space.

Every call takes `mqueue_list_lock`, then `queue_lock`, then `qdlet_lock` and `qfull_lock`,
and leaves none of them locked but for a sender that has waited for space, which returns
with `qfull_lock`. A deletion takes the scheduler lock while it has `queue_lock`. -/
namespace V2lin.Queue
open Threads V2lin.Task

section
variable {θ ι : Type}

/-- The order in which the mutexes are taken. -/
def Lock.rank : Lock ι → ℕ
  | .mqueueListLock => 0
  | .queueLock _ => 1
  | .qdletLock _ => 2
  | .qfullLock _ => 3

variable [DecidableEq θ] [DecidableEq ι]

/-- A deletion waits until the scheduler is unlocked by somebody else. -/
def AwaitsScheduler (s : QueueState θ ι) (t : θ) : Prop :=
  ∃ id, s.ctl t = .awake (.deleteTaskLock id) ∧ s.mem.sched.taskLock t = none

variable {prio : θ → ℤ} {t u : θ} {p : Pc ι} {lock : Lock ι} {s : QueueState θ ι} {tr : List (QueueTransition θ ι)}

/-- What a thread owns in such a run is what it holds at its point. -/
theorem owner_heldAll (h : Run (code some prio) Initial tr s) (hno : ∀ x ∈ tr, waitsForSpace x = false)
    (hown : s.owner lock = some u) : ∃ p, s.ctl u = .awake p ∧ lock ∈ heldAll p := by
  have hrun := unblocked_run h hno
  cases hp : s.ctl u with
  | awake p => exact ⟨p, rfl, (owner_unblocked_iff hrun hp).mp hown⟩
  | asleep p n =>
    obtain ⟨c, m, timed, next, hi⟩ := h.asleep initial_awake hp
    obtain hclaim | ⟨x, hx, hforgets⟩ := ((unblocked_guarded lock).owner_iff initial_unblocked_owned
      (fun _ hs => hs.owner lock) hrun).mp hown
    · rw [claims_asleep hp] at hclaim
      obtain ⟨hin, m', hw, hne⟩ := hclaim
      cases p <;> simp only [code, reduceCtorEq] at hi <;> simp [unblocked, Pc.blocked, code, Instr.waitMutex] at hw <;>
        simp [heldAll, held] at hin
      all_goals exact absurd (hin.trans hw) hne
    · obtain ⟨q, block, c, q', _, hi, hb, _, hin, hout⟩ := hforgets.block (unblocked_guarded lock) (hrun.steps x hx)
      unfold unblocked at hi
      split at hi
      · cases hi
        cases hb
      · rw [(block_runs hi hb).heldAll_eq] at hout
        exact absurd hin hout

omit [DecidableEq θ] [DecidableEq ι] in
theorem busy_of_heldAll (h : lock ∈ heldAll p) : p.busy = true := by
  cases hrest : p.resting
  · simp [Pc.busy, hrest]
  · rw [heldAll_resting hrest] at h
    cases h

theorem rank_of_lock {lock' : Lock ι} {next : Pc ι} (hi : code some prio t p = .lock lock' next)
    (hin : lock ∈ heldAll p) : lock.rank < lock'.rank := by
  cases p <;> simp only [code, Instr.lock.injEq, reduceCtorEq] at hi <;>
    first
    | (obtain ⟨rfl, _⟩ := hi; simp [heldAll, held] at hin; done)
    | (obtain ⟨rfl, _⟩ := hi; simp only [heldAll, held, List.append_nil, List.mem_singleton] at hin; subst hin;
        simp [Lock.rank])

theorem ranked (h : Run (code some prio) Initial tr s) (hno : ∀ x ∈ tr, waitsForSpace x = false)
    (hsched : ∀ u, ¬ AwaitsScheduler s u) : Ranked (code some prio) Pc.busy Lock.rank 4 s where
  below lock := by cases lock <;> simp [Lock.rank]
  owner lock u hown := by
    obtain ⟨p, hp, hin⟩ := owner_heldAll h hno hown
    exact ⟨p, hp, busy_of_heldAll hin⟩
  rises lock u lock' hown hwaits := by
    obtain ⟨p, hp, hin⟩ := owner_heldAll h hno hown
    obtain ⟨q, next, hq, hi⟩ := hwaits
    rw [hp] at hq
    cases hq
    exact rank_of_lock hi hin
  runs u p block hp hbusy hi := by
    by_cases htask : ∃ id, p = .deleteTaskLock id
    · obtain ⟨id, rfl⟩ := htask
      cases hi
      cases hk : s.mem.sched.taskLock u with
      | none => exact absurd ⟨id, hp, hk⟩ (hsched u)
      | some k => exact ⟨.none, ({s.mem with sched := k}, .deleteTest id), by simp [hk]⟩
    · exact block_possible hbusy (fun id hp => htask ⟨id, hp⟩) hi s.mem

/-- If no sender has waited for space and no deletion waits for the scheduler, then nobody
in a call is stuck, unless he sleeps and no broadcast has reached him. -/
theorem queues_proceed (h : Run (code some prio) Initial tr s) (hno : ∀ x ∈ tr, waitsForSpace x = false)
    (hsched : ∀ u, ¬ AwaitsScheduler s u) (hbusy : (s.ctl t).point.busy = true)
    (hroused : Roused (code some prio) s t) : Proceeds (code some prio) Pc.busy s t :=
  (ranked h hno hsched).proceeds .none hbusy (fun _ _ hp => h.asleep initial_awake hp) hroused

end

/-- Task 0 receives from a queue, task 1 looks for the same queue and waits for its lock, and
task 2 waits for the list. -/
def receivesAhead : List (Fin 3 × Input (Choice ℕ)) :=
  makes 0 7 1 1 0 :: goesOn 0 3 ++ calls 0 (.receive ⟨true, 1, waitForever⟩) 7 :: goesOn 0 4 ++
    calls 1 (.send ⟨.bytes [5], noWait, 0⟩) 7 :: goesOn 1 2 ++ [calls 2 .delete 7]

theorem receivesAhead_proceeds : ∃ s : QueueState (Fin 3) ℕ,
    s.owner (.queueLock 7) = some 0 ∧ WaitsFor (code some fun _ => 0) s 1 (.queueLock 7) ∧
      s.owner .mqueueListLock = some 1 ∧ WaitsFor (code some fun _ => 0) s 2 .mqueueListLock ∧
      Proceeds (code some fun _ => 0) Pc.busy s 2 := by
  obtain ⟨tr, s, hr, hs⟩ := run_of_check (code some fun _ => 0) receivesAhead (fun tr s =>
      (∀ x ∈ tr, waitsForSpace x = false) ∧ s.owner (.queueLock 7) = some 0 ∧
      s.ctl 1 = .awake (.findQueue (.send ⟨.bytes [5], noWait, 0⟩) 7) ∧
      s.owner .mqueueListLock = some 1 ∧ s.ctl 2 = .awake (.findLock .delete 7) ∧ s.mem.sched.locker = none)
    boot_initial (by decide)
  obtain ⟨hno, h₀, hp₁, h₁, hp₂, hfree⟩ := of_decide_eq_true hs
  refine ⟨s, h₀, ⟨_, _, hp₁, rfl⟩, h₁, ⟨_, _, hp₂, rfl⟩, ?_⟩
  refine queues_proceed hr hno ?_ (by rw [hp₂]; rfl) (roused_awake hp₂)
  rintro u ⟨id, _, hnone⟩
  simp [SchedLock.taskLock, hfree] at hnone

end V2lin.Queue
