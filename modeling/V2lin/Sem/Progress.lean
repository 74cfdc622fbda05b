import V2lin.Sem.Tokens
import V2lin.Sem.Wakeups
import V2lin.Threads.Ranks

/-! Takes, gives and flushes are never stuck.

They take `sem_list_lock`, then `sem_lock`, then `smdel_lock`, and leave none of them locked
but for a flush that finds nobody. So as long as nothing is deleted and every flush finds
somebody, whoever is at work on any number of semaphores can go on, or is behind somebody
who can. -/
namespace V2lin.Sem
open Threads V2lin.Task

section
variable {θ ι : Type}

/-- A call at work. -/
def Pc.busy (p : Pc ι) : Bool := !p.resting

/-- The order in which the mutexes are taken. -/
def Lock.rank : Lock ι → ℕ
  | .semListLock => 0
  | .semLock _ => 1
  | .smdelLock _ => 2

/-- The step in which a flush finds nobody, and keeps `sem_lock`. -/
def flushesNobody (x : SemTransition θ ι) : Bool :=
  match x.pre.ctl x.thread with
  | .awake (.flushTest id) => (x.pre.mem.sem id).firstSusp = []
  | _ => false

variable [DecidableEq θ] [DecidableEq ι]

/-- A flush waits until the scheduler is unlocked by somebody else. -/
def AwaitsScheduler (s : SemState θ ι) (t : θ) : Prop :=
  ∃ id, s.ctl t = .awake (.flushTaskLock id) ∧ s.mem.sched.taskLock t = none

variable {myTask : θ → Option θ} {prio : θ → ℤ} {t u : θ} {p : Pc ι} {lock : Lock ι}
variable {s : SemState θ ι} {tr : List (SemTransition θ ι)}

/-- What a thread owns in such a run is what it holds at its point. -/
theorem owner_held (h : Run (code myTask prio) Initial tr s) (hdelete : ∀ x ∈ tr, callsDelete x = false)
    (hflush : ∀ x ∈ tr, flushesNobody x = false) (hown : s.owner lock = some u) :
    ∃ p, s.ctl u = .awake p ∧ lock ∈ held p := by
  obtain hclaim | ⟨x, hx, hforgets⟩ :=
    ((guarded lock).owner_iff (fun s hs => outside_owned s hs.outside) (fun _ hs => hs.owner lock) h).mp hown
  · exact claims_iff.mp hclaim
  · have hfound := hflush x hx
    obtain ⟨later, before, rfl⟩ := List.append_of_mem hx
    have hpoint := undeleting h.before (fun y hy => hdelete y (by simp [hy])) u
    obtain ⟨p, block, c, p', hp, hi, hb, _, hin, hout⟩ := hforgets.block (guarded lock) (h.steps x (by simp))
    rw [hp, Ctl.point_awake] at hpoint
    obtain heq | ⟨id, rfl, _, hnobody⟩ | ⟨id, drained, rfl, _⟩ := (block_runs hi hb).held_eq
    · exact absurd (heq ▸ hin) hout
    · simp [flushesNobody, hforgets.thread, hp, hnobody] at hfound
    · cases hpoint

omit [DecidableEq θ] [DecidableEq ι] in
theorem busy_of_held (h : lock ∈ held p) : p.busy = true := by
  cases hrest : p.resting
  · simp [Pc.busy, hrest]
  · rw [held_resting hrest] at h
    cases h

theorem rank_of_lock {lock' : Lock ι} {next : Pc ι} (hdelete : deletes p = false)
    (hi : code myTask prio t p = .lock lock' next) (hin : lock ∈ held p) : lock.rank < lock'.rank := by
  cases p <;> simp only [code, Instr.lock.injEq, reduceCtorEq] at hi <;>
    first
    | cases hdelete; done
    | (obtain ⟨rfl, _⟩ := hi; simp [held] at hin; done)
    | (obtain ⟨rfl, _⟩ := hi; simp only [held, List.mem_singleton] at hin; subst hin; simp [Lock.rank])

theorem block_possible {block : Choice ι → Mem θ ι → Option (Mem θ ι × Pc ι)} (hdelete : deletes p = false)
    (hbusy : p.busy = true) (htask : ∀ id, p ≠ .flushTaskLock id) (hi : code myTask prio t p = .run block)
    (m : Mem θ ι) : ∃ x r, block x m = some r := by
  cases p <;> simp only [code, Instr.run.injEq, reduceCtorEq] at hi <;> subst hi <;>
    first
    | cases hdelete; done
    | cases hbusy; done
    | exact absurd rfl (htask _)
    | exact ⟨.expired false, _, rfl⟩

theorem ranked (h : Run (code myTask prio) Initial tr s) (hdelete : ∀ x ∈ tr, callsDelete x = false)
    (hflush : ∀ x ∈ tr, flushesNobody x = false) (hsched : ∀ u, ¬ AwaitsScheduler s u) :
    Ranked (code myTask prio) Pc.busy Lock.rank 3 s where
  below lock := by cases lock <;> simp [Lock.rank]
  owner lock u hown := by
    obtain ⟨p, hp, hin⟩ := owner_held h hdelete hflush hown
    exact ⟨p, hp, busy_of_held hin⟩
  rises lock u lock' hown hwaits := by
    obtain ⟨p, hp, hin⟩ := owner_held h hdelete hflush hown
    obtain ⟨q, next, hq, hi⟩ := hwaits
    rw [hp] at hq
    cases hq
    have hpoint := undeleting h hdelete u
    rw [hp, Ctl.point_awake] at hpoint
    exact rank_of_lock hpoint hi hin
  runs u p block hp hbusy hi := by
    have hpoint := undeleting h hdelete u
    rw [hp, Ctl.point_awake] at hpoint
    by_cases htask : ∃ id, p = .flushTaskLock id
    · obtain ⟨id, rfl⟩ := htask
      cases hi
      cases hk : s.mem.sched.taskLock u with
      | none => exact absurd ⟨id, hp, hk⟩ (hsched u)
      | some k => exact ⟨.none, ({s.mem with sched := k}, .flushTest id), by simp [hk]⟩
    · exact block_possible hpoint hbusy (fun id hp => htask ⟨id, hp⟩) hi s.mem

/-- If nothing is deleted, no flush finds nobody and none waits for the scheduler, then
nobody in a call is stuck, unless he sleeps and no broadcast has reached him. -/
theorem semaphores_proceed (h : Run (code myTask prio) Initial tr s) (hdelete : ∀ x ∈ tr, callsDelete x = false)
    (hflush : ∀ x ∈ tr, flushesNobody x = false) (hsched : ∀ u, ¬ AwaitsScheduler s u)
    (hbusy : (s.ctl t).point.busy = true) (hroused : Roused (code myTask prio) s t) :
    Proceeds (code myTask prio) Pc.busy s t :=
  (ranked h hdelete hflush hsched).proceeds .none hbusy (fun _ _ hp => h.asleep initial_awake hp) hroused

end

/-- Task 0 gives a semaphore, task 1 looks for the same semaphore and waits for its lock,
and task 2 waits for the list. -/
def queueUp : List (Fin 3 × Input (Choice ℕ)) :=
  makes 0 7 (.counting 0 1) :: goesOn 0 3 ++ calls 0 .give 7 :: goesOn 0 4 ++
    calls 1 (.take waitForever) 7 :: goesOn 1 2 ++ [calls 2 .give 7]

theorem queueUp_proceeds : ∃ s : SemState (Fin 3) ℕ,
    s.owner (.semLock 7) = some 0 ∧ WaitsFor (code some fun _ => 0) s 1 (.semLock 7) ∧
      s.owner .semListLock = some 1 ∧ WaitsFor (code some fun _ => 0) s 2 .semListLock ∧
      Proceeds (code some fun _ => 0) Pc.busy s 2 := by
  obtain ⟨tr, s, hr, hs⟩ := run_of_check (code some fun _ => 0) queueUp (fun tr s =>
      (∀ x ∈ tr, callsDelete x = false) ∧ (∀ x ∈ tr, flushesNobody x = false) ∧
      s.owner (.semLock 7) = some 0 ∧ s.ctl 1 = .awake (.findSem (.take waitForever) 7) ∧
      s.owner .semListLock = some 1 ∧ s.ctl 2 = .awake (.findLock .give 7) ∧ s.mem.sched.locker = none)
    boot_initial (by decide)
  obtain ⟨hdelete, hflush, h₀, hp₁, h₁, hp₂, hfree⟩ := of_decide_eq_true hs
  refine ⟨s, h₀, ⟨_, _, hp₁, rfl⟩, h₁, ⟨_, _, hp₂, rfl⟩, ?_⟩
  refine semaphores_proceed hr hdelete hflush ?_ (by rw [hp₂]; rfl) (roused_awake hp₂)
  rintro u ⟨id, _, hnone⟩
  simp [SchedLock.taskLock, hfree] at hnone

end V2lin.Sem
