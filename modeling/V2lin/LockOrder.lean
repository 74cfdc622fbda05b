import V2lin.Queue.Locks
import V2lin.Sem.Embrace
import V2lin.Watchdog.Locks

/-! The list of objects before the object.

The operations of the three libraries look an object up under the lock of its list and
take the object's lock before they give the list up. `msgQDelete` keeps to this order;
`semDelete` on a semaphore without waiting tasks and `wdDelete` take the list while they
hold the object. -/
namespace V2lin
open Threads

section
variable {θ ι φ : Type} [DecidableEq θ] [DecidableEq ι]

/-- In every run of each library no task has an object's lock and waits for the list while
another has the list and waits for that lock: always for queues, for semaphores and
watchdogs as long as no call takes the list to look for the object while its lock is held
by a task that does not give it up first. -/
theorem no_embrace_with_list (myTask : θ → Option θ) (prio : θ → ℤ) :
    (∀ (tr : List (Sem.SemTransition θ ι)) (s : Sem.SemState θ ι), Run (Sem.code myTask prio) Sem.Initial tr s →
      ∀ id, (∀ x ∈ tr, ¬ Sem.Overtakes id x) → ¬ Embrace (Sem.code myTask prio) (.semLock id) .semListLock s) ∧
    (∀ (tr : List (Queue.QueueTransition θ ι)) (s : Queue.QueueState θ ι),
      Run (Queue.code myTask prio) Queue.Initial tr s →
      ∀ id, ¬ Embrace (Queue.code myTask prio) (.queueLock id) .mqueueListLock s) ∧
    ∀ (tr : List (Watchdog.WdogTransition θ ι φ)) (s : Watchdog.WdogState θ ι φ),
      Run Watchdog.code Watchdog.Initial tr s →
      ∀ id, (∀ x ∈ tr, ¬ Watchdog.Overtakes id x) → ¬ Embrace Watchdog.code (.wdogLock id) .wdogListLock s :=
  ⟨fun _ _ h _ hno => Sem.no_sem_embrace h hno, fun _ _ h id => Queue.no_queue_embrace h id,
    fun _ _ h _ hno => Watchdog.no_wdog_embrace h hno⟩

end

/-- Task 0 deletes a semaphore on which nobody is pended; before it takes the list again,
task 1 takes it to give the same semaphore. -/
def giveUnderDelete : List (Fin 2 × Input (Sem.Choice ℕ)) :=
  Sem.makes 0 7 (.binary 0 1) :: Sem.goesOn 0 3 ++ Sem.calls 0 .delete 7 :: Sem.goesOn 0 6 ++
    Sem.calls 1 .give 7 :: Sem.goesOn 1 2

/-- Each has the mutex that the other waits for. -/
theorem give_embraces_delete :
    ¬ ((∀ (tr : List (Sem.SemTransition (Fin 2) ℕ)) (s : Sem.SemState (Fin 2) ℕ),
        Run (Sem.code some fun _ => 0) Sem.Initial tr s →
        ∀ id, ¬ Embrace (Sem.code some fun _ => 0) (.semLock id) .semListLock s) ∧
      (∀ (tr : List (Queue.QueueTransition (Fin 2) ℕ)) (s : Queue.QueueState (Fin 2) ℕ),
        Run (Queue.code some fun _ => 0) Queue.Initial tr s →
        ∀ id, ¬ Embrace (Queue.code some fun _ => 0) (.queueLock id) .mqueueListLock s) ∧
      ∀ (tr : List (Watchdog.WdogTransition (Fin 2) ℕ ℕ)) (s : Watchdog.WdogState (Fin 2) ℕ ℕ),
        Run Watchdog.code Watchdog.Initial tr s →
        ∀ id, ¬ Embrace Watchdog.code (.wdogLock id) .wdogListLock s) := by
  rintro ⟨hclaim, _⟩
  obtain ⟨tr, s, hr, hs⟩ := run_of_check (Sem.code some fun _ => 0) giveUnderDelete (fun _ s =>
      s.owner (.semLock 7) = some 0 ∧ s.ctl 0 = .awake (.deleteListLock 7 false) ∧
      s.owner .semListLock = some 1 ∧ s.ctl 1 = .awake (.findSem .give 7))
    Sem.boot_initial (by decide)
  obtain ⟨h₀, hp₀, h₁, hp₁⟩ := of_decide_eq_true hs
  exact hclaim tr s hr 7 ⟨0, 1, h₀, ⟨_, _, hp₀, rfl⟩, h₁, ⟨_, _, hp₁, rfl⟩⟩

/-- A semaphore on which task 1 is pended is deleted, and a watchdog. -/
def deleteAwaited : List (Fin 2 × Input (Sem.Choice ℕ)) :=
  Sem.makes 0 7 (.binary 0 0) :: Sem.goesOn 0 3 ++ Sem.calls 1 (.take waitForever) 7 :: Sem.goesOn 1 7 ++
    Sem.calls 0 .delete 7 :: Sem.goesOn 0 12 ++ Sem.goesOn 1 8 ++ Sem.goesOn 0 3

def deleteAlone : List (Fin 2 × Input (Watchdog.Choice ℕ ℕ)) :=
  Watchdog.makes 0 7 :: Watchdog.goesOn 0 3 ++ Watchdog.calls 0 .delete 7 :: Watchdog.goesOn 0 5

/-- A call that is about to take the list finds the semaphore's lock free. -/
def findsFree (x : Sem.SemTransition (Fin 2) ℕ) : Bool :=
  match x.pre.ctl x.thread with
  | .awake (.findLock _ _) => decide (x.pre.owner (.semLock 7) = none)
  | _ => true

/-- A call that is about to take the list does so while thread `u` does not wait for it in
a deletion. -/
def looksApart (x : Watchdog.WdogTransition (Fin 2) ℕ ℕ) (u : Fin 2) : Bool :=
  match x.pre.ctl x.thread, x.pre.ctl u with
  | .awake (.validLock _ _), .awake (.deleteListLock _ _) => false
  | _, _ => true

theorem deletions_in_order :
    (∃ s : Sem.SemState (Fin 2) ℕ, s.ctl 0 = .awake (.deleteUnlink 7 true) ∧
      ¬ Embrace (Sem.code some fun _ => 0) (.semLock 7) .semListLock s) ∧
    ∃ s : Watchdog.WdogState (Fin 2) ℕ ℕ, s.ctl 0 = .awake (.deleteUnlink .task 7) ∧
      ¬ Embrace Watchdog.code (.wdogLock 7) .wdogListLock s := by
  obtain ⟨hsem, _, hwdog⟩ := @no_embrace_with_list (Fin 2) ℕ ℕ _ _ some fun _ => 0
  refine ⟨?_, ?_⟩
  · obtain ⟨tr, s, hr, hs⟩ := run_of_check (Sem.code some fun _ => 0) deleteAwaited (fun tr s =>
        s.ctl 0 = .awake (.deleteUnlink 7 true) ∧ ∀ x ∈ tr, findsFree x = true)
      Sem.boot_initial (by decide)
    obtain ⟨hp, hok⟩ := of_decide_eq_true hs
    refine ⟨s, hp, hsem tr s hr 7 fun x hx => ?_⟩
    rintro ⟨⟨op, hfind⟩, u, hu, _⟩
    have hfree := hok x hx
    rw [findsFree, hfind, hu] at hfree
    cases hfree
  · obtain ⟨tr, s, hr, hs⟩ := run_of_check Watchdog.code deleteAlone (fun tr s =>
        s.ctl 0 = .awake (.deleteUnlink .task 7) ∧ ∀ x ∈ tr, ∀ u, looksApart x u = true)
      Watchdog.boot_initial (by decide)
    obtain ⟨hp, hok⟩ := of_decide_eq_true hs
    refine ⟨s, hp, hwdog tr s hr 7 fun x hx => ?_⟩
    rintro ⟨⟨use, hfind⟩, u, frame, hu⟩
    have happart := hok x hx u
    rw [looksApart, hfind, hu] at happart
    cases happart

end V2lin
