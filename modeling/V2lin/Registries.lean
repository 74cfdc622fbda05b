import V2lin.Sem.Lookup
import V2lin.Queue.Lookup
import V2lin.Watchdog.Lookup

/-! The lists of semaphores, message queues and watchdogs. -/
namespace V2lin
open Threads V2lin.Task Sem

section
variable {θ ι φ : Type} [DecidableEq θ] [DecidableEq ι]

/-- In every run of each library a call, with whatever other arguments, is rejected if and
only if its object has not been linked on the library's list or has been unlinked since, as
long as nobody else is making or deleting it during the call. A call that is rejected has
changed nothing, and a deletion that is not rejected has unlinked its object. -/
theorem unknown_rejected (myTask : θ → Option θ) (prio : θ → Int) :
    (Sem.lookups myTask prio : Lookups θ (Sem.Mem θ ι) _ _ _ _ _ ι).Law ∧
    (Queue.lookups myTask prio : Lookups θ (Queue.Mem θ ι) _ _ _ _ _ ι).Law ∧
    (Watchdog.lookups : Lookups θ (Watchdog.Mem ι φ) _ _ _ _ _ ι).Law :=
  ⟨(Sem.lookups_sound myTask prio).law, (Queue.lookups_sound myTask prio).law, Watchdog.lookups_sound.law⟩

end

/-- Task 0 makes a semaphore and deletes it, then task 1 takes it. -/
def takeDeleted : List (Fin 2 × Input (Sem.Choice Nat)) :=
  Sem.makes 0 7 (.counting 0 1) :: Sem.goesOn 0 3 ++ Sem.calls 0 .delete 7 :: Sem.goesOn 0 11 ++
    Sem.calls 1 (.take noWait) 7 :: Sem.goesOn 1 3

/-- The take is rejected, the semaphore is not live, and nothing has changed. -/
theorem takeDeleted_rejected :
    ∃ (tr w : List (SemTransition (Fin 2) Nat)) (x : SemTransition (Fin 2) Nat) (s : SemState (Fin 2) Nat),
      Run (Sem.code some fun t : Fin 2 => (t : Int)) Sem.Initial (w ++ x :: tr) s ∧
      s.ctl 1 = .awake (.returned (.take noWait) 7 .objIdError) ∧
      ¬ (Sem.lookups some fun t : Fin 2 => (t : Int)).Live tr 7 ∧
      ∀ y ∈ w ++ [x], y.thread = 1 → y.post.mem = y.pre.mem := by
  obtain ⟨w, x, tr, s, hr, hs⟩ := run_of_split_check (Sem.code some fun t : Fin 2 => (t : Int)) takeDeleted 3
    (fun w x s => x.thread = 1 ∧ (Sem.view (x.pre.ctl 1).point).active = false ∧
      Sem.view (x.post.ctl 1).point = .seeks (.take noWait) 7 ∧
      (∀ y ∈ w, (Sem.view (y.pre.ctl y.thread).point).active = true) ∧
      (∀ y ∈ w, ∀ u : Fin 2, Sem.changes (y.pre.ctl u).point ≠ some 7) ∧
      s.ctl 1 = .awake (.returned (.take noWait) 7 .objIdError))
    Sem.boot_initial (by decide)
  obtain ⟨hthread, hbefore, hcalled, hwithin, hundisturbed, hend⟩ := of_decide_eq_true hs
  have hlaw := (@unknown_rejected (Fin 2) Nat Nat _ _ some fun t : Fin 2 => (t : Int)).1 tr w x s (.take noWait) 7 true hr
    ⟨hthread ▸ hbefore, hthread ▸ hcalled, fun y hy _ => hwithin y hy, fun y hy u _ => hundisturbed y hy u⟩
    (by rw [hthread, hend]; rfl)
  rw [hthread] at hlaw
  exact ⟨tr, w, x, s, hr, hend, hlaw.1.mp rfl, hlaw.2.1 rfl⟩

end V2lin
