import V2lin.Sem.Tokens
import V2lin.Queue.Pended

/-! No barging.

However the woken tasks race, a token or a message goes to the task that has waited
longest, or, on a queue by priority, to the one that has waited longest of those with the
highest priority. -/
namespace V2lin
open Threads V2lin.Task V2lin.Sem V2lin.Queue

section
variable {θ ι : Type} [DecidableEq θ] [DecidableEq ι]

/-- In every run of the semaphore library the tasks pended on a semaphore stand on its
list once each, in order of arrival, and whoever takes a token is the first of them; in
every run of the message queue library the tasks pended for a message of a queue stand on
its list once each, in order of arrival, and whoever takes a message is the first of them
if the queue is in order of arrival, and else the first of those with the highest
priority. -/
theorem no_barging (prio : θ → ℤ) :
    (∀ (tr : List (SemTransition θ ι)) (s : SemState θ ι), Run (Sem.code some prio) Sem.Initial tr s → ∀ id,
      (s.mem.sem id).firstSusp.Nodup ∧
      (s.mem.sem id).firstSusp.Pairwise (fun a b =>
        stamp (arrives (Sem.waits id) a) tr < stamp (arrives (Sem.waits id) b) tr) ∧
      ∀ later x before, tr = later ++ x :: before → (∃ args, ∃ y ∈ before, Sem.Creates id args y) →
        (x.post.mem.sem id).tokenCount = (x.pre.mem.sem id).tokenCount - 1 →
        (x.pre.mem.sem id).firstSusp.head? = some x.thread) ∧
    (∀ (tr : List (QueueTransition θ ι)) (s : QueueState θ ι), Run (Queue.code some prio) Queue.Initial tr s → ∀ id,
      (s.mem.queue id).firstSusp.Nodup ∧
      (s.mem.queue id).firstSusp.Pairwise (fun a b =>
        stamp (arrives (Queue.waits .receivers id) a) tr < stamp (arrives (Queue.waits .receivers id) b) tr) ∧
      ∀ later x before, tr = later ++ x :: before → ∀ n l order, (∃ y ∈ before, Queue.Creates id n l order y) →
        (x.post.mem.queue id).msgCount < (x.pre.mem.queue id).msgCount →
        if order = 0 then (x.pre.mem.queue id).firstSusp.head? = some x.thread
        else x.thread ∈ (x.pre.mem.queue id).firstSusp ∧ ∀ u ∈ (x.pre.mem.queue id).firstSusp,
          prio u ≤ prio x.thread ∧ (u ≠ x.thread → prio u = prio x.thread →
            stamp (arrives (Queue.waits .receivers id) x.thread) before <
              stamp (arrives (Queue.waits .receivers id) u) before)) := by
  refine ⟨fun tr s h id => ⟨((Sem.linked h).lists id).nodup, Sem.susp_in_order h id, ?_⟩,
    fun tr s h id => ⟨((Queue.linked h).lists .receivers id).nodup, Queue.list_in_order h .receivers id, ?_⟩⟩
  · rintro later x before rfl ⟨args, y, hy, hmade⟩ htake
    exact token_to_first h (List.mem_append_right _ (List.mem_cons_self ..))
      (initialCount_of_creates h.before hy hmade).1 htake
  · rintro later x before rfl n l order hmade htake
    have hs := h.steps x (List.mem_append_right _ (List.mem_cons_self ..))
    obtain ⟨hb, horder⟩ := made_order h.before hmade
    by_cases hfifo : order = 0
    · rw [if_pos hfifo]
      exact message_to_first hs hb (horder.trans hfifo) htake
    · rw [if_neg hfifo]
      have hprio : (x.pre.mem.queue id).order ≠ 0 := by rwa [horder]
      obtain ⟨first, rest, hl, _⟩ := (signalForMyTask_priority hprio (taken_step hs hb htake)).split
      refine ⟨?_, message_to_highest h.before rfl hs hb hprio htake⟩
      rw [hl]
      exact List.mem_append_right _ (List.mem_cons_self ..)

end

/-- A task takes the only token of a counting semaphore. -/
def takeOnly : List (Fin 3 × Input (Sem.Choice ℕ)) :=
  Sem.makes 0 7 (.counting 0 1) :: Sem.goesOn 0 3 ++ Sem.calls 0 (.take noWait) 7 :: Sem.goesOn 0 6

/-- Two tasks pend on a queue by priority, the one with the lower priority first. A third
sends a message, and the one with the higher priority wakes. -/
def wakeHigher : List (Fin 3 × Input (Queue.Choice ℕ)) :=
  Queue.makes 0 7 2 1 msgQPriority :: Queue.goesOn 0 3 ++
    Queue.calls 1 (.receive ⟨true, 1, waitForever⟩) 7 :: Queue.goesOn 1 7 ++
    Queue.calls 2 (.receive ⟨true, 1, waitForever⟩) 7 :: Queue.goesOn 2 7 ++
    Queue.calls 0 (.send ⟨.bytes [5], noWait, 0⟩) 7 :: Queue.goesOn 0 7 ++ Queue.goesOn 2 2

theorem takeOnly_wakeHigher_ordered :
    (∃ (tr : List (SemTransition (Fin 3) ℕ)) (x : SemTransition (Fin 3) ℕ), x ∈ tr ∧
      (x.pre.mem.sem 7).firstSusp.head? = some x.thread) ∧
    ∃ (tr : List (QueueTransition (Fin 3) ℕ)) (x : QueueTransition (Fin 3) ℕ), x ∈ tr ∧ x.thread = 2 ∧
      (x.pre.mem.queue 7).firstSusp = [1, 2] ∧ ∀ u ∈ (x.pre.mem.queue 7).firstSusp, (u : ℤ) ≤ 2 := by
  obtain ⟨hsem, hqueue⟩ := @no_barging (Fin 3) ℕ _ _ fun t => (t : ℤ)
  refine ⟨?_, ?_⟩
  · obtain ⟨tr, s, hr, hs⟩ := run_of_check (Sem.code some fun t : Fin 3 => (t : ℤ)) takeOnly (fun tr _ => match tr with
        | x :: before => (∃ y ∈ before, Sem.Creates 7 (.counting 0 1) y) ∧
            (x.post.mem.sem 7).tokenCount = (x.pre.mem.sem 7).tokenCount - 1
        | [] => false)
      Sem.boot_initial (by decide)
    cases tr with
    | nil => cases hs
    | cons x before =>
      obtain ⟨hmade, htake⟩ := of_decide_eq_true hs
      exact ⟨x :: before, x, List.mem_cons_self .., (hsem _ s hr 7).2.2 [] x before rfl ⟨_, hmade⟩ htake⟩
  · obtain ⟨tr, s, hr, hs⟩ := run_of_check (Queue.code some fun t : Fin 3 => (t : ℤ)) wakeHigher
      (fun tr _ => match tr with
        | x :: before => (∃ y ∈ before, Queue.Creates 7 2 1 1 y) ∧ x.thread = 2 ∧
            (x.pre.mem.queue 7).firstSusp = [1, 2] ∧
            (x.post.mem.queue 7).msgCount < (x.pre.mem.queue 7).msgCount
        | [] => false)
      Queue.boot_initial (by decide)
    cases tr with
    | nil => cases hs
    | cons x before =>
      obtain ⟨hmade, hthread, hsusp, htake⟩ := of_decide_eq_true hs
      have htop := (hqueue _ s hr 7).2.2 [] x before rfl 2 1 1 hmade htake
      rw [if_neg (by decide), hthread] at htop
      exact ⟨x :: before, x, List.mem_cons_self .., hthread, hsusp, fun u hu => (htop.2 u hu).1⟩

end V2lin
