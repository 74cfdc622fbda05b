import V2lin.Task.Arrival
import V2lin.Task.SuspList

/-! Lists of pended tasks over a run.

A task links itself on the list when it comes to wait and unlinks itself when it leaves.
Then the list is the set of the waiting tasks, each once, in the order in which they
came. -/
namespace V2lin.Task
open Threads

section
variable {θ σ μ κ π χ : Type} [DecidableEq θ] [DecidableEq μ] [DecidableEq κ]

/-- The list is the waiting tasks, each once. -/
structure Lists (l : List θ) (waits : θ → Bool) : Prop where
  mem : ∀ t, t ∈ l ↔ waits t = true
  nodup : l.Nodup

/-- How a step treats a list and the tasks that wait on it. -/
inductive ListStep (l : State θ σ μ κ π → List θ) (waits : State θ σ μ κ π → θ → Bool)
    (x : Transition θ σ μ κ π) : Prop where
  | same : l x.post = l x.pre → waits x.post x.thread = waits x.pre x.thread → ListStep l waits x
  | joined : waits x.pre x.thread = false → waits x.post x.thread = true →
      l x.post = linkSuspTask (l x.pre) (some x.thread) → ListStep l waits x
  | left : waits x.pre x.thread = true → waits x.post x.thread = false →
      l x.post = unlinkSuspTask (l x.pre) (some x.thread) → ListStep l waits x

/-- The step in which task `t` comes to wait. -/
def arrives (waits : State θ σ μ κ π → θ → Bool) (t : θ) (x : Transition θ σ μ κ π) : Bool :=
  !waits x.pre t && waits x.post t

variable {l : State θ σ μ κ π → List θ} {waits : State θ σ μ κ π → θ → Bool} {x : Transition θ σ μ κ π}

omit [DecidableEq μ] [DecidableEq κ] in
theorem ListStep.lists (h : ListStep l waits x) (hother : ∀ u ≠ x.thread, waits x.post u = waits x.pre u)
    (hl : Lists (l x.pre) (waits x.pre)) : Lists (l x.post) (waits x.post) := by
  cases h with
  | same heq hwait =>
    refine ⟨fun u => ?_, heq ▸ hl.nodup⟩
    rw [heq, hl.mem u]
    by_cases hu : u = x.thread
    · rw [hu, hwait]
    · rw [hother u hu]
  | joined hout hin heq =>
    have hnot : x.thread ∉ l x.pre := by simp [hl.mem, hout]
    rw [heq]
    refine ⟨fun u => ?_, nodup_linkSuspTask hl.nodup hnot⟩
    rw [mem_linkSuspTask hnot, hl.mem u]
    by_cases hu : u = x.thread
    · simp [hu, hin]
    · simp [hu, hother u hu]
  | left hin hout heq =>
    rw [heq]
    refine ⟨fun u => ?_, nodup_unlinkSuspTask hl.nodup⟩
    rw [mem_unlinkSuspTask hl.nodup, hl.mem u]
    by_cases hu : u = x.thread
    · simp [hu, hout]
    · simp [hu, hother u hu]

omit [DecidableEq μ] [DecidableEq κ] in
theorem ListStep.moved (h : ListStep l waits x) (hother : ∀ u ≠ x.thread, waits x.post u = waits x.pre u)
    (hl : Lists (l x.pre) (waits x.pre)) : Moved l (arrives waits) x := by
  have hnobody : ∀ u ≠ x.thread, arrives waits u x = false := by
    intro u hu
    simp [arrives, hother u hu]
  cases h with
  | same heq hwait =>
    refine .departure (heq ▸ List.Sublist.refl _) fun u => ?_
    by_cases hu : u = x.thread
    · simp [arrives, hu, hwait]
    · exact hnobody u hu
  | joined hout hin heq =>
    have hnot : x.thread ∉ l x.pre := by simp [hl.mem, hout]
    refine .arrival (heq.trans (linkSuspTask_of_notMem hnot)) hnot fun u => ?_
    by_cases hu : u = x.thread
    · simp [arrives, hu, hout, hin]
    · simp [hnobody u hu, hu]
  | left hin hout heq =>
    refine .departure ?_ fun u => ?_
    · rw [heq]
      exact List.erase_sublist
    · by_cases hu : u = x.thread
      · simp [arrives, hu, hout]
      · exact hnobody u hu

end

end V2lin.Task
