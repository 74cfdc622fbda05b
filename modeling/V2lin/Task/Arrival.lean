import V2lin.Threads.Machine

/-! Lists in order of arrival.

The stamp of an event is the number of steps that the run had when it last happened.
A list to which every step appends its thread, or from which it takes some away, is in
the order of the stamps of its members' arrivals. -/
namespace V2lin.Task
open Threads

section
variable {θ σ μ κ π χ : Type} [DecidableEq θ] [DecidableEq μ] [DecidableEq κ]

/-- When the event last happened; `0` if it never has. -/
def stamp (event : Transition θ σ μ κ π → Bool) : List (Transition θ σ μ κ π) → Nat
  | [] => 0
  | x :: tr => if event x then tr.length + 1 else stamp event tr

omit [DecidableEq θ] [DecidableEq μ] [DecidableEq κ] in
theorem stamp_le (event : Transition θ σ μ κ π → Bool) (tr : List (Transition θ σ μ κ π)) :
    stamp event tr ≤ tr.length := by
  induction tr with
  | nil => exact Nat.le_refl _
  | cons x tr ih =>
    unfold stamp
    split
    · exact Nat.le_refl _
    · exact Nat.le_succ_of_le ih

/-- How a step treats the list `l`: it appends its thread, which arrives, or takes
members away, and nobody else arrives. -/
inductive Moved (l : State θ σ μ κ π → List θ) (arrives : θ → Transition θ σ μ κ π → Bool)
    (x : Transition θ σ μ κ π) : Prop where
  | arrival : l x.post = l x.pre ++ [x.thread] → x.thread ∉ l x.pre → (∀ t, arrives t x = true ↔ t = x.thread) →
      Moved l arrives x
  | departure : (l x.post).Sublist (l x.pre) → (∀ t, arrives t x = false) → Moved l arrives x

variable {code : θ → π → Instr σ μ κ π χ} {Init : State θ σ μ κ π → Prop}
variable {tr : List (Transition θ σ μ κ π)} {s : State θ σ μ κ π}

/-- The list is in the order in which its members last arrived. -/
theorem in_order_of_arrival (l : State θ σ μ κ π → List θ) (arrives : θ → Transition θ σ μ κ π → Bool)
    (h : Run code Init tr s) (hinit : ∀ s, Init s → l s = []) (hmoved : ∀ x ∈ tr, Moved l arrives x) :
    (l s).Pairwise fun a b => stamp (arrives a) tr < stamp (arrives b) tr := by
  induction h with
  | start hi =>
    rw [hinit _ hi]
    exact List.Pairwise.nil
  | @step tr s t s' hr hs ih =>
    have hold := ih fun x hx => hmoved x (List.mem_cons_of_mem _ hx)
    cases hmoved _ (List.mem_cons_self ..) with
    | arrival hl hnew ha =>
      -- the newcomer's stamp is the whole run, everybody else's is older
      have hstay : ∀ a ∈ l s, stamp (arrives a) (⟨s, t, s'⟩ :: tr) = stamp (arrives a) tr := by
        intro a hal
        have hne : a ≠ t := fun h => hnew (h ▸ hal)
        simp [stamp, ha, hne]
      have hnow : stamp (arrives t) (⟨s, t, s'⟩ :: tr) = tr.length + 1 := by
        simp [stamp, ha]
      show (l s').Pairwise _
      rw [show l s' = l s ++ [t] from hl, List.pairwise_append]
      refine ⟨hold.imp_of_mem fun ha hb hlt => ?_, List.pairwise_singleton _ _, ?_⟩
      · rwa [hstay _ ha, hstay _ hb]
      · intro a hal b hb
        rw [List.mem_singleton.mp hb, hstay a hal, hnow]
        exact Nat.lt_succ_of_le (stamp_le _ tr)
    | departure hl ha =>
      refine (hold.sublist hl).imp fun hlt => ?_
      simpa [stamp, ha] using hlt

end

end V2lin.Task
