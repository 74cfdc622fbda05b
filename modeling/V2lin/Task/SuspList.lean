import Mathlib.Algebra.Order.Ring.Int
import Mathlib.Data.List.TakeWhile

/-! The lists of pended tasks.

A semaphore and a queue keep the tasks that wait for them on lists threaded
through the tasks' control blocks. A list is modelled as the list of its tasks,
the head of the chain first. `task_list_lock` is taken and released inside each
operation and nothing is taken under it, so each is one block. -/
namespace V2lin.Task

section
variable {θ : Type} [DecidableEq θ]

/-- `link_susp_task`. The entry's own link is cleared before the walk, so an entry
that is already on the list cuts off whatever stood behind it. -/
def linkSuspTask (listHead : List θ) : Option θ → List θ
  | none => listHead
  | some newEntry => listHead.takeWhile (· ≠ newEntry) ++ [newEntry]

/-- `unlink_susp_task`. -/
def unlinkSuspTask (listHead : List θ) : Option θ → List θ
  | none => listHead
  | some entry => listHead.erase entry

/-- The scan of `signal_for_my_task`: a later task is selected only if its priority
is strictly higher. -/
def selectTask (prio : θ → Int) : θ → List θ → θ
  | signalled, [] => signalled
  | signalled, t :: rest => selectTask prio (if prio t > prio signalled then t else signalled) rest

/-- The task that a signal on the list is for. -/
def signalledTask (listHead : List θ) (pendOrder : Nat) (prio : θ → Int) : Option θ :=
  match listHead with
  | [] => none
  | head :: rest => if pendOrder ≠ 0 then some (selectTask prio head (head :: rest)) else some head

/-- `signal_for_my_task`, called by the thread whose control block is `me`. -/
def signalForMyTask (listHead : List θ) (pendOrder : Nat) (prio : θ → Int) (me : Option θ) : Bool :=
  signalledTask listHead pendOrder prio == me

/-! ### Linking and unlinking -/

theorem takeWhile_of_notMem {l : List θ} {e : θ} (h : e ∉ l) : l.takeWhile (· ≠ e) = l := by
  rw [List.takeWhile_eq_self_iff]
  intro x hx
  simpa using ne_of_mem_of_not_mem hx h

theorem takeWhile_of_split {before after : List θ} {e : θ} (h : e ∉ before) :
    (before ++ e :: after).takeWhile (· ≠ e) = before := by
  rw [List.takeWhile_append, if_pos (by rw [takeWhile_of_notMem h]), List.takeWhile_cons_of_neg (by simp),
    List.append_nil]

theorem linkSuspTask_of_notMem {l : List θ} {e : θ} (h : e ∉ l) : linkSuspTask l (some e) = l ++ [e] := by
  simp only [linkSuspTask, takeWhile_of_notMem h]

theorem mem_linkSuspTask {l : List θ} {e x : θ} (h : e ∉ l) :
    x ∈ linkSuspTask l (some e) ↔ x = e ∨ x ∈ l := by
  rw [linkSuspTask_of_notMem h, List.mem_append, List.mem_singleton, or_comm]

theorem mem_unlinkSuspTask {l : List θ} {e x : θ} (h : l.Nodup) :
    x ∈ unlinkSuspTask l (some e) ↔ x ≠ e ∧ x ∈ l :=
  h.mem_erase_iff

theorem nodup_linkSuspTask {l : List θ} {e : θ} (h : l.Nodup) (he : e ∉ l) :
    (linkSuspTask l (some e)).Nodup := by
  rw [linkSuspTask_of_notMem he, List.nodup_append]
  refine ⟨h, List.pairwise_singleton _ e, ?_⟩
  intro a ha b hb hab
  rw [List.mem_singleton.mp hb] at hab
  exact he (hab ▸ ha)

theorem nodup_unlinkSuspTask {l : List θ} {e : θ} (h : l.Nodup) : (unlinkSuspTask l (some e)).Nodup :=
  h.erase e

/-! ### Selection -/

/-- Everything before the selected task has a lower priority, and nothing has a
higher one. -/
structure Selected (prio : θ → Int) (l : List θ) (t : θ) : Prop where
  split : ∃ before after, l = before ++ t :: after ∧ ∀ x ∈ before, prio x < prio t
  top : ∀ x ∈ l, prio x ≤ prio t

omit [DecidableEq θ] in
theorem selectTask_selected (prio : θ → Int) (head : θ) (l : List θ) :
    Selected prio (head :: l) (selectTask prio head l) := by
  induction l generalizing head with
  | nil => exact ⟨⟨[], [], rfl, by simp⟩, by simp [selectTask]⟩
  | cons a rest ih =>
    by_cases h : prio a > prio head
    · -- the head is passed over: it has a lower priority than `a`, hence than the winner
      have hsel : selectTask prio head (a :: rest) = selectTask prio a rest := by
        simp only [selectTask, if_pos h]
      obtain ⟨⟨before, after, hl, hb⟩, htop⟩ := ih a
      rw [hsel]
      have ha := htop a (List.mem_cons_self ..)
      refine ⟨⟨head :: before, after, by rw [hl]; rfl, ?_⟩, ?_⟩
      · intro x hx
        rcases List.mem_cons.mp hx with rfl | hx
        · omega
        · exact hb x hx
      · intro x hx
        rcases List.mem_cons.mp hx with rfl | hx
        · omega
        · exact htop x hx
    · have hsel : selectTask prio head (a :: rest) = selectTask prio head rest := by
        simp only [selectTask, if_neg h]
      obtain ⟨⟨before, after, hl, hb⟩, htop⟩ := ih head
      rw [hsel]
      generalize selectTask prio head rest = winner at hl hb htop ⊢
      have hh := htop head (List.mem_cons_self ..)
      refine ⟨?_, ?_⟩
      · cases before with
        | nil =>
          obtain ⟨rfl, _⟩ := List.cons.inj hl
          exact ⟨[], a :: rest, rfl, by simp⟩
        | cons b bs =>
          obtain ⟨rfl, hrest⟩ := List.cons.inj hl
          refine ⟨head :: a :: bs, after, by rw [hrest]; rfl, ?_⟩
          have hlt := hb head (List.mem_cons_self ..)
          intro x hx
          rcases List.mem_cons.mp hx with rfl | hx
          · exact hlt
          · rcases List.mem_cons.mp hx with rfl | hx
            · omega
            · exact hb x (List.mem_cons_of_mem _ hx)
      · intro x hx
        rcases List.mem_cons.mp hx with rfl | hx
        · exact hh
        · rcases List.mem_cons.mp hx with rfl | hx
          · omega
          · exact htop x (List.mem_cons_of_mem _ hx)

omit [DecidableEq θ] in
theorem signalledTask_fifo (l : List θ) (prio : θ → Int) : signalledTask l 0 prio = l.head? := by
  cases l <;> rfl

omit [DecidableEq θ] in
/-- Only a task on the list is signalled. -/
theorem mem_of_signalledTask {l : List θ} {pendOrder : Nat} {prio : θ → Int} {t : θ}
    (h : signalledTask l pendOrder prio = some t) : t ∈ l := by
  cases l with
  | nil => cases h
  | cons head rest =>
    rw [signalledTask] at h
    split at h
    · obtain ⟨before, after, hl, _⟩ := (selectTask_selected prio head (head :: rest)).split
      rw [Option.some.inj h] at hl
      have hin : t ∈ head :: head :: rest := by
        rw [hl]
        exact List.mem_append_right _ (List.mem_cons_self ..)
      obtain rfl | hin := List.mem_cons.mp hin
      · exact List.mem_cons_self ..
      · exact hin
    · rw [Option.some.inj h]
      exact List.mem_cons_self ..

/-- In a list in order of arrival the signal is for its head. -/
theorem signalForMyTask_fifo {l : List θ} {prio : θ → Int} {me : Option θ} :
    signalForMyTask l 0 prio me = true ↔ l.head? = me := by
  rw [signalForMyTask, signalledTask_fifo, beq_iff_eq]

/-- In a list by priority the signal is for the selected task. -/
theorem signalForMyTask_priority {l : List θ} {pendOrder : Nat} {prio : θ → Int} {t : θ}
    (hp : pendOrder ≠ 0) (h : signalForMyTask l pendOrder prio (some t) = true) : Selected prio l t := by
  cases l with
  | nil => cases h
  | cons head rest =>
    rw [signalForMyTask, signalledTask, if_pos hp, beq_iff_eq, Option.some.injEq] at h
    have hself : selectTask prio head (head :: rest) = selectTask prio head rest := by
      simp [selectTask]
    rw [← h, hself]
    exact selectTask_selected prio head rest

end

end V2lin.Task
