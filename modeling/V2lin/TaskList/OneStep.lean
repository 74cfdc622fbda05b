import V2lin.Lifecycle.Code
import V2lin.TaskList.Lookups

/-! The lookups of the other models.

There `my_task` and `task_for` are one step, here they are loops without `task_list_lock`. If
what such a loop looks for is in one control block at most, and this one is not taken out
meanwhile, the loop answers as one step would where it begins, or where it ends. -/
namespace V2lin.TaskList
open Threads V2lin.Lists

section
variable {θ τ ι : Type} [DecidableEq θ] [DecidableEq τ]
variable {ids : τ → ℤ} {t : θ} {l k : List τ} {tr w : List (ListTransition θ τ)} {x : ListTransition θ τ}
variable {s : ListState θ τ} {caller : Caller τ} {q q' : Search} {r : Option τ} {u : τ} {tid : ℤ} {matching : τ → Bool}

/-! ### What is met -/

omit [DecidableEq θ] [DecidableEq τ] in
theorem met_start (hu : u ∈ l) : u ∈ met l w := by
  induction w with
  | nil => exact hu
  | cons y w ih =>
    simp only [met, List.foldr_cons] at ih ⊢
    split
    · exact List.mem_append_left _ ih
    · exact ih

omit [DecidableEq θ] in
theorem met_of_listed (hu : u ∈ listed l (w ++ tr)) : u ∈ met (listed l tr) w := by
  induction w with
  | nil => exact hu
  | cons y w ih =>
    simp only [listed, met, List.cons_append, List.foldr_cons] at ih hu ⊢
    cases he : edit (y.pre.ctl y.thread).point with
    | none =>
      rw [he] at hu
      exact ih hu
    | some e =>
      rw [he] at hu
      cases e with
      | link n => exact (List.mem_append.mp hu).elim (fun h => List.mem_append_left _ (ih h)) (List.mem_append_right _)
      | unlink z => exact ih (List.mem_of_mem_erase hu)

omit [DecidableEq θ] in
/-- What is met and not taken out is still on the list. -/
theorem listed_of_met (hu : u ∈ met (listed l tr) w)
    (hstay : ∀ y ∈ w, edit (y.pre.ctl y.thread).point ≠ some (.unlink u)) : u ∈ listed l (w ++ tr) := by
  induction w with
  | nil => exact hu
  | cons y w ih =>
    have hrest := ih
    simp only [listed, met, List.cons_append, List.foldr_cons] at hrest hu ⊢
    have hstay' : ∀ z ∈ w, edit (z.pre.ctl z.thread).point ≠ some (.unlink u) := fun z hz =>
      hstay z (List.mem_cons_of_mem _ hz)
    have hy := hstay y (List.mem_cons_self ..)
    cases he : edit (y.pre.ctl y.thread).point with
    | none =>
      rw [he] at hu
      exact hrest hu hstay'
    | some e =>
      rw [he] at hu hy
      cases e with
      | link n => exact (List.mem_append.mp hu).elim (fun h => List.mem_append_left _ (hrest h hstay')) (List.mem_append_right _)
      | unlink z => exact (List.mem_erase_of_ne fun h => hy (by rw [h])).mpr (hrest hu hstay')

/-! ### A loop as one step -/

omit [DecidableEq τ] in
theorem find_of_unique (hu : u ∈ l) (hm : matching u = true) (hunique : ∀ v ∈ l, matching v = true → v = u) :
    l.find? matching = some u := by
  cases hf : l.find? matching with
  | none => exact absurd hm (List.find?_eq_none.mp hf u hu)
  | some v => rw [hunique v (List.mem_of_find?_eq_some hf) (List.find?_some hf)]

/-- The states from the step `x`, with which a loop begins, to the state `s`. -/
def during (x : ListTransition θ τ) (w : List (ListTransition θ τ)) (s : ListState θ τ) : List (ListState θ τ) :=
  s :: (w ++ [x]).map Transition.pre

/-- The list, and the control blocks, where the loop begins and where it ends. -/
def ends (l : List τ) (tr : List (ListTransition θ τ)) (x : ListTransition θ τ) (w : List (ListTransition θ τ))
    (s : ListState θ τ) : List (List τ × Mem θ τ) :=
  [(listed l tr, x.pre.mem), (listed l (w ++ x :: tr), s.mem)]

/-- Of what a loop meets one control block at most is what it looks for, all the while, and
this one is not taken out. -/
structure Steady (q : Search) (l : List τ) (tr : List (ListTransition θ τ)) (x : ListTransition θ τ)
    (w : List (ListTransition θ τ)) (s : ListState θ τ) (matching : τ → Bool) : Prop where
  same : ∀ n ∈ during x w s, ∀ u ∈ met (listed l tr) w, q.hit x.thread (n.mem.tcb u) = some (matching u)
  unique : ∀ u ∈ met (listed l tr) w, ∀ v ∈ met (listed l tr) w, matching u = true → matching v = true → u = v
  stay : ∀ u, matching u = true → ∀ y ∈ w, edit (y.pre.ctl y.thread).point ≠ some (.unlink u)

/-- Then the loop answers as one step would, where it begins or where it ends. -/
theorem lookup_one_step (hr : Run (code ids) (Initial l) (w ++ x :: tr) s) (hok : ∀ y ∈ w ++ x :: tr, Proper y)
    (hloop : Loop caller q x w) (hend : (s.ctl x.thread).point = .found caller q' r)
    (hsteady : Steady q l tr x w s matching) :
    ∃ b ∈ ends l tr x w s, r = b.1.find? matching ∧ ∀ u ∈ b.1, q.hit x.thread (b.2.tcb u) = some (matching u) := by
  have hstart : listed l (x :: tr) = listed l tr := hloop.listed_start
  have hbegin : ∀ u ∈ listed l tr, q.hit x.thread (x.pre.mem.tcb u) = some (matching u) := fun u hu =>
    hsteady.same x.pre (by simp [during]) u (met_start hu)
  have hmet : ∀ u ∈ listed l (w ++ x :: tr), u ∈ met (listed l tr) w := fun u hu => hstart ▸ met_of_listed hu
  obtain ⟨seen, _, hmiss, hr⟩ := lookup_answers hr hok hloop hend
  rw [hstart] at hr
  have htested : ∀ b ∈ visits x.thread w, b.1 ∈ met (listed l tr) w → q.hit x.thread b.2 = some (matching b.1) := by
    intro b hb hin
    obtain ⟨y, hy, _, htcb⟩ := mem_visits hb
    rw [htcb]
    exact hsteady.same y.pre (List.mem_cons_of_mem _ (List.mem_map_of_mem (List.mem_append_left _ hy))) b.1 hin
  cases r with
  | none =>
    -- whatever was on the list at the beginning, and is what it looks for, has been tested
    obtain ⟨hvisits, hscan⟩ := hr
    refine ⟨_, List.mem_cons_self .., (List.find?_eq_none.mpr fun u hu hm => ?_).symm, hbegin⟩
    have hseen := hscan.kept.subset (mem_kept hu (hsteady.stay u hm))
    rw [List.append_nil] at hseen
    obtain ⟨b, hb, rfl⟩ := List.mem_map.mp hseen
    have hhit := (htested b (hvisits ▸ hb) (met_start hu)).symm.trans (hmiss b hb)
    rw [hm] at hhit
    cases hhit
  | some u =>
    -- what it has found is on the list at the end
    obtain ⟨b, rest, hvisits, hhit, _, hscan⟩ := hr
    have hin : u ∈ met (listed l tr) w := hscan.met u (by simp)
    have hm : matching u = true := by
      have hfound := htested (u, b) (by rw [hvisits]; simp) hin
      exact Option.some.inj (hfound.symm.trans hhit)
    refine ⟨_, List.mem_cons_of_mem _ (List.mem_cons_self ..), (find_of_unique ?_ hm fun v hv hmv => ?_).symm, fun v hv => ?_⟩
    · exact listed_of_met (hstart ▸ hin) (hsteady.stay u hm)
    · exact hsteady.unique v (hmet v hv) u hin hmv hm
    · exact hsteady.same s (List.mem_cons_self ..) v (hmet v hv)

/-! ### The life cycle -/

/-- The memory of the life cycle shows the list `k`, with what the loops look at. -/
structure Shows (k : List τ) (n : Mem θ τ) (m : Lifecycle.Mem θ τ ι) : Prop where
  taskList : m.taskList = k
  looped : m.looped = false
  taskid : ∀ u ∈ k, (m.tcb u).taskid = (n.tcb u).taskid
  pthrid : ∀ u ∈ k, (m.tcb u).pthrid = (n.tcb u).pthrid

variable {n : Mem θ τ} {m : Lifecycle.Mem θ τ ι}

omit [DecidableEq τ] in
theorem find_congr {p : τ → Bool} (h : ∀ u ∈ k, p u = matching u) : k.find? p = k.find? matching := by
  induction k with
  | nil => rfl
  | cons u k ih =>
    rw [List.find?_cons, List.find?_cons, h u (List.mem_cons_self ..), ih fun v hv => h v (List.mem_cons_of_mem _ hv)]

omit [DecidableEq θ] [DecidableEq τ] in
theorem Shows.search (h : Shows k n m) {p : τ → Bool} (hp : ∀ u ∈ k, p u = matching u) :
    m.search p = some (k.find? matching) := by
  unfold Lifecycle.Mem.search
  rw [h.taskList, h.looped, find_congr hp]
  cases k.find? matching <;> rfl

omit [DecidableEq τ] in
theorem Shows.taskFor (h : Shows k n m)
    (hhit : ∀ u ∈ k, (TaskList.taskFor tid).hit t (n.tcb u) = some (matching u)) :
    m.taskFor t tid = some (k.find? matching) := by
  unfold Lifecycle.Mem.taskFor
  unfold TaskList.taskFor at hhit
  split
  · rename_i htid
    rw [if_pos htid] at hhit
    exact h.search fun u hu => by
      rw [h.pthrid u hu]
      exact Option.some.inj (hhit u hu)
  · rename_i htid
    rw [if_neg htid] at hhit
    exact h.search fun u hu => by
      rw [h.taskid u hu]
      exact Option.some.inj (hhit u hu)

/-- `task_for` as a loop, with `my_task` in it, answers what the life cycle has for it. -/
theorem task_for_one_step (hr : Run (code ids) (Initial l) (w ++ x :: tr) s) (hok : ∀ y ∈ w ++ x :: tr, Proper y)
    (hloop : Loop caller (taskFor tid) x w) (hend : (s.ctl x.thread).point = .found caller q' r)
    (hsteady : Steady (taskFor tid) l tr x w s matching) :
    ∃ b ∈ ends l tr x w s, ∀ m : Lifecycle.Mem θ τ ι, Shows b.1 b.2 m → m.taskFor x.thread tid = some r := by
  obtain ⟨b, hb, rfl, hhit⟩ := lookup_one_step hr hok hloop hend hsteady
  exact ⟨b, hb, fun m hm => hm.taskFor hhit⟩

end

/-! ### Spawning and deleting -/

section
variable {θ ι : Type} [DecidableEq θ] [DecidableEq ι]
variable {ids : θ → ℤ} {t : θ} {l k : List θ} {tr w : List (ListTransition θ θ)} {x : ListTransition θ θ}
variable {s : ListState θ θ} {caller : Caller θ} {q' : Search} {r : Option θ} {tid : ℤ} {matching : θ → Bool}

/-- The memory of the task library, in which a task is its own thread, shows the list `k`. -/
structure ShowsTasks (k : List θ) (n : Mem θ θ) (m : TaskLib.Mem θ ι) : Prop where
  taskList : m.taskList = k
  taskid : ∀ u ∈ k, (m.tcb u).taskid = (n.tcb u).taskid
  pthrid : ∀ u ∈ k, (n.tcb u).pthrid = if (m.tcb u).started = true then some u else none

variable {n : Mem θ θ} {m : TaskLib.Mem θ ι}

omit [DecidableEq ι] in
theorem ShowsTasks.myTask (h : ShowsTasks k n m) (hhit : ∀ u ∈ k, decide ((n.tcb u).pthrid = some t) = matching u) :
    m.myTask t = k.find? matching := by
  have hown : ∀ u ∈ k, matching u = true → u = t ∧ (m.tcb t).started = true := by
    intro u hu hm
    have hpthrid := of_decide_eq_true ((hhit u hu).trans hm)
    rw [h.pthrid u hu] at hpthrid
    split at hpthrid
    · obtain rfl := Option.some.inj hpthrid
      exact ⟨rfl, by assumption⟩
    · cases hpthrid
  unfold TaskLib.Mem.myTask
  rw [h.taskList]
  split
  · rename_i hmine
    refine (find_of_unique hmine.1 ?_ fun v hv hm => (hown v hv hm).1).symm
    rw [← hhit t hmine.1, h.pthrid t hmine.1, if_pos hmine.2, decide_eq_true rfl]
  · rename_i hnone
    refine (List.find?_eq_none.mpr fun u hu hm => hnone ?_).symm
    obtain ⟨rfl, hstarted⟩ := hown u hu hm
    exact ⟨hu, hstarted⟩

omit [DecidableEq ι] in
theorem ShowsTasks.taskFor (h : ShowsTasks k n m)
    (hhit : ∀ u ∈ k, (TaskList.taskFor tid).hit t (n.tcb u) = some (matching u)) :
    m.taskFor t tid = k.find? matching := by
  unfold TaskLib.Mem.taskFor
  unfold TaskList.taskFor at hhit
  split
  · rename_i htid
    rw [if_pos htid] at hhit
    exact h.myTask fun u hu => Option.some.inj (hhit u hu)
  · rename_i htid
    rw [if_neg htid] at hhit
    rw [h.taskList]
    refine find_congr fun u hu => ?_
    rw [h.taskid u hu]
    exact Option.some.inj (hhit u hu)

omit [DecidableEq ι] in
/-- The same for the task library. -/
theorem task_for_own_threads (hr : Run (code ids) (Initial l) (w ++ x :: tr) s) (hok : ∀ y ∈ w ++ x :: tr, Proper y)
    (hloop : Loop caller (taskFor tid) x w) (hend : (s.ctl x.thread).point = .found caller q' r)
    (hsteady : Steady (taskFor tid) l tr x w s matching) :
    ∃ b ∈ ends l tr x w s, ∀ m : TaskLib.Mem θ ι, ShowsTasks b.1 b.2 m → m.taskFor x.thread tid = r := by
  obtain ⟨b, hb, rfl, hhit⟩ := lookup_one_step hr hok hloop hend hsteady
  exact ⟨b, hb, fun m hm => hm.taskFor hhit⟩

end

/-! ### A lookup that meets a deletion -/

/-- Thread 1 looks the third task up while thread 0 deletes the second. -/
theorem deletedUnder_one_step : ∃ (w tr : List (ListTransition (Fin 2) (Fin 4))) (x : ListTransition (Fin 2) (Fin 4))
    (s : ListState (Fin 2) (Fin 4)), listed [0, 1, 2] tr = [0, 1, 2] ∧ listed [0, 1, 2] (w ++ x :: tr) = [0, 2] ∧
      (s.ctl 1).point = .found (.taskFor .activate) (.task 3) (some 2) ∧
      ∃ b ∈ ends [0, 1, 2] tr x w s, ∀ m : Lifecycle.Mem (Fin 2) (Fin 4) (Fin 1), Shows b.1 b.2 m →
        m.taskFor 1 3 = some (some 2) := by
  obtain ⟨w, x, tr, s, hr, hok, hs⟩ := loop_of_check fourIds (deletedUnder (.taskActivate 3) 2) 19 4
    (fun w x tr s => x.thread = 1 ∧ (x.pre.ctl x.thread).point = .search (.taskFor .activate) (.task 3) ∧
      (∀ y ∈ w, y.thread = x.thread → (register (y.pre.ctl x.thread).point).isSome = true) ∧
      (s.ctl x.thread).point = .found (.taskFor .activate) (.task 3) (some 2) ∧
      (listed [0, 1, 2] tr = [0, 1, 2] ∧ listed [0, 1, 2] (w ++ x :: tr) = [0, 2]) ∧
      (∀ n ∈ during x w s, ∀ u ∈ met (listed [0, 1, 2] tr) w,
        (Search.task 3).hit x.thread (n.mem.tcb u) = some (decide (u = 2))) ∧
      ∀ y ∈ w, edit (y.pre.ctl y.thread).point ≠ some (.unlink 2))
    threeTasks_initial (by decide)
  obtain ⟨hthread, hbegins, hwithin, hend, ⟨hbefore, hafter⟩, hsame, hstay⟩ := of_decide_eq_true hs
  have hsteady : Steady (taskFor 3) [0, 1, 2] tr x w s fun u => decide (u = 2) := by
    refine ⟨hsame, fun u _ v _ hu hv => (of_decide_eq_true hu).trans (of_decide_eq_true hv).symm, fun u hu => ?_⟩
    obtain rfl := of_decide_eq_true hu
    exact hstay
  obtain ⟨b, hb, hshows⟩ := task_for_one_step hr hok ⟨hbegins, hwithin⟩ hend hsteady
  exact ⟨w, tr, x, s, hbefore, hafter, hthread ▸ hend, b, hb, fun m hm => hthread ▸ hshows m hm⟩

end V2lin.TaskList
