import V2lin.Kill.Lists

/-! What a `waiting` pointer says.

A task's pointer is set while it is in `semTake`, and there it is on the list that the
pointer names, unless `taskRestart` has just taken it off. A task that is killed there
keeps its pointer: `taskDelete` removes such a task, but one that is restarted goes on with
the pointer of its former life. -/
namespace V2lin.Kill
open Threads V2lin.Task V2lin.TaskLib

section
variable {θ ι κ : Type}

/-! ### Points -/

/-- The semaphore that the caller's `waiting` pointer has been set to. -/
def takes : Pc θ ι κ → Option ι
  | .takeLink id _ | .takeTest id _ | .takeWait id _ | .takeWoken id _ | .takeDelay id _ => some id
  | .takeSleep id _ | .takeRelock id _ | .takeUnlink id _ | .takeClear id _ => some id
  | _ => none

/-- The task that `taskRestart` has found. -/
def restarting : Pc θ ι κ → Option θ
  | .restartUnlink _ u | .restartCancel u | .restartJoin u | .restartCreate u => some u
  | _ => none

/-- The task that the caller has cancelled and waits for. -/
def joining : Pc θ ι κ → Option θ
  | .task (.forceJoin _ u) | .restartJoin u => some u
  | _ => none

/-- The task that a deletion has cancelled. -/
def removing : Pc θ ι κ → Option θ
  | .task (.forceJoin _ u) | .task (.forceRemove _ u) => some u
  | _ => none

/-- The step in which a task that is being restarted is killed in `semTake`. -/
def KilledInTake (x : KillTransition θ ι κ) : Prop :=
  Dies x ∧ takes (x.pre.ctl x.thread).point ≠ none ∧ ∃ w, restarts (x.pre.ctl w).point = some x.thread

/-- A pointer that is set names the semaphore that its task is taking, or its task has been
killed and is removed; while a task waits, it is on the list, or is restarted. -/
structure Waits (m : Mem θ ι κ) (ctl : θ → Ctl (Pc θ ι κ)) : Prop where
  linked : ∀ u id, waitsFor (ctl u).point = some id → ourTask (ctl u).point = some u →
    u ∈ m.task.semSusp id ∨ ∃ w, restarts (ctl w).point = some u
  marked : ∀ u id, (m.task.tcb u).waiting = some id →
    takes (ctl u).point = some id ∧ ourTask (ctl u).point = some u ∨
      gone (ctl u).point = true ∧ (u ∉ m.task.taskList ∨ ∃ w, removing (ctl w).point = some u)
  reborn : ∀ u, m.reborn u = true → (m.task.tcb u).waiting = none
  listed : ∀ w u, restarting (ctl w).point = some u → u ∈ m.task.taskList
  restartSelf : ∀ w u v, (ctl w).point = .restartUnlink (some v) u → v = w
  removesSelf : ∀ w cause u, (ctl w).point = .task (.forceSelfRemove cause u) → u = w

theorem restarting_of_restarts {p : Pc θ ι κ} {u : θ} (h : restarts p = some u) : restarting p = some u := by
  cases p <;> first | exact h | cases h

theorem removing_ends {p : Pc θ ι κ} {u : θ} (h : removing p = some u) : joining p = some u ∨ joined p = some u := by
  cases p
  case task q =>
    cases q
    case forceJoin => exact .inl h
    case forceRemove => exact .inr h
    all_goals cases h
  all_goals cases h

theorem joining_cases {p : Pc θ ι κ} {u : θ} (h : joining p = some u) : removing p = some u ∨ restarts p = some u := by
  cases p
  case task q =>
    cases q
    case forceJoin => exact .inl h
    all_goals cases h
  case restartJoin => exact .inr h
  all_goals cases h

theorem restarting_locks {p : Pc θ ι κ} {u : θ} (h : restarting p = some u) : 0 < locks p := by
  cases p <;> first | exact Nat.zero_lt_one | cases h

theorem removing_locks {p : Pc θ ι κ} {u : θ} (h : removing p = some u) : 0 < locks p := by
  cases p
  case task q =>
    cases q
    case forceJoin => exact Nat.succ_pos _
    case forceRemove => exact Nat.succ_pos _
    all_goals cases h
  all_goals cases h

theorem takes_of_waitsFor {p : Pc θ ι κ} {id : ι} (h : waitsFor p = some id) : takes p = some id := by
  cases p <;> first | exact h | cases h

/-- A caller of `semTake` lives, and neither restarts nor removes a task. -/
theorem takes_apart {p : Pc θ ι κ} {id : ι} (h : takes p = some id) :
    gone p = false ∧ restarting p = none ∧ joining p = none := by
  cases p <;> first | exact ⟨rfl, rfl, rfl⟩ | cases h

variable [DecidableEq θ] [DecidableEq ι] [DecidableEq κ] {ids : AddressIds θ} {t u v w : θ} {p p' : Pc θ ι κ}
  {m m' : Mem θ ι κ} {s s' : KillState θ ι κ} {id : ι}

omit [DecidableEq ι] [DecidableEq κ] in
theorem Initial.waits (h : Initial ids s) : Waits s.mem s.ctl := by
  have htcb : ∀ u, (s.mem.task.tcb u).waiting = none := fun u => congrArg Tcb.waiting (h.task.tcb u)
  refine ⟨fun u id hw => ?_, fun u id hw => ?_, fun u hr => ?_, fun w u hr => ?_, fun w u v hp => ?_,
    fun w cause u hp => ?_⟩
  · obtain hp | hp := h.point u <;> rw [hp] at hw <;> cases hw
  · rw [htcb] at hw
    cases hw
  · rw [h.reborn] at hr
    cases hr
  · obtain hp | hp := h.point w <;> rw [hp] at hr <;> cases hr
  · obtain heq | heq := h.point w <;> rw [heq] at hp <;> cases hp
  · obtain heq | heq := h.point w <;> rw [heq] at hp <;> cases hp

/-! ### Blocks -/

omit [DecidableEq κ] in
/-- No function of the task library sets a `waiting` pointer. -/
theorem task_waiting {n n' : TaskLib.Mem θ ι} {q q' : TaskLib.Pc θ} (h : TaskLib.Runs ids t q n n' q')
    (hw : (n'.tcb u).waiting = some id) : (n.tcb u).waiting = some id := by
  obtain heq | hs := h.waiting_cases u
  · rwa [← heq]
  · cases h with
    | registered n tid =>
      cases hs
      rw [Mem.setTcb_self] at hw
      cases hw
    | refused n tid => exact hw
    | named n tid =>
      rwa [Mem.setTcb_congr Tcb.waiting _ (by rfl)] at hw
    | reads hg => exact hw
    | killed hk => exact hw
    | locked hl => cases hl <;> cases hs
    | unlocked hu => cases hu <;> cases hs
    | cleaned hc => cases hc <;> cases hs
    | _ => cases hs

theorem Runs.waiting_some (h : Runs ids t p m m' p') (hw : (m'.task.tcb u).waiting = some id) :
    (m.task.tcb u).waiting = some id ∨ m.task.myTask t = some u ∧ takes p' = some id ∧ ourTask p' = some u := by
  have hset : ∀ (self : Option θ) (w : Option ι), ((m.setWaiting self w).task.tcb u).waiting = some id →
      (m.task.tcb u).waiting = some id ∨ self = some u ∧ w = some id := by
    intro self w hw
    cases self with
    | none => exact .inl hw
    | some v =>
      by_cases hu : u = v
      · subst hu
        rw [show ((m.setWaiting (some u) w).task.tcb u) = {m.task.tcb u with waiting := w} from Mem.setTcb_self ..] at hw
        exact .inr ⟨rfl, hw⟩
      · rw [show ((m.setWaiting (some v) w).task.tcb u) = m.task.tcb u from Mem.setTcb_of_ne _ _ hu] at hw
        exact .inl hw
  cases h with
  | task hr => exact .inl (task_waiting hr hw)
  | owned id' =>
    refine (hset _ _ hw).imp_right fun ⟨hself, hid⟩ => ⟨hself, hid, hself⟩
  | found id' =>
    refine (hset _ _ hw).imp_right fun ⟨hself, hid⟩ => ⟨hself, hid, hself⟩
  | cleared id' self =>
    obtain hw | ⟨_, hid⟩ := hset _ _ hw
    · exact .inl hw
    · cases hid
  | linked hl => cases hl <;> exact .inl hw
  | unlinked hu => cases hu <;> exact .inl hw
  | restartUnlinked self v =>
    rw [Mem.setTask, Mem.unlinkWaiting_tcb] at hw
    exact .inl hw
  | _ => exact .inl hw

/-- A task in `semTake` goes on there, is killed, or clears its pointer. -/
theorem Runs.takes_cases (h : Runs ids t p m m' p') (ht : takes p = some id) (hself : ourTask p = some u) :
    takes p' = some id ∧ ourTask p' = some u ∨ Kill.gone p' = true ∧ m.task.cancelled t = true ∨
      (m'.task.tcb u).waiting = none := by
  cases h with
  | reads hg => cases hg <;> exact .inl ⟨ht, hself⟩
  | killed hk hc => cases hk <;> exact .inr (.inl ⟨rfl, hc⟩)
  | linked hl => cases hl <;> exact .inl ⟨ht, hself⟩
  | unlinked hu => cases hu <;> exact .inl ⟨ht, hself⟩
  | cleared id' self =>
    cases hself
    exact .inr (.inr (congrArg Tcb.waiting (Mem.setTcb_self ..)))
  | _ => cases ht

omit [DecidableEq ι] [DecidableEq κ] in
theorem Goes.of_waitsFor (h : Goes t m p p') (hw : waitsFor p' = some id) : waitsFor p = some id ∧ ourTask p' = ourTask p := by
  cases h <;> exact ⟨hw, rfl⟩

/-- A task comes to wait where it is put on the list. -/
theorem Runs.of_waitsFor (h : Runs ids t p m m' p') (hw : waitsFor p' = some id) :
    (waitsFor p = some id ∧ ourTask p' = ourTask p ∧ m' = m) ∨
      m'.task.semSusp id = linkSuspTask (m.task.semSusp id) (ourTask p') := by
  cases h with
  | reads hg =>
    obtain ⟨hw, hself⟩ := hg.of_waitsFor hw
    exact .inl ⟨hw, hself, rfl⟩
  | killed hk => cases hk <;> cases hw
  | linked hl =>
    cases hl <;> cases hw
    exact .inr (Function.update_self ..)
  | unlinked hu => cases hu <;> cases hw
  | restartUnlinked => split at hw <;> cases hw
  | _ => cases hw

theorem Runs.joining_cases (h : Runs ids t p m m' p') (hj : joining p = some u) :
    m' = m ∧ m.task.dead u = true ∧ (removing p = some u → removing p' = some u) := by
  cases h with
  | @task q _ n q' hr =>
    cases q
    case forceJoin cause v =>
      cases hj
      cases hr with
      | reads hg =>
        cases hg with
        | joined _ hdead => exact ⟨rfl, hdead, fun h => h⟩
      | locked hl => cases hl
      | unlocked hu => cases hu
      | cleaned hc => cases hc
      | killed hk => cases hk
    all_goals cases hj
  | reads hg =>
    cases hg with
    | restartJoined hdead =>
      cases hj
      exact ⟨rfl, hdead, nofun⟩
    | _ => cases hj
  | killed hk => cases hk <;> cases hj
  | linked hl => cases hl <;> cases hj
  | unlinked hu => cases hu <;> cases hj
  | _ => cases hj

omit [DecidableEq κ] in
@[simp] theorem Mem.unlinkWaiting_cancelled (n : TaskLib.Mem θ ι) (v : θ) : (n.unlinkWaiting v).cancelled = n.cancelled := by
  unfold TaskLib.Mem.unlinkWaiting
  split <;> rfl

theorem Runs.cancelled_cases (h : Runs ids t p m m' p') (hc : m'.task.cancelled u = true) :
    m.task.cancelled u = true ∨ joining p' = some u := by
  have hset : ∀ {x : θ} {q : Pc θ ι κ}, joining q = some x → Function.update m.task.cancelled x true u = true →
      m.task.cancelled u = true ∨ joining q = some u := by
    intro x q hq hc
    by_cases hu : u = x
    · exact .inr (hu ▸ hq)
    · rw [Function.update_of_ne hu] at hc
      exact .inl hc
  have hcreated : ∀ {v}, (m.recreate v).task.cancelled u = true → m.task.cancelled u = true := by
    intro v hc
    by_cases hu : u = v
    · subst hu
      rw [show (m.recreate u).task.cancelled u = false from Function.update_self ..] at hc
      cases hc
    · rwa [show (m.recreate v).task.cancelled u = m.task.cancelled u from Function.update_of_ne hu ..] at hc
  cases h with
  | task hr =>
    cases hr with
    | cancels => exact hset (by rfl) hc
    | noThread => exact .inl (by simpa [Mem.setTask, TaskLib.Mem.taskDelete, TaskLib.Mem.setBlock] using hc)
    | unlinked => exact .inl (by simpa [Mem.setTask] using hc)
    | removed => exact .inl (by simpa [Mem.setTask, TaskLib.Mem.taskDelete, TaskLib.Mem.setBlock] using hc)
    | selfRemoved => exact .inl (by simpa [Mem.setTask, TaskLib.Mem.taskDelete, TaskLib.Mem.setBlock] using hc)
    | _ => exact .inl hc
  | owned id => exact .inl (by cases hself : m.task.myTask t <;> rw [hself] at hc <;> exact hc)
  | found id => exact .inl (by cases hself : m.task.myTask t <;> rw [hself] at hc <;> exact hc)
  | cleared id self => exact .inl (by cases self <;> exact hc)
  | linked hl => cases hl <;> exact .inl hc
  | unlinked hu => cases hu <;> exact .inl hc
  | restartUnlinked self v => exact .inl (by simpa [Mem.setTask] using hc)
  | restartCancels => exact hset (by rfl) hc
  | restartCreated => exact .inl (hcreated hc)
  | starterCreated => exact .inl (hcreated hc)
  | _ => exact .inl hc

/-- A task that is to begin again has been created again, and its pointer is as it was. -/
theorem Runs.reborn_some (h : Runs ids t p m m' p') (hr : m'.reborn u = true) :
    m.reborn u = true ∨ creates p = some u ∧ m'.task.cancelled u = false ∧ m'.task.tcb = m.task.tcb := by
  have hcreated : ∀ {v}, (m.recreate v).reborn u = true → m.reborn u = true ∨ v = u ∧
      (m.recreate v).task.cancelled u = false := by
    intro v hr
    by_cases hu : u = v
    · exact .inr ⟨hu.symm, by rw [hu]; exact Function.update_self ..⟩
    · rw [show (m.recreate v).reborn u = m.reborn u from Function.update_of_ne hu ..] at hr
      exact .inl hr
  cases h with
  | linked hl => cases hl <;> exact .inl hr
  | unlinked hl => cases hl <;> exact .inl hr
  | owned => exact .inl (by rwa [Mem.setWaiting_reborn] at hr)
  | found => exact .inl (by rwa [Mem.setWaiting_reborn] at hr)
  | cleared => exact .inl (by rwa [Mem.setWaiting_reborn] at hr)
  | reborn =>
    have hr : Function.update m.reborn t false u = true := hr
    by_cases hu : u = t
    · rw [hu, Function.update_self] at hr
      cases hr
    · exact .inl (by rwa [Function.update_of_ne hu] at hr)
  | restartCreated v => exact (hcreated hr).imp_right fun ⟨hv, hc⟩ => ⟨congrArg some hv, hc, rfl⟩
  | starterCreated => exact (hcreated hr).imp_right fun ⟨hv, hc⟩ => ⟨congrArg some hv, hc, rfl⟩
  | _ => exact .inl hr

/-- The ways in which a task is taken off the list of a semaphore. -/
inductive Unlists (m : Mem θ ι κ) (id : ι) (u : θ) : Pc θ ι κ → Prop where
  | link (x : θ) : x ∈ m.task.semSusp id → Unlists m id u (.takeLink id (some x))
  | unlink (j : ι) : Unlists m id u (.takeUnlink j (some u))
  | restart (self : Option θ) : Unlists m id u (.restartUnlink self u)
  | pend (x : θ) : Unlists m id u (.task (.pendUnlink (some u) x))
  | remove (cause : Cause θ) : Unlists m id u (.task (.forceRemove cause u))
  | selfRemove (cause : Cause θ) : Unlists m id u (.task (.forceSelfRemove cause u))
  | noThread (tid : ℤ) : (m.task.tcb u).started = false → Unlists m id u (.task (.spawnFind tid))

omit [DecidableEq κ] in
theorem mem_unlinkWaiting_of_ne {n : TaskLib.Mem θ ι} (hu : u ∈ n.semSusp id) (hne : u ≠ v) :
    u ∈ (n.unlinkWaiting v).semSusp id := by
  unfold TaskLib.Mem.unlinkWaiting
  split
  · exact hu
  · rename_i j _
    by_cases hid : id = j
    · subst hid
      simp only [Function.update_self]
      exact (List.mem_erase_of_ne hne).mpr hu
    · simp only [Function.update_of_ne hid]
      exact hu

theorem Runs.unlists (h : Runs ids t p m m' p') (hu : u ∈ m.task.semSusp id) :
    u ∈ m'.task.semSusp id ∨ Unlists m id u p := by
  have hoff : ∀ {v : θ} {n : TaskLib.Mem θ ι}, n.semSusp = (m.task.unlinkWaiting v).semSusp →
      (v = u → Unlists m id u p) → u ∈ n.semSusp id ∨ Unlists m id u p := by
    intro v n hn hv
    by_cases hne : u = v
    · exact .inr (hv hne.symm)
    · exact .inl (by rw [hn]; exact mem_unlinkWaiting_of_ne hu hne)
  have hother : ∀ {j : ι}, id ≠ j → ∀ l, u ∈ (m.setList (.sem j) l).task.semSusp id := by
    intro j hid l
    rw [show (m.setList (.sem j) l).task.semSusp id = m.task.semSusp id from Function.update_of_ne hid ..]
    exact hu
  have hwaiting : ∀ self w, u ∈ (m.setWaiting self w).task.semSusp id := by
    intro self w
    rw [show (m.setWaiting self w).task.semSusp id = _ from Mem.setWaiting_waitList m self w (.sem id)]
    exact hu
  cases h with
  | task hr =>
    cases hr with
    | @noThread _ tid v _ hs => exact hoff rfl (by rintro rfl; exact .noThread tid hs)
    | unlinked v x => exact hoff rfl (by rintro rfl; exact .pend x)
    | removed cause v => exact hoff rfl (by rintro rfl; exact .remove cause)
    | selfRemoved cause v => exact hoff rfl (by rintro rfl; exact .selfRemove cause)
    | _ => exact .inl hu
  | owned j => exact .inl (hwaiting _ _)
  | found j => exact .inl (hwaiting _ _)
  | cleared j self => exact .inl (hwaiting _ _)
  | @linked _ _ L self _ hl =>
    cases hl with
    | take j =>
      cases self with
      | none =>
        refine .inl ?_
        by_cases hid : id = j
        · subst hid
          have hlist : (m.setList (.sem id) (linkSuspTask (m.waitList (.sem id)) none)).task.semSusp id =
              m.task.semSusp id := Function.update_self ..
          rw [hlist]
          exact hu
        · exact hother hid _
      | some v =>
        by_cases hid : id = j
        · subst hid
          by_cases hv : v ∈ m.task.semSusp id
          · exact .inr (.link v hv)
          · refine .inl ?_
            have hlist : (m.setList (.sem id) (linkSuspTask (m.waitList (.sem id)) (some v))).task.semSusp id =
                linkSuspTask (m.task.semSusp id) (some v) := Function.update_self ..
            rw [hlist]
            exact (mem_linkSuspTask hv).mpr (.inr hu)
        · exact .inl (hother hid _)
    | receive => exact .inl hu
    | send => exact .inl hu
  | @unlinked _ _ L self _ hl =>
    cases hl with
    | take j =>
      by_cases hself : self = some u
      · subst hself
        exact .inr (.unlink j)
      · refine .inl ?_
        by_cases hid : id = j
        · subst hid
          have hlist : (m.setList (.sem id) (unlinkSuspTask (m.waitList (.sem id)) self)).task.semSusp id =
              unlinkSuspTask (m.task.semSusp id) self := Function.update_self ..
          rw [hlist]
          cases self with
          | none => exact hu
          | some v => exact (List.mem_erase_of_ne fun he => hself (by rw [he])).mpr hu
        · exact hother hid _
    | receive => exact .inl hu
    | send => exact .inl hu
  | restartUnlinked self v => exact hoff rfl (by rintro rfl; exact .restart self)
  | _ => exact .inl hu

theorem next_takes (h : (code (ι := ι) (κ := κ) ids t p).Next p') (ht : takes p = some id) :
    takes p' = some id ∧ ourTask p' = ourTask p := by
  cases p
  case takeWait => obtain ⟨r, rfl⟩ := h; exact ⟨ht, rfl⟩
  case takeDelay => cases h; exact ⟨ht, rfl⟩
  case takeRelock => cases h; exact ⟨ht, rfl⟩
  all_goals first
    | exact False.elim h
    | cases ht

theorem next_of_waitsFor (h : (code (ι := ι) (κ := κ) ids t p).Next p') (hw : waitsFor p' = some id) :
    waitsFor p = some id ∧ ourTask p' = ourTask p := by
  cases p
  case task q =>
    obtain ⟨q', rfl, _⟩ := task_next h
    cases hw
  all_goals first
    | exact False.elim h
    | (cases h; exact ⟨hw, rfl⟩)
    | (obtain ⟨r, rfl⟩ := h; exact ⟨hw, rfl⟩)

/-- Whoever restarts or removes a task only runs blocks. -/
theorem next_restarting (h : (code (ι := ι) (κ := κ) ids t p).Next p') :
    restarting p = none ∧ restarting p' = none := by
  cases p
  case task q =>
    obtain ⟨q', rfl, _⟩ := task_next h
    exact ⟨rfl, rfl⟩
  all_goals first
    | exact False.elim h
    | (cases h; exact ⟨rfl, rfl⟩)
    | (obtain ⟨r, rfl⟩ := h; exact ⟨rfl, rfl⟩)

theorem next_joining (h : (code (ι := ι) (κ := κ) ids t p).Next p') : joining p = none ∧ removing p = none := by
  cases p
  case task q =>
    obtain ⟨q', rfl, hnext⟩ := task_next h
    cases q
    case forceJoin => exact False.elim hnext
    case forceRemove => exact False.elim hnext
    all_goals exact ⟨rfl, rfl⟩
  all_goals first
    | exact False.elim h
    | exact ⟨rfl, rfl⟩

theorem next_selfRemove (h : (code (ι := ι) (κ := κ) ids t p).Next p') (cause : Cause θ) (u : θ) :
    p' ≠ .task (.forceSelfRemove cause u) := by
  rintro rfl
  cases p
  case task q =>
    obtain ⟨q', heq, hnext⟩ := task_next h
    cases heq
    have hno := (next_removals hnext).1
    cases hno
  all_goals first
    | exact False.elim h
    | (cases h; done)
    | (obtain ⟨r, h⟩ := h; cases h)

omit [DecidableEq κ] in
/-- A task is registered with a pointer that is not set. -/
theorem task_taskList {n n' : TaskLib.Mem θ ι} {q q' : TaskLib.Pc θ} (h : TaskLib.Runs ids t q n n' q')
    (hu : u ∈ n'.taskList) : u ∈ n.taskList ∨ (n'.tcb u).waiting = none := by
  have hdeleted : ∀ v, u ∈ (n.taskDelete v).taskList → u ∈ n.taskList := fun v hu => List.mem_of_mem_erase hu
  cases h with
  | registered w tid =>
    obtain hu | hu := List.mem_append.mp hu
    · exact .inl hu
    · rw [List.mem_singleton.mp hu]
      exact .inr (congrArg Tcb.waiting (Mem.setTcb_self ..))
  | noThread => exact .inl (hdeleted _ hu)
  | unlinked => exact .inl (by rwa [Mem.unlinkWaiting_taskList] at hu)
  | removed => exact .inl (hdeleted _ hu)
  | selfRemoved => exact .inl (hdeleted _ hu)
  | _ => exact .inl hu

omit [DecidableEq κ] in
/-- Nobody leaves the list of the tasks where the scheduler lock is not held. -/
theorem task_listed {n n' : TaskLib.Mem θ ι} {q q' : TaskLib.Pc θ} (h : TaskLib.Runs ids t q n n' q')
    (hlocks : TaskLib.locks q = 0) (hu : u ∈ n.taskList) : u ∈ n'.taskList := by
  cases h with
  | registered w tid => exact List.mem_append_left _ hu
  | noThread => cases hlocks
  | unlinked => rwa [Mem.unlinkWaiting_taskList]
  | removed => cases hlocks
  | selfRemoved => cases hlocks
  | _ => exact hu

theorem Runs.taskList_cases (h : Runs ids t p m m' p') (hu : u ∈ m'.task.taskList) :
    u ∈ m.task.taskList ∨ (m'.task.tcb u).waiting = none := by
  obtain ⟨q, q', rfl, rfl, hr⟩ | ⟨hsim, _⟩ := h.view_cases
  · exact task_taskList hr hu
  · exact .inl (by rwa [hsim.list] at hu)

theorem Runs.listed_stays (h : Runs ids t p m m' p') (hlocks : locks p = 0) (hu : u ∈ m.task.taskList) :
    u ∈ m'.task.taskList := by
  obtain ⟨q, q', rfl, rfl, hr⟩ | ⟨hsim, _⟩ := h.view_cases
  · exact task_listed hr hlocks hu
  · rwa [hsim.list]

/-- Whoever removes a task goes on until it is removed. -/
theorem Runs.removing_cases (h : Runs ids t p m m' p') (hr : removing p = some u) :
    removing p' = some u ∨ m' = m.setTask (m.task.taskDelete u) := by
  cases p
  case task q =>
    cases q
    case forceJoin cause v => exact .inl ((h.joining_cases hr).2.2 hr)
    case forceRemove cause v =>
      cases hr
      exact .inr h.of_forceRemove
    all_goals cases hr
  all_goals cases hr

theorem Runs.restarting_cases (h : Runs ids t p m m' p') (hu : restarting p' = some u) :
    u ∈ m'.task.taskList ∨ restarting p = some u ∧ m'.task.taskList = m.task.taskList := by
  cases h with
  | reads hg =>
    cases hg with
    | restartFound hfor =>
      cases hu
      exact .inl (taskFor_listed hfor)
    | restartJoined => exact .inr ⟨hu, rfl⟩
    | _ => cases hu
  | killed hk => cases hk <;> cases hu
  | linked hl => cases hl <;> cases hu
  | unlinked hl => cases hl <;> cases hu
  | restartUnlinked self v =>
    split at hu
    · cases hu
    · exact .inr ⟨hu, Mem.unlinkWaiting_taskList _ v⟩
  | restartCancels => exact .inr ⟨hu, rfl⟩
  | _ => cases hu

/-- `taskRestart` goes on with its task until the old thread is dead. -/
theorem Runs.of_restarts (h : Runs ids t p m m' p') (hu : restarts p = some u) :
    restarts p' = some u ∨ m.task.dead u = true ∨ p = .restartCreate u := by
  cases h with
  | reads hg =>
    cases hg with
    | restartJoined => exact .inl hu
    | restartFailed =>
      cases hu
      exact .inr (.inr rfl)
    | _ => cases hu
  | killed hk => cases hk <;> cases hu
  | linked hl => cases hl <;> cases hu
  | unlinked hl => cases hl <;> cases hu
  | restartCancels => exact .inl hu
  | restartCreated =>
    cases hu
    exact .inr (.inr rfl)
  | _ => cases hu

theorem Runs.of_restartUnlink {self : Option θ} (h : Runs ids t (.restartUnlink self u) m m' p') :
    p' = if some u = self then .restartSelf u else .restartCancel u := by
  cases h with
  | restartUnlinked => rfl
  | reads hg => cases hg
  | killed hk => cases hk
  | linked hl => cases hl
  | unlinked hl => cases hl

theorem Runs.restartSelf (h : Runs ids t p m m' p') (hp : p' = .restartUnlink (some v) u) : v = t := by
  cases h with
  | reads hg =>
    cases hg with
    | restartFound =>
      obtain ⟨hself, _⟩ := Pc.restartUnlink.inj hp
      exact (myTask_eq hself).1
    | _ => cases hp
  | killed hk => cases hk <;> cases hp
  | linked hl => cases hl <;> cases hp
  | unlinked hl => cases hl <;> cases hp
  | restartUnlinked => split at hp <;> cases hp
  | _ => cases hp

theorem Runs.removesSelf (h : Runs ids t p m m' p') (hok : Ok ids m.task t p.leave) {cause : Cause θ}
    (hp : p' = .task (.forceSelfRemove cause u)) : u = t := by
  cases h with
  | task hr => exact (hr.removals hok).2 cause u (Pc.task.inj hp)
  | reads hg => cases hg <;> cases hp
  | killed hk => cases hk <;> cases hp
  | linked hl => cases hl <;> cases hp
  | unlinked hl => cases hl <;> cases hp
  | restartUnlinked => split at hp <;> cases hp
  | _ => cases hp

end

end V2lin.Kill
