import V2lin.Sem.Registry

/-! What a deletion leaves for others to do.

From its mark on, `semDelete` waits for the pended tasks with `sem_lock` released and the
semaphore still on the list. Takes that come in the meantime pend and leave again, a take
that polls does not look at the mark, and the last of the pended tasks clears the mark
before it gives `sem_lock` up. -/
namespace V2lin.Sem
open Threads V2lin.Task

section
variable {θ ι : Type}

/-! ### Who has the scheduler locked -/

/-- The levels of the scheduler lock that a thread at a point has taken in the library. -/
def levels : Pc ι → ℕ
  | .flushTest _ | .flushSmdelLock _ | .flushMark _ | .flushNotify _ | .flushSemUnlock _ => 1
  | .flushDrain _ | .flushWait _ | .flushSmdelUnlock _ | .flushTaskUnlock _ _ => 1
  | .deleteTest _ | .deleteSmdelLock _ | .deleteMark _ | .deleteNotify _ | .deleteSemUnlock _ => 1
  | .deleteDrain _ | .deleteWait _ | .deleteListLock _ _ | .deleteUnlink _ _ | .deleteListUnlock _ _ => 1
  | .deleteFree _ _ | .deleteTaskUnlock _ _ => 1
  | _ => 0

variable {p p' : Pc ι} {id : ι}

theorem levels_resting (h : p.resting = true) : levels p = 0 := by
  cases p <;> first | rfl | cases h

theorem WaitPoint.levels {maxWait : Int} {retcode : Retcode} (h : WaitPoint maxWait id retcode p) :
    levels p = 0 := by
  cases h <;> rfl

variable [DecidableEq θ] [DecidableEq ι]
variable {myTask : θ → Option θ} {prio : θ → Int} {t u : θ} {m m' : Mem θ ι}
variable {s s' : SemState θ ι} {tr : List (SemTransition θ ι)}

theorem next_levels (h : (code myTask prio t p).Next p') : levels p' = levels p := by
  cases p
  case findUnlock op j found =>
    cases h
    cases found
    · rfl
    · cases op <;> rfl
  all_goals first
    | exact False.elim h
    | (cases h; rfl)
    | (obtain ⟨r, rfl⟩ := h; rfl)

theorem Runs.counts (h : Runs myTask prio t p m m' p') : m.sched.Counts t (levels p) m'.sched (levels p') := by
  cases h with
  | called _ _ hp => exact .keep (Nat.le_of_eq (levels_resting hp).symm)
  | refused hp => exact .keep (Nat.le_of_eq (levels_resting hp).symm)
  | created _ _ hp => exact .keep (Nat.le_of_eq (levels_resting hp).symm)
  | reentered =>
    rw [Mem.setSem_sched, Mem.setWaiting_sched]
    exact .keep (Nat.le_refl 0)
  | pended =>
    rw [Mem.setSem_sched, Mem.setWaiting_sched]
    exact .keep (Nat.le_refl 0)
  | ended =>
    rw [Mem.setWaiting_sched]
    exact .keep (Nat.le_refl 0)
  | left hw =>
    obtain ⟨retcode, hpoint⟩ := hw.point
    rw [hpoint.levels]
    split <;> exact .keep (Nat.le_refl 0)
  | sleeps hpoint => exact .keep (Nat.le_of_eq hpoint.levels.symm)
  | polls hpoint => exact .keep (Nat.le_of_eq hpoint.levels.symm)
  | gave => split <;> exact .keep (Nat.le_refl 0)
  | flushTaskLocked _ hk => exact .lock hk (Nat.le_refl 1)
  | deleteTaskLocked _ hk => exact .lock hk (Nat.le_refl 1)
  | flushTaskUnlocked => exact .unlock rfl
  | deleteTaskUnlocked => exact .unlock rfl
  | _ => exact .keep (by exact Nat.le_refl _)

/-- A thread at a point with a level has the scheduler locked. -/
def Held (s : SemState θ ι) : Prop :=
  ∀ t, 0 < levels (s.ctl t).point → s.mem.sched.locker = some t ∧ levels (s.ctl t).point ≤ s.mem.sched.taskLockLevel

theorem held_step (h : Held s) (hs : Step (code myTask prio) t s s') : Held s' := by
  intro u hu
  by_cases hut : u = t
  · subst hut
    obtain ⟨hm, _, heq | hnext⟩ | ⟨p, p', hp, hp', hr, _⟩ := step_cases hs
    · rw [heq] at hu ⊢
      exact hm ▸ h u hu
    · rw [next_levels hnext] at hu ⊢
      exact hm ▸ h u hu
    · have hold := h u
      rw [hp, Ctl.point_awake] at hold
      rw [hp', Ctl.point_awake] at hu ⊢
      exact hr.counts.held hold hu
  · have hold := h u
    rw [hs.ctl_other hut] at hu ⊢
    obtain ⟨hm, _⟩ | ⟨p, p', _, _, hr, _⟩ := step_cases hs
    · rw [hm]
      exact hold hu
    · rw [hr.counts.other (hold hu).1 hut]
      exact hold hu

/-- No two threads are in a flush or a deletion that has locked the scheduler. -/
theorem levels_unique (h : Run (code myTask prio) Initial tr s) (ht : 0 < levels (s.ctl t).point)
    (hu : 0 < levels (s.ctl u).point) : t = u := by
  have hheld : Held s := by
    refine h.invariant (fun _ => True) Held ?_ (fun _ _ _ hh hs _ => held_step hh hs) fun _ _ => trivial
    intro s hs t ht
    rw [hs.idle t] at ht
    exact absurd ht (Nat.lt_irrefl 0)
  exact Option.some.inj ((hheld t ht).1.symm.trans (hheld u hu).1)

/-! ### Nobody is pended -/

/-- A point at which a thread that holds `sem_lock` has seen that nobody is pended. -/
def quiet (id : ι) : Pc ι → Bool
  | .takeLastLock _ j _ | .takeLastNotify _ j _ | .takeLastReset _ j _ => j = id
  | .deleteListLock j false | .deleteUnlink j false => j = id
  | _ => false

omit [DecidableEq θ] in
theorem quiet_held (h : quiet id p = true) : .semLock id ∈ held p := by
  cases p
  case deleteListLock j drained =>
    cases drained
    · rw [of_decide_eq_true h]
      exact List.mem_singleton_self _
    · cases h
  case deleteUnlink j drained =>
    cases drained
    · rw [of_decide_eq_true h]
      exact List.mem_cons_of_mem _ (List.mem_singleton_self _)
    · cases h
  all_goals first
    | cases h
    | (rw [of_decide_eq_true h]; exact List.mem_cons_self ..)

theorem next_quiet (h : (code myTask prio t p).Next p') (hq : quiet id p' = true) : quiet id p = true := by
  cases p
  case findUnlock op j found =>
    cases h
    cases found
    · cases hq
    · cases op <;> cases hq
  case deleteListLock j drained =>
    cases h
    cases drained
    · exact hq
    · cases hq
  all_goals first
    | exact False.elim h
    | (cases h; exact hq)
    | (cases h; cases hq)
    | (obtain ⟨r, rfl⟩ := h; cases hq)

theorem Runs.quiet_empty (h : Runs myTask prio t p m m' p') (hq : quiet id p' = true) :
    (m'.sem id).firstSusp = [] := by
  cases h with
  | @left p m maxWait j v retcode v' error last hw hl =>
    cases last
    · cases hq
    · obtain rfl : j = id := of_decide_eq_true hq
      rw [if_pos rfl] at hq
      rw [Mem.setSem_self]
      exact (hl.last.mp rfl).2
  | gave => split at hq <;> cases hq
  | @deleteNobody m j hnobody =>
    obtain rfl : j = id := of_decide_eq_true hq
    exact hnobody
  | _ => cases hq

/-- A thread at such a point is right. -/
theorem quiet_empty (h : Run (code some prio) Initial tr s) (hq : quiet id (s.ctl t).point = true) :
    (s.mem.sem id).firstSusp = [] :=
  seen h (quiet id) (fun v => v.firstSusp = []) (fun _ hq => quiet_held hq) rfl (fun _ => rfl)
    (fun _ _ _ hnext hq => next_quiet hnext hq) (fun _ _ _ _ _ hr hq => hr.quiet_empty hq) hq

/-! ### The unlinking -/

/-- The step in which `semDelete` takes a semaphore off the list. -/
def Unlinks (id : ι) (drained : Bool) (x : SemTransition θ ι) : Prop :=
  x.pre.ctl x.thread = .awake (.deleteUnlink id drained)

instance (id : ι) (drained : Bool) (x : SemTransition θ ι) : Decidable (Unlinks id drained x) :=
  inferInstanceAs (Decidable (_ = _))

omit [DecidableEq ι] in
/-- Whoever comes to a semaphore has its lock or the list, or is pended, or has locked the
scheduler. -/
theorem comes_holds (h : comes p = some id) :
    .semLock id ∈ held p ∨ .semListLock ∈ held p ∨ pendsOn p = some id ∨ 0 < levels p := by
  cases p
  case findUnlock op j found =>
    cases found
    · cases h
    · exact .inr (.inl (List.mem_cons_self ..))
  all_goals first
    | (cases h; done)
    | (cases h; exact .inr (.inr (.inl rfl)))
    | (cases h; exact .inr (.inr (.inr (Nat.one_pos))))
    | (cases h; exact .inr (.inl (List.mem_singleton_self _)))
    | (cases h; exact .inl (List.mem_cons_self ..))

end

end V2lin.Sem
