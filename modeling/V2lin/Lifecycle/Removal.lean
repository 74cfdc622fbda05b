import V2lin.Lifecycle.Points

/-! Who takes a task off the list has the scheduler locked.

`task_delete` looks for the semaphore that the task waits for, takes `task_list_lock` for
each of its lists, and frees the control block if it is the heap's. Its callers have found
the task under the scheduler lock, and they keep it until it returns. -/
namespace V2lin.Lifecycle
open Threads V2lin.Task V2lin.TaskLib

section
variable {θ τ ι : Type}

/-- From the call of `task_delete` to its end. -/
def takesOff : Pc τ ι → Bool
  | .remove _ _ | .listLock (.remove _) _ | .listEdit (.remove _) _ | .free _ _ => true
  | .listLock (.unlink _ _) next | .listEdit (.unlink _ _) next | .listUnlock next => takesOff next
  | _ => false

variable {p p' : Pc τ ι}

theorem Back.takesOff (h : Back p) : takesOff p = false := by
  cases p <;> first | rfl | exact h.elim

theorem Released.takesOff (h : Released p) : takesOff p = false := by
  cases p <;> first | rfl | exact h.elim

theorem Acquired.takesOff (h : Acquired p) : takesOff p = false := by
  cases p <;> first | rfl | exact h.elim

theorem Notified.takesOff (h : Notified p) : takesOff p = false := by
  cases p <;> first | rfl | exact h.elim

section
variable [DecidableEq θ] [DecidableEq τ] {t w : θ} {m m' : Mem θ τ ι}

theorem Goes.takesOff (hg : Goes t m p p') (h : Shape p) (hp' : takesOff p' = true) :
    Lifecycle.holds p = true ∨ Lifecycle.takesOff p = true := by
  cases hg with
  | enters he => cases he <;> cases hp'
  | remove v next =>
    refine .inr ?_
    unfold unlinkWaiting at hp'
    split at hp' <;> exact hp'
  | pendUnlink => unfold unlinkWaiting at hp'; split at hp' <;> cases hp'
  | restartSome => unfold unlinkWaiting at hp'; split at hp' <;> cases hp'
  | killed hk => obtain rfl | rfl | ⟨u, rfl⟩ | ⟨u, killed, rfl, _⟩ := hk.cases h <;> cases hp'
  | foreign next =>
    have hnext : Released p' := h
    rw [hnext.takesOff] at hp'
    cases hp'
  | kept next =>
    have hnext : Back p' := h
    rw [hnext.takesOff] at hp'
    cases hp'
  | nobody u next =>
    have hnext : Notified p' := h
    rw [hnext.takesOff] at hp'
    cases hp'
  | forceSelf => exact .inl rfl
  | _ => cases hp'

variable [DecidableEq ι] {ids : τ → ℤ}

/-- A thread comes to `task_delete` with the scheduler lock, and does nothing to the lock in
it. -/
theorem Runs.takesOff (hr : Runs ids t p m m' p') (h : Shape p) (hp' : takesOff p' = true) :
    (Lifecycle.holds p = true ∨ Lifecycle.takesOff p = true) ∧ m'.locker = m.locker := by
  cases hr with
  | reads hg => exact ⟨hg.takesOff h hp', rfl⟩
  | counted next =>
    have hnext : Released next := h
    split at hp'
    · cases hp'
    · rw [hnext.takesOff] at hp'
      cases hp'
  | cleared next =>
    have hnext : Released p' := h
    rw [hnext.takesOff] at hp'
    cases hp'
  | edited edit next he =>
    refine ⟨.inr ?_, (Edit.run_keeps he).1⟩
    cases edit
    case unlink => exact hp'
    case remove v => rfl
    all_goals cases next <;> first | exact h.elim | cases hp'
  | freed next =>
    have hnext : Back p' := h
    rw [hnext.takesOff] at hp'
    cases hp'
  | created hc => cases hc <;> cases hp'
  | notCreated hc => cases hc <;> first | exact ⟨.inl rfl, rfl⟩ | cases hp'
  | cancels hc => cases hc <;> cases hp'
  | joins hj he =>
    have hlocker : m'.locker = m.locker := by
      unfold Mem.join at he
      repeat' split at he
      all_goals cases he <;> rfl
    cases hj <;> exact ⟨.inl rfl, hlocker⟩
  | protects count hc => cases hc <;> cases hp'
  | cleaned hc => cases hc <;> cases hp'
  | _ => cases hp'

theorem next_takesOff (h : (code (ι := ι) ids t p).Next p') (hp : Shape p) (hp' : takesOff p' = true) :
    takesOff p = true := by
  cases p <;> simp only [code, Instr.Next] at h
  case pendWait self v =>
    obtain ⟨_, rfl⟩ := h
    cases hp'
  case notifyWait v next =>
    obtain ⟨_, rfl⟩ := h
    cases hp'
  all_goals subst h
  case deleteTunlock tid self v deletable => revert hp'; split <;> [rintro ⟨⟩; (split <;> rintro ⟨⟩)]
  case listLock edit next => cases edit <;> exact hp'
  case notifyDunlock v =>
    have hnext : Notified p' := hp
    rw [hnext.takesOff] at hp'
    cases hp'
  case notifyKilled v => obtain rfl | rfl := hp <;> cases hp'
  all_goals exact hp'

/-! ### Every run -/

variable {s s' : LifeState θ τ ι}

/-- The scheduler lock, with those who take a task off the list. -/
structure Kept (s : LifeState θ τ ι) : Prop where
  held : Held s
  remover : ∀ w, takesOff (s.ctl w).point = true → s.mem.locker = some w

omit [DecidableEq θ] [DecidableEq τ] [DecidableEq ι] in
/-- Nobody takes a task off the list while another thread works under the scheduler lock. -/
theorem Kept.alone (h : Kept s) (ht : holds (s.ctl t).point = true)
    (hw : takesOff (s.ctl w).point = true) : w = t :=
  Option.some.inj ((h.remover w hw).symm.trans (h.held.holder t ht))

theorem kept_step (h : Kept s) (hs : Step (code ids) t s s') : Kept s' := by
  refine ⟨held_step h.held hs, fun w hw => ?_⟩
  by_cases hwt : w = t
  · subst hwt
    have hshape := h.held.shape w
    obtain ⟨hm, _, heq | hnext⟩ | ⟨p, p', hp, hp', hr, _⟩ := step_cases hs
    · rw [hm]
      exact h.remover w (heq ▸ hw)
    · rw [hm]
      exact h.remover w (next_takesOff hnext hshape hw)
    · rw [hp] at hshape
      rw [hp'] at hw
      obtain ⟨hholds | hbefore, hlocker⟩ := hr.takesOff hshape hw
      · rw [hlocker]
        exact h.held.holder w (by rwa [hp])
      · rw [hlocker]
        exact h.remover w (by rwa [hp])
  · rw [hs.ctl_other hwt] at hw
    have hlocker := h.remover w hw
    obtain ⟨hm, _⟩ | ⟨p, p', hp, _, hr, _⟩ := step_cases hs
    · rwa [hm]
    · refine hr.locker_other hwt (fun hc => (h.held.lock.clears t ?_).1) hlocker
      rwa [hp]

end

end

end V2lin.Lifecycle
