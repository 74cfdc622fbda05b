import V2lin.TaskLib.Sound

/-! Protection from deletion.

The protection count of a task is the number of its `taskSafe` calls less that of its
effective `taskUnsafe` calls, as long as `taskSafe` does not find the count at the largest
`int`, where the overflow adjustment leaves it. `taskDelete` finds the count at zero when
it cancels or removes the task: the scheduler lock is held from the test of the count to
the deletion, and the count changes under that lock only. -/
namespace V2lin.TaskLib
open Threads V2lin.Task

section
variable {θ ι : Type} [DecidableEq θ] [DecidableEq ι]

/-- The `taskSafe` calls of a task. -/
def safeCalls (t : θ) (tr : List (TaskTransition θ ι)) : ℕ :=
  tr.countP fun x => x.thread = t ∧ x.pre.ctl t = .awake .safeCount

/-- Those that do not find the count at its maximum. -/
def countedSafeCalls (t : θ) (tr : List (TaskTransition θ ι)) : ℕ :=
  tr.countP fun x => x.thread = t ∧ x.pre.ctl t = .awake .safeCount ∧ (x.pre.mem.tcb t).deleteSafeCount < intMax

/-- The `taskUnsafe` calls of a task that find it protected. -/
def effectiveUnsafeCalls (t : θ) (tr : List (TaskTransition θ ι)) : ℕ :=
  tr.countP fun x => x.thread = t ∧ x.pre.ctl t = .awake .unsafeCount ∧ 0 < (x.pre.mem.tcb t).deleteSafeCount

variable {ids : AddressIds θ} {t u w : θ} {p p' : Pc θ} {m m' : Mem θ ι}
variable {s s' : TaskState θ ι} {tr : List (TaskTransition θ ι)}

/-- Only a task itself changes its protection count. -/
theorem Runs.count_cases (hr : Runs ids w p m m' p') (hreg : Registry ids m) (hok : Ok ids m w p) (u : θ) :
    (m'.tcb u).deleteSafeCount = (m.tcb u).deleteSafeCount ∧ (u = w → p ≠ .safeCount ∧ p ≠ .unsafeCount) ∨
      u = w ∧ p = .safeCount ∧ (m'.tcb u).deleteSafeCount = countUp (m.tcb u).deleteSafeCount ∨
      u = w ∧ p = .unsafeCount ∧ (m'.tcb u).deleteSafeCount = countDown (m.tcb u).deleteSafeCount := by
  have hset : ∀ {v : θ} {b : Tcb θ ι}, b.deleteSafeCount = (m.tcb v).deleteSafeCount →
      ((m.setTcb v b).tcb u).deleteSafeCount = (m.tcb u).deleteSafeCount := by
    intro v b hb
    rw [Mem.setTcb_congr Tcb.deleteSafeCount m hb]
  cases hr with
  | reads hg => exact .inl ⟨rfl, fun _ => ⟨(by rintro rfl; cases hg), (by rintro rfl; cases hg)⟩⟩
  | locked hl => exact .inl ⟨rfl, fun _ => ⟨(by rintro rfl; cases hl), (by rintro rfl; cases hl)⟩⟩
  | unlocked hu => exact .inl ⟨rfl, fun _ => ⟨(by rintro rfl; cases hu), (by rintro rfl; cases hu)⟩⟩
  | cleaned hc => exact .inl ⟨rfl, fun _ => ⟨(by rintro rfl; cases hc), (by rintro rfl; cases hc)⟩⟩
  | killed hk => exact .inl ⟨rfl, fun _ => ⟨(by rintro rfl; cases hk), (by rintro rfl; cases hk)⟩⟩
  | registered n tid =>
    refine .inl ⟨?_, fun _ => ⟨nofun, nofun⟩⟩
    by_cases hu : u = n
    · -- a new task starts unprotected, as its block has been so far
      rw [hu, Mem.setTcb_self]
      exact (hreg.quiet n (hok.spawns n rfl).2).symm
    · rw [Mem.setTcb_of_ne _ _ hu]
      rfl
  | named => exact .inl ⟨hset rfl, fun _ => ⟨nofun, nofun⟩⟩
  | activated => exact .inl ⟨hset rfl, fun _ => ⟨nofun, nofun⟩⟩
  | noThread => exact .inl ⟨by rw [Mem.taskDelete_tcb], fun _ => ⟨nofun, nofun⟩⟩
  | linked => exact .inl ⟨hset rfl, fun _ => ⟨nofun, nofun⟩⟩
  | unlinked => exact .inl ⟨by rw [Mem.unlinkWaiting_tcb], fun _ => ⟨nofun, nofun⟩⟩
  | removed => exact .inl ⟨by rw [Mem.taskDelete_tcb], fun _ => ⟨nofun, nofun⟩⟩
  | selfRemoved => exact .inl ⟨by rw [Mem.taskDelete_tcb], fun _ => ⟨nofun, nofun⟩⟩
  | protects =>
    by_cases hu : u = w
    · subst hu
      exact .inr (.inl ⟨rfl, rfl, by rw [Mem.setTcb_self]⟩)
    · exact .inl ⟨by rw [Mem.setTcb_of_ne m _ hu], fun he => absurd he hu⟩
  | unprotects =>
    by_cases hu : u = w
    · subst hu
      exact .inr (.inr ⟨rfl, rfl, by rw [Mem.setTcb_self]⟩)
    · exact .inl ⟨by rw [Mem.setTcb_of_ne m _ hu], fun he => absurd he hu⟩
  | _ => exact .inl ⟨rfl, fun _ => ⟨nofun, nofun⟩⟩

omit [DecidableEq ι] in
/-- A step before which the count of `u` is not changed is counted by neither. -/
theorem counts_same {x : TaskTransition θ ι}
    (h : x.thread = u → x.pre.ctl u ≠ .awake .safeCount ∧ x.pre.ctl u ≠ .awake .unsafeCount) :
    countedSafeCalls u (x :: tr) = countedSafeCalls u tr ∧
      effectiveUnsafeCalls u (x :: tr) = effectiveUnsafeCalls u tr := by
  refine ⟨List.countP_cons_of_neg ?_, List.countP_cons_of_neg ?_⟩
  · simpa using fun hx hp => absurd hp (h hx).1
  · simpa using fun hx hp => absurd hp (h hx).2

/-- The count of a task balances its calls. -/
structure Balanced (count : ℤ) (u : θ) (tr : List (TaskTransition θ ι)) : Prop where
  nonneg : 0 ≤ count
  le_max : count ≤ intMax
  balance : count + effectiveUnsafeCalls u tr = countedSafeCalls u tr

theorem balanced_step (hreg : Registry ids s.mem) (hok : Ok ids s.mem t (s.ctl t).point)
    (h : Balanced (s.mem.tcb u).deleteSafeCount u tr) (hs : Step (code ids) t s s') :
    Balanced (s'.mem.tcb u).deleteSafeCount u (⟨s, t, s'⟩ :: tr) := by
  obtain ⟨hnonneg, hmax, hbalance⟩ := h
  have hkept : (s'.mem.tcb u).deleteSafeCount = (s.mem.tcb u).deleteSafeCount →
      (t = u → s.ctl u ≠ .awake .safeCount ∧ s.ctl u ≠ .awake .unsafeCount) →
      Balanced (s'.mem.tcb u).deleteSafeCount u (⟨s, t, s'⟩ :: tr) := by
    intro heq hother
    obtain ⟨hsafe, hunprot⟩ : countedSafeCalls u (⟨s, t, s'⟩ :: tr) = countedSafeCalls u tr ∧
        effectiveUnsafeCalls u (⟨s, t, s'⟩ :: tr) = effectiveUnsafeCalls u tr := counts_same hother
    exact ⟨heq ▸ hnonneg, heq ▸ hmax, by rw [heq, hsafe, hunprot, hbalance]⟩
  obtain ⟨hm, hblock, _⟩ | ⟨p, p', hp, _, hr, _⟩ := step_cases hs
  · refine hkept (by rw [hm]) ?_
    rintro rfl
    refine ⟨fun hp => ?_, fun hp => ?_⟩ <;> rw [hp] at hblock <;> exact hblock _ rfl
  · rw [hp, Ctl.point_awake] at hok
    obtain ⟨heq, hne⟩ | ⟨rfl, rfl, heq⟩ | ⟨rfl, rfl, heq⟩ := hr.count_cases hreg hok u
    · refine hkept heq ?_
      rintro rfl
      rw [hp]
      exact ⟨fun he => (hne rfl).1 (Ctl.awake.inj he), fun he => (hne rfl).2 (Ctl.awake.inj he)⟩
    · have hunprot : effectiveUnsafeCalls u (⟨s, u, s'⟩ :: tr) = effectiveUnsafeCalls u tr := by
        refine List.countP_cons_of_neg ?_
        simp [hp]
      by_cases hlt : (s.mem.tcb u).deleteSafeCount < intMax
      · have hsafe : countedSafeCalls u (⟨s, u, s'⟩ :: tr) = countedSafeCalls u tr + 1 := by
          refine List.countP_cons_of_pos ?_
          simp [hp, hlt]
        rw [heq, countUp_of_lt hnonneg hlt]
        exact ⟨by omega, by omega, by rw [hunprot, hsafe]; omega⟩
      · -- the call that the overflow adjustment takes back
        have hfull : (s.mem.tcb u).deleteSafeCount = intMax := by omega
        have hsafe : countedSafeCalls u (⟨s, u, s'⟩ :: tr) = countedSafeCalls u tr := by
          refine List.countP_cons_of_neg ?_
          simp [hp, hfull]
        rw [heq, hfull, countUp_intMax, ← hfull]
        exact ⟨hnonneg, hmax, by rw [hunprot, hsafe, hbalance]⟩
    · have hsafe : countedSafeCalls u (⟨s, u, s'⟩ :: tr) = countedSafeCalls u tr := by
        refine List.countP_cons_of_neg ?_
        simp [hp]
      by_cases hpos : 0 < (s.mem.tcb u).deleteSafeCount
      · have hunprot : effectiveUnsafeCalls u (⟨s, u, s'⟩ :: tr) = effectiveUnsafeCalls u tr + 1 := by
          refine List.countP_cons_of_pos ?_
          simp [hp, hpos]
        rw [heq, countDown, if_pos hpos]
        exact ⟨by omega, by omega, by rw [hunprot, hsafe]; omega⟩
      · have hunprot : effectiveUnsafeCalls u (⟨s, u, s'⟩ :: tr) = effectiveUnsafeCalls u tr := by
          refine List.countP_cons_of_neg ?_
          simp [hp, hpos]
        rw [heq, countDown, if_neg hpos]
        exact ⟨hnonneg, hmax, by rw [hunprot, hsafe, hbalance]⟩

theorem balanced (h : Run (code ids) (Initial ids) tr s) (u : θ) :
    Balanced (s.mem.tcb u).deleteSafeCount u tr := by
  induction h with
  | start hs =>
    rw [hs.tcb]
    exact ⟨Int.le_refl 0, show (0 : ℤ) ≤ intMax by decide, rfl⟩
  | step hr hs ih => exact balanced_step (sound hr).registry ((sound hr).ok _) ih hs

/-! ### Deletion -/

/-- The points at which `taskDeleteForce` cancels or removes a task. -/
def condemned : Pc θ → Option (Cause θ × θ)
  | .forceCancel cause u | .forceRemove cause u | .forceSelfRemove cause u => some (cause, u)
  | _ => none

theorem condemned_unprotected (h : Run (code ids) (Initial ids) tr s) {x : TaskTransition θ ι} (hx : x ∈ tr)
    {v : θ} (hp : condemned (x.pre.ctl x.thread).point = some (.nested v, u)) :
    (x.pre.mem.tcb u).deleteSafeCount = 0 := by
  obtain ⟨later, before, rfl⟩ := List.append_of_mem hx
  have hk := (sound h.before).knows x.thread
  have hnonneg := (balanced h.before u).nonneg
  have htarget : Target x.pre.mem (.nested v) u := by
    generalize (x.pre.ctl x.thread).point = p at hp hk
    cases p <;> cases hp
    · exact hk.1
    · exact hk.1
    · exact hk.1
  have hcount := (htarget.2 v rfl).1
  omega

/-- Task 1 protects itself and gives that up again before task 0 deletes it. -/
def safeThenDelete : List (Fin 3 × Input (Choice (Fin 3))) :=
  does 1 .safe :: goesOn 1 6 ++ does 1 .unsafely :: goesOn 1 7 ++ does 0 (.delete 65538) :: goesOn 0 11 ++
    does 1 .kill :: goesOn 1 2 ++ goesOn 0 4

/-- The task is in its own code and everything it needs is free. -/
structure Rests (s : TaskState θ ι) (t : θ) : Prop where
  idle : s.ctl t = .awake .idle
  mine : s.mem.myTask t = some t
  sched : s.mem.sched = {}
  free : s.owner (.tdeleteLock t) = none

theorem safe_call (h : Run (code ids) (Initial ids) tr s) (ht : Rests s t) :
    ∃ (tr' : List (TaskTransition θ ι)) (s' : TaskState θ ι), Run (code ids) (Initial ids) tr' s' ∧ Rests s' t ∧
      safeCalls t tr' = safeCalls t tr + 1 ∧ effectiveUnsafeCalls t tr' = effectiveUnsafeCalls t tr := by
  obtain ⟨hidle, hmine, hsched, hfree⟩ := ht
  have hlock : s.mem.sched.taskLock t = some ⟨some t, 1⟩ := by
    rw [hsched]
    exact if_pos (.inl rfl)
  have hunlock : (⟨some t, 1⟩ : SchedLock θ).taskUnlock t = {} := by simp [SchedLock.taskUnlock]
  -- `taskLock`, the count under `tdelete_lock`, `taskUnlock`
  have hcall := h.step (Step.run (x := .safe) hidle rfl rfl)
  have hlocked := hcall.step (Step.run (t := t) (x := .none) (Function.update_self ..) rfl
    (show lockBlock t .safeFind .dying .none s.mem = some ({s.mem with sched := ⟨some t, 1⟩}, .safeFind) by
      simp [lockBlock, cancelBlock, hlock]))
  have hfound := hlocked.step (Step.run (t := t) (x := .none) (Function.update_self ..) rfl
    (if_neg (show ¬ ({s.mem with sched := ⟨some t, 1⟩} : Mem θ ι).myTask t = none by
      show ¬ s.mem.myTask t = none
      rw [hmine]
      rintro ⟨⟩)))
  have htlocked := hfound.step (Step.lock (t := t) .none (Function.update_self ..) rfl hfree)
  have hcounted := htlocked.step (Step.run (t := t) (x := .none) (Function.update_self ..) rfl rfl)
  have htunlocked := hcounted.step (Step.unlock (t := t) .none (Function.update_self ..) rfl)
  have hdone := htunlocked.step (Step.run (t := t) (x := .none) (Function.update_self ..) rfl rfl)
  refine ⟨_, _, hdone, ⟨Function.update_self .., ?_, hunlock, Function.update_self ..⟩, ?_, ?_⟩
  · simpa [Mem.myTask, Mem.taskUnlock] using hmine
  · simp [safeCalls, hidle]
  · simp [effectiveUnsafeCalls, hidle]

/-- A task may call `taskSafe` as often as it likes. -/
theorem safe_calls {s₀ : TaskState θ ι} (hinit : Initial ids s₀) (ht : Rests s₀ t) (n : ℕ) :
    ∃ (tr : List (TaskTransition θ ι)) (s : TaskState θ ι), Run (code ids) (Initial ids) tr s ∧ Rests s t ∧
      safeCalls t tr = n ∧ effectiveUnsafeCalls t tr = 0 := by
  induction n with
  | zero => exact ⟨[], s₀, .start hinit, ht, rfl, rfl⟩
  | succ n ih =>
    obtain ⟨tr, s, hr, hrests, hsafe, hunprot⟩ := ih
    obtain ⟨tr', s', hr', hrests', hsafe', hunprot'⟩ := safe_call hr hrests
    exact ⟨tr', s', hr', hrests', by rw [hsafe', hsafe], by rw [hunprot', hunprot]⟩

end

end V2lin.TaskLib
