import V2lin.Sched.Code
import V2lin.Threads.Wakeups

/-! Who may go on waiting for a scheduler that is not locked.

A thread waits in `taskLock` because somebody else has the scheduler locked. `taskUnlock`
clears the flag and broadcasts, all under `v2pthread_task_lock`, so that no waiter is left
behind; `task_wrapper_cleanup` clears the flag and broadcasts nothing. -/
namespace V2lin.Sched
open Threads

section
variable {θ : Type} [DecidableEq θ]
variable {ulongMax : ℕ} {t u : θ} {p p' : Pc} {m m' : Mem θ} {tr : List (SchedTransition θ)} {s s' : SchedState θ}

omit [DecidableEq θ] in
theorem initial_awake (s : SchedState θ) (t : θ) (p : Pc) (n : ℕ) (h : Initial s) : s.ctl t ≠ .asleep p n := by
  rw [h.idle t]
  exact nofun

/-- Thread `t` waits in `taskLock`, and nobody has told it of a change since it fell asleep. -/
def Overlooked (ulongMax : ℕ) (s : SchedState θ) (t : θ) : Prop :=
  Unreached (code ulongMax) .taskLockChange s t

theorem overlooked_iff : Overlooked ulongMax s t ↔ s.ctl t = .asleep .lockWait (s.signals .taskLockChange) := by
  constructor
  · intro ⟨p, lock, timed, next, hp, hi⟩
    cases p <;> simp only [code, reduceCtorEq] at hi
    case lockWait => exact hp
  · intro hp
    exact ⟨_, _, _, _, hp, rfl⟩

/-! ### Blocks -/

omit [DecidableEq θ] in
/-- The flag changes under `v2pthread_task_lock` only. -/
theorem Runs.locker_locked (h : Runs ulongMax t p m m' p') : m'.locker = m.locker ∨ .taskLock ∈ held p := by
  cases h with
  | taken | cleared | abandoned => exact .inr (List.mem_singleton_self _)
  | _ => exact .inl rfl

omit [DecidableEq θ] in
/-- A block that clears the flag leads to the broadcast, or is the one of the cleanup. -/
theorem Runs.clears (h : Runs ulongMax t p m m' p') (hm : m.locker ≠ none) (hm' : m'.locker = none) :
    p' = .unlockNotify ∨ p = .cleanClear := by
  cases h with
  | taken => cases hm'
  | cleared => exact .inl rfl
  | abandoned => exact .inr rfl
  | _ => exact absurd hm' hm

omit [DecidableEq θ] in
theorem Runs.to_lockWait (h : Runs ulongMax t p m m' p') (hp : p' = .lockWait) : m'.locker ≠ none := by
  cases h with
  | barred hm => exact fun hnone => hm (.inl hnone)
  | called op => cases op <;> cases hp
  | goesOn gotLock => cases gotLock <;> cases hp
  | counted => split at hp <;> cases hp
  | _ => cases hp

theorem next_not_lockWait (h : (code ulongMax t p).Next p') : p' ≠ .lockWait := by
  cases p
  case lockRelease gotLock | lockCancelled gotLock =>
    cases h
    exact nofun
  case lockWait =>
    obtain ⟨_, rfl⟩ := h
    exact nofun
  all_goals first
    | exact h.elim
    | (cases h; exact nofun)

/-- A thread on its way to sleep has seen another in possession, who still is. -/
theorem barred_locked (h : Run (code ulongMax) Initial tr s) (hc : ∀ x ∈ tr, Harmless x)
    (hp : s.ctl t = .awake .lockWait) : s.mem.locker ≠ none := by
  induction h with
  | start hi =>
    rw [hi.idle t] at hp
    cases hp
  | @step tr s u s' hr hs ih =>
    have hc' := fun x hx => hc x (List.mem_cons_of_mem _ hx)
    by_cases hu : t = u
    · subst hu
      obtain ⟨_, hnext⟩ | ⟨p, block, c, hq, hi, hb, _⟩ := hs.awake_cases hp
      · exact absurd rfl (next_not_lockWait hnext)
      · exact (block_runs hi hb).to_lockWait rfl
    · have hp₀ : s.ctl t = .awake .lockWait := by rw [← hs.ctl_other hu, hp]
      obtain ⟨hm, _⟩ | ⟨p, p', hq, _, hruns⟩ := step_cases hs
      · rw [hm]
        exact ih hc' hp₀
      · obtain heq | hlock := hruns.locker_locked
        · rw [heq]
          exact ih hc' hp₀
        · refine absurd ((owned hr hc' .taskLock).unique ?_ ?_) hu
          · exact (claims_awake hp₀).mpr (List.mem_singleton_self _)
          · exact (claims_awake hq).mpr hlock

/-! ### The wakeup -/

/-- The step in which `task_wrapper_cleanup` gives up the lock of a thread that ends. -/
def abandons (x : SchedTransition θ) : Prop := x.pre.ctl x.thread = .awake .cleanClear

/-- Nobody is left behind by a thread that ends with the scheduler locked, and no second
unlocking does harm. -/
structure Considerate (ulongMax : ℕ) (x : SchedTransition θ) : Prop where
  harmless : Harmless x
  noticed : abandons x → ∀ u, ¬ Overlooked ulongMax x.pre u

/-- Somebody has the scheduler locked, or is about to broadcast that it is not. -/
def Announced (s : SchedState θ) : Prop :=
  s.mem.locker ≠ none ∨ ∃ u, s.ctl u = .awake .unlockNotify

theorem announced (h : Run (code ulongMax) Initial tr s) (hno : ∀ x ∈ tr, Considerate ulongMax x)
    (ht : Unreached (code ulongMax) .taskLockChange s t) : Announced s := by
  refine h.unreached initial_awake (Considerate ulongMax) Announced ?_ ?_ hno ht
  · intro tr t s s' p c timed next hr hall _ _ hp _ hi hm
    cases p <;> simp only [code, reduceCtorEq] at hi
    case lockWait =>
      refine .inl ?_
      rw [hm]
      exact barred_locked hr (fun x hx => (hall x hx).harmless) hp
  · intro tr t u s s' hr _ hs hlast ht _ hsame hannounced
    obtain hlocked | ⟨v, hv⟩ := hannounced
    · obtain ⟨hm, _⟩ | ⟨p, p', hp, hp', hruns⟩ := step_cases hs
      · exact .inl (hm ▸ hlocked)
      · by_cases hfree : s'.mem.locker = none
        · obtain rfl | rfl := hruns.clears hlocked hfree
          · exact .inr ⟨u, hp'⟩
          · -- the reset tells nobody, but nobody waits
            obtain ⟨q, _, _, _, hq, hi⟩ := ht
            cases q <;> simp only [code, reduceCtorEq] at hi
            case lockWait => exact absurd (overlooked_iff.mpr hq) (hlast.noticed hp t)
        · exact .inl hfree
    · refine .inr ⟨v, ?_⟩
      by_cases hvu : v = u
      · subst hvu
        exact absurd hsame (hs.signals_ne hv rfl)
      · rw [hs.ctl_other hvu, hv]

/-- While no thread that ends with the scheduler locked leaves somebody behind who waits
for it, nobody waits unreached for a scheduler that is not locked. -/
theorem waiters_woken (h : Run (code ulongMax) Initial tr s) (hno : ∀ x ∈ tr, Considerate ulongMax x)
    (hfree : s.owner .taskLock = none) (hlocker : s.mem.locker = none) : ¬ Overlooked ulongMax s t := by
  intro ht
  have ht' : Unreached (code ulongMax) .taskLockChange s t := ⟨_, _, _, _, overlooked_iff.mp ht, rfl⟩
  obtain hlocked | ⟨u, hu⟩ := announced h hno ht'
  · exact hlocked hlocker
  · have hown := owned h (fun x hx => (hno x hx).harmless) .taskLock u ((claims_awake hu).mpr (List.mem_singleton_self _))
    rw [hfree] at hown
    cases hown

/-- Whoever is left behind then goes on waiting for a scheduler that nobody has locked. -/
theorem left_behind (h : Run (code ulongMax) Initial tr s) (hp : s.ctl t = .awake .cleanClear)
    (hu : Overlooked ulongMax s u) : ∃ tr' s', Run (code ulongMax) Initial (tr' ++ tr) s' ∧
      s'.owner .taskLock = none ∧ s'.mem.locker = none ∧ Overlooked ulongMax s' u := by
  have hut : u ≠ t := by
    rintro rfl
    rw [overlooked_iff, hp] at hu
    cases hu
  let s₁ : SchedState θ :=
    {s with mem := {s.mem with locker := none}, ctl := Function.update s.ctl t (.awake .cleanRelease)}
  have hpoint : s₁.ctl t = .awake .cleanRelease := Function.update_self ..
  have hclear : Step (code ulongMax) t s s₁ := .run (x := .none) hp rfl rfl
  have hrelease := Step.unlock Choice.none hpoint (rfl : code ulongMax t .cleanRelease = _)
  refine ⟨_ :: _ :: [], _, .step (.step h hclear) hrelease, by simp, rfl, overlooked_iff.mpr ?_⟩
  show Function.update (Function.update s.ctl t _) t _ u = _
  rw [Function.update_of_ne hut, Function.update_of_ne hut]
  exact overlooked_iff.mp hu

end

/-! ### A thread that ends -/

/-- Thread 0 locks the scheduler, thread 1 waits for it, and thread 0 ends. -/
def endsLocked : List (Fin 2 × Input Choice) :=
  calls 0 .taskLock :: goesOn 0 9 ++ calls 1 .taskLock :: goesOn 1 3 ++ calls 0 .cleanup :: goesOn 0 5

/-- Nobody has the scheduler locked, and thread 1 waits for it. -/
theorem waiter_left_behind :
    ¬ ∀ (tr : List (SchedTransition (Fin 2))) (s : SchedState (Fin 2)) (t : Fin 2),
      Run (code (2 ^ 64 - 1)) Initial tr s → s.owner .taskLock = none → s.mem.locker = none →
      ¬ Overlooked (2 ^ 64 - 1) s t := by
  intro hclaim
  obtain ⟨tr, s, hr, hs⟩ := run_of_check (code (2 ^ 64 - 1)) endsLocked (fun _ s =>
      (s.owner .taskLock = none ∧ s.mem.locker = none) ∧ s.ctl 1 = .asleep .lockWait (s.signals .taskLockChange))
    boot_initial (by decide)
  obtain ⟨⟨hfree, hlocker⟩, hp⟩ := of_decide_eq_true hs
  exact hclaim tr s 1 hr hfree hlocker (overlooked_iff.mpr hp)

/-- The same, but thread 0 unlocks the scheduler before it ends. -/
def endsUnlocked : List (Fin 2 × Input Choice) :=
  calls 0 .taskLock :: goesOn 0 9 ++ calls 1 .taskLock :: goesOn 1 3 ++ calls 0 .taskUnlock :: goesOn 0 8 ++
    calls 0 .cleanup :: goesOn 0 3

theorem endsUnlocked_woken : ∃ s : SchedState (Fin 2),
    (∃ n, s.ctl 1 = .asleep .lockWait n) ∧ s.mem.locker = none ∧ ¬ Overlooked (2 ^ 64 - 1) s 1 := by
  obtain ⟨tr, s, hr, hs⟩ := run_of_check (code (2 ^ 64 - 1)) endsUnlocked (fun tr s =>
      (∀ x ∈ tr, x.pre.ctl x.thread ≠ .awake .cleanClear ∧
        ∀ gotLock, x.pre.ctl x.thread ≠ .awake (.lockCancelled gotLock)) ∧
      (s.owner .taskLock = none ∧ s.mem.locker = none) ∧ s.ctl 1 = .asleep .lockWait 1)
    boot_initial (by decide)
  obtain ⟨hno, ⟨hfree, hlocker⟩, hp⟩ := of_decide_eq_true hs
  refine ⟨s, ⟨1, hp⟩, hlocker, waiters_woken hr (fun x hx => ⟨fun gotLock he => ?_, fun hends => ?_⟩) hfree hlocker⟩
  · exact absurd he ((hno x hx).2 gotLock)
  · exact absurd hends (hno x hx).1

end V2lin.Sched
