import V2lin.Sched.Code

/-! Who has the scheduler locked, and how often.

The flag and the counter agree whenever `v2pthread_task_lock` is free. They do not where the
one has been written and the other has not yet: in the `taskLock` that takes the flag, in
the last `taskUnlock`, which restores the priority in between, and in
`task_wrapper_cleanup`. -/
namespace V2lin.Sched
open Threads

section
variable {θ : Type} [DecidableEq θ] {ulongMax : ℕ} {t u : θ} {p p' : Pc} {m m' : Mem θ}
variable {tr : List (SchedTransition θ)} {s s' : SchedState θ}

/-- The points at which a thread is the locker. -/
def owns : Pc → Bool
  | .lockCount | .lockNotify | .lockRelease true | .lockTestcancel true | .lockListAcquire | .lockListRelease => true
  | .unlockCount | .unlockListAcquire | .unlockListRelease | .unlockClear | .cleanReset | .cleanClear => true
  | _ => false

/-- The points at which the counter is zero and the locker still is the locker. -/
def clearing : Pc → Bool
  | .unlockListAcquire | .unlockListRelease | .unlockClear | .cleanClear => true
  | _ => false

theorem clearing_held (h : clearing p = true) : .taskLock ∈ held p := by
  cases p <;> simp_all [clearing, held]

theorem next_cases (h : (code ulongMax t p).Next p') :
    (owns p' = true → owns p = true) ∧ clearing p' = clearing p ∧ p' ≠ .lockOwn := by
  cases p
  case lockRelease gotLock =>
    cases h
    cases gotLock <;> simp [owns, clearing]
  case lockCancelled gotLock =>
    cases h
    simp [owns, clearing]
  all_goals first
    | exact False.elim h
    | (cases h; simp [owns, clearing]; done)
    | (obtain ⟨r, rfl⟩ := h; simp [owns, clearing])

theorem next_not_lockCount (h : (code ulongMax t p).Next p') : p' ≠ .lockCount := by
  cases p
  case lockRelease gotLock =>
    cases h
    exact nofun
  case lockCancelled gotLock =>
    cases h
    exact nofun
  case lockWait =>
    obtain ⟨_, rfl⟩ := h
    exact nofun
  all_goals first
    | exact False.elim h
    | (cases h; exact nofun)

omit [DecidableEq θ] in
theorem Runs.to_lockCount (hr : Runs ulongMax t p m m' p') (hp : p' = .lockCount) :
    p = .lockOwn ∧ m'.taskLockLevel = m.taskLockLevel := by
  cases hr with
  | taken => exact ⟨rfl, rfl⟩
  | called op => cases op <;> cases hp
  | goesOn gotLock => cases gotLock <;> cases hp
  | counted => split at hp <;> cases hp
  | _ => cases hp

/-- What holds of the flag, the counter and the places of the threads. -/
structure Good (m : Mem θ) (ctl : θ → Ctl Pc) : Prop where
  locker : ∀ t, owns (ctl t).point = true → m.locker = some t
  admitted : ∀ t, ctl t = .awake .lockOwn → m.locker = none ∨ m.locker = some t
  free : m.locker = none → m.taskLockLevel = 0
  zero : ∀ t, m.locker = some t → clearing (ctl t).point = true → m.taskLockLevel = 0
  counts : ∀ t, m.locker = some t → m.taskLockLevel = 0 → clearing (ctl t).point = true ∨ (ctl t).point = .lockCount

omit [DecidableEq θ] in
theorem initial_good (s : SchedState θ) (h : Initial s) : Good s.mem s.ctl where
  locker t ht := by
    rw [h.idle t] at ht
    cases ht
  admitted t ht := by
    rw [h.idle t] at ht
    cases ht
  free _ := h.level
  zero t ht := by
    rw [h.locker] at ht
    cases ht
  counts t ht := by
    rw [h.locker] at ht
    cases ht

/-- The counter has not reached its maximum where it is counted up. -/
def BelowMax (ulongMax : ℕ) (x : SchedTransition θ) : Prop :=
  x.pre.ctl x.thread = .awake .lockCount → x.pre.mem.taskLockLevel < ulongMax

theorem countUp_of_lt {level : ℕ} (h : level < ulongMax) : countUp ulongMax level = level + 1 := by
  unfold countUp
  rw [Nat.mod_eq_of_lt (Nat.succ_lt_succ h)]
  exact if_neg (Nat.succ_ne_zero level)

variable {ctl ctl' : θ → Ctl Pc}

omit [DecidableEq θ] in
/-- The thread goes on without a change to the flag or the counter. -/
theorem Good.moves (h : Good m ctl) (hother : ∀ u ≠ t, ctl' u = ctl u)
    (howns : owns (ctl' t).point = true → owns (ctl t).point = true ∨ m.locker = some t)
    (hclears : clearing (ctl' t).point = clearing (ctl t).point) (hcount : (ctl t).point ≠ .lockCount)
    (hadmitted : ctl' t = .awake .lockOwn → m.locker = none ∨ m.locker = some t) : Good m ctl' where
  locker u hu := by
    by_cases hut : u = t
    · subst hut
      obtain hu | hu := howns hu
      · exact h.locker u hu
      · exact hu
    · rw [hother u hut] at hu
      exact h.locker u hu
  admitted u hu := by
    by_cases hut : u = t
    · subst hut
      exact hadmitted hu
    · rw [hother u hut] at hu
      exact h.admitted u hu
  free := h.free
  zero u hu := by
    by_cases hut : u = t
    · subst hut
      rw [hclears]
      exact h.zero u hu
    · rw [hother u hut]
      exact h.zero u hu
  counts u hu hzero := by
    by_cases hut : u = t
    · subst hut
      rw [hclears]
      exact .inl ((h.counts u hu hzero).resolve_right hcount)
    · rw [hother u hut]
      exact h.counts u hu hzero

omit [DecidableEq θ] in
/-- The locker changes the counter. -/
theorem Good.counted (h : Good m ctl) (hother : ∀ u ≠ t, ctl' u = ctl u) (hmine : m.locker = some t) {level : ℕ}
    (hclears : level = 0 ↔ clearing (ctl' t).point = true) : Good ⟨some t, level⟩ ctl' where
  locker u hu := by
    by_cases hut : u = t
    · rw [hut]
    · rw [hother u hut] at hu
      rw [← hmine]
      exact h.locker u hu
  admitted u hu := by
    by_cases hut : u = t
    · exact .inr (by rw [hut])
    · rw [hother u hut] at hu
      have hpre := h.admitted u hu
      rwa [hmine] at hpre
  free hfree := by cases hfree
  zero u hu := by
    cases hu
    exact hclears.mpr
  counts u hu hzero := by
    cases hu
    exact .inl (hclears.mp hzero)

omit [DecidableEq θ] in
/-- The flag goes from free to a thread, or from a thread to free; nobody else was about
to take it. -/
theorem Good.passes (h : Good m ctl) (hother : ∀ u ≠ t, ctl' u = ctl u)
    (hexcl : ∀ u ≠ t, ctl u ≠ .awake .lockOwn) (hmine : m.locker = none ∨ m.locker = some t) {k : Mem θ}
    (hlocker : ∀ u ≠ t, k.locker ≠ some u) (hmove : owns (ctl' t).point = true → k.locker = some t)
    (hadmitted : ctl' t ≠ .awake .lockOwn) (hfree : k.locker = none → k.taskLockLevel = 0)
    (hzero : k.locker = some t → clearing (ctl' t).point = false ∧ (ctl' t).point = .lockCount) : Good k ctl' where
  locker u hu := by
    by_cases hut : u = t
    · subst hut
      exact hmove hu
    · rw [hother u hut] at hu
      have hpre := h.locker u hu
      obtain hnone | hsome := hmine
      · rw [hnone] at hpre
        cases hpre
      · rw [hsome] at hpre
        exact absurd (Option.some.inj hpre).symm hut
  admitted u hu := by
    by_cases hut : u = t
    · exact absurd (hut ▸ hu) hadmitted
    · rw [hother u hut] at hu
      exact absurd hu (hexcl u hut)
  free := hfree
  zero u hu hclears := by
    by_cases hut : u = t
    · subst hut
      rw [(hzero hu).1] at hclears
      cases hclears
    · exact absurd hu (hlocker u hut)
  counts u hu _ := by
    by_cases hut : u = t
    · subst hut
      exact .inr (hzero hu).2
    · exact absurd hu (hlocker u hut)

omit [DecidableEq θ] in
theorem Runs.good (hr : Runs ulongMax t p m m' p') (h : Good m ctl) (hp : ctl t = .awake p)
    (hp' : ctl' t = .awake p') (hother : ∀ u ≠ t, ctl' u = ctl u)
    (hexcl : .taskLock ∈ held p → ∀ u ≠ t, ctl u ≠ .awake .lockOwn)
    (hmax : p = .lockCount → m.taskLockLevel < ulongMax) : Good m' ctl' := by
  have hpoint : (ctl t).point = p := by rw [hp, Ctl.point_awake]
  have hpoint' : (ctl' t).point = p' := by rw [hp', Ctl.point_awake]
  have hlocker := h.locker t
  rw [hpoint] at hlocker
  -- a block that writes nothing
  have hmoves : m' = m → (owns p' = true → owns p = true ∨ m.locker = some t) → clearing p' = clearing p →
      p ≠ .lockCount → (p' = .lockOwn → m.locker = none ∨ m.locker = some t) → Good m' ctl' := by
    rintro rfl howns hclears hcount hadmitted
    refine h.moves hother ?_ ?_ ?_ fun he => hadmitted ?_
    · rwa [hpoint, hpoint']
    · rwa [hpoint, hpoint']
    · rwa [hpoint]
    · rw [hp'] at he
      exact Ctl.awake.inj he
  have hcounts : ∀ level, m' = {m with taskLockLevel := level} → owns p = true →
      (level = 0 ↔ clearing p' = true) → Good m' ctl' := by
    rintro level rfl howns hclears
    have hm := hlocker howns
    have hk : ({m with taskLockLevel := level} : Mem θ) = ⟨some t, level⟩ := by rw [hm]
    rw [hk]
    exact h.counted hother hm (by rwa [hpoint'])
  cases hr with
  | called op => cases op <;> exact hmoves rfl nofun rfl nofun nofun
  | admitted hm => exact hmoves rfl nofun rfl nofun fun _ => hm
  | goesOn gotLock =>
    cases gotLock
    · exact hmoves rfl nofun rfl nofun nofun
    · exact hmoves rfl (fun _ => .inl rfl) rfl nofun nofun
  | mine hm => exact hmoves rfl (fun _ => .inr hm) rfl nofun nofun
  | owned hm => exact hmoves rfl (fun _ => .inr hm) rfl nofun nofun
  | barred | again | killed | cancelled | foreign | unowned => exact hmoves rfl nofun rfl nofun nofun
  | taken =>
    refine h.passes hother (hexcl (List.mem_singleton_self _)) (h.admitted t hp) (fun u hu he => ?_) (fun _ => rfl)
      (by simp [hp']) nofun fun _ => ?_
    · exact hu (Option.some.inj he).symm
    · rw [hpoint']
      exact ⟨rfl, rfl⟩
  | locked =>
    have hlevel := countUp_of_lt (hmax rfl)
    refine hcounts _ rfl rfl ?_
    rw [hlevel]
    exact ⟨nofun, nofun⟩
  | counted =>
    have hm := hlocker rfl
    have hpos : 0 < m.taskLockLevel := by
      refine Nat.pos_of_ne_zero fun hzero => ?_
      obtain hclears | hcount := h.counts t hm hzero
      · rw [hpoint] at hclears
        cases hclears
      · rw [hpoint] at hcount
        cases hcount
    refine hcounts _ rfl rfl ?_
    split <;> simp [clearing] <;> omega
  | cleared | abandoned =>
    have hm := hlocker rfl
    have hzero := h.zero t hm (by rw [hpoint]; rfl)
    exact h.passes hother (hexcl (List.mem_singleton_self _)) (.inr hm) (fun _ _ => nofun) (by simp [hp', owns])
      (by simp [hp']) (fun _ => hzero) nofun
  | reset => exact hcounts 0 rfl rfl ⟨fun _ => rfl, fun _ => rfl⟩

theorem good_step (hown : Owned (code ulongMax) held .taskLock s) (h : Good s.mem s.ctl)
    (hs : Step (code ulongMax) t s s') (hmax : BelowMax ulongMax ⟨s, t, s'⟩) : Good s'.mem s'.ctl := by
  obtain ⟨hm, hnoblock, hpoint⟩ | ⟨p, p', hp, hp', hr⟩ := step_cases hs
  · rw [hm]
    have hnext : (owns (s'.ctl t).point = true → owns (s.ctl t).point = true) ∧
        clearing (s'.ctl t).point = clearing (s.ctl t).point ∧ s'.ctl t ≠ .awake .lockOwn := by
      obtain hsame | hnext := hpoint
      · refine ⟨by rw [hsame]; exact id, by rw [hsame], fun he => ?_⟩
        rw [he, Ctl.point_awake] at hsame
        exact hnoblock _ (by rw [← hsame]; rfl)
      · obtain ⟨howns, hclears, hne⟩ := next_cases hnext
        exact ⟨howns, hclears, fun he => hne (by rw [he, Ctl.point_awake])⟩
    refine h.moves (fun u hu => hs.ctl_other hu) (fun hu => .inl (hnext.1 hu)) hnext.2.1 (fun he => ?_)
      fun hu => absurd hu hnext.2.2
    exact hnoblock _ (by rw [he]; rfl)
  · refine hr.good h hp hp' (fun u hu => hs.ctl_other hu) (fun hheld u hu hadmitted => hu ?_) fun he => hmax (he ▸ hp)
    exact hown.unique ((claims_awake hadmitted).mpr (List.mem_singleton_self _)) ((claims_awake hp).mpr hheld)

instance {n : ℕ} (x : SchedTransition (Fin n)) : Decidable (BelowMax ulongMax x) :=
  inferInstanceAs (Decidable (x.pre.ctl x.thread = .awake .lockCount → x.pre.mem.taskLockLevel < ulongMax))

instance {n : ℕ} (x : SchedTransition (Fin n)) : Decidable (Harmless x) :=
  inferInstanceAs (Decidable (∀ gotLock, x.pre.ctl x.thread = .awake (.lockCancelled gotLock) →
    x.pre.owner .taskLock = none))

/-- What the theorems about the scheduler lock ask of every step. -/
structure Regular (ulongMax : ℕ) (x : SchedTransition θ) : Prop where
  max : BelowMax ulongMax x
  harmless : Harmless x

theorem good (h : Run (code ulongMax) Initial tr s) (hx : ∀ x ∈ tr, Regular ulongMax x) : Good s.mem s.ctl := by
  induction h with
  | start hi => exact initial_good _ hi
  | step hr hs ih =>
    have hbefore := fun x hin => hx x (List.mem_cons_of_mem _ hin)
    exact good_step (owned hr (fun x hin => (hbefore x hin).harmless) .taskLock) (ih hbefore) hs
      (hx _ (List.mem_cons_self ..)).max

/-! ### Counting the calls -/

/-- The step in which a `taskLock` of thread `t` takes effect. -/
def locks (t : θ) (x : SchedTransition θ) : Bool := x.thread = t ∧ x.pre.ctl t = .awake .lockCount

/-- The step in which a `taskUnlock` of thread `t` takes effect. -/
def unlocks (t : θ) (x : SchedTransition θ) : Bool := x.thread = t ∧ x.pre.ctl t = .awake .unlockCount

/-- The step in which thread `t` becomes the locker. -/
def becomes (t : θ) (x : SchedTransition θ) : Bool := x.pre.mem.locker ≠ some t ∧ x.post.mem.locker = some t

/-- The steps of a run since thread `t` last became the locker. -/
def tenure (t : θ) : List (SchedTransition θ) → List (SchedTransition θ)
  | [] => []
  | x :: tr => if becomes t x then [x] else x :: tenure t tr

omit [DecidableEq θ] in
theorem Runs.becomes (hr : Runs ulongMax t p m m' p') (hm : m.locker ≠ some u) (hm' : m'.locker = some u) :
    p = .lockOwn ∧ u = t ∧ m'.taskLockLevel = m.taskLockLevel := by
  cases hr with
  | taken => exact ⟨rfl, (Option.some.inj hm').symm, rfl⟩
  | cleared | abandoned => cases hm'
  | _ => exact absurd hm' hm

omit [DecidableEq θ] in
/-- A block of a thread that is not the locker changes neither the flag nor the counter. -/
theorem Runs.powerless (hr : Runs ulongMax t p m m' p') (hlocker : owns p = true → m.locker = some t)
    (hadmitted : p = .lockOwn → m.locker = none ∨ m.locker = some t) (hm : m.locker = some u) (hu : u ≠ t) :
    m' = m := by
  have hforeign : m.locker ≠ some t := fun he => hu (Option.some.inj (hm.symm.trans he))
  cases hr with
  | taken =>
    obtain hnone | hmine := hadmitted rfl
    · rw [hm] at hnone
      cases hnone
    · exact absurd hmine hforeign
  | locked | counted | cleared | reset | abandoned => exact absurd (hlocker rfl) hforeign
  | _ => rfl

omit [DecidableEq θ] in
theorem Runs.count (hr : Runs ulongMax t p m m' p') (hm' : m'.locker = some t) (hp' : p' ≠ .cleanClear)
    (hpos : p = .unlockCount → 0 < m.taskLockLevel) (hmax : p = .lockCount → m.taskLockLevel < ulongMax) :
    m'.taskLockLevel + (if p = .unlockCount then 1 else 0) =
      m.taskLockLevel + (if p = .lockCount then 1 else 0) := by
  cases hr with
  | locked => simp [countUp_of_lt (hmax rfl)]
  | counted =>
    have hpos := hpos rfl
    rw [countDown, if_pos hpos]
    simp
    omega
  | cleared | abandoned => cases hm'
  | reset => exact absurd rfl hp'
  | _ => simp

omit [DecidableEq θ] in
theorem Runs.of_cleanClear (hr : Runs ulongMax t p m m' p') (hp : p = .cleanClear) : m'.locker = none := by
  cases hr with
  | abandoned => rfl
  | _ => cases hp

omit [DecidableEq θ] in
theorem Good.unlock_pos (h : Good m ctl) (hmine : m.locker = some t) (hp : ctl t = .awake .unlockCount) :
    0 < m.taskLockLevel := by
  refine Nat.pos_of_ne_zero fun hzero => ?_
  obtain hclears | hcount := h.counts t hmine hzero
  · rw [hp] at hclears
    cases hclears
  · rw [hp] at hcount
    cases hcount

/-- The counter is the locker's `taskLock` calls less its `taskUnlock` calls, until its
cleanup resets it. -/
theorem level_eq (h : Run (code ulongMax) Initial tr s) (hx : ∀ x ∈ tr, Regular ulongMax x)
    (hlocker : s.mem.locker = some t) (hclean : (s.ctl t).point ≠ .cleanClear) :
    s.mem.taskLockLevel + (tenure t tr).countP (unlocks t) = (tenure t tr).countP (locks t) := by
  induction h with
  | start hi =>
    rw [hi.locker] at hlocker
    cases hlocker
  | @step tr s u s' hr hs ih =>
    have hx' := fun x hin => hx x (List.mem_cons_of_mem _ hin)
    have hlast := (hx _ (List.mem_cons_self ..)).max
    have hgood := good hr hx'
    by_cases hmine : s.mem.locker = some t
    · -- the counter moves with the locker's own calls only
      have hstay : becomes t ⟨s, u, s'⟩ = false := by simp [becomes, hmine]
      rw [tenure, hstay, if_neg Bool.false_ne_true, List.countP_cons, List.countP_cons]
      obtain ⟨hm, hnoblock, _⟩ | ⟨p, p', hp, hp', hruns⟩ := step_cases hs
      · have hidle : ∀ p block, code ulongMax u p = .run block → ¬ (u = t ∧ s.ctl t = .awake p) := by
          rintro p block hi ⟨rfl, hp⟩
          exact hnoblock block (by rw [hp, Ctl.point_awake, hi])
        have hbefore : (s.ctl t).point ≠ .cleanClear := by
          intro he
          by_cases hut : t = u
          · subst hut
            exact hnoblock _ (by rw [he]; rfl)
          · exact hclean (by rw [hs.ctl_other hut, he])
        have hold := ih hx' hmine hbefore
        have hlocks : locks t ⟨s, u, s'⟩ = false := decide_eq_false (hidle .lockCount _ rfl)
        have hunlocks : unlocks t ⟨s, u, s'⟩ = false := decide_eq_false (hidle .unlockCount _ rfl)
        rw [hm, hlocks, hunlocks]
        simpa using hold
      · have hown := hgood.locker u
        rw [hp, Ctl.point_awake] at hown
        by_cases hut : t = u
        · subst hut
          have hbefore : (s.ctl t).point ≠ .cleanClear := by
            intro he
            rw [hp, Ctl.point_awake] at he
            subst he
            rw [hruns.of_cleanClear rfl] at hlocker
            cases hlocker
          have hold := ih hx' hmine hbefore
          rw [hp', Ctl.point_awake] at hclean
          have hcount := hruns.count hlocker hclean (fun he => hgood.unlock_pos hmine (he ▸ hp)) fun he => hlast (he ▸ hp)
          simp only [locks, unlocks, hp, Ctl.awake.injEq, true_and, decide_eq_true_eq]
          omega
        · have hold := ih hx' hmine (by rwa [hs.ctl_other hut] at hclean)
          have hm := hruns.powerless hown (fun he => hgood.admitted u (he ▸ hp)) hmine hut
          rw [hm]
          simpa [locks, unlocks, Ne.symm hut] using hold
    · -- the thread has just become the locker
      obtain ⟨hm, _⟩ | ⟨p, p', hp, hp', hruns⟩ := step_cases hs
      · rw [hm] at hlocker
        exact absurd hlocker hmine
      · obtain ⟨rfl, rfl, hlevel⟩ := hruns.becomes hmine hlocker
        have hnone := (hgood.admitted t hp).resolve_right hmine
        have hbecomes : becomes t ⟨s, t, s'⟩ = true := by simp [becomes, hmine, hlocker]
        rw [tenure, hbecomes, if_pos rfl, hlevel, hgood.free hnone]
        simp [locks, unlocks, hp]

/-- Before it counts up, the counter is zero in the first `taskLock` of a locker only. -/
theorem first_lock (h : Run (code ulongMax) Initial tr s) (hx : ∀ x ∈ tr, Regular ulongMax x)
    (hlocker : s.mem.locker = some t) (hp : (s.ctl t).point = .lockCount) (hzero : s.mem.taskLockLevel = 0) :
    (tenure t tr).countP (locks t) = 0 := by
  induction h with
  | start hi =>
    rw [hi.locker] at hlocker
    cases hlocker
  | @step tr s u s' hr hs ih =>
    have hx' := fun x hin => hx x (List.mem_cons_of_mem _ hin)
    have hgood := good hr hx'
    by_cases hmine : s.mem.locker = some t
    · have hstay : becomes t ⟨s, u, s'⟩ = false := by simp [becomes, hmine]
      rw [tenure, hstay, if_neg Bool.false_ne_true, List.countP_cons]
      by_cases hut : t = u
      · -- a locker that takes the flag again has counted before
        subst hut
        exfalso
        obtain ⟨_, hnoblock, hsame | hnext⟩ | ⟨p, p', hq, hq', hruns⟩ := step_cases hs
        · exact hnoblock _ (by rw [← hsame, hp]; rfl)
        · exact absurd hp (next_not_lockCount hnext)
        · rw [hq', Ctl.point_awake] at hp
          obtain ⟨rfl, hlevel⟩ := hruns.to_lockCount hp
          rw [hlevel] at hzero
          obtain hclears | hcount := hgood.counts t hmine hzero
          · rw [hq] at hclears
            cases hclears
          · rw [hq] at hcount
            cases hcount
      · have hm : s'.mem = s.mem := by
          obtain ⟨hm, _⟩ | ⟨p, p', hq, _, hruns⟩ := step_cases hs
          · exact hm
          · have hown := hgood.locker u
            rw [hq, Ctl.point_awake] at hown
            exact hruns.powerless hown (fun he => hgood.admitted u (he ▸ hq)) hmine hut
        rw [hm] at hzero
        rw [hs.ctl_other hut] at hp
        rw [ih hx' hmine hp hzero]
        simp [locks, Ne.symm hut]
    · obtain ⟨hm, _⟩ | ⟨p, p', hq, _, hruns⟩ := step_cases hs
      · rw [hm] at hlocker
        exact absurd hlocker hmine
      · obtain ⟨rfl, rfl, _⟩ := hruns.becomes hmine hlocker
        have hbecomes : becomes t ⟨s, t, s'⟩ = true := by simp [becomes, hmine, hlocker]
        rw [tenure, hbecomes, if_pos rfl]
        simp [locks, hq]

/-- The step that ends a successful `taskLock`. -/
def returns (x : SchedTransition θ) : Bool := x.pre.ctl x.thread = .awake .lockListRelease

/-- The points of `taskUnlock` and `task_wrapper_cleanup`. -/
def releasing : Pc → Bool
  | .unlockAcquire | .unlockTest | .unlockCount | .unlockListAcquire | .unlockListRelease => true
  | .unlockClear | .unlockNotify | .unlockRelease => true
  | .cleanAcquire | .cleanTest | .cleanReset | .cleanClear | .cleanRelease => true
  | _ => false

theorem returns_locker (h : Run (code ulongMax) Initial tr s) (hall : ∀ x ∈ tr, Regular ulongMax x)
    {x : SchedTransition θ} (hx : x ∈ tr) (hret : returns x = true) :
    x.pre.mem.locker = some x.thread ∧ x.post.mem.locker = some x.thread := by
  have hs := h.steps x hx
  have hp : x.pre.ctl x.thread = .awake .lockListRelease := of_decide_eq_true hret
  obtain ⟨later, before, rfl⟩ := List.append_of_mem hx
  have hgood := good h.before fun y hy => hall y (List.mem_append_right _ (List.mem_cons_of_mem _ hy))
  have hmine := hgood.locker x.thread (by rw [hp]; rfl)
  refine ⟨hmine, ?_⟩
  obtain ⟨hm, _⟩ | ⟨p, p', hq, _, hr⟩ := step_cases hs
  · rwa [hm]
  · rw [hp] at hq
    cases hq
    cases hr

theorem releasing_powerless (h : Run (code ulongMax) Initial tr s) (hall : ∀ x ∈ tr, Regular ulongMax x)
    {x : SchedTransition θ} (hx : x ∈ tr) (hrel : releasing (x.pre.ctl x.thread).point = true)
    (hforeign : x.pre.mem.locker ≠ some x.thread) : x.post.mem = x.pre.mem := by
  have hs := h.steps x hx
  obtain ⟨later, before, rfl⟩ := List.append_of_mem hx
  have hgood := good h.before fun y hy => hall y (List.mem_append_right _ (List.mem_cons_of_mem _ hy))
  obtain ⟨hm, _⟩ | ⟨p, p', hp, _, hr⟩ := step_cases hs
  · exact hm
  · have hown := hgood.locker x.thread
    rw [hp, Ctl.point_awake] at hown hrel
    generalize x.post.mem = m' at hr
    cases hr with
    | taken | locked => cases hrel
    | counted | cleared | reset | abandoned => exact absurd (hown rfl) hforeign
    | _ => rfl

/-- While the counter is below its maximum and no second unlocking does harm: the flag is
clear and the counter zero together, whenever `v2pthread_task_lock` is free. While a thread
is the locker the counter is zero where `clearing` says, and where it has taken the flag and
not counted yet; it is the locker's `taskLock` calls less its `taskUnlock` calls since it
became the locker, until its cleanup resets it. A thread that returns from `taskLock` is the
locker. Neither `taskUnlock` nor `task_wrapper_cleanup` changes anything for a thread that
is not. -/
theorem scheduler_lock (h : Run (code ulongMax) Initial tr s) (hall : ∀ x ∈ tr, Regular ulongMax x) :
    (s.owner .taskLock = none → (s.mem.locker = none ↔ s.mem.taskLockLevel = 0)) ∧
    (s.mem.locker = none → s.mem.taskLockLevel = 0) ∧
    (∀ t, s.mem.locker = some t →
      (s.mem.taskLockLevel = 0 ↔ clearing (s.ctl t).point = true ∨
        (s.ctl t).point = .lockCount ∧ (tenure t tr).countP (locks t) = 0) ∧
      ((s.ctl t).point ≠ .cleanClear →
        s.mem.taskLockLevel + (tenure t tr).countP (unlocks t) = (tenure t tr).countP (locks t))) ∧
    (∀ x ∈ tr, returns x = true → x.pre.mem.locker = some x.thread ∧ x.post.mem.locker = some x.thread) ∧
    ∀ x ∈ tr, releasing (x.pre.ctl x.thread).point = true → x.pre.mem.locker ≠ some x.thread →
      x.post.mem = x.pre.mem := by
  have hgood := good h hall
  refine ⟨fun hfree => ⟨hgood.free, fun hzero => ?_⟩, hgood.free, fun t ht => ⟨⟨fun hzero => ?_, ?_⟩, level_eq h hall ht⟩,
    fun x hx hret => returns_locker h hall hx hret,
    fun x hx hrel hforeign => releasing_powerless h hall hx hrel hforeign⟩
  · rw [Option.eq_none_iff_forall_ne_some]
    intro t ht
    have hheld : .taskLock ∈ held (s.ctl t).point := by
      obtain hclears | hcount := hgood.counts t ht hzero
      · exact clearing_held hclears
      · rw [hcount]
        exact List.mem_singleton_self _
    have hown : s.owner .taskLock = some t := by
      refine owned h (fun x hx => (hall x hx).harmless) .taskLock t ?_
      cases hp : s.ctl t with
      | awake p =>
        rw [hp, Ctl.point_awake] at hheld
        exact (claims_awake hp).mpr hheld
      | asleep p n =>
        -- nobody sleeps at such a point
        have hcases := hgood.counts t ht hzero
        rw [hp, Ctl.point_asleep] at hcases
        obtain ⟨_, _, _, _, hi⟩ := h.asleep (fun s t p n hi => by rw [hi.idle t]; exact nofun) hp
        obtain hclears | rfl := hcases
        · cases p <;> first | (cases hclears; done) | cases hi
        · cases hi
    rw [hfree] at hown
    cases hown
  · obtain hclears | hcount := hgood.counts t ht hzero
    · exact .inl hclears
    · exact .inr ⟨hcount, first_lock h hall ht hcount hzero⟩
  · rintro (hclears | ⟨hcount, hnone⟩)
    · exact hgood.zero t ht hclears
    · have hlevel := level_eq h hall ht (by rw [hcount]; exact nofun)
      omega

end

/-! ### The flag behind the counter -/

/-- A thread locks the scheduler and unlocks it, as far as to the counter. -/
def lockAndCount : List (Fin 1 × Input Choice) :=
  calls 0 .taskLock :: goesOn 0 9 ++ calls 0 .taskUnlock :: goesOn 0 3

/-- The thread still is the locker, at level zero. -/
theorem locker_at_level_zero :
    ¬ ∀ (tr : List (SchedTransition (Fin 1))) (s : SchedState (Fin 1)), Run (code (2 ^ 64 - 1)) Initial tr s →
      (s.mem.locker = none ↔ s.mem.taskLockLevel = 0) := by
  intro hclaim
  obtain ⟨tr, s, hr, hs⟩ := run_of_check (code (2 ^ 64 - 1)) lockAndCount (fun _ s =>
      s.mem.locker = some 0 ∧ s.mem.taskLockLevel = 0) boot_initial (by decide)
  obtain ⟨hlocker, hlevel⟩ := of_decide_eq_true hs
  have hnone := (hclaim tr s hr).mpr hlevel
  rw [hlocker] at hnone
  cases hnone

/-- Thread 0 locks the scheduler twice and unlocks it once, while thread 1 waits for it. -/
def nested : List (Fin 2 × Input Choice) :=
  calls 0 .taskLock :: goesOn 0 9 ++ calls 1 .taskLock :: goesOn 1 3 ++
    calls 0 .taskLock :: goesOn 0 9 ++ calls 0 .taskUnlock :: goesOn 0 4

theorem nested_locked : ∃ (tr : List (SchedTransition (Fin 2))) (s : SchedState (Fin 2)),
    s.mem.locker = some 0 ∧ s.mem.taskLockLevel = 1 ∧
      s.mem.taskLockLevel + (tenure 0 tr).countP (unlocks 0) = (tenure 0 tr).countP (locks 0) := by
  obtain ⟨tr, s, hr, hs⟩ := run_of_check (code (2 ^ 64 - 1)) nested (fun tr s =>
      (∀ x ∈ tr, BelowMax (2 ^ 64 - 1) x ∧ Harmless x) ∧ s.mem.locker = some 0 ∧ s.mem.taskLockLevel = 1 ∧
        (s.ctl 0).point = .idle) boot_initial (by decide)
  obtain ⟨hall, hlocker, hlevel, hidle⟩ := of_decide_eq_true hs
  obtain ⟨_, _, hcount, _⟩ := scheduler_lock hr fun x hx => ⟨(hall x hx).1, (hall x hx).2⟩
  exact ⟨tr, s, hlocker, hlevel, (hcount 0 hlocker).2 (by rw [hidle]; exact nofun)⟩

end V2lin.Sched
