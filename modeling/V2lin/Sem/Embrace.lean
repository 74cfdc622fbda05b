import V2lin.Sem.Wakeups

/-! The order of `sem_list_lock` and `sem_lock`.

`sem_find_lock` takes `sem_lock` while it holds the list. A flush or a deletion that finds
nobody pended does not give `sem_lock` up: the deletion takes the list with it, the flush
returns with it. -/
namespace V2lin.Sem
open Threads V2lin.Task

section
variable {θ ι : Type}

/-- A thread that has `sem_lock` gives it up before it takes the list: any but a flush or
a deletion that has nobody to wake. -/
def yields (v : V2lsem θ) : Pc ι → Prop
  | .flushStart _ => v.isMutex ∨ v.firstSusp ≠ []
  | .flushTaskLock _ | .flushTest _ | .deleteTaskLock _ | .deleteTest _ => v.firstSusp ≠ []
  | .deleteListLock _ _ | .deleteUnlink _ _ | .deleteListUnlock _ _ | .deleteFree _ _ => False
  | _ => True

/-- A thread that has `sem_lock` knows it, and gives it up before it takes the list. -/
def GivesUp (id : ι) (s : SemState θ ι) (t : θ) : Prop :=
  ∃ p, s.ctl t = .awake p ∧ .semLock id ∈ held p ∧ yields (s.mem.sem id) p

/-- The step in which a call takes `sem_list_lock` to look for a semaphore whose lock is
held by a thread that does not give it up. -/
def Overtakes (id : ι) (x : SemTransition θ ι) : Prop :=
  (∃ op, x.pre.ctl x.thread = .awake (.findLock op id)) ∧
    ∃ u, x.pre.owner (.semLock id) = some u ∧ ¬ GivesUp id x.pre u

variable [DecidableEq θ] [DecidableEq ι]

/-- A point of `sem_find_lock` on the list. -/
def looking (id : ι) : Pc ι → Bool
  | .findScan _ j | .findSem _ j => j = id
  | _ => false

/-- While somebody looks for a semaphore, whoever has its lock gives it up. -/
def Apart (id : ι) (s : SemState θ ι) : Prop :=
  ∀ u, looking id (s.ctl u).point = true → ∀ t, s.owner (.semLock id) = some t → GivesUp id s t

variable {myTask : θ → Option θ} {prio : θ → Int} {t u : θ} {p p' : Pc ι} {id : ι} {m m' : Mem θ ι}
variable {tr : List (SemTransition θ ι)} {s s' : SemState θ ι}

omit [DecidableEq θ] in
theorem held_of_looking (h : looking id p = true) : .semListLock ∈ held p := by
  cases p <;> first | cases h | exact List.mem_singleton_self _

theorem next_looking (h : (code myTask prio t p).Next p') (hl : looking id p' = true) : ∃ op, p = .findLock op id := by
  cases p
  case findLock op j =>
    cases h
    exact ⟨op, by rw [of_decide_eq_true hl]⟩
  case findUnlock op j found =>
    cases h
    cases found
    · cases hl
    · cases op <;> cases hl
  all_goals first
    | exact False.elim h
    | (cases h; cases hl)
    | (obtain ⟨r, rfl⟩ := h; cases hl)

theorem Runs.looking_eq (h : Runs myTask prio t p m m' p') (hl : looking id p' = true) :
    looking id p = true ∧ m' = m := by
  cases h with
  | found => exact ⟨hl, rfl⟩
  | left => split at hl <;> cases hl
  | gave => split at hl <;> cases hl
  | _ => cases hl

/-- From a point where `sem_lock` is given up before the list is taken, a block goes to
another one. -/
theorem Runs.yields (h : Runs myTask prio t p m m' p') (hin : .semLock id ∈ held p) (hy : yields (m.sem id) p) :
    .semLock id ∈ held p' ∧ Sem.yields (m'.sem id) p' := by
  cases h with
  | called _ _ hp =>
    rw [held_resting hp] at hin
    cases hin
  | refused hp =>
    rw [held_resting hp] at hin
    cases hin
  | created _ _ hp =>
    rw [held_resting hp] at hin
    cases hin
  | left hw =>
    obtain ⟨retcode, hp⟩ := hw.point
    rw [hp.held] at hin
    split <;> exact ⟨hin, trivial⟩
  | sleeps hp =>
    rw [hp.held] at hin
    exact ⟨hin, trivial⟩
  | polls hp =>
    rw [hp.held] at hin
    exact ⟨hin, trivial⟩
  | gave => split <;> exact ⟨hin, trivial⟩
  | @flushAdmitted m j hmutex =>
    obtain rfl : id = j := by simpa [held] using hin
    exact ⟨hin, hy.resolve_left hmutex⟩
  | flushTaskLocked => exact ⟨hin, hy⟩
  | deleteTaskLocked => exact ⟨hin, hy⟩
  | @flushNobody m j hnobody =>
    obtain rfl : id = j := by simpa [held] using hin
    exact absurd hnobody hy
  | @deleteNobody m j hnobody =>
    obtain rfl : id = j := by simpa [held] using hin
    exact absurd hnobody hy
  | unlinked => exact hy.elim
  | freed => exact hy.elim
  | linked => simp [held] at hin
  | found => simp [held] at hin
  | notFound => simp [held] at hin
  | flushUndrained => simp [held] at hin
  | flushDrained => simp [held] at hin
  | flushTaskUnlocked => simp [held] at hin
  | deleteUndrained => simp [held] at hin
  | deleteDrained => simp [held] at hin
  | deleteTaskUnlocked => simp [held] at hin
  | _ => exact ⟨hin, trivial⟩

/-- A synchronization from such a point, with the list not held, goes to another one. -/
theorem next_yields {v : V2lsem θ} (h : (code myTask prio t p).Next p') (hlist : .semListLock ∉ held p)
    (hy : yields v p) : yields v p' := by
  cases p
  case findUnlock op j found => cases found <;> simp [held] at hlist
  all_goals first
    | exact False.elim h
    | exact hy.elim
    | (cases h; trivial)
    | (obtain ⟨r, rfl⟩ := h; trivial)

/-- In every run the list is owned by the thread that claims it. -/
theorem list_owner (h : Run (code myTask prio) Initial tr s) (hown : s.owner .semListLock = some t) :
    ∃ p, s.ctl t = .awake p ∧ .semListLock ∈ held p := by
  have hown := ((guarded .semListLock).owner_iff (fun s hs => outside_owned s hs.outside) (fun _ hs => hs.owner _) h).mp hown
  refine claims_iff.mp (hown.resolve_right ?_)
  rintro ⟨x, hx, hf⟩
  obtain ⟨p, block, c, p', _, hi, hb, _, hin, hout⟩ := hf.block (guarded .semListLock) (h.steps x hx)
  obtain heq | ⟨id, rfl, _⟩ | ⟨id, drained, rfl, _⟩ := (block_runs hi hb).held_eq
  · exact hout (heq ▸ hin)
  · simp [held] at hin
  · cases drained <;> simp [held] at hin

/-- Only one thread is where a mutex is held. -/
theorem held_unique (h : Run (code myTask prio) Initial tr s) {lock : Lock ι} (hp : s.ctl t = .awake p)
    (hlock : lock ∈ held p) (hq : s.ctl u = .awake p') (hlock' : lock ∈ held p') : t = u :=
  (owned h lock).unique ((claims_awake hp).mpr hlock) ((claims_awake hq).mpr hlock')

/-- The thread that looks has the list. -/
theorem looking_awake (h : Run (code myTask prio) Initial tr s) (hl : looking id (s.ctl u).point = true) :
    ∃ p, s.ctl u = .awake p ∧ looking id p = true := by
  cases hc : s.ctl u with
  | awake p =>
    rw [hc, Ctl.point_awake] at hl
    exact ⟨p, rfl, hl⟩
  | asleep p n =>
    obtain ⟨c, lock, timed, next, hi⟩ := h.asleep initial_awake hc
    rw [hc, Ctl.point_asleep] at hl
    cases p <;> first | cases hl | cases hi

/-- While another thread looks, a thread that has `sem_lock` after its step gives it up. -/
theorem GivesUp.step (hs : Step (code myTask prio) t s s')
    (ha : s.owner (.semLock id) = some t → GivesUp id s t) (hlist : ∀ p, s.ctl t = .awake p → .semListLock ∉ held p)
    (hown : s'.owner (.semLock id) = some t) : GivesUp id s' t := by
  by_cases hbefore : s.owner (.semLock id) = some t
  · obtain ⟨p, hp, hin, hy⟩ := ha hbefore
    cases hc : s'.ctl t with
    | awake p' =>
      obtain ⟨hm, hnext⟩ | ⟨q, block, c, hq, hi, hb, _⟩ := hs.awake_cases hc
      · rw [hp, Ctl.point_awake] at hnext
        obtain hin' | ⟨next, hi⟩ := (guarded (.semLock id)).next hnext hin
        · refine ⟨p', hc, hin', ?_⟩
          rw [hm]
          exact next_yields hnext (hlist p hp) hy
        · have hd := hs.does hp
          rw [hi] at hd
          rw [show s' = _ from hd] at hown
          simp at hown
      · rw [hp] at hq
        cases hq
        exact ⟨p', hc, (block_runs hi hb).yields hin hy⟩
    | asleep p' n =>
      obtain ⟨c, lock, timed, next, hi, hawake, rfl⟩ := hs.falls_asleep hc
      rw [hp] at hawake
      cases hawake
      cases p <;> simp only [code, reduceCtorEq, Instr.wait.injEq] at hi
      case takeWait maxWait j =>
        obtain ⟨_, rfl, _⟩ := hi
        obtain rfl : id = j := by simpa [held] using hin
        simp at hown
      all_goals simp [held] at hin
  · obtain ⟨p, next, hp, hi, hp'⟩ | ⟨p, n, c, timed, next, r, _, hi, hp'⟩ := hs.acquires hbefore hown
    · cases p <;> simp only [code, reduceCtorEq, Instr.lock.injEq, Lock.semLock.injEq, false_and] at hi
      case findSem op j => exact absurd (List.mem_singleton_self _) (hlist _ hp)
      case takeRelock maxWait j retcode =>
        obtain ⟨rfl, rfl⟩ := hi
        exact ⟨_, hp', List.mem_singleton_self _, trivial⟩
    · cases p <;> simp only [code, reduceCtorEq, Instr.wait.injEq, Lock.semLock.injEq, false_and, and_false] at hi
      case takeWait maxWait j =>
        obtain ⟨_, rfl, _, rfl⟩ := hi
        exact ⟨_, hp', List.mem_singleton_self _, trivial⟩

/-- The thread that looks for a semaphore has taken the list for it, or comes from its scan. -/
theorem looking_step (h : Run (code myTask prio) Initial tr s) (hs : Step (code myTask prio) t s s')
    (hno : ¬ Overtakes id ⟨s, t, s'⟩)
    (ha : looking id (s.ctl t).point = true → ∀ w, s.owner (.semLock id) = some w → GivesUp id s w)
    (hq : s'.ctl t = .awake p') (hlook : looking id p' = true) :
    s'.mem = s.mem ∧ s'.owner (.semLock id) = s.owner (.semLock id) ∧
      (∀ w, s.owner (.semLock id) = some w → GivesUp id s w) ∧
      ∀ p, s.ctl t = .awake p → .semLock id ∉ held p := by
  obtain ⟨hm, hnext⟩ | ⟨p, block, c, hp, hi, hb, ho, _⟩ := hs.awake_cases hq
  · obtain ⟨op, hpoint⟩ := next_looking hnext hlook
    have hp : s.ctl t = .awake (.findLock op id) := by
      cases hc : s.ctl t with
      | awake p =>
        rw [hc, Ctl.point_awake] at hpoint
        rw [hpoint]
      | asleep p n =>
        obtain ⟨c, lock, timed, next, hi⟩ := h.asleep initial_awake hc
        rw [hc, Ctl.point_asleep] at hpoint
        rw [hpoint] at hi
        cases hi
    obtain ⟨_, rfl⟩ : _ ∧ s' = _ := hs.does hp
    refine ⟨hm, ?_, fun w hw => ?_, fun p hp' => ?_⟩
    · show Function.update s.owner .semListLock (some t) (.semLock id) = s.owner (.semLock id)
      simp
    · by_contra hng
      exact hno ⟨⟨op, hp⟩, w, hw, hng⟩
    · rw [hp] at hp'
      cases hp'
      exact List.not_mem_nil
  · obtain ⟨hl, hm⟩ := (block_runs hi hb).looking_eq hlook
    refine ⟨hm, by rw [ho], ha (by rwa [hp]), fun p' hp' hin => ?_⟩
    rw [hp] at hp'
    cases hp'
    cases p <;> first | cases hl | simp [held] at hin

theorem apart_step (h : Run (code myTask prio) Initial tr s) (hs : Step (code myTask prio) t s s')
    (hno : ¬ Overtakes id ⟨s, t, s'⟩) (ha : Apart id s) : Apart id s' := by
  intro u hl w hown
  obtain ⟨q, hq, hlook⟩ := looking_awake (h.step hs) hl
  by_cases hut : u = t
  · -- the thread that looks takes the list, or comes from its scan
    subst hut
    obtain ⟨hm, ho, hgive, hnot⟩ := looking_step h hs hno (ha u) hq hlook
    rw [ho] at hown
    obtain ⟨p, hp, hin, hy⟩ := hgive w hown
    have hwu : w ≠ u := by
      rintro rfl
      exact hnot p hp hin
    exact ⟨p, by rw [hs.ctl_other hwu, hp], hin, by rwa [hm]⟩
  · have hq₀ : s.ctl u = .awake q := by rw [← hs.ctl_other hut, hq]
    have hl₀ : looking id (s.ctl u).point = true := by rwa [hq₀]
    by_cases hwt : w = t
    · subst hwt
      refine GivesUp.step hs (ha u hl₀ w) (fun p hp hlist => hut ?_) hown
      exact held_unique h hq₀ (held_of_looking hlook) hp hlist
    · -- the lock's owner does not move, and nobody else changes what it protects
      have hown₀ : s.owner (.semLock id) = some w := by
        obtain heq | ⟨_, htaken⟩ | ⟨_, hfree⟩ := (guarded (.semLock id)).owner_step hs
        · rwa [← heq]
        · exact absurd (Option.some.inj (hown.symm.trans htaken)) hwt
        · rw [hfree] at hown
          cases hown
      obtain ⟨p, hp, hin, hy⟩ := ha u hl₀ w hown₀
      refine ⟨p, by rw [hs.ctl_other hwt, hp], hin, ?_⟩
      obtain ⟨hm, _⟩ | ⟨r, r', hr, _, hruns, _⟩ := step_cases hs
      · rwa [hm]
      · have hmade : s.mem.block id ≠ .fresh := (made h).touched w id (by rw [hp]; exact touches_of_held (.inl hin))
        obtain heq | hlock := hruns.sem_locked hmade
        · rwa [heq]
        · exact absurd (held_unique h hp hin hr hlock) hwt

theorem apart (h : Run (code myTask prio) Initial tr s) (hno : ∀ x ∈ tr, ¬ Overtakes id x) : Apart id s := by
  induction h with
  | start hi =>
    intro u hl
    rw [hi.idle u] at hl
    cases hl
  | step hr hs ih =>
    exact apart_step hr hs (hno _ (List.mem_cons_self ..)) (ih fun x hx => hno x (List.mem_cons_of_mem _ hx))

/-- No task that has `sem_lock` waits for the list while another that has the list waits
for that lock, as long as no call takes the list to look for a semaphore whose lock is not
given up. -/
theorem no_sem_embrace (h : Run (code myTask prio) Initial tr s) (hno : ∀ x ∈ tr, ¬ Overtakes id x) :
    ¬ Embrace (code myTask prio) (.semLock id) .semListLock s := by
  rintro ⟨t, u, hown, ⟨p, next, hp, hi⟩, hlist, ⟨q, next', hq, hi'⟩⟩
  obtain ⟨q', hq', hin⟩ := list_owner h hlist
  rw [hq] at hq'
  cases hq'
  have hl : looking id (s.ctl u).point = true := by
    rw [hq, Ctl.point_awake]
    cases q <;> simp only [code, reduceCtorEq, Instr.lock.injEq, Lock.semLock.injEq, false_and] at hi'
    case findSem op j => simp [looking, hi'.1]
    case takeRelock => simp [held] at hin
  obtain ⟨p', hp', hin', hy⟩ := apart h hno u hl t hown
  rw [hp] at hp'
  cases hp'
  cases p <;> simp only [code, reduceCtorEq, Instr.lock.injEq, false_and] at hi
  case deleteListLock => exact hy
  all_goals simp [held] at hin'

end

end V2lin.Sem
