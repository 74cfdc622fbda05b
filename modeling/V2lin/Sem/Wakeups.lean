import V2lin.Sem.Locks
import V2lin.Sem.Pended
import V2lin.Threads.Wakeups

/-! Who may go on sleeping on a semaphore.

A thread sleeps while there is no token, or while the thread that gave one is about to
broadcast. `semGive` broadcasts only if somebody is on the list, so this fails for threads
without a control block, which are never linked; and it fails for a thread whose time runs
out while it polls for a token that is not for it. -/
namespace V2lin.Sem
open Threads V2lin.Arith V2lin.Task

section
variable {θ ι : Type} [DecidableEq θ] [DecidableEq ι]
variable {myTask : θ → Option θ} {prio : θ → ℤ} {t u : θ} {p p' : Pc ι} {id : ι} {m m' : Mem θ ι}
variable {tr : List (SemTransition θ ι)} {s s' : SemState θ ι}

omit [DecidableEq θ] [DecidableEq ι] in
theorem initial_awake (s : SemState θ ι) (t : θ) (p : Pc ι) (n : ℕ) (h : Initial s) : s.ctl t ≠ .asleep p n := by
  rw [h.idle t]
  exact nofun

/-! ### Blocks -/

/-- A block changes the tokens under the semaphore's lock only. -/
theorem Runs.tokens_locked (h : Runs myTask prio t p m m' p') (hb : m.block id ≠ .fresh) :
    (m'.sem id).tokenCount = (m.sem id).tokenCount ∨ .semLock id ∈ held p := by
  obtain ⟨heq, _⟩ | ⟨_, rfl, _⟩ | ⟨_, _, hpoint, _⟩ | ⟨_, _, rfl, _⟩ | ⟨rfl, _⟩ := h.owner_cases hb
  · exact .inl heq
  · exact .inr (List.mem_singleton_self _)
  · exact .inr (by simp [hpoint.held])
  · exact .inr (List.mem_singleton_self _)
  · exact .inr (List.mem_singleton_self _)

theorem Runs.of_giveStart (h : Runs myTask prio t p m m' p') (hp : p = .giveStart id) :
    ∃ v error, giveToken (m.sem id) (myTask t) = (v, error) ∧ m' = m.setSem id v ∧
      p' = if error = .ok ∧ v.firstSusp ≠ [] then .giveNotify id else .giveUnlock id error := by
  cases h with
  | called _ _ hrest => rw [hp] at hrest; cases hrest
  | refused hrest => rw [hp] at hrest; cases hrest
  | created _ _ hrest => rw [hp] at hrest; cases hrest
  | left hw =>
    obtain ⟨_, hpoint⟩ := hw.point
    rw [hp] at hpoint
    cases hpoint
  | sleeps hpoint => rw [hp] at hpoint; cases hpoint
  | polls hpoint => rw [hp] at hpoint; cases hpoint
  | gave hg =>
    cases hp
    exact ⟨_, _, hg, rfl, rfl⟩
  | _ => cases hp

/-- A block adds a token on the way to the broadcast, or finds nobody on the list. -/
theorem Runs.gives (h : Runs myTask prio t p m m' p') (hb : m.block id ≠ .fresh) :
    (m'.sem id).tokenCount ≤ (m.sem id).tokenCount ∨ p' = .giveNotify id ∨
      (p = .giveStart id ∧ (m.sem id).firstSusp = [] ∧
        (m'.sem id).tokenCount = increment (m.sem id).tokenCount) := by
  obtain ⟨heq, _⟩ | ⟨_, _, _, _, _, heq⟩ | ⟨_, _, _, _, _, _, heq, _⟩ | ⟨_, _, _, _, heq, _⟩ | ⟨rfl, _⟩ :=
    h.owner_cases hb
  · exact .inl (Int.le_of_eq heq)
  · have hsame : (m'.sem id).tokenCount = (m.sem id).tokenCount := by rw [heq]
    exact .inl (Int.le_of_eq hsame)
  · exact .inl (by omega)
  · exact .inl (by omega)
  · obtain ⟨v, error, hg, rfl, rfl⟩ := h.of_giveStart rfl
    have hgave := giveToken_gave hg
    rw [Mem.setSem_self]
    obtain hsame | hmore := hgave.tokenCount
    · exact .inl (Int.le_of_eq hsame)
    · have hok : error = .ok := by
        by_contra hne
        rw [hgave.refused hne] at hmore
        exact increment_ne _ hmore.symm
      by_cases hlist : v.firstSusp = []
      · exact .inr (.inr ⟨rfl, hgave.firstSusp ▸ hlist, hmore⟩)
      · exact .inr (.inl (if_pos ⟨hok, hlist⟩))

/-- A thread goes to sleep from `waiting_on_sem`, and touches nothing. -/
theorem Runs.to_takeWait (h : Runs myTask prio t p m m' p') {maxWait : ℤ} (hp' : p' = .takeWait maxWait id) :
    m' = m ∧ ∃ retcode, WaitPoint maxWait id retcode p := by
  cases h with
  | left => split at hp' <;> cases hp'
  | gave => split at hp' <;> cases hp'
  | sleeps hpoint =>
    cases hp'
    exact ⟨rfl, _, hpoint⟩
  | _ => cases hp'

/-- At its start, `waiting_on_sem` says so only if there is no token. -/
theorem testBlock_waits {me : Option θ} {maxWait : ℤ} {retcode : Retcode}
    (h : (testBlock prio me maxWait id retcode m).2 = .takeWait maxWait id) : (m.sem id).tokenCount ≤ 0 := by
  have hleave : ∀ (v : V2lsem θ) (retcode : Retcode),
      (leaveBlock me maxWait id v retcode m).2 ≠ .takeWait maxWait id := by
    intro v retcode
    simp only [leaveBlock]
    split <;> exact nofun
  by_contra htoken
  have htoken : (m.sem id).tokenCount > 0 := Int.not_le.mp htoken
  unfold testBlock scanBlock tokenFor at h
  rw [if_pos htoken] at h
  split at h
  · exact hleave _ _ h
  · by_cases hours : signalForMyTask (m.sem id).firstSusp ((m.sem id).flags &&& semQPriority) prio me = true
    · rw [if_pos hours] at h
      exact hleave _ _ h
    · rw [if_neg hours] at h
      cases h

/-! ### Sleepers -/

/-- The step in which a thread goes from a poll of the semaphore to sleep although there
is a token: its time is over. -/
def dozes (id : ι) (x : SemTransition θ ι) : Bool :=
  match x.pre.ctl x.thread, x.post.ctl x.thread with
  | .awake (.takeAgain _ j _), .awake (.takeWait _ _) => j = id ∧ 0 < (x.pre.mem.sem id).tokenCount
  | _, _ => false

/-- The step in which a token is given while a thread sleeps that no broadcast has reached,
and nobody is on the list. -/
def Strands (myTask : θ → Option θ) (prio : θ → ℤ) (id : ι) (x : SemTransition θ ι) : Prop :=
  x.pre.ctl x.thread = .awake (.giveStart id) ∧ (x.pre.mem.sem id).firstSusp = [] ∧
    0 ≤ (x.pre.mem.sem id).tokenCount ∧ ∃ u, Unreached (code myTask prio) (.semSend id) x.pre u

theorem next_not_takeWait {maxWait : ℤ} (h : (code myTask prio t p).Next p') : p' ≠ .takeWait maxWait id := by
  cases p
  case findUnlock op j found =>
    cases h
    cases found
    · simp
    · cases op <;> simp [entry]
  all_goals first
    | exact False.elim h
    | (cases h; simp; done)
    | (obtain ⟨r, rfl⟩ := h; simp)

theorem owned (h : Run (code myTask prio) Initial tr s) (lock : Lock ι) : Owned (code myTask prio) held lock s :=
  (guarded lock).owned (fun s hs => outside_owned s hs.outside) h

/-- What a thread has seen of a semaphore whose lock it holds stays so: `sees` are the
points at which it knows `P`. -/
theorem seen (h : Run (code some prio) Initial tr s) (sees : Pc ι → Bool) (P : V2lsem θ → Prop)
    (hheld : ∀ p, sees p = true → .semLock id ∈ held p) (hidle : sees .idle = false)
    (hwait : ∀ maxWait, sees (.takeWait maxWait id) = false)
    (hnext : ∀ t p p', (code some prio t p).Next p' → sees p' = true → sees p = true)
    (hblock : ∀ t p p' m m', Runs some prio t p m m' p' → sees p' = true → P (m'.sem id))
    (ht : sees (s.ctl t).point = true) : P (s.mem.sem id) := by
  induction h generalizing t with
  | start hi =>
    rw [hi.idle t, Ctl.point_awake, hidle] at ht
    cases ht
  | @step tr s u s' hr hs ih =>
    by_cases hut : t = u
    · subst hut
      obtain ⟨hm, _, heq | hgoes⟩ | ⟨p, p', _, hp', hruns, _⟩ := step_cases hs
      · rw [hm]
        exact ih (heq ▸ ht)
      · rw [hm]
        exact ih (hnext _ _ _ hgoes ht)
      · rw [hp', Ctl.point_awake] at ht
        exact hblock _ _ _ _ _ hruns ht
    · rw [hs.ctl_other hut] at ht
      obtain ⟨hm, _⟩ | ⟨p, p', hp, _, hruns, _⟩ := step_cases hs
      · rw [hm]
        exact ih ht
      · -- the other thread has the lock
        have hlocked := hheld _ ht
        have htouch : touches (s.ctl t).point = some id := touches_of_held (.inl hlocked)
        obtain heq | hlock := hruns.sem_locked ((made hr).touched t id htouch)
        · rw [heq]
          exact ih ht
        · refine absurd ((owned hr (.semLock id)).unique ?_ ((claims_awake hp).mpr hlock)) hut
          refine claims_iff.mpr ?_
          cases hc : s.ctl t with
          | awake q =>
            rw [hc, Ctl.point_awake] at hlocked
            exact ⟨q, rfl, hlocked⟩
          | asleep q n =>
            obtain ⟨c, lock, timed, next, hi⟩ := hr.asleep initial_awake hc
            rw [hc, Ctl.point_asleep] at ht hlocked
            cases q <;> simp only [code, reduceCtorEq] at hi
            · obtain rfl : id = _ := by simpa [held] using hlocked
              rw [hwait] at ht
              cases ht
            · simp [held] at hlocked
            · simp [held] at hlocked

/-- A thread that is about to sleep has seen that there is no token. -/
theorem sleepy_empty (h : Run (code myTask prio) Initial tr s) (hno : ∀ x ∈ tr, dozes id x = false)
    {maxWait : ℤ} (hp : s.ctl t = .awake (.takeWait maxWait id)) : (s.mem.sem id).tokenCount ≤ 0 := by
  induction h with
  | start hi =>
    rw [hi.idle t] at hp
    cases hp
  | @step tr s u s' hr hs ih =>
    by_cases hu : t = u
    · subst hu
      obtain ⟨_, hnext⟩ | ⟨q, block, c, hq, hi, hb, _⟩ := hs.awake_cases hp
      · exact absurd rfl (next_not_takeWait hnext)
      · obtain ⟨hm, retcode, hpoint⟩ := (block_runs hi hb).to_takeWait rfl
        rw [hm]
        cases hpoint with
        | test =>
          simp only [code, Instr.run.injEq] at hi
          subst hi
          exact testBlock_waits (Prod.mk.inj (Option.some.inj hb)).2
        | again =>
          have hdoze := hno _ (List.mem_cons_self ..)
          simpa [dozes, hq, hp] using hdoze
    · have hp₀ : s.ctl t = .awake (.takeWait maxWait id) := by rw [← hs.ctl_other hu, hp]
      have hempty := ih (fun x hx => hno x (List.mem_cons_of_mem _ hx)) hp₀
      have hb : s.mem.block id ≠ .fresh := (made hr).touched t id (by rw [hp₀]; rfl)
      obtain ⟨hm, _⟩ | ⟨p, p', hq, _, hruns, _⟩ := step_cases hs
      · rwa [hm]
      · obtain heq | hlock := hruns.tokens_locked hb
        · rwa [heq]
        · refine absurd ((owned hr (.semLock id)).unique ?_ ?_) hu
          · exact (claims_awake hp₀).mpr (List.mem_singleton_self _)
          · exact (claims_awake hq).mpr hlock

/-- There is no token, or somebody is about to say otherwise. -/
def Announced (id : ι) (s : SemState θ ι) : Prop :=
  (s.mem.sem id).tokenCount ≤ 0 ∨ ∃ u, s.ctl u = .awake (.giveNotify id)

theorem sleeper_made (h : Made s) (ht : Unreached (code myTask prio) (.semSend id) s t) :
    s.mem.block id ≠ .fresh := by
  obtain ⟨p, c, timed, next, hp, hi⟩ := ht
  cases p <;> simp only [code, reduceCtorEq, Instr.wait.injEq, Cond.semSend.injEq, false_and] at hi
  case takeWait maxWait j =>
    obtain ⟨rfl, _⟩ := hi
    exact h.touched t j (by rw [hp]; rfl)

theorem announced (h : Run (code myTask prio) Initial tr s)
    (hno : ∀ x ∈ tr, dozes id x = false ∧ ¬ Strands myTask prio id x)
    (ht : Unreached (code myTask prio) (.semSend id) s t) : Announced id s := by
  refine h.unreached initial_awake (fun x => dozes id x = false ∧ ¬ Strands myTask prio id x) (Announced id)
    ?_ ?_ hno ht
  · intro tr t s s' p c timed next hr hok _ _ hp _ hi hm
    cases p <;> simp only [code, reduceCtorEq, Instr.wait.injEq, Cond.semSend.injEq, false_and] at hi
    case takeWait maxWait j =>
      obtain ⟨rfl, _⟩ := hi
      refine .inl ?_
      rw [hm]
      exact sleepy_empty hr (fun x hx => (hok x hx).1) hp
  · intro tr t u s s' hr _ hs hlast ht _ hsame hannounced
    have hb := sleeper_made (made hr) ht
    obtain hempty | ⟨v, hv⟩ := hannounced
    · obtain ⟨hm, _⟩ | ⟨p, p', hp, hp', hruns, _⟩ := step_cases hs
      · exact .inl (hm ▸ hempty)
      · obtain hle | rfl | ⟨rfl, hnobody, hmore⟩ := hruns.gives hb
        · exact .inl (Int.le_trans hle hempty)
        · exact .inr ⟨u, hp'⟩
        · -- the sleeper is not on the list, so there must have been a token owing
          refine .inl ?_
          by_contra hpos
          have hone := increment_le (s.mem.sem id).tokenCount
          have howed : 0 ≤ (s.mem.sem id).tokenCount := by omega
          exact hlast.2 ⟨hp, hnobody, howed, t, ht⟩
    · refine .inr ⟨v, ?_⟩
      by_cases hvu : v = u
      · subst hvu
        exact absurd hsame (hs.signals_ne hv rfl)
      · rw [hs.ctl_other hvu, hv]

/-- A thread that sleeps on a semaphore whose lock is free, and whom no broadcast has
reached, finds no token there, unless a thread has gone from a poll to sleep in spite of
one, or one was given while a thread slept that is not on the list. -/
theorem sleepers_woken (h : Run (code myTask prio) Initial tr s)
    (hno : ∀ x ∈ tr, dozes id x = false ∧ ¬ Strands myTask prio id x)
    (ht : Unreached (code myTask prio) (.semSend id) s t) (hfree : s.owner (.semLock id) = none) :
    (s.mem.sem id).tokenCount ≤ 0 := by
  obtain hempty | ⟨u, hu⟩ := announced h hno ht
  · exact hempty
  · have hown := owned h (.semLock id) u ((claims_awake hu).mpr (List.mem_singleton_self _))
    rw [hfree] at hown
    cases hown

/-- A task that sleeps is on the list, so nobody strands it. -/
theorem task_not_stranded (h : Run (code some prio) Initial tr s) {x : SemTransition θ ι} (hx : x ∈ tr) :
    ¬ Strands some prio id x := by
  rintro ⟨_, hnobody, _, u, p, c, timed, next, hp, hi⟩
  obtain ⟨later, before, rfl⟩ := List.append_of_mem hx
  cases p <;> simp only [code, reduceCtorEq, Instr.wait.injEq, Cond.semSend.injEq, false_and] at hi
  case takeWait maxWait j =>
    obtain ⟨rfl, _⟩ := hi
    have hlisted : u ∈ (x.pre.mem.sem j).firstSusp :=
      (((linked h.before).lists j).mem u).mpr (by simp [waits, hp, pendsOn])
    rw [hnobody] at hlisted
    cases hlisted

end

/-! ### A sleeper that nobody wakes -/

/-- Thread 1 has no control block. It waits for a semaphore, and thread 0 gives it. -/
def plainWait : List (Fin 2 × Input (Choice ℕ)) :=
  makes 0 7 (.counting 0 0) :: goesOn 0 3 ++ calls 1 (.take waitForever) 7 :: goesOn 1 7 ++
    calls 0 .give 7 :: goesOn 0 6

def taskOnly (t : Fin 2) : Option (Fin 2) := if t = 1 then none else some t

/-- The plain thread sleeps on, beside the token. -/
theorem plain_thread_sleeps :
    ¬ ∀ (tr : List (SemTransition (Fin 2) ℕ)) (s : SemState (Fin 2) ℕ) (id : ℕ) (t : Fin 2),
      Run (code taskOnly fun _ => 0) Initial tr s → ¬ (s.mem.sem id).isMutex → s.owner (.semLock id) = none →
      Unreached (code taskOnly fun _ => 0) (.semSend id) s t → ¬ 0 < (s.mem.sem id).tokenCount := by
  intro hclaim
  obtain ⟨tr, s, hr, hs⟩ := run_of_check (code taskOnly fun _ => 0) plainWait (fun _ s =>
      (¬ (s.mem.sem 7).isMutex ∧ s.owner (.semLock 7) = none ∧ 0 < (s.mem.sem 7).tokenCount) ∧
      s.ctl 1 = .asleep (.takeWait waitForever 7) (s.signals (.semSend 7)))
    boot_initial (by decide)
  obtain ⟨⟨hkind, hfree, htoken⟩, hp⟩ := of_decide_eq_true hs
  exact hclaim tr s 7 1 hr hkind hfree ⟨_, _, _, _, hp, rfl⟩ htoken

/-- Tasks 1 and 2 wait for a semaphore, and task 0 gives it once. Task 2 wakes first, sees that
the token is not for it, and goes back to sleep after task 1 has taken it. -/
def oneGive : List (Fin 3 × Input (Choice ℕ)) :=
  makes 0 7 (.counting 0 0) :: goesOn 0 3 ++ calls 1 (.take waitForever) 7 :: goesOn 1 7 ++
    calls 2 (.take waitForever) 7 :: goesOn 2 7 ++ calls 0 .give 7 :: goesOn 0 7 ++ goesOn 2 3 ++ goesOn 1 4 ++
    goesOn 2 1 ++ (2, {choice := .expired false}) :: goesOn 2 1

theorem oneGive_woken : ∃ (tr : List (SemTransition (Fin 3) ℕ)) (s : SemState (Fin 3) ℕ),
    (∃ x ∈ tr, x.pre.ctl 2 = .asleep (.takeWait waitForever 7) 0 ∧ x.post.ctl 2 = .awake (.takeTest waitForever 7 .ok)) ∧
      s.ctl 1 = .awake (.returned (.take waitForever) 7 .ok) ∧
      Unreached (code some fun _ => 0) (.semSend 7) s 2 ∧ (s.mem.sem 7).tokenCount ≤ 0 := by
  obtain ⟨tr, s, hr, hs⟩ := run_of_check (code some fun _ => 0) oneGive (fun tr s =>
      (∀ x ∈ tr, dozes 7 x = false) ∧ s.owner (.semLock 7) = none ∧
      (∃ x ∈ tr, x.pre.ctl 2 = .asleep (.takeWait waitForever 7) 0 ∧
        x.post.ctl 2 = .awake (.takeTest waitForever 7 .ok)) ∧
      s.ctl 1 = .awake (.returned (.take waitForever) 7 .ok) ∧
      s.ctl 2 = .asleep (.takeWait waitForever 7) (s.signals (.semSend 7)))
    boot_initial (by decide)
  obtain ⟨hno, hfree, hwoken, htook, hp⟩ := of_decide_eq_true hs
  have ht : Unreached (code some fun _ => 0) (.semSend 7) s 2 := ⟨_, _, _, _, hp, rfl⟩
  exact ⟨tr, s, hwoken, htook, ht, sleepers_woken hr (fun x hx => ⟨hno x hx, task_not_stranded hr hx⟩) ht hfree⟩

end V2lin.Sem
