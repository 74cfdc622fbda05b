import V2lin.Watchdog.Steps

/-! Which of its mutexes the watchdog library holds, point by point.

Every mutex is released where it is held, and none is forgotten. `wdDelete` takes
`wdog_list_lock` while it holds `wdog_lock`, the other way round from `wdog_valid`. -/
namespace V2lin.Watchdog
open Threads

section
variable {θ ι φ : Type}

/-- The mutexes held at a point. -/
def held : Pc ι φ → List (Lock ι)
  | .linkAppend _ _ | .linkUnlock _ _ | .validScan _ _ | .validWdog _ _ => [.wdogListLock]
  | .validUnlock _ id found => if found then [.wdogListLock, .wdogLock id] else [.wdogListLock]
  | .startSet _ _ _ _ id | .cancelZero _ id | .leave _ _ id | .tickCount id | .tickUnlock id _ _ => [.wdogLock id]
  | .deleteListLock _ id | .deleteUnlock _ id => [.wdogLock id]
  | .deleteUnlink _ id | .deleteListUnlock _ id => [.wdogListLock, .wdogLock id]
  | _ => []

variable {p p' : Pc ι φ} {id : ι} {lock : Lock ι}

theorem held_entry (use : Use ι φ) (id : ι) (found : Bool) :
    held (entry use id found) = if found then [.wdogLock id] else [] := by
  cases found
  · cases use <;> rfl
  · cases use with
    | call frame op => cases op <;> rfl
    | tick => rfl

theorem held_passOn (next : Option ι) : held (passOn next : Pc ι φ) = [] := by
  cases next <;> rfl

theorem Resting.held {frame : Frame ι} (h : Resting frame p) : held p = [] := by
  cases h <;> rfl

variable [DecidableEq ι] {t u : θ} {m m' : Mem ι φ}

/-- A block takes and gives up nothing. -/
theorem Runs.held_eq (h : Runs p m m' p') : held p' = held p := by
  cases h with
  | called _ _ hp => exact hp.held.symm
  | created _ hp => exact hp.held.symm
  | passed hp => exact (held_passOn _).trans hp.held.symm
  | finished hp => exact (held_passOn _).trans hp.held.symm
  | _ => rfl

/-- What is held changes with the locking instructions as `held` says. -/
theorem guarded (lock : Lock ι) : Guarded (code (θ := θ) (φ := φ)) held lock := by
  intro t p
  by_cases hr : ∃ block, code t p = .run block
  · obtain ⟨block, hi⟩ := hr
    rw [hi]
    intro c v v' p' hb hl
    rwa [(block_runs hi hb).held_eq] at hl
  · cases p
    case validUnlock use id found =>
      simp only [code, Instr.Tracked]
      rw [held_entry]
      cases found <;> cases lock <;> simp [held]
    case tickUnlock id next fires =>
      have hnext : held (if fires then .tickCall id next else passOn next : Pc ι φ) = [] := by
        cases fires
        · exact held_passOn next
        · rfl
      simp only [code, Instr.Tracked]
      rw [hnext]
      cases lock <;> simp [held]
    all_goals first
      | exact absurd ⟨_, rfl⟩ hr
      | (cases lock <;> simp [code, Instr.Tracked, held])

variable [DecidableEq θ] {s s' : WdogState θ ι φ} {tr : List (WdogTransition θ ι φ)}

/-- Nobody sleeps in the library. -/
theorem awake (h : Run code Initial tr s) (t : θ) : ∃ p, s.ctl t = .awake p := by
  cases hc : s.ctl t with
  | awake p => exact ⟨p, rfl⟩
  | asleep p n =>
    obtain ⟨c, _⟩ := h.asleep (fun s t p n hs => by rw [hs.idle t]; exact nofun) hc
    exact c.elim

omit [DecidableEq θ] in
theorem initial_owned (s : WdogState θ ι φ) (h : Initial s) : Owned code held lock s := by
  intro t hc
  rw [claims_awake (h.idle t)] at hc
  cases hc

/-- In every run a mutex is owned where it is claimed, and nowhere else. -/
theorem owner_iff (h : Run code Initial tr s) (hp : s.ctl t = .awake p) : s.owner lock = some t ↔ lock ∈ held p := by
  rw [(guarded lock).owner_iff initial_owned (fun _ hs => hs.owner lock) h, claims_awake hp]
  refine or_iff_left ?_
  rintro ⟨x, hx, hf⟩
  obtain ⟨p, block, c, p', _, hi, hb, _, hin, hout⟩ := hf.block (guarded lock) (h.steps x hx)
  rw [(block_runs hi hb).held_eq] at hout
  exact hout hin

/-- Only one thread is where a mutex is held. -/
theorem held_unique (h : Run code Initial tr s) {q : Pc ι φ} (hp : s.ctl t = .awake p) (hlock : lock ∈ held p)
    (hq : s.ctl u = .awake q) (hlock' : lock ∈ held q) : t = u :=
  Option.some.inj (((owner_iff h hp).mpr hlock).symm.trans ((owner_iff h hq).mpr hlock'))

/-! ### The order of the two mutexes -/

/-- The step in which a call takes `wdog_list_lock` to look for a watchdog whose lock is
held by a `wdDelete` that waits for `wdog_list_lock`. -/
def Overtakes (id : ι) (x : WdogTransition θ ι φ) : Prop :=
  (∃ use, x.pre.ctl x.thread = .awake (.validLock use id)) ∧
    ∃ u frame, x.pre.ctl u = .awake (.deleteListLock frame id)

omit [DecidableEq θ] in
/-- Where a thread goes to wait for the list with a watchdog's lock. -/
theorem next_deleteListLock {frame : Frame ι} (h : (code t p).Next (.deleteListLock frame id)) :
    p = .validUnlock (.call frame .delete) id true := by
  cases p
  case validUnlock use j found =>
    have h : Pc.deleteListLock frame id = entry use j found := h
    cases use with
    | tick => cases found <;> cases h
    | call frame' op =>
      cases found
      · cases h
      · cases op <;> cases h
        rfl
  case tickUnlock j next fires =>
    have h : Pc.deleteListLock frame id = if fires then .tickCall j next else passOn next := h
    cases fires
    · cases next <;> cases h
    · cases h
  all_goals first
    | exact False.elim h
    | cases h

theorem Runs.not_deleteListLock {frame : Frame ι} (h : Runs p m m' p') : p' ≠ .deleteListLock frame id := by
  intro hp'
  cases h with
  | @passed p m => cases hl : m.wdogList.head? <;> rw [hl] at hp' <;> cases hp'
  | @finished p m next => cases next <;> cases hp'
  | _ => cases hp'

/-- A point of `wdog_valid` on the list. -/
def looking (id : ι) : Pc ι φ → Bool
  | .validScan _ j | .validWdog _ j => j = id
  | _ => false

theorem held_of_looking (h : looking id p = true) : .wdogListLock ∈ held p := by
  cases p <;> first | cases h | exact List.mem_singleton_self _

omit [DecidableEq θ] in
theorem next_looking (h : (code t p).Next p') (hl : looking id p' = true) : ∃ use, p = .validLock use id := by
  cases p
  case validLock use j =>
    cases h
    exact ⟨use, by rw [of_decide_eq_true hl]⟩
  case validUnlock use j found =>
    have h : p' = entry use j found := h
    subst h
    cases use with
    | tick => cases found <;> cases hl
    | call frame' op =>
      cases found
      · cases hl
      · cases op <;> cases hl
  case tickUnlock j next fires =>
    have h : p' = if fires then .tickCall j next else passOn next := h
    subst h
    cases fires
    · cases next <;> cases hl
    · cases hl
  all_goals first
    | exact False.elim h
    | (cases h; cases hl)

theorem Runs.looking_eq (h : Runs p m m' p') (hl : looking id p' = true) : looking id p = true := by
  cases h with
  | @passed p m => cases hl' : m.wdogList.head? <;> rw [hl'] at hl <;> cases hl
  | @finished p m next => cases next <;> cases hl
  | found => exact hl
  | _ => cases hl

/-- While a `wdDelete` waits for the list, nobody who has the list looks for its watchdog. -/
def Apart (id : ι) (s : WdogState θ ι φ) : Prop :=
  ∀ t frame, s.ctl t = .awake (.deleteListLock frame id) → ∀ u, looking id (s.ctl u).point = false

theorem apart_step (h : Run code Initial tr s) (hs : Step code t s s') (hno : ¬ Overtakes id ⟨s, t, s'⟩)
    (ha : Apart id s) : Apart id s' := by
  intro v frame hv u
  obtain ⟨p, hp⟩ := awake h t
  obtain ⟨q, hq⟩ := awake (h.step hs) u
  rw [hq, Ctl.point_awake, Bool.eq_false_iff]
  intro hlook
  by_cases hvt : v = t
  · -- the `wdDelete` has just released the list, so nobody else had it
    subst hvt
    have hut : u ≠ v := by
      rintro rfl
      rw [hv] at hq
      cases hq
      cases hlook
    obtain ⟨_, hnext⟩ | ⟨_, block, c, _, hi, hb, _⟩ := hs.awake_cases hv
    · have hlist : .wdogListLock ∈ held (s.ctl v).point := by
        rw [next_deleteListLock hnext]
        simp [held]
      rw [hp, Ctl.point_awake] at hlist
      rw [hs.ctl_other hut] at hq
      exact hut (held_unique h hq (held_of_looking hlook) hp hlist)
    · exact (block_runs hi hb).not_deleteListLock rfl
  · rw [hs.ctl_other hvt] at hv
    by_cases hut : u = t
    · subst hut
      have hbefore := ha v frame hv u
      rw [hp, Ctl.point_awake] at hbefore
      obtain ⟨_, hnext⟩ | ⟨p', block, c, hp', hi, hb, _⟩ := hs.awake_cases hq
      · rw [hp, Ctl.point_awake] at hnext
        obtain ⟨use, rfl⟩ := next_looking hnext hlook
        exact hno ⟨⟨use, hp⟩, v, frame, hv⟩
      · rw [hp] at hp'
        cases hp'
        rw [(block_runs hi hb).looking_eq hlook] at hbefore
        cases hbefore
    · rw [hs.ctl_other hut] at hq
      have hbefore := ha v frame hv u
      rw [hq, Ctl.point_awake, hlook] at hbefore
      cases hbefore

/-- No task that has a watchdog's lock waits for the list while another that has the list
waits for that lock, as long as no call takes the list to look for a watchdog whose
`wdDelete` waits for it. -/
theorem no_wdog_embrace (h : Run code Initial tr s) (hno : ∀ x ∈ tr, ¬ Overtakes id x) :
    ¬ Embrace code (.wdogLock id) .wdogListLock s := by
  have hapart : Apart id s := by
    induction h with
    | start hi =>
      intro t frame ht
      rw [hi.idle t] at ht
      cases ht
    | step hr hs ih =>
      have hno' := fun x hx => hno x (List.mem_cons_of_mem _ hx)
      exact apart_step hr hs (hno _ (List.mem_cons_self ..)) (ih hno')
  rintro ⟨t, u, hown, ⟨p, next, hp, hi⟩, _, ⟨q, next', hq, hi'⟩⟩
  have hin := (owner_iff h hp).mp hown
  obtain ⟨frame, rfl⟩ : ∃ frame, p = .deleteListLock frame id := by
    cases p <;> simp [code] at hi <;> simp [held] at hin
    exact ⟨_, by rw [hin]⟩
  obtain ⟨use, rfl⟩ : ∃ use, q = .validWdog use id := by
    cases q <;> simp [code] at hi'
    exact ⟨_, by rw [hi'.1]⟩
  have hbefore := hapart t frame hp u
  rw [hq] at hbefore
  simp [looking] at hbefore

end

/-! ### A deletion overtaken -/

/-- Task 0 deletes a watchdog; before it takes the list again, task 1 takes it to start the
same watchdog. -/
def startUnderDelete : List (Fin 2 × Input (Choice ℕ ℕ)) :=
  makes 0 7 :: goesOn 0 3 ++ calls 0 .delete 7 :: goesOn 0 4 ++ calls 1 (.start 10 (some 5) 0) 7 :: goesOn 1 2

/-- Each has the mutex that the other waits for. -/
theorem start_embraces_delete : ∃ (tr : List (WdogTransition (Fin 2) ℕ ℕ)) (s : WdogState (Fin 2) ℕ ℕ),
    Run code Initial tr s ∧ Embrace code (.wdogLock 7) .wdogListLock s := by
  obtain ⟨tr, s, hr, hs⟩ := run_of_check (code (θ := Fin 2) (ι := ℕ) (φ := ℕ)) startUnderDelete (fun _ s =>
      s.owner (.wdogLock 7) = some 0 ∧ s.ctl 0 = .awake (.deleteListLock .task 7) ∧
      s.owner .wdogListLock = some 1 ∧ s.ctl 1 = .awake (.validWdog (.call .task (.start 10 (some 5) 0)) 7))
    boot_initial (by decide)
  obtain ⟨h₀, hp₀, h₁, hp₁⟩ := of_decide_eq_true hs
  exact ⟨tr, s, hr, 0, 1, h₀, ⟨_, _, hp₀, rfl⟩, h₁, ⟨_, _, hp₁, rfl⟩⟩

end V2lin.Watchdog
