import V2lin.Blocked.View

/-! What a `waiting` pointer says when nothing is going on but blocked `semTake`s.

A taker that is where it can come to wait has a semaphore that is listed: the list loses a
semaphore under its lock, and then nobody else is on the way to wait for it, which is what
the calls have to see to. The rest holds in the program of `Kill`, whose steps are seen
through `leave`. -/
namespace V2lin.Blocked
open Threads V2lin.Task V2lin.Kill
open V2lin.TaskLib (AddressIds)

section
variable {θ ι κ : Type}

/-! ### The promise -/

/-- The semaphore for which a task waits in the loop of `wait_for_token`. -/
def blocked : Kill.Pc θ ι κ → Option ι
  | .takeTest id _ | .takeWait id _ | .takeWoken id _ | .takeDelay id _ => some id
  | .takeSleep id _ | .takeRelock id _ => some id
  | _ => none

/-- No operation is in progress here, other than a `semTake` that is blocked: by its
semaphore, or by a mutex in `sem_find_lock`. A thread may have ended. -/
def Rests : Pc θ ι κ → Prop
  | .findLock .take _ | .findSem .take _ => True
  | .kill p => p = .task .idle ∨ p = .task .unborn ∨ gone p = true ∨ blocked p ≠ none
  | _ => False

/-- The pointer of a task names the listed semaphore that it waits for, on its list; a task
without one is on no list. -/
def Settled (s : BlockedState θ ι κ) (u : θ) : Prop :=
  (∀ id, (s.mem.kill.task.tcb u).waiting = some id →
    id ∈ s.mem.semList ∧ (∃ p, (s.ctl u).point = .kill p ∧ blocked p = some id) ∧ u ∈ s.mem.kill.task.semSusp id) ∧
  ((s.mem.kill.task.tcb u).waiting = none → ∀ id, u ∉ s.mem.kill.task.semSusp id)

/-- The semaphore for which the caller of `semTake` has come to wait, and has not waited in
full. -/
def comes : Kill.Pc θ ι κ → Option ι
  | .takeFound id | .takeLink id _ => some id
  | p => blocked p

/-- Past `sem_find_lock`, and not yet past the wait. -/
def taking : Pc θ ι κ → Option ι
  | .kill p => comes p
  | _ => none

/-- `semDelete` takes a semaphore off the list that somebody is about to wait for, or waits
for. -/
def DeletedEarly (x : BlockedTransition θ ι κ) : Prop :=
  ∃ id, (x.pre.ctl x.thread).point = .deleteUnlink id ∧ ∃ u, taking (x.pre.ctl u).point = some id

/-- A task that is being restarted is killed in `semTake`. -/
def KilledInTake (x : BlockedTransition θ ι κ) : Prop :=
  (gone (x.pre.ctl x.thread).point.leave = false ∧ gone (x.post.ctl x.thread).point.leave = true) ∧
    takes (x.pre.ctl x.thread).point.leave ≠ none ∧ ∃ w, restarts (x.pre.ctl w).point.leave = some x.thread

/-- `self_starter` creates a thread for a task that is on the list, whose last thread has
ended, and for which nobody waits who has cancelled it. -/
def StartsInTime (x : BlockedTransition θ ι κ) : Prop :=
  ∀ u, (x.pre.ctl x.thread).point.leave = .starterCreate u →
    u ∈ x.pre.mem.kill.task.taskList ∧ x.pre.mem.kill.task.dead u = true ∧
      ∀ w, joining (x.pre.ctl w).point.leave ≠ some u ∧ joined (x.pre.ctl w).point.leave ≠ some u

variable [DecidableEq θ] [DecidableEq ι] [DecidableEq κ] {ids : AddressIds θ} {t u : θ} {p p' : Pc θ ι κ}
  {m m' : Mem θ ι κ} {s s' : BlockedState θ ι κ} {tr : List (BlockedTransition θ ι κ)} {id : ι}

theorem good_step (h : Good ids s.mem.kill fun u => .awake (s.ctl u).point.leave) (hs : Step (code ids) t s s')
    (hstarts : StartsInTime ⟨s, t, s'⟩) (hno : ¬ KilledInTake ⟨s, t, s'⟩) :
    Good ids s'.mem.kill fun u => .awake (s'.ctl u).point.leave := by
  obtain ⟨hkill, hleave⟩ | ⟨w, w', ⟨hmem, hpoint⟩, ⟨hmem', hpoint'⟩, hstep⟩ := view_step hs
  · rw [hkill]
    exact h.congr hleave
  · rw [← hmem] at h
    rw [← hmem']
    refine (Kill.good_step (h.congr hpoint) hstep (fun u hu => ?_) fun hk => hno ?_).congr fun u => (hpoint' u).symm
    · simp only [hpoint, hmem] at hu ⊢
      exact hstarts u hu
    · obtain ⟨⟨hbefore, hafter⟩, htakes, v, hv⟩ := hk
      simp only [hpoint, hpoint'] at hbefore hafter htakes hv
      exact ⟨⟨hbefore, hafter⟩, htakes, v, hv⟩

/-! ### Who is taking -/

/-- The semaphore that `sem_find_lock` has found. -/
def entering : Pc θ ι κ → Option ι
  | .findSem _ id | .findUnlock _ id true => some id
  | _ => none

omit [DecidableEq θ] [DecidableEq ι] [DecidableEq κ] in
theorem held_of_entering (h : entering p = some id) : .semListLock ∈ held p := by
  cases p
  case findSem => exact List.mem_singleton_self _
  case findUnlock => exact List.mem_singleton_self _
  all_goals cases h

/-- Whoever takes or has found a semaphore has one that is listed; `semTake` is not entered
but through `sem_find_lock`. -/
structure Entered (m : Mem θ ι κ) (ctl : θ → Ctl (Pc θ ι κ)) : Prop where
  taking : ∀ u id, taking (ctl u).point = some id → id ∈ m.semList
  entering : ∀ u id, entering (ctl u).point = some id → id ∈ m.semList
  direct : ∀ u id, (ctl u).point ≠ .kill (.takeLock id)

omit [DecidableEq κ] in
theorem Moves.semList (h : Moves t p m m' p') : m'.semList = m.semList ∨
    ∃ id, p = .deleteUnlink id ∧ m'.semList = m.semList.erase id ∧ taking p' = none ∧ entering p' = none := by
  cases h with
  | unlinked id => exact .inr ⟨id, rfl, rfl, rfl, rfl⟩
  | _ => exact .inl rfl

omit [DecidableEq κ] in
theorem Moves.of_entering (h : Moves t p m m' p') (hp : entering p' = some id) :
    entering p = some id ∨ id ∈ m.semList := by
  cases h with
  | stays => exact .inl hp
  | found hid =>
    cases hp
    exact .inr hid
  | semLocked => exact .inl hp
  | starts op id => cases op <;> cases hp
  | nobody d => cases d <;> cases hp
  | drained d => cases d <;> cases hp
  | _ => cases hp

omit [DecidableEq ι] [DecidableEq κ] in
theorem userBlock_apart {c : Kill.Choice θ ι κ} {n n' : Kill.Mem θ ι κ} {q : Kill.Pc θ ι κ}
    (hne : ∀ id, c ≠ .semTake id) (hb : Kill.userBlock t c n = some (n', q)) :
    comes q = none ∧ ∀ id, q ≠ .takeLock id := by
  cases c with
  | task c =>
    obtain ⟨r, _, heq⟩ := Option.map_eq_some_iff.mp hb
    cases heq
    exact ⟨rfl, fun _ h => by cases h⟩
  | semTake id => exact absurd rfl (hne id)
  | msgQReceive =>
    cases hb
    exact ⟨rfl, fun _ h => by cases h⟩
  | msgQSend =>
    cases hb
    exact ⟨rfl, fun _ h => by cases h⟩
  | taskRestart =>
    cases hb
    exact ⟨rfl, fun _ h => by cases h⟩
  | selfStarter =>
    simp only [Kill.userBlock] at hb
    split at hb
    · cases hb
      exact ⟨rfl, fun _ h => by cases h⟩
    · cases hb
  | _ => cases hb

omit [DecidableEq κ] in
theorem Moves.of_taking (h : Moves t p m m' p') (hp : taking p' = some id) :
    taking p = some id ∨ entering p = some id := by
  cases h with
  | stays => exact .inl hp
  | user hne hb =>
    have hnone := (userBlock_apart hne hb).1
    rw [show Blocked.taking (Pc.kill _ : Pc θ ι κ) = none from hnone] at hp
    cases hp
  | starts op id =>
    cases op with
    | take => exact .inr hp
    | _ => cases hp
  | nobody d => cases d <;> cases hp
  | drained d => cases d <;> cases hp
  | _ => cases hp

omit [DecidableEq κ] in
theorem Moves.direct (h : Moves t p m m' p') (hp : p' = .kill (.takeLock id)) : p = .kill (.takeLock id) := by
  cases h with
  | stays => exact hp
  | user hne hb => exact absurd (Pc.kill.inj hp) ((userBlock_apart hne hb).2 id)
  | starts op id => cases op <;> cases hp
  | nobody d => cases d <;> cases hp
  | drained d => cases d <;> cases hp
  | _ => cases hp

section
variable {q q' : Kill.Pc θ ι κ} {n n' : Kill.Mem θ ι κ}

theorem runs_comes (h : Runs ids t q n n' q') (hc : comes q' = some id) : comes q = some id := by
  cases h with
  | reads hg => cases hg <;> first | exact hc | cases hc
  | killed hk => cases hk <;> cases hc
  | found => exact hc
  | linked hl => cases hl <;> exact hc
  | unlinked hl => cases hl <;> cases hc
  | restartUnlinked => split at hc <;> cases hc
  | _ => cases hc

theorem next_comes (h : (Kill.code (ι := ι) (κ := κ) ids t q).Next q') (hc : comes q' = some id) :
    comes q = some id ∨ q = .takeLock id := by
  cases q
  case task r =>
    obtain ⟨r', rfl, _⟩ := task_next h
    cases hc
  case takeLock id' =>
    cases h
    cases hc
    exact .inr rfl
  all_goals first
    | exact False.elim h
    | (cases h; exact .inl hc)
    | (obtain ⟨r, rfl⟩ := h; exact .inl hc)

theorem runs_takeLock (h : Runs ids t q n n' q') (hq : q' = .takeLock id) : q = .task .idle := by
  cases h with
  | reads hg =>
    cases hg with
    | semTake => rfl
    | _ => cases hq
  | killed hk => cases hk <;> cases hq
  | linked hl => cases hl <;> cases hq
  | unlinked hl => cases hl <;> cases hq
  | restartUnlinked => split at hq <;> cases hq
  | _ => cases hq

theorem next_takeLock (h : (Kill.code (ι := ι) (κ := κ) ids t q).Next q') : q' ≠ .takeLock id := by
  rintro rfl
  cases q
  case task r =>
    obtain ⟨r', heq, _⟩ := task_next h
    cases heq
  case takeWait => obtain ⟨r, h⟩ := h; cases h
  case receiveWait => obtain ⟨r, h⟩ := h; cases h
  case sendWait => obtain ⟨r, h⟩ := h; cases h
  all_goals first
    | exact False.elim h
    | cases h

end

/-- Inside, a thread comes to wait for a semaphore when it has locked it. -/
theorem comes_step {w w' : KillState θ ι κ} (h : Step (Kill.code ids) t w w')
    (hc : comes (w'.ctl t).point = some id) : comes (w.ctl t).point = some id ∨ (w.ctl t).point = .takeLock id := by
  obtain ⟨_, heq | hnext⟩ | ⟨p, p', hp, hp', hr⟩ := Kill.step_cases h
  · rw [heq] at hc
    exact .inl hc
  · exact next_comes hnext hc
  · rw [hp', Ctl.point_awake] at hc
    rw [hp, Ctl.point_awake]
    exact .inl (runs_comes hr hc)

theorem takeLock_step {w w' : KillState θ ι κ} (h : Step (Kill.code ids) t w w')
    (hp : (w'.ctl t).point = .takeLock id) : (w.ctl t).point = .takeLock id ∨ (w.ctl t).point = .task .idle := by
  obtain ⟨_, heq | hnext⟩ | ⟨p, p', hpre, hpost, hr⟩ := Kill.step_cases h
  · exact .inl (by rw [← heq, hp])
  · exact absurd hp (next_takeLock hnext)
  · rw [hpost, Ctl.point_awake] at hp
    rw [hpre, Ctl.point_awake]
    exact .inr (runs_takeLock hr hp)

/-- A listed semaphore that somebody takes or has found stays listed. -/
theorem Entered.listed_stays (h : Entered s.mem s.ctl) (hr : Run (code ids) (Initial ids) tr s)
    (hs : Step (code ids) t s s') (hno : ¬ DeletedEarly ⟨s, t, s'⟩) {u : θ}
    (hu : Blocked.taking (s.ctl u).point = some id ∨ u ≠ t ∧ Blocked.entering (s.ctl u).point = some id) :
    id ∈ s'.mem.semList := by
  have hin : id ∈ s.mem.semList := hu.elim (h.taking u id) fun hu => h.entering u id hu.2
  obtain ⟨_, _, _, _, _, _, hlist⟩ | hmoves := step_cases hs
  · rwa [hlist]
  · obtain hlist | ⟨id', hp, hlist, _⟩ := hmoves.semList
    · rwa [hlist]
    · rw [hlist]
      refine (List.mem_erase_of_ne ?_).mpr hin
      rintro rfl
      obtain hu | ⟨hut, hu⟩ := hu
      · exact hno ⟨id, hp, u, hu⟩
      · -- both would hold the lock of the list
        have hheld : .semListLock ∈ held (s.ctl t).point := by
          rw [hp]
          exact List.mem_singleton_self _
        exact hut (list_unique hr (held_of_entering hu) hheld)

theorem entered_step (h : Entered s.mem s.ctl) (hr : Run (code ids) (Initial ids) tr s) (hs : Step (code ids) t s s')
    (hno : ¬ DeletedEarly ⟨s, t, s'⟩) : Entered s'.mem s'.ctl := by
  have hstays : ∀ {u id}, (taking (s.ctl u).point = some id ∨ u ≠ t ∧ entering (s.ctl u).point = some id) →
      id ∈ s'.mem.semList := h.listed_stays hr hs hno
  refine ⟨fun u id hu => ?_, fun u id hu => ?_, fun u id hu => ?_⟩
  · by_cases hut : u = t
    · subst hut
      obtain ⟨q, q', hq, _, hq', hview, hlist⟩ | hmoves := step_cases hs
      · have hpre : ((s.view part).ctl u).point = q := by rw [State.view, Ctl.map_point, hq]; rfl
        have hpost : ((s'.view part).ctl u).point = q' := by rw [State.view, Ctl.map_point, hq']; rfl
        rw [hq'] at hu
        obtain hold | hdirect := comes_step hview (by rw [hpost]; exact hu)
        · exact hstays (u := u) (.inl (by rw [hq, ← hpre]; exact hold))
        · exact absurd (by rw [hq, ← hpre, hdirect]) (h.direct u id)
      · obtain hlist | ⟨id', _, _, hnone, _⟩ := hmoves.semList
        · rw [hlist]
          exact (hmoves.of_taking hu).elim (h.taking u id) (h.entering u id)
        · rw [hnone] at hu
          cases hu
    · rw [hs.ctl_other hut] at hu
      exact hstays (.inl hu)
  · by_cases hut : u = t
    · subst hut
      obtain ⟨q, q', _, _, hq', _⟩ | hmoves := step_cases hs
      · rw [hq'] at hu
        cases hu
      · obtain hlist | ⟨id', _, _, _, hnone⟩ := hmoves.semList
        · rw [hlist]
          exact (hmoves.of_entering hu).elim (h.entering u id) fun hin => hin
        · rw [hnone] at hu
          cases hu
    · rw [hs.ctl_other hut] at hu
      exact hstays (.inr ⟨hut, hu⟩)
  · by_cases hut : u = t
    · subst hut
      obtain ⟨q, q', hq, hidle, hq', hview, _⟩ | hmoves := step_cases hs
      · have hpre : ((s.view part).ctl u).point = q := by rw [State.view, Ctl.map_point, hq]; rfl
        have hpost : ((s'.view part).ctl u).point = q' := by rw [State.view, Ctl.map_point, hq']; rfl
        rw [hq'] at hu
        cases hu
        obtain hold | hidle' := takeLock_step hview hpost
        · exact h.direct u id (by rw [hq, ← hpre, hold])
        · exact hidle (by rw [← hpre, hidle'])
      · exact h.direct u id (hmoves.direct hu)
    · rw [hs.ctl_other hut] at hu
      exact h.direct u id hu

/-! ### At rest -/

theorem good (h : Run (code ids) (Initial ids) tr s) (hstarts : ∀ x ∈ tr, StartsInTime x)
    (hkilled : ∀ x ∈ tr, ¬ KilledInTake x) : Good ids s.mem.kill fun u => .awake (s.ctl u).point.leave := by
  induction h with
  | start hs => exact hs.kill.good.congr fun u => Eq.symm (Ctl.map_point ..)
  | step hr hs ih =>
    exact good_step (ih (fun x hx => hstarts x (List.mem_cons_of_mem _ hx))
      fun x hx => hkilled x (List.mem_cons_of_mem _ hx)) hs (hstarts _ (List.mem_cons_self ..))
      (hkilled _ (List.mem_cons_self ..))

theorem entered (h : Run (code ids) (Initial ids) tr s) (hdeleted : ∀ x ∈ tr, ¬ DeletedEarly x) :
    Entered s.mem s.ctl := by
  induction h with
  | start hs =>
    refine ⟨fun u id hu => ?_, fun u id hu => ?_, fun u id hu => ?_⟩ <;>
      obtain hp | hp := hs.point u <;> rw [hp] at hu <;> cases hu
  | step hr hs ih =>
    exact entered_step (ih fun x hx => hdeleted x (List.mem_cons_of_mem _ hx)) hr hs (hdeleted _ (List.mem_cons_self ..))

omit [DecidableEq θ] [DecidableEq ι] [DecidableEq κ] in
/-- At rest nobody restarts or removes a task, and a taker that lives is blocked. -/
theorem Rests.apart (h : Rests p) : restarts p.leave = none ∧ removing p.leave = none ∧
    ∀ id, takes p.leave = some id → ∃ q, p = .kill q ∧ blocked q = some id ∧ waitsFor q = some id := by
  cases p
  case kill q =>
    obtain rfl | rfl | hg | hb := h
    · exact ⟨rfl, rfl, nofun⟩
    · exact ⟨rfl, rfl, nofun⟩
    · refine ⟨(gone_apart hg).2.2.2, ?_, fun id ht => ?_⟩
      · cases q
        case task q => cases q <;> first | rfl | cases hg
        all_goals rfl
      · have halive : gone q = false := (takes_apart ht).1
        rw [halive] at hg
        cases hg
    · cases q <;> first | exact ⟨rfl, rfl, fun id ht => ⟨_, rfl, ht, ht⟩⟩ | exact absurd rfl hb
  case findLock op id => cases op <;> exact ⟨rfl, rfl, nofun⟩
  case findSem op id => cases op <;> exact ⟨rfl, rfl, nofun⟩
  all_goals exact h.elim

end

/-- Task 1 comes to wait for semaphore 0. -/
def waits : List (Fin 3 × Input (Choice (Fin 3) (Fin 2) Unit)) := does 1 (.call .take 0) :: goesOn 1 8

/-- Task 2 restarts itself; the timer goes off in task 0. -/
def restartsItself : List (Fin 3 × Input (Choice (Fin 3) (Fin 2) Unit)) :=
  does 2 (.kill (.taskRestart 0)) :: goesOn 2 6 ++ does 0 (.kill (.selfStarter 65539)) :: goesOn 0 2 ++ goesOn 2 1

instance (x : BlockedTransition (Fin 3) (Fin 2) Unit) : Decidable (StartsInTime x) :=
  inferInstanceAs (Decidable (∀ u : Fin 3, (x.pre.ctl x.thread).point.leave = .starterCreate u →
    u ∈ x.pre.mem.kill.task.taskList ∧ x.pre.mem.kill.task.dead u = true ∧
      ∀ w : Fin 3, joining (x.pre.ctl w).point.leave ≠ some u ∧ joined (x.pre.ctl w).point.leave ≠ some u))

end V2lin.Blocked
