import V2lin.Kill.Waiting

/-! The tasks on the lists of the semaphores, and where their threads are.

A task on the list of a semaphore is in `semTake`, or it has been killed there and somebody
removes it. The environment has to see to it that no task is restarted that is killed while
it is on such a list, and that `self_starter` is called in time. -/
namespace V2lin.Kill
open Threads V2lin.Task V2lin.TaskLib

section
variable {θ ι κ : Type}

/-- `self_starter` creates a thread for a task that is on the list, whose last thread has
ended, and for which nobody waits who has cancelled it. -/
def StartsInTime (x : KillTransition θ ι κ) : Prop :=
  ∀ u, (x.pre.ctl x.thread).point = .starterCreate u →
    u ∈ x.pre.mem.task.taskList ∧ x.pre.mem.task.dead u = true ∧
      ∀ w, joining (x.pre.ctl w).point ≠ some u ∧ joined (x.pre.ctl w).point ≠ some u

variable [DecidableEq θ] [DecidableEq ι] [DecidableEq κ] {ids : AddressIds θ} {t u v w : θ} {p p' : Pc θ ι κ}
  {m m' : Mem θ ι κ} {s s' : KillState θ ι κ} {tr : List (KillTransition θ ι κ)}

/-- A task on the list of a semaphore waits for it, and its thread is there or is gone; it
is gone only if nobody restarts it and somebody removes it. Whoever has been cancelled is
waited for until it is dead. -/
structure Pended (m : Mem θ ι κ) (ctl : θ → Ctl (Pc θ ι κ)) : Prop where
  nodup : ∀ id, (m.task.semSusp id).Nodup
  waiting : ∀ id u, u ∈ m.task.semSusp id → (m.task.tcb u).waiting = some id ∧ (m.task.tcb u).started = true
  place : ∀ id u, u ∈ m.task.semSusp id →
    waitsFor (ctl u).point = some id ∧ ourTask (ctl u).point = some u ∨ gone (ctl u).point = true
  own : ∀ t v, ourTask (ctl t).point = some v → v = t ∧ (m.task.tcb t).started = true
  link : ∀ t id v, (ctl t).point = .takeLink id (some v) → (m.task.tcb v).waiting = some id
  dead : ∀ u, m.task.dead u = true → (ctl u).point = .task .dead ∧ m.reborn u = false
  reborn : ∀ u, m.reborn u = true → (ctl u).point = .task .dead ∧ ∀ id, u ∉ m.task.semSusp id
  joined : ∀ w u, joined (ctl w).point = some u → m.task.dead u = true
  cancelled : ∀ u, m.task.cancelled u = true →
    (ctl u).point = .task .dead ∧ m.reborn u = false ∨ ∃ w, joining (ctl w).point = some u
  clean : ∀ u, gone (ctl u).point = true → ∀ id, u ∈ m.task.semSusp id → ∀ w, restarts (ctl w).point ≠ some u
  removed : ∀ u, gone (ctl u).point = true → ∀ id, u ∈ m.task.semSusp id → ∃ w, removing (ctl w).point = some u

omit [DecidableEq ι] [DecidableEq κ] in
theorem Initial.pended (h : Initial ids s) : Pended s.mem s.ctl := by
  have hsusp : ∀ id, s.mem.task.semSusp id = [] := h.task.susp
  have hdead : ∀ u, s.mem.task.dead u = false := fun u => (h.task.alive u).2
  refine ⟨fun id => ?_, fun id u hu => ?_, fun id u hu => ?_, fun t v hv => ?_, fun t id v hp => ?_, fun u hu => ?_,
    fun u hu => ?_, fun w u hj => ?_, fun u hc => ?_, fun u hg => ?_, fun u hg => ?_⟩
  · rw [hsusp]
    exact List.nodup_nil
  · rw [hsusp] at hu
    cases hu
  · rw [hsusp] at hu
    cases hu
  · obtain hp | hp := h.point t <;> rw [hp] at hv <;> cases hv
  · obtain heq | heq := h.point t <;> rw [heq] at hp <;> cases hp
  · rw [hdead] at hu
    cases hu
  · rw [h.reborn] at hu
    cases hu
  · obtain hp | hp := h.point w <;> rw [hp] at hj <;> cases hj
  · have halive : s.mem.task.cancelled u = false := (h.task.alive u).1
    rw [halive] at hc
    cases hc
  · obtain hp | hp := h.point u <;> rw [hp] at hg <;> cases hg
  · obtain hp | hp := h.point u <;> rw [hp] at hg <;> cases hg

omit [DecidableEq θ] [DecidableEq ι] [DecidableEq κ] in
theorem gone_apart (h : gone p = true) :
    waitsFor p = none ∧ ourTask p = none ∧ links p = none ∧ restarts p = none := by
  cases p
  case task q =>
    cases q
    case pendKilled u => exact ⟨rfl, rfl, rfl, rfl⟩
    case dying => exact ⟨rfl, rfl, rfl, rfl⟩
    case exit => exact ⟨rfl, rfl, rfl, rfl⟩
    case dead => exact ⟨rfl, rfl, rfl, rfl⟩
    all_goals cases h
  case takeKilled id => exact ⟨rfl, rfl, rfl, rfl⟩
  case receiveKilled q => exact ⟨rfl, rfl, rfl, rfl⟩
  case sendKilled q => exact ⟨rfl, rfl, rfl, rfl⟩
  all_goals cases h

/-! ### One step -/

theorem step_mem (hs : Step (code ids) t s s') :
    s'.mem = s.mem ∨ Runs ids t (s.ctl t).point s.mem s'.mem (s'.ctl t).point := by
  obtain ⟨hm, _⟩ | ⟨p, p', hp, hp', hr⟩ := step_cases hs
  · exact .inl hm
  · rw [hp, hp']
    exact .inr hr

omit [DecidableEq ι] [DecidableEq κ] in
theorem Sound.ok (h : Sound ids s) (t : θ) : Ok ids s.mem.task t (s.ctl t).point.leave := by
  have hok := TaskLib.Sound.ok h t
  rwa [view_point] at hok

theorem Pended.mem_waitList (h : Pended s.mem s.ctl) (hsound : Sound ids s) (hs : Step (code ids) t s s')
    {L : WaitList θ ι κ} (hu : u ∈ s'.mem.waitList L) :
    u ∈ s.mem.waitList L ∨ u = t ∧ links (s.ctl t).point = some L := by
  obtain hm | hr := step_mem hs
  · rw [hm] at hu
    exact .inl hu
  · exact hr.mem_waitList (hsound.ok t) (fun v hv => (h.own t v hv).1) hu

theorem Pended.started (hsound : Sound ids s) (hs : Step (code ids) t s s')
    (hu : (s.mem.task.tcb u).started = true) : (s'.mem.task.tcb u).started = true := by
  obtain hm | hr := step_mem hs
  · rwa [hm]
  · exact hr.started_mono (hsound.ok t) hu

/-- The `waiting` pointer of a task with a thread is its own. -/
theorem Pended.waiting_cases (h : Pended s.mem s.ctl) (hsound : Sound ids s) (hs : Step (code ids) t s s')
    (hu : (s.mem.task.tcb u).started = true) :
    (s'.mem.task.tcb u).waiting = (s.mem.task.tcb u).waiting ∨
      u = t ∧ waitsFor (s.ctl t).point = none ∧ gone (s.ctl t).point = false := by
  obtain hm | hr := step_mem hs
  · exact .inl (by rw [hm])
  · obtain heq | hno | hself := hr.waiting_cases (hsound.ok t) (fun v hv => (h.own t v hv).1) u
    · exact .inl heq
    · rw [hu] at hno
      cases hno
    · exact .inr hself

theorem Pended.step_nodup (h : Pended s.mem s.ctl) (hs : Step (code ids) t s s') (id : ι) :
    (s'.mem.task.semSusp id).Nodup := by
  obtain hm | hr := step_mem hs
  · rw [hm]
    exact h.nodup id
  · exact hr.nodup (h.nodup id)

omit [DecidableEq θ] [DecidableEq ι] [DecidableEq κ] in
/-- Whoever goes on a list is where `semTake` puts its caller on it. -/
theorem Pended.new_cases (h : Pended s.mem s.ctl) {id : ι} (hlink : links (s.ctl t).point = some (.sem id)) :
    (s.ctl t).point = .takeLink id (some t) := by
  obtain ⟨self, u, hp⟩ | ⟨id', self, hp, hL⟩ | ⟨q, hp⟩ | ⟨q, hp⟩ := links_cases hlink
  · rw [hp] at hlink
    cases self <;> cases hlink
  · cases hL
    cases self with
    | none =>
      rw [hp] at hlink
      cases hlink
    | some v => rw [hp, (h.own t v (by rw [hp]; rfl)).1]
  · rw [hp] at hlink
    cases hlink
  · rw [hp] at hlink
    cases hlink

theorem Pended.step_waiting (h : Pended s.mem s.ctl) (hsound : Sound ids s) (hs : Step (code ids) t s s') {id : ι}
    (hu : u ∈ s'.mem.task.semSusp id) :
    (s'.mem.task.tcb u).waiting = some id ∧ (s'.mem.task.tcb u).started = true := by
  obtain hin | ⟨rfl, hlink⟩ := h.mem_waitList hsound hs (L := .sem id) hu
  · obtain ⟨hw, hstarted⟩ := h.waiting id u hin
    refine ⟨?_, Pended.started hsound hs hstarted⟩
    obtain heq | ⟨rfl, hwaits, hgone⟩ := h.waiting_cases hsound hs hstarted
    · rw [heq, hw]
    · -- whoever sets its own pointer is on no list
      obtain ⟨hwaits', _⟩ | hgone' := h.place id u hin
      · rw [hwaits] at hwaits'
        cases hwaits'
      · rw [hgone] at hgone'
        cases hgone'
  · have hp := h.new_cases hlink
    have hw := h.link u id u hp
    obtain ⟨_, hstarted⟩ := h.own u u (by rw [hp]; rfl)
    refine ⟨?_, Pended.started hsound hs hstarted⟩
    obtain hm | hr := step_mem hs
    · rw [hm, hw]
    · rw [hp] at hr
      rw [hr.of_link.2, hw]

theorem Pended.step_place (h : Pended s.mem s.ctl) (hsound : Sound ids s) (hs : Step (code ids) t s s') {id : ι}
    (hu : u ∈ s'.mem.task.semSusp id) :
    waitsFor (s'.ctl u).point = some id ∧ ourTask (s'.ctl u).point = some u ∨ gone (s'.ctl u).point = true := by
  by_cases hut : u = t
  · subst hut
    obtain hin | ⟨_, hlink⟩ := h.mem_waitList hsound hs (L := .sem id) hu
    · have hplace := h.place id u hin
      obtain ⟨_, heq | hnext⟩ | ⟨p, p', hp, hp', hr⟩ := step_cases hs
      · rwa [heq]
      · obtain ⟨hw, hown⟩ | hg := hplace
        · obtain ⟨hw', hown'⟩ := next_waitsFor hnext hw
          exact .inl ⟨hw', hown'.trans hown⟩
        · exact .inr ((next_quiet hnext).gone hg)
      · rw [hp, Ctl.point_awake] at hplace
        rw [hp', Ctl.point_awake]
        obtain ⟨hw, hown⟩ | hg := hplace
        · obtain ⟨hw', hown'⟩ | hg | hm := hr.waitsFor_cases hw
          · exact .inl ⟨hw', hown'.trans hown⟩
          · exact .inr hg
          · -- it has just left the list
            have hlist : s'.mem.waitList (.sem id) = unlinkSuspTask (s.mem.task.semSusp id) (some u) := by
              rw [hm, hown, Mem.setList_self]
              rfl
            have hleft : u ∈ unlinkSuspTask (s.mem.task.semSusp id) (some u) := hlist ▸ hu
            exact absurd rfl ((mem_unlinkSuspTask (h.nodup id)).mp hleft).1
        · obtain hg | ⟨_, hreborn⟩ := hr.gone hg
          · exact .inr hg
          · exact absurd hin ((h.reborn u hreborn).2 id)
    · have hp := h.new_cases hlink
      obtain ⟨_, heq | hnext⟩ | ⟨p, p', hpre, hp', hr⟩ := step_cases hs
      · rename_i hm
        have hin : u ∈ s.mem.task.semSusp id := hm ▸ hu
        rw [heq]
        exact h.place id u hin
      · rw [hp] at hnext
        exact False.elim hnext
      · rw [hpre, Ctl.point_awake] at hp
        subst hp
        rw [hp', Ctl.point_awake, hr.of_link.1]
        exact .inl ⟨rfl, rfl⟩
  · obtain hin | ⟨heq, _⟩ := h.mem_waitList hsound hs (L := .sem id) hu
    · rw [hs.ctl_other hut]
      exact h.place id u hin
    · exact absurd heq hut

theorem Pended.step_own (h : Pended s.mem s.ctl) (hsound : Sound ids s) (hs : Step (code ids) t s s')
    (hv : ourTask (s'.ctl u).point = some v) : v = u ∧ (s'.mem.task.tcb u).started = true := by
  have hpre : v = u ∧ (s.mem.task.tcb u).started = true := by
    by_cases hut : u = t
    · subst hut
      obtain ⟨_, heq | hnext⟩ | ⟨p, p', hp, hp', hr⟩ := step_cases hs
      · rw [heq] at hv
        exact h.own u v hv
      · exact h.own u v ((next_quiet hnext).ourTask v hv)
      · rw [hp', Ctl.point_awake] at hv
        obtain hv | hmine := hr.ourTask_cases hv
        · exact h.own u v (by rw [hp]; exact hv)
        · obtain ⟨rfl, _, hstarted⟩ := myTask_eq hmine
          exact ⟨rfl, hstarted⟩
    · rw [hs.ctl_other hut] at hv
      exact h.own u v hv
  exact ⟨hpre.1, Pended.started hsound hs hpre.2⟩

theorem Pended.step_link (h : Pended s.mem s.ctl) (hsound : Sound ids s) (hs : Step (code ids) t s s') {id : ι}
    (hp' : (s'.ctl u).point = .takeLink id (some v)) : (s'.mem.task.tcb v).waiting = some id := by
  by_cases hut : u = t
  · subst hut
    obtain ⟨hm, heq | hnext⟩ | ⟨p, p', _, hpoint, hr⟩ := step_cases hs
    · rw [hm]
      exact h.link u id v (by rw [← heq, hp'])
    · exact absurd hp' ((next_quiet hnext).link id (some v))
    · rw [hpoint, Ctl.point_awake] at hp'
      exact hr.link_waiting hp'
  · rw [hs.ctl_other hut] at hp'
    obtain ⟨rfl, hstarted⟩ := h.own u v (by rw [hp']; rfl)
    obtain heq | ⟨he, _⟩ := h.waiting_cases hsound hs hstarted
    · rw [heq]
      exact h.link v id v hp'
    · exact absurd he hut

theorem Pended.step_dead (h : Pended s.mem s.ctl) (hs : Step (code ids) t s s')
    (hu : s'.mem.task.dead u = true) : (s'.ctl u).point = .task .dead ∧ s'.mem.reborn u = false := by
  obtain ⟨hm, hpoint⟩ | ⟨p, p', hp, hp', hr⟩ := step_cases hs
  · rw [hm] at hu ⊢
    obtain ⟨hdead, hreborn⟩ := h.dead u hu
    refine ⟨?_, hreborn⟩
    by_cases hut : u = t
    · subst hut
      obtain heq | hnext := hpoint
      · rw [heq, hdead]
      · rw [hdead] at hnext
        exact False.elim hnext
    · rw [hs.ctl_other hut, hdead]
  · have hkept : s'.mem.reborn u = s.mem.reborn u ∨ s'.mem.reborn u = false := by
      obtain heq | ⟨_, _, _, heq⟩ | ⟨_, hno⟩ := hr.reborn_cases u
      · exact .inl heq
      · exact .inr heq
      · rw [hu] at hno
        cases hno
    obtain heq | ⟨rfl, rfl, rfl⟩ | ⟨_, hno⟩ := hr.dead_cases u
    · obtain ⟨hdead, hreborn⟩ := h.dead u (heq ▸ hu)
      refine ⟨?_, hkept.elim (fun he => he.trans hreborn) id⟩
      by_cases hut : u = t
      · subst hut
        rw [hp, Ctl.point_awake] at hdead
        subst hdead
        rw [hr.of_dead.1] at hreborn
        cases hreborn
      · rw [hs.ctl_other hut, hdead]
    · refine ⟨by rw [hp']; rfl, hkept.elim (fun he => he.trans ?_) id⟩
      refine Bool.not_eq_true _ |>.mp fun hreborn => ?_
      have hdead := (h.reborn u hreborn).1
      rw [hp] at hdead
      cases hdead
    · rw [hu] at hno
      cases hno

theorem Pended.step_reborn (h : Pended s.mem s.ctl) (hsound : Sound ids s) (hs : Step (code ids) t s s')
    (hstarts : StartsInTime ⟨s, t, s'⟩) (hu : s'.mem.reborn u = true) : (s'.ctl u).point = .task .dead ∧ ∀ id, u ∉ s'.mem.task.semSusp id := by
  have hlists : (s.ctl u).point = .task .dead → (∀ id, u ∉ s.mem.task.semSusp id) → ∀ id, u ∉ s'.mem.task.semSusp id := by
    intro hdead hno id hin
    obtain hpre | ⟨rfl, hlink⟩ := h.mem_waitList hsound hs (L := .sem id) hin
    · exact hno id hpre
    · rw [hdead] at hlink
      cases hlink
  obtain ⟨hm, hpoint⟩ | ⟨p, p', hp, hp', hr⟩ := step_cases hs
  · rw [hm] at hu
    obtain ⟨hdead, hno⟩ := h.reborn u hu
    refine ⟨?_, hlists hdead hno⟩
    by_cases hut : u = t
    · subst hut
      obtain heq | hnext := hpoint
      · rw [heq, hdead]
      · rw [hdead] at hnext
        exact False.elim hnext
    · rw [hs.ctl_other hut, hdead]
  · obtain heq | ⟨_, _, _, hno⟩ | ⟨hcreates, _⟩ := hr.reborn_cases u
    · obtain ⟨hdead, hno⟩ := h.reborn u (heq ▸ hu)
      refine ⟨?_, hlists hdead hno⟩
      by_cases hut : u = t
      · subst hut
        rw [hp, Ctl.point_awake] at hdead
        subst hdead
        rw [hr.of_dead.2] at hu
        cases hu
      · rw [hs.ctl_other hut, hdead]
    · rw [hu] at hno
      cases hno
    · -- the old thread has ended
      have hended : s.mem.task.dead u = true ∧ ∀ id, gone (s.ctl u).point = true → u ∉ s.mem.task.semSusp id := by
        obtain rfl | rfl := creates_cases hcreates
        · refine ⟨h.joined t u (by rw [hp]; rfl), fun id hg hin => ?_⟩
          exact h.clean u hg id hin t (by rw [hp]; rfl)
        · obtain ⟨_, hdead, hnobody⟩ := hstarts u (by rw [hp]; rfl)
          refine ⟨hdead, fun id hg hin => ?_⟩
          obtain ⟨w, hrem⟩ := h.removed u hg id hin
          exact (removing_ends hrem).elim (hnobody w).1 (hnobody w).2
      have hdead := (h.dead u hended.1).1
      have hut : u ≠ t := by
        rintro rfl
        rw [hp, Ctl.point_awake] at hdead
        subst hdead
        cases hcreates
      exact ⟨by rw [hs.ctl_other hut, hdead], hlists hdead fun id => hended.2 id (by rw [hdead]; rfl)⟩

omit [DecidableEq θ] [DecidableEq ι] [DecidableEq κ] in
theorem joined_locks (h : joined p = some u) : 0 < locks p := by
  cases p
  case task q =>
    cases q
    case forceRemove => exact Nat.succ_pos _
    all_goals cases h
  case restartCreate => exact Nat.zero_lt_one
  all_goals cases h

theorem Pended.step_joined (h : Pended s.mem s.ctl) (hsound : Sound ids s) (hheld : Held s.mem.task.sched s.ctl)
    (hs : Step (code ids) t s s') (hstarts : StartsInTime ⟨s, t, s'⟩)
    (hj : Kill.joined (s'.ctl w).point = some u) : s'.mem.task.dead u = true := by
  by_cases hwt : w = t
  · subst hwt
    obtain ⟨hm, heq | hnext⟩ | ⟨p, p', hp, hp', hr⟩ := step_cases hs
    · rw [heq] at hj
      rw [hm]
      exact h.joined w u hj
    · rw [(next_quiet hnext).joined] at hj
      cases hj
    · rw [hp', Ctl.point_awake] at hj
      have hok := hsound.ok w
      rw [hp] at hok
      exact hr.joined_dead hok hj
  · rw [hs.ctl_other hwt] at hj
    have hdead := h.joined w u hj
    obtain ⟨hm, _⟩ | ⟨p, p', hp, _, hr⟩ := step_cases hs
    · rwa [hm]
    · obtain heq | ⟨rfl, rfl, _⟩ | ⟨hcreates, _⟩ := hr.dead_cases u
      · rwa [heq]
      · have hpoint := (h.dead u hdead).1
        rw [hp] at hpoint
        cases hpoint
      · obtain rfl | rfl := creates_cases hcreates
        · -- both would hold the scheduler lock
          exact absurd (hheld.unique (joined_locks hj) (by rw [hp]; exact Nat.zero_lt_one)) hwt
        · exact absurd hj ((hstarts u (by rw [hp]; rfl)).2.2 w).2

theorem link_stays (hs : Step (code ids) t s s') {L : WaitList θ ι κ} (hl : links (s.ctl t).point = some L) :
    gone (s'.ctl t).point = false := by
  obtain ⟨_, heq | hnext⟩ | ⟨p, p', hp, hp', hr⟩ := step_cases hs
  · rw [heq]
    refine Bool.eq_false_iff.mpr fun hg => ?_
    rw [(gone_apart hg).2.2.1] at hl
    cases hl
  · rw [next_links hnext] at hl
    cases hl
  · rw [hp, Ctl.point_awake] at hl
    rw [hp', Ctl.point_awake]
    exact hr.links_stays hl

/-- A task that a restart goes on with is on no list of a semaphore. -/
theorem Pended.step_restarts (h : Pended s.mem s.ctl) (hs : Step (code ids) t s s') {id : ι}
    (hin : u ∈ s'.mem.task.semSusp id) (hw : (s.mem.task.tcb u).waiting = some id)
    (hno : ∀ w, restarts (s.ctl w).point ≠ some u) : restarts (s'.ctl w).point ≠ some u := by
  intro hr
  by_cases hwt : w = t
  · subst hwt
    obtain ⟨_, heq | hnext⟩ | ⟨p, p', hp, hp', hrun⟩ := step_cases hs
    · exact hno w (by rw [← heq, hr])
    · rw [(next_quiet hnext).restarts] at hr
      cases hr
    · rw [hp', Ctl.point_awake] at hr
      obtain hpre | hm := hrun.restarts_cases hr
      · exact hno w (by rw [hp]; exact hpre)
      · rw [hm] at hin
        exact TaskLib.Mem.notMem_unlinkWaiting (h.nodup id) hw hin
  · rw [hs.ctl_other hwt] at hr
    exact hno w hr

/-- A task whose thread is gone was on the list before, and its thread was gone or has just
been killed there. -/
theorem Pended.gone_cases (h : Pended s.mem s.ctl) (hsound : Sound ids s) (hs : Step (code ids) t s s')
    (hg : gone (s'.ctl u).point = true) {id : ι} (hin : u ∈ s'.mem.task.semSusp id) :
    u ∈ s.mem.task.semSusp id ∧ (gone (s.ctl u).point = true ∨ u = t ∧ Dies ⟨s, t, s'⟩) := by
  cases hgone : gone (s.ctl u).point with
  | true =>
    obtain hpre | ⟨rfl, hlink⟩ := h.mem_waitList hsound hs (L := .sem id) hin
    · exact ⟨hpre, .inl rfl⟩
    · rw [(gone_apart hgone).2.2.1] at hlink
      cases hlink
  | false =>
    have hut : u = t := by
      by_contra hne
      rw [hs.ctl_other hne, hgone] at hg
      cases hg
    subst hut
    refine ⟨?_, .inr ⟨rfl, hgone, hg⟩⟩
    obtain hpre | ⟨_, hlink⟩ := h.mem_waitList hsound hs (L := .sem id) hin
    · exact hpre
    · exact absurd hg (by rw [link_stays hs hlink]; exact Bool.false_ne_true)

theorem Pended.step_clean (h : Pended s.mem s.ctl) (hsound : Sound ids s) (hs : Step (code ids) t s s')
    (hdies : Dies ⟨s, t, s'⟩ → ∀ id, t ∈ s.mem.task.semSusp id → ∀ w, restarts (s.ctl w).point ≠ some t)
    (hg : gone (s'.ctl u).point = true) {id : ι} (hin : u ∈ s'.mem.task.semSusp id) :
    ∀ w, restarts (s'.ctl w).point ≠ some u := by
  obtain ⟨hpre, hgone⟩ := h.gone_cases hsound hs hg hin
  have hno : ∀ w, restarts (s.ctl w).point ≠ some u := by
    obtain hgone | ⟨rfl, hd⟩ := hgone
    · exact h.clean u hgone id hpre
    · exact hdies hd id hpre
  exact fun w => h.step_restarts hs hin (h.waiting id u hpre).1 hno

/-- Whoever is killed in `semTake` has been cancelled. -/
theorem Pended.dies_cancelled (h : Pended s.mem s.ctl) (hsound : Sound ids s) (hs : Step (code ids) t s s')
    (hd : Dies ⟨s, t, s'⟩) {id : ι} (hpre : t ∈ s.mem.task.semSusp id) (hin : t ∈ s'.mem.task.semSusp id) :
    takes (s.ctl t).point = some id ∧ s.mem.task.cancelled t = true := by
  have halive : gone (s.ctl t).point = false := hd.1
  have hg : gone (s'.ctl t).point = true := hd.2
  obtain ⟨hw, hself⟩ | hgone := h.place id t hpre
  · refine ⟨takes_of_waitsFor hw, ?_⟩
    obtain ⟨_, heq | hnext⟩ | ⟨p, p', hp, hp', hr⟩ := step_cases hs
    · rw [heq, halive] at hg
      cases hg
    · have hstays := (next_takes hnext (takes_of_waitsFor hw)).1
      rw [(takes_apart hstays).1] at hg
      cases hg
    · rw [hp, Ctl.point_awake] at hw hself
      rw [hp', Ctl.point_awake] at hg
      obtain ⟨hstays, _⟩ | ⟨_, hc⟩ | hnone := hr.takes_cases (takes_of_waitsFor hw) hself
      · rw [(takes_apart hstays).1] at hg
        cases hg
      · exact hc
      · rw [(h.step_waiting hsound hs hin).1] at hnone
        cases hnone
  · rw [halive] at hgone
    cases hgone

theorem Pended.step_removed (h : Pended s.mem s.ctl) (hsound : Sound ids s) (hs : Step (code ids) t s s')
    (hdies : Dies ⟨s, t, s'⟩ → ∀ id, t ∈ s.mem.task.semSusp id → ∀ w, restarts (s.ctl w).point ≠ some t)
    (hg : gone (s'.ctl u).point = true) {id : ι} (hin : u ∈ s'.mem.task.semSusp id) :
    ∃ w, removing (s'.ctl w).point = some u := by
  obtain ⟨hpre, hgone | ⟨rfl, hd⟩⟩ := h.gone_cases hsound hs hg hin
  · obtain ⟨w, hrem⟩ := h.removed u hgone id hpre
    refine ⟨w, ?_⟩
    by_cases hwt : w = t
    · subst hwt
      obtain ⟨_, heq | hnext⟩ | ⟨p, p', hp, hp', hr⟩ := step_cases hs
      · rw [heq, hrem]
      · rw [(next_joining hnext).2] at hrem
        cases hrem
      · rw [hp, Ctl.point_awake] at hrem
        rw [hp', Ctl.point_awake]
        obtain hrem | hm := hr.removing_cases hrem
        · exact hrem
        · -- it has just left the list
          rw [hm] at hin
          exact absurd hin (TaskLib.Mem.notMem_unlinkWaiting (h.nodup id) (h.waiting id u hpre).1)
    · rw [hs.ctl_other hwt, hrem]
  · -- whoever has cancelled it waits for it
    obtain ⟨htakes, hc⟩ := h.dies_cancelled hsound hs hd hpre hin
    obtain ⟨hdead, _⟩ | ⟨w, hj⟩ := h.cancelled u hc
    · rw [hdead] at htakes
      cases htakes
    · have hwu : w ≠ u := by
        rintro rfl
        rw [(takes_apart htakes).2.2] at hj
        cases hj
      obtain hrem | hres := joining_cases hj
      · exact ⟨w, by rw [hs.ctl_other hwu, hrem]⟩
      · exact absurd hres (hdies hd id hpre w)

theorem Pended.step_cancelled (h : Pended s.mem s.ctl) (hs : Step (code ids) t s s')
    (hc : s'.mem.task.cancelled u = true) :
    (s'.ctl u).point = .task .dead ∧ s'.mem.reborn u = false ∨ ∃ w, joining (s'.ctl w).point = some u := by
  obtain ⟨hm, hpoint⟩ | ⟨p, p', hpre, hpost, hr⟩ := step_cases hs
  · rw [hm] at hc ⊢
    obtain ⟨hdead, hreborn⟩ | ⟨w, hj⟩ := h.cancelled u hc
    · refine .inl ⟨?_, hreborn⟩
      by_cases hut : u = t
      · subst hut
        obtain heq | hnext := hpoint
        · rw [heq, hdead]
        · rw [hdead] at hnext
          exact False.elim hnext
      · rw [hs.ctl_other hut, hdead]
    · refine .inr ⟨w, ?_⟩
      by_cases hwt : w = t
      · subst hwt
        obtain heq | hnext := hpoint
        · rw [heq, hj]
        · rw [(next_joining hnext).1] at hj
          cases hj
      · rw [hs.ctl_other hwt, hj]
  · obtain hold | hj := hr.cancelled_cases hc
    · obtain ⟨hdead, hreborn⟩ | ⟨w, hj⟩ := h.cancelled u hold
      · have hut : u ≠ t := by
          rintro rfl
          rw [hpre, Ctl.point_awake] at hdead
          subst hdead
          rw [hr.of_dead.1] at hreborn
          cases hreborn
        refine .inl ⟨by rw [hs.ctl_other hut, hdead], Bool.eq_false_iff.mpr fun hreborn' => ?_⟩
        obtain hreborn' | ⟨_, hnot, _⟩ := hr.reborn_some hreborn'
        · rw [hreborn] at hreborn'
          cases hreborn'
        · rw [hc] at hnot
          cases hnot
      · by_cases hwt : w = t
        · subst hwt
          rw [hpre, Ctl.point_awake] at hj
          obtain ⟨hm, hdead, _⟩ := hr.joining_cases hj
          obtain ⟨hpoint, hreborn⟩ := h.dead u hdead
          have huw : u ≠ w := by
            rintro rfl
            rw [hpre, Ctl.point_awake] at hpoint
            subst hpoint
            cases hj
          exact .inl ⟨by rw [hs.ctl_other huw, hpoint], by rw [hm, hreborn]⟩
        · exact .inr ⟨w, by rw [hs.ctl_other hwt, hj]⟩
    · exact .inr ⟨t, by rw [hpost]; exact hj⟩

theorem pended_step (h : Pended s.mem s.ctl) (hsound : Sound ids s) (hheld : Held s.mem.task.sched s.ctl)
    (hs : Step (code ids) t s s') (hstarts : StartsInTime ⟨s, t, s'⟩)
    (hdies : Dies ⟨s, t, s'⟩ → ∀ id, t ∈ s.mem.task.semSusp id → ∀ w, restarts (s.ctl w).point ≠ some t) :
    Pended s'.mem s'.ctl where
  nodup := h.step_nodup hs
  waiting _ _ := h.step_waiting hsound hs
  place _ _ := h.step_place hsound hs
  own _ _ := h.step_own hsound hs
  link _ _ _ := h.step_link hsound hs
  dead _ := h.step_dead hs
  reborn _ := h.step_reborn hsound hs hstarts
  joined _ _ := h.step_joined hsound hheld hs hstarts
  cancelled _ := h.step_cancelled hs
  clean _ hg _ := h.step_clean hsound hs hdies hg
  removed _ hg _ := h.step_removed hsound hs hdies hg

end

end V2lin.Kill
