import V2lin.Kill.Pended

/-! What holds of the `waiting` pointers in every state.

A step keeps `Waits` as long as it does not kill a task in `semTake` that is being
restarted, nor create a thread in `self_starter` out of time. -/
namespace V2lin.Kill
open Threads V2lin.Task V2lin.TaskLib

section
variable {θ ι κ : Type} [DecidableEq θ] [DecidableEq ι] [DecidableEq κ] {ids : AddressIds θ} {t u v w : θ}
  {s s' : KillState θ ι κ} {id : ι}

omit [DecidableEq θ] [DecidableEq ι] [DecidableEq κ] in
/-- A task that is killed in `semTake` is not one that is being restarted. -/
theorem Pended.dies (h : Pended s.mem s.ctl) (hno : ¬ KilledInTake ⟨s, t, s'⟩) (hd : Dies ⟨s, t, s'⟩) {id : ι}
    (hu : t ∈ s.mem.task.semSusp id) (w : θ) : restarts (s.ctl w).point ≠ some t := by
  intro hw
  obtain ⟨hwaits, _⟩ | hg := h.place id t hu
  · refine hno ⟨hd, ?_, w, hw⟩
    show takes (s.ctl t).point ≠ none
    rw [takes_of_waitsFor hwaits]
    exact Option.some_ne_none id
  · have hgone : gone (s.ctl t).point = false := hd.1
    rw [hg] at hgone
    cases hgone

/-! ### On the list -/

/-- Nobody else takes a waiting task off its list, except to restart it. -/
theorem Waits.stays_listed (h : Waits s.mem s.ctl) (hp : Pended s.mem s.ctl) (hsound : Sound ids s)
    (hs : Step (code ids) t s s') (hut : u ≠ t) (hw : waitsFor (s.ctl u).point = some id)
    (hself : ourTask (s.ctl u).point = some u) (hu : u ∈ s.mem.task.semSusp id) :
    u ∈ s'.mem.task.semSusp id ∨ ∃ w, restarts (s'.ctl w).point = some u := by
  have hstarted := (hp.own u u hself).2
  obtain ⟨hm, _⟩ | ⟨p, p', hpre, hpost, hr⟩ := step_cases hs
  · rw [hm]
    exact .inl hu
  · obtain hin | hun := hr.unlists hu
    · exact .inl hin
    · cases hun with
      | link x hx =>
        -- whoever puts itself on a list is not yet on one
        have hown := (hp.own t x (by rw [hpre]; rfl)).1
        subst hown
        obtain ⟨hno, _⟩ | hno := hp.place id x hx <;> rw [hpre] at hno <;> cases hno
      | unlink j => exact absurd (hp.own t u (by rw [hpre]; rfl)).1 hut
      | restart self =>
        have hpoint := hr.of_restartUnlink
        by_cases hmine : some u = self
        · subst hmine
          exact absurd (h.restartSelf t u u (by rw [hpre]; rfl)) hut
        · rw [if_neg hmine] at hpoint
          exact .inr ⟨t, by rw [hpost, hpoint]; rfl⟩
      | pend x =>
        have hok := hsound.ok t
        rw [hpre] at hok
        exact absurd (hok.selfTask u rfl).1 hut
      | remove cause =>
        have hdead := (hp.dead u (hp.joined t u (by rw [hpre]; rfl))).1
        rw [hdead] at hw
        cases hw
      | selfRemove cause => exact absurd (h.removesSelf t cause u (by rw [hpre]; rfl)) hut
      | noThread tid hno =>
        rw [hstarted] at hno
        cases hno

theorem Waits.step_linked (h : Waits s.mem s.ctl) (hp : Pended s.mem s.ctl) (hsound : Sound ids s)
    (hs : Step (code ids) t s s') (hw : waitsFor (s'.ctl u).point = some id)
    (hself : ourTask (s'.ctl u).point = some u) :
    u ∈ s'.mem.task.semSusp id ∨ ∃ w, restarts (s'.ctl w).point = some u := by
  by_cases hut : u = t
  · subst hut
    -- the memory and the others are as they were
    have hkeep : s'.mem = s.mem → waitsFor (s.ctl u).point = some id → ourTask (s.ctl u).point = some u →
        u ∈ s'.mem.task.semSusp id ∨ ∃ w, restarts (s'.ctl w).point = some u := by
      intro hm hw hself
      rw [hm]
      refine (h.linked u id hw hself).imp_right fun ⟨w, hr⟩ => ⟨w, ?_⟩
      have hwu : w ≠ u := by
        rintro rfl
        have hno := (takes_apart (takes_of_waitsFor hw)).2.1
        rw [restarting_of_restarts hr] at hno
        cases hno
      rw [hs.ctl_other hwu, hr]
    obtain ⟨hm, heq | hnext⟩ | ⟨p, p', hpre, hpost, hr⟩ := step_cases hs
    · rw [heq] at hw hself
      exact hkeep hm hw hself
    · obtain ⟨hw', hself'⟩ := next_of_waitsFor hnext hw
      exact hkeep hm hw' (by rw [← hself', hself])
    · rw [hpost, Ctl.point_awake] at hw hself
      obtain ⟨hw', hself', hm⟩ | hlist := hr.of_waitsFor hw
      · refine hkeep hm (by rw [hpre]; exact hw') (by rw [hpre, Ctl.point_awake, ← hself', hself])
      · rw [hlist, hself]
        exact .inl (List.mem_append_right _ (List.mem_singleton_self u))
  · rw [hs.ctl_other hut] at hw hself
    obtain hin | ⟨w, hr⟩ := h.linked u id hw hself
    · exact h.stays_listed hp hsound hs hut hw hself hin
    · refine .inr ⟨w, ?_⟩
      by_cases hwt : w = t
      · subst hwt
        have halive : s.mem.task.dead u ≠ true := by
          intro hdead
          rw [(hp.dead u hdead).1] at hw
          cases hw
        obtain ⟨_, heq | hnext⟩ | ⟨p, p', hpre, hpost, hrun⟩ := step_cases hs
        · rw [heq, hr]
        · have hno := (next_restarting hnext).1
          rw [restarting_of_restarts hr] at hno
          cases hno
        · rw [hpre, Ctl.point_awake] at hr
          rw [hpost, Ctl.point_awake]
          obtain hr' | hdead | rfl := hrun.of_restarts hr
          · exact hr'
          · exact absurd hdead halive
          · cases hr
            exact absurd (hp.joined w u (by rw [hpre]; rfl)) halive
      · rw [hs.ctl_other hwt, hr]

/-! ### The pointers -/

theorem Waits.step_marked (h : Waits s.mem s.ctl) (hp : Pended s.mem s.ctl) (hsound : Sound ids s)
    (hs : Step (code ids) t s s') (hno : ¬ KilledInTake ⟨s, t, s'⟩) (hw : (s'.mem.task.tcb u).waiting = some id) :
    takes (s'.ctl u).point = some id ∧ ourTask (s'.ctl u).point = some u ∨
      gone (s'.ctl u).point = true ∧ (u ∉ s'.mem.task.taskList ∨ ∃ w, removing (s'.ctl w).point = some u) := by
  obtain ⟨hm, hpoint⟩ | ⟨p, p', hpre, hpost, hr⟩ := step_cases hs
  · have hremoving : ∀ w, removing (s.ctl w).point = some u → removing (s'.ctl w).point = some u := by
      intro w hr
      by_cases hwt : w = t
      · subst hwt
        obtain heq | hnext := hpoint
        · rw [heq, hr]
        · rw [(next_joining hnext).2] at hr
          cases hr
      · rw [hs.ctl_other hwt, hr]
    rw [hm] at hw ⊢
    have hold := h.marked u id hw
    by_cases hut : u = t
    · subst hut
      obtain heq | hnext := hpoint
      · rw [heq]
        exact hold.imp_right fun ⟨hg, hr⟩ => ⟨hg, hr.imp_right fun ⟨w, hr⟩ => ⟨w, hremoving w hr⟩⟩
      · obtain ⟨ht, hself⟩ | ⟨hg, hr⟩ := hold
        · obtain ⟨ht', hself'⟩ := next_takes hnext ht
          exact .inl ⟨ht', hself'.trans hself⟩
        · exact .inr ⟨(next_quiet hnext).gone hg, hr.imp_right fun ⟨w, hr⟩ => ⟨w, hremoving w hr⟩⟩
    · rw [hs.ctl_other hut]
      exact hold.imp_right fun ⟨hg, hr⟩ => ⟨hg, hr.imp_right fun ⟨w, hr⟩ => ⟨w, hremoving w hr⟩⟩
  · obtain hold | ⟨hmine, ht, hself⟩ := hr.waiting_some hw
    · have hlist : u ∉ s.mem.task.taskList → u ∉ s'.mem.task.taskList := by
        intro hnot hin
        obtain hin | hnone := hr.taskList_cases hin
        · exact hnot hin
        · rw [hw] at hnone
          cases hnone
      have hremoved : (u ∉ s.mem.task.taskList ∨ ∃ w, removing (s.ctl w).point = some u) →
          u ∉ s'.mem.task.taskList ∨ ∃ w, removing (s'.ctl w).point = some u := by
        rintro (hnot | ⟨w, hrem⟩)
        · exact .inl (hlist hnot)
        · by_cases hwt : w = t
          · subst hwt
            rw [hpre, Ctl.point_awake] at hrem
            obtain hrem' | hm := hr.removing_cases hrem
            · exact .inr ⟨w, by rw [hpost]; exact hrem'⟩
            · refine .inl fun hin => ?_
              rw [hm, Mem.setTask, Mem.taskDelete_taskList] at hin
              exact (hsound.registry.nodup.mem_erase_iff.mp hin).1 rfl
          · exact .inr ⟨w, by rw [hs.ctl_other hwt, hrem]⟩
      by_cases hut : u = t
      · subst hut
        have hmarked := h.marked u id hold
        rw [hpre, Ctl.point_awake] at hmarked
        rw [hpost, Ctl.point_awake]
        obtain ⟨ht, hself⟩ | ⟨hg, hrem⟩ := hmarked
        · obtain hstays | ⟨hg, hcancelled⟩ | hnone := hr.takes_cases ht hself
          · exact .inl hstays
          · -- it has been cancelled: whoever did it waits for it
            refine .inr ⟨hg, ?_⟩
            obtain ⟨hdead, _⟩ | ⟨w, hj⟩ := hp.cancelled u hcancelled
            · rw [hpre, Ctl.point_awake] at hdead
              rw [hdead] at ht
              cases ht
            · have hwu : w ≠ u := by
                rintro rfl
                rw [hpre, Ctl.point_awake, (takes_apart ht).2.2] at hj
                cases hj
              obtain hrem | hres := joining_cases hj
              · exact .inr ⟨w, by rw [hs.ctl_other hwu, hrem]⟩
              · refine absurd ⟨⟨?_, ?_⟩, ?_, w, hres⟩ hno
                · show gone (s.ctl u).point = false
                  rw [hpre]
                  exact (takes_apart ht).1
                · show gone (s'.ctl u).point = true
                  rw [hpost]
                  exact hg
                · show takes (s.ctl u).point ≠ none
                  rw [hpre, Ctl.point_awake, ht]
                  exact Option.some_ne_none id
          · rw [hw] at hnone
            cases hnone
        · obtain hg' | ⟨rfl, hreborn⟩ := hr.gone hg
          · exact .inr ⟨hg', hremoved hrem⟩
          · rw [h.reborn u hreborn] at hold
            cases hold
      · rw [hs.ctl_other hut]
        exact (h.marked u id hold).imp_right fun ⟨hg, hrem⟩ => ⟨hg, hremoved hrem⟩
    · obtain ⟨rfl, _⟩ := myTask_eq hmine
      rw [hpost]
      exact .inl ⟨ht, hself⟩

/-- A new thread is created for a task whose pointer is not set. -/
theorem Waits.step_reborn (h : Waits s.mem s.ctl) (hp : Pended s.mem s.ctl) (hheld : Held s.mem.task.sched s.ctl)
    (hs : Step (code ids) t s s') (hstarts : StartsInTime ⟨s, t, s'⟩) (hr : s'.mem.reborn u = true) :
    (s'.mem.task.tcb u).waiting = none := by
  refine Option.eq_none_iff_forall_ne_some.mpr fun id hw => ?_
  obtain ⟨hm, _⟩ | ⟨p, p', hpre, hpost, hrun⟩ := step_cases hs
  · rw [hm] at hr hw
    rw [h.reborn u hr] at hw
    cases hw
  · obtain hold | ⟨hcreates, _, htcb⟩ := hrun.reborn_some hr
    · obtain hw | ⟨hmine, _⟩ := hrun.waiting_some hw
      · rw [h.reborn u hold] at hw
        cases hw
      · -- a dead thread does not take
        obtain ⟨rfl, _⟩ := myTask_eq hmine
        have hdead := (hp.reborn u hold).1
        rw [hpre, Ctl.point_awake] at hdead
        subst hdead
        rw [hrun.of_dead.2] at hr
        cases hr
    · rw [htcb] at hw
      have hended : s.mem.task.dead u = true ∧ u ∈ s.mem.task.taskList ∧ ∀ w, removing (s.ctl w).point ≠ some u := by
        obtain rfl | rfl := creates_cases hcreates
        · refine ⟨hp.joined t u (by rw [hpre]; rfl), h.listed t u (by rw [hpre]; rfl), fun w hrem => ?_⟩
          -- both would hold the scheduler lock
          have hwt := hheld.unique (removing_locks hrem) (u := t) (by rw [hpre]; exact Nat.zero_lt_one)
          subst hwt
          rw [hpre] at hrem
          cases hrem
        · obtain ⟨hin, hdead, hnobody⟩ := hstarts u (by rw [hpre]; rfl)
          exact ⟨hdead, hin, fun w hrem => (removing_ends hrem).elim (hnobody w).1 (hnobody w).2⟩
      obtain ⟨ht, _⟩ | ⟨_, hnot | ⟨w, hrem⟩⟩ := h.marked u id hw
      · rw [(hp.dead u hended.1).1] at ht
        cases ht
      · exact hnot hended.2.1
      · exact hended.2.2 w hrem

theorem Waits.step_listed (h : Waits s.mem s.ctl) (hheld : Held s.mem.task.sched s.ctl) (hs : Step (code ids) t s s')
    (hr : restarting (s'.ctl w).point = some u) : u ∈ s'.mem.task.taskList := by
  obtain ⟨hm, hpoint⟩ | ⟨p, p', hpre, hpost, hrun⟩ := step_cases hs
  · rw [hm]
    by_cases hwt : w = t
    · subst hwt
      obtain heq | hnext := hpoint
      · exact h.listed w u (by rw [← heq, hr])
      · rw [(next_restarting hnext).2] at hr
        cases hr
    · exact h.listed w u (by rw [← hs.ctl_other hwt, hr])
  · by_cases hwt : w = t
    · subst hwt
      rw [hpost, Ctl.point_awake] at hr
      obtain hin | ⟨hold, hlist⟩ := hrun.restarting_cases hr
      · exact hin
      · rw [hlist]
        exact h.listed w u (by rw [hpre]; exact hold)
    · rw [hs.ctl_other hwt] at hr
      refine hrun.listed_stays (Nat.eq_zero_of_not_pos fun hpos => hwt ?_) (h.listed w u hr)
      exact hheld.unique (restarting_locks hr) (by rw [hpre]; exact hpos)

/-! ### Own tasks -/

theorem Waits.step_restartSelf (h : Waits s.mem s.ctl) (hs : Step (code ids) t s s')
    (hp : (s'.ctl w).point = .restartUnlink (some v) u) : v = w := by
  by_cases hwt : w = t
  · subst hwt
    obtain ⟨_, heq | hnext⟩ | ⟨p, p', _, hpost, hr⟩ := step_cases hs
    · exact h.restartSelf w u v (by rw [← heq, hp])
    · have hno := (next_restarting hnext).2
      rw [hp] at hno
      cases hno
    · rw [hpost, Ctl.point_awake] at hp
      exact hr.restartSelf hp
  · exact h.restartSelf w u v (by rw [← hs.ctl_other hwt, hp])

theorem Waits.step_removesSelf (h : Waits s.mem s.ctl) (hsound : Sound ids s) (hs : Step (code ids) t s s')
    {cause : Cause θ} (hp : (s'.ctl w).point = .task (.forceSelfRemove cause u)) : u = w := by
  by_cases hwt : w = t
  · subst hwt
    obtain ⟨_, heq | hnext⟩ | ⟨p, p', hpre, hpost, hr⟩ := step_cases hs
    · exact h.removesSelf w cause u (by rw [← heq, hp])
    · rw [hp] at hnext
      exact absurd rfl (next_selfRemove hnext cause u)
    · have hok := hsound.ok w
      rw [hpre] at hok
      rw [hpost, Ctl.point_awake] at hp
      exact hr.removesSelf hok hp
  · exact h.removesSelf w cause u (by rw [← hs.ctl_other hwt, hp])

theorem waits_step (h : Waits s.mem s.ctl) (hp : Pended s.mem s.ctl) (hsound : Sound ids s)
    (hheld : Held s.mem.task.sched s.ctl) (hs : Step (code ids) t s s') (hstarts : StartsInTime ⟨s, t, s'⟩)
    (hno : ¬ KilledInTake ⟨s, t, s'⟩) : Waits s'.mem s'.ctl where
  linked _ _ := h.step_linked hp hsound hs
  marked _ _ := h.step_marked hp hsound hs hno
  reborn _ := h.step_reborn hp hheld hs hstarts
  listed _ _ := h.step_listed hheld hs
  restartSelf _ _ _ := h.step_restartSelf hs
  removesSelf _ _ _ := h.step_removesSelf hsound hs

/-! ### All of it -/

/-- What holds as long as nobody is killed in `semTake` who is being restarted, and
`self_starter` is called in time. -/
structure Good (ids : AddressIds θ) (m : Mem θ ι κ) (ctl : θ → Ctl (Pc θ ι κ)) : Prop where
  sound : TaskLib.Sound ids m.task fun u => (ctl u).map Pc.leave
  held : Held m.task.sched ctl
  pended : Pended m ctl
  waits : Waits m ctl

omit [DecidableEq ι] [DecidableEq κ] in
theorem Initial.good (h : Initial ids s) : Good ids s.mem s.ctl where
  sound := h.task.sound
  held t ht := by
    obtain hp | hp := h.point t <;> rw [hp] at ht <;> exact absurd ht (Nat.lt_irrefl 0)
  pended := h.pended
  waits := h.waits

theorem good_step (h : Good ids s.mem s.ctl) (hs : Step (code ids) t s s') (hstarts : StartsInTime ⟨s, t, s'⟩)
    (hno : ¬ KilledInTake ⟨s, t, s'⟩) : Good ids s'.mem s'.ctl where
  sound := sound_step h.sound h.held hs
  held := held_step h.held hs
  pended := pended_step h.pended h.sound h.held hs hstarts fun hd _ hu => h.pended.dies hno hd hu
  waits := waits_step h.waits h.pended h.sound h.held hs hstarts hno

section
variable {m : Mem θ ι κ} {ctl ctl' : θ → Ctl (Pc θ ι κ)}

omit [DecidableEq θ] [DecidableEq ι] [DecidableEq κ] in
theorem Pended.congr (h : Pended m ctl) (hp : ∀ u, (ctl' u).point = (ctl u).point) : Pended m ctl' where
  nodup := h.nodup
  waiting := h.waiting
  place := by simpa only [hp] using h.place
  own := by simpa only [hp] using h.own
  link := by simpa only [hp] using h.link
  dead := by simpa only [hp] using h.dead
  reborn := by simpa only [hp] using h.reborn
  joined := by simpa only [hp] using h.joined
  cancelled := by simpa only [hp] using h.cancelled
  clean := by simpa only [hp] using h.clean
  removed := by simpa only [hp] using h.removed

omit [DecidableEq θ] [DecidableEq ι] [DecidableEq κ] in
theorem Waits.congr (h : Waits m ctl) (hp : ∀ u, (ctl' u).point = (ctl u).point) : Waits m ctl' where
  linked := by simpa only [hp] using h.linked
  marked := by simpa only [hp] using h.marked
  reborn := h.reborn
  listed := by simpa only [hp] using h.listed
  restartSelf := by simpa only [hp] using h.restartSelf
  removesSelf := by simpa only [hp] using h.removesSelf

omit [DecidableEq ι] [DecidableEq κ] in
/-- Only the points count, not who sleeps. -/
theorem Good.congr (h : Good ids m ctl) (hp : ∀ u, (ctl' u).point = (ctl u).point) : Good ids m ctl' where
  sound := by
    have hview : ∀ u, ((ctl' u).map Pc.leave).point = ((ctl u).map Pc.leave).point := fun u => by
      rw [Ctl.map_point, Ctl.map_point, hp]
    refine ⟨h.sound.registry, ?_, ?_, ?_⟩
    · simpa only [hview] using h.sound.ok
    · simpa only [hview] using h.sound.unique
    · simpa only [hview] using h.sound.knows
  held t ht := by
    rw [hp] at ht ⊢
    exact h.held t ht
  pended := h.pended.congr hp
  waits := h.waits.congr hp

end

end

end V2lin.Kill
