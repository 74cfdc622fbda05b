import V2lin.Lifecycle.Priority

/-! Between operations every task has its own priority in its attributes, unless its thread
has the scheduler lock. -/
namespace V2lin.Lifecycle
open Threads V2lin.Task V2lin.TaskLib

section
variable {θ τ ι : Type} [DecidableEq θ] [DecidableEq τ] [DecidableEq ι]
variable {ids : τ → ℤ} {t : θ} {p p' : Pc τ ι} {s s' : LifeState θ τ ι}

/-- All that is known before a block is run. -/
structure Before (ids : τ → ℤ) (t : θ) (p p' : Pc τ ι) (s s' : LifeState θ τ ι) : Prop where
  runs : Runs ids t p s.mem s'.mem p'
  pre : s.ctl t = .awake p
  post : s'.ctl t = .awake p'
  other : ∀ w ≠ t, s'.ctl w = s.ctl w
  held : Held s
  handles : Handles s.mem s.ctl
  priorities : Priorities s
  restores : Restores ⟨s, t, s'⟩

namespace Before

theorem holder (b : Before ids t p p' s s') (h : holds p = true) : s.mem.locker = some t :=
  b.held.holder t (by rw [b.pre]; exact h)

theorem shape (b : Before ids t p p' s s') : Shape p := by
  have hshape := b.held.shape t
  rwa [b.pre] at hshape

theorem has (b : Before ids t p p' s s') : Has s.mem t p := by
  have hhas := b.handles.has t
  rwa [b.pre] at hhas

theorem clears (b : Before ids t p p' s s') (h : Lifecycle.clears p = true) : s.mem.locker = some t :=
  (b.held.lock.clears t (by rw [b.pre]; exact h)).1

/-- A thread has one task only. -/
theorem unique (b : Before ids t p p' s s') {u v : τ} {w : θ} (hin : u ∈ s.mem.taskList) (hknown : Known s.mem s.ctl v)
    (hu : (s.mem.tcb u).pthrid = some w) (hv : (s.mem.tcb v).pthrid = some w) : u = v :=
  Option.some.inj ((b.handles.task u (.inl hin) w hu).1.symm.trans (b.handles.task v hknown w hv).1)

/-- The handle of a task after the step is the one before it, unless the thread is new. -/
theorem handle_old (b : Before ids t p p' s s') {u : τ} {w : θ} (hw : (s'.mem.tcb u).pthrid = some w)
    (hnot : ¬ Created p p' s.mem s'.mem u w) : (s.mem.tcb u).pthrid = some w :=
  (b.runs.handle_new hw).resolve_right hnot

/-- A thread that is between its first step and its exit is not new. -/
theorem not_created (b : Before ids t p p' s s') {u : τ} {w : θ}
    (hunborn : (s'.ctl w).point ≠ .unborn) (hgone : (s'.ctl w).point ≠ .gone) : ¬ Created p p' s.mem s'.mem u w := by
  intro hc
  by_cases hwt : w = t
  · subst hwt
    exact b.runs.not_created b.handles b.pre hc
  · rw [b.other w hwt] at hunborn hgone
    exact (b.handles.vacant hc.vacant).elim hunborn hgone

/-- Nor is the one that has the scheduler lock. -/
theorem locker_not_created (b : Before ids t p p' s s') {u : τ} {w : θ} (hl : s'.mem.locker = some w) :
    ¬ Created p p' s.mem s'.mem u w := by
  intro hc
  obtain hl | ⟨rfl, _⟩ := b.runs.locker_new hl
  · obtain ⟨failed, hpoint⟩ := hc.point
    exact (b.restores.fresh u (by rw [b.pre]; exact hpoint.creates) w hc.pthrid).1 hl
  · exact b.runs.not_created b.handles b.pre hc

/-- The thread that has the scheduler lock keeps it, and its task keeps its handle. -/
theorem stays (b : Before ids t p p' s s') {u : τ} {w : θ} (hw : (s.mem.tcb u).pthrid = some w) (hl : s.mem.locker = some w)
    (hinit : ∀ pri policy next, p ≠ .listEdit (.init u pri policy) next)
    (hmine : w = t → restored p = false ∧ cleansUp s.mem t p = false) :
    (s'.mem.tcb u).pthrid = some w ∧ s'.mem.locker = some w := by
  constructor
  · refine (b.runs.handle_locker b.handles b.held b.pre b.restores hw hl).resolve_right ?_
    rintro ⟨pri, policy, next, he⟩
    exact hinit pri policy next he
  · refine (b.runs.locker_keeps b.clears hl).resolve_right ?_
    rintro ⟨rfl, h⟩
    obtain ⟨hrestored, hcleans⟩ := hmine rfl
    obtain h | h := h
    · rw [hrestored] at h
      cases h
    · rw [hcleans] at h
      cases h

/-- The outermost `taskUnlock` puts the priority back. -/
theorem own_restore (b : Before ids t p p' s s') {next : Pc τ ι} (hp : p = .listEdit .restore next) {u : τ}
    (hin : u ∈ s.mem.taskList) (hu : (s.mem.tcb u).pthrid = some t) : Own s'.mem u := by
  obtain ⟨_, task, hmine, hm⟩ := b.runs.restore hp
  cases task with
  | none => exact absurd hu (Mem.myTask_none hmine u hin)
  | some v =>
    obtain ⟨hlisted, hv⟩ := Mem.myTask_some hmine
    obtain rfl := b.unique hlisted (.inl hin) hv hu
    exact hm v rfl

theorem own_same (b : Before ids t p p' s s') {u : τ} (hin : u ∈ s.mem.taskList)
    (hsame : Own s.mem u → Own s'.mem u) : Own s'.mem u ∨
    (∃ w, (s'.mem.tcb u).pthrid = some w ∧ s'.mem.locker = some w ∧ restored (s'.ctl w).point = false) ∨
    ∃ w, setting (s'.ctl w).point = some u := by
  obtain hown | ⟨w, hw, hl, hres⟩ | ⟨w, hset⟩ := b.priorities.own u hin
  · exact .inl (hsame hown)
  · by_cases hinit : ∃ pri policy next, p = .listEdit (.init u pri policy) next
    · obtain ⟨pri, policy, next, hp⟩ := hinit
      exact .inl (b.runs.own_init hp)
    · have hnot : ∀ pri policy next, p ≠ .listEdit (.init u pri policy) next := fun pri policy next he =>
        hinit ⟨pri, policy, next, he⟩
      by_cases hwt : w = t
      · subst hwt
        rw [b.pre] at hres
        cases hclean : cleansUp s.mem w p with
        | true =>
          -- the thread leaves with the lock: its task's own priority is the highest
          refine .inl (hsame ?_)
          have hmax := b.restores.cleanup (by rw [b.pre]; exact hclean) hl u hin hw
          obtain hraised | hown := b.priorities.locked u hin w hw hl
          · exact Eq.trans hraised hmax.symm
          · exact hown
        | false =>
          obtain ⟨hw', hl'⟩ := b.stays hw hl hnot fun _ => ⟨hres, hclean⟩
          cases hrestored : restored p' with
          | true =>
            obtain ⟨next, hp⟩ := b.runs.restored b.shape hrestored
            exact .inl (b.own_restore hp hin hw)
          | false => exact .inr (.inl ⟨w, hw', hl', by rw [b.post]; exact hrestored⟩)
      · obtain ⟨hw', hl'⟩ := b.stays hw hl hnot fun he => absurd he hwt
        exact .inr (.inl ⟨w, hw', hl', by rw [b.other w hwt]; exact hres⟩)
  · by_cases hwt : w = t
    · subst hwt
      rw [b.pre] at hset
      obtain hset | ⟨tid, rfl, rfl, hself⟩ | ⟨_, hown⟩ := b.runs.setting hset
      · exact .inr (.inr ⟨w, by rw [b.post]; exact hset⟩)
      · -- the attributes are left to the caller's `taskUnlock`
        have hw : (s.mem.tcb u).pthrid = some w := by
          by_cases htid : tid = 0
          · exact b.has htid
          · exact (Mem.myTask_some (hself htid)).2
        obtain ⟨hw', hl'⟩ := b.stays hw (b.holder rfl) (fun _ _ _ => nofun) fun _ => ⟨rfl, rfl⟩
        exact .inr (.inl ⟨w, hw', hl', by rw [b.post]; rfl⟩)
      · exact .inl hown
    · exact .inr (.inr ⟨w, by rw [b.other w hwt]; exact hset⟩)

theorem own (b : Before ids t p p' s s') {u : τ} (hin : u ∈ s'.mem.taskList) : Own s'.mem u ∨
    (∃ w, (s'.mem.tcb u).pthrid = some w ∧ s'.mem.locker = some w ∧ restored (s'.ctl w).point = false) ∨
    ∃ w, setting (s'.ctl w).point = some u := by
  obtain ⟨_, _, _, _, hown, _⟩ | ⟨hin, ⟨hattr, hprv⟩ | ⟨next, hp, _⟩ | ⟨next, _, _, hown⟩ | ⟨tid, pri, _, hp', _⟩ |
    ⟨_, hown⟩⟩ := b.runs.priority_cases hin
  · exact .inl hown
  · exact b.own_same hin fun hown => hattr.trans (Eq.trans hown hprv.symm)
  · refine .inr (.inl ⟨t, ?_⟩)
    have hhas := b.has
    have hl := b.holder (by rw [hp]; rfl)
    rw [hp] at hhas
    obtain ⟨hw', hl'⟩ := b.stays hhas hl (by rw [hp]; exact fun _ _ _ => nofun) fun _ => by rw [hp]; exact ⟨rfl, rfl⟩
    refine ⟨hw', hl', Bool.eq_false_iff.mpr fun hrestored => ?_⟩
    rw [b.post] at hrestored
    obtain ⟨next', he⟩ := b.runs.restored b.shape hrestored
    rw [hp] at he
    cases he
  · exact .inl hown
  · exact .inr (.inr ⟨t, by rw [b.post, hp']; rfl⟩)
  · exact .inl hown

/-- The attributes of the task of the thread with the scheduler lock: raised, if they were;
its own priority is set by its own thread only. -/
theorem raised_keeps (b : Before ids t p p' s s') {u : τ} {w : θ} (hin : u ∈ s'.mem.taskList)
    (hold : (s.mem.tcb u).pthrid = some w) (hw : (s'.mem.tcb u).pthrid = some w) (hl : s.mem.locker = some w)
    (hraised : Raised s.mem u) :
    Raised s'.mem u ∨ w = t ∧ (∃ next, p = .listEdit .restore next) ∧ Own s'.mem u := by
  obtain ⟨_, _, _, _, _, hnone⟩ | ⟨hin, ⟨hattr, _⟩ | ⟨next, _, h⟩ | ⟨next, hp, hmine, hown⟩ | ⟨tid, pri, _, _, hattr⟩ |
    ⟨rfl, _⟩⟩ := b.runs.priority_cases hin
  · rw [hw] at hnone
    cases hnone
  · exact .inl (Eq.trans hattr hraised)
  · exact .inl h
  · have ht := (Mem.myTask_some hmine).2
    exact .inr ⟨Option.some.inj (hold.symm.trans ht), ⟨next, hp⟩, hown⟩
  · exact .inl (Eq.trans hattr hraised)
  · -- a task whose attributes another thread sets is not the locker's
    have ht := b.holder rfl
    obtain rfl : w = t := Option.some.inj (hl.symm.trans ht)
    exact absurd hold (b.priorities.other w u (by rw [b.pre]; rfl) hin)

theorem locked (b : Before ids t p p' s s') {u : τ} {w : θ} (hin : u ∈ s'.mem.taskList)
    (hw : (s'.mem.tcb u).pthrid = some w) (hl : s'.mem.locker = some w) : Raised s'.mem u ∨ Own s'.mem u := by
  have hold := b.handle_old hw (b.locker_not_created hl)
  obtain ⟨_, _, _, _, _, hnone⟩ | ⟨hin₀, hcases⟩ := b.runs.priority_cases hin
  · rw [hw] at hnone
    cases hnone
  obtain hl₀ | ⟨rfl, hfree, task, next, rfl, _⟩ := b.runs.locker_new hl
  · obtain ⟨hattr, hprv⟩ | ⟨next, _, h⟩ | ⟨next, _, _, hown⟩ | ⟨tid, pri, rfl, rfl, hattr⟩ | ⟨_, hown⟩ := hcases
    · exact (b.priorities.locked u hin₀ w hold hl₀).imp (Eq.trans hattr) fun hown => hattr.trans (Eq.trans hown hprv.symm)
    · exact .inl h
    · exact .inr hown
    · -- the thread with the scheduler lock sets the priority of its own task
      obtain rfl : w = t := Option.some.inj (hl₀.symm.trans (b.holder rfl))
      have hraised := b.priorities.raised u hin₀ w hold hl₀ (by rw [b.pre]; rfl) (by rw [b.pre]; rfl) (by rw [b.pre]; rfl)
      exact .inl (Eq.trans hattr hraised)
    · exact .inr hown
  · obtain ⟨hattr, hprv⟩ | ⟨_, he, _⟩ | ⟨_, he, _⟩ | ⟨_, _, he, _⟩ | ⟨he, _⟩ := hcases
    · -- the scheduler lock was free, so the task had its own priority
      obtain hown | ⟨v, _, hv, _⟩ | ⟨v, hset⟩ := b.priorities.own u hin₀
      · exact .inr (hattr.trans (Eq.trans hown hprv.symm))
      · rw [hfree] at hv
        cases hv
      · have hholds : holds (s.ctl v).point = true := by
          cases hq : (s.ctl v).point <;> rw [hq] at hset <;> first | rfl | cases hset
        rw [b.held.holder v hholds] at hfree
        cases hfree
    all_goals cases he

theorem raised (b : Before ids t p p' s s') {u : τ} {w : θ} (hin : u ∈ s'.mem.taskList)
    (hw : (s'.mem.tcb u).pthrid = some w) (hl : s'.mem.locker = some w) (hraising : raising (s'.ctl w).point = false)
    (hrestored : restored (s'.ctl w).point = false) (hdoomed : doomed (s'.ctl w).point = false) : Raised s'.mem u := by
  have hold := b.handle_old hw (b.locker_not_created hl)
  obtain hl₀ | ⟨rfl, _, task, next, _, rfl⟩ := b.runs.locker_new hl
  · have hin₀ : u ∈ s.mem.taskList := by
      obtain ⟨_, _, _, _, _, hnone⟩ | ⟨hin₀, _⟩ := b.runs.priority_cases hin
      · rw [hw] at hnone
        cases hnone
      · exact hin₀
    by_cases hwt : w = t
    · subst hwt
      rw [b.post, Ctl.point_awake] at hraising hrestored hdoomed
      cases hbefore : raising p with
      | true =>
        obtain h | h | ⟨task, next, rfl⟩ := b.runs.raising hbefore
        · rw [hraising] at h
          cases h
        · rw [hdoomed] at h
          cases h
        · cases task with
          | none => exact absurd hold (b.priorities.alone w (by rw [b.pre]; rfl) u hin₀)
          | some v =>
            obtain rfl := b.unique hin₀ (.inr ⟨w, by rw [b.pre]; rfl⟩) hold b.has
            exact b.runs.raise rfl
      | false =>
        have hr : restored p = false := by
          refine Bool.eq_false_iff.mpr fun h => ?_
          rw [b.runs.of_restored h] at hl
          cases hl
        have hgone : p ≠ .gone := by
          rintro rfl
          exact b.priorities.reborn w (by rw [b.pre]; rfl) (b.runs.of_gone rfl).1 hl₀
        have hd : doomed p = false := by
          refine Bool.eq_false_iff.mpr fun h => ?_
          rw [b.runs.doomed hgone h] at hdoomed
          cases hdoomed
        have h := b.priorities.raised u hin₀ w hold hl₀ (by rw [b.pre]; exact hbefore) (by rw [b.pre]; exact hr)
          (by rw [b.pre]; exact hd)
        refine (b.raised_keeps hin hold hw hl₀ h).resolve_right ?_
        rintro ⟨_, ⟨next, rfl⟩, _⟩
        rw [(b.runs.restore rfl).1] at hrestored
        have hshape : Sectioned .restore next := b.shape
        cases next <;> first | exact hshape.elim | cases hrestored
    · rw [b.other w hwt] at hraising hrestored hdoomed
      have h := b.priorities.raised u hin₀ w hold hl₀ hraising hrestored hdoomed
      exact (b.raised_keeps hin hold hw hl₀ h).resolve_right fun ⟨he, _⟩ => hwt he
  · rw [b.post] at hraising
    cases hraising

/-- A task that is listed after the step, with its handle, was listed before. -/
theorem listed_old (b : Before ids t p p' s s') {u : τ} {w : θ} (hin : u ∈ s'.mem.taskList)
    (hw : (s'.mem.tcb u).pthrid = some w) : u ∈ s.mem.taskList := by
  obtain ⟨_, _, _, _, _, hnone⟩ | ⟨hin, _⟩ := b.runs.priority_cases hin
  · rw [hw] at hnone
    cases hnone
  · exact hin

theorem alone (b : Before ids t p p' s s') {w : θ} (ha : alone (s'.ctl w).point = true) {u : τ} (hin : u ∈ s'.mem.taskList) :
    (s'.mem.tcb u).pthrid ≠ some w := by
  intro hw
  have hin₀ := b.listed_old hin hw
  have hold : (s.mem.tcb u).pthrid = some w := by
    refine b.handle_old hw (b.not_created ?_ ?_)
    · intro hp
      rw [hp] at ha
      cases ha
    · intro hp
      rw [hp] at ha
      cases ha
  by_cases hwt : w = t
  · subst hwt
    rw [b.post] at ha
    obtain ha | ⟨hmine, _⟩ := b.runs.alone b.shape ha
    · exact b.priorities.alone w (by rw [b.pre]; exact ha) u hin₀ hold
    · exact Mem.myTask_none hmine u hin₀ hold
  · rw [b.other w hwt] at ha
    exact b.priorities.alone w ha u hin₀ hold

theorem apart (b : Before ids t p p' s s') {w : θ} {u : τ} (hu : (s'.ctl w).point = .prioAttr u) (hin : u ∈ s'.mem.taskList) :
    (s'.mem.tcb u).pthrid ≠ some w := by
  intro hw
  have hin₀ := b.listed_old hin hw
  have hold : (s.mem.tcb u).pthrid = some w := by
    refine b.handle_old hw (b.not_created ?_ ?_) <;> rw [hu] <;> exact nofun
  by_cases hwt : w = t
  · subst hwt
    rw [b.post] at hu
    obtain ⟨self, hmine, hne, _⟩ := b.runs.to_prioAttr b.shape hu
    cases self with
    | none => exact Mem.myTask_none hmine u hin₀ hold
    | some v =>
      obtain ⟨hlisted, hv⟩ := Mem.myTask_some hmine
      exact hne (congrArg some (b.unique hlisted (.inl hin₀) hv hold))
  · rw [b.other w hwt] at hu
    exact b.priorities.other w u hu hin₀ hold

/-- Who has the scheduler lock has been created. -/
theorem locker_born (b : Before ids t p p' s s') {w : θ} (hl : s'.mem.locker = some w) : (s'.mem.pthread w).born = true := by
  obtain hkept | ⟨u, hc⟩ := b.runs.outlives w
  · rw [hkept.born]
    obtain hl | ⟨rfl, _⟩ := b.runs.locker_new hl
    · exact b.priorities.locker w hl
    · exact (b.runs.alive b.handles b.pre).1
  · rw [hc.thread]

/-- A new thread with an old handle does not begin with the scheduler lock. -/
theorem reborn (b : Before ids t p p' s s') {w : θ} (hw : (s'.ctl w).point = .gone)
    (hexited : (s'.mem.pthread w).exited = false) : s'.mem.locker ≠ some w := by
  intro hl
  obtain hkept | ⟨u, hc⟩ := b.runs.outlives w
  · by_cases hwt : w = t
    · subst hwt
      rw [b.post] at hw
      rw [b.runs.to_gone b.shape hw] at hexited
      cases hexited
    · rw [b.other w hwt] at hw
      have hbefore : (s.mem.pthread w).exited = false := by
        refine Bool.eq_false_iff.mpr fun h => ?_
        rw [hkept.exited h] at hexited
        cases hexited
      obtain hl | ⟨he, _⟩ := b.runs.locker_new hl
      · exact b.priorities.reborn w hw hbefore hl
      · exact hwt he
  · exact b.locker_not_created hl hc

theorem priorities_after (b : Before ids t p p' s s') : Priorities s' where
  own _ hin := b.own hin
  locked _ hin _ hw hl := b.locked hin hw hl
  raised _ hin _ hw hl h₁ h₂ h₃ := b.raised hin hw hl h₁ h₂ h₃
  alone _ ha _ hin := b.alone ha hin
  other _ _ hu hin := b.apart hu hin
  locker _ hl := b.locker_born hl
  reborn _ hw hexited := b.reborn hw hexited

end Before

theorem priorities_step (h : Priorities s) (hheld : Held s) (hh : Handles s.mem s.ctl) (hs : Step (code ids) t s s')
    (hc : Restores ⟨s, t, s'⟩) : Priorities s' := by
  obtain ⟨hm, hblock, hpoint⟩ | ⟨p, p', hp, hp', hr, _⟩ := step_cases hs
  · have hnext : ∀ w, (s'.ctl w).point = (s.ctl w).point ∨
        w = t ∧ (code (ι := ι) ids t (s.ctl t).point).Next (s'.ctl t).point := by
      intro w
      by_cases hwt : w = t
      · subst hwt
        exact hpoint.imp id fun h => ⟨rfl, h⟩
      · exact .inl (congrArg Ctl.point (hs.ctl_other hwt))
    have hset : ∀ w u, setting (s.ctl w).point = some u → setting (s'.ctl w).point = some u := by
      intro w u hset
      obtain heq | ⟨rfl, _⟩ := hnext w
      · rwa [heq]
      · cases hq : (s.ctl w).point
        case prioSplit tid v =>
          rw [hq] at hblock
          exact absurd rfl (hblock _)
        case prioAttr v =>
          rw [hq] at hblock
          exact absurd rfl (hblock _)
        all_goals
          rw [hq] at hset
          cases hset
    refine ⟨fun u hin => ?_, fun u hin w => ?_, fun u hin w hw hl h₁ h₂ h₃ => ?_, fun w ha u hin => ?_,
      fun w u hu hin => ?_, fun w hl => ?_, fun w hw hexited => ?_⟩
    · rw [hm] at hin ⊢
      obtain hown | ⟨w, hw, hl, hres⟩ | ⟨w, h'⟩ := h.own u hin
      · exact .inl hown
      · refine .inr (.inl ⟨w, hw, hl, ?_⟩)
        obtain heq | ⟨rfl, hn⟩ := hnext w
        · rwa [heq]
        · refine Bool.eq_false_iff.mpr fun hrestored => ?_
          rw [next_restored hn (hheld.shape w) hrestored] at hres
          cases hres
      · exact .inr (.inr ⟨w, hset w u h'⟩)
    · rw [hm] at hin ⊢
      exact h.locked u hin w
    · rw [hm] at hin hw hl ⊢
      obtain heq | ⟨rfl, hn⟩ := hnext w
      · rw [heq] at h₁ h₂ h₃
        exact h.raised u hin w hw hl h₁ h₂ h₃
      · refine h.raised u hin w hw hl (Bool.eq_false_iff.mpr fun hq => ?_) (Bool.eq_false_iff.mpr fun hq => ?_)
          (Bool.eq_false_iff.mpr fun hq => ?_)
        · rw [(next_keeps hn).1 hq] at h₁
          cases h₁
        · rw [(next_keeps hn).2 hq] at h₂
          cases h₂
        · rw [next_doomed hn hq] at h₃
          cases h₃
    · rw [hm] at hin ⊢
      obtain heq | ⟨rfl, hn⟩ := hnext w
      · exact h.alone w (heq ▸ ha) u hin
      · exact h.alone w (next_alone hn (hheld.shape w) ha) u hin
    · rw [hm] at hin ⊢
      obtain heq | ⟨rfl, hn⟩ := hnext w
      · exact h.other w u (heq ▸ hu) hin
      · exact absurd hu (next_not_prioAttr hn (hheld.shape w) u)
    · rw [hm] at hl ⊢
      exact h.locker w hl
    · rw [hm] at hexited ⊢
      obtain heq | ⟨rfl, hn⟩ := hnext w
      · exact h.reborn w (heq ▸ hw) hexited
      · exact absurd hw (next_not_gone hn (hheld.shape w))
  · exact Before.priorities_after ⟨hr, hp, hp', fun w hw => hs.ctl_other hw, hheld, hh, h, hc⟩

/-! ### Every run -/

/-- Every thread is in the user's code, or has not begun or has ended. -/
def Quiet (s : LifeState θ τ ι) : Prop :=
  ∀ w, (s.ctl w).point = .idle ∨ (s.ctl w).point = .unborn ∨ (s.ctl w).point = .gone

omit [DecidableEq θ] [DecidableEq τ] [DecidableEq ι] in
theorem Initial.priorities (h : Initial s) : Priorities s := by
  have hfree : ∀ w, s.mem.locker ≠ some w := by
    intro w
    rw [h.free]
    exact nofun
  refine ⟨fun u hin => .inl (h.priority u hin), fun _ _ w _ hl => absurd hl (hfree w), fun _ _ w _ hl => absurd hl (hfree w),
    fun w ha => ?_, fun w u hu => ?_, fun w hl => absurd hl (hfree w), fun w _ _ => hfree w⟩
  · obtain hp | hp := h.point w <;> rw [hp] at ha <;> cases ha
  · obtain hp | hp := h.point w <;> rw [hp] at hu <;> cases hu

end

/-! ### A task that restarts itself -/

/-- Thread 1 restarts its task, and `self_starter` creates thread 2 for it. -/
def restartsItself : List (Fin 3 × Input (Choice (Fin 3) (Fin 2))) :=
  does 1 .none :: does 1 (.call (.taskRestart 0)) :: goesOn 1 13 ++
    [does 0 (.starter 2), does 0 .none, does 0 (.thread 2), does 2 .none]

end V2lin.Lifecycle
