import V2lin.TaskLib.Protection

/-! The end of a task that has deleted itself.

`taskDelete(0)` returns, and so does the entry point in the end. `task_wrapper` then looks
for the identifier that the freed control block still holds. It finds nothing, unless the
identifier has been given to another task: then it is that one that is deleted. -/
namespace V2lin.TaskLib
open Threads V2lin.Task

section
variable {θ ι : Type}

/-- The lookup of the closing `taskDeleteForce`. -/
def closingLookup : Pc θ → Option ℤ
  | .forceFind .closing tid _ => some tid
  | _ => none

def Caller.closing : Caller θ → Bool
  | .force .closing _ _ => true
  | _ => false

/-- The closing `taskDeleteForce` has found a task and has not removed it yet. -/
def closes : Pc θ → Bool
  | .forceSplit .closing _ _ _ | .forceCancel .closing _ | .forceJoin .closing _ | .forceRemove .closing _ => true
  | .forceSelfRemove .closing _ => true
  | .notifyTest caller _ | .notifyDlock caller _ | .notifyTlock caller _ | .notifyBroadcast caller _ => caller.closing
  | .notifyTunlock caller _ | .notifyDrain caller _ | .notifyWait caller _ | .notifyWoken caller _ => caller.closing
  | .notifyDunlock caller _ => caller.closing
  | _ => false

/-- The task that the next step takes off the list. -/
def removes : Pc θ → Option θ
  | .forceRemove _ u | .forceSelfRemove _ u => some u
  | _ => none

variable [DecidableEq θ] {ids : AddressIds θ} {t u w : θ} {p p' : Pc θ} {m m' : Mem θ ι}

/-! ### Who is taken off the list -/

/-- A dead thread stays dead, the one that is removed by another is dead, and whoever is
removed by itself is the caller. -/
structure Removals (m : Mem θ ι) (ctl : θ → Ctl (Pc θ)) : Prop where
  dead : ∀ u, m.dead u = true → (ctl u).point = .dead
  joined : ∀ w cause u, (ctl w).point = .forceRemove cause u → m.dead u = true
  self : ∀ w cause u, (ctl w).point = .forceSelfRemove cause u → u = w

theorem Goes.removals (h : Goes w m p p') (hok : Ok ids m w p) :
    (∀ cause u, p' = .forceRemove cause u → m.dead u = true) ∧ ∀ cause u, p' = .forceSelfRemove cause u → u = w := by
  cases h with
  | joined cause hdead =>
    refine ⟨?_, nofun⟩
    rintro _ _ ⟨⟩
    exact hdead
  | self cause tid =>
    refine ⟨nofun, ?_⟩
    rintro _ _ ⟨⟩
    exact (hok.selfTask _ rfl).1
  | nobody caller => cases caller <;> exact ⟨nofun, nofun⟩
  | _ => exact ⟨nofun, nofun⟩

variable [DecidableEq ι] {s s' : TaskState θ ι} {tr : List (TaskTransition θ ι)}

theorem next_removals (h : (code (ι := ι) ids w p).Next p') : removes p' = none ∧ p ≠ .dead := by
  cases p
  case deleteTunlock tid self u deletable =>
    cases h
    cases deletable
    · simp only [Bool.false_eq_true, if_false]
      split <;> exact ⟨rfl, nofun⟩
    · exact ⟨rfl, nofun⟩
  case notifyDunlock caller u =>
    cases h
    cases caller <;> exact ⟨rfl, nofun⟩
  case notifyKilled caller u =>
    cases h
    cases caller
    · rename_i cause _ _
      cases cause <;> exact ⟨rfl, nofun⟩
    · exact ⟨rfl, nofun⟩
  all_goals first
    | exact False.elim h
    | (cases h; exact ⟨rfl, nofun⟩)
    | (obtain ⟨r, rfl⟩ := h; exact ⟨rfl, nofun⟩)

theorem Runs.removals (hr : Runs ids w p m m' p') (hok : Ok ids m w p) :
    (∀ cause u, p' = .forceRemove cause u → m'.dead u = true) ∧ ∀ cause u, p' = .forceSelfRemove cause u → u = w := by
  cases hr with
  | reads hg => exact hg.removals hok
  | locked hl => cases hl <;> exact ⟨nofun, nofun⟩
  | unlocked hu =>
    cases hu with
    | force cause => cases cause <;> exact ⟨nofun, nofun⟩
    | unsafely madeDeletable => cases madeDeletable <;> exact ⟨nofun, nofun⟩
    | _ => exact ⟨nofun, nofun⟩
  | cleaned hc => cases hc <;> exact ⟨nofun, nofun⟩
  | killed hk =>
    cases hk with
    | force cause => cases cause <;> exact ⟨nofun, nofun⟩
    | _ => exact ⟨nofun, nofun⟩
  | unlinked => split <;> exact ⟨nofun, nofun⟩
  | _ => exact ⟨nofun, nofun⟩

theorem removals_step (h : Removals s.mem s.ctl) (hok : Ok ids s.mem w (s.ctl w).point)
    (hs : Step (code ids) w s s') : Removals s'.mem s'.ctl := by
  have hother : ∀ u, u ≠ w → s'.ctl u = s.ctl u := fun u hu => hs.ctl_other hu
  obtain ⟨hm, _, hpoint⟩ | ⟨p, p', hp, hp', hr, _⟩ := step_cases hs
  · have hself : (s'.ctl w).point = (s.ctl w).point ∨ removes (s'.ctl w).point = none ∧ (s.ctl w).point ≠ .dead :=
      hpoint.imp (fun heq => heq) next_removals
    rw [hm] at *
    refine ⟨fun u hu => ?_, fun v cause u hv => ?_, fun v cause u hv => ?_⟩
    · by_cases huw : u = w
      · subst huw
        obtain heq | ⟨_, hne⟩ := hself
        · rw [heq]
          exact h.dead u hu
        · exact absurd (h.dead u hu) hne
      · rw [hother u huw]
        exact h.dead u hu
    all_goals by_cases hvw : v = w
    · subst hvw
      obtain heq | ⟨hnone, _⟩ := hself
      · exact h.joined v cause u (by rw [← heq, hv])
      · rw [hv] at hnone
        cases hnone
    · exact h.joined v cause u (by rw [← hother v hvw, hv])
    · subst hvw
      obtain heq | ⟨hnone, _⟩ := hself
      · exact h.self v cause u (by rw [← heq, hv])
      · rw [hv] at hnone
        cases hnone
    · exact h.self v cause u (by rw [← hother v hvw, hv])
  · rw [hp, Ctl.point_awake] at hok
    have hmono : ∀ u, s.mem.dead u = true → s'.mem.dead u = true := by
      intro u hu
      obtain heq | ⟨rfl, _, _⟩ := hr.dead_cases u
      · rw [heq, hu]
      · have hdead := h.dead u hu
        rw [hp] at hdead
        exact absurd hdead hr.not_dead
    refine ⟨fun u hu => ?_, fun v cause u hv => ?_, fun v cause u hv => ?_⟩
    · obtain heq | ⟨rfl, _, hdead⟩ := hr.dead_cases u
      · rw [heq] at hu
        by_cases huw : u = w
        · subst huw
          have hdead := h.dead u hu
          rw [hp] at hdead
          exact absurd hdead hr.not_dead
        · rw [hother u huw]
          exact h.dead u hu
      · rw [hp', hdead]
        rfl
    all_goals by_cases hvw : v = w
    · subst hvw
      rw [hp'] at hv
      exact (hr.removals hok).1 cause u hv
    · exact hmono u (h.joined v cause u (by rw [← hother v hvw, hv]))
    · subst hvw
      rw [hp'] at hv
      exact (hr.removals hok).2 cause u hv
    · exact h.self v cause u (by rw [← hother v hvw, hv])

theorem removals (h : Run (code ids) (Initial ids) tr s) : Removals s.mem s.ctl := by
  induction h with
  | start hs =>
    refine ⟨fun u hu => ?_, fun w cause u hw => ?_, fun w cause u hw => ?_⟩
    · rw [(hs.alive u).2] at hu
      cases hu
    all_goals obtain hp | hp := hs.point w <;> rw [hp] at hw <;> cases hw
  | step hr hs ih => exact removals_step ih ((sound hr).ok _) hs

/-- A task leaves the list when it is removed, or when there is no thread for it. -/
theorem Runs.listed (hr : Runs ids w p m m' p') (hreg : Registry ids m) (hu : u ∈ m.taskList) :
    u ∈ m'.taskList ∨ removes p = some u ∨ (m.tcb u).started = false := by
  have hdeleted : ∀ {v}, (v = u → removes p = some u ∨ (m.tcb u).started = false) →
      u ∈ (m.taskDelete v).taskList ∨ removes p = some u ∨ (m.tcb u).started = false := by
    intro v hv
    by_cases hvu : v = u
    · exact .inr (hv hvu)
    · rw [Mem.taskDelete_taskList, hreg.nodup.mem_erase_iff]
      exact .inl ⟨Ne.symm hvu, hu⟩
  cases hr with
  | registered n tid => exact .inl (List.mem_append_left _ hu)
  | noThread hfor hs => exact hdeleted fun he => .inr (by rw [← he, hs])
  | unlinked => exact .inl (by rwa [Mem.unlinkWaiting_taskList])
  | removed cause v => exact hdeleted fun he => .inl (by rw [← he]; rfl)
  | selfRemoved cause v => exact hdeleted fun he => .inl (by rw [← he]; rfl)
  | _ => exact .inl hu

/-! ### The closing deletion -/

omit [DecidableEq ι] in
theorem Goes.closes_cases (h : Goes w m p p') (hc : TaskLib.closes p' = true) :
    TaskLib.closes p = true ∨ ∃ tid u, closingLookup p = some tid ∧ m.taskFor w tid = some u := by
  cases h with
  | @forceFound tid u cause _ hu =>
    cases cause with
    | closing => exact .inr ⟨tid, u, rfl, hu⟩
    | _ => cases hc
  | self cause => cases cause <;> exact .inl hc
  | other cause => cases cause <;> exact .inl hc
  | joined cause => cases cause <;> exact .inl hc
  | nobody caller =>
    cases caller with
    | force cause => cases cause <;> exact .inl hc
    | unsafely => cases hc
  | _ => exact .inl hc

/-- The closing deletion goes on after its lookup, with the list as it is until it removes
what it has found. -/
theorem Runs.closes_cases (hr : Runs ids w p m m' p') (hc : closes p' = true) : m'.taskList = m.taskList ∧
    (closes p = true ∨ ∃ tid u, closingLookup p = some tid ∧ m.taskFor w tid = some u) := by
  cases hr with
  | reads hg => exact ⟨rfl, hg.closes_cases hc⟩
  | locked hl => cases hl <;> cases hc
  | unlocked hu =>
    cases hu with
    | force cause => cases cause <;> cases hc
    | unsafely madeDeletable => cases madeDeletable <;> cases hc
    | _ => cases hc
  | cleaned hclean => cases hclean <;> cases hc
  | killed hk =>
    cases hk with
    | force cause => cases cause <;> cases hc
    | _ => cases hc
  | unlinked => split at hc <;> cases hc
  | cancels cause => cases cause <;> exact ⟨rfl, .inl hc⟩
  | _ => cases hc

theorem next_closes (h : (code (ι := ι) ids w p).Next p') (hc : closes p' = true) : closes p = true := by
  cases p
  case deleteTunlock tid self u deletable =>
    cases h
    cases deletable
    · simp only [Bool.false_eq_true, if_false] at hc
      split at hc <;> cases hc
    · cases hc
  case notifyDunlock caller u =>
    cases h
    cases caller with
    | force cause => cases cause <;> exact hc
    | unsafely => cases hc
  case notifyKilled caller u =>
    cases h
    cases caller with
    | force cause => cases cause <;> cases hc
    | unsafely => cases hc
  all_goals first
    | exact False.elim h
    | (cases h; exact hc)
    | (obtain ⟨r, rfl⟩ := h; exact hc)

/-- The closing lookup of a thread that is off the list finds nothing. -/
def FindsNothing (x : TaskTransition θ ι) : Prop :=
  ∀ tid, closingLookup (x.pre.ctl x.thread).point = some tid → x.thread ∉ x.pre.mem.taskList →
    x.pre.mem.taskFor x.thread tid = none

theorem closes_listed (h : Run (code ids) (Initial ids) tr s) (hno : ∀ x ∈ tr, FindsNothing x)
    (hc : closes (s.ctl w).point = true) : w ∈ s.mem.taskList := by
  induction h generalizing w with
  | start hs => obtain hp | hp := hs.point w <;> rw [hp] at hc <;> cases hc
  | @step tr s t s' hr hs ih =>
    have hlookup : FindsNothing ⟨s, t, s'⟩ := hno _ (List.mem_cons_self ..)
    have ih := fun {w} => ih (w := w) fun x hx => hno x (List.mem_cons_of_mem _ hx)
    obtain ⟨hm, _, hpoint⟩ | ⟨p, p', hp, hp', hrun, _⟩ := step_cases hs
    · rw [hm]
      refine ih ?_
      by_cases hwt : w = t
      · subst hwt
        obtain heq | hnext := hpoint
        · rwa [heq] at hc
        · exact next_closes hnext hc
      · rwa [hs.ctl_other hwt] at hc
    · by_cases hwt : w = t
      · subst hwt
        rw [hp', Ctl.point_awake] at hc
        obtain ⟨hlist, hpre | ⟨tid, u, hfind, hu⟩⟩ := hrun.closes_cases hc
        · rw [hlist]
          exact ih (by rw [hp]; exact hpre)
        · rw [hlist]
          by_contra hin
          have hnone := hlookup tid (by rw [hp]; exact hfind) hin
          rw [hu] at hnone
          cases hnone
      · -- nobody else takes a running task off the list
        rw [hs.ctl_other hwt] at hc
        have hin := ih hc
        have hsound := sound hr
        have hgone := removals hr
        obtain hin' | hremoves | hunstarted := hrun.listed hsound.registry hin
        · exact hin'
        · cases p <;> cases hremoves
          · have hdead := hgone.dead w (hgone.joined t _ w (by rw [hp]; rfl))
            rw [hdead] at hc
            cases hc
          · exact absurd (hgone.self t _ w (by rw [hp]; rfl)) hwt
        · obtain hs | hb := (hsound.ok w).born (by intro he; rw [he] at hc; cases hc)
          · rw [hs] at hunstarted
            cases hunstarted
          · rw [hsound.registry.live, hb] at hin
            cases hin

/-- If no closing lookup of a thread whose task is off the list finds a task, its closing
`taskDeleteForce` cancels and removes none. -/
theorem closing_spares (h : Run (code ids) (Initial ids) tr s) (hno : ∀ x ∈ tr, FindsNothing x) :
    ∀ x ∈ tr, x.thread ∉ x.pre.mem.taskList → ∀ u, condemned (x.pre.ctl x.thread).point ≠ some (.closing, u) := by
  intro x hx hout u hu
  obtain ⟨later, before, rfl⟩ := List.append_of_mem hx
  refine hout (closes_listed h.before (fun z hz => hno z (by simp [hz])) ?_)
  generalize (x.pre.ctl x.thread).point = p at hu
  cases p <;> cases hu <;> rfl

end

/-- Task 0 spawns task 1, which deletes itself and returns from its entry point. -/
def spawnOnce : List (Fin 3 × Input (Choice (Fin 3))) :=
  does 0 (.spawn 1 true) :: goesOn 0 5 ++ goesOn 1 1 ++ does 1 (.delete 0) :: goesOn 1 14 ++ does 1 .ret :: goesOn 1 7

theorem spawnOnce_spares : ∃ (tr : List (TaskTransition (Fin 3) Unit)) (x : TaskTransition (Fin 3) Unit), x ∈ tr ∧
    closingLookup (x.pre.ctl 1).point = some 1 ∧ x.thread = 1 ∧ 1 ∉ x.pre.mem.taskList ∧
    ∀ x ∈ tr, x.thread ∉ x.pre.mem.taskList → ∀ u, condemned (x.pre.ctl x.thread).point ≠ some (.closing, u) := by
  obtain ⟨tr, s, hr, hs⟩ := run_of_check (code threeIds) spawnOnce
    (fun (tr : List (TaskTransition (Fin 3) Unit)) _ =>
      (∃ x ∈ tr, closingLookup (x.pre.ctl 1).point = some 1 ∧ x.thread = 1 ∧ 1 ∉ x.pre.mem.taskList) ∧
      ∀ x ∈ tr, (closingLookup (x.pre.ctl x.thread).point).all fun tid => x.pre.mem.taskFor x.thread tid = none)
    (boot_initial threeIds (l := [0]) (by decide)) (by decide)
  obtain ⟨⟨x, hx, hlookup⟩, hno⟩ := of_decide_eq_true hs
  refine ⟨tr, x, hx, hlookup.1, hlookup.2.1, hlookup.2.2, closing_spares hr fun z hz tid hfind _ => ?_⟩
  have hall := hno z hz
  rw [hfind] at hall
  exact of_decide_eq_true hall

/-- Task 0 spawns task 1, which gets the identifier 1, deletes itself and runs on. Task 0
spawns task 2, which gets the identifier 1 as well. The entry point of task 1 returns. -/
def spawnAgain : List (Fin 3 × Input (Choice (Fin 3))) :=
  does 0 (.spawn 1 true) :: goesOn 0 5 ++ goesOn 1 1 ++ does 1 (.delete 0) :: goesOn 1 14 ++
    does 0 (.spawn 2 true) :: goesOn 0 5 ++ goesOn 2 1 ++ does 1 .ret :: goesOn 1 8 ++ does 2 .kill :: goesOn 2 2 ++
    goesOn 1 4

/-- The wrapper of task 1 cancels and removes task 2. -/
theorem closing_deletes_successor : ∃ (tr : List (TaskTransition (Fin 3) Unit)) (s : TaskState (Fin 3) Unit),
    Run (code threeIds) (Initial threeIds) tr s ∧
      (∃ x ∈ tr, x.thread = 1 ∧ 1 ∉ x.pre.mem.taskList ∧ x.pre.ctl 1 = .awake (.forceCancel .closing 2)) ∧
      (∃ x ∈ tr, x.thread = 1 ∧ 1 ∉ x.pre.mem.taskList ∧ x.pre.ctl 1 = .awake (.forceRemove .closing 2)) ∧
      s.mem.cancelled 2 = true ∧ s.mem.taskList = [0] := by
  obtain ⟨tr, s, hr, hs⟩ := run_of_check (code threeIds) spawnAgain
    (fun (tr : List (TaskTransition (Fin 3) Unit)) s =>
      (∃ x ∈ tr, x.thread = 1 ∧ 1 ∉ x.pre.mem.taskList ∧ x.pre.ctl 1 = .awake (.forceCancel .closing 2)) ∧
      (∃ x ∈ tr, x.thread = 1 ∧ 1 ∉ x.pre.mem.taskList ∧ x.pre.ctl 1 = .awake (.forceRemove .closing 2)) ∧
      s.mem.cancelled 2 = true ∧ s.mem.taskList = [0])
    (boot_initial threeIds (l := [0]) (by decide)) (by decide)
  exact ⟨tr, s, hr, of_decide_eq_true hs⟩

end V2lin.TaskLib
