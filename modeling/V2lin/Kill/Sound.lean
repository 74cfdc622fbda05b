import V2lin.Kill.Steps

/-! What the task library relies on, inside the larger program.

`taskRestart` holds the scheduler lock like the functions of the task library, and the
waits change nothing that the library relies on: it is `Sound` in every reachable state. -/
namespace V2lin.Kill
open Threads V2lin.Task V2lin.TaskLib

section
variable {θ ι κ : Type}

/-! ### The scheduler lock -/

/-- The levels of the scheduler lock that the program has taken at a point. -/
def locks : Pc θ ι κ → ℕ
  | .task p => TaskLib.locks p
  | .restartFind _ | .restartUnlink _ _ | .restartCancel _ | .restartJoin _ | .restartCreate _ | .restartUnlock => 1
  | .restartSelf _ => 1
  | _ => 0

theorem locks_leave (p : Pc θ ι κ) : TaskLib.locks p.leave ≤ locks p := by
  cases p <;> first | exact Nat.le_refl _ | exact Nat.zero_le _

variable [DecidableEq θ] [DecidableEq ι] [DecidableEq κ] {ids : AddressIds θ} {t u w : θ} {p p' : Pc θ ι κ}
  {m m' : Mem θ ι κ}

/-- What follows a point of the task library is one. -/
theorem task_next {p : TaskLib.Pc θ} (h : (code (ι := ι) (κ := κ) ids t (.task p)).Next p') :
    ∃ q, p' = .task q ∧ (TaskLib.code (ι := ι) ids t p).Next q := by
  have h : (taskInstr (ι := ι) (κ := κ) ids t p).Next p' := h
  unfold taskInstr at h
  split at h
  · exact False.elim h
  · split at h
    · exact False.elim h
    · exact Instr.embed_next h

/-- Outside the task library a thread that goes on stays there, or it was killed. -/
theorem outside_next (h : (code (ι := ι) (κ := κ) ids t p).Next p') (hout : ∀ q, p ≠ .task q) :
    (p'.leave = .idle ∨ p'.leave = .dying) ∧ locks p' = 0 := by
  cases p
  case task q => exact absurd rfl (hout q)
  all_goals first
    | exact False.elim h
    | (cases h; exact ⟨.inl rfl, rfl⟩)
    | (cases h; exact ⟨.inr rfl, rfl⟩)
    | (obtain ⟨r, rfl⟩ := h; exact ⟨.inl rfl, rfl⟩)

theorem next_locks (h : (code (ι := ι) (κ := κ) ids t p).Next p') : locks p' ≤ locks p := by
  by_cases hin : ∃ q, p = .task q
  · obtain ⟨q, rfl⟩ := hin
    obtain ⟨q', rfl, hnext⟩ := task_next h
    exact Nat.le_of_eq (TaskLib.next_locks hnext)
  · rw [(outside_next h fun q he => hin ⟨q, he⟩).2]
    exact Nat.zero_le _

omit [DecidableEq ι] [DecidableEq κ] in
theorem Goes.locks (h : Goes t m p p') : Kill.locks p' ≤ Kill.locks p := by
  cases h <;> first | exact Nat.le_refl _ | exact Nat.zero_le _

omit [DecidableEq θ] [DecidableEq ι] [DecidableEq κ] in
theorem KillPoint.locks (h : KillPoint p p') : Kill.locks p' = 0 := by
  cases h <;> rfl

omit [DecidableEq ι] [DecidableEq κ] in
theorem LinkPoint.locks {L : WaitList θ ι κ} {self : Option θ} (h : LinkPoint t m p L self p') : Kill.locks p' = 0 := by
  cases h <;> rfl

omit [DecidableEq θ] [DecidableEq ι] [DecidableEq κ] in
theorem UnlinkPoint.locks {L : WaitList θ ι κ} {self : Option θ} (h : UnlinkPoint p L self p') : Kill.locks p' = 0 := by
  cases h <;> rfl

/-- Outside the task library only the scheduler lock, the `waiting` pointers and the lists
of the semaphores change. -/
structure Similar (m m' : TaskLib.Mem θ ι) : Prop where
  list : m'.taskList = m.taskList
  block : m'.block = m.block
  tcb : ∀ u, ∃ w, m'.tcb u = {m.tcb u with waiting := w}

omit [DecidableEq θ] [DecidableEq ι] in
theorem Similar.of_eq {m m' : TaskLib.Mem θ ι} (hlist : m'.taskList = m.taskList) (hblock : m'.block = m.block)
    (htcb : m'.tcb = m.tcb) : Similar m m' :=
  ⟨hlist, hblock, fun _ => ⟨_, by rw [htcb]⟩⟩

omit [DecidableEq ι] [DecidableEq κ] in
theorem Mem.setWaiting_similar (m : Mem θ ι κ) (self : Option θ) (id : Option ι) :
    Similar m.task (m.setWaiting self id).task := by
  cases self with
  | none => exact .of_eq rfl rfl rfl
  | some v =>
    refine ⟨rfl, rfl, fun u => ?_⟩
    by_cases hu : u = v
    · exact ⟨id, by rw [hu]; exact Mem.setTcb_self ..⟩
    · exact ⟨_, Mem.setTcb_of_ne _ _ hu⟩

omit [DecidableEq ι] [DecidableEq κ] in
@[simp] theorem Mem.setWaiting_sched (m : Mem θ ι κ) (self : Option θ) (id : Option ι) :
    (m.setWaiting self id).task.sched = m.task.sched := by
  cases self <;> rfl

theorem Mem.setList_similar (m : Mem θ ι κ) {L : WaitList θ ι κ} (l : List θ) (hL : ∀ u, L ≠ .deleters u) :
    Similar m.task (m.setList L l).task := by
  cases L with
  | deleters u => exact absurd rfl (hL u)
  | _ => exact .of_eq rfl rfl rfl

@[simp] theorem Mem.setList_sched (m : Mem θ ι κ) (L : WaitList θ ι κ) (l : List θ) :
    (m.setList L l).task.sched = m.task.sched := by
  cases L <;> rfl

/-- A block is one of the task library's, or it is similar from outside. -/
theorem Runs.view_cases (h : Runs ids t p m m' p') :
    (∃ q q', p = .task q ∧ p' = .task q' ∧ TaskLib.Runs ids t q m.task m'.task q') ∨
      Similar m.task m'.task ∧ (p'.leave = .idle ∨ p'.leave = .dying) ∧ p ≠ .task .unborn := by
  cases h with
  | task hr => exact .inl ⟨_, _, rfl, rfl, hr⟩
  | reads hg => exact .inr ⟨.of_eq rfl rfl rfl, by cases hg <;> exact .inl rfl, by rintro rfl; cases hg⟩
  | killed hk =>
    exact .inr ⟨.of_eq rfl rfl rfl, by cases hk <;> first | exact .inl rfl | exact .inr rfl, by rintro rfl; cases hk⟩
  | reborn => exact .inr ⟨.of_eq rfl rfl rfl, .inl rfl, nofun⟩
  | owned => exact .inr ⟨m.setWaiting_similar _ _, .inl rfl, nofun⟩
  | found => exact .inr ⟨m.setWaiting_similar _ _, .inl rfl, nofun⟩
  | cleared => exact .inr ⟨m.setWaiting_similar _ _, .inl rfl, nofun⟩
  | linked hl =>
    exact .inr ⟨m.setList_similar _ (by cases hl <;> exact nofun), by cases hl <;> exact .inl rfl, by rintro rfl; cases hl⟩
  | unlinked hu =>
    exact .inr ⟨m.setList_similar _ (by cases hu <;> exact nofun), by cases hu <;> exact .inl rfl, by rintro rfl; cases hu⟩
  | restartLocked => exact .inr ⟨.of_eq rfl rfl rfl, .inl rfl, nofun⟩
  | restartUnlinked self u =>
    refine .inr ⟨.of_eq ?_ ?_ ?_, ?_, nofun⟩
    · exact Mem.unlinkWaiting_taskList _ u
    · exact Mem.unlinkWaiting_block _ u
    · exact Mem.unlinkWaiting_tcb _ u
    · split <;> exact .inl rfl
  | restartCancels => exact .inr ⟨.of_eq rfl rfl rfl, .inl rfl, nofun⟩
  | restartCreated => exact .inr ⟨.of_eq rfl rfl rfl, .inl rfl, nofun⟩
  | restartUnlocked => exact .inr ⟨.of_eq rfl rfl rfl, .inl rfl, nofun⟩
  | restartedSelf => exact .inr ⟨.of_eq rfl rfl rfl, .inr rfl, nofun⟩
  | starterCalled => exact .inr ⟨.of_eq rfl rfl rfl, .inl rfl, nofun⟩
  | starterCreated => exact .inr ⟨.of_eq rfl rfl rfl, .inl rfl, nofun⟩

theorem Runs.counts (h : Runs ids t p m m' p') : m.task.sched.Counts t (locks p) m'.task.sched (locks p') := by
  cases h with
  | task hr => exact hr.counts
  | reads hg => exact .keep hg.locks
  | killed hk => exact .keep (by rw [hk.locks]; exact Nat.zero_le _)
  | reborn => exact .keep (Nat.le_refl _)
  | owned =>
    rw [Mem.setWaiting_sched]
    exact .keep (Nat.le_refl _)
  | found =>
    rw [Mem.setWaiting_sched]
    exact .keep (Nat.le_refl _)
  | cleared =>
    rw [Mem.setWaiting_sched]
    exact .keep (Nat.le_refl _)
  | linked hl =>
    rw [Mem.setList_sched]
    exact .keep (by rw [hl.locks]; exact Nat.zero_le _)
  | unlinked hu =>
    rw [Mem.setList_sched]
    exact .keep (by rw [hu.locks]; exact Nat.zero_le _)
  | restartLocked _ hk => exact .lock hk (Nat.le_refl _)
  | restartUnlinked self u =>
    have hk : (m.setTask (m.task.unlinkWaiting u)).task.sched = m.task.sched := Mem.unlinkWaiting_sched _ u
    rw [hk]
    refine .keep ?_
    split <;> exact Nat.le_refl _
  | restartCancels => exact .keep (Nat.le_refl _)
  | restartCreated => exact .keep (Nat.le_refl _)
  | restartUnlocked => exact .unlock rfl
  | restartedSelf => exact .keep (Nat.zero_le _)
  | starterCalled => exact .keep (Nat.le_refl _)
  | starterCreated => exact .keep (Nat.le_refl _)

/-- The locker has locked the scheduler as often as its point says, at least. -/
def Held (k : SchedLock θ) (ctl : θ → Ctl (Pc θ ι κ)) : Prop :=
  ∀ t, 0 < locks (ctl t).point → k.locker = some t ∧ locks (ctl t).point ≤ k.taskLockLevel

variable {s s' : KillState θ ι κ} {tr : List (KillTransition θ ι κ)}

theorem held_step (h : Held s.mem.task.sched s.ctl) (hs : Step (code ids) t s s') :
    Held s'.mem.task.sched s'.ctl := by
  intro u hu
  by_cases hut : u = t
  · subst hut
    obtain ⟨hm, heq | hnext⟩ | ⟨p, p', hp, hp', hr⟩ := step_cases hs
    · rw [heq] at hu ⊢
      exact hm ▸ h u hu
    · have hle := next_locks hnext
      obtain ⟨hlocker, hlevel⟩ := h u (by omega)
      exact hm ▸ ⟨hlocker, by omega⟩
    · have hold := h u
      rw [hp, Ctl.point_awake] at hold
      rw [hp', Ctl.point_awake] at hu ⊢
      exact hr.counts.held hold hu
  · have hold := h u
    rw [hs.ctl_other hut] at hu ⊢
    obtain ⟨hm, _⟩ | ⟨p, p', _, _, hr⟩ := step_cases hs
    · rw [hm]
      exact hold hu
    · rw [hr.counts.other (hold hu).1 hut]
      exact hold hu

omit [DecidableEq θ] [DecidableEq ι] [DecidableEq κ] in
theorem view_point (s : KillState θ ι κ) (t : θ) : ((s.view part).ctl t).point = (s.ctl t).point.leave :=
  Ctl.map_point ..

omit [DecidableEq ι] [DecidableEq κ] in
theorem Initial.point (h : Initial ids s) (t : θ) :
    (s.ctl t).point = .task .idle ∨ (s.ctl t).point = .task .unborn := by
  obtain ⟨p, hp⟩ := h.inside t
  have hpoint := h.task.point t
  rw [view_point, hp] at hpoint
  rw [hp]
  exact hpoint.imp (congrArg Pc.task) (congrArg Pc.task)

theorem held (h : Run (code ids) (Initial ids) tr s) : Held s.mem.task.sched s.ctl := by
  refine h.invariant (fun _ => True) (fun s => Held s.mem.task.sched s.ctl) ?_ ?_ fun _ _ => trivial
  · intro s hs t ht
    obtain hp | hp := hs.point t <;> rw [hp] at ht <;> exact absurd ht (Nat.lt_irrefl 0)
  · exact fun _ _ _ hh hs _ => held_step hh hs

omit [DecidableEq θ] [DecidableEq ι] [DecidableEq κ] in
theorem Held.unique {k : SchedLock θ} {ctl : θ → Ctl (Pc θ ι κ)} (h : Held k ctl) (ht : 0 < locks (ctl t).point)
    (hu : 0 < locks (ctl u).point) : t = u :=
  Option.some.inj ((h t ht).1.symm.trans (h u hu).1)

omit [DecidableEq θ] [DecidableEq ι] [DecidableEq κ] in
/-- The task library sees the same lock. -/
theorem Held.view (h : Held s.mem.task.sched s.ctl) : TaskLib.Held (s.view part).mem.sched (s.view part).ctl := by
  intro t ht
  have hle := locks_leave (s.ctl t).point
  rw [view_point] at ht ⊢
  obtain ⟨hlocker, hlevel⟩ := h t (Nat.lt_of_lt_of_le ht hle)
  exact ⟨hlocker, Nat.le_trans hle hlevel⟩

/-! ### The task library -/

section
variable {n n' : TaskLib.Mem θ ι}

omit [DecidableEq ι] in
theorem Similar.taskFor (h : Similar n n') (tid : ℤ) : n'.taskFor t tid = n.taskFor t tid := by
  have hid : ∀ u, (n'.tcb u).taskid = (n.tcb u).taskid := fun u => by
    obtain ⟨w, hw⟩ := h.tcb u
    rw [hw]
  have hstarted : (n'.tcb t).started = (n.tcb t).started := by
    obtain ⟨w, hw⟩ := h.tcb t
    rw [hw]
  unfold TaskLib.Mem.taskFor TaskLib.Mem.myTask
  rw [h.list, hstarted]
  simp only [hid]

omit [DecidableEq θ] [DecidableEq ι] in
/-- Whatever does not read the `waiting` pointers stays true. -/
theorem Similar.tcb_congr (h : Similar n n') {α : Type} (f : Tcb θ ι → α) (hf : ∀ b w, f {b with waiting := w} = f b)
    (u : θ) : f (n'.tcb u) = f (n.tcb u) := by
  obtain ⟨w, hw⟩ := h.tcb u
  rw [hw, hf]

omit [DecidableEq θ] [DecidableEq ι] in
theorem Similar.registry (h : Similar n n') (hreg : Registry ids n) : Registry ids n' where
  nodup := by
    rw [h.list]
    exact hreg.nodup
  live u := by
    rw [h.list, h.block]
    exact hreg.live u
  started u := by
    rw [h.tcb_congr Tcb.started fun _ _ => rfl, h.tcb_congr Tcb.taskid fun _ _ => rfl, h.block]
    exact hreg.started u
  quiet u := by
    rw [h.tcb_congr Tcb.started fun _ _ => rfl, h.tcb_congr Tcb.deleteSafeCount fun _ _ => rfl]
    exact hreg.quiet u
  inOrder := by
    simp only [h.list, h.tcb_congr Tcb.started fun _ _ => rfl, h.tcb_congr Tcb.taskid fun _ _ => rfl]
    exact hreg.inOrder

omit [DecidableEq θ] [DecidableEq ι] in
theorem Similar.ok (h : Similar n n') {q : TaskLib.Pc θ} (hok : Ok ids n t q) : Ok ids n' t q := by
  obtain ⟨hborn, hspawns, hallocated, hunnamed, hchosen, hown, hself⟩ := hok
  refine ⟨?_, ?_, ?_, ?_, hchosen, ?_, ?_⟩ <;>
    simp only [h.block, h.tcb_congr Tcb.started fun _ _ => rfl, h.tcb_congr Tcb.taskid fun _ _ => rfl] <;> assumption

omit [DecidableEq ι] in
theorem Similar.knows (h : Similar n n') {st : Stage θ} (hk : st.Knows n t) : st.Knows n' t := by
  have hcount := h.tcb_congr Tcb.deleteSafeCount fun _ _ => rfl
  have hstarted := h.tcb_congr Tcb.started fun _ _ => rfl
  have hsusp := h.tcb_congr Tcb.firstSusp fun _ _ => rfl
  cases st <;> simp only [Stage.Knows, Names, Target, h.block, hcount, hstarted, hsusp, h.taskFor] at hk ⊢ <;> exact hk

omit [DecidableEq ι] in
/-- A thread that is born may go on to the user's code or die. -/
theorem Similar.sound (h : Similar n n') {ctl ctl' : θ → Ctl (TaskLib.Pc θ)} (hsound : TaskLib.Sound ids n ctl)
    (hother : ∀ u, u ≠ t → (ctl' u).point = (ctl u).point)
    (hself : (ctl' t).point = (ctl t).point ∨
      ((ctl' t).point = .idle ∨ (ctl' t).point = .dying) ∧ (ctl t).point ≠ .unborn) : TaskLib.Sound ids n' ctl' := by
  have hpoint : ∀ u, (ctl' u).point = (ctl u).point ∨
      ((ctl' u).point = .idle ∨ (ctl' u).point = .dying) ∧ (ctl u).point ≠ .unborn := by
    intro u
    by_cases hu : u = t
    · rw [hu]
      exact hself
    · exact .inl (hother u hu)
  have hspawns : ∀ u x, spawns (ctl' u).point = some x → spawns (ctl u).point = some x := by
    intro u x hx
    obtain heq | ⟨heq | heq, _⟩ := hpoint u <;> rw [heq] at hx
    · exact hx
    · cases hx
    · cases hx
  refine ⟨h.registry hsound.registry, fun u => ?_, fun u v x hu hv => ?_, fun u => ?_⟩
  · obtain heq | ⟨heq, hborn⟩ := hpoint u
    · rw [heq]
      exact h.ok (hsound.ok u)
    · have hok := h.ok (hsound.ok u)
      obtain heq | heq := heq <;> rw [heq] <;>
        exact ⟨fun _ => hok.born hborn, nofun, nofun, nofun, nofun, nofun, nofun⟩
  · exact hsound.unique u v x (hspawns u x hu) (hspawns v x hv)
  · obtain heq | ⟨heq | heq, _⟩ := hpoint u <;> rw [heq]
    · exact h.knows (hsound.knows u)
    · trivial
    · trivial

end

/-- The task library, as it runs in this program, is sound. -/
def Sound (ids : AddressIds θ) (s : KillState θ ι κ) : Prop := TaskLib.Sound ids (s.view part).mem (s.view part).ctl

/-- A call of the task library by the user's code is a step of the library. -/
theorem user_step (hs : Step (code ids) t s s') (hp : s.ctl t = .awake (.task .idle)) :
    Step (TaskLib.code ids) t (s.view part) (s'.view part) ∨
      s'.mem.task = s.mem.task ∧ (s'.ctl t).point.leave = .idle := by
  have hd : Instr.Does t (.task .idle) s s' (.run (userBlock t)) := hs.does hp
  obtain ⟨c, m', p', hb, rfl⟩ := hd
  have hpoint : (Function.update s.ctl t (.awake p') t).point = p' := by rw [Function.update_self, Ctl.point_awake]
  cases c with
  | task c =>
    simp only [userBlock, Option.map_eq_some_iff] at hb
    obtain ⟨⟨n, q⟩, hb, heq⟩ := hb
    cases heq
    have hview : (s.view part).ctl t = .awake .idle := congrArg (Ctl.map Pc.leave) hp
    have hstep : Step (TaskLib.code ids) t (s.view part) _ := Step.run hview rfl hb
    left
    convert hstep using 1
    simp only [State.view, map_update]
    rfl
  | semTake => cases hb; exact .inr ⟨rfl, by rw [hpoint]; rfl⟩
  | msgQReceive => cases hb; exact .inr ⟨rfl, by rw [hpoint]; rfl⟩
  | msgQSend => cases hb; exact .inr ⟨rfl, by rw [hpoint]; rfl⟩
  | taskRestart => cases hb; exact .inr ⟨rfl, by rw [hpoint]; rfl⟩
  | selfStarter =>
    simp only [userBlock] at hb
    split at hb
    · cases hb
      exact .inr ⟨rfl, by rw [hpoint]; rfl⟩
    · cases hb
  | _ => cases hb

theorem sound_step (h : Sound ids s) (hheld : Held s.mem.task.sched s.ctl) (hs : Step (code ids) t s s') :
    Sound ids s' := by
  have hother : ∀ u, u ≠ t → ((s'.view part).ctl u).point = ((s.view part).ctl u).point := by
    intro u hu
    rw [view_point, view_point, hs.ctl_other hu]
  have hsame : s'.mem.task = s.mem.task → Similar (s.view part).mem (s'.view part).mem := by
    intro hm
    exact .of_eq (congrArg TaskLib.Mem.taskList hm) (congrArg TaskLib.Mem.block hm) (congrArg TaskLib.Mem.tcb hm)
  by_cases hin : ∃ p, (s.ctl t).point = .task p ∧ p ≠ .idle ∧ p ≠ .dead
  · obtain ⟨p, hp, hidle, hdead⟩ := hin
    exact TaskLib.sound_step h hheld.view (hs.view part hp (taskInstr_of_ne hidle hdead))
  · obtain ⟨hm, heq | hnext⟩ | ⟨p, p', hp, hp', hr⟩ := step_cases hs
    · exact (hsame (congrArg Mem.task hm)).sound h hother (.inl (by rw [view_point, view_point, heq]))
    · have hout : ∀ q, (s.ctl t).point ≠ .task q := by
        intro q hq
        rw [hq] at hnext
        by_cases hidle : q = .idle
        · exact (hidle ▸ hnext : Instr.Next _ (code ids t (.task .idle)))
        · refine hin ⟨q, hq, hidle, ?_⟩
          rintro rfl
          exact hnext
      refine (hsame (congrArg Mem.task hm)).sound h hother (.inr ⟨?_, ?_⟩)
      · rw [view_point]
        exact (outside_next hnext hout).1
      · rw [view_point]
        cases hq : (s.ctl t).point
        case task q => exact absurd hq (hout q)
        all_goals exact nofun
    · by_cases hidle : p = .task .idle
      · subst hidle
        obtain hstep | ⟨hm, hleave⟩ := user_step hs hp
        · exact TaskLib.sound_step h hheld.view hstep
        · refine (hsame hm).sound h hother (.inl ?_)
          rw [view_point, view_point, hleave, hp]
          rfl
      · obtain ⟨q, q', rfl, rfl, hrun⟩ | ⟨hsim, hleave, hborn⟩ := hr.view_cases
        · refine absurd ⟨q, by rw [hp]; rfl, fun he => hidle (by rw [he]), ?_⟩ hin
          rintro rfl
          exact hrun.not_dead rfl
        · refine Similar.sound hsim h hother (.inr ⟨by rw [view_point, hp']; exact hleave, ?_⟩)
          rw [view_point, hp, Ctl.point_awake]
          intro hu
          cases p
          case task q => exact hborn (congrArg Pc.task hu)
          all_goals cases hu

theorem sound (h : Run (code ids) (Initial ids) tr s) : Sound ids s := by
  induction h with
  | start hs => exact hs.task.sound
  | step hr hs ih => exact sound_step ih (held hr) hs

end

end V2lin.Kill
