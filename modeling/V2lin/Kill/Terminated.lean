import V2lin.Kill.Pended

/-! Tasks whose thread has been terminated by `taskDelete` or `taskRestart`.

`task_delete` takes a dead task off the list of the semaphore that its `waiting` pointer
names, and `taskRestart` does so before it cancels the task. A task that is killed while it
waits for a queue or for another task's protection has no such pointer: it stays listed. -/
namespace V2lin.Kill
open Threads V2lin.Task V2lin.TaskLib

section
variable {θ ι κ : Type}

/-! ### The promise -/

/-- The step with which a deletion or a restart has done with the thread of `u`. -/
def Terminates (u : θ) (x : KillTransition θ ι κ) : Prop :=
  (∃ cause, x.pre.ctl x.thread = .awake (.task (.forceRemove cause u))) ∨ x.pre.ctl x.thread = .awake (.restartCreate u)

/-- A task whose thread has been terminated is on no list, and no signal is for it, until a
new thread runs. -/
def Cleared (tr : List (KillTransition θ ι κ)) (s : KillState θ ι κ) : Prop :=
  ∀ u later x before, tr = later ++ x :: before → Terminates u x → (∀ y ∈ later, y.thread ≠ u) → ∀ L,
    u ∉ s.mem.waitList L ∧ ∀ pendOrder prio, signalledTask (s.mem.waitList L) pendOrder prio ≠ some u

/-- A thread that dies is on the list of no queue and of no task, and if it is on that of a
semaphore, then nobody restarts it; `self_starter` creates its thread in time. -/
structure Careful (x : KillTransition θ ι κ) : Prop where
  queues : Dies x → ∀ q, x.thread ∉ x.pre.mem.firstSusp q ∧ x.thread ∉ x.pre.mem.firstWriteSusp q
  tasks : Dies x → ∀ t, x.thread ∉ (x.pre.mem.task.tcb t).firstSusp
  sems : Dies x → ∀ id, x.thread ∈ x.pre.mem.task.semSusp id → ∀ w, restarts (x.pre.ctl w).point ≠ some x.thread
  starts : StartsInTime x

variable [DecidableEq θ] [DecidableEq ι] [DecidableEq κ] {ids : AddressIds θ} {t u v w : θ} {p p' : Pc θ ι κ}
  {m m' : Mem θ ι κ} {s s' : KillState θ ι κ} {tr : List (KillTransition θ ι κ)}

/-! ### The lists of every reachable state -/

/-- A task on the list of a semaphore waits for it, and its thread is there or is gone; a
thread that is gone is on no other list, and there only if nobody restarts it. -/
structure Listed (m : Mem θ ι κ) (ctl : θ → Ctl (Pc θ ι κ)) : Prop where
  nodup : ∀ id, (m.task.semSusp id).Nodup
  waiting : ∀ id u, u ∈ m.task.semSusp id → (m.task.tcb u).waiting = some id ∧ (m.task.tcb u).started = true
  place : ∀ id u, u ∈ m.task.semSusp id →
    waitsFor (ctl u).point = some id ∧ ourTask (ctl u).point = some u ∨ gone (ctl u).point = true
  own : ∀ t v, ourTask (ctl t).point = some v → v = t ∧ (m.task.tcb t).started = true
  link : ∀ t id v, (ctl t).point = .takeLink id (some v) → (m.task.tcb v).waiting = some id
  dead : ∀ u, m.task.dead u = true → (ctl u).point = .task .dead ∧ m.reborn u = false
  reborn : ∀ u, m.reborn u = true → (ctl u).point = .task .dead ∧ ∀ id, u ∉ m.task.semSusp id
  joined : ∀ w u, joined (ctl w).point = some u → m.task.dead u = true
  cancelled : ∀ u, m.task.cancelled u = true →
    (ctl u).point = .task .dead ∧ m.reborn u = false ∨ ∃ w, joining (ctl w).point = some u
  removed : ∀ u, gone (ctl u).point = true → ∀ id, u ∈ m.task.semSusp id → ∃ w, removing (ctl w).point = some u
  clean : ∀ u, gone (ctl u).point = true → ∀ L, u ∈ m.waitList L →
    (∃ id, L = .sem id) ∧ ∀ w, restarts (ctl w).point ≠ some u

omit [DecidableEq θ] [DecidableEq ι] [DecidableEq κ] in
theorem Listed.pended {m : Mem θ ι κ} {ctl : θ → Ctl (Pc θ ι κ)} (h : Listed m ctl) : Pended m ctl :=
  ⟨h.nodup, h.waiting, h.place, h.own, h.link, h.dead, h.reborn, h.joined, h.cancelled,
    fun u hg id hin => (h.clean u hg (.sem id) hin).2, h.removed⟩

omit [DecidableEq θ] [DecidableEq ι] [DecidableEq κ] in
theorem Pended.listed {m : Mem θ ι κ} {ctl : θ → Ctl (Pc θ ι κ)} (h : Pended m ctl)
    (hothers : ∀ u, gone (ctl u).point = true → ∀ L, u ∈ m.waitList L → ∃ id, L = .sem id) : Listed m ctl := by
  refine ⟨h.nodup, h.waiting, h.place, h.own, h.link, h.dead, h.reborn, h.joined, h.cancelled, h.removed,
    fun u hg L hin => ?_⟩
  obtain ⟨id, rfl⟩ := hothers u hg L hin
  exact ⟨⟨id, rfl⟩, h.clean u hg id hin⟩

omit [DecidableEq ι] [DecidableEq κ] in
theorem Initial.listed (h : Initial ids s) : Listed s.mem s.ctl := by
  refine h.pended.listed fun u hg => ?_
  obtain hp | hp := h.point u <;> rw [hp] at hg <;> cases hg

/-! ### One step -/

/-- A thread that is gone is on the lists of semaphores only. -/
theorem Listed.step_others (h : Listed s.mem s.ctl) (hsound : Sound ids s) (hs : Step (code ids) t s s')
    (hcareful : Careful ⟨s, t, s'⟩) (hg : gone (s'.ctl u).point = true) {L : WaitList θ ι κ}
    (hin : u ∈ s'.mem.waitList L) : ∃ id, L = .sem id := by
  cases hgone : gone (s.ctl u).point with
  | true =>
    obtain hpre | ⟨rfl, hlink⟩ := h.pended.mem_waitList hsound hs hin
    · exact (h.clean u hgone L hpre).1
    · rw [(gone_apart hgone).2.2.1] at hlink
      cases hlink
  | false =>
    have hut : u = t := by
      by_contra hne
      rw [hs.ctl_other hne, hgone] at hg
      cases hg
    subst hut
    have hdies : Dies ⟨s, u, s'⟩ := ⟨hgone, hg⟩
    have hpre : u ∈ s.mem.waitList L := by
      obtain hpre | ⟨_, hlink⟩ := h.pended.mem_waitList hsound hs hin
      · exact hpre
      · exact absurd hg (by rw [link_stays hs hlink]; exact Bool.false_ne_true)
    cases L with
    | sem id => exact ⟨id, rfl⟩
    | receivers q => exact absurd hpre (hcareful.queues hdies q).1
    | writers q => exact absurd hpre (hcareful.queues hdies q).2
    | deleters v => exact absurd hpre (hcareful.tasks hdies v)

theorem listed_step (h : Listed s.mem s.ctl) (hsound : Sound ids s) (hheld : Held s.mem.task.sched s.ctl)
    (hs : Step (code ids) t s s') (hcareful : Careful ⟨s, t, s'⟩) : Listed s'.mem s'.ctl :=
  (pended_step h.pended hsound hheld hs hcareful.starts hcareful.sems).listed fun _ hg _ => h.step_others hsound hs hcareful hg

/-! ### Every run -/

theorem listed (h : Run (code ids) (Initial ids) tr s) (hcareful : ∀ x ∈ tr, Careful x) : Listed s.mem s.ctl := by
  induction h with
  | start hs => exact hs.listed
  | step hr hs ih =>
    refine listed_step (ih fun x hx => hcareful x (List.mem_cons_of_mem _ hx)) (sound hr) (held hr) hs ?_
    exact hcareful _ (List.mem_cons_self ..)

/-- The step that has done with a thread leaves its task on no list. -/
theorem Listed.terminated (h : Listed s.mem s.ctl) (hsound : Sound ids s) (hs : Step (code ids) t s s')
    (hterm : Terminates u ⟨s, t, s'⟩) (L : WaitList θ ι κ) : u ∉ s'.mem.waitList L := by
  intro hin
  have hjoined : Kill.joined (s.ctl t).point = some u := by
    obtain ⟨cause, hp⟩ | hp := hterm <;>
      · rw [show s.ctl t = _ from hp]
        rfl
  have hdead := (h.dead u (h.joined t u hjoined)).1
  have hpre : u ∈ s.mem.waitList L := by
    obtain hpre | ⟨_, hlink⟩ := h.pended.mem_waitList hsound hs hin
    · exact hpre
    · obtain ⟨cause, hp⟩ | hp := hterm <;>
      · rw [show s.ctl t = _ from hp] at hlink
        cases hlink
  obtain ⟨⟨id, rfl⟩, hno⟩ := h.clean u (by rw [hdead]; rfl) L hpre
  obtain ⟨cause, hp⟩ | hp := hterm
  · have hi : code ids t (.task (.forceRemove cause u)) = _ := taskInstr_of_ne (ι := ι) (κ := κ) nofun nofun
    obtain ⟨c, p', hb, _⟩ := hs.block hp hi
    have hm := (block_runs (c := c) hi hb).of_forceRemove
    rw [hm] at hin
    exact TaskLib.Mem.notMem_unlinkWaiting (h.nodup id) (h.waiting id u hpre).1 hin
  · refine hno t ?_
    rw [show s.ctl t = _ from hp]
    rfl

/-- Only its own thread puts a task on a list. -/
theorem stays_off {later before : List (KillTransition θ ι κ)} {x : KillTransition θ ι κ}
    (h : Run (code ids) (Initial ids) (later ++ x :: before) s) (hcareful : ∀ y ∈ later ++ x :: before, Careful y)
    (hoff : ∀ L, u ∉ x.post.mem.waitList L) (hother : ∀ y ∈ later, y.thread ≠ u) (L : WaitList θ ι κ) :
    u ∉ s.mem.waitList L := by
  induction later generalizing s with
  | nil =>
    cases h with
    | step hr hs => exact hoff L
  | cons y later ih =>
    cases h with
    | step hr hs =>
      have hcareful' : ∀ z ∈ later ++ x :: before, Careful z := fun z hz => hcareful z (List.mem_cons_of_mem _ hz)
      intro hin
      obtain hpre | ⟨rfl, _⟩ := (listed hr hcareful').pended.mem_waitList (sound hr) hs hin
      · exact ih hr hcareful' (fun z hz => hother z (List.mem_cons_of_mem _ hz)) hpre
      · exact hother _ (List.mem_cons_self ..) rfl

end

/-- Task 1 waits, task 0 deletes it. -/
def deleted (waits : List (Fin 3 × Input (Choice (Fin 3) Unit Unit))) : List (Fin 3 × Input (Choice (Fin 3) Unit Unit)) :=
  waits ++ does 0 (.task (.delete 65538)) :: goesOn 0 11 ++ goesOn 1 1 ++ does 1 (.task .kill) :: goesOn 1 3 ++ goesOn 0 2

/-- Task 2 restarts itself; the timer goes off in task 0. -/
def restartsItself : List (Fin 3 × Input (Choice (Fin 3) Unit Unit)) :=
  does 2 (.taskRestart 0) :: goesOn 2 6 ++ does 0 (.selfStarter 65539) :: goesOn 0 2 ++ goesOn 2 1

instance (x : KillTransition (Fin 3) Unit Unit) : Decidable (StartsInTime x) :=
  inferInstanceAs (Decidable (∀ u : Fin 3, (x.pre.ctl x.thread).point = .starterCreate u →
    u ∈ x.pre.mem.task.taskList ∧ x.pre.mem.task.dead u = true ∧
      ∀ w : Fin 3, joining (x.pre.ctl w).point ≠ some u ∧ joined (x.pre.ctl w).point ≠ some u))

instance (x : KillTransition (Fin 3) Unit Unit) : Decidable (Dies x) := inferInstanceAs (Decidable (_ ∧ _))

instance (x : KillTransition (Fin 3) Unit Unit) : Decidable (Careful x) :=
  decidable_of_iff
    ((Dies x → x.thread ∉ x.pre.mem.firstSusp () ∧ x.thread ∉ x.pre.mem.firstWriteSusp ()) ∧
      (Dies x → ∀ t, x.thread ∉ (x.pre.mem.task.tcb t).firstSusp) ∧
      (Dies x → x.thread ∈ x.pre.mem.task.semSusp () → ∀ w, restarts (x.pre.ctl w).point ≠ some x.thread) ∧
      StartsInTime x)
    ⟨fun h => ⟨fun hd _ => h.1 hd, h.2.1, fun hd _ => h.2.2.1 hd, h.2.2.2⟩,
      fun h => ⟨fun hd => h.queues hd (), h.tasks, fun hd => h.sems hd (), h.starts⟩⟩

end V2lin.Kill
