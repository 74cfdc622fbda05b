import V2lin.Lifecycle.Handles
import Mathlib.Data.Fin.Basic

/-! Which handles the library passes to the thread library.

`taskRestart`, `taskDeleteForce`, `taskPrioritySet` and `kernelTimeSlice` take the handle
from the control block that they find, whatever it is: null for a task that has not been
activated, and that of a thread that has detached itself for a task that restarts itself.
Where they find a task with a thread that can be joined, the handle is good, as long as
`pthread_create` does not give it to the thread of another task meanwhile. -/
namespace V2lin.Lifecycle
open Threads V2lin.Task V2lin.TaskLib

section
variable {θ τ ι : Type}

/-- A good handle of a task: it is that of a thread which has been created for the task and
has neither been joined nor, after it detached itself, exited. -/
def Valid (m : Mem θ τ ι) (u : τ) : Prop :=
  ∃ w, (m.tcb u).pthrid = some w ∧ (m.pthread w).task = some u ∧ (m.pthread w).joined = false ∧
    ¬ ((m.pthread w).detached = true ∧ (m.pthread w).exited = true)

/-- The task has a thread that can be joined. -/
def Live (m : Mem θ τ ι) (u : τ) : Prop :=
  ∃ w, (m.tcb u).pthrid = some w ∧ (m.pthread w).detached = false ∧ (m.pthread w).joined = false

/-- At the start some tasks are registered, each with the priority that is its own; threads
are in the user's code or have not been created; nobody has locked the scheduler. -/
structure Initial (s : LifeState θ τ ι) : Prop where
  resting : ∀ t, s.ctl t = .awake (if (s.mem.pthread t).born = true then .idle else .unborn)
  free : s.mem.locker = none
  level : s.mem.taskLockLevel = 0
  task : ∀ u w, (s.mem.tcb u).pthrid = some w → (s.mem.pthread w).task = some u ∧ (s.mem.pthread w).born = true
  dead : ∀ u, (s.mem.tcb u).dead = true → (s.mem.tcb u).pthrid = none
  threads : ∀ w, (s.mem.pthread w).exited = false ∧ (s.mem.pthread w).joined = false ∧ (s.mem.pthread w).detached = false
  priority : ∀ u ∈ s.mem.taskList, (s.mem.tcb u).attr.schedPriority = (s.mem.tcb u).prvPriority

variable {s s' : LifeState θ τ ι}

theorem Initial.point (h : Initial s) (t : θ) : (s.ctl t).point = .idle ∨ (s.ctl t).point = .unborn := by
  rw [h.resting t]
  split
  · exact .inl rfl
  · exact .inr rfl

theorem Initial.held (h : Initial s) : Held s := by
  refine ⟨⟨fun t => ?_, fun _ => h.level, by rw [h.level]; exact Nat.zero_le _, fun t ht => ?_⟩, fun t => ?_, fun t ht => ?_⟩
  · obtain hp | hp := h.point t <;> rw [hp] <;> trivial
  · obtain hp | hp := h.point t <;> rw [hp] at ht <;> cases ht
  · obtain hp | hp := h.point t <;> rw [hp] <;> trivial
  · obtain hp | hp := h.point t <;> rw [hp] at ht <;> cases ht

theorem Initial.handles (h : Initial s) : Handles s.mem s.ctl := by
  refine ⟨fun u _ => h.task u, h.dead, fun w hb => ?_, fun w he => ?_, fun w hj => ?_, fun w hd => ?_, fun w _ => ?_,
    fun w => ?_⟩
  · rw [h.resting w, if_neg (by rw [hb]; exact Bool.false_ne_true)]
  · rw [(h.threads w).1] at he
    cases he
  · rw [(h.threads w).2.1] at hj
    cases hj
  · rw [(h.threads w).2.2] at hd
    cases hd
  · exact .inr (h.threads w).2.2
  · obtain hp | hp := h.point w <;> rw [hp] <;> trivial

section
variable [DecidableEq θ] [DecidableEq τ]

/-- The task whose handle a thread is passing at its point. -/
def handleUsed (m : Mem θ τ ι) (t : θ) : Pc τ ι → Option τ
  | .forceCancel u _ | .forceJoin u _ | .restartCancel u | .restartJoin u => some u
  | .prioApply u | .sliceApply u _ => some u
  | .listEdit (.raise task) _ => task
  | .listEdit .restore _ => (m.myTask t).join
  | _ => none

/-- The task that an operation comes to, in order to use its handle. -/
def turnsTo (m : Mem θ τ ι) (t : θ) : Pc τ ι → Option τ
  | .forceFind tid _ _ | .restartFind tid | .prioFind tid _ => (m.taskFor t tid).join
  | .sliceTask task _ => task
  | _ => none

/-- The step does not come to a task without a thread that can be joined. -/
def FindsLive (x : LifeTransition θ τ ι) : Prop :=
  ∀ u, turnsTo x.pre.mem x.thread (x.pre.ctl x.thread).point = some u → Live x.pre.mem u

instance {n k : ℕ} (x : LifeTransition (Fin n) (Fin k) ι) : Decidable (FindsLive x) :=
  inferInstanceAs (Decidable (∀ u, turnsTo x.pre.mem x.thread (x.pre.ctl x.thread).point = some u →
    ∃ w, (x.pre.mem.tcb u).pthrid = some w ∧ (x.pre.mem.pthread w).detached = false ∧
      (x.pre.mem.pthread w).joined = false))

variable [DecidableEq ι] {ids : τ → ℤ} {t w : θ} {m m' : Mem θ τ ι} {p p' : Pc τ ι}

omit [DecidableEq ι] in
theorem Goes.willUse (hg : Goes t m p p') (hp : Shape p) {u : τ} (hw : willUse p' = some u) :
    Lifecycle.willUse p = some u ∨ turnsTo m t p = some u := by
  cases hg with
  | enters he => cases he <;> cases hw
  | remove v next =>
    unfold unlinkWaiting at hw
    split at hw <;> cases hw
  | pendUnlink =>
    unfold unlinkWaiting at hw
    split at hw <;> cases hw
  | restartSome hself hv =>
    refine .inr ?_
    rw [turnsTo, hv]
    unfold unlinkWaiting at hw
    split at hw <;> exact hw
  | forceSome self next hv =>
    refine .inr ?_
    rw [turnsTo, hv]
    exact hw
  | killed hk => obtain rfl | rfl | ⟨v, rfl⟩ | ⟨v, killed, rfl, _⟩ := hk.cases hp <;> cases hw
  | foreign next =>
    have hnext : Released p' := hp
    rw [hnext.willUse] at hw
    cases hw
  | kept next =>
    have hnext : Back p' := hp
    rw [hnext.willUse] at hw
    cases hw
  | _ => first | exact .inl hw | cases hw

/-- A thread comes to use a handle where it finds the task, and nothing happens to handles
and threads meanwhile. -/
theorem Runs.willUse (hr : Runs ids t p m m' p') (hp : Shape p) {u : τ} (hw : willUse p' = some u) :
    (Lifecycle.willUse p = some u ∨ turnsTo m t p = some u) ∧ (m'.tcb u).pthrid = (m.tcb u).pthrid ∧
      ∀ v, (m'.pthread v).detached = (m.pthread v).detached ∧ (m'.pthread v).joined = (m.pthread v).joined := by
  cases hr with
  | reads hg => exact ⟨hg.willUse hp hw, rfl, fun _ => ⟨rfl, rfl⟩⟩
  | counted next =>
    split at hw
    · cases hw
    · have hnext : Released next := hp
      rw [hnext.willUse] at hw
      cases hw
  | cleared next =>
    have hnext : Released p' := hp
    rw [hnext.willUse] at hw
    cases hw
  | edited edit next he =>
    obtain ⟨self, rfl⟩ := Sectioned.willUse hp hw
    cases edit
    case unlink =>
      cases he
      exact ⟨.inl hw, rfl, fun _ => ⟨rfl, rfl⟩⟩
    all_goals exact hp.elim
  | freed next =>
    have hnext : Back p' := hp
    rw [hnext.willUse] at hw
    cases hw
  | created hc => cases hc <;> cases hw
  | notCreated hc => cases hc <;> cases hw
  | cancels hc he =>
    obtain ⟨v, _, rfl⟩ := Mem.cancel_eq he
    refine ⟨.inl ?_, rfl, fun v' => ⟨?_, ?_⟩⟩
    · cases hc <;> exact hw
    · exact Mem.setPthread_congr (·.detached) m (by rfl) v'
    · exact Mem.setPthread_congr (·.joined) m (by rfl) v'
  | joins hj => cases hj <;> cases hw
  | prioStored pri hv =>
    refine ⟨.inr ?_, Mem.setTcb_congr (·.pthrid) m (by rfl) u, fun _ => ⟨rfl, rfl⟩⟩
    rw [turnsTo, hv]
    exact hw
  | prioAttr v => exact ⟨.inl hw, Mem.setTcb_congr (·.pthrid) m (by rfl) u, fun _ => ⟨rfl, rfl⟩⟩
  | sliceAttr v policy => exact ⟨.inr hw, Mem.setTcb_congr (·.pthrid) m (by rfl) u, fun _ => ⟨rfl, rfl⟩⟩
  | protects count hc => cases hc <;> cases hw
  | cleaned hc => cases hc <;> cases hw
  | _ => cases hw

theorem next_willUse (h : (code (ι := ι) ids t p).Next p') (hp : Shape p) {u : τ} (hw : willUse p' = some u) :
    willUse p = some u := by
  cases p <;> simp only [code, Instr.Next] at h
  case pendWait self v =>
    obtain ⟨_, rfl⟩ := h
    cases hw
  case notifyWait v next =>
    obtain ⟨_, rfl⟩ := h
    exact hw
  all_goals subst h
  case deleteTunlock tid self v deletable => revert hw; split <;> [rintro ⟨⟩; (split <;> rintro ⟨⟩)]
  case listLock edit next => cases edit <;> exact hw
  case notifyKilled v killed => obtain rfl | rfl := hp <;> cases hw
  all_goals exact hw

/-- The handle that another thread is going to use stays that of a thread that can be joined. -/
theorem Runs.live_other (hr : Runs ids t p s.mem s'.mem p') (h : Handles s.mem s.ctl) (hheld : Held s)
    (hp : s.ctl t = .awake p) (hu : Undisturbed ⟨s, t, s'⟩) (hne : w ≠ t) {u : τ}
    (hw : Lifecycle.willUse (s.ctl w).point = some u) (hlive : Live s.mem u) : Live s'.mem u := by
  obtain ⟨v, hv, hdetached, hjoined⟩ := hlive
  have hnot : Lifecycle.holds p ≠ true := by
    intro hholds
    exact hne (hheld.unique (willUse_holds (hheld.shape w) hw) (by rw [hp]; exact hholds))
  refine ⟨v, (hr.handle_other h hheld hp hu hne (inUse_of_willUse hw)).trans hv, ?_⟩
  obtain hsame | ⟨_, hc⟩ | hcancelled | ⟨_, ⟨_, hj⟩, _⟩ | ⟨_, rfl, _⟩ | ⟨_, _, hexited⟩ := hr.thread_cases v
  · rw [hsame]
    exact ⟨hdetached, hjoined⟩
  · rw [hc.thread]
    exact ⟨rfl, rfl⟩
  · rw [hcancelled]
    exact ⟨hdetached, hjoined⟩
  · cases hj <;> exact absurd rfl hnot
  · exact absurd rfl hnot
  · rw [hexited]
    exact ⟨hdetached, hjoined⟩

/-- Whoever is going to use a handle has one of a thread that can be joined. -/
def Ready (s : LifeState θ τ ι) : Prop := ∀ w u, willUse (s.ctl w).point = some u → Live s.mem u

theorem ready_step (hready : Ready s) (h : Handles s.mem s.ctl) (hheld : Held s) (hs : Step (code ids) t s s')
    (hu : Undisturbed ⟨s, t, s'⟩) (hl : FindsLive ⟨s, t, s'⟩) : Ready s' := by
  intro w u hw
  obtain ⟨hm, _, hpoint⟩ | ⟨p, p', hp, hp', hr, _⟩ := step_cases hs
  · rw [hm]
    by_cases hwt : w = t
    · subst hwt
      obtain heq | hnext := hpoint
      · exact hready w u (heq ▸ hw)
      · exact hready w u (next_willUse hnext (hheld.shape w) hw)
    · rw [hs.ctl_other hwt] at hw
      exact hready w u hw
  · by_cases hwt : w = t
    · subst hwt
      have hshape := hheld.shape w
      rw [hp] at hshape
      rw [hp'] at hw
      obtain ⟨hfound, hhandle, hthreads⟩ := hr.willUse hshape hw
      have hlive : Live s.mem u := by
        obtain hbefore | hturns := hfound
        · exact hready w u (by rw [hp]; exact hbefore)
        · exact hl u (by rw [hp]; exact hturns)
      obtain ⟨v, hv, hdetached, hjoined⟩ := hlive
      exact ⟨v, hhandle.trans hv, (hthreads v).1.trans hdetached, (hthreads v).2.trans hjoined⟩
    · rw [hs.ctl_other hwt] at hw
      exact hr.live_other h hheld hp hu hwt hw (hready w u hw)

/-! ### Every run -/

variable {tr : List (LifeTransition θ τ ι)}

omit [DecidableEq θ] [DecidableEq τ] [DecidableEq ι] in
/-- The handle of a thread that has not exited, in its own task. -/
theorem Handles.valid_self {u : τ} (h : Handles s.mem s.ctl) (hknown : Known s.mem s.ctl u)
    (hgone : (s.ctl t).point ≠ .gone) (hu : (s.mem.tcb u).pthrid = some t) : Valid s.mem u := by
  have hexited : (s.mem.pthread t).exited = false := by
    refine Bool.eq_false_iff.mpr fun hexited => hgone ?_
    rw [h.exited t hexited]
    rfl
  refine ⟨t, hu, (h.task u hknown t hu).1, Bool.eq_false_iff.mpr fun hjoined => ?_, fun hboth => ?_⟩
  · rw [h.joined t hjoined] at hexited
    cases hexited
  · rw [hboth.2] at hexited
    cases hexited

omit [DecidableEq θ] [DecidableEq τ] [DecidableEq ι] in
theorem Live.valid {u : τ} (h : Live s.mem u) (hh : Handles s.mem s.ctl) (hknown : Known s.mem s.ctl u) :
    Valid s.mem u := by
  obtain ⟨w, hw, hdetached, hjoined⟩ := h
  refine ⟨w, hw, (hh.task u hknown w hw).1, hjoined, fun hboth => ?_⟩
  rw [hdetached] at hboth
  cases hboth.1

end

/-! ### A task that has not been activated -/

theorem boot_initial (n k l : ℕ) [NeZero n] [NeZero k] : Initial (boot n k l) := by
  refine ⟨fun t => ?_, rfl, rfl, fun u w hw => ?_, fun u hd => ?_, fun w => ⟨rfl, rfl, rfl⟩, fun u hu => rfl⟩
  · by_cases ht : t = 0
    · simp [boot, ht]
    · simp [boot, ht]
  · by_cases hu : u = 0
    · subst hu
      obtain rfl : 0 = w := Option.some.inj hw
      simp [boot]
    · simp [boot, hu] at hw
  · have hu : u ≠ 0 := of_decide_eq_true hd
    simp [boot, hu]

/-- The root task initialises the control block of a task. -/
def initialises (n : ℕ) [NeZero n] : List (Fin n × Input (Choice (Fin n) (Fin 2))) :=
  does 0 (.call (.taskInit (some 1) 100 0)) :: goesOn 0 5

/-- The root task activates it, with thread 1. -/
def activates (n : ℕ) [NeZero n] : List (Fin n × Input (Choice (Fin n) (Fin 2))) :=
  does 0 (.call (.taskActivate 2)) :: goesOn 0 8 ++ does 0 (.thread 1) :: goesOn 0 5

/-- The root task changes its priority, as far as to the call of `pthread_setschedparam`. -/
def setsPriority : List (Fin 2 × Input (Choice (Fin 2) (Fin 2))) :=
  does 0 (.call (.taskPrioritySet 2 50)) :: goesOn 0 10

end

end V2lin.Lifecycle
