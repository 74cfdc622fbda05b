import V2lin.Lifecycle.Points

/-! The handles of the tasks' threads.

A control block's handle is null, or that of the thread that has been created for it last.
It is stored by `pthread_create`, and made null by `taskInit` and by a `pthread_create` that
fails. As long as nobody does this to the control block that an operation has found, the
handle is, where the operation uses it, still the one that it has found. And as long as
`pthread_create` gives a thread no handle that the library has kept of another one, a handle
is that of one task. -/
namespace V2lin.Lifecycle
open Threads V2lin.Task V2lin.TaskLib

section
variable {θ τ ι : Type}

/-! ### The control block that a thread uses -/

/-- The task whose handle is going to be used. -/
def willUse : Pc τ ι → Option τ
  | .listLock (.unlink _ _) next | .listEdit (.unlink _ _) next | .listUnlock next => willUse next
  | .notifyTest _ next | .notifyDlock _ next | .notifyTlock _ next | .notifyBroadcast _ next => willUse next
  | .notifyTunlock _ next | .notifyDrain _ next | .notifyWait _ next | .notifyWoken _ next => willUse next
  | .notifyDunlock _ next => willUse next
  | .restartSplit _ u | .restartCancel u | .restartJoin u => some u
  | .forceSplit _ u _ | .forceCancel u _ | .forceJoin u _ => some u
  | .prioSplit _ u | .prioAttr u | .prioApply u | .sliceApply u _ => some u
  | _ => none

/-- The task that an operation has found and has not finished with. -/
def inUse : Pc τ ι → Option τ
  | .lockFlag task _ | .lockTest task _ | .listLock (.raise task) _ | .listEdit (.raise task) _ => task
  | .activateCreate u | .restartCreate u | .restartDetach u => some u
  | p => willUse p

/-- The task that an operation has found or comes to next. -/
def seen : Pc τ ι → Option τ
  | .sliceTask task _ => task
  | p => inUse p

/-- What is known of the handle where thread `t` stands. -/
def Has (m : Mem θ τ ι) (t : θ) : Pc τ ι → Prop
  | .lockFlag (some u) _ | .lockTest (some u) _ => (m.tcb u).pthrid = some t
  | .listLock (.raise (some u)) _ | .listEdit (.raise (some u)) _ => (m.tcb u).pthrid = some t
  | .listLock (.unlink _ _) next | .listEdit (.unlink _ _) next | .listUnlock next => Has m t next
  | .activateCreate u => (m.tcb u).pthrid = none
  | .restartSplit self u => self = some u → (m.tcb u).pthrid = some t
  | .restartCreate u => ∀ v, (m.tcb u).pthrid = some v → (m.pthread v).detached = true ∨ (m.pthread v).joined = true
  | .restartDetach u => (m.tcb u).pthrid = some t
  | .prioSplit tid u => tid = 0 → (m.tcb u).pthrid = some t
  | _ => True

/-- A thread that is going to exit. -/
def leaving : Pc τ ι → Bool
  | .restartTimer _ | .dying | .exit | .gone => true
  | _ => false

theorem Back.has {p : Pc τ ι} (h : Back p) (m : Mem θ τ ι) (t : θ) : Has m t p := by
  cases p <;> trivial

theorem Released.has {p : Pc τ ι} (h : Released p) (m : Mem θ τ ι) (t : θ) : Has m t p := by
  cases p <;> trivial

theorem Acquired.has {p : Pc τ ι} (h : Acquired p) (m : Mem θ τ ι) (t : θ) : Has m t p := by
  cases p <;> trivial

theorem Notified.has {p : Pc τ ι} (h : Notified p) (m : Mem θ τ ι) (t : θ) : Has m t p := by
  cases p <;> trivial

theorem Back.willUse {p : Pc τ ι} (h : Back p) : willUse p = none := by
  cases p <;> first | rfl | exact h.elim

theorem Released.willUse {p : Pc τ ι} (h : Released p) : willUse p = none := by
  cases p <;> first | rfl | exact h.elim

theorem Acquired.willUse {p : Pc τ ι} (h : Acquired p) : willUse p = none := by
  cases p <;> first | rfl | exact h.elim

/-- After a section only `taskRestart` goes on to use what it has found. -/
theorem Sectioned.willUse {edit : Edit τ ι} {p : Pc τ ι} {u : τ} (h : Sectioned edit p) (hw : willUse p = some u) :
    ∃ self, p = .restartSplit self u := by
  cases edit
  case raise =>
    have hnone : Lifecycle.willUse p = none := Acquired.willUse h
    rw [hnone] at hw
    cases hw
  case unlink =>
    cases p
    case listLock edit next => cases edit <;> first | exact h.elim | cases hw
    case restartSplit self v =>
      cases hw
      exact ⟨self, rfl⟩
    all_goals first | exact h.elim | cases hw
  all_goals cases p <;> first | exact h.elim | cases hw

theorem Sectioned.has {edit : Edit τ ι} {p : Pc τ ι} (h : Sectioned edit p) :
    (∃ self u, p = .restartSplit self u) ∨ ∀ (m : Mem θ τ ι) (t : θ), Has m t p := by
  cases edit
  case raise => exact .inr fun m t => Acquired.has h m t
  case unlink =>
    cases p
    case listLock edit next => cases edit <;> first | exact h.elim | exact .inr fun _ _ => trivial
    case restartSplit self u => exact .inl ⟨self, u, rfl⟩
    all_goals first | exact h.elim | exact .inr fun _ _ => trivial
  all_goals cases p <;> first | exact h.elim | exact .inr fun _ _ => trivial

/-- After `notify_task_delete` only `taskDeleteForce` does. -/
theorem Notified.willUse {p : Pc τ ι} {u : τ} (h : Notified p) (hw : willUse p = some u) :
    ∃ self next, p = .forceSplit self u next := by
  cases p
  case forceSplit self v next =>
    cases hw
    exact ⟨self, next, rfl⟩
  all_goals first | exact h.elim | cases hw

theorem inUse_of_willUse {p : Pc τ ι} {u : τ} (h : willUse p = some u) : inUse p = some u := by
  cases p
  case listLock edit next => cases edit <;> first | exact h | cases h
  case listEdit edit next => cases edit <;> first | exact h | cases h
  all_goals first | exact h | cases h

theorem willUse_holds {p : Pc τ ι} {u : τ} (hp : Shape p) (h : willUse p = some u) : holds p = true := by
  have hsection : ∀ (edit : Edit τ ι) (next : Pc τ ι), Sectioned edit next → Lifecycle.willUse next = some u →
      holds next = true := by
    intro edit next hnext hw
    obtain ⟨self, rfl⟩ := hnext.willUse hw
    rfl
  have hnotified : ∀ next : Pc τ ι, Notified next → Lifecycle.willUse next = some u → holds next = true := by
    intro next hnext hw
    obtain ⟨self, n, rfl⟩ := hnext.willUse hw
    rfl
  cases p
  case listLock edit next => cases edit <;> first | exact hsection _ next hp h | cases h
  case listEdit edit next => cases edit <;> first | exact hsection _ next hp h | cases h
  case listUnlock next =>
    have hsome : ∃ edit, Sectioned edit next := hp
    obtain ⟨edit, hnext⟩ := hsome
    exact hsection edit next hnext h
  all_goals first | rfl | exact (hnotified _ hp h :) | cases h

theorem seen_of_inUse {p : Pc τ ι} {u : τ} (h : inUse p = some u) : seen p = some u := by
  cases p <;> first | exact h | cases h

/-- Who has found a task has the scheduler lock, but for `taskLock` on its way to it. -/
theorem inUse_holds {p : Pc τ ι} {u : τ} (hp : Shape p) (h : inUse p = some u) :
    holds p = true ∨ ∃ next, p = .lockFlag (some u) next := by
  cases p
  case lockFlag task next =>
    have htask : task = some u := h
    exact .inr ⟨next, by rw [htask]⟩
  case listLock edit next => cases edit <;> first | exact .inl rfl | exact .inl (willUse_holds hp h)
  case listEdit edit next => cases edit <;> first | exact .inl rfl | exact .inl (willUse_holds hp h)
  all_goals first | exact .inl rfl | exact .inl (willUse_holds hp h)

/-- What is known lasts as long as the handle does. -/
theorem Has.keep {m m' : Mem θ τ ι} {t : θ} {p : Pc τ ι} (h : Has m t p)
    (hhandle : ∀ u, inUse p = some u → (m'.tcb u).pthrid = (m.tcb u).pthrid)
    (hthread : ∀ u v, inUse p = some u → (m.tcb u).pthrid = some v →
      (m.pthread v).detached = true ∨ (m.pthread v).joined = true →
      (m'.pthread v).detached = true ∨ (m'.pthread v).joined = true) (hp : Shape p) : Has m' t p := by
  have hsection : ∀ (edit : Edit τ ι) (next : Pc τ ι), Sectioned edit next → Has m t next →
      (∀ u, willUse next = some u → (m'.tcb u).pthrid = (m.tcb u).pthrid) → Has m' t next := by
    intro edit next hnext hhas hkeep
    obtain ⟨self, u, rfl⟩ | hany := hnext.has
    · exact fun hself => (hkeep u rfl).trans (hhas hself)
    · exact hany m' t
  cases p
  case lockFlag task next =>
    cases task with
    | none => trivial
    | some u => exact (hhandle u rfl).trans h
  case lockTest task next =>
    cases task with
    | none => trivial
    | some u => exact (hhandle u rfl).trans h
  case listLock edit next =>
    cases edit
    case raise task =>
      cases task with
      | none => trivial
      | some u => exact (hhandle u rfl).trans h
    case unlink id entry => exact hsection _ next hp h fun u hu => hhandle u hu
    all_goals trivial
  case listEdit edit next =>
    cases edit
    case raise task =>
      cases task with
      | none => trivial
      | some u => exact (hhandle u rfl).trans h
    case unlink id entry => exact hsection _ next hp h fun u hu => hhandle u hu
    all_goals trivial
  case listUnlock next =>
    have hsome : ∃ edit, Sectioned edit next := hp
    obtain ⟨edit, hnext⟩ := hsome
    exact hsection edit next hnext h fun u hu => hhandle u hu
  case activateCreate u => exact (hhandle u rfl).trans h
  case restartSplit self u => exact fun hself => (hhandle u rfl).trans (h hself)
  case restartCreate u =>
    intro v hv
    rw [hhandle u rfl] at hv
    exact hthread u v rfl hv (h v hv)
  case restartDetach u => exact (hhandle u rfl).trans h
  case prioSplit tid u => exact fun htid => (hhandle u rfl).trans (h htid)
  all_goals trivial

/-! ### The threads and their control blocks -/

/-- The library has not lost sight of the task: it is on the list, or an operation has found
it. -/
def Known (m : Mem θ τ ι) (ctl : θ → Ctl (Pc τ ι)) (u : τ) : Prop :=
  u ∈ m.taskList ∨ ∃ w, seen (ctl w).point = some u

/-- What is true of the handles while the threads stand where they do. -/
structure Handles (m : Mem θ τ ι) (ctl : θ → Ctl (Pc τ ι)) : Prop where
  task : ∀ u, Known m ctl u → ∀ w, (m.tcb u).pthrid = some w → (m.pthread w).task = some u ∧ (m.pthread w).born = true
  dead : ∀ u, (m.tcb u).dead = true → (m.tcb u).pthrid = none
  unborn : ∀ w, (m.pthread w).born = false → ctl w = .awake .unborn
  exited : ∀ w, (m.pthread w).exited = true → ctl w = .awake .gone
  joined : ∀ w, (m.pthread w).joined = true → (m.pthread w).exited = true
  detached : ∀ w, (m.pthread w).detached = true → leaving (ctl w).point = true
  gone : ∀ w, (ctl w).point = .gone → (m.pthread w).exited = true ∨ (m.pthread w).detached = false
  has : ∀ w, Has m w (ctl w).point

/-- A step from one of these points makes a handle null, or stores a new one, without the
scheduler lock. -/
def replaces : Pc τ ι → Option τ
  | .listEdit (.init u _ _) _ | .starterCreate u => some u
  | _ => none

/-- The task for which the next step may create a thread. -/
def creates : Pc τ ι → Option τ
  | .activateCreate u | .restartCreate u | .starterCreate u => some u
  | _ => none

/-- `taskInit` and `self_starter` leave the control blocks alone that an operation of another
thread has found. -/
def Undisturbed (x : LifeTransition θ τ ι) : Prop :=
  ∀ u, replaces (x.pre.ctl x.thread).point = some u → ∀ w ≠ x.thread, inUse (x.pre.ctl w).point ≠ some u

/-- `pthread_create` gives the new thread no handle that the library still has: in `locker`, or
in the control block of another task on the list or in use. -/
def Fresh (x : LifeTransition θ τ ι) : Prop :=
  ∀ u, creates (x.pre.ctl x.thread).point = some u → ∀ w, (x.post.mem.tcb u).pthrid = some w →
    x.pre.mem.locker ≠ some w ∧ ∀ v, v ≠ u → Known x.pre.mem x.pre.ctl v → (x.pre.mem.tcb v).pthrid ≠ some w

instance {n k : ℕ} (m : Mem (Fin n) (Fin k) ι) (ctl : Fin n → Ctl (Pc (Fin k) ι)) (u : Fin k) :
    Decidable (Known m ctl u) :=
  inferInstanceAs (Decidable (u ∈ m.taskList ∨ ∃ w, seen (ctl w).point = some u))

instance {n k : ℕ} (x : LifeTransition (Fin n) (Fin k) ι) : Decidable (Undisturbed x) :=
  inferInstanceAs (Decidable (∀ u, replaces (x.pre.ctl x.thread).point = some u →
    ∀ w, w ≠ x.thread → inUse (x.pre.ctl w).point ≠ some u))

instance {n k : ℕ} (x : LifeTransition (Fin n) (Fin k) ι) : Decidable (Fresh x) :=
  inferInstanceAs (Decidable (∀ u, creates (x.pre.ctl x.thread).point = some u →
    ∀ w, (x.post.mem.tcb u).pthrid = some w → x.pre.mem.locker ≠ some w ∧
      ∀ v, v ≠ u → Known x.pre.mem x.pre.ctl v → (x.pre.mem.tcb v).pthrid ≠ some w))

section
variable [DecidableEq θ] [DecidableEq τ] [DecidableEq ι] {ids : τ → ℤ} {t w : θ} {m m' : Mem θ τ ι} {p p' : Pc τ ι}

omit [DecidableEq θ] [DecidableEq τ] [DecidableEq ι] in
theorem CreatePoint.creates {u : τ} {created failed : Pc τ ι} (h : CreatePoint p u created failed) :
    Lifecycle.creates p = some u := by
  cases h <;> rfl

/-- What a step does to the handles and to the threads. -/
theorem Runs.changes (hr : Runs ids t p m m' p') :
    ((∀ u, (m'.tcb u).pthrid = (m.tcb u).pthrid ∧ (m'.tcb u).dead = (m.tcb u).dead) ∧ m'.pthread = m.pthread) ∨
    (∃ u pri policy next, p = .listEdit (.init u pri policy) next ∧ p' = .listUnlock next ∧
      m'.tcb = (m.setTcb u (newTcb ids u pri policy)).tcb ∧ m'.pthread = m.pthread) ∨
    (∃ u failed v, CreatePoint p u p' failed ∧ (m.pthread v).Vacant ∧
      m' = (m.setTcb u {m.tcb u with pthrid := none, dead := false}).create u v) ∨
    (∃ u created, CreatePoint p u created p' ∧ m' = m.setTcb u {m.tcb u with pthrid := none, dead := false}) ∨
    (∃ u, CancelPoint p u p' ∧ m.cancel u = some m') ∨
    (∃ u, JoinPoint p u p' ∧ m.join u = some m') ∨
    (∃ u, p = .restartDetach u ∧ p' = .restartTimer u ∧ m.detach u = some m') ∨
    (p = .exit ∧ p' = .gone ∧ m' = m.setPthread t {m.pthread t with exited := true}) := by
  have hkeep : ∀ (u : τ) (b : Tcb θ τ ι), b.pthrid = (m.tcb u).pthrid → b.dead = (m.tcb u).dead →
      ∀ v, ((m.setTcb u b).tcb v).pthrid = (m.tcb v).pthrid ∧ ((m.setTcb u b).tcb v).dead = (m.tcb v).dead :=
    fun u b hb hd v => ⟨Mem.setTcb_congr (·.pthrid) m hb v, Mem.setTcb_congr (·.dead) m hd v⟩
  cases hr with
  | edited edit next he =>
    cases edit with
    | init u pri policy =>
      refine .inr (.inl ⟨u, pri, policy, next, rfl, rfl, ?_⟩)
      simp only [Edit.run, Mem.append] at he
      repeat' split at he
      all_goals cases he <;> exact ⟨rfl, rfl⟩
    | raise task =>
      cases task with
      | none =>
        cases he
        exact .inl ⟨fun _ => ⟨rfl, rfl⟩, rfl⟩
      | some u =>
        cases he
        exact .inl ⟨hkeep u _ rfl rfl, rfl⟩
    | restore =>
      obtain ⟨task, _, heq⟩ := Option.map_eq_some_iff.mp he
      cases task with
      | none =>
        cases heq
        exact .inl ⟨fun _ => ⟨rfl, rfl⟩, rfl⟩
      | some u =>
        cases heq
        exact .inl ⟨hkeep u _ rfl rfl, rfl⟩
    | link u v =>
      cases he
      exact .inl ⟨hkeep u _ rfl rfl, rfl⟩
    | unlink id entry =>
      cases he
      exact .inl ⟨fun _ => ⟨rfl, rfl⟩, rfl⟩
    | remove u =>
      simp only [Edit.run, Mem.takeOff] at he
      repeat' split at he
      all_goals cases he <;> exact .inl ⟨fun _ => ⟨rfl, rfl⟩, rfl⟩
  | created hc hvacant => exact .inr (.inr (.inl ⟨_, _, _, hc, hvacant, rfl⟩))
  | notCreated hc => exact .inr (.inr (.inr (.inl ⟨_, _, hc, rfl⟩)))
  | cancels hc he => exact .inr (.inr (.inr (.inr (.inl ⟨_, hc, he⟩))))
  | joins hj he => exact .inr (.inr (.inr (.inr (.inr (.inl ⟨_, hj, he⟩)))))
  | detaches he => exact .inr (.inr (.inr (.inr (.inr (.inr (.inl ⟨_, rfl, rfl, he⟩))))))
  | exits => exact .inr (.inr (.inr (.inr (.inr (.inr (.inr ⟨rfl, rfl, rfl⟩))))))
  | named u tid => exact .inl ⟨hkeep u _ rfl rfl, rfl⟩
  | prioStored => exact .inl ⟨hkeep _ _ rfl rfl, rfl⟩
  | prioAttr u => exact .inl ⟨hkeep u _ rfl rfl, rfl⟩
  | sliceAttr u policy => exact .inl ⟨hkeep u _ rfl rfl, rfl⟩
  | protects count => exact .inl ⟨hkeep _ _ rfl rfl, rfl⟩
  | cleaned =>
    unfold Mem.cleanup
    split
    · exact .inl ⟨fun _ => ⟨rfl, rfl⟩, rfl⟩
    · exact .inl ⟨fun _ => ⟨rfl, rfl⟩, rfl⟩
  | _ => exact .inl ⟨fun _ => ⟨rfl, rfl⟩, rfl⟩

omit [DecidableEq τ] [DecidableEq ι] in
/-- Storing a thread that agrees with the old one on `f` changes `f` nowhere. -/
theorem Mem.setPthread_congr {α : Type} (f : Pthread τ → α) (m : Mem θ τ ι) {v : θ} {b : Pthread τ}
    (h : f b = f (m.pthread v)) (w : θ) : f ((m.setPthread v b).pthread w) = f (m.pthread w) := by
  by_cases hw : w = v
  · rw [hw, Mem.setPthread_self, h]
  · rw [Mem.setPthread_of_ne m b hw]

omit [DecidableEq ι] in
theorem Mem.create_self (m : Mem θ τ ι) (u : τ) (v : θ) : ((m.create u v).tcb u).pthrid = some v := by
  show ((m.setTcb u _).tcb u).pthrid = some v
  rw [Mem.setTcb_self]

omit [DecidableEq ι] in
theorem Mem.create_of_ne (m : Mem θ τ ι) {u u' : τ} (v : θ) (h : u' ≠ u) : (m.create u v).tcb u' = m.tcb u' :=
  Mem.setTcb_of_ne m _ h

omit [DecidableEq τ] [DecidableEq ι] in
theorem Mem.cancel_eq {u : τ} (h : m.cancel u = some m') :
    ∃ v, (m.tcb u).pthrid = some v ∧ m' = m.setPthread v {m.pthread v with cancelled := true} := by
  obtain ⟨v, hv, rfl⟩ := Option.map_eq_some_iff.mp h
  exact ⟨v, hv, rfl⟩

omit [DecidableEq τ] [DecidableEq ι] in
theorem Mem.detach_eq {u : τ} (h : m.detach u = some m') :
    ∃ v, (m.tcb u).pthrid = some v ∧ m' = m.setPthread v {m.pthread v with detached := true} := by
  obtain ⟨v, hv, rfl⟩ := Option.map_eq_some_iff.mp h
  exact ⟨v, hv, rfl⟩

omit [DecidableEq τ] [DecidableEq ι] in
/-- `pthread_join` fails at once, or it waits for the end of the thread. -/
theorem Mem.join_eq {u : τ} (h : m.join u = some m') :
    ∃ v, (m.tcb u).pthrid = some v ∧ (((m.pthread v).detached = true ∨ (m.pthread v).joined = true) ∧ m' = m ∨
      (m.pthread v).exited = true ∧ m' = m.setPthread v {m.pthread v with joined := true}) := by
  unfold Mem.join at h
  split at h
  · cases h
  · rename_i v hv
    split at h
    · cases h
      exact ⟨v, hv, .inl ⟨by assumption, rfl⟩⟩
    · split at h
      · cases h
        exact ⟨v, hv, .inr ⟨by assumption, rfl⟩⟩
      · cases h

/-! What a thread knows of the handle where its own step takes it. -/

omit [DecidableEq ι] in
theorem Goes.has (hg : Goes t m p p') (hp : Shape p) (h : Has m t p)
    (hdead : ∀ u, (m.tcb u).dead = true → (m.tcb u).pthrid = none) : Has m t p' := by
  cases hg with
  | enters he => cases he <;> trivial
  | lockFind next htask =>
    rename_i task
    cases task with
    | none => trivial
    | some u => exact (Mem.myTask_some htask).2
  | lockTest task next =>
    cases task with
    | none => trivial
    | some u => exact h
  | foreign next => exact Released.has hp m t
  | kept next => exact Back.has hp m t
  | nobody u next => exact Notified.has hp m t
  | drained u next => trivial
  | remove u next =>
    unfold unlinkWaiting
    split <;> trivial
  | pendUnlink =>
    unfold unlinkWaiting
    split <;> trivial
  | restartSome hself =>
    unfold unlinkWaiting
    split
    · rintro rfl
      exact (Mem.myTask_some hself).2
    · rintro rfl
      exact (Mem.myTask_some hself).2
  | restartSelf u => exact h rfl
  | activateDead _ hu => exact hdead _ hu
  | killed hk => obtain rfl | rfl | ⟨u, rfl⟩ | ⟨u, killed, rfl, _⟩ := hk.cases hp <;> trivial
  | _ => trivial

theorem Runs.has (hr : Runs ids t p m m' p') (hp : Shape p) (h : Has m t p)
    (hdead : ∀ u, (m.tcb u).dead = true → (m.tcb u).pthrid = none) : Has m' t p' := by
  cases hr with
  | reads hg => exact hg.has hp h hdead
  | flagged task next =>
    cases task with
    | none => trivial
    | some u => exact h
  | counted next =>
    split
    · trivial
    · exact Released.has hp _ t
  | cleared next => exact Released.has hp _ t
  | edited edit next he =>
    obtain ⟨self, u, rfl⟩ | hany := Sectioned.has hp
    · cases edit
      case unlink =>
        cases he
        exact h
      all_goals exact hp.elim
    · exact hany m' t
  | freed next => exact Back.has hp _ t
  | created hc => cases hc <;> trivial
  | notCreated hc => cases hc <;> trivial
  | cancels hc => cases hc <;> trivial
  | joins hj he =>
    cases hj with
    | force => trivial
    | restart u =>
      intro v hv
      obtain ⟨v', hv', ⟨hgone, rfl⟩ | ⟨_, rfl⟩⟩ := Mem.join_eq he
      · rw [hv'] at hv
        cases hv
        exact hgone
      · obtain rfl : v' = v := Option.some.inj (hv'.symm.trans hv)
        refine .inr ?_
        rw [Mem.setPthread_self]
  | prioStored pri hu =>
    rintro rfl
    rw [Mem.setTcb_self]
    exact (Mem.myTask_some hu).2
  | protects count hc => cases hc <;> trivial
  | cleaned hc => cases hc <;> trivial
  | _ => trivial

theorem next_has (h : (code (ι := ι) ids t p).Next p') (hp : Shape p) (hhas : Has m t p) : Has m t p' := by
  cases p <;> simp only [code, Instr.Next] at h
  case pendWait self u =>
    obtain ⟨_, rfl⟩ := h
    trivial
  case notifyWait u next =>
    obtain ⟨_, rfl⟩ := h
    trivial
  all_goals subst h
  case deleteTunlock tid self u deletable =>
    split
    · trivial
    · split <;> trivial
  case listLock edit next =>
    cases edit
    case raise task => cases task <;> exact hhas
    all_goals exact hhas
  case listUnlock => exact hhas
  case notifyDunlock => exact Notified.has hp m t
  case notifyKilled => obtain rfl | rfl := hp <;> trivial
  all_goals trivial

omit [DecidableEq ι] in
/-- Who is going to exit does, and then its handle may go to a new thread. -/
theorem Goes.leaving (hg : Goes t m p p') (hgone : p ≠ .gone) (hp : leaving p = true) : Lifecycle.leaving p' = true := by
  cases hg with
  | reborn => exact absurd rfl hgone
  | killed hk => cases hk <;> cases hp
  | untimed u => rfl
  | unwrapped => rfl
  | _ => cases hp

theorem Runs.leaving (hr : Runs ids t p m m' p') (hgone : p ≠ .gone) (hp : leaving p = true) :
    Lifecycle.leaving p' = true := by
  cases hr with
  | reads hg => exact hg.leaving hgone hp
  | created hc => cases hc <;> cases hp
  | notCreated hc => cases hc <;> cases hp
  | cancels hc => cases hc <;> cases hp
  | joins hj => cases hj <;> cases hp
  | protects count hc => cases hc <;> cases hp
  | cleaned hc => cases hc <;> first | rfl | cases hp
  | timed u => rfl
  | exits => rfl
  | _ => cases hp

/-- The step has created thread `w` for task `u`. -/
structure Created (p p' : Pc τ ι) (m m' : Mem θ τ ι) (u : τ) (w : θ) : Prop where
  point : ∃ failed, CreatePoint p u p' failed
  vacant : (m.pthread w).Vacant
  pthrid : (m'.tcb u).pthrid = some w
  dead : (m'.tcb u).dead = false
  thread : m'.pthread w = {born := true, task := some u, wrapped := true}

omit [DecidableEq ι] in
theorem created_of {u : τ} {failed : Pc τ ι} (hc : CreatePoint p u p' failed) (hvacant : (m.pthread w).Vacant) :
    Created p p' m ((m.setTcb u {m.tcb u with pthrid := none, dead := false}).create u w) u w := by
  refine ⟨⟨failed, hc⟩, hvacant, Mem.create_self .., ?_, Mem.setPthread_self ..⟩
  show (((m.setTcb u _).setTcb u _).tcb u).dead = false
  rw [Mem.setTcb_self, Mem.setTcb_self]

/-- What a step does to one thread. -/
theorem Runs.thread_cases (hr : Runs ids t p m m' p') (w : θ) :
    m'.pthread w = m.pthread w ∨
    (∃ u, Created p p' m m' u w) ∨
    m'.pthread w = {m.pthread w with cancelled := true} ∨
    ((m.pthread w).exited = true ∧ (∃ u, JoinPoint p u p') ∧ m'.pthread w = {m.pthread w with joined := true}) ∨
    (∃ u, p = .restartDetach u ∧ p' = .restartTimer u ∧ (m.tcb u).pthrid = some w ∧
      m'.pthread w = {m.pthread w with detached := true}) ∨
    (w = t ∧ p' = .gone ∧ m'.pthread w = {m.pthread w with exited := true}) := by
  obtain ⟨_, hsame⟩ | ⟨u, pri, policy, next, _, _, _, hsame⟩ | ⟨u, failed, v, hc, hvacant, rfl⟩ | ⟨u, created, _, rfl⟩ |
    ⟨u, _, he⟩ | ⟨u, hj, he⟩ | ⟨u, rfl, rfl, he⟩ | ⟨rfl, rfl, rfl⟩ := hr.changes
  · exact .inl (by rw [hsame])
  · exact .inl (by rw [hsame])
  · by_cases hw : w = v
    · subst hw
      exact .inr (.inl ⟨u, created_of hc hvacant⟩)
    · exact .inl (Mem.setPthread_of_ne _ _ hw)
  · exact .inl rfl
  · obtain ⟨v, _, rfl⟩ := Mem.cancel_eq he
    by_cases hw : w = v
    · subst hw
      exact .inr (.inr (.inl (Mem.setPthread_self ..)))
    · exact .inl (Mem.setPthread_of_ne _ _ hw)
  · obtain ⟨v, _, ⟨_, rfl⟩ | ⟨hexited, rfl⟩⟩ := Mem.join_eq he
    · exact .inl rfl
    · by_cases hw : w = v
      · subst hw
        exact .inr (.inr (.inr (.inl ⟨hexited, ⟨u, hj⟩, Mem.setPthread_self ..⟩)))
      · exact .inl (Mem.setPthread_of_ne _ _ hw)
  · obtain ⟨v, hv, rfl⟩ := Mem.detach_eq he
    by_cases hw : w = v
    · subst hw
      exact .inr (.inr (.inr (.inr (.inl ⟨u, rfl, rfl, hv, Mem.setPthread_self ..⟩))))
    · exact .inl (Mem.setPthread_of_ne _ _ hw)
  · by_cases hw : w = t
    · subst hw
      exact .inr (.inr (.inr (.inr (.inr ⟨rfl, rfl, Mem.setPthread_self ..⟩))))
    · exact .inl (Mem.setPthread_of_ne _ _ hw)

/-- What a step does to the handle in one control block. -/
theorem Runs.handle_cases (hr : Runs ids t p m m' p') (u : τ) :
    ((m'.tcb u).pthrid = (m.tcb u).pthrid ∧ (m'.tcb u).dead = (m.tcb u).dead) ∨
    ((m'.tcb u).pthrid = none ∧ (replaces p = some u ∨ ∃ created failed, CreatePoint p u created failed)) ∨
    ∃ v, Created p p' m m' u v := by
  obtain ⟨hsame, _⟩ | ⟨v, pri, policy, next, rfl, _, htcb, _⟩ | ⟨v, failed, v', hc, hvacant, rfl⟩ | ⟨v, created, hc, rfl⟩ |
    ⟨v, _, he⟩ | ⟨v, _, he⟩ | ⟨v, _, _, he⟩ | ⟨_, _, rfl⟩ := hr.changes
  · exact .inl (hsame u)
  · by_cases hu : u = v
    · subst hu
      refine .inr (.inl ⟨?_, .inl rfl⟩)
      rw [htcb, Mem.setTcb_self]
      rfl
    · exact .inl (by rw [htcb, Mem.setTcb_of_ne _ _ hu]; exact ⟨rfl, rfl⟩)
  · by_cases hu : u = v
    · subst hu
      exact .inr (.inr ⟨v', created_of hc hvacant⟩)
    · exact .inl (by rw [Mem.create_of_ne _ _ hu, Mem.setTcb_of_ne _ _ hu]; exact ⟨rfl, rfl⟩)
  · by_cases hu : u = v
    · subst hu
      refine .inr (.inl ⟨?_, .inr ⟨_, _, hc⟩⟩)
      rw [Mem.setTcb_self]
    · exact .inl (by rw [Mem.setTcb_of_ne _ _ hu]; exact ⟨rfl, rfl⟩)
  · obtain ⟨_, _, rfl⟩ := Mem.cancel_eq he
    exact .inl ⟨rfl, rfl⟩
  · obtain ⟨_, _, ⟨_, rfl⟩ | ⟨_, rfl⟩⟩ := Mem.join_eq he
    · exact .inl ⟨rfl, rfl⟩
    · exact .inl ⟨rfl, rfl⟩
  · obtain ⟨_, _, rfl⟩ := Mem.detach_eq he
    exact .inl ⟨rfl, rfl⟩
  · exact .inl ⟨rfl, rfl⟩

/-- What a step leaves of a thread. -/
structure Outlives (b b' : Pthread τ) : Prop where
  born : b'.born = b.born
  task : b'.task = b.task
  detached : b.detached = true → b'.detached = true
  joined : b.joined = true → b'.joined = true
  exited : b.exited = true → b'.exited = true

theorem Runs.outlives (hr : Runs ids t p m m' p') (w : θ) :
    Outlives (m.pthread w) (m'.pthread w) ∨ ∃ u, Created p p' m m' u w := by
  obtain hsame | hnew | hcancelled | ⟨_, _, hjoined⟩ | ⟨_, _, _, _, hdetached⟩ | ⟨_, _, hexited⟩ := hr.thread_cases w
  · rw [hsame]
    exact .inl ⟨rfl, rfl, id, id, id⟩
  · exact .inr hnew
  · rw [hcancelled]
    exact .inl ⟨rfl, rfl, id, id, id⟩
  · rw [hjoined]
    exact .inl ⟨rfl, rfl, id, fun _ => rfl, id⟩
  · rw [hdetached]
    exact .inl ⟨rfl, rfl, fun _ => rfl, id, id⟩
  · rw [hexited]
    exact .inl ⟨rfl, rfl, id, id, fun _ => rfl⟩

variable {s s' : LifeState θ τ ι}

omit [DecidableEq θ] [DecidableEq τ] [DecidableEq ι] in
/-- Nobody else uses the control block for which a thread is created. -/
theorem CreatePoint.alone {u : τ} {created failed : Pc τ ι} (hc : CreatePoint p u created failed)
    (h : Handles s.mem s.ctl) (hheld : Held s) (hp : s.ctl t = .awake p) (hu : Undisturbed ⟨s, t, s'⟩) (hne : w ≠ t) :
    inUse (s.ctl w).point ≠ some u := by
  intro hw
  have ht : Has s.mem t p := by
    have ht := h.has t
    rwa [hp] at ht
  have hflag : holds p = true → (s.mem.tcb u).pthrid = some w ∧ ∃ next, (s.ctl w).point = .lockFlag (some u) next := by
    intro hholds
    obtain hholds' | ⟨next, hflag⟩ := inUse_holds (hheld.shape w) hw
    · exact absurd (hheld.unique hholds' (by rw [hp]; exact hholds)) hne
    · have hwhas := h.has w
      rw [hflag] at hwhas
      exact ⟨hwhas, next, hflag⟩
  cases hc with
  | activate u =>
    obtain ⟨hmine, _⟩ := hflag rfl
    have hnone : (s.mem.tcb u).pthrid = none := ht
    rw [hmine] at hnone
    cases hnone
  | restart u =>
    obtain ⟨hmine, next, hpoint⟩ := hflag rfl
    obtain hdetached | hjoined := ht w hmine
    · have hleaving := h.detached w hdetached
      rw [hpoint] at hleaving
      cases hleaving
    · rw [h.exited w (h.joined w hjoined)] at hpoint
      cases hpoint
  | starter u => exact hu u (by rw [hp]; rfl) w hne hw

/-- The handle that another thread has found is left alone. -/
theorem Runs.handle_other {u : τ} (hr : Runs ids t p s.mem s'.mem p') (h : Handles s.mem s.ctl) (hheld : Held s)
    (hp : s.ctl t = .awake p) (hu : Undisturbed ⟨s, t, s'⟩) (hne : w ≠ t) (hw : inUse (s.ctl w).point = some u) :
    (s'.mem.tcb u).pthrid = (s.mem.tcb u).pthrid := by
  obtain ⟨hsame, _⟩ | ⟨_, hreplaces | ⟨_, _, hc⟩⟩ | ⟨_, ⟨⟨_, hc⟩, _⟩⟩ := hr.handle_cases u
  · exact hsame
  · exact absurd hw (hu u (by rw [hp]; exact hreplaces) w hne)
  · exact absurd hw (hc.alone h hheld hp hu hne)
  · exact absurd hw (hc.alone h hheld hp hu hne)

theorem Runs.of_unborn (hr : Runs ids t p m m' p') (hp : p = .unborn) : (m.pthread t).born = true := by
  subst hp
  cases hr with
  | reads hg =>
    cases hg with
    | born hborn => exact hborn
    | killed hk => cases hk
  | created hc => cases hc
  | notCreated hc => cases hc
  | cancels hc => cases hc
  | joins hj => cases hj
  | protects count hc => cases hc
  | cleaned hc => cases hc

theorem Runs.of_gone (hr : Runs ids t p m m' p') (hp : p = .gone) : (m.pthread t).exited = false ∧ p' = .idle := by
  subst hp
  cases hr with
  | reads hg =>
    cases hg with
    | reborn hexited => exact ⟨hexited, rfl⟩
    | killed hk => cases hk
  | created hc => cases hc
  | notCreated hc => cases hc
  | cancels hc => cases hc
  | joins hj => cases hj
  | protects count hc => cases hc
  | cleaned hc => cases hc

theorem Runs.to_gone (hr : Runs ids t p m m' p') (hp : Shape p) (hp' : p' = .gone) : (m'.pthread t).exited = true := by
  cases hr with
  | exits => rw [Mem.setPthread_self]
  | reads hg =>
    cases hg with
    | enters he => cases he <;> cases hp'
    | remove => unfold unlinkWaiting at hp'; split at hp' <;> cases hp'
    | pendUnlink => unfold unlinkWaiting at hp'; split at hp' <;> cases hp'
    | restartSome => unfold unlinkWaiting at hp'; split at hp' <;> cases hp'
    | killed hk => obtain rfl | rfl | ⟨v, rfl⟩ | ⟨v, killed, rfl, _⟩ := hk.cases hp <;> cases hp'
    | foreign | kept | nobody =>
      subst hp'
      exact hp.elim
    | _ => cases hp'
  | counted next =>
    split at hp'
    · cases hp'
    · subst hp'
      exact hp.elim
  | cleared | freed =>
    subst hp'
    exact hp.elim
  | created hc => cases hc <;> cases hp'
  | notCreated hc => cases hc <;> cases hp'
  | cancels hc => cases hc <;> cases hp'
  | joins hj => cases hj <;> cases hp'
  | protects count hc => cases hc <;> cases hp'
  | cleaned hc => cases hc <;> cases hp'
  | _ => cases hp'

theorem next_not_gone (h : (code (ι := ι) ids t p).Next p') (hp : Shape p) : p' ≠ .gone := by
  cases p <;> simp only [code, Instr.Next] at h
  case pendWait self v =>
    obtain ⟨_, rfl⟩ := h
    rintro ⟨⟩
  case notifyWait v next =>
    obtain ⟨_, rfl⟩ := h
    rintro ⟨⟩
  all_goals subst h
  case deleteTunlock tid self v deletable => split <;> [rintro ⟨⟩; (split <;> rintro ⟨⟩)]
  case listUnlock =>
    rintro rfl
    obtain ⟨edit, hnext⟩ := hp
    cases edit <;> exact hnext.elim
  case notifyDunlock =>
    rintro rfl
    exact hp.elim
  case notifyKilled v killed => obtain rfl | rfl := hp <;> rintro ⟨⟩
  all_goals rintro ⟨⟩

omit [DecidableEq θ] [DecidableEq τ] [DecidableEq ι] in
/-- A handle that may be given away belongs to no thread that is running. -/
theorem Handles.vacant (h : Handles s.mem s.ctl) (hv : (s.mem.pthread w).Vacant) :
    (s.ctl w).point = .unborn ∨ (s.ctl w).point = .gone := by
  obtain hborn | hjoined | ⟨_, hexited⟩ := hv
  · exact .inl (congrArg Ctl.point (h.unborn w hborn))
  · exact .inr (congrArg Ctl.point (h.exited w (h.joined w hjoined)))
  · exact .inr (congrArg Ctl.point (h.exited w hexited))

/-- A thread that takes a step has been created, and has not exited. -/
theorem Runs.alive (hr : Runs ids t p s.mem s'.mem p') (h : Handles s.mem s.ctl) (hp : s.ctl t = .awake p) :
    (s.mem.pthread t).born = true ∧ (s.mem.pthread t).exited = false := by
  constructor
  · cases hborn : (s.mem.pthread t).born with
    | true => rfl
    | false =>
      have hpoint : p = .unborn := Ctl.awake.inj (hp.symm.trans (h.unborn t hborn))
      rw [hr.of_unborn hpoint] at hborn
      cases hborn
  · refine Bool.eq_false_iff.mpr fun hexited => ?_
    rw [(hr.of_gone (Ctl.awake.inj (hp.symm.trans (h.exited t hexited)))).1] at hexited
    cases hexited

/-- A step does not create its own thread. -/
theorem Runs.not_created (hr : Runs ids t p s.mem s'.mem p') (h : Handles s.mem s.ctl) (hp : s.ctl t = .awake p) {u : τ} :
    ¬ Created p p' s.mem s'.mem u t := by
  intro hc
  obtain ⟨hborn, hexited⟩ := hr.alive h hp
  obtain hunborn | hjoined | ⟨_, hgone⟩ := hc.vacant
  · rw [hborn] at hunborn
    cases hunborn
  · rw [h.joined t hjoined] at hexited
    cases hexited
  · rw [hgone] at hexited
    cases hexited

/-! What the library still knows of. -/

omit [DecidableEq θ] [DecidableEq ι] in
/-- `taskInit` puts nothing on the list but its own control block. -/
theorem Mem.append_eq {v : τ} {accepted : Bool} (h : m.append v accepted = some m') :
    m'.tcb = m.tcb ∧ ∀ u ∈ m'.taskList, u = v ∨ u ∈ m.taskList := by
  unfold Mem.append at h
  repeat' split at h
  all_goals cases h
  · refine ⟨rfl, fun u hu => ?_⟩
    obtain hu | hu := List.mem_append.mp hu
    · exact .inr ((List.takeWhile_sublist _).subset hu)
    · exact .inl (List.mem_singleton.mp hu)
  · refine ⟨rfl, fun u hu => ?_⟩
    obtain hu | hu := List.mem_append.mp hu
    · exact .inr hu
    · exact .inl (List.mem_singleton.mp hu)
  · exact ⟨rfl, fun u hu => .inr hu⟩

omit [DecidableEq θ] [DecidableEq ι] in
theorem nxtTask_mem {u v : τ} (h : m.nxtTask u = some v) : v = u ∨ v ∈ m.taskList := by
  unfold Mem.nxtTask at h
  split at h
  · exact .inl (Option.some.inj h).symm
  · have htail := List.mem_of_mem_tail (List.mem_of_mem_head? h)
    exact .inr ((List.dropWhile_sublist _).subset htail)

/-- A task that comes on the list has no thread yet. -/
theorem Runs.listed (hr : Runs ids t p m m' p') {u : τ} (hu : u ∈ m'.taskList) :
    u ∈ m.taskList ∨ (m'.tcb u).pthrid = none := by
  cases hr with
  | edited edit next he =>
    cases edit with
    | init v pri policy =>
      obtain ⟨htcb, hlist⟩ := Mem.append_eq he
      obtain rfl | hu := hlist u hu
      · refine .inr ?_
        rw [htcb, Mem.setTcb_self]
        rfl
      · exact .inl hu
    | raise task =>
      cases task <;> cases he <;> exact .inl hu
    | restore =>
      obtain ⟨task, _, heq⟩ := Option.map_eq_some_iff.mp he
      cases task <;> cases heq <;> exact .inl hu
    | link v w =>
      cases he
      exact .inl hu
    | unlink id entry =>
      cases he
      exact .inl hu
    | remove v =>
      simp only [Edit.run, Mem.takeOff] at he
      repeat' split at he
      all_goals cases he
      · exact .inl hu
      · exact .inl (List.mem_of_mem_erase hu)
      · exact .inl hu
  | cancels hc he =>
    obtain ⟨_, _, rfl⟩ := Mem.cancel_eq he
    exact .inl hu
  | joins hj he =>
    obtain ⟨_, _, ⟨_, rfl⟩ | ⟨_, rfl⟩⟩ := Mem.join_eq he <;> exact .inl hu
  | detaches he =>
    obtain ⟨_, _, rfl⟩ := Mem.detach_eq he
    exact .inl hu
  | cleaned =>
    unfold Mem.cleanup at hu
    split at hu <;> exact .inl hu
  | _ => exact .inl hu

omit [DecidableEq ι] in
theorem Goes.seen (hg : Goes t m p p') (hp : Shape p) {u : τ} (hu : seen p' = some u) :
    Lifecycle.seen p = some u ∨ u ∈ m.taskList := by
  cases hg with
  | enters he => cases he <;> cases hu
  | lockFind next htask =>
    cases (show _ = some u from hu)
    exact .inr (Mem.myTask_some htask).1
  | lockTest task next => exact .inl hu
  | activateDead h =>
    cases hu
    exact .inr (Mem.taskFor_listed h)
  | remove v next =>
    unfold unlinkWaiting at hu
    split at hu <;> cases hu
  | pendUnlink =>
    unfold unlinkWaiting at hu
    split at hu <;> cases hu
  | restartSome _ h =>
    unfold unlinkWaiting at hu
    split at hu <;> cases hu <;> exact .inr (Mem.taskFor_listed h)
  | forceSome self next h =>
    cases hu
    exact .inr (Mem.taskFor_listed h)
  | sliceApply v policy =>
    obtain rfl | hlisted := nxtTask_mem hu
    · exact .inl rfl
    · exact .inr hlisted
  | killed hk => obtain rfl | rfl | ⟨v, rfl⟩ | ⟨v, killed, rfl, _⟩ := hk.cases hp <;> cases hu
  | foreign next => cases p' <;> first | exact hp.elim | cases hu
  | kept next => cases p' <;> first | exact hp.elim | cases hu
  | nobody v next => cases p' <;> first | exact hp.elim | exact .inl hu
  | _ => first | exact .inl hu | cases hu

theorem Runs.seen (hr : Runs ids t p m m' p') (hp : Shape p) {u : τ} (hu : seen p' = some u) :
    Lifecycle.seen p = some u ∨ u ∈ m.taskList := by
  cases hr with
  | reads hg => exact hg.seen hp hu
  | flagged task next => exact .inl hu
  | counted next =>
    split at hu
    · cases hu
    · cases next <;> first | exact hp.elim | cases hu
  | cleared next => cases p' <;> first | exact hp.elim | cases hu
  | edited edit next he =>
    obtain ⟨self, rfl⟩ := Sectioned.willUse hp hu
    cases edit
    case unlink => exact .inl hu
    all_goals exact hp.elim
  | freed next => cases p' <;> first | exact hp.elim | cases hu
  | created hc => cases hc <;> cases hu
  | notCreated hc => cases hc <;> cases hu
  | cancels hc => cases hc <;> exact .inl hu
  | joins hj => cases hj <;> first | exact .inl hu | cases hu
  | prioStored pri h =>
    cases hu
    exact .inr (Mem.taskFor_listed h)
  | sliceSet => exact .inr (List.mem_of_mem_head? hu)
  | protects count hc => cases hc <;> cases hu
  | cleaned hc => cases hc <;> cases hu
  | _ => first | exact .inl hu | cases hu

theorem next_seen (h : (code (ι := ι) ids t p).Next p') (hp : Shape p) {u : τ} (hu : seen p' = some u) :
    seen p = some u := by
  cases p <;> simp only [code, Instr.Next] at h
  case pendWait self v =>
    obtain ⟨_, rfl⟩ := h
    cases hu
  case notifyWait v next =>
    obtain ⟨_, rfl⟩ := h
    exact hu
  all_goals subst h
  case deleteTunlock tid self v deletable => revert hu; split <;> [rintro ⟨⟩; (split <;> rintro ⟨⟩)]
  case listLock edit next => cases edit <;> exact hu
  case listUnlock =>
    obtain ⟨edit, hnext⟩ := hp
    cases p'
    case listLock e n =>
      cases edit
      case unlink => cases e <;> first | exact hnext.elim | cases hu
      all_goals exact hnext.elim
    all_goals first | exact hu | cases edit <;> exact hnext.elim
  case notifyDunlock => cases p' <;> first | exact hp.elim | exact hu
  case notifyKilled v killed => obtain rfl | rfl := hp <;> cases hu
  all_goals exact hu

/-- What the library knows of after a step it knew of before, or it has just been made. -/
theorem Runs.known (hr : Runs ids t p s.mem s'.mem p') (hheld : Held s) (hp : s.ctl t = .awake p)
    (hp' : s'.ctl t = .awake p') (hother : ∀ w ≠ t, s'.ctl w = s.ctl w) {u : τ} (hu : Known s'.mem s'.ctl u) :
    Known s.mem s.ctl u ∨ (s'.mem.tcb u).pthrid = none := by
  obtain hlisted | ⟨w, hw⟩ := hu
  · exact (hr.listed hlisted).imp .inl id
  · refine .inl ?_
    by_cases hwt : w = t
    · subst hwt
      have hshape := hheld.shape w
      rw [hp] at hshape
      rw [hp'] at hw
      obtain hseen | hlisted := hr.seen hshape hw
      · exact .inr ⟨w, by rw [hp]; exact hseen⟩
      · exact .inl hlisted
    · exact .inr ⟨w, by rw [← hother w hwt]; exact hw⟩

omit [DecidableEq θ] [DecidableEq τ] [DecidableEq ι] in
/-- The handle of a new thread is in no control block but its own. -/
theorem Fresh.apart (hf : Fresh ⟨s, t, s'⟩) (hp : s.ctl t = .awake p) {u v : τ} (hc : Created p p' s.mem s'.mem u w)
    (hv : Known s.mem s.ctl v) (hw : (s.mem.tcb v).pthrid = some w) : v = u := by
  by_contra hne
  obtain ⟨failed, hpoint⟩ := hc.point
  exact (hf u (by rw [hp]; exact hpoint.creates) w hc.pthrid).2 v hne hv hw

theorem Runs.handles (hr : Runs ids t p s.mem s'.mem p') (h : Handles s.mem s.ctl) (hheld : Held s)
    (hp : s.ctl t = .awake p) (hp' : s'.ctl t = .awake p') (hother : ∀ w ≠ t, s'.ctl w = s.ctl w)
    (hu : Undisturbed ⟨s, t, s'⟩) (hf : Fresh ⟨s, t, s'⟩) : Handles s'.mem s'.ctl := by
  obtain ⟨hborn, hexited⟩ := hr.alive h hp
  have hold : ∀ u, Known s.mem s.ctl u → ∀ w, (s.mem.tcb u).pthrid = some w →
      (s'.mem.pthread w).task = some u ∧ (s'.mem.pthread w).born = true := by
    intro u hknown w hw
    obtain ⟨htask, hb⟩ := h.task u hknown w hw
    obtain hout | ⟨v, hc⟩ := hr.outlives w
    · exact ⟨hout.task.trans htask, hout.born.trans hb⟩
    · obtain rfl := hf.apart hp hc hknown hw
      rw [hc.thread]
      exact ⟨rfl, rfl⟩
  refine ⟨fun u hknown w hw => ?_, fun u hd => ?_, fun w hb => ?_, fun w he => ?_, fun w hj => ?_, fun w hd => ?_,
    fun w hg => ?_, fun w => ?_⟩
  · obtain ⟨hsame, _⟩ | ⟨hnone, _⟩ | ⟨v, hc⟩ := hr.handle_cases u
    · obtain hknown | hnone := hr.known hheld hp hp' hother hknown
      · exact hold u hknown w (hsame ▸ hw)
      · rw [hnone] at hw
        cases hw
    · rw [hnone] at hw
      cases hw
    · obtain rfl : v = w := Option.some.inj (hc.pthrid.symm.trans hw)
      rw [hc.thread]
      exact ⟨rfl, rfl⟩
  · obtain ⟨hsame, hdead⟩ | ⟨hnone, _⟩ | ⟨v, hc⟩ := hr.handle_cases u
    · rw [hsame]
      exact h.dead u (hdead ▸ hd)
    · exact hnone
    · rw [hc.dead] at hd
      cases hd
  · obtain hout | ⟨v, hc⟩ := hr.outlives w
    · have hw := hout.born.symm.trans hb
      have hne : w ≠ t := by
        rintro rfl
        rw [hborn] at hw
        cases hw
      rw [hother w hne]
      exact h.unborn w hw
    · rw [hc.thread] at hb
      cases hb
  · have hbefore : (s.mem.pthread w).exited = true → s'.ctl w = .awake .gone := by
      intro hbefore
      have hne : w ≠ t := by
        rintro rfl
        rw [hexited] at hbefore
        cases hbefore
      rw [hother w hne]
      exact h.exited w hbefore
    obtain hsame | ⟨u, hc⟩ | hcancelled | ⟨_, _, hjoined⟩ | ⟨_, _, _, _, hdetached⟩ | ⟨rfl, rfl, _⟩ := hr.thread_cases w
    · exact hbefore (hsame ▸ he)
    · rw [hc.thread] at he
      cases he
    · exact hbefore (by rwa [hcancelled] at he)
    · exact hbefore (by rwa [hjoined] at he)
    · exact hbefore (by rwa [hdetached] at he)
    · exact hp'
  · obtain hsame | ⟨u, hc⟩ | hcancelled | ⟨hgone, _, hjoined⟩ | ⟨_, _, _, _, hdetached⟩ | ⟨_, _, hdone⟩ := hr.thread_cases w
    · rw [hsame] at hj ⊢
      exact h.joined w hj
    · rw [hc.thread] at hj
      cases hj
    · rw [hcancelled] at hj ⊢
      exact h.joined w hj
    · rw [hjoined]
      exact hgone
    · rw [hdetached] at hj ⊢
      exact h.joined w hj
    · rw [hdone]
  · have hbefore : (s.mem.pthread w).detached = true → Lifecycle.leaving (s'.ctl w).point = true := by
      intro hbefore
      have hleaving := h.detached w hbefore
      by_cases hw : w = t
      · subst hw
        rw [hp] at hleaving
        rw [hp']
        refine hr.leaving ?_ hleaving
        rintro rfl
        obtain hgone | hattached := h.gone w (by rw [hp]; rfl)
        · rw [hgone] at hexited
          cases hexited
        · rw [hbefore] at hattached
          cases hattached
      · rwa [hother w hw]
    obtain hsame | ⟨u, hc⟩ | hcancelled | ⟨_, _, hjoined⟩ | ⟨u, rfl, rfl, hw, _⟩ | ⟨_, _, hdone⟩ := hr.thread_cases w
    · exact hbefore (hsame ▸ hd)
    · rw [hc.thread] at hd
      cases hd
    · exact hbefore (by rwa [hcancelled] at hd)
    · exact hbefore (by rwa [hjoined] at hd)
    · -- a thread detaches itself only
      have hmine : (s.mem.tcb u).pthrid = some t := by
        have hmine := h.has t
        rwa [hp] at hmine
      obtain rfl : t = w := Option.some.inj (hmine.symm.trans hw)
      rw [hp']
      rfl
    · exact hbefore (by rwa [hdone] at hd)
  · have hbefore : w ≠ t → (s.mem.pthread w).exited = true ∨ (s.mem.pthread w).detached = false := fun hne =>
      h.gone w (by rw [← hother w hne]; exact hg)
    by_cases hwt : w = t
    · subst hwt
      have hshape := hheld.shape w
      rw [hp] at hshape
      rw [hp'] at hg
      exact .inl (hr.to_gone hshape hg)
    · obtain hsame | ⟨u, hc⟩ | hcancelled | ⟨_, _, hjoined⟩ | ⟨u, rfl, _, hw, _⟩ | ⟨he, _⟩ := hr.thread_cases w
      · rw [hsame]
        exact hbefore hwt
      · rw [hc.thread]
        exact .inr rfl
      · rw [hcancelled]
        exact hbefore hwt
      · rw [hjoined]
        exact hbefore hwt
      · have hmine : (s.mem.tcb u).pthrid = some t := by
          have hmine := h.has t
          rwa [hp] at hmine
        exact absurd (Option.some.inj (hw.symm.trans hmine)) hwt
      · exact absurd he hwt
  · by_cases hw : w = t
    · subst hw
      have hshape := hheld.shape w
      have hhas := h.has w
      rw [hp] at hshape hhas
      rw [hp']
      exact hr.has hshape hhas h.dead
    · rw [hother w hw]
      refine (h.has w).keep (fun u hin => hr.handle_other h hheld hp hu hw hin) (fun u v hin hv hgone => ?_) (hheld.shape w)
      obtain hout | ⟨u', hc⟩ := hr.outlives v
      · exact hgone.imp hout.detached hout.joined
      · -- nobody else uses the control block of a new thread
        obtain rfl := hf.apart hp hc (.inr ⟨w, seen_of_inUse hin⟩) hv
        obtain ⟨failed, hpoint⟩ := hc.point
        exact absurd hin (hpoint.alone h hheld hp hu hw)

theorem handles_step (h : Handles s.mem s.ctl) (hheld : Held s) (hs : Step (code ids) t s s')
    (hu : Undisturbed ⟨s, t, s'⟩) (hf : Fresh ⟨s, t, s'⟩) : Handles s'.mem s'.ctl := by
  obtain ⟨hm, hblock, hpoint⟩ | ⟨p, p', hp, hp', hr, _⟩ := step_cases hs
  · rw [hm]
    have hother : ∀ w q, s.ctl w = .awake q → (∃ block, code (ι := ι) ids w q = .run block) → s'.ctl w = .awake q := by
      rintro w q hq ⟨block, hi⟩
      have hne : w ≠ t := by
        rintro rfl
        refine hblock block ?_
        rw [hq]
        exact hi
      rw [hs.ctl_other hne, hq]
    have hknown : ∀ u, Known s.mem s'.ctl u → Known s.mem s.ctl u := by
      rintro u (hlisted | ⟨w, hw⟩)
      · exact .inl hlisted
      · refine .inr ⟨w, ?_⟩
        by_cases hwt : w = t
        · subst hwt
          obtain heq | hnext := hpoint
          · rwa [← heq]
          · exact next_seen hnext (hheld.shape w) hw
        · rwa [← hs.ctl_other hwt]
    refine ⟨fun u hu => h.task u (hknown u hu), h.dead, fun w hb => hother w _ (h.unborn w hb) ⟨_, rfl⟩, fun w he => hother w _ (h.exited w he) ⟨_, rfl⟩,
      h.joined, fun w hd => ?_, fun w hg => ?_, fun w => ?_⟩
    · have hleaving := h.detached w hd
      by_cases hw : w = t
      · subst hw
        cases hp : (s.ctl w).point
        case restartTimer u =>
          rw [hp] at hblock
          exact absurd rfl (hblock _)
        case dying =>
          rw [hp] at hblock
          exact absurd rfl (hblock _)
        case exit =>
          rw [hp] at hblock
          exact absurd rfl (hblock _)
        case gone =>
          rw [hp] at hblock
          exact absurd rfl (hblock _)
        all_goals
          rw [hp] at hleaving
          cases hleaving
      · rwa [hs.ctl_other hw]
    · refine h.gone w ?_
      by_cases hw : w = t
      · subst hw
        obtain heq | hnext := hpoint
        · rwa [← heq]
        · exact absurd hg (next_not_gone hnext (hheld.shape w))
      · rwa [← hs.ctl_other hw]
    · by_cases hw : w = t
      · subst hw
        obtain heq | hnext := hpoint
        · rw [heq]
          exact h.has w
        · exact next_has hnext (hheld.shape w) (h.has w)
      · rw [hs.ctl_other hw]
        exact h.has w
  · exact hr.handles h hheld hp hp' (fun w hw => hs.ctl_other hw) hu hf

end

end

end V2lin.Lifecycle
