import V2lin.Lifecycle.Ownership
import V2lin.Lifecycle.Removal
import V2lin.Lifecycle.Uses

/-! The memory of the control blocks.

`taskSpawn` allocates a control block and has `taskInit` put it on the list; `task_delete`
takes it off and frees it. As long as the user passes no memory of the heap's to `taskInit`
this is the scheme of `Ownership`: the scheduler lock is what lets one thread only work on
the tasks that are on the list. No part of the scheme is a control block that has been found
without that lock, by `taskLock` for its caller or by `self_starter`, or that a deleter has
kept while it gave the lock up to wait. -/
namespace V2lin.Lifecycle
open Threads V2lin.Task V2lin.TaskLib

section
variable {θ τ ι : Type}

def Mem.register (m : Mem θ τ ι) : Register τ := ⟨m.taskList, m.looped, m.heap, fun u => (m.tcb u).staticTask⟩

/-- What a thread does with a control block at a point. -/
def role : Pc τ ι → Role τ
  | .initLock u _ .idle | .initFlag u _ .idle | .listLock (.init u _ _) .idle | .listEdit (.init u _ _) .idle => .brings u
  | .initLock u _ _ | .initFlag u _ _ | .listLock (.init u _ _) _ | .listEdit (.init u _ _) _ => .makes u
  | .spawnTid u _ _ | .spawnFree u _ => .makes u
  | .spawnName u _ => .names u
  | .free u _ => .removed u
  | .listLock (.unlink _ _) next | .listEdit (.unlink _ _) next | .listUnlock next => role next
  | .remove u _ | .listLock (.remove u) _ | .listEdit (.remove u) _ => .works u
  | .activateCreate u | .restartSplit _ u | .restartCancel u | .restartJoin u | .restartCreate u => .works u
  | .restartDetach u | .restartTimer u => .works u
  | .notifyTest u (.forceSplit _ _ _) | .notifyDlock u (.forceSplit _ _ _) => .works u
  | .notifyTlock u (.forceSplit _ _ _) | .notifyBroadcast u (.forceSplit _ _ _) => .works u
  | .notifyTunlock u (.forceSplit _ _ _) | .notifyDrain u (.forceSplit _ _ _) => .works u
  | .notifyWait u (.forceSplit _ _ _) | .notifyWoken u (.forceSplit _ _ _) => .works u
  | .notifyDunlock u (.forceSplit _ _ _) => .works u
  | .forceSplit _ u _ | .forceCancel u _ | .forceJoin u _ => .works u
  | .prioSplit _ u | .prioAttr u | .prioApply u | .sliceTask (some u) _ | .sliceApply u _ => .works u
  | .deleteTlock _ _ u | .deleteTest _ _ u | .deleteTunlock _ _ u _ => .works u
  | .pendLink _ u | .listLock (.link u _) _ | .listEdit (.link u _) _ | .pendTlock _ u => .works u
  | .safeTlock u | .safeCount u | .safeTunlock u | .unsafeTlock u | .unsafeCount u | .unsafeTunlock u _ => .works u
  | _ => .bystander

/-- A point speaks of one control block only. -/
def Paired : Pc τ ι → Prop
  | .initLock u pri next | .initFlag u pri next | .listLock (.init u pri _) next | .listEdit (.init u pri _) next =>
      next = .idle ∨ (∃ tid, next = .spawnName u tid ∧ Legal pri) ∨ ∃ tid, next = .spawnFree u tid ∧ ¬ Legal pri
  | .listLock (.link u _) next | .listEdit (.link u _) next => ∃ self, next = .pendTlock self u
  | .listLock (.remove u) next | .listEdit (.remove u) next => ∃ after, next = .free u after
  | .listLock (.unlink _ _) next | .listEdit (.unlink _ _) next | .listUnlock next => Paired next
  | .notifyTest u (.forceSplit _ v _) | .notifyDlock u (.forceSplit _ v _) => v = u
  | .notifyTlock u (.forceSplit _ v _) | .notifyBroadcast u (.forceSplit _ v _) => v = u
  | .notifyTunlock u (.forceSplit _ v _) | .notifyDrain u (.forceSplit _ v _) => v = u
  | .notifyWait u (.forceSplit _ v _) | .notifyWoken u (.forceSplit _ v _) => v = u
  | .notifyDunlock u (.forceSplit _ v _) => v = u
  | _ => True

variable {p p' next : Pc τ ι} {u v : τ}

theorem Back.plays (h : Back p) : role p = .bystander ∧ Paired p := by
  cases p <;> first | exact ⟨rfl, trivial⟩ | exact h.elim

theorem Released.plays (h : Released p) : role p = .bystander ∧ Paired p := by
  cases p <;> first | exact ⟨rfl, trivial⟩ | exact h.elim

theorem Acquired.plays (h : Acquired p) : role p = .bystander ∧ Paired p := by
  cases p <;> first | exact ⟨rfl, trivial⟩ | exact h.elim

theorem Notified.cases (h : Notified p) : p = .idle ∨ ∃ self u after, p = .forceSplit self u after := by
  cases p
  case idle => exact .inl rfl
  case forceSplit self u after => exact .inr ⟨self, u, after, rfl⟩
  all_goals exact h.elim

theorem Sectioned.role_locks {edit : Edit τ ι} (h : Sectioned edit p) (hr : (role p).locks = true) :
    holds p = true ∨ takesOff p = true := by
  cases edit
  case raise =>
    have hacquired : Acquired p := h
    rw [hacquired.plays.1] at hr
    cases hr
  case unlink id entry =>
    cases p
    case listLock edit next =>
      cases edit
      case remove => exact .inr rfl
      all_goals exact h.elim
    case restartSplit => exact .inl rfl
    case pendCheck => cases hr
    all_goals exact h.elim
  case remove =>
    cases p
    case free => exact .inr rfl
    all_goals exact h.elim
  case link => cases p <;> first | exact h.elim | exact .inl rfl
  all_goals cases p <;> first | exact h.elim | cases hr

/-- Who works on a task that is on the list has the scheduler lock. -/
theorem role_locks (hp : Shape p) (hr : (role p).locks = true) : holds p = true ∨ takesOff p = true := by
  cases p
  case listLock edit next =>
    cases edit
    case raise => exact .inl rfl
    case unlink id entry =>
      have hsection : Sectioned (.unlink id entry) next := hp
      exact hsection.role_locks hr
    case remove => exact .inr rfl
    case link => exact .inl rfl
    case init => cases next <;> cases hr
    all_goals cases hr
  case listEdit edit next =>
    cases edit
    case raise => exact .inl rfl
    case unlink id entry =>
      have hsection : Sectioned (.unlink id entry) next := hp
      exact hsection.role_locks hr
    case remove => exact .inr rfl
    case link => exact .inl rfl
    case init => cases next <;> cases hr
    all_goals cases hr
  case listUnlock next =>
    obtain ⟨edit, hp⟩ := hp
    exact hp.role_locks hr
  case notifyTest u next | notifyDlock u next | notifyTlock u next | notifyBroadcast u next | notifyTunlock u next |
      notifyDrain u next | notifyWait u next | notifyWoken u next | notifyDunlock u next =>
    obtain rfl | ⟨self, v, after, rfl⟩ := Notified.cases hp
    · cases hr
    · exact .inl rfl
  case sliceTask => exact .inl rfl
  case initLock u pri next => cases next <;> cases hr
  case initFlag u pri next => cases next <;> cases hr
  all_goals first
    | exact .inl rfl
    | exact .inr rfl
    | cases hr

/-! ### Steps -/

section
variable [DecidableEq τ] {r r' : Register τ}

theorem turns_bystander (h : role p' = .bystander) : r.Step (role p) r (role p') := h ▸ .leaves r _

theorem turns_same (h : role p' = role p) : r.Step (role p) r (role p') := h ▸ .keeps r _

variable [DecidableEq θ] {t w : θ} {m m' : Mem θ τ ι}

omit [DecidableEq θ] in
theorem register_setTcb (m : Mem θ τ ι) {b : Tcb θ τ ι} (h : b.staticTask = (m.tcb u).staticTask) :
    (m.setTcb u b).register = m.register := by
  have hstatic : (fun v => ((m.setTcb u b).tcb v).staticTask) = fun v => (m.tcb v).staticTask :=
    funext (Mem.setTcb_congr (·.staticTask) m h)
  show (⟨m.taskList, m.looped, m.heap, _⟩ : Register τ) = _
  rw [hstatic]
  rfl

omit [DecidableEq τ] [DecidableEq θ] in
theorem register_unlinkWaiting (m : Mem θ τ ι) (hp : Paired next) :
    role (unlinkWaiting u next m) = role next ∧ Paired (unlinkWaiting u next m) := by
  unfold unlinkWaiting
  split <;> exact ⟨rfl, hp⟩

/-- The control block that the user passes to `taskInit`. -/
def handsOver : Pc τ ι → Option τ
  | .enter (.taskInit task _ _) => task
  | _ => none

/-- The user passes `taskInit` no memory of the heap's. -/
def InitsOwn (x : LifeTransition θ τ ι) : Prop :=
  ∀ u, handsOver (x.pre.ctl x.thread).point = some u → x.pre.mem.heap u = .user

/-- What a step does with the control blocks, and that it goes on to a point that speaks of
the same one. -/
def Plays (m : Mem θ τ ι) (p : Pc τ ι) (m' : Mem θ τ ι) (p' : Pc τ ι) : Prop :=
  m.register.Step (role p) m'.register (role p') ∧ Paired p'

omit [DecidableEq θ] in
theorem plays_of_register (h : m'.register = m.register) (hs : m.register.Step (role p) m.register (role p'))
    (hp : Paired p') : Plays m p m' p' := by
  refine ⟨?_, hp⟩
  rwa [h]

theorem Goes.plays (hg : Goes t m p p') (hshape : Shape p) (hp : Paired p)
    (hown : ∀ u, handsOver p = some u → m.heap u = .user) : Plays m p m p' := by
  cases hg with
  | enters he =>
    cases he with
    | init u pri => exact ⟨.brings (hown u rfl), .inl rfl⟩
    | _ => exact ⟨turns_bystander rfl, trivial⟩
  | foreign next =>
    have hnext : Released p' := hshape
    exact ⟨turns_bystander hnext.plays.1, hnext.plays.2⟩
  | kept next =>
    have hnext : Back p' := hshape
    exact ⟨turns_bystander hnext.plays.1, hnext.plays.2⟩
  | remove u next =>
    obtain ⟨hrole, hpaired⟩ := register_unlinkWaiting (u := u) m
      (show Paired (.listLock (.remove u) (.free u next)) from ⟨next, rfl⟩)
    exact ⟨turns_same hrole, hpaired⟩
  | spawnRefused u pri => exact ⟨turns_same rfl, trivial⟩
  | spawnInit u h => exact ⟨turns_same rfl, .inr (.inl ⟨_, rfl, h⟩)⟩
  | spawnIllegal u h => exact ⟨turns_same rfl, .inr (.inr ⟨_, rfl, h⟩)⟩
  | initFlag u pri next =>
    refine ⟨turns_same ?_, hp⟩
    cases next <;> rfl
  | activateDead h => exact ⟨.finds _ (Mem.taskFor_listed h), trivial⟩
  | deleteSome self h => exact ⟨.finds _ (Mem.taskFor_listed h), trivial⟩
  | deleteTest => exact ⟨turns_same rfl, trivial⟩
  | pendAlone u => exact ⟨turns_same rfl, trivial⟩
  | pendLink u v => exact ⟨turns_same rfl, _, rfl⟩
  | safeFind h => exact ⟨.finds _ (Mem.myTask_some h).1, trivial⟩
  | unsafeFind h => exact ⟨.finds _ (Mem.myTask_some h).1, trivial⟩
  | pendUnlink u v =>
    obtain ⟨hrole, hpaired⟩ := register_unlinkWaiting (u := v) m (show Paired (.pendCheck u) from trivial)
    exact ⟨turns_bystander hrole, hpaired⟩
  | forceSome self next h => exact ⟨.finds _ (Mem.taskFor_listed h), rfl⟩
  | forceSelf u next => exact ⟨turns_same rfl, trivial⟩
  | forceOther next => exact ⟨turns_same rfl, trivial⟩
  | nobody u next =>
    obtain rfl | ⟨self, v, after, rfl⟩ := Notified.cases hshape
    · exact ⟨turns_bystander rfl, trivial⟩
    · cases (show v = u from hp)
      exact ⟨turns_same rfl, trivial⟩
  | notifies u next | undrained u next | drained u next | notifyWoken u next =>
    obtain rfl | ⟨self, v, after, rfl⟩ := Notified.cases hshape
    · exact ⟨turns_bystander rfl, trivial⟩
    · exact ⟨turns_same rfl, hp⟩
  | @restartSome _ self u _ h =>
    obtain ⟨hrole, hpaired⟩ := register_unlinkWaiting (u := u) m (show Paired (.restartSplit self u) from trivial)
    refine ⟨?_, hpaired⟩
    rw [hrole]
    exact .finds _ (Mem.taskFor_listed h)
  | restartOther => exact ⟨turns_same rfl, trivial⟩
  | restartSelf => exact ⟨turns_same rfl, trivial⟩
  | prioOther => exact ⟨turns_same rfl, trivial⟩
  | @sliceApply u policy =>
    refine ⟨?_, trivial⟩
    cases hnext : m.nxtTask u with
    | none => exact turns_bystander rfl
    | some v =>
      obtain rfl | hv := nxtTask_mem hnext
      · exact turns_same rfl
      · exact .finds _ hv
  | killed hk =>
    obtain rfl | rfl | ⟨u, rfl⟩ | ⟨u, killed, rfl, _⟩ := hk.cases hshape <;> exact ⟨turns_bystander rfl, trivial⟩
  | _ => exact ⟨turns_bystander rfl, trivial⟩

variable [DecidableEq ι] {ids : τ → ℤ}

omit [DecidableEq θ] [DecidableEq ι] in
theorem register_append (m : Mem θ τ ι) {b : Tcb θ τ ι} (hb : b.staticTask = true) {accepted : Bool}
    (h : (m.setTcb u b).append u accepted = some m') : m.register.Appended m'.register u accepted := by
  have hstatic : (fun v => ((m.setTcb u b).tcb v).staticTask) =
      Function.update (fun v => (m.tcb v).staticTask) u true := by
    funext v
    by_cases hv : v = u
    · rw [hv, Mem.setTcb_self, Function.update_self, hb]
    · rw [Mem.setTcb_of_ne _ _ hv, Function.update_of_ne hv]
  unfold Mem.append at h
  split at h
  · rename_i hu
    cases h
    exact ⟨rfl, hstatic, .inl ⟨hu, rfl⟩⟩
  · rename_i hu
    split at h
    · rename_i haccepted
      split at h
      · cases h
      · rename_i hopen
        cases h
        exact ⟨rfl, hstatic, .inr ⟨hu, rfl, .inr ⟨haccepted, Bool.eq_false_iff.mpr hopen, rfl⟩⟩⟩
    · rename_i haccepted
      cases h
      exact ⟨rfl, hstatic, .inr ⟨hu, rfl, .inl ⟨Bool.eq_false_iff.mpr haccepted, rfl⟩⟩⟩

omit [DecidableEq θ] [DecidableEq ι] in
theorem register_takeOff (h : m.takeOff u = some m') : m.register.TakenOff m'.register u := by
  unfold Mem.takeOff at h
  split at h
  · split at h
    · rename_i hlast
      cases h
      exact ⟨rfl, rfl, rfl, .inl ⟨hlast.1, hlast.2, rfl⟩⟩
    · rename_i hlast
      cases h
      exact ⟨rfl, rfl, rfl, .inr ⟨hlast, rfl⟩⟩
  · rename_i hu
    split at h
    · cases h
    · rename_i hopen
      cases h
      exact ⟨rfl, rfl, rfl, .inr ⟨fun hlast => hopen hlast.1, (List.erase_of_not_mem hu).symm⟩⟩

theorem Edit.plays {edit : Edit τ ι} (h : edit.run ids t m = some m') (hshape : Sectioned edit next)
    (hp : Paired (.listEdit edit next)) : Plays m (.listEdit edit next) m' (.listUnlock next) := by
  cases edit with
  | init u pri policy =>
    obtain rfl | ⟨tid, rfl, hlegal⟩ | ⟨tid, rfl, hlegal⟩ := hp
    · exact ⟨.brought (register_append m rfl h), trivial⟩
    · have ha := register_append m rfl h
      rw [decide_eq_true hlegal] at ha
      exact ⟨.accepted ha, trivial⟩
    · have ha := register_append m rfl h
      rw [decide_eq_false hlegal] at ha
      exact ⟨.refused ha, trivial⟩
  | raise task =>
    have hnext : Acquired next := hshape
    have hregister : m'.register = m.register := by
      cases task with
      | none =>
        cases h
        rfl
      | some u =>
        cases h
        exact register_setTcb m rfl
    exact plays_of_register hregister (turns_bystander hnext.plays.1) hnext.plays.2
  | restore =>
    have hregister : m'.register = m.register := by
      obtain ⟨task, _, heq⟩ := Option.map_eq_some_iff.mp h
      cases task with
      | none =>
        cases heq
        rfl
      | some u =>
        cases heq
        exact register_setTcb m rfl
    cases next <;> first | exact hshape.elim | exact plays_of_register hregister (turns_bystander rfl) trivial
  | link u newEntry =>
    cases h
    have hregister := register_setTcb m (u := u)
      (b := {m.tcb u with firstSusp := linkSuspTask (m.tcb u).firstSusp (some newEntry)}) rfl
    obtain ⟨self, rfl⟩ := hp
    exact plays_of_register hregister (turns_same rfl) trivial
  | unlink id entry =>
    cases h
    exact ⟨turns_same rfl, hp⟩
  | remove u =>
    obtain ⟨after, rfl⟩ := hp
    exact ⟨.takesOff (register_takeOff h), trivial⟩

theorem Runs.plays (hr : Runs ids t p m m' p') (hshape : Shape p) (hp : Paired p)
    (hown : ∀ u, handsOver p = some u → m.heap u = .user) : Plays m p m' p' := by
  cases hr with
  | reads hg => exact hg.plays hshape hp hown
  | counted next =>
    have hnext : Released next := hshape
    refine ⟨?_, ?_⟩
    · refine turns_bystander ?_
      split
      · rfl
      · exact hnext.plays.1
    · split
      · trivial
      · exact hnext.plays.2
  | cleared next =>
    have hnext : Released p' := hshape
    exact ⟨turns_bystander hnext.plays.1, hnext.plays.2⟩
  | edited edit next he => exact Edit.plays he hshape hp
  | freed next hstatic =>
    have hnext : Back p' := hshape
    refine ⟨?_, hnext.plays.2⟩
    rw [hnext.plays.1]
    exact .frees hstatic
  | allocated pri opts hfree => exact ⟨.allocates hfree, trivial⟩
  | spawnFree u tid => exact ⟨.discards, trivial⟩
  | named u tid =>
    refine ⟨?_, trivial⟩
    have hregister : (m.setTcb u {m.tcb u with taskid := tid, staticTask := false}).register =
        {m.register with static := Function.update m.register.static u false} := by
      have hstatic : (fun v => ((m.setTcb u {m.tcb u with taskid := tid, staticTask := false}).tcb v).staticTask) =
          Function.update (fun v => (m.tcb v).staticTask) u false := by
        funext v
        by_cases hv : v = u
        · rw [hv, Mem.setTcb_self, Function.update_self]
        · rw [Mem.setTcb_of_ne _ _ hv, Function.update_of_ne hv]
      show (⟨m.taskList, m.looped, m.heap, _⟩ : Register τ) = _
      rw [hstatic]
      rfl
    rw [hregister]
    exact .named
  | @created _ _ u w _ _ hc =>
    have hregister : ((m.setTcb u {m.tcb u with pthrid := none, dead := false}).create u w).register = m.register :=
      (register_setTcb (m.setTcb u _) (by rfl)).trans (register_setTcb m (by rfl))
    cases hc <;> exact plays_of_register hregister (turns_bystander rfl) trivial
  | notCreated hc =>
    cases hc with
    | activate u => exact plays_of_register (register_setTcb m (by rfl)) (turns_same rfl) trivial
    | _ => exact plays_of_register (register_setTcb m (by rfl)) (turns_bystander rfl) trivial
  | cancels hc he =>
    obtain ⟨_, _, rfl⟩ := Mem.cancel_eq he
    cases hc <;> exact ⟨turns_same rfl, trivial⟩
  | joins hj he =>
    have hregister : m'.register = m.register := by
      obtain ⟨_, _, ⟨_, rfl⟩ | ⟨_, rfl⟩⟩ := Mem.join_eq he <;> rfl
    cases hj <;> exact plays_of_register hregister (turns_same rfl) trivial
  | detaches he =>
    obtain ⟨_, _, rfl⟩ := Mem.detach_eq he
    exact ⟨turns_same rfl, trivial⟩
  | prioStored pri h =>
    exact plays_of_register (register_setTcb m (by rfl)) (.finds _ (Mem.taskFor_listed h)) trivial
  | prioAttr u => exact plays_of_register (register_setTcb m (by rfl)) (turns_same rfl) trivial
  | flagSet => exact ⟨turns_bystander rfl, trivial⟩
  | sliceSet ticks enabled policy =>
    refine ⟨?_, trivial⟩
    cases hl : m.taskList.head? with
    | none => exact turns_bystander rfl
    | some v => exact .finds _ (List.mem_of_mem_head? hl)
  | sliceAttr u policy => exact plays_of_register (register_setTcb m (by rfl)) (turns_same rfl) trivial
  | protects count hc =>
    cases hc <;> exact plays_of_register (register_setTcb m (by rfl)) (turns_same rfl) trivial
  | cleaned hc =>
    have hregister : (m.cleanup t).register = m.register := by
      unfold Mem.cleanup
      split <;> rfl
    cases hc <;> exact plays_of_register hregister (turns_bystander rfl) trivial
  | _ => exact ⟨turns_bystander rfl, trivial⟩

theorem next_plays (h : (code (ι := ι) ids t p).Next p') (hshape : Shape p) (hp : Paired p) : Plays m p m p' := by
  cases p <;> simp only [code, Instr.Next] at h
  case pendWait self u =>
    obtain ⟨_, rfl⟩ := h
    exact ⟨turns_bystander rfl, trivial⟩
  case notifyWait u next =>
    obtain ⟨_, rfl⟩ := h
    obtain rfl | ⟨self, v, after, rfl⟩ := Notified.cases hshape
    · exact ⟨turns_bystander rfl, trivial⟩
    · exact ⟨turns_same rfl, hp⟩
  all_goals subst h
  case listLock edit next =>
    refine ⟨turns_same ?_, ?_⟩
    · cases edit <;> first | rfl | cases next <;> rfl
    · cases edit <;> exact hp
  case listUnlock next => exact ⟨turns_same rfl, hp⟩
  case deleteTunlock tid self u deletable =>
    split
    · exact ⟨turns_bystander rfl, trivial⟩
    · split
      · exact ⟨turns_bystander rfl, trivial⟩
      · exact ⟨turns_same rfl, trivial⟩
  case notifyDlock u next | notifyTlock u next | notifyBroadcast u next | notifyTunlock u next =>
    obtain rfl | ⟨self, v, after, rfl⟩ := Notified.cases hshape
    · exact ⟨turns_bystander rfl, trivial⟩
    · exact ⟨turns_same rfl, hp⟩
  case notifyDunlock u =>
    obtain rfl | ⟨self, v, after, rfl⟩ := Notified.cases hshape
    · exact ⟨turns_bystander rfl, trivial⟩
    · cases (show v = u from hp)
      exact ⟨turns_same rfl, trivial⟩
  case notifyKilled u => obtain rfl | rfl := hshape <;> exact ⟨turns_bystander rfl, trivial⟩
  case initLock u pri next => exact ⟨turns_same (by cases next <;> rfl), hp⟩
  case deleteTlock | safeTlock | unsafeTlock => exact ⟨turns_same rfl, trivial⟩
  all_goals exact ⟨turns_bystander rfl, trivial⟩

/-! ### Every run -/

variable {s s' : LifeState θ τ ι}

/-- The scheduler lock, the points, and the ownership of the control blocks. -/
structure Furnished (s : LifeState θ τ ι) : Prop where
  kept : Kept s
  paired : ∀ w, Paired (s.ctl w).point
  owned : s.mem.register.Owned fun w => role (s.ctl w).point

omit [DecidableEq θ] [DecidableEq τ] [DecidableEq ι] in
/-- One thread only works on what is on the list. -/
theorem Kept.role_alone (h : Kept s) (ht : (role (s.ctl t).point).locks = true) (hne : w ≠ t) :
    (role (s.ctl w).point).locks = false := by
  have hmine : ∀ v, (role (s.ctl v).point).locks = true → s.mem.locker = some v := fun v hv =>
    (role_locks (h.held.shape v) hv).elim (h.held.holder v) (h.remover v)
  refine Bool.eq_false_iff.mpr fun hw => hne ?_
  exact Option.some.inj ((hmine w hw).symm.trans (hmine t ht))

theorem furnished_step (h : Furnished s) (hs : Step (code ids) t s s') (hown : InitsOwn ⟨s, t, s'⟩) : Furnished s' := by
  have hshape := h.kept.held.shape t
  have hplays : Plays s.mem (s.ctl t).point s'.mem (s'.ctl t).point := by
    obtain ⟨hm, _, heq | hnext⟩ | ⟨p, p', hp, hp', hr, _⟩ := step_cases hs
    · rw [hm, heq]
      exact ⟨turns_same rfl, h.paired t⟩
    · rw [hm]
      exact next_plays hnext hshape (h.paired t)
    · have hpaired := h.paired t
      rw [hp] at hshape hpaired
      rw [hp, hp']
      refine hr.plays hshape hpaired fun u he => hown u ?_
      rwa [hp]
  refine ⟨kept_step h.kept hs, fun w => ?_, ?_⟩
  · by_cases hw : w = t
    · rw [hw]
      exact hplays.2
    · rw [hs.ctl_other hw]
      exact h.paired w
  · have hroles : (fun w => role (s'.ctl w).point) =
        Function.update (fun w => role (s.ctl w).point) t (role (s'.ctl t).point) := by
      funext w
      by_cases hw : w = t
      · rw [hw, Function.update_self]
      · rw [Function.update_of_ne hw, hs.ctl_other hw]
    rw [hroles]
    exact Register.owned_step h.owned hplays.1 fun ht w hw => h.kept.role_alone ht hw

/-- At the start the tasks that are on the list have memory, and what is the user's is not to
be freed. -/
structure Stocked (s : LifeState θ τ ι) : Prop where
  initial : Initial s
  nodup : s.mem.taskList.Nodup
  listed : ∀ u ∈ s.mem.taskList, s.mem.heap u ≠ .free
  user : ∀ u, s.mem.heap u = .user → (s.mem.tcb u).staticTask = true
  ended : s.mem.looped = false

omit [DecidableEq θ] [DecidableEq τ] [DecidableEq ι] in
theorem Stocked.furnished (h : Stocked s) : Furnished s := by
  have hpoint : ∀ w, role (s.ctl w).point = .bystander ∧ Paired (s.ctl w).point := by
    intro w
    obtain hp | hp := h.initial.point w <;> rw [hp] <;> exact ⟨rfl, trivial⟩
  refine ⟨⟨h.initial.held, fun w hw => ?_⟩, fun w => (hpoint w).2, ⟨h.nodup, h.listed, h.user, fun hl => ?_, fun w => ?_,
    fun w w' _ => ?_⟩⟩
  · obtain hp | hp := h.initial.point w <;> rw [hp] at hw <;> cases hw
  · have hopen : s.mem.looped = true := hl
    rw [h.ended] at hopen
    cases hopen
  · simp only [(hpoint w).1]
    trivial
  · simp only [(hpoint w).1]
    exact Register.apart_of_ne (fun _ he => by cases he) fun _ he => (by cases he)

/-- The control block that the next step at a point frees. -/
def frees (m : Mem θ τ ι) : Pc τ ι → Option τ
  | .free u _ => if (m.tcb u).staticTask = true then none else some u
  | .spawnFree u _ => some u
  | _ => none

omit [DecidableEq θ] [DecidableEq τ] [DecidableEq ι] in
theorem frees_cases (h : frees m p = some u) : role p = .makes u ∨ role p = .removed u ∧ (m.tcb u).staticTask = false := by
  cases p
  case free v next =>
    simp only [frees] at h
    split at h
    · cases h
    · rename_i hstatic
      cases h
      exact .inr ⟨rfl, Bool.eq_false_iff.mpr hstatic⟩
  case spawnFree v tid =>
    cases h
    exact .inl rfl
  all_goals cases h

end

end

/-! ### A task that is spawned and deleted -/

/-- The start, with a control block on the heap. -/
def bootWithHeap : LifeState (Fin 2) (Fin 2) (Fin 1) :=
  let s := boot 2 2 1
  {s with mem := {s.mem with heap := fun u => if u = 0 then .user else .free}}

theorem bootWithHeap_stocked : Stocked bootWithHeap := by
  obtain ⟨hresting, hfree, hlevel, htask, hdead, hthreads, hpriority⟩ := boot_initial 2 2 1
  refine ⟨⟨hresting, hfree, hlevel, htask, hdead, hthreads, hpriority⟩, List.nodup_singleton _, fun u hu => ?_,
    fun u _ => rfl, rfl⟩
  obtain rfl : u = 0 := List.mem_singleton.mp hu
  exact fun he => by cases he

/-- The root task spawns a task, whose thread is 1, and deletes it, as far as to the call of
`ts_free`. -/
def spawnsAndDeletes : List (Fin 2 × Input (Choice (Fin 2) (Fin 2))) :=
  does 0 (.call (.taskSpawn 100 0)) :: does 0 (.address 1) :: goesOn 0 13 ++ does 0 (.thread 1) :: goesOn 0 5 ++
    does 0 (.call (.taskDeleteForce 2)) :: goesOn 0 12 ++ [does 1 .none, does 1 .kill] ++ goesOn 1 2 ++ goesOn 0 5

end V2lin.Lifecycle
