import V2lin.Kill.Sound
import V2lin.TaskLib.Lists

/-! Who is on which list, in the larger program.

A thread puts nobody but itself on a list; it is taken off by itself, or by whoever deletes
or restarts it, and then from the list of the semaphore that its `waiting` pointer names. -/
namespace V2lin.Kill
open Threads V2lin.Task V2lin.TaskLib

section
variable {θ ι κ : Type}

/-- The thread has been killed, or has ended. -/
def gone : Pc θ ι κ → Bool
  | .task p => TaskLib.gone p
  | .takeKilled _ | .receiveKilled _ | .sendKilled _ => true
  | _ => false

/-- The step kills or ends its thread. -/
def Dies (x : KillTransition θ ι κ) : Prop :=
  gone (x.pre.ctl x.thread).point = false ∧ gone (x.post.ctl x.thread).point = true

/-- The list on which the caller is going to put itself. -/
def links : Pc θ ι κ → Option (WaitList θ ι κ)
  | .task (.pendLink (some _) u) => some (.deleters u)
  | .takeLink id (some _) => some (.sem id)
  | .receiveLink q => some (.receivers q)
  | .sendLink q => some (.writers q)
  | _ => none

/-- The `our_task` of `semTake`. -/
def ourTask : Pc θ ι κ → Option θ
  | .takeLink _ self | .takeTest _ self | .takeWait _ self | .takeWoken _ self | .takeDelay _ self => self
  | .takeSleep _ self | .takeRelock _ self | .takeUnlink _ self | .takeClear _ self => self
  | _ => none

/-- The semaphore on whose list `semTake` has put the caller. -/
def waitsFor : Pc θ ι κ → Option ι
  | .takeTest id _ | .takeWait id _ | .takeWoken id _ | .takeDelay id _ | .takeSleep id _ => some id
  | .takeRelock id _ | .takeUnlink id _ => some id
  | _ => none

/-- The task that `taskRestart` has taken off the list of its semaphore. -/
def restarts : Pc θ ι κ → Option θ
  | .restartCancel u | .restartJoin u | .restartCreate u => some u
  | _ => none

/-- The task whose thread the caller has joined. -/
def joined : Pc θ ι κ → Option θ
  | .task p => TaskLib.joined p
  | .restartCreate u => some u
  | _ => none

/-- The task for which the caller creates a new thread. -/
def creates : Pc θ ι κ → Option θ
  | .restartCreate u | .starterCreate u => some u
  | _ => none

theorem creates_cases {p : Pc θ ι κ} {u : θ} (h : creates p = some u) : p = .restartCreate u ∨ p = .starterCreate u := by
  cases p
  case restartCreate => cases h; exact .inl rfl
  case starterCreate => cases h; exact .inr rfl
  all_goals cases h

variable [DecidableEq θ] [DecidableEq ι] [DecidableEq κ]

variable {ids : AddressIds θ} {t u v : θ} {p p' : Pc θ ι κ} {m m' : Mem θ ι κ}

/-! ### The lists -/

omit [DecidableEq ι] [DecidableEq κ] in
@[simp] theorem Mem.setWaiting_waitList (m : Mem θ ι κ) (self : Option θ) (id : Option ι) (L : WaitList θ ι κ) :
    (m.setWaiting self id).waitList L = m.waitList L := by
  cases self with
  | none => rfl
  | some v =>
    cases L with
    | deleters u => exact Mem.setTcb_congr Tcb.firstSusp m.task (by rfl) u
    | _ => rfl

omit [DecidableEq ι] [DecidableEq κ] in
@[simp] theorem Mem.setWaiting_dead (m : Mem θ ι κ) (self : Option θ) (id : Option ι) :
    (m.setWaiting self id).task.dead = m.task.dead := by
  cases self <;> rfl

omit [DecidableEq ι] [DecidableEq κ] in
@[simp] theorem Mem.setWaiting_reborn (m : Mem θ ι κ) (self : Option θ) (id : Option ι) :
    (m.setWaiting self id).reborn = m.reborn := by
  cases self <;> rfl

omit [DecidableEq κ] in
theorem Mem.mem_unlinkWaiting {L : WaitList θ ι κ} (h : u ∈ (m.setTask (m.task.unlinkWaiting v)).waitList L) :
    u ∈ m.waitList L := by
  cases L with
  | sem id => exact TaskLib.Mem.mem_unlinkWaiting h
  | deleters w =>
    have htcb : (m.task.unlinkWaiting v).tcb = m.task.tcb := Mem.unlinkWaiting_tcb ..
    simp only [Mem.waitList, Mem.setTask, htcb] at h
    exact h
  | _ => exact h

omit [DecidableEq θ] [DecidableEq ι] [DecidableEq κ] in
theorem UnlinkPoint.links {L : WaitList θ ι κ} {self : Option θ} (h : UnlinkPoint p L self p') :
    Kill.links p = none := by
  cases h <;> rfl

/-- Whoever a step puts on a list is its thread. -/
theorem Runs.mem_waitList (h : Runs ids t p m m' p') (hok : Ok ids m.task t p.leave)
    (hown : ∀ v, ourTask p = some v → v = t) {L : WaitList θ ι κ} (hu : u ∈ m'.waitList L) :
    u ∈ m.waitList L ∨ u = t ∧ links p = some L := by
  cases h with
  | task hr =>
    cases L with
    | sem id => exact .inl (hr.mem_semSusp hu)
    | deleters v =>
      obtain hin | rfl := hr.mem_firstSusp hu
      · exact .inl hin
      · exact .inr ⟨(hok.selfTask u rfl).1, rfl⟩
    | _ => exact .inl hu
  | owned => exact .inl (by rwa [Mem.setWaiting_waitList] at hu)
  | found => exact .inl (by rwa [Mem.setWaiting_waitList] at hu)
  | cleared => exact .inl (by rwa [Mem.setWaiting_waitList] at hu)
  | @linked _ _ L' self _ hl =>
    by_cases hL : L = L'
    · subst hL
      rw [Mem.setList_self] at hu
      refine (mem_linkSuspTask_cases hu).imp_right fun hself => ?_
      cases hl with
      | take id =>
        subst hself
        exact ⟨hown u rfl, rfl⟩
      | receive q => exact ⟨(myTask_eq hself).1, rfl⟩
      | send q => exact ⟨(myTask_eq hself).1, rfl⟩
    · rw [Mem.setList_of_ne _ _ hL] at hu
      exact .inl hu
  | @unlinked _ _ L' self _ hl =>
    by_cases hL : L = L'
    · subst hL
      rw [Mem.setList_self] at hu
      cases self with
      | none => exact .inl hu
      | some v => exact .inl (List.mem_of_mem_erase hu)
    · rw [Mem.setList_of_ne _ _ hL] at hu
      exact .inl hu
  | restartUnlinked => exact .inl (Mem.mem_unlinkWaiting hu)
  | restartLocked => cases L <;> exact .inl hu
  | restartCancels => cases L <;> exact .inl hu
  | restartCreated => cases L <;> exact .inl hu
  | restartUnlocked => cases L <;> exact .inl hu
  | restartedSelf => cases L <;> exact .inl hu
  | starterCalled => cases L <;> exact .inl hu
  | starterCreated => cases L <;> exact .inl hu
  | reborn => cases L <;> exact .inl hu
  | _ => exact .inl hu

theorem nodup_linkSuspTask_self {l : List θ} (self : Option θ) (h : l.Nodup) : (linkSuspTask l self).Nodup := by
  cases self with
  | none => exact h
  | some e =>
    have hsub : (l.takeWhile (· ≠ e)).Nodup := h.sublist (List.takeWhile_sublist _)
    refine List.nodup_append.mpr ⟨hsub, List.pairwise_singleton _ e, fun a ha b hb hab => ?_⟩
    rw [List.mem_singleton.mp hb] at hab
    simpa [hab] using List.mem_takeWhile_imp ha

theorem nodup_unlinkSuspTask_self {l : List θ} (self : Option θ) (h : l.Nodup) : (unlinkSuspTask l self).Nodup := by
  cases self with
  | none => exact h
  | some e => exact nodup_unlinkSuspTask h

theorem Runs.nodup (h : Runs ids t p m m' p') {id : ι} (hnodup : (m.task.semSusp id).Nodup) :
    (m'.task.semSusp id).Nodup := by
  have hset : ∀ (L : WaitList θ ι κ) (l : List θ), (L = .sem id → l.Nodup) → ((m.setList L l).task.semSusp id).Nodup := by
    intro L l hl
    show ((m.setList L l).waitList (.sem id)).Nodup
    by_cases hL : WaitList.sem id = L
    · subst hL
      rw [Mem.setList_self]
      exact hl rfl
    · rw [Mem.setList_of_ne _ _ hL]
      exact hnodup
  have hwaiting : ∀ (self : Option θ) (w : Option ι), ((m.setWaiting self w).task.semSusp id).Nodup := by
    intro self w
    show ((m.setWaiting self w).waitList (.sem id)).Nodup
    rw [Mem.setWaiting_waitList]
    exact hnodup
  cases h with
  | task hr => exact hr.nodup_semSusp hnodup
  | owned => exact hwaiting ..
  | found => exact hwaiting ..
  | cleared => exact hwaiting ..
  | linked => exact hset _ _ (by rintro rfl; exact nodup_linkSuspTask_self _ hnodup)
  | unlinked => exact hset _ _ (by rintro rfl; exact nodup_unlinkSuspTask_self _ hnodup)
  | restartUnlinked self u => exact Mem.nodup_unlinkWaiting u hnodup
  | _ => exact hnodup

/-! ### The points -/

omit [DecidableEq θ] [DecidableEq ι] [DecidableEq κ] in
/-- What no instruction but a block brings about. -/
structure Quiet (p p' : Pc θ ι κ) : Prop where
  gone : gone p = true → gone p' = true
  ourTask : ∀ v, ourTask p' = some v → ourTask p = some v
  link : ∀ id self, p' ≠ .takeLink id self
  restarts : restarts p' = none
  joined : joined p' = none

theorem next_quiet (h : (code (ι := ι) (κ := κ) ids t p).Next p') : Quiet p p' := by
  cases p
  case task q =>
    obtain ⟨q', rfl, hnext⟩ := task_next h
    exact ⟨next_gone hnext, nofun, nofun, rfl, next_joined hnext⟩
  all_goals first
    | exact False.elim h
    | (cases h; exact ⟨fun hg => hg, fun _ hv => hv, nofun, rfl, rfl⟩)
    | (obtain ⟨r, rfl⟩ := h; exact ⟨fun hg => hg, fun _ hv => hv, nofun, rfl, rfl⟩)

theorem next_waitsFor (h : (code (ι := ι) (κ := κ) ids t p).Next p') {id : ι} (hw : waitsFor p = some id) :
    waitsFor p' = some id ∧ ourTask p' = ourTask p := by
  cases p
  case takeWait => obtain ⟨r, rfl⟩ := h; exact ⟨hw, rfl⟩
  case takeDelay => cases h; exact ⟨hw, rfl⟩
  case takeRelock => cases h; exact ⟨hw, rfl⟩
  all_goals first
    | exact False.elim h
    | cases hw

/-- A thread that is gone stays so, unless `taskRestart` has created a new one. -/
theorem Runs.gone (h : Runs ids t p m m' p') (hg : Kill.gone p = true) :
    Kill.gone p' = true ∨ p = .task .dead ∧ m.reborn t = true := by
  cases h with
  | task hr => exact .inl (hr.gone hg)
  | reads hr => cases hr <;> cases hg
  | killed hk => cases hk <;> cases hg
  | reborn hr => exact .inr ⟨rfl, hr⟩
  | linked hl => cases hl <;> cases hg
  | unlinked hu => cases hu <;> cases hg
  | _ => cases hg

theorem Runs.ourTask_cases (h : Runs ids t p m m' p') (hv : ourTask p' = some v) :
    ourTask p = some v ∨ m.task.myTask t = some v := by
  cases h with
  | reads hg => cases hg <;> exact .inl hv
  | killed hk => cases hk <;> cases hv
  | owned => exact .inr hv
  | found => exact .inr hv
  | linked hl => cases hl <;> exact .inl hv
  | unlinked hu => cases hu <;> exact .inl hv
  | restartUnlinked => split at hv <;> cases hv
  | _ => cases hv

/-- A task that waits for a semaphore goes on to wait, is killed, or leaves the list. -/
theorem Runs.waitsFor_cases (h : Runs ids t p m m' p') {id : ι} (hw : waitsFor p = some id) :
    waitsFor p' = some id ∧ ourTask p' = ourTask p ∨ Kill.gone p' = true ∨
      m' = m.setList (.sem id) (unlinkSuspTask (m.waitList (.sem id)) (ourTask p)) := by
  cases h with
  | reads hg => cases hg <;> exact .inl ⟨hw, rfl⟩
  | killed hk => cases hk <;> exact .inr (.inl rfl)
  | linked hl => cases hl <;> cases hw
  | unlinked hu =>
    cases hu <;> cases hw
    exact .inr (.inr rfl)
  | _ => cases hw

/-- A `waiting` pointer is set by its task, while it is on no list, and by `taskInit`. -/
theorem Runs.waiting_cases (h : Runs ids t p m m' p') (hok : Ok ids m.task t p.leave)
    (hown : ∀ v, ourTask p = some v → v = t) (u : θ) :
    (m'.task.tcb u).waiting = (m.task.tcb u).waiting ∨ (m.task.tcb u).started = false ∨
      u = t ∧ waitsFor p = none ∧ Kill.gone p = false := by
  have hset : ∀ (self : Option θ) (w : Option ι), (∀ v, self = some v → v = t) →
      ((m.setWaiting self w).task.tcb u).waiting = (m.task.tcb u).waiting ∨ u = t := by
    intro self w hself
    cases self with
    | none => exact .inl rfl
    | some v =>
      by_cases hu : u = v
      · exact .inr (hu.trans (hself v rfl))
      · exact .inl (congrArg Tcb.waiting (Mem.setTcb_of_ne _ _ hu))
  have hmine : ∀ v, m.task.myTask t = some v → v = t := fun v hv => (myTask_eq hv).1
  cases h with
  | task hr => exact (hr.waiting_cases u).imp_right fun hs => .inl (hok.spawns u hs).2
  | owned id => exact (hset _ _ hmine).imp_right fun hu => .inr ⟨hu, rfl, rfl⟩
  | found id => exact (hset _ _ hmine).imp_right fun hu => .inr ⟨hu, rfl, rfl⟩
  | cleared id self => exact (hset _ _ hown).imp_right fun hu => .inr ⟨hu, rfl, rfl⟩
  | linked hl => cases hl <;> exact .inl rfl
  | unlinked hu => cases hu <;> exact .inl rfl
  | restartUnlinked self v => exact .inl (by rw [Mem.setTask, Mem.unlinkWaiting_tcb])
  | _ => exact .inl rfl

/-- `semTake` notes what it is going to wait for. -/
theorem Runs.link_waiting (h : Runs ids t p m m' p') {id : ι} (hp : p' = .takeLink id (some v)) :
    (m'.task.tcb v).waiting = some id := by
  cases h with
  | reads hg => cases hg <;> cases hp
  | killed hk => cases hk <;> cases hp
  | found id' =>
    obtain ⟨rfl, hself⟩ := Pc.takeLink.inj hp
    rw [hself]
    exact congrArg Tcb.waiting (Mem.setTcb_self ..)
  | linked hl => cases hl <;> cases hp
  | unlinked hu => cases hu <;> cases hp
  | restartUnlinked => split at hp <;> cases hp
  | _ => cases hp

theorem Runs.started_mono (h : Runs ids t p m m' p') (hok : Ok ids m.task t p.leave) {u : θ}
    (hu : (m.task.tcb u).started = true) : (m'.task.tcb u).started = true := by
  obtain ⟨q, q', rfl, rfl, hr⟩ | ⟨hsim, _⟩ := h.view_cases
  · exact hr.started_mono hok hu
  · rw [hsim.tcb_congr Tcb.started fun _ _ => rfl]
    exact hu

theorem Runs.of_link {id : ι} {self : Option θ} (h : Runs ids t (.takeLink id self) m m' p') :
    p' = .takeTest id self ∧ m'.task.tcb = m.task.tcb := by
  cases h with
  | reads hg => cases hg
  | killed hk => cases hk
  | linked hl =>
    cases hl
    exact ⟨rfl, rfl⟩
  | unlinked hu => cases hu

omit [DecidableEq θ] [DecidableEq ι] [DecidableEq κ] in
theorem links_cases {L : WaitList θ ι κ} (h : links p = some L) :
    (∃ self u, p = .task (.pendLink self u)) ∨ (∃ id self, p = .takeLink id self ∧ L = .sem id) ∨
      (∃ q, p = .receiveLink q) ∨ ∃ q, p = .sendLink q := by
  cases p
  case task q =>
    cases q
    case pendLink self u => exact .inl ⟨self, u, rfl⟩
    all_goals cases h
  case takeLink id self =>
    cases self with
    | none => cases h
    | some v =>
      cases h
      exact .inr (.inl ⟨id, some v, rfl, rfl⟩)
  case receiveLink q => exact .inr (.inr (.inl ⟨q, rfl⟩))
  case sendLink q => exact .inr (.inr (.inr ⟨q, rfl⟩))
  all_goals cases h

/-- Nobody dies where it puts itself on a list. -/
theorem Runs.links_stays (h : Runs ids t p m m' p') {L : WaitList θ ι κ} (hl : links p = some L) :
    Kill.gone p' = false := by
  obtain ⟨self, u, rfl⟩ | ⟨id, self, rfl, _⟩ | ⟨q, rfl⟩ | ⟨q, rfl⟩ := links_cases hl
  · cases h with
    | task hr =>
      rw [hr.of_pendLink]
      rfl
    | reads hg => cases hg
    | killed hk => cases hk
    | linked hl => cases hl
    | unlinked hu => cases hu
  · rw [h.of_link.1]
    rfl
  · cases h with
    | reads hg => cases hg; rfl
    | killed hk => cases hk
    | linked hl => cases hl; rfl
    | unlinked hu => cases hu
  · cases h with
    | reads hg => cases hg; rfl
    | killed hk => cases hk
    | linked hl => cases hl; rfl
    | unlinked hu => cases hu

theorem next_links (h : (code (ι := ι) (κ := κ) ids t p).Next p') : links p = none := by
  refine Option.eq_none_iff_forall_ne_some.mpr fun L hl => ?_
  obtain ⟨self, u, rfl⟩ | ⟨id, self, rfl, _⟩ | ⟨q, rfl⟩ | ⟨q, rfl⟩ := links_cases hl <;> exact h

theorem Runs.of_forceRemove {cause : Cause θ} (h : Runs ids t (.task (.forceRemove cause u)) m m' p') :
    m' = m.setTask (m.task.taskDelete u) := by
  cases h with
  | task hr => rw [hr.of_forceRemove]
  | reads hg => cases hg
  | killed hk => cases hk
  | linked hl => cases hl
  | unlinked hu => cases hu

/-! ### Threads that end and begin -/

theorem Runs.of_dead (h : Runs ids t (.task .dead) m m' p') : m.reborn t = true ∧ m'.reborn t = false := by
  cases h with
  | task hr => exact absurd rfl hr.not_dead
  | reads hg => cases hg
  | killed hk => cases hk
  | reborn hr => exact ⟨hr, Function.update_self ..⟩
  | linked hl => cases hl
  | unlinked hu => cases hu

theorem Runs.dead_cases (h : Runs ids t p m m' p') (u : θ) :
    m'.task.dead u = m.task.dead u ∨ u = t ∧ p = .task .exit ∧ p' = .task .dead ∨
      creates p = some u ∧ m'.task.dead u = false := by
  have hcreated : ∀ v, (m.recreate v).task.dead u = m.task.dead u ∨ v = u ∧ (m.recreate v).task.dead u = false := by
    intro v
    by_cases hu : u = v
    · exact .inr ⟨hu.symm, by rw [hu]; exact Function.update_self ..⟩
    · exact .inl (Function.update_of_ne hu ..)
  cases h with
  | task hr =>
    obtain heq | ⟨hu, rfl, rfl⟩ := hr.dead_cases u
    · exact .inl heq
    · exact .inr (.inl ⟨hu, rfl, rfl⟩)
  | linked hl => cases hl <;> exact .inl rfl
  | unlinked hl => cases hl <;> exact .inl rfl
  | owned => exact .inl (by rw [Mem.setWaiting_dead])
  | found => exact .inl (by rw [Mem.setWaiting_dead])
  | cleared => exact .inl (by rw [Mem.setWaiting_dead])
  | restartUnlinked self v => exact .inl (by rw [Mem.setTask, Mem.unlinkWaiting_dead])
  | restartCreated v => exact (hcreated v).imp_right fun ⟨hv, hdead⟩ => .inr ⟨congrArg some hv, hdead⟩
  | starterCreated => exact (hcreated _).imp_right fun ⟨hv, hdead⟩ => .inr ⟨congrArg some hv, hdead⟩
  | _ => exact .inl rfl

theorem Runs.reborn_cases (h : Runs ids t p m m' p') (u : θ) :
    m'.reborn u = m.reborn u ∨ u = t ∧ p = .task .dead ∧ m.reborn t = true ∧ m'.reborn u = false ∨
      creates p = some u ∧ m'.task.dead u = false := by
  have hcreated : ∀ v, (m.recreate v).reborn u = m.reborn u ∨ v = u ∧ (m.recreate v).task.dead u = false := by
    intro v
    by_cases hu : u = v
    · exact .inr ⟨hu.symm, by rw [hu]; exact Function.update_self ..⟩
    · exact .inl (Function.update_of_ne hu ..)
  cases h with
  | linked hl => cases hl <;> exact .inl rfl
  | unlinked hl => cases hl <;> exact .inl rfl
  | owned => exact .inl (by rw [Mem.setWaiting_reborn])
  | found => exact .inl (by rw [Mem.setWaiting_reborn])
  | cleared => exact .inl (by rw [Mem.setWaiting_reborn])
  | reborn hr =>
    by_cases hu : u = t
    · subst hu
      exact .inr (.inl ⟨rfl, rfl, hr, Function.update_self ..⟩)
    · exact .inl (Function.update_of_ne hu ..)
  | restartCreated v => exact (hcreated v).imp_right fun ⟨hv, hdead⟩ => .inr ⟨congrArg some hv, hdead⟩
  | starterCreated => exact (hcreated _).imp_right fun ⟨hv, hdead⟩ => .inr ⟨congrArg some hv, hdead⟩
  | _ => exact .inl rfl

theorem Runs.joined_dead (h : Runs ids t p m m' p') (hok : Ok ids m.task t p.leave) (hj : joined p' = some u) :
    m'.task.dead u = true := by
  cases h with
  | task hr => exact hr.joined_dead hok hj
  | reads hg =>
    cases hg with
    | restartJoined hdead =>
      cases hj
      exact hdead
    | _ => cases hj
  | killed hk => cases hk <;> cases hj
  | linked hl => cases hl <;> cases hj
  | unlinked hu => cases hu <;> cases hj
  | restartUnlinked => split at hj <;> cases hj
  | _ => cases hj

/-- `taskRestart` goes on with a task that it has taken off its list. -/
theorem Runs.restarts_cases (h : Runs ids t p m m' p') (hu : restarts p' = some u) :
    restarts p = some u ∨ m' = m.setTask (m.task.unlinkWaiting u) := by
  cases h with
  | reads hg => cases hg <;> first | exact .inl hu | cases hu
  | killed hk => cases hk <;> cases hu
  | linked hl => cases hl <;> cases hu
  | unlinked hl => cases hl <;> cases hu
  | restartUnlinked self v =>
    split at hu <;> cases hu
    exact .inr rfl
  | restartCancels => exact .inl hu
  | _ => cases hu

end

end V2lin.Kill
