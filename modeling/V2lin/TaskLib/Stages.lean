import V2lin.TaskLib.Locked

/-! What the task library relies on, point by point.

`Registry` is about the list, the control blocks and who spawns them; `Stage` says how far
a deletion has come and what it then knows of its target. The steps of the threads that do
not hold the scheduler lock leave that knowledge alone: the list and the protection counts
change under the lock, except that `taskInit` appends and `taskSpawn` renames a task that
has no thread yet. -/
namespace V2lin.TaskLib
open Threads V2lin.Task

section
variable {θ ι : Type}

/-! ### Stages -/

/-- The task that `taskDelete` has found, if it runs the forced deletion. -/
def Cause.target : Cause θ → Option θ
  | .nested v => some v
  | _ => none

/-- How far a deletion has come. -/
inductive Stage (θ : Type) where
  | free
  /-- `taskDelete` has found a task and tests its protection. -/
  | seeks (tid : ℤ) (v : θ)
  /-- It was not protected, and `taskDeleteForce` has not looked it up yet. -/
  | condemns (tid : ℤ) (v : θ)
  /-- It was. -/
  | spares (v : θ)
  /-- `taskDeleteForce` has found a task. -/
  | attacks (cause : Cause θ) (u : θ)
  /-- Nobody is pended on it. -/
  | drained (cause : Cause θ) (u : θ)
  /-- It has been cancelled, or is the caller. -/
  | joins (cause : Cause θ) (u : θ)
  /-- The caller has been put on the list of the task. -/
  | pended (u : θ)
  /-- The task that `taskDelete` has found is deleted. -/
  | done (v : θ)

def Cause.stage (tid : ℤ) : Cause θ → Stage θ
  | .nested v => .condemns tid v
  | _ => .free

def Cause.finished : Cause θ → Stage θ
  | .nested v => .done v
  | _ => .free

def Caller.stage (u : θ) : Caller θ → Stage θ
  | .force cause _ _ => .attacks cause u
  | .unsafely => .free

def Caller.drained (u : θ) : Caller θ → Stage θ
  | .force cause _ _ => .drained cause u
  | .unsafely => .free

def stage : Pc θ → Stage θ
  | .deleteTlock tid _ v | .deleteTest tid _ v => .seeks tid v
  | .deleteTunlock tid _ v deletable => if deletable then .condemns tid v else .spares v
  | .deleteUnlock (some v) deletable .ok _ => if deletable then .done v else .pended v
  | .pendLink _ v => .spares v
  | .pendTlock (some _) u | .pendUnlock (some _) u | .pendTest (some _) u | .pendWait (some _) u => .pended u
  | .pendWoken (some _) u | .pendRelock (some _) u | .pendUnlink (some _) u => .pended u
  | .pendDbcst u | .pendNotify u | .pendDunlock u | .pendTunlock u => .pended u
  | .forceEnter cause tid | .forceLock cause tid _ | .forceFind cause tid _ => cause.stage tid
  | .forceSplit cause _ _ u | .forceCancel cause u => .drained cause u
  | .forceJoin cause u | .forceRemove cause u | .forceSelfRemove cause u => .joins cause u
  | .forceSelfUnlock cause | .forceUnlock cause .ok _ => cause.finished
  | .notifyTest caller u | .notifyDlock caller u | .notifyTlock caller u => caller.stage u
  | .notifyBroadcast caller u | .notifyTunlock caller u | .notifyDrain caller u => caller.stage u
  | .notifyWait caller u | .notifyWoken caller u => caller.stage u
  | .notifyDunlock caller u => caller.drained u
  | _ => .free

/-- The `self_task` that a point holds on to. -/
def Caller.selfTask : Caller θ → Option θ
  | .force _ _ selfTask => selfTask
  | .unsafely => none

def selfTask : Pc θ → Option θ
  | .deleteLock _ self | .deleteFind _ self | .deleteTlock _ self _ | .deleteTest _ self _ => self
  | .deleteTunlock _ self _ _ => self
  | .pendLink self _ | .pendTlock self _ | .pendUnlock self _ | .pendTest self _ | .pendWait self _ => self
  | .pendWoken self _ | .pendRelock self _ | .pendUnlink self _ => self
  | .forceLock _ _ self | .forceFind _ _ self | .forceSplit _ _ self _ => self
  | .notifyTest caller _ | .notifyDlock caller _ | .notifyTlock caller _ => caller.selfTask
  | .notifyBroadcast caller _ | .notifyTunlock caller _ | .notifyDrain caller _ => caller.selfTask
  | .notifyWait caller _ | .notifyWoken caller _ | .notifyDunlock caller _ => caller.selfTask
  | _ => none

/-! ### Spawning -/

/-- An identifier that `new_tid` assigns. -/
def Small (tid : ℤ) : Prop := 1 ≤ tid ∧ tid ≤ 65536

/-- The control block that a point of `taskSpawn` initializes. -/
def spawns : Pc θ → Option θ
  | .spawnInit n _ _ | .spawnName n _ => some n
  | _ => none

/-- The identifier that a point of `taskSpawn` has chosen. -/
def chosen : Pc θ → Option ℤ
  | .spawnInit _ tid _ | .spawnName _ tid | .spawnLock tid | .spawnFind tid => some tid
  | _ => none

/-- The points at which a thread has found its own control block. -/
def registered : Pc θ → Bool
  | .safeTlock | .safeCount | .unsafeTlock | .unsafeCount => true
  | _ => false

variable [DecidableEq θ]

/-- The list and the control blocks. -/
structure Registry (ids : AddressIds θ) (m : Mem θ ι) : Prop where
  nodup : m.taskList.Nodup
  live : ∀ u, u ∈ m.taskList ↔ m.block u = .live
  started : ∀ u, (m.tcb u).started = true →
    (m.block u = .live ∨ m.block u = .freed) ∧ (Small (m.tcb u).taskid ∨ (m.tcb u).taskid = ids.id u)
  quiet : ∀ u, (m.tcb u).started = false → (m.tcb u).deleteSafeCount = 0
  /-- Behind a task without a thread every thread has an identifier from `new_tid`: the tasks
  that kept the one of their address were registered before. -/
  inOrder : m.taskList.Pairwise fun v u =>
    (m.tcb v).started = false → (m.tcb u).started = true → Small (m.tcb u).taskid

/-- What a thread relies on at a point: it has been created; the task that it spawns has no
thread, and no name of its own yet; its `self_task` is its own control block. -/
structure Ok (ids : AddressIds θ) (m : Mem θ ι) (t : θ) (p : Pc θ) : Prop where
  born : p ≠ .unborn → (m.tcb t).started = true ∨ m.block t = .plain
  spawns : ∀ n, spawns p = some n → m.block n ≠ .fresh ∧ (m.tcb n).started = false
  allocated : ∀ n tid legal, p = .spawnInit n tid legal → m.block n = .allocated
  unnamed : ∀ n tid, p = .spawnName n tid → (m.tcb n).taskid = ids.id n
  chosen : ∀ tid, chosen p = some tid → Small tid
  own : registered p = true → (m.tcb t).started = true
  selfTask : ∀ u, selfTask p = some u → u = t ∧ (m.tcb t).started = true

/-- Whatever thread has the identifier now is the one that was found. -/
def Names (m : Mem θ ι) (t : θ) (tid : ℤ) (v : θ) : Prop :=
  ∀ u, m.taskFor t tid = some u → (m.tcb u).started = true → u = v

/-- A task that `taskDelete` goes on to delete is the one that was found, if it has a thread,
and is not protected. -/
def Target (m : Mem θ ι) (cause : Cause θ) (u : θ) : Prop :=
  m.block u = .live ∧
    ∀ v, cause.target = some v → (m.tcb u).deleteSafeCount ≤ 0 ∧ ((m.tcb u).started = true → u = v)

/-- What a thread knows at a stage. -/
def Stage.Knows (m : Mem θ ι) (t : θ) : Stage θ → Prop
  | .free => True
  | .seeks tid v => m.block v = .live ∧ Names m t tid v
  | .condemns tid v => m.block v = .live ∧ Names m t tid v ∧ (m.tcb v).deleteSafeCount ≤ 0
  | .spares v => m.block v = .live ∧ 0 < (m.tcb v).deleteSafeCount
  | .attacks cause u => Target m cause u
  | .drained cause u => Target m cause u ∧ (m.tcb u).firstSusp = []
  | .joins cause u => Target m cause u ∧ (m.tcb u).firstSusp = [] ∧ (m.tcb u).started = true
  | .pended u => m.block u = .live ∧ (m.tcb u).started = true ∧ (m.tcb u).firstSusp ≠ []
  | .done v => m.block v = .freed

/-- The stages that are passed under the scheduler lock. -/
def Stage.locked : Stage θ → Bool
  | .free | .pended _ | .done _ => false
  | _ => true

omit [DecidableEq θ] in
theorem stage_locked {p : Pc θ} (h : (stage p).locked = true) : 0 < locks p := by
  cases p
  case deleteUnlock found deletable error released =>
    cases found <;> cases error <;> cases deletable <;> cases h
  case pendTlock self u => cases self <;> cases h
  case pendUnlock self u => cases self <;> cases h
  case pendTest self u => cases self <;> cases h
  case pendWait self u => cases self <;> cases h
  case pendWoken self u => cases self <;> cases h
  case pendRelock self u => cases self <;> cases h
  case pendUnlink self u => cases self <;> cases h
  case forceEnter cause tid =>
    cases cause
    case nested => exact Nat.zero_lt_one
    all_goals cases h
  case forceLock cause tid self =>
    cases cause
    case nested => exact Nat.zero_lt_one
    all_goals cases h
  case forceUnlock cause error released => cases error <;> cases cause <;> cases h
  case forceSelfUnlock cause => cases cause <;> cases h
  all_goals first
    | (exact Nat.succ_pos _)
    | (rename_i caller u; cases caller <;> first | exact Nat.succ_pos _ | cases h)
    | cases h

structure Sound (ids : AddressIds θ) (m : Mem θ ι) (ctl : θ → Ctl (Pc θ)) : Prop where
  registry : Registry ids m
  ok : ∀ t, Ok ids m t (ctl t).point
  unique : ∀ t u n, spawns (ctl t).point = some n → spawns (ctl u).point = some n → t = u
  knows : ∀ t, (stage (ctl t).point).Knows m t

/-! ### Steps of others -/

/-- A step that does not hold the scheduler lock leaves alone what is on the list, but for
the name of a task without a thread, and may append such a task. -/
structure Aside (ids : AddressIds θ) (m m' : Mem θ ι) : Prop where
  live : ∀ u, m.block u = .live → m'.block u = .live
  list : m'.taskList = m.taskList ∨ ∃ n, m'.taskList = m.taskList ++ [n] ∧ (m'.tcb n).started = false
  same : ∀ u, m.block u = .live → (m'.tcb u).started = (m.tcb u).started ∧
    (m'.tcb u).deleteSafeCount = (m.tcb u).deleteSafeCount ∧ (m'.tcb u).firstSusp = (m.tcb u).firstSusp
  named : ∀ u, m.block u = .live → (m'.tcb u).taskid = (m.tcb u).taskid ∨
    (m.tcb u).started = false ∧ (m.tcb u).taskid = ids.id u

variable {ids : AddressIds θ} {t w : θ} {p p' : Pc θ} {m m' : Mem θ ι}

omit [DecidableEq θ] in
/-- A step that leaves the list and the control blocks alone. -/
theorem Aside.of_eq (hblock : m'.block = m.block) (hlist : m'.taskList = m.taskList) (htcb : m'.tcb = m.tcb) :
    Aside ids m m' where
  live u hu := by rwa [hblock]
  list := .inl hlist
  same u _ := by rw [htcb]; exact ⟨rfl, rfl, rfl⟩
  named u _ := .inl (by rw [htcb])

variable [DecidableEq ι]

theorem Runs.aside (hr : Runs ids w p m m' p') (hok : Ok ids m w p) (hlocker : m.sched.locker = some t) (hw : w ≠ t)
    (hheld : 0 < locks p → m.sched.locker = some w) : Aside ids m m' := by
  have hnot : ¬ 0 < locks p := by
    intro hpos
    exact hw (Option.some.inj ((hheld hpos).symm.trans hlocker))
  cases hr with
  | reads => exact .of_eq rfl rfl rfl
  | locked hl hk =>
    rw [SchedLock.taskLock_other hlocker (Ne.symm hw)] at hk
    cases hk
  | unlocked => exact .of_eq rfl rfl rfl
  | cleaned => exact .of_eq rfl rfl rfl
  | killed => exact .of_eq rfl rfl rfl
  | @allocated _ n _ hfresh =>
    refine ⟨fun u hu => ?_, .inl rfl, fun _ _ => ⟨rfl, rfl, rfl⟩, fun _ _ => .inl rfl⟩
    rw [Mem.setBlock_of_ne m .allocated fun he => ?_]
    · exact hu
    · rw [he, hfresh] at hu
      cases hu
  | registered n tid =>
    have hnew : ∀ u, m.block u = .live → u ≠ n := by
      rintro u hu rfl
      rw [hok.allocated u tid true rfl] at hu
      cases hu
    refine ⟨fun u hu => ?_, .inr ⟨n, rfl, ?_⟩, fun u hu => ?_, fun u hu => .inl ?_⟩
    · rw [Mem.setTcb_block, Mem.setBlock_of_ne _ _ (hnew u hu)]
      exact hu
    · rw [Mem.setTcb_self]
    · rw [Mem.setTcb_of_ne _ _ (hnew u hu)]
      exact ⟨rfl, rfl, rfl⟩
    · rw [Mem.setTcb_of_ne _ _ (hnew u hu)]
      rfl
  | refused n tid =>
    refine ⟨fun u hu => ?_, .inl rfl, fun _ _ => ⟨rfl, rfl, rfl⟩, fun _ _ => .inl rfl⟩
    rw [Mem.setBlock_of_ne m .freed fun he => ?_]
    · exact hu
    · rw [he, hok.allocated n tid false rfl] at hu
      cases hu
  | named n tid =>
    refine ⟨fun u hu => hu, .inl rfl, fun u _ => ⟨?_, ?_, ?_⟩, fun u hu => ?_⟩
    · exact Mem.setTcb_congr Tcb.started m (by rfl) u
    · exact Mem.setTcb_congr Tcb.deleteSafeCount m (by rfl) u
    · exact Mem.setTcb_congr Tcb.firstSusp m (by rfl) u
    · by_cases hu : u = n
      · rw [hu]
        exact .inr ⟨(hok.spawns n rfl).2, hok.unnamed n tid rfl⟩
      · exact .inl (by rw [Mem.setTcb_of_ne _ _ hu])
  | ended => exact .of_eq rfl rfl rfl
  | activated => exact absurd Nat.zero_lt_one hnot
  | noThread => exact absurd Nat.zero_lt_one hnot
  | linked => exact absurd Nat.zero_lt_one hnot
  | unlinked => exact absurd Nat.zero_lt_one hnot
  | cancels => exact absurd (Nat.succ_pos _) hnot
  | removed => exact absurd (Nat.succ_pos _) hnot
  | selfRemoved => exact absurd (Nat.succ_pos _) hnot
  | protects => exact absurd Nat.zero_lt_one hnot
  | unprotects => exact absurd Nat.zero_lt_one hnot

omit [DecidableEq ι] in
/-- What a lookup finds after a step aside, if it has a thread, it found before. -/
theorem Aside.taskFor (h : Aside ids m m') (hreg : Registry ids m) {tid : ℤ} {u : θ}
    (hu : m'.taskFor t tid = some u) (hstarted : (m'.tcb u).started = true) :
    m.taskFor t tid = some u ∧ (m.tcb u).started = true := by
  have hlisted : ∀ v, v ∈ m'.taskList → (m'.tcb v).started = true → v ∈ m.taskList := by
    intro v hv hsv
    obtain hl | ⟨n, hl, hn⟩ := h.list
    · rwa [← hl]
    · rw [hl, List.mem_append, List.mem_singleton] at hv
      obtain hv | rfl := hv
      · exact hv
      · rw [hn] at hsv
        cases hsv
  by_cases hzero : tid = 0
  · -- the caller's own control block
    rw [Mem.taskFor, if_pos hzero] at hu
    obtain ⟨rfl, hin, hself⟩ := myTask_eq hu
    have hin := hlisted u hin hself
    rw [(h.same u ((hreg.live u).mp hin)).1] at hself
    exact ⟨by rw [Mem.taskFor, if_pos hzero, Mem.myTask, if_pos ⟨hin, hself⟩], hself⟩
  · rw [Mem.taskFor, if_neg hzero] at hu ⊢
    have hin := hlisted u (List.mem_of_find?_eq_some hu) hstarted
    have hsame := (h.same u ((hreg.live u).mp hin)).1
    have hbefore : (m.tcb u).started = true := by rw [← hsame, hstarted]
    refine ⟨?_, hbefore⟩
    -- the task is found in the old part of the list
    have hold : m.taskList.find? (fun v => (m'.tcb v).taskid = tid) = some u := by
      obtain hl | ⟨n, hl, hn⟩ := h.list
      · rwa [← hl]
      · rw [hl, List.find?_append] at hu
        cases hf : m.taskList.find? (fun v => (m'.tcb v).taskid = tid) with
        | some v => simpa [hf] using hu
        | none =>
          rw [hf, Option.none_or] at hu
          have hun := List.mem_singleton.mp (List.mem_of_find?_eq_some hu)
          rw [hun, hn] at hstarted
          cases hstarted
    obtain ⟨htid, as, bs, hlist, has⟩ := List.find?_eq_some_iff_append.mp hold
    have htid : (m'.tcb u).taskid = tid := of_decide_eq_true htid
    have hname : ∀ v ∈ m.taskList, (m'.tcb v).taskid = (m.tcb v).taskid ∨
        (m.tcb v).started = false ∧ (m.tcb v).taskid = ids.id v := fun v hv => h.named v ((hreg.live v).mp hv)
    have hmine : (m.tcb u).taskid = tid := by
      obtain heq | ⟨hno, _⟩ := hname u hin
      · rw [← heq, htid]
      · rw [hbefore] at hno
        cases hno
    refine List.find?_eq_some_iff_append.mpr ⟨decide_eq_true hmine, as, bs, hlist, fun v hv => ?_⟩
    have hne : (m'.tcb v).taskid ≠ tid := by simpa using has v hv
    obtain heq | ⟨hno, hid⟩ := hname v (by rw [hlist]; exact List.mem_append_left _ hv)
    · simpa [heq] using hne
    · -- a task without a thread still has the identifier of its address
      have hclash : (m.tcb v).taskid ≠ tid := by
        intro he
        have horder := hreg.inOrder
        rw [hlist] at horder
        have hsmall := (List.pairwise_append.mp horder).2.2 v hv u (List.mem_cons_self ..) hno hbefore
        rw [hmine, ← he, hid] at hsmall
        exact ids.apart v hsmall
      simpa using hclash

omit [DecidableEq ι] in
theorem Aside.knows (h : Aside ids m m') (hreg : Registry ids m) {st : Stage θ} (hl : st.locked = true)
    (hk : st.Knows m t) : st.Knows m' t := by
  have hnames : ∀ {tid v}, Names m t tid v → Names m' t tid v := by
    intro tid v hn u hu hs
    obtain ⟨hu, hs⟩ := h.taskFor hreg hu hs
    exact hn u hu hs
  have htarget : ∀ {cause u}, Target m cause u → Target m' cause u := by
    rintro cause u ⟨hlive, htarget⟩
    refine ⟨h.live u hlive, fun v hv => ?_⟩
    rw [(h.same u hlive).1, (h.same u hlive).2.1]
    exact htarget v hv
  cases st with
  | seeks tid v => exact ⟨h.live v hk.1, hnames hk.2⟩
  | condemns tid v => exact ⟨h.live v hk.1, hnames hk.2.1, by rw [(h.same v hk.1).2.1]; exact hk.2.2⟩
  | spares v => exact ⟨h.live v hk.1, by rw [(h.same v hk.1).2.1]; exact hk.2⟩
  | attacks cause u => exact htarget hk
  | drained cause u => exact ⟨htarget hk.1, by rw [(h.same u hk.1.1).2.2]; exact hk.2⟩
  | joins cause u =>
    exact ⟨htarget hk.1, by rw [(h.same u hk.1.1).2.2]; exact hk.2.1, by rw [(h.same u hk.1.1).1]; exact hk.2.2⟩
  | _ => cases hl

end

end V2lin.TaskLib
