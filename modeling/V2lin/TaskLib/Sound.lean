import V2lin.TaskLib.Registry

/-! What every thread relies on and knows holds in every reachable state.

A step carries its own thread from point to point with what that point needs; what the
others rely on and know survives it. -/
namespace V2lin.TaskLib
open Threads V2lin.Task

section
variable {θ ι : Type} [DecidableEq θ] [DecidableEq ι] {ids : AddressIds θ} {t w : θ} {p p' : Pc θ} {m m' : Mem θ ι}

/-! ### From point to point -/

omit [DecidableEq θ] [DecidableEq ι] in
/-- The point `p'` relies on no more than `p` does. -/
structure Follows (p p' : Pc θ) : Prop where
  spawns : spawns p' = none
  chosen : ∀ tid, chosen p' = some tid → chosen p = some tid
  registered : registered p' = true → registered p = true
  selfTask : ∀ u, selfTask p' = some u → selfTask p = some u

omit [DecidableEq θ] in
theorem Follows.of_none (hs : TaskLib.spawns p' = none) (hc : TaskLib.chosen p' = none)
    (hr : TaskLib.registered p' = false) (hself : TaskLib.selfTask p' = none) : Follows p p' where
  spawns := hs
  chosen tid h := by rw [hc] at h; cases h
  registered h := by rw [hr] at h; cases h
  selfTask u h := by rw [hself] at h; cases h

omit [DecidableEq θ] in
theorem Follows.killed (cause : Cause θ) : Follows p cause.killed := by
  cases cause <;> exact .of_none rfl rfl rfl rfl

omit [DecidableEq θ] in
theorem LockPoint.follows (h : LockPoint p p') : Follows p p' := by
  cases h <;> exact ⟨rfl, fun _ h => h, fun h => h, fun _ h => h⟩

omit [DecidableEq θ] in
theorem UnlockPoint.follows (h : UnlockPoint p p') : Follows p p' := by
  cases h with
  | force cause => cases cause <;> exact .of_none rfl rfl rfl rfl
  | unsafely madeDeletable => cases madeDeletable <;> exact .of_none rfl rfl rfl rfl
  | _ => exact ⟨rfl, fun _ h => h, fun h => h, fun _ h => h⟩

omit [DecidableEq θ] in
theorem KillPoint.follows (h : KillPoint p p') : Follows p p' := by
  cases h with
  | force cause => exact .killed cause
  | _ => exact .of_none rfl rfl rfl rfl

omit [DecidableEq θ] in
theorem CleanPoint.follows (h : CleanPoint p p') : Follows p p' := by
  cases h <;> exact .of_none rfl rfl rfl rfl

theorem next_follows {address : θ → ℤ} (h : (code (ι := ι) address w p).Next p') : Follows p p' := by
  cases p
  case deleteTunlock tid self u deletable =>
    cases h
    cases deletable
    · simp only [Bool.false_eq_true, if_false]
      split
      · exact .of_none rfl rfl rfl rfl
      · exact ⟨rfl, fun _ h => h, fun h => h, fun _ h => h⟩
    · exact .of_none rfl rfl rfl rfl
  case notifyDunlock caller u =>
    cases h
    cases caller
    · exact ⟨rfl, fun _ h => h, fun h => h, fun _ h => h⟩
    · exact .of_none rfl rfl rfl rfl
  case notifyKilled caller u =>
    cases h
    cases caller
    · exact .killed _
    · exact .of_none rfl rfl rfl rfl
  all_goals first
    | exact False.elim h
    | (cases h; exact ⟨rfl, fun _ h => h, fun h => h, fun _ h => h⟩)
    | (obtain ⟨r, rfl⟩ := h; exact ⟨rfl, fun _ h => h, fun h => h, fun _ h => h⟩)

theorem next_born (h : (code (ι := ι) ids w p).Next p') : p ≠ .unborn := by
  rintro rfl
  exact h

theorem next_stage (h : (code (ι := ι) ids w p).Next p') : stage p' = stage p ∨ stage p' = .free := by
  cases p
  case deleteTunlock tid self u deletable =>
    cases h
    cases deletable
    · simp only [Bool.false_eq_true, if_false]
      split
      · exact .inr rfl
      · exact .inl rfl
    · exact .inl rfl
  case notifyDunlock caller u =>
    cases h
    cases caller <;> exact .inl rfl
  case notifyKilled caller u =>
    cases h
    cases caller
    · rename_i cause _ _
      cases cause <;> exact .inr rfl
    · exact .inr rfl
  case pendTlock self u =>
    cases h
    cases self <;> exact .inl rfl
  case pendWait self u =>
    obtain ⟨r, rfl⟩ := h
    cases self <;> exact .inl rfl
  all_goals first
    | exact False.elim h
    | (cases h; exact .inl rfl)
    | (obtain ⟨r, rfl⟩ := h; exact .inl rfl)

/-! ### What a thread relies on -/

omit [DecidableEq θ] [DecidableEq ι] in
theorem Ok.follows (h : Ok ids m w p) (hf : Follows p p') (hborn : p ≠ .unborn)
    (hstarted : ∀ u, (m.tcb u).started = true → (m'.tcb u).started = true)
    (hplain : ∀ u, m.block u = .plain → m'.block u = .plain) : Ok ids m' w p' where
  born _ := (h.born hborn).imp (hstarted w) (hplain w)
  spawns n hn := by
    rw [hf.spawns] at hn
    cases hn
  allocated n tid legal hp := by
    have hs := hf.spawns
    rw [hp] at hs
    cases hs
  unnamed n tid hp := by
    have hs := hf.spawns
    rw [hp] at hs
    cases hs
  chosen tid hp := h.chosen tid (hf.chosen tid hp)
  own hp := hstarted w (h.own (hf.registered hp))
  selfTask u hp := ⟨(h.selfTask u (hf.selfTask u hp)).1, hstarted w (h.selfTask u (hf.selfTask u hp)).2⟩

omit [DecidableEq ι] in
/-- A point that reads who the caller is. -/
theorem Ok.looks_up (h : Ok ids m w p) (hborn : p ≠ .unborn) (hs : TaskLib.spawns p' = none)
    (hc : TaskLib.chosen p' = none) (hr : registered p' = true → m.myTask w = some w)
    (hself : ∀ u, TaskLib.selfTask p' = some u → m.myTask w = some u) : Ok ids m w p' where
  born _ := h.born hborn
  spawns n hn := by
    rw [hs] at hn
    cases hn
  allocated n tid legal hp := by
    rw [hp] at hs
    cases hs
  unnamed n tid hp := by
    rw [hp] at hs
    cases hs
  chosen tid hp := by
    rw [hc] at hp
    cases hp
  own hp := (myTask_eq (hr hp)).2.2
  selfTask u hp := ⟨(myTask_eq (hself u hp)).1, (myTask_eq (hself u hp)).2.2⟩

omit [DecidableEq ι] in
theorem Goes.ok (hg : Goes w m p p') (h : Ok ids m w p) : Ok ids m w p' := by
  have hfollows : Follows p p' → p ≠ .unborn → Ok ids m w p' :=
    fun hf hborn => h.follows hf hborn (fun _ hs => hs) fun _ hb => hb
  cases hg with
  | born hs =>
    refine ⟨fun _ => .inl hs, ?_, ?_, ?_, ?_, ?_, ?_⟩ <;> intros <;> rename_i he <;> cases he
  | delete tid => exact h.looks_up nofun rfl rfl (fun hr => by cases hr) fun u hu => hu
  | forceEnter cause tid => exact h.looks_up nofun rfl rfl (fun hr => by cases hr) fun u hu => hu
  | safeFind hmine => exact h.looks_up nofun rfl rfl (fun _ => hmine) fun u hu => by cases hu
  | unsafeFind hmine => exact h.looks_up nofun rfl rfl (fun _ => hmine) fun u hu => by cases hu
  | nobody caller =>
    refine hfollows ?_ nofun
    cases caller
    · exact ⟨rfl, fun _ h => h, fun h => h, fun _ h => h⟩
    · exact .of_none rfl rfl rfl rfl
  | _ =>
    refine hfollows ?_ nofun
    first
    | exact ⟨rfl, fun _ h => h, fun h => h, fun _ h => h⟩
    | exact .of_none rfl rfl rfl rfl

theorem Runs.ok (hr : Runs ids w p m m' p') (hreg : Registry ids m) (hok : Ok ids m w p)
    (hk : (stage p).Knows m w) : Ok ids m' w p' := by
  have hstarted : ∀ u, (m.tcb u).started = true → (m'.tcb u).started = true :=
    fun u hu => hr.started_mono hok hu
  have hplain : ∀ u, m.block u = .plain → m'.block u = .plain := by
    intro u hu
    obtain heq | ⟨he, _⟩ | ⟨he, _⟩ | ⟨he, _⟩ := hr.block_cases hreg hok hk u
    · rw [heq, hu]
    all_goals rw [hu] at he; cases he
  have hfollows : Follows p p' → p ≠ .unborn → Ok ids m' w p' :=
    fun hf hborn => hok.follows hf hborn hstarted hplain
  cases hr with
  | reads hg => exact hg.ok hok
  | locked hl => exact hfollows hl.follows (by rintro rfl; cases hl)
  | unlocked hu => exact hfollows hu.follows (by rintro rfl; cases hu)
  | cleaned hc => exact hfollows hc.follows (by rintro rfl; cases hc)
  | killed hk => exact hfollows hk.follows (by rintro rfl; cases hk)
  | @allocated _ n legal hfresh =>
    refine ⟨fun _ => (hok.born nofun).imp (hstarted w) (hplain w), ?_, ?_, ?_, ?_, ?_, ?_⟩
    · rintro _ ⟨⟩
      refine ⟨by rw [Mem.setBlock_self]; decide, ?_⟩
      -- a block that has never been handed out has no thread
      refine Bool.eq_false_iff.mpr fun hs => ?_
      obtain ⟨hb | hb, _⟩ := hreg.started n hs <;> rw [hfresh] at hb <;> cases hb
    · rintro _ _ _ ⟨⟩
      exact Mem.setBlock_self m n _
    · nofun
    · rintro _ ⟨⟩
      exact newTid_range _
    · nofun
    · nofun
  | registered n tid =>
    refine ⟨fun _ => (hok.born nofun).imp (hstarted w) (hplain w), ?_, ?_, ?_, ?_, ?_, ?_⟩
    · rintro _ ⟨⟩
      exact ⟨by rw [Mem.setTcb_block, Mem.setBlock_self]; decide, by rw [Mem.setTcb_self]⟩
    · nofun
    · rintro _ _ ⟨⟩
      rw [Mem.setTcb_self]
    · rintro _ ⟨⟩
      exact hok.chosen tid rfl
    · nofun
    · nofun
  | unlinked v u =>
    refine hfollows ?_ nofun
    split <;> exact .of_none rfl rfl rfl rfl
  | linked selfTask u => exact hfollows ⟨rfl, fun _ h => h, fun h => h, fun _ h => h⟩ nofun
  | _ =>
    refine hfollows ?_ nofun
    first
    | exact ⟨rfl, fun _ h => h, fun h => h, fun _ h => h⟩
    | exact .of_none rfl rfl rfl rfl

/-- Only `taskActivate` creates a thread, for a task that already has the chosen name. -/
theorem Runs.unstarted (hr : Runs ids w p m m' p') (hok : Ok ids m w p) {n : θ} (h : (m.tcb n).started = false) :
    (m'.tcb n).started = false ∨ n ∈ m.taskList ∧ Small (m.tcb n).taskid := by
  have hset : ∀ {v : θ} {b : Tcb θ ι}, b.started = (m.tcb v).started → ((m.setTcb v b).tcb n).started = false := by
    intro v b hb
    rw [Mem.setTcb_congr Tcb.started m hb]
    exact h
  cases hr with
  | registered n' tid =>
    refine .inl ?_
    by_cases hn : n = n'
    · rw [hn, Mem.setTcb_self]
    · rw [Mem.setTcb_of_ne _ _ hn]
      exact h
  | @activated _ tid u hu hs =>
    by_cases hn : n = u
    · have hsmall := hok.chosen tid rfl
      rw [hn]
      refine .inr ⟨taskFor_listed hu, ?_⟩
      rw [taskFor_id (by unfold Small at hsmall; omega) hu]
      exact hsmall
    · exact .inl (by rwa [Mem.setTcb_of_ne m _ hn])
  | named => exact .inl (hset rfl)
  | noThread => exact .inl (by rwa [Mem.taskDelete_tcb])
  | linked => exact .inl (hset rfl)
  | unlinked => exact .inl (by rwa [Mem.unlinkWaiting_tcb])
  | removed => exact .inl (by rwa [Mem.taskDelete_tcb])
  | selfRemoved => exact .inl (by rwa [Mem.taskDelete_tcb])
  | protects => exact .inl (hset rfl)
  | unprotects => exact .inl (hset rfl)
  | _ => exact .inl h

/-- Only its spawner names a task. -/
theorem Runs.taskid_cases (hr : Runs ids w p m m' p') (u : θ) :
    (m'.tcb u).taskid = (m.tcb u).taskid ∨ spawns p = some u := by
  have hset : ∀ {v : θ} {b : Tcb θ ι}, b.taskid = (m.tcb v).taskid →
      ((m.setTcb v b).tcb u).taskid = (m.tcb u).taskid := by
    intro v b hb
    rw [Mem.setTcb_congr Tcb.taskid m hb]
  cases hr with
  | registered n tid =>
    by_cases hu : u = n
    · exact .inr (by rw [hu]; rfl)
    · exact .inl (by rw [Mem.setTcb_of_ne _ _ hu]; rfl)
  | named n tid =>
    by_cases hu : u = n
    · exact .inr (by rw [hu]; rfl)
    · exact .inl (by rw [Mem.setTcb_of_ne _ _ hu])
  | activated => exact .inl (hset rfl)
  | noThread => exact .inl (by rw [Mem.taskDelete_tcb])
  | linked => exact .inl (hset rfl)
  | unlinked => exact .inl (by rw [Mem.unlinkWaiting_tcb])
  | removed => exact .inl (by rw [Mem.taskDelete_tcb])
  | selfRemoved => exact .inl (by rw [Mem.taskDelete_tcb])
  | protects => exact .inl (hset rfl)
  | unprotects => exact .inl (hset rfl)
  | _ => exact .inl rfl

theorem Ok.other {q : Pc θ} (h : Ok ids m t q) (hr : Runs ids w p m m' p') (hreg : Registry ids m)
    (hok : Ok ids m w p) (hk : (stage p).Knows m w) (hunique : ∀ n, TaskLib.spawns q = some n → TaskLib.spawns p ≠ some n) :
    Ok ids m' t q where
  born hq := by
    refine (h.born hq).imp (hr.started_mono hok) fun hb => ?_
    obtain heq | ⟨he, _⟩ | ⟨he, _⟩ | ⟨he, _⟩ := hr.block_cases hreg hok hk t
    · rw [heq, hb]
    all_goals rw [hb] at he; cases he
  spawns n hn := by
    obtain ⟨hb, hs⟩ := h.spawns n hn
    refine ⟨?_, ?_⟩
    · obtain heq | ⟨he, _⟩ | ⟨_, he, _⟩ | ⟨_, he, _⟩ := hr.block_cases hreg hok hk n
      · rwa [heq]
      · exact absurd he hb
      · obtain he | he := he <;> rw [he] <;> decide
      · rw [he]
        decide
    · obtain hs' | ⟨hin, hsmall⟩ := hr.unstarted hok hs
      · exact hs'
      · cases q <;> cases hn
        · rw [hreg.live, h.allocated n _ _ rfl] at hin
          cases hin
        · rw [h.unnamed n _ rfl] at hsmall
          exact absurd hsmall (ids.apart n)
  allocated n tid legal hq := by
    have hb := h.allocated n tid legal hq
    obtain heq | ⟨he, _⟩ | ⟨_, _, he⟩ | ⟨he, _⟩ := hr.block_cases hreg hok hk n
    · rwa [heq]
    · rw [hb] at he
      cases he
    · exact absurd he (hunique n (by rw [hq]; rfl))
    · rw [hb] at he
      cases he
  unnamed n tid hq := by
    obtain heq | he := hr.taskid_cases n
    · rw [heq]
      exact h.unnamed n tid hq
    · exact absurd he (hunique n (by rw [hq]; rfl))
  chosen := h.chosen
  own hq := hr.started_mono hok (h.own hq)
  selfTask u hu := ⟨(h.selfTask u hu).1, hr.started_mono hok (h.selfTask u hu).2⟩

omit [DecidableEq ι] in
/-- A spawner has the control block from the heap. -/
theorem Goes.spawns (hg : Goes w m p p') : TaskLib.spawns p' = none := by
  cases hg with
  | nobody caller => cases caller <;> rfl
  | _ => rfl

theorem Runs.spawns_cases (hr : Runs ids w p m m' p') {n : θ} (h : spawns p' = some n) :
    spawns p = some n ∨ m.block n = .fresh := by
  cases hr with
  | reads hg =>
    rw [hg.spawns] at h
    cases h
  | locked hl =>
    rw [hl.follows.spawns] at h
    cases h
  | unlocked hu =>
    rw [hu.follows.spawns] at h
    cases h
  | cleaned hc =>
    rw [hc.follows.spawns] at h
    cases h
  | killed hk =>
    rw [hk.follows.spawns] at h
    cases h
  | allocated legal hfresh =>
    cases h
    exact .inr hfresh
  | registered n tid => exact .inl h
  | unlinked => split at h <;> cases h
  | _ => cases h

/-! ### What a thread knows -/

omit [DecidableEq θ] in
theorem LockPoint.stage (h : LockPoint p p') : TaskLib.stage p' = TaskLib.stage p := by
  cases h with
  | pend self => cases self <;> rfl
  | _ => rfl

omit [DecidableEq θ] in
theorem UnlockPoint.stage (h : UnlockPoint p p') : TaskLib.stage p' = TaskLib.stage p ∨ TaskLib.stage p' = .free := by
  cases h with
  | pend self => cases self <;> exact .inl rfl
  | force cause error =>
    cases cause <;> cases error <;> exact .inl rfl
  | self => exact .inl rfl
  | unsafely madeDeletable => cases madeDeletable <;> exact .inr rfl
  | _ => exact .inr rfl

omit [DecidableEq θ] in
theorem KillPoint.stage (h : KillPoint p p') : TaskLib.stage p' = .free := by
  cases h with
  | force cause => cases cause <;> rfl
  | _ => rfl

omit [DecidableEq ι] in
theorem Stage.Knows.of_eq {st : Stage θ} (h : st.Knows m t) (hlist : m'.taskList = m.taskList)
    (hblock : m'.block = m.block) (htcb : m'.tcb = m.tcb) : st.Knows m' t := by
  have hfor : ∀ tid, m'.taskFor t tid = m.taskFor t tid := by
    intro tid
    unfold Mem.taskFor Mem.myTask
    rw [hlist, htcb]
  cases st <;> simp only [Stage.Knows, Names, Target, hblock, htcb, hfor] at h ⊢ <;> exact h

omit [DecidableEq ι] in
theorem Stage.Knows.passes {st st' : Stage θ} (h : st.Knows m t) (hst : st' = st ∨ st' = .free) : st'.Knows m t := by
  obtain rfl | rfl := hst
  · exact h
  · trivial

omit [DecidableEq ι] in
theorem Goes.knows (hg : Goes w m p p') (hreg : Registry ids m) (hok : Ok ids m w p)
    (hk : (stage p).Knows m w) : (stage p').Knows m w := by
  cases hg with
  | @found tid u _ hu =>
    refine ⟨(hreg.live u).mp (taskFor_listed hu), fun v hv _ => ?_⟩
    rw [hu] at hv
    exact (Option.some.inj hv).symm
  | deletable _ _ hcount => exact ⟨hk.1, hk.2, hcount⟩
  | undeletable _ _ hcount => exact ⟨hk.1, hcount⟩
  | pends selfTask => cases selfTask <;> exact hk
  | pended selfTask => cases selfTask <;> exact hk
  | pendWoken selfTask => cases selfTask <;> exact hk
  | forceEnter => exact hk
  | @forceFound tid u cause _ hu =>
    refine ⟨(hreg.live u).mp (taskFor_listed hu), fun v hv => ?_⟩
    cases cause with
    | nested v' =>
      obtain rfl := Option.some.inj hv
      obtain ⟨_, hnames, hcount⟩ := hk
      refine ⟨?_, hnames u hu⟩
      -- a task without a thread has never been protected
      cases hs : (m.tcb u).started with
      | false => exact Int.le_of_eq (hreg.quiet u hs)
      | true => rwa [hnames u hu hs]
    | _ => cases hv
  | self cause tid => exact ⟨hk.1, hk.2, by rw [(hok.selfTask _ rfl).1]; exact (hok.selfTask _ rfl).2⟩
  | other => exact hk
  | joined => exact hk
  | nobody caller hnobody =>
    cases caller with
    | force => exact ⟨hk, hnobody⟩
    | unsafely => trivial
  | notifies => exact hk
  | undrained => exact hk
  | drained caller hnobody =>
    cases caller with
    | force => exact ⟨hk, hnobody⟩
    | unsafely => trivial
  | notifyWoken => exact hk
  | forceNone cause => cases cause <;> trivial
  | _ => trivial

theorem Runs.knows (hr : Runs ids w p m m' p') (hreg : Registry ids m) (hok : Ok ids m w p)
    (hk : (stage p).Knows m w) : (stage p').Knows m' w := by
  cases hr with
  | reads hg => exact hg.knows hreg hok hk
  | locked hl => exact (hk.of_eq rfl rfl rfl).passes (.inl hl.stage)
  | unlocked hu => exact (hk.of_eq rfl rfl rfl).passes hu.stage
  | cleaned hc => cases hc <;> trivial
  | killed hkill => exact hk.passes (.inr hkill.stage)
  | linked selfTask u =>
    cases selfTask with
    | none => trivial
    | some v =>
      refine ⟨hk.1, ?_, ?_⟩
      · rw [Mem.setTcb_self]
        refine Bool.not_eq_false _ |>.mp fun hs => ?_
        have hcount := hk.2
        rw [hreg.quiet u hs] at hcount
        exact absurd hcount (Int.lt_irrefl 0)
      · rw [Mem.setTcb_self]
        exact List.append_ne_nil_of_right_ne_nil _ (List.cons_ne_nil v [])
  | unlinked v u =>
    have hpended : (Stage.pended u).Knows (m.unlinkWaiting v) w := hk.of_eq (by simp) (by simp) (by simp)
    split <;> exact hpended
  | cancels cause hs => exact ⟨hk.1, hk.2, hs⟩
  | removed cause u =>
    cases cause with
    | nested v =>
      obtain rfl := (hk.1.2 v rfl).2 hk.2.2
      exact Mem.setBlock_self ..
    | _ => trivial
  | selfRemoved cause u =>
    cases cause with
    | nested v =>
      obtain rfl := (hk.1.2 v rfl).2 hk.2.2
      exact Mem.setBlock_self ..
    | _ => trivial
  | _ => trivial

/-- What a thread knows survives the steps of the others. -/
theorem Stage.Knows.other {q : Pc θ} (h : (stage q).Knows m t) (hr : Runs ids w p m m' p') (hreg : Registry ids m)
    (hok : Ok ids m w p) (hk : (stage p).Knows m w) (hw : w ≠ t)
    (hlocker : 0 < locks q → m.sched.locker = some t) (hheld : 0 < locks p → m.sched.locker = some w) :
    (stage q).Knows m' t := by
  cases hl : (stage q).locked with
  | true => exact (hr.aside hok (hlocker (stage_locked hl)) hw hheld).knows hreg hl h
  | false =>
    generalize stage q = st at *
    cases st with
    | free => trivial
    | pended u =>
      obtain ⟨hlive, hs, hsusp⟩ := h
      refine ⟨?_, hr.started_mono hok hs, hr.susp_mono hok hlive hsusp⟩
      obtain heq | ⟨he, _⟩ | ⟨he, _⟩ | ⟨_, _, he | he⟩ := hr.block_cases hreg hok hk u
      · rw [heq, hlive]
      · rw [hlive] at he
        cases he
      · rw [hlive] at he
        cases he
      · rw [hs] at he
        cases he
      · exact absurd he hsusp
    | done v =>
      obtain heq | ⟨he, _⟩ | ⟨he, _⟩ | ⟨_, he, _⟩ := hr.block_cases hreg hok hk v
      · exact heq.trans h
      · exact absurd (he.symm.trans h) (by decide)
      · exact absurd (he.symm.trans h) (by decide)
      · exact he
    | _ => cases hl

/-! ### Every reachable state -/

variable {s s' : TaskState θ ι} {tr : List (TaskTransition θ ι)}

omit [DecidableEq ι] in
theorem Initial.sound (h : Initial ids s) : Sound ids s.mem s.ctl := by
  have hpoint : ∀ t, t ∈ s.mem.taskList ∧ s.mem.block t = .live ∧ (s.ctl t).point = .idle ∨
      t ∉ s.mem.taskList ∧ (s.mem.block t = .fresh ∧ (s.ctl t).point = .unborn ∨
        s.mem.block t = .plain ∧ (s.ctl t).point = .idle) := by
    intro t
    by_cases hin : t ∈ s.mem.taskList
    · exact .inl ⟨hin, (h.listed t hin).1, by rw [(h.listed t hin).2]; rfl⟩
    · obtain ⟨hb, hp⟩ | ⟨hb, hp⟩ := h.unlisted t hin
      · exact .inr ⟨hin, .inl ⟨hb, by rw [hp]; rfl⟩⟩
      · exact .inr ⟨hin, .inr ⟨hb, by rw [hp]; rfl⟩⟩
  have hnone : ∀ t, (s.ctl t).point = .idle ∨ (s.ctl t).point = .unborn := by
    intro t
    obtain ⟨_, _, hp⟩ | ⟨_, ⟨_, hp⟩ | ⟨_, hp⟩⟩ := hpoint t
    · exact .inl hp
    · exact .inr hp
    · exact .inl hp
  have horder : s.mem.taskList.Pairwise fun v u =>
      (s.mem.tcb v).started = false → (s.mem.tcb u).started = true → Small (s.mem.tcb u).taskid := by
    refine List.pairwise_of_forall_mem_list fun v hv u _ hs _ => ?_
    rw [h.tcb] at hs
    exact absurd hv (of_decide_eq_false hs)
  refine ⟨⟨h.nodup, fun u => ?_, fun u hu => ?_, fun u _ => by rw [h.tcb], horder⟩, fun t => ?_, fun t u n hn => ?_,
    fun t => ?_⟩
  · obtain ⟨hin, hb, _⟩ | ⟨hin, ⟨hb, _⟩ | ⟨hb, _⟩⟩ := hpoint u <;> simp [hin, hb]
  · rw [h.tcb] at hu ⊢
    exact ⟨.inl (h.listed u (of_decide_eq_true hu)).1, .inr rfl⟩
  · obtain ⟨hin, hb, hp⟩ | ⟨hin, ⟨hb, hp⟩ | ⟨hb, hp⟩⟩ := hpoint t <;> rw [hp]
    · exact ⟨fun _ => .inl (by rw [h.tcb]; exact decide_eq_true hin), nofun, nofun, nofun, nofun, nofun, nofun⟩
    · exact ⟨fun he => absurd rfl he, nofun, nofun, nofun, nofun, nofun, nofun⟩
    · exact ⟨fun _ => .inr hb, nofun, nofun, nofun, nofun, nofun, nofun⟩
  · obtain hp | hp := hnone t <;> rw [hp] at hn <;> cases hn
  · obtain hp | hp := hnone t <;> rw [hp] <;> trivial

theorem sound_step (h : Sound ids s.mem s.ctl) (hheld : Held s.mem.sched s.ctl) (hs : Step (code ids) t s s') :
    Sound ids s'.mem s'.ctl := by
  obtain ⟨hreg, hok, hunique, hknows⟩ := h
  obtain ⟨hm, _, hpoint⟩ | ⟨p, p', hp, hp', hr, _⟩ := step_cases hs
  · -- the memory stays, and the point relies on no more than before
    rw [hm]
    have hself : Ok ids s.mem t (s'.ctl t).point ∧ (∀ n, spawns (s'.ctl t).point = some n →
        spawns (s.ctl t).point = some n) ∧ (stage (s'.ctl t).point).Knows s.mem t := by
      obtain heq | hnext := hpoint
      · rw [heq]
        exact ⟨hok t, fun _ hn => hn, hknows t⟩
      · refine ⟨(hok t).follows (next_follows hnext) (next_born hnext) (fun _ h => h) fun _ h => h, fun n hn => ?_,
          (hknows t).passes (next_stage hnext)⟩
        rw [(next_follows hnext).spawns] at hn
        cases hn
    have hspawns : ∀ u n, spawns (s'.ctl u).point = some n → spawns (s.ctl u).point = some n := by
      intro u n hn
      by_cases hu : u = t
      · subst hu
        exact hself.2.1 n hn
      · rwa [hs.ctl_other hu] at hn
    refine ⟨hreg, fun u => ?_, fun u v n hu hv => hunique u v n (hspawns u n hu) (hspawns v n hv), fun u => ?_⟩
    all_goals by_cases hu : u = t
    · subst hu
      exact hself.1
    · rw [hs.ctl_other hu]
      exact hok u
    · subst hu
      exact hself.2.2
    · rw [hs.ctl_other hu]
      exact hknows u
  · have hokt := hok t
    have hkt := hknows t
    rw [hp, Ctl.point_awake] at hokt hkt
    have hother : ∀ u n, u ≠ t → spawns (s.ctl u).point = some n → spawns p ≠ some n := by
      intro u n hu hn hpn
      exact hu (hunique u t n hn (by rw [hp]; exact hpn))
    refine ⟨hr.registry hreg hokt hkt, fun u => ?_, fun u v n hu hv => ?_, fun u => ?_⟩
    · by_cases hu : u = t
      · subst hu
        rw [hp']
        exact hr.ok hreg hokt hkt
      · rw [hs.ctl_other hu]
        exact (hok u).other hr hreg hokt hkt fun n => hother u n hu
    · -- the block that a new spawner has is fresh, hence nobody else's
      have hspawner : ∀ u v n, u = t → v ≠ t → spawns (s'.ctl u).point = some n →
          spawns (s'.ctl v).point ≠ some n := by
        rintro u v n rfl hv hn hvn
        rw [hp'] at hn
        rw [hs.ctl_other hv] at hvn
        obtain hpn | hfresh := hr.spawns_cases hn
        · exact hother v n hv hvn hpn
        · exact ((hok v).spawns n hvn).1 hfresh
      by_cases hut : u = t
      · by_cases hvt : v = t
        · rw [hut, hvt]
        · exact absurd hv (hspawner u v n hut hvt hu)
      · by_cases hvt : v = t
        · exact absurd hu (hspawner v u n hvt hut hv)
        · rw [hs.ctl_other hut] at hu
          rw [hs.ctl_other hvt] at hv
          exact hunique u v n hu hv
    · by_cases hu : u = t
      · subst hu
        rw [hp']
        exact hr.knows hreg hokt hkt
      · rw [hs.ctl_other hu]
        refine (hknows u).other hr hreg hokt hkt (Ne.symm hu) (fun hl => (hheld u hl).1) fun hl => ?_
        exact (hheld t (by rw [hp]; exact hl)).1

theorem sound (h : Run (code ids) (Initial ids) tr s) : Sound ids s.mem s.ctl := by
  induction h with
  | start hs => exact hs.sound
  | step hr hs ih => exact sound_step ih (held hr) hs

theorem sound_pre (h : Run (code ids) (Initial ids) tr s) :
    ∀ x ∈ tr, Sound ids x.pre.mem x.pre.ctl ∧ Held x.pre.mem.sched x.pre.ctl := by
  intro x hx
  obtain ⟨later, before, rfl⟩ := List.append_of_mem hx
  exact ⟨sound h.before, held h.before⟩

end

end V2lin.TaskLib
