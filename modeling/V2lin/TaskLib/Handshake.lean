import V2lin.TaskLib.Deletion

/-! The handshake between a task and those that want to delete it.

Until a deleter comes back, the tasks on the list of a task are those that are pended on
it, and those that were killed there. The first one that comes back is still on the list:
it has been looked for on the list of the semaphore that it waits for. -/
namespace V2lin.TaskLib
open Threads V2lin.Task

section
variable {θ ι : Type}

/-- The task on whose list the caller has put itself. -/
def pendedOn : Pc θ → Option θ
  | .pendTlock (some _) u | .pendUnlock (some _) u | .pendTest (some _) u | .pendWait (some _) u => some u
  | .pendWoken (some _) u | .pendRelock (some _) u | .pendUnlink (some _) u => some u
  | .pendDbcst u | .pendNotify u | .pendDunlock u | .pendTunlock u => some u
  | _ => none

/-- A killed deleter never comes back. -/
def gone : Pc θ → Bool
  | .pendKilled _ | .dying | .exit | .dead => true
  | _ => false

/-- The step with which a deleter of `t` comes back from `task_pend_delete`. -/
def ComesBack (t : θ) (x : TaskTransition θ ι) : Prop := x.pre.ctl x.thread = .awake (.pendTunlock t)

/-- The step with which a deleter of `t` puts itself on its list. -/
def Links (t d : θ) (x : TaskTransition θ ι) : Prop := x.thread = d ∧ x.pre.ctl d = .awake (.pendLink (some d) t)

/-- What the handshake promises: a deleter that comes back is on no list, the last one has
said so, and whoever waits for the deleters of a task waits for one that is still there. -/
structure HandshakeKept (tr : List (TaskTransition θ ι)) (s : TaskState θ ι) : Prop where
  left : ∀ t, ∀ x ∈ tr, ComesBack t x →
    (∀ u, x.thread ∉ (x.post.mem.tcb u).firstSusp) ∧ ∀ id, x.thread ∉ x.post.mem.semSusp id
  last : ∀ t d x y later between before, tr = later ++ x :: (between ++ y :: before) → Links t d y → x.thread = d →
    ComesBack t x → (∀ e, e ≠ d → pendedOn (x.pre.ctl e).point ≠ some t) →
    ∃ z ∈ between, z.thread = d ∧ z.pre.ctl d = .awake (.pendNotify t)
  blocked : ∀ t w caller n, s.ctl w = .asleep (.notifyWait caller t) n →
    ∃ d later y before, tr = later ++ y :: before ∧ Links t d y ∧ ∀ x ∈ later, x.thread = d → ¬ ComesBack t x

/-- The thread stays pended on the same task, or was killed there. -/
structure StaysPended (p p' : Pc θ) : Prop where
  pended : pendedOn p' = pendedOn p ∨ pendedOn p' = none ∧ (pendedOn p = none ∨ gone p' = true)
  gone : gone p = true → gone p' = true

variable {p p' : Pc θ}

theorem LockPoint.staysPended (h : LockPoint p p') : StaysPended p p' := by
  cases h with
  | pend self => cases self <;> exact ⟨.inl rfl, nofun⟩
  | _ => exact ⟨.inl rfl, nofun⟩

theorem UnlockPoint.staysPended (h : UnlockPoint p p') : StaysPended p p' := by
  cases h with
  | pend self => cases self <;> exact ⟨.inl rfl, nofun⟩
  | force cause => cases cause <;> exact ⟨.inl rfl, nofun⟩
  | unsafely madeDeletable => cases madeDeletable <;> exact ⟨.inl rfl, nofun⟩
  | _ => exact ⟨.inl rfl, nofun⟩

theorem KillPoint.staysPended (h : KillPoint p p') : StaysPended p p' := by
  cases h with
  | pend => exact ⟨.inr ⟨rfl, .inr rfl⟩, nofun⟩
  | pendWoken => exact ⟨.inr ⟨rfl, .inr rfl⟩, nofun⟩
  | force cause => cases cause <;> exact ⟨.inl rfl, nofun⟩
  | _ => exact ⟨.inl rfl, nofun⟩

theorem CleanPoint.staysPended (h : CleanPoint p p') : StaysPended p p' := by
  cases h with
  | closing => exact ⟨.inl rfl, nofun⟩
  | dying => exact ⟨.inl rfl, fun _ => rfl⟩

variable [DecidableEq θ] {ids : AddressIds θ} {t w : θ} {m m' : Mem θ ι}

theorem Goes.staysPended (h : Goes w m p p') : StaysPended p p' := by
  cases h with
  | pends self => cases self <;> exact ⟨.inl rfl, nofun⟩
  | pended self => cases self <;> exact ⟨.inl rfl, nofun⟩
  | pendWoken self => cases self <;> exact ⟨.inl rfl, nofun⟩
  | nobody caller => cases caller <;> exact ⟨.inl rfl, nofun⟩
  | _ => exact ⟨.inl rfl, nofun⟩

variable [DecidableEq ι]

theorem next_staysPended (h : (code (ι := ι) ids w p).Next p') (hback : ∀ u, p ≠ .pendTunlock u) :
    StaysPended p p' := by
  cases p
  case deleteTunlock tid self u deletable =>
    cases h
    cases deletable
    · simp only [Bool.false_eq_true, if_false]
      split <;> exact ⟨.inl rfl, nofun⟩
    · exact ⟨.inl rfl, nofun⟩
  case notifyDunlock caller u =>
    cases h
    cases caller <;> exact ⟨.inl rfl, nofun⟩
  case notifyKilled caller u =>
    cases h
    cases caller
    · rename_i cause _ _
      cases cause <;> exact ⟨.inl rfl, nofun⟩
    · exact ⟨.inl rfl, nofun⟩
  case pendTlock self u =>
    cases h
    cases self <;> exact ⟨.inl rfl, nofun⟩
  case pendWait self u =>
    obtain ⟨r, rfl⟩ := h
    cases self <;> exact ⟨.inl rfl, nofun⟩
  case pendTunlock u => exact absurd rfl (hback u)
  case pendKilled u =>
    cases h
    exact ⟨.inl rfl, fun _ => rfl⟩
  all_goals first
    | exact False.elim h
    | (cases h; exact ⟨.inl rfl, nofun⟩)
    | (obtain ⟨r, rfl⟩ := h; exact ⟨.inl rfl, nofun⟩)

theorem Runs.staysPended (h : Runs ids w p m m' p') (hlink : ∀ self u, p ≠ .pendLink self u) : StaysPended p p' := by
  cases h with
  | reads hg => exact hg.staysPended
  | locked hl => exact hl.staysPended
  | unlocked hu => exact hu.staysPended
  | cleaned hc => exact hc.staysPended
  | killed hk => exact hk.staysPended
  | linked => exact absurd rfl (hlink _ _)
  | unlinked v u =>
    split <;> exact ⟨.inl rfl, nofun⟩
  | ended => exact ⟨.inl rfl, fun _ => rfl⟩
  | _ => exact ⟨.inl rfl, nofun⟩

/-! ### Until a deleter comes back -/

variable {s s' : TaskState θ ι} {tr : List (TaskTransition θ ι)}

/-- The tasks on a list are those that are pended there and those that were killed. -/
structure Pends (m : Mem θ ι) (ctl : θ → Ctl (Pc θ)) : Prop where
  pended : ∀ u d, pendedOn (ctl d).point = some u → d ∈ (m.tcb u).firstSusp
  listed : ∀ u d, d ∈ (m.tcb u).firstSusp → pendedOn (ctl d).point = some u ∨ gone (ctl d).point = true
  quiet : ∀ u, m.block u = .fresh ∨ m.block u = .allocated → (m.tcb u).firstSusp = []

/-- A list changes only when somebody links himself to it. -/
theorem Runs.susp_cases (hr : Runs ids w p m m' p') (hok : Ok ids m w p) (hquiet : ∀ u, m.block u = .fresh ∨
    m.block u = .allocated → (m.tcb u).firstSusp = []) :
    (∀ u, (m'.tcb u).firstSusp = (m.tcb u).firstSusp) ∧ (∀ self u, p ≠ .pendLink self u) ∨
      ∃ self u, p = .pendLink self u ∧ p' = .pendTlock self u ∧
        m' = m.setTcb u {m.tcb u with firstSusp := linkSuspTask (m.tcb u).firstSusp self} := by
  have hset : ∀ {v : θ} {b : Tcb θ ι}, b.firstSusp = (m.tcb v).firstSusp →
      ∀ u, ((m.setTcb v b).tcb u).firstSusp = (m.tcb u).firstSusp := by
    intro v b hb u
    rw [Mem.setTcb_congr Tcb.firstSusp m hb]
  cases hr with
  | reads hg => exact .inl ⟨fun _ => rfl, by rintro self u rfl; cases hg⟩
  | locked hl => exact .inl ⟨fun _ => rfl, by rintro self u rfl; cases hl⟩
  | unlocked hu => exact .inl ⟨fun _ => rfl, by rintro self u rfl; cases hu⟩
  | cleaned hc => exact .inl ⟨fun _ => rfl, by rintro self u rfl; cases hc⟩
  | killed hk => exact .inl ⟨fun _ => rfl, by rintro self u rfl; cases hk⟩
  | registered n tid =>
    refine .inl ⟨fun u => ?_, nofun⟩
    by_cases hu : u = n
    · rw [hu, Mem.setTcb_self]
      exact (hquiet n (.inr (hok.allocated n tid true rfl))).symm
    · rw [Mem.setTcb_of_ne _ _ hu]
      rfl
  | named => exact .inl ⟨hset rfl, nofun⟩
  | activated => exact .inl ⟨hset rfl, nofun⟩
  | noThread => exact .inl ⟨fun u => by rw [Mem.taskDelete_tcb], nofun⟩
  | linked self u => exact .inr ⟨self, u, rfl, rfl, rfl⟩
  | unlinked => exact .inl ⟨fun u => by rw [Mem.unlinkWaiting_tcb], nofun⟩
  | removed => exact .inl ⟨fun u => by rw [Mem.taskDelete_tcb], nofun⟩
  | selfRemoved => exact .inl ⟨fun u => by rw [Mem.taskDelete_tcb], nofun⟩
  | protects => exact .inl ⟨hset rfl, nofun⟩
  | unprotects => exact .inl ⟨hset rfl, nofun⟩
  | _ => exact .inl ⟨fun _ => rfl, nofun⟩

omit [DecidableEq θ] [DecidableEq ι] in
/-- The lists stay as they are, and so does, as far as they go, where the thread is. -/
theorem Pends.stays (h : Pends s.mem s.ctl) (hsusp : ∀ u, (s'.mem.tcb u).firstSusp = (s.mem.tcb u).firstSusp)
    (hother : ∀ d, d ≠ w → s'.ctl d = s.ctl d) (hself : StaysPended (s.ctl w).point (s'.ctl w).point)
    (hquiet : ∀ u, s'.mem.block u = .fresh ∨ s'.mem.block u = .allocated → (s.mem.tcb u).firstSusp = []) :
    Pends s'.mem s'.ctl := by
  refine ⟨fun u d hd => ?_, fun u d hd => ?_, fun u hu => by rw [hsusp]; exact hquiet u hu⟩
  · rw [hsusp]
    by_cases hdw : d = w
    · subst hdw
      obtain heq | ⟨hnone, _⟩ := hself.pended
      · exact h.pended u d (by rw [← heq, hd])
      · rw [hnone] at hd
        cases hd
    · rw [hother d hdw] at hd
      exact h.pended u d hd
  · rw [hsusp] at hd
    by_cases hdw : d = w
    · subst hdw
      obtain hp | hg := h.listed u d hd
      · obtain heq | ⟨_, hnone | hgone⟩ := hself.pended
        · exact .inl (by rw [heq, hp])
        · rw [hp] at hnone
          cases hnone
        · exact .inr hgone
      · exact .inr (hself.gone hg)
    · rw [hother d hdw]
      exact h.listed u d hd

theorem pends_step (h : Pends s.mem s.ctl) (hsound : Sound ids s.mem s.ctl) (hs : Step (code ids) w s s')
    (hback : ∀ u, s.ctl w ≠ .awake (.pendTunlock u)) : Pends s'.mem s'.ctl := by
  have hother : ∀ d, d ≠ w → s'.ctl d = s.ctl d := fun d hd => hs.ctl_other hd
  obtain ⟨hm, hblock, hpoint⟩ | ⟨p, p', hp, hp', hr, _⟩ := step_cases hs
  · refine h.stays (by rw [hm]; exact fun _ => rfl) hother ?_ (by rw [hm]; exact h.quiet)
    obtain heq | hnext := hpoint
    · rw [heq]
      exact ⟨.inl rfl, fun hg => hg⟩
    · refine next_staysPended hnext fun u hp => ?_
      -- `pendTunlock` is no wait: a thread there is awake
      cases hc : s.ctl w with
      | awake q =>
        rw [hc, Ctl.point_awake] at hp
        exact hback u (by rw [hc, hp])
      | asleep q n =>
        rw [hc, Ctl.point_asleep] at hp
        have hw := hs.wakes hc
        rw [hp] at hw
        exact hw
  · have hok := hsound.ok w
    have hk := hsound.knows w
    rw [hp, Ctl.point_awake] at hok hk
    have hquiet : ∀ u, s'.mem.block u = .fresh ∨ s'.mem.block u = .allocated → (s.mem.tcb u).firstSusp = [] := by
      intro u hu
      refine h.quiet u ?_
      obtain heq | ⟨he, _⟩ | ⟨he, _⟩ | ⟨_, he, _⟩ := hr.block_cases hsound.registry hok hk u
      · rwa [← heq]
      · exact .inl he
      · exact .inr he
      · rw [he] at hu
        obtain hu | hu := hu <;> cases hu
    obtain ⟨hsusp, hlink⟩ | ⟨self, u, rfl, rfl, hm⟩ := hr.susp_cases hok h.quiet
    · refine h.stays hsusp hother ?_ hquiet
      rw [hp, hp']
      exact hr.staysPended hlink
    · cases self with
      | none =>
        -- a plain thread is not put on any list
        refine h.stays (fun v => ?_) hother (by rw [hp, hp']; exact ⟨.inl rfl, nofun⟩) hquiet
        rw [hm]
        exact Mem.setTcb_congr Tcb.firstSusp s.mem (by rfl) v
      | some v =>
        obtain rfl := (hok.selfTask v rfl).1
        have hnew : ∀ x, v ∉ (s.mem.tcb x).firstSusp := by
          intro x hx
          obtain he | he := h.listed x v hx <;> rw [hp] at he <;> cases he
        have hself : (s'.mem.tcb u).firstSusp = (s.mem.tcb u).firstSusp ++ [v] := by
          rw [hm, Mem.setTcb_self]
          exact linkSuspTask_of_notMem (hnew u)
        have hothers : ∀ x, x ≠ u → (s'.mem.tcb x).firstSusp = (s.mem.tcb x).firstSusp := by
          intro x hx
          rw [hm, Mem.setTcb_of_ne _ _ hx]
        refine ⟨fun x d hd => ?_, fun x d hd => ?_, fun x hx => ?_⟩
        · by_cases hdv : d = v
          · rw [hdv, hp'] at hd
            cases hd
            rw [hself, hdv]
            exact List.mem_append_right _ (List.mem_singleton_self v)
          · rw [hother d hdv] at hd
            have hin := h.pended x d hd
            by_cases hx : x = u
            · rw [hx, hself]
              rw [hx] at hin
              exact List.mem_append_left _ hin
            · rwa [hothers x hx]
        · by_cases hdv : d = v
          · rw [hdv, hp']
            by_cases hx : x = u
            · exact .inl (by rw [hx]; rfl)
            · rw [hothers x hx, hdv] at hd
              exact absurd hd (hnew x)
          · rw [hother d hdv]
            refine h.listed x d ?_
            by_cases hx : x = u
            · rw [hx, hself, List.mem_append, List.mem_singleton] at hd
              rw [hx]
              exact hd.resolve_right hdv
            · rwa [hothers x hx] at hd
        · have hlive := hk.1
          have hxu : x ≠ u := by
            rintro rfl
            have hb : s'.mem.block x = .live := by rw [hm]; exact hlive
            rw [hb] at hx
            obtain hx | hx := hx <;> cases hx
          rw [hothers x hxu]
          exact hquiet x hx

theorem pends (h : Run (code ids) (Initial ids) tr s) (hno : ∀ x ∈ tr, ∀ t, ¬ ComesBack t x) :
    Pends s.mem s.ctl := by
  induction h with
  | start hs =>
    refine ⟨fun u d hd => ?_, fun u d hd => ?_, fun u _ => by rw [hs.tcb]⟩
    · obtain hp | hp := hs.point d <;> rw [hp] at hd <;> cases hd
    · rw [hs.tcb] at hd
      cases hd
  | step hr hs ih =>
    refine pends_step (ih fun x hx => hno x (List.mem_cons_of_mem _ hx)) (sound hr) hs fun u hp => ?_
    exact hno _ (List.mem_cons_self ..) u hp

/-! ### Who waits for the deleters -/

/-- The task for whose deleters the caller waits. -/
def waitsFor : Pc θ → Option θ
  | .notifyWait _ u => some u
  | _ => none

theorem next_waitsFor (h : (code (ι := ι) ids w p).Next p') : waitsFor p' = none := by
  cases p
  case deleteTunlock tid self u deletable =>
    cases h
    cases deletable
    · simp only [Bool.false_eq_true, if_false]
      split <;> rfl
    · rfl
  case notifyDunlock caller u =>
    cases h
    cases caller <;> rfl
  case notifyKilled caller u =>
    cases h
    cases caller
    · rename_i cause _ _
      cases cause <;> rfl
    · rfl
  all_goals first
    | exact False.elim h
    | (cases h; rfl)
    | (obtain ⟨r, rfl⟩ := h; rfl)

/-- Whoever goes to wait has found somebody on the list. -/
theorem Runs.waitsFor_cases (hr : Runs ids w p m m' p') {u : θ} (h : waitsFor p' = some u) :
    (m'.tcb u).firstSusp ≠ [] := by
  cases hr with
  | reads hg =>
    cases hg with
    | undrained caller hsusp =>
      cases h
      exact hsusp
    | nobody caller => cases caller <;> cases h
    | _ => cases h
  | locked hl => cases hl <;> cases h
  | unlocked hu =>
    cases hu with
    | force cause => cases cause <;> cases h
    | unsafely madeDeletable => cases madeDeletable <;> cases h
    | _ => cases h
  | cleaned hc => cases hc <;> cases h
  | killed hk =>
    cases hk with
    | force cause => cases cause <;> cases h
    | _ => cases h
  | unlinked => split at h <;> cases h
  | _ => cases h

theorem linkSuspTask_ne_nil {l : List θ} (self : Option θ) (h : l ≠ []) : linkSuspTask l self ≠ [] := by
  cases self with
  | none => exact h
  | some v => exact List.append_ne_nil_of_right_ne_nil _ (List.cons_ne_nil v [])

/-- As long as nobody comes back, a list with somebody on it stays so. -/
theorem Pends.susp_mono (h : Pends s.mem s.ctl) (hsound : Sound ids s.mem s.ctl) (hs : Step (code ids) w s s') {u : θ}
    (hsusp : (s.mem.tcb u).firstSusp ≠ []) : (s'.mem.tcb u).firstSusp ≠ [] := by
  obtain ⟨hm, _⟩ | ⟨p, p', hp, _, hr, _⟩ := step_cases hs
  · rwa [hm]
  · have hok := hsound.ok w
    rw [hp, Ctl.point_awake] at hok
    obtain ⟨hsame, _⟩ | ⟨self, v, _, _, hm⟩ := hr.susp_cases hok h.quiet
    · rwa [hsame u]
    · rw [hm]
      by_cases hu : u = v
      · rw [hu, Mem.setTcb_self]
        exact linkSuspTask_ne_nil self (hu ▸ hsusp)
      · rwa [Mem.setTcb_of_ne _ _ hu]

theorem waitsFor_susp (h : Run (code ids) (Initial ids) tr s) (hno : ∀ x ∈ tr, ∀ t, ¬ ComesBack t x) {u : θ}
    (hw : waitsFor (s.ctl w).point = some u) : (s.mem.tcb u).firstSusp ≠ [] := by
  induction h generalizing w u with
  | start hs => obtain hp | hp := hs.point w <;> rw [hp] at hw <;> cases hw
  | @step tr s t s' hr hs ih =>
    have hno' : ∀ x ∈ tr, ∀ t, ¬ ComesBack t x := fun x hx => hno x (List.mem_cons_of_mem _ hx)
    have hkept := fun hpre : waitsFor (s.ctl w).point = some u =>
      (pends hr hno').susp_mono (sound hr) hs (ih hno' hpre)
    by_cases hwt : w = t
    · subst hwt
      obtain ⟨_, _, heq | hnext⟩ | ⟨p, p', _, hp', hrun, _⟩ := step_cases hs
      · exact hkept (by rw [← heq, hw])
      · rw [next_waitsFor hnext] at hw
        cases hw
      · rw [hp', Ctl.point_awake] at hw
        exact hrun.waitsFor_cases hw
    · exact hkept (by rw [← hs.ctl_other hwt, hw])

/-- Whoever is on a list has put himself there. -/
theorem linked_of_susp (h : Run (code ids) (Initial ids) tr s) (hno : ∀ x ∈ tr, ∀ t, ¬ ComesBack t x) {u : θ}
    (hsusp : (s.mem.tcb u).firstSusp ≠ []) : ∃ d later y before, tr = later ++ y :: before ∧ Links u d y := by
  induction h with
  | start hs =>
    rw [hs.tcb] at hsusp
    exact absurd rfl hsusp
  | @step tr s t s' hr hs ih =>
    have hno' : ∀ x ∈ tr, ∀ t, ¬ ComesBack t x := fun x hx => hno x (List.mem_cons_of_mem _ hx)
    by_cases hpre : (s.mem.tcb u).firstSusp = []
    · obtain ⟨hm, _⟩ | ⟨p, p', hp, _, hrun, _⟩ := step_cases hs
      · rw [hm] at hsusp
        exact absurd hpre hsusp
      · have hok := (sound hr).ok t
        rw [hp, Ctl.point_awake] at hok
        obtain ⟨hsame, _⟩ | ⟨self, v, rfl, _, hm⟩ := hrun.susp_cases hok (pends hr hno').quiet
        · rw [hsame] at hsusp
          exact absurd hpre hsusp
        · rw [hm] at hsusp
          by_cases hu : u = v
          · subst hu
            rw [Mem.setTcb_self, hpre] at hsusp
            cases self with
            | none => exact absurd rfl hsusp
            | some d =>
              obtain rfl := (hok.selfTask d rfl).1
              exact ⟨d, [], _, tr, rfl, rfl, hp⟩
          · rw [Mem.setTcb_of_ne _ _ hu] at hsusp
            exact absurd hpre hsusp
    · obtain ⟨d, later, y, before, rfl, hlink⟩ := ih hno' hpre
      exact ⟨d, _ :: later, y, before, rfl, hlink⟩

omit [DecidableEq θ] [DecidableEq ι] in
/-- The first step of its kind. -/
theorem first_step (P : TaskTransition θ ι → Prop) (h : ∃ x ∈ tr, P x) :
    ∃ later x before, tr = later ++ x :: before ∧ P x ∧ ∀ z ∈ before, ¬ P z := by
  induction tr with
  | nil => simp at h
  | cons y tr ih =>
    by_cases hrest : ∃ x ∈ tr, P x
    · obtain ⟨later, x, before, rfl, hx, hfirst⟩ := ih hrest
      exact ⟨y :: later, x, before, rfl, hx, hfirst⟩
    · obtain ⟨x, hx, hPx⟩ := h
      obtain rfl | hx := List.mem_cons.mp hx
      · exact ⟨[], x, tr, rfl, hPx, fun z hz hPz => hrest ⟨z, hz, hPz⟩⟩
      · exact absurd ⟨x, hx, hPx⟩ hrest

/-- The handshake is kept exactly as long as no deleter comes back from
`task_pend_delete`. -/
theorem handshake_kept_iff (h : Run (code ids) (Initial ids) tr s) :
    HandshakeKept tr s ↔ ∀ x ∈ tr, ∀ t, ¬ ComesBack t x := by
  refine ⟨fun hkept x hx t hback => ?_, fun hno => ⟨fun t x hx hback => absurd hback (hno x hx t), ?_, ?_⟩⟩
  · -- the first deleter that comes back is still on the list
    obtain ⟨later, x, before, rfl, ⟨t, hback⟩, hfirst⟩ := first_step (fun x => ∃ t, ComesBack t x) ⟨x, hx, t, hback⟩
    have hpends := pends h.before fun z hz t hz' => hfirst z hz ⟨t, hz'⟩
    have hlisted := hpends.pended t x.thread (by rw [hback]; rfl)
    have hmem : x.post.mem = x.pre.mem := by
      have hd := (h.steps x (by simp)).does hback
      rw [hd]
    refine (hkept.left t x (by simp) hback).1 t ?_
    rwa [hmem]
  · intro t d x y later between before htr _ _ hback
    exact absurd hback (hno x (by simp [htr]) t)
  · intro t w caller n hw
    have hsusp := waitsFor_susp h hno (w := w) (u := t) (by rw [hw]; rfl)
    obtain ⟨d, later, y, before, rfl, hlink⟩ := linked_of_susp h hno hsusp
    exact ⟨d, later, y, before, rfl, hlink, fun x hx _ hback => hno x (List.mem_append_left _ hx) t hback⟩

end

/-- Task 1 protects itself, task 0 wants to delete it, task 1 gives up its protection and
waits for its deleters. -/
def awaitsDeleters : List (Fin 3 × Input (Choice (Fin 3))) :=
  does 1 .safe :: goesOn 1 6 ++ does 0 (.delete 65538) :: goesOn 0 10 ++ does 1 .unsafely :: goesOn 1 14

theorem awaitsDeleters_kept : ∃ (tr : List (TaskTransition (Fin 3) Unit)) (s : TaskState (Fin 3) Unit),
    HandshakeKept tr s ∧ waitsFor (s.ctl 1).point = some 1 ∧ pendedOn (s.ctl 0).point = some 1 := by
  obtain ⟨tr, s, hr, hs⟩ := run_of_check (code threeIds) awaitsDeleters
    (fun (tr : List (TaskTransition (Fin 3) Unit)) s =>
      (∀ x ∈ tr, ∀ t, x.pre.ctl x.thread ≠ .awake (.pendTunlock t)) ∧ waitsFor (s.ctl 1).point = some 1 ∧
        pendedOn (s.ctl 0).point = some 1)
    (boot_initial threeIds (l := [0, 1]) (by decide)) (by decide)
  obtain ⟨hno, hrest⟩ := of_decide_eq_true hs
  exact ⟨tr, s, (handshake_kept_iff hr).mpr hno, hrest⟩

/-- The deleter comes back, and task 1 still waits for it. -/
theorem deleter_stays_listed : ∃ (tr : List (TaskTransition (Fin 3) Unit)) (s : TaskState (Fin 3) Unit),
    Run (code threeIds) (Initial threeIds) tr s ∧ ¬ HandshakeKept tr s ∧ s.ctl 0 = .awake .idle ∧
      s.ctl 1 = .asleep (.notifyWait .unsafely 1) 0 := by
  obtain ⟨tr, s, hr, hs⟩ := run_of_check (code threeIds) handshake
    (fun (tr : List (TaskTransition (Fin 3) Unit)) s =>
      (∃ x ∈ tr, x.pre.ctl x.thread = .awake (.pendTunlock 1) ∧ x.thread ∈ (x.post.mem.tcb 1).firstSusp) ∧
        s.ctl 0 = .awake .idle ∧ s.ctl 1 = .asleep (.notifyWait .unsafely 1) 0)
    (boot_initial threeIds (l := [0, 1]) (by decide)) (by decide)
  obtain ⟨⟨x, hx, hback, hlisted⟩, hidle, hasleep⟩ := of_decide_eq_true hs
  exact ⟨tr, s, hr, fun hkept => (hkept.left 1 x hx hback).1 1 hlisted, hidle, hasleep⟩

end V2lin.TaskLib
