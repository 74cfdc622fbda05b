import V2lin.Watchdog.Live
import V2lin.Watchdog.Timer

/-! Every watchdog is a timer.

The steps of a run that touch a watchdog, seen as deeds at its timer, lead the timer to
what the control block shows, however many tasks and passes run at once. Each call is
settled by one deed of its thread between its call and its return. -/
namespace V2lin.Watchdog
open Threads

section
variable {θ ι φ : Type}

/-! ### Calls -/

/-- How far the call at a point is, and with which result. -/
def progress : Pc ι φ → CallStage (Op φ × ι) Status
  | .validLock (.call _ op) id | .validScan (.call _ op) id | .validWdog (.call _ op) id => .pending (op, id)
  | .validUnlock (.call _ op) id found => if found then .pending (op, id) else .settled (op, id) .objIdError
  | .startSet _ delay f parm id => .pending (.start delay f parm, id)
  | .cancelZero _ id => .pending (.cancel, id)
  | .leave _ op id => .settled (op, id) .ok
  | .deleteListLock _ id | .deleteUnlink _ id => .pending (.delete, id)
  | .deleteListUnlock _ id | .deleteUnlock _ id | .deleteFree _ id => .settled (.delete, id) .ok
  | .returned _ op id error => .settled (op, id) error
  | .idle _ | .linkLock _ _ | .linkAppend _ _ | .linkUnlock _ _ => .outside
  | .validLock .tick _ | .validScan .tick _ | .validWdog .tick _ | .validUnlock .tick _ _ => .outside
  | .tickCount _ | .tickUnlock _ _ _ | .tickCall _ _ => .outside

/-- Whether the pass at a point has found the timeout function of a watchdog due. -/
def dues [DecidableEq ι] (id : ι) : Pc ι φ → Bool
  | .tickUnlock j _ fires => j = id && fires
  | .tickCall j _ => j = id
  | _ => false

variable {p p' : Pc ι φ} {id : ι} {frame : Frame ι}

theorem Resting.not_pending (h : Resting frame p) (call : Op φ × ι) : progress p ≠ .pending call := by
  cases h with
  | idle => exact fun h => by cases h
  | returned op id error => exact fun h => by cases h

theorem Resting.leaves (h : Resting frame p) : (progress p).Goes .outside := by
  cases h with
  | idle => exact .stays _
  | returned op id error => exact .left _ _

theorem progress_passOn (next : Option ι) : progress (passOn next : Pc ι φ) = .outside := by
  cases next <;> rfl

theorem progress_entry (use : Use ι φ) (id : ι) (found : Bool) :
    progress (entry use id found) = progress (.validUnlock use id found) := by
  cases use with
  | tick => cases found <;> rfl
  | call frame op =>
    cases found
    · rfl
    · cases op <;> rfl

variable [DecidableEq ι]

theorem Resting.dues (h : Resting frame p) : dues id p = false := by
  cases h <;> rfl

theorem dues_passOn (next : Option ι) : dues id (passOn next : Pc ι φ) = false := by
  cases next <;> rfl

theorem dues_entry (use : Use ι φ) (j : ι) (found : Bool) : dues id (entry use j found) = false := by
  cases use with
  | tick => cases found <;> rfl
  | call frame op =>
    cases found
    · rfl
    · cases op <;> rfl

variable {t : θ} {m m' : Mem ι φ}

theorem next_progress (h : (code t p).Next p') : progress p' = progress p := by
  cases p
  case validUnlock use j found =>
    obtain rfl := h
    exact progress_entry use j found
  case tickUnlock j next fires =>
    obtain rfl := h
    cases fires
    · exact progress_passOn next
    · rfl
  all_goals first
    | exact False.elim h
    | (obtain rfl := h; rfl)
    | (rename_i use _; obtain rfl := h; cases use <;> rfl)

theorem next_dues (h : (code t p).Next p') : dues id p' = dues id p := by
  cases p
  case validUnlock use j found =>
    obtain rfl := h
    exact dues_entry use j found
  case tickUnlock j next fires =>
    obtain rfl := h
    cases fires
    · exact (dues_passOn next).trans (Bool.and_false _).symm
    · exact (Bool.and_true _).symm
  all_goals first
    | exact False.elim h
    | (obtain rfl := h; rfl)

/-! ### The timer of a watchdog -/

/-- The timer that the library's memory shows, with the passes that have found a call due. -/
def Mem.timer (m : Mem ι φ) (id : ι) (due : θ → Bool) : Timer θ φ where
  listed := id ∈ m.wdogList
  remaining := (m.wdog id).ticksRemaining.toNat
  func := (m.wdog id).timeoutFunc
  parm := (m.wdog id).timeoutParm
  due := due

/-- The timer that a state shows. -/
def timer (id : ι) (s : WdogState θ ι φ) : Timer θ φ := s.mem.timer id fun t => dues id (s.ctl t).point

/-- The deed at the timer of watchdog `id` in a block of thread `t` from `p` to `p'`. -/
def deedAt (id : ι) (t : θ) (p p' : Pc ι φ) (m : Mem ι φ) : Option (Deed θ φ) :=
  match p, p' with
  | .linkAppend _ j, _ => if j = id then some .opens else none
  | .validScan (.call _ op) j, .validUnlock _ _ _ => if j = id then some (.refuse t op) else none
  | .startSet _ delay f parm j, _ => if j = id then some (.start t delay f parm) else none
  | .cancelZero _ j, _ => if j = id then some (.cancel t) else none
  | .deleteUnlink _ j, _ => if j = id then some (.close t) else none
  | .tickCount j, .tickUnlock _ _ fires => if j = id then some (.tick t fires) else none
  | .tickCall j _, _ =>
    if j = id then (m.wdog id).timeoutFunc.map fun f => .call t f (m.wdog id).timeoutParm else none
  | _, _ => none

/-- The deed at the timer of watchdog `id` that a step is. -/
def deed (id : ι) (x : WdogTransition θ ι φ) : Option (Deed θ φ) :=
  stepEvent (fun t p p' _ m' => deedAt id t p p' m') x

/-- A step that makes watchdog `id`. -/
def Creates (id : ι) (x : WdogTransition θ ι φ) : Prop :=
  x.pre.mem.block id = .fresh ∧ x.post.mem.block id ≠ .fresh

theorem Resting.deedAt (h : Resting frame p) : deedAt id t p p' m = none := by
  cases h <;> rfl

theorem Mem.timer_congr {due : θ → Bool} (hwdog : m'.wdog id = m.wdog id)
    (hlist : id ∈ m'.wdogList ↔ id ∈ m.wdogList) : m'.timer id due = m.timer id due := by
  simp only [Mem.timer, hwdog, hlist]

variable [DecidableEq θ]

/-! ### Blocks -/

/-- What is known of a watchdog where a block begins. -/
structure Facts (id : ι) (p : Pc ι φ) (m : Mem ι φ) : Prop where
  made : m.block id ≠ .fresh
  listed : finds p = some id → id ∈ m.wdogList
  unlinked : publishing p = some id → id ∉ m.wdogList
  nodup : m.wdogList.Nodup

theorem start_ticks (v : V2ptWdog φ) (delay : ℤ) (f : Option φ) (parm : ℤ) :
    (v.start delay f parm).ticksRemaining.toNat = (period delay).toNat := by
  simp only [V2ptWdog.start, period]
  split <;> omega

theorem tick_ticks (v : V2ptWdog φ) : v.tick.1.ticksRemaining.toNat = v.ticksRemaining.toNat - 1 := by
  unfold V2ptWdog.tick
  split
  · show (v.ticksRemaining - 1).toNat = _
    omega
  · show v.ticksRemaining.toNat = _
    omega

theorem tick_args (v : V2ptWdog φ) : v.tick.1.timeoutFunc = v.timeoutFunc ∧ v.tick.1.timeoutParm = v.timeoutParm := by
  unfold V2ptWdog.tick
  split <;> exact ⟨rfl, rfl⟩

theorem tick_fires (v : V2ptWdog φ) :
    v.tick.2 = decide (v.ticksRemaining.toNat = 1 ∧ v.timeoutFunc.isSome = true) := by
  unfold V2ptWdog.tick
  split
  · refine decide_eq_decide.mpr (and_congr_left fun _ => ?_)
    show v.ticksRemaining - 1 = 0 ↔ _
    omega
  · refine (decide_eq_false fun h => ?_).symm
    omega

variable [DecidableEq φ]

/-- A block is what it is at the timer. -/
theorem Runs.acts (hr : Runs p m m' p') (hfacts : Facts id p m) {due : θ → Bool} (hdue : due t = dues id p) :
    Acts Timer.act (deedAt id t p p' m') (m.timer id due)
      (m'.timer id (Function.update due t (dues id p'))) := by
  have hstay : dues id p' = dues id p → Function.update due t (dues id p') = due := fun h => by
    rw [h, ← hdue, Function.update_eq_self]
  have hkeep : deedAt id t p p' m' = none → m'.wdog id = m.wdog id → (id ∈ m'.wdogList ↔ id ∈ m.wdogList) →
      dues id p' = dues id p → Acts Timer.act (deedAt id t p p' m') (m.timer id due)
        (m'.timer id (Function.update due t (dues id p'))) := by
    intro hnone hwdog hlist hdues
    rw [hnone, hstay hdues]
    exact Mem.timer_congr hwdog hlist
  cases hr with
  | called op j hrest => exact hkeep hrest.deedAt rfl Iff.rfl hrest.dues.symm
  | created j hrest hfresh =>
    have hne : id ≠ j := fun he => hfacts.made (he ▸ hfresh)
    exact hkeep hrest.deedAt (Mem.setWdog_of_ne _ _ hne) Iff.rfl hrest.dues.symm
  | passed hrest => exact hkeep hrest.deedAt rfl Iff.rfl ((dues_passOn _).trans hrest.dues.symm)
  | finished hrest => exact hkeep hrest.deedAt rfl Iff.rfl ((dues_passOn _).trans hrest.dues.symm)
  | linked frame j =>
    by_cases hj : j = id
    · subst hj
      have hout : j ∉ m.wdogList := hfacts.unlinked rfl
      rw [hstay rfl]
      simp [deedAt, Acts, Timer.act, Mem.timer, hout]
    · exact hkeep (if_neg hj) rfl (by simp [Ne.symm hj]) rfl
  | found use hin => exact hkeep (by cases use <;> rfl) rfl Iff.rfl rfl
  | @notFound _ j use hout =>
    cases use with
    | tick => exact hkeep rfl rfl Iff.rfl (by simp [dues])
    | call frame op =>
      by_cases hj : j = id
      · subst hj
        rw [hstay rfl]
        simp [deedAt, Acts, Timer.act, Mem.timer, hout]
      · exact hkeep (if_neg hj) rfl Iff.rfl rfl
  | started frame delay f parm j =>
    by_cases hj : j = id
    · subst hj
      have hin : j ∈ m.wdogList := hfacts.listed rfl
      rw [hstay rfl]
      simp [deedAt, Acts, Timer.act, Mem.timer, hin, start_ticks]
      exact ⟨rfl, rfl⟩
    · exact hkeep (if_neg hj) (Mem.setWdog_of_ne _ _ (Ne.symm hj)) Iff.rfl rfl
  | cancelled frame j =>
    by_cases hj : j = id
    · subst hj
      have hin : j ∈ m.wdogList := hfacts.listed rfl
      rw [hstay rfl]
      simp [deedAt, Acts, Timer.act, Mem.timer, hin]
    · exact hkeep (if_neg hj) (Mem.setWdog_of_ne _ _ (Ne.symm hj)) Iff.rfl rfl
  | unlinked frame j =>
    by_cases hj : j = id
    · subst hj
      have hin : j ∈ m.wdogList := hfacts.listed rfl
      have hgone : j ∉ m.wdogList.erase j := hfacts.nodup.not_mem_erase
      rw [hstay rfl]
      simp [deedAt, Acts, Timer.act, Mem.timer, hin, hgone]
    · exact hkeep (if_neg hj) rfl (List.mem_erase_of_ne (Ne.symm hj)) rfl
  | freed frame j => exact hkeep rfl rfl Iff.rfl rfl
  | ticked j =>
    by_cases hj : j = id
    · subst hj
      have hin : j ∈ m.wdogList := hfacts.listed rfl
      obtain ⟨hfunc, hparm⟩ := tick_args (m.wdog j)
      have hnew : Function.update due t (dues j (.tickUnlock j (nextWdog m.wdogList j) (m.wdog j).tick.2 : Pc ι φ)) =
          if (m.wdog j).tick.2 then Function.update due t true else due := by
        have hdues : dues j (.tickUnlock j (nextWdog m.wdogList j) (m.wdog j).tick.2 : Pc ι φ) = (m.wdog j).tick.2 := by
          simp [dues]
        by_cases htick : (m.wdog j).tick.2 = true
        · rw [if_pos htick, hdues, htick]
        · rw [if_neg htick]
          exact hstay (hdues.trans (Bool.eq_false_iff.mpr htick))
      rw [hnew]
      have hfires := tick_fires (m.wdog j)
      simp only [deedAt, if_true, Acts, Timer.act]
      refine (if_pos ⟨decide_eq_true hin, hdue, hfires⟩).trans (congrArg some ?_)
      simp [Mem.timer, tick_ticks, hfunc, hparm]
      rfl
    · exact hkeep (if_neg hj) (Mem.setWdog_of_ne _ _ (Ne.symm hj)) Iff.rfl (by simp [dues, hj])
  | @fired _ f j next hf =>
    by_cases hj : j = id
    · subst hj
      simp only [deedAt, if_true, hf, Option.map_some, Acts, Timer.act]
      exact if_pos ⟨hdue.trans (by simp [dues]), fun _ => ⟨hf, rfl⟩⟩
    · exact hkeep (if_neg hj) rfl Iff.rfl (by simp [dues, hj])

/-! ### The calls of a block -/

omit [DecidableEq φ] in
/-- A block makes, settles or leaves a call, or leaves it where it is. -/
theorem Runs.goes (hr : Runs p m m' p') : (progress p).Goes (progress p') := by
  cases hr with
  | called op j hrest => exact .called _ hrest.not_pending
  | created j hrest => exact hrest.leaves
  | passed hrest => rw [progress_passOn]; exact hrest.leaves
  | finished hrest => rw [progress_passOn]; exact hrest.leaves
  | found use hin => cases use <;> exact .stays _
  | notFound use hout =>
    cases use with
    | tick => exact .stays _
    | call frame op => exact .settles _ _
  | started => exact .settles _ _
  | cancelled => exact .settles _ _
  | unlinked => exact .settles _ _
  | _ => exact .stays _

omit [DecidableEq θ] [DecidableEq φ] in
/-- A block that settles a call is a deed that does. -/
theorem Runs.settles (hr : Runs p m m' p') {op : Op φ} {result : Status}
    (hp : progress p = .pending (op, id)) (hp' : progress p' = .settled (op, id) result) :
    ∃ e, deedAt id t p p' m' = some e ∧ e.settles = some (t, op, result) := by
  cases hr with
  | called => cases hp'
  | created => cases hp'
  | passed => rw [progress_passOn] at hp'; cases hp'
  | finished => rw [progress_passOn] at hp'; cases hp'
  | found use => cases use <;> cases hp'
  | notFound use =>
    cases use with
    | tick => cases hp'
    | call frame op =>
      cases hp
      cases hp'
      exact ⟨_, if_pos rfl, rfl⟩
  | started =>
    cases hp
    cases hp'
    exact ⟨_, if_pos rfl, rfl⟩
  | cancelled =>
    cases hp
    cases hp'
    exact ⟨_, if_pos rfl, rfl⟩
  | unlinked =>
    cases hp
    cases hp'
    exact ⟨_, if_pos rfl, rfl⟩
  | _ => cases hp

omit [DecidableEq θ] [DecidableEq φ] in
theorem of_deed {j : ι} {d e : Deed θ φ} (h : (if j = id then some d else none) = some e) : j = id ∧ d = e := by
  split at h
  · exact ⟨by assumption, Option.some.inj h⟩
  · cases h

omit [DecidableEq θ] [DecidableEq φ] in
/-- A deed settles the call that its thread is in. -/
theorem Runs.settled_of_deed (hr : Runs p m m' p') {e : Deed θ φ} {u : θ} {op : Op φ} {result : Status}
    (he : deedAt id t p p' m' = some e) (hset : e.settles = some (u, op, result)) :
    progress p = .pending (op, id) ∧ progress p' = .settled (op, id) result := by
  cases hr with
  | called _ _ hrest => rw [hrest.deedAt] at he; cases he
  | created _ hrest => rw [hrest.deedAt] at he; cases he
  | passed hrest => rw [hrest.deedAt] at he; cases he
  | finished hrest => rw [hrest.deedAt] at he; cases he
  | linked =>
    obtain ⟨rfl, rfl⟩ := of_deed he
    cases hset
  | found use => cases use <;> cases he
  | notFound use =>
    cases use with
    | tick => cases he
    | call frame op =>
      obtain ⟨rfl, rfl⟩ := of_deed he
      cases hset
      exact ⟨rfl, rfl⟩
  | freed => cases he
  | ticked =>
    obtain ⟨rfl, rfl⟩ := of_deed he
    cases hset
  | @fired _ f j next hf =>
    have he : (if j = id then (m.wdog id).timeoutFunc.map fun f => Deed.call t f (m.wdog id).timeoutParm else none) =
      some e := he
    split at he
    · obtain ⟨g, _, rfl⟩ := Option.map_eq_some_iff.mp he
      cases hset
    · cases he
  | _ =>
    obtain ⟨rfl, rfl⟩ := of_deed he
    cases hset
    exact ⟨rfl, rfl⟩

omit [DecidableEq θ] [DecidableEq φ] in
/-- A call begins where its thread comes in from outside. -/
theorem Runs.calls (hr : Runs p m m' p') {call : Op φ × ι} (hp : ∀ call, progress p ≠ .pending call)
    (hp' : progress p' = .pending call) : ∃ frame, p' = .validLock (.call frame call.1) call.2 := by
  cases hr with
  | called =>
    cases hp'
    exact ⟨_, rfl⟩
  | passed => rw [progress_passOn] at hp'; cases hp'
  | finished => rw [progress_passOn] at hp'; cases hp'
  | found use =>
    cases use with
    | tick => cases hp'
    | call frame op => exact absurd rfl (hp _)
  | notFound use => cases use <;> cases hp'
  | _ => cases hp'

/-! ### Steps -/

variable {s s' : WdogState θ ι φ} {tr later before : List (WdogTransition θ ι φ)} {x : WdogTransition θ ι φ}

omit [DecidableEq θ] [DecidableEq φ] in
theorem deedAt_sync (h : ∀ block, code t p ≠ .run block) : deedAt id t p p' m = none := by
  cases p <;> first | rfl | exact absurd rfl (h _)

omit [DecidableEq θ] [DecidableEq φ] in
theorem deed_sync (h : ∀ block, code t (s.ctl t).point ≠ .run block) : deed id ⟨s, t, s'⟩ = none :=
  stepEvent_sync (fun _ _ _ _ => deedAt_sync) h

omit [DecidableEq φ] in
theorem progress_step (hs : Step code t s s') : (progress (s.ctl t).point).Goes (progress (s'.ctl t).point) := by
  obtain ⟨_, _, heq | hnext⟩ | ⟨p, p', hp, hp', hr, _⟩ := step_cases hs
  · rw [heq]
    exact .stays _
  · rw [next_progress hnext]
    exact .stays _
  · rw [hp, hp', Ctl.point_awake, Ctl.point_awake]
    exact hr.goes

omit [DecidableEq φ] in
/-- The step that settles a call is a deed that does. -/
theorem settling_deed (hs : Step code t s s') {op : Op φ} {result : Status}
    (hp : progress (s.ctl t).point = .pending (op, id))
    (hp' : progress (s'.ctl t).point = .settled (op, id) result) :
    ∃ e, deed id ⟨s, t, s'⟩ = some e ∧ e.settles = some (t, op, result) := by
  obtain ⟨_, _, heq | hnext⟩ | ⟨p, p', hpc, hpc', hr, _⟩ := step_cases hs
  · rw [heq, hp] at hp'
    cases hp'
  · rw [next_progress hnext, hp] at hp'
    cases hp'
  · rw [hpc, Ctl.point_awake] at hp
    rw [hpc', Ctl.point_awake] at hp'
    obtain ⟨e, he, hset⟩ := hr.settles hp hp'
    exact ⟨e, (stepEvent_awake hpc hpc').trans he, hset⟩

omit [DecidableEq φ] in
/-- A deed that settles a call is the step in which its thread's call is settled. -/
theorem deed_settling (hs : Step code t s s') {e : Deed θ φ} {u : θ} {op : Op φ} {result : Status}
    (he : deed id ⟨s, t, s'⟩ = some e) (hset : e.settles = some (u, op, result)) :
    progress (s.ctl t).point = .pending (op, id) ∧ progress (s'.ctl t).point = .settled (op, id) result := by
  obtain ⟨_, hrun, _⟩ | ⟨p, p', hp, hp', hr, _⟩ := step_cases hs
  · rw [deed_sync hrun] at he
    cases he
  · simp only [deed, stepEvent, hp, hp'] at he
    rw [hp, hp', Ctl.point_awake, Ctl.point_awake]
    exact hr.settled_of_deed he hset

omit [DecidableEq φ] in
theorem call_step (hs : Step code t s s') {op : Op φ} (hp : ∀ call, progress (s.ctl t).point ≠ .pending call)
    (hp' : progress (s'.ctl t).point = .pending (op, id)) :
    ∃ frame, s'.ctl t = .awake (.validLock (.call frame op) id) := by
  obtain ⟨_, _, heq | hnext⟩ | ⟨p, p', hpc, hpc', hr, _⟩ := step_cases hs
  · rw [heq] at hp'
    exact absurd hp' (hp _)
  · rw [next_progress hnext] at hp'
    exact absurd hp' (hp _)
  · rw [hpc, Ctl.point_awake] at hp
    rw [hpc', Ctl.point_awake] at hp'
    obtain ⟨frame, hframe⟩ := hr.calls hp hp'
    exact ⟨frame, by rw [hpc', hframe]⟩

omit [DecidableEq φ] in
theorem timer_step (hs : Step code t s s') :
    timer id s' = s'.mem.timer id (Function.update (fun u => dues id (s.ctl u).point) t (dues id (s'.ctl t).point)) := by
  refine congrArg (s'.mem.timer id) (funext fun u => ?_)
  by_cases hu : u = t
  · subst hu
    rw [Function.update_self]
  · rw [Function.update_of_ne hu, hs.ctl_other hu]

/-- Every step is what it is at the timer. -/
theorem deed_step (h : Run code Initial tr s) (hs : Step code t s s') (hmade : s.mem.block id ≠ .fresh) :
    Acts Timer.act (deed id ⟨s, t, s'⟩) (timer id s) (timer id s') := by
  rw [timer_step hs]
  obtain ⟨hm, hrun, hgo⟩ | ⟨p, p', hp, hp', hr, _⟩ := step_cases hs
  · have hdues : dues id (s'.ctl t).point = dues id (s.ctl t).point := by
      obtain heq | hnext := hgo
      · rw [heq]
      · exact next_dues hnext
    have hstay : Function.update (fun u => dues id (s.ctl u).point) t (dues id (s.ctl t).point) =
        fun u => dues id (s.ctl u).point := Function.update_eq_self ..
    rw [deed_sync hrun, hdues, hm, hstay]
    rfl
  · have hpoint : (s.ctl t).point = p := by rw [hp, Ctl.point_awake]
    have hdeed : deed id ⟨s, t, s'⟩ = deedAt id t p p' s'.mem := stepEvent_awake hp hp'
    have hfacts : Facts id p s.mem :=
      { made := hmade
        listed := fun hf => (live h).finds t id (hpoint ▸ hf)
        unlinked := fun hpub => (registry_sound h).unlisted (t := t) ((congrArg publishing hpoint).trans hpub)
        nodup := (registry_sound h).nodup }
    rw [hdeed, hp', Ctl.point_awake]
    exact hr.acts hfacts (by rw [hpoint])

/-! ### Runs -/

omit [DecidableEq θ] [DecidableEq φ] in
theorem dues_cases (h : dues id p = true) : finds p = some id ∨ ∃ next, p = .tickCall id next := by
  cases p with
  | tickUnlock j next fires =>
    simp only [dues, Bool.and_eq_true, decide_eq_true_eq] at h
    exact .inl (congrArg some h.1)
  | tickCall j next =>
    simp only [dues, decide_eq_true_eq] at h
    exact .inr ⟨next, by rw [h]⟩
  | _ => cases h

omit [DecidableEq φ] in
/-- Nothing is due of a watchdog that is not made yet. -/
theorem not_dues_of_fresh (h : Run code Initial tr s) (hfresh : s.mem.block id = .fresh) (t : θ) :
    dues id (s.ctl t).point = false := by
  rw [Bool.eq_false_iff]
  intro hd
  obtain hf | ⟨next, hp⟩ := dues_cases hd
  · have hlive := (live h).listed id ((live h).finds t id hf)
    rw [hfresh] at hlive
    cases hlive
  · exact made_of_tickCall h hp hfresh

omit [DecidableEq θ] [DecidableEq φ] in
/-- The block that makes a watchdog. -/
theorem Runs.made (hr : Runs p m m' p') (hout : removes p ≠ some id) (hfresh : m.block id = .fresh)
    (hmade : m'.block id ≠ .fresh) :
    (∃ frame, Resting frame p ∧ p' = .linkLock frame id) ∧
      (m'.wdog id).ticksRemaining = 0 ∧ m'.wdogList = m.wdogList := by
  cases hr with
  | created j hrest hfree =>
    obtain rfl : id = j := by
      by_contra hne
      exact hmade ((Function.update_of_ne hne _ _).trans hfresh)
    refine ⟨⟨_, hrest, rfl⟩, ?_, rfl⟩
    show ((m.setWdog id _).wdog id).ticksRemaining = 0
    rw [Mem.setWdog_self]
  | freed frame j =>
    have hne : id ≠ j := fun he => hout (congrArg some he.symm)
    exact absurd ((Function.update_of_ne hne _ _).trans hfresh) hmade
  | _ => exact absurd hfresh hmade

omit [DecidableEq φ] in
/-- A watchdog that is made is a timer not opened yet. -/
theorem Creates.timer (h : Run code Initial (x :: before) x.post) (hx : Creates id x) :
    timer id x.post = .made (x.post.mem.wdog id) := by
  have hr := (show Run code Initial ([] ++ x :: before) x.post from h).before
  have hs := h.steps x (List.mem_cons_self ..)
  obtain ⟨hfresh, hmade⟩ := hx
  obtain ⟨hm, _⟩ | ⟨p, p', hp, hp', hruns, _⟩ := step_cases hs
  · rw [hm] at hmade
    exact absurd hfresh hmade
  · have hremoves : removes p ≠ some id := fun hin => by
      have hlive := ((live hr).removes x.thread id (by rwa [hp])).1
      rw [hfresh] at hlive
      cases hlive
    obtain ⟨⟨frame, _, rfl⟩, hticks, hlist⟩ := hruns.made hremoves hfresh hmade
    have hdues : Function.update (fun u => dues id (x.pre.ctl u).point) x.thread (dues id (x.post.ctl x.thread).point) =
        fun _ => false := by
      refine Function.update_eq_iff.mpr ⟨?_, fun u _ => not_dues_of_fresh hr hfresh u⟩
      rw [hp']
      rfl
    have hout : id ∉ x.post.mem.wdogList := by
      rw [hlist]
      intro hin
      have hlive := (live hr).listed id hin
      rw [hfresh] at hlive
      cases hlive
    rw [timer_step hs, hdues, Mem.timer, hticks, decide_eq_false hout]
    rfl

/-- The deeds since its creation lead the timer of a watchdog to what its control block
shows. -/
theorem served (h : Run code Initial (later ++ x :: before) s) (hx : Creates id x) :
    replay Timer.act (.made (x.post.mem.wdog id)) (later.filterMap (deed id)) = some (timer id s) := by
  have hx' : Run code Initial (x :: before) x.post := .step h.before (h.steps x (by simp))
  rw [← hx.timer hx']
  refine h.replays (timer id) (deed id) fun y r hrun _ hs => deed_step hrun hs ?_
  have hmade : ∀ {l s}, Run code Initial (l ++ x :: before) s → s.mem.block id ≠ .fresh := fun {l s} hrun => by
    refine (hrun.since (fun _ s => s.mem.block id ≠ .fresh) hx.2 ?_)
    exact fun y _ _ hs hold => block_step hs hold
  exact hmade hrun

/-- The last call of thread `t`, of `op` on watchdog `id`, has been settled with `result` by
one deed since it was made, and by one only. -/
def SettledOnce (t : θ) (op : Op φ) (id : ι) (result : Status) (tr : List (WdogTransition θ ι φ)) : Prop :=
  ∃ after y between x before e, tr = after ++ y :: (between ++ x :: before) ∧
    x.thread = t ∧ (∃ frame, x.post.ctl t = .awake (.validLock (.call frame op) id)) ∧
    y.thread = t ∧ deed id y = some e ∧ e.settles = some (t, op, result) ∧
    ∀ z ∈ after ++ between, z.thread = t → ∀ e, deed id z = some e → e.settles = none

omit [DecidableEq θ] [DecidableEq φ] [DecidableEq ι] in
theorem initial_progress (s : WdogState θ ι φ) (t : θ) (h : Initial s) : progress (s.ctl t).point = .outside := by
  rw [h.idle t]
  rfl

omit [DecidableEq φ] in
theorem settled_once (h : Run code Initial tr s) {op : Op φ} {result : Status}
    (ht : progress (s.ctl t).point = .settled (op, id) result) : SettledOnce t op id result tr := by
  obtain ⟨after, y, between, x, before, e, rfl, rfl, hout, hcall, hy⟩ :=
    h.settled_once (fun s t hi => initial_progress s t hi) (fun _ _ _ => progress_step)
      (fun _ _ _ hs hpre hpost => settling_deed hs hpre hpost) (fun _ _ _ _ _ hs he => deed_settling hs he) ht
  exact ⟨after, y, between, x, before, e, rfl, rfl, call_step (h.steps x (by simp)) hout hcall, hy⟩

end

/-- Task 0 starts a watchdog, and starts it again with another argument while task 1 is in
the pass that has found it due: the call that is made has the new argument. -/
def restartInPass : List (Fin 2 × Input (Choice ℕ ℕ)) :=
  makes 0 7 :: goesOn 0 3 ++ calls 0 (.start 2 (some 5) 0) 7 :: goesOn 0 6 ++
    (1, {choice := .pass}) :: goesOn 1 6 ++ calls 0 (.start 2 (some 5) 1) 7 :: goesOn 0 6 ++ goesOn 1 1

end V2lin.Watchdog
