import V2lin.Sem.Wakeups

/-! Which tasks a flush releases.

`semFlush` sets a mode in the control block, wakes everybody and waits until the list is
empty; the task that empties it sets the mode back. A task looks at the mode where it
begins to wait but not where it polls, and the flusher looks at the list only. So tasks
that come while the mode is set are released like the others, a task that polls may sleep
through the flush, and the flusher may be back before the mode is. Apart from these three,
a flush releases the tasks that it found on the list. -/
namespace V2lin.Sem
open Threads V2lin.Task

section
variable {θ ι : Type} [DecidableEq ι]

/-! ### The steps of a flush -/

/-- A point of a task that has emptied the list and has not set the mode back. -/
def lastOut (id : ι) : Pc ι → Bool
  | .takeLastLock _ j _ | .takeLastNotify _ j _ | .takeLastReset _ j _ => j = id
  | _ => false

/-- A point on the way out of `semTake` with `error`, or back from it. -/
def leaving (id : ι) (error : Status) : Pc ι → Bool
  | .takeLastLock _ j e | .takeLastNotify _ j e | .takeLastReset _ j e | .takeLastUnlock _ j e =>
    j = id ∧ e = error
  | .takeEnd _ j e | .takeUnlock _ j e | .returned (.take _) j e => j = id ∧ e = error
  | _ => false

/-- The step in which a flush or a deletion sets the mode. -/
def Marks (id : ι) (x : SemTransition θ ι) : Prop :=
  x.pre.ctl x.thread = .awake (.flushMark id) ∨ x.pre.ctl x.thread = .awake (.deleteMark id)

instance (id : ι) (x : SemTransition θ ι) : Decidable (Marks id x) := inferInstanceAs (Decidable (_ ∨ _))

/-- The step in which a task that takes a semaphore comes to its list. -/
def Joins (id : ι) (x : SemTransition θ ι) : Prop :=
  ∃ maxWait, x.pre.ctl x.thread = .awake (.takeStart maxWait id)

/-- The step in which a task leaves the wait loops because of a flush. -/
def FlushedOut (id : ι) (x : SemTransition θ ι) : Prop :=
  (∃ maxWait retcode, x.pre.ctl x.thread = .awake (.takeTest maxWait id retcode)) ∧
    (x.pre.mem.sem id).sendType = .flush

/-- The step in which a task leaves the wait loops with a token. -/
def TakesToken (id : ι) (x : SemTransition θ ι) : Prop :=
  (∃ maxWait retcode p, x.pre.ctl x.thread = .awake p ∧ WaitPoint maxWait id retcode p) ∧
    (x.post.mem.sem id).tokenCount = (x.pre.mem.sem id).tokenCount - 1

/-- The step in which a task leaves the wait loops because its time is over. -/
def TimesOut (id : ι) (x : SemTransition θ ι) : Prop :=
  (∃ maxWait p, x.pre.ctl x.thread = .awake p ∧ WaitPoint maxWait id .etimedout p) ∧
    pendsOn (x.post.ctl x.thread).point = none

/-! ### What is to be avoided -/

/-- A task comes to the list while a flush is on. -/
def JoinsFlush (id : ι) (x : SemTransition θ ι) : Prop :=
  Joins id x ∧ (x.pre.mem.sem id).sendType = .flush

/-- A task that polls goes to sleep while a flush is on. -/
def DozesInFlush (id : ι) (x : SemTransition θ ι) : Prop :=
  (∃ maxWait retcode, x.pre.ctl x.thread = .awake (.takeAgain maxWait id retcode) ∧
    x.post.ctl x.thread = .awake (.takeWait maxWait id)) ∧ (x.pre.mem.sem id).sendType = .flush

/-- The flusher finds the list empty before the task that has emptied it sets the mode
back. -/
def DrainsEarly (id : ι) (x : SemTransition θ ι) : Prop :=
  x.pre.ctl x.thread = .awake (.flushDrain id) ∧ (x.pre.mem.sem id).firstSusp = [] ∧
    ∃ u, lastOut id (x.pre.ctl u).point = true

def Orderly (id : ι) (x : SemTransition θ ι) : Prop :=
  ¬ JoinsFlush id x ∧ ¬ DozesInFlush id x ∧ ¬ DrainsEarly id x

end

section
variable {θ ι : Type} [DecidableEq θ] [DecidableEq ι]

/-- What the flush `x` owes: it releases tasks of its list only, that have not come back
since, with `OK` and without a token; it reaches every sleeper; when it returns, the mode
is set back and its tasks have left, each because of it, with a token or out of time. -/
structure Flushes (prio : θ → ℤ) (id : ι) (x : SemTransition θ ι) (later : List (SemTransition θ ι))
    (s : SemState θ ι) : Prop where
  released : ∀ after y between, later = after ++ y :: between → FlushedOut id y →
    y.thread ∈ (x.pre.mem.sem id).firstSusp ∧ (∀ z ∈ between, z.thread = y.thread → ¬ Joins id z) ∧
      (y.post.mem.sem id).tokenCount = (y.pre.mem.sem id).tokenCount ∧
      ((∀ z ∈ after, ¬ Calls y.thread z) → leaving id .ok (s.ctl y.thread).point = true)
  reached : (s.mem.sem id).sendType = .flush → s.ctl x.thread ≠ .awake (.flushNotify id) →
    ∀ t, ¬ Unreached (code some prio) (.semSend id) s t
  returned : ∀ after y between, later = after ++ y :: between → y.thread = x.thread →
    y.pre.ctl y.thread = .awake (.flushTaskUnlock id true) →
    (y.post.mem.sem id).sendType = .send ∧ ∀ t ∈ (x.pre.mem.sem id).firstSusp,
      ∃ z ∈ between, z.thread = t ∧ (FlushedOut id z ∨ TakesToken id z ∨ TimesOut id z)

variable {prio : θ → ℤ} {t : θ} {p p' : Pc ι} {id : ι} {m m' : Mem θ ι}
variable {s s' : SemState θ ι} {x y : SemTransition θ ι} {before later tr : List (SemTransition θ ι)}

/-! ### Blocks -/

theorem Runs.joins (h : Runs some prio t p m m' p') (hout : pendsOn p = none) (hin : pendsOn p' = some id) :
    ∃ maxWait, p = .takeStart maxWait id := by
  cases h with
  | pended =>
    cases hin
    exact ⟨_, rfl⟩
  | left => split at hin <;> cases hin
  | gave => split at hin <;> cases hin
  | sleeps hpoint =>
    rw [hpoint.pended] at hout
    cases hout
  | polls hpoint =>
    rw [hpoint.pended] at hout
    cases hout
  | _ => cases hin

/-- A task that leaves the wait loops leaves them in one of three ways. -/
theorem Runs.leaves (h : Runs some prio t p m m' p') (hin : pendsOn p = some id) (hout : pendsOn p' = none) :
    ∃ maxWait v retcode v' error last, WaitEnd prio (some t) m maxWait id p v retcode ∧
      Left v (some t) maxWait retcode v' error last ∧ m' = m.setSem id v' ∧
      p' = if last then .takeLastLock maxWait id error else .takeEnd maxWait id error := by
  cases h with
  | called _ _ hp =>
    rw [pended_resting hp] at hin
    cases hin
  | refused hp =>
    rw [pended_resting hp] at hin
    cases hin
  | created _ _ hp =>
    rw [pended_resting hp] at hin
    cases hin
  | left hw hl =>
    obtain ⟨_, hpoint⟩ := hw.point
    rw [hpoint.pended] at hin
    cases hin
    exact ⟨_, _, _, _, _, _, hw, hl, rfl, rfl⟩
  | sleeps => cases hout
  | polls => cases hout
  | _ => cases hin

/-- A flush lets a task out with `OK` and leaves the tokens alone. -/
theorem Runs.flushed_out {maxWait : ℤ} {retcode : Retcode}
    (h : Runs some prio t (.takeTest maxWait id retcode) m m' p') (hmode : (m.sem id).sendType = .flush) :
    (m'.sem id).tokenCount = (m.sem id).tokenCount ∧ leaving id .ok p' = true := by
  have hno : (m.sem id).sendType ≠ .send := by
    rw [hmode]
    exact nofun
  cases h with
  | called _ _ hp => cases hp
  | refused hp => cases hp
  | created _ _ hp => cases hp
  | left hw hl =>
    cases hw with
    | released =>
      have hok := hl.spared (by rw [hmode]; exact nofun)
      rw [Mem.setSem_self, hl.tokenCount, hok]
      refine ⟨rfl, ?_⟩
      split <;> simp [leaving, waitError]
    | taken hpoint hs =>
      cases hpoint
      exact absurd (hs rfl) hno
    | timedOut hpoint hs =>
      cases hpoint
      exact absurd (hs rfl) hno
  | sleeps hpoint hs =>
    cases hpoint
    exact absurd (hs rfl) hno
  | polls hpoint hs =>
    cases hpoint
    exact absurd (hs rfl) hno

/-- While a flush is on, only a task that polls goes to sleep. -/
theorem Runs.dozes (h : Runs some prio t p m m' p') {maxWait : ℤ} (hp' : p' = .takeWait maxWait id)
    (hmode : (m.sem id).sendType = .flush) : ∃ retcode, p = .takeAgain maxWait id retcode := by
  cases h with
  | left => split at hp' <;> cases hp'
  | gave => split at hp' <;> cases hp'
  | sleeps hpoint hs =>
    cases hp'
    cases hpoint with
    | test =>
      have hsend := hs rfl
      rw [hmode] at hsend
      cases hsend
    | again => exact ⟨_, rfl⟩
  | _ => cases hp'

/-- A task that empties the list while a flush is on goes to set the mode back. -/
theorem Runs.emptied (h : Runs some prio t p m m' p') (hb : m.block id ≠ .fresh)
    (hmode : (m.sem id).sendType = .flush)
    (hsome : (m.sem id).firstSusp ≠ []) (hnone : (m'.sem id).firstSusp = []) : lastOut id p' = true := by
  obtain ⟨heq, _⟩ | ⟨_, _, heq⟩ | ⟨hin, hout, _⟩ | ⟨hfresh, _⟩ := h.susp_cases id
  · exact absurd (heq ▸ hnone) hsome
  · rw [heq] at hnone
    simp [linkSuspTask] at hnone
  · obtain ⟨maxWait, v, retcode, v', error, last, hw, hl, rfl, rfl⟩ := h.leaves hin hout
    rw [Mem.setSem_self] at hnone
    have hflush : v.sendType ≠ .send := by
      rw [hw.sendType, hmode]
      rintro ⟨⟩
    rw [if_pos (hl.last.mpr ⟨hflush, hnone⟩)]
    exact decide_eq_true rfl
  · exact absurd hfresh hb

theorem Runs.lastOut (h : Runs some prio t p m m' p') (hp : Sem.lastOut id p = true) :
    (m'.sem id).sendType = .send := by
  cases h with
  | called _ _ hrest => cases p <;> first | cases hp | cases hrest
  | refused hrest => cases p <;> first | cases hp | cases hrest
  | created _ _ hrest => cases p <;> first | cases hp | cases hrest
  | left hw =>
    obtain ⟨_, hpoint⟩ := hw.point
    cases hpoint <;> cases hp
  | sleeps hpoint => cases hpoint <;> cases hp
  | polls hpoint => cases hpoint <;> cases hp
  | reset =>
    obtain rfl := of_decide_eq_true hp
    rw [Mem.setSem_self]
  | _ => cases hp

theorem next_lastOut (h : (code some prio t p).Next p') (hp : lastOut id p = true) : lastOut id p' = true := by
  cases p
  case takeLastLock | takeLastNotify =>
    cases h
    exact hp
  all_goals first
    | cases hp
    | exact False.elim h

theorem next_leaving {error : Status} (h : (code some prio t p).Next p') (hp : leaving id error p = true) :
    leaving id error p' = true := by
  cases p
  case takeLastLock | takeLastNotify | takeLastUnlock | takeUnlock =>
    cases h
    exact hp
  all_goals first
    | cases hp
    | exact False.elim h

theorem Runs.leaving {error : Status} (h : Runs some prio t p m m' p') (hp : Sem.leaving id error p = true)
    (hrest : p.resting = false) : Sem.leaving id error p' = true := by
  have hno : ∀ {maxWait : ℤ} {j : ι} {retcode : Retcode}, ¬ WaitPoint maxWait j retcode p := by
    rintro maxWait j retcode (_ | _) <;> cases hp
  cases h with
  | called _ _ hr => rw [hr] at hrest; cases hrest
  | refused hr => rw [hr] at hrest; cases hrest
  | created _ _ hr => rw [hr] at hrest; cases hrest
  | left hw =>
    obtain ⟨_, hpoint⟩ := hw.point
    exact absurd hpoint hno
  | sleeps hpoint => exact absurd hpoint hno
  | polls hpoint => exact absurd hpoint hno
  | reset => exact hp
  | ended => exact hp
  | _ => cases hp

/-! ### The flusher -/

/-- A point at which the flusher has found the list to be empty again. -/
def drained (id : ι) : Pc ι → Bool
  | .flushSmdelUnlock j | .flushTaskUnlock j true => j = id
  | _ => false

/-- A point at which the flusher has found somebody on the list. -/
def foundSome (id : ι) : Pc ι → Bool
  | .flushSmdelLock j | .flushMark j => j = id
  | _ => false

theorem next_drained (h : (code some prio t p).Next p') (hp' : drained id p' = true) : drained id p = true := by
  cases p
  case findUnlock op j found =>
    cases h
    cases found
    · cases hp'
    · cases op <;> cases hp'
  all_goals first
    | exact False.elim h
    | (cases h; exact hp')
    | (cases h; cases hp')
    | (obtain ⟨r, rfl⟩ := h; cases hp')

theorem Runs.drained (h : Runs some prio t p m m' p') (hp' : Sem.drained id p' = true) :
    p = .flushDrain id ∧ (m.sem id).firstSusp = [] ∧ m' = m := by
  cases h with
  | left => split at hp' <;> cases hp'
  | gave => split at hp' <;> cases hp'
  | flushDrained hnobody =>
    obtain rfl := of_decide_eq_true hp'
    exact ⟨rfl, hnobody, rfl⟩
  | _ => cases hp'

/-- A flush sets the mode only if somebody is on the list. -/
theorem foundSome_pended (h : Run (code some prio) Initial tr s) (hp : foundSome id (s.ctl t).point = true) :
    (s.mem.sem id).firstSusp ≠ [] := by
  refine seen h (foundSome id) (fun v => v.firstSusp ≠ []) ?_ rfl (fun _ => rfl) ?_ ?_ hp
  · intro p hp
    cases p
    case flushSmdelLock j =>
      obtain rfl := of_decide_eq_true hp
      exact List.mem_singleton_self _
    case flushMark j =>
      obtain rfl := of_decide_eq_true hp
      exact List.mem_cons_self ..
    all_goals cases hp
  · intro t p p' hnext hp'
    cases p
    case findUnlock op j found =>
      cases hnext
      cases found
      · cases hp'
      · cases op <;> cases hp'
    all_goals first
      | exact False.elim hnext
      | (cases hnext; exact hp')
      | (cases hnext; cases hp')
      | (obtain ⟨r, rfl⟩ := hnext; cases hp')
  · intro t p p' m m' hr hp'
    cases hr with
    | left => split at hp' <;> cases hp'
    | gave => split at hp' <;> cases hp'
    | flushSome hsome =>
      obtain rfl := of_decide_eq_true hp'
      exact hsome
    | _ => cases hp'

/-! ### Steps -/

/-- Between its setting and its resetting, nobody touches the mode. -/
theorem mode_step (hs : Step (code some prio) t s s') (hb : s.mem.block id ≠ .fresh)
    (hno : ¬ Marks id ⟨s, t, s'⟩) :
    (s'.mem.sem id).sendType = (s.mem.sem id).sendType ∨ (s'.mem.sem id).sendType = .send := by
  obtain ⟨hm, _⟩ | ⟨p, p', hp, _, hr, _⟩ := step_cases hs
  · exact .inl (by rw [hm])
  · obtain heq | ⟨_, _, _, hsend⟩ | ⟨rfl, _⟩ | ⟨rfl, _⟩ := hr.sendType_cases hb
    · exact .inl heq
    · exact .inr hsend
    · exact absurd (.inl hp) hno
    · exact absurd (.inr hp) hno

theorem joins_step (hs : Step (code some prio) t s s') (hout : waits id s t = false) (hin : waits id s' t = true) :
    Joins id ⟨s, t, s'⟩ := by
  have hin : pendsOn (s'.ctl t).point = some id := of_decide_eq_true hin
  have hout : pendsOn (s.ctl t).point ≠ some id := of_decide_eq_false hout
  obtain ⟨_, _, heq | hnext⟩ | ⟨p, p', hp, hp', hr, _⟩ := step_cases hs
  · exact absurd (heq ▸ hin) hout
  · exact absurd (next_pended hnext ▸ hin) hout
  · rw [hp, Ctl.point_awake] at hout
    rw [hp', Ctl.point_awake] at hin
    obtain ⟨_, hiff⟩ | ⟨hnone, _⟩ | ⟨hpend, _⟩ | ⟨_, _, hnone, _⟩ := hr.susp_cases id
    · exact absurd (hiff.mp hin) hout
    · obtain ⟨maxWait, rfl⟩ := hr.joins hnone hin
      exact ⟨maxWait, hp⟩
    · exact absurd hpend hout
    · rw [hnone] at hin
      cases hin

theorem leaves_step (hs : Step (code some prio) t s s') (hin : waits id s t = true) (hout : waits id s' t = false)
    (hmode : (s.mem.sem id).sendType ≠ .killd) :
    FlushedOut id ⟨s, t, s'⟩ ∨ TakesToken id ⟨s, t, s'⟩ ∨ TimesOut id ⟨s, t, s'⟩ := by
  have hin : pendsOn (s.ctl t).point = some id := of_decide_eq_true hin
  have hout : pendsOn (s'.ctl t).point ≠ some id := of_decide_eq_false hout
  obtain ⟨_, _, heq | hnext⟩ | ⟨p, p', hp, hp', hr, _⟩ := step_cases hs
  · exact absurd (heq ▸ hin) hout
  · exact absurd ((next_pended hnext).trans hin) hout
  · rw [hp, Ctl.point_awake] at hin
    rw [hp', Ctl.point_awake] at hout
    have hnone : pendsOn p' = none := by
      obtain ⟨_, hiff⟩ | ⟨_, hpend, _⟩ | ⟨_, hnone, _⟩ | ⟨_, _, hnone, _⟩ := hr.susp_cases id
      · exact absurd (hiff.mpr hin) hout
      · exact absurd hpend hout
      · exact hnone
      · exact hnone
    obtain ⟨maxWait, v, retcode, v', error, last, hw, hl, hm, _⟩ := hr.leaves hin hnone
    cases hw with
    | @released rc hmark =>
      refine .inl ⟨⟨maxWait, rc, hp⟩, ?_⟩
      cases hsend : (s.mem.sem id).sendType with
      | send => exact absurd hsend hmark
      | flush => rfl
      | killd => exact absurd hsend hmode
    | @taken p rc hpoint =>
      refine .inr (.inl ⟨⟨maxWait, rc, p, hp, hpoint⟩, ?_⟩)
      show (s'.mem.sem id).tokenCount = _
      rw [hm, Mem.setSem_self, hl.tokenCount]
    | @timedOut p hpoint =>
      refine .inr (.inr ⟨⟨maxWait, p, hp, hpoint⟩, ?_⟩)
      show pendsOn (s'.ctl t).point = none
      rw [hp', Ctl.point_awake, hnone]

/-! ### The flush -/

/-- The task has left the list of `id` in one of the three ways. -/
def HasLeft (id : ι) (tr : List (SemTransition θ ι)) (t : θ) : Prop :=
  ∃ z ∈ tr, z.thread = t ∧ (FlushedOut id z ∨ TakesToken id z ∨ TimesOut id z)

omit [DecidableEq θ] [DecidableEq ι] in
theorem HasLeft.cons (h : HasLeft id tr t) (y : SemTransition θ ι) : HasLeft id (y :: tr) t := by
  obtain ⟨z, hz, hleft⟩ := h
  exact ⟨z, List.mem_cons_of_mem _ hz, hleft⟩

/-- From the setting of the mode by `flusher` on, with `pended` on the list: the mode is
on until the list is empty and the last task has set it back, and while it is on, the list
holds some of those tasks only, and none of them sleeps on. -/
structure Flushing (prio : θ → ℤ) (id : ι) (pended : List θ) (flusher : θ) (later : List (SemTransition θ ι))
    (s : SemState θ ι) : Prop where
  made : s.mem.block id ≠ .fresh
  mode : (s.mem.sem id).sendType ≠ .killd
  emptied : (s.mem.sem id).sendType = .flush →
    (s.mem.sem id).firstSusp ≠ [] ∨ ∃ u, lastOut id (s.ctl u).point = true
  gone : ∀ t ∈ pended, t ∈ (s.mem.sem id).firstSusp ∨ HasLeft id later t
  alone : (s.mem.sem id).sendType = .flush → ∀ t ∈ (s.mem.sem id).firstSusp,
    t ∈ pended ∧ ∀ z ∈ later, z.thread = t → ¬ Joins id z
  awake : (s.mem.sem id).sendType = .flush → ∀ t maxWait, s.ctl t ≠ .awake (.takeWait maxWait id)
  reached : (s.mem.sem id).sendType = .flush → s.ctl flusher ≠ .awake (.flushNotify id) →
    ∀ t, ¬ Unreached (code some prio) (.semSend id) s t
  drained : drained id (s.ctl flusher).point = true →
    (s.mem.sem id).sendType = .send ∧ ∀ t ∈ pended, HasLeft id later t

variable {pended : List θ} {flusher : θ}

theorem Flushing.still (h : Flushing prio id pended flusher later s) (hs : Step (code some prio) t s s')
    (hno : ¬ Marks id ⟨s, t, s'⟩) (hmode : (s'.mem.sem id).sendType = .flush) :
    (s.mem.sem id).sendType = .flush := by
  obtain heq | hsend := mode_step hs h.made hno
  · rw [← heq, hmode]
  · rw [hmode] at hsend
    cases hsend

theorem Flushing.emptied_step (h : Flushing prio id pended flusher later s) (hs : Step (code some prio) t s s')
    (hno : ¬ Marks id ⟨s, t, s'⟩) (hmode : (s'.mem.sem id).sendType = .flush) :
    (s'.mem.sem id).firstSusp ≠ [] ∨ ∃ u, lastOut id (s'.ctl u).point = true := by
  have hbefore := h.still hs hno hmode
  obtain hsome | ⟨u, hu⟩ := h.emptied hbefore
  · by_cases hnone : (s'.mem.sem id).firstSusp = []
    · obtain ⟨hm, _⟩ | ⟨p, p', _, hp', hr, _⟩ := step_cases hs
      · rw [hm] at hnone
        exact absurd hnone hsome
      · refine .inr ⟨t, ?_⟩
        rw [hp', Ctl.point_awake]
        exact hr.emptied h.made hbefore hsome hnone
    · exact .inl hnone
  · refine .inr ⟨u, ?_⟩
    by_cases hut : u = t
    · subst hut
      obtain ⟨_, _, heq | hnext⟩ | ⟨p, p', hp, _, hr, _⟩ := step_cases hs
      · rw [heq]
        exact hu
      · exact next_lastOut hnext hu
      · rw [hp, Ctl.point_awake] at hu
        rw [hr.lastOut hu] at hmode
        cases hmode
    · rw [hs.ctl_other hut]
      exact hu

theorem Flushing.gone_step (h : Flushing prio id pended flusher later s) (hl : Linked s)
    (hs : Step (code some prio) t s s') {u : θ} (hu : u ∈ pended) :
    u ∈ (s'.mem.sem id).firstSusp ∨ HasLeft id (⟨s, t, s'⟩ :: later) u := by
  obtain hin | hleft := h.gone u hu
  · cases list_step hl hs id with
    | same heq => exact .inl (heq ▸ hin)
    | joined hout _ heq =>
      have hnot : t ∉ (s.mem.sem id).firstSusp := by simp [(hl.lists id).mem, hout]
      exact .inl (heq ▸ (mem_linkSuspTask hnot).mpr (.inr hin))
    | left hwait hout heq =>
      by_cases hut : u = t
      · exact .inr ⟨_, List.mem_cons_self .., hut.symm, leaves_step hs hwait hout h.mode⟩
      · exact .inl (heq ▸ (mem_unlinkSuspTask (hl.lists id).nodup).mpr ⟨hut, hin⟩)
  · exact .inr (hleft.cons _)

theorem Flushing.alone_step (h : Flushing prio id pended flusher later s) (hl : Linked s)
    (hs : Step (code some prio) t s s') (hno : ¬ Marks id ⟨s, t, s'⟩) (hjoins : ¬ JoinsFlush id ⟨s, t, s'⟩)
    (hmode : (s'.mem.sem id).sendType = .flush) {u : θ} (hu : u ∈ (s'.mem.sem id).firstSusp) :
    u ∈ pended ∧ ∀ z ∈ (⟨s, t, s'⟩ :: later : List _), z.thread = u → ¬ Joins id z := by
  have hbefore := h.still hs hno hmode
  have hnot : ¬ Joins id ⟨s, t, s'⟩ := fun hj => hjoins ⟨hj, hbefore⟩
  have hin : u ∈ (s.mem.sem id).firstSusp := by
    cases list_step hl hs id with
    | same heq => exact heq ▸ hu
    | joined hout hin => exact absurd (joins_step hs hout hin) hnot
    | left _ _ heq => exact ((mem_unlinkSuspTask (hl.lists id).nodup).mp (heq ▸ hu)).2
  obtain ⟨hpended, hstays⟩ := h.alone hbefore u hin
  refine ⟨hpended, fun z hz hthread => ?_⟩
  obtain rfl | hz := List.mem_cons.mp hz
  · exact hnot
  · exact hstays z hz hthread

theorem Flushing.awake_step (h : Flushing prio id pended flusher later s) (hs : Step (code some prio) t s s')
    (hno : ¬ Marks id ⟨s, t, s'⟩) (hdozes : ¬ DozesInFlush id ⟨s, t, s'⟩)
    (hmode : (s'.mem.sem id).sendType = .flush) (u : θ) (maxWait : ℤ) :
    s'.ctl u ≠ .awake (.takeWait maxWait id) := by
  intro hp
  have hbefore := h.still hs hno hmode
  by_cases hut : u = t
  · subst hut
    obtain ⟨_, hnext⟩ | ⟨q, block, c, hq, hi, hb, _⟩ := hs.awake_cases hp
    · exact absurd rfl (next_not_takeWait hnext)
    · obtain ⟨retcode, rfl⟩ := (block_runs hi hb).dozes rfl hbefore
      exact hdozes ⟨⟨maxWait, retcode, hq, hp⟩, hbefore⟩
  · rw [hs.ctl_other hut] at hp
    exact h.awake hbefore u maxWait hp

theorem Flushing.reached_step (h : Flushing prio id pended flusher later s) (hr : Run (code some prio) Initial tr s)
    (hs : Step (code some prio) t s s') (hno : ¬ Marks id ⟨s, t, s'⟩)
    (hmode : (s'.mem.sem id).sendType = .flush) (hpast : s'.ctl flusher ≠ .awake (.flushNotify id)) (u : θ) :
    ¬ Unreached (code some prio) (.semSend id) s' u := by
  intro hu
  have hbefore := h.still hs hno hmode
  obtain ⟨_, hslept, hsame⟩ | ⟨rfl, _, p, _, _, _, hp, hi⟩ := hu.of_step hr initial_awake hs
  · refine h.reached hbefore (fun hnotify => ?_) u hslept
    by_cases hf : flusher = t
    · subst hf
      exact absurd hsame (hs.signals_ne hnotify rfl)
    · rw [hs.ctl_other hf] at hpast
      exact hpast hnotify
  · cases p <;> simp only [code, reduceCtorEq, Instr.wait.injEq, Cond.semSend.injEq, false_and] at hi
    case takeWait maxWait j =>
      obtain ⟨rfl, _⟩ := hi
      exact h.awake hbefore u maxWait hp

theorem Flushing.drained_step (h : Flushing prio id pended flusher later s) (hs : Step (code some prio) t s s')
    (hno : ¬ Marks id ⟨s, t, s'⟩) (hearly : ¬ DrainsEarly id ⟨s, t, s'⟩)
    (hd : Sem.drained id (s'.ctl flusher).point = true) :
    (s'.mem.sem id).sendType = .send ∧ ∀ u ∈ pended, HasLeft id (⟨s, t, s'⟩ :: later) u := by
  have hkeep : Sem.drained id (s.ctl flusher).point = true →
      (s'.mem.sem id).sendType = .send ∧ ∀ u ∈ pended, HasLeft id (⟨s, t, s'⟩ :: later) u := by
    intro hd
    obtain ⟨hsend, hleft⟩ := h.drained hd
    refine ⟨?_, fun u hu => (hleft u hu).cons _⟩
    obtain heq | hsend' := mode_step hs h.made hno
    · rw [heq, hsend]
    · exact hsend'
  by_cases hf : flusher = t
  · subst hf
    obtain ⟨_, _, heq | hnext⟩ | ⟨p, p', hp, hp', hr, _⟩ := step_cases hs
    · exact hkeep (heq ▸ hd)
    · exact hkeep (next_drained hnext hd)
    · rw [hp', Ctl.point_awake] at hd
      obtain ⟨rfl, hnone, hm⟩ := hr.drained hd
      refine ⟨?_, fun u hu => ?_⟩
      · rw [hm]
        cases hmode : (s.mem.sem id).sendType with
        | send => rfl
        | killd => exact absurd hmode h.mode
        | flush =>
          -- somebody has yet to set the mode back
          obtain hsome | hlast := h.emptied hmode
          · exact absurd hnone hsome
          · exact absurd ⟨hp, hnone, hlast⟩ hearly
      · obtain hin | hleft := h.gone u hu
        · rw [hnone] at hin
          cases hin
        · exact hleft.cons _
  · exact hkeep (by rwa [hs.ctl_other hf] at hd)

theorem flushing_step (h : Flushing prio id pended flusher later s) (hr : Run (code some prio) Initial tr s)
    (hs : Step (code some prio) t s s') (hno : ¬ Marks id ⟨s, t, s'⟩) (hok : Orderly id ⟨s, t, s'⟩) :
    Flushing prio id pended flusher (⟨s, t, s'⟩ :: later) s' where
  made := block_step hs h.made
  mode := by
    obtain heq | hsend := mode_step hs h.made hno
    · rw [heq]
      exact h.mode
    · rw [hsend]
      exact nofun
  emptied := h.emptied_step hs hno
  gone _ hu := h.gone_step (linked hr) hs hu
  alone hmode _ hu := h.alone_step (linked hr) hs hno hok.1 hmode hu
  awake := h.awake_step hs hno hok.2.1
  reached := h.reached_step hr hs hno
  drained := h.drained_step hs hno hok.2.2

theorem flushing_start (hr : Run (code some prio) Initial before x.pre)
    (hs : Step (code some prio) x.thread x.pre x.post) (hx : x.pre.ctl x.thread = .awake (.flushMark id)) :
    Flushing prio id (x.pre.mem.sem id).firstSusp x.thread [] x.post := by
  obtain ⟨c, p', hb, hp', ho⟩ := hs.block hx rfl
  obtain ⟨hm, rfl⟩ := Prod.mk.inj (Option.some.inj hb)
  have hlocked : Claims (code some prio) held x.pre x.thread (.semLock id) :=
    (claims_awake hx).mpr (List.mem_cons_self ..)
  constructor
  case made => exact block_step hs ((made hr).touched x.thread id (by rw [hx]; rfl))
  case mode =>
    rw [← hm, Mem.setSem_self]
    exact nofun
  case emptied =>
    refine fun _ => .inl ?_
    rw [← hm, Mem.setSem_self]
    exact foundSome_pended hr (by rw [hx]; exact decide_eq_true rfl)
  case gone =>
    intro t ht
    rw [← hm, Mem.setSem_self]
    exact .inl ht
  case alone =>
    intro _ t ht
    rw [← hm, Mem.setSem_self] at ht
    exact ⟨ht, nofun⟩
  case awake =>
    intro _ t maxWait hp
    by_cases ht : t = x.thread
    · rw [ht, hp'] at hp
      cases hp
    · -- whoever is about to sleep has the lock
      rw [hs.ctl_other ht] at hp
      have hclaims : Claims (code some prio) held x.pre t (.semLock id) :=
        (claims_awake hp).mpr (List.mem_singleton_self _)
      exact ht ((owned hr (.semLock id)).unique hclaims hlocked)
  case reached => exact fun _ hpast => absurd hp' hpast
  case drained =>
    intro hd
    rw [hp'] at hd
    cases hd

theorem flushing_run (h : Run (code some prio) Initial (later ++ x :: before) s)
    (hx : x.pre.ctl x.thread = .awake (.flushMark id)) (hno : ∀ y ∈ later, ¬ Marks id y)
    (hok : ∀ y ∈ later, Orderly id y) :
    Flushing prio id (x.pre.mem.sem id).firstSusp x.thread later s := by
  have hs := h.steps x (List.mem_append_right _ (List.mem_cons_self ..))
  have hinv := h.since (fun l s => (∃ tr, Run (code some prio) Initial tr s) ∧
    Flushing prio id (x.pre.mem.sem id).firstSusp x.thread l s) ?_ ?_
  · exact hinv.2
  · exact ⟨⟨_, .step h.before hs⟩, flushing_start h.before hs hx⟩
  · rintro ⟨a, t, b⟩ l hl hstep ⟨⟨tr, hr⟩, hf⟩
    have hin := hl.subset (List.mem_cons_self ..)
    exact ⟨⟨_, .step hr hstep⟩, flushing_step hf hr hstep (hno _ hin) (hok _ hin)⟩

theorem FlushedOut.step (hy : FlushedOut id y) (hs : Step (code some prio) y.thread y.pre y.post) :
    (y.post.mem.sem id).tokenCount = (y.pre.mem.sem id).tokenCount ∧
      leaving id .ok (y.post.ctl y.thread).point = true := by
  obtain ⟨⟨maxWait, retcode, hp⟩, hmode⟩ := hy
  obtain ⟨c, p', hb, hp', _⟩ := hs.block hp rfl
  rw [hp', Ctl.point_awake]
  exact (block_runs (c := c) rfl hb : Runs some prio y.thread (.takeTest maxWait id retcode) _ _ _).flushed_out hmode

theorem leaving_step {error : Status} (hs : Step (code some prio) y.thread y.pre y.post) (hcall : ¬ Calls t y)
    (h : leaving id error (y.pre.ctl t).point = true) : leaving id error (y.post.ctl t).point = true := by
  by_cases ht : t = y.thread
  · subst ht
    obtain ⟨_, _, heq | hnext⟩ | ⟨p, p', hp, hp', hr, _⟩ := step_cases hs
    · rw [heq]
      exact h
    · exact next_leaving hnext h
    · rw [hp, Ctl.point_awake] at h
      rw [hp', Ctl.point_awake]
      refine hr.leaving h ?_
      rw [← Bool.not_eq_true]
      exact fun hrest => hcall ⟨rfl, by rw [hp]; exact hrest⟩
  · rw [hs.ctl_other ht]
    exact h

/-- A flush releases the tasks that it finds on the list, with `OK` and without a token,
and no other; it reaches them all; and the mode is set back when it returns: provided that
while it is on nobody comes to the list and nobody goes from a poll to sleep, and that the
flusher does not look at the list between its emptying and the resetting of the mode. -/
theorem flush_releases (h : Run (code some prio) Initial (later ++ x :: before) s)
    (hx : x.pre.ctl x.thread = .awake (.flushMark id)) (hno : ∀ y ∈ later, ¬ Marks id y)
    (hok : ∀ y ∈ later, Orderly id y) : Flushes prio id x later s where
  released := by
    rintro after y between rfl hy
    have hs := h.steps y (by simp)
    rw [List.append_assoc] at h
    have hf := flushing_run h.before hx (fun z hz => hno z (by simp [hz])) fun z hz => hok z (by simp [hz])
    obtain ⟨⟨maxWait, retcode, hp⟩, hmode⟩ := hy
    have hlisted : y.thread ∈ (y.pre.mem.sem id).firstSusp :=
      (((linked h.before).lists id).mem _).mpr (by simp [waits, hp, pendsOn])
    obtain ⟨hpended, hstays⟩ := hf.alone hmode _ hlisted
    obtain ⟨htoken, hleaves⟩ := FlushedOut.step ⟨⟨maxWait, retcode, hp⟩, hmode⟩ hs
    refine ⟨hpended, hstays, htoken, fun hcalls => ?_⟩
    exact h.after (fun s => leaving id .ok (s.ctl y.thread).point = true) hleaves
      fun z hz hs hpre => leaving_step hs (hcalls z hz) hpre
  reached := (flushing_run h hx hno hok).reached
  returned := by
    rintro after y between rfl hthread hp
    have hs := h.steps y (by simp)
    rw [List.append_assoc] at h
    have hf := flushing_run h.before hx (fun z hz => hno z (by simp [hz])) fun z hz => hok z (by simp [hz])
    obtain ⟨hsend, hleft⟩ := hf.drained (by rw [← hthread, hp]; exact decide_eq_true rfl)
    refine ⟨?_, hleft⟩
    obtain heq | hsend' := mode_step hs hf.made (hno y (by simp))
    · rw [heq, hsend]
    · exact hsend'

end

/-! ### A task that comes too late to be flushed -/

/-- Task 1 waits, task 0 flushes and waits for the list to drain, task 2 comes. -/
def lateTake : List (Fin 3 × Input (Choice ℕ)) :=
  makes 0 7 (.binary 0 0) :: goesOn 0 3 ++ calls 1 (.take waitForever) 7 :: goesOn 1 7 ++
    calls 0 .flush 7 :: goesOn 0 11 ++ calls 2 (.take waitForever) 7 :: goesOn 2 6

/-- Task 2 was not on the list, and the flush lets it out. -/
theorem latecomer_released :
    ¬ ∀ (later : List (SemTransition (Fin 3) ℕ)) (x : SemTransition (Fin 3) ℕ)
      (before : List (SemTransition (Fin 3) ℕ)) (s : SemState (Fin 3) ℕ) (id : ℕ),
      Run (code some fun _ => 0) Initial (later ++ x :: before) s → x.pre.ctl x.thread = .awake (.flushMark id) →
      (∀ y ∈ later, ¬ Marks id y) → Flushes (fun _ => 0) id x later s := by
  intro hclaim
  obtain ⟨later, x, before, s, hr, hs⟩ := run_of_split_check (code some fun _ => 0) lateTake 9
    (fun later x _ => decide (x.pre.ctl x.thread = .awake (.flushMark 7) ∧
      (x.pre.mem.sem 7).firstSusp = [1] ∧ ∀ y ∈ later, ¬ Marks 7 y) && later.head?.any fun y : SemTransition (Fin 3) ℕ =>
        decide (y.thread = 2 ∧ y.pre.ctl y.thread = .awake (.takeTest waitForever 7 .ok) ∧
          (y.pre.mem.sem 7).sendType = .flush))
    boot_initial (by decide)
  obtain ⟨hmark, hy⟩ := Bool.and_eq_true_iff.mp hs
  obtain ⟨hx, hlist, hno⟩ := of_decide_eq_true hmark
  cases later with
  | nil => cases hy
  | cons y between =>
    obtain ⟨hthread, hp, hmode⟩ := of_decide_eq_true hy
    have hin := ((hclaim _ x before s 7 hr hx hno).released [] y between rfl ⟨⟨_, _, hp⟩, hmode⟩).1
    rw [hlist, hthread] at hin
    cases List.mem_singleton.mp hin

/-- Task 1 waits, task 0 flushes, and each goes on undisturbed. -/
def flushOne : List (Fin 3 × Input (Choice ℕ)) :=
  makes 0 7 (.binary 0 0) :: goesOn 0 3 ++ calls 1 (.take waitForever) 7 :: goesOn 1 7 ++
    calls 0 .flush 7 :: goesOn 0 13 ++ goesOn 1 8 ++ goesOn 0 4

/-- Nobody is about to test the semaphore, nor to be missed by the drain. -/
def undisturbed (y : SemTransition (Fin 3) ℕ) : Bool :=
  match y.pre.ctl y.thread with
  | .awake (.takeStart _ _) | .awake (.takeAgain _ _ _) => false
  | .awake (.flushDrain _) => (List.finRange 3).all fun u => !lastOut 7 (y.pre.ctl u).point
  | _ => true

theorem flushOne_releases : ∃ (x : SemTransition (Fin 3) ℕ) (later : List (SemTransition (Fin 3) ℕ))
    (s : SemState (Fin 3) ℕ), Flushes (fun _ => 0) 7 x later s ∧ (x.pre.mem.sem 7).firstSusp = [1] ∧
      s.ctl 1 = .awake (.returned (.take waitForever) 7 .ok) ∧ s.ctl 0 = .awake (.returned .flush 7 .ok) := by
  obtain ⟨later, x, before, s, hr, hs⟩ := run_of_split_check (code some fun _ => 0) flushOne 16
    (fun later x s => decide (x.pre.ctl x.thread = .awake (.flushMark 7) ∧ (x.pre.mem.sem 7).firstSusp = [1] ∧
      s.ctl 1 = .awake (.returned (.take waitForever) 7 .ok) ∧ s.ctl 0 = .awake (.returned .flush 7 .ok)) &&
      decide ((∀ y ∈ later, ¬ Marks 7 y)) && later.all undisturbed)
    boot_initial (by decide)
  obtain ⟨hs, hcalm⟩ := Bool.and_eq_true_iff.mp hs
  obtain ⟨hs, hno⟩ := Bool.and_eq_true_iff.mp hs
  obtain ⟨hx, hlist, htake, hflush⟩ := of_decide_eq_true hs
  refine ⟨x, later, s, flush_releases hr hx (of_decide_eq_true hno) fun y hy => ?_, hlist, htake, hflush⟩
  have hcalm := List.all_eq_true.mp hcalm y hy
  refine ⟨?_, ?_, ?_⟩
  · rintro ⟨⟨maxWait, hp⟩, _⟩
    rw [undisturbed, hp] at hcalm
    cases hcalm
  · rintro ⟨⟨maxWait, retcode, hp, _⟩, _⟩
    rw [undisturbed, hp] at hcalm
    cases hcalm
  · rintro ⟨hp, _, u, hu⟩
    rw [undisturbed, hp] at hcalm
    have hnot := List.all_eq_true.mp hcalm u (List.mem_finRange u)
    rw [hu] at hnot
    cases hnot

end V2lin.Sem
