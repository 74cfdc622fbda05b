import V2lin.Sem.Locks
import V2lin.Sem.Pended

/-! Where the tokens go.

Each call of `semTake` is charged with what its own steps do to `token_count`. A call
that returns OK has taken one token, or has re-entered a mutex, or has been flushed,
unless it is a `NO_WAIT` call that has given up: `wait_for_token` makes no error of that
timeout. -/
namespace V2lin.Sem
open Threads V2lin.Arith V2lin.Task

section
variable {θ ι : Type} [DecidableEq θ] [DecidableEq ι]

/-! ### Calls -/

/-- The steps of a run, newest first, since thread `t` made its last call. -/
def sinceCall (t : θ) (tr : List (SemTransition θ ι)) : List (SemTransition θ ι) :=
  tr.takeWhile fun x => ¬ Calls t x

/-- What a step of thread `t` adds to the tokens of a semaphore. -/
def tokensAdded (t : θ) (id : ι) (x : SemTransition θ ι) : Int :=
  if x.thread = t then (x.post.mem.sem id).tokenCount - (x.pre.mem.sem id).tokenCount else 0

/-- What thread `t` has added to the tokens of a semaphore since it made its last call. -/
def callTokens (t : θ) (id : ι) (tr : List (SemTransition θ ι)) : Int :=
  ((sinceCall t tr).map (tokensAdded t id)).sum

/-- The step in which `semTake` finds that its task owns the mutex. -/
def reenters (t : θ) (id : ι) (x : SemTransition θ ι) : Bool :=
  match x.pre.ctl t with
  | .awake (.takeStart _ j) =>
    x.thread = t ∧ j = id ∧ (x.pre.mem.sem id).isMutex ∧ (x.pre.mem.sem id).currentOwner = some t
  | _ => false

/-- The step in which a task leaves the wait loops of a semaphore that is being flushed,
without a token. -/
def flushed (t : θ) (id : ι) (x : SemTransition θ ι) : Bool :=
  x.thread = t ∧ pendsOn (x.pre.ctl t).point = some id ∧ pendsOn (x.post.ctl t).point = none ∧
    (x.pre.mem.sem id).sendType = .flush ∧ (x.post.mem.sem id).tokenCount = (x.pre.mem.sem id).tokenCount

/-- The last call of thread `t` has re-entered a mutex, or has been flushed. -/
def excused (t : θ) (id : ι) (tr : List (SemTransition θ ι)) : Bool :=
  (sinceCall t tr).any fun x => reenters t id x || flushed t id x

variable {t : θ} {id : ι} {x : SemTransition θ ι} {tr : List (SemTransition θ ι)}

omit [DecidableEq ι] in
theorem sinceCall_call (h : Calls t x) : sinceCall t (x :: tr) = [] := by
  simp [sinceCall, h]

omit [DecidableEq ι] in
theorem sinceCall_cons (h : ¬ Calls t x) : sinceCall t (x :: tr) = x :: sinceCall t tr := by
  simp [sinceCall, h]

omit [DecidableEq ι] in
theorem callTokens_call (h : Calls t x) : callTokens t id (x :: tr) = 0 := by
  rw [callTokens, sinceCall_call h]
  rfl

omit [DecidableEq ι] in
theorem callTokens_cons (h : ¬ Calls t x) :
    callTokens t id (x :: tr) = callTokens t id tr + tokensAdded t id x := by
  rw [callTokens, sinceCall_cons h, List.map_cons, List.sum_cons, Int.add_comm]
  rfl

theorem excused_call (h : Calls t x) : excused t id (x :: tr) = false := by
  rw [excused, sinceCall_call h]
  rfl

theorem excused_cons (h : ¬ Calls t x) :
    excused t id (x :: tr) = (reenters t id x || flushed t id x || excused t id tr) := by
  rw [excused, sinceCall_cons h, List.any_cons]
  rfl

omit [DecidableEq ι] in
/-- The steps of the other threads count for nothing. -/
theorem callTokens_other (h : x.thread ≠ t) : callTokens t id (x :: tr) = callTokens t id tr := by
  rw [callTokens_cons fun hc => h hc.1, tokensAdded, if_neg h, Int.add_zero]

theorem excused_other (h : x.thread ≠ t) : excused t id (x :: tr) = excused t id tr := by
  have hr : reenters t id x = false := by
    unfold reenters
    split <;> simp [h]
  have hf : flushed t id x = false := by
    simp [flushed, h]
  rw [excused_cons fun hc => h hc.1, hr, hf]
  rfl

/-! ### The phases of a call -/

/-- How far a call is with a semaphore: the tokens still to come, or done with the result
that it will return. -/
inductive Phase where
  | before
  | took (error : Status)
  | gave (error : Status)
  | given

def phase (id : ι) : Pc ι → Phase
  | .takeLastLock _ j error | .takeLastNotify _ j error | .takeLastReset _ j error
  | .takeLastUnlock _ j error | .takeEnd _ j error | .takeUnlock _ j error | .returned (.take _) j error =>
    if j = id then .took error else .before
  | .giveNotify j => if j = id then .gave .ok else .before
  | .giveUnlock j error => if j = id then .gave error else .before
  | .returned .give j _ => if j = id then .given else .before
  | _ => .before

/-- What is charged to a call in each phase. -/
def Charged (mutex : Prop) (tokens : Int) (excused : Bool) : Phase → Prop
  | .before => tokens = 0 ∧ excused = false
  | .took error => (error = .ok ∧ tokens = -1 ∧ excused = false) ∨
      (error = .ok ∧ tokens = 0 ∧ excused = true) ∨ (error ≠ .ok ∧ tokens = 0)
  | .gave error => if error = .ok then ¬ mutex → tokens = 1 else tokens = 0
  | .given => True

omit [DecidableEq θ] in
theorem phase_wait {maxWait : Int} {j : ι} {retcode : Retcode} {p : Pc ι} (h : WaitPoint maxWait j retcode p) :
    phase id p = .before := by
  cases h <;> rfl

variable {prio : θ → Int} {p p' : Pc ι} {s s' : SemState θ ι}

/-- A step that runs no block ends no phase, except that a call on an unknown
semaphore returns. -/
theorem next_phase (id : ι) (h : (code some prio t p).Next p') :
    phase id p' = phase id p ∨
      (phase id p = .before ∧ phase id p' = .took .objIdError ∧ p'.resting = true) ∨
      phase id p' = .given := by
  cases p
  case findUnlock op j found =>
    cases h
    cases found
    · cases op with
      | take maxWait =>
        by_cases hj : j = id
        · exact .inr (.inl ⟨rfl, by simp [phase, hj], rfl⟩)
        · exact .inl (by simp [phase, hj])
      | give =>
        by_cases hj : j = id
        · exact .inr (.inr (by simp [phase, hj]))
        · exact .inl (by simp [phase, hj])
      | flush => exact .inl rfl
      | delete => exact .inl rfl
    · exact .inl (by cases op <;> rfl)
  case giveUnlock j error =>
    cases h
    by_cases hj : j = id
    · exact .inr (.inr (by simp [phase, hj]))
    · exact .inl (by simp [phase, hj])
  all_goals first
    | exact False.elim h
    | (cases h; exact .inl rfl)
    | (obtain ⟨r, rfl⟩ := h; exact .inl rfl)

/-! ### Deletion and levels -/

/-- A point of `semDelete`. -/
def deletes : Pc ι → Bool
  | .findLock .delete _ | .findScan .delete _ | .findSem .delete _ | .findUnlock .delete _ _ => true
  | .deleteTaskLock _ | .deleteTest _ | .deleteSmdelLock _ | .deleteMark _ | .deleteNotify _ => true
  | .deleteSemUnlock _ | .deleteDrain _ | .deleteWait _ | .deleteListLock _ _ | .deleteUnlink _ _ => true
  | .deleteListUnlock _ _ | .deleteFree _ _ | .deleteTaskUnlock _ _ => true
  | _ => false

/-- The step in which a thread calls `semDelete`. -/
def callsDelete (x : SemTransition θ ι) : Bool :=
  match x.post.ctl x.thread with
  | .awake (.findLock .delete _) => true
  | _ => false

theorem deletes_next {myTask : θ → Option θ} (h : (code myTask prio t p).Next p') (hd : deletes p' = true) : deletes p = true := by
  cases p
  case findLock op j => cases h; cases op <;> first | rfl | cases hd
  case findSem op j => cases h; cases op <;> first | rfl | cases hd
  case findUnlock op j found =>
    cases h
    cases found
    · cases hd
    · cases op <;> first | rfl | cases hd
  all_goals first
    | exact False.elim h
    | rfl
    | (cases h; cases hd)
    | (obtain ⟨r, rfl⟩ := h; cases hd)

theorem deletes_runs {myTask : θ → Option θ} {m m' : Mem θ ι} (h : Runs myTask prio t p m m' p') (hd : deletes p' = true) :
    deletes p = true ∨ ∃ id, p' = .findLock .delete id := by
  cases h with
  | called op id =>
    cases op <;> first | exact .inr ⟨id, rfl⟩ | cases hd
  | found op => cases op <;> first | exact .inl rfl | cases hd
  | notFound op => cases op <;> first | exact .inl rfl | cases hd
  | left => split at hd <;> cases hd
  | gave => split at hd <;> cases hd
  | _ => first | exact .inl rfl | cases hd

variable {tr : List (SemTransition θ ι)}

theorem undeleting {myTask : θ → Option θ} (h : Run (code myTask prio) Initial tr s) (hu : ∀ x ∈ tr, callsDelete x = false) (t : θ) :
    deletes (s.ctl t).point = false := by
  refine h.invariant (fun x => callsDelete x = false) (fun s => ∀ t, deletes (s.ctl t).point = false) ?_ ?_ hu t
  · intro s hs t
    rw [hs.idle t]
    rfl
  · intro t s s' hold hs hx u
    by_cases hut : u = t
    · subst hut
      rw [← Bool.not_eq_true]
      intro hd
      obtain ⟨_, _, heq | hnext⟩ | ⟨p, p', hp, hp', hr, _⟩ := step_cases hs
      · rw [heq, hold u] at hd
        cases hd
      · have := deletes_next hnext hd
        rw [hold u] at this
        cases this
      · rw [hp', Ctl.point_awake] at hd
        obtain hd | ⟨id, rfl⟩ := deletes_runs hr hd
        · have := hold u
          rw [hp, Ctl.point_awake, hd] at this
          cases this
        · simp [callsDelete, hp'] at hx
    · rw [hs.ctl_other hut]
      exact hold u

/-- Where `semDelete` is not called no semaphore is killed. -/
theorem unkilled (h : Run (code some prio) Initial tr s) (hu : ∀ x ∈ tr, callsDelete x = false)
    (hb : s.mem.block id ≠ .fresh) : (s.mem.sem id).sendType ≠ .killd := by
  refine made_invariant (fun v => v.sendType ≠ .killd)
    (fun x => ∀ id, x.pre.ctl x.thread ≠ .awake (.deleteMark id)) h ?_ ?_ ?_ hb
  · intro x hx id hp
    obtain ⟨later, before, rfl⟩ := List.append_of_mem hx
    have := undeleting h.before (fun y hy => hu y (List.mem_append_right _ (List.mem_cons_of_mem _ hy))) x.thread
    rw [hp] at this
    cases this
  · intro args v hv
    rw [(Create.block_created hv).sendType]
    exact nofun
  · intro s t s' p p' id _ hx hp _ hr hb hold
    obtain heq | ⟨_, _, _, heq⟩ | ⟨_, heq⟩ | ⟨rfl, _⟩ := hr.sendType_cases hb
    · rwa [heq]
    · rw [heq]
      exact nofun
    · rw [heq]
      exact nofun
    · exact absurd hp (hx id)

/-- Only mutexes have levels. -/
theorem plain_level (h : Run (code some prio) Initial tr s) (hb : s.mem.block id ≠ .fresh)
    (hm : ¬ (s.mem.sem id).isMutex) : (s.mem.sem id).recursionLevel = 0 := by
  refine made_invariant (fun v => ¬ v.isMutex → v.recursionLevel = 0) (fun _ => True) h
    (fun _ _ => trivial) ?_ ?_ hb hm
  · intro args v hv _
    exact (Create.block_created hv).level
  · intro s t s' p p' id _ _ _ _ hr hb hold hm
    have hm : ¬ (s.mem.sem id).isMutex := by
      unfold V2lsem.isMutex at hm ⊢
      rwa [hr.flags_eq hb] at hm
    obtain ⟨_, _, heq⟩ | ⟨_, _, _, hmutex, _⟩ | ⟨_, _, _, _, _, _, _, _, heq⟩ | ⟨_, _, _, _, _, _, heq⟩ |
      ⟨_, error, _, hg⟩ := hr.owner_cases hb
    · rw [heq, hold hm]
    · exact absurd hmutex hm
    · rw [heq, if_neg hm, hold hm]
    · rw [heq, hold hm]
    · by_cases he : error = .ok
      · rw [(hg.plain he (Int.le_of_eq (hold hm))).2.1, hold hm]
      · rw [hg.refused he, hold hm]

/-! ### Charging the steps -/

/-- The step in which a `NO_WAIT` call of `semTake` gives up after a timeout on a
semaphore that is neither flushed nor killed. -/
def noWaitExpires (x : SemTransition θ ι) : Bool :=
  match x.pre.ctl x.thread with
  | .awake (.takeTest maxWait id .etimedout) | .awake (.takeAgain maxWait id .etimedout) =>
    maxWait = noWait ∧ (x.pre.mem.sem id).sendType = .send ∧ pendsOn (x.post.ctl x.thread).point = none ∧
      (x.post.mem.sem id).tokenCount = (x.pre.mem.sem id).tokenCount
  | _ => false

omit [DecidableEq θ] [DecidableEq ι] in
theorem noWaitExpires_of {x : SemTransition θ ι} (hp : x.pre.ctl x.thread = .awake p)
    (hw : WaitPoint noWait id .etimedout p) (hs : (x.pre.mem.sem id).sendType = .send)
    (hout : pendsOn (x.post.ctl x.thread).point = none)
    (htok : (x.post.mem.sem id).tokenCount = (x.pre.mem.sem id).tokenCount) : noWaitExpires x = true := by
  cases hw <;> simp [noWaitExpires, hp, hs, hout, htok]

/-- The step in which `semGive` finds the count of a semaphore that is no mutex at `INT_MAX`. -/
def givesMax (x : SemTransition θ ι) : Bool :=
  match x.pre.ctl x.thread with
  | .awake (.giveStart id) => ¬ (x.pre.mem.sem id).isMutex ∧ (x.pre.mem.sem id).tokenCount = intMax
  | _ => false

omit [DecidableEq θ] [DecidableEq ι] in
theorem givesMax_eq_false {x : SemTransition θ ι} (h : givesMax x = false)
    (hp : x.pre.ctl x.thread = .awake (.giveStart id)) (hm : ¬ (x.pre.mem.sem id).isMutex) :
    (x.pre.mem.sem id).tokenCount ≠ intMax := by
  simp only [givesMax, hp, decide_eq_false_iff_not, not_and] at h
  exact h hm

omit [DecidableEq θ] in
theorem waitError_ok (maxWait : Int) : waitError maxWait .ok = .ok := by
  simp [waitError]

omit [DecidableEq θ] in
theorem waitError_etimedout {maxWait : Int} (h : maxWait ≠ noWait) :
    waitError maxWait .etimedout = .objTimeout := by
  simp [waitError, h]

/-- A step that moves no token, re-enters nothing and leaves no flush charges nothing. -/
theorem Charged.quiet {mutex mutex' : Prop} {n d : Int} {re fl ex : Bool} {ph : Phase}
    (h : Charged mutex n ex ph) (hd : d = 0) (hre : re = false) (hfl : fl = false)
    (hph : ∀ error, ph ≠ .gave error) : Charged mutex' (n + d) (re || fl || ex) ph := by
  rw [hd, hre, hfl, Int.add_zero]
  cases ph with
  | gave error => exact absurd rfl (hph error)
  | _ => exact h

/-- A call begins before its tokens. -/
theorem Runs.phase_resting {m m' : Mem θ ι} (h : Runs some prio t p m m' p') (hp : p.resting = true) :
    phase id p' = .before := by
  cases h with
  | left hw =>
    obtain ⟨_, hw⟩ := hw.point
    cases hw <;> cases hp
  | sleeps hw => cases hw <;> cases hp
  | polls hw => cases hw <;> cases hp
  | called => rfl
  | refused => rfl
  | created => rfl
  | _ => cases hp

omit [DecidableEq ι] in
/-- The ways out of the wait loops, for the semaphore waited on. -/
theorem WaitEnd.charged {m : Mem θ ι} {maxWait : Int} {v v' : V2lsem θ} {retcode : Retcode} {error : Status}
    {last fl : Bool} {mutex : Prop} (hw : WaitEnd prio (some t) m maxWait id p v retcode)
    (hl : Left v (some t) maxWait retcode v' error last) (hkill : (m.sem id).sendType ≠ .killd)
    (hin : pendsOn p = some id)
    (hfl : fl = true ↔ pendsOn p = some id ∧ (none : Option ι) = none ∧ (m.sem id).sendType = .flush ∧
      v.tokenCount = (m.sem id).tokenCount)
    (hno : ¬ (WaitPoint noWait id .etimedout p ∧ (m.sem id).sendType = .send ∧ (none : Option ι) = none ∧
      v.tokenCount = (m.sem id).tokenCount)) :
    Charged mutex (0 + (v.tokenCount - (m.sem id).tokenCount)) (false || fl || false) (.took error) := by
  have herror : error = waitError maxWait retcode := hl.spared (by rwa [hw.sendType])
  have hflush : (m.sem id).sendType ≠ .send → (m.sem id).sendType = .flush := by
    intro hs
    cases hst : (m.sem id).sendType with
    | send => exact absurd hst hs
    | flush => rfl
    | killd => exact absurd hst hkill
  cases hw with
  | released hs =>
    have hfl : fl = true := hfl.mpr ⟨hin, rfl, hflush hs, rfl⟩
    exact .inr (.inl ⟨by rw [herror, waitError_ok], by omega, by simp [hfl]⟩)
  | taken hp hs htok hsig =>
    have hfl : fl = false := by
      rw [← Bool.not_eq_true, hfl]
      intro h
      have := h.2.2.2
      dsimp only at this
      omega
    refine .inl ⟨by rw [herror, waitError_ok], ?_, by simp [hfl]⟩
    dsimp only
    omega
  | timedOut hp =>
    by_cases hmax : maxWait = noWait
    · subst hmax
      have hsend : (m.sem id).sendType ≠ .send := fun hs => hno ⟨hp, hs, rfl, rfl⟩
      have hfl : fl = true := hfl.mpr ⟨hin, rfl, hflush hsend, rfl⟩
      exact .inr (.inl ⟨by rw [herror]; rfl, by omega, by simp [hfl]⟩)
    · refine .inr (.inr ⟨?_, by omega⟩)
      rw [herror, waitError_etimedout hmax]
      exact nofun

/-- What a block changes of the tokens is charged to its call. Here `re` and `fl` say
whether the block re-enters the mutex or leaves a flush. -/
theorem Runs.charged {m m' : Mem θ ι} {re fl ex : Bool} {n : Int} (hr : Runs some prio t p m m' p')
    (hrest : p.resting = false) (hkill : touches p = some id → (m.sem id).sendType ≠ .killd)
    (hplain : touches p = some id → ¬ (m.sem id).isMutex → (m.sem id).recursionLevel = 0)
    (hre : re = true ↔ (∃ maxWait, p = .takeStart maxWait id) ∧ (m.sem id).isMutex ∧
      (m.sem id).currentOwner = some t)
    (hfl : fl = true ↔ pendsOn p = some id ∧ pendsOn p' = none ∧ (m.sem id).sendType = .flush ∧
      (m'.sem id).tokenCount = (m.sem id).tokenCount)
    (hno : ¬ (WaitPoint noWait id .etimedout p ∧ (m.sem id).sendType = .send ∧ pendsOn p' = none ∧
      (m'.sem id).tokenCount = (m.sem id).tokenCount))
    (hmax : p = .giveStart id → ¬ (m.sem id).isMutex → (m.sem id).tokenCount ≠ intMax)
    (h : Charged (m.sem id).isMutex n ex (phase id p)) :
    Charged (m'.sem id).isMutex (n + ((m'.sem id).tokenCount - (m.sem id).tokenCount)) (re || fl || ex)
      (phase id p') := by
  have hre_false : (∀ maxWait, p ≠ .takeStart maxWait id) → re = false := by
    intro hp
    rw [← Bool.not_eq_true, hre]
    exact fun h => h.1.elim hp
  have hfl_false : (pendsOn p = some id → pendsOn p' ≠ none) → fl = false := by
    intro hp
    rw [← Bool.not_eq_true, hfl]
    exact fun h => hp h.1 h.2.1
  cases hr with
  | called _ _ hp => simp [hp] at hrest
  | refused hp => simp [hp] at hrest
  | created _ _ hp => simp [hp] at hrest
  | @reentered m maxWait j hm ho =>
    rw [Mem.setSem_congr V2lsem.tokenCount _ (by simp), Mem.setWaiting_sem]
    by_cases hj : j = id
    · subst hj
      obtain ⟨hn, _⟩ := h
      have hre : re = true := hre.mpr ⟨⟨maxWait, rfl⟩, hm, ho⟩
      simp [phase, Charged, hre, hn]
    · have hp : phase id (.takeEnd maxWait j .ok) = .before := by simp [phase, hj]
      rw [hp]
      refine h.quiet (Int.sub_self _) (hre_false ?_) (hfl_false nofun) nofun
      intro _ heq
      cases heq
      exact hj rfl
  | @pended m maxWait j hnot =>
    refine h.quiet ?_ ?_ (hfl_false nofun) nofun
    · rw [Mem.setSem_congr V2lsem.tokenCount _ (by simp), Mem.setWaiting_sem, Int.sub_self]
    · rw [← Bool.not_eq_true, hre]
      rintro ⟨⟨_, heq⟩, hm, ho⟩
      cases heq
      exact hnot ⟨hm, ho⟩
  | @left p m maxWait j v retcode v' error last hw hl =>
    obtain ⟨rc, hp⟩ := hw.point
    have hno_re : re = false := hre_false fun _ heq => by
      subst heq
      cases hp
    have hout : pendsOn (if last then .takeLastLock maxWait j error else .takeEnd maxWait j error) = none := by
      split <;> rfl
    rw [phase_wait hp] at h
    by_cases hj : j = id
    · subst hj
      have hphase : phase j (if last then .takeLastLock maxWait j error else .takeEnd maxWait j error) =
          .took error := by
        split <;> simp [phase]
      obtain ⟨hn, hex⟩ := h
      rw [hphase, hn, hex, hno_re, Mem.setSem_self, hl.tokenCount]
      rw [hout, Mem.setSem_self, hl.tokenCount] at hfl hno
      exact hw.charged hl (hkill hp.touched) hp.pended hfl hno
    · have hphase : phase id (if last then .takeLastLock maxWait j error else .takeEnd maxWait j error) =
          .before := by
        split <;> simp [phase, hj]
      rw [hphase]
      refine h.quiet (by simp [Ne.symm hj]) hno_re (hfl_false fun hin => ?_) nofun
      rw [hp.pended] at hin
      exact absurd (Option.some.inj hin) hj
  | sleeps hp =>
    rw [phase_wait hp] at h
    refine h.quiet (Int.sub_self _) (hre_false ?_) (hfl_false fun _ => nofun) nofun
    intro _ heq
    subst heq
    cases hp
  | polls hp =>
    rw [phase_wait hp] at h
    refine h.quiet (Int.sub_self _) (hre_false ?_) (hfl_false fun _ => nofun) nofun
    intro _ heq
    subst heq
    cases hp
  | @reset m maxWait j error =>
    refine h.quiet ?_ (hre_false nofun) (hfl_false nofun) ?_
    · rw [Mem.setSem_congr V2lsem.tokenCount m (by rfl), Int.sub_self]
    · intro error'
      by_cases hj : j = id <;> simp [phase, hj]
  | @ended m maxWait j error =>
    refine h.quiet ?_ (hre_false nofun) (hfl_false nofun) ?_
    · rw [Mem.setWaiting_sem, Int.sub_self]
    · intro error'
      by_cases hj : j = id <;> simp [phase, hj]
  | @gave m j v error hg =>
    have hg := giveToken_gave hg
    by_cases hj : j = id
    · subst hj
      have hphase : phase j (if error = .ok ∧ v.firstSusp ≠ [] then .giveNotify j else .giveUnlock j error) =
          .gave error := by
        split <;> simp_all [phase]
      obtain ⟨hn, _⟩ := h
      rw [hphase, hn, Mem.setSem_self]
      simp only [Charged]
      split
      · rename_i he
        intro hm
        have hm : ¬ (m.sem j).isMutex := by
          unfold V2lsem.isMutex at hm ⊢
          rwa [hg.flags] at hm
        rw [(hg.plain he (Int.le_of_eq (hplain rfl hm))).1, increment_of_ne (hmax rfl hm)]
        omega
      · rename_i he
        rw [hg.refused he]
        omega
    · have hphase : phase id (if error = .ok ∧ v.firstSusp ≠ [] then .giveNotify j else .giveUnlock j error) =
          .before := by
        split <;> simp [phase, hj]
      rw [hphase]
      exact h.quiet (by simp [Ne.symm hj]) (hre_false nofun) (hfl_false nofun) nofun
  | flushMarked =>
    refine h.quiet ?_ (hre_false nofun) (hfl_false nofun) nofun
    rw [Mem.setSem_congr V2lsem.tokenCount m (by rfl), Int.sub_self]
  | deleteMarked =>
    refine h.quiet ?_ (hre_false nofun) (hfl_false nofun) nofun
    rw [Mem.setSem_congr V2lsem.tokenCount m (by rfl), Int.sub_self]
  | _ => exact h.quiet (Int.sub_self _) (hre_false nofun) (hfl_false nofun) nofun

omit [DecidableEq θ] in
theorem phase_gave {error : Status} (h : phase id p = .gave error) :
    p = .giveNotify id ∧ error = .ok ∨ p = .giveUnlock id error := by
  unfold phase at h
  split at h
  case h_8 j =>
    split at h
    · rename_i hj
      cases h
      exact .inl ⟨by rw [hj], rfl⟩
    · cases h
  case h_9 j error' =>
    split at h
    · rename_i hj
      cases h
      exact .inr (by rw [hj])
    · cases h
  case h_11 => cases h
  all_goals split at h <;> cases h

/-- Being a mutex is settled once and for all when the semaphore is made. -/
theorem mutex_step (hs : Step (code some prio) t s s') (hb : s.mem.block id ≠ .fresh) :
    (s'.mem.sem id).isMutex ↔ (s.mem.sem id).isMutex := by
  obtain ⟨hm, _⟩ | ⟨p, p', _, _, hr, _⟩ := step_cases hs
  · rw [hm]
  · unfold V2lsem.isMutex
    rw [hr.flags_eq hb]

theorem reenters_iff (hp : s.ctl t = .awake p) :
    reenters t id ⟨s, t, s'⟩ = true ↔ (∃ maxWait, p = .takeStart maxWait id) ∧ (s.mem.sem id).isMutex ∧
      (s.mem.sem id).currentOwner = some t := by
  cases p with
  | takeStart maxWait j =>
    simp only [reenters, hp, decide_eq_true_eq, true_and, Pc.takeStart.injEq, exists_eq_left']
  | _ => simp [reenters, hp]

theorem charged_sync (hm : s'.mem = s.mem)
    (hrun : ∀ block, code some prio t (s.ctl t).point ≠ .run block)
    (hp : (s'.ctl t).point = (s.ctl t).point ∨ (code some prio t (s.ctl t).point).Next (s'.ctl t).point)
    (h : Charged (s.mem.sem id).isMutex (callTokens t id tr) (excused t id tr) (phase id (s.ctl t).point)) :
    Charged (s'.mem.sem id).isMutex (callTokens t id (⟨s, t, s'⟩ :: tr)) (excused t id (⟨s, t, s'⟩ :: tr))
      (phase id (s'.ctl t).point) := by
  have hcall : ¬ Calls t ⟨s, t, s'⟩ := by
    rintro ⟨_, hrest⟩
    obtain ⟨p, hp, hrest⟩ := atRest_iff.mp hrest
    have hp : (s.ctl t).point = p := by rw [show s.ctl t = .awake p from hp, Ctl.point_awake]
    rw [hp] at hrun
    cases p <;> first | exact hrun _ rfl | cases hrest
  have hadd : tokensAdded t id ⟨s, t, s'⟩ = 0 := by simp [tokensAdded, hm]
  have hpend : pendsOn (s'.ctl t).point = pendsOn (s.ctl t).point := by
    obtain heq | hnext := hp
    · rw [heq]
    · exact next_pended hnext
  have hre : reenters t id ⟨s, t, s'⟩ = false := by
    unfold reenters
    split
    · rename_i hstart
      have hstart : s.ctl t = _ := hstart
      rw [hstart] at hrun
      exact absurd rfl (hrun _)
    · rfl
  have hfl : flushed t id ⟨s, t, s'⟩ = false := by
    simp only [flushed, hpend, decide_eq_false_iff_not]
    rintro ⟨_, hin, hout, _⟩
    rw [hin] at hout
    cases hout
  rw [callTokens_cons hcall, excused_cons hcall, hadd, hre, hfl, Int.add_zero, hm]
  obtain heq | hnext := hp
  · rwa [heq]
  · obtain heq | ⟨hbefore, htook, _⟩ | hgiven := next_phase id hnext
    · rwa [heq]
    · rw [hbefore] at h
      rw [htook]
      exact .inr (.inr ⟨nofun, h.1⟩)
    · rw [hgiven]
      trivial

theorem charged_block (hl : Linked s) (hkill : ∀ id, s.mem.block id ≠ .fresh → (s.mem.sem id).sendType ≠ .killd)
    (hplain : ∀ id, s.mem.block id ≠ .fresh → ¬ (s.mem.sem id).isMutex → (s.mem.sem id).recursionLevel = 0)
    (hno : noWaitExpires ⟨s, t, s'⟩ = false) (hmax : givesMax ⟨s, t, s'⟩ = false)
    (hp : s.ctl t = .awake p) (hp' : s'.ctl t = .awake p')
    (hr : Runs some prio t p s.mem s'.mem p')
    (h : Charged (s.mem.sem id).isMutex (callTokens t id tr) (excused t id tr) (phase id p)) :
    Charged (s'.mem.sem id).isMutex (callTokens t id (⟨s, t, s'⟩ :: tr)) (excused t id (⟨s, t, s'⟩ :: tr))
      (phase id p') := by
  have hpoint : (s.ctl t).point = p := by rw [hp, Ctl.point_awake]
  have hpoint' : (s'.ctl t).point = p' := by rw [hp', Ctl.point_awake]
  by_cases hrest : p.resting = true
  · have hcall : Calls t ⟨s, t, s'⟩ := ⟨rfl, by simp only [hp]; exact hrest⟩
    rw [callTokens_call hcall, excused_call hcall, hr.phase_resting hrest]
    exact ⟨rfl, rfl⟩
  · have hrest : p.resting = false := by simpa using hrest
    have hcall : ¬ Calls t ⟨s, t, s'⟩ := by
      rintro ⟨_, hat⟩
      simp only [hp] at hat
      rw [show atRest (.awake p) = p.resting from rfl, hrest] at hat
      cases hat
    rw [callTokens_cons hcall, excused_cons hcall]
    have hadd : tokensAdded t id ⟨s, t, s'⟩ = (s'.mem.sem id).tokenCount - (s.mem.sem id).tokenCount := by
      simp [tokensAdded]
    rw [hadd]
    refine hr.charged hrest (fun ht => hkill id (hl.touched t id (hpoint.symm ▸ ht)))
      (fun ht => hplain id (hl.touched t id (hpoint.symm ▸ ht))) (reenters_iff hp) ?_ ?_
      (fun heq => givesMax_eq_false hmax (heq ▸ hp)) h
    · simp [flushed, hpoint, hpoint']
    · rintro ⟨hw, hs, hout, htok⟩
      have hyes : noWaitExpires ⟨s, t, s'⟩ = true :=
        noWaitExpires_of hp hw hs (by simpa [hpoint'] using hout) htok
      rw [hno] at hyes
      cases hyes

/-- In a run without deletions in which no `NO_WAIT` call gives up and no count comes round,
every call is charged what its phase says. -/
theorem charged (h : Run (code some prio) Initial tr s) (hu : ∀ x ∈ tr, callsDelete x = false)
    (hno : ∀ x ∈ tr, noWaitExpires x = false) (hmax : ∀ x ∈ tr, givesMax x = false) (t : θ) (id : ι) :
    Charged (s.mem.sem id).isMutex (callTokens t id tr) (excused t id tr) (phase id (s.ctl t).point) := by
  induction h with
  | @start s hs =>
    rw [hs.idle t]
    exact ⟨rfl, rfl⟩
  | @step tr s u s' hr hs ih =>
    have hu' : ∀ x ∈ tr, callsDelete x = false := fun x hx => hu x (List.mem_cons_of_mem _ hx)
    have hold := ih hu' (fun x hx => hno x (List.mem_cons_of_mem _ hx)) fun x hx => hmax x (List.mem_cons_of_mem _ hx)
    have hl := linked hr
    by_cases hut : u = t
    · subst hut
      obtain ⟨hm, hrun, hp⟩ | ⟨p, p', hp, hp', hruns, _⟩ := step_cases hs
      · exact charged_sync hm hrun hp hold
      · rw [hp, Ctl.point_awake] at hold
        rw [hp', Ctl.point_awake]
        exact charged_block hl (fun _ => unkilled hr hu') (fun _ => plain_level hr)
          (hno _ (List.mem_cons_self ..)) (hmax _ (List.mem_cons_self ..)) hp hp' hruns hold
    · rw [callTokens_other (show (⟨s, u, s'⟩ : SemTransition θ ι).thread ≠ t from hut),
        excused_other (show (⟨s, u, s'⟩ : SemTransition θ ι).thread ≠ t from hut),
        hs.ctl_other (Ne.symm hut)]
      cases hph : phase id (s.ctl t).point with
      | gave error =>
        rw [hph] at hold
        have htouch : touches (s.ctl t).point = some id := by
          obtain ⟨heq, _⟩ | heq := phase_gave hph <;> rw [heq] <;> rfl
        simp only [Charged] at hold ⊢
        rwa [mutex_step hs (hl.touched t id htouch)]
      | _ => 
        rw [hph] at hold
        exact hold

/-! ### The balance -/

/-- The step in which `semGive` returns OK. -/
def returnsGive (id : ι) (x : SemTransition θ ι) : Bool :=
  x.pre.ctl x.thread = .awake (.giveUnlock id .ok)

/-- The step in which `semTake` returns OK. -/
def returnsTake (id : ι) (x : SemTransition θ ι) : Bool :=
  match x.pre.ctl x.thread with
  | .awake (.takeUnlock _ j .ok) => j = id
  | _ => false

/-- The last call of thread `t` has been flushed. -/
def wasFlushed (t : θ) (id : ι) (tr : List (SemTransition θ ι)) : Bool :=
  (sinceCall t tr).any (flushed t id)

/-- The calls of `semGive` that have returned OK. -/
def gives (id : ι) (tr : List (SemTransition θ ι)) : Nat := tr.countP (returnsGive id)

/-- The calls of `semTake` that have returned OK and were not flushed. -/
def takes (id : ι) : List (SemTransition θ ι) → Nat
  | [] => 0
  | x :: tr => takes id tr + if returnsTake id x ∧ wasFlushed x.thread id tr = false then 1 else 0

/-- The tokens with which the semaphore was made. -/
def initialCount (id : ι) : List (SemTransition θ ι) → Int
  | [] => 0
  | x :: tr =>
    if x.pre.mem.block id = .fresh ∧ x.post.mem.block id ≠ .fresh then (x.post.mem.sem id).tokenCount
    else initialCount id tr

/-- A thread that has moved its tokens and has not returned yet. -/
def settling (id : ι) : Ctl (Pc ι) → Bool
  | .awake p =>
    match phase id p with
    | .took _ | .gave _ => !p.resting
    | _ => false
  | .asleep _ _ => false

/-- The tokens moved by the call that is about to return. -/
def inFlight (id : ι) (tr : List (SemTransition θ ι)) (s : SemState θ ι) : Int :=
  match s.owner (.semLock id) with
  | some u => if settling id (s.ctl u) then callTokens u id tr else 0
  | none => 0

omit [DecidableEq θ] in
theorem phase_took {error : Status} (h : phase id p = .took error) :
    p.resting = true ∨ .semLock id ∈ held p ∧ touches p = some id := by
  unfold phase at h
  split at h <;> try split at h
  all_goals first
    | exact .inl rfl
    | (rename_i hj; subst hj; exact .inr ⟨by simp [held], rfl⟩)
    | cases h

omit [DecidableEq θ] in
theorem phase_given (h : phase id p = .given) : p.resting = true := by
  unfold phase at h
  split at h <;> try split at h
  all_goals first
    | rfl
    | cases h

omit [DecidableEq θ] in
theorem settling_iff {c : Ctl (Pc ι)} : settling id c = true ↔
    ∃ p, c = .awake p ∧ p.resting = false ∧ ∃ error, phase id p = .took error ∨ phase id p = .gave error := by
  cases c with
  | asleep p n => simp [settling]
  | awake p => cases hph : phase id p <;> simp [settling, hph]

omit [DecidableEq θ] in
theorem settling_held (hrest : p.resting = false)
    (h : ∃ error, phase id p = .took error ∨ phase id p = .gave error) : .semLock id ∈ held p := by
  obtain ⟨error, hph | hph⟩ := h
  · obtain hp | ⟨hheld, _⟩ := phase_took hph
    · simp [hrest] at hp
    · exact hheld
  · obtain ⟨rfl, _⟩ | rfl := phase_gave hph <;> exact List.mem_singleton_self _

/-- Where `sem_lock` is given up: at the end of a call, or before its tokens. -/
theorem releases_phase (h : Releases (code some prio) (.semLock id) x) :
    (∃ maxWait error, x.pre.ctl x.thread = .awake (.takeUnlock maxWait id error)) ∨
      (∃ error, x.pre.ctl x.thread = .awake (.giveUnlock id error)) ∨
      (∃ p, x.pre.ctl x.thread = .awake p ∧ phase id p = .before) := by
  obtain ⟨p, hp, ⟨next, hi⟩ | ⟨c, timed, next, hi⟩⟩ := h
  · cases p <;> simp only [code, reduceCtorEq, Instr.unlock.injEq, Lock.semLock.injEq, false_and] at hi
    case takeUnlock maxWait j error => exact .inl ⟨maxWait, error, hi.1 ▸ hp⟩
    case giveUnlock j error => exact .inr (.inl ⟨error, hi.1 ▸ hp⟩)
    all_goals exact .inr (.inr ⟨_, hp, rfl⟩)
  · cases p <;> simp only [code, reduceCtorEq] at hi
    all_goals exact .inr (.inr ⟨_, hp, rfl⟩)

theorem returns_releases (prio : θ → Int) (h : returnsGive id x = true ∨ returnsTake id x = true) :
    Releases (code some prio) (.semLock id) x ∧ Claims (code some prio) held x.pre x.thread (.semLock id) := by
  obtain h | h := h
  · have hp : x.pre.ctl x.thread = .awake (.giveUnlock id .ok) := of_decide_eq_true h
    exact ⟨⟨_, hp, .inl ⟨_, rfl⟩⟩, (claims_awake hp).mpr (List.mem_singleton_self _)⟩
  · unfold returnsTake at h
    split at h
    · rename_i maxWait j hp
      have hj : j = id := of_decide_eq_true h
      subst hj
      exact ⟨⟨_, hp, .inl ⟨_, rfl⟩⟩, (claims_awake hp).mpr (List.mem_singleton_self _)⟩
    · cases h

/-- A step that returns from no call leaves the counts as they are. -/
theorem counts_cons (tr : List (SemTransition θ ι)) (hg : returnsGive id x = false) (ht : returnsTake id x = false) :
    gives id (x :: tr) = gives id tr ∧ takes id (x :: tr) = takes id tr := by
  refine ⟨?_, ?_⟩
  · simp [gives, hg]
  · simp [takes, ht]

/-- The tokens of a semaphore move only under its lock. -/
theorem tokens_unclaimed (hs : Step (code some prio) t s s') (hb : s.mem.block id ≠ .fresh)
    (hno : ¬ Claims (code some prio) held s t (.semLock id)) :
    (s'.mem.sem id).tokenCount = (s.mem.sem id).tokenCount := by
  obtain ⟨hm, _⟩ | ⟨p, p', hp, _, hr, _⟩ := step_cases hs
  · rw [hm]
  · rw [claims_awake hp] at hno
    obtain heq | ⟨rfl, _⟩ | ⟨⟨_, _, hw, _⟩, _⟩ := hr.token_cases hb
    · exact heq
    · exact absurd (List.mem_singleton_self _) hno
    · exact absurd (hw.held ▸ List.mem_singleton_self _) hno

/-- What the thread in the critical section has in flight is what its call is charged. -/
theorem inFlight_of_claims (hown : s.owner (.semLock id) = some t)
    (hclaim : Claims (code some prio) held s t (.semLock id))
    (hc : Charged (s.mem.sem id).isMutex (callTokens t id tr) (excused t id tr) (phase id (s.ctl t).point)) :
    inFlight id tr s = callTokens t id tr := by
  simp only [inFlight, hown]
  split
  · rfl
  · rename_i hset
    obtain ⟨p, hp, hheld⟩ := claims_iff.mp hclaim
    rw [hp, Ctl.point_awake] at hc
    have hrest : p.resting = false := by
      rw [← Bool.not_eq_true]
      intro hrest
      rw [held_resting hrest] at hheld
      cases hheld
    cases hph : phase id p with
    | before =>
      rw [hph] at hc
      exact hc.1.symm
    | took error => simp [settling, hp, hph, hrest] at hset
    | gave error => simp [settling, hp, hph, hrest] at hset
    | given => simp [phase_given hph] at hrest

/-- Where nobody has claimed `sem_lock`, nothing is in flight. -/
theorem inFlight_of_unclaimed (h : ∀ u, s.owner (.semLock id) = some u → settling id (s.ctl u) = false) :
    inFlight id tr s = 0 := by
  unfold inFlight
  split
  · rename_i u hu
    simp [h u hu]
  · rfl

/-- Nobody settles without having held `sem_lock` before. -/
theorem settling_step (hs : Step (code some prio) t s s') (h : settling id (s'.ctl t) = true) :
    Claims (code some prio) held s t (.semLock id) := by
  obtain ⟨p', hp', hrest, hph⟩ := settling_iff.mp h
  have hheld := settling_held hrest hph
  cases hp : s.ctl t with
  | awake p =>
    rw [claims_awake hp]
    obtain ⟨_, hrun, hpoint⟩ | ⟨q, q', hq, hq', hr, _⟩ := step_cases hs
    · rw [hp, hp', Ctl.point_awake, Ctl.point_awake] at hpoint
      obtain rfl | hnext := hpoint
      · exact hheld
      · rw [hp, Ctl.point_awake] at hrun
        obtain heq | ⟨_, _, hret⟩ | hgiven := next_phase id hnext
        · rw [heq] at hph
          refine settling_held ?_ hph
          rw [← Bool.not_eq_true]
          intro hrest
          cases p <;> first | exact hrun _ rfl | cases hrest
        · simp [hrest] at hret
        · simp [phase_given hgiven] at hrest
    · rw [hp] at hq
      rw [hp'] at hq'
      cases hq
      cases hq'
      obtain heq | ⟨j, _, rfl, _⟩ | ⟨j, drained, _, rfl⟩ := hr.held_eq
      · rwa [← heq]
      · cases hheld
      · cases hheld
  | asleep p n =>
    -- waking up leads back into the loops
    have hw := hs.wakes hp
    cases p <;> simp only [code, Instr.Wakes] at hw
    all_goals
      obtain ⟨_, r, _, rfl⟩ := hw
      simp only [Function.update_self, Ctl.awake.injEq] at hp'
      subst hp'
      obtain ⟨error, hph | hph⟩ := hph <;> cases hph

/-- A step of a thread that does not claim `sem_lock` changes nothing in flight. -/
theorem inFlight_outside (hs : Step (code some prio) t s s')
    (hno : ¬ Claims (code some prio) held s t (.semLock id)) :
    inFlight id (⟨s, t, s'⟩ :: tr) s' = inFlight id tr s := by
  have hset' : settling id (s'.ctl t) = false := by
    rw [← Bool.not_eq_true]
    exact fun h => hno (settling_step hs h)
  have hset : settling id (s.ctl t) = false := by
    rw [← Bool.not_eq_true]
    intro h
    obtain ⟨p, hp, hrest, hph⟩ := settling_iff.mp h
    exact hno (claims_iff.mpr ⟨p, hp, settling_held hrest hph⟩)
  obtain heq | ⟨hn, hown⟩ | ⟨hclaim, _⟩ := (guarded (.semLock id)).owner_step hs
  · unfold inFlight
    rw [heq]
    split
    · rename_i u _
      by_cases hu : u = t
      · simp [hu, hset, hset']
      · rw [hs.ctl_other hu, callTokens_other (show (⟨s, t, s'⟩ : SemTransition θ ι).thread ≠ u from Ne.symm hu)]
    · rfl
  · simp [inFlight, hn, hown, hset']
  · exact absurd hclaim hno

/-- Being in the critical section, a thread is not outside the library. -/
theorem not_calls_of_claims (h : Claims (code some prio) held s t lock) : ¬ Calls t ⟨s, t, s'⟩ := by
  rintro ⟨_, hat⟩
  obtain ⟨p, hp, hheld⟩ := claims_iff.mp h
  obtain ⟨q, hq, hrest⟩ := atRest_iff.mp hat
  have hpq : s.ctl t = .awake q := hq
  rw [hp] at hpq
  cases hpq
  rw [held_resting hrest] at hheld
  cases hheld

/-- Inside the critical section the tokens moved are in flight. -/
theorem balance_inside (hr : Run (code some prio) Initial tr s) (hs : Step (code some prio) t s s')
    (hclaim : Claims (code some prio) held s t (.semLock id)) (hown : s'.owner (.semLock id) = some t)
    (hc : Charged (s.mem.sem id).isMutex (callTokens t id tr) (excused t id tr) (phase id (s.ctl t).point))
    (hc' : Charged (s'.mem.sem id).isMutex (callTokens t id (⟨s, t, s'⟩ :: tr))
      (excused t id (⟨s, t, s'⟩ :: tr)) (phase id (s'.ctl t).point)) :
    inFlight id (⟨s, t, s'⟩ :: tr) s' =
      inFlight id tr s + ((s'.mem.sem id).tokenCount - (s.mem.sem id).tokenCount) := by
  have howned := (guarded (.semLock id)).owned (fun s hs => outside_owned s hs.outside) hr t hclaim
  have hcall : ¬ Calls t ⟨s, t, s'⟩ := not_calls_of_claims hclaim
  have hcons : callTokens t id (⟨s, t, s'⟩ :: tr) = callTokens t id tr + tokensAdded t id ⟨s, t, s'⟩ :=
    callTokens_cons hcall
  rw [inFlight_of_claims howned hclaim hc]
  have hadd : tokensAdded t id ⟨s, t, s'⟩ = (s'.mem.sem id).tokenCount - (s.mem.sem id).tokenCount := by
    simp [tokensAdded]
  rw [← hadd, ← hcons]
  by_cases hclaim' : Claims (code some prio) held s' t (.semLock id)
  · exact inFlight_of_claims hown hclaim' hc'
  · -- the lock has been forgotten, by a call that moves no token
    have hf : Forgets (code some prio) held t (.semLock id) ⟨s, t, s'⟩ := ⟨rfl, .inl hclaim, hclaim', hown⟩
    obtain ⟨p, block, c, p', _, hi, hb, hp', hin, hout⟩ := hf.block (guarded _) hs
    have hp' : s'.ctl t = .awake p' := hp'
    have hbefore : phase id p' = .before ∧ settling id (.awake p') = false := by
      obtain heq | ⟨j, _, rfl, _⟩ | ⟨j, drained, _, rfl⟩ := (block_runs hi hb).held_eq
      · exact absurd (heq ▸ hin) hout
      · exact ⟨rfl, rfl⟩
      · exact ⟨rfl, rfl⟩
    rw [hp', Ctl.point_awake, hbefore.1] at hc'
    rw [hc'.1]
    simp [inFlight, hown, hp', hbefore.2]

/-- On leaving the critical section the tokens moved are counted. -/
theorem balance_leaving (hr : Run (code some prio) Initial tr s) (hs : Step (code some prio) t s s')
    (hclaim : Claims (code some prio) held s t (.semLock id)) (hn : s'.owner (.semLock id) = none)
    (hplain : ¬ (s.mem.sem id).isMutex) (hex : excused t id tr = wasFlushed t id tr)
    (hc : Charged (s.mem.sem id).isMutex (callTokens t id tr) (excused t id tr) (phase id (s.ctl t).point)) :
    (gives id (⟨s, t, s'⟩ :: tr) : Int) - takes id (⟨s, t, s'⟩ :: tr) =
      gives id tr - takes id tr + callTokens t id tr := by
  have howned := (guarded (.semLock id)).owned (fun s hs => outside_owned s hs.outside) hr t hclaim
  have hrel : Releases (code some prio) (.semLock id) ⟨s, t, s'⟩ :=
    hs.releases (by rw [howned]; exact Option.some_ne_none t) hn
  have hphase : ∀ p, s.ctl t = .awake p → phase id p = .before → callTokens t id tr = 0 := by
    intro p hp hph
    rw [hp, Ctl.point_awake, hph] at hc
    exact hc.1
  obtain ⟨maxWait, error, hp⟩ | ⟨error, hp⟩ | ⟨p, hp, hph⟩ := releases_phase hrel
  · have hp : s.ctl t = .awake (.takeUnlock maxWait id error) := hp
    have hgive : gives id (⟨s, t, s'⟩ :: tr) = gives id tr := by simp [gives, returnsGive, hp]
    have htake : takes id (⟨s, t, s'⟩ :: tr) =
        takes id tr + if error = .ok ∧ wasFlushed t id tr = false then 1 else 0 := by
      cases error <;> simp [takes, returnsTake, hp]
    rw [hp, Ctl.point_awake, hex] at hc
    simp only [phase, if_true, Charged] at hc
    rw [hgive, htake]
    obtain ⟨he, htok, hfl⟩ | ⟨he, htok, hfl⟩ | ⟨he, htok⟩ := hc
    · rw [if_pos ⟨he, hfl⟩, htok]
      omega
    · rw [if_neg (by simp [hfl]), htok]
      omega
    · rw [if_neg (by simp [he]), htok]
      omega
  · have hp : s.ctl t = .awake (.giveUnlock id error) := hp
    have hgive : gives id (⟨s, t, s'⟩ :: tr) = gives id tr + if error = .ok then 1 else 0 := by
      cases error <;> simp [gives, returnsGive, hp]
    have htake : takes id (⟨s, t, s'⟩ :: tr) = takes id tr := by simp [takes, returnsTake, hp]
    rw [hp, Ctl.point_awake] at hc
    simp only [phase, if_true, Charged] at hc
    rw [hgive, htake]
    by_cases he : error = .ok
    · rw [if_pos he] at hc ⊢
      rw [hc hplain]
      omega
    · rw [if_neg he] at hc ⊢
      rw [hc]
      omega
  · have hp : s.ctl t = .awake p := hp
    have hg : returnsGive id ⟨s, t, s'⟩ = false := by
      rw [← Bool.not_eq_true]
      intro h
      have hq : s.ctl t = .awake (.giveUnlock id .ok) := of_decide_eq_true h
      rw [hp] at hq
      cases hq
      simp [phase] at hph
    have ht : returnsTake id ⟨s, t, s'⟩ = false := by
      rw [← Bool.not_eq_true]
      intro h
      simp only [returnsTake, hp] at h
      split at h
      · rename_i heq
        cases heq
        simp [phase, of_decide_eq_true h] at hph
      · cases h
    obtain ⟨hgive, htake⟩ := counts_cons tr hg ht
    rw [hgive, htake, hphase p hp hph]
    omega

/-- A mutex that a call has re-entered is still one. -/
theorem reenters_mutex (h : Run (code some prio) Initial tr s) {x : SemTransition θ ι} (hx : x ∈ tr)
    (hre : reenters t id x = true) : s.mem.block id ≠ .fresh ∧ (s.mem.sem id).isMutex := by
  have hs := h.steps x hx
  obtain ⟨later, before, rfl⟩ := List.append_of_mem hx
  have hpre : x.pre.mem.block id ≠ .fresh ∧ (x.pre.mem.sem id).isMutex := by
    unfold reenters at hre
    split at hre
    · rename_i maxWait j hp
      obtain ⟨_, rfl, hm, _⟩ := of_decide_eq_true hre
      exact ⟨(linked h.before).touched t j (by rw [hp]; rfl), hm⟩
    · cases hre
  have hstep : ∀ {u : θ} {s s' : SemState θ ι}, Step (code some prio) u s s' →
      s.mem.block id ≠ .fresh ∧ (s.mem.sem id).isMutex → s'.mem.block id ≠ .fresh ∧ (s'.mem.sem id).isMutex :=
    fun hs ⟨hb, hm⟩ => ⟨block_step hs hb, (mutex_step hs hb).mpr hm⟩
  exact h.after (fun s => s.mem.block id ≠ .fresh ∧ (s.mem.sem id).isMutex) (hstep hs hpre)
    fun y _ hy hpre => hstep hy hpre

theorem excused_plain (h : Run (code some prio) Initial tr s) (hplain : ¬ (s.mem.sem id).isMutex) :
    excused t id tr = wasFlushed t id tr := by
  have hmem : ∀ x ∈ sinceCall t tr, reenters t id x = false := by
    intro x hx
    rw [← Bool.not_eq_true]
    exact fun hre => hplain (reenters_mutex h ((List.takeWhile_prefix _).subset hx) hre).2
  rw [excused, wasFlushed, Bool.eq_iff_iff, List.any_eq_true, List.any_eq_true]
  refine exists_congr fun x => and_congr_right fun hx => ?_
  rw [hmem x hx, Bool.false_or]

/-- A call returns from a semaphore that has been made, and leaves its lock free. -/
theorem returns_free (hl : Linked s) (hs : Step (code some prio) t s s')
    (h : returnsGive id ⟨s, t, s'⟩ = true ∨ returnsTake id ⟨s, t, s'⟩ = true) :
    s.mem.block id ≠ .fresh ∧ s'.owner (.semLock id) = none := by
  obtain ⟨⟨p, hp, hi⟩, hclaim⟩ := returns_releases prio h
  obtain ⟨q, hq, hheld⟩ := claims_iff.mp hclaim
  have hq : s.ctl t = .awake q := hq
  refine ⟨hl.touched t id (by rw [hq]; exact touches_of_held (.inl hheld)), ?_⟩
  obtain h | h := h
  · have hp : s.ctl t = .awake (.giveUnlock id .ok) := of_decide_eq_true h
    have hd := hs.does hp
    simp only [code, Instr.Does] at hd
    rw [hd]
    exact Function.update_self ..
  · simp only [returnsTake] at h
    split at h
    · rename_i maxWait j hp
      have hj : j = id := of_decide_eq_true h
      subst hj
      have hd := hs.does hp
      simp only [code, Instr.Does] at hd
      rw [hd]
      exact Function.update_self ..
    · cases h

theorem counts_of_not_returns (tr : List (SemTransition θ ι))
    (h : ¬ (returnsGive id x = true ∨ returnsTake id x = true)) :
    gives id (x :: tr) = gives id tr ∧ takes id (x :: tr) = takes id tr := by
  rw [not_or, Bool.not_eq_true, Bool.not_eq_true] at h
  exact counts_cons tr h.1 h.2

/-- A semaphore not made yet has no calls behind it. -/
theorem counts_fresh (h : Run (code some prio) Initial tr s) (hf : s.mem.block id = .fresh) :
    gives id tr = 0 ∧ takes id tr = 0 := by
  induction h with
  | start _ => exact ⟨rfl, rfl⟩
  | @step tr s t s' hr hs ih =>
    have hf' : s.mem.block id = .fresh := by
      by_contra hb
      exact block_step hs hb hf
    obtain ⟨hg, ht⟩ := counts_of_not_returns tr fun h => (returns_free (linked hr) hs h).1 hf'
    rw [hg, ht]
    exact ih hf'

omit [DecidableEq θ] in
theorem settling_touches (hl : Linked s) (h : settling id (s.ctl t) = true) : s.mem.block id ≠ .fresh := by
  obtain ⟨p, hp, hrest, hph⟩ := settling_iff.mp h
  exact hl.touched t id (by rw [hp]; exact touches_of_held (.inl (settling_held hrest hph)))

/-- The count of a semaphore that is no mutex: what it was made with, what was given, less
what was taken. -/
theorem balance (h : Run (code some prio) Initial tr s) (hu : ∀ x ∈ tr, callsDelete x = false)
    (hno : ∀ x ∈ tr, noWaitExpires x = false) (hmax : ∀ x ∈ tr, givesMax x = false)
    (hb : s.mem.block id ≠ .fresh) (hplain : ¬ (s.mem.sem id).isMutex) :
    (s.mem.sem id).tokenCount = initialCount id tr + gives id tr - takes id tr + inFlight id tr s := by
  induction h with
  | start hs => exact absurd (hs.fresh id) hb
  | @step tr s t s' hr hs ih =>
    have hu' : ∀ x ∈ tr, callsDelete x = false := fun x hx => hu x (List.mem_cons_of_mem _ hx)
    have hno' : ∀ x ∈ tr, noWaitExpires x = false := fun x hx => hno x (List.mem_cons_of_mem _ hx)
    have hmax' : ∀ x ∈ tr, givesMax x = false := fun x hx => hmax x (List.mem_cons_of_mem _ hx)
    have hl := linked hr
    by_cases hf : s.mem.block id = .fresh
    · -- the semaphore has just been made
      have hinit : initialCount id (⟨s, t, s'⟩ :: tr) = (s'.mem.sem id).tokenCount := by
        simp [initialCount, hf, hb]
      obtain ⟨hg, ht⟩ := counts_of_not_returns tr fun h => (returns_free hl hs h).1 hf
      obtain ⟨hg0, ht0⟩ := counts_fresh hr hf
      have hflight : inFlight id (⟨s, t, s'⟩ :: tr) s' = 0 := by
        refine inFlight_of_unclaimed fun u _ => ?_
        rw [← Bool.not_eq_true]
        intro hset
        by_cases hu : u = t
        · subst hu
          obtain ⟨p, hp, hheld⟩ := claims_iff.mp (settling_step hs hset)
          exact hl.touched u id (by rw [hp]; exact touches_of_held (.inl hheld)) hf
        · rw [hs.ctl_other hu] at hset
          exact settling_touches hl hset hf
      rw [hinit, hg, ht, hg0, ht0, hflight]
      omega
    · have hplain' : ¬ (s.mem.sem id).isMutex := fun hm => hplain ((mutex_step hs hf).mpr hm)
      have hold := ih hu' hno' hmax' hf hplain'
      have hinit : initialCount id (⟨s, t, s'⟩ :: tr) = initialCount id tr := by simp [initialCount, hf]
      have hc := charged hr hu' hno' hmax' t id
      by_cases hclaim : Claims (code some prio) held s t (.semLock id)
      · have howned := (guarded (.semLock id)).owned (fun s hs => outside_owned s hs.outside) hr t hclaim
        obtain heq | ⟨hn, _⟩ | ⟨_, hn⟩ := (guarded (.semLock id)).owner_step hs
        · have hown : s'.owner (.semLock id) = some t := heq.trans howned
          have hinside := balance_inside hr hs hclaim hown hc (charged (hr.step hs) hu hno hmax t id)
          obtain ⟨hg, ht⟩ := counts_of_not_returns tr fun h => by
            have := (returns_free hl hs h).2
            rw [hown] at this
            cases this
          rw [hinit, hg, ht, hinside]
          omega
        · rw [howned] at hn
          cases hn
        · have hleave := balance_leaving hr hs hclaim hn hplain' (excused_plain hr hplain') hc
          have hbefore := inFlight_of_claims howned hclaim hc
          have hafter : inFlight id (⟨s, t, s'⟩ :: tr) s' = 0 := by simp [inFlight, hn]
          have htok : (s'.mem.sem id).tokenCount = (s.mem.sem id).tokenCount := by
            obtain ⟨hm, _⟩ | ⟨_, _, _, _, _, ho⟩ := step_cases hs
            · rw [hm]
            · rw [ho, howned] at hn
              cases hn
          rw [hinit, hafter, htok]
          omega
      · have htok := tokens_unclaimed hs hf hclaim
        have hcount : ¬ (returnsGive id ⟨s, t, s'⟩ = true ∨ returnsTake id ⟨s, t, s'⟩ = true) :=
          fun h => hclaim (returns_releases prio h).2
        obtain ⟨hg, ht⟩ := counts_of_not_returns tr hcount
        rw [htok, hinit, hg, ht, inFlight_outside hs hclaim, hold]

/-- The step in which a creator makes a semaphore. -/
def Creates (id : ι) (args : Create) (x : SemTransition θ ι) : Prop :=
  x.pre.mem.block id = .fresh ∧ x.post.mem.block id = .live ∧ args.block θ = some (x.post.mem.sem id)

instance (id : ι) (args : Create) (x : SemTransition θ ι) : Decidable (Creates id args x) :=
  inferInstanceAs (Decidable (_ ∧ _ ∧ _))

/-- A semaphore is made once. -/
theorem initialCount_of_creates (h : Run (code some prio) Initial tr s) (hx : x ∈ tr) {args : Create}
    (hc : Creates id args x) : s.mem.block id ≠ .fresh ∧ initialCount id tr = (x.post.mem.sem id).tokenCount := by
  induction h with
  | start _ => cases hx
  | @step tr s t s' hr hs ih =>
    obtain rfl | hx := List.mem_cons.mp hx
    · have hb : s'.mem.block id ≠ .fresh := by
        rw [show s'.mem.block id = .live from hc.2.1]
        exact nofun
      exact ⟨hb, by simp [initialCount, show s.mem.block id = .fresh from hc.1, hb]⟩
    · obtain ⟨hb, hinit⟩ := ih hx
      exact ⟨block_step hs hb, by simp [initialCount, hb, hinit]⟩

theorem made_mutex (h : Run (code some prio) Initial tr s) (hx : x ∈ tr) {args : Create}
    (hc : Creates id args x) : (s.mem.sem id).isMutex ↔ ∃ opt, args = .mutex opt := by
  obtain ⟨later, before, rfl⟩ := List.append_of_mem hx
  refine (h.after (fun s => s.mem.block id ≠ .fresh ∧ ((s.mem.sem id).isMutex ↔ ∃ opt, args = .mutex opt))
    ⟨?_, (Create.block_created hc.2.2).kind⟩ ?_).2
  · rw [hc.2.1]
    exact nofun
  · rintro y _ hy ⟨hb, hm⟩
    exact ⟨block_step hy hb, (mutex_step hy hb).trans hm⟩

/-- In a run without deletions in which no `NO_WAIT` call gives up and no count comes round,
a call of `semTake` that returns OK has taken one token, or has re-entered a mutex, or has
been flushed, and one that returns ERROR has moved none; and a counting semaphore on which no
call is about to return has its initial count plus the calls of `semGive` that returned OK
less the calls of `semTake` that returned OK without being flushed. -/
theorem takes_accounted (h : Run (code some prio) Initial tr s) (hu : ∀ x ∈ tr, callsDelete x = false)
    (hno : ∀ x ∈ tr, noWaitExpires x = false) (hmax : ∀ x ∈ tr, givesMax x = false) :
    (∀ t maxWait id error, s.ctl t = .awake (.returned (.take maxWait) id error) →
      (error = .ok → callTokens t id tr = -1 ∨ callTokens t id tr = 0 ∧
        ∃ x ∈ sinceCall t tr, reenters t id x = true ∨ flushed t id x = true) ∧
      (error ≠ .ok → callTokens t id tr = 0)) ∧
    ∀ id opt n, (∃ x ∈ tr, Creates id (.counting opt n) x) → (∀ u, settling id (s.ctl u) = false) →
      (s.mem.sem id).tokenCount = n + gives id tr - takes id tr := by
  refine ⟨fun t maxWait id error hret => ?_, fun id opt n ⟨x, hx, hcreate⟩ hquiet => ?_⟩
  · have hc := charged h hu hno hmax t id
    rw [hret, Ctl.point_awake] at hc
    simp only [phase, if_true, Charged] at hc
    obtain ⟨he, htok, _⟩ | ⟨he, htok, hex⟩ | ⟨he, htok⟩ := hc
    · exact ⟨fun _ => .inl htok, fun hne => absurd he hne⟩
    · refine ⟨fun _ => .inr ⟨htok, ?_⟩, fun hne => absurd he hne⟩
      simpa [excused] using hex
    · exact ⟨fun h => absurd h he, fun _ => htok⟩
  · obtain ⟨hb, hinit⟩ := initialCount_of_creates h hx hcreate
    have hplain : ¬ (s.mem.sem id).isMutex := by
      rw [made_mutex h hx hcreate]
      rintro ⟨_, heq⟩
      cases heq
    have hn : (x.post.mem.sem id).tokenCount = n := by
      have hv := hcreate.2.2
      simp only [Create.block, semCCreate] at hv
      split at hv
      · cases hv
      · rw [← Option.some.inj hv]
        rfl
    rw [balance h hu hno hmax hb hplain, hinit, hn, inFlight_of_unclaimed fun u _ => hquiet u, Int.add_zero]

end

/-- A `NO_WAIT` call on a counting semaphore without tokens, which times out. -/
def hopelessTake : List (ℕ × Input (Choice ℕ)) :=
  makes 0 7 (.counting 0 0) :: goesOn 0 3 ++ calls 0 (.take noWait) 7 :: goesOn 0 7 ++
    timesOut 0 :: goesOn 0 3

/-- That call returns OK, without a token and without having been flushed. -/
theorem hopeless_take_returns_ok :
    ¬ ∀ (tr : List (SemTransition ℕ ℕ)) (s : SemState ℕ ℕ) (t : ℕ) (maxWait : Int) (id : ℕ),
      Run (code some fun _ => 0) Initial tr s → (∀ x ∈ tr, callsDelete x = false) →
      s.ctl t = .awake (.returned (.take maxWait) id .ok) →
      callTokens t id tr = -1 ∨ callTokens t id tr = 0 ∧
        ∃ x ∈ sinceCall t tr, reenters t id x = true ∨ flushed t id x = true := by
  intro hclaim
  obtain ⟨tr, s, hr, hs⟩ := run_of_check (code some fun _ => 0) hopelessTake (fun tr s =>
      (∀ x ∈ tr, callsDelete x = false) ∧ s.ctl 0 = .awake (.returned (.take noWait) 7 .ok) ∧
      callTokens 0 7 tr = 0 ∧ excused 0 7 tr = false)
    boot_initial (by decide)
  obtain ⟨hu, hret, htok, hnone⟩ := of_decide_eq_true hs
  obtain h | ⟨_, x, hx, hex⟩ := hclaim tr s 0 noWait 7 hr hu hret
  · rw [htok] at h
    cases h
  · have hsome : excused 0 7 tr = true := List.any_eq_true.mpr ⟨x, hx, by simpa using hex⟩
    rw [hnone] at hsome
    cases hsome

/-- Two calls on a counting semaphore with one token: the first takes it, the second
gives up after a wait. -/
def takeTwice : List (Fin 2 × Input (Choice ℕ)) :=
  makes 0 7 (.counting 0 1) :: goesOn 0 3 ++ calls 0 (.take noWait) 7 :: goesOn 0 8 ++
    calls 1 (.take 5) 7 :: goesOn 1 7 ++ timesOut 1 :: goesOn 1 3

theorem takeTwice_accounted :
    ∃ (tr : List (SemTransition (Fin 2) ℕ)) (s : SemState (Fin 2) ℕ),
      callTokens 1 7 tr = 0 ∧ (s.mem.sem 7).tokenCount = 1 + gives 7 tr - takes 7 tr := by
  obtain ⟨tr, s, hr, hs⟩ := run_of_check (code some fun _ => 0) takeTwice (fun tr s =>
      (∀ x ∈ tr, callsDelete x = false) ∧ (∀ x ∈ tr, noWaitExpires x = false) ∧
      (∀ x ∈ tr, givesMax x = false) ∧ s.ctl 1 = .awake (.returned (.take 5) 7 .objTimeout) ∧ (∃ x ∈ tr, Creates 7 (.counting 0 1) x) ∧
      ∀ u, settling 7 (s.ctl u) = false)
    boot_initial (by decide)
  obtain ⟨hu, hno, hmax, hret, hmade, hquiet⟩ := of_decide_eq_true hs
  obtain ⟨hcalls, hcount⟩ := takes_accounted hr hu hno hmax
  exact ⟨tr, s, (hcalls 1 5 7 .objTimeout hret).2 nofun, hcount 7 0 1 hmade hquiet⟩

end V2lin.Sem
