import V2lin.Sem.Tokens

/-! Who owns a mutex.

The token, the owner and the recursion level of a mutex say the same, as long as no task
that polls for the token takes it after the semaphore has been killed: that task leaves
with an error and becomes no owner. -/
namespace V2lin.Sem
open Threads V2lin.Arith V2lin.Task

section
variable {θ ι : Type} [DecidableEq θ] [DecidableEq ι]

/-- The step in which a task that polls takes a token of a killed semaphore. -/
def strayTake (x : SemTransition θ ι) : Bool :=
  match x.pre.ctl x.thread with
  | .awake (.takeAgain _ id _) =>
    (x.pre.mem.sem id).sendType = .killd ∧ (x.post.mem.sem id).tokenCount < (x.pre.mem.sem id).tokenCount
  | _ => false

/-- The step in which the owner of a mutex takes it once more at a level of `INT_MAX`. -/
def reentersMax (x : SemTransition θ ι) : Bool :=
  match x.pre.ctl x.thread with
  | .awake (.takeStart _ id) =>
    (x.pre.mem.sem id).isMutex ∧ (x.pre.mem.sem id).currentOwner = some x.thread ∧
      (x.pre.mem.sem id).recursionLevel = intMax
  | _ => false

/-- A mutex is free with its token, or has an owner and no token. -/
def Consistent (v : V2lsem θ) : Prop :=
  (v.currentOwner = none ∧ v.tokenCount = 1 ∧ v.recursionLevel = 0) ∨
    ∃ t, v.currentOwner = some t ∧ v.tokenCount = 0 ∧ 1 ≤ v.recursionLevel

/-- The semaphore that a flush has been admitted to and not marked yet. -/
def flushing : Pc ι → Option ι
  | .flushTaskLock id | .flushTest id | .flushSmdelLock id | .flushMark id => some id
  | _ => none

variable {t : θ} {id : ι} {tr : List (SemTransition θ ι)} {prio : θ → Int} {p p' : Pc ι} {s s' : SemState θ ι}

omit [DecidableEq ι] in
theorem reentersMax_eq_false {x : SemTransition θ ι} (h : reentersMax x = false) {maxWait : Int}
    (hp : x.pre.ctl x.thread = .awake (.takeStart maxWait id)) (hm : (x.pre.mem.sem id).isMutex)
    (hown : (x.pre.mem.sem id).currentOwner = some x.thread) : (x.pre.mem.sem id).recursionLevel ≠ intMax := by
  simp only [reentersMax, hp, decide_eq_false_iff_not, not_and] at h
  exact h hm hown

theorem flushing_next (h : (code some prio t p).Next p') (hf : flushing p' = some id) : flushing p = some id := by
  cases p
  case findUnlock op j found =>
    cases h
    cases found
    · cases hf
    · cases op <;> cases hf
  all_goals first
    | exact False.elim h
    | (cases h; exact hf)
    | (cases h; cases hf)
    | (obtain ⟨r, rfl⟩ := h; cases hf)

theorem flushing_runs {m m' : Mem θ ι} (h : Runs some prio t p m m' p') (hf : flushing p' = some id) :
    flushing p = some id ∨ ¬ (m.sem id).isMutex ∧ m' = m := by
  cases h with
  | flushAdmitted hm =>
    cases hf
    exact .inr ⟨hm, rfl⟩
  | flushTaskLocked => exact .inl hf
  | flushSome => exact .inl hf
  | left => split at hf <;> cases hf
  | gave => split at hf <;> cases hf
  | _ => cases hf

omit [DecidableEq θ] [DecidableEq ι] in
theorem touches_flushing (h : flushing p = some id) : touches p = some id := by
  cases p <;> first | exact h | cases h

/-- The state of the mutexes. -/
structure Mutexes (s : SemState θ ι) : Prop where
  flushing : ∀ t id, flushing (s.ctl t).point = some id → ¬ (s.mem.sem id).isMutex
  unflushed : ∀ id, s.mem.block id ≠ .fresh → (s.mem.sem id).isMutex → (s.mem.sem id).sendType ≠ .flush
  consistent : ∀ id, s.mem.block id ≠ .fresh → (s.mem.sem id).isMutex → Consistent (s.mem.sem id)
  waiting : ∀ t id, pendsOn (s.ctl t).point = some id → (s.mem.sem id).isMutex →
    (s.mem.sem id).currentOwner ≠ some t

/-- What a step does to a mutex. -/
inductive MutexStep (t : θ) (id : ι) (s s' : SemState θ ι) : Prop where
  | same : (s'.mem.sem id).tokenCount = (s.mem.sem id).tokenCount →
      (s'.mem.sem id).currentOwner = (s.mem.sem id).currentOwner →
      (s'.mem.sem id).recursionLevel = (s.mem.sem id).recursionLevel → MutexStep t id s s'
  | reentered (maxWait : Int) : s.ctl t = .awake (.takeStart maxWait id) → s'.ctl t = .awake (.takeEnd maxWait id .ok) →
      (s.mem.sem id).currentOwner = some t →
      s'.mem.sem id = {s.mem.sem id with recursionLevel := (s.mem.sem id).recursionLevel + 1} →
      MutexStep t id s s'
  | acquired (maxWait : Int) : s'.ctl t = .awake (.takeEnd maxWait id .ok) → (s.mem.sem id).currentOwner = none →
      (s'.mem.sem id).currentOwner = some t → (s'.mem.sem id).tokenCount = 0 →
      (s'.mem.sem id).recursionLevel = 1 → MutexStep t id s s'
  | gave (p : Pc ι) : s.ctl t = .awake (.giveStart id) → s'.ctl t = .awake p → phase id p = .gave .ok →
      p.resting = false → (s.mem.sem id).currentOwner = some t → (s'.mem.sem id).currentOwner = some t →
      (s'.mem.sem id).tokenCount = 0 → 1 ≤ (s'.mem.sem id).recursionLevel →
      (s'.mem.sem id).recursionLevel = (s.mem.sem id).recursionLevel - 1 → MutexStep t id s s'
  | freed : (s.mem.sem id).currentOwner = some t → (s'.mem.sem id).currentOwner = none →
      (s'.mem.sem id).tokenCount = 1 → (s'.mem.sem id).recursionLevel = 0 → MutexStep t id s s'

theorem mutexStep (hi : Mutexes s) (hs : Step (code some prio) t s s')
    (hno : strayTake ⟨s, t, s'⟩ = false) (hmax : reentersMax ⟨s, t, s'⟩ = false) (hb : s.mem.block id ≠ .fresh)
    (hm : (s.mem.sem id).isMutex) : MutexStep t id s s' := by
  obtain ⟨hmem, _⟩ | ⟨p, p', hp, hp', hr, _⟩ := step_cases hs
  · exact .same (by rw [hmem]) (by rw [hmem]) (by rw [hmem])
  · have hpoint : (s.ctl t).point = p := by rw [hp, Ctl.point_awake]
    obtain ⟨htok, hown, hlevel⟩ | ⟨maxWait, rfl, rfl, _, hown, hsem⟩ |
      ⟨maxWait, rc, hw, rfl, _, hpos, htok, hown, hlevel⟩ | ⟨maxWait, rc, rfl, hst, htok, _, _⟩ |
      ⟨rfl, error, hnext, hg⟩ := hr.owner_cases hb
    · exact .same htok hown hlevel
    · rw [increment_of_ne (reentersMax_eq_false hmax hp hm hown)] at hsem
      exact .reentered maxWait hp hp' hown hsem
    · -- there is a token, so the mutex is free
      obtain ⟨hnone, hone, hzero⟩ | ⟨u, _, hzero, _⟩ := hi.consistent id hb hm
      · rw [if_pos hm, hzero] at hlevel
        have hlevel : (s'.mem.sem id).recursionLevel = 1 := hlevel
        exact .acquired maxWait hp' hnone hown (by omega) hlevel
      · omega
    · -- a mutex is not flushed, so the token would be taken from a killed one
      have hkilled : (s.mem.sem id).sendType = .killd := by
        cases hst' : (s.mem.sem id).sendType with
        | send => exact absurd hst' hst
        | flush => exact absurd hst' (hi.unflushed id hb hm)
        | killd => rfl
      simp only [strayTake, hp, hkilled, true_and, decide_eq_false_iff_not] at hno
      omega
    · by_cases he : error = .ok
      · have hmine : (s.mem.sem id).currentOwner = some t := (hg.allowed.mp he) hm
        obtain ⟨hnone, _⟩ | ⟨u, _, hzero, hpos⟩ := hi.consistent id hb hm
        · rw [hnone] at hmine
          cases hmine
        · by_cases hnested : 1 < (s.mem.sem id).recursionLevel
          · obtain ⟨htok, hlevel, hown⟩ := hg.nested he hnested
            have hgave : phase id p' = .gave .ok ∧ p'.resting = false := by
              obtain ⟨rfl, _⟩ | rfl := hnext
              · exact ⟨by simp [phase], rfl⟩
              · exact ⟨by simp [phase, he], rfl⟩
            exact .gave p' hp hp' hgave.1 hgave.2 hmine (hown.trans hmine) (htok.trans hzero) (by omega) hlevel
          · obtain ⟨htok, hlevel, hown⟩ := hg.last he (by omega)
            rw [hzero] at htok
            exact .freed hmine hown htok hlevel
      · have hsame := hg.refused he
        exact .same (by rw [hsame]) (by rw [hsame]) (by rw [hsame])

omit [DecidableEq θ] in
/-- Whoever owns the mutex after a step owned it before, or is the thread that moved and
has acquired it. -/
theorem MutexStep.owner {u : θ} (h : MutexStep t id s s') (hu : (s'.mem.sem id).currentOwner = some u) :
    (s.mem.sem id).currentOwner = some u ∨
      u = t ∧ (s.mem.sem id).currentOwner = none ∧ (s'.mem.sem id).recursionLevel = 1 ∧
        ∃ maxWait, s'.ctl t = .awake (.takeEnd maxWait id .ok) := by
  cases h with
  | same _ hown => exact .inl (hown ▸ hu)
  | reentered _ _ _ hown hsem =>
    rw [hsem] at hu
    exact .inl hu
  | acquired maxWait hp' hnone hown _ hlevel =>
    rw [hown] at hu
    exact .inr ⟨(Option.some.inj hu).symm, hnone, hlevel, maxWait, hp'⟩
  | gave _ _ _ _ _ hown hown' =>
    rw [hown'] at hu
    rw [hown, hu]
    exact .inl rfl
  | freed _ hown =>
    rw [hown] at hu
    cases hu

/-- Only a task that does not own the mutex pends on it. -/
theorem Runs.pended_not_owner {m m' : Mem θ ι} (h : Runs some prio t p m m' p') (hin : pendsOn p' = some id)
    (hout : pendsOn p ≠ some id) : ¬ ((m.sem id).isMutex ∧ (m.sem id).currentOwner = some t) := by
  cases h with
  | pended hno =>
    cases hin
    exact hno
  | sleeps hw =>
    cases hin
    exact absurd hw.pended hout
  | polls hw =>
    cases hin
    exact absurd hw.pended hout
  | left => split at hin <;> cases hin
  | gave => split at hin <;> cases hin
  | _ => cases hin

/-- A semaphore that comes into use in a step is as its creator made it. -/
theorem born_step (hl : Linked s) (hs : Step (code some prio) t s s') (hf : s.mem.block id = .fresh)
    (hb : s'.mem.block id ≠ .fresh) : ∃ args, Created args (s'.mem.sem id) := by
  obtain ⟨hm, _⟩ | ⟨p, p', hp, _, hr, _⟩ := step_cases hs
  · rw [hm] at hb
    exact absurd hf hb
  · have hpoint : (s.ctl t).point = p := by rw [hp, Ctl.point_awake]
    obtain ⟨args, v, hv, hsem, _⟩ := hr.born hf hb fun ht => hl.touched t id (hpoint.symm ▸ ht) hf
    exact ⟨args, hsem ▸ Create.block_created hv⟩

theorem mutexes_step (hl : Linked s) (hi : Mutexes s) (hs : Step (code some prio) t s s')
    (hno : strayTake ⟨s, t, s'⟩ = false) (hmax : reentersMax ⟨s, t, s'⟩ = false) : Mutexes s' := by
  have hmutex : ∀ id, s.mem.block id ≠ .fresh → ((s'.mem.sem id).isMutex ↔ (s.mem.sem id).isMutex) :=
    fun id hb => mutex_step hs hb
  have hl' := linked_step hl hs
  refine ⟨?_, ?_, ?_, ?_⟩
  · intro u id hf
    by_cases hold : flushing (s.ctl u).point = some id
    · rw [hmutex id (hl.touched u id (touches_flushing hold))]
      exact hi.flushing u id hold
    · by_cases hu : u = t
      · subst hu
        obtain ⟨_, _, heq | hnext⟩ | ⟨p, p', hp, hp', hr, _⟩ := step_cases hs
        · rw [heq] at hf
          exact absurd hf hold
        · exact absurd (flushing_next hnext hf) hold
        · rw [hp, Ctl.point_awake] at hold
          rw [hp', Ctl.point_awake] at hf
          obtain hflush | ⟨hm, hmem⟩ := flushing_runs hr hf
          · exact absurd hflush hold
          · rwa [hmem]
      · rw [hs.ctl_other hu] at hf
        exact absurd hf hold
  · intro id hb hm
    by_cases hf : s.mem.block id = .fresh
    · obtain ⟨args, hc⟩ := born_step hl hs hf hb
      rw [hc.sendType]
      exact nofun
    · have hm := (hmutex id hf).mp hm
      have hold := hi.unflushed id hf hm
      obtain ⟨hmem, _⟩ | ⟨p, p', hp, _, hr, _⟩ := step_cases hs
      · rwa [hmem]
      · obtain heq | ⟨_, _, _, heq⟩ | ⟨rfl, _⟩ | ⟨_, heq⟩ := hr.sendType_cases hf
        · rwa [heq]
        · rw [heq]
          exact nofun
        · exact absurd hm (hi.flushing t id (by rw [hp]; rfl))
        · rw [heq]
          exact nofun
  · intro id hb hm
    by_cases hf : s.mem.block id = .fresh
    · obtain ⟨args, hc⟩ := born_step hl hs hf hb
      exact .inl ⟨hc.owner, hc.token hm, hc.level⟩
    · have hm := (hmutex id hf).mp hm
      have hold := hi.consistent id hf hm
      cases mutexStep hi hs hno hmax hf hm with
      | same htok hown hlevel =>
        unfold Consistent
        rwa [htok, hown, hlevel]
      | reentered _ _ _ hown hsem =>
        obtain ⟨hnone, _⟩ | ⟨u, hu, hzero, hpos⟩ := hold
        · rw [hnone] at hown
          cases hown
        · rw [hsem]
          exact .inr ⟨u, hu, hzero, by dsimp only; omega⟩
      | acquired _ _ _ hown htok hlevel => exact .inr ⟨t, hown, htok, by omega⟩
      | gave _ _ _ _ _ _ hown htok hlevel _ => exact .inr ⟨t, hown, htok, hlevel⟩
      | freed _ hown htok hlevel => exact .inl ⟨hown, htok, hlevel⟩
  · intro u id hin hm hown
    have hb' := hl'.touched u id (touched_of_pended hin)
    by_cases hf : s.mem.block id = .fresh
    · obtain ⟨args, hc⟩ := born_step hl hs hf hb'
      rw [hc.owner] at hown
      cases hown
    · have hm := (hmutex id hf).mp hm
      obtain hown | ⟨rfl, _, _, maxWait, hp'⟩ := (mutexStep hi hs hno hmax hf hm).owner hown
      · by_cases hold : pendsOn (s.ctl u).point = some id
        · exact hi.waiting u id hold hm hown
        · by_cases hu : u = t
          · subst hu
            obtain ⟨_, _, heq | hnext⟩ | ⟨p, p', hp, hp', hr, _⟩ := step_cases hs
            · rw [heq] at hin
              exact hold hin
            · rw [next_pended hnext] at hin
              exact hold hin
            · rw [hp, Ctl.point_awake] at hold
              rw [hp', Ctl.point_awake] at hin
              exact hr.pended_not_owner hin hold ⟨hm, hown⟩
          · rw [hs.ctl_other hu] at hin
            exact hold hin
      · rw [hp'] at hin
        cases hin

omit [DecidableEq θ] [DecidableEq ι] in
theorem initial_mutexes (s : SemState θ ι) (h : Initial s) : Mutexes s := by
  refine ⟨?_, ?_, ?_, ?_⟩
  · intro t id hf
    rw [h.idle t] at hf
    cases hf
  · exact fun id hb => absurd (h.fresh id) hb
  · exact fun id hb => absurd (h.fresh id) hb
  · intro t id hin
    rw [h.idle t] at hin
    cases hin

theorem mutexes (h : Run (code some prio) Initial tr s) (hno : ∀ x ∈ tr, strayTake x = false)
    (hmax : ∀ x ∈ tr, reentersMax x = false) : Mutexes s :=
  (h.invariant (fun x => strayTake x = false ∧ reentersMax x = false) (fun s => Linked s ∧ Mutexes s)
    (fun s hi => ⟨initial_linked s hi, initial_mutexes s hi⟩)
    (fun _ _ _ hi hs hx => ⟨linked_step hi.1 hs, mutexes_step hi.1 hi.2 hs hx.1 hx.2⟩)
    fun x hx => ⟨hno x hx, hmax x hx⟩).2

/-! ### Levels -/

/-- The calls of `semTake` of thread `t` that have returned OK since it became the owner,
less its calls of `semGive` that have. -/
def level (t : θ) (id : ι) : List (SemTransition θ ι) → Int
  | [] => 0
  | x :: tr =>
    if (x.pre.mem.sem id).currentOwner ≠ some t ∧ (x.post.mem.sem id).currentOwner = some t then 0
    else level t id tr + (if x.thread = t ∧ returnsTake id x then 1 else 0) -
      (if x.thread = t ∧ returnsGive id x then 1 else 0)

/-- What a call is about to add to the level of its thread. -/
def credit (id : ι) (p : Pc ι) : Int :=
  match phase id p with
  | .took .ok => if p.resting then 0 else 1
  | .gave .ok => if p.resting then 0 else -1
  | _ => 0

omit [DecidableEq θ] in
theorem credit_resting (h : p.resting = true) : credit id p = 0 := by
  unfold credit
  split <;> simp [h]

omit [DecidableEq θ] in
theorem credit_before (h : phase id p = .before) : credit id p = 0 := by
  simp [credit, h]

omit [DecidableEq θ] in
/-- Only under `sem_lock` is a call about to add to the level. -/
theorem credit_outside (h : .semLock id ∉ held p) : credit id p = 0 := by
  unfold credit
  split
  · rename_i hph
    obtain hrest | ⟨hheld, _⟩ := phase_took hph
    · rw [if_pos hrest]
    · exact absurd hheld h
  · rename_i hph
    have hheld : p.resting = false → .semLock id ∈ held p := fun hrest => settling_held hrest ⟨_, .inr hph⟩
    split
    · rfl
    · rename_i hrest
      exact absurd (hheld (by simpa using hrest)) h
  · rfl

/-- A block adds to the level of the owner what it adds to the credit of its call. -/
theorem Runs.level_credit {m m' : Mem θ ι} (h : Runs some prio t p m m' p') (hb : m.block id ≠ .fresh)
    (hown : (m.sem id).currentOwner = some t) (hown' : (m'.sem id).currentOwner = some t)
    (hlevel : 1 ≤ (m.sem id).recursionLevel) (hout : pendsOn p ≠ some id)
    (hmax : ∀ maxWait, p = .takeStart maxWait id → (m.sem id).recursionLevel ≠ intMax) :
    (m'.sem id).recursionLevel + credit id p = (m.sem id).recursionLevel + credit id p' := by
  cases h with
  | called _ _ hp => rw [credit_resting hp]; rfl
  | refused hp => rw [credit_resting hp]; rfl
  | created j args hp hf =>
    have hj : id ≠ j := fun hj => hb (hj ▸ hf)
    rw [credit_resting hp]
    simp [hj, credit_before (show phase id (.linkLock j) = .before from rfl)]
  | @reentered m maxWait j hm ho =>
    by_cases hj : j = id
    · subst hj
      simp [credit, phase, Pc.resting, increment_of_ne (hmax maxWait rfl)]
    · simp [Ne.symm hj, credit_before (show phase id (.takeStart maxWait j) = .before from rfl),
        credit_before (show phase id (.takeEnd maxWait j .ok) = .before by simp [phase, hj])]
  | pended =>
    rw [Mem.setSem_congr V2lsem.recursionLevel _ (by simp), Mem.setWaiting_sem]
    rfl
  | @left p m maxWait j v retcode v' error last hw hl =>
    -- the owner waits for another semaphore only
    obtain ⟨rc, hp⟩ := hw.point
    have hj : j ≠ id := fun hj => hout (hj ▸ hp.pended)
    have hafter : phase id (if last then .takeLastLock maxWait j error else .takeEnd maxWait j error) = .before := by
      split <;> simp [phase, hj]
    rw [Mem.setSem_of_ne m v' (Ne.symm hj), credit_before (phase_wait hp), credit_before hafter]
  | sleeps hp => rw [credit_before (phase_wait hp)]; rfl
  | polls hp => rw [credit_before (phase_wait hp)]; rfl
  | @gave m j v error hg =>
    have hg := giveToken_gave hg
    by_cases hj : j = id
    · subst hj
      rw [Mem.setSem_self] at hown' ⊢
      have he : error = .ok := hg.allowed.mpr fun _ => hown
      have hafter : credit j (if error = .ok ∧ v.firstSusp ≠ [] then .giveNotify j else .giveUnlock j error) = -1 := by
        subst he
        split <;> simp [credit, phase, Pc.resting]
      by_cases hnested : 1 < (m.sem j).recursionLevel
      · obtain ⟨_, heq, _⟩ := hg.nested he hnested
        rw [heq, hafter, credit_before (by rfl)]
        omega
      · rw [(hg.last he (by omega)).2.2] at hown'
        cases hown'
    · have hafter :
          phase id (if error = .ok ∧ v.firstSusp ≠ [] then .giveNotify j else .giveUnlock j error) = .before := by
        split <;> simp [phase, hj]
      rw [Mem.setSem_of_ne m v (Ne.symm hj), credit_before hafter, credit_before (by rfl)]
  | reset => rw [Mem.setSem_congr V2lsem.recursionLevel m (by rfl) id]; rfl
  | flushMarked => rw [Mem.setSem_congr V2lsem.recursionLevel m (by rfl) id]; rfl
  | deleteMarked => rw [Mem.setSem_congr V2lsem.recursionLevel m (by rfl) id]; rfl
  | ended => rw [Mem.setWaiting_sem]; rfl
  | _ => rfl

/-- No call returns in a block. -/
theorem Runs.not_returning {m m' : Mem θ ι} (h : Runs some prio t p m m' p') (id : ι) (s' : SemState θ ι) (hp : s.ctl t = .awake p) :
    returnsGive id ⟨s, t, s'⟩ = false ∧ returnsTake id ⟨s, t, s'⟩ = false := by
  have hgive : ∀ j error, p ≠ .giveUnlock j error := by
    rintro j error rfl
    cases h with
    | called _ _ hp => cases hp
    | refused hp => cases hp
    | created _ _ hp => cases hp
    | left hw => cases hw.point.choose_spec
    | sleeps hw => cases hw
    | polls hw => cases hw
  have htake : ∀ maxWait j error, p ≠ .takeUnlock maxWait j error := by
    rintro maxWait j error rfl
    cases h with
    | called _ _ hp => cases hp
    | refused hp => cases hp
    | created _ _ hp => cases hp
    | left hw => cases hw.point.choose_spec
    | sleeps hw => cases hw
    | polls hw => cases hw
  refine ⟨by simp [returnsGive, hp, hgive], ?_⟩
  simp only [returnsTake, hp]
  split
  · rename_i heq
    cases heq
    exact absurd rfl (htake _ _ _)
  · rfl

/-- Outside the blocks the credit of a call is spent where the call returns. -/
theorem next_credit (h : (code some prio t p).Next p') :
    credit id p' = credit id p ∨ (∃ maxWait, p = .takeUnlock maxWait id .ok) ∨ p = .giveUnlock id .ok := by
  cases p
  case findUnlock op j found =>
    cases h
    cases found
    · exact .inl (by rw [credit_resting (by rfl), credit_before (by rfl)])
    · exact .inl (by cases op <;> rfl)
  case takeUnlock maxWait j error =>
    cases h
    by_cases hj : j = id ∧ error = .ok
    · obtain ⟨rfl, rfl⟩ := hj
      exact .inr (.inl ⟨maxWait, rfl⟩)
    · refine .inl ?_
      rw [credit_resting (by rfl)]
      by_cases hid : j = id
      · cases error <;> first | exact absurd ⟨hid, rfl⟩ hj | simp [credit, phase, hid]
      · simp [credit, phase, hid]
  case giveUnlock j error =>
    cases h
    by_cases hj : j = id ∧ error = .ok
    · obtain ⟨rfl, rfl⟩ := hj
      exact .inr (.inr rfl)
    · refine .inl ?_
      rw [credit_resting (by rfl)]
      by_cases hid : j = id
      · cases error <;> first | exact absurd ⟨hid, rfl⟩ hj | simp [credit, phase, hid]
      · simp [credit, phase, hid]
  all_goals first
    | exact False.elim h
    | (cases h; exact .inl rfl)
    | (obtain ⟨r, rfl⟩ := h; exact .inl rfl)

omit [DecidableEq θ] in
theorem returned_credit (h : returnsGive id x = true ∨ returnsTake id x = true) :
    credit id (x.pre.ctl x.thread).point =
      (if returnsTake id x then 1 else 0) - (if returnsGive id x then 1 else 0) := by
  obtain h | h := h
  · have hp : x.pre.ctl x.thread = .awake (.giveUnlock id .ok) := of_decide_eq_true h
    simp [returnsGive, returnsTake, hp, credit, phase, Pc.resting]
  · unfold returnsTake at h
    split at h
    · rename_i maxWait j hp
      have hj : j = id := of_decide_eq_true h
      simp [returnsGive, returnsTake, hp, credit, phase, Pc.resting, hj]
    · cases h

theorem returns_resting (hs : Step (code some prio) t s s')
    (h : returnsGive id ⟨s, t, s'⟩ = true ∨ returnsTake id ⟨s, t, s'⟩ = true) :
    (s'.ctl t).point.resting = true := by
  obtain h | h := h
  · have hp : s.ctl t = .awake (.giveUnlock id .ok) := of_decide_eq_true h
    have hd := hs.does hp
    simp only [code, Instr.Does] at hd
    rw [hd]
    simp [Pc.resting]
  · simp only [returnsTake] at h
    split at h
    · rename_i maxWait j hp
      have hd := hs.does hp
      simp only [code, Instr.Does] at hd
      rw [hd]
      simp [Pc.resting]
    · cases h

/-- A step that runs no block spends the credit of its call, if at all, by returning. -/
theorem sync_credit (id : ι) (hs : Step (code some prio) t s s')
    (hp : (s'.ctl t).point = (s.ctl t).point ∨ (code some prio t (s.ctl t).point).Next (s'.ctl t).point) :
    credit id (s.ctl t).point = credit id (s'.ctl t).point +
      (if returnsTake id ⟨s, t, s'⟩ then 1 else 0) - (if returnsGive id ⟨s, t, s'⟩ then 1 else 0) := by
  by_cases hret : returnsGive id ⟨s, t, s'⟩ = true ∨ returnsTake id ⟨s, t, s'⟩ = true
  · rw [credit_resting (returns_resting hs hret), Int.zero_add]
    exact returned_credit hret
  · have hsame : credit id (s'.ctl t).point = credit id (s.ctl t).point := by
      obtain heq | hnext := hp
      · rw [heq]
      · obtain heq | hend := next_credit hnext
        · exact heq
        · -- the call would return
          refine absurd ?_ hret
          cases hc : s.ctl t with
          | awake p =>
            rw [hc, Ctl.point_awake] at hend
            obtain ⟨maxWait, rfl⟩ | rfl := hend
            · exact .inr (by simp [returnsTake, hc])
            · exact .inl (by simp [returnsGive, hc])
          | asleep p n =>
            have hw := hs.wakes hc
            rw [hc, Ctl.point_asleep] at hend
            obtain ⟨maxWait, rfl⟩ | rfl := hend <;> exact hw.elim
    rw [not_or, Bool.not_eq_true, Bool.not_eq_true] at hret
    rw [hsame, hret.1, hret.2]
    simp

omit [DecidableEq θ] [DecidableEq ι] in
theorem Mutexes.level_pos (hi : Mutexes s) (hb : s.mem.block id ≠ .fresh) (hm : (s.mem.sem id).isMutex)
    (hown : (s.mem.sem id).currentOwner = some t) : 1 ≤ (s.mem.sem id).recursionLevel := by
  obtain ⟨hnone, _⟩ | ⟨_, _, _, hlevel⟩ := hi.consistent id hb hm
  · rw [hnone] at hown
    cases hown
  · exact hlevel

/-- The level of the owner is what its calls have left of it, with the one under way. -/
def Levelled (tr : List (SemTransition θ ι)) (s : SemState θ ι) : Prop :=
  ∀ t id, s.mem.block id ≠ .fresh → (s.mem.sem id).isMutex → (s.mem.sem id).currentOwner = some t →
    (s.mem.sem id).recursionLevel = level t id tr + credit id (s.ctl t).point

theorem level_cons (h : (x.pre.mem.sem id).currentOwner = some t) :
    level t id (x :: tr) = level t id tr + (if x.thread = t ∧ returnsTake id x then 1 else 0) -
      (if x.thread = t ∧ returnsGive id x then 1 else 0) := by
  simp [level, h]

theorem level_step (hl : Linked s) (hi : Mutexes s) (hv : Levelled tr s) (hs : Step (code some prio) t s s')
    (hno : strayTake ⟨s, t, s'⟩ = false) (hmax : reentersMax ⟨s, t, s'⟩ = false) : Levelled (⟨s, t, s'⟩ :: tr) s' := by
  intro u id hb hm hown
  by_cases hf : s.mem.block id = .fresh
  · obtain ⟨args, hc⟩ := born_step hl hs hf hb
    rw [hc.owner] at hown
    cases hown
  · have hm := (mutex_step hs hf).mp hm
    have hstep := mutexStep hi hs hno hmax hf hm
    obtain hold | ⟨rfl, hnone, hone, maxWait, hp'⟩ := hstep.owner hown
    · have hlevel := hv u id hf hm hold
      rw [level_cons hold]
      by_cases hu : u = t
      · subst hu
        obtain ⟨hmem, _, hp⟩ | ⟨p, p', hp, hp', hr, _⟩ := step_cases hs
        · have hcredit := sync_credit id hs hp
          rw [hmem]
          simp only [true_and]
          omega
        · have hpoint : (s.ctl u).point = p := by rw [hp, Ctl.point_awake]
          have hcredit := hr.level_credit hf hold hown (hi.level_pos hf hm hold)
            (fun hin => hi.waiting u id (hpoint ▸ hin) hm hold)
            fun _ heq => reentersMax_eq_false hmax (heq ▸ hp) hm hold
          obtain ⟨hg, ht⟩ := hr.not_returning id s' hp
          rw [hpoint] at hlevel
          rw [hp', Ctl.point_awake, hg, ht]
          simp only [and_false, Bool.false_eq_true, if_false]
          omega
      · have heq : (s'.mem.sem id).recursionLevel = (s.mem.sem id).recursionLevel := by
          cases hstep with
          | same _ _ heq => exact heq
          | reentered _ _ _ hmine => exact absurd (Option.some.inj (hold.symm.trans hmine)) hu
          | acquired _ _ hnone => simp [hnone] at hold
          | gave _ _ _ _ _ hmine => exact absurd (Option.some.inj (hold.symm.trans hmine)) hu
          | freed hmine => exact absurd (Option.some.inj (hold.symm.trans hmine)) hu
        rw [heq, hlevel, hs.ctl_other hu]
        simp [Ne.symm hu]
    · -- the thread has just become the owner
      have hnew : level u id (⟨s, u, s'⟩ :: tr) = 0 := by simp [level, hnone, hown]
      rw [hnew, hone, hp', Ctl.point_awake]
      simp [credit, phase, Pc.resting]

theorem levelled (h : Run (code some prio) Initial tr s) (hno : ∀ x ∈ tr, strayTake x = false)
    (hmax : ∀ x ∈ tr, reentersMax x = false) : Levelled tr s := by
  induction h with
  | start hs => exact fun _ id hb => absurd (hs.fresh id) hb
  | step hr hs ih =>
    have hno' := fun x hx => hno x (List.mem_cons_of_mem _ hx)
    have hmax' := fun x hx => hmax x (List.mem_cons_of_mem _ hx)
    exact level_step (linked hr) (mutexes hr hno' hmax') (ih hno' hmax') hs (hno _ (List.mem_cons_self ..))
      (hmax _ (List.mem_cons_self ..))

/-- In a run in which no task takes a token of a killed semaphore, and none takes a mutex
once more at a level of `INT_MAX`, a mutex whose `sem_lock` is free is free with its token, or
has one owner and no token, and then its level is the number of times the owner has taken it
less the number of times it has given it. -/
theorem mutex_accounted (h : Run (code some prio) Initial tr s) (hno : ∀ x ∈ tr, strayTake x = false)
    (hmax : ∀ x ∈ tr, reentersMax x = false) {opt : Nat} (hmade : ∃ x ∈ tr, Creates id (.mutex opt) x)
    (hfree : s.owner (.semLock id) = none) :
    ((s.mem.sem id).currentOwner = none ∧ (s.mem.sem id).tokenCount = 1 ∧ (s.mem.sem id).recursionLevel = 0) ∨
      ∃ t, (s.mem.sem id).currentOwner = some t ∧ (s.mem.sem id).tokenCount = 0 ∧
        1 ≤ (s.mem.sem id).recursionLevel ∧ (s.mem.sem id).recursionLevel = level t id tr := by
  obtain ⟨x, hx, hc⟩ := hmade
  have hb := (initialCount_of_creates h hx hc).1
  have hm : (s.mem.sem id).isMutex := (made_mutex h hx hc).mpr ⟨opt, rfl⟩
  refine ((mutexes h hno hmax).consistent id hb hm).imp_right fun ⟨t, hown, htok, hlevel⟩ => ⟨t, hown, htok, hlevel, ?_⟩
  have hcredit : credit id (s.ctl t).point = 0 := by
    cases hc : s.ctl t with
    | awake p =>
      refine credit_outside fun hheld => ?_
      have := (guarded (.semLock id)).owned (fun s hs => outside_owned s hs.outside) h t ((claims_awake hc).mpr hheld)
      rw [hfree] at this
      cases this
    | asleep p n =>
      obtain ⟨c, lock, timed, next, hi⟩ := h.asleep (fun s t p n hs => by rw [hs.idle t]; exact nofun) hc
      refine credit_before ?_
      cases p <;> first | rfl | cases hi
  have := levelled h hno hmax t id hb hm hown
  omega

end

/-- Two calls of `semTake` by one task, the second a re-entry, and one call of `semGive`. -/
def nestedTake : List (Fin 2 × Input (Choice ℕ)) :=
  makes 0 7 (.mutex 0) :: goesOn 0 3 ++ calls 0 (.take waitForever) 7 :: goesOn 0 8 ++
    calls 0 (.take noWait) 7 :: goesOn 0 7 ++ calls 0 .give 7 :: goesOn 0 6

theorem nestedTake_accounted : ∃ (tr : List (SemTransition (Fin 2) ℕ)) (s : SemState (Fin 2) ℕ),
    (s.mem.sem 7).recursionLevel = 1 ∧
      (((s.mem.sem 7).currentOwner = none ∧ (s.mem.sem 7).tokenCount = 1 ∧ (s.mem.sem 7).recursionLevel = 0) ∨
        ∃ t, (s.mem.sem 7).currentOwner = some t ∧ (s.mem.sem 7).tokenCount = 0 ∧
          1 ≤ (s.mem.sem 7).recursionLevel ∧ (s.mem.sem 7).recursionLevel = level t 7 tr) := by
  obtain ⟨tr, s, hr, hs⟩ := run_of_check (code some fun _ => 0) nestedTake (fun tr s =>
      (∀ x ∈ tr, strayTake x = false) ∧ (∀ x ∈ tr, reentersMax x = false) ∧ (∃ x ∈ tr, Creates 7 (.mutex 0) x) ∧ s.owner (.semLock 7) = none ∧
      (s.mem.sem 7).recursionLevel = 1)
    boot_initial (by decide)
  obtain ⟨hno, hmax, hmade, hfree, hlevel⟩ := of_decide_eq_true hs
  exact ⟨tr, s, hlevel, mutex_accounted hr hno hmax hmade hfree⟩

/-- Task 0 owns a mutex on which the tasks 1 and 2 pend, and gives it. Task 2 wakes first,
finds that the token is for task 1, and polls. Task 3 marks the mutex killed, and task 1
leaves with an error. Then task 2 finds that the token is for it. -/
def pollKilled : List (Fin 4 × Input (Choice ℕ)) :=
  makes 0 7 (.mutex 0) :: goesOn 0 3 ++ calls 0 (.take waitForever) 7 :: goesOn 0 8 ++
    calls 1 (.take waitForever) 7 :: goesOn 1 7 ++ calls 2 (.take waitForever) 7 :: goesOn 2 7 ++
    calls 0 .give 7 :: goesOn 0 7 ++ goesOn 2 3 ++ calls 3 .delete 7 :: goesOn 3 12 ++ goesOn 1 4 ++
    goesOn 2 1 ++ (2, {choice := .expired false}) :: goesOn 2 6

/-- It takes the token without becoming the owner: while the deletion is still under way
the mutex has neither. -/
theorem killed_mutex_loses_token :
    ¬ ∀ (tr : List (SemTransition (Fin 4) ℕ)) (s : SemState (Fin 4) ℕ) (id opt : ℕ),
      Run (code some fun _ => 0) Initial tr s → (∃ x ∈ tr, Creates id (.mutex opt) x) →
      s.owner (.semLock id) = none → s.mem.block id = .live →
      ((s.mem.sem id).currentOwner = none ∧ (s.mem.sem id).tokenCount = 1 ∧ (s.mem.sem id).recursionLevel = 0) ∨
        ∃ t, (s.mem.sem id).currentOwner = some t ∧ (s.mem.sem id).tokenCount = 0 ∧
          1 ≤ (s.mem.sem id).recursionLevel ∧ (s.mem.sem id).recursionLevel = level t id tr := by
  intro hclaim
  obtain ⟨tr, s, hr, hs⟩ := run_of_check (code some fun _ => 0) pollKilled (fun tr s =>
      (∃ x ∈ tr, Creates 7 (.mutex 0) x) ∧ s.owner (.semLock 7) = none ∧ s.mem.block 7 = .live ∧
      (s.mem.sem 7).currentOwner = none ∧ (s.mem.sem 7).tokenCount = 0)
    boot_initial (by decide)
  obtain ⟨hmade, hfree, hlive, hown, htok⟩ := of_decide_eq_true hs
  obtain ⟨_, hone, _⟩ | ⟨t, hown', _⟩ := hclaim tr s 7 0 hr hmade hfree hlive
  · rw [htok] at hone
    cases hone
  · rw [hown] at hown'
    cases hown'

end V2lin.Sem
