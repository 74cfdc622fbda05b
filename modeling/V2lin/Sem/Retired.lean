import V2lin.Sem.Lookup

/-! What `semDelete` owes the tasks that are at work on its semaphore.

Once it has marked the semaphore, nobody may come to wait for a token or get one, and when
it frees the control block nobody may be inside. It waits for the pended tasks, but with
`sem_lock` released and the semaphore still on the list: takes come to the list, a task that
polls does not look at the mark, and the last of the pended tasks still has `sem_lock` when
it has announced that the list is empty. If none of this happens, the deletion keeps its
word. -/
namespace V2lin.Sem
open Threads V2lin.Task

section
variable {θ ι : Type}

/-! ### Points -/

section
variable [DecidableEq ι]

/-- A `semTake` that has the semaphore's lock and is about to come to its list. -/
def comesToTake (id : ι) : Pc ι → Bool
  | .findUnlock (.take _) j true | .takeStart _ j => j = id
  | _ => false

/-- A deletion that has marked the semaphore and seen its list empty, before the unlinking. -/
def seesEmpty (id : ι) : Pc ι → Bool
  | .deleteListLock j true | .deleteUnlink j true => j = id
  | _ => false

/-- The part of a deletion between the unlinking and the freeing. -/
def offList (id : ι) : Pc ι → Bool
  | .deleteListUnlock j _ | .deleteFree j _ => j = id
  | _ => false

end

/-! ### The law -/

/-- The step in which a task comes to a semaphore's list. -/
def StartsToPend (id : ι) (x : SemTransition θ ι) : Prop :=
  x.thread ∉ (x.pre.mem.sem id).firstSusp ∧ x.thread ∈ (x.post.mem.sem id).firstSusp

/-- From the mark of a deletion on nobody starts to pend on the semaphore or takes a token,
and when it is freed nobody else is inside and nobody is pended. -/
structure Retires (id : ι) (tr : List (SemTransition θ ι)) : Prop where
  sealed : ∀ later x before, tr = later ++ x :: before → x.pre.ctl x.thread = .awake (.deleteMark id) →
    ∀ y ∈ later, ¬ StartsToPend id y ∧ (y.post.mem.sem id).tokenCount ≠ (y.pre.mem.sem id).tokenCount - 1
  vacated : ∀ x ∈ tr, ∀ drained, x.pre.ctl x.thread = .awake (.deleteFree id drained) →
    (x.pre.mem.sem id).firstSusp = [] ∧ ∀ u ≠ x.thread, inside (x.pre.ctl u).point ≠ some id

variable [DecidableEq θ] [DecidableEq ι]

/-- A `semTake`, other than one of the owner of a mutex, gets the lock of a semaphore that a
deletion has marked and not yet unlinked. -/
def Admits (id : ι) (x : SemTransition θ ι) : Prop :=
  (∃ maxWait, x.pre.ctl x.thread = .awake (.findSem (.take maxWait) id)) ∧
    ¬ ((x.pre.mem.sem id).isMutex ∧ (x.pre.mem.sem id).currentOwner = some x.thread) ∧
    ∃ u, marks id (x.pre.ctl u).point = true

/-- A task that polls such a semaphore comes back before its time is over, and there is a
token and it is its turn. -/
def Finds (prio : θ → Int) (id : ι) (x : SemTransition θ ι) : Prop :=
  (∃ maxWait retcode answer, x.pre.ctl x.thread = .awake (.takeAgain maxWait id retcode) ∧
    againBlock prio (some x.thread) maxWait id retcode (.expired answer) x.pre.mem =
      some (x.post.mem, (x.post.ctl x.thread).point) ∧ (maxWait = waitForever ∨ answer = false)) ∧
    (x.pre.mem.sem id).tokenCount > 0 ∧
    signalForMyTask (x.pre.mem.sem id).firstSusp ((x.pre.mem.sem id).flags &&& semQPriority) prio
      (some x.thread) = true ∧
    ∃ u, marks id (x.pre.ctl u).point = true

/-- The deletion is let through: no take is admitted and no token found behind its back, and
when it unlinks a semaphore that it has drained, `sem_lock` is free. -/
structure Clear (prio : θ → Int) (id : ι) (x : SemTransition θ ι) : Prop where
  admits : ¬ Admits id x
  finds : ¬ Finds prio id x
  free : Unlinks id true x → x.pre.owner (.semLock id) = none

variable {prio : θ → Int} {t u : θ} {p p' : Pc ι} {id : ι} {m m' : Mem θ ι}
variable {s s' : SemState θ ι} {tr : List (SemTransition θ ι)}

/-! ### Blocks and points -/

omit [DecidableEq θ] in
theorem marks_of_seesEmpty (h : seesEmpty id p = true) : marks id p = true := by
  cases p
  case deleteListLock j drained => cases drained <;> simp_all [seesEmpty, marks]
  case deleteUnlink j drained => cases drained <;> simp_all [seesEmpty, marks]
  all_goals cases h

omit [DecidableEq θ] in
theorem held_of_comesToTake (h : comesToTake id p = true) : .semLock id ∈ held p := by
  cases p
  case findUnlock op j found =>
    cases op <;> cases found <;> first | cases h | skip
    rw [of_decide_eq_true h]
    exact List.mem_cons_of_mem _ (List.mem_singleton_self _)
  all_goals first
    | cases h
    | (rw [of_decide_eq_true h]; exact List.mem_singleton_self _)

omit [DecidableEq θ] in
theorem levels_of_marks (h : marks id p = true) : 0 < levels p := by
  cases p <;> first
    | cases h
    | exact Nat.one_pos

omit [DecidableEq θ] [DecidableEq ι] in
/-- Whoever is inside of a semaphore comes to it, or is a deletion that has unlinked it. -/
theorem comes_of_inside (h : inside p = some id) : comes p = some id ∨ 0 < levels p := by
  cases p <;> first
    | exact .inl h
    | exact .inr Nat.one_pos
    | cases h

/-- Whoever comes to the list is not the owner of a mutex. -/
theorem Runs.starts (h : Runs some prio t p m m' p') (hout : pendsOn p = none) (hin : pendsOn p' = some id) :
    ∃ maxWait, p = .takeStart maxWait id ∧ ¬ ((m.sem id).isMutex ∧ (m.sem id).currentOwner = some t) := by
  cases h with
  | pended hno =>
    cases hin
    exact ⟨_, rfl, hno⟩
  | left => split at hin <;> cases hin
  | gave => split at hin <;> cases hin
  | sleeps hpoint =>
    rw [hpoint.pended] at hout
    cases hout
  | polls hpoint =>
    rw [hpoint.pended] at hout
    cases hout
  | _ => cases hin

/-- A wait that goes on or is over takes no token. -/
theorem stillWaiting_tokens (me : Option θ) (maxWait : Int) (id : ι) (retcode : Retcode) (m : Mem θ ι) :
    ((stillWaitingBlock me maxWait id retcode m).1.sem id).tokenCount = (m.sem id).tokenCount := by
  unfold stillWaitingBlock
  split
  · show ((m.setSem id (leaveWait (m.sem id) me maxWait retcode).1).sem id).tokenCount = _
    rw [Mem.setSem_self, (leaveWait_left (m.sem id) me maxWait retcode).tokenCount]
  · rfl

theorem next_comesToTake (h : (code some prio t p).Next p') (hc : comesToTake id p' = true) :
    comesToTake id p = true ∨ ∃ maxWait, p = .findSem (.take maxWait) id := by
  cases p
  case findSem op j =>
    cases h
    cases op with
    | take maxWait => exact .inr ⟨maxWait, by rw [of_decide_eq_true hc]⟩
    | _ => cases hc
  case findUnlock op j found =>
    cases h
    cases found
    · cases hc
    · cases op with
      | take => exact .inl hc
      | _ => cases hc
  all_goals first
    | exact False.elim h
    | (cases h; cases hc)
    | (obtain ⟨r, rfl⟩ := h; cases hc)

theorem Runs.not_comesToTake (h : Runs some prio t p m m' p') : comesToTake id p' = false := by
  cases h with
  | notFound op =>
    cases op <;> rfl
  | left => split <;> rfl
  | gave => split <;> rfl
  | _ => rfl

theorem next_of_marks (h : (code some prio t p).Next p') (hp : marks id p' = true) : marks id p = true := by
  cases p
  case findUnlock op j found =>
    cases h
    cases found
    · cases hp
    · cases op <;> cases hp
  all_goals first
    | exact False.elim h
    | (cases h; exact hp)
    | (obtain ⟨r, rfl⟩ := h; exact hp)

theorem Runs.of_marks (h : Runs some prio t p m m' p') (hp : marks id p' = true) : marks id p = true ∨ p = .deleteMark id := by
  cases h with
  | left => split at hp <;> cases hp
  | gave => split at hp <;> cases hp
  | deleteMarked j => exact .inr (by rw [of_decide_eq_true hp])
  | deleteUndrained => exact .inl hp
  | deleteDrained => exact .inl (by simpa [marks] using hp)
  | deleteNobody => simp [marks] at hp
  | _ => cases hp

theorem Runs.marks_goes (h : Runs some prio t p m m' p') (hp : marks id p = true) :
    marks id p' = true ∨ offList id p' = true := by
  cases h with
  | called _ _ hrest => rw [marks_resting hrest] at hp; cases hp
  | refused hrest => rw [marks_resting hrest] at hp; cases hp
  | created _ _ hrest => rw [marks_resting hrest] at hp; cases hp
  | left hw =>
    obtain ⟨_, hpoint⟩ := hw.point
    cases hpoint <;> cases hp
  | sleeps hpoint => cases hpoint <;> cases hp
  | polls hpoint => cases hpoint <;> cases hp
  | deleteUndrained => exact .inl hp
  | deleteDrained => exact .inl (by simpa [marks] using hp)
  | unlinked j drained =>
    simp only [marks, Bool.decide_and, Bool.and_eq_true, decide_eq_true_eq] at hp
    exact .inr (decide_eq_true hp.2)
  | _ => cases hp

theorem next_of_seesEmpty (h : (code some prio t p).Next p') (hp : seesEmpty id p' = true) : seesEmpty id p = true := by
  cases p
  case findUnlock op j found =>
    cases h
    cases found
    · cases hp
    · cases op <;> cases hp
  all_goals first
    | exact False.elim h
    | (cases h; exact hp)
    | (rename_i drained; cases drained <;> (cases h; exact hp))
    | (obtain ⟨r, rfl⟩ := h; cases hp)

theorem Runs.of_seesEmpty (h : Runs some prio t p m m' p') (hp : seesEmpty id p' = true) : (m'.sem id).firstSusp = [] := by
  cases h with
  | left => split at hp <;> cases hp
  | gave => split at hp <;> cases hp
  | @deleteDrained m j hempty =>
    obtain rfl : j = id := of_decide_eq_true hp
    exact hempty
  | _ => cases hp

theorem next_of_offList (h : (code some prio t p).Next p') (hp : offList id p' = true) : offList id p = true := by
  cases p
  case findUnlock op j found =>
    cases h
    cases found
    · cases hp
    · cases op <;> cases hp
  all_goals first
    | exact False.elim h
    | (cases h; exact hp)
    | (obtain ⟨r, rfl⟩ := h; cases hp)

theorem Runs.of_offList (h : Runs some prio t p m m' p') (hp : offList id p' = true) :
    ∃ drained, p = .deleteUnlink id drained := by
  cases h with
  | left => split at hp <;> cases hp
  | gave => split at hp <;> cases hp
  | unlinked j drained => exact ⟨drained, by rw [of_decide_eq_true hp]⟩
  | _ => cases hp

theorem comesToTake_awake (h : Run (code some prio) Initial tr s) (hc : comesToTake id (s.ctl u).point = true) :
    ∃ p, s.ctl u = .awake p ∧ comesToTake id p = true := by
  cases hp : s.ctl u with
  | awake p =>
    rw [hp, Ctl.point_awake] at hc
    exact ⟨p, rfl, hc⟩
  | asleep p n =>
    obtain ⟨c, lock, timed, next, hi⟩ := h.asleep initial_awake hp
    rw [hp, Ctl.point_asleep] at hc
    cases p <;> first | cases hc | cases hi

/-- Only one thread has a semaphore's lock and is about to come to its list, and nobody else
has the lock. -/
theorem comesToTake_alone (h : Run (code some prio) Initial tr s) (hc : comesToTake id (s.ctl u).point = true)
    (hp : s.ctl t = .awake p) (hlock : .semLock id ∈ held p) : u = t := by
  obtain ⟨q, hq, hcq⟩ := comesToTake_awake h hc
  exact held_unique h hq (held_of_comesToTake hcq) hp hlock

/-- A thread in a semaphore's library is at a block that has been made. -/
theorem block_of_marks (h : Run (code some prio) Initial tr s) (hu : marks id (s.ctl u).point = true) :
    s.mem.block id ≠ .fresh :=
  ((registry_sound h).uses u id (uses_of_marks hu)).1

/-! ### While the deletion waits -/

/-- The mark is set, or everybody has left; and of the takes with `sem_lock` none will come
to the list. -/
structure Draining (id : ι) (s : SemState θ ι) : Prop where
  mode : (s.mem.sem id).sendType = .killd ∨ (s.mem.sem id).firstSusp = []
  owners : ∀ v, comesToTake id (s.ctl v).point = true →
    (s.mem.sem id).isMutex ∧ (s.mem.sem id).currentOwner = some v

/-- Nobody starts to pend meanwhile. -/
theorem Draining.not_starts (hd : Draining id s) (hs : Step (code some prio) t s s')
    (hout : pendsOn (s.ctl t).point = none) : pendsOn (s'.ctl t).point ≠ some id := by
  intro hin
  obtain ⟨_, _, heq | hnext⟩ | ⟨p, p', hp, hp', hr, _⟩ := step_cases hs
  · rw [heq, hout] at hin
    cases hin
  · rw [next_pended hnext, hout] at hin
    cases hin
  · rw [hp, Ctl.point_awake] at hout
    rw [hp', Ctl.point_awake] at hin
    obtain ⟨maxWait, rfl, hno⟩ := hr.starts hout hin
    exact hno (hd.owners t (by rw [hp]; exact decide_eq_true rfl))

/-- An empty list stays empty. -/
theorem Draining.empty_step (hd : Draining id s) (hs : Step (code some prio) t s s') (hb : s.mem.block id ≠ .fresh)
    (hempty : (s.mem.sem id).firstSusp = []) : (s'.mem.sem id).firstSusp = [] := by
  obtain ⟨hm, _⟩ | ⟨p, p', hp, hp', hr, _⟩ := step_cases hs
  · rwa [hm]
  · obtain ⟨heq, _⟩ | ⟨hout, hin, _⟩ | ⟨_, _, heq⟩ | ⟨hf, _⟩ := hr.susp_cases id
    · rwa [heq]
    · refine absurd ?_ (hd.not_starts hs ?_)
      · rw [hp', Ctl.point_awake, hin]
      · rw [hp, Ctl.point_awake, hout]
    · rw [heq, hempty]
      rfl
    · exact absurd hf hb

/-- Nobody but the deletion marks the semaphore, and the mark is taken back when the list is
empty. -/
theorem Draining.mode_step (hd : Draining id s) (h : Run (code some prio) Initial tr s)
    (hs : Step (code some prio) t s s') (hu : marks id (s.ctl u).point = true) :
    (s'.mem.sem id).sendType = .killd ∨ (s'.mem.sem id).firstSusp = [] := by
  have hb := block_of_marks h hu
  obtain hkilled | hempty := hd.mode
  · obtain ⟨hm, _⟩ | ⟨p, p', hp, _, hr, _⟩ := step_cases hs
    · exact .inl (by rw [hm, hkilled])
    · obtain heq | ⟨maxWait, error, rfl, _⟩ | ⟨rfl, _⟩ | ⟨rfl, heq⟩ := hr.sendType_cases hb
      · exact .inl (heq.trans hkilled)
      · refine .inr (hd.empty_step hs hb (quiet_empty h (t := t) ?_))
        rw [hp]
        exact decide_eq_true rfl
      · have htu := levels_unique h (t := t) (u := u) (by rw [hp]; exact Nat.one_pos) (levels_of_marks hu)
        rw [← htu, hp] at hu
        cases hu
      · exact .inl heq
  · exact .inr (hd.empty_step hs hb hempty)

/-- The owner of a mutex stays so as long as he has `sem_lock`. -/
theorem Draining.owners_step (hd : Draining id s) (h : Run (code some prio) Initial tr s)
    (hs : Step (code some prio) t s s') (hu : marks id (s.ctl u).point = true) (hno : ¬ Admits id ⟨s, t, s'⟩) (v : θ)
    (hv : comesToTake id (s'.ctl v).point = true) :
    (s'.mem.sem id).isMutex ∧ (s'.mem.sem id).currentOwner = some v := by
  by_cases hvt : v = t
  · subst hvt
    obtain ⟨hm, _, heq | hnext⟩ | ⟨p, p', hp, hp', hr, _⟩ := step_cases hs
    · rw [hm]
      exact hd.owners v (heq ▸ hv)
    · rw [hm]
      obtain hbefore | ⟨maxWait, hfind⟩ := next_comesToTake hnext hv
      · exact hd.owners v hbefore
      · by_contra howner
        refine hno ⟨⟨maxWait, ?_⟩, howner, u, hu⟩
        cases hc : s.ctl v with
        | awake p =>
          rw [hc, Ctl.point_awake] at hfind
          rw [hfind]
        | asleep p n =>
          obtain ⟨c, lock, timed, next, hi⟩ := h.asleep initial_awake hc
          rw [hc, Ctl.point_asleep] at hfind
          subst hfind
          cases hi
    · rw [hp', Ctl.point_awake, hr.not_comesToTake] at hv
      cases hv
  · rw [hs.ctl_other hvt] at hv
    obtain ⟨hm, _⟩ | ⟨p, p', hp, _, hr, _⟩ := step_cases hs
    · rw [hm]
      exact hd.owners v hv
    · obtain heq | hlock := hr.sem_locked (block_of_marks h hu)
      · rw [heq]
        exact hd.owners v hv
      · exact absurd (comesToTake_alone h hv hp hlock) hvt

theorem Draining.step (hd : Draining id s) (h : Run (code some prio) Initial tr s) (hs : Step (code some prio) t s s')
    (hu : marks id (s.ctl u).point = true) (hno : ¬ Admits id ⟨s, t, s'⟩) : Draining id s' :=
  ⟨hd.mode_step h hs hu, hd.owners_step h hs hu hno⟩

/-- The step that sets the mark. -/
theorem draining_marked (h : Run (code some prio) Initial tr s) (hs : Step (code some prio) t s s')
    (hp : s.ctl t = .awake (.deleteMark id)) : Draining id s' := by
  obtain ⟨c, p', hb, hp', _⟩ := hs.block hp rfl
  simp only [Option.some.injEq, Prod.mk.injEq] at hb
  obtain ⟨hm, rfl⟩ := hb
  refine ⟨.inl ?_, fun v hv => ?_⟩
  · rw [← hm, Mem.setSem_self]
  · by_cases hvt : v = t
    · rw [hvt, hp'] at hv
      cases hv
    · rw [hs.ctl_other hvt] at hv
      exact absurd (comesToTake_alone h hv hp (by simp [held])) hvt

/-- What a thread with the semaphore does while the deletion waits. -/
theorem Draining.calm (hd : Draining id s) (h : Run (code some prio) Initial tr s)
    (hs : Step (code some prio) t s s') (hu : marks id (s.ctl u).point = true) (hno : ¬ Finds prio id ⟨s, t, s'⟩) :
    ¬ StartsToPend id ⟨s, t, s'⟩ ∧ (s'.mem.sem id).tokenCount ≠ (s.mem.sem id).tokenCount - 1 := by
  have hlisted : ∀ v, v ∈ (s.mem.sem id).firstSusp ↔ pendsOn (s.ctl v).point = some id := fun v =>
    ((linked h).lists id).mem v |>.trans decide_eq_true_iff
  have hb := block_of_marks h hu
  refine ⟨fun ⟨hout, hin⟩ => ?_, ?_⟩
  · have hin' : pendsOn (s'.ctl t).point = some id := of_decide_eq_true (((linked (h.step hs)).lists id).mem t |>.mp hin)
    obtain ⟨_, _, heq | hnext⟩ | ⟨p, p', hp, hp', hr, _⟩ := step_cases hs
    · exact hout ((hlisted t).mpr (heq ▸ hin'))
    · exact hout ((hlisted t).mpr (next_pended hnext ▸ hin'))
    · obtain ⟨_, hiff⟩ | ⟨hnone, _⟩ | ⟨hpend, _⟩ | ⟨hf, _⟩ := hr.susp_cases id
      · refine hout ((hlisted t).mpr ?_)
        rw [hp', Ctl.point_awake] at hin'
        rw [hp, Ctl.point_awake, hiff.mp hin']
      · exact hd.not_starts hs (by rw [hp, Ctl.point_awake, hnone]) hin'
      · exact hout ((hlisted t).mpr (by rw [hp, Ctl.point_awake, hpend]))
      · exact hb hf
  · intro htook
    obtain ⟨hm, _⟩ | ⟨p, p', hp, hp', hr, _⟩ := step_cases hs
    · rw [hm] at htook
      omega
    · obtain ⟨⟨maxWait, retcode, hpoint, hsend⟩, htoken, hsig⟩ := hr.takes hb htook
      cases hpoint with
      | test =>
        -- the mark was taken back, so nobody is on the list
        have hin := (hlisted t).mpr (by rw [hp]; rfl)
        obtain hkilled | hempty := hd.mode
        · rw [hsend rfl] at hkilled
          cases hkilled
        · rw [hempty] at hin
          cases hin
      | again =>
        obtain ⟨c, q, hblock, hq, _⟩ := hs.block hp rfl
        cases c with
        | expired answer =>
          refine hno ⟨⟨maxWait, retcode, answer, hp, ?_, ?_⟩, htoken, hsig, u, hu⟩
          · rw [hq]
            exact hblock
          · by_contra hover
            obtain ⟨hfinite, hanswer⟩ := not_or.mp hover
            simp only [againBlock, if_pos (And.intro hfinite (eq_true_of_ne_false hanswer)), Option.some.injEq] at hblock
            have hkept := stillWaiting_tokens (some t) maxWait id retcode s.mem
            rw [hblock] at hkept
            exact absurd (hkept.symm.trans htook) (by omega)
        | _ => cases hblock

/-! ### The unlinking -/

/-- Whoever comes to a semaphore is on its list, or has locked the scheduler, or has its lock
or the list of semaphores. -/
theorem comes_cases (h : Run (code some prio) Initial tr s) (hc : comes (s.ctl u).point = some id) :
    u ∈ (s.mem.sem id).firstSusp ∨ 0 < levels (s.ctl u).point ∨
      ∃ p, s.ctl u = .awake p ∧ (.semLock id ∈ held p ∨ .semListLock ∈ held p) := by
  have hpended : pendsOn (s.ctl u).point = some id → u ∈ (s.mem.sem id).firstSusp := fun hp =>
    ((linked h).lists id).mem u |>.mpr (decide_eq_true hp)
  cases hp : s.ctl u with
  | awake p =>
    rw [hp, Ctl.point_awake] at hc hpended
    obtain hlock | hlist | hpend | hlevel := comes_holds hc
    · exact .inr (.inr ⟨p, rfl, .inl hlock⟩)
    · exact .inr (.inr ⟨p, rfl, .inr hlist⟩)
    · exact .inl (hpended hpend)
    · exact .inr (.inl hlevel)
  | asleep p n =>
    -- whoever sleeps here is pended, or waits for the pended tasks
    obtain ⟨c, lock, timed, next, hi⟩ := h.asleep initial_awake hp
    rw [hp, Ctl.point_asleep] at hc hpended
    cases p <;> simp only [code, reduceCtorEq] at hi
    case takeWait => exact .inl (hpended hc)
    case flushWait => exact .inr (.inl Nat.one_pos)
    case deleteWait => exact .inr (.inl Nat.one_pos)

/-- After the unlinking of a semaphore on whose list nobody is, and whose lock nobody else
has, nobody comes to it any more. -/
theorem deserted_unlinked (h : Run (code some prio) Initial tr s) (hs : Step (code some prio) t s s') {drained : Bool}
    (hp : s.ctl t = .awake (.deleteUnlink id drained)) (hempty : (s.mem.sem id).firstSusp = [])
    (hfree : ∀ v q, s.ctl v = .awake q → .semLock id ∈ held q → v = t) : Deserted id s' := by
  obtain ⟨c, p', hb, hp', _⟩ := hs.block hp rfl
  simp only [Option.some.injEq, Prod.mk.injEq] at hb
  obtain ⟨hm, rfl⟩ := hb
  refine ⟨?_, fun v hc => ?_⟩
  · refine (kept.step hs).withdraws (registry_sound h) ?_ (congrArg Mem.semList hm).symm
    exact (registry_sound h).uses t id (by show uses (s.ctl t).point = some id; rw [hp]; rfl)
  · by_cases hvt : v = t
    · rw [hvt, hp'] at hc
      cases hc
    · rw [hs.ctl_other hvt] at hc
      obtain hin | hlevel | ⟨q, hq, hlock | hlist⟩ := comes_cases h hc
      · rw [hempty] at hin
        cases hin
      · exact hvt (levels_unique h hlevel (by rw [hp]; exact Nat.one_pos))
      · exact hvt (hfree v q hq hlock)
      · refine hvt (held_unique h hq hlist hp ?_)
        cases drained <;> exact List.mem_cons_self ..

/-! ### The run -/

/-- What deletions that are let through keep. -/
structure Sealed (id : ι) (s : SemState θ ι) : Prop where
  marked : ∀ u, marks id (s.ctl u).point = true → Draining id s
  empty : ∀ u, seesEmpty id (s.ctl u).point = true → (s.mem.sem id).firstSusp = []
  offList : ∀ u, offList id (s.ctl u).point = true → Deserted id s

theorem Sealed.marked_step (hd : Sealed id s) (h : Run (code some prio) Initial tr s) (hs : Step (code some prio) t s s')
    (hno : ¬ Admits id ⟨s, t, s'⟩) (hu : marks id (s'.ctl u).point = true) : Draining id s' := by
  have hbefore : marks id (s.ctl u).point = true → Draining id s' := fun hu => (hd.marked u hu).step h hs hu hno
  by_cases hut : u = t
  · subst hut
    obtain ⟨_, _, heq | hnext⟩ | ⟨p, p', hp, hp', hr, _⟩ := step_cases hs
    · exact hbefore (heq ▸ hu)
    · exact hbefore (next_of_marks hnext hu)
    · rw [hp', Ctl.point_awake] at hu
      obtain hmarks | rfl := hr.of_marks hu
      · exact hbefore (by rwa [hp])
      · exact draining_marked h hs hp
  · exact hbefore (hs.ctl_other hut ▸ hu)

theorem Sealed.empty_step (hd : Sealed id s) (h : Run (code some prio) Initial tr s) (hs : Step (code some prio) t s s')
    (hu : seesEmpty id (s'.ctl u).point = true) : (s'.mem.sem id).firstSusp = [] := by
  have hbefore : seesEmpty id (s.ctl u).point = true → (s'.mem.sem id).firstSusp = [] := fun hu =>
    (hd.marked u (marks_of_seesEmpty hu)).empty_step hs (block_of_marks h (marks_of_seesEmpty hu)) (hd.empty u hu)
  by_cases hut : u = t
  · subst hut
    obtain ⟨_, _, heq | hnext⟩ | ⟨p, p', hp, hp', hr, _⟩ := step_cases hs
    · exact hbefore (heq ▸ hu)
    · exact hbefore (next_of_seesEmpty hnext hu)
    · rw [hp', Ctl.point_awake] at hu
      exact hr.of_seesEmpty hu
  · exact hbefore (hs.ctl_other hut ▸ hu)

theorem Sealed.offList_step (hd : Sealed id s) (h : Run (code some prio) Initial tr s) (hs : Step (code some prio) t s s')
    (hfree : Unlinks id true ⟨s, t, s'⟩ → s.owner (.semLock id) = none) (hu : Sem.offList id (s'.ctl u).point = true) :
    Deserted id s' := by
  have hbefore : Sem.offList id (s.ctl u).point = true → Deserted id s' := fun hu => (hd.offList u hu).step kept hs
  by_cases hut : u = t
  · subst hut
    obtain ⟨_, _, heq | hnext⟩ | ⟨p, p', hp, hp', hr, _⟩ := step_cases hs
    · exact hbefore (heq ▸ hu)
    · exact hbefore (next_of_offList hnext hu)
    · rw [hp', Ctl.point_awake] at hu
      obtain ⟨drained, rfl⟩ := hr.of_offList hu
      cases drained with
      | true =>
        refine deserted_unlinked h hs hp (hd.empty u ?_) fun v q hq hlock => ?_
        · rw [hp]
          exact decide_eq_true rfl
        · have hown := owned h (.semLock id) v ((claims_awake hq).mpr hlock)
          rw [hfree hp] at hown
          cases hown
      | false =>
        refine deserted_unlinked h hs hp (quiet_empty h (t := u) ?_) fun v q hq hlock => ?_
        · rw [hp]
          exact decide_eq_true rfl
        · exact held_unique h hq hlock hp (by simp [held])
  · exact hbefore (hs.ctl_other hut ▸ hu)

theorem sealed (h : Run (code some prio) Initial tr s) (hok : ∀ x ∈ tr, Clear prio id x) : Sealed id s := by
  induction h with
  | start hi =>
    constructor <;> (intro u hu; rw [hi.idle u] at hu; cases hu)
  | step hr hs ih =>
    have hd := ih fun x hx => hok x (List.mem_cons_of_mem _ hx)
    obtain ⟨hadmits, _, hfree⟩ := hok _ (List.mem_cons_self ..)
    exact ⟨fun u => hd.marked_step hr hs hadmits, fun u => hd.empty_step hr hs, fun u => hd.offList_step hr hs hfree⟩

/-! ### After the mark -/

/-- The deletion that has marked the semaphore waits, or has unlinked it for good. -/
def Marked (id : ι) (s : SemState θ ι) : Prop := (∃ u, marks id (s.ctl u).point = true) ∨ Deserted id s

theorem Marked.step (hm : Marked id s) (hs : Step (code some prio) t s s') (hd : Sealed id s') : Marked id s' := by
  obtain ⟨u, hu⟩ | hout := hm
  · by_cases hut : u = t
    · subst hut
      obtain ⟨_, _, heq | hnext⟩ | ⟨p, p', hp, hp', hr, _⟩ := step_cases hs
      · exact .inl ⟨u, heq ▸ hu⟩
      · exact .inl ⟨u, next_marks hnext hu⟩
      · rw [hp, Ctl.point_awake] at hu
        obtain hmarks | hoff := hr.marks_goes hu
        · exact .inl ⟨u, by rwa [hp']⟩
        · exact .inr (hd.offList u (by rwa [hp']))
    · exact .inl ⟨u, by rwa [hs.ctl_other hut]⟩
  · exact .inr (hout.step kept hs)

/-- Nobody touches a semaphore that has been unlinked for good. -/
theorem Deserted.calm (hd : Deserted id s) (h : Run (code some prio) Initial tr s) (hs : Step (code some prio) t s s') :
    ¬ StartsToPend id ⟨s, t, s'⟩ ∧ (s'.mem.sem id).tokenCount ≠ (s.mem.sem id).tokenCount - 1 := by
  refine ⟨fun ⟨_, hin⟩ => ?_, ?_⟩
  · refine (hd.step kept hs).comes t (comes_of_pended ?_)
    exact of_decide_eq_true (((linked (h.step hs)).lists id).mem t |>.mp hin)
  · intro htook
    obtain ⟨hm, _⟩ | ⟨p, p', hp, hp', hr, _⟩ := step_cases hs
    · rw [hm] at htook
      omega
    · obtain ⟨⟨maxWait, retcode, hpoint, _⟩, _⟩ := hr.takes hd.withdrawn.1.1 htook
      exact hd.comes t (by rw [hp]; exact hpoint.comes)

/-- In every run in which each deletion of the semaphore is let through, the deletions of it
keep their word. -/
theorem retires (h : Run (code some prio) Initial tr s) (hok : ∀ x ∈ tr, Clear prio id x) : Retires id tr where
  sealed := by
    rintro later x before rfl hmark y hy
    obtain ⟨after, between, rfl⟩ := List.append_of_mem hy
    have hruns : Run (code some prio) Initial (between ++ x :: before) y.pre := by
      rw [List.append_assoc] at h
      exact h.before
    have hys : Step (code some prio) y.thread y.pre y.post := h.steps y (by simp)
    have hokb : ∀ z ∈ between ++ x :: before, Clear prio id z := fun z hz =>
      hok z (by rw [List.append_assoc]; exact List.mem_append_right _ (List.mem_cons_of_mem _ hz))
    have hmarked : Marked id y.pre := by
      refine hruns.since (fun _ s => Marked id s) (.inl ⟨x.thread, ?_⟩) fun z l hl hs hm => ?_
      · have hx : Step (code some prio) x.thread x.pre x.post := h.steps x (by simp)
        obtain ⟨c, p', hb, hp', _⟩ := hx.block hmark rfl
        simp only [Option.some.injEq, Prod.mk.injEq] at hb
        rw [hp', ← hb.2]
        exact decide_eq_true rfl
      · obtain ⟨newer, rfl⟩ := hl
        have hz : Run (code some prio) Initial (l ++ x :: before) z.pre := by
          rw [List.append_assoc] at hruns
          exact hruns.before
        refine hm.step hs (sealed (hz.step hs) fun y hy => hokb y ?_)
        rw [List.append_assoc]
        exact List.mem_append_right _ hy
    obtain ⟨u, hu⟩ | hout := hmarked
    · exact ((sealed hruns hokb).marked u hu).calm hruns hys hu (hok y (by simp)).finds
    · exact hout.calm hruns hys
  vacated := by
    intro x hx drained hp
    obtain ⟨later, before, rfl⟩ := List.append_of_mem hx
    have hruns : Run (code some prio) Initial before x.pre := h.before
    have hout : Deserted id x.pre := by
      refine (sealed hruns fun y hy => hok y (List.mem_append_right _ (List.mem_cons_of_mem _ hy))).offList x.thread ?_
      rw [hp]
      exact decide_eq_true rfl
    refine ⟨?_, fun u hu hin => ?_⟩
    · rw [List.eq_nil_iff_forall_not_mem]
      intro u hu
      exact hout.comes u (comes_of_pended (of_decide_eq_true (((linked hruns).lists id).mem u |>.mp hu)))
    · obtain hcomes | hlevel := comes_of_inside hin
      · exact hout.comes u hcomes
      · exact hu (levels_unique hruns hlevel (by rw [hp]; exact Nat.one_pos))

end

/-! ### A take behind the deletion's back -/

/-- Task 1 is pended and task 0 deletes the semaphore. When task 1 is out and task 0 has seen
the list empty, task 2 takes the semaphore and sleeps; then task 0 frees it. -/
def takeBehind : List (Fin 3 × Input (Choice ℕ)) :=
  makes 0 7 (.binary 0 0) :: goesOn 0 3 ++ calls 1 (.take waitForever) 7 :: goesOn 1 7 ++
    calls 0 .delete 7 :: goesOn 0 12 ++ goesOn 1 8 ++ goesOn 0 2 ++
    calls 2 (.take waitForever) 7 :: goesOn 2 7 ++ goesOn 0 4

/-- A task starts to pend after the mark, and it is still pended when the semaphore is freed. -/
theorem taker_pended_freed :
    (¬ ∀ (tr : List (SemTransition (Fin 3) ℕ)) (s : SemState (Fin 3) ℕ), Run (code some fun _ => 0) Initial tr s →
      ∀ later x before, tr = later ++ x :: before → x.pre.ctl x.thread = .awake (.deleteMark 7) →
        ∀ y ∈ later, ¬ StartsToPend 7 y) ∧
    ¬ ∀ (tr : List (SemTransition (Fin 3) ℕ)) (s : SemState (Fin 3) ℕ), Run (code some fun _ => 0) Initial tr s →
      ∀ x ∈ tr, ∀ drained, x.pre.ctl x.thread = .awake (.deleteFree 7 drained) → (x.pre.mem.sem 7).firstSusp = [] := by
  obtain ⟨later, x, before, s, hr, hs⟩ := run_of_split_check (code some fun _ => 0) takeBehind 26
    (fun (later : List (SemTransition (Fin 3) ℕ)) x _ => x.pre.ctl x.thread = .awake (.deleteMark 7) ∧
      (∃ y ∈ later, y.thread ∉ (y.pre.mem.sem 7).firstSusp ∧ y.thread ∈ (y.post.mem.sem 7).firstSusp) ∧
      ∃ y ∈ later, y.pre.ctl y.thread = .awake (.deleteFree 7 true) ∧ (y.pre.mem.sem 7).firstSusp ≠ [])
    boot_initial (by decide)
  obtain ⟨hmark, ⟨y, hy, hstarts⟩, z, hz, hfree, hpended⟩ := of_decide_eq_true hs
  refine ⟨fun hclaim => ?_, fun hclaim => ?_⟩
  · exact hclaim _ s hr later x before rfl hmark y hy hstarts
  · exact hpended (hclaim _ s hr z (List.mem_append_left _ hz) true hfree)

/-- A deletion that finds its task pended, and nobody comes until it is through. -/
def deleteUndisturbed : List (Fin 2 × Input (Choice ℕ)) :=
  makes 0 7 (.binary 0 0) :: goesOn 0 3 ++ calls 1 (.take waitForever) 7 :: goesOn 1 7 ++
    calls 0 .delete 7 :: goesOn 0 12 ++ goesOn 1 8 ++ goesOn 0 6

/-- The step is in nobody's way. -/
def letsThrough (x : SemTransition (Fin 2) ℕ) : Bool :=
  match x.pre.ctl x.thread with
  | .awake (.findSem (.take _) _) => decide (∀ u : Fin 2, marks 7 (x.pre.ctl u).point = false)
  | .awake (.takeAgain _ _ _) => false
  | .awake (.deleteUnlink _ true) => decide (x.pre.owner (.semLock 7) = none)
  | _ => true

theorem letsThrough_clear {x : SemTransition (Fin 2) ℕ} (h : letsThrough x = true) : Clear (fun _ => 0) 7 x where
  admits := by
    rintro ⟨⟨maxWait, hp⟩, _, u, hu⟩
    rw [letsThrough, hp] at h
    rw [of_decide_eq_true h u] at hu
    cases hu
  finds := by
    rintro ⟨⟨maxWait, retcode, answer, hp, _⟩, _⟩
    rw [letsThrough, hp] at h
    cases h
  free hp := by
    have hp : x.pre.ctl x.thread = .awake (.deleteUnlink 7 true) := hp
    rw [letsThrough, hp] at h
    exact of_decide_eq_true h

theorem deleteUndisturbed_retires : ∃ (tr : List (SemTransition (Fin 2) ℕ)) (x y : SemTransition (Fin 2) ℕ),
    Retires 7 tr ∧ x ∈ tr ∧ x.pre.ctl 0 = .awake (.deleteMark 7) ∧
      y ∈ tr ∧ y.pre.ctl 0 = .awake (.deleteFree 7 true) ∧ (y.pre.mem.sem 7).firstSusp = [] := by
  obtain ⟨tr, s, hr, hs⟩ := run_of_check (code some fun _ => 0) deleteUndisturbed
    (fun (tr : List (SemTransition (Fin 2) ℕ)) _ => (∀ x ∈ tr, letsThrough x = true) ∧
      (∃ x ∈ tr, x.pre.ctl 0 = .awake (.deleteMark 7)) ∧
      ∃ y ∈ tr, y.thread = 0 ∧ y.pre.ctl 0 = .awake (.deleteFree 7 true))
    boot_initial (by decide)
  obtain ⟨hok, ⟨x, hx, hmark⟩, y, hy, hthread, hfree⟩ := of_decide_eq_true hs
  have hretires := retires hr fun x hx => letsThrough_clear (hok x hx)
  exact ⟨tr, x, y, hretires, hx, hmark, hy, hfree, (hretires.vacated y hy true (by rw [hthread, hfree])).1⟩

end V2lin.Sem
