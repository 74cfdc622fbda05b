import V2lin.Sem.Deletion
import V2lin.Threads.Lookups

/-! `sem_find_lock` and the calls of the semaphore library.

A take that a deletion wakes reports the same code as one whose semaphore is not found.
But a semaphore is marked killed only while its deletion goes on, so as long as nobody is
deleting the semaphore, the code says that it was not found. -/
namespace V2lin.Sem
open Threads V2lin.Task

section
variable {θ ι : Type}

/-! ### What the points are -/

def isDeletion : Op → Bool
  | .delete => true
  | _ => false

/-- The code that a call is about to return: not the one for an unknown semaphore. -/
def reports (op : Op) (id : ι) (error : Status) : View Op ι :=
  if error = .objIdError then .outside else .inside op id

def view : Pc ι → View Op ι
  | .idle | .linkLock _ | .linkAppend _ | .linkUnlock _ => .outside
  | .returned op id error => .returned op id (error = .objIdError)
  | .findLock op id | .findScan op id => .seeks op id
  | .findUnlock op id false => .missed op id
  | .findSem op id | .findUnlock op id true => .inside op id
  | .takeStart maxWait id | .takeTest maxWait id _ | .takeWait maxWait id => .inside (.take maxWait) id
  | .takePoll maxWait id _ | .takeRelock maxWait id _ | .takeAgain maxWait id _ => .inside (.take maxWait) id
  | .takeLastLock maxWait id error | .takeLastNotify maxWait id error => reports (.take maxWait) id error
  | .takeLastReset maxWait id error | .takeLastUnlock maxWait id error => reports (.take maxWait) id error
  | .takeEnd maxWait id error | .takeUnlock maxWait id error => reports (.take maxWait) id error
  | .giveStart id | .giveNotify id => .inside .give id
  | .giveUnlock id error => reports .give id error
  | .flushStart id | .flushRefuse id | .flushTaskLock id | .flushTest id | .flushSmdelLock id => .inside .flush id
  | .flushMark id | .flushNotify id | .flushSemUnlock id | .flushDrain id | .flushWait id => .inside .flush id
  | .flushSmdelUnlock id | .flushTaskUnlock id _ => .inside .flush id
  | .deleteTaskLock id | .deleteTest id | .deleteSmdelLock id | .deleteMark id => .inside .delete id
  | .deleteNotify id | .deleteSemUnlock id | .deleteDrain id | .deleteWait id => .inside .delete id
  | .deleteListLock id _ | .deleteUnlink id _ => .inside .delete id
  | .deleteListUnlock id _ | .deleteFree id _ | .deleteTaskUnlock id _ => .removed .delete id

def listEdit : Pc ι → Option (ListEdit ι)
  | .linkAppend id => some (.link id)
  | .deleteUnlink id _ => some (.unlink id)
  | _ => none

/-- The semaphore that is being made or deleted. -/
def changes : Pc ι → Option ι
  | .linkLock id | .linkAppend id | .linkUnlock id => some id
  | .deleteTaskLock id | .deleteTest id | .deleteSmdelLock id | .deleteMark id => some id
  | .deleteNotify id | .deleteSemUnlock id | .deleteDrain id | .deleteWait id => some id
  | .deleteListLock id _ | .deleteUnlink id _ | .deleteListUnlock id _ => some id
  | .deleteFree id _ | .deleteTaskUnlock id _ => some id
  | _ => none

/-- The deletion has marked the semaphore, and not yet unlinked it. -/
def marks (id : ι) [DecidableEq ι] : Pc ι → Bool
  | .deleteNotify j | .deleteSemUnlock j | .deleteDrain j | .deleteWait j => j = id
  | .deleteListLock j drained | .deleteUnlink j drained => drained = true ∧ j = id
  | _ => false

variable {p p' : Pc ι} {id : ι}

theorem view_resting (h : p.resting = true) : (view p).active = false := by
  cases p <;> first | rfl | cases h

theorem looking_resting (h : p.resting = true) : (view p).looking = false := by
  cases p <;> first | rfl | cases h

theorem listEdit_resting (h : p.resting = true) : listEdit p = none := by
  cases p <;> first | rfl | cases h

theorem WaitPoint.view {maxWait : Int} {retcode : Retcode} (h : WaitPoint maxWait id retcode p) :
    view p = .inside (.take maxWait) id := by
  cases h <;> rfl

theorem WaitPoint.listEdit {maxWait : Int} {retcode : Retcode} (h : WaitPoint maxWait id retcode p) :
    listEdit p = none := by
  cases h <;> rfl

theorem reports_inside (op : Op) (id : ι) {error : Status} (h : error ≠ .objIdError) :
    reports op id error = .inside op id := if_neg h

theorem reports_looking (op : Op) (id : ι) (error : Status) : (reports op id error).looking = false := by
  unfold reports
  split <;> rfl

theorem view_entry (op : Op) (id : ι) : view (entry op id) = .inside op id := by
  cases op <;> rfl

theorem waitError_ne (maxWait : Int) (retcode : Retcode) : waitError maxWait retcode ≠ .objIdError := by
  unfold waitError
  split <;> split <;> exact nofun

variable [DecidableEq θ] [DecidableEq ι]
variable {myTask : θ → Option θ} {prio : θ → Int} {t u : θ} {m m' : Mem θ ι} {l : List ι}

omit [DecidableEq θ] in
theorem marks_resting (h : p.resting = true) : marks id p = false := by
  cases p <;> first | rfl | cases h

omit [DecidableEq θ] in
theorem changes_of_marks (h : marks id p = true) : changes p = some id := by
  cases p <;> first
    | cases h
    | exact congrArg some (of_decide_eq_true h)
    | exact congrArg some (of_decide_eq_true h).2

omit [DecidableEq θ] in
theorem uses_of_marks (h : marks id p = true) : uses p = some id := by
  cases p <;> first
    | cases h
    | exact congrArg some (of_decide_eq_true h)
    | exact congrArg some (of_decide_eq_true h).2

/-! ### The steps of a call -/

omit [DecidableEq ι] in
/-- From a point before a return, a call goes on or returns its code. -/
theorem reports_moves {op : Op} {error : Status} (hop : isDeletion op = false) (h : (reports op id error).active = true) :
    Lookups.Moves isDeletion l none (reports op id error) (.returned op id (error = .objIdError)) := by
  by_cases he : error = .objIdError
  · rw [reports, if_pos he] at h
    cases h
  · rw [reports_inside op id he, decide_eq_false he]
    exact .ended hop

theorem next_moves (h : (code myTask prio t p).Next p') (hp : (view p).active = true) :
    Lookups.Moves isDeletion l (listEdit p) (view p) (view p') := by
  cases p
  case findUnlock op j found =>
    cases h
    cases found
    · exact .rejected
    · show Lookups.Moves isDeletion l none (.inside op j) (view (entry op j))
      rw [view_entry]
      exact .stays _ rfl
  case takeUnlock maxWait j error =>
    cases h
    exact reports_moves rfl hp
  case giveUnlock j error =>
    cases h
    exact reports_moves rfl hp
  case flushRefuse j =>
    cases h
    exact .ended rfl
  all_goals first
    | exact False.elim h
    | (cases h; exact .stays _ rfl)
    | (obtain ⟨r, rfl⟩ := h; exact .stays _ rfl)

theorem Runs.moves (h : Runs myTask prio t p m m' p') (hp : (view p).active = true)
    (hkill : ∀ maxWait id, view p = .inside (.take maxWait) id → (m.sem id).sendType ≠ .killd) :
    Lookups.Moves isDeletion m.semList (listEdit p) (view p) (view p') := by
  cases h with
  | called _ _ hrest => rw [view_resting hrest] at hp; cases hp
  | refused hrest => rw [view_resting hrest] at hp; cases hp
  | created _ _ hrest => rw [view_resting hrest] at hp; cases hp
  | linked => cases hp
  | found op hin => exact .found rfl hin
  | notFound op hout => exact .missed rfl hout
  | @left _ _ maxWait id v retcode v' error last hw hl =>
    obtain ⟨_, hpoint⟩ := hw.point
    have hspared : v.sendType ≠ .killd := by
      rw [hw.sendType]
      exact hkill maxWait id hpoint.view
    have hview : view (if last = true then .takeLastLock maxWait id error else .takeEnd maxWait id error) =
        .inside (.take maxWait) id := by
      rw [← reports_inside (.take maxWait) id (hl.spared hspared ▸ waitError_ne maxWait retcode)]
      split <;> rfl
    rw [hpoint.listEdit, hpoint.view, hview]
    exact .stays _ rfl
  | sleeps hpoint =>
    rw [hpoint.listEdit, hpoint.view]
    exact .stays _ rfl
  | polls hpoint =>
    rw [hpoint.listEdit, hpoint.view]
    exact .stays _ rfl
  | @gave _ id v error hg =>
    have hview : view (if error = .ok ∧ v.firstSusp ≠ [] then .giveNotify id else .giveUnlock id error) =
        .inside .give id := by
      split
      · rfl
      · refine reports_inside .give id fun herror => ?_
        subst herror
        unfold giveToken at hg
        split at hg
        · cases hg
        · split at hg
          · split at hg <;> cases hg
          · cases hg
    rw [hview]
    exact .stays _ rfl
  | flushTaskUnlocked => exact .ended rfl
  | unlinked => exact .removed rfl
  | deleteTaskUnlocked => exact .gone
  | _ => exact .stays _ rfl

theorem Runs.lists (h : Runs myTask prio t p m m' p') : m'.semList = Lookups.edited m.semList (listEdit p) := by
  cases h with
  | called _ _ hrest => rw [listEdit_resting hrest]; rfl
  | refused hrest => rw [listEdit_resting hrest]; rfl
  | created _ _ hrest => rw [listEdit_resting hrest]; rfl
  | left hw =>
    obtain ⟨_, hpoint⟩ := hw.point
    rw [hpoint.listEdit]
    rfl
  | sleeps hpoint => rw [hpoint.listEdit]; rfl
  | polls hpoint => rw [hpoint.listEdit]; rfl
  | reentered => simp [listEdit, Lookups.edited]
  | pended => simp [listEdit, Lookups.edited]
  | ended => simp [listEdit, Lookups.edited]
  | _ => rfl

/-- The code up to the lookup changes nothing. -/
theorem Runs.still (h : Runs myTask prio t p m m' p') (hp : (view p).looking = true ∨ (view p').looking = true) :
    m' = m := by
  have hleaving : ∀ op (id : ι) error, (reports op id error).looking ≠ true := fun op id error => by
    rw [reports_looking]
    exact nofun
  cases h with
  | called => rfl
  | refused => rfl
  | found => rfl
  | notFound => rfl
  | sleeps => rfl
  | polls => rfl
  | created _ _ hrest =>
    obtain hview | hview := hp
    · rw [looking_resting hrest] at hview
      cases hview
    · cases hview
  | left hw =>
    obtain ⟨_, hpoint⟩ := hw.point
    rw [hpoint.view] at hp
    obtain hview | hview := hp
    · cases hview
    · split at hview <;> exact absurd hview (hleaving _ _ _)
  | gave =>
    obtain hview | hview := hp
    · cases hview
    · split at hview
      · cases hview
      · exact absurd hview (hleaving _ _ _)
  | reset => exact absurd hp (not_or.mpr ⟨hleaving _ _ _, hleaving _ _ _⟩)
  | ended => exact absurd hp (not_or.mpr ⟨hleaving _ _ _, hleaving _ _ _⟩)
  | _ => obtain hview | hview := hp <;> cases hview

/-- What is no block edits no list. -/
theorem listEdit_of_no_block (h : ∀ block, code myTask prio t p ≠ .run block) : listEdit p = none := by
  cases p <;> first
    | rfl
    | exact absurd rfl (h _)

/-! ### A killed semaphore -/

variable {s s' : SemState θ ι} {tr : List (SemTransition θ ι)}

/-- A semaphore that is marked killed has a deletion that has marked it, or is off the list. -/
def Killed (s : SemState θ ι) : Prop := ∀ id, s.mem.block id ≠ .fresh → (s.mem.sem id).sendType = .killd →
  (∃ u, marks id (s.ctl u).point = true) ∨ (registry s).Withdrawn id

theorem next_marks (h : (code myTask prio t p).Next p') (hp : marks id p = true) : marks id p' = true := by
  cases p <;> first
    | cases hp
    | exact False.elim h
    | (cases h; exact hp)
    | (obtain ⟨r, rfl⟩ := h; exact hp)

/-- The deletion that has marked a semaphore goes on until it unlinks it. -/
theorem Runs.marks_cases (h : Runs myTask prio t p m m' p') (hp : marks id p = true) :
    marks id p' = true ∨ m'.semList = m.semList.erase id := by
  cases h with
  | called _ _ hrest => rw [marks_resting hrest] at hp; cases hp
  | refused hrest => rw [marks_resting hrest] at hp; cases hp
  | created _ _ hrest => rw [marks_resting hrest] at hp; cases hp
  | left hw =>
    obtain ⟨_, hpoint⟩ := hw.point
    cases hpoint <;> cases hp
  | sleeps hpoint => cases hpoint <;> cases hp
  | polls hpoint => cases hpoint <;> cases hp
  | deleteUndrained => exact .inl hp
  | deleteDrained =>
    refine .inl ?_
    simpa [marks] using hp
  | unlinked j drained =>
    have hj : j = id := by
      simp only [marks, Bool.decide_and, Bool.and_eq_true, decide_eq_true_eq] at hp
      exact hp.2
    exact .inr (by rw [hj])
  | _ => cases hp

/-- Who marks a semaphore killed. -/
theorem Runs.killd_cases (h : Runs myTask prio t p m m' p') (huse : uses p = some id → m.block id ≠ .fresh)
    (hb : m'.block id ≠ .fresh) (hk : (m'.sem id).sendType = .killd) :
    m.block id ≠ .fresh ∧ (m.sem id).sendType = .killd ∨ p = .deleteMark id := by
  by_cases hf : m.block id = .fresh
  · cases h with
    | @created _ _ v j args hrest hfj hv =>
      by_cases hj : id = j
      · subst hj
        have hsend : (Function.update m.sem id v id).sendType = .killd := hk
        rw [Function.update_self, (Create.block_created hv).sendType] at hsend
        cases hsend
      · exact absurd (by simpa [hj] using hf) hb
    | freed j drained =>
      by_cases hj : id = j
      · subst hj
        exact absurd hf (huse rfl)
      · exact absurd (by simpa [hj] using hf) hb
    | reentered => exact absurd (by simpa using hf) hb
    | pended => exact absurd (by simpa using hf) hb
    | ended => exact absurd (by simpa using hf) hb
    | _ => exact absurd hf hb
  · obtain heq | ⟨_, _, _, heq⟩ | ⟨_, heq⟩ | ⟨rfl, _⟩ := h.sendType_cases hf
    · exact .inl ⟨hf, heq ▸ hk⟩
    · rw [heq] at hk
      cases hk
    · rw [heq] at hk
      cases hk
    · exact .inr rfl

theorem Runs.after_mark (h : Runs myTask prio t (.deleteMark id) m m' p') : p' = .deleteNotify id := by
  cases h with
  | deleteMarked => rfl
  | called _ _ hrest => cases hrest
  | refused hrest => cases hrest
  | created _ _ hrest => cases hrest
  | left hw =>
    obtain ⟨_, hpoint⟩ := hw.point
    cases hpoint
  | sleeps hpoint => cases hpoint
  | polls hpoint => cases hpoint

theorem killed_step (hr : Run (code myTask prio) Initial tr s) (hk : Killed s) (h : Step (code myTask prio) t s s') :
    Killed s' := by
  intro id hb hkilled
  have hsound := registry_sound hr
  have hstep := kept.step h
  have huse : ∀ u, uses (s.ctl u).point = some id → (registry s).Published id := fun u hu => hsound.uses u id hu
  have hother : ∀ u ≠ t, marks id (s.ctl u).point = true → ∃ u, marks id (s'.ctl u).point = true := by
    intro u hu hmarks
    exact ⟨u, by rwa [h.ctl_other hu]⟩
  have hold : s.mem.block id ≠ .fresh → (s.mem.sem id).sendType = .killd →
      (marks id (s.ctl t).point = true → (∃ u, marks id (s'.ctl u).point = true) ∨ (registry s').Withdrawn id) →
      (∃ u, marks id (s'.ctl u).point = true) ∨ (registry s').Withdrawn id := by
    intro hb hkilled hself
    obtain ⟨u, hu⟩ | hout := hk id hb hkilled
    · by_cases hut : u = t
      · exact hself (hut ▸ hu)
      · exact .inl (hother u hut hu)
    · exact .inr (hstep.withdrawn hout)
  obtain ⟨hm, _, hpoint⟩ | ⟨p, p', hp, hp', hruns, _⟩ := step_cases h
  · rw [hm] at hb hkilled
    refine hold hb hkilled fun hmarks => .inl ⟨t, ?_⟩
    obtain heq | hnext := hpoint
    · rwa [heq]
    · exact next_marks hnext hmarks
  · rw [hp, Ctl.point_awake] at hold
    have husep : uses p = some id → (registry s).Published id := by
      have hut := huse t
      rwa [hp] at hut
    obtain ⟨hb', hkilled'⟩ | rfl := hruns.killd_cases (fun hu => (husep hu).1) hb hkilled
    · refine hold hb' hkilled' fun hmarks => ?_
      obtain hmarks' | hlist := hruns.marks_cases hmarks
      · exact .inl ⟨t, by rwa [hp']⟩
      · exact .inr (hstep.withdraws hsound (husep (uses_of_marks hmarks)) hlist)
    · refine .inl ⟨t, ?_⟩
      rw [hp', hruns.after_mark]
      exact decide_eq_true rfl

theorem killed (h : Run (code myTask prio) Initial tr s) : Killed s := by
  induction h with
  | start hi =>
    intro id hb
    exact absurd (hi.fresh id) hb
  | step hr hs ih => exact killed_step hr ih hs

/-! ### The library -/

/-- The semaphore library. -/
def lookups (myTask : θ → Option θ) (prio : θ → Int) :
    Lookups θ (Mem θ ι) (Lock ι) (Cond ι) (Pc ι) (Choice ι) Op ι where
  code := code myTask prio
  initial := Initial
  listed := Mem.semList
  deletes := isDeletion
  edit := listEdit
  changes := changes
  view := view

theorem lookups_sound (myTask : θ → Option θ) (prio : θ → Int) :
    (lookups myTask prio : Lookups θ (Mem θ ι) _ _ _ _ Op ι).Sound where
  empty s hs := hs.semList
  nodup h := (registry_sound h).nodup
  lists {t s s'} h := by
    show s'.mem.semList = Lookups.edited s.mem.semList (listEdit (s.ctl t).point)
    obtain ⟨hm, hblock, _⟩ | ⟨p, p', hp, _, hr, _⟩ := step_cases h
    · rw [hm, listEdit_of_no_block hblock]
      rfl
    · rw [hp, Ctl.point_awake]
      exact hr.lists
  starts {t s s' op id} h hidle hseeks := by
    obtain ⟨hm, _⟩ | ⟨p, p', hp, hp', hr, _⟩ := step_cases h
    · exact hm
    · refine hr.still (.inr ?_)
      have hview : view (s'.ctl t).point = .seeks op id := hseeks
      rw [hp', Ctl.point_awake] at hview
      rw [hview]
      rfl
  changes p id h := by
    cases p <;> obtain h | h := h <;> cases h <;> rfl
  moves {tr t s s'} h hs hactive hinside := by
    show Lookups.Moves isDeletion s.mem.semList (listEdit (s.ctl t).point) (view (s.ctl t).point) (view (s'.ctl t).point)
    obtain ⟨_, hblock, heq | hnext⟩ | ⟨p, p', hp, hp', hr, _⟩ := step_cases hs
    · rw [heq, listEdit_of_no_block hblock]
      exact .stays _ rfl
    · exact next_moves hnext hactive
    · rw [hp, hp', Ctl.point_awake, Ctl.point_awake]
      have hactive : (view p).active = true := by rwa [hp] at hactive
      refine hr.moves hactive fun maxWait id hview hkilled => ?_
      have hpoint : view (s.ctl t).point = .inside (.take maxWait) id := by rw [hp, Ctl.point_awake, hview]
      obtain ⟨hin, hothers⟩ := hinside _ id hpoint
      have hlisted := (registry_sound h).listed id hin
      obtain ⟨u, hu⟩ | hout := killed h id hlisted.1 hkilled
      · refine hothers u ?_ (changes_of_marks hu)
        rintro rfl
        rw [hp, Ctl.point_awake] at hu
        cases p <;> first | cases hu | cases hview
      · exact hout.2 hin
  still {t s s'} h hlooking := by
    obtain ⟨hm, _⟩ | ⟨p, p', hp, _, hr, _⟩ := step_cases h
    · exact hm
    · rw [hp, Ctl.point_awake] at hlooking
      exact hr.still (.inl hlooking)

end

end V2lin.Sem
