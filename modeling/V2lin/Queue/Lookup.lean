import V2lin.Queue.Vacated
import V2lin.Queue.Pended
import V2lin.Threads.Lookups

/-! `mqueue_find_lock` and the calls of the message queue library.

`msgQNumMsgs` reports an unknown queue by its result `ERROR`, which is no number of
messages; the others report a code that nothing else in the library reports. -/
namespace V2lin.Queue
open Threads V2lin.Task

section
variable {θ ι : Type}

/-! ### What the points are -/

def isDeletion : Op → Bool
  | .delete => true
  | _ => false

/-- Past the lookup, in a call that is no deletion. -/
def continues (op : Op) (id : ι) : View Op ι := if isDeletion op then .outside else .inside op id

/-- The reply that a call is about to return: not the one for an unknown queue. -/
def reports (op : Op) (id : ι) (reply : Reply) : View Op ι := if reply = notFound op then .outside else continues op id

def view : Pc ι → View Op ι
  | .idle | .linkLock _ | .linkAppend _ | .linkUnlock _ => .outside
  | .returned op id reply => .returned op id (reply = notFound op)
  | .findLock op id | .findScan op id => .seeks op id
  | .findUnlock op id false => .missed op id
  | .findQueue op id | .findUnlock op id true => .inside op id
  | .sendStart a id | .sendNotify a id | .waitUnlock a id | .waitTest a id _ => .inside (.send a) id
  | .waitSleep a id | .waitPoll a id _ | .waitPollLock a id _ => .inside (.send a) id
  | .waitAgain a id _ | .waitRelock a id _ | .waitEnd a id _ => .inside (.send a) id
  | .receiveStart a id | .readyLock a id | .readyNotify a id | .readyUnlock a id => .inside (.receive a) id
  | .receiveTest a id _ | .receiveSleep a id | .receivePoll a id _ => .inside (.receive a) id
  | .receivePollLock a id _ | .receiveAgain a id _ => .inside (.receive a) id
  | .spaceLock a id _ | .spaceNotify a id _ | .spaceUnlock a id _ => .inside (.receive a) id
  | .lastLock op id | .lastNotify op id | .lastUnlock op id => continues op id
  | .numStart id => .inside .numMsgs id
  | .leave op id reply => reports op id reply
  | .deleteMark id | .deleteTaskLock id | .deleteTest id | .deleteQueueUnlock id => .inside .delete id
  | .deleteQdletLock id | .deleteNotify id | .deleteQueueRelease id | .deleteQfullLock id => .inside .delete id
  | .deleteSpaceNotify id | .deleteQfullUnlock id | .deleteDrain id | .deleteWait id => .inside .delete id
  | .deleteQdletUnlock id | .deleteListLock id | .deleteUnlink id => .inside .delete id
  | .deleteListUnlock id | .deleteFree id | .deleteTaskUnlock id => .removed .delete id

def listEdit : Pc ι → Option (ListEdit ι)
  | .linkAppend id => some (.link id)
  | .deleteUnlink id => some (.unlink id)
  | _ => none

/-- The queue that is being made or deleted. -/
def changes : Pc ι → Option ι
  | .linkLock id | .linkAppend id | .linkUnlock id => some id
  | .deleteMark id | .deleteTaskLock id | .deleteTest id | .deleteQueueUnlock id => some id
  | .deleteQdletLock id | .deleteNotify id | .deleteQueueRelease id | .deleteQfullLock id => some id
  | .deleteSpaceNotify id | .deleteQfullUnlock id | .deleteDrain id | .deleteWait id => some id
  | .deleteQdletUnlock id | .deleteListLock id | .deleteUnlink id => some id
  | .deleteListUnlock id | .deleteFree id | .deleteTaskUnlock id => some id
  | _ => none

variable {p p' : Pc ι} {id : ι}

theorem view_resting (h : p.resting = true) : (view p).active = false := by
  cases p <;> first | rfl | cases h

theorem looking_resting (h : p.resting = true) : (view p).looking = false := by
  cases p <;> first | rfl | cases h

theorem listEdit_resting (h : p.resting = true) : listEdit p = none := by
  cases p <;> first | rfl | cases h

theorem SpacePoint.view {a : SendArgs} {retcode : Retcode} (h : SpacePoint a id retcode p) :
    view p = .inside (.send a) id := by
  cases h <;> rfl

theorem SpacePoint.listEdit {a : SendArgs} {retcode : Retcode} (h : SpacePoint a id retcode p) : listEdit p = none := by
  cases h <;> rfl

theorem MsgPoint.view {a : ReceiveArgs} {retcode : Retcode} (h : MsgPoint a id retcode p) :
    view p = .inside (.receive a) id := by
  cases h <;> rfl

theorem MsgPoint.listEdit {a : ReceiveArgs} {retcode : Retcode} (h : MsgPoint a id retcode p) : listEdit p = none := by
  cases h <;> rfl

theorem continues_inside {op : Op} (hop : isDeletion op = false) (id : ι) : continues op id = .inside op id := by
  rw [continues, hop]
  rfl

theorem continues_looking (op : Op) (id : ι) : (continues op id).looking = false := by
  unfold continues
  split <;> rfl

theorem reports_continues (op : Op) (id : ι) {reply : Reply} (h : reply ≠ notFound op) : reports op id reply = continues op id :=
  if_neg h

theorem reports_looking (op : Op) (id : ι) (reply : Reply) : (reports op id reply).looking = false := by
  unfold reports
  split
  · rfl
  · exact continues_looking op id

theorem view_entry (op : Op) (id : ι) : view (entry op id) = .inside op id := by
  cases op <;> rfl

theorem failed_ne (op : Op) {error : Status} (h : error ≠ .objIdError) : .failed error ≠ notFound op := by
  cases op with
  | numMsgs => exact nofun
  | send => exact fun heq => h (Reply.failed.inj heq)
  | receive => exact fun heq => h (Reply.failed.inj heq)
  | delete => exact fun heq => h (Reply.failed.inj heq)

theorem view_deletedPoint (op : Op) (id : ι) (last : Bool) : view (deletedPoint op id last) = continues op id := by
  cases last
  · exact reports_continues op id (failed_ne op nofun)
  · rfl

theorem view_receivedPoint (a : ReceiveArgs) (id : ι) (msg : List UInt8) (space : Bool) :
    view (receivedPoint a id msg space) = .inside (.receive a) id := by
  cases space
  · exact reports_continues (.receive a) id nofun
  · rfl

variable [DecidableEq θ] [DecidableEq ι]
variable {myTask : θ → Option θ} {prio : θ → ℤ} {t u : θ} {m m' : Mem θ ι} {l : List ι}

/-! ### The steps of a call -/

omit [DecidableEq ι] in
theorem reports_moves {op : Op} {reply : Reply} (h : (reports op id reply).active = true) :
    Lookups.Moves isDeletion l none (reports op id reply) (.returned op id (reply = notFound op)) := by
  by_cases he : reply = notFound op
  · rw [reports, if_pos he] at h
    cases h
  · rw [reports_continues op id he] at h ⊢
    cases hop : isDeletion op with
    | true =>
      rw [continues, if_pos hop] at h
      cases h
    | false =>
      rw [continues_inside hop, decide_eq_false he]
      exact .ended hop

theorem next_moves (h : (code myTask prio t p).Next p') (hp : (view p).active = true) :
    Lookups.Moves isDeletion l (listEdit p) (view p) (view p') := by
  have hstays : ∀ op {j : ι} {reply}, reply ≠ notFound op →
      Lookups.Moves isDeletion l none (continues op j) (reports op j reply) := fun _ _ _ hne => by
    rw [reports_continues _ _ hne]
    exact .stays _ rfl
  cases p
  case findUnlock op j found =>
    cases h
    cases found
    · have hrejected : Lookups.Moves isDeletion l none (.missed op j) (.returned op j true) := .rejected
      rwa [← decide_eq_true (rfl : notFound op = notFound op)] at hrejected
    · show Lookups.Moves isDeletion l none (.inside op j) (view (entry op j))
      rw [view_entry]
      exact .stays _ rfl
  case leave op j reply =>
    cases h
    exact reports_moves hp
  case sendNotify a j =>
    cases h
    exact hstays (.send a) nofun
  case spaceUnlock a j msg =>
    cases h
    exact hstays (.receive a) nofun
  case lastUnlock op j =>
    cases h
    exact hstays op (failed_ne op nofun)
  all_goals first
    | exact False.elim h
    | (cases h; exact .stays _ rfl)
    | (obtain ⟨r, rfl⟩ := h; exact .stays _ rfl)

theorem Runs.moves (h : Runs myTask prio t p m m' p') (hp : (view p).active = true)
    (hn : ∀ id, 0 ≤ (m.queue id).msgCount) : Lookups.Moves isDeletion m.mqueueList (listEdit p) (view p) (view p') := by
  have hleave : ∀ op {j : ι} {reply}, reply ≠ Queue.notFound op →
      Lookups.Moves isDeletion m.mqueueList none (continues op j) (reports op j reply) := fun _ _ _ hne => by
    rw [reports_continues _ _ hne]
    exact .stays _ rfl
  cases h with
  | called _ _ hrest => rw [view_resting hrest] at hp; cases hp
  | created _ _ _ _ hrest => rw [view_resting hrest] at hp; cases hp
  | linked => cases hp
  | found op hin => exact .found rfl hin
  | notFound op hout => exact .missed rfl hout
  | sendTooLong => exact hleave (.send _) (failed_ne _ nofun)
  | sendFull => exact hleave (.send _) (failed_ne _ nofun)
  | sendTimedOut => exact hleave (.send _) (failed_ne _ nofun)
  | receiveTooShort => exact hleave (.receive _) (failed_ne _ nofun)
  | spaceOver hpoint =>
    rw [hpoint.listEdit, hpoint.view]
    exact .stays _ rfl
  | spaceTimedOut hpoint =>
    rw [hpoint.listEdit, hpoint.view]
    exact .stays _ rfl
  | spaceSleeps hpoint =>
    rw [hpoint.listEdit, hpoint.view]
    exact .stays _ rfl
  | spacePolls hpoint =>
    rw [hpoint.listEdit, hpoint.view]
    exact .stays _ rfl
  | sendDeleted =>
    rw [view_deletedPoint]
    exact .stays _ rfl
  | pended =>
    split <;> exact .stays _ rfl
  | receiveDeleted hpoint =>
    rw [view_deletedPoint, hpoint.listEdit, hpoint.view]
    exact .stays _ rfl
  | receiveTimedOut hpoint =>
    rw [hpoint.listEdit, hpoint.view]
    exact hleave (.receive _) (failed_ne _ (by split <;> exact nofun))
  | fetched hpoint =>
    rw [view_receivedPoint, hpoint.listEdit, hpoint.view]
    exact .stays _ rfl
  | receiveSleeps hpoint =>
    rw [hpoint.listEdit, hpoint.view]
    exact .stays _ rfl
  | receivePolls hpoint =>
    rw [hpoint.listEdit, hpoint.view]
    exact .stays _ rfl
  | counted j =>
    refine hleave .numMsgs fun heq => ?_
    have hcount := hn j
    rw [Reply.count.inj heq] at hcount
    cases hcount
  | unlinked => exact .removed rfl
  | deleteTaskUnlocked => exact .gone
  | _ => exact .stays _ rfl

theorem Runs.lists (h : Runs myTask prio t p m m' p') : m'.mqueueList = Lookups.edited m.mqueueList (listEdit p) := by
  cases h with
  | called _ _ hrest => rw [listEdit_resting hrest]; rfl
  | created _ _ _ _ hrest => rw [listEdit_resting hrest]; rfl
  | spaceOver hpoint => rw [hpoint.listEdit]; rfl
  | spaceTimedOut hpoint => rw [hpoint.listEdit]; rfl
  | spaceSleeps hpoint => rw [hpoint.listEdit]; rfl
  | spacePolls hpoint => rw [hpoint.listEdit]; rfl
  | receiveDeleted hpoint => rw [hpoint.listEdit]; rfl
  | receiveTimedOut hpoint => rw [hpoint.listEdit]; rfl
  | fetched hpoint => rw [hpoint.listEdit]; rfl
  | receiveSleeps hpoint => rw [hpoint.listEdit]; rfl
  | receivePolls hpoint => rw [hpoint.listEdit]; rfl
  | _ => rfl

/-- The code up to the lookup changes nothing. -/
theorem Runs.still (h : Runs myTask prio t p m m' p') (hp : (view p).looking = true ∨ (view p').looking = true) :
    m' = m := by
  cases h with
  | called => rfl
  | found => rfl
  | notFound => rfl
  | sendTooLong => rfl
  | sendFull => rfl
  | spaceOver => rfl
  | spaceTimedOut => rfl
  | spaceSleeps => rfl
  | spacePolls => rfl
  | receiveTooShort => rfl
  | receiveSleeps => rfl
  | receivePolls => rfl
  | counted => rfl
  | created _ _ _ _ hrest =>
    obtain hview | hview := hp
    · rw [looking_resting hrest] at hview
      cases hview
    · cases hview
  | sendDeleted =>
    rw [view_deletedPoint] at hp
    obtain hview | hview := hp <;> cases hview
  | sendTimedOut =>
    obtain hview | hview := hp
    · cases hview
    · exact absurd ((reports_looking _ _ _).symm.trans hview) nofun
  | pended =>
    obtain hview | hview := hp
    · cases hview
    · split at hview <;> cases hview
  | receiveDeleted hpoint =>
    rw [view_deletedPoint, hpoint.view] at hp
    obtain hview | hview := hp <;> cases hview
  | receiveTimedOut hpoint =>
    rw [hpoint.view] at hp
    obtain hview | hview := hp
    · cases hview
    · exact absurd ((reports_looking _ _ _).symm.trans hview) nofun
  | fetched hpoint =>
    rw [view_receivedPoint, hpoint.view] at hp
    obtain hview | hview := hp <;> cases hview
  | _ => obtain hview | hview := hp <;> cases hview

theorem listEdit_of_no_block (h : ∀ block, code myTask prio t p ≠ .run block) : listEdit p = none := by
  cases p <;> first
    | rfl
    | exact absurd rfl (h _)

/-! ### The library -/

/-- The message queue library. -/
def lookups (myTask : θ → Option θ) (prio : θ → ℤ) :
    Lookups θ (Mem θ ι) (Lock ι) (Cond ι) (Pc ι) (Choice ι) Op ι where
  code := code myTask prio
  initial := Initial
  listed := Mem.mqueueList
  deletes := isDeletion
  edit := listEdit
  changes := changes
  view := view

theorem lookups_sound (myTask : θ → Option θ) (prio : θ → ℤ) :
    (lookups myTask prio : Lookups θ (Mem θ ι) _ _ _ _ Op ι).Sound where
  empty s hs := hs.mqueueList
  nodup h := (registry_sound h).nodup
  lists {t s s'} h := by
    show s'.mem.mqueueList = Lookups.edited s.mem.mqueueList (listEdit (s.ctl t).point)
    obtain ⟨hm, hblock, _⟩ | ⟨p, p', hp, _, hr, _⟩ := step_cases h
    · rw [hm, listEdit_of_no_block hblock]
      rfl
    · rw [hp, Ctl.point_awake]
      exact hr.lists
  starts {t s s' op id} h hidle hseeks := by
    obtain ⟨hm, _⟩ | ⟨p, p', hp, hp', hr, _⟩ := step_cases h
    · exact hm
    · refine hr.still (.inr ?_)
      have hview : view (s'.ctl t).point = .seeks op id := hseeks
      rw [hp', Ctl.point_awake] at hview
      rw [hview]
      rfl
  changes p id h := by
    cases p <;> obtain h | h := h <;> cases h <;> rfl
  moves {tr t s s'} h hs hactive _ := by
    show Lookups.Moves isDeletion s.mem.mqueueList (listEdit (s.ctl t).point) (view (s.ctl t).point) (view (s'.ctl t).point)
    obtain ⟨_, hblock, heq | hnext⟩ | ⟨p, p', hp, hp', hr, _⟩ := step_cases hs
    · rw [heq, listEdit_of_no_block hblock]
      exact .stays _ rfl
    · exact next_moves hnext hactive
    · have hactive : (view (s.ctl t).point).active = true := hactive
      rw [hp, Ctl.point_awake] at hactive
      rw [hp, hp', Ctl.point_awake, Ctl.point_awake]
      exact hr.moves hactive (count_nonneg h)
  still {t s s'} h hlooking := by
    obtain ⟨hm, _⟩ | ⟨p, p', hp, _, hr, _⟩ := step_cases h
    · exact hm
    · rw [hp, Ctl.point_awake] at hlooking
      exact hr.still (.inl hlooking)

end

end V2lin.Queue
