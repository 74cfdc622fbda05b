import V2lin.Queue.Locks
import V2lin.Queue.Pended
import V2lin.Threads.Catalogue

/-! Who is inside a queue when its memory is freed.

`msgQDelete` gives `queue_lock` up before it takes the queue off `mqueue_list`, and the
task it waited for last has left the lists before it gives `queue_lock` up. Off the list,
nobody comes to the queue any more: it is vacated when it is freed if it was when it was
unlinked. -/
namespace V2lin.Queue
open Threads V2lin.Task

section
variable {θ ι : Type}

/-! ### The list of queues as a directory -/

/-- The queue that `msgQCreate` has made and not yet linked. -/
def publishing : Pc ι → Option ι
  | .linkLock id | .linkAppend id => some id
  | _ => none

/-- The queue that a call has found on the list. -/
def uses : Pc ι → Option ι
  | .linkLock _ | .linkAppend _ | .linkUnlock _ => none
  | p => touches p

/-- The queue that a call is at work on: from its `mqueue_find_lock` until it gives
`queue_lock` up for the last time. -/
def engaged : Pc ι → Option ι
  | .findQueue _ _ => none
  | .deleteQfullLock _ | .deleteSpaceNotify _ | .deleteQfullUnlock _ | .deleteDrain _ | .deleteWait _ => none
  | .deleteQdletUnlock _ | .deleteListLock _ | .deleteUnlink _ | .deleteListUnlock _ => none
  | .deleteFree _ | .deleteTaskUnlock _ => none
  | p => uses p

/-- The same, and on the way to it. -/
def comes : Pc ι → Option ι
  | .findQueue _ id => some id
  | p => engaged p

/-- The queues, the list and the points. -/
def catalogue : Catalogue (Mem θ ι) (Pc ι) ι where
  listed := Mem.mqueueList
  fresh m id := m.block id = .fresh
  publishing := publishing
  uses := uses
  comes := comes

def registry (s : QueueState θ ι) : Directory θ ι := catalogue.registry s

/-- The queue is off the list, and nobody is at work on it or comes to it. -/
abbrev Deserted (id : ι) (s : QueueState θ ι) : Prop := catalogue.Deserted id s

variable {p p' : Pc ι} {id : ι}

theorem publishing_resting (h : p.resting = true) : publishing p = none := by
  cases p <;> first | rfl | cases h

theorem SpacePoint.publishing {a : SendArgs} {retcode : Retcode} (h : SpacePoint a id retcode p) :
    publishing p = none := by
  cases h <;> rfl

theorem MsgPoint.publishing {a : ReceiveArgs} {retcode : Retcode} (h : MsgPoint a id retcode p) :
    publishing p = none := by
  cases h <;> rfl

theorem SpacePoint.uses {a : SendArgs} {retcode : Retcode} (h : SpacePoint a id retcode p) :
    uses p = some id := by
  cases h <;> rfl

theorem MsgPoint.uses {a : ReceiveArgs} {retcode : Retcode} (h : MsgPoint a id retcode p) :
    uses p = some id := by
  cases h <;> rfl

theorem SpacePoint.comes {a : SendArgs} {retcode : Retcode} (h : SpacePoint a id retcode p) : comes p = some id := by
  cases h <;> rfl

theorem MsgPoint.comes {a : ReceiveArgs} {retcode : Retcode} (h : MsgPoint a id retcode p) : comes p = some id := by
  cases h <;> rfl

theorem uses_deletedPoint (op : Op) (id : ι) (last : Bool) : uses (deletedPoint op id last) = some id := by
  cases last <;> rfl

theorem publishing_deletedPoint (op : Op) (id : ι) (last : Bool) : publishing (deletedPoint op id last) = none := by
  cases last <;> rfl

theorem uses_receivedPoint (a : ReceiveArgs) (id : ι) (msg : List UInt8) (space : Bool) :
    uses (receivedPoint a id msg space) = some id := by
  cases space <;> rfl

theorem publishing_receivedPoint (a : ReceiveArgs) (id : ι) (msg : List UInt8) (space : Bool) :
    publishing (receivedPoint a id msg space) = none := by
  cases space <;> rfl

variable [DecidableEq θ] [DecidableEq ι]
variable {myTask : θ → Option θ} {prio : θ → ℤ} {t u : θ} {m m' : Mem θ ι}

theorem next_follows (h : (code myTask prio t p).Next p') : (catalogue : Catalogue (Mem θ ι) (Pc ι) ι).Follows p p' := by
  cases p
  case findUnlock op j found =>
    cases h
    cases found
    · exact .of_none rfl rfl rfl
    · cases op <;> exact .of_eq rfl rfl rfl
  all_goals first
    | exact False.elim h
    | (cases h; exact .of_eq rfl rfl rfl)
    | (cases h; exact .of_leaving rfl rfl rfl)
    | (cases h; exact .of_none rfl rfl rfl)
    | (obtain ⟨r, rfl⟩ := h; exact .of_eq rfl rfl rfl)

/-- A block in the directory of its thread. -/
theorem Runs.move (h : Runs myTask prio t p m m' p') :
    (catalogue.directory m fun _ : Unit => p).Move () (catalogue.directory m' fun _ => p') := by
  have hstay : ∀ {m' : Mem θ ι}, m'.mqueueList = m.mqueueList → publishing p' = publishing p →
      (∀ id, uses p' = some id → uses p = some id ∨ id ∈ m.mqueueList) →
      (catalogue.directory m fun _ : Unit => p).Move () (catalogue.directory m' fun _ => p') :=
    fun hl hpub huse => .stay hl hpub huse
  cases h with
  | called op id hrest => exact hstay rfl (publishing_resting hrest).symm nofun
  | created id _ _ _ hrest hf =>
    refine .make id hf ?_ rfl rfl rfl
    show Function.update m.block id .live id ≠ .fresh
    simp
  | linked id => exact .publish id rfl rfl rfl rfl
  | found op hin =>
    refine hstay rfl rfl fun id hid => .inr ?_
    cases hid
    exact hin
  | unlinked id => exact .withdraw id rfl rfl rfl
  | notFound => exact hstay rfl rfl nofun
  | deleteTaskUnlocked => exact hstay rfl rfl nofun
  | spaceOver hpoint => exact hstay rfl hpoint.publishing.symm fun id hid => .inl (hpoint.uses.trans hid)
  | spaceTimedOut hpoint => exact hstay rfl hpoint.publishing.symm fun id hid => .inl (hpoint.uses.trans hid)
  | spaceSleeps hpoint => exact hstay rfl hpoint.publishing.symm fun id hid => .inl (hpoint.uses.trans hid)
  | spacePolls hpoint => exact hstay rfl hpoint.publishing.symm fun id hid => .inl (hpoint.uses.trans hid)
  | sendDeleted =>
    refine hstay rfl (publishing_deletedPoint ..) fun id hid => .inl ?_
    rwa [uses_deletedPoint] at hid
  | pended =>
    refine hstay rfl (by split <;> rfl) fun id hid => .inl ?_
    split at hid <;> exact hid
  | receiveDeleted hpoint =>
    refine hstay rfl ((publishing_deletedPoint ..).trans hpoint.publishing.symm) fun id hid => .inl ?_
    rw [uses_deletedPoint] at hid
    exact hpoint.uses.trans hid
  | receiveTimedOut hpoint => exact hstay rfl hpoint.publishing.symm fun id hid => .inl (hpoint.uses.trans hid)
  | fetched hpoint =>
    refine hstay rfl ((publishing_receivedPoint ..).trans hpoint.publishing.symm) fun id hid => .inl ?_
    rw [uses_receivedPoint] at hid
    exact hpoint.uses.trans hid
  | receiveSleeps hpoint => exact hstay rfl hpoint.publishing.symm fun id hid => .inl (hpoint.uses.trans hid)
  | receivePolls hpoint => exact hstay rfl hpoint.publishing.symm fun id hid => .inl (hpoint.uses.trans hid)
  | _ => exact hstay rfl rfl fun _ hid => .inl hid

/-- Whoever comes to a queue has found it on the list. -/
theorem Runs.comes_cases (h : Runs myTask prio t p m m' p') (hc : comes p' = some id) :
    comes p = some id ∨ id ∈ m.mqueueList := by
  cases h with
  | found op hin =>
    cases hc
    exact .inr hin
  | spaceOver hpoint => exact .inl (hpoint.comes.trans hc)
  | spaceTimedOut hpoint => exact .inl (hpoint.comes.trans hc)
  | spaceSleeps hpoint => exact .inl (hpoint.comes.trans hc)
  | spacePolls hpoint => exact .inl (hpoint.comes.trans hc)
  | @sendDeleted m q a j =>
    refine .inl ?_
    cases hq : q.drained <;> rw [hq] at hc <;> exact hc
  | pended =>
    refine .inl ?_
    split at hc <;> exact hc
  | @receiveDeleted p m q a j retcode hpoint =>
    refine .inl (hpoint.comes.trans ?_)
    cases hq : q.drained <;> rw [hq] at hc <;> exact hc
  | receiveTimedOut hpoint => exact .inl (hpoint.comes.trans hc)
  | fetched hpoint =>
    refine .inl (hpoint.comes.trans ?_)
    unfold receivedPoint at hc
    split at hc <;> exact hc
  | receiveSleeps hpoint => exact .inl (hpoint.comes.trans hc)
  | receivePolls hpoint => exact .inl (hpoint.comes.trans hc)
  | called => cases hc
  | created => cases hc
  | deleteTaskUnlocked => cases hc
  | _ => exact .inl hc

/-- The code keeps to the catalogue. -/
theorem kept : (catalogue : Catalogue (Mem θ ι) (Pc ι) ι).Kept (code myTask prio) where
  next h := next_follows h
  block hi hb :=
    have hr := block_runs hi hb
    ⟨hr.move, fun _ hf => by_contra fun hb => hr.block_ne_fresh hb hf, fun _ hc => hr.comes_cases hc⟩

variable {s s' : QueueState θ ι} {tr : List (QueueTransition θ ι)}

omit [DecidableEq θ] [DecidableEq ι] in
theorem initial_registry (s : QueueState θ ι) (h : Initial s) : (registry s).Sound :=
  Catalogue.sound_of_idle h.mqueueList h.idle rfl rfl

/-- In every run a queue is linked once. -/
theorem registry_sound (h : Run (code myTask prio) Initial tr s) : (registry s).Sound :=
  kept.sound initial_registry h

/-! ### Inside a queue -/

/-- Nobody is at work on the queue or on its lists. -/
structure Vacated (id : ι) (s : QueueState θ ι) : Prop where
  engaged : ∀ u, engaged (s.ctl u).point ≠ some id
  firstSusp : (s.mem.queue id).firstSusp = []
  firstWriteSusp : (s.mem.queue id).firstWriteSusp = []

omit [DecidableEq ι] in
/-- A call at work on a queue has its lock or is pended on it. -/
theorem engaged_cases (h : engaged p = some id) :
    .queueLock id ∈ held p ∨ ∃ side, pendsOn side p = some id := by
  cases p
  case findUnlock op j found =>
    cases found
    · cases h
    · cases h
      exact .inl (by simp [held])
  all_goals first
    | (cases h; done)
    | (cases h; exact .inr ⟨.receivers, rfl⟩)
    | (cases h; exact .inr ⟨.senders, rfl⟩)
    | (cases h; exact .inl (by simp [held]))

omit [DecidableEq ι] in
theorem comes_of_engaged (h : engaged p = some id) : comes p = some id := by
  cases p <;> first | exact h | cases h

omit [DecidableEq ι] in
theorem comes_of_pended {side : Side} (h : pendsOn side p = some id) : comes p = some id := by
  cases side <;> cases p <;> first | exact h | cases h

/-- The step in which `msgQDelete` takes a queue off the list. -/
def Unlinks (id : ι) (x : QueueTransition θ ι) : Prop := x.pre.ctl x.thread = .awake (.deleteUnlink id)

/-- The step in which `msgQDelete` frees a queue. -/
def Frees (id : ι) (x : QueueTransition θ ι) : Prop := x.pre.ctl x.thread = .awake (.deleteFree id)

instance (id : ι) (x : QueueTransition θ ι) : Decidable (Unlinks id x) := inferInstanceAs (Decidable (_ = _))

instance (id : ι) (x : QueueTransition θ ι) : Decidable (Frees id x) := inferInstanceAs (Decidable (_ = _))

variable {before later : List (QueueTransition θ ι)} {x : QueueTransition θ ι}

omit [DecidableEq θ] in
theorem V2ptMqueue.list_of_drained {q : V2ptMqueue θ} (h : q.drained = true) (side : Side) : q.list side = [] := by
  obtain ⟨hreceivers, hsenders⟩ := of_decide_eq_true h
  cases side
  · exact hreceivers
  · exact hsenders

/-- A thread that comes to a queue is pended on it, or has its lock, or holds the list. -/
theorem comes_cases (h : Run (code some prio) Initial tr s) (hc : comes (s.ctl u).point = some id) :
    (∃ side, u ∈ (s.mem.queue id).list side) ∨
      ∃ p, s.ctl u = .awake p ∧ (.queueLock id ∈ held p ∨ .mqueueListLock ∈ held p) := by
  by_cases hpend : ∃ side, pendsOn side (s.ctl u).point = some id
  · obtain ⟨side, hpend⟩ := hpend
    refine .inl ⟨side, ((linked h).lists side id).mem u |>.mpr ?_⟩
    simp [waits, hpend]
  · refine .inr ?_
    cases hp : s.ctl u with
    | awake p =>
      rw [hp, Ctl.point_awake] at hc hpend
      refine ⟨p, rfl, ?_⟩
      by_cases hfind : ∃ op, p = .findQueue op id
      · obtain ⟨op, rfl⟩ := hfind
        exact .inr (by simp [held])
      · have heng : engaged p = some id := by
          cases p
          case findQueue op j =>
            cases hc
            exact absurd ⟨op, rfl⟩ hfind
          all_goals exact hc
        exact .inl ((engaged_cases heng).resolve_right hpend)
    | asleep p n =>
      -- whoever sleeps here is pended, or waits for the others to leave
      obtain ⟨c, lock, timed, next, hi⟩ := h.asleep (fun s t p n hs => by rw [hs.idle t]; rintro ⟨⟩) hp
      rw [hp, Ctl.point_asleep] at hc hpend
      cases p <;> simp only [code, reduceCtorEq] at hi
      case waitSleep a j =>
        cases hc
        exact absurd ⟨.senders, rfl⟩ hpend
      case receiveSleep a j =>
        cases hc
        exact absurd ⟨.receivers, rfl⟩ hpend
      case deleteWait j => cases hc

/-- A queue that nobody has locked or is pended on is deserted once it is unlinked. -/
theorem Unlinks.deserted (h : Run (code some prio) Initial tr s) (hs : Step (code some prio) t s s')
    (hu : Unlinks id ⟨s, t, s'⟩) (hfree : s.owner (.queueLock id) = none)
    (hdrained : (s.mem.queue id).drained = true) : Deserted id s' := by
  have hp : s.ctl t = .awake (.deleteUnlink id) := hu
  obtain ⟨c, p', hb, hp', _⟩ := hs.block hp rfl
  simp only [Option.some.injEq, Prod.mk.injEq] at hb
  obtain ⟨hm, rfl⟩ := hb
  refine ⟨?_, fun u hc => ?_⟩
  · refine (kept.step hs).withdraws (registry_sound h) ?_ ?_
    · exact (registry_sound h).uses t id (by show uses (s.ctl t).point = some id; rw [hp]; rfl)
    · exact (congrArg Mem.mqueueList hm).symm
  · by_cases hut : u = t
    · rw [hut, hp'] at hc
      cases hc
    · rw [hs.ctl_other hut] at hc
      obtain ⟨side, hin⟩ | ⟨p, hq, hlock | hlock⟩ := comes_cases h hc
      · rw [V2ptMqueue.list_of_drained hdrained side] at hin
        cases hin
      · have htracked : (Lock.queueLock id).tracked := trivial
        rw [(owner_iff htracked h).mpr ((claims_awake hq).mpr hlock)] at hfree
        cases hfree
      · have htracked : (Lock.mqueueListLock (ι := ι)).tracked := trivial
        exact hut (held_unique h htracked hq hlock hp (by simp [held]))

/-- The part of a deletion between the unlinking and the freeing. -/
def offList (id : ι) : Pc ι → Bool
  | .deleteListUnlock j | .deleteFree j => j = id
  | _ => false

theorem next_offList (h : (code myTask prio t p).Next p') (hp : offList id p' = true) : offList id p = true := by
  cases p
  case findUnlock op j found =>
    cases h
    cases found
    · cases hp
    · cases op <;> cases hp
  all_goals first
    | exact False.elim h
    | (cases h; exact hp)
    | (cases h; cases hp)
    | (obtain ⟨r, rfl⟩ := h; cases hp)

theorem Runs.offList_cases (h : Runs myTask prio t p m m' p') (hp : offList id p' = true) :
    p = .deleteUnlink id := by
  cases h with
  | unlinked j => rw [of_decide_eq_true hp]
  | @sendDeleted m q => cases hq : q.drained <;> rw [hq] at hp <;> cases hp
  | pended => split at hp <;> cases hp
  | @receiveDeleted p m q => cases hq : q.drained <;> rw [hq] at hp <;> cases hp
  | fetched =>
    unfold receivedPoint at hp
    split at hp <;> cases hp
  | _ => cases hp

/-- A deletion comes to the freeing by way of the unlinking. -/
theorem unlinks_of_offList (hs : Step (code some prio) t s s') (hp : offList id (s'.ctl t).point = true)
    (hno : ¬ offList id (s.ctl t).point = true) : Unlinks id ⟨s, t, s'⟩ := by
  show s.ctl t = .awake (.deleteUnlink id)
  obtain ⟨_, _, heq | hnext⟩ | ⟨p, p', hq, hq', hr, _⟩ := step_cases hs
  · exact absurd (heq ▸ hp) hno
  · exact absurd (next_offList hnext hp) hno
  · rw [hq', Ctl.point_awake] at hp
    rw [hq, hr.offList_cases hp]

/-- Nobody is at work on a deserted queue. -/
theorem Deserted.vacated (h : Run (code some prio) Initial tr s) (hd : Deserted id s) : Vacated id s := by
  have hlist : ∀ side, (s.mem.queue id).list side = [] := by
    intro side
    rw [List.eq_nil_iff_forall_not_mem]
    intro u hu
    have hpend : pendsOn side (s.ctl u).point = some id :=
      of_decide_eq_true (((linked h).lists side id).mem u |>.mp hu)
    exact hd.comes u (comes_of_pended hpend)
  exact ⟨fun u hu => hd.comes u (comes_of_engaged hu), hlist .receivers, hlist .senders⟩

/-- In every run in which nobody has a queue's lock or is pended on it whenever it is
unlinked, it stays deserted until it is freed. -/
theorem offList_deserted (h : Run (code some prio) Initial tr s)
    (hok : ∀ x ∈ tr, Unlinks id x → x.pre.owner (.queueLock id) = none ∧ (x.pre.mem.queue id).drained = true)
    (hp : offList id (s.ctl t).point = true) : Deserted id s := by
  induction h with
  | start hi =>
    rw [hi.idle t] at hp
    cases hp
  | @step tr s u s' hr hs ih =>
    have hok' := fun x hx => hok x (List.mem_cons_of_mem _ hx)
    by_cases hbefore : offList id (s.ctl t).point = true
    · exact (ih hok' hbefore).step kept hs
    · have htu : t = u := by
        by_contra htu
        rw [hs.ctl_other htu] at hp
        exact hbefore hp
      subst htu
      obtain ⟨hfree, hdrained⟩ := hok _ (List.mem_cons_self ..) (unlinks_of_offList hs hp hbefore)
      exact Unlinks.deserted hr hs (unlinks_of_offList hs hp hbefore) hfree hdrained

/-- Whenever a queue is freed nobody is at work on it and nobody is pended on it, if it is
so whenever it is unlinked. -/
theorem freed_vacated (h : Run (code some prio) Initial tr s)
    (hok : ∀ x ∈ tr, Unlinks id x → x.pre.owner (.queueLock id) = none ∧ (x.pre.mem.queue id).drained = true) :
    ∀ x ∈ tr, Frees id x → Vacated id x.pre := by
  intro x hx hf
  obtain ⟨later, before, rfl⟩ := List.append_of_mem hx
  have hbefore : Run (code some prio) Initial before x.pre := h.before
  refine Deserted.vacated hbefore (offList_deserted (t := x.thread) hbefore (fun y hy => ?_) ?_)
  · exact hok y (List.mem_append_right _ (List.mem_cons_of_mem _ hy))
  · rw [show x.pre.ctl x.thread = .awake (.deleteFree id) from hf]
    simp [offList]

end

/-! ### A task that is still inside -/

/-- Task 1 waits on a queue, and task 0 deletes it. Task 1 wakes and goes on for `n` steps;
then task 0 frees the queue. -/
def deleteUnder (n : ℕ) : List (Fin 2 × Input (Choice ℕ)) :=
  makes 0 7 2 1 0 :: goesOn 0 3 ++ calls 1 (.receive ⟨true, 1, waitForever⟩) 7 :: goesOn 1 7 ++
    calls 0 .delete 7 :: goesOn 0 15 ++ goesOn 1 n ++ goesOn 0 7

/-- Task 1 has announced that it is the last, and still has to give `queue_lock` up. -/
theorem receiver_inside_freed :
    ¬ ∀ (tr : List (QueueTransition (Fin 2) ℕ)) (s : QueueState (Fin 2) ℕ) (id : ℕ),
      Run (code some fun _ => 0) Initial tr s → ∀ x ∈ tr, Frees id x → Vacated id x.pre := by
  intro hclaim
  obtain ⟨tr, s, hr, hx⟩ := run_of_check (code some fun _ => 0) (deleteUnder 5) (fun tr _ =>
      ∃ x ∈ tr, Frees 7 x ∧ engaged (x.pre.ctl 1).point = some 7) boot_initial (by decide)
  obtain ⟨x, hx, hf, heng⟩ := of_decide_eq_true hx
  exact (hclaim tr s 7 hr x hx hf).engaged 1 heng

/-- Task 1 has left. -/
theorem receiver_gone_freed : ∃ (tr : List (QueueTransition (Fin 2) ℕ)) (x : QueueTransition (Fin 2) ℕ),
    x ∈ tr ∧ Frees 7 x ∧ Vacated 7 x.pre := by
  obtain ⟨tr, s, hr, hx⟩ := run_of_check (code some fun _ => 0) (deleteUnder 6) (fun tr _ =>
      (∀ x ∈ tr, Unlinks 7 x → x.pre.owner (.queueLock 7) = none ∧ (x.pre.mem.queue 7).drained = true) ∧
      ∃ x ∈ tr, Frees 7 x) boot_initial (by decide)
  obtain ⟨hok, x, hx, hf⟩ := of_decide_eq_true hx
  exact ⟨tr, x, hx, hf, freed_vacated hr hok x hx hf⟩

end V2lin.Queue
