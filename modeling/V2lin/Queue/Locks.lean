import V2lin.Queue.Fields

/-! Which of its mutexes the message queue library holds, point by point.

`mqueue_list_lock`, `queue_lock` and `qdlet_lock` are released where they are held, and
never forgotten. `qfull_lock` is not among them: `waitToSend` waits on it without having
taken it, and returns with it. -/
namespace V2lin.Queue
open Threads V2lin.Task

section
variable {θ ι : Type}

/-- The mutexes held at a point, but for `qfull_lock`. -/
def held : Pc ι → List (Lock ι)
  | .linkAppend _ | .linkUnlock _ | .findScan _ _ | .findQueue _ _ => [.mqueueListLock]
  | .findUnlock _ id found => if found then [.mqueueListLock, .queueLock id] else [.mqueueListLock]
  | .sendStart _ id | .sendNotify _ id | .waitUnlock _ id | .waitEnd _ id _ => [.queueLock id]
  | .receiveStart _ id | .readyLock _ id | .readyNotify _ id | .readyUnlock _ id => [.queueLock id]
  | .receiveTest _ id _ | .receiveSleep _ id | .receivePoll _ id _ | .receiveAgain _ id _ => [.queueLock id]
  | .spaceLock _ id _ | .spaceNotify _ id _ | .spaceUnlock _ id _ => [.queueLock id]
  | .lastLock _ id | .numStart id | .leave _ id _ => [.queueLock id]
  | .lastNotify _ id | .lastUnlock _ id => [.queueLock id, .qdletLock id]
  | .deleteMark id | .deleteTaskLock id | .deleteTest id | .deleteQueueUnlock id => [.queueLock id]
  | .deleteQdletLock id => [.queueLock id]
  | .deleteNotify id | .deleteQueueRelease id => [.queueLock id, .qdletLock id]
  | .deleteQfullLock id | .deleteSpaceNotify id | .deleteQfullUnlock id => [.qdletLock id]
  | .deleteDrain id | .deleteWait id | .deleteQdletUnlock id => [.qdletLock id]
  | .deleteUnlink _ | .deleteListUnlock _ => [.mqueueListLock]
  | _ => []

/-- A mutex that `held` tracks. -/
def Lock.tracked : Lock ι → Prop
  | .qfullLock _ => False
  | _ => True

variable {p p' : Pc ι}

@[simp] theorem held_entry (op : Op) (id : ι) : held (entry op id) = [.queueLock id] := by
  cases op <;> rfl

theorem held_resting (h : p.resting = true) : held p = [] := by
  cases p <;> first | rfl | cases h

theorem held_deletedPoint (op : Op) (id : ι) (last : Bool) : held (deletedPoint op id last) = [.queueLock id] := by
  cases last <;> rfl

theorem held_receivedPoint (a : ReceiveArgs) (id : ι) (msg : List UInt8) (space : Bool) :
    held (receivedPoint a id msg space) = [.queueLock id] := by
  cases space <;> rfl

theorem SpacePoint.held {a : SendArgs} {id : ι} {retcode : Retcode} (h : SpacePoint a id retcode p) :
    held p = [] := by
  cases h <;> rfl

theorem MsgPoint.held {a : ReceiveArgs} {id : ι} {retcode : Retcode} (h : MsgPoint a id retcode p) :
    held p = [.queueLock id] := by
  cases h <;> rfl

theorem touches_of_held {id : ι} (h : .queueLock id ∈ held p) : touches p = some id := by
  cases p
  case findUnlock op j found =>
    cases found
    · simp [held] at h
    · simp [held] at h
      simp [touches, h]
  all_goals first
    | (simp [held] at h; done)
    | (simp [held] at h; simp [touches, h])

variable [DecidableEq θ] [DecidableEq ι]
variable {myTask : θ → Option θ} {prio : θ → ℤ} {t : θ} {m m' : Mem θ ι}

/-- A block takes and gives up nothing. -/
theorem Runs.held_eq (h : Runs myTask prio t p m m' p') : held p' = held p := by
  cases h with
  | called _ _ hp => exact (held_resting hp).symm
  | created _ _ _ _ hp => exact (held_resting hp).symm
  | spaceOver hp => exact hp.held.symm
  | spaceTimedOut hp => exact hp.held.symm
  | spaceSleeps hp => exact hp.held.symm
  | spacePolls hp => exact hp.held.symm
  | sendDeleted => exact held_deletedPoint ..
  | pended => split <;> rfl
  | receiveDeleted hp => exact (held_deletedPoint ..).trans hp.held.symm
  | receiveTimedOut hp => exact hp.held.symm
  | fetched hp => exact (held_receivedPoint ..).trans hp.held.symm
  | receiveSleeps hp => exact hp.held.symm
  | receivePolls hp => exact hp.held.symm
  | _ => rfl

/-- What is held changes with the locking instructions as `held` says. -/
theorem guarded {lock : Lock ι} (ht : lock.tracked) : Guarded (code myTask prio) held lock := by
  intro t p
  by_cases hr : ∃ block, code myTask prio t p = .run block
  · obtain ⟨block, hi⟩ := hr
    rw [hi]
    intro c v v' p' hb hl
    rwa [(block_runs hi hb).held_eq] at hl
  · cases lock
    case qfullLock id => exact ht.elim
    all_goals
      cases p
      case findUnlock op id found =>
        cases found
        · simp [code, Instr.Tracked, held]
        · cases op <;> simp [code, Instr.Tracked, held, entry]
      all_goals first
        | exact absurd ⟨_, rfl⟩ hr
        | simp [code, Instr.Tracked, held]

variable {s : QueueState θ ι} {lock : Lock ι} {tr : List (QueueTransition θ ι)}

/-- A thread asleep in the library claims neither the list nor a queue. -/
theorem claims_iff (hl : lock = .mqueueListLock ∨ ∃ id, lock = .queueLock id) :
    Claims (code myTask prio) held s t lock ↔ ∃ p, s.ctl t = .awake p ∧ lock ∈ held p := by
  cases hc : s.ctl t with
  | awake p => simp [claims_awake hc]
  | asleep p n =>
    rw [claims_asleep hc]
    refine iff_of_false ?_ (by simp)
    rintro ⟨hin, m', hw, hne⟩
    cases p <;> simp [code, Instr.waitMutex] at hw
    all_goals
      subst hw
      obtain rfl | ⟨id, rfl⟩ := hl <;> simp [held] at hin
    exact hne (by rw [hin])

theorem initial_owned (s : QueueState θ ι) (h : Initial s) : Owned (code myTask prio) held lock s := by
  intro t hc
  rw [claims_awake (h.idle t)] at hc
  cases hc

/-- In every run a tracked mutex is owned where it is claimed, and nowhere else. -/
theorem owner_iff (ht : lock.tracked) (h : Run (code myTask prio) Initial tr s) :
    s.owner lock = some t ↔ Claims (code myTask prio) held s t lock := by
  rw [(guarded ht).owner_iff initial_owned (fun _ hs => hs.owner lock) h]
  refine or_iff_left ?_
  rintro ⟨x, hx, hf⟩
  obtain ⟨p, block, c, p', _, hi, hb, _, hin, hout⟩ := hf.block (guarded ht) (h.steps x hx)
  rw [(block_runs hi hb).held_eq] at hout
  exact hout hin

/-- Only one thread is where a tracked mutex is held. -/
theorem held_unique (h : Run (code myTask prio) Initial tr s) (ht : lock.tracked) {u : θ} {q : Pc ι}
    (hp : s.ctl t = .awake p) (hlock : lock ∈ held p) (hq : s.ctl u = .awake q) (hlock' : lock ∈ held q) : t = u := by
  have hown := (owner_iff ht h).mpr ((claims_awake hp).mpr hlock)
  have hown' := (owner_iff ht h).mpr ((claims_awake hq).mpr hlock')
  exact Option.some.inj (hown.symm.trans hown')

/-- A task that has a queue's lock does not wait for the list of queues. -/
theorem no_queue_embrace (h : Run (code myTask prio) Initial tr s) (id : ι) :
    ¬ Embrace (code myTask prio) (.queueLock id) .mqueueListLock s := by
  have htracked : (Lock.queueLock id).tracked := trivial
  refine no_embrace (fun t ht => (owner_iff htracked h).mp ht) ?_
  intro t p next hi
  cases p <;> simp [code] at hi <;> exact List.not_mem_nil

end

end V2lin.Queue
