import V2lin.Sem.Steps

/-! What the blocks do to each field of a control block.

For every field one lemma says which blocks change it, and how; the invariants are
derived from these. -/
namespace V2lin.Sem
open Threads V2lin.Arith V2lin.Task

section
variable {θ ι : Type}

/-- The semaphore in whose wait loops a point lies. -/
def pendsOn : Pc ι → Option ι
  | .takeTest _ id _ | .takeWait _ id | .takePoll _ id _ | .takeRelock _ id _ | .takeAgain _ id _ => some id
  | _ => none

/-- The semaphore whose control block has been made or found at a point. -/
def touches : Pc ι → Option ι
  | .idle | .returned _ _ _ | .findLock _ _ | .findScan _ _ => none
  | .findUnlock _ id found => if found then some id else none
  | .linkLock id | .linkAppend id | .linkUnlock id | .findSem _ id => some id
  | .takeStart _ id | .takeTest _ id _ | .takeWait _ id | .takePoll _ id _ | .takeRelock _ id _ => some id
  | .takeAgain _ id _ | .takeLastLock _ id _ | .takeLastNotify _ id _ | .takeLastReset _ id _ => some id
  | .takeLastUnlock _ id _ | .takeEnd _ id _ | .takeUnlock _ id _ => some id
  | .giveStart id | .giveNotify id | .giveUnlock id _ => some id
  | .flushStart id | .flushRefuse id | .flushTaskLock id | .flushTest id | .flushSmdelLock id => some id
  | .flushMark id | .flushNotify id | .flushSemUnlock id | .flushDrain id | .flushWait id => some id
  | .flushSmdelUnlock id | .flushTaskUnlock id _ => some id
  | .deleteTaskLock id | .deleteTest id | .deleteSmdelLock id | .deleteMark id | .deleteNotify id => some id
  | .deleteSemUnlock id | .deleteDrain id | .deleteWait id | .deleteListLock id _ => some id
  | .deleteUnlink id _ | .deleteListUnlock id _ | .deleteFree id _ | .deleteTaskUnlock id _ => some id

theorem WaitPoint.pended {maxWait : Int} {id : ι} {retcode : Retcode} {p : Pc ι}
    (h : WaitPoint maxWait id retcode p) : pendsOn p = some id := by
  cases h <;> rfl

theorem WaitPoint.touched {maxWait : Int} {id : ι} {retcode : Retcode} {p : Pc ι}
    (h : WaitPoint maxWait id retcode p) : touches p = some id := by
  cases h <;> rfl

theorem pended_resting {p : Pc ι} (h : p.resting = true) : pendsOn p = none := by
  cases p <;> first | rfl | cases h

theorem touched_of_pended {p : Pc ι} {id : ι} (h : pendsOn p = some id) : touches p = some id := by
  cases p <;> first | exact h | cases h

variable [DecidableEq θ] [DecidableEq ι]
variable {myTask : θ → Option θ} {prio : θ → Int} {t : θ} {p p' : Pc ι} {m m' : Mem θ ι}

theorem next_pended (h : (code myTask prio t p).Next p') : pendsOn p' = pendsOn p := by
  cases p
  case findUnlock op id found =>
    cases h
    cases found
    · rfl
    · cases op <;> rfl
  all_goals first
    | exact False.elim h
    | (cases h; rfl)
    | (obtain ⟨r, rfl⟩ := h; rfl)

theorem next_touched {id : ι} (h : (code myTask prio t p).Next p') (ht : touches p' = some id) :
    touches p = some id := by
  cases p
  case findUnlock op id found =>
    cases h
    cases found
    · cases ht
    · cases op <;> exact ht
  all_goals first
    | exact False.elim h
    | (cases h; exact ht)
    | (cases h; cases ht)
    | (obtain ⟨r, rfl⟩ := h; exact ht)

omit [DecidableEq ι] in
theorem WaitEnd.firstSusp {me : Option θ} {maxWait : Int} {id : ι} {v : V2lsem θ} {retcode : Retcode}
    (h : WaitEnd prio me m maxWait id p v retcode) : v.firstSusp = (m.sem id).firstSusp := by
  cases h <;> rfl

/-- What a block does to a semaphore's list: nothing, link its task, unlink it, or
make the list with its semaphore. -/
theorem Runs.susp_cases (h : Runs some prio t p m m' p') (id : ι) :
    ((m'.sem id).firstSusp = (m.sem id).firstSusp ∧ (pendsOn p' = some id ↔ pendsOn p = some id)) ∨
      (pendsOn p = none ∧ pendsOn p' = some id ∧
        (m'.sem id).firstSusp = linkSuspTask (m.sem id).firstSusp (some t)) ∨
      (pendsOn p = some id ∧ pendsOn p' = none ∧
        (m'.sem id).firstSusp = unlinkSuspTask (m.sem id).firstSusp (some t)) ∨
      (m.block id = .fresh ∧ pendsOn p = none ∧ pendsOn p' = none ∧ (m'.sem id).firstSusp = []) := by
  cases h with
  | called _ _ hp => exact .inl ⟨rfl, by rw [pended_resting hp]; rfl⟩
  | refused hp => exact .inl ⟨rfl, by rw [pended_resting hp]; rfl⟩
  | created id' args hp hfresh hv =>
    by_cases hid : id = id'
    · subst hid
      refine .inr (.inr (.inr ⟨hfresh, pended_resting hp, rfl, ?_⟩))
      simpa using (Create.block_created hv).susp
    · exact .inl ⟨by simp [hid], by rw [pended_resting hp]; rfl⟩
  | @pended m maxWait id' =>
    by_cases hid : id = id'
    · subst hid
      exact .inr (.inl ⟨rfl, rfl, by simp⟩)
    · exact .inl ⟨by simp [hid], by simp [pendsOn, Ne.symm hid]⟩
  | @left p m maxWait id' v retcode v' error last hw hl =>
    obtain ⟨rc, hp⟩ := hw.point
    have hp' : pendsOn (if last then .takeLastLock maxWait id' error else .takeEnd maxWait id' error) = none := by
      split <;> rfl
    rw [hp.pended, hp']
    by_cases hid : id = id'
    · subst hid
      refine .inr (.inr (.inl ⟨rfl, rfl, ?_⟩))
      rw [Mem.setSem_self, hl.firstSusp, hw.firstSusp]
    · exact .inl ⟨by simp [hid], by simp [Ne.symm hid]⟩
  | sleeps hp => exact .inl ⟨rfl, by rw [hp.pended]; rfl⟩
  | polls hp => exact .inl ⟨rfl, by rw [hp.pended]; rfl⟩
  | gave hg =>
    exact .inl ⟨Mem.setSem_congr V2lsem.firstSusp m (giveToken_gave hg).firstSusp id, by split <;> rfl⟩
  | @reentered m maxWait id' =>
    refine .inl ⟨?_, by rfl⟩
    rw [Mem.setSem_congr V2lsem.firstSusp _ (by simp), Mem.setWaiting_sem]
  | reset => exact .inl ⟨Mem.setSem_congr V2lsem.firstSusp m (by rfl) id, by rfl⟩
  | flushMarked => exact .inl ⟨Mem.setSem_congr V2lsem.firstSusp m (by rfl) id, by rfl⟩
  | deleteMarked => exact .inl ⟨Mem.setSem_congr V2lsem.firstSusp m (by rfl) id, by rfl⟩
  | ended => exact .inl ⟨by simp, by rfl⟩
  | _ => exact .inl ⟨rfl, by rfl⟩

/-- The control blocks that a block's point refers to were referred to before, or are
on the list, or have just been made. -/
theorem Runs.touches_cases {id : ι} (h : Runs myTask prio t p m m' p') (ht : touches p' = some id) :
    touches p = some id ∨ id ∈ m.semList ∨ m'.block id ≠ .fresh := by
  cases h with
  | called => cases ht
  | refused => cases ht
  | created id' =>
    cases ht
    exact .inr (.inr (by simp))
  | found op h =>
    cases ht
    exact .inr (.inl h)
  | notFound => cases ht
  | left hw =>
    obtain ⟨rc, hp⟩ := hw.point
    refine .inl ?_
    rw [hp.touched]
    split at ht <;> exact ht
  | sleeps hp =>
    cases ht
    exact .inl hp.touched
  | polls hp =>
    cases ht
    exact .inl hp.touched
  | gave =>
    refine .inl ?_
    split at ht <;> exact ht
  | flushTaskUnlocked => cases ht
  | deleteTaskUnlocked => cases ht
  | _ => exact .inl ht

theorem Runs.listed_cases {id : ι} (h : Runs myTask prio t p m m' p') (hid : id ∈ m'.semList) :
    id ∈ m.semList ∨ touches p = some id := by
  cases h with
  | linked id' =>
    obtain hid | hid := List.mem_append.mp hid
    · exact .inl hid
    · rw [List.mem_singleton.mp hid]
      exact .inr rfl
  | unlinked => exact .inl (List.mem_of_mem_erase hid)
  | _ => exact .inl (by simpa using hid)

/-- No block becomes unused again. -/
theorem Runs.block_ne_fresh {id : ι} (h : Runs myTask prio t p m m' p') (hb : m.block id ≠ .fresh) :
    m'.block id ≠ .fresh := by
  obtain heq | ⟨id', _, _, heq⟩ | ⟨id', _, _, heq⟩ := h.block_cases
  · rwa [heq]
  · rw [heq]
    by_cases hid : id = id'
    · simp [hid]
    · rwa [Function.update_of_ne hid]
  · rw [heq]
    by_cases hid : id = id'
    · simp [hid]
    · rwa [Function.update_of_ne hid]

/-- A block that comes into use has just been handed out by a creator. -/
theorem Runs.born {id : ι} (h : Runs myTask prio t p m m' p') (hf : m.block id = .fresh)
    (hb : m'.block id ≠ .fresh) (ht : touches p ≠ some id) :
    ∃ args v, Create.block θ args = some v ∧ m'.sem id = v ∧ p.resting = true ∧ p' = .linkLock id := by
  cases h with
  | @created p m v id' args hp _ hv =>
    by_cases hid : id = id'
    · subst hid
      exact ⟨args, v, hv, Mem.setSem_self .., hp, rfl⟩
    · simp [hid, hf] at hb
  | freed id' =>
    have hid : id ≠ id' := fun hid => ht (by rw [hid]; rfl)
    simp [hid, hf] at hb
  | _ => exact absurd hf (by simpa using hb)

omit [DecidableEq ι] in
theorem WaitEnd.flags {me : Option θ} {maxWait : Int} {id : ι} {v : V2lsem θ} {retcode : Retcode}
    (h : WaitEnd prio me m maxWait id p v retcode) : v.flags = (m.sem id).flags := by
  cases h <;> rfl

/-- The flags are set by the creator only. -/
theorem Runs.flags_eq {id : ι} (h : Runs myTask prio t p m m' p') (hb : m.block id ≠ .fresh) :
    (m'.sem id).flags = (m.sem id).flags := by
  cases h with
  | created id' args _ hf =>
    have hid : id ≠ id' := fun hid => hb (hid ▸ hf)
    simp [hid]
  | pended => rw [Mem.setSem_congr V2lsem.flags _ (by simp), Mem.setWaiting_sem]
  | reentered => rw [Mem.setSem_congr V2lsem.flags _ (by simp), Mem.setWaiting_sem]
  | left hw hl => exact Mem.setSem_congr V2lsem.flags m (hl.flags.trans hw.flags) id
  | gave hg => exact Mem.setSem_congr V2lsem.flags m (giveToken_gave hg).flags id
  | reset => exact Mem.setSem_congr V2lsem.flags m (by rfl) id
  | flushMarked => exact Mem.setSem_congr V2lsem.flags m (by rfl) id
  | deleteMarked => exact Mem.setSem_congr V2lsem.flags m (by rfl) id
  | ended => rw [Mem.setWaiting_sem]
  | _ => rfl

omit [DecidableEq ι] in
theorem WaitEnd.sendType {me : Option θ} {maxWait : Int} {id : ι} {v : V2lsem θ} {retcode : Retcode}
    (h : WaitEnd prio me m maxWait id p v retcode) : v.sendType = (m.sem id).sendType := by
  cases h <;> rfl

/-- A token goes in the wait loops, to the task that the signal is for; it comes with
`semGive`. -/
theorem Runs.token_cases {id : ι} (h : Runs myTask prio t p m m' p') (hb : m.block id ≠ .fresh) :
    (m'.sem id).tokenCount = (m.sem id).tokenCount ∨
      (p = .giveStart id ∧ (m'.sem id).tokenCount = increment (m.sem id).tokenCount) ∨
      ((∃ maxWait retcode, WaitPoint maxWait id retcode p ∧
          (p = .takeTest maxWait id retcode → (m.sem id).sendType = .send)) ∧
        (m.sem id).tokenCount > 0 ∧ (m'.sem id).tokenCount = (m.sem id).tokenCount - 1 ∧
        signalForMyTask (m.sem id).firstSusp ((m.sem id).flags &&& semQPriority) prio (myTask t) = true) := by
  cases h with
  | created id' args _ hf =>
    have hid : id ≠ id' := fun hid => hb (hid ▸ hf)
    exact .inl (by simp [hid])
  | pended => exact .inl (by rw [Mem.setSem_congr V2lsem.tokenCount _ (by simp), Mem.setWaiting_sem])
  | reentered => exact .inl (by rw [Mem.setSem_congr V2lsem.tokenCount _ (by simp), Mem.setWaiting_sem])
  | @left p m maxWait id' v retcode v' error last hw hl =>
    by_cases hid : id = id'
    · subst hid
      rw [Mem.setSem_self, hl.tokenCount]
      cases hw with
      | released => exact .inl rfl
      | taken hp hsend htok hsig => exact .inr (.inr ⟨⟨_, _, hp, hsend⟩, htok, rfl, hsig⟩)
      | timedOut => exact .inl rfl
    · exact .inl (by simp [hid])
  | @gave m id' v error hg =>
    by_cases hid : id = id'
    · subst hid
      rw [Mem.setSem_self]
      exact (giveToken_gave hg).tokenCount.imp_right fun h => .inl ⟨rfl, h⟩
    · exact .inl (by simp [hid])
  | reset => exact .inl (Mem.setSem_congr V2lsem.tokenCount m (by rfl) id)
  | flushMarked => exact .inl (Mem.setSem_congr V2lsem.tokenCount m (by rfl) id)
  | deleteMarked => exact .inl (Mem.setSem_congr V2lsem.tokenCount m (by rfl) id)
  | ended => exact .inl (by rw [Mem.setWaiting_sem])
  | _ => exact .inl rfl

/-- Where a token is taken. -/
theorem Runs.takes {id : ι} (h : Runs myTask prio t p m m' p') (hb : m.block id ≠ .fresh)
    (htook : (m'.sem id).tokenCount = (m.sem id).tokenCount - 1) :
    (∃ maxWait retcode, WaitPoint maxWait id retcode p ∧
        (p = .takeTest maxWait id retcode → (m.sem id).sendType = .send)) ∧
      (m.sem id).tokenCount > 0 ∧
      signalForMyTask (m.sem id).firstSusp ((m.sem id).flags &&& semQPriority) prio (myTask t) = true := by
  obtain hsame | ⟨_, hmore⟩ | ⟨hpoint, htoken, _, hsig⟩ := h.token_cases hb
  · omega
  · exact absurd (hmore.symm.trans htook) (increment_ne_pred _)
  · exact ⟨hpoint, htoken, hsig⟩

/-- The kind of release in progress is changed by the last task that leaves one, by a
flush and by a deletion. -/
theorem Runs.sendType_cases {id : ι} (h : Runs myTask prio t p m m' p') (hb : m.block id ≠ .fresh) :
    (m'.sem id).sendType = (m.sem id).sendType ∨
      (∃ maxWait error, p = .takeLastReset maxWait id error ∧ (m'.sem id).sendType = .send) ∨
      (p = .flushMark id ∧ (m'.sem id).sendType = .flush) ∨
      (p = .deleteMark id ∧ (m'.sem id).sendType = .killd) := by
  cases h with
  | created id' args _ hf =>
    have hid : id ≠ id' := fun hid => hb (hid ▸ hf)
    exact .inl (by simp [hid])
  | pended => exact .inl (by rw [Mem.setSem_congr V2lsem.sendType _ (by simp), Mem.setWaiting_sem])
  | reentered => exact .inl (by rw [Mem.setSem_congr V2lsem.sendType _ (by simp), Mem.setWaiting_sem])
  | left hw hl => exact .inl (Mem.setSem_congr V2lsem.sendType m (hl.sendType.trans hw.sendType) id)
  | gave hg => exact .inl (Mem.setSem_congr V2lsem.sendType m (giveToken_gave hg).sendType id)
  | @reset m maxWait id' error =>
    by_cases hid : id = id'
    · subst hid
      exact .inr (.inl ⟨maxWait, error, rfl, by simp⟩)
    · exact .inl (by simp [hid])
  | @flushMarked m id' =>
    by_cases hid : id = id'
    · subst hid
      exact .inr (.inr (.inl ⟨rfl, by simp⟩))
    · exact .inl (by simp [hid])
  | @deleteMarked m id' =>
    by_cases hid : id = id'
    · subst hid
      exact .inr (.inr (.inr ⟨rfl, by simp⟩))
    · exact .inl (by simp [hid])
  | ended => exact .inl (by rw [Mem.setWaiting_sem])
  | _ => exact .inl rfl

/-- The tokens, the owner and its recursion level change together: where a mutex is
re-entered, where a task leaves the wait loops with a token, and in `semGive`. A task
that takes a token while a release is in progress becomes no owner. -/
theorem Runs.owner_cases {id : ι} (h : Runs myTask prio t p m m' p') (hb : m.block id ≠ .fresh) :
    ((m'.sem id).tokenCount = (m.sem id).tokenCount ∧ (m'.sem id).currentOwner = (m.sem id).currentOwner ∧
        (m'.sem id).recursionLevel = (m.sem id).recursionLevel) ∨
      (∃ maxWait, p = .takeStart maxWait id ∧ p' = .takeEnd maxWait id .ok ∧ (m.sem id).isMutex ∧
        (m.sem id).currentOwner = myTask t ∧
        m'.sem id = {m.sem id with recursionLevel := increment (m.sem id).recursionLevel}) ∨
      (∃ maxWait retcode, WaitPoint maxWait id retcode p ∧ p' = .takeEnd maxWait id .ok ∧
        (m.sem id).sendType = .send ∧ (m.sem id).tokenCount > 0 ∧
        (m'.sem id).tokenCount = (m.sem id).tokenCount - 1 ∧ (m'.sem id).currentOwner = myTask t ∧
        (m'.sem id).recursionLevel =
          if (m.sem id).isMutex then increment (m.sem id).recursionLevel else (m.sem id).recursionLevel) ∨
      (∃ maxWait retcode, p = .takeAgain maxWait id retcode ∧ (m.sem id).sendType ≠ .send ∧
        (m'.sem id).tokenCount = (m.sem id).tokenCount - 1 ∧
        (m'.sem id).currentOwner = (m.sem id).currentOwner ∧
        (m'.sem id).recursionLevel = (m.sem id).recursionLevel) ∨
      (p = .giveStart id ∧ ∃ error, (p' = .giveNotify id ∧ error = .ok ∨ p' = .giveUnlock id error) ∧
        Gave (m.sem id) (myTask t) (m'.sem id) error) := by
  have hsame : ∀ {v : V2lsem θ} {j : ι} {m : Mem θ ι}, v.tokenCount = (m.sem j).tokenCount →
      v.currentOwner = (m.sem j).currentOwner → v.recursionLevel = (m.sem j).recursionLevel →
      ((m.setSem j v).sem id).tokenCount = (m.sem id).tokenCount ∧
        ((m.setSem j v).sem id).currentOwner = (m.sem id).currentOwner ∧
        ((m.setSem j v).sem id).recursionLevel = (m.sem id).recursionLevel :=
    fun ht ho hl => ⟨Mem.setSem_congr V2lsem.tokenCount _ ht id, Mem.setSem_congr V2lsem.currentOwner _ ho id,
      Mem.setSem_congr V2lsem.recursionLevel _ hl id⟩
  cases h with
  | created id' args _ hf =>
    have hid : id ≠ id' := fun hid => hb (hid ▸ hf)
    exact .inl (by simp [hid])
  | @pended m maxWait id' =>
    refine .inl ?_
    rw [← m.setWaiting_sem (myTask t) (some id')]
    exact hsame (by simp) (by simp) (by simp)
  | @reentered m maxWait id' hm ho =>
    by_cases hid : id = id'
    · subst hid
      exact .inr (.inl ⟨maxWait, rfl, rfl, hm, ho, Mem.setSem_self ..⟩)
    · exact .inl (by simp [hid])
  | @left p m maxWait id' v retcode v' error last hw hl =>
    by_cases hid : id = id'
    · subst hid
      rw [Mem.setSem_self]
      cases hw with
      | released hs => exact .inl ⟨hl.tokenCount, hl.disown (.inl hs)⟩
      | @taken p rc hp hs htok hsig =>
        by_cases hsend : (m.sem id).sendType = .send
        · obtain ⟨hown, hlevel⟩ := hl.own hsend rfl
          have hlast : last = false := by
            rw [← Bool.not_eq_true, hl.last]
            exact fun h => h.1 hsend
          have herror : error = .ok := by
            rw [hl.spared (by simp [hsend])]
            simp [waitError]
          rw [hlast, herror]
          exact .inr (.inr (.inl ⟨maxWait, rc, hp, rfl, hsend, htok, hl.tokenCount, hown, hlevel⟩))
        · have hagain : p = .takeAgain maxWait id rc := by
            cases hp with
            | test => exact absurd (hs rfl) hsend
            | again => rfl
          exact .inr (.inr (.inr (.inl ⟨maxWait, rc, hagain, hsend, hl.tokenCount, hl.disown (.inl hsend)⟩)))
      | timedOut => exact .inl ⟨hl.tokenCount, hl.disown (.inr nofun)⟩
    · exact .inl (by simp [hid])
  | @gave m id' v error hg =>
    by_cases hid : id = id'
    · subst hid
      refine .inr (.inr (.inr (.inr ⟨rfl, error, ?_, ?_⟩)))
      · split
        · rename_i hn
          exact .inl ⟨rfl, hn.1⟩
        · exact .inr rfl
      · rw [Mem.setSem_self]
        exact giveToken_gave hg
    · exact .inl (by simp [hid])
  | reset => exact .inl (hsame rfl rfl rfl)
  | flushMarked => exact .inl (hsame rfl rfl rfl)
  | deleteMarked => exact .inl (hsame rfl rfl rfl)
  | ended => exact .inl (by rw [Mem.setWaiting_sem]; exact ⟨rfl, rfl, rfl⟩)
  | _ => exact .inl ⟨rfl, rfl, rfl⟩

end

end V2lin.Sem
