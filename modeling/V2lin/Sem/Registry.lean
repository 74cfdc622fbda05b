import V2lin.Sem.Embrace
import V2lin.Threads.Catalogue

/-! The list of semaphores as a directory, and who is inside a semaphore.

A semaphore is linked once, and nobody comes to it after it has been unlinked. A semaphore
with a deletion in its drain is still on the list. -/
namespace V2lin.Sem
open Threads V2lin.Task

section
variable {θ ι : Type}

/-! ### The directory -/

/-- The semaphore that a creator has made and not yet linked. -/
def publishing : Pc ι → Option ι
  | .linkLock id | .linkAppend id => some id
  | _ => none

/-- The semaphore that a call has found on the list. -/
def uses : Pc ι → Option ι
  | .linkLock _ | .linkAppend _ | .linkUnlock _ => none
  | p => touches p

/-- The semaphore that a call is inside of: past `sem_find_lock`, and before its last
access to the control block. -/
def inside : Pc ι → Option ι
  | .findSem _ _ | .flushTaskUnlock _ _ | .deleteTaskUnlock _ _ => none
  | p => uses p

/-- The semaphore that a call is inside of or has found, but for deletions that have
unlinked it. -/
def comes : Pc ι → Option ι
  | .findSem _ id => some id
  | .deleteListUnlock _ _ | .deleteFree _ _ => none
  | p => inside p

/-- The semaphores, the list and the points. -/
def catalogue : Catalogue (Mem θ ι) (Pc ι) ι where
  listed := Mem.semList
  fresh m id := m.block id = .fresh
  publishing := publishing
  uses := uses
  comes := comes

def registry (s : SemState θ ι) : Directory θ ι := catalogue.registry s

/-- The semaphore is off the list, and nobody is inside of it or comes to it but deletions
that have unlinked it. -/
abbrev Deserted (id : ι) (s : SemState θ ι) : Prop := catalogue.Deserted id s

variable {p p' : Pc ι} {id : ι}

theorem publishing_resting (h : p.resting = true) : publishing p = none := by
  cases p <;> first | rfl | cases h

theorem WaitPoint.publishing {maxWait : Int} {retcode : Retcode} (h : WaitPoint maxWait id retcode p) :
    publishing p = none := by
  cases h <;> rfl

theorem WaitPoint.uses {maxWait : Int} {retcode : Retcode} (h : WaitPoint maxWait id retcode p) :
    uses p = some id := by
  cases h <;> rfl

theorem WaitPoint.comes {maxWait : Int} {retcode : Retcode} (h : WaitPoint maxWait id retcode p) :
    comes p = some id := by
  cases h <;> rfl

theorem comes_of_pended (h : pendsOn p = some id) : comes p = some id := by
  cases p <;> first | exact h | cases h

variable [DecidableEq θ] [DecidableEq ι]
variable {myTask : θ → Option θ} {prio : θ → Int} {t u : θ} {m m' : Mem θ ι}

theorem next_follows (h : (code myTask prio t p).Next p') : (catalogue : Catalogue (Mem θ ι) (Pc ι) ι).Follows p p' := by
  cases p
  case findUnlock op j found =>
    cases h
    cases found
    · exact .of_none rfl rfl rfl
    · cases op <;> exact .of_eq rfl rfl rfl
  all_goals first
    | exact False.elim h
    | (cases h; exact .of_eq rfl rfl rfl)
    | (cases h; exact .of_leaving rfl rfl rfl)
    | (cases h; exact .of_none rfl rfl rfl)
    | (obtain ⟨r, rfl⟩ := h; exact .of_eq rfl rfl rfl)

/-- A block in the directory of its thread. -/
theorem Runs.move (h : Runs myTask prio t p m m' p') :
    (catalogue.directory m fun _ : Unit => p).Move () (catalogue.directory m' fun _ => p') := by
  have hstay : ∀ {m m' : Mem θ ι}, m'.semList = m.semList → publishing p' = publishing p →
      (∀ id, uses p' = some id → uses p = some id ∨ id ∈ m.semList) →
      (catalogue.directory m fun _ : Unit => p).Move () (catalogue.directory m' fun _ => p') :=
    fun hl hpub huse => .stay hl hpub huse
  cases h with
  | called op id hrest => exact hstay rfl (publishing_resting hrest).symm nofun
  | refused hrest => exact hstay rfl (publishing_resting hrest).symm nofun
  | created id args hrest hf =>
    refine .make id hf ?_ rfl rfl rfl
    show Function.update m.block id .live id ≠ .fresh
    simp
  | linked id => exact .publish id rfl rfl rfl rfl
  | found op hin =>
    refine hstay rfl rfl fun id hid => .inr ?_
    cases hid
    exact hin
  | unlinked id drained => exact .withdraw id rfl rfl rfl
  | notFound => exact hstay rfl rfl nofun
  | flushTaskUnlocked => exact hstay rfl rfl nofun
  | deleteTaskUnlocked => exact hstay rfl rfl nofun
  | left hw =>
    obtain ⟨retcode, hpoint⟩ := hw.point
    refine hstay rfl ?_ fun id hid => .inl (hpoint.uses.trans ?_)
    · rw [hpoint.publishing]
      split <;> rfl
    · split at hid <;> exact hid
  | sleeps hpoint => exact hstay rfl hpoint.publishing.symm fun id hid => .inl (hpoint.uses.trans hid)
  | polls hpoint => exact hstay rfl hpoint.publishing.symm fun id hid => .inl (hpoint.uses.trans hid)
  | reentered => exact hstay (by simp) rfl fun _ hid => .inl hid
  | pended => exact hstay (by simp) rfl fun _ hid => .inl hid
  | ended => exact hstay (by simp) rfl fun _ hid => .inl hid
  | gave =>
    refine hstay rfl (by split <;> rfl) fun id hid => .inl ?_
    split at hid <;> exact hid
  | _ => exact hstay rfl rfl fun _ hid => .inl hid

/-- Whoever comes to a semaphore has found it on the list. -/
theorem Runs.comes_cases (h : Runs myTask prio t p m m' p') (hc : comes p' = some id) :
    comes p = some id ∨ id ∈ m.semList := by
  cases h with
  | found op hin =>
    cases hc
    exact .inr hin
  | left hw =>
    obtain ⟨retcode, hpoint⟩ := hw.point
    refine .inl (hpoint.comes.trans ?_)
    split at hc <;> exact hc
  | sleeps hpoint => exact .inl (hpoint.comes.trans hc)
  | polls hpoint => exact .inl (hpoint.comes.trans hc)
  | gave =>
    refine .inl ?_
    split at hc <;> exact hc
  | called => cases hc
  | refused => cases hc
  | created => cases hc
  | unlinked => cases hc
  | flushNobody => cases hc
  | flushTaskUnlocked => cases hc
  | deleteTaskUnlocked => cases hc
  | _ => exact .inl hc

/-- The code keeps to the catalogue. -/
theorem kept : (catalogue : Catalogue (Mem θ ι) (Pc ι) ι).Kept (code myTask prio) where
  next h := next_follows h
  block hi hb :=
    have hr := block_runs hi hb
    ⟨hr.move, fun _ hf => by_contra fun hb => hr.block_ne_fresh hb hf, fun _ hc => hr.comes_cases hc⟩

variable {s s' : SemState θ ι} {tr : List (SemTransition θ ι)}

omit [DecidableEq θ] [DecidableEq ι] in
theorem initial_registry (s : SemState θ ι) (h : Initial s) : (registry s).Sound :=
  Catalogue.sound_of_idle h.semList h.idle rfl rfl

/-- In every run a semaphore is linked once. -/
theorem registry_sound (h : Run (code myTask prio) Initial tr s) : (registry s).Sound :=
  kept.sound initial_registry h

end

end V2lin.Sem
