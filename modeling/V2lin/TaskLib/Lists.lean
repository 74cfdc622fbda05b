import V2lin.TaskLib.Closing
import V2lin.TaskLib.Handshake

/-! Who is on which list, and what the `waiting` pointers say.

The task library takes tasks off the lists of the semaphores and puts none there; only a
deleter puts himself on the list of a task. -/
namespace V2lin.TaskLib
open Threads V2lin.Task

section
variable {θ ι : Type} [DecidableEq θ] [DecidableEq ι] {ids : AddressIds θ} {t u v : θ} {p p' : Pc θ} {m m' : Mem θ ι}
  {id : ι}

/-! ### `unlink_susp_task` for a task that waits -/

theorem Mem.mem_unlinkWaiting (h : u ∈ (m.unlinkWaiting v).semSusp id) : u ∈ m.semSusp id := by
  unfold Mem.unlinkWaiting at h
  split at h
  · exact h
  · rename_i id' _
    by_cases hid : id = id'
    · subst hid
      simp only [Function.update_self] at h
      exact List.mem_of_mem_erase h
    · simp only [Function.update_of_ne hid] at h
      exact h

theorem Mem.nodup_unlinkWaiting (v : θ) (h : (m.semSusp id).Nodup) : ((m.unlinkWaiting v).semSusp id).Nodup := by
  unfold Mem.unlinkWaiting
  split
  · exact h
  · rename_i id' _
    by_cases hid : id = id'
    · subst hid
      simp only [Function.update_self]
      exact nodup_unlinkSuspTask h
    · simp only [Function.update_of_ne hid]
      exact h

/-- A task is taken off the list of the semaphore that it waits for. -/
theorem Mem.notMem_unlinkWaiting (h : (m.semSusp id).Nodup) (hw : (m.tcb v).waiting = some id) :
    v ∉ (m.unlinkWaiting v).semSusp id := by
  have hself : (m.unlinkWaiting v).semSusp id = unlinkSuspTask (m.semSusp id) (some v) := by
    rw [Mem.unlinkWaiting, hw]
    exact Function.update_self ..
  rw [hself, mem_unlinkSuspTask h]
  exact fun hv => hv.1 rfl

@[simp] theorem Mem.taskDelete_semSusp (m : Mem θ ι) (v : θ) : (m.taskDelete v).semSusp = (m.unlinkWaiting v).semSusp :=
  rfl

/-! ### What a step changes -/

theorem Runs.semSusp_cases (h : Runs ids t p m m' p') :
    m'.semSusp = m.semSusp ∨ ∃ v, m'.semSusp = (m.unlinkWaiting v).semSusp := by
  cases h with
  | @noThread _ _ u => exact .inr ⟨u, rfl⟩
  | unlinked v => exact .inr ⟨v, rfl⟩
  | removed _ u => exact .inr ⟨u, rfl⟩
  | selfRemoved _ u => exact .inr ⟨u, rfl⟩
  | _ => exact .inl rfl

theorem Runs.mem_semSusp (h : Runs ids t p m m' p') (hu : u ∈ m'.semSusp id) : u ∈ m.semSusp id := by
  obtain heq | ⟨v, heq⟩ := h.semSusp_cases
  · rwa [heq] at hu
  · rw [heq] at hu
    exact Mem.mem_unlinkWaiting hu

theorem Runs.nodup_semSusp (h : Runs ids t p m m' p') (hnodup : (m.semSusp id).Nodup) : (m'.semSusp id).Nodup := by
  obtain heq | ⟨v, heq⟩ := h.semSusp_cases
  · rwa [heq]
  · rw [heq]
    exact Mem.nodup_unlinkWaiting v hnodup

theorem mem_linkSuspTask_cases {l : List θ} {self : Option θ} (h : u ∈ linkSuspTask l self) : u ∈ l ∨ self = some u := by
  cases self with
  | none => exact .inl h
  | some e =>
    obtain h | h := List.mem_append.mp h
    · exact .inl (List.takeWhile_subset _ h)
    · exact .inr (congrArg some (List.mem_singleton.mp h).symm)

/-- Only a deleter puts somebody on the list of a task, namely its caller. -/
theorem Runs.mem_firstSusp (h : Runs ids t p m m' p') (hu : u ∈ (m'.tcb v).firstSusp) :
    u ∈ (m.tcb v).firstSusp ∨ p = .pendLink (some u) v := by
  have hset : ∀ {x : θ} {b : Tcb θ ι}, b.firstSusp = (m.tcb x).firstSusp → u ∈ ((m.setTcb x b).tcb v).firstSusp →
      u ∈ (m.tcb v).firstSusp := by
    intro x b hb hin
    rwa [Mem.setTcb_congr Tcb.firstSusp m hb] at hin
  cases h with
  | registered n tid =>
    by_cases hv : v = n
    · subst hv
      rw [Mem.setTcb_self] at hu
      cases hu
    · rw [Mem.setTcb_of_ne _ _ hv] at hu
      exact .inl hu
  | named n tid => exact .inl (hset (by rfl) hu)
  | activated => exact .inl (hset (by rfl) hu)
  | noThread => exact .inl (by rwa [Mem.taskDelete_tcb] at hu)
  | linked self x =>
    by_cases hv : v = x
    · subst hv
      rw [Mem.setTcb_self] at hu
      exact (mem_linkSuspTask_cases hu).imp_right fun hself => by rw [hself]
    · rw [Mem.setTcb_of_ne _ _ hv] at hu
      exact .inl hu
  | unlinked => exact .inl (by rwa [Mem.unlinkWaiting_tcb] at hu)
  | removed => exact .inl (by rwa [Mem.taskDelete_tcb] at hu)
  | selfRemoved => exact .inl (by rwa [Mem.taskDelete_tcb] at hu)
  | protects => exact .inl (hset (by rfl) hu)
  | unprotects => exact .inl (hset (by rfl) hu)
  | _ => exact .inl hu

/-- Only `taskInit` sets a `waiting` pointer. -/
theorem Runs.waiting_cases (h : Runs ids t p m m' p') (u : θ) :
    (m'.tcb u).waiting = (m.tcb u).waiting ∨ spawns p = some u := by
  have hset : ∀ {x : θ} {b : Tcb θ ι}, b.waiting = (m.tcb x).waiting →
      ((m.setTcb x b).tcb u).waiting = (m.tcb u).waiting := by
    intro x b hb
    rw [Mem.setTcb_congr Tcb.waiting m hb]
  cases h with
  | registered n tid =>
    by_cases hu : u = n
    · exact .inr (by rw [hu]; rfl)
    · exact .inl (by rw [Mem.setTcb_of_ne _ _ hu]; rfl)
  | named n tid => exact .inl (hset rfl)
  | activated => exact .inl (hset rfl)
  | noThread => exact .inl (by rw [Mem.taskDelete_tcb])
  | linked => exact .inl (hset rfl)
  | unlinked => exact .inl (by rw [Mem.unlinkWaiting_tcb])
  | removed => exact .inl (by rw [Mem.taskDelete_tcb])
  | selfRemoved => exact .inl (by rw [Mem.taskDelete_tcb])
  | protects => exact .inl (hset rfl)
  | unprotects => exact .inl (hset rfl)
  | _ => exact .inl rfl

theorem Runs.of_pendLink {self : Option θ} (h : Runs ids t (.pendLink self u) m m' p') : p' = .pendTlock self u := by
  cases h with
  | reads hg => cases hg
  | locked hl => cases hl
  | unlocked hu => cases hu
  | cleaned hc => cases hc
  | killed hk => cases hk
  | linked => rfl

theorem Runs.of_forceRemove {cause : Cause θ} (h : Runs ids t (.forceRemove cause u) m m' p') :
    m' = m.taskDelete u := by
  cases h with
  | reads hg => cases hg
  | locked hl => cases hl
  | unlocked hu => cases hu
  | cleaned hc => cases hc
  | killed hk => cases hk
  | removed => rfl

/-- A thread that is gone stays so. -/
theorem Runs.gone (h : Runs ids t p m m' p') (hg : gone p = true) : TaskLib.gone p' = true := by
  cases h with
  | reads hr => cases hr <;> cases hg
  | locked hl => cases hl <;> cases hg
  | unlocked hu => cases hu <;> cases hg
  | cleaned hc =>
    cases hc with
    | closing => cases hg
    | dying => rfl
  | killed hk => cases hk <;> cases hg
  | ended => rfl
  | _ => cases hg

theorem next_gone (h : (code (ι := ι) ids t p).Next p') (hg : gone p = true) : gone p' = true := by
  cases p
  case pendKilled u =>
    cases h
    rfl
  case dying => exact False.elim h
  case exit => exact False.elim h
  case dead => exact False.elim h
  all_goals cases hg

/-! ### Joining -/

/-- The task whose thread the caller has joined. -/
def joined : Pc θ → Option θ
  | .forceRemove _ u => some u
  | _ => none

omit [DecidableEq θ] in
theorem joined_eq (h : joined p = some u) : ∃ cause, p = .forceRemove cause u := by
  cases p
  case forceRemove cause v =>
    cases h
    exact ⟨cause, rfl⟩
  all_goals cases h

theorem next_joined (h : (code (ι := ι) ids t p).Next p') : joined p' = none := by
  refine Option.eq_none_iff_forall_ne_some.mpr fun u hj => ?_
  obtain ⟨cause, rfl⟩ := joined_eq hj
  have hnone := (next_removals h).1
  cases hnone

/-- `pthread_join` has returned. -/
theorem Runs.joined_dead (h : Runs ids t p m m' p') (hok : Ok ids m t p) (hj : joined p' = some u) :
    m'.dead u = true := by
  obtain ⟨cause, rfl⟩ := joined_eq hj
  exact (h.removals hok).1 cause u rfl

end

end V2lin.TaskLib
