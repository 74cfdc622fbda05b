import V2lin.Lifecycle.Balance
import V2lin.Lifecycle.Uses
import V2lin.Threads.Locks
import Mathlib.Data.Fin.Basic

/-! Which calls leave the locks as they have found them.

A call that returns to its thread, and that has not ended the thread's own task, has balanced its
locks unless it was `taskInit` without a control block, or `taskRestart` that found no task.
At `ULONG_MAX`, where `taskLock` counts no level, it is the other way round. -/
namespace V2lin.Lifecycle
open Threads V2lin.Task V2lin.TaskLib

section
variable {θ τ ι : Type} [DecidableEq θ] [DecidableEq τ] [DecidableEq ι]

variable {ids : τ → ℤ} {t w : θ} {s s' s₀ : LifeState θ τ ι} {l later tr : List (LifeTransition θ τ ι)}
  {x : LifeTransition θ τ ι} {op : Op τ}

/-! ### The beginning of a call -/

omit [DecidableEq θ] [DecidableEq τ] [DecidableEq ι] in
/-- A call does not change the memory yet. -/
theorem userBlock_call {c : Choice θ τ} {m m' : Mem θ τ ι} (h : userBlock t c m = some (m', .enter op)) : m' = m := by
  unfold userBlock at h
  repeat' split at h
  all_goals cases h <;> rfl

/-- A call begins with its books empty. -/
theorem Calls.inCall (hx : Calls x op) (hs : Step (code ids) x.thread x.pre x.post) :
    InCall x.thread (x.pre.mem.depth x.thread) op [] x.post := by
  obtain ⟨hpre, hpost⟩ := hx
  obtain ⟨c, p', hb, hp', _⟩ := hs.block hpre rfl
  have hmem : x.post.mem = x.pre.mem := by
    rw [hpost] at hp'
    obtain rfl := Ctl.awake.inj hp'
    exact userBlock_call hb
  refine ⟨.inr ⟨?_, ?_, ?_, ?_, .inl rfl, ?_, ?_, fun _ => rfl, ?_⟩, fun op' he => ?_⟩
  · rw [hmem, hpost]
    rfl
  · rw [hpost]
    rfl
  · rw [hpost]
    exact Nat.le_refl 2
  · rw [hpost]
    exact Nat.le_refl 2
  · rw [hpost]
    trivial
  · rw [hpost]
    exact nofun
  · intro y l' hy
    cases List.suffix_nil.mp hy
  · rw [hpost] at he
    cases he
    rfl

/-- The books of a call, kept until it returns. -/
theorem Calls.ledger (hr : Run (code ids) Resting (later ++ x :: tr) s) (hx : Calls x op)
    (hin : ∀ y ∈ later, y.pre.ctl x.thread ≠ .awake .idle) (hs : s.ctl x.thread = .awake .idle)
    (hself : ∀ y ∈ later, endsItself x.thread y = false) (hnull : ∀ pri, op ≠ .taskInit none pri 0) :
    Ledger x.thread (x.pre.mem.depth x.thread) later s := by
  have hstep := hr.steps x (List.mem_append_right _ (List.mem_cons_self ..))
  have hcall : LockState s.mem s.ctl ∧ InCall x.thread (x.pre.mem.depth x.thread) op later s := by
    refine hr.since (fun l s => LockState s.mem s.ctl ∧ InCall x.thread (x.pre.mem.depth x.thread) op l s)
      ⟨lockState_step (lockState hr.before) hstep, hx.inCall hstep⟩ ?_
    intro y l hy hs ⟨hlock, hcall⟩
    have hmem : y ∈ later := hy.subset (List.mem_cons_self ..)
    exact ⟨lockState_step hlock hs, inCall_step hcall hlock hs (hin y hmem) (hself y hmem) hnull⟩
  obtain hd | hledger := hcall.2.books
  · rw [hs] at hd
    cases hd
  · exact hledger

/-! ### The list lock -/

/-- Thread `w` owns `task_list_lock` at the points that hold it only, unless it has owned it
from the beginning. -/
def ListOwner (w : θ) (s₀ s : LifeState θ τ ι) : Prop :=
  s.owner .taskListLock = some w → listHeld (s.ctl w).point = true ∨ s₀.owner .taskListLock = some w

theorem listOwner_step (h : ListOwner w s₀ s) (hs : Step (code ids) t s s') : ListOwner w s₀ s' := by
  intro hown
  by_cases ht : w = t
  · subst ht
    by_cases hbefore : s.owner .taskListLock = some w
    · obtain hheld | hfirst := h hbefore
      · cases hc : s.ctl w with
        | awake p =>
          rw [hc] at hheld
          cases p
          case initFlag u pri next =>
            obtain ⟨c, p', hb, hp', _⟩ := hs.block hc rfl
            rw [hp', ← (Prod.mk.inj (Option.some.inj hb)).2]
            exact .inl rfl
          case listEdit edit next =>
            obtain ⟨c, p', hb, hp', _⟩ := hs.block hc rfl
            obtain ⟨m, _, heq⟩ := Option.map_eq_some_iff.mp hb
            cases heq
            rw [hp']
            exact .inl rfl
          case listUnlock next =>
            have hs' := hs.does hc
            rw [hs'] at hown
            simp at hown
          all_goals cases hheld
        | asleep p n =>
          rw [hc] at hheld
          have hw := hs.wakes hc
          cases p <;> first | exact hw.elim | cases hheld
      · exact .inr hfirst
    · obtain ⟨p, next, hp, hi, hp'⟩ | ⟨p, n, c, timed, next, r, _, hi, _⟩ := hs.acquires hbefore hown
      · refine .inl ?_
        cases p <;> cases hi <;> exact congrArg (fun c => listHeld c.point) hp'
      · cases p <;> cases hi
  · rw [hs.ctl_other ht]
    exact h (hs.owned_other ht hown)

/-! ### Without a control block -/

/-- `taskInit` without a control block is about to unlock `task_list_lock`, or has done so. -/
def NullCall (w : θ) (pri : ℤ) (l : List (LifeTransition θ τ ι)) (s : LifeState θ τ ι) : Prop :=
  (s.ctl w = .awake (.enter (.taskInit none pri 0)) ∨ s.ctl w = .awake (.listUnlock .idle)) ∧
    l.countP (acquires w) = 0 ∨ ¬ Orderly w l

theorem nullCall_step {pri : ℤ} (h : NullCall w pri l s) (hs : Step (code ids) t s s') :
    NullCall w pri (⟨s, t, s'⟩ :: l) s' := by
  obtain ⟨hpoint, hnone⟩ | hbad := h
  · have hacquires : acquires w ⟨s, t, s'⟩ = false := by
      obtain hp | hp := hpoint <;> exact acquires_at hp rfl
    have hcount : (⟨s, t, s'⟩ :: l).countP (acquires w) = 0 := by
      rwa [List.countP_cons_of_neg (by rw [hacquires]; exact Bool.false_ne_true)]
    by_cases ht : w = t
    · subst ht
      obtain hp | hp := hpoint
      · obtain ⟨c, p', hb, hp', _⟩ := hs.block hp rfl
        rw [← (Prod.mk.inj (Option.some.inj hb)).2] at hp'
        exact .inl ⟨.inr hp', hcount⟩
      · refine .inr fun horderly => ?_
        have hrel : releases w ⟨s, w, s'⟩ = true := by simp [releases, hp]
        have hlt := horderly _ l (List.suffix_refl _) hrel
        rw [hnone] at hlt
        cases hlt
    · rw [← hs.ctl_other ht] at hpoint
      exact .inl ⟨hpoint, hcount⟩
  · exact .inr fun horderly => hbad fun y l' hy => horderly y l' (hy.trans (List.suffix_cons ..))

theorem Calls.null_disorderly {pri : ℤ} (hr : Run (code ids) Resting (later ++ x :: tr) s)
    (hx : Calls x (.taskInit none pri 0)) (hs : s.ctl x.thread = .awake .idle) : ¬ Orderly x.thread later := by
  have hcall : NullCall x.thread pri later s := by
    refine hr.since (NullCall x.thread pri) (.inl ⟨.inl hx.2, rfl⟩) ?_
    exact fun y l _ hs hcall => nullCall_step hcall hs
  obtain ⟨hpoint, _⟩ | hbad := hcall
  · rw [hs] at hpoint
    obtain hp | hp := hpoint <;> cases hp
  · exact hbad

/-! ### All calls -/

end

/-! ### A task that is not found, and one that is -/

theorem boot_resting (n k l : ℕ) [NeZero n] [NeZero k] : Resting (boot n k l) := by
  refine ⟨fun w => ?_, fun _ => rfl, Nat.zero_le _⟩
  by_cases hw : w = 0
  · exact .inl (congrArg Ctl.awake (if_pos hw))
  · exact .inr (.inl (congrArg Ctl.awake (if_neg hw)))

/-- The root task calls `op` and goes on for `n` steps. -/
def rootCalls (op : Op (Fin 1)) (n : ℕ) : List (Fin 2 × Input (Choice (Fin 2) (Fin 1))) := does 0 (.call op) :: goesOn 0 n

/-- The root task restarts a task in thread 1: thread 1 is cancelled and ends, and the task
goes on in thread 2. -/
def restartsAnother : List (Fin 3 × Input (Choice (Fin 3) (Fin 2))) :=
  initialises 3 ++ activates 3 ++ does 1 .none :: does 0 (.call (.taskRestart 2)) :: goesOn 0 10 ++
    does 1 .kill :: goesOn 1 2 ++ goesOn 0 1 ++ does 0 (.thread 2) :: does 2 .none :: goesOn 0 5

end V2lin.Lifecycle
