import V2lin.Watchdog.Locks
import V2lin.Threads.Ranks

/-! The watchdog library is never stuck if no deletion is overtaken.

A call takes `wdog_list_lock` and then `wdog_lock`, but `wdDelete` has `wdog_lock` when it
takes `wdog_list_lock`. So the lock of a watchdog ranks below the list while its deletion
waits for the list, and above it otherwise. -/
namespace V2lin.Watchdog
open Threads

section
variable {θ ι φ : Type}

/-- In the library, and not about to call a timeout function. -/
def Pc.busy : Pc ι φ → Bool
  | .idle _ | .returned _ _ _ _ | .tickCall _ _ => false
  | _ => true

/-- The rank of a mutex; `awaits` are the watchdogs whose deletion waits for the list. -/
def Lock.rank (awaits : ι → Prop) [DecidablePred awaits] : Lock ι → ℕ
  | .wdogListLock => 1
  | .wdogLock id => if awaits id then 0 else 2

/-- A `wdDelete` of the watchdog waits for the list. -/
def Awaits (s : WdogState θ ι φ) (id : ι) : Prop := ∃ t frame, s.ctl t = .awake (.deleteListLock frame id)

variable [DecidableEq ι] [DecidableEq θ]
variable {p : Pc ι φ} {id : ι} {t u : θ} {lock : Lock ι} {s : WdogState θ ι φ} {tr : List (WdogTransition θ ι φ)}

omit [DecidableEq ι] in
theorem busy_of_held (h : lock ∈ held p) : p.busy = true := by
  cases p <;> first | rfl | cases h

omit [DecidableEq θ] in
theorem block_possible {block : Choice ι φ → Mem ι φ → Option (Mem ι φ × Pc ι φ)} (hbusy : p.busy = true)
    (hi : code t p = .run block) (m : Mem ι φ) : ∃ x r, block x m = some r := by
  cases p <;> simp only [code, Instr.run.injEq, reduceCtorEq] at hi <;> subst hi <;>
    first
    | cases hbusy; done
    | exact ⟨.none, _, rfl⟩

theorem apart (h : Run code Initial tr s) (hno : ∀ x ∈ tr, ¬ Overtakes id x) : Apart id s := by
  induction h with
  | start hi =>
    intro t frame ht
    rw [hi.idle t] at ht
    cases ht
  | step hr hs ih =>
    have hrest : ∀ x ∈ _, ¬ Overtakes id x := fun x hx => hno x (List.mem_cons_of_mem _ hx)
    exact apart_step hr hs (hno _ (List.mem_cons_self ..)) (ih hrest)

open Classical in
theorem ranked (h : Run code Initial tr s) (hno : ∀ id, ∀ x ∈ tr, ¬ Overtakes id x) :
    Ranked code Pc.busy (Lock.rank (Awaits s)) 3 s where
  below lock := by
    cases lock with
    | wdogListLock => simp [Lock.rank]
    | wdogLock id =>
      show (if Awaits s id then 0 else 2) < 3
      split <;> omega
  owner lock u hown := by
    obtain ⟨p, hp⟩ := awake h u
    exact ⟨p, hp, busy_of_held ((owner_iff h hp).mp hown)⟩
  rises lock u lock' hown hwaits := by
    obtain ⟨p, next, hp, hi⟩ := hwaits
    have hin := (owner_iff h hp).mp hown
    cases p <;> simp only [code, Instr.lock.injEq, reduceCtorEq] at hi <;> simp [held] at hin
    case validWdog use id =>
      -- nobody who deletes the watchdog waits for the list
      have hnone : ¬ Awaits s id := by
        rintro ⟨t, frame, ht⟩
        have hlook := apart h (hno id) t frame ht u
        rw [hp] at hlook
        simp [looking] at hlook
      rw [hin, ← hi.1]
      simp [Lock.rank, hnone]
    case deleteListLock frame id =>
      have hawaits : Awaits s id := ⟨u, frame, hp⟩
      rw [hin, ← hi.1]
      simp [Lock.rank, hawaits]
  runs u p block _ hbusy hi := block_possible hbusy hi s.mem

/-- If no call overtakes a `wdDelete` on its way to the list, nobody in the library is ever
stuck. -/
theorem watchdogs_proceed (h : Run code Initial tr s) (hno : ∀ id, ∀ x ∈ tr, ¬ Overtakes id x)
    (hbusy : (s.ctl t).point.busy = true) : Proceeds code Pc.busy s t := by
  classical
  obtain ⟨p, hp⟩ := awake h t
  exact (ranked h hno).awake_proceeds .none hp (by rwa [hp] at hbusy)

end

/-- Task 0 deletes a watchdog and waits for the list, to which task 1 appends another. -/
def deleteBehind : List (Fin 2 × Input (Choice ℕ ℕ)) :=
  makes 0 7 :: goesOn 0 3 ++ calls 0 .delete 7 :: goesOn 0 4 ++ makes 1 8 :: goesOn 1 1

/-- No deletion waits for the list where a call is about to take it. -/
def noneAwaits (x : WdogTransition (Fin 2) ℕ ℕ) (u : Fin 2) : Bool :=
  match x.pre.ctl x.thread, x.pre.ctl u with
  | .awake (.validLock _ _), .awake (.deleteListLock _ _) => false
  | _, _ => true

theorem deleteBehind_proceeds : ∃ s : WdogState (Fin 2) ℕ ℕ,
    s.ctl 0 = .awake (.deleteListLock .task 7) ∧ s.owner .wdogListLock = some 1 ∧ Proceeds code Pc.busy s 0 := by
  obtain ⟨tr, s, hr, hs⟩ := run_of_check (code (θ := Fin 2) (ι := ℕ) (φ := ℕ)) deleteBehind (fun tr s =>
      (∀ x ∈ tr, ∀ u, noneAwaits x u = true) ∧ s.ctl 0 = .awake (.deleteListLock .task 7) ∧
      s.owner .wdogListLock = some 1) boot_initial (by decide)
  obtain ⟨hnone, hp, hown⟩ := of_decide_eq_true hs
  refine ⟨s, hp, hown, watchdogs_proceed hr (fun id x hx => ?_) (by rw [hp]; rfl)⟩
  rintro ⟨⟨use, hlook⟩, u, frame, hu⟩
  have happart := hnone x hx u
  rw [noneAwaits, hlook, hu] at happart
  cases happart

end V2lin.Watchdog
