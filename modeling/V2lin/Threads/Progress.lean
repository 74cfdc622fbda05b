import V2lin.Threads.Locks
import V2lin.Threads.Wakeups

/-! Threads that are not stuck.

A thread that cannot take its next step waits for a mutex or for a broadcast. It is not
stuck if the owner of the mutex is not: from owner to owner one comes to a thread that can
go on. A deadlock has no such chain, nor has a mutex whose owner has gone away with it, nor
a sleeper that no broadcast has reached. -/
namespace V2lin.Threads

section
variable {θ σ μ κ π χ : Type} [DecidableEq θ] [DecidableEq μ] [DecidableEq κ]

/-- No broadcast is missing for the thread to go on. -/
def Roused (code : θ → π → Instr σ μ κ π χ) (s : State θ σ μ κ π) (t : θ) : Prop := ∀ c, ¬ Unreached code c s t

/-- The thread sleeps in a wait that takes `m` back. -/
def Regains (code : θ → π → Instr σ μ κ π χ) (s : State θ σ μ κ π) (t : θ) (m : μ) : Prop :=
  ∃ p n c timed next, s.ctl t = .asleep p n ∧ code t p = .wait c m timed next

/-- A thread at work, which can go on, or waits for a mutex whose owner is not stuck. -/
inductive Proceeds (code : θ → π → Instr σ μ κ π χ) (busy : π → Bool) (s : State θ σ μ κ π) : θ → Prop where
  | goes {t s'} : busy (s.ctl t).point = true → Roused code s t → Step code t s s' → Proceeds code busy s t
  | behind {t u m} : busy (s.ctl t).point = true → Roused code s t → WaitsFor code s t m ∨ Regains code s t m →
      s.owner m = some u → Proceeds code busy s u → Proceeds code busy s t

variable {code : θ → π → Instr σ μ κ π χ} {busy : π → Bool} {s : State θ σ μ κ π} {t u : θ} {p : π}

omit [DecidableEq θ] [DecidableEq μ] [DecidableEq κ] in
theorem roused_awake (hp : s.ctl t = .awake p) : Roused code s t := by
  rintro c ⟨q, m, timed, next, hq, _⟩
  rw [hp] at hq
  cases hq

/-- An awake thread proceeds if its instruction is no lock and it can run it. -/
theorem Proceeds.of_awake (hp : s.ctl t = .awake p) (hbusy : busy p = true)
    (hlock : ∀ m next, code t p ≠ .lock m next) (x : χ)
    (hrun : ∀ block, code t p = .run block → ∃ x r, block x s.mem = some r) : Proceeds code busy s t := by
  have hbusy : busy (s.ctl t).point = true := by rwa [hp]
  cases hi : code t p with
  | lock m next => exact absurd hi (hlock m next)
  | unlock m next => exact .goes hbusy (roused_awake hp) (Step.unlock x hp hi)
  | wait c m timed next => exact .goes hbusy (roused_awake hp) (Step.sleep x hp hi)
  | broadcast c next => exact .goes hbusy (roused_awake hp) (Step.broadcast x hp hi)
  | run block =>
    obtain ⟨y, ⟨m', p'⟩, hb⟩ := hrun block hi
    exact .goes hbusy (roused_awake hp) (Step.run hp hi hb)

/-- A thread proceeds at a lock if it is free, or its owner proceeds. -/
theorem Proceeds.of_lock {m : μ} {next : π} (hp : s.ctl t = .awake p) (hbusy : busy p = true)
    (hi : code t p = .lock m next) (x : χ) (hown : ∀ u, s.owner m = some u → Proceeds code busy s u) :
    Proceeds code busy s t := by
  have hbusy : busy (s.ctl t).point = true := by rwa [hp]
  cases ho : s.owner m with
  | none => exact .goes hbusy (roused_awake hp) (Step.lock x hp hi ho)
  | some u => exact .behind hbusy (roused_awake hp) (.inl ⟨p, next, hp, hi⟩) ho (hown u ho)

/-- A sleeper that a broadcast has reached proceeds if its mutex is free, or its owner
proceeds. -/
theorem Proceeds.of_wait {c : κ} {m : μ} {timed : Bool} {next : Retcode → π} {n : Nat} (hp : s.ctl t = .asleep p n)
    (hbusy : busy p = true) (hi : code t p = .wait c m timed next) (hcall : ¬ Unreached code c s t) (x : χ)
    (hown : ∀ u, s.owner m = some u → Proceeds code busy s u) : Proceeds code busy s t := by
  have hbusy : busy (s.ctl t).point = true := by rwa [hp]
  have hroused : Roused code s t := by
    rintro c' ⟨q, m', timed', next', hq, hi'⟩
    rw [hp] at hq
    cases hq
    rw [hi] at hi'
    cases hi'
    exact hcall ⟨p, m, timed, next, hp, hi⟩
  cases ho : s.owner m with
  | none =>
    have hs : Step code t s {s with
        owner := Function.update s.owner m (some t)
        ctl := Function.update s.ctl t (.awake (next .ok))} := ⟨{choice := x}, by simp [advance, hp, hi, ho]⟩
    exact .goes hbusy hroused hs
  | some u => exact .behind hbusy hroused (.inr ⟨p, n, c, timed, next, hp, hi⟩) ho (hown u ho)

end

end V2lin.Threads
