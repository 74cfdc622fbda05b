import V2lin.Threads.Progress

/-! Mutexes that are taken in order.

If whoever has a mutex is awake and at work, and waits only for mutexes of a higher rank,
then from owner to owner the ranks rise, and with finitely many ranks nobody is stuck. The
rank of a mutex may depend on the state, as long as one is given for each state. -/
namespace V2lin.Threads

section
variable {θ σ μ κ π χ : Type} [DecidableEq θ] [DecidableEq μ] [DecidableEq κ]

/-- The mutexes of a state have ranks below `n`, and their owners do not wait for lower
ones. -/
structure Ranked (code : θ → π → Instr σ μ κ π χ) (busy : π → Bool) (rank : μ → ℕ) (n : ℕ) (s : State θ σ μ κ π) :
    Prop where
  below : ∀ m, rank m < n
  owner : ∀ m u, s.owner m = some u → ∃ p, s.ctl u = .awake p ∧ busy p = true
  rises : ∀ m u m', s.owner m = some u → WaitsFor code s u m' → rank m < rank m'
  runs : ∀ u p block, s.ctl u = .awake p → busy p = true → code u p = .run block → ∃ x r, block x s.mem = some r

variable {code : θ → π → Instr σ μ κ π χ} {busy : π → Bool} {rank : μ → ℕ} {n : ℕ} {s : State θ σ μ κ π}
variable {t u : θ} {m : μ} {p : π}

/-- Whoever has a mutex is not stuck. -/
theorem Ranked.owner_proceeds (h : Ranked code busy rank n s) (x : χ) (hown : s.owner m = some u) :
    Proceeds code busy s u := by
  -- the higher the mutex ranks, the fewer are left for its owner to wait for
  induction hk : n - rank m using Nat.strong_induction_on generalizing m u with
  | _ k ih =>
    obtain ⟨p, hp, hbusy⟩ := h.owner m u hown
    by_cases hlock : ∃ m' next, code u p = .lock m' next
    · obtain ⟨m', next, hi⟩ := hlock
      refine .of_lock hp hbusy hi x fun v hv => ?_
      have hrises := h.rises m u m' hown ⟨p, next, hp, hi⟩
      have hbelow := h.below m'
      exact ih (n - rank m') (by omega) hv rfl
    · exact .of_awake hp hbusy (fun m' next hi => hlock ⟨m', next, hi⟩) x fun block hi => h.runs u p block hp hbusy hi

theorem Ranked.awake_proceeds (h : Ranked code busy rank n s) (x : χ) (hp : s.ctl t = .awake p)
    (hbusy : busy p = true) : Proceeds code busy s t := by
  by_cases hlock : ∃ m next, code t p = .lock m next
  · obtain ⟨m, next, hi⟩ := hlock
    exact .of_lock hp hbusy hi x fun u hu => h.owner_proceeds x hu
  · exact .of_awake hp hbusy (fun m next hi => hlock ⟨m, next, hi⟩) x fun block hi => h.runs t p block hp hbusy hi

/-- Nobody at work is stuck, but for those who sleep until they are called. -/
theorem Ranked.proceeds (h : Ranked code busy rank n s) (x : χ) (hbusy : busy (s.ctl t).point = true)
    (hasleep : ∀ p n, s.ctl t = .asleep p n → ∃ c m timed next, code t p = .wait c m timed next)
    (hroused : Roused code s t) : Proceeds code busy s t := by
  cases hp : s.ctl t with
  | awake p => exact h.awake_proceeds x hp (by rwa [hp] at hbusy)
  | asleep p k =>
    obtain ⟨c, m, timed, next, hi⟩ := hasleep p k hp
    exact .of_wait hp (by rwa [hp] at hbusy) hi (hroused c) x fun u hu => h.owner_proceeds x hu

end

end V2lin.Threads
