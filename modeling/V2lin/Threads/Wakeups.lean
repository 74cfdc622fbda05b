import V2lin.Threads.Machine

/-! Lost wakeups.

A sleeper that no broadcast has reached since it fell asleep may go on sleeping for ever.
`Run.unreached` is the rule by which there is a reason for it to: whoever falls asleep
has the reason, and steps that do not broadcast keep it. -/
namespace V2lin.Threads

section
variable {θ σ μ κ π χ : Type}

/-- Thread `t` is asleep on `c`, and no broadcast has been made on it since. -/
def Unreached (code : θ → π → Instr σ μ κ π χ) (c : κ) (s : State θ σ μ κ π) (t : θ) : Prop :=
  ∃ p m timed next, s.ctl t = .asleep p (s.signals c) ∧ code t p = .wait c m timed next

variable [DecidableEq θ] [DecidableEq μ] [DecidableEq κ]
variable {code : θ → π → Instr σ μ κ π χ} {Init : State θ σ μ κ π → Prop}
variable {tr : List (Transition θ σ μ κ π)} {s s' : State θ σ μ κ π} {c : κ} {t u : θ}

/-- Broadcasts are only ever added. -/
theorem Step.signals_le (h : Step code t s s') (c : κ) : s.signals c ≤ s'.signals c := by
  cases hp : s.ctl t with
  | awake p =>
    have hd := h.does hp
    cases hi : code t p with
    | lock m next =>
      rw [hi] at hd
      obtain ⟨_, rfl⟩ := hd
      exact Nat.le_refl _
    | unlock m next =>
      rw [hi] at hd
      obtain rfl := hd
      exact Nat.le_refl _
    | wait c' m timed next =>
      rw [hi] at hd
      obtain rfl | ⟨_, rfl⟩ := hd <;> exact Nat.le_refl _
    | broadcast c' next =>
      rw [hi] at hd
      obtain rfl := hd
      show s.signals c ≤ Function.update s.signals c' (s.signals c' + 1) c
      by_cases hc : c = c'
      · rw [hc, Function.update_self]
        exact Nat.le_succ _
      · exact Nat.le_of_eq (Function.update_of_ne hc ..).symm
    | run block =>
      rw [hi] at hd
      obtain ⟨x, m', p', _, rfl⟩ := hd
      exact Nat.le_refl _
  | asleep p n =>
    have hw := h.wakes hp
    cases hi : code t p with
    | wait c' m timed next =>
      rw [hi] at hw
      obtain ⟨_, r, _, rfl⟩ := hw
      exact Nat.le_refl _
    | _ =>
      rw [hi] at hw
      exact hw.elim

/-- A step that leaves the broadcasts on `c` alone is not a broadcast on `c`. -/
theorem Step.signals_ne {p next : π} (h : Step code t s s') (hp : s.ctl t = .awake p)
    (hi : code t p = .broadcast c next) : s'.signals c ≠ s.signals c := by
  have hd := h.does hp
  rw [hi] at hd
  have hd : s' = _ := hd
  rw [hd]
  simp

/-- No sleeper has counted more broadcasts than there were. -/
theorem Run.slept_le (h : Run code Init tr s) (hinit : ∀ s t p n, Init s → s.ctl t ≠ .asleep p n) {p : π} {n : Nat}
    (hp : s.ctl t = .asleep p n) {m : μ} {timed : Bool} {next : Retcode → π}
    (hi : code t p = .wait c m timed next) : n ≤ s.signals c := by
  induction h with
  | start hs => exact absurd hp (hinit _ t p n hs)
  | @step tr s u s' _ hs ih =>
    by_cases hu : t = u
    · subst hu
      obtain ⟨c', m', timed', next', hi', _, heq⟩ := hs.falls_asleep hp
      rw [hi] at hi'
      cases hi'
      rw [heq] at hp ⊢
      simp only [Function.update_self, Ctl.asleep.injEq] at hp
      exact Nat.le_of_eq hp.2.symm
    · exact Nat.le_trans (ih (by rw [← hs.ctl_other hu, hp])) (hs.signals_le c)

/-- A sleeper not reached after a step was one before it, or has just fallen asleep. -/
theorem Unreached.of_step (h : Run code Init tr s) (hinit : ∀ s t p n, Init s → s.ctl t ≠ .asleep p n)
    (hs : Step code u s s') (ht : Unreached code c s' t) :
    (t ≠ u ∧ Unreached code c s t ∧ s'.signals c = s.signals c) ∨
      (t = u ∧ s'.mem = s.mem ∧ ∃ p m timed next, s.ctl t = .awake p ∧ code t p = .wait c m timed next) := by
  obtain ⟨p, m, timed, next, hp, hi⟩ := ht
  by_cases hu : t = u
  · subst hu
    obtain ⟨_, _, _, _, _, hawake, heq⟩ := hs.falls_asleep hp
    exact .inr ⟨rfl, by rw [heq], p, m, timed, next, hawake, hi⟩
  · rw [hs.ctl_other hu] at hp
    have hsame : s'.signals c = s.signals c :=
      Nat.le_antisymm (h.slept_le hinit hp hi) (hs.signals_le c)
    exact .inl ⟨hu, ⟨p, m, timed, next, hsame ▸ hp, hi⟩, hsame⟩

/-- The rule: if a thread falls asleep on `c` only with the reason `Q`, and every step
without a broadcast on `c` keeps `Q` while somebody sleeps there, then whoever sleeps
unreached has the reason. -/
theorem Run.unreached (h : Run code Init tr s) (hinit : ∀ s t p n, Init s → s.ctl t ≠ .asleep p n)
    (ok : Transition θ σ μ κ π → Prop) (Q : State θ σ μ κ π → Prop)
    (hsleep : ∀ tr t s s' p m timed next, Run code Init tr s → (∀ x ∈ tr, ok x) → Step code t s s' → ok ⟨s, t, s'⟩ →
      s.ctl t = .awake p → s'.ctl t = .asleep p (s'.signals c) → code t p = .wait c m timed next →
      s'.mem = s.mem → Q s')
    (hkeep : ∀ tr t u s s', Run code Init tr s → (∀ x ∈ tr, ok x) → Step code u s s' → ok ⟨s, u, s'⟩ →
      Unreached code c s t → t ≠ u → s'.signals c = s.signals c → Q s → Q s')
    (hok : ∀ x ∈ tr, ok x) (ht : Unreached code c s t) : Q s := by
  induction h with
  | start hi =>
    obtain ⟨p, _, _, _, hp, _⟩ := ht
    exact absurd hp (hinit _ t p _ hi)
  | @step tr s u s' hr hs ih =>
    have hok' := fun x hx => hok x (List.mem_cons_of_mem _ hx)
    have hlast := hok _ (List.mem_cons_self ..)
    obtain ⟨hne, hbefore, hsame⟩ | ⟨rfl, hm, p, m, timed, next, hp, hi⟩ := ht.of_step hr hinit hs
    · exact hkeep tr t u s s' hr hok' hs hlast hbefore hne hsame (ih hok' hbefore)
    · obtain ⟨p', m', timed', next', hp', hi'⟩ := ht
      obtain ⟨_, _, _, _, _, hawake, _⟩ := hs.falls_asleep hp'
      rw [hp] at hawake
      cases hawake
      exact hsleep tr t s s' p m timed next hr hok' hs hlast hp hp' hi hm

end

end V2lin.Threads
