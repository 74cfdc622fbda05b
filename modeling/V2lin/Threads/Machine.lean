import Mathlib.Algebra.Order.Ring.Int
import Mathlib.Data.List.Basic
import Mathlib.Logic.Function.Basic

/-! Threads that share memory, mutexes and condition variables.

A program gives every thread, at every point of its code, one instruction: take
or release a mutex, wait on a condition variable, broadcast on one, or run a
block of straight-line code on the shared memory. A step is one instruction of
one thread, so a run is any interleaving at the grain of the synchronization
operations.

A condition variable is a count of the broadcasts made on it. A waiter remembers
the count at which it fell asleep; a broadcast has reached it as soon as the
count has moved. Waking needs the mutex to be free and, as POSIX allows, may also
happen without a broadcast. A timed wait may report a timeout, or an invalid
deadline at once, without giving up the mutex. Waiting or unlocking releases the
mutex whoever holds it: these are plain mutexes, which do not check their owner. -/
namespace V2lin.Threads

/-- What a wait on a condition variable reports. -/
inductive Retcode where
  | ok
  | etimedout
  | einval
  deriving DecidableEq

/-- One instruction at a point of the code, with the points that may follow. -/
inductive Instr (σ μ κ π χ : Type) where
  | lock (m : μ) (next : π)
  | unlock (m : μ) (next : π)
  | wait (c : κ) (m : μ) (timed : Bool) (next : Retcode → π)
  | broadcast (c : κ) (next : π)
  /-- Straight-line code. `χ` is what the outside decides (an argument, a clock
  reading, an address); `none` is a block that cannot run now. -/
  | run (block : χ → σ → Option (σ × π))

/-- Where a thread is: about to run the instruction at a point, or inside the
wait at a point, asleep since the given broadcast count. -/
inductive Ctl (π : Type) where
  | awake (p : π)
  | asleep (p : π) (since : Nat)
  deriving DecidableEq

def Ctl.point {π : Type} : Ctl π → π
  | .awake p => p
  | .asleep p _ => p

@[simp] theorem Ctl.point_awake {π : Type} (p : π) : (Ctl.awake p).point = p := rfl

@[simp] theorem Ctl.point_asleep {π : Type} (p : π) (since : Nat) : (Ctl.asleep p since).point = p := rfl

structure State (θ σ μ κ π : Type) where
  mem : σ
  owner : μ → Option θ
  signals : κ → Nat
  ctl : θ → Ctl π

/-- What the outside decides in a step. -/
structure Input (χ : Type) where
  choice : χ
  ret : Retcode := .ok

section Machine
variable {θ σ μ κ π χ : Type} [DecidableEq θ] [DecidableEq μ] [DecidableEq κ]

/-- The next state when thread `t` moves, if it can. -/
def advance (code : θ → π → Instr σ μ κ π χ) (t : θ) (i : Input χ) (s : State θ σ μ κ π) :
    Option (State θ σ μ κ π) :=
  match s.ctl t with
  | .awake p =>
    match code t p with
    | .lock m next =>
      if s.owner m = none then
        some {s with owner := Function.update s.owner m (some t), ctl := Function.update s.ctl t (.awake next)}
      else none
    | .unlock m next =>
      some {s with owner := Function.update s.owner m none, ctl := Function.update s.ctl t (.awake next)}
    | .wait c m timed next =>
      if timed = true ∧ i.ret = .einval then
        some {s with ctl := Function.update s.ctl t (.awake (next .einval))}
      else
        some {s with
          owner := Function.update s.owner m none
          ctl := Function.update s.ctl t (.asleep p (s.signals c))}
    | .broadcast c next =>
      some {s with
        signals := Function.update s.signals c (s.signals c + 1)
        ctl := Function.update s.ctl t (.awake next)}
    | .run block =>
      (block i.choice s.mem).map fun r =>
        {s with mem := r.1, ctl := Function.update s.ctl t (.awake r.2)}
  | .asleep p _ =>
    match code t p with
    | .wait _ m timed next =>
      if s.owner m = none ∧ (i.ret = .ok ∨ timed = true ∧ i.ret = .etimedout) then
        some {s with
          owner := Function.update s.owner m (some t)
          ctl := Function.update s.ctl t (.awake (next i.ret))}
      else none
    | _ => none

def Step (code : θ → π → Instr σ μ κ π χ) (t : θ) (s s' : State θ σ μ κ π) : Prop :=
  ∃ i, advance code t i s = some s'

/-- What an awake thread's instruction can do. -/
def Instr.Does (t : θ) (p : π) (s s' : State θ σ μ κ π) : Instr σ μ κ π χ → Prop
  | .lock m next => s.owner m = none ∧
      s' = {s with owner := Function.update s.owner m (some t), ctl := Function.update s.ctl t (.awake next)}
  | .unlock m next =>
      s' = {s with owner := Function.update s.owner m none, ctl := Function.update s.ctl t (.awake next)}
  | .wait c m timed next =>
      s' = {s with
        owner := Function.update s.owner m none
        ctl := Function.update s.ctl t (.asleep p (s.signals c))} ∨
      timed = true ∧ s' = {s with ctl := Function.update s.ctl t (.awake (next .einval))}
  | .broadcast c next =>
      s' = {s with
        signals := Function.update s.signals c (s.signals c + 1)
        ctl := Function.update s.ctl t (.awake next)}
  | .run block => ∃ x m' p', block x s.mem = some (m', p') ∧
      s' = {s with mem := m', ctl := Function.update s.ctl t (.awake p')}

/-- What a sleeping thread's wait can do: take the mutex back and report. -/
def Instr.Wakes (t : θ) (s s' : State θ σ μ κ π) : Instr σ μ κ π χ → Prop
  | .wait _ m timed next => s.owner m = none ∧ ∃ r, (r = .ok ∨ timed = true ∧ r = .etimedout) ∧
      s' = {s with
        owner := Function.update s.owner m (some t)
        ctl := Function.update s.ctl t (.awake (next r))}
  | _ => False

/-- The point `p'` follows the instruction, which is no block. -/
def Instr.Next (p' : π) : Instr σ μ κ π χ → Prop
  | .lock _ next => p' = next
  | .unlock _ next => p' = next
  | .wait _ _ _ next => ∃ r, p' = next r
  | .broadcast _ next => p' = next
  | .run _ => False

variable {code : θ → π → Instr σ μ κ π χ} {t : θ} {s s' : State θ σ μ κ π}

theorem Step.does {p : π} (h : Step code t s s') (hp : s.ctl t = .awake p) :
    (code t p).Does t p s s' := by
  obtain ⟨i, hi⟩ := h
  simp only [advance, hp] at hi
  cases hc : code t p with
  | lock m next =>
    simp only [hc] at hi
    split at hi
    · exact ⟨by assumption, (Option.some.inj hi).symm⟩
    · cases hi
  | unlock m next =>
    simp only [hc] at hi
    exact (Option.some.inj hi).symm
  | wait c m timed next =>
    simp only [hc] at hi
    split at hi
    · rename_i ht
      exact .inr ⟨ht.1, (Option.some.inj hi).symm⟩
    · exact .inl (Option.some.inj hi).symm
  | broadcast c next =>
    simp only [hc] at hi
    exact (Option.some.inj hi).symm
  | run block =>
    simp only [hc, Option.map_eq_some_iff] at hi
    obtain ⟨⟨m', p'⟩, hb, rfl⟩ := hi
    exact ⟨i.choice, m', p', hb, rfl⟩

theorem Step.wakes {p : π} {n : Nat} (h : Step code t s s') (hp : s.ctl t = .asleep p n) :
    (code t p).Wakes t s s' := by
  obtain ⟨i, hi⟩ := h
  simp only [advance, hp] at hi
  cases hc : code t p with
  | wait c m timed next =>
    simp only [hc] at hi
    split at hi
    · rename_i hr
      exact ⟨hr.1, i.ret, hr.2, (Option.some.inj hi).symm⟩
    · cases hi
  | _ => simp [hc] at hi

/-! What a thread can do next. -/

theorem Step.lock {p : π} {m : μ} {next : π} (x : χ) (hp : s.ctl t = .awake p) (hi : code t p = .lock m next)
    (hfree : s.owner m = none) : Step code t s
      {s with owner := Function.update s.owner m (some t), ctl := Function.update s.ctl t (.awake next)} :=
  ⟨{choice := x}, by simp [advance, hp, hi, hfree]⟩

theorem Step.unlock {p : π} {m : μ} {next : π} (x : χ) (hp : s.ctl t = .awake p)
    (hi : code t p = .unlock m next) : Step code t s
      {s with owner := Function.update s.owner m none, ctl := Function.update s.ctl t (.awake next)} :=
  ⟨{choice := x}, by simp [advance, hp, hi]⟩

theorem Step.sleep {p : π} {c : κ} {m : μ} {timed : Bool} {next : Retcode → π} (x : χ) (hp : s.ctl t = .awake p)
    (hi : code t p = .wait c m timed next) : Step code t s
      {s with
        owner := Function.update s.owner m none
        ctl := Function.update s.ctl t (.asleep p (s.signals c))} :=
  ⟨{choice := x}, by simp [advance, hp, hi]⟩

theorem Step.timeout {p : π} {n : Nat} {c : κ} {m : μ} {next : Retcode → π} (x : χ) (hp : s.ctl t = .asleep p n)
    (hi : code t p = .wait c m true next) (hfree : s.owner m = none) : Step code t s
      {s with
        owner := Function.update s.owner m (some t)
        ctl := Function.update s.ctl t (.awake (next .etimedout))} :=
  ⟨{choice := x, ret := .etimedout}, by simp [advance, hp, hi, hfree]⟩

theorem Step.broadcast {p : π} {c : κ} {next : π} (x : χ) (hp : s.ctl t = .awake p)
    (hi : code t p = .broadcast c next) : Step code t s
      {s with
        signals := Function.update s.signals c (s.signals c + 1)
        ctl := Function.update s.ctl t (.awake next)} :=
  ⟨{choice := x}, by simp [advance, hp, hi]⟩

theorem Step.run {p : π} {block : χ → σ → Option (σ × π)} {x : χ} {m' : σ} {p' : π} (hp : s.ctl t = .awake p)
    (hi : code t p = .run block) (hb : block x s.mem = some (m', p')) : Step code t s
      {s with mem := m', ctl := Function.update s.ctl t (.awake p')} :=
  ⟨{choice := x}, by simp [advance, hp, hi, hb]⟩

/-- A step from a point whose instruction is a block runs the block. -/
theorem Step.block {p : π} {block : χ → σ → Option (σ × π)} (h : Step code t s s')
    (hp : s.ctl t = .awake p) (hi : code t p = .run block) :
    ∃ c p', block c s.mem = some (s'.mem, p') ∧ s'.ctl t = .awake p' ∧ s'.owner = s.owner := by
  have hd := h.does hp
  rw [hi] at hd
  obtain ⟨c, m', p', hb, rfl⟩ := hd
  exact ⟨c, p', hb, Function.update_self .., rfl⟩

/-- A step moves no other thread. -/
theorem Step.ctl_other {u : θ} (h : Step code t s s') (hu : u ≠ t) : s'.ctl u = s.ctl u := by
  cases hp : s.ctl t with
  | awake p =>
    have hd := h.does hp
    cases hc : code t p with
    | lock m next =>
      rw [hc] at hd
      rw [hd.2]
      exact Function.update_of_ne hu _ _
    | unlock m next =>
      rw [hc] at hd
      rw [hd]
      exact Function.update_of_ne hu _ _
    | wait c m timed next =>
      rw [hc] at hd
      rcases hd with rfl | ⟨_, rfl⟩ <;> exact Function.update_of_ne hu _ _
    | broadcast c next =>
      rw [hc] at hd
      rw [hd]
      exact Function.update_of_ne hu _ _
    | run block =>
      rw [hc] at hd
      obtain ⟨x, m', p', _, rfl⟩ := hd
      exact Function.update_of_ne hu _ _
  | asleep p n =>
    have hw := h.wakes hp
    cases hc : code t p with
    | wait c m timed next =>
      rw [hc] at hw
      obtain ⟨_, r, _, rfl⟩ := hw
      exact Function.update_of_ne hu _ _
    | _ =>
      rw [hc] at hw
      exact hw.elim

/-- A step is a block, or its instruction is none: it leaves the memory alone and its
thread falls asleep where it is or goes on to the next point. -/
theorem Step.sync_or_block (h : Step code t s s') :
    (s'.mem = s.mem ∧ (∀ block, code t (s.ctl t).point ≠ .run block) ∧
      ((s'.ctl t).point = (s.ctl t).point ∨ (code t (s.ctl t).point).Next (s'.ctl t).point)) ∨
    ∃ p block c p', s.ctl t = .awake p ∧ code t p = .run block ∧ block c s.mem = some (s'.mem, p') ∧
      s'.ctl t = .awake p' ∧ s'.owner = s.owner := by
  cases hp : s.ctl t with
  | awake p =>
    have hd := h.does hp
    cases hc : code t p with
    | lock m next =>
      rw [hc] at hd
      obtain ⟨_, rfl⟩ := hd
      exact .inl ⟨rfl, by simp [hc], .inr (by simp [hc, Instr.Next])⟩
    | unlock m next =>
      rw [hc] at hd
      subst hd
      exact .inl ⟨rfl, by simp [hc], .inr (by simp [hc, Instr.Next])⟩
    | wait c m timed next =>
      rw [hc] at hd
      rcases hd with rfl | ⟨_, rfl⟩
      · exact .inl ⟨rfl, by simp [hc], .inl (by simp)⟩
      · exact .inl ⟨rfl, by simp [hc], .inr (by simp [hc, Instr.Next])⟩
    | broadcast c next =>
      rw [hc] at hd
      subst hd
      exact .inl ⟨rfl, by simp [hc], .inr (by simp [hc, Instr.Next])⟩
    | run block =>
      rw [hc] at hd
      obtain ⟨x, m', p', hb, rfl⟩ := hd
      exact .inr ⟨p, block, x, p', rfl, hc, hb, Function.update_self .., rfl⟩
  | asleep p n =>
    have hw := h.wakes hp
    cases hc : code t p with
    | wait c m timed next =>
      rw [hc] at hw
      obtain ⟨_, r, _, rfl⟩ := hw
      exact .inl ⟨rfl, by simp [hc], .inr (by simp [hc, Instr.Next])⟩
    | _ =>
      rw [hc] at hw
      exact hw.elim

/-- A step from a wait falls asleep there or has the wait report, a timeout only if the
wait is timed. -/
theorem Step.reports {c : κ} {m : μ} {timed : Bool} {next : Retcode → π} (h : Step code t s s')
    (hi : code t (s.ctl t).point = .wait c m timed next) :
    (s'.ctl t).point = (s.ctl t).point ∨ ∃ r, (s'.ctl t).point = next r ∧ (r = .etimedout → timed = true) := by
  cases hp : s.ctl t with
  | awake p =>
    have hd := h.does hp
    rw [hp, Ctl.point_awake] at hi
    rw [hi] at hd
    rcases hd with rfl | ⟨_, rfl⟩
    · exact .inl (by simp)
    · exact .inr ⟨.einval, by simp, fun h => by cases h⟩
  | asleep p n =>
    have hw := h.wakes hp
    rw [hp, Ctl.point_asleep] at hi
    rw [hi] at hw
    obtain ⟨_, r, hr, rfl⟩ := hw
    refine .inr ⟨r, by simp, fun h => ?_⟩
    obtain rfl | ⟨ht, _⟩ := hr
    · cases h
    · exact ht

end Machine

/-! ### Runs -/

/-- One step of a run: the states around it and the thread that moved. -/
structure Transition (θ σ μ κ π : Type) where
  pre : State θ σ μ κ π
  thread : θ
  post : State θ σ μ κ π

section Runs
variable {θ σ μ κ π χ : Type} [DecidableEq θ] [DecidableEq μ] [DecidableEq κ]

/-- The runs of a program from the states `Init`: the steps taken, newest first,
and the state reached. -/
inductive Run (code : θ → π → Instr σ μ κ π χ) (Init : State θ σ μ κ π → Prop) :
    List (Transition θ σ μ κ π) → State θ σ μ κ π → Prop where
  | start {s} : Init s → Run code Init [] s
  | step {tr s t s'} : Run code Init tr s → Step code t s s' →
      Run code Init (⟨s, t, s'⟩ :: tr) s'

variable {code : θ → π → Instr σ μ κ π χ} {Init : State θ σ μ κ π → Prop}
variable {tr : List (Transition θ σ μ κ π)} {s : State θ σ μ κ π}

/-- An invariant of the states, kept by every step that satisfies `ok`. -/
theorem Run.invariant (h : Run code Init tr s) (ok : Transition θ σ μ κ π → Prop)
    (I : State θ σ μ κ π → Prop) (hinit : ∀ s, Init s → I s)
    (hstep : ∀ t s s', I s → Step code t s s' → ok ⟨s, t, s'⟩ → I s') (hok : ∀ x ∈ tr, ok x) : I s := by
  induction h with
  | start hi => exact hinit _ hi
  | step _ hs ih =>
    exact hstep _ _ _ (ih fun x hx => hok x (List.mem_cons_of_mem _ hx)) hs
      (hok _ (List.mem_cons_self ..))

/-- Every step of a run is a step. -/
theorem Run.steps (h : Run code Init tr s) : ∀ x ∈ tr, Step code x.thread x.pre x.post := by
  induction h with
  | start _ => intro x hx; cases hx
  | step _ hs ih =>
    intro x hx
    rcases List.mem_cons.mp hx with rfl | hx
    · exact hs
    · exact ih x hx

/-- A state predicate that holds at the start and is kept, holds before every step. -/
theorem Run.invariant_pre (h : Run code Init tr s) (ok : Transition θ σ μ κ π → Prop)
    (I : State θ σ μ κ π → Prop) (hinit : ∀ s, Init s → I s)
    (hstep : ∀ t s s', I s → Step code t s s' → ok ⟨s, t, s'⟩ → I s') (hok : ∀ x ∈ tr, ok x) :
    ∀ x ∈ tr, I x.pre := by
  induction h with
  | start _ => intro x hx; cases hx
  | step hr hs ih =>
    have hok' := fun x hx => hok x (List.mem_cons_of_mem _ hx)
    intro x hx
    rcases List.mem_cons.mp hx with rfl | hx
    · exact hr.invariant ok I hinit hstep hok'
    · exact ih hok' x hx

/-- The part of a run before one of its steps. -/
theorem Run.before {later : List (Transition θ σ μ κ π)} {x : Transition θ σ μ κ π}
    (h : Run code Init (later ++ x :: tr) s) : Run code Init tr x.pre := by
  generalize hl : later ++ x :: tr = l at h
  induction h generalizing later with
  | start _ => cases later <;> cases hl
  | @step l s t s' hr hs ih =>
    cases later with
    | nil =>
      obtain ⟨rfl, rfl⟩ := List.cons.inj hl
      exact hr
    | cons y later => exact ih (List.cons.inj hl).2

/-- What holds of a run from one of its steps on, by induction on the later ones. -/
theorem Run.since {later : List (Transition θ σ μ κ π)} {x : Transition θ σ μ κ π}
    (h : Run code Init (later ++ x :: tr) s) (P : List (Transition θ σ μ κ π) → State θ σ μ κ π → Prop)
    (hx : P [] x.post)
    (hstep : ∀ y l, y :: l <:+ later → Step code y.thread y.pre y.post → P l y.pre → P (y :: l) y.post) :
    P later s := by
  generalize hl : later ++ x :: tr = l at h
  induction h generalizing later with
  | start _ => cases later <;> cases hl
  | @step l s t s' hr hs ih =>
    cases later with
    | nil =>
      obtain ⟨rfl, rfl⟩ := List.cons.inj hl
      exact hx
    | cons y later =>
      obtain ⟨rfl, hrest⟩ := List.cons.inj hl
      refine hstep _ _ (List.suffix_refl _) hs (ih (fun z l hz => ?_) hrest)
      exact hstep z l (hz.trans (List.suffix_cons _ _))

/-- What holds after one step of a run and is kept by the later ones holds at its end. -/
theorem Run.after {later : List (Transition θ σ μ κ π)} {x : Transition θ σ μ κ π}
    (h : Run code Init (later ++ x :: tr) s) (P : State θ σ μ κ π → Prop) (hx : P x.post)
    (hstep : ∀ y ∈ later, Step code y.thread y.pre y.post → P y.pre → P y.post) : P s := by
  refine h.since (fun _ s => P s) hx fun y l hy hs hP => ?_
  exact hstep y (hy.subset (List.mem_cons_self ..)) hs hP

/-- A thread falls asleep in a wait, at the broadcasts made so far. -/
theorem Step.falls_asleep {t : θ} {s s' : State θ σ μ κ π} {p : π} {n : Nat} (h : Step code t s s')
    (hp : s'.ctl t = .asleep p n) : ∃ c m timed next, code t p = .wait c m timed next ∧ s.ctl t = .awake p ∧
      s' = {s with
        owner := Function.update s.owner m none
        ctl := Function.update s.ctl t (.asleep p (s.signals c))} := by
  cases hc : s.ctl t with
  | awake q =>
    have hd := h.does hc
    cases hi : code t q with
    | lock m next =>
      rw [hi] at hd
      rw [hd.2] at hp
      simp at hp
    | unlock m next =>
      rw [hi] at hd
      rw [hd] at hp
      simp at hp
    | wait c m timed next =>
      rw [hi] at hd
      rcases hd with rfl | ⟨_, rfl⟩
      · simp only [Function.update_self, Ctl.asleep.injEq] at hp
        obtain ⟨rfl, rfl⟩ := hp
        exact ⟨c, m, timed, next, hi, rfl, rfl⟩
      · simp at hp
    | broadcast c next =>
      rw [hi] at hd
      rw [hd] at hp
      simp at hp
    | run block =>
      rw [hi] at hd
      obtain ⟨x, m', p', _, rfl⟩ := hd
      simp at hp
  | asleep q k =>
    have hw := h.wakes hc
    cases hi : code t q with
    | wait c m timed next =>
      rw [hi] at hw
      obtain ⟨_, r, _, rfl⟩ := hw
      simp at hp
    | _ =>
      rw [hi] at hw
      exact hw.elim

theorem Step.asleep {t : θ} {s s' : State θ σ μ κ π} {p : π} {n : Nat} (h : Step code t s s')
    (hp : s'.ctl t = .asleep p n) : ∃ c m timed next, code t p = .wait c m timed next := by
  obtain ⟨c, m, timed, next, hi, _⟩ := h.falls_asleep hp
  exact ⟨c, m, timed, next, hi⟩

theorem Run.asleep (h : Run code Init tr s) (hinit : ∀ s t p n, Init s → s.ctl t ≠ .asleep p n) {t : θ} {p : π}
    {n : Nat} (hp : s.ctl t = .asleep p n) : ∃ c m timed next, code t p = .wait c m timed next := by
  induction h with
  | start hs => exact absurd hp (hinit _ t p n hs)
  | @step tr s u s' _ hs ih =>
    by_cases hu : t = u
    · subst hu
      exact hs.asleep hp
    · exact ih (by rw [← hs.ctl_other hu, hp])

/-- A thread that is awake after its step has taken an instruction to its end. -/
theorem Step.awake_cases {t : θ} {s s' : State θ σ μ κ π} {p' : π} (h : Step code t s s')
    (hp : s'.ctl t = .awake p') :
    s'.mem = s.mem ∧ (code t (s.ctl t).point).Next p' ∨
      ∃ p block c, s.ctl t = .awake p ∧ code t p = .run block ∧ block c s.mem = some (s'.mem, p') ∧
        s'.owner = s.owner ∧ s'.signals = s.signals := by
  cases hc : s.ctl t with
  | awake q =>
    have hd := h.does hc
    cases hi : code t q with
    | lock m next =>
      rw [hi] at hd
      obtain ⟨_, rfl⟩ := hd
      exact .inl ⟨rfl, by simpa [hi, Instr.Next] using hp.symm⟩
    | unlock m next =>
      rw [hi] at hd
      subst hd
      exact .inl ⟨rfl, by simpa [hi, Instr.Next] using hp.symm⟩
    | wait c m timed next =>
      rw [hi] at hd
      rcases hd with rfl | ⟨_, rfl⟩
      · simp at hp
      · simp only [Function.update_self] at hp
        exact .inl ⟨rfl, by simpa [hi, Instr.Next] using ⟨.einval, (Ctl.awake.inj hp).symm⟩⟩
    | broadcast c next =>
      rw [hi] at hd
      subst hd
      exact .inl ⟨rfl, by simpa [hi, Instr.Next] using hp.symm⟩
    | run block =>
      rw [hi] at hd
      obtain ⟨x, m', q', hb, rfl⟩ := hd
      simp only [Function.update_self, Ctl.awake.injEq] at hp
      subst hp
      exact .inr ⟨q, block, x, rfl, hi, hb, rfl, rfl⟩
  | asleep q k =>
    have hw := h.wakes hc
    cases hi : code t q with
    | wait c m timed next =>
      rw [hi] at hw
      obtain ⟨_, r, _, rfl⟩ := hw
      simp only [Function.update_self] at hp
      exact .inl ⟨rfl, by simpa [hi, Instr.Next] using ⟨r, (Ctl.awake.inj hp).symm⟩⟩
    | _ =>
      rw [hi] at hw
      exact hw.elim

/-! ### Cancellation -/

/-- A block at a cancellation point: if `kill` is chosen for a thread that has been cancelled,
it is killed there and leaves the memory alone. -/
def cancelBlock (kill cancelled : Bool) (killed : π) (m : σ) (rest : Option (σ × π)) : Option (σ × π) :=
  if kill = true then if cancelled = true then some (m, killed) else none else rest

omit [DecidableEq θ] [DecidableEq μ] [DecidableEq κ] in
theorem cancelBlock_cases {kill cancelled : Bool} {killed : π} {m : σ} {rest : Option (σ × π)} {r : σ × π}
    (h : cancelBlock kill cancelled killed m rest = some r) : (cancelled = true ∧ r = (m, killed)) ∨ rest = some r := by
  unfold cancelBlock at h
  split at h
  · split at h
    · exact .inl ⟨by assumption, (Option.some.inj h).symm⟩
    · cases h
  · exact .inr h

/-! ### Restricted programs -/

/-- A step is a step of every program with the same instruction there. -/
theorem Step.congr {code' : θ → π → Instr σ μ κ π χ} {t : θ} {s s' : State θ σ μ κ π} (h : Step code t s s')
    (hc : code' t (s.ctl t).point = code t (s.ctl t).point) : Step code' t s s' := by
  obtain ⟨i, hi⟩ := h
  refine ⟨i, ?_⟩
  unfold advance at hi ⊢
  cases hp : s.ctl t with
  | awake p =>
    rw [hp] at hi hc
    simp only [Ctl.point_awake] at hc
    simpa only [hc] using hi
  | asleep p n =>
    rw [hp] at hi hc
    simp only [Ctl.point_asleep] at hc
    simpa only [hc] using hi

theorem Run.congr {code' : θ → π → Instr σ μ κ π χ} (h : Run code Init tr s)
    (hc : ∀ x ∈ tr, code' x.thread (x.pre.ctl x.thread).point = code x.thread (x.pre.ctl x.thread).point) :
    Run code' Init tr s := by
  induction h with
  | start hi => exact .start hi
  | step _ hs ih =>
    exact .step (ih fun x hx => hc x (List.mem_cons_of_mem _ hx)) (hs.congr (hc _ (List.mem_cons_self ..)))

/-! ### Running a schedule -/

/-- The threads of a schedule are numbered, up to four of them. -/
instance oneThread : NeZero (1 : Nat) := ⟨Nat.succ_ne_zero 0⟩

instance twoThreads : NeZero (2 : Nat) := ⟨Nat.succ_ne_zero 1⟩

instance threeThreads : NeZero (3 : Nat) := ⟨Nat.succ_ne_zero 2⟩

instance fourThreads : NeZero (4 : Nat) := ⟨Nat.succ_ne_zero 3⟩

/-- The steps and the state a schedule leads to, if every move of it is possible. -/
def exec (code : θ → π → Instr σ μ κ π χ) :
    List (θ × Input χ) → List (Transition θ σ μ κ π) → State θ σ μ κ π →
      Option (List (Transition θ σ μ κ π) × State θ σ μ κ π)
  | [], tr, s => some (tr, s)
  | (t, i) :: rest, tr, s =>
    match advance code t i s with
    | some s' => exec code rest (⟨s, t, s'⟩ :: tr) s'
    | none => none

theorem run_of_exec {moves : List (θ × Input χ)} {tr₀ : List (Transition θ σ μ κ π)}
    {s₀ : State θ σ μ κ π} (h₀ : Run code Init tr₀ s₀) (h : exec code moves tr₀ s₀ = some (tr, s)) :
    Run code Init tr s := by
  induction moves generalizing tr₀ s₀ with
  | nil =>
    simp only [exec, Option.some.injEq, Prod.mk.injEq] at h
    exact h.1 ▸ h.2 ▸ h₀
  | cons move rest ih =>
    obtain ⟨t, i⟩ := move
    simp only [exec] at h
    cases ha : advance code t i s₀ with
    | none => simp [ha] at h
    | some s' =>
      simp only [ha] at h
      exact ih (.step h₀ ⟨i, ha⟩) h

/-- A schedule whose outcome passes a test gives a run that does. -/
theorem run_of_check (code : θ → π → Instr σ μ κ π χ) (moves : List (θ × Input χ)) {s₀ : State θ σ μ κ π}
    (test : List (Transition θ σ μ κ π) → State θ σ μ κ π → Bool) (h₀ : Init s₀)
    (h : (exec code moves [] s₀).any (fun r => test r.1 r.2) = true) :
    ∃ tr s, Run code Init tr s ∧ test tr s = true := by
  obtain ⟨⟨tr, s⟩, he, ht⟩ := (Option.any_eq_true _ _).mp h
  exact ⟨tr, s, run_of_exec (.start h₀) he, ht⟩

/-- The same for a test that looks at the run before and after one of its steps, the
one with `k` later steps. -/
theorem run_of_split_check (code : θ → π → Instr σ μ κ π χ) (moves : List (θ × Input χ))
    {s₀ : State θ σ μ κ π} (k : Nat)
    (test : List (Transition θ σ μ κ π) → Transition θ σ μ κ π → State θ σ μ κ π → Bool) (h₀ : Init s₀)
    (h : (exec code moves [] s₀).any (fun r =>
      (r.1.drop k).head?.any (fun x => test (r.1.take k) x r.2)) = true) :
    ∃ later x before s, Run code Init (later ++ x :: before) s ∧ test later x s = true := by
  obtain ⟨tr, s, hr, ht⟩ := run_of_check code moves
    (fun tr s => (tr.drop k).head?.any (fun x => test (tr.take k) x s)) h₀ h
  cases hd : tr.drop k with
  | nil => simp [hd] at ht
  | cons x before =>
    rw [hd] at ht
    refine ⟨tr.take k, x, before, s, ?_, ht⟩
    rwa [← hd, List.take_append_drop]

end Runs

end V2lin.Threads
