import V2lin.Threads.Machine

/-! A program inside a larger one.

The larger program has the component's mutexes and condition variables among its own, its
points among its own points, and its memory in a part of its own memory. Where it runs the
component's instruction, its step is a step of the component, for which everybody outside
it is wherever `leave` says. -/
namespace V2lin.Threads

section
variable {θ σ μ κ π χ σ' μ' κ' π' χ' : Type}

/-- How the component sits in the larger program. -/
structure Embedding (σ μ κ π χ σ' μ' κ' π' χ' : Type) where
  get : σ' → σ
  put : σ' → σ → σ'
  get_put : ∀ m v, get (put m v) = v
  lock : μ → μ'
  lock_injective : Function.Injective lock
  cond : κ → κ'
  cond_injective : Function.Injective cond
  enter : π → π'
  leave : π' → π
  leave_enter : ∀ p, leave (enter p) = p
  choice : χ' → χ

def Instr.embed (e : Embedding σ μ κ π χ σ' μ' κ' π' χ') : Instr σ μ κ π χ → Instr σ' μ' κ' π' χ'
  | .lock m next => .lock (e.lock m) (e.enter next)
  | .unlock m next => .unlock (e.lock m) (e.enter next)
  | .wait c m timed next => .wait (e.cond c) (e.lock m) timed fun r => e.enter (next r)
  | .broadcast c next => .broadcast (e.cond c) (e.enter next)
  | .run block => .run fun x s => (block (e.choice x) (e.get s)).map fun r => (e.put s r.1, e.enter r.2)

def Ctl.map (f : π' → π) : Ctl π' → Ctl π
  | .awake p => .awake (f p)
  | .asleep p n => .asleep (f p) n

@[simp] theorem Ctl.map_awake (f : π' → π) (p : π') : (Ctl.awake p).map f = .awake (f p) := rfl

@[simp] theorem Ctl.map_asleep (f : π' → π) (p : π') (n : ℕ) : (Ctl.asleep p n).map f = .asleep (f p) n := rfl

@[simp] theorem Ctl.map_point (f : π' → π) (c : Ctl π') : (c.map f).point = f c.point := by
  cases c <;> rfl

/-- What follows a component's instruction is a point of the component. -/
theorem Instr.embed_next {e : Embedding σ μ κ π χ σ' μ' κ' π' χ'} {i : Instr σ μ κ π χ} {p' : π'}
    (h : (i.embed e).Next p') : ∃ q, p' = e.enter q ∧ i.Next q := by
  cases i with
  | lock m next => exact ⟨next, h, rfl⟩
  | unlock m next => exact ⟨next, h, rfl⟩
  | wait c m timed next =>
    obtain ⟨r, h⟩ := h
    exact ⟨next r, h, r, rfl⟩
  | broadcast c next => exact ⟨next, h, rfl⟩
  | run block => exact False.elim h

/-- What the component sees of a state. -/
def State.view (e : Embedding σ μ κ π χ σ' μ' κ' π' χ') (s : State θ σ' μ' κ' π') : State θ σ μ κ π where
  mem := e.get s.mem
  owner m := s.owner (e.lock m)
  signals c := s.signals (e.cond c)
  ctl t := (s.ctl t).map e.leave

variable [DecidableEq θ] [DecidableEq μ] [DecidableEq κ] [DecidableEq μ'] [DecidableEq κ']

theorem update_comp {α β γ : Type} [DecidableEq α] [DecidableEq β] {f : α → β} (hf : Function.Injective f)
    (g : β → γ) (a : α) (c : γ) : (fun x => Function.update g (f a) c (f x)) = Function.update (fun x => g (f x)) a c :=
  Function.update_comp_eq_of_injective g hf a c

theorem map_update {f : π' → π} (ctl : θ → Ctl π') (t : θ) (c : Ctl π') :
    (fun u => (Function.update ctl t c u).map f) = Function.update (fun u => (ctl u).map f) t (c.map f) := by
  funext u
  by_cases hu : u = t
  · subst hu
    rw [Function.update_self, Function.update_self]
  · rw [Function.update_of_ne hu, Function.update_of_ne hu]

variable {code : θ → π → Instr σ μ κ π χ} {code' : θ → π' → Instr σ' μ' κ' π' χ'} {t : θ} {s s' : State θ σ' μ' κ' π'}

/-- A step of the larger program at a point of the component is a step of the component. -/
theorem Step.view (e : Embedding σ μ κ π χ σ' μ' κ' π' χ') (h : Step code' t s s') {p : π}
    (hp : (s.ctl t).point = e.enter p) (hi : code' t (e.enter p) = (code t p).embed e) :
    Step code t (s.view e) (s'.view e) := by
  obtain ⟨i, ha⟩ := h
  refine ⟨{choice := e.choice i.choice, ret := i.ret}, ?_⟩
  cases hc : s.ctl t with
  | awake q =>
    rw [hc, Ctl.point_awake] at hp
    subst hp
    have hview : (s.ctl t).map e.leave = .awake p := by rw [hc, Ctl.map_awake, e.leave_enter]
    simp only [advance, hc, hi] at ha
    cases hcode : code t p with
    | lock m next =>
      simp only [hcode, Instr.embed] at ha
      split at ha
      · rename_i hfree
        cases ha
        simp only [advance, State.view, hview, hcode, update_comp e.lock_injective, map_update, Ctl.map_awake,
          e.leave_enter]
        exact if_pos hfree
      · cases ha
    | unlock m next =>
      simp only [hcode, Instr.embed] at ha
      cases ha
      simp only [advance, State.view, hview, hcode, update_comp e.lock_injective, map_update, Ctl.map_awake,
        e.leave_enter]
    | wait c m timed next =>
      simp only [hcode, Instr.embed] at ha
      split at ha
      · rename_i hret
        cases ha
        simp only [advance, State.view, hview, hcode, if_pos hret, map_update, Ctl.map_awake, e.leave_enter]
      · rename_i hret
        cases ha
        simp only [advance, State.view, hview, hcode, if_neg hret, update_comp e.lock_injective, map_update,
          Ctl.map_asleep, e.leave_enter]
    | broadcast c next =>
      simp only [hcode, Instr.embed] at ha
      cases ha
      simp only [advance, State.view, hview, hcode, update_comp e.cond_injective, map_update, Ctl.map_awake,
        e.leave_enter]
    | run block =>
      simp only [hcode, Instr.embed, Option.map_map, Option.map_eq_some_iff] at ha
      obtain ⟨r, hb, rfl⟩ := ha
      simp only [advance, State.view, hview, hcode, hb, Option.map_some, Function.comp_apply, map_update,
        Ctl.map_awake, e.leave_enter, e.get_put]
  | asleep q n =>
    rw [hc, Ctl.point_asleep] at hp
    subst hp
    have hview : (s.ctl t).map e.leave = .asleep p n := by rw [hc, Ctl.map_asleep, e.leave_enter]
    simp only [advance, hc, hi] at ha
    cases hcode : code t p with
    | wait c m timed next =>
      simp only [hcode, Instr.embed] at ha
      split at ha
      · rename_i hret
        cases ha
        simp only [advance, State.view, hview, hcode, update_comp e.lock_injective, map_update, Ctl.map_awake,
          e.leave_enter]
        exact if_pos hret
      · cases ha
    | _ => simp [hcode, Instr.embed] at ha

end

end V2lin.Threads
