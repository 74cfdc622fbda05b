import V2lin.Threads.Directory
import V2lin.Threads.Machine

/-! Programs that keep their objects on a list.

What a program says of its objects, in its memory and at the points of its code, makes a
directory of each of its states. Its blocks move in the directory as a thread may, and
whatever is no block goes on to a point that says no more than the last. Then every step of
the program is a step of the directory, and an object that has been withdrawn, and that
nobody comes to, is left alone for good. -/
namespace V2lin.Threads

section
variable {θ σ μ κ π χ ι : Type}

structure Catalogue (σ π ι : Type) where
  listed : σ → List ι
  fresh : σ → ι → Prop
  /-- The object that the thread at a point has made and not yet put on the list. -/
  publishing : π → Option ι
  /-- The object that it has found on the list. -/
  uses : π → Option ι
  /-- The object that it is at work on, or is about to be. -/
  comes : π → Option ι

namespace Catalogue

def directory (k : Catalogue σ π ι) (m : σ) (place : θ → π) : Directory θ ι where
  listed := k.listed m
  fresh := k.fresh m
  publishing t := k.publishing (place t)
  uses t := k.uses (place t)

def registry (k : Catalogue σ π ι) (s : State θ σ μ κ π) : Directory θ ι :=
  k.directory s.mem fun t => (s.ctl t).point

/-- The object is off the list, and nobody comes to it. -/
structure Deserted (k : Catalogue σ π ι) (id : ι) (s : State θ σ μ κ π) : Prop where
  withdrawn : (k.registry s).Withdrawn id
  comes : ∀ t, k.comes (s.ctl t).point ≠ some id

/-- Point `p'` says no more than `p`: it publishes the same, and uses and comes to nothing
else. -/
structure Follows (k : Catalogue σ π ι) (p p' : π) : Prop where
  publishing : k.publishing p' = k.publishing p
  uses : ∀ id, k.uses p' = some id → k.uses p = some id
  comes : ∀ id, k.comes p' = some id → k.comes p = some id

variable {k : Catalogue σ π ι} {p p' : π} {m m' : σ} {id : ι}

/-- Nobody has made anything yet where every thread starts. -/
theorem sound_of_idle {s : State θ σ μ κ π} {idle : π} (hlist : k.listed s.mem = [])
    (hidle : ∀ t, s.ctl t = .awake idle) (hpub : k.publishing idle = none) (huse : k.uses idle = none) :
    (k.registry s).Sound := by
  refine .of_empty hlist (fun t => ?_) fun t => ?_
  · show k.publishing (s.ctl t).point = none
    rwa [hidle t]
  · show k.uses (s.ctl t).point = none
    rwa [hidle t]

theorem Follows.of_eq (hpub : k.publishing p' = k.publishing p) (huse : k.uses p' = k.uses p)
    (hcome : k.comes p' = k.comes p) : k.Follows p p' :=
  ⟨hpub, fun _ h => huse.symm.trans h, fun _ h => hcome.symm.trans h⟩

theorem Follows.refl : k.Follows p p := .of_eq rfl rfl rfl

/-- The thread will touch the object again, but comes to it no more. -/
theorem Follows.of_leaving (hpub : k.publishing p' = k.publishing p) (huse : k.uses p' = k.uses p)
    (hcome : k.comes p' = none) : k.Follows p p' where
  publishing := hpub
  uses _ h := huse.symm.trans h
  comes id h := by
    rw [hcome] at h
    cases h

/-- The object is left behind. -/
theorem Follows.of_none (hpub : k.publishing p' = k.publishing p) (huse : k.uses p' = none)
    (hcome : k.comes p' = none) : k.Follows p p' where
  publishing := hpub
  uses id h := by
    rw [huse] at h
    cases h
  comes id h := by
    rw [hcome] at h
    cases h

variable [DecidableEq ι]

/-- What a block does to the objects, seen by the thread that runs it. -/
structure Moves (k : Catalogue σ π ι) (m : σ) (p : π) (m' : σ) (p' : π) : Prop where
  move : (k.directory m fun _ : Unit => p).Move () (k.directory m' fun _ => p')
  fresh : ∀ id, k.fresh m' id → k.fresh m id
  comes : ∀ id, k.comes p' = some id → k.comes p = some id ∨ id ∈ k.listed m

/-- A block that leaves the list alone. -/
theorem Follows.moves (h : k.Follows p p') (hl : k.listed m' = k.listed m) (hf : ∀ id, k.fresh m' id → k.fresh m id) :
    k.Moves m p m' p' where
  move := .stay hl h.publishing fun id hid => .inl (h.uses id hid)
  fresh := hf
  comes id hid := .inl (h.comes id hid)

/-- The move of one thread among others. -/
theorem Moves.among {place place' : θ → π} {t : θ} (h : k.Moves m (place t) m' (place' t)) :
    (k.directory m place).Move t (k.directory m' place') := by
  cases h.move with
  | stay hl hp hu => exact .stay hl hp hu
  | make id hf hmade hl hp hu => exact .make id hf hmade hl hp hu
  | publish id hp hl hp' hu => exact .publish id hp hl hp' hu
  | withdraw id hl hp hu => exact .withdraw id hl hp hu

/-- The code keeps to its catalogue. -/
structure Kept (k : Catalogue σ π ι) (code : θ → π → Instr σ μ κ π χ) : Prop where
  next : ∀ {t p p'}, (code t p).Next p' → k.Follows p p'
  block : ∀ {t p p' x block} {m m' : σ}, code t p = .run block → block x m = some (m', p') → k.Moves m p m' p'

variable [DecidableEq θ] [DecidableEq μ] [DecidableEq κ]
variable {code : θ → π → Instr σ μ κ π χ} {Init : State θ σ μ κ π → Prop} {t : θ} {s s' : State θ σ μ κ π}
variable {tr : List (Transition θ σ μ κ π)}

/-- What a step does to the objects, seen by the thread that takes it. -/
theorem Kept.moves (hk : k.Kept code) (h : Step code t s s') :
    k.Moves s.mem (s.ctl t).point s'.mem (s'.ctl t).point := by
  obtain ⟨hm, _, hpoint⟩ | ⟨p, block, x, p', hp, hi, hb, hp', _⟩ := h.sync_or_block
  · have hfollows : k.Follows (s.ctl t).point (s'.ctl t).point := by
      obtain heq | hnext := hpoint
      · rw [heq]
        exact .refl
      · exact hk.next hnext
    rw [hm]
    exact hfollows.moves rfl fun _ hf => hf
  · rw [hp, hp']
    exact hk.block hi hb

theorem Kept.step (hk : k.Kept code) (h : Step code t s s') : (k.registry s).Step t (k.registry s') where
  move := (hk.moves h).among
  publishing _ hu := congrArg (fun c : Ctl π => k.publishing c.point) (h.ctl_other hu)
  uses _ hu := congrArg (fun c : Ctl π => k.uses c.point) (h.ctl_other hu)
  fresh := (hk.moves h).fresh

/-- In every run an object is linked once. -/
theorem Kept.sound (hk : k.Kept code) (hinit : ∀ s, Init s → (k.registry s).Sound) (h : Run code Init tr s) :
    (k.registry s).Sound :=
  h.invariant (fun _ => True) (fun s => (k.registry s).Sound) hinit
    (fun _ _ _ hd hs _ => (hk.step hs).sound hd) fun _ _ => trivial

theorem Deserted.step (hd : k.Deserted id s) (hk : k.Kept code) (h : Step code t s s') : k.Deserted id s' where
  withdrawn := (hk.step h).withdrawn hd.withdrawn
  comes u hc := by
    by_cases hu : u = t
    · subst hu
      obtain hc | hin := (hk.moves h).comes id hc
      · exact hd.comes u hc
      · exact hd.withdrawn.2 hin
    · rw [h.ctl_other hu] at hc
      exact hd.comes u hc

end Catalogue

end

end V2lin.Threads
