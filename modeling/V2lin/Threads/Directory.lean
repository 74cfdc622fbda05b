import Mathlib.Data.List.Nodup

/-! Objects that threads come to by way of a list.

A thread makes an object at a place that has not been used yet, publishes it on a list,
and from then on others find it there; one of them takes it off the list again. A place
is used once. Then an object is published once, and after it has been withdrawn nobody
comes to it any more. -/
namespace V2lin.Threads

section
variable {θ ι : Type}

structure Directory (θ ι : Type) where
  listed : List ι
  fresh : ι → Prop
  /-- The object that a thread has made and not yet put on the list. -/
  publishing : θ → Option ι
  /-- The object that a thread has found on the list. -/
  uses : θ → Option ι

namespace Directory

/-- The object has been put on the list, and may have been taken off it again. -/
def Published (d : Directory θ ι) (id : ι) : Prop := ¬ d.fresh id ∧ ∀ t, d.publishing t ≠ some id

/-- The object has been taken off the list. -/
def Withdrawn (d : Directory θ ι) (id : ι) : Prop := d.Published id ∧ id ∉ d.listed

structure Sound (d : Directory θ ι) : Prop where
  nodup : d.listed.Nodup
  listed : ∀ id ∈ d.listed, d.Published id
  uses : ∀ t id, d.uses t = some id → d.Published id
  made : ∀ t id, d.publishing t = some id → ¬ d.fresh id
  unique : ∀ t u id, d.publishing t = some id → d.publishing u = some id → t = u

/-- Nobody has made anything yet. -/
theorem Sound.of_empty {d : Directory θ ι} (hl : d.listed = []) (hp : ∀ t, d.publishing t = none)
    (hu : ∀ t, d.uses t = none) : d.Sound where
  nodup := hl ▸ List.nodup_nil
  listed id hid := by
    rw [hl] at hid
    cases hid
  uses t id ht := by
    rw [hu t] at ht
    cases ht
  made t id ht := by
    rw [hp t] at ht
    cases ht
  unique t u id ht := by
    rw [hp t] at ht
    cases ht

variable [DecidableEq ι]

/-- What thread `t` can do. -/
inductive Move (t : θ) (d d' : Directory θ ι) : Prop where
  | stay : d'.listed = d.listed → d'.publishing t = d.publishing t →
      (∀ id, d'.uses t = some id → d.uses t = some id ∨ id ∈ d.listed) → Directory.Move t d d'
  | make (id) : d.fresh id → ¬ d'.fresh id → d'.listed = d.listed → d'.publishing t = some id →
      d'.uses t = none → Directory.Move t d d'
  | publish (id) : d.publishing t = some id → d'.listed = d.listed ++ [id] → d'.publishing t = none →
      d'.uses t = none → Directory.Move t d d'
  | withdraw (id) : d'.listed = d.listed.erase id → d'.publishing t = d.publishing t →
      d'.uses t = d.uses t → Directory.Move t d d'

/-- One step: thread `t` moves, the others stay where they are, and no place becomes
fresh again. -/
structure Step (t : θ) (d d' : Directory θ ι) : Prop where
  move : Move t d d'
  publishing : ∀ u ≠ t, d'.publishing u = d.publishing u
  uses : ∀ u ≠ t, d'.uses u = d.uses u
  fresh : ∀ id, d'.fresh id → d.fresh id

variable {d d' : Directory θ ι} {t u : θ} {id : ι}

/-- Whoever publishes an object after a step did so before, or has just made it. -/
theorem Step.publishing_cases (h : Step t d d') (hu : d'.publishing u = some id) :
    d.publishing u = some id ∨ (u = t ∧ d.fresh id ∧ ¬ d'.fresh id) := by
  by_cases hut : u = t
  · subst hut
    cases h.move with
    | stay _ hp => exact .inl (hp ▸ hu)
    | make j hf hmade _ hp =>
      rw [hp] at hu
      cases hu
      exact .inr ⟨rfl, hf, hmade⟩
    | publish _ _ _ hp =>
      rw [hp] at hu
      cases hu
    | withdraw _ _ hp => exact .inl (hp ▸ hu)
  · exact .inl (h.publishing u hut ▸ hu)

/-- A published object stays published. -/
theorem Step.published (h : Step t d d') (hd : d.Published id) : d'.Published id := by
  refine ⟨fun hf => hd.1 (h.fresh id hf), fun u hu => ?_⟩
  obtain hu | ⟨_, hf, _⟩ := h.publishing_cases hu
  · exact hd.2 u hu
  · exact hd.1 hf

/-- An object on the list was on it, or has just been put there by the thread that made it. -/
theorem Step.listed_cases (h : Step t d d') (hid : id ∈ d'.listed) :
    id ∈ d.listed ∨ (d.publishing t = some id ∧ d'.publishing t = none) := by
  cases h.move with
  | stay hl => exact .inl (hl ▸ hid)
  | make _ _ _ hl => exact .inl (hl ▸ hid)
  | publish j hp hl hp' =>
    rw [hl] at hid
    obtain hid | hid := List.mem_append.mp hid
    · exact .inl hid
    · rw [List.mem_singleton.mp hid]
      exact .inr ⟨hp, hp'⟩
  | withdraw j hl =>
    rw [hl] at hid
    exact .inl (List.mem_of_mem_erase hid)

/-- Whoever uses an object after a step did so before, or has found it on the list. -/
theorem Step.uses_cases (h : Step t d d') (hu : d'.uses u = some id) : d.uses u = some id ∨ id ∈ d.listed := by
  by_cases hut : u = t
  · subst hut
    cases h.move with
    | stay _ _ huse => exact huse id hu
    | make _ _ _ _ _ hnone =>
      rw [hnone] at hu
      cases hu
    | publish _ _ _ _ hnone =>
      rw [hnone] at hu
      cases hu
    | withdraw _ _ _ heq => exact .inl (heq ▸ hu)
  · exact .inl (h.uses u hut ▸ hu)

/-- A withdrawn object stays off the list. -/
theorem Step.withdrawn (h : Step t d d') (hd : d.Withdrawn id) : d'.Withdrawn id := by
  refine ⟨h.published hd.1, fun hid => ?_⟩
  obtain hid | ⟨hp, _⟩ := h.listed_cases hid
  · exact hd.2 hid
  · exact hd.1.2 t hp

omit [DecidableEq ι] in
/-- The object that a thread publishes is not yet on the list. -/
theorem Sound.unlisted (hd : d.Sound) (hp : d.publishing t = some id) : id ∉ d.listed :=
  fun hid => (hd.listed id hid).2 t hp

theorem Step.nodup (h : Step t d d') (hd : d.Sound) : d'.listed.Nodup := by
  cases h.move with
  | stay hl => exact hl ▸ hd.nodup
  | make _ _ _ hl => exact hl ▸ hd.nodup
  | publish j hp hl =>
    rw [hl, List.nodup_append]
    refine ⟨hd.nodup, List.nodup_singleton j, fun a ha b hb hab => ?_⟩
    rw [List.mem_singleton] at hb
    subst hb hab
    exact hd.unlisted hp ha
  | withdraw j hl => exact hl ▸ hd.nodup.erase j

theorem Step.sound (h : Step t d d') (hd : d.Sound) : d'.Sound where
  nodup := h.nodup hd
  listed id hid := by
    obtain hid | ⟨hp, hp'⟩ := h.listed_cases hid
    · exact h.published (hd.listed id hid)
    · -- just published: nobody else was about to publish the same object
      refine ⟨fun hf => hd.made t id hp (h.fresh id hf), fun u hpost => ?_⟩
      obtain hu | ⟨_, hf, _⟩ := h.publishing_cases hpost
      · rw [hd.unique u t id hu hp, hp'] at hpost
        cases hpost
      · exact hd.made t id hp hf
  uses u id hu := by
    obtain hu | hid := h.uses_cases hu
    · exact h.published (hd.uses u id hu)
    · exact h.published (hd.listed id hid)
  made u id hu := by
    obtain hu | ⟨_, _, hmade⟩ := h.publishing_cases hu
    · exact fun hf => hd.made u id hu (h.fresh id hf)
    · exact hmade
  unique u v id hu hv := by
    obtain hu | ⟨hut, hf, _⟩ := h.publishing_cases hu
    · obtain hv | ⟨_, hf, _⟩ := h.publishing_cases hv
      · exact hd.unique u v id hu hv
      · exact absurd hf (hd.made u id hu)
    · obtain hv | ⟨hvt, _⟩ := h.publishing_cases hv
      · exact absurd hf (hd.made v id hv)
      · exact hut.trans hvt.symm

/-- Taking a published object off the list withdraws it. -/
theorem Step.withdraws (h : Step t d d') (hd : d.Sound) (hid : d.Published id)
    (hl : d'.listed = d.listed.erase id) : d'.Withdrawn id := by
  refine ⟨h.published hid, ?_⟩
  rw [hl]
  exact hd.nodup.not_mem_erase

end Directory

end

end V2lin.Threads
