import V2lin.Threads.Machine

/-! Which mutexes a thread holds, read off where it is.

`held` assigns to every point of the code the mutexes its author takes to be held
there. `Guarded` is the check, instruction by instruction, that a mutex claimed
as held has been taken and is released by nobody else; for a given program it is a
case check, and in every run a claimed mutex is then owned (`Guarded.owned`).

A step `Forgets` a mutex when it leaves its thread owning one that it does not
claim; only a block can (`Forgets.block`). Nobody releases such a mutex again, so
what a thread owns is exactly what it claims and what it has forgotten
(`Guarded.owner_iff`).

A lock order follows: two threads cannot hold one mutex each and wait for the
other's, if the program never asks for the second while it holds the first
(`no_embrace`). -/
namespace V2lin.Threads

section Locks
variable {θ σ μ κ π χ : Type}

/-- The mutex given up inside an instruction's wait. -/
def Instr.waitMutex : Instr σ μ κ π χ → Option μ
  | .wait _ m _ _ => some m
  | _ => none

/-- The mutexes claimed for a thread: those of its point, less the one its wait
has given up. -/
def Claims (code : θ → π → Instr σ μ κ π χ) (held : π → List μ) (s : State θ σ μ κ π) (t : θ) (m : μ) :
    Prop :=
  match s.ctl t with
  | .awake p => m ∈ held p
  | .asleep p _ => m ∈ held p ∧ ∃ m', (code t p).waitMutex = some m' ∧ m ≠ m'

theorem claims_awake {code : θ → π → Instr σ μ κ π χ} {held : π → List μ} {s : State θ σ μ κ π} {t : θ}
    {p : π} {m : μ} (h : s.ctl t = .awake p) : Claims code held s t m ↔ m ∈ held p := by
  simp only [Claims, h]

theorem claims_asleep {code : θ → π → Instr σ μ κ π χ} {held : π → List μ} {s : State θ σ μ κ π} {t : θ}
    {p : π} {n : Nat} {m : μ} (h : s.ctl t = .asleep p n) :
    Claims code held s t m ↔ m ∈ held p ∧ ∃ m', (code t p).waitMutex = some m' ∧ m ≠ m' := by
  simp only [Claims, h]

theorem claims_congr {code : θ → π → Instr σ μ κ π χ} {held : π → List μ} {s s' : State θ σ μ κ π}
    {t : θ} {m : μ} (h : s'.ctl t = s.ctl t) :
    Claims code held s' t m ↔ Claims code held s t m := by
  simp only [Claims, h]

/-- `held` tracks `m` through the instruction at `p`: the claim on it is made where the
instruction takes it and dropped where it gives it up, which it does only where it is
claimed. A block makes no claim. -/
def Instr.Tracked (held : π → List μ) (m : μ) (p : π) : Instr σ μ κ π χ → Prop
  | .lock m' next => m ∈ held next ↔ m = m' ∨ m ∈ held p
  | .unlock m' next => (m = m' → m ∈ held p) ∧ (m ∈ held next ↔ m ∈ held p ∧ m ≠ m')
  | .wait _ m' _ next => (m = m' → m ∈ held p) ∧ ∀ r, m ∈ held (next r) ↔ m ∈ held p
  | .broadcast _ next => m ∈ held next ↔ m ∈ held p
  | .run block => ∀ x v v' p', block x v = some (v', p') → m ∈ held p' → m ∈ held p

def Guarded (code : θ → π → Instr σ μ κ π χ) (held : π → List μ) (m : μ) : Prop :=
  ∀ t p, (code t p).Tracked held m p

/-- The step leaves `t` owning `m` without a claim on it. -/
structure Forgets (code : θ → π → Instr σ μ κ π χ) (held : π → List μ) (t : θ) (m : μ)
    (x : Transition θ σ μ κ π) : Prop where
  thread : x.thread = t
  before : Claims code held x.pre t m ∨ x.pre.owner m = none
  after : ¬ Claims code held x.post t m
  owner : x.post.owner m = some t

variable {code : θ → π → Instr σ μ κ π χ} {held : π → List μ} {m : μ} {t : θ} {s s' : State θ σ μ κ π}

/-- Whoever holds a claim on a guarded mutex owns it. -/
def Owned (code : θ → π → Instr σ μ κ π χ) (held : π → List μ) (m : μ) (s : State θ σ μ κ π) : Prop :=
  ∀ t, Claims code held s t m → s.owner m = some t

/-- Two threads cannot claim one mutex. -/
theorem Owned.unique (ho : Owned code held m s) {t u : θ} (ht : Claims code held s t m)
    (hu : Claims code held s u m) : t = u :=
  Option.some.inj ((ho t ht).symm.trans (ho u hu))

/-- Past an instruction, a claimed mutex is claimed unless the instruction released it. -/
theorem Guarded.next (hg : Guarded code held m) {p p' : π} (h : (code t p).Next p') (hin : m ∈ held p) :
    m ∈ held p' ∨ ∃ next, code t p = .unlock m next := by
  have hgp := hg t p
  cases hi : code t p with
  | lock m' next =>
    rw [hi] at h hgp
    cases h
    exact .inl (hgp.mpr (.inr hin))
  | unlock m' next =>
    rw [hi] at h hgp
    cases h
    by_cases he : m = m'
    · exact .inr ⟨_, by rw [he]⟩
    · exact .inl (hgp.2.mpr ⟨hin, he⟩)
  | wait c m' timed next =>
    rw [hi] at h hgp
    obtain ⟨r, rfl⟩ := h
    exact .inl ((hgp.2 r).mpr hin)
  | broadcast c next =>
    rw [hi] at h hgp
    cases h
    exact .inl (hgp.mpr hin)
  | run block =>
    rw [hi] at h
    exact h.elim

variable [DecidableEq θ] [DecidableEq μ] [DecidableEq κ]

/-- What a step does to a guarded mutex: nothing, or the thread that moves takes
it free, or gives up its claim. -/
theorem Guarded.owner_step (hg : Guarded code held m) (h : Step code t s s') :
    s'.owner m = s.owner m ∨ (s.owner m = none ∧ s'.owner m = some t) ∨
      (Claims code held s t m ∧ s'.owner m = none) := by
  cases hp : s.ctl t with
  | awake p =>
    have hd := h.does hp
    have hgp := hg t p
    rw [claims_awake hp]
    cases hi : code t p with
    | lock m' next =>
      rw [hi] at hd
      obtain ⟨hn, rfl⟩ := hd
      by_cases he : m = m'
      · subst he
        exact .inr (.inl ⟨hn, Function.update_self ..⟩)
      · exact .inl (Function.update_of_ne he ..)
    | unlock m' next =>
      rw [hi] at hd hgp
      subst hd
      by_cases he : m = m'
      · subst he
        exact .inr (.inr ⟨hgp.1 rfl, Function.update_self ..⟩)
      · exact .inl (Function.update_of_ne he ..)
    | wait c m' timed next =>
      rw [hi] at hd hgp
      rcases hd with rfl | ⟨_, rfl⟩
      · by_cases he : m = m'
        · subst he
          exact .inr (.inr ⟨hgp.1 rfl, Function.update_self ..⟩)
        · exact .inl (Function.update_of_ne he ..)
      · exact .inl rfl
    | broadcast c next =>
      rw [hi] at hd
      subst hd
      exact .inl rfl
    | run block =>
      rw [hi] at hd
      obtain ⟨x, v', p', _, rfl⟩ := hd
      exact .inl rfl
  | asleep p n =>
    have hw := h.wakes hp
    cases hi : code t p with
    | wait c m' timed next =>
      rw [hi] at hw
      obtain ⟨hn, r, _, rfl⟩ := hw
      by_cases he : m = m'
      · subst he
        exact .inr (.inl ⟨hn, Function.update_self ..⟩)
      · exact .inl (Function.update_of_ne he ..)
    | _ =>
      rw [hi] at hw
      exact hw.elim

/-- A claim after the thread's step: either it has just taken the mutex, or it was
claimed before and the step left the mutex alone. -/
theorem Guarded.claim_step (hg : Guarded code held m) (h : Step code t s s')
    (hc : Claims code held s' t m) :
    (s.owner m = none ∧ s'.owner m = some t) ∨ (Claims code held s t m ∧ s'.owner m = s.owner m) := by
  cases hp : s.ctl t with
  | awake p =>
    have hd := h.does hp
    have hgp := hg t p
    rw [claims_awake hp]
    cases hi : code t p with
    | lock m' next =>
      rw [hi] at hd hgp
      obtain ⟨hn, rfl⟩ := hd
      rw [claims_awake (Function.update_self ..)] at hc
      by_cases he : m = m'
      · subst he
        exact .inl ⟨hn, Function.update_self ..⟩
      · exact .inr ⟨(hgp.mp hc).resolve_left he, Function.update_of_ne he ..⟩
    | unlock m' next =>
      rw [hi] at hd hgp
      subst hd
      rw [claims_awake (Function.update_self ..)] at hc
      obtain ⟨hm, hne⟩ := hgp.2.mp hc
      exact .inr ⟨hm, Function.update_of_ne hne ..⟩
    | wait c m' timed next =>
      rw [hi] at hd hgp
      rcases hd with rfl | ⟨_, rfl⟩
      · rw [claims_asleep (Function.update_self ..), hi] at hc
        obtain ⟨hm, m'', hw, hne⟩ := hc
        cases hw
        exact .inr ⟨hm, Function.update_of_ne hne ..⟩
      · rw [claims_awake (Function.update_self ..)] at hc
        exact .inr ⟨(hgp.2 _).mp hc, rfl⟩
    | broadcast c next =>
      rw [hi] at hd hgp
      subst hd
      rw [claims_awake (Function.update_self ..)] at hc
      exact .inr ⟨hgp.mp hc, rfl⟩
    | run block =>
      rw [hi] at hd hgp
      obtain ⟨x, v', p', hb, rfl⟩ := hd
      rw [claims_awake (Function.update_self ..)] at hc
      exact .inr ⟨hgp x _ v' p' hb hc, rfl⟩
  | asleep p n =>
    have hw := h.wakes hp
    have hgp := hg t p
    rw [claims_asleep hp]
    cases hi : code t p with
    | wait c m' timed next =>
      rw [hi] at hw hgp
      obtain ⟨hn, r, _, rfl⟩ := hw
      rw [claims_awake (Function.update_self ..)] at hc
      by_cases he : m = m'
      · subst he
        exact .inl ⟨hn, Function.update_self ..⟩
      · exact .inr ⟨⟨(hgp.2 r).mp hc, m', rfl, he⟩, Function.update_of_ne he ..⟩
    | _ =>
      rw [hi] at hw
      exact hw.elim

theorem Guarded.step (hg : Guarded code held m) (ho : Owned code held m s) (h : Step code t s s') :
    Owned code held m s' := by
  intro u hc
  by_cases hu : u = t
  · subst hu
    rcases hg.claim_step h hc with ⟨_, hown⟩ | ⟨hclaim, heq⟩
    · exact hown
    · rw [heq]
      exact ho u hclaim
  · have hown := ho u ((claims_congr (h.ctl_other hu)).mp hc)
    rcases hg.owner_step h with heq | ⟨hn, _⟩ | ⟨hclaim, _⟩
    · rw [heq, hown]
    · rw [hn] at hown
      cases hown
    · exact absurd (Option.some.inj (hown.symm.trans (ho t hclaim))) hu

variable {Init : State θ σ μ κ π → Prop} {tr : List (Transition θ σ μ κ π)}

/-- In every run, a claimed mutex is owned. -/
theorem Guarded.owned (hg : Guarded code held m) (hinit : ∀ s, Init s → Owned code held m s)
    (h : Run code Init tr s) : Owned code held m s :=
  h.invariant (fun _ => True) (Owned code held m) hinit (fun _ _ _ ho hs _ => hg.step ho hs)
    (fun _ _ => trivial)

/-- The step's instruction gives `m` up. -/
def Releases (code : θ → π → Instr σ μ κ π χ) (m : μ) (x : Transition θ σ μ κ π) : Prop :=
  ∃ p, x.pre.ctl x.thread = .awake p ∧ ((∃ next, code x.thread p = .unlock m next) ∨
    ∃ c timed next, code x.thread p = .wait c m timed next)

/-- A mutex becomes free by an instruction that gives it up. -/
theorem Step.releases (h : Step code t s s') (ho : s.owner m ≠ none) (hn : s'.owner m = none) :
    Releases code m ⟨s, t, s'⟩ := by
  cases hp : s.ctl t with
  | awake p =>
    have hd := h.does hp
    refine ⟨p, hp, ?_⟩
    show (∃ next, code t p = .unlock m next) ∨ ∃ c timed next, code t p = .wait c m timed next
    cases hi : code t p with
    | lock m' next =>
      rw [hi] at hd
      obtain ⟨_, rfl⟩ := hd
      by_cases he : m = m'
      · subst he
        simp at hn
      · exact absurd ((Function.update_of_ne he ..).symm.trans hn) ho
    | unlock m' next =>
      rw [hi] at hd
      subst hd
      by_cases he : m = m'
      · subst he
        exact .inl ⟨next, rfl⟩
      · exact absurd ((Function.update_of_ne he ..).symm.trans hn) ho
    | wait c m' timed next =>
      rw [hi] at hd
      rcases hd with rfl | ⟨_, rfl⟩
      · by_cases he : m = m'
        · subst he
          exact .inr ⟨c, timed, next, rfl⟩
        · exact absurd ((Function.update_of_ne he ..).symm.trans hn) ho
      · exact absurd hn ho
    | broadcast c next =>
      rw [hi] at hd
      subst hd
      exact absurd hn ho
    | run block =>
      rw [hi] at hd
      obtain ⟨x, v', p', _, rfl⟩ := hd
      exact absurd hn ho
  | asleep p n =>
    have hw := h.wakes hp
    cases hi : code t p with
    | wait c m' timed next =>
      rw [hi] at hw
      obtain ⟨_, r, _, rfl⟩ := hw
      by_cases he : m = m'
      · subst he
        simp at hn
      · exact absurd ((Function.update_of_ne he ..).symm.trans hn) ho
    | _ =>
      rw [hi] at hw
      exact hw.elim

/-- A thread comes to own a mutex by taking it, or by waking up in a wait that has given it up. -/
theorem Step.acquires (h : Step code t s s') (hn : s.owner m ≠ some t) (ho : s'.owner m = some t) :
    (∃ p next, s.ctl t = .awake p ∧ code t p = .lock m next ∧ s'.ctl t = .awake next) ∨
      ∃ p n c timed next r, s.ctl t = .asleep p n ∧ code t p = .wait c m timed next ∧
        s'.ctl t = .awake (next r) := by
  cases hp : s.ctl t with
  | awake p =>
    have hd := h.does hp
    cases hi : code t p with
    | lock m' next =>
      rw [hi] at hd
      obtain ⟨_, rfl⟩ := hd
      by_cases he : m = m'
      · subst he
        exact .inl ⟨p, next, rfl, hi, Function.update_self ..⟩
      · exact absurd ((Function.update_of_ne he ..).symm.trans ho) hn
    | unlock m' next =>
      rw [hi] at hd
      subst hd
      by_cases he : m = m'
      · subst he
        simp at ho
      · exact absurd ((Function.update_of_ne he ..).symm.trans ho) hn
    | wait c m' timed next =>
      rw [hi] at hd
      obtain rfl | ⟨_, rfl⟩ := hd
      · by_cases he : m = m'
        · subst he
          simp at ho
        · exact absurd ((Function.update_of_ne he ..).symm.trans ho) hn
      · exact absurd ho hn
    | broadcast c next =>
      rw [hi] at hd
      subst hd
      exact absurd ho hn
    | run block =>
      rw [hi] at hd
      obtain ⟨x, v', p', _, rfl⟩ := hd
      exact absurd ho hn
  | asleep p n =>
    have hw := h.wakes hp
    cases hi : code t p with
    | wait c m' timed next =>
      rw [hi] at hw
      obtain ⟨_, r, _, rfl⟩ := hw
      by_cases he : m = m'
      · subst he
        exact .inr ⟨p, n, c, timed, next, r, rfl, hi, Function.update_self ..⟩
      · exact absurd ((Function.update_of_ne he ..).symm.trans ho) hn
    | _ =>
      rw [hi] at hw
      exact hw.elim

/-- A step of another thread does not make a thread the owner. -/
theorem Step.owned_other {u : θ} (h : Step code t s s') (hu : u ≠ t) (ho : s'.owner m = some u) :
    s.owner m = some u := by
  have hne : ∀ (m' : μ) (o : Option θ), o ≠ some u → Function.update s.owner m' o m = some u → s.owner m = some u := by
    intro m' o hou ho
    by_cases he : m = m'
    · subst he
      exact absurd ((Function.update_self ..).symm.trans ho) hou
    · exact (Function.update_of_ne he ..).symm.trans ho
  have hself : some t ≠ some u := fun he => hu (Option.some.inj he).symm
  cases hp : s.ctl t with
  | awake p =>
    have hd := h.does hp
    cases hi : code t p with
    | lock m' next =>
      rw [hi] at hd
      obtain ⟨_, rfl⟩ := hd
      exact hne m' (some t) hself ho
    | unlock m' next =>
      rw [hi] at hd
      subst hd
      exact hne m' none nofun ho
    | wait c m' timed next =>
      rw [hi] at hd
      obtain rfl | ⟨_, rfl⟩ := hd
      · exact hne m' none nofun ho
      · exact ho
    | broadcast c next =>
      rw [hi] at hd
      subst hd
      exact ho
    | run block =>
      rw [hi] at hd
      obtain ⟨x, v', p', _, rfl⟩ := hd
      exact ho
  | asleep p n =>
    have hw := h.wakes hp
    cases hi : code t p with
    | wait c m' timed next =>
      rw [hi] at hw
      obtain ⟨_, r, _, rfl⟩ := hw
      exact hne m' (some t) hself ho
    | _ =>
      rw [hi] at hw
      exact hw.elim

/-- In every run, a guarded mutex is released by its owner only. -/
theorem Guarded.releases_owned (hg : Guarded code held m) (hinit : ∀ s, Init s → Owned code held m s)
    (h : Run code Init tr s) {x : Transition θ σ μ κ π} (hx : x ∈ tr) (hr : Releases code m x) :
    x.pre.owner m = some x.thread := by
  have howned : Owned code held m x.pre :=
    h.invariant_pre (fun _ => True) (Owned code held m) hinit (fun _ _ _ ho hs _ => hg.step ho hs)
      (fun _ _ => trivial) x hx
  obtain ⟨p, hp, hcode⟩ := hr
  refine howned _ ((claims_awake hp).mpr ?_)
  have hgp := hg x.thread p
  rcases hcode with ⟨next, hi⟩ | ⟨c, timed, next, hi⟩
  · rw [hi] at hgp
    exact hgp.1 rfl
  · rw [hi] at hgp
    exact hgp.1 rfl

/-- A thread that has forgotten a mutex owns it for good, and never claims it again. -/
theorem Guarded.forgotten (hg : Guarded code held m) (hinit : ∀ s, Init s → Owned code held m s)
    (h : Run code Init tr s) (hf : ∃ x ∈ tr, Forgets code held t m x) :
    s.owner m = some t ∧ ¬ Claims code held s t m := by
  induction h with
  | start _ =>
    obtain ⟨x, hx, _⟩ := hf
    cases hx
  | @step tr s u s' hr hs ih =>
    obtain ⟨x, hx, hf⟩ := hf
    rcases List.mem_cons.mp hx with rfl | hx
    · exact ⟨hf.owner, hf.after⟩
    · obtain ⟨hown, hno⟩ := ih ⟨x, hx, hf⟩
      refine ⟨?_, ?_⟩
      · rcases hg.owner_step hs with heq | ⟨hn, _⟩ | ⟨hclaim, _⟩
        · rw [heq, hown]
        · rw [hn] at hown
          cases hown
        · have htu : t = u := Option.some.inj (hown.symm.trans (hg.owned hinit hr u hclaim))
          exact absurd (htu ▸ hclaim) hno
      · by_cases htu : t = u
        · subst htu
          intro hclaim
          rcases hg.claim_step hs hclaim with ⟨hn, _⟩ | ⟨hpre, _⟩
          · rw [hn] at hown
            cases hown
          · exact hno hpre
        · rw [claims_congr (hs.ctl_other htu)]
          exact hno

/-- What a thread owns is what it claims and what it has forgotten. -/
theorem Guarded.owner_iff (hg : Guarded code held m) (hinit : ∀ s, Init s → Owned code held m s)
    (hfree : ∀ s, Init s → s.owner m = none) (h : Run code Init tr s) :
    s.owner m = some t ↔ Claims code held s t m ∨ ∃ x ∈ tr, Forgets code held t m x := by
  refine ⟨fun hown => ?_, ?_⟩
  · induction h with
    | start hi =>
      rw [hfree _ hi] at hown
      cases hown
    | @step tr s u s' hr hs ih =>
      by_cases hclaim : Claims code held s' t m
      · exact .inl hclaim
      · refine .inr ?_
        rcases hg.owner_step hs with heq | ⟨hn, hu⟩ | ⟨_, hnone⟩
        · rcases ih (heq ▸ hown) with hpre | ⟨x, hx, hf⟩
          · by_cases htu : t = u
            · exact ⟨_, List.mem_cons_self .., htu.symm, .inl hpre, hclaim, hown⟩
            · exact absurd ((claims_congr (hs.ctl_other htu)).mpr hpre) hclaim
          · exact ⟨x, List.mem_cons_of_mem _ hx, hf⟩
        · have hut : u = t := Option.some.inj (hu.symm.trans hown)
          exact ⟨_, List.mem_cons_self .., hut, .inr hn, hclaim, hown⟩
        · rw [hnone] at hown
          cases hown
  · rintro (hclaim | hf)
    · exact hg.owned hinit h t hclaim
    · exact (hg.forgotten hinit h hf).1

/-- Only a block forgets a mutex, and only one that it claimed. -/
theorem Forgets.block {x : Transition θ σ μ κ π} (hf : Forgets code held t m x)
    (hg : Guarded code held m) (hs : Step code x.thread x.pre x.post) :
    ∃ p block c p', x.pre.ctl t = .awake p ∧ code t p = .run block ∧
      block c x.pre.mem = some (x.post.mem, p') ∧ x.post.ctl t = .awake p' ∧ m ∈ held p ∧ m ∉ held p' := by
  obtain ⟨s, u, s'⟩ := x
  obtain ⟨rfl, hbefore, hafter, hown⟩ := hf
  simp only at hs hbefore hafter hown ⊢
  cases hp : s.ctl u with
  | awake p =>
    have hd := hs.does hp
    have hgp := hg u p
    rw [claims_awake hp] at hbefore
    cases hi : code u p with
    | lock m' next =>
      rw [hi] at hd hgp
      obtain ⟨hn, rfl⟩ := hd
      rw [claims_awake (Function.update_self ..)] at hafter
      refine absurd (hgp.mpr ?_) hafter
      by_cases he : m = m'
      · exact .inl he
      · have hown : s.owner m = some u := (Function.update_of_ne he ..).symm.trans hown
        exact .inr (hbefore.resolve_right (by rw [hown]; exact Option.some_ne_none u))
    | unlock m' next =>
      rw [hi] at hd hgp
      subst hd
      rw [claims_awake (Function.update_self ..)] at hafter
      by_cases he : m = m'
      · subst he
        simp at hown
      · have hown : s.owner m = some u := (Function.update_of_ne he ..).symm.trans hown
        have hm := hbefore.resolve_right (by rw [hown]; exact Option.some_ne_none u)
        exact absurd (hgp.2.mpr ⟨hm, he⟩) hafter
    | wait c m' timed next =>
      rw [hi] at hd hgp
      rcases hd with rfl | ⟨_, rfl⟩
      · rw [claims_asleep (Function.update_self ..), hi] at hafter
        by_cases he : m = m'
        · subst he
          simp at hown
        · have hown : s.owner m = some u := (Function.update_of_ne he ..).symm.trans hown
          have hm := hbefore.resolve_right (by rw [hown]; exact Option.some_ne_none u)
          exact absurd ⟨hm, m', rfl, he⟩ hafter
      · rw [claims_awake (Function.update_self ..)] at hafter
        have hm := hbefore.resolve_right (by rw [hown]; exact Option.some_ne_none u)
        exact absurd ((hgp.2 _).mpr hm) hafter
    | broadcast c next =>
      rw [hi] at hd hgp
      subst hd
      rw [claims_awake (Function.update_self ..)] at hafter
      have hm := hbefore.resolve_right (by rw [hown]; exact Option.some_ne_none u)
      exact absurd (hgp.mpr hm) hafter
    | run block =>
      rw [hi] at hd
      obtain ⟨c, v', p', hb, rfl⟩ := hd
      rw [claims_awake (Function.update_self ..)] at hafter
      have hm := hbefore.resolve_right (by rw [hown]; exact Option.some_ne_none u)
      exact ⟨p, block, c, p', rfl, hi, hb, Function.update_self .., hm, hafter⟩
  | asleep p n =>
    have hw := hs.wakes hp
    have hgp := hg u p
    rw [claims_asleep hp] at hbefore
    cases hi : code u p with
    | wait c m' timed next =>
      rw [hi] at hw hgp
      obtain ⟨hn, r, _, rfl⟩ := hw
      rw [claims_awake (Function.update_self ..)] at hafter
      refine absurd ((hgp.2 r).mpr ?_) hafter
      by_cases he : m = m'
      · exact hgp.1 he
      · have hown : s.owner m = some u := (Function.update_of_ne he ..).symm.trans hown
        exact (hbefore.resolve_right (by rw [hown]; exact Option.some_ne_none u)).1
    | _ =>
      rw [hi] at hw
      exact hw.elim

omit [DecidableEq θ] [DecidableEq μ] [DecidableEq κ] in
/-- A block that drops a claim forgets the mutex. -/
theorem Owned.forgets {p p' : π} (ho : Owned code held m s) (hp : s.ctl t = .awake p)
    (hp' : s'.ctl t = .awake p') (hown : s'.owner = s.owner) (hin : m ∈ held p) (hout : m ∉ held p') :
    Forgets code held t m ⟨s, t, s'⟩ := by
  have hclaim : Claims code held s t m := (claims_awake hp).mpr hin
  refine ⟨rfl, .inl hclaim, ?_, ?_⟩
  · show ¬ Claims code held s' t m
    rwa [claims_awake hp']
  · show s'.owner m = some t
    rw [hown]
    exact ho t hclaim

/-! ### Deadly embraces -/

/-- Thread `t` is about to take `m`. -/
def WaitsFor (code : θ → π → Instr σ μ κ π χ) (s : State θ σ μ κ π) (t : θ) (m : μ) : Prop :=
  ∃ p next, s.ctl t = .awake p ∧ code t p = .lock m next

/-- One thread holds `a` and waits for `b`, which another holds while it waits for `a`. -/
def Embrace (code : θ → π → Instr σ μ κ π χ) (a b : μ) (s : State θ σ μ κ π) : Prop :=
  ∃ t u, s.owner a = some t ∧ WaitsFor code s t b ∧ s.owner b = some u ∧ WaitsFor code s u a

omit [DecidableEq θ] [DecidableEq μ] [DecidableEq κ] in
/-- No embrace over a mutex that is never held where the other one is taken. -/
theorem no_embrace {a b : μ} (hh : ∀ t, s.owner a = some t → Claims code held s t a)
    (horder : ∀ t p next, code t p = .lock b next → a ∉ held p) : ¬ Embrace code a b s := by
  rintro ⟨t, _, hown, ⟨p, next, hp, hi⟩, _, _⟩
  have hc := hh t hown
  rw [claims_awake hp] at hc
  exact horder t p next hi hc

end Locks

end V2lin.Threads
