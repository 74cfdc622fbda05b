import V2lin.Lifecycle.Code
import Mathlib.Data.List.Nodup

/-! Who owns the memory of the control blocks.

Threads bring control blocks of the user's or make them in memory that they allocate, put
them on a list, work on the ones they find there, take them off and free them. If only one
thread at a time works on what is on the list, and the user brings no memory of the heap's,
then nothing on the list is ever free, and what is freed is nobody's but the one's that
frees it. -/
namespace V2lin.Lifecycle

section
variable {θ τ : Type}

/-- The list, whether its last element is its own successor, and the control blocks: where
their memory is, and whether it is not to be freed. -/
structure Register (τ : Type) where
  list : List τ
  looped : Bool
  heap : τ → Block
  static : τ → Bool

/-- What a thread does with a control block. -/
inductive Role (τ : Type) where
  | bystander
  /-- It will put a block of the user's on the list. -/
  | brings (u : τ)
  /-- It has allocated a block, which is not on the list. -/
  | makes (u : τ)
  /-- It has put the block that it made on the list, and will declare that it is to be
  freed. -/
  | names (u : τ)
  | works (u : τ)
  /-- It has taken the block off the list. -/
  | removed (u : τ)
  deriving DecidableEq

/-- The block of a role, unless it is the user's. -/
def Role.block : Role τ → Option τ
  | .makes u | .names u | .works u | .removed u => some u
  | _ => none

/-- The roles in what has been found on the list. -/
def Role.locks : Role τ → Bool
  | .works _ | .removed _ => true
  | _ => false

namespace Register
variable [DecidableEq τ]

/-- A block is put on the list, if it is accepted. A block that is on the list already
becomes its end. -/
def Appended (r r' : Register τ) (u : τ) (accepted : Bool) : Prop :=
  r'.heap = r.heap ∧ r'.static = Function.update r.static u true ∧
    (u ∈ r.list ∧ r'.list = r.list.takeWhile (· ≠ u) ++ [u] ∨
      u ∉ r.list ∧ r'.looped = r.looped ∧
        (accepted = false ∧ r'.list = r.list ∨
          accepted = true ∧ r.looped = false ∧ r'.list = r.list ++ [u]))

/-- A block is taken off the list, unless it is its own successor. -/
def TakenOff (r r' : Register τ) (u : τ) : Prop :=
  r'.heap = r.heap ∧ r'.static = r.static ∧ r'.looped = r.looped ∧
    (r.looped = true ∧ r.list.getLast? = some u ∧ r'.list = r.list ∨
      ¬ (r.looped = true ∧ r.list.getLast? = some u) ∧ r'.list = r.list.erase u)

def setHeap (r : Register τ) (u : τ) (b : Block) : Register τ := {r with heap := Function.update r.heap u b}

/-- A thread's step, with its roles before and after it. -/
inductive Step : Register τ → Role τ → Register τ → Role τ → Prop
  | keeps (r x) : Step r x r x
  | leaves (r x) : Step r x r .bystander
  | finds {r u} (x) : u ∈ r.list → Step r x r (.works u)
  | brings {r u} : r.heap u = .user → Step r .bystander r (.brings u)
  | brought {r r' u accepted} : r.Appended r' u accepted → Step r (.brings u) r' .bystander
  | allocates {r u} : r.heap u = .free → Step r .bystander (r.setHeap u .allocated) (.makes u)
  | accepted {r r' u} : r.Appended r' u true → Step r (.makes u) r' (.names u)
  | refused {r r' u} : r.Appended r' u false → Step r (.makes u) r' (.makes u)
  | named {r u} : Step r (.names u) {r with static := Function.update r.static u false} .bystander
  | discards {r u} : Step r (.makes u) (r.setHeap u .free) .bystander
  | takesOff {r r' u} : r.TakenOff r' u → Step r (.works u) r' (.removed u)
  | frees {r u} : r.static u = false → Step r (.removed u) (r.setHeap u .free) .bystander

/-! ### Ownership -/

omit [DecidableEq τ] in
/-- A role is right about its block. -/
def Right (r : Register τ) : Role τ → Prop
  | .bystander => True
  | .brings u => r.heap u = .user
  | .makes u => r.heap u = .allocated ∧ u ∉ r.list
  | .names u => r.heap u = .allocated ∧ r.static u = true
  | .works u => r.heap u ≠ .free
  | .removed u => r.heap u ≠ .free ∧ (r.heap u = .allocated → u ∉ r.list)

/-- Another thread has nothing to do with a block that is being made, and does not name the
same block. -/
def Apart (x y : Role τ) : Prop := ∀ u, (x = .makes u → y.block ≠ some u) ∧ (x = .names u → y ≠ .names u)

/-- The blocks that are on the list or in somebody's hands are not free. -/
structure Owned (r : Register τ) (role : θ → Role τ) : Prop where
  nodup : r.list.Nodup
  listed : ∀ u ∈ r.list, r.heap u ≠ .free
  user : ∀ u, r.heap u = .user → r.static u = true
  looped : r.looped = true → ∃ u, r.list.getLast? = some u ∧ r.heap u = .user
  right : ∀ w, r.Right (role w)
  apart : ∀ w w', w ≠ w' → Apart (role w) (role w')

variable {r r' : Register τ} {x : Role τ} {role : θ → Role τ} {t w : θ} {u v : τ} {accepted : Bool}

omit [DecidableEq τ] in
theorem apart_of_ne {y : Role τ} (h : ∀ u, x ≠ .makes u) (h' : ∀ u, x ≠ .names u) : Apart x y :=
  fun u => ⟨fun he => absurd he (h u), fun he => absurd he (h' u)⟩

omit [DecidableEq τ] in
theorem apart_of_block {y : Role τ} (h : x.block = none) : Apart y x := by
  refine fun u => ⟨fun _ he => ?_, fun _ he => ?_⟩
  · rw [h] at he
    cases he
  · rw [he] at h
    cases h

omit [DecidableEq τ] in
theorem apart_makes {y : Role τ} (h : y.block ≠ some u) : Apart (.makes u) y ∧ Apart y (.makes u) := by
  refine ⟨fun v => ⟨fun he => ?_, fun he => by cases he⟩, fun v => ⟨fun he hb => ?_, fun _ he => by cases he⟩⟩
  · cases he
    exact h
  · cases hb
    exact h (by rw [he]; rfl)

omit [DecidableEq τ] in
theorem apart_names {y : Role τ} (h : y.block ≠ some u) : Apart (.names u) y ∧ Apart y (.names u) := by
  refine ⟨fun v => ⟨fun he => (by cases he), fun he hy => ?_⟩, fun v => ⟨fun he hb => ?_, fun he hb => ?_⟩⟩
  · cases he
    exact h (by rw [hy]; rfl)
  · cases hb
    exact h (by rw [he]; rfl)
  · cases hb
    exact h (by rw [he]; rfl)

omit [DecidableEq τ] in
theorem Owned.makes (h : Owned r role) (hw : role w = .makes u) : r.heap u = .allocated ∧ u ∉ r.list := by
  have hr := h.right w
  rwa [hw] at hr

omit [DecidableEq τ] in
/-- Who makes a block is the only one that has it. -/
theorem Owned.makes_ne (h : Owned r role) (ht : role t = .makes u) (hne : w ≠ t) : (role w).block ≠ some u :=
  (h.apart t w (Ne.symm hne) u).1 ht

omit [DecidableEq τ] in
/-- A block on the list is not being made. -/
theorem Owned.apart_listed (h : Owned r role) (hu : u ∈ r.list) (w : θ) : Apart (role w) (.works u) := by
  refine fun v => ⟨fun hw he => ?_, fun _ he => by cases he⟩
  cases he
  exact (h.makes hw).2 hu

variable [DecidableEq θ]

omit [DecidableEq τ] in
/-- A thread changes its role, and nothing else. -/
theorem Owned.turns (h : Owned r role) (hright : r.Right x)
    (hapart : ∀ w ≠ t, Apart x (role w) ∧ Apart (role w) x) : Owned r (Function.update role t x) := by
  refine ⟨h.nodup, h.listed, h.user, h.looped, fun w => ?_, fun w w' hne => ?_⟩
  · by_cases hw : w = t
    · rwa [hw, Function.update_self]
    · rw [Function.update_of_ne hw]
      exact h.right w
  · by_cases hw : w = t
    · subst hw
      rw [Function.update_self, Function.update_of_ne (Ne.symm hne)]
      exact (hapart w' (Ne.symm hne)).1
    · rw [Function.update_of_ne hw]
      by_cases hw' : w' = t
      · rw [hw', Function.update_self]
        exact (hapart w hw).2
      · rw [Function.update_of_ne hw']
        exact h.apart w w' hne

omit [DecidableEq τ] in
theorem Owned.leaves (h : Owned r role) : Owned r (Function.update role t .bystander) :=
  h.turns trivial fun w _ => ⟨apart_of_ne (fun _ he => by cases he) fun _ he => (by cases he), apart_of_block rfl⟩

@[simp] theorem setHeap_self (r : Register τ) (u : τ) (b : Block) : (r.setHeap u b).heap u = b :=
  Function.update_self ..

@[simp] theorem setHeap_of_ne (r : Register τ) (b : Block) (h : v ≠ u) : (r.setHeap u b).heap v = r.heap v :=
  Function.update_of_ne h ..

@[simp] theorem setHeap_list (r : Register τ) (u : τ) (b : Block) : (r.setHeap u b).list = r.list := rfl

@[simp] theorem setHeap_static (r : Register τ) (u : τ) (b : Block) : (r.setHeap u b).static = r.static := rfl

omit [DecidableEq θ] in
/-- A block of nobody's is allocated or freed. -/
theorem Owned.setHeap {b : Block} (h : Owned r role) (hlisted : u ∉ r.list) (hheap : r.heap u ≠ .user)
    (hb : b ≠ .user) (hnobody : ∀ w, (role w).block ≠ some u) : Owned (r.setHeap u b) role := by
  have hne : ∀ v, r.heap v = .user → v ≠ u := fun v hv he => hheap (he ▸ hv)
  refine ⟨h.nodup, fun v hv => ?_, fun v hv => ?_, fun hl => ?_, fun w => ?_, h.apart⟩
  · have hvu : v ≠ u := fun he => hlisted (he ▸ hv)
    rw [setHeap_of_ne r b hvu]
    exact h.listed v hv
  · by_cases hvu : v = u
    · rw [hvu, setHeap_self] at hv
      exact absurd hv hb
    · rw [setHeap_of_ne r b hvu] at hv
      exact h.user v hv
  · obtain ⟨v, hv, huser⟩ := h.looped hl
    exact ⟨v, hv, by rw [setHeap_of_ne r b (hne v huser), huser]⟩
  · have hright := h.right w
    have hw := hnobody w
    cases hx : role w with
    | bystander => trivial
    | brings v =>
      rw [hx] at hright
      show (r.setHeap u b).heap v = .user
      rwa [setHeap_of_ne r b (hne v hright)]
    | makes v | names v | works v | removed v =>
      rw [hx] at hright hw
      have hvu : v ≠ u := fun he => hw (congrArg some he)
      simpa only [Right, setHeap_of_ne r b hvu, setHeap_list, setHeap_static] using hright

omit [DecidableEq θ] [DecidableEq τ] in
theorem Owned.free_nobody (h : Owned r role) (hfree : r.heap u = .free) (w : θ) : (role w).block ≠ some u := by
  intro hw
  have hright := h.right w
  cases hx : role w with
  | bystander | brings v =>
    rw [hx] at hw
    cases hw
  | makes v | names v =>
    rw [hx] at hw hright
    cases hw
    rw [hright.1] at hfree
    cases hfree
  | works v =>
    rw [hx] at hw hright
    cases hw
    exact hright hfree
  | removed v =>
    rw [hx] at hw hright
    cases hw
    exact hright.1 hfree

omit [DecidableEq θ] in
/-- A block that is the user's, or that nobody else has, is put on the list. -/
theorem Owned.appended (h : Owned r role) (ha : r.Appended r' u accepted) (hfree : r.heap u ≠ .free)
    (hmine : r.heap u = .user ∨ u ∉ r.list ∧ ∀ w, (role w).block ≠ some u) : Owned r' role := by
  obtain ⟨hheap, hstatic, hl⟩ := ha
  have hstays : ∀ v, r.static v = true → r'.static v = true := by
    intro v hv
    rw [hstatic]
    by_cases hvu : v = u
    · rw [hvu, Function.update_self]
    · rwa [Function.update_of_ne hvu]
  have hmem : ∀ v ∈ r'.list, v = u ∨ v ∈ r.list := by
    intro v hv
    obtain ⟨_, hl⟩ | ⟨_, _, ⟨_, hl⟩ | ⟨_, _, hl⟩⟩ := hl
    · rw [hl] at hv
      obtain hv | hv := List.mem_append.mp hv
      · exact .inr ((List.takeWhile_sublist _).subset hv)
      · exact .inl (List.mem_singleton.mp hv)
    · exact .inr (hl ▸ hv)
    · rw [hl] at hv
      exact (List.mem_append.mp hv).symm.imp List.mem_singleton.mp id
  refine ⟨?_, fun v hv => ?_, fun v hv => ?_, fun hloop => ?_, fun w => ?_, h.apart⟩
  · obtain ⟨_, hl⟩ | ⟨hu, _, ⟨_, hl⟩ | ⟨_, _, hl⟩⟩ := hl
    · rw [hl]
      refine List.nodup_append.mpr ⟨h.nodup.sublist (List.takeWhile_sublist _), List.nodup_singleton u, fun a ha b hb => ?_⟩
      rw [List.mem_singleton.mp hb]
      simpa using List.mem_takeWhile_imp ha
    · rw [hl]
      exact h.nodup
    · rw [hl]
      refine List.nodup_append.mpr ⟨h.nodup, List.nodup_singleton u, fun a ha b hb => ?_⟩
      rw [List.mem_singleton.mp hb]
      exact fun he => hu (he ▸ ha)
  · rw [hheap]
    obtain rfl | hv := hmem v hv
    · exact hfree
    · exact h.listed v hv
  · rw [hheap] at hv
    exact hstays v (h.user v hv)
  · rw [hheap]
    obtain ⟨hu, hl⟩ | ⟨_, hloop', ⟨_, hl⟩ | ⟨_, hopen, _⟩⟩ := hl
    · exact ⟨u, by rw [hl, List.getLast?_append_of_ne_nil _ (List.cons_ne_nil u _)]; rfl, hmine.resolve_right fun h => h.1 hu⟩
    · rw [hl]
      exact h.looped (hloop'.symm.trans hloop)
    · rw [hloop', hopen] at hloop
      cases hloop
  · have hright := h.right w
    -- a block that has been allocated is the new element only if nobody has it
    have hnot : ∀ v, (role w).block = some v → r.heap v = .allocated → v ∉ r.list → v ∉ r'.list := by
      intro v hw hv hout hin
      obtain rfl | hin := hmem v hin
      · obtain huser | ⟨_, hnobody⟩ := hmine
        · rw [hv] at huser
          cases huser
        · exact hnobody w hw
      · exact hout hin
    cases hx : role w with
    | bystander => trivial
    | brings v =>
      rw [hx] at hright
      exact (congrFun hheap v).trans hright
    | makes v =>
      rw [hx] at hright hnot
      exact ⟨(congrFun hheap v).trans hright.1, hnot v rfl hright.1 hright.2⟩
    | names v =>
      rw [hx] at hright
      exact ⟨(congrFun hheap v).trans hright.1, hstays v hright.2⟩
    | works v =>
      rw [hx] at hright
      exact fun hv => hright ((congrFun hheap v).symm.trans hv)
    | removed v =>
      rw [hx] at hright hnot
      refine ⟨fun hv => hright.1 ((congrFun hheap v).symm.trans hv), fun hv => ?_⟩
      have hv : r.heap v = .allocated := (congrFun hheap v).symm.trans hv
      exact hnot v rfl hv (hright.2 hv)

omit [DecidableEq θ] in
theorem Owned.takenOff (h : Owned r role) (ht : r.TakenOff r' u) :
    Owned r' role ∧ (r'.heap u = .allocated → u ∉ r'.list) := by
  obtain ⟨hheap, hstatic, hloop, hl⟩ := ht
  have hsub : ∀ v ∈ r'.list, v ∈ r.list := by
    intro v hv
    obtain ⟨_, _, hl⟩ | ⟨_, hl⟩ := hl
    · exact hl ▸ hv
    · exact List.mem_of_mem_erase (hl ▸ hv)
  refine ⟨⟨?_, fun v hv => ?_, fun v hv => ?_, fun hlooped => ?_, fun w => ?_, h.apart⟩, fun hu => ?_⟩
  · obtain ⟨_, _, hl⟩ | ⟨_, hl⟩ := hl
    · rw [hl]
      exact h.nodup
    · rw [hl]
      exact h.nodup.erase u
  · rw [hheap]
    exact h.listed v (hsub v hv)
  · rw [hheap] at hv
    rw [hstatic]
    exact h.user v hv
  · rw [hloop] at hlooped
    rw [hheap]
    obtain ⟨v, hv, huser⟩ := h.looped hlooped
    refine ⟨v, ?_, huser⟩
    obtain ⟨_, _, hl⟩ | ⟨hnot, hl⟩ := hl
    · rwa [hl]
    · -- the last one stays
      obtain ⟨front, hfront⟩ := List.getLast?_eq_some_iff.mp hv
      have hne : v ≠ u := fun he => hnot ⟨hlooped, he ▸ hv⟩
      rw [hl, hfront, List.erase_append]
      split
      · exact List.getLast?_concat ..
      · rw [List.erase_of_not_mem (by simpa using Ne.symm hne)]
        exact List.getLast?_concat ..
  · have hright := h.right w
    cases hx : role w with
    | bystander => trivial
    | brings v =>
      rw [hx] at hright
      exact (congrFun hheap v).trans hright
    | makes v =>
      rw [hx] at hright
      exact ⟨(congrFun hheap v).trans hright.1, fun hin => hright.2 (hsub v hin)⟩
    | names v =>
      rw [hx] at hright
      exact ⟨(congrFun hheap v).trans hright.1, (congrFun hstatic v).trans hright.2⟩
    | works v =>
      rw [hx] at hright
      exact fun hv => hright ((congrFun hheap v).symm.trans hv)
    | removed v =>
      rw [hx] at hright
      refine ⟨fun hv => hright.1 ((congrFun hheap v).symm.trans hv), fun hv hin => ?_⟩
      exact hright.2 ((congrFun hheap v).symm.trans hv) (hsub v hin)
  · obtain ⟨hlooped, hlast, _⟩ | ⟨_, hl⟩ := hl
    · -- what is its own successor is the user's
      obtain ⟨v, hv, huser⟩ := h.looped hlooped
      obtain rfl : v = u := Option.some.inj (hv.symm.trans hlast)
      rw [hheap, huser] at hu
      cases hu
    · rw [hl]
      exact h.nodup.not_mem_erase

omit [DecidableEq θ] in
theorem Owned.declared (h : Owned r role) (hu : r.heap u = .allocated) (hnot : ∀ w, role w ≠ .names u) :
    Owned {r with static := Function.update r.static u false} role := by
  refine ⟨h.nodup, h.listed, fun v hv => ?_, h.looped, fun w => ?_, h.apart⟩
  · have hvu : v ≠ u := by
      rintro rfl
      rw [hu] at hv
      cases hv
    show Function.update r.static u false v = true
    rw [Function.update_of_ne hvu]
    exact h.user v hv
  · have hright := h.right w
    have hw := hnot w
    cases hx : role w with
    | names v =>
      rw [hx] at hright hw
      have hvu : v ≠ u := fun he => hw (congrArg Role.names he)
      refine ⟨hright.1, ?_⟩
      show Function.update r.static u false v = true
      rw [Function.update_of_ne hvu]
      exact hright.2
    | _ =>
      rw [hx] at hright
      exact hright

omit [DecidableEq τ] [DecidableEq θ] in
/-- What is going to be freed is nobody else's. -/
theorem Owned.removed_alone (h : Owned r role) (ht : role t = .removed u) (hstatic : r.static u = false)
    (halone : ∀ w ≠ t, (role w).locks = false) :
    r.heap u = .allocated ∧ u ∉ r.list ∧ ∀ w ≠ t, (role w).block ≠ some u := by
  have hright := h.right t
  rw [ht] at hright
  have hu : r.heap u ≠ .free ∧ (r.heap u = .allocated → u ∉ r.list) := hright
  have hheap : r.heap u = .allocated := by
    cases hb : r.heap u with
    | user =>
      rw [h.user u hb] at hstatic
      cases hstatic
    | free => exact absurd hb hu.1
    | allocated => rfl
  refine ⟨hheap, hu.2 hheap, fun w hw hb => ?_⟩
  have hrightw := h.right w
  cases hx : role w with
  | bystander | brings v =>
    rw [hx] at hb
    cases hb
  | makes v =>
    rw [hx] at hb
    cases hb
    have hne := h.makes_ne hx (Ne.symm hw)
    rw [ht] at hne
    exact hne rfl
  | names v =>
    rw [hx] at hb hrightw
    cases hb
    rw [hrightw.2] at hstatic
    cases hstatic
  | works v | removed v =>
    have hfalse := halone w hw
    rw [hx] at hfalse
    cases hfalse

/-- No step spoils the ownership, if whoever frees what was on the list is the only one that
works on what is on it. -/
theorem owned_step (h : Owned r role) (hs : Step r (role t) r' x)
    (halone : (role t).locks = true → ∀ w ≠ t, (role w).locks = false) :
    Owned r' (Function.update role t x) := by
  generalize hrole : role t = y at hs
  have hright := h.right t
  rw [hrole] at hright
  have hnobody : ∀ u, y = .makes u → ∀ w, (Function.update role t .bystander w).block ≠ some u := by
    rintro u rfl w
    by_cases hw : w = t
    · rw [hw, Function.update_self]
      exact fun he => by cases he
    · rw [Function.update_of_ne hw]
      exact h.makes_ne hrole hw
  have hleft : Owned r (Function.update role t .bystander) := h.leaves
  have hturn : ∀ z, Function.update (Function.update role t .bystander) t z = Function.update role t z :=
    fun z => Function.update_idem ..
  cases hs with
  | keeps y => rwa [← hrole, Function.update_eq_self]
  | leaves => exact hleft
  | finds y hu =>
    exact h.turns (h.listed _ hu) fun w _ =>
      ⟨apart_of_ne (fun _ he => by cases he) fun _ he => (by cases he), h.apart_listed hu w⟩
  | brings hu =>
    exact h.turns hu fun w _ => ⟨apart_of_ne (fun _ he => by cases he) fun _ he => (by cases he), apart_of_block rfl⟩
  | @brought _ u _ ha =>
    have hu : r.heap u = .user := hright
    exact hleft.appended ha (fun he => by rw [hu] at he; cases he) (.inl hu)
  | @allocates u hu =>
    have hlisted : u ∉ r.list := fun hin => h.listed u hin hu
    have howned := hleft.setHeap (b := .allocated) hlisted (fun he => by rw [hu] at he; cases he)
      (fun he => by cases he) (hleft.free_nobody hu)
    rw [← hturn]
    refine howned.turns ⟨setHeap_self .., hlisted⟩ fun w hw => ?_
    rw [Function.update_of_ne hw]
    exact apart_makes (h.free_nobody hu w)
  | @accepted _ u ha =>
    have hu : r.heap u = .allocated ∧ u ∉ r.list := hright
    have howned := hleft.appended ha (fun he => by rw [hu.1] at he; cases he) (.inr ⟨hu.2, hnobody u rfl⟩)
    rw [← hturn]
    refine howned.turns ⟨(congrFun ha.1 u).trans hu.1, by rw [ha.2.1, Function.update_self]⟩ fun w hw => ?_
    rw [Function.update_of_ne hw]
    exact apart_names (h.makes_ne hrole hw)
  | @refused _ u ha =>
    have hu : r.heap u = .allocated ∧ u ∉ r.list := hright
    have howned := hleft.appended ha (fun he => by rw [hu.1] at he; cases he) (.inr ⟨hu.2, hnobody u rfl⟩)
    have hl : r'.list = r.list := by
      obtain ⟨_, _, ⟨hin, _⟩ | ⟨_, _, ⟨_, hl⟩ | ⟨he, _⟩⟩⟩ := ha
      · exact absurd hin hu.2
      · exact hl
      · cases he
    rw [← hturn]
    refine howned.turns ⟨(congrFun ha.1 u).trans hu.1, by rw [hl]; exact hu.2⟩ fun w hw => ?_
    rw [Function.update_of_ne hw]
    exact apart_makes (h.makes_ne hrole hw)
  | @named u =>
    have hu : r.heap u = .allocated ∧ r.static u = true := hright
    refine hleft.declared hu.1 fun w => ?_
    by_cases hw : w = t
    · rw [hw, Function.update_self]
      exact fun he => by cases he
    · rw [Function.update_of_ne hw]
      exact (h.apart t w (Ne.symm hw) u).2 hrole
  | @discards u =>
    have hu : r.heap u = .allocated ∧ u ∉ r.list := hright
    exact hleft.setHeap hu.2 (fun he => by rw [hu.1] at he; cases he) (fun he => by cases he) (hnobody u rfl)
  | @takesOff _ u ht =>
    obtain ⟨howned, hout⟩ := h.takenOff ht
    have hu : r.heap u ≠ .free := hright
    refine howned.turns ⟨by rw [ht.1]; exact hu, hout⟩ fun w hw => ?_
    refine ⟨apart_of_ne (fun _ he => by cases he) fun _ he => (by cases he), fun v => ⟨fun he => ?_, fun _ he => by cases he⟩⟩
    have hne := h.makes_ne he (Ne.symm hw)
    rwa [hrole] at hne
  | @frees u hstatic =>
    obtain ⟨hheap, hout, hothers⟩ := h.removed_alone hrole hstatic (halone (by rw [hrole]; rfl))
    refine hleft.setHeap hout (fun he => by rw [hheap] at he; cases he) (fun he => by cases he) fun w => ?_
    by_cases hw : w = t
    · rw [hw, Function.update_self]
      exact fun he => by cases he
    · rw [Function.update_of_ne hw]
      exact hothers w hw

end Register

end

end V2lin.Lifecycle
