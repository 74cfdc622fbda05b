import V2lin.Watchdog.Timing
import V2lin.Threads.Linearize
import Mathlib.Data.Finset.Card

/-! What a watchdog is for.

A timer counts the visits of the passes down from the period of its last start. The visit
that counts to zero makes a call of the timeout function due, and the pass that made it
makes the call some time later. -/
namespace V2lin.Watchdog
open Threads

@[ext] structure Timer (θ φ : Type) where
  listed : Bool
  remaining : ℕ
  func : Option φ
  parm : ℤ
  /-- The passes that have found a call due and not made it yet. -/
  due : θ → Bool

/-- What happens at a timer. -/
inductive Deed (θ φ : Type) where
  | opens
  | refuse (t : θ) (op : Op φ)
  | start (t : θ) (delay : ℤ) (f : Option φ) (parm : ℤ)
  | cancel (t : θ)
  | tick (t : θ) (fires : Bool)
  | call (t : θ) (f : φ) (parm : ℤ)
  | close (t : θ)
  deriving DecidableEq

section
variable {θ φ : Type}

/-- The call that a deed settles. -/
def Deed.settles : Deed θ φ → Option (θ × Op φ × Status)
  | .refuse t op => some (t, op, .objIdError)
  | .start t delay f parm => some (t, .start delay f parm, .ok)
  | .cancel t => some (t, .cancel, .ok)
  | .close t => some (t, .delete, .ok)
  | _ => none

namespace Timer

/-- A timer that has just been made: its function is whatever the memory held. -/
def made (v : V2ptWdog φ) : Timer θ φ := ⟨false, 0, v.timeoutFunc, v.timeoutParm, fun _ => false⟩

variable [DecidableEq θ] [DecidableEq φ]

/-- What is called of a timer that has been closed is anything. -/
def act : Deed θ φ → Timer θ φ → Option (Timer θ φ)
  | .opens, d => if d.listed then none else some {d with listed := true}
  | .refuse _ _, d => if d.listed then none else some d
  | .start _ delay f parm, d =>
    if d.listed then some {d with remaining := (period delay).toNat, func := f, parm := parm} else none
  | .cancel _, d => if d.listed then some {d with remaining := 0} else none
  | .tick t fires, d =>
    if d.listed ∧ d.due t = false ∧ fires = decide (d.remaining = 1 ∧ d.func.isSome) then
      some {d with
        remaining := d.remaining - 1
        due := if fires then Function.update d.due t true else d.due}
    else none
  | .call t f parm, d =>
    if d.due t ∧ (d.listed → d.func = some f ∧ d.parm = parm) then
      some {d with due := Function.update d.due t false}
    else none
  | .close _, d => if d.listed then some {d with listed := false} else none

end Timer

/-! ### Laws -/

/-- The last start. -/
def latest : List (Deed θ φ) → Option (Start φ)
  | [] => none
  | .start _ delay f parm :: _ => some ⟨delay, f, parm⟩
  | _ :: rest => latest rest

/-- The last start, unless it has been cancelled since, and the visits since. -/
def counting : List (Deed θ φ) → Option (Start φ × ℕ)
  | [] => none
  | .start _ delay f parm :: _ => some (⟨delay, f, parm⟩, 0)
  | .cancel _ :: _ => none
  | .tick _ _ :: rest => (counting rest).map fun a => (a.1, a.2 + 1)
  | _ :: rest => counting rest

/-- Whether the next visit makes a call due. -/
def Expires (deeds : List (Deed θ φ)) : Prop :=
  ∃ a n, counting deeds = some (a, n) ∧ (n + 1 : ℤ) = period a.delay ∧ a.f.isSome = true

def Deed.isStart : Deed θ φ → Bool
  | .start _ _ _ _ => true
  | _ => false

def Deed.isCall : Deed θ φ → Bool
  | .call _ _ _ => true
  | _ => false

def Deed.isClose : Deed θ φ → Bool
  | .close _ => true
  | _ => false

/-- What a timer holds after some deeds. -/
structure Timer.Tells (d : Timer θ φ) (deeds : List (Deed θ φ)) : Prop where
  ticks : ∀ a n, counting deeds = some (a, n) → d.remaining = (period a.delay).toNat - n
  idle : counting deeds = none → d.remaining = 0
  args : ∀ a, latest deeds = some a → d.func = a.f ∧ d.parm = a.parm
  started : ∀ t, d.due t = true → ∃ a, latest deeds = some a

variable {e : Deed θ φ} {deeds later : List (Deed θ φ)} {d d' : Timer θ φ} {v : V2ptWdog φ} {t : θ}

theorem latest_of_counting {a : Start φ} {n : ℕ} (h : counting deeds = some (a, n)) : latest deeds = some a := by
  induction deeds generalizing n with
  | nil => cases h
  | cons e deeds ih =>
    cases e with
    | start t delay f parm =>
      cases h
      rfl
    | cancel t => cases h
    | tick t fires =>
      obtain ⟨⟨b, k⟩, hb, he⟩ := Option.map_eq_some_iff.mp h
      cases he
      exact ih hb
    | _ => exact ih h

variable [DecidableEq θ] [DecidableEq φ]

theorem Timer.Tells.step (h : d.Tells deeds) (he : Timer.act e d = some d') : d'.Tells (e :: deeds) := by
  cases e with
  | start t delay f parm =>
    obtain ⟨_, ⟨⟩⟩ := Option.ite_none_right_eq_some.mp he
    refine ⟨fun a n ha => ?_, fun hno => ?_, fun a ha => ?_, fun u hu => ⟨_, rfl⟩⟩
    · cases ha
      exact (Nat.sub_zero _).symm
    · cases hno
    · cases ha
      exact ⟨rfl, rfl⟩
  | cancel t =>
    obtain ⟨_, ⟨⟩⟩ := Option.ite_none_right_eq_some.mp he
    refine ⟨fun a n ha => ?_, fun _ => rfl, h.args, h.started⟩
    cases ha
  | tick t fires =>
    obtain ⟨⟨_, _, hfires⟩, ⟨⟩⟩ := Option.ite_none_right_eq_some.mp he
    refine ⟨fun a n ha => ?_, fun hno => ?_, h.args, fun u hu => ?_⟩
    · obtain ⟨⟨b, k⟩, hb, heq⟩ := Option.map_eq_some_iff.mp ha
      cases heq
      have hticks : d.remaining = (period b.delay).toNat - k := h.ticks b k hb
      show d.remaining - 1 = (period b.delay).toNat - (k + 1)
      omega
    · have := h.idle (Option.map_eq_none_iff.mp hno)
      show d.remaining - 1 = 0
      omega
    · cases hc : counting deeds with
      | some a =>
        have ha : latest deeds = some a.1 := latest_of_counting hc
        exact ⟨a.1, ha⟩
      | none =>
        have hzero := h.idle hc
        have hquiet : fires = false := by rw [hfires, hzero]; rfl
        exact h.started u (by simpa [hquiet] using hu)
  | call t f parm =>
    obtain ⟨_, ⟨⟩⟩ := Option.ite_none_right_eq_some.mp he
    refine ⟨h.ticks, h.idle, h.args, fun u hu => h.started u ?_⟩
    by_cases hut : u = t
    · simp [hut] at hu
    · simpa [hut] using hu
  | opens =>
    obtain ⟨_, ⟨⟩⟩ := Option.ite_none_left_eq_some.mp he
    exact ⟨h.ticks, h.idle, h.args, h.started⟩
  | refuse t op =>
    obtain ⟨_, ⟨⟩⟩ := Option.ite_none_left_eq_some.mp he
    exact ⟨h.ticks, h.idle, h.args, h.started⟩
  | close t =>
    obtain ⟨_, ⟨⟩⟩ := Option.ite_none_right_eq_some.mp he
    exact ⟨h.ticks, h.idle, h.args, h.started⟩

theorem Timer.tells (h : replay Timer.act (.made v) deeds = some d) : d.Tells deeds := by
  refine replay_invariant (fun deeds d => Timer.Tells d deeds) ?_ (fun _ _ _ _ _ hold he => hold.step he) h
  refine ⟨fun a n ha => ?_, fun _ => rfl, fun a ha => ?_, fun t ht => ?_⟩
  · cases ha
  · cases ha
  · cases ht

/-- A visit makes a call due if it is the one that the period of the last start ends with. -/
theorem tick_fires_iff {fires : Bool}
    (h : replay Timer.act (.made v) (.tick t fires :: deeds) = some d) : fires = true ↔ Expires deeds := by
  obtain ⟨d₀, hd₀, he⟩ := replay_cons.mp h
  obtain ⟨⟨_, _, rfl⟩, _⟩ := Option.ite_none_right_eq_some.mp he
  have htells := Timer.tells hd₀
  rw [decide_eq_true_eq]
  unfold Expires
  constructor
  · rintro ⟨hone, hfunc⟩
    cases hc : counting deeds with
    | none =>
      rw [htells.idle hc] at hone
      cases hone
    | some c =>
      obtain ⟨a, n⟩ := c
      have hticks := htells.ticks a n hc
      refine ⟨a, n, rfl, by omega, ?_⟩
      rw [← (htells.args a (latest_of_counting hc)).1]
      exact hfunc
  · rintro ⟨a, n, hc, hn, hf⟩
    have hticks := htells.ticks a n hc
    refine ⟨by omega, ?_⟩
    rw [(htells.args a (latest_of_counting hc)).1]
    exact hf

/-- What a timer has called and will call: every start is good for one call. -/
structure Timer.Counts (d : Timer θ φ) (deeds : List (Deed θ φ)) (passes : Finset θ) : Prop where
  due : ∀ t, t ∈ passes ↔ d.due t = true
  calls : deeds.countP Deed.isCall + passes.card + min 1 d.remaining ≤ deeds.countP Deed.isStart

theorem Timer.Counts.step {passes : Finset θ} (h : d.Counts deeds passes) (he : Timer.act e d = some d') :
    ∃ passes', d'.Counts (e :: deeds) passes' := by
  have hcalls := h.calls
  cases e with
  | start t delay f parm =>
    obtain ⟨_, ⟨⟩⟩ := Option.ite_none_right_eq_some.mp he
    refine ⟨passes, h.due, ?_⟩
    have hmin : min 1 (period delay).toNat ≤ 1 := Nat.min_le_left ..
    simp only [List.countP_cons, Deed.isCall, Deed.isStart, Bool.false_eq_true, if_false, if_true]
    omega
  | cancel t =>
    obtain ⟨_, ⟨⟩⟩ := Option.ite_none_right_eq_some.mp he
    refine ⟨passes, h.due, ?_⟩
    simp only [List.countP_cons, Deed.isCall, Deed.isStart, Bool.false_eq_true, if_false]
    omega
  | tick t fires =>
    obtain ⟨⟨_, hout, hfires⟩, ⟨⟩⟩ := Option.ite_none_right_eq_some.mp he
    cases fires with
    | false =>
      refine ⟨passes, h.due, ?_⟩
      simp only [List.countP_cons, Deed.isCall, Deed.isStart, Bool.false_eq_true, if_false]
      omega
    | true =>
      have hone : d.remaining = 1 := (of_decide_eq_true hfires.symm).1
      have hnew : t ∉ passes := fun hin => by
        rw [h.due, hout] at hin
        cases hin
      refine ⟨insert t passes, fun u => ?_, ?_⟩
      · rw [Finset.mem_insert, h.due]
        by_cases hu : u = t <;> simp [hu]
      · simp only [List.countP_cons, Deed.isCall, Deed.isStart, Finset.card_insert_of_notMem hnew, Bool.false_eq_true,
          if_false]
        omega
  | call t f parm =>
    obtain ⟨⟨hdue, _⟩, ⟨⟩⟩ := Option.ite_none_right_eq_some.mp he
    have hin : t ∈ passes := (h.due t).mpr hdue
    have hcard := Finset.card_erase_add_one hin
    refine ⟨passes.erase t, fun u => ?_, ?_⟩
    · rw [Finset.mem_erase, h.due]
      by_cases hu : u = t <;> simp [hu]
    · simp only [List.countP_cons, Deed.isCall, Deed.isStart, Bool.false_eq_true, if_false, if_true]
      omega
  | opens =>
    obtain ⟨_, ⟨⟩⟩ := Option.ite_none_left_eq_some.mp he
    exact ⟨passes, h.due, hcalls⟩
  | refuse t op =>
    obtain ⟨_, ⟨⟩⟩ := Option.ite_none_left_eq_some.mp he
    exact ⟨passes, h.due, hcalls⟩
  | close t =>
    obtain ⟨_, ⟨⟩⟩ := Option.ite_none_right_eq_some.mp he
    exact ⟨passes, h.due, hcalls⟩

/-- The calls made and the calls due are no more than the starts. -/
theorem Timer.counts (h : replay Timer.act (.made v) deeds = some d) : ∃ passes, d.Counts deeds passes := by
  refine replay_invariant (fun deeds d => ∃ passes, Timer.Counts d deeds passes) ?_ ?_ h
  · exact ⟨∅, fun t => by simp [Timer.made], Nat.zero_le _⟩
  · rintro e deeds b c _ ⟨passes, hold⟩ he
    exact hold.step he

/-- A timer that has been started and not closed is open. -/
theorem Timer.open_of_latest (h : replay Timer.act (.made v) deeds = some d) {a : Start φ} (ha : latest deeds = some a)
    (hclose : ∀ e ∈ deeds, e.isClose = false) : d.listed = true := by
  refine replay_invariant (fun deeds d => ∀ a, latest deeds = some a → (∀ e ∈ deeds, e.isClose = false) →
    d.listed = true) (fun a ha => by cases ha) ?_ h a ha hclose
  intro e deeds d d' _ hold he a ha hclose
  have hrest : ∀ e ∈ deeds, e.isClose = false := fun e he => hclose e (List.mem_cons_of_mem _ he)
  cases e with
  | start t delay f parm =>
    obtain ⟨hlisted, ⟨⟩⟩ := Option.ite_none_right_eq_some.mp he
    exact hlisted
  | cancel t =>
    obtain ⟨_, ⟨⟩⟩ := Option.ite_none_right_eq_some.mp he
    exact hold a ha hrest
  | tick t fires =>
    obtain ⟨_, ⟨⟩⟩ := Option.ite_none_right_eq_some.mp he
    exact hold a ha hrest
  | call t f parm =>
    obtain ⟨_, ⟨⟩⟩ := Option.ite_none_right_eq_some.mp he
    exact hold a ha hrest
  | opens =>
    obtain ⟨_, ⟨⟩⟩ := Option.ite_none_left_eq_some.mp he
    rfl
  | refuse t op =>
    obtain ⟨_, ⟨⟩⟩ := Option.ite_none_left_eq_some.mp he
    exact hold a ha hrest
  | close t => cases hclose _ (List.mem_cons_self ..)

/-- What is called before the timer is closed is the function of the last start. -/
theorem call_of_latest {f : φ} {parm : ℤ}
    (h : replay Timer.act (.made v) (.call t f parm :: deeds) = some d) (hclose : ∀ e ∈ deeds, e.isClose = false) :
    ∃ a, latest deeds = some a ∧ a.f = some f ∧ a.parm = parm := by
  obtain ⟨d₀, hd₀, he⟩ := replay_cons.mp h
  obtain ⟨⟨hdue, hargs⟩, _⟩ := Option.ite_none_right_eq_some.mp he
  have htells := Timer.tells hd₀
  obtain ⟨a, ha⟩ := htells.started t hdue
  obtain ⟨hf, hparm⟩ := htells.args a ha
  obtain ⟨hfunc, hp⟩ := hargs (Timer.open_of_latest hd₀ ha hclose)
  exact ⟨a, ha, hf.symm.trans hfunc, hparm.symm.trans hp⟩

/-- The visits make due what the last start asks for, every call before the deletion is one
of its function, and with those `pending` there is at most one call for each start. -/
structure TimeoutsDue (deeds : List (Deed θ φ)) (pending : ℕ) : Prop where
  fires : ∀ after t fires before, deeds = after ++ .tick t fires :: before → (fires = true ↔ Expires before)
  calls : ∀ after t f parm before, deeds = after ++ .call t f parm :: before →
    (∀ e ∈ before, e.isClose = false) → ∃ a, latest before = some a ∧ a.f = some f ∧ a.parm = parm
  once : deeds.countP Deed.isCall + pending ≤ deeds.countP Deed.isStart

theorem Timer.Counts.timeoutsDue {passes : Finset θ} (hc : d.Counts deeds passes)
    (h : replay Timer.act (.made v) deeds = some d) : TimeoutsDue deeds (passes.card + min 1 d.remaining) where
  fires after t fires before he := by
    subst he
    obtain ⟨c, hc, _⟩ := replay_append.mp h
    exact tick_fires_iff hc
  calls after t f parm before he hclose := by
    subst he
    obtain ⟨c, hc, _⟩ := replay_append.mp h
    exact call_of_latest hc hclose
  once := by
    have hcalls := hc.calls
    omega

end

end V2lin.Watchdog
