import V2lin.Watchdog.Locks
import Mathlib.Algebra.Order.Ring.Int
import Mathlib.Data.List.Basic

/-! When a watchdog calls its timeout function.

The history of a run is what was done to the watchdogs: they were started, cancelled,
deleted and visited, and timeout functions were called. If one call or pass is made at a
time, the history alone says which visit calls what: the visit that makes the count since
the last `wdStart` equal to its `period`. -/
namespace V2lin.Watchdog
open Threads

/-! ### Histories -/

inductive Event (ι φ : Type) where
  | start (id : ι) (delay : ℤ) (f : Option φ) (parm : ℤ)
  | cancel (id : ι)
  | delete (id : ι)
  | visit (id : ι)
  | invoke (id : ι) (f : φ) (parm : ℤ)
  deriving DecidableEq

/-- The visits that a delay lasts. -/
def period (delay : ℤ) : ℤ := max 1 (delay.tdiv 2)

/-- The arguments of a `wdStart`. -/
structure Start (φ : Type) where
  delay : ℤ
  f : Option φ
  parm : ℤ

section
variable {ι φ : Type} [DecidableEq ι]

/-- The last `wdStart` of a watchdog, unless it has been cancelled or deleted since, and
the visits since. Histories have the newest event first. -/
def standing (id : ι) : List (Event ι φ) → Option (Start φ × ℕ)
  | [] => none
  | .start j delay f parm :: rest => if j = id then some (⟨delay, f, parm⟩, 0) else standing id rest
  | .cancel j :: rest => if j = id then none else standing id rest
  | .delete j :: rest => if j = id then none else standing id rest
  | .visit j :: rest => if j = id then (standing id rest).map fun a => (a.1, a.2 + 1) else standing id rest
  | .invoke _ _ _ :: rest => standing id rest

/-- The call that is due at the visit just made. -/
def due (id : ι) (h : List (Event ι φ)) : Option (φ × ℤ) :=
  match standing id h with
  | some (a, n) => if (n : ℤ) = period a.delay then a.f.map fun f => (f, a.parm) else none
  | none => none

variable {id : ι} {h mid before : List (Event ι φ)} {e : Event ι φ}

theorem standing_of_due {f : φ} {parm : ℤ} (hd : due id h = some (f, parm)) :
    ∃ a n, standing id h = some (a, n) ∧ (n : ℤ) = period a.delay ∧ a.f = some f ∧ a.parm = parm := by
  unfold due at hd
  split at hd
  · rename_i a n hs
    split at hd
    · obtain ⟨g, hg, he⟩ := Option.map_eq_some_iff.mp hd
      cases he
      exact ⟨a, n, hs, by assumption, hg, rfl⟩
    · cases hd
  · cases hd

theorem due_isSome {a : Start φ} {n : ℕ} (hs : standing id h = some (a, n)) :
    (due id h).isSome = true ↔ (n : ℤ) = period a.delay ∧ a.f.isSome = true := by
  simp only [due, hs]
  split <;> simp [*]

/-- Without a `wdStart` in between the standing start is the old one, if any, some visits
later. -/
theorem standing_append (hno : ∀ delay f parm, Event.start id delay f parm ∉ mid) :
    standing id (mid ++ before) = none ∨ ∃ k, (∀ rest, mid = .visit id :: rest → 0 < k) ∧
      standing id (mid ++ before) = (standing id before).map fun a => (a.1, a.2 + k) := by
  induction mid with
  | nil => exact .inr ⟨0, nofun, by simp⟩
  | cons e mid ih =>
    have hrest := ih fun delay f parm hin => hno delay f parm (List.mem_cons_of_mem _ hin)
    have hkeep : standing id (e :: mid ++ before) = standing id (mid ++ before) → (∀ rest, e :: mid ≠ .visit id :: rest) →
        standing id (e :: mid ++ before) = none ∨ ∃ k, (∀ rest, e :: mid = .visit id :: rest → 0 < k) ∧
          standing id (e :: mid ++ before) = (standing id before).map fun a => (a.1, a.2 + k) := by
      intro hsame hne
      rw [hsame]
      exact hrest.imp_right fun ⟨k, _, hk⟩ => ⟨k, fun rest he => absurd he (hne rest), hk⟩
    cases e with
    | start j delay f parm =>
      have hj : j ≠ id := by
        rintro rfl
        exact hno delay f parm (List.mem_cons_self ..)
      exact hkeep (if_neg hj) (fun _ => nofun)
    | cancel j =>
      by_cases hj : j = id
      · exact .inl (if_pos hj)
      · exact hkeep (if_neg hj) (fun _ => nofun)
    | delete j =>
      by_cases hj : j = id
      · exact .inl (if_pos hj)
      · exact hkeep (if_neg hj) (fun _ => nofun)
    | visit j =>
      by_cases hj : j = id
      · have hone : standing id (.visit j :: mid ++ before) = (standing id (mid ++ before)).map fun a => (a.1, a.2 + 1) :=
          if_pos hj
        rw [hone]
        obtain hnone | ⟨k, _, hk⟩ := hrest
        · exact .inl (by rw [hnone]; rfl)
        · refine .inr ⟨k + 1, fun _ _ => Nat.succ_pos k, ?_⟩
          rw [hk, Option.map_map]
          rfl
      · exact hkeep (if_neg hj) fun rest he => hj (Event.visit.inj (List.cons.inj he).1)
    | invoke j f parm => exact hkeep rfl (fun _ => nofun)

/-- The calls of a history are the ones due, each right after the visit it is due at. -/
def Punctual (h : List (Event ι φ)) : Prop :=
  ∀ later e before, h = later ++ e :: before → ∀ id f parm,
    e = .invoke id f parm ↔ before.head? = some (.visit id) ∧ due id before = some (f, parm)

theorem Punctual.nil : Punctual ([] : List (Event ι φ)) := by
  intro later e before he
  cases later <;> cases he

theorem Punctual.cons (hp : Punctual h)
    (he : ∀ id f parm, e = .invoke id f parm ↔ h.head? = some (.visit id) ∧ due id h = some (f, parm)) :
    Punctual (e :: h) := by
  intro later e' before heq
  cases later with
  | nil =>
    obtain ⟨rfl, rfl⟩ := List.cons.inj heq
    exact he
  | cons e'' later => exact hp later e' before (List.cons.inj heq).2

/-- A watchdog that has called, or was cancelled or deleted, does not call before it is
started again. -/
theorem Punctual.start_between (hp : Punctual h) {later : List (Event ι φ)} {f : φ} {parm : ℤ}
    (heq : h = later ++ .invoke id f parm :: (mid ++ e :: before))
    (he : e = .cancel id ∨ e = .delete id ∨ ∃ g q, e = .invoke id g q) :
    ∃ delay g q, Event.start id delay g q ∈ mid := by
  by_contra hno
  simp only [not_exists] at hno
  obtain ⟨hvisit, hdue⟩ := (hp later _ _ heq id f parm).mp rfl
  obtain ⟨a, n, hs, hn, _⟩ := standing_of_due hdue
  obtain hnone | ⟨k, hk, hmap⟩ := (standing_append hno : standing id (mid ++ e :: before) = none ∨ _)
  · rw [hnone] at hs
    cases hs
  · rw [hmap] at hs
    obtain rfl | rfl | ⟨g, q, rfl⟩ := he
    · simp [standing] at hs
    · simp [standing] at hs
    · obtain ⟨_, hdue'⟩ := (hp (later ++ .invoke id f parm :: mid) _ before (by simp [heq]) id g q).mp rfl
      obtain ⟨b, l, hb, hl, _⟩ := standing_of_due hdue'
      have hpos : 0 < k := by
        cases mid with
        | nil => cases hvisit
        | cons e' rest =>
          cases hvisit
          exact hk rest rfl
      have hsame : standing id (.invoke id g q :: before) = some (b, l) := hb
      rw [hsame] at hs
      cases hs
      -- both counts would be the period of the same start
      simp only [Nat.cast_add] at hn
      omega

/-! ### The control block tells the history -/

/-- What a control block holds after a history. -/
def Tells (h : List (Event ι φ)) (id : ι) (v : V2ptWdog φ) : Prop :=
  match standing id h with
  | some (a, n) => v.ticksRemaining = max 0 (period a.delay - n) ∧ v.timeoutFunc = a.f ∧ v.timeoutParm = a.parm
  | none => v.ticksRemaining = 0

variable {v : V2ptWdog φ}

theorem Tells.congr {h' : List (Event ι φ)} (ht : Tells h id v) (hs : standing id h' = standing id h) : Tells h' id v := by
  unfold Tells at ht ⊢
  rwa [hs]

theorem tells_zero (hs : standing id h = none) (hv : v.ticksRemaining = 0) : Tells h id v := by
  unfold Tells
  rwa [hs]

theorem tells_start (delay : ℤ) (f : Option φ) (parm : ℤ) :
    Tells (.start id delay f parm :: h) id (v.start delay f parm) := by
  have hs : standing id (.start id delay f parm :: h) = some (⟨delay, f, parm⟩, 0) := if_pos rfl
  unfold Tells
  rw [hs]
  refine ⟨?_, rfl, rfl⟩
  simp only [V2ptWdog.start, period]
  split <;> omega

/-- A visit counts down, and the timeout function is to be called if its call is due. -/
theorem Tells.visit (ht : Tells h id v) :
    Tells (.visit id :: h) id v.tick.1 ∧ (v.tick.2 = true ↔ (due id (.visit id :: h)).isSome = true) := by
  have hs : standing id (.visit id :: h) = (standing id h).map fun a => (a.1, a.2 + 1) := if_pos rfl
  cases ho : standing id h with
  | none =>
    rw [ho] at hs
    unfold Tells at ht ⊢
    simp only [ho] at ht
    simp [hs, due, V2ptWdog.tick, ht]
  | some a =>
    obtain ⟨a, n⟩ := a
    rw [ho] at hs
    rw [due_isSome hs]
    unfold Tells at ht ⊢
    simp only [ho] at ht
    obtain ⟨hticks, hf, hparm⟩ := ht
    simp only [hs, Option.map_some, V2ptWdog.tick]
    split
    · refine ⟨⟨?_, hf, hparm⟩, ?_⟩
      · simp only [Nat.cast_add, Nat.cast_one]
        omega
      · simp only [Nat.cast_add, Nat.cast_one, hf, decide_eq_true_eq]
        refine and_congr_left fun _ => ?_
        omega
    · refine ⟨⟨?_, hf, hparm⟩, ?_⟩
      · simp only [Nat.cast_add, Nat.cast_one]
        omega
      · simp only [Nat.cast_add, Nat.cast_one, Bool.false_eq_true, false_iff, not_and]
        intro hn
        omega

theorem Tells.due {f : φ} {parm : ℤ} (ht : Tells h id v) (hd : due id h = some (f, parm)) :
    v.timeoutFunc = some f ∧ v.timeoutParm = parm := by
  obtain ⟨a, n, hs, _, hf, hparm⟩ := standing_of_due hd
  unfold Tells at ht
  simp only [hs] at ht
  exact ⟨ht.2.1.trans hf, ht.2.2.trans hparm⟩

/-! ### The history of a run -/

/-- What the code at a point does to a watchdog. -/
def eventAt (p : Pc ι φ) (m : Mem ι φ) : Option (Event ι φ) :=
  match p with
  | .startSet _ delay f parm id => some (.start id delay f parm)
  | .cancelZero _ id => some (.cancel id)
  | .deleteUnlink _ id => some (.delete id)
  | .tickCount id => some (.visit id)
  | .tickCall id _ => (m.wdog id).timeoutFunc.map fun f => .invoke id f (m.wdog id).timeoutParm
  | _ => none

variable {θ : Type}

def event (x : WdogTransition θ ι φ) : Option (Event ι φ) := eventAt (x.pre.ctl x.thread).point x.pre.mem

/-- The history of a run. -/
def history (tr : List (WdogTransition θ ι φ)) : List (Event ι φ) := tr.filterMap event

/-- While the step is made every other thread is outside the library. -/
def Alone (x : WdogTransition θ ι φ) : Prop := ∀ u ≠ x.thread, Resting .task (x.pre.ctl u).point

/-- A history goes on with what is done next, if anything is. -/
def record (e : Option (Event ι φ)) (h : List (Event ι φ)) : List (Event ι φ) :=
  match e with
  | some e => e :: h
  | none => h

omit [DecidableEq ι] in
theorem history_cons (x : WdogTransition θ ι φ) (tr : List (WdogTransition θ ι φ)) :
    history (x :: tr) = record (event x) (history tr) := by
  simp only [history, List.filterMap_cons]
  cases event x <;> rfl

/-- What the control blocks hold after a history. -/
structure Kept (h : List (Event ι φ)) (m : Mem ι φ) : Prop where
  nodup : m.wdogList.Nodup
  listed : ∀ id ∈ m.wdogList, m.block id ≠ .fresh ∧ Tells h id (m.wdog id)
  fresh : ∀ id, m.block id = .fresh → standing id h = none

/-- What a thread at a point relies on. -/
def Placed (h : List (Event ι φ)) (m : Mem ι φ) : Pc ι φ → Prop
  | .linkLock _ id | .linkAppend _ id => id ∉ m.wdogList ∧ m.block id ≠ .fresh ∧ Tells h id (m.wdog id)
  | .validWdog _ id | .startSet _ _ _ _ id | .cancelZero _ id | .tickCount id => id ∈ m.wdogList
  | .deleteListLock _ id | .deleteUnlink _ id => id ∈ m.wdogList
  | .validUnlock _ id found => found = true → id ∈ m.wdogList
  | .tickUnlock id _ fires => h.head? = some (.visit id) ∧ (fires = true ↔ (due id h).isSome = true) ∧
      Tells h id (m.wdog id)
  | .tickCall id _ => h.head? = some (.visit id) ∧ (due id h).isSome = true ∧ Tells h id (m.wdog id)
  | _ => True

variable {p p' : Pc ι φ} {m m' : Mem ι φ} {t : θ}

omit [DecidableEq ι] in
theorem Resting.eventAt {frame : Frame ι} (hp : Resting frame p) : eventAt p m = none := by
  cases hp <;> rfl

theorem Resting.placed {frame : Frame ι} (hp : Resting frame p) : Placed h m p := by
  cases hp <;> trivial

theorem placed_passOn (next : Option ι) : Placed h m (passOn next : Pc ι φ) := by
  cases next <;> trivial

theorem placed_entry (use : Use ι φ) {found : Bool} (hin : found = true → id ∈ m.wdogList) :
    Placed h m (entry use id found) := by
  cases use with
  | call frame op =>
    cases found
    · trivial
    · cases op <;> exact hin rfl
  | tick =>
    cases found
    · trivial
    · exact hin rfl

/-- The locking instructions keep what a thread relies on. -/
theorem next_placed (hn : (code t p).Next p') (hp : Placed h m p) : Placed h m p' := by
  cases p
  case validUnlock use id found =>
    obtain rfl := hn
    exact placed_entry use hp
  case validWdog use id =>
    obtain rfl := hn
    exact fun _ => hp
  case tickUnlock id next fires =>
    obtain rfl := hn
    cases fires with
    | true => exact ⟨hp.1, hp.2.1.mp rfl, hp.2.2⟩
    | false => exact placed_passOn next
  all_goals first
    | exact hn.elim
    | (obtain rfl := hn; exact hp)

/-- Something is done to one watchdog of the list. -/
theorem Kept.change (hk : Kept h m) (hin : id ∈ m.wdogList) (hother : ∀ j ≠ id, standing j (e :: h) = standing j h)
    (ht : Tells (e :: h) id v) : Kept (e :: h) (m.setWdog id v) where
  nodup := hk.nodup
  listed j hj := by
    obtain ⟨hb, htells⟩ := hk.listed j hj
    refine ⟨hb, ?_⟩
    by_cases hji : j = id
    · subst hji
      rwa [Mem.setWdog_self]
    · rw [Mem.setWdog_of_ne m v hji]
      exact htells.congr (hother j hji)
  fresh j hj := by
    have hji : j ≠ id := by
      rintro rfl
      exact (hk.listed j hin).1 hj
    rw [hother j hji]
    exact hk.fresh j hj

/-- The blocks keep it, and what their thread relies on. -/
theorem Runs.timed (hr : Runs p m m' p') (hk : Kept h m) (hp : Placed h m p) :
    Kept (record (eventAt p m) h) m' ∧ Placed (record (eventAt p m) h) m' p' := by
  cases hr with
  | called op id hrest =>
    rw [hrest.eventAt]
    exact ⟨hk, trivial⟩
  | passed hrest =>
    rw [hrest.eventAt]
    exact ⟨hk, placed_passOn _⟩
  | finished hrest =>
    rw [hrest.eventAt]
    exact ⟨hk, placed_passOn _⟩
  | created id hrest hb =>
    rw [hrest.eventAt]
    have hout : id ∉ m.wdogList := fun hin => (hk.listed id hin).1 hb
    refine ⟨⟨hk.nodup, fun j hj => ?_, fun j hj => ?_⟩, hout, ?_, ?_⟩
    · have hji : j ≠ id := fun he => hout (he ▸ hj)
      simpa [record, Function.update_of_ne hji, Mem.setWdog_of_ne m _ hji] using hk.listed j hj
    · refine hk.fresh j ?_
      by_cases hji : j = id
      · rw [hji, hb]
      · simpa [Function.update_of_ne hji] using hj
    · simp
    · exact tells_zero (hk.fresh id hb) (by simp)
  | linked frame id =>
    obtain ⟨hout, hb, ht⟩ := hp
    refine ⟨⟨?_, fun j hj => ?_, hk.fresh⟩, trivial⟩
    · refine List.nodup_append.mpr ⟨hk.nodup, by simp, fun a ha b hb he => hout ?_⟩
      rw [← List.mem_singleton.mp hb, ← he]
      exact ha
    · obtain hj | hj := List.mem_append.mp hj
      · exact hk.listed j hj
      · rw [List.mem_singleton.mp hj]
        exact ⟨hb, ht⟩
  | found use hin => exact ⟨hk, hin⟩
  | notFound use hout => exact ⟨hk, nofun⟩
  | started frame delay f parm id =>
    exact ⟨hk.change hp (fun j hj => if_neg (Ne.symm hj)) (tells_start delay f parm), trivial⟩
  | cancelled frame id =>
    exact ⟨hk.change hp (fun j hj => if_neg (Ne.symm hj)) (tells_zero (if_pos rfl) rfl), trivial⟩
  | unlinked frame id =>
    have hother : ∀ j ≠ id, standing j (.delete id :: h) = standing j h := fun j hj => if_neg (Ne.symm hj)
    refine ⟨⟨hk.nodup.erase id, fun j hj => ?_, fun j hj => ?_⟩, trivial⟩
    · obtain ⟨hji, hj⟩ := (hk.nodup.mem_erase_iff).mp hj
      obtain ⟨hb, ht⟩ := hk.listed j hj
      exact ⟨hb, ht.congr (hother j hji)⟩
    · show standing j (.delete id :: h) = none
      by_cases hji : j = id
      · exact if_pos hji.symm
      · rw [hother j hji]
        exact hk.fresh j hj
  | freed frame id =>
    refine ⟨⟨hk.nodup, fun j hj => ⟨?_, (hk.listed j hj).2⟩, fun j hj => hk.fresh j ?_⟩, trivial⟩
    · by_cases hji : j = id
      · rw [hji]
        simp
      · simpa [Function.update_of_ne hji] using (hk.listed j hj).1
    · by_cases hji : j = id
      · rw [hji] at hj
        simp at hj
      · simpa [Function.update_of_ne hji] using hj
  | ticked id =>
    obtain ⟨htick, hfires⟩ := (hk.listed id hp).2.visit
    refine ⟨hk.change hp (fun j hj => if_neg (Ne.symm hj)) htick, rfl, hfires, ?_⟩
    rwa [Mem.setWdog_self]
  | @fired m f id next hf =>
    have he : eventAt (.tickCall id next) m = some (.invoke id f (m.wdog id).timeoutParm) := by simp [eventAt, hf]
    rw [he]
    exact ⟨⟨hk.nodup, fun j hj => ⟨(hk.listed j hj).1, (hk.listed j hj).2.congr rfl⟩, hk.fresh⟩, trivial⟩

omit [DecidableEq ι] in
theorem eventAt_visit (he : eventAt p m = some (.visit id)) : p = .tickCount id := by
  cases p <;> simp only [eventAt, reduceCtorEq, Option.some.injEq, Event.visit.injEq, Option.map_eq_some_iff,
    and_false, exists_false] at he
  case tickCount j => rw [he]

theorem Runs.visits (hr : Runs p m m' p') (he : eventAt p m = some (.visit id)) :
    ∃ next fires, p' = .tickUnlock id next fires := by
  have hp := eventAt_visit he
  cases hr with
  | called _ _ hrest => rw [hrest.eventAt] at he; cases he
  | created _ hrest => rw [hrest.eventAt] at he; cases he
  | passed hrest => rw [hrest.eventAt] at he; cases he
  | finished hrest => rw [hrest.eventAt] at he; cases he
  | ticked j =>
    cases hp
    exact ⟨_, _, rfl⟩
  | _ => cases hp

theorem Runs.invokes (hr : Runs p m m' p') {next : Option ι} (hp : p = .tickCall id next) :
    ∃ e, eventAt p m = some e := by
  cases hr with
  | called _ _ hrest => cases hrest <;> cases hp
  | created _ hrest => cases hrest <;> cases hp
  | passed hrest => cases hrest <;> cases hp
  | finished hrest => cases hrest <;> cases hp
  | fired _ _ hf => exact ⟨_, by rw [eventAt, hf]; rfl⟩
  | _ => cases hp

theorem Runs.not_tickUnlock (hr : Runs p m m' p') {next : Option ι} {fires : Bool} :
    p ≠ .tickUnlock id next fires := by
  intro hp
  cases hr with
  | called _ _ hrest => cases hrest <;> cases hp
  | created _ hrest => cases hrest <;> cases hp
  | passed hrest => cases hrest <;> cases hp
  | finished hrest => cases hrest <;> cases hp
  | _ => cases hp

/-! ### One call at a time -/

variable [DecidableEq θ] {s s' : WdogState θ ι φ} {tr : List (WdogTransition θ ι φ)}

/-- If a call is due, a thread is on its way to make it. -/
def Pending (h : List (Event ι φ)) (s : WdogState θ ι φ) : Prop :=
  ∀ id, h.head? = some (.visit id) → (due id h).isSome = true →
    ∃ t next, (s.ctl t).point = .tickUnlock id next true ∨ (s.ctl t).point = .tickCall id next

structure Timed (h : List (Event ι φ)) (s : WdogState θ ι φ) : Prop where
  kept : Kept h s.mem
  placed : ∀ t, Placed h s.mem (s.ctl t).point
  pending : Pending h s

omit [DecidableEq θ] in
theorem Initial.timed (hi : Initial s) : Timed [] s where
  kept := ⟨by rw [hi.wdogList]; exact .nil, by simp [hi.wdogList], fun _ _ => rfl⟩
  placed t := by
    rw [hi.idle t]
    trivial
  pending := nofun

omit [DecidableEq θ] in
/-- Whoever is on the way to a call that is due, it is the thread that moves. -/
theorem Timed.mover (hk : Timed h s) (halone : Alone ⟨s, t, s'⟩) (hhead : h.head? = some (.visit id))
    (hdue : (due id h).isSome = true) :
    ∃ next, (s.ctl t).point = .tickUnlock id next true ∨ (s.ctl t).point = .tickCall id next := by
  obtain ⟨u, next, hu⟩ := hk.pending id hhead hdue
  by_cases hut : u = t
  · exact ⟨next, hut ▸ hu⟩
  · have hrest := halone u hut
    obtain hp | hp := hu <;> simp only [hp] at hrest <;> cases hrest

theorem timed_step (hk : Timed h s) (hs : Step code t s s') (halone : Alone ⟨s, t, s'⟩) :
    Timed (record (event ⟨s, t, s'⟩) h) s' := by
  have hresting : ∀ u ≠ t, Resting .task (s'.ctl u).point := by
    intro u hu
    rw [hs.ctl_other hu]
    exact halone u hu
  obtain ⟨hm, hnoblock, hpoint⟩ | ⟨p, p', hp, hp', hr, _⟩ := step_cases hs
  · have hnone : event ⟨s, t, s'⟩ = none := by
      show eventAt (s.ctl t).point s.mem = none
      cases hc : (s.ctl t).point <;> first
        | rfl
        | exact (hnoblock _ (by rw [hc]; rfl)).elim
    rw [hnone]
    refine ⟨hm ▸ hk.kept, fun u => ?_, fun id hhead hdue => ?_⟩
    · by_cases hu : u = t
      · subst hu
        rw [hm]
        obtain hsame | hnext := hpoint
        · rw [hsame]
          exact hk.placed u
        · exact next_placed hnext (hk.placed u)
      · exact (hresting u hu).placed
    · obtain ⟨next, hq | hq⟩ := hk.mover halone hhead hdue
      · obtain hsame | hnext := hpoint
        · exact ⟨t, next, .inl (hsame.trans hq)⟩
        · rw [hq] at hnext
          exact ⟨t, next, .inr hnext⟩
      · exact (hnoblock _ (by rw [hq]; rfl)).elim
  · have hpoint : (s.ctl t).point = p := by rw [hp, Ctl.point_awake]
    have hplaced := hk.placed t
    rw [hpoint] at hplaced
    obtain ⟨hkept, hplaced'⟩ := hr.timed hk.kept hplaced
    have he : event ⟨s, t, s'⟩ = eventAt p s.mem := by rw [← hpoint]; rfl
    rw [he]
    refine ⟨hkept, fun u => ?_, fun id hhead hdue => ?_⟩
    · by_cases hu : u = t
      · rwa [hu, hp', Ctl.point_awake]
      · exact (hresting u hu).placed
    · cases hev : eventAt p s.mem with
      | none =>
        -- the call was due before, so this is its block, which records it
        rw [hev] at hhead hdue
        obtain ⟨next, hq | hq⟩ := hk.mover halone hhead hdue
        · exact absurd (hpoint.symm.trans hq) hr.not_tickUnlock
        · obtain ⟨e, he⟩ := hr.invokes (hpoint.symm.trans hq)
          rw [hev] at he
          cases he
      | some e =>
        rw [hev] at hhead hdue hplaced'
        obtain rfl : e = .visit id := Option.some.inj hhead
        obtain ⟨next, fires, hq⟩ := hr.visits hev
        rw [hq] at hplaced'
        rw [hplaced'.2.1.mpr hdue] at hq
        exact ⟨t, next, .inl (by rw [hp', Ctl.point_awake, hq])⟩

theorem timed (h : Run code Initial tr s) (halone : ∀ x ∈ tr, Alone x) : Timed (history tr) s := by
  induction h with
  | start hi => exact hi.timed
  | step hr hs ih =>
    rw [history_cons]
    exact timed_step (ih fun x hx => halone x (List.mem_cons_of_mem _ hx)) hs (halone _ (List.mem_cons_self ..))

theorem punctual (h : Run code Initial tr s) (halone : ∀ x ∈ tr, Alone x) : Punctual (history tr) := by
  induction h with
  | start _ => exact .nil
  | @step tr s t s' hr hs ih =>
    have halone' := fun x hx => halone x (List.mem_cons_of_mem _ hx)
    have hlast := halone _ (List.mem_cons_self ..)
    have hk := timed hr halone'
    rw [history_cons]
    cases he : event ⟨s, t, s'⟩ with
    | none => exact ih halone'
    | some e =>
      refine (ih halone').cons fun id f parm => ⟨?_, fun ⟨hhead, hdue⟩ => ?_⟩
      · rintro rfl
        have hplaced := hk.placed t
        have he : eventAt (s.ctl t).point s.mem = some (.invoke id f parm) := he
        cases hp : (s.ctl t).point <;> simp only [hp, eventAt, reduceCtorEq, Option.some.injEq,
          Option.map_eq_some_iff, Event.invoke.injEq] at he
        case tickCall j next =>
          obtain ⟨g, hg, rfl, rfl, rfl⟩ := he
          rw [hp] at hplaced
          obtain ⟨hhead, hdue, ht⟩ := hplaced
          obtain ⟨⟨g', q⟩, hd⟩ := Option.isSome_iff_exists.mp hdue
          obtain ⟨hf, hparm⟩ := ht.due hd
          rw [hg] at hf
          cases hf
          exact ⟨hhead, hparm ▸ hd⟩
      · obtain ⟨next, hp | hp⟩ := hk.mover hlast hhead (by rw [hdue]; rfl)
        · have he : eventAt (s.ctl t).point s.mem = some e := he
          rw [hp] at he
          cases he
        · have hplaced := hk.placed t
          have he : eventAt (s.ctl t).point s.mem = some e := he
          rw [hp] at he hplaced
          obtain ⟨hf, hparm⟩ := hplaced.2.2.due hdue
          simp only [eventAt, hf, hparm, Option.map_some, Option.some.injEq] at he
          exact he.symm

end

/-! ### A watchdog that restarts itself -/

instance {ι φ : Type} [DecidableEq ι] (frame : Frame ι) : (p : Pc ι φ) → Decidable (Resting frame p)
  | .idle frame' => decidable_of_iff (frame' = frame) ⟨fun h => h ▸ .idle, fun h => by cases h; rfl⟩
  | .returned frame' op id error => decidable_of_iff (frame' = frame)
      ⟨fun h => h ▸ .returned op id error, fun h => by cases h; rfl⟩
  | .linkLock .. | .linkAppend .. | .linkUnlock .. | .validLock .. | .validScan .. | .validWdog ..
  | .validUnlock .. | .startSet .. | .cancelZero .. | .leave .. | .deleteListLock .. | .deleteUnlink ..
  | .deleteListUnlock .. | .deleteUnlock .. | .deleteFree .. | .tickCount .. | .tickUnlock .. | .tickCall .. =>
    isFalse nofun

/-- Thread 0 starts watchdog 7 for five ticks; thread 1 makes two passes, in the second of
which the timeout function starts the watchdog again, for the shortest time, and a third. -/
def restarts : List (Fin 2 × Input (Choice ℕ ℕ)) :=
  makes 0 7 :: goesOn 0 3 ++ calls 0 (.start 5 (some 1) 3) 7 :: goesOn 0 6 ++
    (1, {choice := .pass}) :: goesOn 1 6 ++
    (1, {choice := .pass}) :: goesOn 1 7 ++ calls 1 (.start (-1) (some 2) 4) 7 :: goesOn 1 6 ++
    (1, {choice := .finish}) :: (1, {choice := .pass}) :: goesOn 1 7

end V2lin.Watchdog
