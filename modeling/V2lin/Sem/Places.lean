import V2lin.Sem.Service
import Mathlib.Algebra.BigOperators.Group.Finset.Piecewise
import Mathlib.Algebra.Order.BigOperators.Group.Finset

/-! How many threads a semaphore lets in.

A thread is inside a semaphore for as long as more of its calls of `semTake` have returned
OK than it has called `semGive`. If every thread gives back only what it has, and no
`semTake` returns OK without a token, then there are never more threads inside than the
semaphore was made for: one for a mutex, and for the others the tokens they were made
with. It is proved of the desk, and carried over to the calls. -/
namespace V2lin.Sem
open Threads V2lin.Task

/-! ### At the desk -/

section
variable {θ : Type} [DecidableEq θ]

/-- What a deed adds to what customer `t` has. -/
def Deed.charge (t : θ) : Deed θ → Int
  | .take u _ error => if u = t ∧ error = .ok then 1 else 0
  | .retake u _ => if u = t then 1 else 0
  | .give u error => if u = t ∧ error = .ok then -1 else 0
  | _ => 0

/-- What customer `t` has after some deeds. -/
def charge (deeds : List (Deed θ)) (t : θ) : Int := (deeds.map (Deed.charge t)).sum

/-- Customers give back only what they have. -/
def Fair (deeds : List (Deed θ)) : Prop :=
  ∀ after t before, deeds = after ++ .give t .ok :: before → 1 ≤ charge before t

variable {t : θ} {e : Deed θ} {deeds : List (Deed θ)} {d d' : Desk θ} {args : Create}

theorem charge_cons : charge (e :: deeds) t = e.charge t + charge deeds t := by
  rw [charge, List.map_cons, List.sum_cons]
  rfl

theorem charge_append (before : List (Deed θ)) : charge (deeds ++ before) t = charge deeds t + charge before t := by
  simp [charge]

theorem Fair.tail (h : Fair (e :: deeds)) : Fair deeds := fun after t before heq =>
  h (e :: after) t before (by rw [heq]; rfl)

theorem Fair.head (h : Fair (.give t .ok :: deeds)) : 1 ≤ charge deeds t := h [] t deeds rfl

/-- What a deed does to the stock, and to what the customers have. -/
inductive StockStep (e : Deed θ) (k k' : Stock θ) : Prop where
  | same : k' = k → (∀ t, e.charge t = 0) → StockStep e k k'
  | swallowed (u : θ) : k.take u = some k' → (∀ t, e.charge t = 0) → StockStep e k k'
  | took (u : θ) : k.take u = some k' → (∀ t, e.charge t = if u = t then 1 else 0) → StockStep e k k'
  | retook (u : θ) : k.retake u = some k' → (∀ t, e.charge t = if u = t then 1 else 0) → StockStep e k k'
  | gave (u : θ) : e = .give u .ok → k.give u = (k', .ok) → (∀ t, e.charge t = if u = t then -1 else 0) →
      StockStep e k k'

theorem Desk.stockStep (h : act e d = some d') : StockStep e d.stock d'.stock := by
  cases e with
  | opens =>
    simp only [act, Option.ite_none_left_eq_some, Option.some.injEq] at h
    exact .same (by rw [← h.2]) fun _ => rfl
  | refuse u op =>
    simp only [act, Option.ite_none_left_eq_some, Option.some.injEq] at h
    exact .same (by rw [← h.2]) fun _ => rfl
  | join u maxWait =>
    simp only [act, Option.ite_none_left_eq_some, Option.some.injEq] at h
    exact .same (by rw [← h.2]) fun _ => rfl
  | take u maxWait error =>
    simp only [act, Option.ite_none_right_eq_some, Option.map_eq_some_iff] at h
    obtain ⟨_, k, hk, rfl⟩ := h
    by_cases he : error = .ok
    · exact .took u hk fun t => by simp [Deed.charge, he]
    · exact .swallowed u hk fun t => by simp [Deed.charge, he]
  | retake u maxWait =>
    simp only [act, Option.map_eq_some_iff] at h
    obtain ⟨k, hk, rfl⟩ := h
    exact .retook u hk fun _ => rfl
  | leave u maxWait expired error =>
    simp only [act, Option.ite_none_right_eq_some, Option.some.injEq] at h
    exact .same (by rw [← h.2]) fun _ => rfl
  | give u error =>
    simp only [act, Option.ite_none_right_eq_some, Option.some.injEq] at h
    obtain ⟨hres, rfl⟩ := h
    by_cases he : error = .ok
    · subst he
      exact .gave u rfl (Prod.ext rfl hres) fun t => by simp [Deed.charge]
    · exact .same (Stock.give_refused (by rwa [hres])) fun t => by simp [Deed.charge, he]
  | flush u error =>
    simp only [act] at h
    split at h
    · simp only [Option.ite_none_right_eq_some, Option.some.injEq] at h
      exact .same (by rw [← h.2]) fun _ => rfl
    · simp only [Option.ite_none_right_eq_some, Option.some.injEq] at h
      exact .same (by rw [← h.2]) fun _ => rfl
  | kill u =>
    cases h
    exact .same rfl fun _ => rfl
  | reset u =>
    simp only [act, Option.ite_none_right_eq_some, Option.some.injEq] at h
    exact .same (by rw [← h.2]) fun _ => rfl
  | close u =>
    cases h
    exact .same rfl fun _ => rfl

/-- What a stock allows its customers to have, of `places` in all. -/
def Stock.Allows (places : Int) (has : θ → Int) : Stock θ → Prop
  | .tokens n => (∀ S : Finset θ, n + ∑ t ∈ S, has t ≤ places) ∧ (0 ≤ n ∨ ∀ t, has t = 0)
  | .key none => places = 1 ∧ ∀ t, has t ≤ 0
  | .key (some (u, depth)) => places = 1 ∧ has u ≤ depth ∧ 1 ≤ depth ∧ ∀ t ≠ u, has t ≤ 0

/-- A deed keeps to what the stock allows, if customers give back only what they have. -/
theorem StockStep.allows {k k' : Stock θ} {places : Int} {has has' : θ → Int} (h : StockStep e k k')
    (hhas : ∀ t, has' t = e.charge t + has t) (hfair : ∀ u, e = .give u .ok → 1 ≤ has u)
    (hold : k.Allows places has) : k'.Allows places has' := by
  cases h with
  | same heq hz =>
    have : has' = has := funext fun t => by rw [hhas, hz, Int.zero_add]
    rwa [heq, this]
  | swallowed u htake hz =>
    have : has' = has := funext fun t => by rw [hhas, hz, Int.zero_add]
    rw [this]
    obtain ⟨n, rfl, hn, rfl⟩ | ⟨rfl, rfl⟩ := Stock.take_cases htake
    · exact ⟨fun S => by have := hold.1 S; omega, .inl (by omega)⟩
    · exact ⟨hold.1, (hold.2 u).trans (by decide), Nat.le_refl 1, fun t _ => hold.2 t⟩
  | took u htake hc =>
    obtain ⟨n, rfl, hn, rfl⟩ | ⟨rfl, rfl⟩ := Stock.take_cases htake
    · refine ⟨fun S => ?_, .inl (by omega)⟩
      have hsum : ∑ t ∈ S, has' t ≤ 1 + ∑ t ∈ S, has t := by
        simp only [hhas, hc, Finset.sum_add_distrib, Finset.sum_ite_eq]
        split <;> omega
      have := hold.1 S
      omega
    · refine ⟨hold.1, ?_, Nat.le_refl 1, fun t ht => ?_⟩
      · rw [hhas, hc, if_pos rfl]
        have := hold.2 u
        omega
      · rw [hhas, hc, if_neg (Ne.symm ht), Int.zero_add]
        exact hold.2 t
  | retook u hre hc =>
    obtain ⟨depth, rfl, rfl⟩ := Stock.retake_cases hre
    obtain ⟨hone, hu, hpos, hothers⟩ := hold
    refine ⟨hone, ?_, by omega, fun t ht => ?_⟩
    · rw [hhas, hc, if_pos rfl]
      omega
    · rw [hhas, hc, if_neg (Ne.symm ht), Int.zero_add]
      exact hothers t ht
  | gave u he hgive hc =>
    have hone := hfair u he
    obtain ⟨n, rfl, rfl⟩ | ⟨depth, rfl, rfl⟩ := Stock.give_cases hgive
    · refine ⟨fun S => ?_, .inl ?_⟩
      · -- whoever gives back has one, so it is one of those that are counted
        have hinsert := hold.1 (insert u S)
        by_cases hu : u ∈ S
        · have hsum : ∑ t ∈ S, has' t = -1 + ∑ t ∈ S, has t := by
            simp only [hhas, hc, Finset.sum_add_distrib, Finset.sum_ite_eq, if_pos hu]
          rw [Finset.insert_eq_of_mem hu] at hinsert
          omega
        · have hsum : ∑ t ∈ S, has' t = ∑ t ∈ S, has t := by
            simp only [hhas, hc, Finset.sum_add_distrib, Finset.sum_ite_eq, if_neg hu, Int.zero_add]
          rw [Finset.sum_insert hu] at hinsert
          omega
      · obtain hn | hz := hold.2
        · omega
        · rw [hz u] at hone
          omega
    · obtain ⟨hplaces, hu, hpos, hothers⟩ := hold
      have hothers' : ∀ t ≠ u, has' t ≤ 0 := fun t ht => by
        rw [hhas, hc, if_neg (Ne.symm ht), Int.zero_add]
        exact hothers t ht
      have hu' : has' u ≤ depth - 1 := by
        rw [hhas, hc, if_pos rfl]
        omega
      split
      · rename_i hd
        refine ⟨hplaces, fun t => ?_⟩
        by_cases ht : t = u
        · rw [ht]
          omega
        · exact hothers' t ht
      · rename_i hd
        exact ⟨hplaces, by omega, by omega, hothers'⟩

/-- At a desk whose customers give back only what they have, the stock allows what they have. -/
theorem desk_allows (h : replay Desk.act (.made args) deeds = some d) (hfair : Fair deeds) :
    d.stock.Allows (Stock.made (θ := θ) args).places (charge deeds) := by
  refine replay_invariant (fun deeds d => Fair deeds → d.stock.Allows (Stock.made (θ := θ) args).places (charge deeds))
    ?_ ?_ h hfair
  · intro _
    cases args with
    | mutex opt => exact ⟨rfl, fun _ => Int.le_refl 0⟩
    | _ => exact ⟨fun S => by simp [charge, Stock.places, Stock.made], .inr fun _ => rfl⟩
  · intro e deeds c d' _ ih he hfair
    refine (Desk.stockStep he).allows (fun t => charge_cons) ?_ (ih hfair.tail)
    rintro u rfl
    exact hfair.head

/-- No more customers have something than the desk has places. -/
theorem desk_places (h : replay Desk.act (.made args) deeds = some d) (hfair : Fair deeds) {S : Finset θ}
    (hS : ∀ t ∈ S, 1 ≤ charge deeds t) (hne : S.Nonempty) : (S.card : Int) ≤ (Stock.made (θ := θ) args).places := by
  have hallows := desk_allows h hfair
  obtain ⟨u, hu⟩ := hne
  have hone := hS u hu
  cases hk : d.stock with
  | tokens n =>
    rw [hk] at hallows
    have hcard : (S.card : Int) ≤ ∑ t ∈ S, charge deeds t := by
      simpa using Finset.card_nsmul_le_sum S _ 1 hS
    have hsum := hallows.1 S
    obtain hn | hz := hallows.2
    · omega
    · rw [hz u] at hone
      omega
  | key holder =>
    rw [hk] at hallows
    cases holder with
    | none =>
      have := hallows.2 u
      omega
    | some held =>
      obtain ⟨hplaces, _, _, hothers⟩ := hallows
      have hsub : S ⊆ {held.1} := by
        intro t ht
        by_contra hne
        have := hothers t (by simpa using hne)
        have := hS t ht
        omega
      have := Finset.card_le_card hsub
      rw [hplaces]
      simpa using this

end

/-! ### In the library -/

section
variable {θ ι : Type} [DecidableEq θ] [DecidableEq ι]

/-- The step in which a thread calls `semGive`. -/
def callsGive (id : ι) (x : SemTransition θ ι) : Bool :=
  x.post.ctl x.thread = .awake (.findLock .give id)

/-- The calls of `semTake` of thread `t` that have returned OK, less its calls of `semGive`. -/
def holds (t : θ) (id : ι) : List (SemTransition θ ι) → Int
  | [] => 0
  | x :: tr => holds t id tr + (if x.thread = t ∧ returnsTake id x = true then 1 else 0) -
      (if x.thread = t ∧ callsGive id x = true then 1 else 0)

/-- No thread calls `semGive` outside the semaphore. -/
def disciplined (id : ι) : List (SemTransition θ ι) → Bool
  | [] => true
  | x :: tr => (!callsGive id x || decide (1 ≤ holds x.thread id tr)) && disciplined id tr

/-- The step in which a wait on the semaphore ends without a token and with OK: by a flush, or
in a `NO_WAIT` call that gives up. -/
def leavesOk (id : ι) (x : SemTransition θ ι) : Bool :=
  match deed id x with
  | some (.leave _ _ _ .ok) => true
  | _ => false

/-- What the call at a point has or is about to give back, that is not counted as inside. -/
def pend (id : ι) (p : Pc ι) : Int :=
  if p.resting then 0
  else match stage p with
    | .settled (.take _, j) .ok => if j = id then 1 else 0
    | .pending (.give, j) => if j = id then 1 else 0
    | _ => 0

variable {prio : θ → Int} {t u : θ} {id : ι} {p p' : Pc ι} {m m' : Mem θ ι}
variable {s s' : SemState θ ι} {tr later before : List (SemTransition θ ι)} {x : SemTransition θ ι}

theorem disciplined_cons : disciplined id (x :: tr) = true ↔
    (callsGive id x = true → 1 ≤ holds x.thread id tr) ∧ disciplined id tr = true := by
  rw [disciplined, Bool.and_eq_true, Bool.or_eq_true, decide_eq_true_iff, Bool.not_eq_true']
  cases callsGive id x <;> simp

theorem disciplined_of_append (h : disciplined id (later ++ tr) = true) : disciplined id tr = true := by
  induction later with
  | nil => exact h
  | cons y later ih => exact ih (disciplined_cons.mp h).2

/-- The point from which `semTake` returns OK. -/
def returnsOk (id : ι) : Pc ι → Bool
  | .takeUnlock _ j .ok => j = id
  | _ => false

theorem next_pend (h : (code some prio t p).Next p') :
    pend id p' + (if returnsOk id p = true then 1 else 0) ≤ pend id p := by
  cases p
  case findUnlock op j found =>
    cases h
    cases found
    · cases op <;> simp [pend, stage, returnsOk, Pc.resting]
    · cases op <;> simp [pend, stage, returnsOk, Pc.resting, entry]
  case takeUnlock maxWait j error =>
    cases h
    by_cases hj : j = id
    · cases error <;> simp [pend, stage, returnsOk, Pc.resting, hj]
    · cases error <;> simp [pend, stage, returnsOk, Pc.resting, hj]
  all_goals first
    | exact False.elim h
    | (cases h; simp [pend, stage, returnsOk, Pc.resting]; done)
    | (obtain ⟨r, rfl⟩ := h; simp [pend, stage, returnsOk, Pc.resting])

theorem here_getD (c : Prop) [Decidable c] : (if c then some (0 : Int) else none).getD 0 = 0 := by
  split <;> rfl

theorem Runs.pend (hr : Runs some prio t p m m' p')
    (hno : ∀ u maxWait expired, deedAt id t p p' m m' ≠ some (.leave u maxWait expired .ok)) :
    Sem.pend id p' ≤ Sem.pend id p + ((deedAt id t p p' m m').map (Deed.charge t)).getD 0 +
      (if p' = .findLock .give id then 1 else 0) := by
  have hrest : p.resting = true → Sem.pend id p = 0 := fun h => if_pos h
  cases hr with
  | called op j hp =>
    rw [hrest hp, deedAt_resting hp]
    cases op <;> simp [Sem.pend, Sem.stage, Pc.resting]
  | refused hp =>
    rw [hrest hp, deedAt_resting hp]
    simp [Sem.pend, Pc.resting]
  | created j _ hp =>
    rw [hrest hp, deedAt_resting hp]
    simp [Sem.pend, Sem.stage, Pc.resting]
  | @left _ _ maxWait j v retcode v' error last hw hl =>
    obtain ⟨rc, hpoint⟩ := hw.point
    have hp : Sem.pend id p = 0 := by cases hpoint <;> simp [Sem.pend, Sem.stage]
    have hp' : Sem.pend id (if last then .takeLastLock maxWait j error else .takeEnd maxWait j error) =
        if j = id ∧ error = .ok then 1 else 0 := by
      cases last <;> cases error <;> simp [Sem.pend, Sem.stage, Pc.resting]
    have hcall : (if last then .takeLastLock maxWait j error else .takeEnd maxWait j error) ≠
        Pc.findLock .give id := by
      cases last <;> exact fun h => by cases h
    rw [hp, hp', if_neg hcall]
    by_cases hj : j = id
    · subst hj
      rw [deedAt_left hpoint] at hno ⊢
      split at hno
      · rename_i hless
        rw [if_pos hless]
        simp [Deed.charge]
      · rename_i hless
        have herror : error ≠ .ok := fun he => hno t maxWait _ (by rw [he])
        rw [if_neg hless, if_neg fun h => herror h.2]
        simp [Deed.charge]
    · rw [if_neg fun h => hj h.1]
      cases hpoint <;> cases last <;> simp [deedAt, hj]
  | sleeps hpoint => cases hpoint <;> simp [Sem.pend, Sem.stage, Pc.resting, deedAt]
  | polls hpoint => cases hpoint <;> simp [Sem.pend, Sem.stage, Pc.resting, deedAt]
  | @gave _ j v error =>
    by_cases hok : error = .ok ∧ v.firstSusp ≠ []
    · rw [if_pos hok]
      by_cases hj : j = id <;> simp [Sem.pend, Sem.stage, Pc.resting, deedAt, Deed.charge, hj]
    · rw [if_neg hok]
      by_cases hj : j = id
      · cases error <;> simp [Sem.pend, Sem.stage, Pc.resting, deedAt, Deed.charge, hj]
      · cases error <;> simp [Sem.pend, Sem.stage, Pc.resting, deedAt, hj]
  | @notFound _ j op =>
    by_cases hj : j = id <;> cases op <;> simp [Sem.pend, Sem.stage, Pc.resting, deedAt, Deed.charge, hj]
  | found op => cases op <;> simp [Sem.pend, Sem.stage, Pc.resting, deedAt]
  | @reentered _ _ j => by_cases hj : j = id <;> simp [Sem.pend, Sem.stage, Pc.resting, deedAt, Deed.charge, hj]
  | reset _ _ error =>
    cases error <;> simp [Sem.pend, Sem.stage, Pc.resting, deedAt, Deed.charge, here_getD]
  | ended _ _ error => cases error <;> simp [Sem.pend, Sem.stage, Pc.resting, deedAt]
  | _ => simp [Sem.pend, Sem.stage, Pc.resting, deedAt, Deed.charge, here_getD]

/-- A deed of a thread is nothing to what the others have. -/
theorem charge_other (hu : u ≠ t) {e : Deed θ} (he : deedAt id t p p' m m' = some e) : e.charge u = 0 := by
  unfold deedAt at he
  split at he
  all_goals first
    | cases he
    | (obtain ⟨_, rfl⟩ := of_here he; try split) <;> simp [Deed.charge, Ne.symm hu]

theorem charge_next {y : SemTransition θ ι} :
    charge ((y :: tr).filterMap (deed id)) u =
      ((deed id y).map (Deed.charge u)).getD 0 + charge (tr.filterMap (deed id)) u := by
  cases he : deed id y with
  | none => simp [he]
  | some e => rw [List.filterMap_cons_some he, charge_cons]; rfl

/-- What a thread holds, and what its call has or is about to give back, has been taken at
the desk. -/
structure Accounted (id : ι) (tr : List (SemTransition θ ι)) (s : SemState θ ι) : Prop where
  charged : ∀ t, holds t id tr + pend id (s.ctl t).point ≤ charge (tr.filterMap (deed id)) t
  nonneg : ∀ t, 0 ≤ holds t id tr

omit [DecidableEq θ] in
theorem returnsTake_iff {y : SemTransition θ ι} :
    returnsTake id y = true ↔ ∃ maxWait, y.pre.ctl y.thread = .awake (.takeUnlock maxWait id .ok) := by
  unfold returnsTake
  split
  · rename_i maxWait j hp
    rw [hp]
    simp
  · rename_i hno
    simp only [Bool.false_eq_true, false_iff, not_exists]
    exact fun maxWait hp => hno maxWait id hp

theorem accounted_step (hold : Accounted id tr s) (hs : Step (code some prio) t s s')
    (hd : callsGive id ⟨s, t, s'⟩ = true → 1 ≤ holds t id tr) (hno : leavesOk id ⟨s, t, s'⟩ = false) :
    Accounted id (⟨s, t, s'⟩ :: tr) s' := by
  have hcharged := hold.charged t
  have hmover : holds t id (⟨s, t, s'⟩ :: tr) + pend id (s'.ctl t).point ≤
      charge ((⟨s, t, s'⟩ :: tr).filterMap (deed id)) t := by
    rw [charge_next]
    by_cases hret : returnsTake id ⟨s, t, s'⟩ = true
    · obtain ⟨maxWait, hp⟩ := returnsTake_iff.mp hret
      have hunlock := hs.does (show s.ctl t = _ from hp)
      have hrun : ∀ block, code some prio t (s.ctl t).point ≠ .run block := by
        rw [show s.ctl t = _ from hp]
        exact nofun
      have hp' : s'.ctl t = .awake (.returned (.take maxWait) id .ok) := by
        rw [show s' = _ from hunlock]
        exact Function.update_self ..
      have hcall : callsGive id ⟨s, t, s'⟩ = false := by simp [callsGive, hp']
      rw [show s.ctl t = _ from hp] at hcharged
      rw [deed_sync hrun, hp', holds, if_pos ⟨rfl, hret⟩, if_neg (by simp [hcall])]
      simp only [pend, stage, Ctl.point_awake, Pc.resting, if_true, if_false, Option.map_none, Option.getD_none,
        Bool.false_eq_true] at hcharged ⊢
      omega
    · rw [holds, if_neg fun h => hret h.2]
      obtain ⟨_, hrun, hpoint⟩ | ⟨p, p', hp, hp', hr, _⟩ := step_cases hs
      · have hpend : pend id (s'.ctl t).point ≤ pend id (s.ctl t).point := by
          obtain heq | hnext := hpoint
          · rw [heq]
          · have : pend id (s'.ctl t).point + _ ≤ _ := next_pend hnext
            split at this <;> omega
        rw [deed_sync hrun]
        simp only [Option.map_none, Option.getD_none]
        split <;> omega
      · have hdeed : deed id ⟨s, t, s'⟩ = deedAt id t p p' s.mem s'.mem := stepEvent_awake hp hp'
        have hleaves : ∀ u maxWait expired, deedAt id t p p' s.mem s'.mem ≠ some (.leave u maxWait expired .ok) :=
          fun u maxWait expired he => by simp [leavesOk, hdeed, he] at hno
        have hpend := hr.pend hleaves
        have hcall : callsGive id ⟨s, t, s'⟩ = decide (p' = .findLock .give id) := by simp [callsGive, hp']
        rw [hp, Ctl.point_awake] at hcharged
        rw [hdeed, hp', Ctl.point_awake, hcall]
        simp only [decide_eq_true_eq, true_and]
        by_cases hc : p' = .findLock .give id
        · rw [if_pos hc] at hpend ⊢
          omega
        · rw [if_neg hc] at hpend ⊢
          omega
  refine ⟨fun u => ?_, fun u => ?_⟩
  · by_cases hu : u = t
    · rw [hu]
      exact hmover
    · have hcharge : ((deed id ⟨s, t, s'⟩).map (Deed.charge u)).getD 0 = 0 := by
        cases he : deed id ⟨s, t, s'⟩ with
        | none => rfl
        | some e =>
          unfold deed stepEvent at he
          split at he
          · exact charge_other hu he
          · cases he
      rw [charge_next, hcharge, holds, if_neg fun h => hu h.1.symm, if_neg fun h => hu h.1.symm, hs.ctl_other hu]
      have := hold.charged u
      omega
  · have hu := hold.nonneg u
    rw [holds]
    split
    all_goals
      split
      · rename_i hcall
        have hone := hd hcall.2
        rw [show t = u from hcall.1] at hone
        omega
      · omega

theorem accounted (h : Run (code some prio) Initial tr s) (hd : disciplined id tr = true)
    (hno : ∀ x ∈ tr, leavesOk id x = false) : Accounted id tr s := by
  induction h with
  | start hi =>
    refine ⟨fun t => ?_, fun t => Int.le_refl 0⟩
    rw [hi.idle t]
    exact Int.le_refl 0
  | @step tr s t s' _ hs ih =>
    obtain ⟨hcall, hd⟩ := disciplined_cons.mp hd
    exact accounted_step (ih hd fun x hx => hno x (List.mem_cons_of_mem _ hx)) hs hcall (hno _ (List.mem_cons_self ..))

/-- Who gains or gives back is inside the semaphore's code. -/
theorem charge_touches {e : Deed θ} (he : deedAt id t p p' m m' = some e) (hc : e.charge u ≠ 0) :
    touches p = some id := by
  unfold deedAt at he
  split at he
  all_goals first
    | cases he
    | (obtain ⟨rfl, rfl⟩ := of_here he; rfl)
    | (obtain ⟨_, rfl⟩ := of_here he; exact absurd rfl hc)

omit [DecidableEq θ] in
theorem deedAt_give (he : deedAt id t p p' m m' = some (.give u .ok)) : u = t ∧ p = .giveStart id := by
  unfold deedAt at he
  split at he
  all_goals first
    | cases he
    | (obtain ⟨rfl, heq⟩ := of_here he; cases heq; exact ⟨rfl, rfl⟩)
    | (obtain ⟨_, heq⟩ := of_here he; cases heq)
    | (obtain ⟨_, heq⟩ := of_here he; split at heq <;> cases heq)

omit [DecidableEq θ] in
theorem deed_give {y : SemTransition θ ι} (he : deed id y = some (.give u .ok)) :
    u = y.thread ∧ y.pre.ctl y.thread = .awake (.giveStart id) := by
  unfold deed stepEvent at he
  split at he
  · rename_i p p' hp _
    obtain ⟨hu, rfl⟩ := deedAt_give he
    exact ⟨hu, hp⟩
  · cases he

/-- Nobody has had anything of a semaphore before it was made. -/
theorem charge_before (h : Run (code some prio) Initial tr s) (hf : s.mem.block id = .fresh) (u : θ) :
    charge (tr.filterMap (deed id)) u = 0 := by
  induction h with
  | start hi => rfl
  | @step tr s t s' hr hs ih =>
    have hfresh : s.mem.block id = .fresh := by
      by_contra hb
      exact block_step hs hb hf
    rw [charge_next, ih hfresh]
    cases he : deed id ⟨s, t, s'⟩ with
    | none => rfl
    | some e =>
      by_contra hc
      unfold deed stepEvent at he
      split at he
      · rename_i p p' hp _
        refine (made hr).touched t id ?_ hfresh
        rw [show s.ctl t = _ from hp]
        exact charge_touches (u := u) he (by simpa using hc)
      · cases he

/-- The calls of a disciplined run are fair at the desk. -/
theorem fair (h : Run (code some prio) Initial tr s) (hd : disciplined id tr = true)
    (hno : ∀ y ∈ tr, leavesOk id y = false) : Fair (tr.filterMap (deed id)) := by
  intro after u rest heq
  obtain ⟨l₁, l₂, rfl, _, hl₂⟩ := List.filterMap_eq_append_iff.mp heq
  obtain ⟨l₃, y, l₄, rfl, hnone, hy, rfl⟩ := List.filterMap_eq_cons_iff.mp hl₂
  obtain ⟨rfl, hp⟩ := deed_give hy
  rw [← List.append_assoc] at h hd hno
  have hacc := accounted h.before (disciplined_cons.mp (disciplined_of_append hd)).2 fun z hz => hno z (by simp [hz])
  have hcharged := hacc.charged y.thread
  have hnonneg := hacc.nonneg y.thread
  rw [hp, Ctl.point_awake] at hcharged
  simp only [pend, stage, Pc.resting, if_true, Bool.false_eq_true, if_false] at hcharged
  omega

end

end V2lin.Sem
