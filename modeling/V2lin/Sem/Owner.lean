import V2lin.Sem.Binary

/-! Who may give a mutex.

`semGive` compares the owner of a mutex with the caller's task. For a plain thread the task
is null, and so is the owner of a mutex that nobody has, or that a plain thread has. So a
plain thread may give a mutex that it does not hold. A task may only if the level of the mutex
has come round, for at a negative level a task that gives the mutex back stays its owner. These
are the two ways in which a thread may: if neither happens, a mutex has at most one token. -/
namespace V2lin.Sem
open Threads V2lin.Arith V2lin.Task

section
variable {θ ι : Type} [DecidableEq θ] [DecidableEq ι]

/-- `my_task`, when the registered threads are those of a task. -/
def asTask (registered : θ → Bool) (t : θ) : Option θ := if registered t = true then some t else none

/-- The step in which a thread leaves the wait loops with the token of a mutex. -/
def acquires (id : ι) (x : SemTransition θ ι) : Bool :=
  (x.pre.mem.sem id).sendType = .send ∧ takesToken id x = true

/-- The step in which a token comes back. -/
def returnsToken (id : ι) (x : SemTransition θ ι) : Bool :=
  (x.post.mem.sem id).tokenCount = increment (x.pre.mem.sem id).tokenCount

/-- The thread that has taken the token of a mutex and not given it back, by the steps since
the mutex was made, newest first. -/
def holder (id : ι) : List (SemTransition θ ι) → Option θ
  | [] => none
  | x :: tr => if acquires id x then some x.thread else if returnsToken id x then none else holder id tr

/-- The step in which a mutex is taken once more at a level of `INT_MAX`. -/
def levelWraps (id : ι) (x : SemTransition θ ι) : Bool :=
  (x.pre.mem.sem id).recursionLevel = intMax ∧ (x.post.mem.sem id).recursionLevel = intMin

/-- A plain thread gives a mutex that it does not hold and that has no task for its owner. -/
def strayGive (registered : θ → Bool) (id : ι) (before : List (SemTransition θ ι)) (x : SemTransition θ ι) : Bool :=
  giving id x ∧ registered x.thread = false ∧ (x.pre.mem.sem id).currentOwner = none ∧ holder id before ≠ some x.thread

/-- A task gives a mutex that it owns and does not hold any more, its level having come round. -/
def surplusGive (registered : θ → Bool) (id : ι) (before : List (SemTransition θ ι)) (x : SemTransition θ ι) : Bool :=
  giving id x ∧ before.any (levelWraps id) = true ∧ registered x.thread = true ∧
    (x.pre.mem.sem id).currentOwner = some x.thread ∧ holder id before ≠ some x.thread

/-- A give of one of the two kinds. -/
def unownedGive (registered : θ → Bool) (id : ι) (before : List (SemTransition θ ι)) (x : SemTransition θ ι) : Bool :=
  strayGive registered id before x || surplusGive registered id before x

/-- The `semGive` of a thread that holds the mutex succeeds, or it is refused and changes
nothing. -/
def GivesOwned (id : ι) (before : List (SemTransition θ ι)) (x : SemTransition θ ι) : Prop :=
  (holder id before = some x.thread ∧
    (x.post.ctl x.thread = .awake (.giveNotify id) ∨ x.post.ctl x.thread = .awake (.giveUnlock id .ok))) ∨
  (x.post.ctl x.thread = .awake (.giveUnlock id .invalidOperation) ∧ x.post.mem.sem id = x.pre.mem.sem id)

/-- What is expected of `semGive` on a mutex in a run, from its creation on. -/
structure GiveLaw (id : ι) (x : SemTransition θ ι) (later : List (SemTransition θ ι)) : Prop where
  gives : ∀ l y before, l ++ y :: before = later → giving id y = true → GivesOwned id before y
  bound : ∀ y ∈ later ++ [x], (y.post.mem.sem id).tokenCount ≤ 1

variable {registered : θ → Bool} {myTask : θ → Option θ} {prio : θ → Int} {t : θ} {p p' : Pc ι} {m m' : Mem θ ι}
variable {s s' : SemState θ ι} {id : ι} {x : SemTransition θ ι} {tr later : List (SemTransition θ ι)}

/-- The two ways through `semGive`. -/
inductive GiveEnd (me : Option θ) (id : ι) (m m' : Mem θ ι) : Pc ι → Prop where
  | accepted {q : Pc ι} : ((m.sem id).isMutex → (m.sem id).currentOwner = me) → Gave (m.sem id) me (m'.sem id) .ok →
      q = .giveNotify id ∨ q = .giveUnlock id .ok → GiveEnd me id m m' q
  | refused : (m.sem id).isMutex → (m.sem id).currentOwner ≠ me → m'.sem id = m.sem id →
      GiveEnd me id m m' (.giveUnlock id .invalidOperation)

theorem Runs.give_end (h : Runs myTask prio t (.giveStart id) m m' p') : GiveEnd (myTask t) id m m' p' := by
  cases h with
  | @gave _ _ v error hg =>
    have hgave := giveToken_gave hg
    by_cases hok : error = .ok
    · subst hok
      refine .accepted (hgave.allowed.mp rfl) (by rwa [Mem.setSem_self]) ?_
      split
      · exact .inl rfl
      · exact .inr rfl
    · have hrefused : (m.sem id).isMutex ∧ (m.sem id).currentOwner ≠ myTask t := by
        by_contra hno
        exact hok (hgave.allowed.mpr fun hm => not_not.mp fun hne => hno ⟨hm, hne⟩)
      have herror : error = .invalidOperation := by
        rw [giveToken, if_pos hrefused] at hg
        exact (Prod.mk.inj hg).2.symm
      rw [if_neg fun hn => hok hn.1, herror]
      exact .refused hrefused.1 hrefused.2 (by rw [Mem.setSem_self, hgave.refused hok])
  | left hw =>
    obtain ⟨_, hp⟩ := hw.point
    cases hp
  | sleeps hp => cases hp
  | polls hp => cases hp
  | called _ _ hp => cases hp
  | refused hp => cases hp
  | created _ _ hp => cases hp

/-! ### What a step does to a mutex -/

/-- Unless the level has come round, the owner of a mutex, where there is one, holds it, and
the level is positive. -/
structure Possessed (id : ι) (m : Mem θ ι) (l : List (SemTransition θ ι)) : Prop where
  made : m.block id ≠ .fresh
  mutex : (m.sem id).isMutex
  owner : l.any (levelWraps id) = false → ∀ u, (m.sem id).currentOwner = some u →
    holder id l = some u ∧ 1 ≤ (m.sem id).recursionLevel
  level : l.any (levelWraps id) = false → 0 ≤ (m.sem id).recursionLevel

omit [DecidableEq θ] [DecidableEq ι] in
theorem holder_kept {l : List (SemTransition θ ι)} (h : (x.post.mem.sem id).tokenCount = (x.pre.mem.sem id).tokenCount) :
    holder id (x :: l) = holder id l := by
  have hacq : acquires id x = false := by
    simp only [acquires, takesToken, decide_eq_true_eq, decide_eq_false_iff_not, not_and]
    omega
  have hret : returnsToken id x = false := by
    simp only [returnsToken, decide_eq_false_iff_not]
    exact fun hret => increment_ne _ (hret.symm.trans h)
  simp only [holder, hacq, hret, Bool.false_eq_true, if_false]

omit [DecidableEq θ] [DecidableEq ι] in
theorem holder_returned {l : List (SemTransition θ ι)}
    (h : (x.post.mem.sem id).tokenCount = increment (x.pre.mem.sem id).tokenCount) : holder id (x :: l) = none := by
  have hacq : acquires id x = false := by
    simp only [acquires, takesToken, decide_eq_true_eq, decide_eq_false_iff_not, not_and]
    exact fun _ htook => increment_ne_pred _ (h.symm.trans htook)
  have hret : returnsToken id x = true := by
    simp only [returnsToken, decide_eq_true_eq]
    exact h
  simp only [holder, hacq, hret, Bool.false_eq_true, if_false, if_true]

omit [DecidableEq θ] [DecidableEq ι] in
/-- A token that is taken while the semaphore is being deleted makes no owner. -/
theorem holder_killed {l : List (SemTransition θ ι)} (hs : (x.pre.mem.sem id).sendType ≠ .send)
    (h : (x.post.mem.sem id).tokenCount = (x.pre.mem.sem id).tokenCount - 1) : holder id (x :: l) = holder id l := by
  have hret : returnsToken id x = false := by
    simp only [returnsToken, decide_eq_false_iff_not]
    exact fun hret => increment_ne_pred _ (hret.symm.trans h)
  simp only [holder, acquires, hs, false_and, decide_false, hret, Bool.false_eq_true, if_false]

omit [DecidableEq θ] [DecidableEq ι] in
theorem holder_acquired {l : List (SemTransition θ ι)} (hs : (x.pre.mem.sem id).sendType = .send)
    (h : (x.post.mem.sem id).tokenCount = (x.pre.mem.sem id).tokenCount - 1) : holder id (x :: l) = some x.thread := by
  have hacq : acquires id x = true := by
    simp only [acquires, takesToken, hs, h, decide_true, and_self]
  simp only [holder, hacq, if_true]

/-- What a step does to a mutex, its owner and its holder. -/
inductive HolderStep (id : ι) (x : SemTransition θ ι) (l : List (SemTransition θ ι)) : Prop where
  | kept : (x.post.mem.sem id).tokenCount = (x.pre.mem.sem id).tokenCount → holder id (x :: l) = holder id l →
      HolderStep id x l
  | acquired : 0 < (x.pre.mem.sem id).tokenCount →
      (x.post.mem.sem id).tokenCount = (x.pre.mem.sem id).tokenCount - 1 → HolderStep id x l
  | lost : (x.post.mem.sem id).tokenCount = (x.pre.mem.sem id).tokenCount - 1 →
      holder id (x :: l) = holder id l → HolderStep id x l
  | returned : giving id x = true → (x.post.mem.sem id).tokenCount = increment (x.pre.mem.sem id).tokenCount →
      holder id (x :: l) = none → HolderStep id x l

omit [DecidableEq θ] [DecidableEq ι] in
theorem wraps_cons {l : List (SemTransition θ ι)} (h : (x :: l).any (levelWraps id) = false) :
    levelWraps id x = false ∧ l.any (levelWraps id) = false := by
  rwa [List.any_cons, Bool.or_eq_false_iff] at h

omit [DecidableEq θ] [DecidableEq ι] in
/-- A level that does not come round goes up by one. -/
theorem level_raised (hw : levelWraps id x = false)
    (h : (x.post.mem.sem id).recursionLevel = increment (x.pre.mem.sem id).recursionLevel) :
    (x.post.mem.sem id).recursionLevel = (x.pre.mem.sem id).recursionLevel + 1 := by
  by_cases hmax : (x.pre.mem.sem id).recursionLevel = intMax
  · rw [hmax, increment_intMax] at h
    simp [levelWraps, hmax, h] at hw
  · rw [h, increment_of_ne hmax]

theorem possessed_step {l : List (SemTransition θ ι)} (h : Possessed id s.mem l)
    (hs : Step (code (asTask registered) prio) t s s') :
    Possessed id s'.mem (⟨s, t, s'⟩ :: l) ∧ HolderStep id ⟨s, t, s'⟩ l := by
  obtain ⟨hm, _⟩ | ⟨p, p', hp, _, hr, _⟩ := step_cases hs
  · have hkept : holder id (⟨s, t, s'⟩ :: l) = holder id l := holder_kept (by rw [hm])
    refine ⟨⟨?_, ?_, fun hw => ?_, fun hw => ?_⟩, .kept (by rw [hm]) hkept⟩
    · rw [hm]
      exact h.made
    · rw [hm]
      exact h.mutex
    · rw [hm, hkept]
      exact h.owner (wraps_cons hw).2
    · rw [hm]
      exact h.level (wraps_cons hw).2
  · have hmade := hr.block_ne_fresh h.made
    have hmutex : (s'.mem.sem id).isMutex := by
      unfold V2lsem.isMutex
      rw [hr.flags_eq h.made]
      exact h.mutex
    by_cases hgive : p = .giveStart id
    · subst hgive
      have hgiving : giving id ⟨s, t, s'⟩ = true := by simp [giving, hp]
      cases hr.give_end with
      | accepted _ hgave _ =>
        by_cases hnested : 1 < (s.mem.sem id).recursionLevel
        · obtain ⟨htok, hlevel, hown⟩ := hgave.nested rfl hnested
          have hkept : holder id (⟨s, t, s'⟩ :: l) = holder id l := holder_kept htok
          refine ⟨⟨hmade, hmutex, fun hw u hu => ?_, fun _ => by omega⟩, .kept htok hkept⟩
          rw [hown] at hu
          exact ⟨hkept.trans (h.owner (wraps_cons hw).2 u hu).1, by omega⟩
        · by_cases hlast : (s.mem.sem id).recursionLevel = 1
          · obtain ⟨htok, hlevel, hown⟩ := hgave.last rfl hlast
            refine ⟨⟨hmade, hmutex, fun _ u hu => ?_, fun _ => by omega⟩,
              .returned hgiving htok (holder_returned htok)⟩
            rw [hown] at hu
            cases hu
          · -- no task has the mutex unless the level has come round, so the owner is null
            obtain ⟨htok, hlevel, hown⟩ := hgave.plain rfl (by omega)
            refine ⟨⟨hmade, hmutex, fun hw u hu => ?_, fun hw => hlevel ▸ h.level (wraps_cons hw).2⟩,
              .returned hgiving htok (holder_returned htok)⟩
            rw [hown] at hu
            have := (h.owner (wraps_cons hw).2 u hu).2
            omega
      | refused _ _ hsame =>
        have htok : (s'.mem.sem id).tokenCount = (s.mem.sem id).tokenCount := by rw [hsame]
        have hkept : holder id (⟨s, t, s'⟩ :: l) = holder id l := holder_kept htok
        refine ⟨⟨hmade, hmutex, fun hw u hu => ?_, fun hw => ?_⟩, .kept htok hkept⟩
        · rw [hsame] at hu ⊢
          rw [hkept]
          exact h.owner (wraps_cons hw).2 u hu
        · rw [hsame]
          exact h.level (wraps_cons hw).2
    · obtain ⟨htok, hown, hlevel⟩ | ⟨_, _, _, _, _, hsem⟩ | ⟨_, _, _, _, hsend, hpos, htok, hown, hlevel⟩ |
        ⟨_, _, _, hsend, htok, hown, hlevel⟩ | ⟨hp', _⟩ := hr.owner_cases h.made
      · have hkept : holder id (⟨s, t, s'⟩ :: l) = holder id l := holder_kept htok
        refine ⟨⟨hmade, hmutex, fun hw u hu => ?_, fun hw => hlevel ▸ h.level (wraps_cons hw).2⟩, .kept htok hkept⟩
        rw [hown] at hu
        rw [hkept, hlevel]
        exact h.owner (wraps_cons hw).2 u hu
      · have htok : (s'.mem.sem id).tokenCount = (s.mem.sem id).tokenCount := by rw [hsem]
        have hkept : holder id (⟨s, t, s'⟩ :: l) = holder id l := holder_kept htok
        have hraised : levelWraps id ⟨s, t, s'⟩ = false →
            (s'.mem.sem id).recursionLevel = (s.mem.sem id).recursionLevel + 1 :=
          fun hw => level_raised hw (by rw [hsem])
        refine ⟨⟨hmade, hmutex, fun hw u hu => ?_, fun hw => ?_⟩, .kept htok hkept⟩
        · obtain ⟨hstays, hw⟩ := wraps_cons hw
          have hold : (s.mem.sem id).currentOwner = some u := by rwa [hsem] at hu
          have hlevel := hraised hstays
          rw [hkept]
          exact ⟨(h.owner hw u hold).1, by have := (h.owner hw u hold).2; omega⟩
        · have hlow := h.level (wraps_cons hw).2
          have hlevel := hraised (wraps_cons hw).1
          omega
      · rw [if_pos h.mutex] at hlevel
        have hraised : levelWraps id ⟨s, t, s'⟩ = false →
            (s'.mem.sem id).recursionLevel = (s.mem.sem id).recursionLevel + 1 :=
          fun hw => level_raised hw hlevel
        refine ⟨⟨hmade, hmutex, fun hw u hu => ?_, fun hw => ?_⟩, .acquired hpos htok⟩
        · have hself : t = u := by
            rw [hown, asTask] at hu
            split at hu
            · exact Option.some.inj hu
            · cases hu
          have hlow := h.level (wraps_cons hw).2
          have hone := hraised (wraps_cons hw).1
          rw [holder_acquired hsend htok]
          exact ⟨congrArg some hself, by omega⟩
        · have hlow := h.level (wraps_cons hw).2
          have hone := hraised (wraps_cons hw).1
          omega
      · have hkept : holder id (⟨s, t, s'⟩ :: l) = holder id l := holder_killed hsend htok
        refine ⟨⟨hmade, hmutex, fun hw u hu => ?_, fun hw => hlevel ▸ h.level (wraps_cons hw).2⟩, .lost htok hkept⟩
        rw [hown] at hu
        rw [hkept, hlevel]
        exact h.owner (wraps_cons hw).2 u hu
      · exact absurd hp' hgive

/-! ### Runs -/

omit [DecidableEq θ] [DecidableEq ι] in
/-- What `semMCreate` makes. -/
theorem Creates.mutex {opt : Nat} (hc : Creates id (.mutex opt) x) :
    Possessed id x.post.mem [] ∧ (x.post.mem.sem id).tokenCount = 1 := by
  obtain ⟨_, hlive, hv⟩ := hc
  have hcreated := Create.block_created hv
  have hmutex : (x.post.mem.sem id).isMutex := hcreated.kind.mpr ⟨opt, rfl⟩
  refine ⟨⟨by rw [hlive]; exact nofun, hmutex, fun _ u hu => ?_, fun _ => Int.le_of_eq hcreated.level.symm⟩,
    hcreated.token hmutex⟩
  rw [hcreated.owner] at hu
  cases hu

theorem possessed (h : Run (code (asTask registered) prio) Initial (later ++ x :: tr) s) {opt : Nat}
    (hc : Creates id (.mutex opt) x) : Possessed id s.mem later :=
  h.since (fun l s => Possessed id s.mem l) hc.mutex.1 fun _ _ _ hs hp => (possessed_step hp hs).1

/-- A `semGive` in a run, with the steps before it. -/
theorem give_split (h : Run (code (asTask registered) prio) Initial (later ++ x :: tr) s) {opt : Nat}
    (hc : Creates id (.mutex opt) x) {l before : List (SemTransition θ ι)} {y : SemTransition θ ι}
    (hl : l ++ y :: before = later) :
    Possessed id y.pre.mem before ∧ Step (code (asTask registered) prio) y.thread y.pre y.post := by
  subst hl
  have hstep : Step (code (asTask registered) prio) y.thread y.pre y.post := h.steps y (by simp)
  rw [List.append_assoc, List.cons_append] at h
  exact ⟨possessed h.before hc, hstep⟩

/-- A `semGive` is by the holder, or refused, unless it is of one of the two kinds. -/
theorem gives_owned_iff {y : SemTransition θ ι} {before : List (SemTransition θ ι)} (h : Possessed id y.pre.mem before)
    (hs : Step (code (asTask registered) prio) y.thread y.pre y.post) (hg : giving id y = true) :
    GivesOwned id before y ↔ unownedGive registered id before y = false := by
  have hp : y.pre.ctl y.thread = .awake (.giveStart id) := by simpa [giving] using hg
  obtain ⟨_, hblock, _⟩ | ⟨p, p', hp', hnext, hr, _⟩ := step_cases hs
  · rw [hp] at hblock
    exact absurd rfl (hblock _)
  · rw [hp] at hp'
    cases hp'
    have hunowned : unownedGive registered id before y = false ↔
        (registered y.thread = false → (y.pre.mem.sem id).currentOwner = none → holder id before = some y.thread) ∧
        (before.any (levelWraps id) = true → registered y.thread = true →
          (y.pre.mem.sem id).currentOwner = some y.thread → holder id before = some y.thread) := by
      simp only [unownedGive, strayGive, surplusGive, hg, Bool.or_eq_false_iff, decide_eq_false_iff_not, true_and,
        not_and, not_not, ne_eq]
    rw [hunowned]
    unfold GivesOwned
    rw [hnext]
    cases hr.give_end with
    | accepted hmine _ hpoint =>
      have howner : (y.pre.mem.sem id).currentOwner = asTask registered y.thread := hmine h.mutex
      constructor
      · rintro (⟨hheld, _⟩ | ⟨hrefused, _⟩)
        · exact ⟨fun _ _ => hheld, fun _ _ _ => hheld⟩
        · obtain rfl | rfl := hpoint <;> cases hrefused
      · rintro ⟨hplain, htask⟩
        refine .inl ⟨?_, hpoint.imp (congrArg _) (congrArg _)⟩
        by_cases hreg : registered y.thread = true
        · rw [asTask, if_pos hreg] at howner
          by_cases hw : before.any (levelWraps id) = true
          · exact htask hw hreg howner
          · exact (h.owner (Bool.eq_false_iff.mpr hw) _ howner).1
        · rw [asTask, if_neg hreg] at howner
          exact hplain (Bool.eq_false_iff.mpr hreg) howner
    | refused _ hother hsame =>
      refine ⟨fun _ => ⟨fun hplain hnone => ?_, fun _ hreg hown => ?_⟩, fun _ => .inr ⟨rfl, hsame⟩⟩
      · rw [asTask, hplain, if_neg Bool.false_ne_true, hnone] at hother
        exact absurd rfl hother
      · rw [asTask, if_pos hreg, hown] at hother
        exact absurd rfl hother

/-- Without such gives a mutex has at most one token, and none while somebody holds it. -/
theorem bounded (h : Run (code (asTask registered) prio) Initial (later ++ x :: tr) s) {opt : Nat}
    (hc : Creates id (.mutex opt) x)
    (hno : ∀ l y before, l ++ y :: before = later → unownedGive registered id before y = false) :
    (s.mem.sem id).tokenCount ≤ 1 ∧ (holder id later ≠ none → (s.mem.sem id).tokenCount ≤ 0) := by
  refine h.since (fun l s => (s.mem.sem id).tokenCount ≤ 1 ∧ (holder id l ≠ none → (s.mem.sem id).tokenCount ≤ 0))
    ⟨Int.le_of_eq hc.mutex.2, fun hne => absurd rfl hne⟩ ?_
  rintro y l ⟨l', hl⟩ hs ⟨hone, hzero⟩
  obtain ⟨hposs, _⟩ := give_split h hc hl
  have hmove : HolderStep id y l := (possessed_step hposs hs).2
  cases hmove with
  | kept htok hkept =>
    rw [htok, hkept]
    exact ⟨hone, hzero⟩
  | acquired hpos htok => exact ⟨by omega, fun _ => by omega⟩
  | lost htok hkept =>
    rw [hkept]
    exact ⟨by omega, fun hne => by have := hzero hne; omega⟩
  | returned hg htok hnone =>
    have hheld : holder id l = some y.thread := by
      obtain ⟨hheld, _⟩ | ⟨_, hsame⟩ := (gives_owned_iff hposs hs hg).mpr (hno l' y l hl)
      · exact hheld
      · rw [hsame] at htok
        exact absurd htok.symm (increment_ne _)
    have hnoToken := hzero (by rw [hheld]; exact nofun)
    rw [increment_of_ne (by unfold intMax; omega)] at htok
    exact ⟨by omega, fun hne => absurd hnone hne⟩

/-- A mutex is given by its holder only, and has at most one token, in just those runs in
which no plain thread gives it without holding it while it has no task for its owner, and no
task gives it once more after its level has come round. -/
theorem give_law_iff (h : Run (code (asTask registered) prio) Initial (later ++ x :: tr) s) {opt : Nat}
    (hc : Creates id (.mutex opt) x) :
    GiveLaw id x later ↔ ∀ l y before, l ++ y :: before = later → unownedGive registered id before y = false := by
  constructor
  · intro hlaw l y before hl
    obtain ⟨hposs, hs⟩ := give_split h hc hl
    by_cases hg : giving id y = true
    · exact (gives_owned_iff hposs hs hg).mp (hlaw.gives l y before hl hg)
    · simp [unownedGive, strayGive, surplusGive, hg]
  · intro hno
    refine ⟨fun l y before hl hg => ?_, fun y hy => ?_⟩
    · obtain ⟨hposs, hs⟩ := give_split h hc hl
      exact (gives_owned_iff hposs hs hg).mpr (hno l y before hl)
    · obtain hy | hy := List.mem_append.mp hy
      · obtain ⟨l, before, hl⟩ := List.append_of_mem hy
        obtain ⟨_, hs⟩ := give_split h hc hl.symm
        subst hl
        rw [List.append_assoc, List.cons_append] at h
        have hrun : Run (code (asTask registered) prio) Initial ((y :: before) ++ x :: tr) y.post := .step h.before hs
        refine (bounded hrun hc fun l' z before' hl' => ?_).1
        exact hno (l ++ l') z before' (by rw [List.append_assoc, hl'])
      · rw [List.mem_singleton.mp hy]
        exact Int.le_of_eq hc.mutex.2

/-- Whether there is such a give among some steps. -/
def strays (registered : θ → Bool) (id : ι) : List (SemTransition θ ι) → Bool
  | [] => false
  | y :: before => unownedGive registered id before y || strays registered id before

theorem strays_eq_false (h : strays registered id later = false) {l before : List (SemTransition θ ι)}
    {y : SemTransition θ ι} (hl : l ++ y :: before = later) : unownedGive registered id before y = false := by
  subst hl
  induction l with
  | nil => exact (Bool.or_eq_false_iff.mp h).1
  | cons z l ih => exact ih (Bool.or_eq_false_iff.mp h).2

end

/-- A task takes the mutex, a plain thread is refused, and the task gives it back. -/
def refusedGive : List (Fin 2 × Input (Choice ℕ)) :=
  makes 0 7 (.mutex 0) :: goesOn 0 3 ++ calls 0 (.take waitForever) 7 :: goesOn 0 8 ++ calls 1 .give 7 :: goesOn 1 6 ++
    calls 0 .give 7 :: goesOn 0 6

theorem refusedGive_owned : ∃ (x : SemTransition (Fin 2) ℕ) (later : List (SemTransition (Fin 2) ℕ)),
    Creates 7 (.mutex 0) x ∧ GiveLaw 7 x later := by
  obtain ⟨tr, s, hr, hs⟩ := run_of_check (code (asTask fun t => t = 0) fun _ => 0) refusedGive (fun tr _ =>
      (∃ x ∈ tr.getLast?, Creates 7 (.mutex 0) x) ∧ strays (fun t => t = 0) 7 tr.dropLast = false)
    boot_initial (by decide)
  obtain ⟨⟨x, hlast, hc⟩, hno⟩ := of_decide_eq_true hs
  rw [← List.dropLast_append_getLast? x hlast] at hr
  exact ⟨x, tr.dropLast, hc, (give_law_iff hr hc).mpr fun _ _ _ hl => strays_eq_false hno hl⟩

/-- A plain thread gives a mutex that nobody has. -/
def givenFree : List (Fin 2 × Input (Choice ℕ)) :=
  makes 0 7 (.mutex 0) :: goesOn 0 3 ++ calls 1 .give 7 :: goesOn 1 6

/-- It succeeds, and the mutex has two tokens. -/
theorem givenFree_two_tokens :
    ¬ ∀ (tr : List (SemTransition (Fin 2) ℕ)) (s : SemState (Fin 2) ℕ),
      Run (code (asTask fun t => t = 0) fun _ => 0) Initial tr s → (∃ x ∈ tr, Creates 7 (.mutex 0) x) →
      s.ctl 1 = .awake (.returned .give 7 .ok) → (s.mem.sem 7).tokenCount ≤ 1 := by
  intro hclaim
  obtain ⟨tr, s, hr, hs⟩ := run_of_check (code (asTask fun t => t = 0) fun _ => 0) givenFree
    (fun tr s => (∃ x ∈ tr, Creates 7 (.mutex 0) x) ∧ s.ctl 1 = .awake (.returned .give 7 .ok) ∧
      (s.mem.sem 7).tokenCount = 2) boot_initial (by decide)
  obtain ⟨hmade, hret, htwo⟩ := of_decide_eq_true hs
  have hone := hclaim tr s hr hmade hret
  rw [htwo] at hone
  omega

end V2lin.Sem
