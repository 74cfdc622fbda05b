import V2lin.Sem.Tokens

/-! The tokens of a binary semaphore.

`semBCreate` makes a semaphore with no token or one, and a take takes a token only if there
is one. `semGive` has a case for the mutex but none for the binary semaphore: it adds a
token to whatever there is. So there is never more than one token if and only if no
`semGive` finds one. -/
namespace V2lin.Sem
open Threads V2lin.Arith V2lin.Task

section
variable {θ ι : Type} [DecidableEq θ] [DecidableEq ι]
variable {myTask : θ → Option θ} {prio : θ → Int} {t : θ} {p p' : Pc ι} {m m' : Mem θ ι} {s s' : SemState θ ι} {id : ι}
variable {x : SemTransition θ ι} {tr later : List (SemTransition θ ι)}

/-- The step of a `semGive` under the lock of the semaphore. -/
def giving (id : ι) (x : SemTransition θ ι) : Bool := x.pre.ctl x.thread = .awake (.giveStart id)

/-- A `semGive` that finds a token. -/
def givesFull (id : ι) (x : SemTransition θ ι) : Bool :=
  giving id x ∧ 0 < (x.pre.mem.sem id).tokenCount

/-- The step in which a `semTake` takes a token. -/
def takesToken (id : ι) (x : SemTransition θ ι) : Bool :=
  (x.post.mem.sem id).tokenCount = (x.pre.mem.sem id).tokenCount - 1

/-- The semaphore has been made, and not by `semMCreate`, and no task has it recursively. -/
structure Plain (m : Mem θ ι) (id : ι) : Prop where
  made : m.block id ≠ .fresh
  kind : ¬ (m.sem id).isMutex
  level : (m.sem id).recursionLevel = 0

/-- What a step does to the tokens of a semaphore that is no mutex. -/
inductive TokenStep (id : ι) (x : SemTransition θ ι) : Prop where
  | kept : (x.post.mem.sem id).tokenCount = (x.pre.mem.sem id).tokenCount → giving id x = false → TokenStep id x
  | gave : giving id x = true → (x.post.mem.sem id).tokenCount = increment (x.pre.mem.sem id).tokenCount → TokenStep id x
  | took : giving id x = false → 0 < (x.pre.mem.sem id).tokenCount →
      (x.post.mem.sem id).tokenCount = (x.pre.mem.sem id).tokenCount - 1 → TokenStep id x

theorem Runs.gave_token (h : Runs myTask prio t (.giveStart id) m m' p') :
    ∃ error, Gave (m.sem id) (myTask t) (m'.sem id) error := by
  cases h with
  | gave hg => exact ⟨_, by rw [Mem.setSem_self]; exact giveToken_gave hg⟩
  | left hw =>
    obtain ⟨_, hp⟩ := hw.point
    cases hp
  | sleeps hp => cases hp
  | polls hp => cases hp
  | called _ _ hp => cases hp
  | refused hp => cases hp
  | created _ _ hp => cases hp

/-- A semaphore that is no mutex stays one, and a step changes its tokens in one of three ways. -/
theorem plain_step (h : Plain s.mem id) (hs : Step (code myTask prio) t s s') :
    Plain s'.mem id ∧ TokenStep id ⟨s, t, s'⟩ := by
  obtain ⟨hm, hblock, _⟩ | ⟨p, p', hp, _, hr, _⟩ := step_cases hs
  · have hgives : giving id ⟨s, t, s'⟩ = false := by
      simp only [giving, decide_eq_false_iff_not]
      intro hp
      rw [hp] at hblock
      exact hblock _ rfl
    rw [hm]
    exact ⟨h, .kept (by rw [hm]) hgives⟩
  · have hgives : giving id ⟨s, t, s'⟩ = true ↔ p = .giveStart id := by
      simp only [giving, hp, decide_eq_true_eq, Ctl.awake.injEq]
    have hkind : ¬ (s'.mem.sem id).isMutex := by
      unfold V2lsem.isMutex
      rw [hr.flags_eq h.made]
      exact h.kind
    have hmade := hr.block_ne_fresh h.made
    by_cases hgive : p = .giveStart id
    · -- no level is left to give up, so the token is added
      subst hgive
      obtain ⟨error, hgave⟩ := hr.gave_token
      have hok : error = .ok := hgave.allowed.mpr fun hm => absurd hm h.kind
      obtain ⟨htok, hlevel, _⟩ := hgave.plain hok (Int.le_of_eq h.level)
      exact ⟨⟨hmade, hkind, hlevel.trans h.level⟩, .gave (hgives.mpr rfl) htok⟩
    · have hgives' : giving id ⟨s, t, s'⟩ = false := by
        rw [Bool.eq_false_iff]
        exact fun hg => hgive (hgives.mp hg)
      obtain ⟨htok, _, hlevel⟩ | ⟨_, _, _, hm, _⟩ | ⟨_, _, _, _, _, _, htok, _, hlevel⟩ | ⟨_, _, _, _, htok, _, hlevel⟩ |
        ⟨hp', _⟩ := hr.owner_cases h.made
      · exact ⟨⟨hmade, hkind, hlevel.trans h.level⟩, .kept htok hgives'⟩
      · exact absurd hm h.kind
      · rw [if_neg h.kind] at hlevel
        exact ⟨⟨hmade, hkind, hlevel.trans h.level⟩, .took hgives' (hr.takes h.made htok).2.1 htok⟩
      · exact ⟨⟨hmade, hkind, hlevel.trans h.level⟩, .took hgives' (hr.takes h.made htok).2.1 htok⟩
      · exact absurd hp' hgive

omit [DecidableEq θ] [DecidableEq ι] in
/-- What `semBCreate` makes. -/
theorem Creates.binary {opt : Nat} {initialState : Int} (hc : Creates id (.binary opt initialState) x) :
    Plain x.post.mem id ∧ ((x.post.mem.sem id).tokenCount = 0 ∨ (x.post.mem.sem id).tokenCount = 1) := by
  obtain ⟨_, hlive, hv⟩ := hc
  have hcreated := Create.block_created hv
  refine ⟨⟨by rw [hlive]; exact nofun, ?_, hcreated.level⟩, ?_⟩
  · rw [hcreated.kind]
    rintro ⟨_, heq⟩
    cases heq
  · simp only [Create.block, semBCreate] at hv
    split at hv
    · cases hv
    · rw [← Option.some.inj hv]
      show (if initialState = 0 then (0 : Int) else 1) = 0 ∨ (if initialState = 0 then (0 : Int) else 1) = 1
      split
      · exact .inl rfl
      · exact .inr rfl

/-- After a semaphore has been made by `semBCreate` it is no mutex. -/
theorem binary_plain (h : Run (code myTask prio) Initial (later ++ x :: tr) s) {opt : Nat} {initialState : Int}
    (hc : Creates id (.binary opt initialState) x) : Plain s.mem id :=
  h.after (fun s => Plain s.mem id) hc.binary.1 fun _ _ hs hp => (plain_step hp hs).1

/-- The steps after the creation are steps of a semaphore that is no mutex. -/
theorem binary_steps (h : Run (code myTask prio) Initial (later ++ x :: tr) s) {opt : Nat} {initialState : Int}
    (hc : Creates id (.binary opt initialState) x) : ∀ y ∈ later, TokenStep id y := by
  intro y hy
  obtain ⟨l, l', rfl⟩ := List.append_of_mem hy
  rw [List.append_assoc, List.cons_append] at h
  have hstep : Step (code myTask prio) y.thread y.pre y.post := h.steps y (by simp)
  exact (plain_step (binary_plain h.before hc) hstep).2

/-- What is expected of a binary semaphore in a run, from its creation on: at most one token,
so that without a `semGive` at most one `semTake` takes a token. -/
structure BinaryLaw (id : ι) (x : SemTransition θ ι) (later : List (SemTransition θ ι)) : Prop where
  bound : ∀ y ∈ later ++ [x], (y.post.mem.sem id).tokenCount = 0 ∨ (y.post.mem.sem id).tokenCount = 1
  single : ∀ l l', l ++ l' = later → (∀ y ∈ l, giving id y = false) → l.countP (takesToken id) ≤ 1

/-- Without a `semGive` every take is from the tokens that there were. -/
theorem takes_le (h : Run (code myTask prio) Initial (later ++ x :: tr) s)
    (hsteps : ∀ y ∈ later, TokenStep id y) (hno : ∀ y ∈ later, giving id y = false)
    (hpos : 0 ≤ (x.post.mem.sem id).tokenCount) :
    0 ≤ (s.mem.sem id).tokenCount ∧
      (later.countP (takesToken id) : Int) + (s.mem.sem id).tokenCount = (x.post.mem.sem id).tokenCount := by
  refine h.since (fun l s => 0 ≤ (s.mem.sem id).tokenCount ∧
    (l.countP (takesToken id) : Int) + (s.mem.sem id).tokenCount = (x.post.mem.sem id).tokenCount) ⟨hpos, by simp⟩ ?_
  rintro y l hy _ ⟨h0, hsum⟩
  have hin : y ∈ later := hy.subset (List.mem_cons_self ..)
  cases hsteps y hin with
  | kept htok =>
    have hnot : takesToken id y = false := by
      simp only [takesToken, decide_eq_false_iff_not]
      omega
    rw [List.countP_cons_of_neg (by simp [hnot])]
    omega
  | gave hg =>
    rw [hno y hin] at hg
    cases hg
  | took _ hlt htok =>
    rw [List.countP_cons_of_pos (by simpa [takesToken] using htok)]
    omega

/-- No token or one. -/
def HasAtMostOne (id : ι) (s : SemState θ ι) : Prop := (s.mem.sem id).tokenCount = 0 ∨ (s.mem.sem id).tokenCount = 1

omit [DecidableEq θ] in
/-- A step keeps to one token if it gives none where there is one. -/
theorem TokenStep.bounded {y : SemTransition θ ι} (h : TokenStep id y) (hfull : givesFull id y = false)
    (hpre : HasAtMostOne id y.pre) : HasAtMostOne id y.post := by
  unfold HasAtMostOne at *
  cases h with
  | kept htok => omega
  | gave hg htok =>
    have h0 : ¬ 0 < (y.pre.mem.sem id).tokenCount := by
      intro hpos
      simp [givesFull, hg, hpos] at hfull
    rw [increment_of_ne (by unfold intMax; omega)] at htok
    omega
  | took _ hpos htok => omega

omit [DecidableEq θ] in
/-- A give where there is a token makes two. -/
theorem TokenStep.not_bounded {y : SemTransition θ ι} (h : TokenStep id y) (hfull : givesFull id y = true) :
    ¬ HasAtMostOne id y.post := by
  obtain ⟨hg, hpos⟩ : giving id y = true ∧ 0 < (y.pre.mem.sem id).tokenCount := by simpa [givesFull] using hfull
  unfold HasAtMostOne
  cases h with
  | kept _ hno =>
    rw [hg] at hno
    cases hno
  | gave _ htok =>
    unfold increment intMin at htok
    split at htok <;> omega
  | took hno =>
    rw [hg] at hno
    cases hno

/-- Without such a give there is at most one token at every time. -/
theorem binary_bounded (h : Run (code myTask prio) Initial (later ++ x :: tr) s) (hsteps : ∀ y ∈ later, TokenStep id y)
    (hfull : ∀ y ∈ later, givesFull id y = false) (hfirst : HasAtMostOne id x.post) :
    HasAtMostOne id s ∧ ∀ y ∈ later ++ [x], HasAtMostOne id y.post := by
  refine h.since (fun l s => HasAtMostOne id s ∧ ∀ y ∈ l ++ [x], HasAtMostOne id y.post) ⟨hfirst, ?_⟩ ?_
  · intro y hy
    rwa [List.mem_singleton.mp hy]
  · intro y l hl _ ⟨hpre, hall⟩
    have hin : y ∈ later := hl.subset (List.mem_cons_self ..)
    have hpost := (hsteps y hin).bounded (hfull y hin) hpre
    refine ⟨hpost, fun z hz => ?_⟩
    obtain rfl | hz := List.mem_cons.mp hz
    · exact hpost
    · exact hall z hz

/-- A binary semaphore has at most one token in a run if and only if no `semGive` in it finds
a token. -/
theorem binary_law_iff (h : Run (code myTask prio) Initial (later ++ x :: tr) s) {opt : Nat} {initialState : Int}
    (hc : Creates id (.binary opt initialState) x) :
    BinaryLaw id x later ↔ ∀ y ∈ later, givesFull id y = false := by
  have hsteps := binary_steps h hc
  constructor
  · intro hlaw y hy
    by_contra hfull
    exact (hsteps y hy).not_bounded (by simpa using hfull) (hlaw.bound y (List.mem_append_left _ hy))
  · intro hfull
    have hbound := (binary_bounded h hsteps hfull hc.binary.2).2
    refine ⟨hbound, fun l l' hl hno => ?_⟩
    -- the takes begin with the tokens after the step before them
    have hlast : ∃ z l'', l' ++ x :: tr = z :: l'' ∧ z ∈ l' ++ [x] := by
      cases l' with
      | nil => exact ⟨x, tr, rfl, List.mem_singleton.mpr rfl⟩
      | cons z l' => exact ⟨z, l' ++ x :: tr, rfl, List.mem_cons_self ..⟩
    obtain ⟨z, l'', htail, hz⟩ := hlast
    have htok : HasAtMostOne id z.post := hbound z (by rw [← hl, List.append_assoc]; exact List.mem_append_right _ hz)
    rw [← hl, List.append_assoc, htail] at h
    have hbefore : ∀ y ∈ l, TokenStep id y := fun y hy => hsteps y (by rw [← hl]; exact List.mem_append_left _ hy)
    unfold HasAtMostOne at htok
    have htakes := takes_le h hbefore hno (by omega)
    omega

end

/-- A semaphore made with its token, taken and given once each. -/
def takenAndGiven : List (Fin 1 × Input (Choice ℕ)) :=
  makes 0 7 (.binary 0 1) :: goesOn 0 3 ++ calls 0 (.take 5) 7 :: goesOn 0 8 ++ calls 0 .give 7 :: goesOn 0 6

theorem takenAndGiven_bounded : ∃ (x : SemTransition (Fin 1) ℕ) (later : List (SemTransition (Fin 1) ℕ)),
    Creates 7 (.binary 0 1) x ∧ BinaryLaw 7 x later := by
  obtain ⟨tr, s, hr, hs⟩ := run_of_check (code some fun _ => 0) takenAndGiven (fun tr _ =>
      (∃ x ∈ tr.getLast?, Creates 7 (.binary 0 1) x) ∧ ∀ y ∈ tr.dropLast, givesFull 7 y = false)
    boot_initial (by decide)
  obtain ⟨⟨x, hlast, hc⟩, hno⟩ := of_decide_eq_true hs
  rw [← List.dropLast_append_getLast? x hlast] at hr
  exact ⟨x, tr.dropLast, hc, (binary_law_iff hr hc).mpr hno⟩

/-- Two calls of `semGive` and nobody that takes. -/
def givenTwice : List (Fin 1 × Input (Choice ℕ)) :=
  makes 0 7 (.binary 0 0) :: goesOn 0 3 ++ calls 0 .give 7 :: goesOn 0 6 ++ calls 0 .give 7 :: goesOn 0 6

/-- A binary semaphore that is given twice has two tokens. -/
theorem givenTwice_two_tokens :
    ¬ ∀ (tr : List (SemTransition (Fin 1) ℕ)) (s : SemState (Fin 1) ℕ), Run (code some fun _ => 0) Initial tr s →
      (∃ x ∈ tr, Creates 7 (.binary 0 0) x) → (s.mem.sem 7).tokenCount = 0 ∨ (s.mem.sem 7).tokenCount = 1 := by
  intro hclaim
  obtain ⟨tr, s, hr, hs⟩ := run_of_check (code some fun _ => 0) givenTwice
    (fun tr s => (∃ x ∈ tr, Creates 7 (.binary 0 0) x) ∧ (s.mem.sem 7).tokenCount = 2) boot_initial (by decide)
  obtain ⟨hmade, htwo⟩ := of_decide_eq_true hs
  have htok := hclaim tr s hr hmade
  rw [htwo] at htok
  omega

end V2lin.Sem
