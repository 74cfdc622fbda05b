import V2lin.Restart.Code

/-! Who gets a new thread.

`restart_wdog` names one watchdog, so it is the right one for `self_starter` only while no
second task restarts itself before the first one's watchdog has fired. Under that condition
the system goes round: no watchdog, one that is made, armed, fired, and deleted by its own
`self_starter`. -/
namespace V2lin.Restart
open Threads

section
variable {ι : Type} [DecidableEq ι]
variable {t : Thread} {p p' : Pc ι} {m m' : Mem ι} {tr later before : List (RestartTransition ι)} {s s' : RestartState ι}
variable {k : ℤ} {a : ι}

/-- If the step is the `wdCreate` of a task that restarts itself, no other restart watchdog
is on the list, and there is memory. -/
def Single (x : RestartTransition ι) : Prop :=
  x.pre.ctl x.thread = .awake .create →
    x.pre.mem.timers.wdogList = [] ∧ x.post.ctl x.thread ≠ .awake (.assign none)

/-! ### Where the threads are -/

/-- The points of the exception task. -/
def system : Pc ι → Bool
  | .delay | .tick _ | .starterDelete .. | .starterFind .. | .starterCreate .. => true
  | _ => false

omit [DecidableEq ι] in
theorem next_system [DecidableEq ι] (h : (code t p).Next p') : system p' = system p := by
  cases p with
  | tick next => cases next <;> exact h.elim
  | _ => first
    | exact h.elim
    | (cases h; rfl)

theorem Runs.system_eq (h : Runs t p m m' p') : system p' = system p := by
  cases h <;> rfl

theorem system_iff (h : Run code Initial tr s) (t : Thread) : system (s.ctl t).point = true ↔ t = .excTask := by
  induction h with
  | start hi =>
    cases t with
    | excTask => exact iff_of_true (by rw [hi.delay]; rfl) rfl
    | task taskid => exact iff_of_false (by rw [hi.running]; exact Bool.false_ne_true) nofun
  | @step tr s u s' _ hs ih =>
    by_cases hu : t = u
    · subst hu
      rw [← ih]
      obtain ⟨_, _, hsame | hnext⟩ | ⟨p, p', hp, hp', hr⟩ := step_cases hs
      · rw [hsame]
      · rw [next_system hnext]
      · rw [hp, hp', Ctl.point_awake, Ctl.point_awake, hr.system_eq]
    · rw [hs.ctl_other hu]
      exact ih

/-- The points at which something is under way with a watchdog. -/
def mark : Pc ι → Option (Pc ι)
  | .assign id => some (.assign id)
  | .start => some .start
  | .starterDelete id taskid next => some (.starterDelete id taskid next)
  | _ => none

/-- The watchdog whose timeout function is being run, and its task. -/
def serves : Pc ι → Option (ι × ℤ)
  | .starterDelete id taskid _ | .starterFind id taskid _ | .starterCreate id taskid _ => some (id, taskid)
  | _ => none

/-! ### The round -/

/-- How far the one restart watchdog is, from the list, the points marked and the watchdog
served. -/
inductive Stage (m : Mem ι) (marks : Thread → Option (Pc ι)) (served : Option (ι × ℤ)) : Prop where
  | quiet : m.timers.wdogList = [] → (∀ t, marks t = none) → Stage m marks served
  | made (k : ℤ) (a : ι) : m.timers.wdogList = [a] → (∀ j, served ≠ some (a, j)) →
      (marks (.task k) = some (.assign (some a)) ∨ marks (.task k) = some .start ∧ m.restartWdog = some a) →
      (∀ t ≠ .task k, marks t = none) → (m.timers.wdog a).ticksRemaining = 0 → Stage m marks served
  | armed (k : ℤ) (a : ι) : m.timers.wdogList = [a] → (∀ j, served ≠ some (a, j)) → m.restartWdog = some a →
      m.timers.wdog a = ⟨1, some .selfStarter, k⟩ → (∀ t, marks t = none) → Stage m marks served
  | fired (k : ℤ) (a : ι) : m.timers.wdogList = [a] → m.restartWdog = some a →
      marks .excTask = some (.starterDelete a k none) → (∀ t ≠ .excTask, marks t = none) → Stage m marks served

/-- The stage of a state. -/
def RoundOk (s : RestartState ι) : Prop :=
  Stage s.mem (fun t => mark (s.ctl t).point) (serves (s.ctl .excTask).point)

/-- The watchdogs that were ever served, and those on the list, have been made. -/
structure Allocated (s : RestartState ι) : Prop where
  linked : s.mem.timers.Linked
  served : ∀ id j, serves (s.ctl .excTask).point = some (id, j) → s.mem.timers.block id ≠ .fresh

variable {marks : Thread → Option (Pc ι)} {served : Option (ι × ℤ)}

theorem wdDelete_self {v : Watchdog.Mem ι Fn} (hl : v.wdogList = [a]) : (v.wdDelete a).1.wdogList = [] := by
  simp [Watchdog.Mem.wdDelete, hl]

omit [DecidableEq ι] in
/-- What touches neither the watchdogs nor a point marked leaves the stage alone. -/
theorem Stage.keep (h : Stage m marks served) (htimers : m'.timers = m.timers) (hwdog : m'.restartWdog = m.restartWdog)
    {served' : Option (ι × ℤ)} (hserved : served' = served ∨ served' = none) : Stage m' marks served' := by
  have hne : ∀ a, (∀ j, served ≠ some (a, j)) → ∀ j, served' ≠ some (a, j) := by
    intro a hno j he
    obtain rfl | rfl := hserved
    · exact hno j he
    · cases he
  cases h with
  | quiet hl hm => exact .quiet (htimers ▸ hl) hm
  | made k a hl hs hat hm ht => exact .made k a (htimers ▸ hl) (hne a hs) (hwdog ▸ hat) hm (htimers ▸ ht)
  | armed k a hl hs hw hv hm => exact .armed k a (htimers ▸ hl) (hne a hs) (hwdog ▸ hw) (htimers ▸ hv) hm
  | fired k a hl hw he hm => exact .fired k a (htimers ▸ hl) (hwdog ▸ hw) he hm

omit [DecidableEq ι] in
/-- A task that is marked has made the one watchdog, and is about to store it or to start it. -/
theorem Stage.of_task (h : Stage m marks served) (ht : t ≠ .excTask) {q : Pc ι} (hmark : marks t = some q) :
    ∃ k b, t = .task k ∧ m.timers.wdogList = [b] ∧ (∀ j, served ≠ some (b, j)) ∧
      (q = .assign (some b) ∨ q = .start ∧ m.restartWdog = some b) ∧ (∀ u ≠ .task k, marks u = none) ∧
      (m.timers.wdog b).ticksRemaining = 0 := by
  cases h with
  | quiet _ hm => rw [hm t] at hmark; cases hmark
  | armed _ _ _ _ _ _ hm => rw [hm t] at hmark; cases hmark
  | fired _ _ _ _ _ hm => rw [hm t ht] at hmark; cases hmark
  | made k b hl hs hat hm hticks =>
    obtain rfl : t = .task k := by
      by_contra hne
      rw [hm t hne] at hmark
      cases hmark
    rw [hmark] at hat
    refine ⟨k, b, rfl, hl, hs, ?_, hm, hticks⟩
    obtain hat | ⟨hat, hw⟩ := hat
    · exact .inl (Option.some.inj hat)
    · exact .inr ⟨Option.some.inj hat, hw⟩

omit [DecidableEq ι] in
/-- If the ticker is marked, the one watchdog has fired and is the last that was made. -/
theorem Stage.of_exc (h : Stage m marks served) {q : Pc ι} (hmark : marks .excTask = some q) :
    ∃ k b, q = .starterDelete b k none ∧ m.timers.wdogList = [b] ∧ m.restartWdog = some b ∧
      ∀ u ≠ .excTask, marks u = none := by
  cases h with
  | quiet _ hm => rw [hm] at hmark; cases hmark
  | armed _ _ _ _ _ _ hm => rw [hm] at hmark; cases hmark
  | made _ _ _ _ _ hm =>
    rw [hm .excTask nofun] at hmark
    cases hmark
  | fired k b hl hw he hm => exact ⟨k, b, Option.some.inj (hmark.symm.trans he), hl, hw, hm⟩

/-- One step round. -/
theorem Runs.stage (hr : Runs t p m m' p') (h : Stage m marks served) (hmark : marks t = mark p)
    (hsystem : system p = true ↔ t = .excTask) (hserves : t = .excTask → served = serves p)
    (hblock : ∀ id j, served = some (id, j) → m.timers.block id ≠ .fresh)
    (hsingle : p = .create → m.timers.wdogList = [] ∧ p' ≠ .assign none) :
    Stage m' (Function.update marks t (mark p')) (if t = .excTask then serves p' else served) := by
  have hkeep : m'.timers = m.timers → m'.restartWdog = m.restartWdog → mark p' = mark p →
      (serves p' = serves p ∨ serves p' = none) →
      Stage m' (Function.update marks t (mark p')) (if t = .excTask then serves p' else served) := by
    intro htimers hwdog hsame hserved
    rw [hsame, ← hmark, Function.update_eq_self]
    refine h.keep htimers hwdog ?_
    split
    · rename_i ht
      rwa [hserves ht]
    · exact .inl rfl
  cases hr with
  | made hfresh =>
    rename_i id
    obtain ⟨hl, _⟩ := hsingle rfl
    cases t with
    | excTask => exact absurd (hsystem.mpr rfl) Bool.false_ne_true
    | task k =>
      have hnone : ∀ u, marks u = none := by
        cases h with
        | quiet _ hm => exact hm
        | made _ _ hl' => rw [hl] at hl'; cases hl'
        | armed _ _ hl' => rw [hl] at hl'; cases hl'
        | fired _ _ hl' => rw [hl] at hl'; cases hl'
      refine .made k id ?_ (fun j he => hblock id j he hfresh) (.inl (Function.update_self ..)) (fun u hu => ?_) ?_
      · simp [Watchdog.Mem.wdCreate, hfresh, hl]
      · rw [Function.update_of_ne hu, hnone u]
      · simp [Watchdog.Mem.wdCreate, hfresh]
  | noMemory => exact absurd rfl (hsingle rfl).2
  | assigned id =>
    obtain ⟨k, b, rfl, hl, hs, hat, hm, hticks⟩ := h.of_task (fun ht => Bool.false_ne_true (hsystem.mpr ht)) hmark
    obtain hat | ⟨hat, _⟩ := hat <;> cases hat
    exact .made k b hl hs (.inr ⟨Function.update_self .., rfl⟩) (fun u hu => by rw [Function.update_of_ne hu, hm u hu])
      hticks
  | started ht hw =>
    rename_i id taskid
    subst ht
    have htask : Thread.task taskid ≠ .excTask := nofun
    obtain ⟨k, b, hk, hl, hs, hat, hm, hticks⟩ := h.of_task htask hmark
    cases hk
    obtain hat | ⟨_, hb⟩ := hat
    · cases hat
    · rw [hw] at hb
      obtain rfl : id = b := Option.some.inj hb
      refine .armed taskid id ?_ hs hw ?_ fun u => ?_
      · simp [Watchdog.Mem.wdStart, hl]
      · simp [Watchdog.Mem.wdStart, hl, Watchdog.V2ptWdog.start]
      · by_cases hu : u = .task taskid
        · rw [hu, Function.update_self]
          rfl
        · rw [Function.update_of_ne hu, hm u hu]
  | skipped hw =>
    obtain ⟨k, b, _, _, _, hat, _⟩ := h.of_task (fun ht => Bool.false_ne_true (hsystem.mpr ht)) hmark
    rw [hw] at hat
    obtain hat | ⟨_, hat⟩ := hat <;> cases hat
  | ticked hin hf =>
    rename_i id
    obtain rfl := hsystem.mp rfl
    have hnone : mark (.tick (Watchdog.nextWdog m.timers.wdogList id) : Pc ι) = mark (.tick (some id)) := rfl
    rw [hnone, ← hmark, Function.update_eq_self]
    cases h with
    | quiet hl => rw [hl] at hin; cases hin
    | fired _ _ _ _ he => rw [he] at hmark; cases hmark
    | armed k b hl _ _ hv =>
      rw [hl, List.mem_singleton] at hin
      rw [hin, hv] at hf
      cases hf
    | made k b hl hs hat hm hticks =>
      rw [hl, List.mem_singleton] at hin
      subst hin
      refine .made k id hl (fun _ => nofun) hat hm ?_
      simp [Watchdog.V2ptWdog.tick, hticks]
  | fired hin hf =>
    rename_i id
    obtain rfl := hsystem.mp rfl
    cases h with
    | quiet hl => rw [hl] at hin; cases hin
    | fired _ _ _ _ he => rw [he] at hmark; cases hmark
    | made k b hl hs hat hm hticks =>
      rw [hl, List.mem_singleton] at hin
      rw [hin] at hf
      simp [Watchdog.V2ptWdog.tick, hticks] at hf
    | armed k b hl _ hw hv hm =>
      rw [hl, List.mem_singleton] at hin
      subst hin
      refine .fired k id hl hw ?_ fun u hu => ?_
      · rw [Function.update_self, hv, hl]
        simp [mark, Watchdog.V2ptWdog.tick, Watchdog.nextWdog]
      · rw [Function.update_of_ne hu, hm u]
  | deleted id taskid next =>
    obtain rfl := hsystem.mp rfl
    obtain ⟨k, b, _, hl, hw, hm⟩ := h.of_exc hmark
    refine .quiet ?_ fun u => ?_
    · rw [Mem.wdDelete, hw]
      exact wdDelete_self hl
    · by_cases hu : u = .excTask
      · rw [hu, Function.update_self]
        rfl
      · rw [Function.update_of_ne hu, hm u hu]
  | listed => exact hkeep rfl rfl rfl (.inl rfl)
  | unlisted => exact hkeep rfl rfl rfl (.inr rfl)
  | created => exact hkeep rfl rfl rfl (.inr rfl)
  | _ => exact hkeep rfl rfl rfl (.inl rfl)

omit [DecidableEq ι] in
theorem next_unmarked [DecidableEq ι] (h : (code t p).Next p') :
    mark p = none ∧ mark p' = none ∧ serves p = none ∧ serves p' = none := by
  cases p with
  | tick next => cases next <;> exact h.elim
  | _ => first
    | exact h.elim
    | (cases h; exact ⟨rfl, rfl, rfl, rfl⟩)

theorem Runs.alters (hr : Runs t p m m' p') (hm : m.timers.Linked) : Watchdog.Alters m.timers m'.timers := by
  cases hr with
  | made => exact .call hm (.create _)
  | started => exact .call hm (.make (.start ..) _)
  | ticked => exact .same hm rfl rfl
  | fired => exact .same hm rfl rfl
  | deleted =>
    unfold Mem.wdDelete
    split
    · exact .call hm (.make .delete _)
    · exact .same hm rfl rfl
  | _ => exact .same hm rfl rfl

/-- The watchdog that a block begins to serve is on the list. -/
theorem Runs.serves_cases (hr : Runs t p m m' p') {id : ι} {j : ℤ} (h : serves p' = some (id, j)) :
    serves p = some (id, j) ∨ id ∈ m.timers.wdogList := by
  cases hr with
  | fired hin =>
    cases h
    exact .inr hin
  | deleted => exact .inl h
  | listed => exact .inl h
  | _ => cases h

theorem allocated (h : Run code Initial tr s) : Allocated s := by
  induction h with
  | start hi =>
    refine ⟨⟨by rw [hi.wdogList]; exact .nil, by simp [hi.wdogList]⟩, ?_⟩
    rw [hi.delay]
    exact nofun
  | @step tr s t s' hr hs ih =>
    obtain ⟨hm, _, hpoint⟩ | ⟨p, p', hp, hp', hruns⟩ := step_cases hs
    · refine ⟨hm ▸ ih.linked, fun id j hserved => hm ▸ ih.served id j ?_⟩
      by_cases ht : .excTask = t
      · subst ht
        obtain hsame | hnext := hpoint
        · rwa [hsame] at hserved
        · rw [(next_unmarked hnext).2.2.2] at hserved
          cases hserved
      · rwa [hs.ctl_other ht] at hserved
    · have halters := hruns.alters ih.linked
      refine ⟨halters.linked, fun id j hserved => halters.created id ?_⟩
      by_cases ht : .excTask = t
      · subst ht
        rw [hp', Ctl.point_awake] at hserved
        obtain hold | hin := hruns.serves_cases hserved
        · exact ih.served id j (by rw [hp]; exact hold)
        · exact ih.linked.created id hin
      · rw [hs.ctl_other ht] at hserved
        exact ih.served id j hserved

omit [DecidableEq ι] in
theorem marks_step [DecidableEq ι] (hs : Step code t s s') : (fun u => mark (s'.ctl u).point) =
    Function.update (fun u => mark (s.ctl u).point) t (mark (s'.ctl t).point) := by
  funext u
  by_cases hu : u = t
  · rw [hu, Function.update_self]
  · rw [Function.update_of_ne hu, hs.ctl_other hu]

theorem serves_step (hs : Step code t s s') : serves (s'.ctl .excTask).point =
    if t = .excTask then serves (s'.ctl t).point else serves (s.ctl .excTask).point := by
  split
  · rename_i ht
    rw [ht]
  · rename_i ht
    rw [hs.ctl_other (Ne.symm ht)]

theorem round_step (hr : Run code Initial tr s) (hs : Step code t s s') (hsingle : Single ⟨s, t, s'⟩) (h : RoundOk s) :
    RoundOk s' := by
  unfold RoundOk
  rw [marks_step hs, serves_step hs]
  obtain ⟨hm, _, hpoint⟩ | ⟨p, p', hp, hp', hruns⟩ := step_cases hs
  · have hsame : mark (s'.ctl t).point = mark (s.ctl t).point ∧ serves (s'.ctl t).point = serves (s.ctl t).point := by
      obtain heq | hnext := hpoint
      · rw [heq]
        exact ⟨rfl, rfl⟩
      · obtain ⟨h₁, h₂, h₃, h₄⟩ := next_unmarked hnext
        exact ⟨h₂.trans h₁.symm, h₄.trans h₃.symm⟩
    rw [hsame.1, hsame.2, Function.update_eq_self]
    refine h.keep (by rw [hm]) (by rw [hm]) (.inl ?_)
    split
    · rename_i ht
      rw [ht]
    · rfl
  · have hsystem := system_iff hr t
    rw [hp, Ctl.point_awake] at hsystem
    rw [hp', Ctl.point_awake]
    refine hruns.stage h (by simp only [hp, Ctl.point_awake]) hsystem (fun ht => ?_) (allocated hr).served fun he => ?_
    · rw [← ht, hp, Ctl.point_awake]
    · subst he
      obtain ⟨hl, hmem⟩ := hsingle hp
      exact ⟨hl, fun he => hmem (by rw [← he]; exact hp')⟩

theorem round_ok (h : Run code Initial tr s) (hone : ∀ x ∈ tr, Single x) : RoundOk s := by
  induction h with
  | start hi =>
    refine .quiet hi.wdogList fun t => ?_
    cases t with
    | excTask => simp only [hi.delay]; rfl
    | task taskid => simp only [hi.running]; rfl
  | step hr hs ih =>
    exact round_step hr hs (hone _ (List.mem_cons_self ..)) (ih fun x hx => hone x (List.mem_cons_of_mem _ hx))

/-! ### One restart -/

/-- The step in which `self_starter`, called for watchdog `a`, creates a thread for task `k`. -/
def creates (a : ι) (k : ℤ) (x : RestartTransition ι) : Bool :=
  match (x.pre.ctl x.thread).point with
  | .starterCreate b j _ => decide (b = a ∧ j = k)
  | _ => false

/-- The step in which it finds that task `k` is deleted. -/
def misses (a : ι) (k : ℤ) (x : RestartTransition ι) : Bool :=
  match (x.pre.ctl x.thread).point with
  | .starterFind b j _ => decide (b = a ∧ j = k ∧ k ∉ x.pre.mem.taskList)
  | _ => false

/-- How often `self_starter` has got through to the task for watchdog `a`. -/
def answers (a : ι) (k : ℤ) (tr : List (RestartTransition ι)) : ℕ := tr.countP (creates a k) + tr.countP (misses a k)

/-- The first step of a pass over the timer list. -/
def begins (x : RestartTransition ι) : Bool :=
  match (x.pre.ctl x.thread).point with
  | .delay => true
  | _ => false

/-- The last step of a pass. -/
def ends (x : RestartTransition ι) : Bool :=
  match (x.pre.ctl x.thread).point with
  | .tick none => true
  | _ => false

/-- A pass has begun and another, or the same, has ended since. -/
def WholePass (tr : List (RestartTransition ι)) : Prop :=
  ∃ l₁ z l₂ y l₃, tr = l₁ ++ z :: (l₂ ++ y :: l₃) ∧ begins y = true ∧ ends z = true

/-- How far the restart of task `k` by watchdog `a` is since it was armed. -/
inductive Progress (k : ℤ) (a : ι) (later : List (RestartTransition ι)) (s : RestartState ι) : Prop where
  | armed : s.mem.timers.wdogList = [a] → s.mem.timers.wdog a = ⟨1, some .selfStarter, k⟩ →
      (∀ t, mark (s.ctl t).point = none) → (∀ j, serves (s.ctl .excTask).point ≠ some (a, j)) →
      (later.any begins = true → (s.ctl .excTask).point = .tick (some a)) → answers a k later = 0 → Progress k a later s
  | firing : s.mem.timers.wdogList = [a] → (s.ctl .excTask).point = .starterDelete a k none → answers a k later = 0 →
      Progress k a later s
  | finding (next : Option ι) : a ∉ s.mem.timers.wdogList → (s.ctl .excTask).point = .starterFind a k next →
      answers a k later = 0 → Progress k a later s
  | creating (next : Option ι) : a ∉ s.mem.timers.wdogList → (s.ctl .excTask).point = .starterCreate a k next →
      answers a k later = 0 → Progress k a later s
  | done : a ∉ s.mem.timers.wdogList → (∀ j, serves (s.ctl .excTask).point ≠ some (a, j)) → answers a k later = 1 →
      Progress k a later s

theorem answers_cons (x : RestartTransition ι) (tr : List (RestartTransition ι)) : answers a k (x :: tr) =
    answers a k tr + ((if creates a k x then 1 else 0) + if misses a k x then 1 else 0) := by
  simp only [answers, List.countP_cons]
  omega

/-! ### The steps of the tasks and of the ticker -/

section
variable {x : RestartTransition ι}

omit [DecidableEq ι] in
theorem creates_eq_true [DecidableEq ι] :
    creates a k x = true ↔ ∃ next, (x.pre.ctl x.thread).point = .starterCreate a k next := by
  unfold creates
  cases (x.pre.ctl x.thread).point <;> simp

theorem misses_eq_true :
    misses a k x = true ↔ (∃ next, (x.pre.ctl x.thread).point = .starterFind a k next) ∧ k ∉ x.pre.mem.taskList := by
  unfold misses
  cases (x.pre.ctl x.thread).point <;> simp [and_assoc]

omit [DecidableEq ι] in
theorem begins_eq_true : begins x = true ↔ (x.pre.ctl x.thread).point = .delay := by
  unfold begins
  cases (x.pre.ctl x.thread).point <;> simp

/-- A step in which `self_starter` gets through to nobody is no answer. -/
theorem answers_quiet (hc : ∀ next, (x.pre.ctl x.thread).point ≠ .starterCreate a k next)
    (hm : ∀ next, (x.pre.ctl x.thread).point = .starterFind a k next → k ∈ x.pre.mem.taskList) :
    answers a k (x :: later) = answers a k later := by
  have hc' : ¬ creates a k x = true := fun he => (creates_eq_true.mp he).elim hc
  have hm' : ¬ misses a k x = true := fun he => by
    obtain ⟨⟨next, he⟩, hout⟩ := misses_eq_true.mp he
    exact hout (hm next he)
  rw [answers_cons, if_neg hc', if_neg hm', Nat.add_zero]

end

/-- A watchdog that has gone off the list does not come back. -/
theorem gone_step (hr : Run code Initial tr s) (hs : Step code t s s') (hblock : s.mem.timers.block a ≠ .fresh)
    (hout : a ∉ s.mem.timers.wdogList) : a ∉ s'.mem.timers.wdogList := by
  obtain ⟨hm, _⟩ | ⟨p, p', _, _, hruns⟩ := step_cases hs
  · rwa [hm]
  · exact (hruns.alters (allocated hr).linked).not_back hblock hout

/-- While the watchdog is on the list, a task that is not busy with it leaves it alone. -/
theorem still_listed (hs : Step code t s s') (hsystem : system (s.ctl t).point = false) (hsingle : Single ⟨s, t, s'⟩)
    (hl : s.mem.timers.wdogList = [a]) (hmark : mark (s.ctl t).point = none) :
    s'.mem.timers = s.mem.timers ∧ mark (s'.ctl t).point = none := by
  obtain ⟨hm, _, hsame | hnext⟩ | ⟨p, p', hp, hp', hruns⟩ := step_cases hs
  · exact ⟨by rw [hm], by rw [hsame, hmark]⟩
  · exact ⟨by rw [hm], (next_unmarked hnext).2.1⟩
  · rw [hp, Ctl.point_awake] at hmark hsystem
    rw [hp', Ctl.point_awake]
    generalize s'.mem = m' at hruns
    cases hruns with
    | made => rw [(hsingle hp).1] at hl; cases hl
    | noMemory => rw [(hsingle hp).1] at hl; cases hl
    | assigned => cases hmark
    | started => cases hmark
    | skipped => cases hmark
    | begun => cases hsystem
    | ended => cases hsystem
    | ticked => cases hsystem
    | fired => cases hsystem
    | lost => cases hsystem
    | deleted => cases hsystem
    | listed => cases hsystem
    | unlisted => cases hsystem
    | created => cases hsystem
    | _ => exact ⟨rfl, rfl⟩

/-- A step of a task. -/
theorem Progress.other (h : Progress k a later s) (hr : Run code Initial tr s) (hs : Step code t s s')
    (hround : RoundOk s) (hsingle : Single ⟨s, t, s'⟩) (hblock : s.mem.timers.block a ≠ .fresh) (ht : t ≠ .excTask) :
    Progress k a (⟨s, t, s'⟩ :: later) s' := by
  have hexc : s'.ctl .excTask = s.ctl .excTask := hs.ctl_other (Ne.symm ht)
  have hsystem : system (s.ctl t).point = false := by
    rw [Bool.eq_false_iff, Ne, system_iff hr t]
    exact ht
  have hnot : ∀ q, system q = true → (s.ctl t).point ≠ q := by
    rintro q hq rfl
    rw [hsystem] at hq
    cases hq
  have hanswers : answers a k (⟨s, t, s'⟩ :: later) = answers a k later :=
    answers_quiet (fun _ => hnot _ rfl) fun _ he => absurd he (hnot _ rfl)
  have hgone := gone_step hr hs hblock
  cases h with
  | armed hl hv hm hserves hbegun ha =>
    obtain ⟨htimers, hmark⟩ := still_listed hs hsystem hsingle hl (hm t)
    refine .armed (htimers ▸ hl) (htimers ▸ hv) (fun u => ?_) (hexc ▸ hserves) (fun hb => ?_) (hanswers.trans ha)
    · by_cases hu : u = t
      · rw [hu, hmark]
      · rw [hs.ctl_other hu, hm u]
    · rw [List.any_cons, Bool.or_eq_true] at hb
      rw [hexc]
      exact hbegun (hb.resolve_left fun hb => hnot _ rfl (begins_eq_true.mp hb))
  | firing hl hp ha =>
    have hstarter : mark (s.ctl .excTask).point = some (.starterDelete a k none) := by rw [hp]; rfl
    obtain ⟨_, _, _, _, _, hunmarked⟩ := hround.of_exc hstarter
    exact .firing ((still_listed hs hsystem hsingle hl (hunmarked t ht)).1 ▸ hl) (hexc ▸ hp) (hanswers.trans ha)
  | finding next hout hp ha => exact .finding next (hgone hout) (hexc ▸ hp) (hanswers.trans ha)
  | creating next hout hp ha => exact .creating next (hgone hout) (hexc ▸ hp) (hanswers.trans ha)
  | done hout hserves ha => exact .done (hgone hout) (hexc ▸ hserves) (hanswers.trans ha)

omit [DecidableEq ι] in
/-- The points of the exception task are blocks. -/
theorem system_block [DecidableEq ι] (h : system p = true) : ∃ block, code t p = .run block := by
  cases p with
  | tick next => cases next <;> exact ⟨_, rfl⟩
  | _ => first
    | exact ⟨_, rfl⟩
    | cases h

/-- Each step of the exception task is the run of a block. -/
theorem own_runs (hr : Run code Initial tr s) (hs : Step code .excTask s s') : ∃ p p',
    (s.ctl .excTask).point = p ∧ (s'.ctl .excTask).point = p' ∧ Runs .excTask p s.mem s'.mem p' := by
  obtain ⟨_, hnoblock, _⟩ | ⟨p, p', hp, hp', hruns⟩ := step_cases hs
  · obtain ⟨block, hb⟩ := system_block (t := .excTask) ((system_iff hr .excTask).mpr rfl)
    exact absurd hb (hnoblock block)
  · exact ⟨p, p', by rw [hp, Ctl.point_awake], by rw [hp', Ctl.point_awake], hruns⟩

/-- An armed watchdog that a step does not touch stays armed, and a pass that has begun comes to it. -/
theorem Progress.stay (hs : Step code .excTask s s') (hl : s.mem.timers.wdogList = [a])
    (hv : s.mem.timers.wdog a = ⟨1, some .selfStarter, k⟩) (hm : ∀ t, mark (s.ctl t).point = none)
    (hanswers : answers a k (⟨s, .excTask, s'⟩ :: later) = 0) (htimers : s'.mem.timers = s.mem.timers)
    (hmark : mark (s'.ctl .excTask).point = none) (hserves : ∀ j, serves (s'.ctl .excTask).point ≠ some (a, j))
    (hbegun : later.any begins = true ∨ (s.ctl .excTask).point = .delay → (s'.ctl .excTask).point = .tick (some a)) :
    Progress k a (⟨s, .excTask, s'⟩ :: later) s' := by
  refine .armed (htimers ▸ hl) (htimers ▸ hv) (fun u => ?_) hserves (fun hb => ?_) hanswers
  · by_cases hu : u = .excTask
    · rw [hu, hmark]
    · rw [hs.ctl_other hu, hm u]
  · rw [List.any_cons, Bool.or_eq_true, begins_eq_true] at hb
    exact hbegun hb.symm

/-- A step of the exception task while the watchdog is armed: the timer list stays as it is, or the watchdog fires. -/
theorem Progress.own_armed (hr : Run code Initial tr s) (hs : Step code .excTask s s')
    (hl : s.mem.timers.wdogList = [a]) (hv : s.mem.timers.wdog a = ⟨1, some .selfStarter, k⟩)
    (hm : ∀ t, mark (s.ctl t).point = none) (hserves : ∀ j, serves (s.ctl .excTask).point ≠ some (a, j))
    (hbegun : later.any begins = true → (s.ctl .excTask).point = .tick (some a)) (ha : answers a k later = 0) :
    Progress k a (⟨s, .excTask, s'⟩ :: later) s' := by
  have hsystem := (system_iff hr .excTask).mpr rfl
  have hanswers := (answers_quiet (x := ⟨s, .excTask, s'⟩) (fun _ he => hserves k (congrArg serves he))
    fun _ he => absurd (congrArg serves he) (hserves k)).trans ha
  have hmark := hm .excTask
  have hstay := Progress.stay hs hl hv hm hanswers
  obtain ⟨p, p', hp, hp', hruns⟩ := own_runs hr hs
  rw [hp] at hsystem hmark hserves hbegun hstay
  rw [hp'] at hstay
  -- away from its turn, no pass has begun
  have hidle : p ≠ .delay → p ≠ .tick (some a) → later.any begins = true ∨ p = .delay → p' = .tick (some a) :=
    fun hd ht hb => (hb.elim (fun hb => ht (hbegun hb)) hd).elim
  generalize hq : s'.mem = m' at hruns hstay
  cases hruns with
  | begun => exact hstay rfl rfl nofun fun _ => by rw [hl]; rfl
  | ended => exact hstay rfl rfl nofun (hidle nofun nofun)
  | ticked hin hf =>
    rw [hl, List.mem_singleton] at hin
    rw [hin, hv] at hf
    cases hf
  | fired hin hf =>
    rename_i id
    rw [hl, List.mem_singleton] at hin
    subst hin
    refine .firing ?_ ?_ hanswers
    · rw [hq]
      exact hl
    · rw [hp', hv, hl]
      simp [Watchdog.V2ptWdog.tick, Watchdog.nextWdog]
  | lost hout =>
    refine hstay rfl rfl nofun (hidle nofun fun he => ?_)
    cases he
    exact hout (by rw [hl]; exact List.mem_singleton_self a)
  | deleted => cases hmark
  | listed => exact hstay rfl rfl (fun j he => hserves j he) (hidle nofun nofun)
  | unlisted => exact hstay rfl rfl nofun (hidle nofun nofun)
  | created => exact hstay rfl rfl nofun (hidle nofun nofun)
  | _ => cases hsystem

/-- A step of the exception task. -/
theorem Progress.own (h : Progress k a later s) (hr : Run code Initial tr s) (hs : Step code .excTask s s')
    (hround : RoundOk s) (hblock : s.mem.timers.block a ≠ .fresh) :
    Progress k a (⟨s, .excTask, s'⟩ :: later) s' := by
  have hgone := gone_step hr hs hblock
  obtain ⟨p, p', hp, hp', hruns⟩ := own_runs hr hs
  cases h with
  | armed hl hv hm hserves hbegun ha => exact Progress.own_armed hr hs hl hv hm hserves hbegun ha
  | firing hl hp₀ ha =>
    have hstarter : mark (s.ctl .excTask).point = some (.starterDelete a k none) := by rw [hp₀]; rfl
    obtain ⟨_, b, heq, _, hlast, _⟩ := hround.of_exc hstarter
    cases heq
    obtain rfl : p = .starterDelete a k none := hp.symm.trans hp₀
    have hanswers := (answers_quiet (x := ⟨s, .excTask, s'⟩) (fun _ he => nomatch hp₀.symm.trans he)
      fun _ he => nomatch hp₀.symm.trans he).trans ha
    generalize hq : s'.mem = m' at hruns
    cases hruns with
    | deleted =>
      refine .finding none ?_ hp' hanswers
      rw [hq, Mem.wdDelete, hlast, wdDelete_self hl]
      exact List.not_mem_nil
  | finding next hout hp₀ ha =>
    have hc : ∀ next, (s.ctl .excTask).point ≠ .starterCreate a k next := fun _ he => nomatch hp₀.symm.trans he
    obtain rfl : p = .starterFind a k next := hp.symm.trans hp₀
    generalize hq : s'.mem = m' at hruns
    cases hruns with
    | listed _ _ hin => exact .creating next (hgone hout) hp' ((answers_quiet hc fun _ _ => hin).trans ha)
    | unlisted _ _ hno =>
      refine .done (hgone hout) (by rw [hp']; exact nofun) ?_
      rw [answers_cons, if_neg fun he => (creates_eq_true.mp he).elim hc, if_pos (misses_eq_true.mpr ⟨⟨next, hp₀⟩, hno⟩), ha]
  | creating next hout hp₀ ha =>
    have hm : ∀ next, (s.ctl .excTask).point ≠ .starterFind a k next := fun _ he => nomatch hp₀.symm.trans he
    obtain rfl : p = .starterCreate a k next := hp.symm.trans hp₀
    generalize hq : s'.mem = m' at hruns
    cases hruns with
    | created =>
      refine .done (hgone hout) (by rw [hp']; exact nofun) ?_
      rw [answers_cons, if_pos (creates_eq_true.mpr ⟨next, hp₀⟩), if_neg fun he => (misses_eq_true.mp he).1.elim hm, ha]
  | done hout hserves ha =>
    refine .done (hgone hout) (fun j hserves' => ?_) ?_
    · rw [hp'] at hserves'
      obtain hold | hin := hruns.serves_cases hserves'
      · exact hserves j (by rw [hp]; exact hold)
      · exact hout hin
    · exact (answers_quiet (fun _ he => hserves k (congrArg serves he))
        fun _ he => absurd (congrArg serves he) (hserves k)).trans ha

/-- The step in which task `k` starts its restart watchdog. -/
def Arms (k : ℤ) (x : RestartTransition ι) : Prop :=
  x.thread = .task k ∧ x.pre.ctl (.task k) = .awake .start

omit [DecidableEq ι] in
/-- Whoever starts a restart watchdog starts the one it has made, the only one there is. -/
theorem Arms.made {x : RestartTransition ι} (hx : Arms k x) (hround : RoundOk x.pre) : ∃ a, x.pre.mem.restartWdog = some a ∧
    x.pre.mem.timers.wdogList = [a] ∧ (∀ j, serves (x.pre.ctl .excTask).point ≠ some (a, j)) ∧
    ∀ t ≠ .task k, mark (x.pre.ctl t).point = none := by
  have htask : Thread.task k ≠ .excTask := nofun
  have hstart : mark (x.pre.ctl (.task k)).point = some .start := by
    rw [hx.2]
    rfl
  obtain ⟨j, a, hj, hl, hs, hat, hm, _⟩ := hround.of_task htask hstart
  cases hj
  obtain hat | ⟨_, hw⟩ := hat
  · cases hat
  · exact ⟨a, hw, hl, hs, hm⟩

theorem progress (h : Run code Initial (later ++ x :: before) s) (hone : ∀ y ∈ later ++ x :: before, Single y)
    (hx : Arms k x) (ha : x.pre.mem.restartWdog = some a) : Progress k a later s ∧ s.mem.timers.block a ≠ .fresh := by
  have hpre := h.before
  have honepre : ∀ y ∈ before, Single y := fun y hy => hone y (by simp [hy])
  obtain ⟨b, hb, hl, hserves, hmarks⟩ := hx.made (round_ok hpre honepre)
  obtain rfl : a = b := Option.some.inj (ha.symm.trans hb)
  generalize hq : later ++ x :: before = tr at h hone
  induction h generalizing later with
  | start _ => cases later <;> cases hq
  | @step tr s t s' hr hs ih =>
    cases later with
    | nil =>
      obtain ⟨rfl, rfl⟩ := List.cons.inj hq
      obtain ⟨rfl, hp⟩ := hx
      obtain ⟨_, hnoblock, _⟩ | ⟨p, p', hp₀, hp', hruns⟩ := step_cases hs
      · exact (hnoblock _ (by rw [hp]; rfl)).elim
      · rw [hp] at hp₀
        cases hp₀
        have hin : a ∈ s.mem.timers.wdogList := by rw [hl]; simp
        have hexc : s'.ctl .excTask = s.ctl .excTask := hs.ctl_other nofun
        generalize hm : s'.mem = m' at hruns
        cases hruns with
        | skipped hw =>
          rw [ha] at hw
          cases hw
        | started ht hw =>
          cases ht
          rw [ha] at hw
          cases hw
          refine ⟨.armed ?_ ?_ (fun u => ?_) (hexc ▸ hserves) nofun rfl, ?_⟩
          · rw [hm]
            simpa [Watchdog.Mem.wdStart, hin] using hl
          · rw [hm]
            simp [Watchdog.Mem.wdStart, hin, Watchdog.V2ptWdog.start]
          · by_cases hu : u = .task k
            · rw [hu, hp']
              rfl
            · rw [hs.ctl_other hu]
              exact hmarks u hu
          · simpa [Watchdog.Mem.wdStart, hin] using (allocated hr).linked.created a hin
    | cons y later =>
      obtain ⟨rfl, hrest⟩ := List.cons.inj hq
      have hone' : ∀ z ∈ tr, Single z := fun z hz => hone z (List.mem_cons_of_mem _ hz)
      obtain ⟨hprogress, hblock⟩ := ih hrest hone'
      have hround := round_ok hr hone'
      refine ⟨?_, ?_⟩
      · by_cases ht : t = .excTask
        · subst ht
          exact hprogress.own hr hs hround hblock
        · exact hprogress.other hr hs hround (hone _ (List.mem_cons_self ..)) hblock ht
      · obtain ⟨hm, _⟩ | ⟨p, p', _, _, hruns⟩ := step_cases hs
        · rwa [hm]
        · exact (hruns.alters (allocated hr).linked).created a hblock

/-- Only `self_starter` takes a watchdog off the list, the one that `restart_wdog` names. -/
theorem Runs.removes (hr : Runs t p m m' p') (hin : a ∈ m.timers.wdogList) (hout : a ∉ m'.timers.wdogList) :
    (∃ id j next, p = .starterDelete id j next) ∧ m.restartWdog = some a := by
  cases hr with
  | made hfresh =>
    refine absurd ?_ hout
    simp [Watchdog.Mem.wdCreate, hfresh, hin]
  | started =>
    refine absurd ?_ hout
    unfold Watchdog.Mem.wdStart
    split <;> exact hin
  | deleted id j next =>
    refine ⟨⟨id, j, next, rfl⟩, ?_⟩
    unfold Mem.wdDelete at hout
    split at hout
    · rename_i b hw
      rw [hw]
      by_contra hne
      have hab : a ≠ b := fun he => hne (he ▸ rfl)
      refine hout ?_
      simp only [Watchdog.Mem.wdDelete]
      split
      · exact (List.mem_erase_of_ne hab).mpr hin
      · exact hin
    · exact absurd hin hout
  | _ => exact absurd hin hout

theorem Runs.taskList_sub (hr : Runs t p m m' p') (hk : k ∈ m'.taskList) : k ∈ m.taskList := by
  cases hr with
  | erased j => exact List.mem_of_mem_erase hk
  | deleted =>
    unfold Mem.wdDelete at hk
    split at hk <;> exact hk
  | _ => exact hk

theorem Progress.answers_le (h : Progress k a later s) : answers a k later ≤ 1 := by
  cases h <;> omega

theorem Progress.answered (h : Progress k a later s) (ha : 0 < answers a k later) :
    answers a k later = 1 ∧ a ∉ s.mem.timers.wdogList := by
  cases h with
  | done hout _ ha => exact ⟨ha, hout⟩
  | _ => omega

/-- A task that is still there has not been missed. -/
theorem not_missed (h : Run code Initial (later ++ before) s) (hk : k ∈ s.mem.taskList) :
    later.countP (misses a k) = 0 := by
  generalize hq : later ++ before = tr at h
  induction h generalizing later with
  | start _ =>
    obtain ⟨rfl, _⟩ := List.append_eq_nil_iff.mp hq
    rfl
  | @step tr s t s' _ hs ih =>
    cases later with
    | nil => rfl
    | cons y later =>
      obtain ⟨rfl, hrest⟩ := List.cons.inj hq
      have hpre : k ∈ s.mem.taskList := by
        obtain ⟨hm, _⟩ | ⟨p, p', _, _, hruns⟩ := step_cases hs
        · rwa [hm] at hk
        · exact hruns.taskList_sub hk
      have hmiss : ¬ misses a k ⟨s, t, s'⟩ = true := by
        unfold misses
        split
        · simp [hpre]
        · exact Bool.false_ne_true
      rw [List.countP_cons, if_neg hmiss, ih hpre hrest]

/-- What holds before a step after the arming. -/
theorem progress_at (h : Run code Initial (later ++ x :: before) s) (hone : ∀ y ∈ later ++ x :: before, Single y)
    (hx : Arms k x) (ha : x.pre.mem.restartWdog = some a) {l₁ l₂ : List (RestartTransition ι)} {y : RestartTransition ι}
    (hl : later = l₁ ++ y :: l₂) : Step code y.thread y.pre y.post ∧ Progress k a l₂ y.pre ∧ RoundOk y.pre ∧
      (system (y.pre.ctl y.thread).point = true → y.thread = .excTask) := by
  subst hl
  rw [List.append_assoc, List.cons_append] at h
  have hone' : ∀ z ∈ l₂ ++ x :: before, Single z := fun z hz => hone z (by
    rw [List.append_assoc, List.cons_append]
    exact List.mem_append_right _ (List.mem_cons_of_mem _ hz))
  exact ⟨h.steps y (by simp), (progress h.before hone' hx ha).1, round_ok h.before hone', (system_iff h.before y.thread).mp⟩

/-- The watchdog goes off the list in the deletion of its own `self_starter`. -/
theorem Progress.remover {y : RestartTransition ι} (h : Progress k a later y.pre) (hs : Step code y.thread y.pre y.post)
    (hexc : system (y.pre.ctl y.thread).point = true → y.thread = .excTask) (hin : a ∈ y.pre.mem.timers.wdogList)
    (hout : a ∉ y.post.mem.timers.wdogList) :
    y.thread = .excTask ∧ y.pre.ctl .excTask = .awake (.starterDelete a k none) := by
  obtain ⟨hm, _⟩ | ⟨p, p', hpoint, _, hruns⟩ := step_cases hs
  · exact absurd (hm ▸ hin) hout
  · obtain ⟨⟨id, j, next, rfl⟩, _⟩ := hruns.removes hin hout
    have hthread := hexc (by rw [hpoint]; rfl)
    rw [hthread] at hpoint
    refine ⟨hthread, hpoint.trans ?_⟩
    cases h with
    | armed _ _ hm =>
      have hmark := hm .excTask
      rw [hpoint] at hmark
      cases hmark
    | firing _ hp =>
      rw [hpoint, Ctl.point_awake] at hp
      rw [hp]
    | finding _ hno => exact absurd hin hno
    | creating _ hno => exact absurd hin hno
    | done hno => exact absurd hin hno

/-- That deletion deletes nothing else. -/
theorem RoundOk.deletes {y : RestartTransition ι} (h : RoundOk y.pre) (hs : Step code .excTask y.pre y.post)
    (hpoint : y.pre.ctl .excTask = .awake (.starterDelete a k none)) :
    y.post.mem.timers.wdogList = y.pre.mem.timers.wdogList.erase a := by
  have hstarter : mark (y.pre.ctl .excTask).point = some (.starterDelete a k none) := by
    rw [hpoint]
    rfl
  obtain ⟨_, hnoblock, _⟩ | ⟨p, p', hp, _, hruns⟩ := step_cases hs
  · exact (hnoblock _ (by rw [hpoint]; rfl)).elim
  · rw [hpoint] at hp
    cases hp
    generalize y.post.mem = m' at hruns
    cases hruns with
    | deleted =>
      obtain ⟨_, b, heq, hl, hw, _⟩ := h.of_exc hstarter
      cases heq
      rw [Mem.wdDelete, hw, wdDelete_self hl, hl]
      simp

/-- At the end of a pass that began after the arming, `self_starter` has answered. -/
theorem Progress.answers_end {z : RestartTransition ι} (h : Progress k a later z.pre)
    (hexc : system (z.pre.ctl z.thread).point = true → z.thread = .excTask) (hends : ends z = true)
    (hbegun : later.any begins = true) : answers a k later = 1 := by
  have hpoint : (z.pre.ctl z.thread).point = .tick none := by
    unfold ends at hends
    split at hends
    · assumption
    · cases hends
  rw [hexc (by rw [hpoint]; rfl)] at hpoint
  cases h with
  | armed _ _ _ _ htick =>
    have htick := htick hbegun
    rw [hpoint] at htick
    cases htick
  | firing _ hp => rw [hpoint] at hp; cases hp
  | finding _ _ hp => rw [hpoint] at hp; cases hp
  | creating _ _ hp => rw [hpoint] at hp; cases hp
  | done _ _ hone => exact hone

omit [DecidableEq ι] in
theorem WholePass.of_drop (h : (tr.dropWhile fun z => !ends z).tail.any begins = true) : WholePass tr := by
  cases hd : tr.dropWhile fun z => !ends z with
  | nil => simp [hd] at h
  | cons z l =>
    rw [hd, List.tail_cons] at h
    obtain ⟨y, hy, hbegins⟩ := List.any_eq_true.mp h
    obtain ⟨l₂, l₃, rfl⟩ := List.append_of_mem hy
    have hends := List.head?_dropWhile_not (fun z => !ends z) tr
    rw [hd] at hends
    refine ⟨tr.takeWhile fun z => !ends z, z, l₂, y, l₃, ?_, hbegins, by simpa using hends⟩
    rw [← hd, List.takeWhile_append_dropWhile]

end

/-! ### Two tasks -/

/-- Tasks 1 and 2 restart themselves between two ticks. -/
def bothRestart : List (Thread × Input (Choice ℕ)) :=
  restarts 1 101 ++ restarts 2 102 ++ goesOn .excTask 3

/-- Task 2 restarts itself after task 1 is back. -/
def oneAfterTheOther : List (Thread × Input (Choice ℕ)) :=
  restarts 1 101 ++ goesOn .excTask 6 ++ restarts 2 102 ++ goesOn .excTask 6

end V2lin.Restart
