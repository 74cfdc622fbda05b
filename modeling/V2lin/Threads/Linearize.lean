import V2lin.Threads.Machine

/-! Programs of the thread machine as implementations of a sequential object.

An object is a value and a list of events that act on it, where an event may be
impossible; `replay` lets the events happen one after the other. A program implements
it if every step is an event of the object, or none, and the value shown by the state
follows. A call of the program is open until one of its steps settles its result, and
stays settled until it is left: so its event lies between the call and the return, and
the events of a run are an order of the calls that the real time agrees with. -/
namespace V2lin.Threads

/-! ### Objects -/

section
variable {ε α β : Type}

/-- The value after some events, newest first, if all of them can happen. -/
def replay (act : ε → α → Option α) (a : α) : List ε → Option α
  | [] => some a
  | e :: events => (replay act a events).bind (act e)

/-- From one value to the next by an event, or by none. -/
def Acts (act : ε → α → Option α) (e : Option ε) (a b : α) : Prop :=
  match e with
  | none => b = a
  | some e => act e a = some b

variable {act : ε → α → Option α} {a b : α} {e : ε} {events : List ε}

theorem replay_cons : replay act a (e :: events) = some b ↔ ∃ c, replay act a events = some c ∧ act e c = some b :=
  Option.bind_eq_some_iff

theorem replay_append {later : List ε} :
    replay act a (later ++ events) = some b ↔ ∃ c, replay act a events = some c ∧ replay act c later = some b := by
  induction later generalizing b with
  | nil => simp [replay]
  | cons e later ih =>
    simp only [List.cons_append, replay_cons, ih]
    exact ⟨fun ⟨c, ⟨c', hc, hc'⟩, he⟩ => ⟨c', hc, c, hc', he⟩, fun ⟨c, hc, c', hc', he⟩ => ⟨c', ⟨c, hc, hc'⟩, he⟩⟩

theorem replay_filterMap {χ : Type} {event : χ → Option ε} {x : χ} {l : List χ} {c : α}
    (h : replay act a (l.filterMap event) = some b) (hact : Acts act (event x) b c) :
    replay act a ((x :: l).filterMap event) = some c := by
  cases he : event x with
  | none =>
    rw [he] at hact
    rw [List.filterMap_cons_none he, h, hact]
  | some e =>
    rw [he] at hact
    rw [List.filterMap_cons_some he]
    exact replay_cons.mpr ⟨b, h, hact⟩

/-- What the first value satisfies and every event keeps, the last value satisfies. -/
theorem replay_invariant (P : List ε → α → Prop) (hstart : P [] a)
    (hact : ∀ e events b c, replay act a events = some b → P events b → act e b = some c → P (e :: events) c)
    (h : replay act a events = some b) : P events b := by
  induction events generalizing b with
  | nil =>
    cases h
    exact hstart
  | cons e events ih =>
    obtain ⟨c, hc, he⟩ := replay_cons.mp h
    exact hact e events c b hc (ih hc) he

end

/-! ### Calls -/

/-- How far a thread is with its call. -/
inductive CallStage (ω ρ : Type) where
  | outside
  | pending (op : ω)
  | settled (op : ω) (result : ρ)
  deriving DecidableEq

/-- How a call proceeds: its result is settled once. -/
inductive CallStage.Goes {ω ρ : Type} : CallStage ω ρ → CallStage ω ρ → Prop
  | stays (c) : Goes c c
  | called {c} (op) : (∀ op, c ≠ .pending op) → Goes c (.pending op)
  | settles (op result) : Goes (.pending op) (.settled op result)
  | left (op result) : Goes (.settled op result) .outside

theorem CallStage.Goes.to_settled {ω ρ : Type} {c : CallStage ω ρ} {op : ω} {result : ρ}
    (h : c.Goes (.settled op result)) : c = .settled op result ∨ c = .pending op := by
  cases h with
  | stays => exact .inl rfl
  | settles => exact .inr rfl

theorem CallStage.Goes.to_pending {ω ρ : Type} {c : CallStage ω ρ} {op : ω} (h : c.Goes (.pending op)) :
    c = .pending op ∨ ∀ op, c ≠ .pending op := by
  cases h with
  | stays => exact .inl rfl
  | called _ hc => exact .inr hc

section
variable {θ σ μ κ π χ : Type} [DecidableEq θ] [DecidableEq μ] [DecidableEq κ]
variable {code : θ → π → Instr σ μ κ π χ} {Init : State θ σ μ κ π → Prop}
variable {tr later before : List (Transition θ σ μ κ π)} {s : State θ σ μ κ π} {x : Transition θ σ μ κ π}

/-! ### Events -/

/-- The event that a step is, read off the points it leads from and to. Whoever falls asleep
or wakes does nothing to the object. -/
def stepEvent {ε : Type} (event : θ → π → π → σ → σ → Option ε) (x : Transition θ σ μ κ π) : Option ε :=
  match x.pre.ctl x.thread, x.post.ctl x.thread with
  | .awake p, .awake p' => event x.thread p p' x.pre.mem x.post.mem
  | _, _ => none

omit [DecidableEq θ] [DecidableEq μ] [DecidableEq κ] in
theorem stepEvent_awake {ε : Type} {event : θ → π → π → σ → σ → Option ε} {t : θ} {p p' : π}
    {s s' : State θ σ μ κ π} (hp : s.ctl t = .awake p) (hp' : s'.ctl t = .awake p') :
    stepEvent event ⟨s, t, s'⟩ = event t p p' s.mem s'.mem := by
  simp only [stepEvent, hp, hp']

omit [DecidableEq θ] [DecidableEq μ] [DecidableEq κ] in
/-- If blocks alone are events, a step that runs none is none. -/
theorem stepEvent_sync {ε : Type} {event : θ → π → π → σ → σ → Option ε} {t : θ} {s s' : State θ σ μ κ π}
    (hevent : ∀ p p' m m', (∀ block, code t p ≠ .run block) → event t p p' m m' = none)
    (h : ∀ block, code t (s.ctl t).point ≠ .run block) : stepEvent event ⟨s, t, s'⟩ = none := by
  unfold stepEvent
  split
  · rename_i p p' hp _
    refine hevent p p' _ _ fun block hi => h block ?_
    rwa [show s.ctl t = .awake p from hp]
  · rfl

/-! ### Runs -/

/-- A run that shows the value `shown` of its states is a replay of the events of its
steps, from one of its steps on. -/
theorem Run.replays {ε α : Type} {act : ε → α → Option α} (h : Run code Init (later ++ x :: before) s)
    (shown : State θ σ μ κ π → α) (event : Transition θ σ μ κ π → Option ε)
    (hstep : ∀ y l, Run code Init (l ++ x :: before) y.pre → y :: l <:+ later →
      Step code y.thread y.pre y.post → Acts act (event y) (shown y.pre) (shown y.post)) :
    replay act (shown x.post) (later.filterMap event) = some (shown s) := by
  have hx : Run code Init (x :: before) x.post := .step h.before (h.steps x (by simp))
  refine (h.since (fun l s => Run code Init (l ++ x :: before) s ∧
    replay act (shown x.post) (l.filterMap event) = some (shown s)) ⟨hx, rfl⟩ ?_).2
  rintro y l hsuff hs ⟨hrun, hold⟩
  exact ⟨.step hrun hs, replay_filterMap hold (hstep y l hrun hsuff hs)⟩

/-- A run whose initial states show `a` is a replay of the events of all its steps. -/
theorem Run.replays_initial {ε α : Type} {act : ε → α → Option α} {a : α} (h : Run code Init tr s)
    (shown : State θ σ μ κ π → α) (event : Transition θ σ μ κ π → Option ε) (hinit : ∀ s, Init s → shown s = a)
    (hstep : ∀ y l, Run code Init l y.pre → y :: l <:+ tr → Step code y.thread y.pre y.post →
      Acts act (event y) (shown y.pre) (shown y.post)) :
    replay act a (tr.filterMap event) = some (shown s) := by
  induction h with
  | start hi => exact congrArg some (hinit _ hi).symm
  | @step tr s t s' hr hs ih =>
    have hold := ih fun y l hy hsuff => hstep y l hy (hsuff.trans (List.suffix_cons ..))
    exact replay_filterMap hold (hstep ⟨s, t, s'⟩ tr hr (List.suffix_refl _) hs)

/-- A thread that has come to a kind of points has come there in one step, and has
stayed since. -/
theorem Run.entered (h : Run code Init tr s) (P : π → Prop) (hinit : ∀ s t, Init s → ¬ P (s.ctl t).point)
    {t : θ} (ht : P (s.ctl t).point) :
    ∃ later x before, tr = later ++ x :: before ∧ x.thread = t ∧ ¬ P (x.pre.ctl t).point ∧
      P (x.post.ctl t).point ∧ ∀ y ∈ later, P (y.pre.ctl t).point ∧ P (y.post.ctl t).point := by
  induction h with
  | start hi => exact absurd ht (hinit _ t hi)
  | @step tr s u s' hr hs ih =>
    by_cases hold : P (s.ctl t).point
    · obtain ⟨later, x, before, rfl, hx, hpre, hpost, hlater⟩ := ih hold
      refine ⟨⟨s, u, s'⟩ :: later, x, before, rfl, hx, hpre, hpost, fun y hy => ?_⟩
      rcases List.mem_cons.mp hy with rfl | hy
      · exact ⟨hold, ht⟩
      · exact hlater y hy
    · have hu : u = t := by
        by_contra hu
        rw [hs.ctl_other (Ne.symm hu)] at ht
        exact hold ht
      exact ⟨[], ⟨s, u, s'⟩, tr, rfl, hu, hold, ht, fun _ hy => by cases hy⟩

section
variable {ω ρ : Type} {stage : π → CallStage ω ρ} {t : θ} {op : ω} {result : ρ}

/-- A call whose result is settled has been settled by one step of its thread, and has
stayed as it is since. -/
theorem Run.settled (h : Run code Init tr s) (hinit : ∀ s t, Init s → stage (s.ctl t).point = .outside)
    (hgoes : ∀ t s s', Step code t s s' → (stage (s.ctl t).point).Goes (stage (s'.ctl t).point))
    (ht : stage (s.ctl t).point = .settled op result) :
    ∃ later x before, tr = later ++ x :: before ∧ x.thread = t ∧ stage (x.pre.ctl t).point = .pending op ∧
      stage (x.post.ctl t).point = .settled op result ∧
      ∀ y ∈ later, stage (y.pre.ctl t).point = .settled op result ∧
        stage (y.post.ctl t).point = .settled op result := by
  obtain ⟨later, x, before, rfl, rfl, hpre, hpost, hlater⟩ :=
    h.entered (fun p => stage p = .settled op result) (fun s t hi => by rw [hinit s t hi]; exact nofun) ht
  have hg := hgoes _ _ _ (h.steps x (by simp))
  rw [hpost] at hg
  exact ⟨later, x, before, rfl, rfl, hg.to_settled.resolve_left hpre, hpost, hlater⟩

/-- A pending call has been made by one step of its thread, and is pending since. -/
theorem Run.pending (h : Run code Init tr s) (hinit : ∀ s t, Init s → stage (s.ctl t).point = .outside)
    (hgoes : ∀ t s s', Step code t s s' → (stage (s.ctl t).point).Goes (stage (s'.ctl t).point))
    (ht : stage (s.ctl t).point = .pending op) :
    ∃ later x before, tr = later ++ x :: before ∧ x.thread = t ∧ (∀ op, stage (x.pre.ctl t).point ≠ .pending op) ∧
      stage (x.post.ctl t).point = .pending op ∧
      ∀ y ∈ later, stage (y.pre.ctl t).point = .pending op ∧ stage (y.post.ctl t).point = .pending op := by
  obtain ⟨later, x, before, rfl, rfl, hpre, hpost, hlater⟩ :=
    h.entered (fun p => stage p = .pending op) (fun s t hi => by rw [hinit s t hi]; exact nofun) ht
  have hg := hgoes _ _ _ (h.steps x (by simp))
  rw [hpost] at hg
  exact ⟨later, x, before, rfl, rfl, hg.to_pending.resolve_left hpre, hpost, hlater⟩

/-! ### Events of calls -/

variable {ε ψ : Type} {event : Transition θ σ μ κ π → Option ε} {settles : ε → Option (θ × ψ × ρ)} {call : ψ → ω}

/-- If the events that settle a call are the steps that do, then a call whose result is
settled has been settled by one event since it was made, and by one only. -/
theorem Run.settled_once (h : Run code Init tr s) (hinit : ∀ s t, Init s → stage (s.ctl t).point = .outside)
    (hgoes : ∀ t s s', Step code t s s' → (stage (s.ctl t).point).Goes (stage (s'.ctl t).point))
    (hevent : ∀ (y : Transition θ σ μ κ π) op result, Step code y.thread y.pre y.post →
      stage (y.pre.ctl y.thread).point = .pending (call op) →
      stage (y.post.ctl y.thread).point = .settled (call op) result →
      ∃ e, event y = some e ∧ settles e = some (y.thread, op, result))
    (hsettles : ∀ (y : Transition θ σ μ κ π) e u op result, Step code y.thread y.pre y.post → event y = some e →
      settles e = some (u, op, result) → stage (y.pre.ctl y.thread).point = .pending (call op) ∧
        stage (y.post.ctl y.thread).point = .settled (call op) result)
    {op : ψ} (ht : stage (s.ctl t).point = .settled (call op) result) :
    ∃ after y between x before e, tr = after ++ y :: (between ++ x :: before) ∧
      x.thread = t ∧ (∀ op, stage (x.pre.ctl t).point ≠ .pending op) ∧
      stage (x.post.ctl t).point = .pending (call op) ∧
      y.thread = t ∧ event y = some e ∧ settles e = some (t, op, result) ∧
      ∀ z ∈ after ++ between, z.thread = t → ∀ e, event z = some e → settles e = none := by
  obtain ⟨after, y, rest, rfl, rfl, hpend, hset, hafter⟩ := h.settled hinit hgoes ht
  obtain ⟨between, x, before, rfl, hx, hout, hcall, hbetween⟩ := h.before.pending hinit hgoes hpend
  obtain ⟨e, he, hresult⟩ := hevent y op result (h.steps y (by simp)) hpend hset
  refine ⟨after, y, between, x, before, e, rfl, hx, hout, hcall, rfl, he, hresult, ?_⟩
  intro z hz hthread e he
  have hstep : Step code z.thread z.pre z.post := by
    refine h.steps z ?_
    rcases List.mem_append.mp hz with hz | hz <;> simp [hz]
  rcases hs : settles e with _ | ⟨u, op', result'⟩
  · rfl
  · -- its stage would be pending before and settled after, and it is neither
    obtain ⟨hpre, hpost⟩ := hsettles z e u op' result' hstep he hs
    rw [hthread] at hpre hpost
    rcases List.mem_append.mp hz with hz | hz
    · rw [(hafter z hz).1] at hpre
      cases hpre
    · rw [(hbetween z hz).2] at hpost
      cases hpost

end

end

end V2lin.Threads
