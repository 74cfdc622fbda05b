import V2lin.Blocked.Steps

/-! The lock of the list of the semaphores, and what the program of `Kill` sees of a step. -/
namespace V2lin.Blocked
open Threads V2lin.Task V2lin.Kill
open V2lin.TaskLib (AddressIds)

section
variable {θ ι κ : Type} [DecidableEq θ] [DecidableEq ι] [DecidableEq κ] {ids : AddressIds θ} {t u : θ} {p p' : Pc θ ι κ}
  {m m' : Mem θ ι κ} {s s' : BlockedState θ ι κ} {tr : List (BlockedTransition θ ι κ)} {id : ι}

/-! ### The lock of the list -/

def held : Pc θ ι κ → List (Lock θ ι κ)
  | .findScan _ _ | .findSem _ _ | .findUnlock _ _ _ | .deleteUnlink _ | .deleteListUnlock _ => [.semListLock]
  | _ => []

theorem guarded : Guarded (code (ι := ι) (κ := κ) ids) held .semListLock := by
  intro t p
  by_cases hr : ∃ block, code (ι := ι) (κ := κ) ids t p = .run block
  · obtain ⟨block, hi⟩ := hr
    rw [hi]
    intro c v v' p' hb hl
    by_cases hin : p.inner
    · obtain ⟨q, rfl, hidle⟩ := hin
      have hcode : code ids t (.kill q) = (Kill.code ids t q).embed part := if_neg hidle
      rw [hcode] at hi
      cases hinner : Kill.code ids t q with
      | run b =>
        rw [hinner] at hi
        cases hi
        obtain ⟨r, _, heq⟩ := Option.map_eq_some_iff.mp hb
        cases heq
        cases hl
      | _ =>
        rw [hinner] at hi
        cases hi
    · cases block_moves hin hi hb with
      | nobody d => cases d <;> cases hl
      | drained d => cases d <;> cases hl
      | listLocked => cases hi
      | starts => cases hi
      | deletes => cases hi
      | _ => first | exact hl | cases hl
  · cases p
    case kill q =>
      by_cases hidle : q = .task .idle
      · subst hidle
        exact absurd ⟨_, rfl⟩ hr
      · have hcode : code ids t (.kill q) = (Kill.code ids t q).embed part := if_neg hidle
        rw [hcode]
        cases hinner : Kill.code ids t q with
        | run b => exact absurd ⟨_, by rw [hcode, hinner]; rfl⟩ hr
        | _ => simp [Instr.embed, part, Instr.Tracked, held]
    case findUnlock op id found =>
      cases found <;> cases op <;> simp [code, Instr.Tracked, held, Op.start]
    all_goals first
      | exact absurd ⟨_, rfl⟩ hr
      | simp [code, Instr.Tracked, held]

omit [DecidableEq ι] [DecidableEq κ] in
theorem Initial.point (h : Initial ids s) (t : θ) :
    (s.ctl t).point = .kill (.task .idle) ∨ (s.ctl t).point = .kill (.task .unborn) := by
  obtain ⟨p, hp⟩ := h.inside t
  have hpoint := h.kill.point t
  rw [show ((s.view part).ctl t).point = p by simp [State.view, hp, part, Pc.leave]] at hpoint
  rw [hp]
  exact hpoint.imp (congrArg Pc.kill) (congrArg Pc.kill)

omit [DecidableEq ι] [DecidableEq κ] in
theorem Initial.awake (h : Initial ids s) (t : θ) (p : Pc θ ι κ) (n : ℕ) : s.ctl t ≠ .asleep p n := by
  obtain ⟨q, hq⟩ := h.inside t
  rw [hq]
  exact nofun

/-- Nobody sleeps where the lock of the list is held. -/
theorem claims_of_held (h : Run (code ids) (Initial ids) tr s) (hin : .semListLock ∈ held (s.ctl t).point) :
    Claims (code ids) held s t .semListLock := by
  cases hc : s.ctl t with
  | awake p =>
    rw [hc] at hin
    exact (claims_awake hc).mpr hin
  | asleep p n =>
    obtain ⟨c, m, timed, next, hi⟩ := h.asleep (fun _ t p n hs => hs.awake t p n) hc
    rw [hc, Ctl.point_asleep] at hin
    cases p <;> first | (cases hin; done) | cases hi

theorem list_unique (h : Run (code ids) (Initial ids) tr s) (ht : .semListLock ∈ held (s.ctl t).point)
    (hu : .semListLock ∈ held (s.ctl u).point) : t = u := by
  have howned : Owned (code ids) held .semListLock s := guarded.owned (fun s hs w hc => by
    obtain ⟨p, hp⟩ := hs.inside w
    rw [claims_awake hp] at hc
    cases hc) h
  exact howned.unique (claims_of_held h ht) (claims_of_held h hu)

/-! ### The program of `Kill`, seen from outside -/

/-- A state of that program that shows what this one is. -/
def Shows (w : KillState θ ι κ) (s : BlockedState θ ι κ) : Prop :=
  w.mem = s.mem.kill ∧ ∀ u, (w.ctl u).point = (s.ctl u).point.leave

/-- Seen from there, a step outside is none, a block, or it locks a semaphore. -/
theorem Moves.view (ids : AddressIds θ) (h : Moves t p m m' p') : (m'.kill = m.kill ∧ p'.leave = p.leave) ∨
    (∃ block c, Kill.code ids t p.leave = .run block ∧ block c m.kill = some (m'.kill, p'.leave)) ∨
    m'.kill = m.kill ∧ ∃ l, Kill.code (ι := ι) (κ := κ) ids t p.leave = .lock l p'.leave := by
  have hlock : ∀ m : Kill.Mem θ ι κ, Kill.userBlock t (.task .lock) m = some (m, .task .userLock) := fun _ => rfl
  have hlockBlock : ∀ {c : TaskLib.Choice θ} {m : Kill.Mem θ ι κ} {n : TaskLib.Mem θ ι} {q : TaskLib.Pc θ},
      TaskLib.lockBlock t .idle .dying c m.task = some (n, q) →
      ∃ block c, Kill.code ids t (.task .userLock) = .run block ∧ block c m = some (m.setTask n, .task q) := by
    intro c m n q hb
    let enter (r : TaskLib.Mem θ ι × TaskLib.Pc θ) : Kill.Mem θ ι κ × Kill.Pc θ ι κ := (m.setTask r.1, .task r.2)
    exact ⟨_, .task c, rfl, congrArg (Option.map enter) hb⟩
  cases h with
  | user hne hb => exact .inr (.inl ⟨_, _, rfl, hb⟩)
  | @found op id m hid =>
    cases op with
    | take => exact .inr (.inl ⟨_, .semTake id, rfl, rfl⟩)
    | _ => exact .inl ⟨rfl, rfl⟩
  | missed op id => exact .inl ⟨rfl, by cases op <;> rfl⟩
  | semLocked op id =>
    cases op with
    | take => exact .inr (.inr ⟨rfl, _, rfl⟩)
    | _ => exact .inl ⟨rfl, rfl⟩
  | starts op id =>
    cases op with
    | delete => exact .inr (.inl ⟨_, .task .lock, rfl, hlock _⟩)
    | _ => exact .inl ⟨rfl, rfl⟩
  | returns op id => exact .inl ⟨rfl, by cases op <;> rfl⟩
  | flushes id => exact .inr (.inl ⟨_, .task .lock, rfl, hlock _⟩)
  | @taskLocked _ _ m k hk =>
    have hb : TaskLib.lockBlock t .idle .dying .none m.kill.task = some ({m.kill.task with sched := k}, .idle) := by
      simp [TaskLib.lockBlock, cancelBlock, hk]
    exact .inr (.inl (hlockBlock hb))
  | @lockKilled _ _ m hc =>
    have hb : TaskLib.lockBlock t .idle .dying .kill m.kill.task = some (m.kill.task, .dying) := by
      simp [TaskLib.lockBlock, cancelBlock, hc]
    exact .inr (.inl (hlockBlock hb))
  | @waitKilled _ _ m hc =>
    have hb : TaskLib.userBlock t .kill m.kill.task = some (m.kill.task, .dying) := if_pos hc
    have hkill : Kill.userBlock t (.task .kill) m.kill = some (m.kill, .task .dying) := by
      simp only [Kill.userBlock, hb, Option.map_some]
      rfl
    exact .inr (.inl ⟨_, _, rfl, hkill⟩)
  | nobody d => exact .inl ⟨rfl, by cases d <;> rfl⟩
  | drained d => exact .inl ⟨rfl, by cases d <;> rfl⟩
  | taskUnlocked => exact .inr (.inl ⟨_, .task .unlock, rfl, rfl⟩)
  | _ => exact .inl ⟨rfl, rfl⟩

/-- A step outside is none there, or a step of that program. -/
theorem view_step (h : Step (code ids) t s s') :
    (s'.mem.kill = s.mem.kill ∧ ∀ u, (s'.ctl u).point.leave = (s.ctl u).point.leave) ∨
      ∃ w w', Shows w s ∧ Shows w' s' ∧ Step (Kill.code ids) t w w' := by
  obtain ⟨_, _, _, _, _, hview, _⟩ | hmoves := step_cases h
  · exact .inr ⟨_, _, ⟨rfl, fun u => Ctl.map_point ..⟩, ⟨rfl, fun u => Ctl.map_point ..⟩, hview⟩
  · -- everybody awake, nothing locked
    let w : KillState θ ι κ := {
      mem := s.mem.kill
      owner := fun _ => none
      signals := fun _ => 0
      ctl := fun u => .awake (s.ctl u).point.leave}
    have hpoint : ∀ u, (Function.update w.ctl t (.awake (s'.ctl t).point.leave) u).point = (s'.ctl u).point.leave := by
      intro u
      by_cases hu : u = t
      · rw [hu, Function.update_self, Ctl.point_awake]
      · rw [Function.update_of_ne hu, h.ctl_other hu]
        rfl
    obtain ⟨hkill, hleave⟩ | ⟨block, c, hcode, hb⟩ | ⟨hkill, l, hcode⟩ := hmoves.view ids
    · refine .inl ⟨hkill, fun u => ?_⟩
      by_cases hu : u = t
      · rw [hu, hleave]
      · rw [h.ctl_other hu]
    · have hstep : Step (Kill.code ids) t w _ := Step.run rfl hcode hb
      exact .inr ⟨w, _, ⟨rfl, fun _ => rfl⟩, ⟨rfl, hpoint⟩, hstep⟩
    · have hstep : Step (Kill.code ids) t w _ := Step.lock (.task .none) rfl hcode rfl
      exact .inr ⟨w, _, ⟨rfl, fun _ => rfl⟩, ⟨hkill.symm, hpoint⟩, hstep⟩

end

end V2lin.Blocked
