import V2lin.Watchdog.Code

/-! What the straight-line code of the watchdog library can do.

`Runs` lists the blocks, one constructor for each way through one, with what was found
on the way. -/
namespace V2lin.Watchdog
open Threads

section
variable {θ ι φ : Type}

/-! ### The memory -/

@[simp] theorem Mem.setWdog_self [DecidableEq ι] (m : Mem ι φ) (id : ι) (v : V2ptWdog φ) :
    (m.setWdog id v).wdog id = v :=
  Function.update_self ..

@[simp] theorem Mem.setWdog_of_ne [DecidableEq ι] (m : Mem ι φ) {id j : ι} (v : V2ptWdog φ) (h : j ≠ id) :
    (m.setWdog id v).wdog j = m.wdog j :=
  Function.update_of_ne h ..

@[simp] theorem Mem.setWdog_block [DecidableEq ι] (m : Mem ι φ) (id : ι) (v : V2ptWdog φ) :
    (m.setWdog id v).block = m.block :=
  rfl

@[simp] theorem Mem.setWdog_wdogList [DecidableEq ι] (m : Mem ι φ) (id : ι) (v : V2ptWdog φ) :
    (m.setWdog id v).wdogList = m.wdogList :=
  rfl

/-! ### The blocks -/

/-- A point outside the library, or in a timeout function. -/
inductive Resting (frame : Frame ι) : Pc ι φ → Prop where
  | idle : Resting frame (.idle frame)
  | returned (op id error) : Resting frame (.returned frame op id error)

variable [DecidableEq ι]

inductive Runs : Pc ι φ → Mem ι φ → Mem ι φ → Pc ι φ → Prop where
  | called {frame p m} (op id) : Resting frame p → Runs p m m (.validLock (.call frame op) id)
  | created {frame p m} (id) : Resting frame p → m.block id = .fresh →
      Runs p m
        {m.setWdog id {m.wdog id with ticksRemaining := 0} with block := Function.update m.block id .live}
        (.linkLock frame id)
  | passed {p m} : Resting .task p → Runs p m m (passOn m.wdogList.head?)
  | finished {p m next} : Resting (.callback next) p → Runs p m m (passOn next)
  | linked {m} (frame id) : Runs (.linkAppend frame id) m {m with wdogList := m.wdogList ++ [id]}
      (.linkUnlock frame id)
  | found {m id} (use) : id ∈ m.wdogList → Runs (.validScan use id) m m (.validWdog use id)
  | notFound {m id} (use) : id ∉ m.wdogList → Runs (.validScan use id) m m (.validUnlock use id false)
  | started {m} (frame delay f parm id) : Runs (.startSet frame delay f parm id) m
      (m.setWdog id ((m.wdog id).start delay f parm)) (.leave frame (.start delay f parm) id)
  | cancelled {m} (frame id) : Runs (.cancelZero frame id) m
      (m.setWdog id {m.wdog id with ticksRemaining := 0}) (.leave frame .cancel id)
  | unlinked {m} (frame id) : Runs (.deleteUnlink frame id) m {m with wdogList := m.wdogList.erase id}
      (.deleteListUnlock frame id)
  | freed {m} (frame id) : Runs (.deleteFree frame id) m {m with block := Function.update m.block id .freed}
      (.returned frame .delete id .ok)
  | ticked {m} (id) : Runs (.tickCount id) m (m.setWdog id (m.wdog id).tick.1)
      (.tickUnlock id (nextWdog m.wdogList id) (m.wdog id).tick.2)
  | fired {m f} (id next) : (m.wdog id).timeoutFunc = some f → Runs (.tickCall id next) m m (.idle (.callback next))

theorem callBlock_runs {frame : Frame ι} {p p' : Pc ι φ} {c : Choice ι φ} {m m' : Mem ι φ} (hp : Resting frame p)
    (h : callBlock frame c m = some (m', p')) : Runs p m m' p' := by
  cases c with
  | none => cases h
  | call op id =>
    cases h
    exact .called op id hp
  | create id =>
    simp only [callBlock] at h
    split at h
    · cases h
      exact .created id hp (by assumption)
    · cases h
  | pass =>
    cases frame with
    | task =>
      cases h
      exact .passed hp
    | callback next => cases h
  | finish =>
    cases frame with
    | task => cases h
    | callback next =>
      cases h
      exact .finished hp

variable {t : θ}

/-- Every block of the library is one of `Runs`. -/
theorem block_runs {p p' : Pc ι φ} {block : Choice ι φ → Mem ι φ → Option (Mem ι φ × Pc ι φ)} {c : Choice ι φ}
    {m m' : Mem ι φ} (hi : code t p = .run block) (h : block c m = some (m', p')) : Runs p m m' p' := by
  cases p <;> simp only [code, Instr.run.injEq, reduceCtorEq] at hi <;> subst hi
  case idle frame => exact callBlock_runs .idle h
  case returned frame op id error => exact callBlock_runs (.returned op id error) h
  case linkAppend frame id =>
    cases h
    exact .linked frame id
  case validScan use id =>
    cases h
    split
    · exact .found use (by assumption)
    · exact .notFound use (by assumption)
  case startSet frame delay f parm id =>
    cases h
    exact .started frame delay f parm id
  case cancelZero frame id =>
    cases h
    exact .cancelled frame id
  case deleteUnlink frame id =>
    cases h
    exact .unlinked frame id
  case deleteFree frame id =>
    cases h
    exact .freed frame id
  case tickCount id =>
    cases h
    exact .ticked id
  case tickCall id next =>
    obtain ⟨f, hf, he⟩ := Option.map_eq_some_iff.mp h
    cases he
    exact .fired id next hf

variable [DecidableEq θ]

/-- A step of the library runs a block, or it leaves the memory alone and its thread goes
on to the next point. -/
theorem step_cases {s s' : WdogState θ ι φ} (h : Step code t s s') :
    (s'.mem = s.mem ∧ (∀ block, code t (s.ctl t).point ≠ .run block) ∧
      ((s'.ctl t).point = (s.ctl t).point ∨ (code t (s.ctl t).point).Next (s'.ctl t).point)) ∨
    ∃ p p', s.ctl t = .awake p ∧ s'.ctl t = .awake p' ∧ Runs p s.mem s'.mem p' ∧ s'.owner = s.owner := by
  obtain hq | ⟨p, block, c, p', hp, hi, hb, hp', ho⟩ := h.sync_or_block
  · exact .inl hq
  · exact .inr ⟨p, p', hp, hp', block_runs hi hb, ho⟩

end

end V2lin.Watchdog
