import V2lin.Watchdog.Steps
import V2lin.Threads.Catalogue
import V2lin.Threads.Lookups

/-! `wdog_valid` and the calls of the watchdog library.

A pass over the timer list looks its watchdogs up the same way, but is no call: a watchdog
that it does not find ends the pass, and nothing is reported. -/
namespace V2lin.Watchdog
open Threads

section
variable {θ ι φ : Type}

/-! ### What the points are -/

def isDeletion : Frame ι × Op φ → Bool
  | (_, .delete) => true
  | _ => false

def view : Pc ι φ → View (Frame ι × Op φ) ι
  | .idle _ | .linkLock _ _ | .linkAppend _ _ | .linkUnlock _ _ => .outside
  | .validLock .tick _ | .validScan .tick _ | .validWdog .tick _ | .validUnlock .tick _ _ => .outside
  | .tickCount _ | .tickUnlock _ _ _ | .tickCall _ _ => .outside
  | .returned frame op id error => .returned (frame, op) id (error = .objIdError)
  | .validLock (.call frame op) id | .validScan (.call frame op) id => .seeks (frame, op) id
  | .validUnlock (.call frame op) id false => .missed (frame, op) id
  | .validWdog (.call frame op) id | .validUnlock (.call frame op) id true => .inside (frame, op) id
  | .startSet frame delay f parm id => .inside (frame, .start delay f parm) id
  | .cancelZero frame id => .inside (frame, .cancel) id
  | .leave frame (.start delay f parm) id => .inside (frame, .start delay f parm) id
  | .leave frame .cancel id => .inside (frame, .cancel) id
  | .leave _ .delete _ => .outside
  | .deleteListLock frame id | .deleteUnlink frame id => .inside (frame, .delete) id
  | .deleteListUnlock frame id | .deleteUnlock frame id | .deleteFree frame id => .removed (frame, .delete) id

def listEdit : Pc ι φ → Option (ListEdit ι)
  | .linkAppend _ id => some (.link id)
  | .deleteUnlink _ id => some (.unlink id)
  | _ => none

/-- The watchdog that is being made or deleted. -/
def changes : Pc ι φ → Option ι
  | .linkLock _ id | .linkAppend _ id | .linkUnlock _ id => some id
  | .deleteListLock _ id | .deleteUnlink _ id | .deleteListUnlock _ id => some id
  | .deleteUnlock _ id | .deleteFree _ id => some id
  | _ => none

/-- The watchdog that a creator has made and not yet linked. -/
def publishing : Pc ι φ → Option ι
  | .linkLock _ id | .linkAppend _ id => some id
  | _ => none

variable {p p' : Pc ι φ} {id : ι} {frame : Frame ι}

theorem Resting.view (h : Resting frame p) : (view p).active = false ∧ (view p).looking = false := by
  cases h <;> exact ⟨rfl, rfl⟩

theorem Resting.listEdit (h : Resting frame p) : listEdit p = none := by
  cases h <;> rfl

theorem Resting.publishing (h : Resting frame p) : publishing p = none := by
  cases h <;> rfl

theorem publishing_passOn (next : Option ι) : publishing (passOn next : Pc ι φ) = none := by
  cases next <;> rfl

theorem publishing_entry (use : Use ι φ) (id : ι) (found : Bool) : publishing (entry use id found) = none := by
  cases use with
  | tick => cases found <;> rfl
  | call frame op =>
    cases found
    · rfl
    · cases op <;> rfl

theorem view_entry (frame : Frame ι) (op : Op φ) (id : ι) :
    view (entry (.call frame op) id true) = .inside (frame, op) id := by
  cases op <;> rfl

variable [DecidableEq ι] {t : θ} {m m' : Mem ι φ} {l : List ι}

/-! ### The list of watchdogs -/

/-- The watchdogs, the list and the points. Nobody holds on to a watchdog that he has found
without `wdog_lock`. -/
def catalogue : Catalogue (Mem ι φ) (Pc ι φ) ι where
  listed := Mem.wdogList
  fresh m id := m.block id = .fresh
  publishing := publishing
  uses _ := none
  comes _ := none

/-- The list of watchdogs as a directory. -/
def registry (s : WdogState θ ι φ) : Directory θ ι := catalogue.registry s

theorem next_publishing (h : (code t p).Next p') : publishing p' = publishing p := by
  cases p
  case validUnlock use id found =>
    cases h
    exact publishing_entry use id found
  case tickUnlock id next fires =>
    cases h
    cases fires
    · exact publishing_passOn next
    · rfl
  all_goals first
    | exact False.elim h
    | (cases h; rfl)

/-- A block in the directory of its thread. -/
theorem Runs.move (h : Runs p m m' p') :
    (catalogue.directory m fun _ : Unit => p).Move () (catalogue.directory m' fun _ => p') := by
  have hstay : m'.wdogList = m.wdogList → publishing p' = publishing p →
      (catalogue.directory m fun _ : Unit => p).Move () (catalogue.directory m' fun _ => p') :=
    fun hl hpub => .stay hl hpub nofun
  cases h with
  | called _ _ hrest => exact hstay rfl hrest.publishing.symm
  | created id hrest hf =>
    refine .make id hf ?_ rfl rfl rfl
    show Function.update m.block id .live id ≠ .fresh
    simp
  | passed hrest => exact hstay rfl ((publishing_passOn _).trans hrest.publishing.symm)
  | finished hrest => exact hstay rfl ((publishing_passOn _).trans hrest.publishing.symm)
  | linked frame id => exact .publish id rfl rfl rfl rfl
  | unlinked frame id => exact .withdraw id rfl rfl rfl
  | _ => exact hstay rfl rfl

variable [DecidableEq θ] {s s' : WdogState θ ι φ} {tr : List (WdogTransition θ ι φ)}

omit [DecidableEq θ] in
/-- A block that has been used stays used. -/
theorem Runs.block_mono (h : Runs p m m' p') (hb : m.block id ≠ .fresh) : m'.block id ≠ .fresh := by
  cases h with
  | created j =>
    show Function.update m.block j .live id ≠ .fresh
    by_cases hj : id = j
    · simp [hj]
    · rwa [Function.update_of_ne hj]
  | freed frame j =>
    show Function.update m.block j .freed id ≠ .fresh
    by_cases hj : id = j
    · simp [hj]
    · rwa [Function.update_of_ne hj]
  | _ => exact hb

omit [DecidableEq θ] in
/-- The code keeps to the catalogue. -/
theorem kept : catalogue.Kept (code : θ → Pc ι φ → Instr (Mem ι φ) (Lock ι) Empty (Pc ι φ) (Choice ι φ)) where
  next h := .of_eq (next_publishing h) rfl rfl
  block hi hb :=
    have hr := block_runs hi hb
    ⟨hr.move, fun _ hf => by_contra fun hb => hr.block_mono hb hf, nofun⟩

omit [DecidableEq θ] [DecidableEq ι] in
theorem initial_registry (s : WdogState θ ι φ) (h : Initial s) : (registry s).Sound :=
  Catalogue.sound_of_idle h.wdogList h.idle rfl rfl

/-- In every run a watchdog is linked once. -/
theorem registry_sound (h : Run code Initial tr s) : (registry s).Sound :=
  kept.sound initial_registry h

/-! ### The steps of a call -/

omit [DecidableEq θ] in
/-- What is no block edits no list. -/
theorem listEdit_of_no_block (h : ∀ block, code t p ≠ .run block) : listEdit p = none := by
  cases p <;> first
    | rfl
    | exact absurd rfl (h _)

omit [DecidableEq θ] in
theorem next_moves (h : (code t p).Next p') (hp : (view p).active = true) :
    Lookups.Moves isDeletion l (listEdit p) (view p) (view p') := by
  cases p
  case validLock use j =>
    cases h
    cases use <;> exact .stays _ rfl
  case validWdog use j =>
    cases h
    cases use <;> exact .stays _ rfl
  case validUnlock use j found =>
    cases h
    cases use with
    | tick => cases hp
    | call frame op =>
      cases found
      · exact .rejected
      · rw [view_entry]
        exact .stays _ rfl
  case leave frame op j =>
    cases h
    cases op with
    | start => exact .ended rfl
    | cancel => exact .ended rfl
    | delete => cases hp
  all_goals first
    | exact False.elim h
    | (cases h; exact .stays _ rfl)
    | cases hp

omit [DecidableEq θ] in
theorem Runs.moves (h : Runs p m m' p') (hp : (view p).active = true) :
    Lookups.Moves isDeletion m.wdogList (listEdit p) (view p) (view p') := by
  cases h with
  | called _ _ hrest => rw [hrest.view.1] at hp; cases hp
  | created _ hrest => rw [hrest.view.1] at hp; cases hp
  | passed hrest => rw [hrest.view.1] at hp; cases hp
  | finished hrest => rw [hrest.view.1] at hp; cases hp
  | linked => cases hp
  | ticked => cases hp
  | fired => cases hp
  | found use hin =>
    cases use with
    | tick => cases hp
    | call frame op => exact .found rfl hin
  | notFound use hout =>
    cases use with
    | tick => cases hp
    | call frame op => exact .missed rfl hout
  | unlinked => exact .removed rfl
  | freed => exact .gone
  | _ => exact .stays _ rfl

omit [DecidableEq θ] in
theorem Runs.lists (h : Runs p m m' p') : m'.wdogList = Lookups.edited m.wdogList (listEdit p) := by
  cases h with
  | called _ _ hrest => rw [hrest.listEdit]; rfl
  | created _ hrest => rw [hrest.listEdit]; rfl
  | passed hrest => rw [hrest.listEdit]; rfl
  | finished hrest => rw [hrest.listEdit]; rfl
  | _ => rfl

omit [DecidableEq θ] in
/-- The code up to the lookup changes nothing. -/
theorem Runs.still (h : Runs p m m' p') (hp : (view p).looking = true ∨ (view p').looking = true) : m' = m := by
  cases h with
  | created _ hrest =>
    obtain hview | hview := hp
    · rw [hrest.view.2] at hview
      cases hview
    · cases hview
  | linked => obtain hview | hview := hp <;> cases hview
  | started => obtain hview | hview := hp <;> cases hview
  | cancelled => obtain hview | hview := hp <;> cases hview
  | unlinked => obtain hview | hview := hp <;> cases hview
  | freed => obtain hview | hview := hp <;> cases hview
  | ticked => obtain hview | hview := hp <;> cases hview
  | _ => rfl

/-! ### The library -/

/-- The watchdog library. -/
def lookups : Lookups θ (Mem ι φ) (Lock ι) Empty (Pc ι φ) (Choice ι φ) (Frame ι × Op φ) ι where
  code := code
  initial := Initial
  listed := Mem.wdogList
  deletes := isDeletion
  edit := listEdit
  changes := changes
  view := view

theorem lookups_sound : (lookups : Lookups θ (Mem ι φ) _ _ _ _ _ ι).Sound where
  empty s hs := hs.wdogList
  nodup h := (registry_sound h).nodup
  lists {t s s'} h := by
    show s'.mem.wdogList = Lookups.edited s.mem.wdogList (listEdit (s.ctl t).point)
    obtain ⟨hm, hblock, _⟩ | ⟨p, p', hp, _, hr, _⟩ := step_cases h
    · rw [hm, listEdit_of_no_block hblock]
      rfl
    · rw [hp, Ctl.point_awake]
      exact hr.lists
  starts {t s s' op id} h hidle hseeks := by
    obtain ⟨hm, _⟩ | ⟨p, p', hp, hp', hr, _⟩ := step_cases h
    · exact hm
    · refine hr.still (.inr ?_)
      have hview : view (s'.ctl t).point = .seeks op id := hseeks
      rw [hp', Ctl.point_awake] at hview
      rw [hview]
      rfl
  changes p id h := by
    cases p <;> obtain h | h := h <;> cases h <;> rfl
  moves {tr t s s'} h hs hactive _ := by
    show Lookups.Moves isDeletion s.mem.wdogList (listEdit (s.ctl t).point) (view (s.ctl t).point) (view (s'.ctl t).point)
    obtain ⟨_, hblock, heq | hnext⟩ | ⟨p, p', hp, hp', hr, _⟩ := step_cases hs
    · rw [heq, listEdit_of_no_block hblock]
      exact .stays _ rfl
    · exact next_moves hnext hactive
    · rw [hp, hp', Ctl.point_awake, Ctl.point_awake]
      refine hr.moves ?_
      rwa [hp] at hactive
  still {t s s'} h hlooking := by
    obtain ⟨hm, _⟩ | ⟨p, p', hp, _, hr, _⟩ := step_cases h
    · exact hm
    · rw [hp, Ctl.point_awake] at hlooking
      exact hr.still (.inl hlooking)

end

end V2lin.Watchdog
