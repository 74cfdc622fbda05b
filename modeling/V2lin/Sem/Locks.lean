import V2lin.Sem.Fields

/-! Which of its mutexes the semaphore library holds, point by point.

Every mutex is released only where it is held. It is forgotten at two places: by
`semFlush`, which keeps `sem_lock` when it finds nobody to flush, and by `semDelete`,
which frees the block together with the mutex it still holds. -/
namespace V2lin.Sem
open Threads V2lin.Task

section
variable {θ ι : Type}

/-- The mutexes held at a point. -/
def held : Pc ι → List (Lock ι)
  | .linkAppend _ | .linkUnlock _ | .findScan _ _ | .findSem _ _ => [.semListLock]
  | .findUnlock _ id found => if found then [.semListLock, .semLock id] else [.semListLock]
  | .takeStart _ id | .takeTest _ id _ | .takeWait _ id | .takePoll _ id _ | .takeAgain _ id _ => [.semLock id]
  | .takeLastLock _ id _ | .takeEnd _ id _ | .takeUnlock _ id _ => [.semLock id]
  | .takeLastNotify _ id _ | .takeLastReset _ id _ | .takeLastUnlock _ id _ => [.semLock id, .smdelLock id]
  | .giveStart id | .giveNotify id | .giveUnlock id _ => [.semLock id]
  | .flushStart id | .flushRefuse id | .flushTaskLock id | .flushTest id | .flushSmdelLock id => [.semLock id]
  | .flushMark id | .flushNotify id | .flushSemUnlock id => [.semLock id, .smdelLock id]
  | .flushDrain id | .flushWait id | .flushSmdelUnlock id => [.smdelLock id]
  | .deleteTaskLock id | .deleteTest id | .deleteSmdelLock id => [.semLock id]
  | .deleteMark id | .deleteNotify id | .deleteSemUnlock id => [.semLock id, .smdelLock id]
  | .deleteDrain id | .deleteWait id => [.smdelLock id]
  | .deleteListLock id drained | .deleteFree id drained =>
    if drained then [.smdelLock id] else [.semLock id]
  | .deleteUnlink id drained | .deleteListUnlock id drained =>
    if drained then [.semListLock, .smdelLock id] else [.semListLock, .semLock id]
  | _ => []

@[simp] theorem held_entry (op : Op) (id : ι) : held (entry op id) = [.semLock id] := by
  cases op <;> rfl

theorem held_resting {p : Pc ι} (h : p.resting = true) : held p = [] := by
  cases p <;> first | rfl | cases h

section
attribute [local simp] held

theorem touches_of_held {p : Pc ι} {id : ι} (h : .semLock id ∈ held p ∨ .smdelLock id ∈ held p) :
    touches p = some id := by
  cases p
  case findUnlock op j found =>
    cases found
    · simp at h
    · simp at h
      simp [touches, h]
  all_goals first
    | (simp at h; done)
    | (simp at h; simp [touches, h]; done)
    | (rename_i drained; cases drained <;> (simp at h; simp [touches, h]))

end

theorem WaitPoint.held {maxWait : Int} {id : ι} {retcode : Retcode} {p : Pc ι}
    (h : WaitPoint maxWait id retcode p) : held p = [.semLock id] := by
  cases h <;> rfl

variable [DecidableEq θ] [DecidableEq ι]
variable {myTask : θ → Option θ} {prio : θ → Int} {t : θ} {p p' : Pc ι} {m m' : Mem θ ι}

/-- A block takes and gives up nothing, except that a flush of nobody forgets
`sem_lock` and the freeing of a control block what was held of it. -/
theorem Runs.held_eq (h : Runs myTask prio t p m m' p') :
    held p' = held p ∨ (∃ id, p = .flushTest id ∧ p' = .flushTaskUnlock id false ∧ (m.sem id).firstSusp = []) ∨
      ∃ id drained, p = .deleteFree id drained ∧ p' = .deleteTaskUnlock id drained := by
  cases h with
  | called _ _ hp => exact .inl (held_resting hp).symm
  | refused hp => exact .inl (held_resting hp).symm
  | created _ _ hp => exact .inl (held_resting hp).symm
  | left hw =>
    obtain ⟨retcode, hp⟩ := hw.point
    rw [hp.held]
    left
    split <;> rfl
  | sleeps hp => exact .inl hp.held.symm
  | polls hp => exact .inl hp.held.symm
  | gave =>
    left
    split <;> rfl
  | flushNobody h => exact .inr (.inl ⟨_, rfl, rfl, h⟩)
  | freed id drained => exact .inr (.inr ⟨id, drained, rfl, rfl⟩)
  | _ => exact .inl rfl

/-- A block changes a semaphore in use under its lock only. -/
theorem Runs.sem_locked {id : ι} (h : Runs myTask prio t p m m' p') (hb : m.block id ≠ .fresh) :
    m'.sem id = m.sem id ∨ .semLock id ∈ held p := by
  have hset : ∀ {m : Mem θ ι} {j : ι} {v : V2lsem θ}, .semLock j ∈ held p →
      (m.setSem j v).sem id = m.sem id ∨ .semLock id ∈ held p := by
    intro m j v hj
    by_cases hid : id = j
    · exact .inr (hid ▸ hj)
    · exact .inl (Mem.setSem_of_ne m v hid)
  cases h with
  | created j _ _ hf => exact .inl (Mem.setSem_of_ne m _ fun hj => hb (hj ▸ hf))
  | @reentered m maxWait j =>
    exact (hset (j := j) (by simp [held])).imp_left fun heq => by rw [heq, Mem.setWaiting_sem]
  | @pended m maxWait j =>
    exact (hset (j := j) (by simp [held])).imp_left fun heq => by rw [heq, Mem.setWaiting_sem]
  | left hw =>
    obtain ⟨retcode, hp⟩ := hw.point
    exact hset (by simp [hp.held])
  | reset => exact hset (by simp [held])
  | ended => exact .inl (by rw [Mem.setWaiting_sem])
  | gave => exact hset (by simp [held])
  | flushMarked => exact hset (by simp [held])
  | deleteMarked => exact hset (by simp [held])
  | _ => exact .inl rfl

/-- What is held changes with the locking instructions as `held` says. -/
theorem guarded (lock : Lock ι) : Guarded (code myTask prio) held lock := by
  intro t p
  by_cases hr : ∃ block, code myTask prio t p = .run block
  · obtain ⟨block, hi⟩ := hr
    rw [hi]
    intro c v v' p' hb hl
    obtain heq | ⟨id, _, rfl, _⟩ | ⟨id, drained, _, rfl⟩ := (block_runs hi hb).held_eq
    · exact heq ▸ hl
    · cases hl
    · cases hl
  · cases p
    case findUnlock op id found =>
      cases found
      · cases lock <;> simp [code, Instr.Tracked, held]
      · cases op <;> cases lock <;> simp [code, Instr.Tracked, held, entry]
    all_goals first
      | exact absurd ⟨_, rfl⟩ hr
      | (simp [code, Instr.Tracked, held]; done)
      | (cases lock <;> simp [code, Instr.Tracked, held]; done)
      | (rename_i drained; cases drained <;> cases lock <;> simp [code, Instr.Tracked, held])

/-- A thread asleep in the library claims nothing. -/
theorem claims_iff {s : SemState θ ι} {lock : Lock ι} :
    Claims (code myTask prio) held s t lock ↔ ∃ p, s.ctl t = .awake p ∧ lock ∈ held p := by
  cases hc : s.ctl t with
  | awake p => simp [claims_awake hc]
  | asleep p n =>
    rw [claims_asleep hc]
    refine iff_of_false ?_ (by simp)
    rintro ⟨hin, m', hw, hne⟩
    cases p <;> simp [code, Instr.waitMutex] at hw
    all_goals
      subst hw
      simp [held] at hin
      exact hne hin

/-! ### What an operation leaves behind -/

/-- A thread outside the library. -/
def atRest : Ctl (Pc ι) → Bool
  | .awake p => p.resting
  | .asleep _ _ => false

omit [DecidableEq ι] in
theorem atRest_iff {c : Ctl (Pc ι)} : atRest c = true ↔ ∃ p, c = .awake p ∧ p.resting = true := by
  cases c <;> simp [atRest]

/-- Every thread is outside the library and no mutex is taken; the memory is anything. -/
structure Outside (s : SemState θ ι) : Prop where
  resting : ∀ t, atRest (s.ctl t) = true
  free : ∀ lock, s.owner lock = none

omit [DecidableEq θ] [DecidableEq ι] in
theorem Initial.outside {s : SemState θ ι} (h : Initial s) : Outside s :=
  ⟨fun t => by rw [h.idle t]; rfl, h.owner⟩

/-- The step in which a thread calls an operation. -/
def Calls (t : θ) (x : SemTransition θ ι) : Prop :=
  x.thread = t ∧ atRest (x.pre.ctl t) = true

instance (t : θ) (x : SemTransition θ ι) : Decidable (Calls t x) := inferInstanceAs (Decidable (_ ∧ _))

/-- The step in which `semFlush` finds nobody to flush. -/
def FlushesNobody (t : θ) (id : ι) (x : SemTransition θ ι) : Prop :=
  x.thread = t ∧ x.pre.ctl t = .awake (.flushTest id) ∧ (x.pre.mem.sem id).firstSusp = []

/-- The step in which `semDelete` frees the control block, with the mutex it holds. -/
def Frees (t : θ) (id : ι) (lock : Lock ι) (x : SemTransition θ ι) : Prop :=
  x.thread = t ∧ ∃ drained, x.pre.ctl t = .awake (.deleteFree id drained) ∧
    lock = if drained then .smdelLock id else .semLock id

variable {tr : List (SemTransition θ ι)} {s s' : SemState θ ι} {lock : Lock ι}
variable {x : SemTransition θ ι} {id : ι}

theorem outside_owned (s : SemState θ ι) (h : Outside s) : Owned (code myTask prio) held lock s := by
  intro t hc
  obtain ⟨p, hp, hrest⟩ := atRest_iff.mp (h.resting t)
  rw [claims_awake hp, held_resting hrest] at hc
  cases hc

theorem owner_iff (h : Run (code myTask prio) Outside tr s) :
    s.owner lock = some t ↔
      Claims (code myTask prio) held s t lock ∨ ∃ x ∈ tr, Forgets (code myTask prio) held t lock x :=
  (guarded lock).owner_iff outside_owned (fun _ hs => hs.free lock) h

theorem forgets_step_iff (h : Run (code myTask prio) Outside tr s) (hs : Step (code myTask prio) t s s') :
    Forgets (code myTask prio) held t lock ⟨s, t, s'⟩ ↔
      (∃ id, lock = .semLock id ∧ FlushesNobody t id ⟨s, t, s'⟩) ∨ ∃ id, Frees t id lock ⟨s, t, s'⟩ := by
  refine ⟨fun hf => ?_, ?_⟩
  · obtain ⟨p, block, c, p', hp, hi, hb, _, hin, hout⟩ := hf.block (guarded lock) hs
    obtain heq | ⟨id, rfl, rfl, hnobody⟩ | ⟨id, drained, rfl, rfl⟩ := (block_runs hi hb).held_eq
    · exact absurd (heq ▸ hin) hout
    · exact .inl ⟨id, by simpa [held] using hin, rfl, hp, hnobody⟩
    · refine .inr ⟨id, rfl, drained, hp, ?_⟩
      cases drained <;> simpa [held] using hin
  · have howned : Owned (code myTask prio) held lock s := (guarded lock).owned outside_owned h
    rintro (⟨id, rfl, _, hp, hnobody⟩ | ⟨id, _, drained, hp, rfl⟩)
    · obtain ⟨_, p', hb, hp', ho⟩ := hs.block hp rfl
      obtain ⟨_, rfl⟩ := Prod.mk.inj (Option.some.inj hb)
      refine howned.forgets hp hp' ho (List.mem_singleton_self _) ?_
      rw [if_neg (not_not.mpr hnobody)]
      exact List.not_mem_nil
    · obtain ⟨_, p', hb, hp', ho⟩ := hs.block hp rfl
      obtain ⟨_, rfl⟩ := Prod.mk.inj (Option.some.inj hb)
      refine howned.forgets hp hp' ho ?_ List.not_mem_nil
      cases drained <;> exact List.mem_singleton_self _

/-- A mutex is forgotten by a flush of nobody or by the freeing of its block, and by
nothing else. -/
theorem forgets_iff (h : Run (code myTask prio) Outside tr s) (hx : x ∈ tr) :
    Forgets (code myTask prio) held t lock x ↔
      (∃ id, lock = .semLock id ∧ FlushesNobody t id x) ∨ ∃ id, Frees t id lock x := by
  have hs := h.steps x hx
  obtain ⟨later, before, rfl⟩ := List.append_of_mem hx
  have hbefore := h.before
  obtain ⟨pre, u, post⟩ := x
  by_cases hu : u = t
  · subst hu
    exact forgets_step_iff hbefore hs
  · refine iff_of_false (fun hf => hu hf.thread) ?_
    rintro (⟨id, _, ht, _⟩ | ⟨id, ht, _⟩)
    · exact hu ht
    · exact hu ht

theorem Frees.block (hs : Step (code myTask prio) x.thread x.pre x.post) (h : Frees t id lock x) :
    x.post.mem.block id = .freed := by
  obtain ⟨rfl, drained, hp, _⟩ := h
  obtain ⟨_, p', hb, _, _⟩ := hs.block hp rfl
  obtain ⟨hm, _⟩ := Prod.mk.inj (Option.some.inj hb)
  rw [← hm]
  exact Function.update_self ..

/-- From the freeing of a block to its next call, a thread is on its way out of
`semDelete`, which succeeds. -/
def Deleted (t : θ) (s : SemState θ ι) : Prop :=
  (∃ id drained, s.ctl t = .awake (.deleteTaskUnlock id drained)) ∨
    ∃ id, s.ctl t = .awake (.returned .delete id .ok)

theorem Frees.deleted (hs : Step (code myTask prio) x.thread x.pre x.post) (h : Frees t id lock x) :
    Deleted t x.post := by
  obtain ⟨rfl, drained, hp, _⟩ := h
  obtain ⟨_, p', hb, hp', _⟩ := hs.block hp rfl
  obtain ⟨_, rfl⟩ := Prod.mk.inj (Option.some.inj hb)
  exact .inl ⟨id, drained, hp'⟩

theorem deleted_step (hs : Step (code myTask prio) x.thread x.pre x.post) (hcall : ¬ Calls t x)
    (h : Deleted t x.pre) : Deleted t x.post := by
  by_cases ht : t = x.thread
  · subst ht
    obtain ⟨id, drained, hp⟩ | ⟨id, hp⟩ := h
    · obtain ⟨_, p', hb, hp', _⟩ := hs.block hp rfl
      obtain ⟨_, rfl⟩ := Prod.mk.inj (Option.some.inj hb)
      exact .inr ⟨id, hp'⟩
    · exact absurd ⟨rfl, by rw [hp]; rfl⟩ hcall
  · unfold Deleted
    rwa [hs.ctl_other ht]

variable {later before : List (SemTransition θ ι)} {op : Op} {error : Status}

/-- A thread outside the library owns what it has forgotten. -/
theorem owner_resting_iff (h : Run (code myTask prio) Outside tr s) {p : Pc ι} (hp : s.ctl t = .awake p)
    (hrest : p.resting = true) :
    s.owner lock = some t ↔ ∃ x ∈ tr, Forgets (code myTask prio) held t lock x := by
  rw [owner_iff h, claims_awake hp, held_resting hrest]
  simp

/-- What an operation that frees nothing adds to the mutexes that its thread owns. -/
theorem owner_returned_iff (h : Run (code myTask prio) Outside (later ++ x :: before) s) (hx : Calls t x)
    (hlater : ∀ y ∈ later, ¬ Calls t y) (hret : s.ctl t = .awake (.returned op id error))
    (hfail : op = .delete → error ≠ .ok) :
    s.owner lock = some t ↔
      x.pre.owner lock = some t ∨ ∃ y ∈ later, ∃ id, lock = .semLock id ∧ FlushesNobody t id y := by
  obtain ⟨p, hp, hrest⟩ := atRest_iff.mp hx.2
  rw [owner_resting_iff h hret rfl, owner_resting_iff h.before hp hrest]
  refine ⟨?_, ?_⟩
  · rintro ⟨y, hy, hf⟩
    obtain hy | hy := List.mem_append.mp hy
    · obtain ⟨id, hlock, hnobody⟩ | ⟨id, hfrees⟩ :=
        (forgets_iff h (List.mem_append_left _ hy)).mp hf
      · exact .inr ⟨y, hy, id, hlock, hnobody⟩
      · -- the call would be a deletion that has succeeded
        obtain ⟨later', before', rfl⟩ := List.append_of_mem hy
        rw [List.append_assoc] at h
        have hd : Deleted t s := h.after (Deleted t)
          (hfrees.deleted (h.steps y (List.mem_append_right _ (List.mem_cons_self ..))))
          (fun z hz hs hpre => deleted_step hs (hlater z (List.mem_append_left _ hz)) hpre)
        obtain ⟨id', drained, hd⟩ | ⟨id', hd⟩ := hd
        · rw [hret] at hd
          cases hd
        · rw [hret] at hd
          cases hd
          exact absurd rfl (hfail rfl)
    · obtain rfl | hy := List.mem_cons.mp hy
      · -- the call itself holds nothing
        obtain ⟨q, block, c, q', hq, _, _, _, hin, _⟩ := hf.block (guarded lock) (h.steps y
          (List.mem_append_right _ (List.mem_cons_self ..)))
        rw [hp] at hq
        cases hq
        rw [held_resting hrest] at hin
        cases hin
      · exact .inl ⟨y, hy, hf⟩
  · rintro (⟨y, hy, hf⟩ | ⟨y, hy, id, hlock, hnobody⟩)
    · exact ⟨y, List.mem_append_right _ (List.mem_cons_of_mem _ hy), hf⟩
    · have hy := List.mem_append_left (x :: before) hy
      exact ⟨y, hy, (forgets_iff h hy).mpr (.inl ⟨id, hlock, hnobody⟩)⟩

/-- A control block that some deletion has freed. -/
theorem freed_of_frees (h : Run (code myTask prio) Outside tr s) (hx : x ∈ tr) (hf : Frees t id lock x) :
    s.mem.block id = .freed := by
  have hs := h.steps x hx
  obtain ⟨later, before, rfl⟩ := List.append_of_mem hx
  exact h.after (fun s => s.mem.block id = .freed) (hf.block hs) (fun y _ hy hpre => freed_step hy hpre)

/-- What a thread outside the library owns of the list and of the blocks not freed. -/
theorem owner_live_iff (h : Run (code myTask prio) Outside tr s) {p : Pc ι} (hp : s.ctl t = .awake p)
    (hrest : p.resting = true) (hlive : s.mem.block id ≠ .freed)
    (hlock : lock = .semListLock ∨ lock = .semLock id ∨ lock = .smdelLock id) :
    s.owner lock = some t ↔ lock = .semLock id ∧ ∃ y ∈ tr, FlushesNobody t id y := by
  rw [owner_resting_iff h hp hrest]
  refine ⟨?_, ?_⟩
  · rintro ⟨y, hy, hf⟩
    obtain ⟨id', rfl, hnobody⟩ | ⟨id', hfrees⟩ := (forgets_iff h hy).mp hf
    · obtain hl | hl | hl := hlock <;> cases hl
      exact ⟨rfl, y, hy, hnobody⟩
    · have hfreed := freed_of_frees h hy hfrees
      obtain ⟨_, drained, _, rfl⟩ := hfrees
      cases drained
      · obtain hl | hl | hl := hlock <;> cases hl
        exact absurd hfreed hlive
      · obtain hl | hl | hl := hlock <;> cases hl
        exact absurd hfreed hlive
  · rintro ⟨hl, y, hy, hnobody⟩
    exact ⟨y, hy, (forgets_iff h hy).mpr (.inl ⟨id, hl, hnobody⟩)⟩

/-- An operation that does not free a control block leaves its thread without any
mutex that the thread did not hold before, and gives up none that it does not hold,
if and only if it does not flush nobody. When all threads are back, `sem_list_lock` and
`smdel_lock` are free, and `sem_lock` is if and only if nobody was flushed on it. -/
theorem operation_balanced_iff
    (h : Run (code myTask prio) Outside (later ++ x :: before) s) (hx : Calls t x)
    (hlater : ∀ y ∈ later, ¬ Calls t y) (hret : s.ctl t = .awake (.returned op id error))
    (hfail : op = .delete → error ≠ .ok) :
    (((∀ lock, s.owner lock = some t → x.pre.owner lock = some t) ∧
        ∀ y ∈ later, ∀ lock, y.thread = t → Releases (code myTask prio) lock y → y.pre.owner lock = some t) ↔
      ∀ y ∈ later, ∀ id, ¬ FlushesNobody t id y) ∧
    ((∀ u, atRest (s.ctl u) = true) →
      ∀ id, s.mem.block id ≠ .freed → s.owner .semListLock = none ∧ s.owner (.smdelLock id) = none ∧
        (s.owner (.semLock id) = none ↔ ∀ y ∈ later ++ x :: before, ∀ u, ¬ FlushesNobody u id y)) := by
  refine ⟨⟨fun ⟨hown, _⟩ y hy id hnobody => ?_, fun hno => ⟨fun lock hown => ?_, ?_⟩⟩, fun hall id hlive => ?_⟩
  · -- the flush leaves `sem_lock` with the thread, which cannot have had it before
    have hpre := hown _ ((owner_returned_iff h hx hlater hret hfail).mpr (.inr ⟨y, hy, id, rfl, hnobody⟩))
    obtain ⟨p, hp, hrest⟩ := atRest_iff.mp hx.2
    obtain ⟨z, hz, hf⟩ := (owner_resting_iff h.before hp hrest).mp hpre
    obtain ⟨l₁, l₂, rfl⟩ := List.append_of_mem hy
    rw [List.append_assoc] at h
    obtain ⟨_, hclaim⟩ := (guarded _).forgotten outside_owned h.before
      ⟨z, List.mem_append_right _ (List.mem_cons_of_mem _ hz), hf⟩
    refine hclaim ((claims_awake hnobody.2.1).mpr ?_)
    exact List.mem_singleton_self _
  · obtain hpre | ⟨y, hy, id, _, hnobody⟩ := (owner_returned_iff h hx hlater hret hfail).mp hown
    · exact hpre
    · exact absurd hnobody (hno y hy id)
  · intro y hy lock ht hr
    exact ht ▸ (guarded lock).releases_owned outside_owned h (List.mem_append_left _ hy) hr
  · have hfree : ∀ lock : Lock ι, lock = .semListLock ∨ lock = .smdelLock id → s.owner lock = none := by
      intro lock hlock
      rw [Option.eq_none_iff_forall_ne_some]
      intro u hown
      obtain ⟨p, hp, hrest⟩ := atRest_iff.mp (hall u)
      have hlive' : lock = .semListLock ∨ lock = .semLock id ∨ lock = .smdelLock id := by tauto
      obtain ⟨rfl, _⟩ := (owner_live_iff h hp hrest hlive hlive').mp hown
      simp at hlock
    refine ⟨hfree _ (.inl rfl), hfree _ (.inr rfl), ?_⟩
    rw [Option.eq_none_iff_forall_ne_some]
    refine ⟨fun hnone y hy u hnobody => ?_, fun hno u hown => ?_⟩
    · obtain ⟨p, hp, hrest⟩ := atRest_iff.mp (hall u)
      exact hnone u ((owner_live_iff h hp hrest hlive (.inr (.inl rfl))).mpr ⟨rfl, y, hy, hnobody⟩)
    · obtain ⟨p, hp, hrest⟩ := atRest_iff.mp (hall u)
      obtain ⟨_, y, hy, hnobody⟩ := (owner_live_iff h hp hrest hlive (.inr (.inl rfl))).mp hown
      exact hno y hy u hnobody

end

/-- A flush of a counting semaphore on which nobody is pended. -/
def lonelyFlush : List (ℕ × Input (Choice ℕ)) :=
  makes 0 7 (.counting 0 0) :: goesOn 0 3 ++ calls 0 .flush 7 :: goesOn 0 8

/-- Back from that flush, its thread still holds `sem_lock`. -/
theorem flush_keeps_sem_lock :
    ¬ ∀ (tr : List (SemTransition ℕ ℕ)) (s : SemState ℕ ℕ) (t : ℕ) (op : Op) (id : ℕ) (error : Status),
      Run (code some fun _ => 0) Initial tr s →
      s.ctl t = .awake (.returned op id error) → (op = .delete → error ≠ .ok) →
      s.owner .semListLock ≠ some t ∧ s.owner (.semLock id) ≠ some t ∧ s.owner (.smdelLock id) ≠ some t := by
  intro hclaim
  obtain ⟨tr, s, hr, hs⟩ := run_of_check (code some fun _ => 0) lonelyFlush (fun _ s =>
      s.ctl 0 = .awake (.returned .flush 7 .ok) ∧ s.owner (.semLock 7) = some 0) boot_initial (by decide)
  obtain ⟨hret, hown⟩ := of_decide_eq_true hs
  exact (hclaim tr s 0 .flush 7 .ok hr hret nofun).2.1 hown

/-- The same run, up to the call of the flush and from there on. -/
theorem lonelyFlush_unbalanced :
    ∃ (later : List (SemTransition ℕ ℕ)) (x : SemTransition ℕ ℕ) (s : SemState ℕ ℕ),
      s.owner (.semLock 7) = some 0 ∧ x.pre.owner (.semLock 7) = none ∧
      ¬ ∀ y ∈ later, ∀ id, ¬ FlushesNobody 0 id y := by
  obtain ⟨later, x, before, s, hr, hs⟩ := run_of_split_check (code some fun _ => 0) lonelyFlush 8
    (fun later x s =>
      (x.thread = 0 ∧ atRest (x.pre.ctl 0) = true ∧ x.pre.owner (.semLock 7) = none) ∧
      (∀ y ∈ later, ¬ (y.thread = 0 ∧ atRest (y.pre.ctl 0) = true)) ∧
      s.ctl 0 = .awake (.returned .flush 7 .ok) ∧ s.owner (.semLock 7) = some 0) boot_initial.outside (by decide)
  obtain ⟨⟨hthread, hrest, hfree⟩, hlater, hret, hown⟩ := of_decide_eq_true hs
  refine ⟨later, x, s, hown, hfree, fun hno => ?_⟩
  obtain ⟨hiff, _⟩ := operation_balanced_iff hr ⟨hthread, hrest⟩ hlater hret nofun
  have := (hiff.mpr hno).1 _ hown
  rw [hfree] at this
  cases this

end V2lin.Sem
