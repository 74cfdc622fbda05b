import V2lin.Blocked.Code

/-! What a step can do around the program of `Kill`, and what that program sees of it. -/
namespace V2lin.Blocked
open Threads V2lin.Task V2lin.Kill
open V2lin.TaskLib (AddressIds)

section
variable {θ ι κ : Type} [DecidableEq θ] [DecidableEq ι] [DecidableEq κ]

/-- A step of thread `t` that is not one of the program of `Kill`, from point to point. -/
inductive Moves (t : θ) : Pc θ ι κ → Mem θ ι κ → Mem θ ι κ → Pc θ ι κ → Prop where
  | stays (p m) : Moves t p m m p
  | call (op id m) : Moves t (.kill (.task .idle)) m m (.findLock op id)
  | user {c m n q} : (∀ id, c ≠ .semTake id) → Kill.userBlock t c m.kill = some (n, q) →
      Moves t (.kill (.task .idle)) m {m with kill := n} (.kill q)
  | listLocked (op id m) : Moves t (.findLock op id) m m (.findScan op id)
  | found {op id m} : id ∈ m.semList → Moves t (.findScan op id) m m (.findSem op id)
  | missed (op id m) : Moves t (.findScan op id) m m (.findUnlock op id false)
  | semLocked (op id m) : Moves t (.findSem op id) m m (.findUnlock op id true)
  | starts (op id m) : Moves t (.findUnlock op id true) m m (Op.start id op)
  | returns (op id m) : Moves t (.findUnlock op id false) m m (.kill (.task .idle))
  | gives (id m) : Moves t (.giveTest id) m m (.giveNotify id)
  | givesAlone (id m) : Moves t (.giveTest id) m m (.giveUnlock id)
  | gave (id m) : Moves t (.giveNotify id) m m (.giveUnlock id)
  | given (id m) : Moves t (.giveUnlock id) m m (.kill (.task .idle))
  | flushRefused (id m) : Moves t (.flushTest id) m m (.flushRefuse id)
  | refused (id m) : Moves t (.flushRefuse id) m m (.kill (.task .idle))
  | flushes (id m) : Moves t (.flushTest id) m m (.drainTaskLock .flush id)
  | taskLocked {d id m k} : m.kill.task.sched.taskLock t = some k → Moves t (.drainTaskLock d id) m
      {m with kill := m.kill.setTask {m.kill.task with sched := k}} (.drainTest d id)
  | lockKilled {d id m} : m.kill.task.cancelled t = true → Moves t (.drainTaskLock d id) m m (.drainDies id)
  | somebody (d id m) : Moves t (.drainTest d id) m m (.drainSmdelLock d id)
  | nobody (d id m) : Moves t (.drainTest d id) m m (Drainer.nobody id d)
  | smdelLocked (d id m) : Moves t (.drainSmdelLock d id) m m (.drainNotify d id)
  | notified (d id m) : Moves t (.drainNotify d id) m m (.drainSemUnlock d id)
  | unlocked (d id m) : Moves t (.drainSemUnlock d id) m m (.drainLoop d id)
  | waits (d id m) : Moves t (.drainLoop d id) m m (.drainWait d id)
  | drained (d id m) : Moves t (.drainLoop d id) m m (Drainer.drained id d)
  | woken (d id m) : Moves t (.drainWait d id) m m (.drainWoken d id)
  | again (d id m) : Moves t (.drainWoken d id) m m (.drainLoop d id)
  | waitKilled {d id m} : m.kill.task.cancelled t = true → Moves t (.drainWoken d id) m m (.drainKilled id)
  | handled (id m) : Moves t (.drainKilled id) m m (.drainDies id)
  | dies (id m) : Moves t (.drainDies id) m m (.kill (.task .dying))
  | flushed (id m) : Moves t (.flushSmdelUnlock id) m m .drainTaskUnlock
  | taskUnlocked (m) : Moves t .drainTaskUnlock m {m with kill := m.kill.setTask (m.kill.task.taskUnlock t)}
      (.kill (.task .idle))
  | deletes (id m) : Moves t (.deleteListLock id) m m (.deleteUnlink id)
  | unlinked (id m) : Moves t (.deleteUnlink id) m {m with semList := m.semList.erase id} (.deleteListUnlock id)
  | freed (id m) : Moves t (.deleteListUnlock id) m m .drainTaskUnlock

variable {ids : AddressIds θ} {t : θ} {p p' : Pc θ ι κ} {c : Choice θ ι κ} {m m' : Mem θ ι κ}

/-- The points at which the program of `Kill` runs. -/
def Pc.inner (p : Pc θ ι κ) : Prop := ∃ q, p = .kill q ∧ q ≠ .task .idle

omit [DecidableEq κ] in
theorem userBlock_moves (h : userBlock t c m = some (m', p')) : Moves t (.kill (.task .idle)) m m' p' := by
  unfold userBlock at h
  split at h
  · cases h
    exact .call ..
  · cases h
  · rename_i c hc
    obtain ⟨⟨n, q⟩, hb, heq⟩ := Option.map_eq_some_iff.mp h
    cases heq
    refine .user (c := c) ?_ hb
    rintro id rfl
    exact hc id rfl

/-- Every block outside is one of `Moves`. -/
theorem block_moves {block : Choice θ ι κ → Mem θ ι κ → Option (Mem θ ι κ × Pc θ ι κ)} (hout : ¬ p.inner)
    (hi : code ids t p = .run block) (h : block c m = some (m', p')) : Moves t p m m' p' := by
  cases p
  case kill q =>
    have hidle : q = .task .idle := by
      by_contra hne
      exact hout ⟨q, rfl, hne⟩
    subst hidle
    cases hi
    exact userBlock_moves h
  all_goals simp only [code, Instr.run.injEq, reduceCtorEq] at hi
  all_goals subst hi
  case findScan op id =>
    cases h
    split
    · exact .found (by assumption)
    · exact .missed ..
  case giveTest id =>
    cases h
    unfold giveTestPoint
    split
    · exact .givesAlone ..
    · split
      · exact .givesAlone ..
      · exact .gives ..
  case flushTest id =>
    cases h
    split
    · exact .flushRefused ..
    · exact .flushes ..
  case drainTaskLock d id =>
    obtain ⟨hc, heq⟩ | hlocks := cancelBlock_cases h
    · cases heq
      exact .lockKilled hc
    · obtain ⟨k, hk, heq⟩ := Option.map_eq_some_iff.mp hlocks
      cases heq
      exact .taskLocked hk
  case drainTest d id =>
    cases h
    split
    · exact .somebody ..
    · exact .nobody ..
  case drainLoop d id =>
    cases h
    split
    · exact .waits ..
    · exact .drained ..
  case drainWoken d id =>
    obtain ⟨hc, heq⟩ | heq := cancelBlock_cases h
    · cases heq
      exact .waitKilled hc
    · cases heq
      exact .again ..
  case drainTaskUnlock =>
    cases h
    exact .taskUnlocked ..
  case deleteUnlink id =>
    cases h
    exact .unlinked ..

theorem next_moves (hout : ¬ p.inner) (h : (code (ι := ι) (κ := κ) ids t p).Next p') (m : Mem θ ι κ) :
    Moves t p m m p' := by
  cases p
  case kill q =>
    have hidle : q = .task .idle := by
      by_contra hne
      exact hout ⟨q, rfl, hne⟩
    subst hidle
    exact False.elim h
  case findLock op id => cases h; exact .listLocked ..
  case findSem op id => cases h; exact .semLocked ..
  case findUnlock op id found =>
    cases h
    cases found
    · exact .returns ..
    · exact .starts ..
  case giveNotify id => cases h; exact .gave ..
  case giveUnlock id => cases h; exact .given ..
  case flushRefuse id => cases h; exact .refused ..
  case flushSmdelUnlock id => cases h; exact .flushed ..
  case drainSmdelLock d id => cases h; exact .smdelLocked ..
  case drainNotify d id => cases h; exact .notified ..
  case drainSemUnlock d id => cases h; exact .unlocked ..
  case drainWait d id =>
    obtain ⟨r, rfl⟩ := h
    exact .woken ..
  case drainKilled id => cases h; exact .handled ..
  case drainDies id => cases h; exact .dies ..
  case deleteListLock id => cases h; exact .deletes ..
  case deleteListUnlock id => cases h; exact .freed ..
  all_goals exact False.elim h

variable {s s' : BlockedState θ ι κ}

/-- A step is one of the program of `Kill`, which keeps the list of the semaphores, or it
is one of `Moves`. -/
theorem step_cases (h : Step (code ids) t s s') :
    (∃ q q', (s.ctl t).point = .kill q ∧ q ≠ .task .idle ∧ (s'.ctl t).point = .kill q' ∧
      Step (Kill.code ids) t (s.view part) (s'.view part) ∧ s'.mem.semList = s.mem.semList) ∨
    Moves t (s.ctl t).point s.mem s'.mem (s'.ctl t).point := by
  by_cases hin : (s.ctl t).point.inner
  · obtain ⟨q, hq, hidle⟩ := hin
    have hcode : code ids t (.kill q) = (Kill.code ids t q).embed part := if_neg hidle
    refine .inl ⟨q, ?_⟩
    have hview := h.view part hq hcode
    obtain ⟨hm, _, heq | hnext⟩ | ⟨p, block, c, p', hp, hi, hb, hp', _⟩ := h.sync_or_block
    · exact ⟨q, hq, hidle, by rw [heq, hq], hview, by rw [hm]⟩
    · rw [hq, hcode] at hnext
      obtain ⟨q', hq', _⟩ := Instr.embed_next hnext
      exact ⟨q', hq, hidle, hq', hview, by rw [hm]⟩
    · rw [hp, Ctl.point_awake] at hq
      subst hq
      rw [hcode] at hi
      cases hinner : Kill.code ids t q with
      | run b =>
        rw [hinner] at hi
        cases hi
        obtain ⟨r, _, heq⟩ := Option.map_eq_some_iff.mp hb
        obtain ⟨hmem, rfl⟩ := Prod.mk.inj heq
        exact ⟨r.2, by rw [hp]; rfl, hidle, by rw [hp']; rfl, hview, by rw [← hmem]; rfl⟩
      | _ =>
        rw [hinner] at hi
        cases hi
  · obtain ⟨hm, _, heq | hnext⟩ | ⟨p, block, c, p', hp, hi, hb, hp', _⟩ := h.sync_or_block
    · rw [hm, heq]
      exact .inr (.stays ..)
    · rw [hm]
      exact .inr (next_moves hin hnext _)
    · rw [hp, Ctl.point_awake] at hin ⊢
      rw [hp', Ctl.point_awake]
      exact .inr (block_moves hin hi hb)

end

end V2lin.Blocked
