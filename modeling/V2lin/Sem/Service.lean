import V2lin.Sem.Deletion
import V2lin.Sem.Desk
import V2lin.Sem.Flush
import V2lin.Sem.Mutex

/-! Every semaphore is a desk.

The steps of a run that touch a semaphore, seen as deeds at its desk, lead the desk to
what the control block shows, whatever flushes, deletions and timeouts come between. Each
call is settled by one deed of its thread between its call and its return. -/
namespace V2lin.Sem
open Threads V2lin.Arith V2lin.Task

section
variable {θ ι : Type}

/-! ### Calls -/

/-- How far the call at a point is, and with which result. -/
def stage : Pc ι → CallStage (Op × ι) Status
  | .idle | .linkLock _ | .linkAppend _ | .linkUnlock _ => .outside
  | .findLock op id | .findScan op id | .findSem op id => .pending (op, id)
  | .findUnlock op id found => if found then .pending (op, id) else .settled (op, id) .objIdError
  | .takeStart maxWait id | .takeTest maxWait id _ | .takeWait maxWait id | .takePoll maxWait id _ =>
    .pending (.take maxWait, id)
  | .takeRelock maxWait id _ | .takeAgain maxWait id _ => .pending (.take maxWait, id)
  | .takeLastLock maxWait id error | .takeLastNotify maxWait id error => .settled (.take maxWait, id) error
  | .takeLastReset maxWait id error | .takeLastUnlock maxWait id error => .settled (.take maxWait, id) error
  | .takeEnd maxWait id error | .takeUnlock maxWait id error => .settled (.take maxWait, id) error
  | .giveStart id => .pending (.give, id)
  | .giveNotify id => .settled (.give, id) .ok
  | .giveUnlock id error => .settled (.give, id) error
  | .flushStart id | .flushTaskLock id | .flushTest id | .flushSmdelLock id | .flushMark id => .pending (.flush, id)
  | .flushRefuse id => .settled (.flush, id) .invalidOperation
  | .flushNotify id | .flushSemUnlock id | .flushDrain id | .flushWait id => .settled (.flush, id) .ok
  | .flushSmdelUnlock id | .flushTaskUnlock id _ => .settled (.flush, id) .ok
  | .deleteTaskLock id | .deleteTest id | .deleteSmdelLock id | .deleteMark id | .deleteNotify id =>
    .pending (.delete, id)
  | .deleteSemUnlock id | .deleteDrain id | .deleteWait id | .deleteListLock id _ | .deleteUnlink id _ =>
    .pending (.delete, id)
  | .deleteListUnlock id _ | .deleteFree id _ | .deleteTaskUnlock id _ => .settled (.delete, id) .ok
  | .returned op id error => .settled (op, id) error

theorem WaitPoint.stage {maxWait : Int} {id : ι} {retcode : Retcode} {p : Pc ι} (h : WaitPoint maxWait id retcode p) :
    stage p = .pending (.take maxWait, id) := by
  cases h <;> rfl

theorem stage_resting {p : Pc ι} (h : p.resting = true) : ∀ op, stage p ≠ .pending op := by
  cases p with
  | idle => exact fun op h => by cases h
  | returned op id error => exact fun op h => by cases h
  | _ => cases h

variable [DecidableEq θ] [DecidableEq ι]

/-! ### Deeds -/

/-- The deed at the desk of semaphore `id` in a block of thread `t` from `p` to `p'`. -/
def deedAt (id : ι) (t : θ) (p p' : Pc ι) (m m' : Mem θ ι) : Option (Deed θ) :=
  match p, p' with
  | .linkAppend j, _ => if j = id then some .opens else none
  | .findScan op j, .findUnlock _ _ false => if j = id then some (.refuse t op) else none
  | .takeStart maxWait j, .takeTest _ _ _ => if j = id then some (.join t maxWait) else none
  | .takeStart maxWait j, .takeEnd _ _ _ => if j = id then some (.retake t maxWait) else none
  | .giveStart j, .giveNotify _ => if j = id then some (.give t .ok) else none
  | .giveStart j, .giveUnlock _ error => if j = id then some (.give t error) else none
  | .flushStart j, .flushRefuse _ => if j = id then some (.flush t .invalidOperation) else none
  | .flushTest j, .flushTaskUnlock _ _ => if j = id then some (.flush t .ok) else none
  | .flushMark j, _ => if j = id then some (.flush t .ok) else none
  | .deleteMark j, _ => if j = id then some (.kill t) else none
  | .deleteUnlink j _, _ => if j = id then some (.close t) else none
  | .takeLastReset _ j _, _ => if j = id then some (.reset t) else none
  | .takeTest maxWait j _, .takeLastLock _ _ error | .takeTest maxWait j _, .takeEnd _ _ error =>
    if j = id then
      some (if (m'.sem id).tokenCount < (m.sem id).tokenCount then .take t maxWait error
        else .leave t maxWait (decide ((m.sem id).sendType = .send)) error)
    else none
  | .takeAgain maxWait j _, .takeLastLock _ _ error | .takeAgain maxWait j _, .takeEnd _ _ error =>
    if j = id then
      some (if (m'.sem id).tokenCount < (m.sem id).tokenCount then .take t maxWait error
        else .leave t maxWait true error)
    else none
  | _, _ => none

/-- The deed at the desk of semaphore `id` that a step is. -/
def deed (id : ι) (x : SemTransition θ ι) : Option (Deed θ) :=
  stepEvent (deedAt id) x

/-- What a control block has to give. -/
def V2lsem.stock (v : V2lsem θ) : Stock θ :=
  if v.isMutex then .key (v.currentOwner.map fun t => (t, v.recursionLevel.toNat)) else .tokens v.tokenCount

/-- The desk that the library's memory shows. -/
def Mem.desk (m : Mem θ ι) (id : ι) : Desk θ where
  listed := decide (id ∈ m.semList)
  mode := (m.sem id).sendType
  stock := (m.sem id).stock
  line := (m.sem id).firstSusp

variable {prio : θ → Int} {t : θ} {id : ι} {p p' : Pc ι} {m m' : Mem θ ι}

omit [DecidableEq θ] in
theorem V2lsem.stock_key {v : V2lsem θ} (hm : v.isMutex) {owner : Option θ} (ho : v.currentOwner = owner)
    {level : Int} (hl : v.recursionLevel = level) : v.stock = .key (owner.map fun t => (t, level.toNat)) := by
  rw [V2lsem.stock, if_pos hm, ho, hl]

omit [DecidableEq θ] in
theorem V2lsem.stock_tokens {v : V2lsem θ} (hm : ¬ v.isMutex) : v.stock = .tokens v.tokenCount :=
  if_neg hm

omit [DecidableEq θ] in
theorem V2lsem.stock_congr {v v' : V2lsem θ} (hf : v'.flags = v.flags) (ht : v'.tokenCount = v.tokenCount)
    (ho : v'.currentOwner = v.currentOwner) (hl : v'.recursionLevel = v.recursionLevel) : v'.stock = v.stock := by
  have hm : v'.isMutex ↔ v.isMutex := by rw [V2lsem.isMutex, V2lsem.isMutex, hf]
  by_cases h : v.isMutex <;> simp [V2lsem.stock, hm, h, ht, ho, hl]

/-- What is known of a semaphore where thread `t` is about to run a block on it. -/
structure Orders (id : ι) (t : θ) (p : Pc ι) (m : Mem θ ι) : Prop where
  made : m.block id ≠ .fresh
  line : t ∈ (m.sem id).firstSusp ↔ pendsOn p = some id
  fifo : (m.sem id).flags &&& semQPriority = 0
  plain : ¬ (m.sem id).isMutex → (m.sem id).recursionLevel = 0
  mutex : (m.sem id).isMutex → Consistent (m.sem id) ∧ (m.sem id).sendType ≠ .flush
  unlinked : publishing p = some id → id ∉ m.semList
  nodup : m.semList.Nodup
  flushing : flushing p = some id → ¬ (m.sem id).isMutex
  quiet : quiet id p = true → (m.sem id).firstSusp = []
  foundSome : foundSome id p = true → (m.sem id).firstSusp ≠ []
  count : p = .giveStart id → ¬ (m.sem id).isMutex → (m.sem id).tokenCount ≠ intMax
  level : ∀ maxWait, p = .takeStart maxWait id → (m.sem id).isMutex → (m.sem id).currentOwner = some t →
    (m.sem id).recursionLevel ≠ intMax

omit [DecidableEq θ] in
theorem deedAt_resting (h : p.resting = true) : deedAt id t p p' m m' = none := by
  cases p <;> first | rfl | cases h

omit [DecidableEq θ] in
/-- The desk is the place on the list and the control block. -/
theorem Mem.desk_congr (hsem : m'.sem id = m.sem id) (hlist : id ∈ m'.semList ↔ id ∈ m.semList) :
    m'.desk id = m.desk id := by
  simp only [Mem.desk, hsem, hlist]

omit [DecidableEq θ] in
theorem Mem.setSem_desk {m : Mem θ ι} {j : ι} {v : V2lsem θ} (hj : id ≠ j) : (m.setSem j v).desk id = m.desk id :=
  Mem.desk_congr (Mem.setSem_of_ne m v hj) Iff.rfl

theorem Mem.setWaiting_desk (m : Mem θ ι) (me : Option θ) (w : Option ι) :
    (m.setWaiting me w).desk id = m.desk id :=
  Mem.desk_congr (by rw [m.setWaiting_sem]) (by rw [m.setWaiting_semList])

omit [DecidableEq θ] in
/-- The desk after a block has been stored. -/
theorem Mem.setSem_desk_self (m : Mem θ ι) (v : V2lsem θ) :
    (m.setSem id v).desk id = ⟨(m.desk id).listed, v.sendType, v.stock, v.firstSusp⟩ := by
  simp only [Mem.desk, Mem.setSem_self]
  rfl

section
attribute [local simp] deedAt

omit [DecidableEq θ] in
theorem deedAt_left {maxWait : Int} {retcode : Retcode} {error : Status} {last : Bool}
    (hp : WaitPoint maxWait id retcode p) :
    deedAt id t p (if last then .takeLastLock maxWait id error else .takeEnd maxWait id error) m m' =
      some (if (m'.sem id).tokenCount < (m.sem id).tokenCount then .take t maxWait error
        else .leave t maxWait (decide (p = .takeTest maxWait id retcode → (m.sem id).sendType = .send)) error) := by
  cases hp <;> cases last <;> simp

end

/-- The ways out of the wait loops at the desk. -/
theorem WaitEnd.acts {maxWait : Int} {v v' : V2lsem θ} {retcode : Retcode} {error : Status} {last : Bool}
    (hw : WaitEnd prio (some t) m maxWait id p v retcode) (hl : Left v (some t) maxWait retcode v' error last)
    (ho : Orders id t p m)
    (hstray : (m.sem id).isMutex → (m.sem id).sendType = .killd → v'.tokenCount ≠ (m.sem id).tokenCount - 1) :
    Acts Desk.act (deedAt id t p (if last then .takeLastLock maxWait id error else .takeEnd maxWait id error) m
      (m.setSem id v')) (m.desk id) ((m.setSem id v').desk id) := by
  obtain ⟨rc, hpoint⟩ := hw.point
  have hin : t ∈ (m.sem id).firstSusp := ho.line.mpr hpoint.pended
  have hanswer : error = (m.desk id).answer maxWait (decide (retcode = .etimedout)) := by
    unfold Desk.answer
    split
    · rename_i hk
      exact hl.killd (by rw [hw.sendType]; exact hk)
    · rename_i hk
      rw [hl.spared (by rw [hw.sendType]; exact hk)]
      cases hw <;> simp [waitError]
  have hline : v'.firstSusp = (m.sem id).firstSusp.erase t := by
    rw [hl.firstSusp, hw.firstSusp]
    rfl
  have hmode : v'.sendType = (m.sem id).sendType := hl.sendType.trans hw.sendType
  rw [Mem.setSem_desk_self, hline, hmode]
  cases hw with
  | @released rc hs =>
    have hsame := hl.disown (.inl hs)
    have hexp : decide (Pc.takeTest maxWait id rc = .takeTest maxWait id rc → (m.sem id).sendType = .send) = false :=
      decide_eq_false fun h => hs (h rfl)
    rw [deedAt_left .test, Mem.setSem_self, hl.tokenCount, if_neg (Int.lt_irrefl _), hexp,
      V2lsem.stock_congr hl.flags hl.tokenCount hsame.1 hsame.2]
    exact Desk.act_leave hin (.inr hs) hanswer
  | timedOut hp hs =>
    have hsame := hl.disown (.inr fun h => by cases h)
    rw [deedAt_left hp, Mem.setSem_self, hl.tokenCount, if_neg (Int.lt_irrefl _), decide_eq_true hs,
      V2lsem.stock_congr hl.flags hl.tokenCount hsame.1 hsame.2]
    exact Desk.act_leave hin (.inl rfl) hanswer
  | taken hp hs htok hsig =>
    have hhead : (m.sem id).firstSusp.head? = some t := by
      rw [ho.fifo] at hsig
      exact signalForMyTask_fifo.mp hsig
    have htook : v'.tokenCount = (m.sem id).tokenCount - 1 := hl.tokenCount
    have hstock : (m.sem id).stock.take t = some v'.stock := by
      have hkind : v'.isMutex ↔ (m.sem id).isMutex := by
        rw [V2lsem.isMutex, V2lsem.isMutex, show v'.flags = (m.sem id).flags from hl.flags]
      by_cases hm : (m.sem id).isMutex
      · obtain ⟨hnone, _, hzero⟩ | ⟨_, _, hnone, _⟩ := (ho.mutex hm).1
        · have hsend : (m.sem id).sendType = .send := by
            cases hst : (m.sem id).sendType with
            | send => rfl
            | flush => exact absurd hst (ho.mutex hm).2
            | killd => exact absurd htook (hstray hm hst)
          obtain ⟨hown, hlevel⟩ := hl.own hsend rfl
          have hlevel : v'.recursionLevel = 1 := by
            refine hlevel.trans ((if_pos hm).trans ?_)
            show increment (m.sem id).recursionLevel = 1
            rw [hzero]
            decide
          simp [V2lsem.stock, hkind, hm, hnone, hown, hlevel, Stock.take]
        · omega
      · simp only [V2lsem.stock, hkind, hm, if_false, htook, Stock.take]
        exact if_pos htok
    rw [deedAt_left hp, Mem.setSem_self, if_pos (by omega)]
    exact Desk.act_take hhead hanswer hstock

/-- `semGive` is giving back at the desk. -/
theorem giveToken_stock {v v' : V2lsem θ} {error : Status} (h : giveToken v (some t) = (v', error))
    (hplain : ¬ v.isMutex → v.recursionLevel = 0) (hmutex : v.isMutex → Consistent v)
    (hcount : ¬ v.isMutex → v.tokenCount ≠ intMax) : v.stock.give t = (v'.stock, error) := by
  unfold giveToken at h
  by_cases hm : v.isMutex
  · obtain ⟨hnone, _, _⟩ | ⟨u, hown, htok, hpos⟩ := hmutex hm
    · rw [if_pos ⟨hm, by rw [hnone]; exact nofun⟩] at h
      cases h
      rw [V2lsem.stock_key hm hnone rfl]
      rfl
    · have hstock := V2lsem.stock_key hm hown rfl
      by_cases hu : u = t
      · subst hu
        rw [if_neg fun h => h.2 hown, if_pos (by omega)] at h
        rw [hstock, Option.map_some, Stock.give, if_pos rfl]
        split at h
        · cases h
          rw [if_pos (by omega)]
          exact Prod.ext (V2lsem.stock_key
            (v := {v with recursionLevel := 0, tokenCount := increment v.tokenCount, currentOwner := none})
            hm rfl rfl).symm rfl
        · cases h
          rw [if_neg (by omega), show v.recursionLevel.toNat - 1 = (v.recursionLevel - 1).toNat by omega]
          exact Prod.ext (V2lsem.stock_key
            (v := {v with recursionLevel := v.recursionLevel - 1}) hm hown rfl).symm rfl
      · rw [if_pos ⟨hm, by rw [hown]; exact fun h => hu (Option.some.inj h)⟩] at h
        cases h
        rw [hstock, Option.map_some, Stock.give, if_neg hu]
  · rw [if_neg fun h => hm h.1, if_neg (by rw [hplain hm]; exact Int.lt_irrefl 0)] at h
    cases h
    rw [V2lsem.stock_tokens hm, increment_of_ne (hcount hm)]
    exact Prod.ext (V2lsem.stock_tokens (v := {v with tokenCount := v.tokenCount + 1}) hm).symm rfl

theorem Runs.acts (hr : Runs some prio t p m m' p') (ho : Orders id t p m)
    (hstray : (m.sem id).isMutex → (m.sem id).sendType = .killd →
      (m'.sem id).tokenCount ≠ (m.sem id).tokenCount - 1) :
    Acts Desk.act (deedAt id t p p' m m') (m.desk id) (m'.desk id) := by
  cases hr with
  | called _ _ hp => rw [deedAt_resting hp]; rfl
  | refused hp => rw [deedAt_resting hp]; rfl
  | created j args hp hfresh =>
    have hj : id ≠ j := fun hj => ho.made (hj ▸ hfresh)
    rw [deedAt_resting hp]
    exact Mem.desk_congr (Mem.setSem_of_ne m _ hj) Iff.rfl
  | linked j =>
    by_cases hj : j = id
    · subst hj
      have hnot := ho.unlinked rfl
      simp [deedAt, Acts, Desk.act, Mem.desk, hnot]
    · simp [deedAt, Acts, Mem.desk, hj, Ne.symm hj]
  | found => rfl
  | @notFound _ j op hnot =>
    by_cases hj : j = id
    · subst hj
      simp [deedAt, Acts, Desk.act, Mem.desk, hnot]
    · simp [deedAt, Acts, hj]
  | @reentered _ maxWait j hm hown =>
    by_cases hj : j = id
    · subst hj
      obtain ⟨hnone, _⟩ | ⟨_, _, _, hpos⟩ := (ho.mutex hm).1
      · rw [hnone] at hown
        cases hown
      · have hlevel : ((m.sem j).recursionLevel + 1).toNat = (m.sem j).recursionLevel.toNat + 1 := by omega
        have hstock : (m.sem j).stock.retake t =
            some (.key (some (t, ((m.sem j).recursionLevel + 1).toNat))) := by
          rw [V2lsem.stock_key hm hown rfl, hlevel]
          exact if_pos rfl
        have hstock' : V2lsem.stock {m.sem j with recursionLevel := increment (m.sem j).recursionLevel} =
            .key (some (t, ((m.sem j).recursionLevel + 1).toNat)) :=
          V2lsem.stock_key (v := {m.sem j with recursionLevel := increment (m.sem j).recursionLevel}) hm hown
            (increment_of_ne (ho.level maxWait rfl hm hown))
        rw [Mem.setSem_desk_self, Mem.setWaiting_desk, hstock']
        simp only [deedAt, if_true]
        exact Desk.act_retake hstock
    · rw [Mem.setSem_desk (Ne.symm hj), Mem.setWaiting_desk]
      simp [deedAt, Acts, hj]
  | @pended _ maxWait j hnot =>
    by_cases hj : j = id
    · subst hj
      have hout : t ∉ (m.sem j).firstSusp := by
        rw [ho.line]
        exact fun h => by cases h
      rw [Mem.setSem_desk_self, Mem.setWaiting_desk, linkSuspTask_of_notMem hout]
      simp only [deedAt, if_true]
      exact if_neg hout
    · rw [Mem.setSem_desk (Ne.symm hj), Mem.setWaiting_desk]
      simp [deedAt, Acts, hj]
  | @left _ _ maxWait j v retcode v' error last hw hl =>
    by_cases hj : j = id
    · subst hj
      rw [Mem.setSem_self] at hstray
      exact hw.acts hl ho hstray
    · obtain ⟨rc, hpoint⟩ := hw.point
      rw [Mem.setSem_desk (Ne.symm hj)]
      cases hpoint <;> cases last <;> simp [deedAt, Acts, hj]
  | sleeps hp => cases hp <;> rfl
  | polls hp => cases hp <;> rfl
  | @reset _ maxWait j error =>
    by_cases hj : j = id
    · subst hj
      rw [Mem.setSem_desk_self]
      simp only [deedAt, if_true]
      exact if_pos (ho.quiet (by simp [quiet]))
    · rw [Mem.setSem_desk (Ne.symm hj)]
      simp [deedAt, Acts, hj]
  | ended => rw [Mem.setWaiting_desk]; rfl
  | @gave _ j v error hg =>
    by_cases hj : j = id
    · subst hj
      have hdeed : deedAt j t (.giveStart j) (if error = .ok ∧ v.firstSusp ≠ [] then .giveNotify j
          else .giveUnlock j error) m (m.setSem j v) = some (.give t error) := by
        split
        · rename_i hok
          simp [deedAt, hok.1]
        · simp [deedAt]
      have hgave := giveToken_gave hg
      rw [hdeed, Mem.setSem_desk_self, hgave.sendType, hgave.firstSusp]
      exact Desk.act_give (giveToken_stock hg ho.plain (fun hm => (ho.mutex hm).1) (ho.count rfl))
    · rw [Mem.setSem_desk (Ne.symm hj)]
      split <;> simp [deedAt, Acts, hj]
  | @flushRefused _ j hm =>
    by_cases hj : j = id
    · subst hj
      simp [deedAt, Acts, Desk.act, Mem.desk, V2lsem.stock, hm]
    · simp [deedAt, Acts, hj]
  | @flushNobody _ j hnobody =>
    by_cases hj : j = id
    · subst hj
      simp [deedAt, Acts, Desk.act, Mem.desk, V2lsem.stock, ho.flushing rfl, hnobody]
    · simp [deedAt, Acts, hj]
  | @flushMarked _ j =>
    by_cases hj : j = id
    · subst hj
      have hsome := ho.foundSome (by simp [foundSome])
      have hact : Desk.act (.flush t .ok) (m.desk j) = some {m.desk j with mode := .flush} := by
        simp [Desk.act, Mem.desk, V2lsem.stock, ho.flushing rfl, hsome]
      rw [Mem.setSem_desk_self]
      simp only [deedAt, if_true]
      exact hact
    · rw [Mem.setSem_desk (Ne.symm hj)]
      simp [deedAt, Acts, hj]
  | @deleteMarked _ j =>
    by_cases hj : j = id
    · subst hj
      rw [Mem.setSem_desk_self]
      simp only [deedAt, if_true]
      rfl
    · rw [Mem.setSem_desk (Ne.symm hj)]
      simp [deedAt, Acts, hj]
  | unlinked j drained =>
    by_cases hj : j = id
    · subst hj
      have hgone : j ∉ m.semList.erase j := ho.nodup.not_mem_erase
      simp [deedAt, Acts, Desk.act, Mem.desk, hgone]
    · simp only [deedAt, hj, if_false]
      exact Mem.desk_congr rfl (List.mem_erase_of_ne (Ne.symm hj))
  | _ => rfl

/-! ### Steps -/

variable {s s' : SemState θ ι} {tr later before : List (SemTransition θ ι)} {x y : SemTransition θ ι}

theorem deedAt_sync (h : ∀ block, code some prio t p ≠ .run block) : deedAt id t p p' m m' = none := by
  cases p <;> first | rfl | exact absurd rfl (h _)

theorem deed_sync (h : ∀ block, code some prio t (s.ctl t).point ≠ .run block) : deed id ⟨s, t, s'⟩ = none :=
  stepEvent_sync (fun _ _ _ _ => deedAt_sync) h

theorem next_stage (h : (code some prio t p).Next p') : stage p' = stage p := by
  cases p
  case findUnlock op j found =>
    cases h
    cases found
    · rfl
    · cases op <;> rfl
  all_goals first
    | exact False.elim h
    | (cases h; rfl)
    | (obtain ⟨r, rfl⟩ := h; rfl)

omit [DecidableEq ι] in
theorem stage_left {maxWait : Int} {j : ι} {error : Status} {last : Bool} :
    stage (if last then .takeLastLock maxWait j error else .takeEnd maxWait j error) =
      .settled (.take maxWait, j) error := by
  cases last <;> rfl

omit [DecidableEq θ] [DecidableEq ι] in
theorem resting_goes (h : p.resting = true) : (stage p).Goes .outside := by
  cases p with
  | idle => exact .stays _
  | returned op id error => exact .left _ _
  | _ => cases h

/-- A block makes, settles or leaves a call, or leaves it where it is. -/
theorem Runs.goes (hr : Runs some prio t p m m' p') : (stage p).Goes (stage p') := by
  cases hr with
  | called op j hp => exact .called _ (stage_resting hp)
  | refused hp => exact resting_goes hp
  | created _ _ hp => exact resting_goes hp
  | notFound => exact .settles _ _
  | reentered => exact .settles _ _
  | left hw =>
    obtain ⟨rc, hpoint⟩ := hw.point
    rw [hpoint.stage, stage_left]
    exact .settles _ _
  | sleeps hpoint =>
    rw [hpoint.stage]
    exact .stays _
  | polls hpoint =>
    rw [hpoint.stage]
    exact .stays _
  | gave =>
    split
    · exact .settles _ _
    · exact .settles _ _
  | flushRefused => exact .settles _ _
  | flushNobody => exact .settles _ _
  | flushMarked => exact .settles _ _
  | unlinked => exact .settles _ _
  | _ => exact .stays _

/-- A block that settles a call is a deed that does. -/
theorem Runs.settles (hr : Runs some prio t p m m' p') {op : Op} {error : Status}
    (hp : stage p = .pending (op, id)) (hp' : stage p' = .settled (op, id) error) :
    ∃ e, deedAt id t p p' m m' = some e ∧ e.settles = some (t, op, error) := by
  cases hr with
  | called => cases hp'
  | refused => cases hp'
  | created => cases hp'
  | notFound =>
    cases hp
    cases hp'
    exact ⟨.refuse t op, by simp [deedAt], rfl⟩
  | @reentered _ maxWait =>
    cases hp
    cases hp'
    exact ⟨.retake t maxWait, by simp [deedAt], rfl⟩
  | left hw =>
    obtain ⟨rc, hpoint⟩ := hw.point
    rw [hpoint.stage] at hp
    cases hp
    rw [stage_left] at hp'
    cases hp'
    refine ⟨_, deedAt_left hpoint, ?_⟩
    split <;> rfl
  | sleeps hpoint => cases hp'
  | polls hpoint => cases hp'
  | gave =>
    cases hp
    split at hp'
    · rename_i hok
      cases hp'
      exact ⟨.give t .ok, by rw [if_pos hok]; simp [deedAt], rfl⟩
    · rename_i hok
      cases hp'
      exact ⟨.give t error, by rw [if_neg hok]; simp [deedAt], rfl⟩
  | flushRefused =>
    cases hp
    cases hp'
    exact ⟨.flush t .invalidOperation, by simp [deedAt], rfl⟩
  | flushNobody =>
    cases hp
    cases hp'
    exact ⟨.flush t .ok, by simp [deedAt], rfl⟩
  | flushMarked =>
    cases hp
    cases hp'
    exact ⟨.flush t .ok, by simp [deedAt], rfl⟩
  | unlinked =>
    cases hp
    cases hp'
    exact ⟨.close t, by simp [deedAt], rfl⟩
  | _ => first | cases hp; done | (cases hp; cases hp')

omit [DecidableEq θ] in
theorem of_here {j : ι} {d e : Deed θ} (h : (if j = id then some d else none) = some e) : j = id ∧ d = e := by
  split at h
  · exact ⟨by assumption, Option.some.inj h⟩
  · cases h

/-- A deed settles the call that its thread is in. -/
theorem Runs.settled_of_deed (hr : Runs some prio t p m m' p') {e : Deed θ} {u : θ} {op : Op} {error : Status}
    (he : deedAt id t p p' m m' = some e) (hset : e.settles = some (u, op, error)) :
    stage p = .pending (op, id) ∧ stage p' = .settled (op, id) error := by
  cases hr with
  | called _ _ hp => simp [deedAt_resting hp] at he
  | refused hp => simp [deedAt_resting hp] at he
  | created _ _ hp => simp [deedAt_resting hp] at he
  | @left _ _ maxWait j _ _ _ error' last hw =>
    obtain ⟨rc, hpoint⟩ := hw.point
    by_cases hj : j = id
    · subst hj
      rw [deedAt_left hpoint] at he
      cases he
      rw [hpoint.stage, stage_left]
      split at hset <;> (cases hset; exact ⟨rfl, rfl⟩)
    · cases hpoint <;> cases last <;> simp [deedAt, hj] at he
  | sleeps hpoint => cases hpoint <;> cases he
  | polls hpoint => cases hpoint <;> cases he
  | gave =>
    split at he <;> rename_i hok
    · obtain ⟨rfl, rfl⟩ := of_here he
      cases hset
      rw [if_pos hok]
      exact ⟨rfl, rfl⟩
    · obtain ⟨rfl, rfl⟩ := of_here he
      cases hset
      rw [if_neg hok]
      exact ⟨rfl, rfl⟩
  | _ =>
    first
      | cases he
      | (obtain ⟨rfl, rfl⟩ := of_here he; cases hset; done)
      | (obtain ⟨rfl, rfl⟩ := of_here he; cases hset; exact ⟨rfl, rfl⟩)

/-- A call begins where its thread comes in from outside. -/
theorem Runs.calls (hr : Runs some prio t p m m' p') {call : Op × ι} (hp : ∀ call, stage p ≠ .pending call)
    (hp' : stage p' = .pending call) : p' = .findLock call.1 call.2 := by
  cases hr with
  | called =>
    cases hp'
    rfl
  | left hw =>
    rw [stage_left] at hp'
    cases hp'
  | sleeps hpoint => exact absurd hpoint.stage (hp _)
  | polls hpoint => exact absurd hpoint.stage (hp _)
  | gave => split at hp' <;> cases hp'
  | _ => first | cases hp'; done | exact absurd hp' (hp _)

/-- No counter of a semaphore comes round, and no task takes a token of a killed mutex. -/
structure Regular (mutex : Prop) (tr : List (SemTransition θ ι)) : Prop where
  count : ∀ y ∈ tr, givesMax y = false
  level : mutex → ∀ y ∈ tr, reentersMax y = false
  stray : mutex → ∀ y ∈ tr, strayTake y = false

omit [DecidableEq ι] in
theorem Regular.tail {mutex : Prop} (h : Regular mutex (y :: tr)) : Regular mutex tr :=
  ⟨fun z hz => h.count z (List.mem_cons_of_mem _ hz), fun hm z hz => h.level hm z (List.mem_cons_of_mem _ hz),
    fun hm z hz => h.stray hm z (List.mem_cons_of_mem _ hz)⟩

theorem orders (h : Run (code some prio) Initial tr s) (hb : s.mem.block id ≠ .fresh)
    (hreg : Regular (s.mem.sem id).isMutex (⟨s, t, s'⟩ :: tr)) (hp : s.ctl t = .awake p) : Orders id t p s.mem := by
  have hpoint : (s.ctl t).point = p := by rw [hp, Ctl.point_awake]
  have hsound := registry_sound h
  have hmutexes : (s.mem.sem id).isMutex → Mutexes s := fun hm => mutexes h (hreg.tail.stray hm) (hreg.tail.level hm)
  exact {
    made := hb
    line := by
      rw [((linked h).lists id).mem t, waits, hpoint, decide_eq_true_iff]
    fifo := fifo h hb
    plain := plain_level h hb
    mutex := fun hm => ⟨(hmutexes hm).consistent id hb hm, (hmutexes hm).unflushed id hb hm⟩
    unlinked := fun hpub => hsound.unlisted (t := t) ((congrArg publishing hpoint).trans hpub)
    nodup := hsound.nodup
    flushing := fun hf hm => (hmutexes hm).flushing t id (hpoint.symm ▸ hf) hm
    quiet := fun hq => quiet_empty h (hpoint.symm ▸ hq)
    foundSome := fun hf => foundSome_pended h (hpoint.symm ▸ hf)
    count := fun heq => givesMax_eq_false (hreg.count _ (List.mem_cons_self ..)) (heq ▸ hp)
    level := fun _ heq hm => reentersMax_eq_false (hreg.level hm _ (List.mem_cons_self ..)) (heq ▸ hp) hm }

/-- Every step is what it is at the desk. -/
theorem deed_step (h : Run (code some prio) Initial tr s) (hs : Step (code some prio) t s s')
    (hb : s.mem.block id ≠ .fresh) (hreg : Regular (s.mem.sem id).isMutex (⟨s, t, s'⟩ :: tr)) :
    Acts Desk.act (deed id ⟨s, t, s'⟩) (s.mem.desk id) (s'.mem.desk id) := by
  obtain ⟨hm, hrun, _⟩ | ⟨p, p', hp, hp', hr, _⟩ := step_cases hs
  · rw [deed_sync hrun, hm]
    rfl
  · have hdeed : deed id ⟨s, t, s'⟩ = deedAt id t p p' s.mem s'.mem := stepEvent_awake hp hp'
    rw [hdeed]
    refine hr.acts (orders h hb hreg hp) fun hm hkilled htook => ?_
    have hstray := hreg.stray hm _ (List.mem_cons_self ..)
    obtain ⟨⟨maxWait, retcode, hpoint, hsend⟩, _⟩ := hr.takes hb htook
    cases hpoint with
    | test =>
      rw [hsend rfl] at hkilled
      cases hkilled
    | again =>
      simp only [strayTake, hp, hkilled, true_and, decide_eq_false_iff_not] at hstray
      omega

theorem stage_step (hs : Step (code some prio) t s s') : (stage (s.ctl t).point).Goes (stage (s'.ctl t).point) := by
  obtain ⟨_, _, heq | hnext⟩ | ⟨p, p', hp, hp', hr, _⟩ := step_cases hs
  · rw [heq]
    exact .stays _
  · rw [next_stage hnext]
    exact .stays _
  · rw [hp, hp', Ctl.point_awake, Ctl.point_awake]
    exact hr.goes

/-- The step that settles a call is a deed that does. -/
theorem settling_deed (hs : Step (code some prio) t s s') {op : Op} {error : Status}
    (hp : stage (s.ctl t).point = .pending (op, id)) (hp' : stage (s'.ctl t).point = .settled (op, id) error) :
    ∃ e, deed id ⟨s, t, s'⟩ = some e ∧ e.settles = some (t, op, error) := by
  obtain ⟨_, _, heq | hnext⟩ | ⟨p, p', hpc, hpc', hr, _⟩ := step_cases hs
  · rw [heq, hp] at hp'
    cases hp'
  · rw [next_stage hnext, hp] at hp'
    cases hp'
  · rw [hpc, Ctl.point_awake] at hp
    rw [hpc', Ctl.point_awake] at hp'
    obtain ⟨e, he, hset⟩ := hr.settles hp hp'
    exact ⟨e, (stepEvent_awake hpc hpc').trans he, hset⟩

/-- A deed that settles a call is the step in which its thread's call is settled. -/
theorem deed_settling (hs : Step (code some prio) t s s') {e : Deed θ} {u : θ} {op : Op} {error : Status}
    (he : deed id ⟨s, t, s'⟩ = some e) (hset : e.settles = some (u, op, error)) :
    stage (s.ctl t).point = .pending (op, id) ∧ stage (s'.ctl t).point = .settled (op, id) error := by
  obtain ⟨_, hrun, _⟩ | ⟨p, p', hp, hp', hr, _⟩ := step_cases hs
  · rw [deed_sync hrun] at he
    cases he
  · simp only [deed, stepEvent, hp, hp'] at he
    rw [hp, hp', Ctl.point_awake, Ctl.point_awake]
    exact hr.settled_of_deed he hset

/-! ### Runs -/

/-- The last call of thread `t`, of `op` on semaphore `id`, has been settled with `error` by
one deed since it was made, and by one only. -/
def SettledOnce (t : θ) (op : Op) (id : ι) (error : Status) (tr : List (SemTransition θ ι)) : Prop :=
  ∃ after y between x before e, tr = after ++ y :: (between ++ x :: before) ∧
    x.thread = t ∧ x.post.ctl t = .awake (.findLock op id) ∧
    y.thread = t ∧ deed id y = some e ∧ e.settles = some (t, op, error) ∧
    ∀ z ∈ after ++ between, z.thread = t → ∀ e, deed id z = some e → e.settles = none

theorem call_step (hs : Step (code some prio) t s s') {op : Op} (hp : ∀ call, stage (s.ctl t).point ≠ .pending call)
    (hp' : stage (s'.ctl t).point = .pending (op, id)) : s'.ctl t = .awake (.findLock op id) := by
  obtain ⟨_, _, heq | hnext⟩ | ⟨p, p', hpc, hpc', hr, _⟩ := step_cases hs
  · rw [heq] at hp'
    exact absurd hp' (hp _)
  · rw [next_stage hnext] at hp'
    exact absurd hp' (hp _)
  · rw [hpc, Ctl.point_awake] at hp
    rw [hpc', Ctl.point_awake] at hp'
    rw [hpc', hr.calls hp hp']

omit [DecidableEq θ] [DecidableEq ι] in
theorem initial_stage (s : SemState θ ι) (t : θ) (h : Initial s) : stage (s.ctl t).point = .outside := by
  rw [h.idle t]
  rfl

theorem settled_once (h : Run (code some prio) Initial tr s) {op : Op} {error : Status}
    (ht : stage (s.ctl t).point = .settled (op, id) error) : SettledOnce t op id error tr := by
  obtain ⟨after, y, between, x, before, e, rfl, rfl, hout, hcall, hy⟩ :=
    h.settled_once (fun s t hi => initial_stage s t hi) (fun _ _ _ => stage_step)
      (fun _ _ _ hs hpre hpost => settling_deed hs hpre hpost) (fun _ _ _ _ _ hs he => deed_settling hs he) ht
  exact ⟨after, y, between, x, before, e, rfl, rfl, call_step (h.steps x (by simp)) hout hcall, hy⟩

omit [DecidableEq θ] in
theorem Create.block_stock {args : Create} {v : V2lsem θ} (h : args.block θ = some v) : v.stock = Stock.made args := by
  have hc := Create.block_created h
  cases args with
  | binary opt initialState =>
    rw [V2lsem.stock_tokens fun hm => by simpa using hc.kind.mp hm]
    simp only [Create.block, semBCreate] at h
    split at h
    · cases h
    · cases h
      rfl
  | counting opt initialCount =>
    rw [V2lsem.stock_tokens fun hm => by simpa using hc.kind.mp hm]
    simp only [Create.block, semCCreate] at h
    split at h
    · cases h
    · cases h
      rfl
  | mutex opt => rw [V2lsem.stock_key (hc.kind.mpr ⟨opt, rfl⟩) hc.owner hc.level]; rfl

/-- A semaphore that is made is a desk not opened yet. -/
theorem Creates.desk (h : Run (code some prio) Initial (x :: before) x.post) {args : Create}
    (hx : Creates id args x) : x.post.mem.desk id = .made args := by
  obtain ⟨hfresh, hlive, hv⟩ := hx
  have hc := Create.block_created hv
  have hunlisted : id ∉ x.post.mem.semList := by
    have hl := linked (show Run (code some prio) Initial ([] ++ x :: before) x.post from h).before
    obtain ⟨hm, _⟩ | ⟨p, p', hp, hp', hr, _⟩ := step_cases (h.steps x (List.mem_cons_self ..))
    · rw [hm, hfresh] at hlive
      cases hlive
    · obtain ⟨_, _, _, _, _, rfl⟩ := hr.born hfresh (by rw [hlive]; exact nofun)
        fun ht => hl.touched x.thread id (by rw [hp]; exact ht) hfresh
      refine (registry_sound h).unlisted (t := x.thread) ?_
      show publishing (x.post.ctl x.thread).point = some id
      rw [hp']
      rfl
  simp only [Mem.desk, hc.sendType, hc.susp, Create.block_stock hv, hunlisted, decide_false]
  rfl

/-- The deeds since its creation lead the desk of a semaphore to what its control block shows. -/
theorem served (h : Run (code some prio) Initial (later ++ x :: before) s) {args : Create} (hx : Creates id args x)
    (hreg : Regular (∃ opt, args = .mutex opt) (later ++ x :: before)) :
    replay Desk.act (.made args) (later.filterMap (deed id)) = some (s.mem.desk id) := by
  have hx' : Run (code some prio) Initial (x :: before) x.post := .step h.before (h.steps x (by simp))
  rw [← hx.desk hx']
  refine h.replays (fun s => s.mem.desk id) (deed id) fun y l hrun hsuff hs => ?_
  have hmem : x ∈ l ++ x :: before := by simp
  have hsub : y :: (l ++ x :: before) ⊆ later ++ x :: before := by
    rw [← List.cons_append]
    exact List.append_subset.mpr ⟨fun z hz => List.mem_append_left _ (hsuff.subset hz), List.subset_append_right ..⟩
  have hmutex := made_mutex hrun hmem hx
  exact deed_step hrun hs (initialCount_of_creates hrun hmem hx).1
    ⟨fun z hz => hreg.count z (hsub hz), fun hm z hz => hreg.level (hmutex.mp hm) z (hsub hz),
      fun hm z hz => hreg.stray (hmutex.mp hm) z (hsub hz)⟩

end

/-- Thread 0 makes a mutex and takes it; thread 1 waits for it, and has it when thread 0
has given it back. -/
def handOver : List (Fin 2 × Input (Choice ℕ)) :=
  makes 0 7 (.mutex 0) :: goesOn 0 3 ++ calls 0 (.take waitForever) 7 :: goesOn 0 8 ++
    calls 1 (.take waitForever) 7 :: goesOn 1 7 ++ calls 0 .give 7 :: goesOn 0 7 ++ goesOn 1 4

end V2lin.Sem
