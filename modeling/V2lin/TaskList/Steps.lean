import V2lin.TaskList.Code

/-! What a step along the list of tasks can do.

Only a few points matter to the list: the loops, with what they have in hand, the places
where a link is changed, and those where a control block is overwritten as a whole. The
others are `plain`. -/
namespace V2lin.TaskList
open Threads V2lin.Lists

section
variable {θ τ : Type} [DecidableEq τ]

/-! ### Links -/

theorem Mem.links_setTcb (m : Mem θ τ) (u : τ) (b : Tcb θ τ) :
    (m.setTcb u b).links = Function.update m.links (.next u) b.nxtTask := by
  funext i
  cases i with
  | head => rfl
  | next v =>
    by_cases h : v = u
    · subst h
      simp [links, setTcb]
    · rw [Function.update_of_ne (fun he => h (Cell.next.inj he))]
      simp [links, setTcb, Function.update_of_ne h]

theorem Mem.links_setTcb_same {m : Mem θ τ} {u : τ} {b : Tcb θ τ} (h : b.nxtTask = (m.tcb u).nxtTask) :
    (m.setTcb u b).links = m.links := by
  rw [Mem.links_setTcb, h]
  exact Function.update_eq_self (Cell.next u) m.links

theorem Mem.links_store (m : Mem θ τ) (i : Cell Unit τ) (v : Option τ) :
    (m.store i v).links = Function.update m.links i v := by
  cases i with
  | head h =>
    funext j
    cases j with
    | head h' => simp [links, store]
    | next u => rfl
  | next u => exact Mem.links_setTcb ..

/-! ### Points -/

/-- The point is in no loop and not under the lock. -/
def Pc.plain : Pc τ → Bool
  | .search caller _ => !caller.locked
  | .unlock _ | .test .. | .next .. | .found .. | .initClear .. | .initWalk .. | .initLink ..
  | .removeWalk .. | .removeLink .. => false
  | _ => true

/-- What a lookup has in hand. -/
def register : Pc τ → Option (Option τ)
  | .test _ _ t => some t
  | .next _ _ t => some (some t)
  | _ => none

/-- The control block that `taskInit` is about to link. -/
def making : Pc τ → Option τ
  | .initWalk _ u _ | .initLink _ u _ => some u
  | _ => none

/-- The points under `task_list_lock`. -/
def holding : Pc τ → Bool
  | .search caller _ | .test caller _ _ | .next caller _ _ | .found caller _ _ => caller.locked
  | .unlock _ | .initClear .. | .initWalk .. | .initLink .. | .removeWalk .. | .removeLink .. => true
  | _ => false

/-- What the step from a point does to the list. -/
def edit : Pc τ → Option (ListEdit τ)
  | .initLink _ u _ => some (.link u)
  | .removeLink _ u _ => some (.unlink u)
  | _ => none

/-- The control block that the step from a point overwrites as a whole. -/
def wipes (m : Mem θ τ) : Pc τ → Option τ
  | .initClear _ u _ _ | .spawnClear u _ _ _ | .spawnFree u _ => some u
  | .free _ u => if (m.tcb u).staticTask = true then none else some u
  | _ => none

omit [DecidableEq τ] in
theorem register_plain {p : Pc τ} (h : p.plain = true) : register p = none := by
  cases p <;> first | rfl | cases h

omit [DecidableEq τ] in
theorem making_plain {p : Pc τ} (h : p.plain = true) : making p = none := by
  cases p <;> first | rfl | cases h

omit [DecidableEq τ] in
theorem holding_plain {p : Pc τ} (h : p.plain = true) : holding p = false := by
  cases p with
  | search caller q => exact (Bool.not_eq_true' caller.locked).mp h
  | _ => first | rfl | cases h

omit [DecidableEq τ] in
theorem edit_plain {p : Pc τ} (h : p.plain = true) : edit p = none := by
  cases p <;> first | rfl | cases h

omit [DecidableEq τ] in
theorem edit_not_holding {p : Pc τ} (h : holding p = false) : edit p = none := by
  cases p <;> first | rfl | cases h

omit [DecidableEq τ] in
theorem holding_making {p : Pc τ} {u : τ} (h : making p = some u) : holding p = true := by
  cases p <;> first | rfl | cases h

/-- The points where the lock is taken, with the points behind them. -/
inductive Takes : Pc τ → Pc τ → Prop where
  | search (caller q) : Takes (.searchLock caller q) (.search caller q)
  | init (maker u name pri) : Takes (.initLock maker u name pri) (.initClear maker u name pri)
  | remove (cause u) : Takes (.removeLock cause u) (.removeWalk cause u (.head ()))

variable [DecidableEq θ]

/-- What follows a loop: an unlock, or plain code; a lookup for `taskFor` goes on without a lock. -/
inductive Follows (caller : Caller τ) : Pc τ → Prop where
  | unlocks {p : Pc τ} : caller.locked = true → p.plain = true → Follows caller (.unlock p)
  | plain {p : Pc τ} : p.plain = true → Follows caller p

omit [DecidableEq τ] [DecidableEq θ] in
theorem Cause.after_plain (cause : Cause) (t : Option τ) : (cause.after t).plain = true := by
  cases t with
  | none => rfl
  | some u => cases cause <;> rfl

omit [DecidableEq τ] [DecidableEq θ] in
theorem foundBlock_follows (caller : Caller τ) (q : Search) (t : Option τ) (m : Mem θ τ) :
    Follows caller (foundBlock caller q t m) := by
  cases caller with
  | taskFor cause => exact .plain (Cause.after_plain cause t)
  | myTask => exact .plain rfl
  | taskIdListGet => exact .plain rfl
  | newTid => exact .plain rfl
  | _ => exact .unlocks rfl rfl

/-- The blocks. -/
inductive Goes (ids : τ → ℤ) (t : θ) (m : Mem θ τ) : Pc τ → Mem θ τ → Pc τ → Prop where
  | search (caller q) : Goes ids t m (.search caller q) m (.test caller q m.taskList)
  | ended (caller q) : Goes ids t m (.test caller q none) m (.found caller q none)
  | hit {caller q u} : q.hit t (m.tcb u) = some true →
      Goes ids t m (.test caller q (some u)) m (.found caller q (some u))
  | miss {caller q u} : q.hit t (m.tcb u) = some false →
      Goes ids t m (.test caller q (some u)) m (.next caller (q.pass (m.tcb u)) u)
  | next (caller q u) : Goes ids t m (.next caller q u) m (.test caller q (m.tcb u).nxtTask)
  | found {caller q r p'} : Follows caller p' → Goes ids t m (.found caller q r) m p'
  | clear (maker u name pri) : Goes ids t m (.initClear maker u name pri) (m.setTcb u (newTcb ids u name))
      (if Task.Legal pri then .initWalk maker u (.head ()) else .unlock (.inited maker (some u) false))
  | initOn {maker u i v} : m.links i = some v → Goes ids t m (.initWalk maker u i) m (.initWalk maker u (.next v))
  | initEnd {maker u i} : m.links i = none → Goes ids t m (.initWalk maker u i) m (.initLink maker u i)
  | link (maker u i) : Goes ids t m (.initLink maker u i) (m.store i (some u)) (.unlock (.inited maker (some u) true))
  | removeEnd {cause u i} : m.links i = none → Goes ids t m (.removeWalk cause u i) m (.unlock (.freeName cause u))
  | removeHere {cause u i} : m.links i = some u → Goes ids t m (.removeWalk cause u i) m (.removeLink cause u i)
  | removeOn {cause u i v} : m.links i = some v → u ≠ v →
      Goes ids t m (.removeWalk cause u i) m (.removeWalk cause u (.next v))
  | unlink {cause u i v} : m.links i = some v →
      Goes ids t m (.removeLink cause u i) (m.store i (m.links (.next v))) (.unlock (.freeName cause u))
  | wipe {p u b p'} : wipes m p = some u → p.plain = true → p'.plain = true → Goes ids t m p (m.setTcb u b) p'
  | field {p u b p'} : b.nxtTask = (m.tcb u).nxtTask → p.plain = true → p'.plain = true →
      Goes ids t m p (m.setTcb u b) p'
  | plain {p p'} : p.plain = true → p'.plain = true → Goes ids t m p m p'
  /-- `taskInit` without a control block. -/
  | broken (maker name pri) : Goes ids t m (.initTest maker none name pri 0) m (.unlock (.inited maker none false))

/-- A step of thread `t` from one point to another. -/
inductive Act (ids : τ → ℤ) (t : θ) (s s' : ListState θ τ) : Pc τ → Pc τ → Prop where
  | takes {p p'} : Takes p p' → s.owner .taskListLock = none → s'.owner .taskListLock = some t → s'.mem = s.mem →
      Act ids t s s' p p'
  | gives {p'} : s'.owner .taskListLock = none → s'.mem = s.mem → Act ids t s s' (.unlock p') p'
  | goes {p p'} : Goes ids t s.mem p s'.mem p' → s'.owner = s.owner → Act ids t s s' p p'

variable {ids : τ → ℤ} {t : θ} {s s' : ListState θ τ} {m m' : Mem θ τ} {p p' : Pc τ}

omit [DecidableEq θ] [DecidableEq τ] in
theorem plain_initTest {maker : Maker} {task : Option τ} {name : Option String} {pri opts : ℤ}
    (h : ¬ (task = none ∧ opts = 0)) : (initTestBlock maker task name pri opts).plain = true := by
  unfold initTestBlock
  split
  · rfl
  · cases task with
    | none => exact absurd ⟨rfl, by omega⟩ h
    | some u => rfl

omit [DecidableEq θ] [DecidableEq τ] in
theorem plain_inited (maker : Maker) (task : Option τ) (ok : Bool) : (initedBlock maker task ok).plain = true := by
  cases maker with
  | user => rfl
  | spawn tid =>
    cases task with
    | none => rfl
    | some u => cases ok <;> rfl

omit [DecidableEq θ] [DecidableEq τ] in
theorem enterBlock_plain {op : Op τ} {choice : Choice θ τ} (h : enterBlock op choice m = some (m', p')) :
    m' = m ∧ p'.plain = true := by
  cases op with
  | taskSpawn name pri opts =>
    cases choice with
    | address u =>
      obtain ⟨rfl, rfl⟩ := Prod.mk.inj (Option.some.inj h)
      exact ⟨rfl, rfl⟩
    | _ => cases h
  | taskNameToId name => cases name <;> (obtain ⟨rfl, rfl⟩ := Prod.mk.inj (Option.some.inj h); exact ⟨rfl, rfl⟩)
  | _ =>
    obtain ⟨rfl, rfl⟩ := Prod.mk.inj (Option.some.inj h)
    exact ⟨rfl, rfl⟩

theorem goes_free {u : τ} {choice : Choice θ τ} (hw : wipes m p = some u) (hp : p.plain = true)
    (hp' : p'.plain = true) {q : Pc τ} (h : freeBlock u p' choice m = some (m', q)) : Goes ids t m p m' q := by
  cases choice with
  | memory b =>
    obtain ⟨rfl, rfl⟩ := Prod.mk.inj (Option.some.inj h)
    exact .wipe hw hp hp'
  | _ => cases h

theorem goes_freeName {u : τ} {choice : Choice θ τ} (hp : p.plain = true) (hp' : p'.plain = true) {q : Pc τ}
    (h : freeNameBlock u p' choice m = some (m', q)) : Goes ids t m p m' q := by
  unfold freeNameBlock at h
  split at h
  · obtain ⟨rfl, rfl⟩ := Prod.mk.inj (Option.some.inj h)
    exact .plain hp hp'
  · obtain ⟨rfl, rfl⟩ := Prod.mk.inj (Option.some.inj h)
    exact .field rfl hp hp'
  · cases h

theorem goes_create {cause : Cause} {u : τ} {choice : Choice θ τ}
    (h : createBlock cause u choice m = some (m', p')) : Goes ids t m (.create cause u) m' p' := by
  cases choice with
  | thread w =>
    obtain ⟨rfl, rfl⟩ := Prod.mk.inj (Option.some.inj h)
    exact .field rfl rfl rfl
  | noThread =>
    obtain ⟨rfl, rfl⟩ := Prod.mk.inj (Option.some.inj h)
    refine .plain rfl ?_
    split <;> rfl
  | _ => cases h

theorem goes_test {caller : Caller τ} {q : Search} {r : Option τ} (h : testBlock t caller q r m = some (m', p')) :
    Goes ids t m (.test caller q r) m' p' := by
  cases r with
  | none =>
    obtain ⟨rfl, rfl⟩ := Prod.mk.inj (Option.some.inj h)
    exact .ended caller q
  | some u =>
    obtain ⟨hit, hhit, heq⟩ := Option.map_eq_some_iff.mp h
    obtain ⟨rfl, rfl⟩ := Prod.mk.inj heq
    cases hit with
    | true => exact .hit hhit
    | false => exact .miss hhit

/-- A block is one of those that are listed. -/
theorem goes_of_block {block : Choice θ τ → Mem θ τ → Option (Mem θ τ × Pc τ)} {choice : Choice θ τ}
    (hc : code ids t p = .run block) (h : block choice m = some (m', p')) : Goes ids t m p m' p' := by
  cases p with
  | unlock | searchLock | initLock | removeLock => cases hc
  | idle =>
    cases hc
    cases choice with
    | call op =>
      obtain ⟨rfl, rfl⟩ := Prod.mk.inj (Option.some.inj h)
      exact .plain rfl rfl
    | _ => cases h
  | enter op =>
    cases hc
    obtain ⟨rfl, hp'⟩ := enterBlock_plain h
    exact .plain rfl hp'
  | test caller q r =>
    cases hc
    exact goes_test h
  | initTest maker task name pri opts =>
    cases hc
    obtain ⟨rfl, rfl⟩ := Prod.mk.inj (Option.some.inj h)
    by_cases hnone : task = none ∧ opts = 0
    · obtain ⟨rfl, rfl⟩ := hnone
      exact .broken maker name pri
    · exact .plain rfl (plain_initTest hnone)
  | initWalk maker u i =>
    cases hc
    obtain ⟨rfl, rfl⟩ := Prod.mk.inj (Option.some.inj h)
    cases hi : m.links i with
    | none => exact .initEnd hi
    | some v => exact .initOn hi
  | removeWalk cause u i =>
    cases hc
    obtain ⟨rfl, rfl⟩ := Prod.mk.inj (Option.some.inj h)
    cases hi : m.links i with
    | none => exact .removeEnd hi
    | some v =>
      by_cases hu : u = v
      · subst hu
        simp only [if_true]
        exact .removeHere hi
      · simp only [if_neg hu]
        exact .removeOn hi hu
  | removeLink cause u i =>
    cases hc
    obtain ⟨v, hv, heq⟩ := Option.map_eq_some_iff.mp h
    obtain ⟨rfl, rfl⟩ := Prod.mk.inj heq
    exact .unlink hv
  | spawnFree u tid =>
    cases hc
    exact goes_free rfl rfl rfl h
  | create cause u =>
    cases hc
    exact goes_create h
  | freeName cause u =>
    cases hc
    exact goes_freeName rfl rfl h
  | free cause u =>
    cases hc
    dsimp only at h
    split at h
    · obtain ⟨rfl, rfl⟩ := Prod.mk.inj (Option.some.inj h)
      exact .plain rfl rfl
    · rename_i hstatic
      exact goes_free (p := .free cause u) (u := u) (if_neg hstatic) rfl rfl h
  | activate cause u =>
    cases hc
    dsimp only at h
    split at h
    · obtain ⟨rfl, rfl⟩ := Prod.mk.inj (Option.some.inj h)
      exact .field rfl rfl rfl
    · obtain ⟨rfl, rfl⟩ := Prod.mk.inj (Option.some.inj h)
      exact .plain rfl rfl
  | found caller q r =>
    cases hc
    obtain ⟨rfl, rfl⟩ := Prod.mk.inj (Option.some.inj h)
    exact .found (foundBlock_follows ..)
  | inited maker task ok =>
    cases hc
    obtain ⟨rfl, rfl⟩ := Prod.mk.inj (Option.some.inj h)
    exact .plain rfl (plain_inited ..)
  | spawnClear u name pri opts =>
    cases hc
    obtain ⟨rfl, rfl⟩ := Prod.mk.inj (Option.some.inj h)
    exact .wipe rfl rfl rfl
  | spawnTaskid | spawnStatic | restart =>
    cases hc
    obtain ⟨rfl, rfl⟩ := Prod.mk.inj (Option.some.inj h)
    exact .field rfl rfl rfl
  | returned | selfRead =>
    cases hc
    obtain ⟨rfl, rfl⟩ := Prod.mk.inj (Option.some.inj h)
    exact .plain rfl rfl
  | search | next | initClear | initLink =>
    cases hc
    obtain ⟨rfl, rfl⟩ := Prod.mk.inj (Option.some.inj h)
    constructor

/-- Nobody sleeps, and every step is one of those that are listed. -/
theorem step_cases (hs : Step (code ids) t s s') :
    ∃ p p', s.ctl t = .awake p ∧ s'.ctl t = .awake p' ∧ Act ids t s s' p p' := by
  cases hp : s.ctl t with
  | asleep p n =>
    have hw := hs.wakes hp
    cases p <;> exact hw.elim
  | awake p =>
    have hd := hs.does hp
    cases hc : code ids t p with
    | run block =>
      rw [hc] at hd
      obtain ⟨choice, m', p', hb, rfl⟩ := hd
      exact ⟨p, p', rfl, Function.update_self .., .goes (goes_of_block hc hb) rfl⟩
    | wait c => exact c.elim
    | broadcast c => exact c.elim
    | lock k next =>
      rw [hc] at hd
      obtain ⟨hfree, rfl⟩ := hd
      have htakes : Takes p next := by
        cases p <;> first | (cases hc; constructor) | cases hc
      cases k
      exact ⟨p, next, rfl, Function.update_self .., .takes htakes hfree (by simp) rfl⟩
    | unlock k next =>
      rw [hc] at hd
      subst hd
      cases k
      have hp : p = .unlock next := by
        cases p <;> first | (cases hc; rfl) | cases hc
      subst hp
      exact ⟨_, next, rfl, Function.update_self .., .gives (by simp) rfl⟩

end

end V2lin.TaskList
