import V2lin.Watchdog.Steps
import V2lin.Lists.Walk

/-! One pass over the timer list, with the timeout functions it calls.

Here a call of the library is a function on its memory, and a timeout function is the list
of the calls it makes before it returns, which may be others each time it is called. The
pass looks the next watchdog up before it calls, and again when it goes on: it is a walk
along a list that changes under the walker. -/
namespace V2lin.Watchdog

/-- A call of the library: a creation with the address that `ts_malloc` returns, or an
operation. -/
inductive Call (ι φ : Type) where
  | create (id : ι)
  | make (op : Op φ) (id : ι)
  deriving DecidableEq

section
variable {ι φ : Type} [DecidableEq ι]

/-! ### The calls -/

/-- `wdCreate`. An address that is not free is none that `ts_malloc` returns, and stands
for its failure. -/
def Mem.wdCreate (m : Mem ι φ) (id : ι) : Mem ι φ :=
  if m.block id = .fresh then
    {m.setWdog id {m.wdog id with ticksRemaining := 0} with
      block := Function.update m.block id .live
      wdogList := m.wdogList ++ [id]}
  else m

def Mem.wdStart (m : Mem ι φ) (id : ι) (delay : ℤ) (f : Option φ) (parm : ℤ) : Mem ι φ × Status :=
  if id ∈ m.wdogList then (m.setWdog id ((m.wdog id).start delay f parm), .ok) else (m, .objIdError)

def Mem.wdCancel (m : Mem ι φ) (id : ι) : Mem ι φ × Status :=
  if id ∈ m.wdogList then (m.setWdog id {m.wdog id with ticksRemaining := 0}, .ok) else (m, .objIdError)

def Mem.wdDelete (m : Mem ι φ) (id : ι) : Mem ι φ × Status :=
  if id ∈ m.wdogList then
    ({m with wdogList := m.wdogList.erase id, block := Function.update m.block id .freed}, .ok)
  else (m, .objIdError)

def Mem.make (m : Mem ι φ) (op : Op φ) (id : ι) : Mem ι φ × Status :=
  match op with
  | .start delay f parm => m.wdStart id delay f parm
  | .cancel => m.wdCancel id
  | .delete => m.wdDelete id

def Mem.call (m : Mem ι φ) (c : Call ι φ) : Mem ι φ :=
  match c with
  | .create id => m.wdCreate id
  | .make op id => (m.make op id).1

/-- A timeout function makes its calls. -/
def Mem.calls (m : Mem ι φ) (cs : List (Call ι φ)) : Mem ι φ := cs.foldl Mem.call m

@[simp] theorem Mem.calls_nil (m : Mem ι φ) : m.calls [] = m := rfl

@[simp] theorem Mem.calls_cons (m : Mem ι φ) (c : Call ι φ) (cs : List (Call ι φ)) :
    m.calls (c :: cs) = (m.call c).calls cs :=
  rfl

/-! ### The pass -/

/-- What the timeout functions do: the calls that a function, given its parameter, makes
when it is the one called after so many others. -/
abbrev Callbacks (ι φ : Type) := ℕ → φ → ℤ → List (Call ι φ)

structure Pass (ι φ : Type) where
  mem : Mem ι φ
  next : Option ι
  /-- The timeout functions called so far. -/
  called : ℕ

variable (cb : Callbacks ι φ)

/-- What the timeout function does that `process_tick_for` calls, if it calls one. -/
def Pass.script (p : Pass ι φ) (id : ι) : List (Call ι φ) :=
  if (p.mem.wdog id).tick.2 then
    match (p.mem.wdog id).timeoutFunc with
    | some f => cb p.called f (p.mem.wdog id).timeoutParm
    | none => []
  else []

def Pass.processTickFor (p : Pass ι φ) (id : ι) : Pass ι φ :=
  if id ∈ p.mem.wdogList then
    { mem := (p.mem.setWdog id (p.mem.wdog id).tick.1).calls (p.script cb id)
      next := nextWdog p.mem.wdogList id
      called := if (p.mem.wdog id).tick.2 then p.called + 1 else p.called }
  else {p with next := none}

/-- What the timeout function does that is called in a round, if one is. -/
def Pass.plays (p : Pass ι φ) : List (Call ι φ) :=
  match p.next with
  | some id => if id ∈ p.mem.wdogList then p.script cb id else []
  | none => []

/-- One round of the loop of `process_timer_list`. -/
def Pass.round (p : Pass ι φ) : Pass ι φ :=
  match p.next with
  | some id => p.processTickFor cb id
  | none => p

/-- `process_timer_list` after `n` rounds. -/
def processTimerList (m : Mem ι φ) : ℕ → Pass ι φ
  | 0 => ⟨m, m.wdogList.head?, 0⟩
  | n + 1 => (processTimerList m n).round cb

/-- Round `n` ticks the watchdog. -/
def Ticks (m : Mem ι φ) (n : ℕ) (id : ι) : Prop :=
  (processTimerList cb m n).next = some id ∧ id ∈ (processTimerList cb m n).mem.wdogList

/-- The watchdog is gone before its turn has come. -/
def DeletedBefore (m : Mem ι φ) (id : ι) : Prop :=
  ∃ n, id ∉ (processTimerList cb m n).mem.wdogList ∧ ∀ k < n, ¬ Ticks cb m k id

/-- The timeout function called in round `n` deletes the watchdog that the pass is to go on
with, and lets one live behind it that was there when the pass began. -/
def Oversteps (m : Mem ι φ) (n : ℕ) : Prop :=
  ∃ id done b rest, (processTimerList cb m n).next = some id ∧
    (processTimerList cb m n).mem.wdogList = done ++ id :: b :: rest ∧
    .make .delete b ∈ (processTimerList cb m n).script cb id ∧
    ∃ c ∈ rest, c ∈ m.wdogList ∧ .make .delete c ∉ (processTimerList cb m n).script cb id

/-! ### What calls do to the list -/

/-- No watchdog is on the list twice, and only such as were created. -/
structure Mem.Linked (m : Mem ι φ) : Prop where
  nodup : m.wdogList.Nodup
  created : ∀ id ∈ m.wdogList, m.block id ≠ .fresh

/-- From `m` to `m'` watchdogs may go, and new ones come at the end. -/
structure Alters (m m' : Mem ι φ) : Prop where
  linked : m'.Linked
  created : ∀ id, m.block id ≠ .fresh → m'.block id ≠ .fresh
  list : ∃ (stays : ι → Bool) (new : List ι), m'.wdogList = m.wdogList.filter stays ++ new ∧
    ∀ id ∈ new, m.block id = .fresh

variable {cb} {m m' m'' : Mem ι φ} {id : ι}

omit [DecidableEq ι] in
theorem Alters.same (hm : m.Linked) (hlist : m'.wdogList = m.wdogList) (hblock : m'.block = m.block) : Alters m m' where
  linked := ⟨hlist ▸ hm.nodup, fun id hid => by rw [hblock]; exact hm.created id (hlist ▸ hid)⟩
  created id h := by rwa [hblock]
  list := ⟨fun _ => true, [], by simp [hlist], nofun⟩

omit [DecidableEq ι] in
theorem Alters.trans (h : Alters m m') (h' : Alters m' m'') : Alters m m'' where
  linked := h'.linked
  created id hid := h'.created id (h.created id hid)
  list := by
    obtain ⟨stays, new, hl, hnew⟩ := h.list
    obtain ⟨stays', new', hl', hnew'⟩ := h'.list
    refine ⟨fun id => stays' id && stays id, new.filter stays' ++ new', ?_, fun id hid => ?_⟩
    · rw [hl', hl, List.filter_append, List.filter_filter, List.append_assoc]
    · obtain hid | hid := List.mem_append.mp hid
      · exact hnew id (List.mem_of_mem_filter hid)
      · by_contra hold
        exact h.created id hold (hnew' id hid)

theorem Alters.call (hm : m.Linked) (c : Call ι φ) : Alters m (m.call c) := by
  cases c with
  | create id =>
    show Alters m (m.wdCreate id)
    unfold Mem.wdCreate
    split
    · rename_i hfresh
      have hout : id ∉ m.wdogList := fun hin => hm.created id hin hfresh
      refine ⟨⟨?_, fun j hj => ?_⟩, fun j hj => ?_, fun _ => true, [id], by simp, by simpa using hfresh⟩
      · refine List.nodup_append.mpr ⟨hm.nodup, by simp, fun a ha b hb he => hout ?_⟩
        rw [← List.mem_singleton.mp hb, ← he]
        exact ha
      · by_cases hji : j = id
        · simp [hji]
        · simpa [Function.update_of_ne hji] using hm.created j (by simpa [hji] using hj)
      · by_cases hji : j = id
        · simp [hji]
        · simpa [Function.update_of_ne hji] using hj
    · exact .same hm rfl rfl
  | make op id =>
    cases op with
    | start delay f parm =>
      show Alters m (m.wdStart id delay f parm).1
      unfold Mem.wdStart
      split <;> exact .same hm rfl rfl
    | cancel =>
      show Alters m (m.wdCancel id).1
      unfold Mem.wdCancel
      split <;> exact .same hm rfl rfl
    | delete =>
      show Alters m (m.wdDelete id).1
      unfold Mem.wdDelete
      split
      · refine ⟨⟨hm.nodup.erase id, fun j hj => ?_⟩, fun j hj => ?_, fun j => j != id, [], ?_, nofun⟩
        · obtain ⟨hji, hj⟩ := hm.nodup.mem_erase_iff.mp hj
          simpa [Function.update_of_ne hji] using hm.created j hj
        · by_cases hji : j = id
          · simp [hji]
          · simpa [Function.update_of_ne hji] using hj
        · simp [hm.nodup.erase_eq_filter]
      · exact .same hm rfl rfl

theorem Alters.calls (hm : m.Linked) (cs : List (Call ι φ)) : Alters m (m.calls cs) := by
  induction cs generalizing m with
  | nil => exact .same hm rfl rfl
  | cons c cs ih =>
    have hc := Alters.call hm c
    exact hc.trans (ih hc.linked)

omit [DecidableEq ι] in
theorem Alters.not_back (h : Alters m m') (hid : m.block id ≠ .fresh) (hout : id ∉ m.wdogList) : id ∉ m'.wdogList := by
  obtain ⟨stays, new, hl, hnew⟩ := h.list
  rw [hl]
  intro hin
  obtain hin | hin := List.mem_append.mp hin
  · exact hout (List.mem_of_mem_filter hin)
  · exact hid (hnew id hin)

/-- A call takes a watchdog off the list if and only if it deletes it. -/
theorem mem_call (hin : id ∈ m.wdogList) (hm : m.Linked) (c : Call ι φ) :
    id ∈ (m.call c).wdogList ↔ c ≠ .make .delete id := by
  cases c with
  | create j =>
    refine iff_of_true ?_ nofun
    show id ∈ (m.wdCreate j).wdogList
    unfold Mem.wdCreate
    split
    · exact List.mem_append_left _ hin
    · exact hin
  | make op j =>
    cases op with
    | start delay f parm =>
      refine iff_of_true ?_ nofun
      show id ∈ (m.wdStart j delay f parm).1.wdogList
      unfold Mem.wdStart
      split <;> exact hin
    | cancel =>
      refine iff_of_true ?_ nofun
      show id ∈ (m.wdCancel j).1.wdogList
      unfold Mem.wdCancel
      split <;> exact hin
    | delete =>
      show id ∈ (m.wdDelete j).1.wdogList ↔ _
      unfold Mem.wdDelete
      by_cases hji : j = id
      · subst hji
        simp [hin, hm.nodup.mem_erase_iff]
      · split
        · simp [hm.nodup.mem_erase_iff, hin, hji, Ne.symm hji]
        · simpa [hji] using hin

theorem mem_calls (hin : id ∈ m.wdogList) (hm : m.Linked) (cs : List (Call ι φ)) :
    id ∈ (m.calls cs).wdogList ↔ .make .delete id ∉ cs := by
  induction cs generalizing m with
  | nil => simpa using hin
  | cons c cs ih =>
    have hc := Alters.call hm c
    have hstays := mem_call hin hm c
    by_cases hdel : c = .make .delete id
    · have hout : id ∉ (m.call c).wdogList := fun hin' => hstays.mp hin' hdel
      have hgone := (Alters.calls hc.linked cs).not_back (hc.created id (hm.created id hin)) hout
      exact iff_of_false hgone (by simp [hdel])
    · simpa [Ne.symm hdel] using ih (hstays.mpr hdel) hc.linked

/-! ### The pass is a walk -/

omit [DecidableEq ι] in
theorem nextWdog_append [DecidableEq ι] {done rest : List ι} (hout : id ∉ done) :
    nextWdog (done ++ id :: rest) id = rest.head? := by
  induction done with
  | nil => exact if_pos rfl
  | cons a done ih =>
    rw [List.mem_cons, not_or] at hout
    exact (if_neg (Ne.symm hout.1)).trans (ih hout.2)

variable (cb) in
/-- What a round does: nothing once the pass has ended, an end if the watchdog is gone, and
else a tick, whose timeout function runs with the next watchdog looked up. -/
theorem round_cases (p : Pass ι φ) :
    (p.next = none ∧ p.round cb = p) ∨
    (∃ id, p.next = some id ∧ id ∉ p.mem.wdogList ∧ p.round cb = {p with next := none}) ∨
    ∃ id, p.next = some id ∧ id ∈ p.mem.wdogList ∧ (p.round cb).next = nextWdog p.mem.wdogList id ∧
      (p.round cb).mem = (p.mem.setWdog id (p.mem.wdog id).tick.1).calls (p.script cb id) := by
  unfold Pass.round
  cases hn : p.next with
  | none => exact .inl ⟨rfl, rfl⟩
  | some id =>
    by_cases hin : id ∈ p.mem.wdogList
    · refine .inr (.inr ⟨id, rfl, hin, ?_⟩)
      simp only [Pass.processTickFor, if_pos hin, and_self]
    · refine .inr (.inl ⟨id, rfl, hin, ?_⟩)
      simp only [Pass.processTickFor, if_neg hin]

omit [DecidableEq ι] in
theorem Mem.Linked.setWdog [DecidableEq ι] (hm : m.Linked) (id : ι) (v : V2ptWdog φ) : (m.setWdog id v).Linked :=
  ⟨hm.nodup, hm.created⟩

theorem Alters.round {p : Pass ι φ} (hm : p.mem.Linked) : Alters p.mem (p.round cb).mem := by
  obtain ⟨_, heq⟩ | ⟨_, _, _, heq⟩ | ⟨id, _, _, _, heq⟩ := round_cases cb p
  · rw [heq]
    exact .same hm rfl rfl
  · rw [heq]
    exact .same hm rfl rfl
  · rw [heq]
    have hticked := hm.setWdog id (p.mem.wdog id).tick.1
    have hsame : Alters p.mem (p.mem.setWdog id (p.mem.wdog id).tick.1) := .same hm rfl rfl
    exact hsame.trans (.calls hticked _)

variable (cb) in
theorem linked_pass (hm : m.Linked) (n : ℕ) : (processTimerList cb m n).mem.Linked := by
  induction n with
  | zero => exact hm
  | succ n ih => exact (Alters.round ih).linked

variable (cb) in
theorem pass_alters (hm : m.Linked) (n k : ℕ) :
    Alters (processTimerList cb m n).mem (processTimerList cb m (n + k)).mem := by
  induction k with
  | zero => exact .same (linked_pass cb hm n) rfl rfl
  | succ k ih => exact ih.trans (.round ih.linked)

variable (cb) in
/-- The walk along the timer list. -/
def walk (hm : m.Linked) : Lists.Walk ι where
  list n := (processTimerList cb m n).mem.wdogList
  cursor n := (processTimerList cb m n).next
  nodup n := (linked_pass cb hm n).nodup
  starts := rfl
  ended n hn := by
    obtain ⟨_, heq⟩ | ⟨_, hid, _⟩ | ⟨_, hid, _⟩ := round_cases cb (processTimerList cb m n)
    · rw [processTimerList, heq]
      exact ⟨hn, rfl⟩
    · rw [hn] at hid
      cases hid
    · rw [hn] at hid
      cases hid
  lost n a hn hout := by
    obtain ⟨hid, _⟩ | ⟨_, _, _, heq⟩ | ⟨id, hid, hin, _⟩ := round_cases cb (processTimerList cb m n)
    · rw [hn] at hid
      cases hid
    · rw [processTimerList, heq]
      exact ⟨rfl, rfl⟩
    · rw [hn] at hid
      cases hid
      exact absurd hin hout
  moves n a done rest hn hl := by
    have hin : a ∈ (processTimerList cb m n).mem.wdogList := by
      rw [hl]
      simp
    obtain ⟨hid, _⟩ | ⟨id, hid, hout, _⟩ | ⟨id, hid, _, heq, _⟩ := round_cases cb (processTimerList cb m n)
    · rw [hn] at hid
      cases hid
    · rw [hn] at hid
      cases hid
      exact absurd hin hout
    · rw [hn] at hid
      cases hid
      rw [processTimerList, heq, hl]
      exact nextWdog_append (Lists.Walk.notMem_done (linked_pass cb hm n).nodup hl).1
  changes n := by
    have halters : Alters _ (processTimerList cb m (n + 1)).mem := .round (linked_pass cb hm n)
    obtain ⟨stays, new, hl, hnew⟩ := halters.list
    refine ⟨stays, new, hl, fun a ha k hk hin => ?_⟩
    obtain ⟨j, rfl⟩ := Nat.exists_eq_add_of_le hk
    exact (pass_alters cb hm k j).created a ((linked_pass cb hm k).created a hin) (hnew a ha)

/-- A pass oversteps where the walk is cut. -/
theorem cut_iff (hm : m.Linked) (n : ℕ) : (walk cb hm).Cut n ↔ Oversteps cb m n := by
  have hlinked := linked_pass cb hm n
  have hiff : ∀ id, (processTimerList cb m n).next = some id → id ∈ (processTimerList cb m n).mem.wdogList →
      ∀ a ∈ (processTimerList cb m n).mem.wdogList, a ∈ (processTimerList cb m (n + 1)).mem.wdogList ↔
        .make .delete a ∉ (processTimerList cb m n).script cb id := by
    intro id hn hin a ha
    obtain ⟨hid, _⟩ | ⟨_, hid, hout, _⟩ | ⟨_, hid, _, _, heq⟩ := round_cases cb (processTimerList cb m n)
    · rw [hn] at hid
      cases hid
    · rw [hn] at hid
      cases hid
      exact absurd hin hout
    · rw [hn] at hid
      cases hid
      rw [processTimerList, heq]
      have hticked := hlinked.setWdog id ((processTimerList cb m n).mem.wdog id).tick.1
      refine mem_calls ?_ hticked _
      exact ha
  constructor
  · intro ⟨a, done, b, rest, hc, hl, hb, c, hrest, hstart, hin⟩
    have hl : (processTimerList cb m n).mem.wdogList = done ++ a :: b :: rest := hl
    have hstay := hiff a hc (by rw [hl]; simp)
    refine ⟨a, done, b, rest, hc, hl, ?_, c, hrest, hstart, ?_⟩
    · by_contra hno
      exact hb ((hstay b (by rw [hl]; simp)).mpr hno)
    · exact (hstay c (by rw [hl]; simp [hrest])).mp hin
  · intro ⟨a, done, b, rest, hc, hl, hb, c, hrest, hstart, hno⟩
    have hstay := hiff a hc (by rw [hl]; simp)
    refine ⟨a, done, b, rest, hc, hl, fun hin => ?_, c, hrest, hstart, ?_⟩
    · exact (hstay b (by rw [hl]; simp)).mp hin hb
    · exact (hstay c (by rw [hl]; simp [hrest])).mpr hno

/-! ### Who is ticked -/

theorem call_creates (hm : m.Linked) {c : Call ι φ} (hfresh : m.block id = .fresh) (h : (m.call c).block id ≠ .fresh) :
    c = .create id := by
  cases c with
  | create j =>
    by_contra hne
    have hji : id ≠ j := fun he => hne (he ▸ rfl)
    refine h ?_
    show (m.wdCreate j).block id = .fresh
    unfold Mem.wdCreate
    split
    · simpa [Function.update_of_ne hji] using hfresh
    · exact hfresh
  | make op j =>
    refine absurd ?_ h
    cases op with
    | start delay f parm =>
      show (m.wdStart j delay f parm).1.block id = .fresh
      unfold Mem.wdStart
      split <;> exact hfresh
    | cancel =>
      show (m.wdCancel j).1.block id = .fresh
      unfold Mem.wdCancel
      split <;> exact hfresh
    | delete =>
      show (m.wdDelete j).1.block id = .fresh
      unfold Mem.wdDelete
      split
      · rename_i hin
        have hji : id ≠ j := fun he => hm.created j hin (he ▸ hfresh)
        simpa [Function.update_of_ne hji] using hfresh
      · exact hfresh

theorem calls_create (hm : m.Linked) {cs : List (Call ι φ)} (hfresh : m.block id = .fresh)
    (h : (m.calls cs).block id ≠ .fresh) : .create id ∈ cs := by
  induction cs generalizing m with
  | nil => exact absurd hfresh h
  | cons c cs ih =>
    by_cases hc : (m.call c).block id = .fresh
    · exact List.mem_cons_of_mem _ (ih (Alters.call hm c).linked hc h)
    · rw [call_creates hm hfresh hc]
      exact List.mem_cons_self ..

theorem pass_creates (hm : m.Linked) {n : ℕ} (hfresh : m.block id = .fresh)
    (h : (processTimerList cb m n).mem.block id ≠ .fresh) :
    ∃ k < n, .create id ∈ (processTimerList cb m k).plays cb := by
  induction n with
  | zero => exact absurd hfresh h
  | succ n ih =>
    by_cases hn : (processTimerList cb m n).mem.block id = .fresh
    · refine ⟨n, Nat.lt_succ_self n, ?_⟩
      rw [processTimerList] at h
      obtain ⟨_, heq⟩ | ⟨_, _, _, heq⟩ | ⟨j, hj, hin, _, heq⟩ := round_cases cb (processTimerList cb m n)
      · rw [heq] at h
        exact absurd hn h
      · rw [heq] at h
        exact absurd hn h
      · rw [heq] at h
        have hticked := (linked_pass cb hm n).setWdog j ((processTimerList cb m n).mem.wdog j).tick.1
        simpa only [Pass.plays, hj, if_pos hin] using calls_create hticked hn h
    · obtain ⟨k, hk, hplays⟩ := ih hn
      exact ⟨k, Nat.lt_succ_of_lt hk, hplays⟩

/-- The timeout functions of a pass make finitely many watchdogs in all. -/
def MakesFinitely (cb : Callbacks ι φ) (m : Mem ι φ) : Prop :=
  ∃ l : List ι, ∀ n id, .create id ∈ (processTimerList cb m n).plays cb → id ∈ l

/-- A pass ends if and only if its timeout functions make finitely many watchdogs. -/
theorem ends_iff (hm : m.Linked) : (∃ n, (processTimerList cb m n).next = none) ↔ MakesFinitely cb m := by
  constructor
  · intro ⟨n, hn⟩
    have hcreated : ∀ (cs : List (Call ι φ)) id, .create id ∈ cs →
        id ∈ cs.filterMap fun | .create j => some j | .make _ _ => none := by
      intro cs id hid
      exact List.mem_filterMap.mpr ⟨_, hid, rfl⟩
    refine ⟨(List.range n).flatMap fun k => ((processTimerList cb m k).plays cb).filterMap
      fun | .create j => some j | .make _ _ => none, fun k id hid => ?_⟩
    obtain hlt | hle := Nat.lt_or_ge k n
    · exact List.mem_flatMap.mpr ⟨k, List.mem_range.mpr hlt, hcreated _ id hid⟩
    · obtain ⟨j, rfl⟩ := Nat.exists_eq_add_of_le hle
      have hnone : (processTimerList cb m (n + j)).next = none := (Lists.Walk.cursor_none (w := walk cb hm) hn).1
      simp only [Pass.plays, hnone, List.not_mem_nil] at hid
  · intro ⟨l, hl⟩
    refine Lists.Walk.ends (w := walk cb hm) ⟨m.wdogList ++ l, fun n a hvisit => ?_⟩
    have halters := pass_alters cb hm 0 n
    rw [Nat.zero_add] at halters
    obtain ⟨stays, new, hlist, hnew⟩ := halters.list
    have hin : a ∈ (processTimerList cb m n).mem.wdogList := hvisit.2
    have hsplit := hin
    rw [hlist] at hsplit
    obtain hold | hcome := List.mem_append.mp hsplit
    · exact List.mem_append_left _ (List.mem_of_mem_filter hold)
    · obtain ⟨k, _, hplays⟩ := pass_creates hm (hnew a hcome) ((linked_pass cb hm n).created a hin)
      exact List.mem_append_right _ (hl k a hplays)

/-- A pass over any timer list, with timeout functions that return: it ends, and ticks every
watchdog that is on the list when it begins and not deleted before its turn exactly once,
if and only if its timeout functions make finitely many watchdogs in all, and none of them
deletes the next watchdog while it lets one live behind that. -/
theorem pass_complete_iff (hm : m.Linked) :
    ((∃ n, (processTimerList cb m n).next = none) ∧
      ∀ id ∈ m.wdogList, (∃! n, Ticks cb m n id) ∨ DeletedBefore cb m id) ↔
    MakesFinitely cb m ∧ ∀ n, ¬ Oversteps cb m n := by
  rw [← ends_iff hm]
  refine and_congr_right fun hend => ?_
  have hserves := Lists.Walk.serves_iff_not_cut (w := walk cb hm) hend
  simp only [cut_iff] at hserves
  rw [← hserves]
  refine forall_congr' fun id => forall_congr' fun _ => or_congr ?_ ?_
  · constructor
    · exact fun ⟨n, hn, _⟩ => ⟨n, hn⟩
    · exact fun ⟨n, hn⟩ => ⟨n, hn, fun k hk => Lists.Walk.visits_unique (w := walk cb hm) hk hn⟩
  · constructor
    · exact fun ⟨n, hout, hno⟩ => ⟨n, hout, fun ⟨k, hk, hvisit⟩ => hno k hk hvisit⟩
    · exact fun ⟨n, hout, hno⟩ => ⟨n, hout, fun k hk hvisit => hno ⟨k, hk, hvisit⟩⟩

end

/-! ### Three watchdogs -/

/-- No watchdog yet. -/
def blank : Mem ℕ ℕ := ⟨[], fun _ => ⟨0, none, 0⟩, fun _ => .fresh⟩

theorem blank_linked : blank.Linked := ⟨.nil, nofun⟩

/-- Watchdogs 1, 2 and 3, of which the first calls its timeout function at the next tick. -/
def threeTimers : Mem ℕ ℕ :=
  blank.calls [.create 1, .create 2, .create 3, .make (.start 1 (some 0) 0) 1]

theorem threeTimers_linked : threeTimers.Linked := (Alters.calls blank_linked _).linked

/-- The timeout function of the first watchdog deletes the second, and the third is passed
over. -/
theorem third_passed_over :
    ¬ ∀ (cb : Callbacks ℕ ℕ) (m : Mem ℕ ℕ), m.Linked → (∃ n, (processTimerList cb m n).next = none) ∧
      ∀ id ∈ m.wdogList, (∃! n, Ticks cb m n id) ∨ DeletedBefore cb m id := by
  intro hclaim
  let cb : Callbacks ℕ ℕ := fun _ _ _ => [.make .delete 2]
  obtain ⟨hend, hall⟩ := hclaim cb threeTimers threeTimers_linked
  have hsteps : Oversteps cb threeTimers 0 :=
    ⟨1, [], 2, [3], by decide, by decide, by decide, 3, by decide, by decide, by decide⟩
  refine (Lists.Walk.serves_iff_not_cut (w := walk cb threeTimers_linked) hend).mp (fun id hid => ?_) 0
    ((cut_iff threeTimers_linked 0).mpr hsteps)
  obtain ⟨n, hn, _⟩ | ⟨n, hout, hno⟩ := hall id hid
  · exact .inl ⟨n, hn⟩
  · exact .inr ⟨n, hout, fun ⟨k, hk, hvisit⟩ => hno k hk hvisit⟩

/-- If it only restarts its watchdog, everybody is ticked. -/
theorem restarting_complete :
    let cb : Callbacks ℕ ℕ := fun _ _ _ => [.make (.start 50 (some 0) 0) 1]
    (∃ n, (processTimerList cb threeTimers n).next = none) ∧
      ∀ id ∈ threeTimers.wdogList, (∃! n, Ticks cb threeTimers n id) ∨ DeletedBefore cb threeTimers id := by
  intro cb
  have hscript : ∀ (p : Pass ℕ ℕ) (id : ℕ), ∀ c ∈ p.script cb id, c = .make (.start 50 (some 0) 0) 1 := by
    intro p id c hc
    unfold Pass.script at hc
    split at hc
    · split at hc
      · exact List.mem_singleton.mp hc
      · cases hc
    · cases hc
  refine (pass_complete_iff threeTimers_linked).mpr ⟨⟨[], fun n id hid => ?_⟩, fun n ⟨id, _, b, _, _, _, hb, _⟩ => ?_⟩
  · unfold Pass.plays at hid
    split at hid
    · split at hid
      · cases hscript _ _ _ hid
      · cases hid
    · cases hid
  · cases hscript _ _ _ hb

end V2lin.Watchdog
