import V2lin.TaskLib.Sound
import Mathlib.Data.Int.Interval

/-! The identifiers of the tasks on the list.

`taskSpawn` draws the identifier that is one more than the largest in sequence on the list,
and stores it in the control block two steps later; until then the scan of another `taskSpawn`
does not see it. Before that the control block has the identifier of its address, cut to an
`int`, so that two blocks may have the same one. As long as nobody draws an identifier that is
drawn and not stored yet, and no block is appended whose address gives the identifier of a task
on the list, the tasks on the list have different ones. -/
namespace V2lin.TaskLib
open Threads V2lin.Task

/-! ### The scan -/

theorem foldl_newTid_ge (ids : List ℤ) (n : ℤ) :
    n ≤ ids.foldl (fun n id => if id < 65536 ∧ id ≥ n then id + 1 else n) n := by
  induction ids generalizing n with
  | nil => exact Int.le_refl n
  | cons id ids ih =>
    rw [List.foldl_cons]
    refine Int.le_trans ?_ (ih _)
    split <;> omega

/-- The new identifier is larger than any in sequence. -/
theorem newTid_gt {ids : List ℤ} {id : ℤ} (h : id ∈ ids) (hlt : id < 65536) : id < newTid ids := by
  have hfold : ∀ n, id < ids.foldl (fun n id => if id < 65536 ∧ id ≥ n then id + 1 else n) n := by
    induction ids with
    | nil => cases h
    | cons first rest ih =>
      intro n
      rw [List.foldl_cons]
      obtain rfl | hin := List.mem_cons.mp h
      · refine Int.lt_of_lt_of_le ?_ (foldl_newTid_ge rest _)
        split <;> omega
      · exact ih hin _
  exact hfold 1

/-- The new identifier is the first, or it follows one that is there. -/
theorem newTid_follows (ids : List ℤ) : newTid ids = 1 ∨ newTid ids - 1 ∈ ids ∧ 1 ≤ newTid ids - 1 := by
  have hfold : ∀ (ids : List ℤ) (n : ℤ), 1 ≤ n →
      let last := ids.foldl (fun n id => if id < 65536 ∧ id ≥ n then id + 1 else n) n
      last = n ∨ last - 1 ∈ ids ∧ 1 ≤ last - 1 := by
    intro ids
    induction ids with
    | nil => exact fun n _ => .inl rfl
    | cons first rest ih =>
      intro n hn
      simp only [List.foldl_cons]
      split
      · rename_i htaken
        obtain heq | ⟨hin, hpos⟩ := ih (first + 1) (by omega)
        · refine .inr ⟨?_, by omega⟩
          rw [heq, Int.add_sub_cancel]
          exact List.mem_cons_self ..
        · exact .inr ⟨List.mem_cons_of_mem _ hin, hpos⟩
      · obtain heq | ⟨hin, hpos⟩ := ih n hn
        · exact .inl heq
        · exact .inr ⟨List.mem_cons_of_mem _ hin, hpos⟩
  exact hfold ids 1 (Int.le_refl 1)

section
variable {θ ι : Type}

/-! ### Drawing and storing -/

/-- What `new_tid` returns now. -/
def Mem.nextTid (m : Mem θ ι) : ℤ := newTid (m.taskList.map fun u => (m.tcb u).taskid)

/-- The identifier that a point of `taskSpawn` has drawn and is going to store. -/
def drawn : Pc θ → Option ℤ
  | .spawnInit _ tid true | .spawnName _ tid => some tid
  | _ => none

theorem drawn_of_spawns {p : Pc θ} (h : spawns p = none) : drawn p = none := by
  cases p <;> first | rfl | cases h

/-- The control block that a point of `taskSpawn` is going to append. -/
def appends : Pc θ → Option θ
  | .spawnInit n _ true => some n
  | _ => none

/-- The identifier that a step draws for a task that will get it. -/
def draws (y : TaskTransition θ ι) : Option ℤ :=
  match y.pre.ctl y.thread, y.post.ctl y.thread with
  | .awake .idle, .awake (.spawnInit _ tid true) => some tid
  | _, _ => none

theorem draws_eq_none {y : TaskTransition θ ι}
    (h : y.pre.ctl y.thread ≠ .awake .idle ∨ drawn (y.post.ctl y.thread).point = none) : draws y = none := by
  unfold draws
  split
  · rename_i hp hp'
    obtain hne | hnone := h
    · exact absurd hp hne
    · rw [hp'] at hnone
      cases hnone
  · rfl

theorem draws_eq_some {y : TaskTransition θ ι} {n : θ} {tid : ℤ} (hp : y.pre.ctl y.thread = .awake .idle)
    (hp' : y.post.ctl y.thread = .awake (.spawnInit n tid true)) : draws y = some tid := by
  rw [draws, hp, hp']

/-- The sequential identifiers that have been in use. -/
def issued (tr : List (TaskTransition θ ι)) : Finset ℤ := (tr.filterMap draws).toFinset

/-- A step that draws an identifier finds it with no other `taskSpawn` that is going to
store it. -/
def DrawsAlone (y : TaskTransition θ ι) : Prop :=
  draws y ≠ none → ∀ u, drawn (y.pre.ctl u).point ≠ some y.pre.mem.nextTid

/-- A step that appends a control block finds no task with the identifier of its address. -/
def AppendsApart (address : θ → ℤ) (y : TaskTransition θ ι) : Prop :=
  ∀ n, appends (y.pre.ctl y.thread).point = some n → ∀ u ∈ y.pre.mem.taskList, (y.pre.mem.tcb u).taskid ≠ address n

theorem issued_cons_of_none {y : TaskTransition θ ι} {tr : List (TaskTransition θ ι)} (h : draws y = none) :
    issued (y :: tr) = issued tr := by
  rw [issued, List.filterMap_cons_none h, issued]

theorem issued_cons_of_some {y : TaskTransition θ ι} {tr : List (TaskTransition θ ι)} {tid : ℤ}
    (h : draws y = some tid) : issued (y :: tr) = insert tid (issued tr) := by
  rw [issued, List.filterMap_cons_some h, List.toFinset_cons, issued]

theorem issued_mono {y : TaskTransition θ ι} {tr : List (TaskTransition θ ι)} : issued tr ⊆ issued (y :: tr) := by
  cases h : draws y with
  | none => rw [issued_cons_of_none h]
  | some tid =>
    rw [issued_cons_of_some h]
    exact Finset.subset_insert ..

/-- A set of identifiers that has with each all the smaller ones. -/
def Sequential (s : Finset ℤ) : Prop := ∀ k ∈ s, 1 ≤ k ∧ ∀ j, 1 ≤ j → j ≤ k → j ∈ s

theorem Sequential.le_card {s : Finset ℤ} (h : Sequential s) {k : ℤ} (hk : k ∈ s) : k ≤ s.card := by
  obtain ⟨hpos, hbelow⟩ := h k hk
  have hsub : Finset.Icc 1 k ⊆ s := by
    intro j hj
    obtain ⟨h1, h2⟩ := Finset.mem_Icc.mp hj
    exact hbelow j h1 h2
  have hcard := Finset.card_le_card hsub
  rw [Int.card_Icc] at hcard
  omega

theorem Sequential.insert {s : Finset ℤ} (h : Sequential s) {k : ℤ} (hk : k = 1 ∨ k - 1 ∈ s) :
    Sequential (insert k s) := by
  have hpos : 1 ≤ k := by
    obtain rfl | hin := hk
    · exact Int.le_refl 1
    · have hle := (h _ hin).1
      omega
  intro i hi
  obtain rfl | hin := Finset.mem_insert.mp hi
  · refine ⟨hpos, fun j h1 hle => ?_⟩
    by_cases hj : j = i
    · exact hj ▸ Finset.mem_insert_self ..
    · refine Finset.mem_insert_of_mem ?_
      obtain rfl | hprev := hk
      · omega
      · exact (h _ hprev).2 j h1 (by omega)
  · exact ⟨(h i hin).1, fun j h1 hle => Finset.mem_insert_of_mem ((h i hin).2 j h1 hle)⟩

/-! ### What a step makes of the identifiers -/

variable {address : θ → ℤ} {w : θ} {s s' : TaskState θ ι} {used : Finset ℤ}

/-- The tasks on the list have the identifiers of their addresses or such as have been
issued; those that are drawn and not stored are nobody's. -/
structure Distinct (address : θ → ℤ) (used : Finset ℤ) (s : TaskState θ ι) : Prop where
  sequential : Sequential used
  named : ∀ u ∈ s.mem.taskList, (s.mem.tcb u).taskid = address u ∨ (s.mem.tcb u).taskid ∈ used
  drawn : ∀ t tid, drawn (s.ctl t).point = some tid → tid ∈ used
  alone : ∀ t u tid, TaskLib.drawn (s.ctl t).point = some tid → TaskLib.drawn (s.ctl u).point = some tid → t = u
  unstored : ∀ t tid, TaskLib.drawn (s.ctl t).point = some tid → ∀ u ∈ s.mem.taskList, (s.mem.tcb u).taskid ≠ tid
  distinct : ∀ t ∈ s.mem.taskList, ∀ u ∈ s.mem.taskList, (s.mem.tcb t).taskid = (s.mem.tcb u).taskid → t = u

/-- A step that leaves the identifiers alone and draws none. -/
theorem Distinct.keeps (h : Distinct address used s) (hlist : ∀ u ∈ s'.mem.taskList, u ∈ s.mem.taskList)
    (hids : ∀ u, (s'.mem.tcb u).taskid = (s.mem.tcb u).taskid)
    (hdrawn : ∀ t tid, TaskLib.drawn (s'.ctl t).point = some tid → TaskLib.drawn (s.ctl t).point = some tid) :
    Distinct address used s' where
  sequential := h.sequential
  named u hu := by
    rw [hids]
    exact h.named u (hlist u hu)
  drawn t tid ht := h.drawn t tid (hdrawn t tid ht)
  alone t u tid ht hu := h.alone t u tid (hdrawn t tid ht) (hdrawn u tid hu)
  unstored t tid ht u hu := by
    rw [hids]
    exact h.unstored t tid (hdrawn t tid ht) u (hlist u hu)
  distinct t ht u hu heq := by
    rw [hids, hids] at heq
    exact h.distinct t (hlist t ht) u (hlist u hu) heq

/-- `taskInit` appends a task under the identifier of its address, which nobody else has. -/
theorem Distinct.appends (h : Distinct address used s) {n : θ} (hlarge : address n < 1 ∨ 65536 ≤ address n)
    (hsmall : ∀ k ∈ used, k < 65536) (hapart : ∀ u ∈ s.mem.taskList, (s.mem.tcb u).taskid ≠ address n)
    (hlist : s'.mem.taskList = s.mem.taskList ++ [n]) (hn : (s'.mem.tcb n).taskid = address n)
    (hids : ∀ u, u ≠ n → (s'.mem.tcb u).taskid = (s.mem.tcb u).taskid)
    (hdrawn : ∀ t tid, TaskLib.drawn (s'.ctl t).point = some tid → TaskLib.drawn (s.ctl t).point = some tid) :
    Distinct address used s' := by
  have hcases : ∀ u ∈ s'.mem.taskList, u = n ∨ u ∈ s.mem.taskList ∧ u ≠ n := by
    intro u hu
    by_cases hun : u = n
    · exact .inl hun
    · rw [hlist] at hu
      obtain hin | heq := List.mem_append.mp hu
      · exact .inr ⟨hin, hun⟩
      · exact absurd (List.mem_singleton.mp heq) hun
  have hunused : address n ∉ used := by
    intro hin
    have hpos := (h.sequential _ hin).1
    have hlt := hsmall _ hin
    omega
  refine ⟨h.sequential, fun u hu => ?_, fun t tid ht => h.drawn t tid (hdrawn t tid ht),
    fun t u tid ht hu => h.alone t u tid (hdrawn t tid ht) (hdrawn u tid hu), fun t tid ht u hu => ?_,
    fun t ht u hu heq => ?_⟩
  · obtain rfl | ⟨hin, hne⟩ := hcases u hu
    · exact .inl hn
    · rw [hids u hne]
      exact h.named u hin
  · obtain rfl | ⟨hin, hne⟩ := hcases u hu
    · rw [hn]
      exact fun heq => hunused (heq ▸ h.drawn t tid (hdrawn t tid ht))
    · rw [hids u hne]
      exact h.unstored t tid (hdrawn t tid ht) u hin
  · obtain rfl | ⟨htin, htne⟩ := hcases t ht
    · obtain rfl | ⟨huin, hune⟩ := hcases u hu
      · rfl
      · rw [hn, hids u hune] at heq
        exact absurd heq.symm (hapart u huin)
    · obtain rfl | ⟨huin, hune⟩ := hcases u hu
      · rw [hn, hids t htne] at heq
        exact absurd heq (hapart t htin)
      · rw [hids t htne, hids u hune] at heq
        exact h.distinct t htin u huin heq

/-- `taskSpawn` stores what it has drawn. -/
theorem Distinct.stores (h : Distinct address used s) {n : θ} {tid : ℤ}
    (hw : TaskLib.drawn (s.ctl w).point = some tid) (hw' : TaskLib.drawn (s'.ctl w).point = none)
    (hlist : s'.mem.taskList = s.mem.taskList) (hn : (s'.mem.tcb n).taskid = tid)
    (hids : ∀ u, u ≠ n → (s'.mem.tcb u).taskid = (s.mem.tcb u).taskid)
    (hother : ∀ t, t ≠ w → s'.ctl t = s.ctl t) : Distinct address used s' := by
  have hdrawn : ∀ t k, TaskLib.drawn (s'.ctl t).point = some k → t ≠ w ∧ TaskLib.drawn (s.ctl t).point = some k := by
    intro t k ht
    by_cases htw : t = w
    · rw [htw, hw'] at ht
      cases ht
    · exact ⟨htw, by rwa [hother t htw] at ht⟩
  have hstored := h.unstored w tid hw
  refine ⟨h.sequential, fun u hu => ?_, fun t k ht => h.drawn t k (hdrawn t k ht).2,
    fun t u k ht hu => h.alone t u k (hdrawn t k ht).2 (hdrawn u k hu).2, fun t k ht u hu => ?_,
    fun t ht u hu heq => ?_⟩ <;> rw [hlist] at *
  · by_cases hun : u = n
    · rw [hun, hn]
      exact .inr (h.drawn w tid hw)
    · rw [hids u hun]
      exact h.named u hu
  · obtain ⟨htw, ht⟩ := hdrawn t k ht
    by_cases hun : u = n
    · rw [hun, hn]
      rintro rfl
      exact htw (h.alone t w tid ht hw)
    · rw [hids u hun]
      exact h.unstored t k ht u hu
  · by_cases htn : t = n
    · by_cases hun : u = n
      · rw [htn, hun]
      · rw [htn, hn, hids u hun] at heq
        exact absurd heq.symm (hstored u hu)
    · by_cases hun : u = n
      · rw [hun, hn, hids t htn] at heq
        exact absurd heq (hstored t ht)
      · rw [hids t htn, hids u hun] at heq
        exact h.distinct t ht u hu heq

/-- `new_tid` draws an identifier that no other `taskSpawn` has drawn. -/
theorem Distinct.draws (h : Distinct address used s) (hlarge : ∀ t, address t < 1 ∨ 65536 ≤ address t)
    (hsmall : ∀ k ∈ used, k < 65535) (hw : TaskLib.drawn (s'.ctl w).point = some s.mem.nextTid)
    (halone : ∀ u, TaskLib.drawn (s.ctl u).point ≠ some s.mem.nextTid)
    (hlist : s'.mem.taskList = s.mem.taskList) (htcb : s'.mem.tcb = s.mem.tcb)
    (hother : ∀ t, t ≠ w → s'.ctl t = s.ctl t) : Distinct address (insert s.mem.nextTid used) s' := by
  have hdrawn : ∀ t k, TaskLib.drawn (s'.ctl t).point = some k →
      t = w ∧ k = s.mem.nextTid ∨ TaskLib.drawn (s.ctl t).point = some k ∧ k ≠ s.mem.nextTid := by
    intro t k ht
    by_cases htw : t = w
    · rw [htw, hw] at ht
      exact .inl ⟨htw, (Option.some.inj ht).symm⟩
    · rw [hother t htw] at ht
      exact .inr ⟨ht, fun hk => halone t (hk ▸ ht)⟩
  have hrange := newTid_range (s.mem.taskList.map fun u => (s.mem.tcb u).taskid)
  have hnext : s.mem.nextTid = 1 ∨ s.mem.nextTid - 1 ∈ used := by
    obtain heq | ⟨hin, hpos⟩ := newTid_follows (s.mem.taskList.map fun u => (s.mem.tcb u).taskid)
    · exact .inl heq
    · obtain ⟨u, hu, heq⟩ := List.mem_map.mp hin
      obtain hid | hused := h.named u hu
      · have hu := hlarge u
        rw [← hid, heq] at hu
        omega
      · refine .inr ?_
        rwa [heq] at hused
  have hgreater : ∀ u ∈ s.mem.taskList, (s.mem.tcb u).taskid ≠ s.mem.nextTid := by
    intro u hu heq
    obtain hid | hin := h.named u hu
    · have hu := hlarge u
      rw [← hid, heq] at hu
      obtain hone | hprev := hnext
      · omega
      · have hlt := hsmall _ hprev
        rw [Mem.nextTid] at hu hlt
        omega
    · have hlt := hsmall _ hin
      have hgt := newTid_gt (List.mem_map_of_mem (f := fun u => (s.mem.tcb u).taskid) hu) (by omega)
      rw [Mem.nextTid] at heq
      omega
  refine ⟨h.sequential.insert hnext, fun u hu => ?_, fun t k ht => ?_, fun t u k ht hu => ?_, fun t k ht u hu => ?_,
    fun t ht u hu heq => ?_⟩ <;> (try rw [hlist] at *) <;> (try rw [htcb] at *)
  · exact (h.named u hu).imp id fun hin => Finset.mem_insert_of_mem hin
  · obtain ⟨_, rfl⟩ | ⟨ht, _⟩ := hdrawn t k ht
    · exact Finset.mem_insert_self ..
    · exact Finset.mem_insert_of_mem (h.drawn t k ht)
  · obtain ⟨rfl, hk⟩ | ⟨ht, hk⟩ := hdrawn t k ht
    · obtain ⟨rfl, _⟩ | ⟨_, hne⟩ := hdrawn u k hu
      · rfl
      · exact absurd hk hne
    · obtain ⟨_, heq⟩ | ⟨hu, _⟩ := hdrawn u k hu
      · exact absurd heq hk
      · exact h.alone t u k ht hu
  · obtain ⟨_, rfl⟩ | ⟨ht, _⟩ := hdrawn t k ht
    · exact hgreater u hu
    · exact h.unstored t k ht u hu
  · exact h.distinct t ht u hu heq

/-! ### Every reachable state -/

variable [DecidableEq θ] [DecidableEq ι] {p p' : Pc θ} {m m' : Mem θ ι} {tr : List (TaskTransition θ ι)}

/-- What a step does to the list and the identifiers: `taskInit` appends a task under the
identifier of its address, `taskSpawn` stores the one that it has drawn, and nothing else
gives a task an identifier. -/
theorem Runs.id_cases (hr : Runs address w p m m' p') :
    ((∀ u ∈ m'.taskList, u ∈ m.taskList) ∧ ∀ u, (m'.tcb u).taskid = (m.tcb u).taskid) ∨
      (∃ n tid, p = .spawnInit n tid true ∧ m'.taskList = m.taskList ++ [n] ∧ (m'.tcb n).taskid = address n ∧
        ∀ u, u ≠ n → (m'.tcb u).taskid = (m.tcb u).taskid) ∨
      ∃ n tid, p = .spawnName n tid ∧ p' = .spawnLock tid ∧ m'.taskList = m.taskList ∧ (m'.tcb n).taskid = tid ∧
        ∀ u, u ≠ n → (m'.tcb u).taskid = (m.tcb u).taskid := by
  have hset : ∀ {v : θ} {b : Tcb θ ι}, b.taskid = (m.tcb v).taskid →
      ∀ u, ((m.setTcb v b).tcb u).taskid = (m.tcb u).taskid := fun hb => Mem.setTcb_congr Tcb.taskid m hb
  cases hr with
  | registered n tid =>
    refine .inr (.inl ⟨n, tid, rfl, rfl, ?_, fun u hu => ?_⟩)
    · rw [Mem.setTcb_self]
    · rw [Mem.setTcb_of_ne _ _ hu]
      rfl
  | named n tid =>
    refine .inr (.inr ⟨n, tid, rfl, rfl, rfl, ?_, fun u hu => ?_⟩)
    · rw [Mem.setTcb_self]
    · rw [Mem.setTcb_of_ne m _ hu]
  | activated => exact .inl ⟨fun _ hu => hu, hset rfl⟩
  | noThread => exact .inl ⟨fun u hu => List.mem_of_mem_erase hu, fun u => by rw [Mem.taskDelete_tcb]⟩
  | linked => exact .inl ⟨fun _ hu => hu, hset rfl⟩
  | unlinked =>
    exact .inl ⟨fun u hu => by rwa [Mem.unlinkWaiting_taskList] at hu, fun u => by rw [Mem.unlinkWaiting_tcb]⟩
  | removed => exact .inl ⟨fun u hu => List.mem_of_mem_erase hu, fun u => by rw [Mem.taskDelete_tcb]⟩
  | selfRemoved => exact .inl ⟨fun u hu => List.mem_of_mem_erase hu, fun u => by rw [Mem.taskDelete_tcb]⟩
  | protects => exact .inl ⟨fun _ hu => hu, hset rfl⟩
  | unprotects => exact .inl ⟨fun _ hu => hu, hset rfl⟩
  | _ => exact .inl ⟨fun _ hu => hu, fun _ => rfl⟩

/-- What a thread has drawn after a step, it had drawn before, or it draws it now. -/
theorem Runs.drawn_cases (hr : Runs address w p m m' p') {tid : ℤ} (h : drawn p' = some tid) :
    drawn p = some tid ∧ p ≠ .idle ∨ p = .idle ∧ tid = m.nextTid ∧ (∃ n, p' = .spawnInit n tid true) ∧
      m'.taskList = m.taskList ∧ m'.tcb = m.tcb := by
  have hnone : spawns p' = none → drawn p = some tid ∧ p ≠ .idle ∨ p = .idle ∧ tid = m.nextTid ∧
      (∃ n, p' = .spawnInit n tid true) ∧ m'.taskList = m.taskList ∧ m'.tcb = m.tcb := by
    intro hs
    rw [drawn_of_spawns hs] at h
    cases h
  cases hr with
  | reads hg => exact hnone hg.spawns
  | locked hl => exact hnone hl.follows.spawns
  | unlocked hu => exact hnone hu.follows.spawns
  | cleaned hc => exact hnone hc.follows.spawns
  | killed hk => exact hnone hk.follows.spawns
  | @allocated _ n legal hfresh =>
    cases legal with
    | true =>
      cases h
      exact .inr ⟨rfl, rfl, ⟨n, rfl⟩, rfl, rfl⟩
    | false => cases h
  | registered n tid' => exact .inl ⟨h, nofun⟩
  | unlinked => exact hnone (by split <;> rfl)
  | _ => cases h

theorem distinct_step (hlarge : ∀ t, address t < 1 ∨ 65536 ≤ address t) (h : Distinct address (issued tr) s)
    (hs : Step (code address) w s s') (hfew : (issued (⟨s, w, s'⟩ :: tr)).card < 65535)
    (halone : DrawsAlone ⟨s, w, s'⟩) (happart : AppendsApart address ⟨s, w, s'⟩) :
    Distinct address (issued (⟨s, w, s'⟩ :: tr)) s' := by
  have hsmall : ∀ k ∈ issued tr, k < 65535 := by
    intro k hk
    have hle := h.sequential.le_card hk
    have hmono : (issued tr).card ≤ (issued (⟨s, w, s'⟩ :: tr)).card := Finset.card_le_card issued_mono
    omega
  have hothers : ∀ t, t ≠ w → s'.ctl t = s.ctl t := fun t ht => hs.ctl_other ht
  -- what the others have drawn stays, and so it does if the thread itself draws nothing
  have hdrawn : (∀ tid, drawn (s'.ctl w).point = some tid → drawn (s.ctl w).point = some tid) →
      ∀ t tid, drawn (s'.ctl t).point = some tid → drawn (s.ctl t).point = some tid := by
    intro hself t tid ht
    by_cases htw : t = w
    · rw [htw] at ht ⊢
      exact hself tid ht
    · rwa [hothers t htw] at ht
  obtain ⟨hm, hblock, hpoint⟩ | ⟨p, p', hp, hp', hr, _⟩ := step_cases hs
  · have hnone : draws ⟨s, w, s'⟩ = none := by
      refine draws_eq_none (.inl fun (hp : s.ctl w = .awake .idle) => hblock (userBlock w) ?_)
      rw [hp]
      rfl
    rw [issued_cons_of_none hnone]
    refine h.keeps (by rw [hm]; exact fun _ hu => hu) (by rw [hm]; exact fun _ => rfl) (hdrawn fun tid hd => ?_)
    obtain heq | hnext := hpoint
    · rwa [heq] at hd
    · rw [drawn_of_spawns (next_follows hnext).spawns] at hd
      cases hd
  · by_cases hdraw : p = .idle ∧ drawn p' ≠ none
    · obtain ⟨rfl, hsome⟩ := hdraw
      obtain ⟨tid, htid⟩ := Option.ne_none_iff_exists'.mp hsome
      obtain ⟨_, hne⟩ | ⟨_, rfl, ⟨n, hn⟩, hlist, htcb⟩ := hr.drawn_cases htid
      · exact absurd rfl hne
      · have hissue : draws ⟨s, w, s'⟩ = some s.mem.nextTid := draws_eq_some hp (hn ▸ hp')
        rw [issued_cons_of_some hissue]
        refine h.draws hlarge hsmall (by rw [hp']; exact htid) (halone ?_) hlist htcb hothers
        rw [hissue]
        exact Option.some_ne_none _
    · have hnone : draws ⟨s, w, s'⟩ = none := by
        refine draws_eq_none ?_
        by_cases hidle : p = .idle
        · refine .inr ?_
          show drawn (s'.ctl w).point = none
          rw [hp']
          exact not_not.mp fun hne => hdraw ⟨hidle, hne⟩
        · refine .inl fun (he : s.ctl w = .awake .idle) => hidle ?_
          rw [hp] at he
          exact Ctl.awake.inj he
      rw [issued_cons_of_none hnone]
      have hkept := hdrawn fun tid hd => by
        rw [hp', Ctl.point_awake] at hd
        rw [hp]
        obtain ⟨hold, _⟩ | ⟨hidle, _⟩ := hr.drawn_cases hd
        · exact hold
        · exact absurd ⟨hidle, by rw [hd]; exact Option.some_ne_none _⟩ hdraw
      obtain ⟨hlist, hids⟩ | ⟨n, tid, rfl, hlist, hn, hids⟩ | ⟨n, tid, rfl, rfl, hlist, hn, hids⟩ := hr.id_cases
      · exact h.keeps hlist hids hkept
      · refine h.appends (hlarge n) (fun k hk => ?_) (happart n ?_) hlist hn hids hkept
        · have hlt := hsmall k hk
          omega
        · show appends (s.ctl w).point = some n
          rw [hp]
          rfl
      · exact h.stores (by rw [hp]; rfl) (by rw [hp']; rfl) hlist hn hids hothers

/-- The tasks that are registered at the start have different identifiers. -/
structure Begins (address : θ → ℤ) (s : TaskState θ ι) : Prop extends Initial address s where
  apart : ∀ t ∈ s.mem.taskList, ∀ u ∈ s.mem.taskList, address t = address u → t = u

omit [DecidableEq ι] in
theorem Begins.distinct (hi : Begins address s) : Distinct address ∅ s := by
  have hnone : ∀ t tid, drawn (s.ctl t).point ≠ some tid := by
    intro t tid ht
    obtain hp | hp := hi.point t <;> rw [hp] at ht <;> cases ht
  refine ⟨fun k hk => absurd hk (Finset.notMem_empty k), fun u _ => .inl (by rw [hi.tcb]),
    fun t tid ht => absurd ht (hnone t tid), fun t _ tid ht => absurd ht (hnone t tid),
    fun t tid ht => absurd ht (hnone t tid), fun t ht u hu heq => ?_⟩
  rw [hi.tcb, hi.tcb] at heq
  exact hi.apart t ht u hu heq

theorem distinct (hlarge : ∀ t, address t < 1 ∨ 65536 ≤ address t) (hr : Run (code address) (Begins address) tr s)
    (hfew : (issued tr).card < 65535) (halone : ∀ y ∈ tr, DrawsAlone y) (happart : ∀ y ∈ tr, AppendsApart address y) :
    Distinct address (issued tr) s := by
  induction hr with
  | start hi => exact hi.distinct
  | @step tr s w s' hr hs ih =>
    have hmono : (issued tr).card ≤ (issued (⟨s, w, s'⟩ :: tr)).card := Finset.card_le_card issued_mono
    have hpre := ih (by omega) (fun y hy => halone y (List.mem_cons_of_mem _ hy))
      fun y hy => happart y (List.mem_cons_of_mem _ hy)
    exact distinct_step hlarge hpre hs hfew (halone _ (List.mem_cons_self ..)) (happart _ (List.mem_cons_self ..))

/-- With no address below 65536, fewer than 65535 identifiers in use, none drawn twice before
it is stored and none appended that a task has already, the tasks on the list have different
ones at every moment, and a call with the identifier of a task reaches that task. -/
theorem spawned_ids_distinct (hlarge : ∀ t, address t < 1 ∨ 65536 ≤ address t)
    (hr : Run (code address) (Begins address) tr s) (hfew : (issued tr).card < 65535)
    (halone : ∀ y ∈ tr, DrawsAlone y) (happart : ∀ y ∈ tr, AppendsApart address y) :
    (∀ t ∈ s.mem.taskList, ∀ u ∈ s.mem.taskList, (s.mem.tcb t).taskid = (s.mem.tcb u).taskid → t = u) ∧
      ∀ w, ∀ u ∈ s.mem.taskList, (s.mem.tcb u).taskid ≠ 0 → s.mem.taskFor w (s.mem.tcb u).taskid = some u := by
  have hdistinct := (distinct hlarge hr hfew halone happart).distinct
  refine ⟨hdistinct, fun w u hu hne => ?_⟩
  rw [Mem.taskFor, if_neg hne]
  cases hfind : s.mem.taskList.find? fun v => (s.mem.tcb v).taskid = (s.mem.tcb u).taskid with
  | none => exact absurd (List.find?_eq_none.mp hfind u hu) (by simp)
  | some v =>
    have hid : (s.mem.tcb v).taskid = (s.mem.tcb u).taskid := by simpa using List.find?_some hfind
    rw [hdistinct v (List.mem_of_find?_eq_some hfind) u hu hid]

end

/-- Four tasks, at the addresses 65536 to 65539. -/
def fourAddresses (t : Fin 4) : ℤ := 65536 + t.val

/-- Tasks 0 and 1 are registered. -/
theorem fourAddresses_begins : Begins fourAddresses (boot fourAddresses [0, 1] : TaskState (Fin 4) Unit) where
  toInitial := boot_initial fourAddresses (by decide)
  apart t _ u _ heq := by
    unfold fourAddresses at heq
    omega

/-- Tasks 0 and 1 spawn tasks 2 and 3; both draw before either of them stores. -/
def spawnTogether : List (Fin 4 × Input (Choice (Fin 4))) :=
  does 0 (.spawn 2 true) :: does 1 (.spawn 3 true) :: goesOn 0 2 ++ goesOn 1 2

/-- Both new tasks get the identifier 1. -/
theorem spawned_together_alike :
    ¬ ∀ (tr : List (TaskTransition (Fin 4) Unit)) (s : TaskState (Fin 4) Unit),
      Run (code fourAddresses) (Begins fourAddresses) tr s → (issued tr).card < 65535 →
      ∀ t ∈ s.mem.taskList, ∀ u ∈ s.mem.taskList, (s.mem.tcb t).taskid = (s.mem.tcb u).taskid → t = u := by
  intro hclaim
  obtain ⟨tr, s, hr, hs⟩ := run_of_check (code fourAddresses) spawnTogether
    (fun (tr : List (TaskTransition (Fin 4) Unit)) s =>
      (issued tr).card < 65535 ∧ 2 ∈ s.mem.taskList ∧ 3 ∈ s.mem.taskList ∧
        (s.mem.tcb 2).taskid = (s.mem.tcb 3).taskid)
    fourAddresses_begins (by decide)
  obtain ⟨hfew, h2, h3, heq⟩ := of_decide_eq_true hs
  exact absurd (hclaim tr s hr hfew 2 h2 3 h3 heq) (by decide)

/-- Task 1 spawns after task 0 has stored the identifier. -/
def spawnInTurn : List (Fin 4 × Input (Choice (Fin 4))) :=
  does 0 (.spawn 2 true) :: goesOn 0 2 ++ does 1 (.spawn 3 true) :: goesOn 1 2

instance (y : TaskTransition (Fin 4) Unit) : Decidable (DrawsAlone y) :=
  inferInstanceAs (Decidable (draws y ≠ none → ∀ u : Fin 4, drawn (y.pre.ctl u).point ≠ some y.pre.mem.nextTid))

instance (address : Fin 4 → ℤ) (y : TaskTransition (Fin 4) Unit) : Decidable (AppendsApart address y) :=
  inferInstanceAs (Decidable (∀ n : Fin 4, appends (y.pre.ctl y.thread).point = some n →
    ∀ u ∈ y.pre.mem.taskList, (y.pre.mem.tcb u).taskid ≠ address n))

theorem spawned_in_turn_differ : ∃ s : TaskState (Fin 4) Unit,
    2 ∈ s.mem.taskList ∧ 3 ∈ s.mem.taskList ∧ (s.mem.tcb 2).taskid ≠ (s.mem.tcb 3).taskid := by
  obtain ⟨tr, s, hr, hs⟩ := run_of_check (code fourAddresses) spawnInTurn
    (fun (tr : List (TaskTransition (Fin 4) Unit)) s =>
      (issued tr).card < 65535 ∧ (∀ y ∈ tr, DrawsAlone y) ∧ (∀ y ∈ tr, AppendsApart fourAddresses y) ∧
        2 ∈ s.mem.taskList ∧ 3 ∈ s.mem.taskList)
    fourAddresses_begins (by decide)
  obtain ⟨hfew, halone, happart, h2, h3⟩ := of_decide_eq_true hs
  have hlarge : ∀ t, fourAddresses t < 1 ∨ 65536 ≤ fourAddresses t := fun t => by
    unfold fourAddresses
    omega
  exact ⟨s, h2, h3, fun heq =>
    absurd ((spawned_ids_distinct hlarge hr hfew halone happart).1 2 h2 3 h3 heq) (by decide)⟩

end V2lin.TaskLib
