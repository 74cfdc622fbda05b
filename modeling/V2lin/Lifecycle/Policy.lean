import V2lin.Lifecycle.Removal
import V2lin.Lifecycle.Uses
import V2lin.Lists.Behind

/-! Round-robin scheduling is on for all tasks or for none.

`kernelTimeSlice` sets the flag by which `taskInit` makes new tasks and then walks along the
list to change the tasks that there are. It has the scheduler locked, so that no task is
taken off the list under it; but `taskInit` does not ask for that lock, and puts tasks on
the list, or cuts it off, while the walk is going on. That does no harm as long as it has
not read the flag before `kernelTimeSlice` sets it. -/
namespace V2lin.Lifecycle
open Threads V2lin.Task V2lin.TaskLib V2lin.Lists

section
variable {θ τ ι : Type}

/-- The policy that a walk of `kernelTimeSlice` stores. -/
def slicing : Pc τ ι → Option SchedPolicy
  | .sliceTask _ policy | .sliceApply _ policy => some policy
  | _ => none

/-- The policy that a `taskInit` has read off the flag, for the task that it is going to put on
the list. -/
def carries : Pc τ ι → Option SchedPolicy
  | .listLock (.init _ _ policy) _ | .listEdit (.init _ _ policy) _ => some policy
  | _ => none

/-- The first step of `kernelTimeSlice`. -/
def setsFlag : Pc τ ι → Bool
  | .sliceSet _ => true
  | _ => false

/-- The flag is changed by `kernelTimeSlice` only, whose walk changes the tasks as well, and
not while a `taskInit` has read it and has not put its task on the list. -/
def FlagSettled (x : LifeTransition θ τ ι) : Prop :=
  x.post.mem.policy ≠ x.pre.mem.policy →
    setsFlag (x.pre.ctl x.thread).point = true ∧ ∀ w, carries (x.pre.ctl w).point = none

instance {n : ℕ} (x : LifeTransition (Fin n) τ ι) : Decidable (FlagSettled x) :=
  inferInstanceAs (Decidable (x.post.mem.policy ≠ x.pre.mem.policy →
    setsFlag (x.pre.ctl x.thread).point = true ∧ ∀ w, carries (x.pre.ctl w).point = none))

/-- The tasks that the walk has not come to yet. -/
def awaits (l : List τ) : Pc τ ι → τ → Prop
  | .sliceTask (some v) _, u => u = v ∨ Behind l v u
  | .sliceApply v _, u => Behind l v u
  | _, _ => False

variable {p p' : Pc τ ι} {l : List τ} {u v : τ} {policy : SchedPolicy}

theorem awaits_slicing (h : awaits l p u) : ∃ policy, slicing p = some policy := by
  cases p
  case sliceTask task policy => exact ⟨policy, rfl⟩
  case sliceApply v policy => exact ⟨policy, rfl⟩
  all_goals exact h.elim

theorem slicing_holds (h : slicing p = some policy) : holds p = true := by
  cases p <;> first | rfl | cases h

theorem awaits_mono {l' : List τ} (hl : ∀ v, Behind l v u → Behind l' v u) (h : awaits l p u) : awaits l' p u := by
  cases p
  case sliceTask task policy =>
    cases task with
    | none => exact h.elim
    | some v => exact h.imp id (hl v)
  case sliceApply v policy => exact hl v h
  all_goals exact h.elim

section
variable [DecidableEq θ] [DecidableEq τ] [DecidableEq ι] {ids : τ → ℤ} {t w : θ} {m m' : Mem θ τ ι}

/-! ### What a step does -/

/-- What `task_list_lock` protects changes the list of the tasks and their policies in
`taskInit` and `task_delete` only. -/
theorem Edit.policy_cases {edit : Edit τ ι} (h : edit.run ids t m = some m') :
    m'.policy = m.policy ∧ (
      (m'.taskList = m.taskList ∧ ∀ u, (m'.tcb u).attr.schedPolicy = (m.tcb u).attr.schedPolicy) ∨
      (∃ v pri policy, edit = .init v pri policy ∧ (m'.tcb v).attr.schedPolicy = policy ∧
        (∀ u ≠ v, (m'.tcb u).attr.schedPolicy = (m.tcb u).attr.schedPolicy) ∧
        (m'.taskList = m.taskList.takeWhile (· ≠ v) ++ [v] ∨
          v ∉ m.taskList ∧ (m'.taskList = m.taskList ++ [v] ∨ m'.taskList = m.taskList))) ∨
      ∃ v, edit = .remove v ∧ m'.taskList = m.taskList.erase v ∧
        ∀ u, (m'.tcb u).attr.schedPolicy = (m.tcb u).attr.schedPolicy) := by
  cases edit with
  | init v pri policy =>
    have hnew : ((m.setTcb v (newTcb ids v pri policy)).tcb v).attr.schedPolicy = policy := by
      rw [Mem.setTcb_self]
      rfl
    have hother : ∀ u ≠ v,
        ((m.setTcb v (newTcb ids v pri policy)).tcb u).attr.schedPolicy = (m.tcb u).attr.schedPolicy :=
      fun u hu => by rw [Mem.setTcb_of_ne _ _ hu]
    simp only [Edit.run, Mem.append] at h
    split at h
    · cases h
      exact ⟨rfl, .inr (.inl ⟨v, pri, policy, rfl, hnew, hother, .inl rfl⟩)⟩
    · rename_i hv
      repeat' split at h
      all_goals cases h
      · exact ⟨rfl, .inr (.inl ⟨v, pri, policy, rfl, hnew, hother, .inr ⟨hv, .inl rfl⟩⟩)⟩
      · exact ⟨rfl, .inr (.inl ⟨v, pri, policy, rfl, hnew, hother, .inr ⟨hv, .inr rfl⟩⟩)⟩
  | raise task =>
    cases task with
    | none =>
      cases h
      exact ⟨rfl, .inl ⟨rfl, fun _ => rfl⟩⟩
    | some v =>
      cases h
      exact ⟨rfl, .inl ⟨rfl, Mem.setTcb_congr (·.attr.schedPolicy) m rfl⟩⟩
  | restore =>
    obtain ⟨task, _, heq⟩ := Option.map_eq_some_iff.mp h
    cases task with
    | none =>
      cases heq
      exact ⟨rfl, .inl ⟨rfl, fun _ => rfl⟩⟩
    | some v =>
      cases heq
      exact ⟨rfl, .inl ⟨rfl, Mem.setTcb_congr (·.attr.schedPolicy) m rfl⟩⟩
  | link v newEntry =>
    cases h
    exact ⟨rfl, .inl ⟨rfl, Mem.setTcb_congr (·.attr.schedPolicy) m rfl⟩⟩
  | unlink id entry =>
    cases h
    exact ⟨rfl, .inl ⟨rfl, fun _ => rfl⟩⟩
  | remove v =>
    simp only [Edit.run, Mem.takeOff] at h
    repeat' split at h
    all_goals cases h
    · exact ⟨rfl, .inl ⟨rfl, fun _ => rfl⟩⟩
    · exact ⟨rfl, .inr (.inr ⟨v, rfl, rfl, fun _ => rfl⟩)⟩
    · exact ⟨rfl, .inl ⟨rfl, fun _ => rfl⟩⟩

/-- Outside of these sections `kernelTimeSlice` alone changes the policies. -/
theorem Runs.policy_cases (hr : Runs ids t p m m' p') (hflag : ∀ op, p = .enter op → m'.policy = m.policy) :
    (m'.policy = m.policy ∧ m'.taskList = m.taskList ∧
      ∀ u, (m'.tcb u).attr.schedPolicy = (m.tcb u).attr.schedPolicy) ∨
    (∃ edit next, p = .listEdit edit next ∧ p' = .listUnlock next ∧ edit.run ids t m = some m') ∨
    (∃ ticks, p = .sliceSet ticks) ∨ ∃ v policy, p = .sliceTask (some v) policy := by
  cases hr with
  | edited edit next he => exact .inr (.inl ⟨edit, next, rfl, rfl, he⟩)
  | sliceSet ticks => exact .inr (.inr (.inl ⟨ticks, rfl⟩))
  | sliceAttr v policy => exact .inr (.inr (.inr ⟨v, policy, rfl⟩))
  | flagSet => exact .inl ⟨hflag _ rfl, rfl, fun _ => rfl⟩
  | created =>
    refine .inl ⟨rfl, rfl, fun u => ?_⟩
    exact (Mem.setTcb_congr (·.attr.schedPolicy) (m.setTcb _ _) (by rfl) u).trans
      (Mem.setTcb_congr (·.attr.schedPolicy) m (by rfl) u)
  | notCreated => exact .inl ⟨rfl, rfl, Mem.setTcb_congr (·.attr.schedPolicy) m rfl⟩
  | named => exact .inl ⟨rfl, rfl, Mem.setTcb_congr (·.attr.schedPolicy) m rfl⟩
  | prioStored => exact .inl ⟨rfl, rfl, Mem.setTcb_congr (·.attr.schedPolicy) m rfl⟩
  | prioAttr => exact .inl ⟨rfl, rfl, Mem.setTcb_congr (·.attr.schedPolicy) m rfl⟩
  | protects => exact .inl ⟨rfl, rfl, Mem.setTcb_congr (·.attr.schedPolicy) m rfl⟩
  | cancels hc he =>
    obtain ⟨_, _, rfl⟩ := Mem.cancel_eq he
    exact .inl ⟨rfl, rfl, fun _ => rfl⟩
  | joins hj he =>
    obtain ⟨_, _, ⟨_, rfl⟩ | ⟨_, rfl⟩⟩ := Mem.join_eq he
    · exact .inl ⟨rfl, rfl, fun _ => rfl⟩
    · exact .inl ⟨rfl, rfl, fun _ => rfl⟩
  | detaches he =>
    obtain ⟨_, _, rfl⟩ := Mem.detach_eq he
    exact .inl ⟨rfl, rfl, fun _ => rfl⟩
  | cleaned =>
    unfold Mem.cleanup
    split
    · exact .inl ⟨rfl, rfl, fun _ => rfl⟩
    · exact .inl ⟨rfl, rfl, fun _ => rfl⟩
  | _ => exact .inl ⟨rfl, rfl, fun _ => rfl⟩

/-- The first step of the walk. -/
theorem sliceSet_step {s s' : LifeState θ τ ι} (hs : Step (code ids) t s s') {ticks : ℤ}
    (hp : s.ctl t = .awake (.sliceSet ticks)) :
    s'.mem.taskList = s.mem.taskList ∧ s'.ctl t = .awake (.sliceTask s.mem.taskList.head? s'.mem.policy) := by
  obtain ⟨_, hblock, _⟩ | ⟨p, block, c, p', hq, hi, hb, hp', _⟩ := hs.sync_or_block
  · rw [hp] at hblock
    exact absurd rfl (hblock _)
  · rw [hp] at hq
    cases hq
    cases hi
    obtain ⟨hm, rfl⟩ := Prod.mk.inj (Option.some.inj hb)
    rw [← hm, hp']
    refine ⟨rfl, ?_⟩
    by_cases hticks : ticks = 0 <;> simp [Mem.policy, hticks]

/-- One task of the walk. -/
theorem sliceTask_step {s s' : LifeState θ τ ι} (hs : Step (code ids) t s s')
    (hp : s.ctl t = .awake (.sliceTask (some v) policy)) :
    s'.mem.policy = s.mem.policy ∧ s'.mem.taskList = s.mem.taskList ∧ s'.ctl t = .awake (.sliceApply v policy) ∧
      (s'.mem.tcb v).attr.schedPolicy = policy ∧
      ∀ u ≠ v, (s'.mem.tcb u).attr.schedPolicy = (s.mem.tcb u).attr.schedPolicy := by
  obtain ⟨_, hblock, _⟩ | ⟨p, block, c, p', hq, hi, hb, hp', _⟩ := hs.sync_or_block
  · rw [hp] at hblock
    exact absurd rfl (hblock _)
  · rw [hp] at hq
    cases hq
    cases hi
    obtain ⟨hm, rfl⟩ := Prod.mk.inj (Option.some.inj hb)
    rw [← hm]
    exact ⟨rfl, rfl, hp', by rw [Mem.setTcb_self], fun u hu => by rw [Mem.setTcb_of_ne _ _ hu]⟩

omit [DecidableEq ι] in
theorem Goes.slicing (hg : Goes t m p p') (h : Shape p) (hp' : slicing p' = some policy) : slicing p = some policy := by
  cases hg with
  | enters he => cases he <;> cases hp'
  | remove => unfold unlinkWaiting at hp'; split at hp' <;> cases hp'
  | pendUnlink => unfold unlinkWaiting at hp'; split at hp' <;> cases hp'
  | restartSome => unfold unlinkWaiting at hp'; split at hp' <;> cases hp'
  | killed hk => obtain rfl | rfl | ⟨u, rfl⟩ | ⟨u, killed, rfl, _⟩ := hk.cases h <;> cases hp'
  | foreign next => cases p' <;> first | exact h.elim | cases hp'
  | kept next => cases p' <;> first | exact h.elim | cases hp'
  | nobody u next => cases p' <;> first | exact h.elim | cases hp'
  | sliceApply policy => exact hp'
  | _ => cases hp'

/-- A walk is begun by `sliceSet` only, and keeps its policy. -/
theorem Runs.slicing (hr : Runs ids t p m m' p') (h : Shape p) (hp' : slicing p' = some policy) :
    (∃ ticks, p = .sliceSet ticks) ∨ Lifecycle.slicing p = some policy := by
  cases hr with
  | reads hg => exact .inr (hg.slicing h hp')
  | sliceSet ticks => exact .inl ⟨ticks, rfl⟩
  | sliceAttr => exact .inr hp'
  | counted next =>
    split at hp'
    · cases hp'
    · cases next <;> first | exact h.elim | cases hp'
  | cleared => cases p' <;> first | exact h.elim | cases hp'
  | freed => cases p' <;> first | exact h.elim | cases hp'
  | created hc => cases hc <;> cases hp'
  | notCreated hc => cases hc <;> cases hp'
  | cancels hc => cases hc <;> cases hp'
  | joins hj => cases hj <;> cases hp'
  | protects count hc => cases hc <;> cases hp'
  | cleaned hc => cases hc <;> cases hp'
  | _ => cases hp'

theorem next_slicing (h : (code (ι := ι) ids t p).Next p') (hp : Shape p) : slicing p' = none := by
  cases p <;> simp only [code, Instr.Next] at h
  case pendWait self v =>
    obtain ⟨_, rfl⟩ := h
    rfl
  case notifyWait v next =>
    obtain ⟨_, rfl⟩ := h
    rfl
  all_goals subst h
  case deleteTunlock tid self v deletable => split <;> [rfl; (split <;> rfl)]
  case listUnlock =>
    obtain ⟨edit, hnext⟩ := hp
    cases p' <;> first | rfl | cases edit <;> exact hnext.elim
  case notifyDunlock v => cases p' <;> first | rfl | exact hp.elim
  case notifyKilled v => obtain rfl | rfl := hp <;> rfl
  all_goals rfl

/-- `taskInit` reads the flag when it has locked the list. -/
theorem Runs.carries (hr : Runs ids t p m m' p') (h : Shape p) (hp' : carries p' = some policy) :
    policy = m.policy ∧ m' = m := by
  cases hr with
  | reads hg =>
    cases hg with
    | initFlag => exact ⟨(Option.some.inj hp').symm, rfl⟩
    | enters he => cases he <;> cases hp'
    | remove => unfold unlinkWaiting at hp'; split at hp' <;> cases hp'
    | pendUnlink => unfold unlinkWaiting at hp'; split at hp' <;> cases hp'
    | restartSome => unfold unlinkWaiting at hp'; split at hp' <;> cases hp'
    | killed hk => obtain rfl | rfl | ⟨u, rfl⟩ | ⟨u, killed, rfl, _⟩ := hk.cases h <;> cases hp'
    | foreign next => cases p' <;> first | exact h.elim | cases hp'
    | kept next => cases p' <;> first | exact h.elim | cases hp'
    | nobody u next => cases p' <;> first | exact h.elim | cases hp'
    | _ => cases hp'
  | counted next =>
    split at hp'
    · cases hp'
    · cases next <;> first | exact h.elim | cases hp'
  | cleared => cases p' <;> first | exact h.elim | cases hp'
  | freed => cases p' <;> first | exact h.elim | cases hp'
  | created hc => cases hc <;> cases hp'
  | notCreated hc => cases hc <;> cases hp'
  | cancels hc => cases hc <;> cases hp'
  | joins hj => cases hj <;> cases hp'
  | protects count hc => cases hc <;> cases hp'
  | cleaned hc => cases hc <;> cases hp'
  | _ => cases hp'

theorem next_carries (h : (code (ι := ι) ids t p).Next p') (hp : Shape p) (hp' : carries p' = some policy) :
    carries p = some policy := by
  cases p <;> simp only [code, Instr.Next] at h
  case pendWait self v =>
    obtain ⟨_, rfl⟩ := h
    cases hp'
  case notifyWait v next =>
    obtain ⟨_, rfl⟩ := h
    cases hp'
  all_goals subst h
  case deleteTunlock tid self v deletable => revert hp'; split <;> [rintro ⟨⟩; (split <;> rintro ⟨⟩)]
  case listLock edit next => cases edit <;> exact hp'
  case listUnlock =>
    obtain ⟨edit, hnext⟩ := hp
    cases p'
    case listLock edit' next => cases edit <;> cases edit' <;> first | exact hnext.elim | cases hp'
    case listEdit edit' next => cases edit <;> exact hnext.elim
    all_goals cases hp'
  case notifyDunlock v => cases p' <;> first | exact hp.elim | cases hp'
  case notifyKilled v => obtain rfl | rfl := hp <;> cases hp'
  all_goals cases hp'

omit [DecidableEq θ] [DecidableEq ι] in
/-- From a task to the next one the walk has the same tasks before it. -/
theorem awaits_nxtTask (hn : m.taskList.Nodup) (h : Behind m.taskList v u) :
    awaits m.taskList (.sliceTask (m.nxtTask v) policy : Pc τ ι) u := by
  obtain ⟨hlast, c, hc, hu⟩ := h.next hn
  have hnext : m.nxtTask v = some c := by
    rw [Mem.nxtTask, if_neg fun h => hlast h.2, hc]
  rw [hnext]
  exact hu

/-- A step of the walk leaves before it the tasks that were, but for the one it changes. -/
theorem Runs.awaits (hr : Runs ids t p m m' p') (hn : m.taskList.Nodup) (h : awaits m.taskList p u) :
    Lifecycle.awaits m.taskList p' u ∨ ∃ policy, p = .sliceTask (some u) policy := by
  cases hr with
  | reads hg =>
    cases hg with
    | sliceApply policy => exact .inl (awaits_nxtTask hn h)
    | killed hk => cases hk <;> exact h.elim
    | _ => exact h.elim
  | sliceAttr v policy =>
    obtain rfl | h := h
    · exact .inr ⟨policy, rfl⟩
    · exact .inl h
  | created hc => cases hc <;> exact h.elim
  | notCreated hc => cases hc <;> exact h.elim
  | cancels hc => cases hc <;> exact h.elim
  | joins hj => cases hj <;> exact h.elim
  | protects count hc => cases hc <;> exact h.elim
  | cleaned hc => cases hc <;> exact h.elim
  | _ => exact h.elim

/-! ### Every run -/

variable {s s' : LifeState θ τ ι}

/-- Every task on the list has the policy of the flag, or a walk is still to come to it. -/
structure Policies (s : LifeState θ τ ι) : Prop where
  nodup : s.mem.taskList.Nodup
  current : ∀ w policy, slicing (s.ctl w).point = some policy → policy = s.mem.policy
  carried : ∀ w policy, carries (s.ctl w).point = some policy → policy = s.mem.policy
  uniform : ∀ u ∈ s.mem.taskList, (s.mem.tcb u).attr.schedPolicy = s.mem.policy ∨
    ∃ w, awaits s.mem.taskList (s.ctl w).point u

theorem Edit.list_nodup {edit : Edit τ ι} (h : edit.run ids t m = some m') (hn : m.taskList.Nodup) :
    m'.taskList.Nodup := by
  obtain ⟨_, ⟨hl, _⟩ | ⟨v, _, _, _, _, _, hl | ⟨hv, hl | hl⟩⟩ | ⟨v, _, hl, _⟩⟩ := Edit.policy_cases h
  · rwa [hl]
  · rw [hl]
    refine List.nodup_append.mpr ⟨hn.sublist (List.takeWhile_sublist _), List.nodup_singleton v, fun a ha b hb => ?_⟩
    rw [List.mem_singleton.mp hb]
    simpa using List.mem_takeWhile_imp ha
  · rw [hl]
    refine List.nodup_append.mpr ⟨hn, List.nodup_singleton v, fun a ha b hb => ?_⟩
    rw [List.mem_singleton.mp hb]
    exact fun he => hv (he ▸ ha)
  · rwa [hl]
  · rw [hl]
    exact hn.erase v

/-- A section under `task_list_lock` leaves the walk before it what stays on the list. -/
theorem Policies.edited (h : Policies s) (hk : Kept s) {edit : Edit τ ι} {next : Pc τ ι}
    (hp : s.ctl t = .awake (.listEdit edit next)) (hp' : s'.ctl t = .awake (.listUnlock next))
    (hother : ∀ w ≠ t, s'.ctl w = s.ctl w) (he : edit.run ids t s.mem = some s'.mem) : Policies s' := by
  obtain ⟨hflag, hcases⟩ := Edit.policy_cases he
  have hkeeps : ∀ w, (s.ctl w).point ≠ .listEdit edit next → (s'.ctl w).point = (s.ctl w).point := by
    intro w hw
    by_cases hwt : w = t
    · rw [hwt, hp] at hw
      exact absurd rfl hw
    · rw [hother w hwt]
  have hwalks : ∀ w u l, awaits l (s.ctl w).point u → (s'.ctl w).point = (s.ctl w).point := by
    intro w u l hw
    refine hkeeps w fun he => ?_
    rw [he] at hw
    exact hw
  refine ⟨Edit.list_nodup he h.nodup, fun w policy hw => ?_, fun w policy hw => ?_, fun u hu => ?_⟩
  · rw [hflag]
    by_cases hwt : w = t
    · rw [hwt, hp'] at hw
      cases hw
    · rw [hother w hwt] at hw
      exact h.current w policy hw
  · rw [hflag]
    by_cases hwt : w = t
    · rw [hwt, hp'] at hw
      cases hw
    · rw [hother w hwt] at hw
      exact h.carried w policy hw
  · rw [hflag]
    have hstays : ∀ w, awaits s.mem.taskList (s.ctl w).point u →
        (∀ v, Behind s.mem.taskList v u → Behind s'.mem.taskList v u) →
        ∃ w, awaits s'.mem.taskList (s'.ctl w).point u := by
      intro w hw hl
      refine ⟨w, ?_⟩
      rw [hwalks w u _ hw]
      exact awaits_mono hl hw
    obtain ⟨hl, hsame⟩ | ⟨v, pri, policy, rfl, hnew, hsame, hl⟩ | ⟨v, rfl, hl, hsame⟩ := hcases
    · rw [hsame u, hl]
      rw [hl] at hu
      exact (h.uniform u hu).imp id fun ⟨w, hw⟩ => ⟨w, by rwa [hwalks w u _ hw]⟩
    · by_cases huv : u = v
      · rw [huv, hnew]
        exact .inl (h.carried t policy (by rw [hp]; rfl))
      rw [hsame u huv]
      have hmem : u ∈ s.mem.taskList ∧ ∀ v, Behind s.mem.taskList v u → Behind s'.mem.taskList v u := by
        obtain hl | ⟨_, hl | hl⟩ := hl
        · rw [hl] at hu ⊢
          have hfront := (List.mem_append.mp hu).resolve_right fun he => huv (List.mem_singleton.mp he)
          exact ⟨(List.takeWhile_sublist _).subset hfront, fun _ hb => hb.takeWhile h.nodup hfront _⟩
        · rw [hl] at hu ⊢
          have hfront := (List.mem_append.mp hu).resolve_right fun he => huv (List.mem_singleton.mp he)
          exact ⟨hfront, fun _ hb => hb.append _⟩
        · rw [hl] at hu ⊢
          exact ⟨hu, fun _ hb => hb⟩
      exact (h.uniform u hmem.1).imp id fun ⟨w, hw⟩ => hstays w hw hmem.2
    · -- nobody walks while a task is taken off the list
      rw [hsame u]
      rw [hl] at hu
      refine (h.uniform u (List.mem_of_mem_erase hu)).imp id fun ⟨w, hw⟩ => ?_
      obtain ⟨policy, hslice⟩ := awaits_slicing hw
      obtain rfl : t = w := hk.alone (slicing_holds hslice) (by rw [hp]; rfl)
      rw [hp] at hw
      exact hw.elim

omit [DecidableEq θ] [DecidableEq τ] [DecidableEq ι] in
/-- A step that leaves the list and the flag alone. -/
theorem Policies.moved (h : Policies s) (hl : s'.mem.taskList = s.mem.taskList) (hflag : s'.mem.policy = s.mem.policy)
    (hpoint : ∀ w policy, slicing (s'.ctl w).point = some policy → slicing (s.ctl w).point = some policy)
    (hcarried : ∀ w policy, carries (s'.ctl w).point = some policy → policy = s.mem.policy)
    (huniform : ∀ u ∈ s.mem.taskList, (s.mem.tcb u).attr.schedPolicy = s.mem.policy →
      (s'.mem.tcb u).attr.schedPolicy = s.mem.policy)
    (hstays : ∀ u w, awaits s.mem.taskList (s.ctl w).point u → (s'.mem.tcb u).attr.schedPolicy = s.mem.policy ∨
      ∃ w, awaits s.mem.taskList (s'.ctl w).point u) : Policies s' := by
  refine ⟨by rw [hl]; exact h.nodup, fun w policy hw => ?_, fun w policy hw => ?_, fun u hu => ?_⟩
  · rw [hflag]
    exact h.current w policy (hpoint w policy hw)
  · rw [hflag]
    exact hcarried w policy hw
  · rw [hl, hflag] at *
    obtain hold | ⟨w, hw⟩ := h.uniform u hu
    · exact .inl (huniform u hu hold)
    · exact hstays u w hw

theorem policies_step (h : Policies s) (hk : Kept s) (hs : Step (code ids) t s s') (hf : FlagSettled ⟨s, t, s'⟩) :
    Policies s' := by
  have hshape := hk.held.shape t
  have hother : ∀ w ≠ t, s'.ctl w = s.ctl w := fun w hw => hs.ctl_other hw
  obtain ⟨hm, hblock, hpoint⟩ | ⟨p, p', hp, hp', hr, _⟩ := step_cases hs
  · refine h.moved (by rw [hm]) (by rw [hm]) (fun w policy hw => ?_) (fun w policy hw => h.carried w policy ?_)
      (fun u _ hu => by rwa [hm]) fun u w hw => ?_
    · by_cases hwt : w = t
      · subst hwt
        obtain heq | hnext := hpoint
        · exact heq ▸ hw
        · rw [next_slicing hnext hshape] at hw
          cases hw
      · exact hother w hwt ▸ hw
    · by_cases hwt : w = t
      · subst hwt
        obtain heq | hnext := hpoint
        · exact heq ▸ hw
        · exact next_carries hnext hshape hw
      · exact hother w hwt ▸ hw
    · refine .inr ⟨w, ?_⟩
      by_cases hwt : w = t
      · subst hwt
        cases hq : (s.ctl w).point
        case sliceTask task policy => exact absurd (by rw [hq]; rfl) (hblock _)
        case sliceApply v policy => exact absurd (by rw [hq]; rfl) (hblock _)
        all_goals
          rw [hq] at hw
          exact hw.elim
      · rwa [hother w hwt]
  · rw [hp] at hshape
    by_cases hset : ∃ ticks, p = .sliceSet ticks
    · -- nobody else is walking, and the whole list is before the new walk
      obtain ⟨ticks, rfl⟩ := hset
      obtain ⟨hl, hp'⟩ := sliceSet_step hs hp
      refine ⟨by rw [hl]; exact h.nodup, fun w policy hw => ?_, fun w policy hw => ?_, fun u hu => .inr ⟨t, ?_⟩⟩
      · by_cases hwt : w = t
        · rw [hwt, hp'] at hw
          exact (Option.some.inj hw).symm
        · rw [hother w hwt] at hw
          exact absurd (hk.held.unique (slicing_holds hw) (by rw [hp]; rfl)) hwt
      · by_cases hwt : w = t
        · rw [hwt, hp'] at hw
          cases hw
        · rw [hother w hwt] at hw
          by_cases hsame : s'.mem.policy = s.mem.policy
          · rw [hsame]
            exact h.carried w policy hw
          · rw [(hf hsame).2 w] at hw
            cases hw
      · rw [hl] at hu ⊢
        obtain ⟨v, hv, hu⟩ := mem_head_or_behind hu
        rw [hp', hv]
        exact hu
    have hslicing : ∀ w policy, slicing (s'.ctl w).point = some policy → slicing (s.ctl w).point = some policy := by
      intro w policy hw
      by_cases hwt : w = t
      · rw [hwt, hp'] at hw
        rw [hwt, hp]
        exact (hr.slicing hshape hw).resolve_left hset
      · exact hother w hwt ▸ hw
    have hcarried : ∀ w policy, carries (s'.ctl w).point = some policy → policy = s.mem.policy := by
      intro w policy hw
      by_cases hwt : w = t
      · rw [hwt, hp'] at hw
        exact (hr.carries hshape hw).1
      · exact h.carried w policy (hother w hwt ▸ hw)
    have hstays : ∀ u w, awaits s.mem.taskList (s.ctl w).point u →
        (∃ w, awaits s.mem.taskList (s'.ctl w).point u) ∨ ∃ policy, p = .sliceTask (some u) policy := by
      intro u w hw
      by_cases hwt : w = t
      · rw [hwt, hp] at hw
        exact (hr.awaits h.nodup hw).imp (fun hw => ⟨t, by rwa [hp']⟩) id
      · exact .inl ⟨w, by rwa [hother w hwt]⟩
    by_cases htask : ∃ v policy, p = .sliceTask (some v) policy
    · obtain ⟨v, policy, rfl⟩ := htask
      obtain ⟨hflag, hl, _, hv, hsame⟩ := sliceTask_step hs hp
      have hpolicy := h.current t policy (by rw [hp]; rfl)
      refine h.moved hl hflag hslicing hcarried (fun u _ hu => ?_) fun u w hw => ?_
      · by_cases huv : u = v
        · rw [huv, hv, hpolicy]
        · rwa [hsame u huv]
      · obtain hw | ⟨_, he⟩ := hstays u w hw
        · exact .inr hw
        · cases he
          exact .inl (hv.trans hpolicy)
    · have henter : ∀ op, p = .enter op → s'.mem.policy = s.mem.policy := by
        rintro op rfl
        by_contra hne
        have hsets : setsFlag (s.ctl t).point = true := (hf hne).1
        rw [hp] at hsets
        cases hsets
      obtain ⟨hflag, hl, hsame⟩ | ⟨edit, next, rfl, rfl, he⟩ | hset' | htask' := hr.policy_cases henter
      · refine h.moved hl hflag hslicing hcarried (fun u _ hu => by rwa [hsame u]) fun u w hw => ?_
        exact .inr ((hstays u w hw).resolve_right fun ⟨policy, he⟩ => htask ⟨u, policy, he⟩)
      · exact h.edited hk hp hp' hother he
      · exact absurd hset' hset
      · exact absurd htask' htask

/-- At the start all tasks have the policy of the flag. -/
structure Uniform (s : LifeState θ τ ι) : Prop where
  initial : Initial s
  nodup : s.mem.taskList.Nodup
  policy : ∀ u ∈ s.mem.taskList, (s.mem.tcb u).attr.schedPolicy = s.mem.policy

omit [DecidableEq θ] [DecidableEq τ] [DecidableEq ι] in
theorem Initial.kept (h : Initial s) : Kept s := by
  refine ⟨h.held, fun w hw => ?_⟩
  obtain hp | hp := h.point w <;> rw [hp] at hw <;> cases hw

end

end

/-! ### A task that is made behind the walk -/

theorem boot_uniform (n k l : ℕ) [NeZero n] [NeZero k] : Uniform (boot n k l) := by
  refine ⟨boot_initial n k l, List.nodup_singleton _, fun u hu => ?_⟩
  rfl

/-- Task 1 turns round-robin scheduling on; the root task makes task 2 when the walk has
passed the end of the list. -/
def slicesAndMakes : List (Fin 2 × Input (Choice (Fin 2) (Fin 3))) :=
  does 0 (.call (.taskInit (some 1) 100 0)) :: goesOn 0 5 ++
    does 0 (.call (.taskActivate 2)) :: goesOn 0 8 ++ does 0 (.thread 1) :: goesOn 0 5 ++
    does 1 .none :: does 1 (.call (.kernelTimeSlice 5)) :: goesOn 1 12 ++
    does 0 (.call (.taskInit (some 2) 100 0)) :: goesOn 0 5 ++ goesOn 1 6

end V2lin.Lifecycle
