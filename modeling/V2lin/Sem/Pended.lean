import V2lin.Sem.Fields
import V2lin.Task.Waiting

/-! Who is on a semaphore's list of pended tasks, and in which order.

For registered tasks the list is the set of the tasks inside the wait loops, each
once, in the order in which they came; a token goes to its head. -/
namespace V2lin.Sem
open Threads V2lin.Task

section
variable {θ ι : Type} [DecidableEq θ] [DecidableEq ι]
variable {myTask : θ → Option θ} {prio : θ → Int} {t : θ} {p p' : Pc ι}
variable {s s' : SemState θ ι} {tr : List (SemTransition θ ι)}

/-! ### The blocks in use -/

/-- The library refers to made blocks only. -/
structure Made (s : SemState θ ι) : Prop where
  listed : ∀ id ∈ s.mem.semList, s.mem.block id ≠ .fresh
  touched : ∀ t id, touches (s.ctl t).point = some id → s.mem.block id ≠ .fresh

omit [DecidableEq θ] [DecidableEq ι] in
theorem initial_made (s : SemState θ ι) (h : Initial s) : Made s where
  listed := by
    rw [h.semList]
    exact nofun
  touched t id ht := by
    rw [h.idle t] at ht
    cases ht

theorem block_step (hs : Step (code myTask prio) t s s') {id : ι} (hb : s.mem.block id ≠ .fresh) :
    s'.mem.block id ≠ .fresh := by
  obtain ⟨hm, _⟩ | ⟨_, _, _, _, hr, _⟩ := step_cases hs
  · rwa [hm]
  · exact hr.block_ne_fresh hb

theorem made_step (h : Made s) (hs : Step (code myTask prio) t s s') : Made s' := by
  refine ⟨?_, ?_⟩
  · intro id hid
    obtain ⟨hm, _⟩ | ⟨p, p', hp, _, hr, _⟩ := step_cases hs
    · rw [hm] at hid ⊢
      exact h.listed id hid
    · obtain hid | ht := hr.listed_cases hid
      · exact hr.block_ne_fresh (h.listed id hid)
      · refine hr.block_ne_fresh (h.touched t id ?_)
        rwa [hp]
  · intro u id ht
    by_cases hu : u = t
    · subst hu
      obtain ⟨_, _, heq | hnext⟩ | ⟨p, p', hp, hp', hr, _⟩ := step_cases hs
      · rw [heq] at ht
        exact block_step hs (h.touched u id ht)
      · exact block_step hs (h.touched u id (next_touched hnext ht))
      · rw [hp', Ctl.point_awake] at ht
        obtain ht | hid | hb := hr.touches_cases ht
        · exact hr.block_ne_fresh (h.touched u id (by rwa [hp]))
        · exact hr.block_ne_fresh (h.listed id hid)
        · exact hb
    · rw [hs.ctl_other hu] at ht
      exact block_step hs (h.touched u id ht)

theorem made (h : Run (code myTask prio) Initial tr s) : Made s :=
  h.invariant (fun _ => True) Made initial_made (fun _ _ _ hm hs _ => made_step hm hs) fun _ _ => trivial

/-! ### The list -/

/-- Task `t` is in the wait loops of a semaphore. -/
def waits (id : ι) (s : SemState θ ι) (t : θ) : Bool := pendsOn (s.ctl t).point = some id

/-- The library refers to made blocks only, and a semaphore's list is the tasks in its
wait loops, each once. -/
structure Linked (s : SemState θ ι) : Prop where
  listed : ∀ id ∈ s.mem.semList, s.mem.block id ≠ .fresh
  touched : ∀ t id, touches (s.ctl t).point = some id → s.mem.block id ≠ .fresh
  lists : ∀ id, Lists (s.mem.sem id).firstSusp (waits id s)

omit [DecidableEq θ] in
theorem Linked.made (h : Linked s) : Made s := ⟨h.listed, h.touched⟩

omit [DecidableEq θ] in
theorem initial_linked (s : SemState θ ι) (h : Initial s) : Linked s where
  listed := (initial_made s h).listed
  touched := (initial_made s h).touched
  lists id := by
    refine ⟨fun t => ?_, ?_⟩
    · simp only [waits, h.idle t]
      rw [h.blank id]
      simp [newSem, pendsOn]
    · rw [h.blank id]
      exact List.nodup_nil

omit [DecidableEq θ] in
/-- Nobody waits on a semaphore not made yet. -/
theorem Linked.fresh (h : Linked s) {id : ι} (hf : s.mem.block id = .fresh) : (s.mem.sem id).firstSusp = [] := by
  rw [List.eq_nil_iff_forall_not_mem]
  intro t ht
  have hw : pendsOn (s.ctl t).point = some id := of_decide_eq_true ((h.lists id).mem t |>.mp ht)
  exact h.touched t id (touched_of_pended hw) hf

/-- Every step treats a semaphore's list as the tasks' places ask for. -/
theorem list_step (h : Linked s) (hs : Step (code some prio) t s s') (id : ι) :
    ListStep (fun s => (s.mem.sem id).firstSusp) (waits id) ⟨s, t, s'⟩ := by
  obtain ⟨hm, _, hp⟩ | ⟨p, p', hp, hp', hr, _⟩ := step_cases hs
  · refine .same (by rw [hm]) ?_
    obtain heq | hnext := hp
    · simp only [waits, heq]
    · simp only [waits, next_pended hnext]
  · have hpoint : (s.ctl t).point = p := by rw [hp, Ctl.point_awake]
    have hpoint' : (s'.ctl t).point = p' := by rw [hp', Ctl.point_awake]
    obtain ⟨hl, hiff⟩ | ⟨hout, hin, hl⟩ | ⟨hin, hout, hl⟩ | ⟨hf, hout, hout', hl⟩ := hr.susp_cases id
    · refine .same hl ?_
      simp only [waits, hpoint, hpoint']
      rw [decide_eq_decide]
      exact hiff
    · refine .joined ?_ ?_ hl
      · simp [waits, hpoint, hout]
      · simp [waits, hpoint', hin]
    · refine .left ?_ ?_ hl
      · simp [waits, hpoint, hin]
      · simp [waits, hpoint', hout]
    · refine .same (hl.trans (h.fresh hf).symm) ?_
      simp only [waits, hpoint, hpoint', hout, hout']

theorem waits_other {id : ι} {u : θ} (hs : Step (code some prio) t s s') (hu : u ≠ t) :
    waits id s' u = waits id s u := by
  simp only [waits, hs.ctl_other hu]

theorem linked_step (h : Linked s) (hs : Step (code some prio) t s s') : Linked s' where
  listed := (made_step h.made hs).listed
  touched := (made_step h.made hs).touched
  lists id := (list_step h hs id).lists (fun _ hu => waits_other hs hu) (h.lists id)

theorem linked (h : Run (code some prio) Initial tr s) : Linked s :=
  h.invariant (fun _ => True) Linked initial_linked (fun _ _ _ hl hs _ => linked_step hl hs) fun _ _ => trivial

/-- What creators establish of a block, and blocks that satisfy `ok` keep, holds of
every semaphore made. -/
theorem made_invariant (P : V2lsem θ → Prop) (ok : SemTransition θ ι → Prop)
    (h : Run (code some prio) Initial tr s) (hok : ∀ x ∈ tr, ok x)
    (hnew : ∀ args v, Create.block θ args = some v → P v)
    (hkeep : ∀ s t s' p p' id, Linked s → ok ⟨s, t, s'⟩ → s.ctl t = .awake p → s'.ctl t = .awake p' →
      Runs some prio t p s.mem s'.mem p' → s.mem.block id ≠ .fresh → P (s.mem.sem id) → P (s'.mem.sem id))
    {id : ι} (hb : s.mem.block id ≠ .fresh) : P (s.mem.sem id) := by
  have hinv := h.invariant ok (fun s => Linked s ∧ ∀ id, s.mem.block id ≠ .fresh → P (s.mem.sem id))
    (fun s hi => ⟨initial_linked s hi, fun id hb => absurd (hi.fresh id) hb⟩) ?_ hok
  · exact hinv.2 id hb
  · rintro t s s' ⟨hl, hP⟩ hs hx
    refine ⟨linked_step hl hs, fun id hb => ?_⟩
    obtain ⟨hm, _⟩ | ⟨p, p', hp, hp', hr, _⟩ := step_cases hs
    · rw [hm] at hb ⊢
      exact hP id hb
    · by_cases hf : s.mem.block id = .fresh
      · have hpoint : (s.ctl t).point = p := by rw [hp, Ctl.point_awake]
        obtain ⟨args, v, hv, hsem, _⟩ := hr.born hf hb fun ht => hl.touched t id (hpoint.symm ▸ ht) hf
        rw [hsem]
        exact hnew args v hv
      · exact hkeep s t s' p p' id hl hx hp hp' hr hf (hP id hf)

/-- The tasks on a semaphore's list stand in the order in which they joined it. -/
theorem susp_in_order (h : Run (code some prio) Initial tr s) (id : ι) :
    ((s.mem.sem id).firstSusp).Pairwise fun a b =>
      stamp (arrives (waits id) a) tr < stamp (arrives (waits id) b) tr := by
  refine in_order_of_arrival (fun s => (s.mem.sem id).firstSusp) (arrives (waits id)) h ?_ ?_
  · intro s hs
    rw [hs.blank id]
    rfl
  · intro x hx
    have hl : Linked x.pre := h.invariant_pre (fun _ => True) Linked initial_linked
      (fun _ _ _ hl hs _ => linked_step hl hs) (fun _ _ => trivial) x hx
    have hs := h.steps x hx
    exact (list_step hl hs id).moved (fun u hu => waits_other hs hu) (hl.lists id)

/-! ### Whose the token is -/

/-- A semaphore queues its tasks in order of arrival. -/
theorem fifo (h : Run (code some prio) Initial tr s) {id : ι} (hb : s.mem.block id ≠ .fresh) :
    (s.mem.sem id).flags &&& semQPriority = 0 := by
  refine made_invariant (fun v => v.flags &&& semQPriority = 0) (fun _ => True) h (fun _ _ => trivial) ?_ ?_ hb
  · intro args v hv
    exact (Create.block_created hv).order
  · intro s t s' p p' id _ _ _ _ hr hb hv
    rwa [hr.flags_eq hb]

/-- Whoever takes a token is at the head of the list when it does. -/
theorem token_to_first (h : Run (code some prio) Initial tr s) {x : SemTransition θ ι} (hx : x ∈ tr) {id : ι}
    (hb : x.pre.mem.block id ≠ .fresh)
    (htake : (x.post.mem.sem id).tokenCount = (x.pre.mem.sem id).tokenCount - 1) :
    (x.pre.mem.sem id).firstSusp.head? = some x.thread := by
  have hs := h.steps x hx
  obtain ⟨later, before, rfl⟩ := List.append_of_mem hx
  obtain ⟨hm, _⟩ | ⟨p, p', _, _, hr, _⟩ := step_cases hs
  · rw [hm] at htake
    omega
  · obtain ⟨_, _, hsig⟩ := hr.takes hb htake
    rw [fifo h.before hb] at hsig
    exact signalForMyTask_fifo.mp hsig

end

end V2lin.Sem
