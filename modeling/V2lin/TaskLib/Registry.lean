import V2lin.TaskLib.Stages

/-! The registry of tasks, step by step.

The memory of a control block goes from fresh to allocated, live and freed and never back,
a thread that exists goes on existing, and the list of tasks is that of the live blocks. -/
namespace V2lin.TaskLib
open Threads V2lin.Task

section
variable {θ ι : Type} [DecidableEq θ] [DecidableEq ι] {ids : AddressIds θ} {t w : θ} {p p' : Pc θ} {m m' : Mem θ ι}

/-! ### What no step undoes -/

/-- What a step may make of a control block's memory. Only the last pended task's return
lets the memory of a task go, or there has never been a thread. -/
theorem Runs.block_cases (hr : Runs ids w p m m' p') (hreg : Registry ids m) (hok : Ok ids m w p)
    (hk : (stage p).Knows m w) (u : θ) :
    m'.block u = m.block u ∨
      m.block u = .fresh ∧ m'.block u = .allocated ∨
      m.block u = .allocated ∧ (m'.block u = .live ∨ m'.block u = .freed) ∧ spawns p = some u ∨
      m.block u = .live ∧ m'.block u = .freed ∧ ((m.tcb u).started = false ∨ (m.tcb u).firstSusp = []) := by
  have hdeleted : ∀ {v}, m.block v = .live → ((m.tcb v).started = false ∨ (m.tcb v).firstSusp = []) →
      (m.taskDelete v).block u = m.block u ∨
        m.block u = .live ∧ (m.taskDelete v).block u = .freed ∧
          ((m.tcb u).started = false ∨ (m.tcb u).firstSusp = []) := by
    intro v hv hsusp
    rw [Mem.taskDelete_block]
    by_cases hu : u = v
    · subst hu
      exact .inr ⟨hv, Function.update_self .., hsusp⟩
    · exact .inl (Function.update_of_ne hu ..)
  cases hr with
  | @allocated _ n _ hfresh =>
    by_cases hu : u = n
    · subst hu
      exact .inr (.inl ⟨hfresh, m.setBlock_self u .allocated⟩)
    · exact .inl (m.setBlock_of_ne .allocated hu)
  | registered n tid =>
    by_cases hu : u = n
    · subst hu
      exact .inr (.inr (.inl ⟨hok.allocated u tid true rfl, .inl (Mem.setBlock_self _ u .live), rfl⟩))
    · exact .inl (Mem.setBlock_of_ne _ .live hu)
  | refused n tid =>
    by_cases hu : u = n
    · subst hu
      exact .inr (.inr (.inl ⟨hok.allocated u tid false rfl, .inr (m.setBlock_self u .freed), rfl⟩))
    · exact .inl (m.setBlock_of_ne .freed hu)
  | @noThread _ tid v hv hs =>
    obtain h | h := hdeleted ((hreg.live v).mp (taskFor_listed hv)) (.inl hs)
    · exact .inl h
    · exact .inr (.inr (.inr h))
  | removed cause v =>
    obtain h | h := hdeleted hk.1.1 (.inr hk.2.1)
    · exact .inl h
    · exact .inr (.inr (.inr h))
  | selfRemoved cause v =>
    obtain h | h := hdeleted hk.1.1 (.inr hk.2.1)
    · exact .inl h
    · exact .inr (.inr (.inr h))
  | unlinked => exact .inl (by simp)
  | _ => exact .inl rfl

/-- A thread that exists goes on existing. -/
theorem Runs.started_mono (hr : Runs ids w p m m' p') (hok : Ok ids m w p) {u : θ} (h : (m.tcb u).started = true) :
    (m'.tcb u).started = true := by
  have hset : ∀ {v : θ} {b : Tcb θ ι}, b.started = (m.tcb v).started → ((m.setTcb v b).tcb u).started = true := by
    intro v b hb
    rw [Mem.setTcb_congr Tcb.started m hb]
    exact h
  cases hr with
  | registered n tid =>
    have hne : u ≠ n := by
      rintro rfl
      rw [(hok.spawns u rfl).2] at h
      cases h
    rw [Mem.setTcb_of_ne _ _ hne]
    exact h
  | named n tid => exact hset rfl
  | @activated _ tid v hv hs =>
    by_cases hu : u = v
    · rw [hu, Mem.setTcb_self]
    · rwa [Mem.setTcb_of_ne m _ hu]
  | noThread => rwa [Mem.taskDelete_tcb]
  | linked => exact hset rfl
  | unlinked => rwa [Mem.unlinkWaiting_tcb]
  | removed => rwa [Mem.taskDelete_tcb]
  | selfRemoved => rwa [Mem.taskDelete_tcb]
  | protects => exact hset rfl
  | unprotects => exact hset rfl
  | _ => exact h

/-- A list of pended tasks is not emptied: a deleter that leaves is looked for on the list
of a semaphore. -/
theorem Runs.susp_mono (hr : Runs ids w p m m' p') (hok : Ok ids m w p) {u : θ} (hlive : m.block u = .live)
    (h : (m.tcb u).firstSusp ≠ []) : (m'.tcb u).firstSusp ≠ [] := by
  have hset : ∀ {v : θ} {b : Tcb θ ι}, b.firstSusp = (m.tcb v).firstSusp → ((m.setTcb v b).tcb u).firstSusp ≠ [] := by
    intro v b hb
    rw [Mem.setTcb_congr Tcb.firstSusp m hb]
    exact h
  cases hr with
  | registered n tid =>
    have hne : u ≠ n := by
      rintro rfl
      rw [hok.allocated u tid true rfl] at hlive
      cases hlive
    rw [Mem.setTcb_of_ne _ _ hne]
    exact h
  | named n tid => exact hset rfl
  | activated => exact hset rfl
  | noThread => rwa [Mem.taskDelete_tcb]
  | linked selfTask v =>
    by_cases hu : u = v
    · subst hu
      rw [Mem.setTcb_self]
      cases selfTask with
      | none => exact h
      | some x => exact List.append_ne_nil_of_right_ne_nil _ (List.cons_ne_nil x [])
    · rwa [Mem.setTcb_of_ne m _ hu]
  | unlinked => rwa [Mem.unlinkWaiting_tcb]
  | removed => rwa [Mem.taskDelete_tcb]
  | selfRemoved => rwa [Mem.taskDelete_tcb]
  | protects => exact hset rfl
  | unprotects => exact hset rfl
  | _ => exact h

theorem Runs.dead_cases (hr : Runs ids w p m m' p') (u : θ) :
    m'.dead u = m.dead u ∨ u = w ∧ p = .exit ∧ p' = .dead := by
  cases hr with
  | ended =>
    by_cases hu : u = w
    · exact .inr ⟨hu, rfl, rfl⟩
    · exact .inl (Function.update_of_ne hu ..)
  | noThread => exact .inl (by simp)
  | unlinked => exact .inl (by simp)
  | removed => exact .inl (by simp)
  | selfRemoved => exact .inl (by simp)
  | _ => exact .inl rfl

theorem Runs.not_dead (hr : Runs ids w p m m' p') : p ≠ .dead := by
  rintro rfl
  cases hr with
  | reads hg => cases hg
  | locked hl => cases hl
  | unlocked hu => cases hu
  | cleaned hc => cases hc
  | killed hk => cases hk

/-! ### The registry -/

theorem Registry.taskDelete (h : Registry ids m) {v : θ} (hv : m.block v = .live) : Registry ids (m.taskDelete v) where
  nodup := h.nodup.erase v
  live u := by
    rw [Mem.taskDelete_taskList, Mem.taskDelete_block, h.nodup.mem_erase_iff]
    by_cases hu : u = v
    · subst hu
      simp
    · rw [Function.update_of_ne hu, ← h.live u]
      exact and_iff_right hu
  started u hu := by
    rw [Mem.taskDelete_tcb] at hu ⊢
    rw [Mem.taskDelete_block]
    obtain ⟨hb, hid⟩ := h.started u hu
    by_cases huv : u = v
    · subst huv
      exact ⟨.inr (Function.update_self ..), hid⟩
    · rw [Function.update_of_ne huv]
      exact ⟨hb, hid⟩
  quiet u hu := by
    rw [Mem.taskDelete_tcb] at hu ⊢
    exact h.quiet u hu
  inOrder := by
    rw [Mem.taskDelete_tcb, Mem.taskDelete_taskList]
    exact h.inOrder.sublist List.erase_sublist

omit [DecidableEq ι] in
/-- A new block for a task that is not on the list. -/
theorem Registry.setBlock (h : Registry ids m) {n : θ} {b : Block} (hold : m.block n ≠ .live) (hnew : b ≠ .live)
    (hfreed : m.block n = .freed → b = .freed) : Registry ids (m.setBlock n b) where
  nodup := h.nodup
  live u := by
    by_cases hu : u = n
    · subst hu
      rw [Mem.setBlock_self]
      exact (h.live u).trans ⟨fun he => absurd he hold, fun he => absurd he hnew⟩
    · rw [Mem.setBlock_of_ne m b hu]
      exact h.live u
  started u hu := by
    obtain ⟨hb, hid⟩ := h.started u hu
    refine ⟨?_, hid⟩
    by_cases hun : u = n
    · subst hun
      rw [Mem.setBlock_self]
      exact .inr (hfreed (hb.resolve_left hold))
    · rw [Mem.setBlock_of_ne m b hun]
      exact hb
  quiet := h.quiet
  inOrder := h.inOrder

omit [DecidableEq ι] in
/-- A new control block for a task that keeps its thread and its name, has no thread, or gets
one under an identifier from `new_tid`. -/
theorem Registry.setTcb (h : Registry ids m) {n : θ} {b : Tcb θ ι}
    (hstarted : b.started = true → (m.block n = .live ∨ m.block n = .freed) ∧ (Small b.taskid ∨ b.taskid = ids.id n))
    (hquiet : b.started = false → b.deleteSafeCount = 0)
    (hkept : b.started = (m.tcb n).started ∧ (b.started = true → b.taskid = (m.tcb n).taskid) ∨
      b.started = true ∧ Small b.taskid) : Registry ids (m.setTcb n b) where
  nodup := h.nodup
  live := h.live
  started u hu := by
    by_cases hun : u = n
    · subst hun
      rw [Mem.setTcb_self] at hu ⊢
      exact hstarted hu
    · rw [Mem.setTcb_of_ne m b hun] at hu ⊢
      exact h.started u hu
  quiet u hu := by
    by_cases hun : u = n
    · subst hun
      rw [Mem.setTcb_self] at hu ⊢
      exact hquiet hu
    · rw [Mem.setTcb_of_ne m b hun] at hu ⊢
      exact h.quiet u hu
  inOrder := by
    have hthread : ∀ v, ((m.setTcb n b).tcb v).started = false → (m.tcb v).started = false := by
      intro v hv
      by_cases hvn : v = n
      · subst hvn
        rw [Mem.setTcb_self] at hv
        obtain ⟨hsame, _⟩ | ⟨hstarted, _⟩ := hkept
        · rw [← hsame, hv]
        · rw [hv] at hstarted
          cases hstarted
      · rwa [Mem.setTcb_of_ne m b hvn] at hv
    have hname : ∀ u, ((m.setTcb n b).tcb u).started = true → ((m.tcb u).started = true → Small (m.tcb u).taskid) →
        Small ((m.setTcb n b).tcb u).taskid := by
      intro u hu hsmall
      by_cases hun : u = n
      · subst hun
        rw [Mem.setTcb_self] at hu ⊢
        obtain ⟨hsame, hid⟩ | ⟨_, hnew⟩ := hkept
        · rw [hid hu]
          exact hsmall (hsame ▸ hu)
        · exact hnew
      · rw [Mem.setTcb_of_ne m b hun] at hu ⊢
        exact hsmall hu
    exact h.inOrder.imp fun hvu hv hu => hname _ hu (hvu (hthread _ hv))

omit [DecidableEq θ] [DecidableEq ι] in
theorem Registry.of_eq (h : Registry ids m) (hlist : m'.taskList = m.taskList)
    (hblock : m'.block = m.block) (htcb : m'.tcb = m.tcb) : Registry ids m' := by
  obtain ⟨hnodup, hlive, hstarted, hquiet, horder⟩ := h
  refine ⟨?_, ?_, ?_, ?_, ?_⟩ <;> simp only [hlist, hblock, htcb] <;> assumption

theorem Runs.registry (hr : Runs ids w p m m' p') (hreg : Registry ids m) (hok : Ok ids m w p)
    (hk : (stage p).Knows m w) : Registry ids m' := by
  cases hr with
  | reads => exact hreg
  | locked => exact hreg.of_eq rfl rfl rfl
  | unlocked => exact hreg.of_eq rfl rfl rfl
  | cleaned => exact hreg.of_eq rfl rfl rfl
  | killed => exact hreg
  | @allocated _ n _ hfresh =>
    refine hreg.setBlock ?_ (by decide) fun he => ?_ <;> rw [hfresh] at *
    · decide
    · cases he
  | registered n tid =>
    have hnew := hok.allocated n tid true rfl
    have hn : n ∉ m.taskList := by
      rw [hreg.live n, hnew]
      decide
    have happended : Registry ids (({m with taskList := m.taskList ++ [n]} : Mem θ ι).setBlock n .live) := by
      have hunstarted := (hok.spawns n rfl).2
      refine ⟨?_, fun u => ?_, fun u hu => ?_, hreg.quiet, ?_⟩
      · exact List.nodup_append.mpr ⟨hreg.nodup, List.pairwise_singleton _ n, by grind⟩
      · by_cases hu : u = n
        · subst hu
          simp
        · rw [Mem.setBlock_of_ne _ _ hu]
          simp only [Mem.setBlock_taskList, List.mem_append, List.mem_singleton, hu, or_false]
          exact hreg.live u
      · have hne : u ≠ n := by
          rintro rfl
          obtain ⟨hb | hb, _⟩ := hreg.started u hu <;> rw [hnew] at hb <;> cases hb
        rw [Mem.setBlock_of_ne _ _ hne]
        exact hreg.started u hu
      · refine List.pairwise_append.mpr ⟨hreg.inOrder, List.pairwise_singleton _ n, fun v _ u hu _ hs => ?_⟩
        rw [List.mem_singleton.mp hu] at hs
        exact absurd (hunstarted.symm.trans hs) nofun
    exact happended.setTcb (fun h => by cases h) (fun _ => rfl) (.inl ⟨(hok.spawns n rfl).2.symm, fun h => by cases h⟩)
  | refused n tid =>
    have hnew := hok.allocated n tid false rfl
    refine hreg.setBlock ?_ (by decide) fun _ => rfl
    rw [hnew]
    decide
  | named n tid =>
    have hunstarted := (hok.spawns n rfl).2
    have hnever : (m.tcb n).started ≠ true := fun h => absurd (hunstarted.symm.trans h) nofun
    exact hreg.setTcb (fun h => absurd h hnever) (hreg.quiet n) (.inl ⟨rfl, fun h => absurd h hnever⟩)
  | @activated _ tid u hu hs =>
    have hid : Small (m.tcb u).taskid := by
      have hsmall := hok.chosen tid rfl
      rw [taskFor_id (by unfold Small at hsmall; omega) hu]
      exact hsmall
    exact hreg.setTcb (fun _ => ⟨.inl ((hreg.live u).mp (taskFor_listed hu)), .inl hid⟩) (fun h => by cases h)
      (.inr ⟨rfl, hid⟩)
  | noThread hu hs => exact hreg.taskDelete ((hreg.live _).mp (taskFor_listed hu))
  | linked selfTask u => exact hreg.setTcb (hreg.started u) (hreg.quiet u) (.inl ⟨rfl, fun _ => rfl⟩)
  | unlinked => exact hreg.of_eq (by simp) (by simp) (by simp)
  | cancels => exact hreg.of_eq rfl rfl rfl
  | removed cause u => exact hreg.taskDelete hk.1.1
  | selfRemoved cause u => exact hreg.taskDelete hk.1.1
  | protects =>
    refine hreg.setTcb (hreg.started w) (fun h => ?_) (.inl ⟨rfl, fun _ => rfl⟩)
    rw [hok.own rfl] at h
    cases h
  | unprotects =>
    refine hreg.setTcb (hreg.started w) (fun h => ?_) (.inl ⟨rfl, fun _ => rfl⟩)
    rw [hok.own rfl] at h
    cases h
  | ended => exact hreg.of_eq rfl rfl rfl

end

end V2lin.TaskLib
