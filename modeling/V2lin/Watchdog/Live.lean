import V2lin.Watchdog.Locks
import V2lin.Watchdog.Lookup

/-! Who is inside a watchdog when its memory is freed.

A thread that has found a watchdog on the list has `wdog_list_lock` or the `wdog_lock`,
and `wdDelete` takes a watchdog off the list with both. So nobody reads or writes a
control block that has been freed, except for a pass that has given up `wdog_lock` to call
the timeout function and reads it only then. -/
namespace V2lin.Watchdog
open Threads

section
variable {θ ι φ : Type}

/-- The watchdog that a thread has found on the list, until it gives up `wdog_lock` or takes
the watchdog off the list. -/
def finds : Pc ι φ → Option ι
  | .validUnlock _ id found => if found then some id else none
  | .validWdog _ id | .startSet _ _ _ _ id | .cancelZero _ id | .leave _ _ id => some id
  | .deleteListLock _ id | .deleteUnlink _ id | .tickCount id | .tickUnlock id _ _ => some id
  | _ => none

/-- The watchdog that a thread has taken off the list and not yet freed. -/
def removes : Pc ι φ → Option ι
  | .deleteListUnlock _ id | .deleteUnlock _ id | .deleteFree _ id => some id
  | _ => none

/-- The watchdog whose control block the code at a point reads, writes, locks or frees. -/
def accesses : Pc ι φ → Option ι
  | .linkLock _ id | .linkAppend _ id | .deleteListUnlock _ id | .deleteUnlock _ id | .deleteFree _ id => some id
  | .tickCall id _ => some id
  | p => finds p

variable {p p' : Pc ι φ} {id : ι} {frame : Frame ι}

theorem accesses_cases (h : accesses p = some id) :
    publishing p = some id ∨ finds p = some id ∨ removes p = some id ∨ ∃ next, p = .tickCall id next := by
  cases p <;> first
    | exact .inl h
    | exact .inr (.inr (.inl h))
    | exact .inr (.inl h)
    | (cases h; exact .inr (.inr (.inr ⟨_, rfl⟩)))

theorem Resting.finds (h : Resting frame p) : finds p = none := by
  cases h <;> rfl

theorem Resting.removes (h : Resting frame p) : removes p = none := by
  cases h <;> rfl

theorem finds_passOn (next : Option ι) : finds (passOn next : Pc ι φ) = none := by
  cases next <;> rfl

theorem removes_passOn (next : Option ι) : removes (passOn next : Pc ι φ) = none := by
  cases next <;> rfl

/-- Whoever has found a watchdog holds one of its two locks. -/
theorem held_of_finds (h : finds p = some id) : .wdogListLock ∈ held p ∨ .wdogLock id ∈ held p := by
  cases p
  case validUnlock use j found =>
    cases found
    · cases h
    · cases h
      exact .inl (by simp [held])
  case validWdog use j => exact .inl (by simp [held])
  all_goals first
    | (cases h; done)
    | (cases h; exact .inr (by simp [held]))

variable [DecidableEq ι] {t u : θ} {m m' : Mem ι φ}

theorem next_finds (h : (code t p).Next p') (hf : finds p' = some id) : finds p = some id := by
  cases p
  case validUnlock use j found =>
    obtain rfl := h
    cases use with
    | tick =>
      cases found
      · cases hf
      · exact hf
    | call frame op =>
      cases found
      · cases hf
      · cases op <;> exact hf
  case tickUnlock j next fires =>
    obtain rfl := h
    cases fires
    · rw [show finds (if false then Pc.tickCall j next else passOn next : Pc ι φ) = none from finds_passOn next] at hf
      cases hf
    · cases hf
  all_goals first
    | exact False.elim h
    | (obtain rfl := h; exact hf)
    | (obtain rfl := h; cases hf)

theorem next_removes (h : (code t p).Next p') (hr : removes p' = some id) : removes p = some id := by
  cases p
  case validUnlock use j found =>
    obtain rfl := h
    cases use with
    | tick => cases found <;> cases hr
    | call frame op =>
      cases found
      · cases hr
      · cases op <;> cases hr
  case tickUnlock j next fires =>
    obtain rfl := h
    cases fires
    · rw [show removes (if false then Pc.tickCall j next else passOn next : Pc ι φ) = none
        from removes_passOn next] at hr
      cases hr
    · cases hr
  all_goals first
    | exact False.elim h
    | (obtain rfl := h; exact hr)

variable [DecidableEq θ] {s s' : WdogState θ ι φ} {tr : List (WdogTransition θ ι φ)}

/-- Every control block in use is live, and whoever has taken a watchdog off the list is
alone with it. -/
structure Live (s : WdogState θ ι φ) : Prop where
  listed : ∀ id ∈ s.mem.wdogList, s.mem.block id = .live
  publishing : ∀ t id, publishing (s.ctl t).point = some id → s.mem.block id = .live
  finds : ∀ t id, finds (s.ctl t).point = some id → id ∈ s.mem.wdogList
  removes : ∀ t id, removes (s.ctl t).point = some id → s.mem.block id = .live ∧ id ∉ s.mem.wdogList ∧
    (∀ u, Watchdog.publishing (s.ctl u).point ≠ some id) ∧ ∀ u, Watchdog.removes (s.ctl u).point = some id → u = t

omit [DecidableEq θ] [DecidableEq ι] in
theorem initial_live (s : WdogState θ ι φ) (h : Initial s) : Live s where
  listed := by
    rw [h.wdogList]
    exact fun _ h => by cases h
  publishing t id ht := by
    rw [h.idle t] at ht
    cases ht
  finds t id ht := by
    rw [h.idle t] at ht
    cases ht
  removes t id ht := by
    rw [h.idle t] at ht
    cases ht

/-- A step that leaves the list and the blocks alone, and in which its thread comes to no
watchdog but from the list. -/
theorem Live.keep (h : Live s) (hs : Step code t s s') (hlist : s'.mem.wdogList = s.mem.wdogList)
    (hblock : s'.mem.block = s.mem.block)
    (hpub : ∀ id, Watchdog.publishing (s'.ctl t).point = some id → Watchdog.publishing (s.ctl t).point = some id)
    (hfind : ∀ id, Watchdog.finds (s'.ctl t).point = some id →
      Watchdog.finds (s.ctl t).point = some id ∨ id ∈ s.mem.wdogList)
    (hremove : ∀ id, Watchdog.removes (s'.ctl t).point = some id → Watchdog.removes (s.ctl t).point = some id) :
    Live s' := by
  have hpub' : ∀ u id, Watchdog.publishing (s'.ctl u).point = some id → Watchdog.publishing (s.ctl u).point = some id := by
    intro u id hu
    by_cases hut : u = t
    · exact hut ▸ hpub id (hut ▸ hu)
    · rwa [← hs.ctl_other hut]
  have hremove' : ∀ u id, Watchdog.removes (s'.ctl u).point = some id → Watchdog.removes (s.ctl u).point = some id := by
    intro u id hu
    by_cases hut : u = t
    · exact hut ▸ hremove id (hut ▸ hu)
    · rwa [← hs.ctl_other hut]
  refine ⟨?_, ?_, ?_, ?_⟩
  · rw [hlist, hblock]
    exact h.listed
  · rw [hblock]
    exact fun u id hu => h.publishing u id (hpub' u id hu)
  · intro u id hu
    rw [hlist]
    by_cases hut : u = t
    · exact (hfind id (hut ▸ hu)).elim (h.finds t id) fun hin => hin
    · exact h.finds u id (by rwa [← hs.ctl_other hut])
  · intro u id hu
    obtain ⟨hlive, hout, hnone, hone⟩ := h.removes u id (hremove' u id hu)
    rw [hlist, hblock]
    exact ⟨hlive, hout, fun v hv => hnone v (hpub' v id hv), fun v hv => hone v (hremove' v id hv)⟩

/-- Whoever takes a watchdog off the list is the only one that has found it. -/
theorem finds_alone (hr : Run code Initial tr s) {frame : Frame ι} (hp : s.ctl t = .awake (.deleteUnlink frame id))
    (hu : finds (s.ctl u).point = some id) : u = t := by
  obtain ⟨q, hq⟩ := awake hr u
  rw [hq, Ctl.point_awake] at hu
  obtain hlock | hlock := held_of_finds hu
  · exact held_unique hr hq hlock hp (by simp [held])
  · exact held_unique hr hq hlock hp (by simp [held])

theorem role_other {α : Type} (hs : Step code t s s') (role : Pc ι φ → α) (hu : u ≠ t) :
    role (s'.ctl u).point = role (s.ctl u).point := by
  rw [hs.ctl_other hu]

/-- A watchdog is made. -/
theorem Live.created (h : Live s) (hs : Step code t s s') (hp' : (s'.ctl t).point = .linkLock frame id)
    (hfresh : s.mem.block id = .fresh) (hlist : s'.mem.wdogList = s.mem.wdogList)
    (hblock : s'.mem.block = Function.update s.mem.block id .live) : Live s' := by
  have hne : ∀ {j}, s.mem.block j = .live → j ≠ id := fun hj he => by
    rw [he, hfresh] at hj
    cases hj
  have hlive : ∀ {j}, s.mem.block j = .live → s'.mem.block j = .live := fun hj => by
    rw [hblock]
    exact (Function.update_of_ne (hne hj) _ _).trans hj
  refine ⟨fun j hj => hlive (h.listed j (hlist ▸ hj)), fun u j hu => ?_, fun u j hu => ?_, fun u j hu => ?_⟩
  · by_cases hut : u = t
    · rw [hut, hp'] at hu
      cases hu
      rw [hblock]
      exact Function.update_self ..
    · exact hlive (h.publishing u j ((role_other hs Watchdog.publishing hut).symm.trans hu))
  · by_cases hut : u = t
    · rw [hut, hp'] at hu
      cases hu
    · rw [hlist]
      exact h.finds u j ((role_other hs Watchdog.finds hut).symm.trans hu)
  · by_cases hut : u = t
    · rw [hut, hp'] at hu
      cases hu
    · obtain ⟨hold, hout, hnone, hone⟩ := h.removes u j ((role_other hs Watchdog.removes hut).symm.trans hu)
      refine ⟨hlive hold, hlist ▸ hout, fun v hv => ?_, fun v hv => ?_⟩
      · by_cases hvt : v = t
        · rw [hvt, hp'] at hv
          exact hne hold (Option.some.inj hv).symm
        · exact hnone v ((role_other hs Watchdog.publishing hvt).symm.trans hv)
      · by_cases hvt : v = t
        · rw [hvt, hp'] at hv
          cases hv
        · exact hone v ((role_other hs Watchdog.removes hvt).symm.trans hv)

/-- A watchdog is put on the list. -/
theorem Live.linked (h : Live s) (hs : Step code t s s') (hp : (s.ctl t).point = .linkAppend frame id)
    (hp' : (s'.ctl t).point = .linkUnlock frame id) (hlist : s'.mem.wdogList = s.mem.wdogList ++ [id])
    (hblock : s'.mem.block = s.mem.block) : Live s' := by
  have hpub : Watchdog.publishing (s.ctl t).point = some id := by rw [hp]; rfl
  have hin : ∀ {j}, j ∈ s'.mem.wdogList → j ∈ s.mem.wdogList ∨ j = id := fun hj => by
    rw [hlist, List.mem_append, List.mem_singleton] at hj
    exact hj
  refine ⟨fun j hj => ?_, fun u j hu => ?_, fun u j hu => ?_, fun u j hu => ?_⟩
  · rw [hblock]
    obtain hold | rfl := hin hj
    · exact h.listed j hold
    · exact h.publishing t j hpub
  · have hut : u ≠ t := fun hut => by
      rw [hut, hp'] at hu
      cases hu
    rw [hblock]
    exact h.publishing u j ((role_other hs Watchdog.publishing hut).symm.trans hu)
  · have hut : u ≠ t := fun hut => by
      rw [hut, hp'] at hu
      cases hu
    rw [hlist]
    exact List.mem_append_left _ (h.finds u j ((role_other hs Watchdog.finds hut).symm.trans hu))
  · have hut : u ≠ t := fun hut => by
      rw [hut, hp'] at hu
      cases hu
    obtain ⟨hlive, hout, hnone, hone⟩ := h.removes u j ((role_other hs Watchdog.removes hut).symm.trans hu)
    refine ⟨by rwa [hblock], fun hj => ?_, fun v hv => ?_, fun v hv => ?_⟩
    · obtain hold | rfl := hin hj
      · exact hout hold
      · exact hnone t hpub
    · by_cases hvt : v = t
      · rw [hvt, hp'] at hv
        cases hv
      · exact hnone v ((role_other hs Watchdog.publishing hvt).symm.trans hv)
    · by_cases hvt : v = t
      · rw [hvt, hp'] at hv
        cases hv
      · exact hone v ((role_other hs Watchdog.removes hvt).symm.trans hv)

/-- A watchdog is taken off the list. -/
theorem Live.unlinked (hr : Run code Initial tr s) (h : Live s) (hs : Step code t s s')
    (hctl : s.ctl t = .awake (.deleteUnlink frame id)) (hp' : (s'.ctl t).point = .deleteListUnlock frame id)
    (hlist : s'.mem.wdogList = s.mem.wdogList.erase id) (hblock : s'.mem.block = s.mem.block) : Live s' := by
  have hfind : Watchdog.finds (s.ctl t).point = some id := by rw [hctl]; rfl
  have hsound := registry_sound hr
  have hnodup : s.mem.wdogList.Nodup := hsound.nodup
  have hlisted : id ∈ s.mem.wdogList := h.finds t id hfind
  refine ⟨fun j hj => ?_, fun u j hu => ?_, fun u j hu => ?_, fun u j hu => ?_⟩
  · rw [hblock]
    rw [hlist] at hj
    exact h.listed j (List.mem_of_mem_erase hj)
  · have hut : u ≠ t := fun hut => by
      rw [hut, hp'] at hu
      cases hu
    rw [hblock]
    exact h.publishing u j ((role_other hs Watchdog.publishing hut).symm.trans hu)
  · have hut : u ≠ t := fun hut => by
      rw [hut, hp'] at hu
      cases hu
    have hold : Watchdog.finds (s.ctl u).point = some j := (role_other hs Watchdog.finds hut).symm.trans hu
    have hne : j ≠ id := fun hj => hut (finds_alone hr hctl (hj ▸ hold))
    rw [hlist]
    exact (List.mem_erase_of_ne hne).mpr (h.finds u j hold)
  · by_cases hut : u = t
    · subst hut
      rw [hp'] at hu
      cases hu
      rw [hblock, hlist]
      refine ⟨h.listed id hlisted, fun hj => hnodup.not_mem_erase hj, fun v hv => ?_, fun v hv => ?_⟩
      · by_cases hvt : v = u
        · rw [hvt, hp'] at hv
          cases hv
        · exact (hsound.listed id hlisted).2 v ((role_other hs Watchdog.publishing hvt).symm.trans hv)
      · by_cases hvt : v = u
        · exact hvt
        · exact absurd hlisted (h.removes v id ((role_other hs Watchdog.removes hvt).symm.trans hv)).2.1
    · obtain ⟨hlive, hout, hnone, hone⟩ := h.removes u j ((role_other hs Watchdog.removes hut).symm.trans hu)
      rw [hblock, hlist]
      refine ⟨hlive, fun hj => hout (List.mem_of_mem_erase hj), fun v hv => ?_, fun v hv => ?_⟩
      · by_cases hvt : v = t
        · rw [hvt, hp'] at hv
          cases hv
        · exact hnone v ((role_other hs Watchdog.publishing hvt).symm.trans hv)
      · by_cases hvt : v = t
        · rw [hvt, hp'] at hv
          cases hv
          exact absurd hlisted hout
        · exact hone v ((role_other hs Watchdog.removes hvt).symm.trans hv)

/-- A watchdog is freed. -/
theorem Live.freed (h : Live s) (hs : Step code t s s') (hp : (s.ctl t).point = .deleteFree frame id)
    (hp' : (s'.ctl t).point = .returned frame .delete id .ok) (hlist : s'.mem.wdogList = s.mem.wdogList)
    (hblock : s'.mem.block = Function.update s.mem.block id .freed) : Live s' := by
  have hremove : Watchdog.removes (s.ctl t).point = some id := by rw [hp]; rfl
  obtain ⟨_, hgone, hnobody, honly⟩ := h.removes t id hremove
  have hstays : ∀ {j}, j ≠ id → s.mem.block j = .live → s'.mem.block j = .live := fun hj hlive => by
    rw [hblock]
    exact (Function.update_of_ne hj _ _).trans hlive
  have hself : ∀ {u}, Watchdog.publishing (s'.ctl u).point = Watchdog.publishing (s.ctl u).point := fun {u} => by
    by_cases hut : u = t
    · rw [hut, hp, hp']
      rfl
    · exact role_other hs Watchdog.publishing hut
  refine ⟨fun j hj => ?_, fun u j hu => ?_, fun u j hu => ?_, fun u j hu => ?_⟩
  · rw [hlist] at hj
    exact hstays (fun he => hgone (he ▸ hj)) (h.listed j hj)
  · have hold := hself.symm.trans hu
    exact hstays (fun he => hnobody u (he ▸ hold)) (h.publishing u j hold)
  · have hut : u ≠ t := fun hut => by
      rw [hut, hp'] at hu
      cases hu
    rw [hlist]
    exact h.finds u j ((role_other hs Watchdog.finds hut).symm.trans hu)
  · have hut : u ≠ t := fun hut => by
      rw [hut, hp'] at hu
      cases hu
    have hold := (role_other hs Watchdog.removes hut).symm.trans hu
    obtain ⟨hlive, hout, hnone, hone⟩ := h.removes u j hold
    refine ⟨hstays (fun he => hut (honly u (he ▸ hold))) hlive, by rwa [hlist], fun v hv => ?_, fun v hv => ?_⟩
    · exact hnone v (hself.symm.trans hv)
    · by_cases hvt : v = t
      · rw [hvt, hp'] at hv
        cases hv
      · exact hone v ((role_other hs Watchdog.removes hvt).symm.trans hv)

theorem live_step (hr : Run code Initial tr s) (h : Live s) (hs : Step code t s s') : Live s' := by
  obtain ⟨hm, _, heq | hnext⟩ | ⟨p, p', hp, hp', hruns, _⟩ := step_cases hs
  · refine h.keep hs (by rw [hm]) (by rw [hm]) (fun id hid => ?_) (fun id hid => .inl ?_) fun id hid => ?_
    all_goals rwa [heq] at hid
  · refine h.keep hs (by rw [hm]) (by rw [hm]) (fun id hid => ?_) (fun id hid => .inl ?_) fun id hid => ?_
    · rwa [next_publishing hnext] at hid
    · exact next_finds hnext hid
    · exact next_removes hnext hid
  · have hpoint : (s.ctl t).point = p := by rw [hp, Ctl.point_awake]
    have hpoint' : (s'.ctl t).point = p' := by rw [hp', Ctl.point_awake]
    have hkeep : s'.mem.wdogList = s.mem.wdogList → s'.mem.block = s.mem.block →
        (∀ id, publishing p' = some id → publishing p = some id) →
        (∀ id, finds p' = some id → finds p = some id ∨ id ∈ s.mem.wdogList) →
        (∀ id, removes p' = some id → removes p = some id) → Live s' := by
      intro hlist hblock hpub hfind hremove
      rw [← hpoint, ← hpoint'] at hpub hfind hremove
      exact h.keep hs hlist hblock hpub hfind hremove
    generalize hm : s.mem = m at hruns hkeep
    generalize hm' : s'.mem = m' at hruns hkeep
    cases hruns with
    | called => exact hkeep rfl rfl (fun _ h => by cases h) (fun _ h => by cases h) fun _ h => by cases h
    | passed hrest =>
      refine hkeep rfl rfl ?_ ?_ ?_ <;> intro id hid
      · rw [publishing_passOn] at hid; cases hid
      · rw [finds_passOn] at hid; cases hid
      · rw [removes_passOn] at hid; cases hid
    | finished hrest =>
      refine hkeep rfl rfl ?_ ?_ ?_ <;> intro id hid
      · rw [publishing_passOn] at hid; cases hid
      · rw [finds_passOn] at hid; cases hid
      · rw [removes_passOn] at hid; cases hid
    | found use hin =>
      refine hkeep rfl rfl (fun _ h => by cases h) (fun id hid => .inr ?_) fun _ h => by cases h
      cases hid
      exact hin
    | created id hrest hfresh =>
      exact h.created hs hpoint' (hm ▸ hfresh) (by rw [hm, hm']; rfl) (by rw [hm, hm'])
    | linked frame id => exact h.linked hs hpoint hpoint' (by rw [hm, hm']) (by rw [hm, hm'])
    | unlinked frame id => exact h.unlinked hr hs hp hpoint' (by rw [hm, hm']) (by rw [hm, hm'])
    | freed frame id => exact h.freed hs hpoint hpoint' (by rw [hm, hm']) (by rw [hm, hm'])
    | _ => exact hkeep rfl rfl (fun _ h => by cases h) (fun _ h => .inl h) fun _ h => by cases h

theorem live (h : Run code Initial tr s) : Live s := by
  induction h with
  | start hi => exact initial_live _ hi
  | step hr hs ih => exact live_step hr ih hs

omit [DecidableEq θ] in
theorem next_tickCall {next : Option ι} (h : (code t p).Next (.tickCall id next)) : finds p = some id := by
  cases p
  case validUnlock use j found =>
    have h : Pc.tickCall id next = entry use j found := h
    cases use with
    | tick => cases found <;> cases h
    | call frame op =>
      cases found
      · cases h
      · cases op <;> cases h
  case tickUnlock j next' fires =>
    have h : Pc.tickCall id next = if fires then .tickCall j next' else passOn next' := h
    cases fires
    · cases next' <;> cases h
    · cases h
      rfl
  all_goals first
    | exact False.elim h
    | cases h

theorem Runs.not_tickCall {next : Option ι} (h : Runs p m m' p') : p' ≠ .tickCall id next := by
  intro hp'
  cases h with
  | @passed p m => cases hl : m.wdogList.head? <;> rw [hl] at hp' <;> cases hp'
  | @finished p m next => cases next <;> cases hp'
  | _ => cases hp'

theorem block_step (hs : Step code t s s') (hmade : s.mem.block id ≠ .fresh) : s'.mem.block id ≠ .fresh := by
  obtain ⟨hm, _⟩ | ⟨p, p', _, _, hruns, _⟩ := step_cases hs
  · rwa [hm]
  · exact hruns.block_mono hmade

/-- Where a timeout function is about to be called its watchdog has been made. -/
theorem made_of_tickCall (h : Run code Initial tr s) {next : Option ι} (ht : (s.ctl t).point = .tickCall id next) :
    s.mem.block id ≠ .fresh := by
  induction h generalizing t next with
  | start hi =>
    rw [hi.idle t] at ht
    cases ht
  | @step tr s u s' hr hs ih =>
    refine block_step hs ?_
    by_cases htu : t = u
    · subst htu
      obtain ⟨_, _, heq | hnext⟩ | ⟨p, p', _, hp', hruns, _⟩ := step_cases hs
      · exact ih (heq.symm.trans ht)
      · rw [ht] at hnext
        have hlive := live hr
        rw [hlive.listed id (hlive.finds t id (next_tickCall hnext))]
        exact fun h => by cases h
      · rw [hp', Ctl.point_awake] at ht
        exact absurd ht hruns.not_tickCall
    · exact ih (by rwa [← hs.ctl_other htu])

/-- A control block is read, written, locked and freed only while it is live, except that a
pass may call the timeout function of one that has been freed. -/
theorem accesses_live (h : Run code Initial tr s) (ha : accesses (s.ctl t).point = some id) :
    s.mem.block id = .live ∨ s.mem.block id = .freed ∧ ∃ next, (s.ctl t).point = .tickCall id next := by
  have hlive := live h
  obtain hpub | hfind | hremove | ⟨next, hcall⟩ := accesses_cases ha
  · exact .inl (hlive.publishing t id hpub)
  · exact .inl (hlive.listed id (hlive.finds t id hfind))
  · exact .inl (hlive.removes t id hremove).1
  · cases hb : s.mem.block id with
    | fresh => exact absurd hb (made_of_tickCall h hcall)
    | live => exact .inl rfl
    | freed => exact .inr ⟨rfl, next, hcall⟩

end

/-- Task 0 deletes a watchdog that it has made, and comes to free it. -/
def deletes : List (Fin 2 × Input (Choice ℕ ℕ)) :=
  makes 0 7 :: goesOn 0 3 ++ calls 0 .delete 7 :: goesOn 0 8

theorem deletes_live : ∃ (tr : List (WdogTransition (Fin 2) ℕ ℕ)) (s : WdogState (Fin 2) ℕ ℕ),
    Run code Initial tr s ∧ (s.ctl 0).point = .deleteFree .task 7 ∧ s.mem.block 7 = .live := by
  obtain ⟨tr, s, hr, hs⟩ := run_of_check (code (θ := Fin 2) (ι := ℕ) (φ := ℕ)) deletes
    (fun _ s => (s.ctl 0).point = .deleteFree .task 7) boot_initial (by decide)
  have hp : (s.ctl 0).point = .deleteFree .task 7 := of_decide_eq_true hs
  have ha : accesses (s.ctl 0).point = some 7 := by rw [hp]; rfl
  obtain hlive | ⟨_, next, hcall⟩ := accesses_live hr ha
  · exact ⟨tr, s, hr, hp, hlive⟩
  · rw [hp] at hcall
    cases hcall

/-- Task 0 deletes a watchdog while task 1 is in the pass that has found it due. -/
def deletesInPass : List (Fin 2 × Input (Choice ℕ ℕ)) :=
  makes 0 7 :: goesOn 0 3 ++ calls 0 (.start 2 (some 5) 0) 7 :: goesOn 0 6 ++
    (1, {choice := .pass}) :: goesOn 1 6 ++ calls 0 .delete 7 :: goesOn 0 9

/-- The exception of `accesses_live`. -/
theorem called_after_free : ∃ (tr : List (WdogTransition (Fin 2) ℕ ℕ)) (s : WdogState (Fin 2) ℕ ℕ),
    Run code Initial tr s ∧ s.mem.block 7 = .freed ∧ (s.ctl 1).point = .tickCall 7 none := by
  obtain ⟨tr, s, hr, hs⟩ := run_of_check (code (θ := Fin 2) (ι := ℕ) (φ := ℕ)) deletesInPass
    (fun _ s => s.mem.block 7 = .freed ∧ (s.ctl 1).point = .tickCall 7 none) boot_initial (by decide)
  exact ⟨tr, s, hr, of_decide_eq_true hs⟩

end V2lin.Watchdog
