import V2lin.Lists.Readers
import V2lin.TaskList.Steps

/-! The list and the ways of its readers.

The links from `task_list` on always go through the control blocks that have been appended
and not been taken out, and every lookup has a way before it, which leads back to the list if
it has left it. This needs that no control block is overwritten while it is on the list or on
somebody's way: not by `taskInit`, and not by the heap once it is freed. -/
namespace V2lin.TaskList
open Threads V2lin.Lists

section
variable {θ τ : Type} [DecidableEq τ]

/-- The list after the steps of a history, newest first, that began with the list `l`. -/
def listed (l : List τ) (tr : List (ListTransition θ τ)) : List τ :=
  tr.foldr (fun y l => Lookups.edited l (edit (y.pre.ctl y.thread).point)) l

/-- Where the loops are that change the list `l`. -/
def Placed (l : List τ) : Pc τ → Prop
  | .initWalk _ _ i => ∃ before rest, l = before ++ rest ∧ i = (Cell.head ()).after before
  | .initLink _ _ i => i = (Cell.head ()).after l
  | .removeWalk _ u i => ∃ before rest, l = before ++ rest ∧ i = (Cell.head ()).after before ∧ u ∉ before
  | .removeLink _ u i => ∃ before after, l = before ++ u :: after ∧ i = (Cell.head ()).after before
  | .unlock next => next.plain = true
  | _ => True

/-- A reader with `o` in hand may come to `u`. -/
def OnWay (m : Mem θ τ) (o : Option τ) (u : τ) : Prop := ∃ way, Way m.links o way ∧ u ∈ way

/-- `taskInit` gets a control block; and none is overwritten as a whole while it is on the
list, a lookup may come to it, or a `taskInit` is about to link it. -/
structure Proper (y : ListTransition θ τ) : Prop where
  given : ∀ maker name pri, (y.pre.ctl y.thread).point ≠ .initTest maker none name pri 0
  unused : ∀ u, wipes y.pre.mem (y.pre.ctl y.thread).point = some u → ¬ OnWay y.pre.mem y.pre.mem.taskList u ∧
    ∀ v, (∀ o, register (y.pre.ctl v).point = some o → ¬ OnWay y.pre.mem o u) ∧ making (y.pre.ctl v).point ≠ some u

/-- The links are those of the list `l`, and of ways that lead to it. -/
structure Sound (l : List τ) (s : ListState θ τ) : Prop where
  chain : Chain s.mem.links (.head ()) l
  ahead : ∀ v o, register (s.ctl v).point = some o →
    ∃ way, Ahead s.mem.links l o way ∧ ∀ w u, making (s.ctl w).point = some u → u ∉ way
  made : ∀ v u, making (s.ctl v).point = some u → u ∉ l ∧ s.mem.links (.next u) = none
  holds : ∀ v, holding (s.ctl v).point = true → s.owner .taskListLock = some v
  placed : ∀ v, Placed l (s.ctl v).point

/-- What a step that does `e` to the list does to the way of a reader with `o` in hand. -/
inductive Onward (e : Option (ListEdit τ)) (o : Option τ) (way : List τ) : List τ → Prop where
  | same : Onward e o way way
  | linked {n} : e = some (.link n) → Onward e o way (way ++ [n])
  | unlinked {z} : e = some (.unlink z) → o ≠ some z → Onward e o way (way.filter (· ≠ z))

variable [DecidableEq θ] {ids : τ → ℤ} {t : θ} {s s' : ListState θ τ} {m m' : Mem θ τ} {p p' : Pc τ} {l : List τ}

omit [DecidableEq τ] [DecidableEq θ] in
theorem Placed.of_not_holding (h : holding p = false) (l : List τ) : Placed l p := by
  cases p <;> trivial

omit [DecidableEq τ] [DecidableEq θ] in
theorem links_after {before rest : List τ} (hl : Chain m.links (.head ()) (before ++ rest)) :
    m.links ((Cell.head ()).after before) = rest.head? := by
  have hrest := (chain_append.mp hl).2
  cases rest with
  | nil => exact chain_nil.mp hrest
  | cons a rest => exact (chain_cons.mp hrest).1

theorem erase_middle {before after : List τ} {u : τ} (hn : (before ++ u :: after).Nodup) :
    (before ++ u :: after).erase u = before ++ after := by
  have hu : u ∉ before := fun h => (List.nodup_append.mp hn).2.2 u h u (List.mem_cons_self ..) rfl
  rw [List.erase_append_right _ hu, List.erase_cons_head]

/-! ### The list -/

/-- A block does to the links what it does to the list. -/
theorem Goes.chain (hg : Goes ids t m p m' p') (hl : Chain m.links (.head ()) l) (hplaced : Placed l p)
    (hmade : ∀ u, making p = some u → u ∉ l ∧ m.links (.next u) = none)
    (hwipe : ∀ u, wipes m p = some u → u ∉ l) : Chain m'.links (.head ()) (Lookups.edited l (edit p)) := by
  cases hg with
  | link maker u i =>
    obtain ⟨hout, hnull⟩ := hmade u rfl
    obtain rfl : i = (Cell.head ()).after l := hplaced
    rw [Mem.links_store]
    exact hl.append hout (fun h => by cases h) hnull
  | @unlink cause u i v hv =>
    obtain ⟨before, after, rfl, rfl⟩ := hplaced
    obtain rfl : u = v := Option.some.inj ((links_after hl).symm.trans hv)
    rw [Mem.links_store, edit, Lookups.edited, erase_middle hl.nodup]
    exact hl.remove
  | clear maker u =>
    rw [Mem.links_setTcb]
    exact hl.update_other (hwipe u rfl) (fun h => by cases h) _
  | wipe hw hp =>
    rw [edit_plain hp, Mem.links_setTcb]
    exact hl.update_other (hwipe _ hw) (fun h => by cases h) _
  | field hb hp =>
    rw [edit_plain hp, Mem.links_setTcb_same hb]
    exact hl
  | plain hp =>
    rw [edit_plain hp]
    exact hl
  | _ => exact hl

/-- A block leaves a reader a way. -/
theorem Goes.ahead (hg : Goes ids t m p m' p') (hl : Chain m.links (.head ()) l) (hplaced : Placed l p)
    {o : Option τ} {way : List τ} (hr : Ahead m.links l o way)
    (hmade : ∀ u, making p = some u → u ∉ l ∧ m.links (.next u) = none ∧ u ∉ way)
    (hwipe : ∀ u, wipes m p = some u → u ∉ way) :
    ∃ way', Ahead m'.links (Lookups.edited l (edit p)) o way' ∧ Onward (edit p) o way way' := by
  have hother : ∀ {u : τ} {v : Option τ}, u ∉ way → Ahead (Function.update m.links (.next u) v) l o way := by
    intro u v hu
    refine hr.congr fun a ha => Function.update_of_ne (fun h => hu ?_) ..
    exact Cell.next.inj h ▸ ha
  cases hg with
  | link maker u i =>
    obtain ⟨hout, hnull, hway⟩ := hmade u rfl
    obtain rfl : i = (Cell.head ()).after l := hplaced
    rw [Mem.links_store]
    obtain ⟨way', hr', rfl | rfl⟩ := hr.append (h := ()) hout hway hnull
    · exact ⟨way', hr', .same⟩
    · exact ⟨_, hr', .linked rfl⟩
  | @unlink cause u i v hv =>
    obtain ⟨before, after, rfl, rfl⟩ := hplaced
    obtain rfl : u = v := Option.some.inj ((links_after hl).symm.trans hv)
    rw [Mem.links_store, edit, Lookups.edited, erase_middle hl.nodup]
    obtain ⟨way', hr', rfl | ⟨ho, rfl⟩⟩ := hr.remove hl
    · exact ⟨way', hr', .same⟩
    · exact ⟨_, hr', .unlinked rfl ho⟩
  | clear maker u =>
    rw [Mem.links_setTcb]
    exact ⟨way, hother (hwipe u rfl), .same⟩
  | wipe hw hp =>
    rw [edit_plain hp, Mem.links_setTcb]
    exact ⟨way, hother (hwipe _ hw), .same⟩
  | field hb hp =>
    rw [edit_plain hp, Mem.links_setTcb_same hb]
    exact ⟨way, hr, .same⟩
  | plain hp =>
    rw [edit_plain hp]
    exact ⟨way, hr, .same⟩
  | _ => exact ⟨way, hr, .same⟩

/-! ### The thread that moves -/

/-- A loop that changes the list goes on along it. -/
theorem Goes.placed (hg : Goes ids t m p m' p') (hl : Chain m.links (.head ()) l) (hplaced : Placed l p) :
    Placed (Lookups.edited l (edit p)) p' := by
  cases hg with
  | clear maker u name pri =>
    split
    · exact ⟨[], l, rfl, rfl⟩
    · exact rfl
  | @initOn maker u i v hv =>
    obtain ⟨before, rest, rfl, rfl⟩ := hplaced
    rw [links_after hl] at hv
    cases rest with
    | nil => cases hv
    | cons a rest =>
      obtain rfl := Option.some.inj hv
      exact ⟨before ++ [a], rest, List.append_cons .., (Cell.after_concat _).symm⟩
  | initEnd hi =>
    obtain ⟨before, rest, rfl, rfl⟩ := hplaced
    rw [links_after hl] at hi
    obtain rfl := List.head?_eq_none_iff.mp hi
    exact congrArg (Cell.head ()).after (List.append_nil before).symm
  | @removeHere cause u i hi =>
    obtain ⟨before, rest, rfl, rfl, _⟩ := hplaced
    rw [links_after hl] at hi
    cases rest with
    | nil => cases hi
    | cons a rest =>
      obtain rfl := Option.some.inj hi
      exact ⟨before, rest, rfl, rfl⟩
  | @removeOn cause u i v hv hne =>
    obtain ⟨before, rest, rfl, rfl, hbefore⟩ := hplaced
    rw [links_after hl] at hv
    cases rest with
    | nil => cases hv
    | cons a rest =>
      obtain rfl := Option.some.inj hv
      refine ⟨before ++ [a], rest, List.append_cons .., (Cell.after_concat _).symm, fun h => ?_⟩
      obtain h | h := List.mem_append.mp h
      · exact hbefore h
      · exact hne (List.mem_singleton.mp h)
  | found hf =>
    cases hf with
    | unlocks _ hp => exact hp
    | plain hp => exact .of_not_holding (holding_plain hp) _
  | wipe _ _ hp' => exact .of_not_holding (holding_plain hp') _
  | field _ _ hp' => exact .of_not_holding (holding_plain hp') _
  | plain _ hp' => exact .of_not_holding (holding_plain hp') _
  | link | removeEnd | unlink | broken => exact rfl
  | _ => trivial

/-- What a lookup has in hand after a block: the beginning of the list, what it had, or the
next task. The memory has not changed. -/
theorem Goes.register_cases (hg : Goes ids t m p m' p') {o : Option τ} (ho : register p' = some o) :
    m' = m ∧ edit p = none ∧ (o = m.taskList ∨ register p = some o ∨ ∃ u, register p = some (some u) ∧ o = m.links (.next u)) := by
  cases hg with
  | search => exact ⟨rfl, rfl, .inl (Option.some.inj ho).symm⟩
  | miss => exact ⟨rfl, rfl, .inr (.inl ho)⟩
  | next caller q u => exact ⟨rfl, rfl, .inr (.inr ⟨u, rfl, (Option.some.inj ho).symm⟩)⟩
  | clear maker u name pri =>
    split at ho <;> cases ho
  | found hf =>
    cases hf with
    | unlocks => cases ho
    | plain hp =>
      rw [register_plain hp] at ho
      cases ho
  | wipe _ _ hp' =>
    rw [register_plain hp'] at ho
    cases ho
  | field _ _ hp' =>
    rw [register_plain hp'] at ho
    cases ho
  | plain _ hp' =>
    rw [register_plain hp'] at ho
    cases ho
  | _ => cases ho

/-- A control block is about to be linked after a block that has just cleared it, or if it
was before. -/
theorem Goes.making_cases (hg : Goes ids t m p m' p') {u : τ} (hu : making p' = some u) :
    edit p = none ∧ (m' = m ∧ making p = some u ∨ wipes m p = some u ∧ m'.links (.next u) = none) := by
  cases hg with
  | clear maker u' name pri =>
    split at hu
    · obtain rfl := Option.some.inj hu
      refine ⟨rfl, .inr ⟨rfl, ?_⟩⟩
      rw [Mem.links_setTcb, Function.update_self]
      rfl
    · cases hu
  | initOn => exact ⟨rfl, .inl ⟨rfl, hu⟩⟩
  | initEnd => exact ⟨rfl, .inl ⟨rfl, hu⟩⟩
  | found hf =>
    cases hf with
    | unlocks => cases hu
    | plain hp =>
      rw [making_plain hp] at hu
      cases hu
  | wipe _ _ hp' =>
    rw [making_plain hp'] at hu
    cases hu
  | field _ _ hp' =>
    rw [making_plain hp'] at hu
    cases hu
  | plain _ hp' =>
    rw [making_plain hp'] at hu
    cases hu
  | _ => cases hu

theorem Goes.holding_cases (hg : Goes ids t m p m' p') (h : holding p' = true) :
    holding p = true ∨ ∃ maker name pri, p = .initTest maker none name pri 0 := by
  cases hg with
  | broken maker name pri => exact .inr ⟨maker, name, pri, rfl⟩
  | found hf =>
    cases hf with
    | unlocks hlocked => exact .inl hlocked
    | plain hp =>
      rw [holding_plain hp] at h
      cases h
  | wipe _ _ hp' =>
    rw [holding_plain hp'] at h
    cases h
  | field _ _ hp' =>
    rw [holding_plain hp'] at h
    cases h
  | plain _ hp' =>
    rw [holding_plain hp'] at h
    cases h
  | search | ended | hit | miss | next => exact .inl h
  | _ => exact .inl rfl

/-- Without the lock a block changes the link of a control block only by overwriting it. -/
theorem Goes.links_next (hg : Goes ids t m p m' p') (hnot : holding p = false) {u : τ} (hw : wipes m p ≠ some u) :
    m'.links (.next u) = m.links (.next u) := by
  cases hg with
  | wipe hv =>
    rw [Mem.links_setTcb]
    exact Function.update_of_ne (fun he => hw (by rw [Cell.next.inj he]; exact hv)) ..
  | field hb => rw [Mem.links_setTcb_same hb]
  | clear | link | unlink => cases hnot
  | _ => rfl

/-! ### Every step -/

omit [DecidableEq τ] [DecidableEq θ] in
theorem Sound.alone (h : Sound l s) {u v : θ} (hu : holding (s.ctl u).point = true)
    (hv : holding (s.ctl v).point = true) : u = v :=
  Option.some.inj ((h.holds u hu).symm.trans (h.holds v hv))

omit [DecidableEq τ] [DecidableEq θ] in
theorem Sound.not_on_way (h : Sound l s) {u : τ} (hu : ¬ OnWay s.mem s.mem.taskList u) : u ∉ l := fun hin =>
  hu ⟨l, chain_iff_way.mp h.chain, hin⟩

omit [DecidableEq τ] in
/-- A mutex is taken or given up: nothing changes for the readers. -/
theorem Sound.sync (h : Sound l s) (hother : ∀ v ≠ t, s'.ctl v = s.ctl v) (hp' : s'.ctl t = .awake p')
    (hmem : s'.mem = s.mem) (hreg : register p' = none) (hmake : making p' = none) (hplaced : Placed l p')
    (hholds : ∀ v, holding (s'.ctl v).point = true → s'.owner .taskListLock = some v) : Sound l s' := by
  have hmaking : ∀ w u, making (s'.ctl w).point = some u → making (s.ctl w).point = some u := by
    intro w u hu
    by_cases hwt : w = t
    · rw [hwt, hp', Ctl.point_awake, hmake] at hu
      cases hu
    · rwa [hother w hwt] at hu
  refine ⟨hmem ▸ h.chain, fun v o ho => ?_, fun v u hu => hmem ▸ h.made v u (hmaking v u hu), hholds, fun v => ?_⟩
  · by_cases hvt : v = t
    · rw [hvt, hp', Ctl.point_awake, hreg] at ho
      cases ho
    · rw [hother v hvt] at ho
      obtain ⟨way, hr, hout⟩ := h.ahead v o ho
      exact ⟨way, hmem ▸ hr, fun w u hu => hout w u (hmaking w u hu)⟩
  · by_cases hvt : v = t
    · rwa [hvt, hp']
    · rw [hother v hvt]
      exact h.placed v

omit [DecidableEq τ] [DecidableEq θ] in
theorem Sound.quiet (h : Sound l s) {v : θ} (hp : s.ctl t = .awake p) (hvt : v ≠ t)
    (hv : holding (s.ctl v).point = true) : holding p = false := by
  refine Bool.eq_false_iff.mpr fun ht => hvt (h.alone hv ?_)
  rwa [hp]

/-- Who is about to link a control block after a block was before, or has just cleared it; the
list has not changed. -/
theorem Sound.making_block (h : Sound l s) (hother : ∀ v ≠ t, s'.ctl v = s.ctl v) (hp : s.ctl t = .awake p)
    (hp' : s'.ctl t = .awake p') (hg : Goes ids t s.mem p s'.mem p') {w : θ} {u : τ}
    (hu : making (s'.ctl w).point = some u) :
    edit p = none ∧ (making (s.ctl w).point = some u ∨ wipes s.mem p = some u) := by
  by_cases hwt : w = t
  · subst hwt
    rw [hp', Ctl.point_awake] at hu
    rw [hp, Ctl.point_awake]
    obtain ⟨hedit, ⟨_, hu⟩ | ⟨hu, _⟩⟩ := hg.making_cases hu
    · exact ⟨hedit, .inl hu⟩
    · exact ⟨hedit, .inr hu⟩
  · rw [hother w hwt] at hu
    exact ⟨edit_not_holding (h.quiet hp hwt (holding_making hu)), .inl hu⟩

/-- A block leaves every lookup its way, up to what it does to the list. -/
theorem Sound.ahead_block (h : Sound l s) (hp : s.ctl t = .awake p) (hg : Goes ids t s.mem p m' p')
    (hunused : ∀ u, wipes s.mem p = some u → ¬ OnWay s.mem s.mem.taskList u ∧
      ∀ v, (∀ o, register (s.ctl v).point = some o → ¬ OnWay s.mem o u) ∧ making (s.ctl v).point ≠ some u)
    {v : θ} {o : Option τ} (ho : register (s.ctl v).point = some o) :
    ∃ way way', Way s.mem.links o way ∧ (∀ w u, making (s.ctl w).point = some u → u ∉ way) ∧
      (∀ u, wipes s.mem p = some u → u ∉ way) ∧ Ahead m'.links (Lookups.edited l (edit p)) o way' ∧
      Onward (edit p) o way way' := by
  obtain ⟨way, hr, hout⟩ := h.ahead v o ho
  have hplaced : Placed l p := by simpa [hp] using h.placed t
  have hmakes : ∀ u, making p = some u → making (s.ctl t).point = some u := fun u hu => by rwa [hp]
  have hwipe : ∀ u, wipes s.mem p = some u → u ∉ way := fun u hu hin =>
    ((hunused u hu).2 v).1 o ho ⟨way, hr.leads, hin⟩
  obtain ⟨way', hr', honward⟩ := hg.ahead h.chain hplaced hr
    (fun u hu => ⟨(h.made t u (hmakes u hu)).1, (h.made t u (hmakes u hu)).2, hout t u (hmakes u hu)⟩) hwipe
  exact ⟨way, way', hr.leads, hout, hwipe, hr', honward⟩

/-- A block runs. -/
theorem Sound.block (h : Sound l s) (hother : ∀ v ≠ t, s'.ctl v = s.ctl v) (hp : s.ctl t = .awake p)
    (hp' : s'.ctl t = .awake p') (hg : Goes ids t s.mem p s'.mem p') (hown : s'.owner = s.owner)
    (hgiven : ∀ maker name pri, p ≠ .initTest maker none name pri 0)
    (hunused : ∀ u, wipes s.mem p = some u → ¬ OnWay s.mem s.mem.taskList u ∧
      ∀ v, (∀ o, register (s.ctl v).point = some o → ¬ OnWay s.mem o u) ∧ making (s.ctl v).point ≠ some u) :
    Sound (Lookups.edited l (edit p)) s' := by
  have hplaced : Placed l p := by simpa [hp] using h.placed t
  have hmakes : ∀ u, making p = some u → making (s.ctl t).point = some u := fun u hu => by rwa [hp]
  have hholding : ∀ v, holding (s'.ctl v).point = true → holding (s.ctl v).point = true := by
    intro v hv
    by_cases hvt : v = t
    · subst hvt
      rw [hp', Ctl.point_awake] at hv
      rw [hp, Ctl.point_awake]
      obtain hv | ⟨maker, name, pri, heq⟩ := hg.holding_cases hv
      · exact hv
      · exact absurd heq (hgiven maker name pri)
    · rwa [hother v hvt] at hv
  refine ⟨?_, fun v o ho => ?_, fun v u hu => ?_, fun v hv => hown ▸ h.holds v (hholding v hv), fun v => ?_⟩
  · exact hg.chain h.chain hplaced (fun u hu => h.made t u (hmakes u hu)) fun u hu => h.not_on_way (hunused u hu).1
  · have hlater : ∀ o, register (s.ctl v).point = some o → ∃ way, Ahead s'.mem.links (Lookups.edited l (edit p)) o way ∧
        ∀ w u, making (s'.ctl w).point = some u → u ∉ way := by
      intro o ho
      obtain ⟨way, way', _, hout, hwipe, hr', honward⟩ := h.ahead_block hp hg hunused ho
      refine ⟨way', hr', fun w u hu => ?_⟩
      obtain ⟨hedit, hu⟩ := h.making_block hother hp hp' hg hu
      have hnot : u ∉ way := hu.elim (hout w u) (hwipe u)
      cases honward with
      | same => exact hnot
      | linked he => exact nomatch hedit.symm.trans he
      | unlinked he => exact nomatch hedit.symm.trans he
    by_cases hvt : v = t
    · subst hvt
      rw [hp', Ctl.point_awake] at ho
      have hmake : making p' = none := by cases p' <;> first | rfl | cases ho
      have hbefore : ∀ w u, making (s'.ctl w).point = some u → making (s.ctl w).point = some u := by
        intro w u hu
        by_cases hwt : w = v
        · rw [hwt, hp', Ctl.point_awake, hmake] at hu
          cases hu
        · rwa [hother w hwt] at hu
      obtain ⟨hmem, hedit, rfl | hsame | ⟨a, ha, rfl⟩⟩ := hg.register_cases ho
      · rw [hmem, hedit]
        exact ⟨l, Ahead.start h.chain, fun w u hu => (h.made w u (hbefore w u hu)).1⟩
      · exact hlater o (by rwa [hp])
      · obtain ⟨way, hr, hout⟩ := h.ahead v (some a) (by rwa [hp])
        obtain ⟨rest, rfl, hrest⟩ := hr.next
        rw [hmem, hedit]
        exact ⟨rest, hrest, fun w u hu hin => hout w u (hbefore w u hu) (List.mem_cons_of_mem _ hin)⟩
    · rw [hother v hvt] at ho
      exact hlater o ho
  · obtain ⟨hedit, _⟩ := h.making_block hother hp hp' hg hu
    rw [hedit]
    by_cases hvt : v = t
    · subst hvt
      rw [hp', Ctl.point_awake] at hu
      obtain ⟨_, ⟨hmem, hu⟩ | ⟨hu, hnull⟩⟩ := hg.making_cases hu
      · rw [hmem]
        exact h.made v u (hmakes u hu)
      · exact ⟨h.not_on_way (hunused u hu).1, hnull⟩
    · rw [hother v hvt] at hu
      obtain ⟨hout, hnull⟩ := h.made v u hu
      exact ⟨hout, (hg.links_next (h.quiet hp hvt (holding_making hu)) fun hw => ((hunused u hw).2 v).2 hu).trans hnull⟩
  · by_cases hvt : v = t
    · rw [hvt, hp']
      exact hg.placed h.chain hplaced
    · rw [hother v hvt]
      by_cases hv : holding (s.ctl v).point = true
      · rw [edit_not_holding (h.quiet hp hvt hv)]
        exact h.placed v
      · exact .of_not_holding (Bool.eq_false_iff.mpr hv) _

omit [DecidableEq τ] [DecidableEq θ] in
theorem Takes.still (h : Takes p p') : edit p = none ∧ register p' = none ∧ making p' = none := by
  cases h <;> exact ⟨rfl, rfl, rfl⟩

theorem sound_step (h : Sound l s) (hs : Step (code ids) t s s') (hok : Proper ⟨s, t, s'⟩) :
    Sound (Lookups.edited l (edit (s.ctl t).point)) s' := by
  obtain ⟨p, p', hp, hp', hact⟩ := step_cases hs
  have hother : ∀ v ≠ t, s'.ctl v = s.ctl v := fun v hv => hs.ctl_other hv
  have hplaced : Placed l p := by simpa [hp] using h.placed t
  obtain ⟨hgiven, hunused⟩ := hok
  simp only [hp, Ctl.point_awake] at hgiven hunused ⊢
  cases hact with
  | takes htakes hfree hown hmem =>
    obtain ⟨hedit, hreg, hmake⟩ := htakes.still
    rw [hedit]
    refine h.sync hother hp' hmem hreg hmake ?_ fun v hv => ?_
    · cases htakes with
      | remove cause u => exact ⟨[], l, rfl, rfl, List.not_mem_nil⟩
      | _ => trivial
    · by_cases hvt : v = t
      · rw [hvt, hown]
      · rw [hother v hvt] at hv
        rw [h.holds v hv] at hfree
        cases hfree
  | gives hown hmem =>
    have hplain : p'.plain = true := hplaced
    refine h.sync hother hp' hmem (register_plain hplain) (making_plain hplain)
      (.of_not_holding (holding_plain hplain) l) fun v hv => ?_
    by_cases hvt : v = t
    · rw [hvt, hp', Ctl.point_awake, holding_plain hplain] at hv
      cases hv
    · rw [hother v hvt] at hv
      exact absurd (h.alone hv (by rw [hp]; rfl)) hvt
  | goes hg hown => exact h.block hother hp hp' hg hown hgiven hunused

omit [DecidableEq τ] [DecidableEq θ] in
theorem Initial.sound (h : Initial l s) : Sound l s := by
  refine ⟨h.chain, fun v o ho => ?_, fun v u hu => ?_, fun v hv => ?_, fun v => ?_⟩
  · rw [h.point v] at ho
    cases ho
  · rw [h.point v] at hu
    cases hu
  · rw [h.point v] at hv
    cases hv
  · rw [h.point v]
    trivial

theorem sound {tr : List (ListTransition θ τ)} (hr : Run (code ids) (Initial l) tr s) (hok : ∀ y ∈ tr, Proper y) :
    Sound (listed l tr) s := by
  induction hr with
  | start hi => exact hi.sound
  | step _ hs ih =>
    exact sound_step (ih fun y hy => hok y (List.mem_cons_of_mem _ hy)) hs (hok _ (List.mem_cons_self ..))

end

end V2lin.TaskList
