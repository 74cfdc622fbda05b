import V2lin.TaskLib.Ids
import V2lin.TaskList.Ways

/-! What a lookup finds while the list changes.

A loop along the list tests one control block after another. Seen from its end: what it has
tested has been on the list since it began; and the control blocks that have stayed on the list
all the while, `kept`, have been tested in their order, up to the one it has found. With the
lock these are all there are. -/
namespace V2lin.TaskList
open Threads V2lin.Lists

section
variable {θ τ : Type} [DecidableEq θ] [DecidableEq τ]

/-! ### Histories -/

/-- What is left of the list `l` after the steps `w`, newest first. -/
def kept (l : List τ) (w : List (ListTransition θ τ)) : List τ :=
  w.foldr (fun y k => match edit (y.pre.ctl y.thread).point with
    | some (.unlink z) => k.filter (· ≠ z)
    | _ => k) l

/-- The list `l`, and what the steps `w` have appended. -/
def met (l : List τ) (w : List (ListTransition θ τ)) : List τ :=
  w.foldr (fun y k => match edit (y.pre.ctl y.thread).point with
    | some (.link n) => k ++ [n]
    | _ => k) l

/-- The control block that thread `t` tests in a step, with what it holds then. -/
def visit (t : θ) (y : ListTransition θ τ) : Option (τ × Tcb θ τ) :=
  if y.thread = t then
    match (y.pre.ctl t).point with
    | .test _ _ (some u) => some (u, y.pre.mem.tcb u)
    | _ => none
  else none

/-- The control blocks that thread `t` tests in the steps `w`, in turn. -/
def visits (t : θ) (w : List (ListTransition θ τ)) : List (τ × Tcb θ τ) := (w.filterMap (visit t)).reverse

/-- The step `x` begins a loop, and the thread is in it in the steps `w` that follow. -/
structure Loop (caller : Caller τ) (q : Search) (x : ListTransition θ τ) (w : List (ListTransition θ τ)) : Prop where
  begins : (x.pre.ctl x.thread).point = .search caller q
  within : ∀ y ∈ w, y.thread = x.thread → (register (y.pre.ctl x.thread).point).isSome = true

variable {ids : τ → ℤ} {t v : θ} {l : List τ} {tr w : List (ListTransition θ τ)} {x y : ListTransition θ τ}
variable {s s' : ListState θ τ} {caller : Caller τ} {q q' : Search} {o r : Option τ} {u : τ}

omit [DecidableEq θ] in
theorem mem_kept (hu : u ∈ l) (hstay : ∀ y ∈ w, edit (y.pre.ctl y.thread).point ≠ some (.unlink u)) : u ∈ kept l w := by
  induction w with
  | nil => exact hu
  | cons y w ih =>
    have hin := ih fun z hz => hstay z (List.mem_cons_of_mem _ hz)
    have hy := hstay y (List.mem_cons_self ..)
    simp only [kept, List.foldr_cons] at hin ⊢
    split
    · rename_i z hz
      exact List.mem_filter.mpr ⟨hin, decide_eq_true fun he => hy (he ▸ hz)⟩
    · exact hin

omit [DecidableEq τ] in
theorem visits_cons (t : θ) (y : ListTransition θ τ) (w : List (ListTransition θ τ)) :
    visits t (y :: w) = visits t w ++ (visit t y).toList := by
  unfold visits
  cases h : visit t y with
  | none => simp [h]
  | some b => simp [h]

omit [DecidableEq τ] in
theorem mem_visits {b : τ × Tcb θ τ} (h : b ∈ visits t w) : ∃ y ∈ w, y.thread = t ∧ b.2 = y.pre.mem.tcb b.1 := by
  obtain ⟨y, hy, hb⟩ := List.mem_filterMap.mp (List.mem_reverse.mp h)
  refine ⟨y, hy, ?_⟩
  unfold visit at hb
  split at hb
  · rename_i ht
    split at hb
    · obtain rfl := Option.some.inj hb
      exact ⟨ht, rfl⟩
    · cases hb
  · cases hb

/-! ### One step -/

omit [DecidableEq τ] in
theorem pass_hit (t : θ) (q : Search) (b c : Tcb θ τ) : (q.pass b).hit t c = q.hit t c := by
  cases q <;> rfl

/-- A step of another thread leaves a reader its way, up to what it does to the list. -/
theorem Sound.onward (h : Sound l s) (hs : Step (code ids) t s s') (hok : Proper ⟨s, t, s'⟩)
    {way : List τ} (ho : register (s.ctl v).point = some o) (hway : Way s.mem.links o way) :
    ∃ way', Way s'.mem.links o way' ∧ Onward (edit (s.ctl t).point) o way way' := by
  obtain ⟨p, p', hp, _, hact⟩ := step_cases hs
  cases hact with
  | takes _ _ _ hmem => exact ⟨way, hmem ▸ hway, .same⟩
  | gives _ hmem => exact ⟨way, hmem ▸ hway, .same⟩
  | goes hg _ =>
    have hunused := hok.unused
    simp only [hp, Ctl.point_awake] at hunused ⊢
    obtain ⟨way₀, way', hway₀, _, _, hr', honward⟩ := h.ahead_block hp hg hunused ho
    obtain rfl := hway.unique hway₀
    exact ⟨way', hr'.leads, honward⟩

/-- What is left of a reader's way behind the control block it is at. -/
theorem Onward.tail {e : Option (ListEdit τ)} {rest way' : List τ} (h : Onward e (some u) (u :: rest) way') :
    ∃ rest', way' = u :: rest' ∧ Onward e (some u) rest rest' := by
  cases h with
  | same => exact ⟨rest, rfl, .same⟩
  | linked he => exact ⟨_, rfl, .linked he⟩
  | unlinked he hne =>
    refine ⟨_, List.filter_cons_of_pos (decide_eq_true fun h => hne (congrArg some h)), .unlinked he hne⟩

/-- What a loop has before it, `ahead`, when it has tested `seen` since the list was `l`. -/
structure Scans (caller : Caller τ) (l : List τ) (w : List (ListTransition θ τ)) (seen ahead : List τ) : Prop where
  kept : (kept l w).Sublist (seen ++ ahead)
  met : ∀ u ∈ seen ++ ahead, u ∈ met l w
  locked : caller.locked = true → seen ++ ahead = l ∧ ∀ y ∈ w, edit (y.pre.ctl y.thread).point = none

omit [DecidableEq θ] in
/-- A step that does something to the list does it to what the loop has before it. -/
theorem Scans.step {seen ahead ahead' : List τ} (h : Scans caller l w seen ahead)
    (hon : Onward (edit (y.pre.ctl y.thread).point) o ahead ahead')
    (hlocked : caller.locked = true → edit (y.pre.ctl y.thread).point = none) :
    Scans caller l (y :: w) seen ahead' := by
  have hsame : caller.locked = true → ahead' = ahead := by
    intro hl
    cases hon with
    | same => rfl
    | linked he => exact nomatch (hlocked hl).symm.trans he
    | unlinked he => exact nomatch (hlocked hl).symm.trans he
  refine ⟨?_, ?_, fun hl => ?_⟩
  · simp only [TaskList.kept, List.foldr_cons]
    cases hon with
    | same =>
      split
      · exact List.filter_sublist.trans h.kept
      · exact h.kept
    | linked he =>
      rw [he, ← List.append_assoc]
      exact h.kept.trans (List.sublist_append_left ..)
    | @unlinked z he =>
      rw [he]
      have hfilter := h.kept.filter (· ≠ z)
      rw [List.filter_append] at hfilter
      exact hfilter.trans ((List.append_sublist_append_right _).mpr List.filter_sublist)
  · intro u hu
    simp only [TaskList.met, List.foldr_cons]
    cases hon with
    | same =>
      split
      · exact List.mem_append_left _ (h.met u hu)
      · exact h.met u hu
    | linked he =>
      rw [he]
      rw [← List.append_assoc] at hu
      obtain hu | hu := List.mem_append.mp hu
      · exact List.mem_append_left _ (h.met u hu)
      · exact List.mem_append_right _ hu
    | unlinked he =>
      rw [he]
      obtain hu | hu := List.mem_append.mp hu
      · exact h.met u (List.mem_append_left _ hu)
      · exact h.met u (List.mem_append_right _ (List.mem_of_mem_filter hu))
  · obtain ⟨hall, hquiet⟩ := h.locked hl
    rw [hsame hl]
    exact ⟨hall, List.forall_mem_cons.mpr ⟨hlocked hl, hquiet⟩⟩

omit [DecidableEq θ] in
theorem Scans.pass {seen rest : List τ} (h : Scans caller l w seen (u :: rest)) :
    Scans caller l w (seen ++ [u]) rest := by
  obtain ⟨hkept, hmet, hlocked⟩ := h
  rw [List.append_cons] at hkept hmet hlocked
  exact ⟨hkept, hmet, hlocked⟩

/-! ### A whole loop -/

/-- What a loop has collected from the control blocks it has tested. -/
def collected (q : Search) (seen : List (τ × Tcb θ τ)) : Search := seen.foldl (fun q b => q.pass b.2) q

/-- One of the steps `w` of thread `t` has tested `u`, which held `b`, with `rest` behind it. -/
def Tested (t : θ) (w : List (ListTransition θ τ)) (u : τ) (b : Tcb θ τ) (rest : List τ) : Prop :=
  ∃ y ∈ w, visit t y = some (u, b) ∧ Way y.pre.mem.links (some u) (u :: rest)

/-- Where a loop of thread `t` is that began with the list `l`, after the steps `w`. -/
inductive Scanning (t : θ) (caller : Caller τ) (q : Search) (l : List τ) (w : List (ListTransition θ τ))
    (s : ListState θ τ) : Pc τ → Prop where
  | test {o : Option τ} {way : List τ} : (∀ b ∈ visits t w, q.hit t b.2 = some false) → Way s.mem.links o way →
      Scans caller l w ((visits t w).map Prod.fst) way → Scanning t caller q l w s (.test caller (collected q (visits t w)) o)
  | next {u : τ} {rest : List τ} : (∀ b ∈ visits t w, q.hit t b.2 = some false) → Way s.mem.links (some u) (u :: rest) →
      Scans caller l w ((visits t w).map Prod.fst) rest → Scanning t caller q l w s (.next caller (collected q (visits t w)) u)
  | missed : (∀ b ∈ visits t w, q.hit t b.2 = some false) → Scans caller l w ((visits t w).map Prod.fst) [] →
      Scanning t caller q l w s (.found caller (collected q (visits t w)) none)
  | found {seen : List (τ × Tcb θ τ)} {u : τ} {b : Tcb θ τ} {rest : List τ} : visits t w = seen ++ [(u, b)] →
      (∀ c ∈ seen, q.hit t c.2 = some false) → q.hit t b = some true → Tested t w u b rest →
      Scans caller l w (seen.map Prod.fst ++ [u]) rest → Scanning t caller q l w s (.found caller (collected q seen) (some u))

omit [DecidableEq τ] in
theorem collected_hit (t : θ) (q : Search) (seen : List (τ × Tcb θ τ)) (c : Tcb θ τ) :
    (collected q seen).hit t c = q.hit t c := by
  unfold collected
  induction seen generalizing q with
  | nil => rfl
  | cons b seen ih => exact (ih (q.pass b.2)).trans (pass_hit t q b.2 c)

/-- A step of another thread. -/
theorem Scanning.other (h : Scanning t caller q l w y.pre (y.pre.ctl t).point) {l₀ : List τ} (hsound : Sound l₀ y.pre)
    (hs : Step (code ids) y.thread y.pre y.post) (hok : Proper y) (hne : y.thread ≠ t) :
    Scanning t caller q l (y :: w) y.post (y.post.ctl t).point := by
  have hvisits : visits t (y :: w) = visits t w := by
    rw [visits_cons, visit, if_neg hne, Option.toList_none, List.append_nil]
  have hlocked : holding (y.pre.ctl t).point = true → edit (y.pre.ctl y.thread).point = none := fun ht =>
    edit_not_holding (Bool.eq_false_iff.mpr fun hu => hne (hsound.alone hu ht))
  rw [hs.ctl_other (Ne.symm hne)]
  generalize hp : (y.pre.ctl t).point = p at h hlocked
  cases h with
  | test hmiss hway hscan =>
    obtain ⟨way', hway', hon⟩ := hsound.onward hs hok (v := t) (by rw [hp]; rfl) hway
    rw [← hvisits] at hmiss hscan ⊢
    exact .test hmiss hway' (hscan.step hon hlocked)
  | next hmiss hway hscan =>
    obtain ⟨way', hway', hon⟩ := hsound.onward hs hok (v := t) (by rw [hp]; rfl) hway
    obtain ⟨rest', rfl, hrest⟩ := hon.tail
    rw [← hvisits] at hmiss hscan ⊢
    exact .next hmiss hway' (hscan.step hrest hlocked)
  | missed hmiss hscan =>
    rw [← hvisits] at hmiss hscan ⊢
    exact .missed hmiss (hscan.step (o := none) .same hlocked)
  | found heq hmiss hhit htested hscan =>
    obtain ⟨z, hz, htest, hway⟩ := htested
    exact .found (hvisits.trans heq) hmiss hhit ⟨z, List.mem_cons_of_mem _ hz, htest, hway⟩
      (hscan.step (o := none) .same hlocked)

/-- A step of the loop. -/
theorem Scanning.own (h : Scanning y.thread caller q l w y.pre (y.pre.ctl y.thread).point)
    (hs : Step (code ids) y.thread y.pre y.post) (hin : (register (y.pre.ctl y.thread).point).isSome = true) :
    Scanning y.thread caller q l (y :: w) y.post (y.post.ctl y.thread).point := by
  obtain ⟨p, p', hp, hp', hact⟩ := step_cases hs
  have hvisits := visits_cons y.thread y w
  have hedit : edit (y.pre.ctl y.thread).point = none := by
    rw [hp] at hin ⊢
    cases p <;> first | rfl | cases hin
  have hstep : ∀ {seen ahead : List τ}, Scans caller l w seen ahead → Scans caller l (y :: w) seen ahead :=
    fun hscan => hscan.step (o := none) .same fun _ => hedit
  simp only [visit, if_true, hp, Ctl.point_awake] at hvisits hin h
  rw [hp', Ctl.point_awake]
  cases h with
  | missed => cases hin
  | found => cases hin
  | @test o way hmiss hway hscan =>
    cases hact with
    | takes htakes => cases htakes
    | goes hg _ =>
      generalize hm : y.post.mem = m at hg
      cases hg with
      | ended =>
        cases way with
        | cons a rest => cases hway.1
        | nil =>
          simp only [Option.toList_none, List.append_nil] at hvisits
          rw [← hvisits] at hmiss hscan ⊢
          exact .missed hmiss (hstep hscan)
      | @hit _ _ u hhit =>
        cases way with
        | nil => cases hway
        | cons a rest =>
          obtain rfl := Option.some.inj hway.1
          rw [collected_hit] at hhit
          have htest : visit y.thread y = some (u, y.pre.mem.tcb u) := by simp [visit, hp]
          exact .found hvisits hmiss hhit ⟨y, List.mem_cons_self .., htest, hway⟩ (hstep hscan.pass)
      | @miss _ _ u hmissed =>
        cases way with
        | nil => cases hway
        | cons a rest =>
          obtain rfl := Option.some.inj hway.1
          rw [collected_hit] at hmissed
          have hcollected : (collected q (visits y.thread w)).pass (y.pre.mem.tcb u) = collected q (visits y.thread (y :: w)) := by
            simp [collected, hvisits]
          have hscan' := hscan.pass
          have heq : (visits y.thread w).map Prod.fst ++ [u] = (visits y.thread (y :: w)).map Prod.fst := by simp [hvisits]
          rw [heq] at hscan'
          rw [hcollected]
          refine .next (fun b hb => ?_) (by rw [hm]; exact hway) (hstep hscan')
          rw [hvisits] at hb
          obtain hb | hb := List.mem_append.mp hb
          · exact hmiss b hb
          · rw [List.mem_singleton.mp hb]
            exact hmissed
      | plain hplain => cases hplain
      | field _ hplain => cases hplain
      | wipe _ hplain => cases hplain
  | @next u rest hmiss hway hscan =>
    cases hact with
    | takes htakes => cases htakes
    | goes hg _ =>
      simp only [Option.toList_none, List.append_nil] at hvisits
      generalize hm : y.post.mem = m at hg
      cases hg with
      | next =>
        rw [← hvisits] at hmiss hscan ⊢
        refine .test hmiss ?_ (hstep hscan)
        rw [hm]
        exact chain_iff_way.mp hway.2
      | plain hplain => cases hplain
      | field _ hplain => cases hplain
      | wipe _ hplain => cases hplain

omit [DecidableEq θ] in
/-- The step that begins a loop leaves the list alone. -/
theorem Loop.listed_start (h : Loop caller q x w) : listed l (x :: tr) = listed l tr := by
  simp only [listed, List.foldr_cons, h.begins]
  rfl

theorem scanning (hr : Run (code ids) (Initial l) (w ++ x :: tr) s) (hok : ∀ y ∈ w ++ x :: tr, Proper y)
    (hloop : Loop caller q x w) :
    Scanning x.thread caller q (listed l (x :: tr)) w s (s.ctl x.thread).point := by
  have hsuffix : ∀ later, later <:+ w → ∀ y ∈ later ++ x :: tr, Proper y := fun later hl y hy =>
    hok y ((List.mem_append.mp hy).elim (fun h => List.mem_append_left _ (hl.subset h)) fun h => List.mem_append_right _ h)
  refine hr.since (fun w s => Scanning x.thread caller q (listed l (x :: tr)) w s (s.ctl x.thread).point) ?_ ?_
  · have hsound := sound hr.before fun y hy => hok y (by simp [hy])
    have hs := hr.steps x (by simp)
    obtain ⟨p, _, hp, _, _⟩ := step_cases hs
    have hbegins := hloop.begins
    rw [hp, Ctl.point_awake] at hbegins
    subst hbegins
    obtain ⟨_, p', hb, hp', _⟩ := hs.block hp rfl
    obtain ⟨hmem, rfl⟩ := Prod.mk.inj (Option.some.inj hb)
    rw [hp', Ctl.point_awake, hloop.listed_start]
    have hway : Way x.post.mem.links x.pre.mem.taskList (listed l tr) := hmem ▸ chain_iff_way.mp hsound.chain
    exact .test (fun b hb => by cases hb) hway
      ⟨List.Sublist.refl _, fun u hu => hu, fun _ => ⟨rfl, fun y hy => by cases hy⟩⟩
  · intro y later hy hs hscan
    have hlater : later <:+ w := (List.suffix_cons y later).trans hy
    obtain ⟨newer, hnewer⟩ := hy
    have hrun : Run (code ids) (Initial l) (later ++ x :: tr) y.pre := by
      rw [← hnewer, List.append_assoc] at hr
      exact hr.before
    have hin : y ∈ w := hnewer ▸ List.mem_append_right _ (List.mem_cons_self ..)
    by_cases hty : y.thread = x.thread
    · have hreg := hloop.within y hin hty
      rw [← hty] at hscan hreg ⊢
      exact hscan.own hs hreg
    · exact hscan.other (sound hrun (hsuffix later hlater)) hs (hok y (List.mem_append_left _ hin)) hty

/-! ### Results -/

/-- The links from `task_list` on go through the control blocks that have been appended and
not been taken out; and a lookup, with a lock or without, has a way before it, through some
that have been taken out and then the rest of the list, so it ends if the list rests. -/
theorem list_linked (hr : Run (code ids) (Initial l) tr s) (hok : ∀ y ∈ tr, Proper y) :
    Chain s.mem.links (.head ()) (listed l tr) ∧
      ∀ v o, register (s.ctl v).point = some o → ∃ gone rest, Way s.mem.links o (gone ++ rest) ∧
        rest <:+ listed l tr ∧ ∀ u ∈ gone, u ∉ listed l tr := by
  have h := sound hr hok
  refine ⟨h.chain, fun v o ho => ?_⟩
  obtain ⟨_, ⟨hway, gone, rest, rfl, hsuffix, hgone⟩, _⟩ := h.ahead v o ho
  exact ⟨gone, rest, hway, hsuffix, hgone⟩

/-- A loop that is over has tested control blocks that were on the list at some time since it
began, none of which was what it looks for before the one it has found. Those that have
stayed on the list are among them, in their order, up to the one that is found: the others
were behind it when it was tested. With the lock these are all there are. -/
theorem lookup_answers (hr : Run (code ids) (Initial l) (w ++ x :: tr) s) (hok : ∀ y ∈ w ++ x :: tr, Proper y)
    (hloop : Loop caller q x w) (hend : (s.ctl x.thread).point = .found caller q' r) :
    ∃ seen : List (τ × Tcb θ τ), q' = collected q seen ∧ (∀ b ∈ seen, q.hit x.thread b.2 = some false) ∧
      match r with
      | none => visits x.thread w = seen ∧ Scans caller (listed l (x :: tr)) w (seen.map Prod.fst) []
      | some u => ∃ b rest, visits x.thread w = seen ++ [(u, b)] ∧ q.hit x.thread b = some true ∧
          Tested x.thread w u b rest ∧ Scans caller (listed l (x :: tr)) w (seen.map Prod.fst ++ [u]) rest := by
  have h := scanning hr hok hloop
  rw [hend] at h
  cases h with
  | missed hmiss hscan => exact ⟨_, rfl, hmiss, rfl, hscan⟩
  | found heq hmiss hhit htested hscan => exact ⟨_, rfl, hmiss, _, _, heq, hhit, htested, hscan⟩

/-- `my_task` takes no lock, and finds the caller's own control block: while the caller's
handle is in this one only, and it stays on the list, or in none. -/
theorem my_task_right (hr : Run (code ids) (Initial l) (w ++ x :: tr) s) (hok : ∀ y ∈ w ++ x :: tr, Proper y)
    (hloop : Loop caller .me x w) (hend : (s.ctl x.thread).point = .found caller q' r) {own : Option τ}
    (hown : ∀ y ∈ w, ∀ u, (y.pre.mem.tcb u).pthrid = some x.thread ↔ own = some u)
    (hstay : ∀ u, own = some u → u ∈ listed l (x :: tr) ∧ ∀ y ∈ w, edit (y.pre.ctl y.thread).point ≠ some (.unlink u)) :
    r = own := by
  obtain ⟨seen, _, hmiss, hr⟩ := lookup_answers hr hok hloop hend
  cases r with
  | none =>
    obtain ⟨hvisits, hscan⟩ := hr
    cases own with
    | none => rfl
    | some u =>
      obtain ⟨hin, hstay⟩ := hstay u rfl
      have hseen := hscan.kept.subset (mem_kept hin hstay)
      rw [List.append_nil] at hseen
      obtain ⟨b, hb, rfl⟩ := List.mem_map.mp hseen
      obtain ⟨y, hy, _, htcb⟩ := mem_visits (hvisits ▸ hb)
      have hno := hmiss b hb
      simp [Search.hit, htcb, (hown y hy b.1).mpr rfl] at hno
  | some u =>
    obtain ⟨b, rest, hvisits, hhit, _⟩ := hr
    obtain ⟨y, hy, _, htcb⟩ := mem_visits (b := (u, b)) (w := w) (t := x.thread) (by rw [hvisits]; simp)
    simp only at htcb
    subst htcb
    exact ((hown y hy u).mp (of_decide_eq_true (Option.some.inj hhit))).symm

omit [DecidableEq θ] in
theorem listed_quiet (hquiet : ∀ y ∈ w, edit (y.pre.ctl y.thread).point = none) :
    listed l (w ++ tr) = listed l tr := by
  induction w with
  | nil => rfl
  | cons y w ih =>
    have hy := hquiet y (List.mem_cons_self ..)
    simp only [listed, List.cons_append, List.foldr_cons, hy, Lookups.edited] at ih ⊢
    exact ih fun z hz => hquiet z (List.mem_cons_of_mem _ hz)

/-- A lookup with the lock is one step: while nobody changes what it looks at, it finds the
first control block with it on the list, as this is at the end. -/
theorem locked_lookup_first (hr : Run (code ids) (Initial l) (w ++ x :: tr) s) (hok : ∀ y ∈ w ++ x :: tr, Proper y)
    (hloop : Loop caller q x w) (hend : (s.ctl x.thread).point = .found caller q' r) (hlocked : caller.locked = true)
    {matching : τ → Bool}
    (hsame : ∀ y ∈ w, ∀ u ∈ listed l (x :: tr), q.hit x.thread (y.pre.mem.tcb u) = some (matching u)) :
    r = (listed l (w ++ x :: tr)).find? matching := by
  obtain ⟨seen, _, hmiss, hr⟩ := lookup_answers hr hok hloop hend
  have htested : ∀ b ∈ visits x.thread w, b.1 ∈ listed l (x :: tr) → q.hit x.thread b.2 = some (matching b.1) := by
    intro b hb hin
    obtain ⟨y, hy, _, htcb⟩ := mem_visits hb
    rw [htcb]
    exact hsame y hy b.1 hin
  cases r with
  | none =>
    obtain ⟨hvisits, hscan⟩ := hr
    obtain ⟨hall, hquiet⟩ := hscan.locked hlocked
    rw [listed_quiet hquiet, ← hall, List.append_nil]
    refine (List.find?_eq_none.mpr fun u hu => ?_).symm
    obtain ⟨b, hb, rfl⟩ := List.mem_map.mp hu
    have hin : b.1 ∈ listed l (x :: tr) := by
      rw [← hall, List.append_nil]
      exact hu
    have hhit := (htested b (hvisits ▸ hb) hin).symm.trans (hmiss b hb)
    rw [Option.some.inj hhit]
    exact Bool.false_ne_true
  | some u =>
    obtain ⟨b, rest, hvisits, hhit, _, hscan⟩ := hr
    obtain ⟨hall, hquiet⟩ := hscan.locked hlocked
    rw [listed_quiet hquiet, ← hall, List.append_assoc]
    refine (List.find?_eq_some_iff_append.mpr ⟨?_, seen.map Prod.fst, rest, rfl, fun v hv => ?_⟩).symm
    · have hfound := htested (u, b) (by rw [hvisits]; simp) (by rw [← hall]; simp)
      exact Option.some.inj (hfound.symm.trans hhit)
    · obtain ⟨c, hc, rfl⟩ := List.mem_map.mp hv
      have hin : c.1 ∈ listed l (x :: tr) := by
        rw [← hall]
        exact List.mem_append_left _ (List.mem_append_left _ hv)
      have hother := (htested c (by rw [hvisits]; simp [hc]) hin).symm.trans (hmiss c hc)
      rw [Option.some.inj hother]
      rfl

/-! ### Identifiers -/

omit [DecidableEq θ] [DecidableEq τ] in
theorem collected_newTid (seen : List (τ × Tcb θ τ)) :
    collected (.newTid 1) seen = .newTid (TaskLib.newTid (seen.map fun b => b.2.taskid)) := by
  have hfold : ∀ n : ℤ, collected (.newTid n) seen = .newTid ((seen.map fun b => b.2.taskid).foldl
      (fun n id => if id < 65536 ∧ id ≥ n then id + 1 else n) n) := by
    induction seen with
    | nil => exact fun n => rfl
    | cons b seen ih => exact fun n => ih _
  exact hfold 1

/-- The identifier that `new_tid` draws, without `task_list_lock`, is larger than that of any
task in sequence that stays on the list with its identifier. -/
theorem drawn_above (hr : Run (code ids) (Initial l) (w ++ x :: tr) s) (hok : ∀ y ∈ w ++ x :: tr, Proper y)
    (hloop : Loop caller (.newTid 1) x w) (hend : (s.ctl x.thread).point = .found caller q' r) {k : ℤ}
    (hin : u ∈ listed l (x :: tr)) (hstay : ∀ y ∈ w, edit (y.pre.ctl y.thread).point ≠ some (.unlink u))
    (hid : ∀ y ∈ w, (y.pre.mem.tcb u).taskid = k) (hsmall : k < 65536) : k < q'.newTaskid := by
  obtain ⟨seen, rfl, _, hr⟩ := lookup_answers hr hok hloop hend
  cases r with
  | some v =>
    obtain ⟨b, _, _, hhit, _⟩ := hr
    cases hhit
  | none =>
    obtain ⟨hvisits, hscan⟩ := hr
    have hseen := hscan.kept.subset (mem_kept hin hstay)
    rw [List.append_nil] at hseen
    obtain ⟨b, hb, rfl⟩ := List.mem_map.mp hseen
    obtain ⟨y, hy, _, htcb⟩ := mem_visits (hvisits ▸ hb)
    rw [collected_newTid]
    refine TaskLib.newTid_gt (List.mem_map.mpr ⟨b, hb, ?_⟩) hsmall
    rw [htcb, hid y hy]

omit [DecidableEq θ] [DecidableEq τ] in
theorem collected_ids (maxIds : ℤ) (seen : List (τ × Tcb θ τ)) :
    collected (.ids maxIds []) seen = .ids maxIds ((seen.map fun b => b.2.taskid).take maxIds.toNat) := by
  have hfold : ∀ list : List ℤ, list.length ≤ maxIds.toNat → collected (.ids maxIds list) seen =
      .ids maxIds (list ++ (seen.map fun b => b.2.taskid).take (maxIds.toNat - list.length)) := by
    induction seen with
    | nil => exact fun list _ => by simp [collected]
    | cons b seen ih =>
      intro list hlen
      have hstep : collected (.ids maxIds list) (b :: seen) = collected ((Search.ids maxIds list).pass b.2) seen := rfl
      rw [hstep, Search.pass]
      by_cases hroom : (list.length : ℤ) < maxIds
      · rw [if_pos hroom, ih _ (by simp; omega), List.append_assoc, List.map_cons,
          show maxIds.toNat - list.length = (maxIds.toNat - (list ++ [b.2.taskid]).length) + 1 by simp; omega]
        rfl
      · rw [if_neg hroom, ih _ hlen, show maxIds.toNat - list.length = 0 by omega]
        rfl
  simpa using hfold [] (Nat.zero_le _)

/-- `taskIdListGet`, without `task_list_lock`, reports the identifiers of control blocks that
were on the list at some time since it began, as far as there is room: of all that stay on
the list, in their order, and perhaps of others. -/
theorem ids_reported (hr : Run (code ids) (Initial l) (w ++ x :: tr) s) (hok : ∀ y ∈ w ++ x :: tr, Proper y) {maxIds : ℤ}
    (hloop : Loop caller (.ids maxIds []) x w) (hend : (s.ctl x.thread).point = .found caller q' r) :
    ∃ seen : List (τ × Tcb θ τ), q'.list = (seen.map fun b => b.2.taskid).take maxIds.toNat ∧
      (kept (listed l (x :: tr)) w).Sublist (seen.map Prod.fst) ∧
      ∀ b ∈ seen, b.1 ∈ met (listed l (x :: tr)) w ∧ ∃ y ∈ w, y.thread = x.thread ∧ b.2 = y.pre.mem.tcb b.1 := by
  obtain ⟨seen, rfl, _, hr⟩ := lookup_answers hr hok hloop hend
  cases r with
  | some v =>
    obtain ⟨b, _, _, hhit, _⟩ := hr
    cases hhit
  | none =>
    obtain ⟨rfl, hscan⟩ := hr
    refine ⟨_, by rw [collected_ids]; rfl, by simpa using hscan.kept, fun b hb => ⟨hscan.met b.1 ?_, mem_visits hb⟩⟩
    exact List.mem_append_left _ (List.mem_map_of_mem hb)

/-! ### Checking runs -/

/-- The way from what is in hand, if it has at most so many control blocks. -/
def wayFrom (m : Mem θ τ) : ℕ → Option τ → Option (List τ)
  | _, none => some []
  | 0, some _ => none
  | n + 1, some u => (wayFrom m n (m.tcb u).nxtTask).map (u :: ·)

/-- `Proper`, where ways have at most `n` control blocks. -/
def checked [Fintype θ] (n : ℕ) (y : ListTransition θ τ) : Bool :=
  (match (y.pre.ctl y.thread).point with
    | .initTest _ none _ _ _ => false
    | _ => true) &&
  match wipes y.pre.mem (y.pre.ctl y.thread).point with
  | none => true
  | some u => (wayFrom y.pre.mem n y.pre.mem.taskList).any (u ∉ ·) &&
      decide (∀ v, (∀ o ∈ register (y.pre.ctl v).point, (wayFrom y.pre.mem n o).any (u ∉ ·) = true) ∧
        making (y.pre.ctl v).point ≠ some u)

omit [DecidableEq θ] [DecidableEq τ] in
theorem way_of_wayFrom {m : Mem θ τ} {n : ℕ} {way : List τ} (h : wayFrom m n o = some way) : Way m.links o way := by
  induction n generalizing o way with
  | zero =>
    cases o with
    | none => exact (Option.some.inj h) ▸ rfl
    | some u => cases h
  | succ n ih =>
    cases o with
    | none => exact (Option.some.inj h) ▸ rfl
    | some u =>
      obtain ⟨rest, hrest, rfl⟩ := Option.map_eq_some_iff.mp h
      exact ⟨rfl, chain_iff_way.mpr (ih hrest)⟩

omit [DecidableEq θ] in
theorem not_on_way_of_any {m : Mem θ τ} {n : ℕ} (h : (wayFrom m n o).any (u ∉ ·) = true) : ¬ OnWay m o u := by
  obtain ⟨way, hway, hu⟩ := (Option.any_eq_true _ _).mp h
  rintro ⟨way', hway', hin⟩
  obtain rfl := (way_of_wayFrom hway).unique hway'
  exact of_decide_eq_true hu hin

omit [DecidableEq θ] in
theorem proper_of_checked [Fintype θ] {n : ℕ} (h : checked n y = true) : Proper y := by
  obtain ⟨hgiven, hunused⟩ := (Bool.and_eq_true_iff ..).mp h
  refine ⟨fun maker name pri hp => ?_, fun u hu => ?_⟩
  · rw [hp] at hgiven
    cases hgiven
  · rw [hu] at hunused
    obtain ⟨hlist, hall⟩ := (Bool.and_eq_true_iff ..).mp hunused
    refine ⟨not_on_way_of_any hlist, fun v => ?_⟩
    obtain ⟨hregister, hmaking⟩ := of_decide_eq_true hall v
    exact ⟨fun o ho => not_on_way_of_any (hregister o ho), hmaking⟩

/-- A schedule whose outcome passes a test gives a proper run with a loop. -/
theorem loop_of_check [Fintype θ] (ids : τ → ℤ) (moves : List (θ × Input (Choice θ τ))) {s₀ : ListState θ τ} (k n : ℕ)
    (test : List (ListTransition θ τ) → ListTransition θ τ → List (ListTransition θ τ) → ListState θ τ → Bool)
    (h₀ : Initial l s₀) (h : (exec (code ids) moves [] s₀).any (fun r => r.1.all (checked n) &&
      (r.1.drop k).head?.any fun x => test (r.1.take k) x (r.1.drop (k + 1)) r.2) = true) :
    ∃ w x tr s, Run (code ids) (Initial l) (w ++ x :: tr) s ∧ (∀ y ∈ w ++ x :: tr, Proper y) ∧ test w x tr s = true := by
  obtain ⟨tr, s, hr, ht⟩ := run_of_check (code ids) moves (fun tr s => tr.all (checked n) &&
    (tr.drop k).head?.any fun x => test (tr.take k) x (tr.drop (k + 1)) s) h₀ h
  obtain ⟨hall, ht⟩ := (Bool.and_eq_true_iff ..).mp ht
  obtain ⟨x, hx, ht⟩ := (Option.any_eq_true _ _).mp ht
  have hdrop : tr.drop k = x :: tr.drop (k + 1) := by
    rw [← List.tail_drop]
    exact List.eq_cons_of_mem_head? hx
  have htr : tr.take k ++ x :: tr.drop (k + 1) = tr := by rw [← hdrop, List.take_append_drop]
  refine ⟨tr.take k, x, tr.drop (k + 1), s, by rwa [htr], ?_, ht⟩
  rw [htr]
  exact fun y hy => proper_of_checked (List.all_eq_true.mp hall y hy)

end

/-! ### A lookup that meets a deletion -/

/-- Three tasks are on the list; the first and the third run in threads. -/
def threeTasks : ListState (Fin 2) (Fin 4) where
  mem := {
    taskList := some 0
    tcb := fun u => ⟨u.val + 1, some "t", if u = 0 then some 0 else if u = 2 then some 1 else none, true, true,
      if u = 0 then some 1 else if u = 1 then some 2 else none⟩ }
  owner := fun _ => none
  signals := fun _ => 0
  ctl := fun _ => .awake .idle

theorem threeTasks_initial : Initial [0, 1, 2] threeTasks := by
  refine ⟨?_, fun _ => rfl, fun _ => rfl⟩
  exact chain_iff_way.mpr (way_of_wayFrom (n := 3) (by decide))

def does (t : Fin 2) (n : ℕ) : List (Fin 2 × Input (Choice (Fin 2) (Fin 4))) := List.replicate n (t, {choice := .none})

def calls (t : Fin 2) (op : Op (Fin 4)) : Fin 2 × Input (Choice (Fin 2) (Fin 4)) := (t, {choice := .call op})

/-- Thread 1 looks along the list and has come to the second task when thread 0 deletes it;
then it goes on to the third, `n` steps more. -/
def deletedUnder (op : Op (Fin 4)) (n : ℕ) : List (Fin 2 × Input (Choice (Fin 2) (Fin 4))) :=
  calls 1 op :: does 1 5 ++ calls 0 (.taskDelete 2) :: does 0 11 ++
    (0, {choice := .memory ⟨0, none, none, true, true, none⟩}) :: does 0 1 ++ does 1 n

/-- The first identifiers of the control blocks. -/
def fourIds (u : Fin 4) : ℤ := u.val + 65536

/-- Thread 1 finds its control block, and the list has been linked all the while. -/
theorem deletedUnder_linked : ∃ (tr : List (ListTransition (Fin 2) (Fin 4))) (s : ListState (Fin 2) (Fin 4)),
    (s.ctl 1).point = .next .myTask .me 1 ∧ listed [0, 1, 2] tr = [0, 2] ∧ Chain s.mem.links (.head ()) [0, 2] ∧
      ∃ gone rest, Way s.mem.links (some 1) (gone ++ rest) ∧ rest <:+ [0, 2] ∧ ∀ u ∈ gone, u ∉ [0, 2] := by
  obtain ⟨w, x, tr, s, hr, hok, hs⟩ := loop_of_check fourIds (deletedUnder .myTask 0) 17 4
    (fun w x tr s => (s.ctl 1).point = .next .myTask .me 1 ∧ listed [0, 1, 2] (w ++ x :: tr) = [0, 2])
    threeTasks_initial (by decide)
  obtain ⟨hpoint, hlist⟩ := of_decide_eq_true hs
  obtain ⟨hchain, hway⟩ := list_linked hr hok
  rw [hlist] at hchain hway
  exact ⟨_, s, hpoint, hlist, hchain, hway 1 (some 1) (by rw [hpoint]; rfl)⟩

/-- Thread 1 has tested the deleted task too. -/
theorem deletedUnder_answers : ∃ (w tr : List (ListTransition (Fin 2) (Fin 4))) (x : ListTransition (Fin 2) (Fin 4))
    (seen : List (Fin 4 × Tcb (Fin 2) (Fin 4))) (b : Tcb (Fin 2) (Fin 4)) (rest : List (Fin 4)),
    listed [0, 1, 2] (w ++ x :: tr) = [0, 2] ∧ visits 1 w = seen ++ [(2, b)] ∧ Tested 1 w 2 b rest ∧
      Scans .myTask (listed [0, 1, 2] (x :: tr)) w (seen.map Prod.fst ++ [2]) rest := by
  obtain ⟨w, x, tr, s, hr, hok, hs⟩ := loop_of_check fourIds (deletedUnder .myTask 2) 19 4
    (fun w x tr s => x.thread = 1 ∧ (x.pre.ctl x.thread).point = .search .myTask .me ∧
      (∀ y ∈ w, y.thread = x.thread → (register (y.pre.ctl x.thread).point).isSome = true) ∧
      (s.ctl x.thread).point = .found .myTask .me (some 2) ∧ listed [0, 1, 2] (w ++ x :: tr) = [0, 2])
    threeTasks_initial (by decide)
  obtain ⟨hthread, hbegins, hwithin, hend, hlist⟩ := of_decide_eq_true hs
  obtain ⟨seen, _, _, b, rest, hvisits, _, htested, hscan⟩ := lookup_answers hr hok ⟨hbegins, hwithin⟩ hend
  exact ⟨w, tr, x, seen, b, rest, hlist, hthread ▸ hvisits, hthread ▸ htested, hscan⟩

theorem deletedUnder_right : ∃ (tr : List (ListTransition (Fin 2) (Fin 4))) (s : ListState (Fin 2) (Fin 4)) (r : Option (Fin 4)),
    listed [0, 1, 2] tr = [0, 2] ∧ (s.ctl 1).point = .found .myTask .me r ∧ r = some 2 := by
  obtain ⟨w, x, tr, s, hr, hok, hs⟩ := loop_of_check fourIds (deletedUnder .myTask 2) 19 4
    (fun w x tr s => x.thread = 1 ∧ (x.pre.ctl x.thread).point = .search .myTask .me ∧
      (∀ y ∈ w, y.thread = x.thread → (register (y.pre.ctl x.thread).point).isSome = true) ∧
      (s.ctl x.thread).point = .found .myTask .me (some 2) ∧ listed [0, 1, 2] (w ++ x :: tr) = [0, 2] ∧
      (∀ y ∈ w, ∀ u : Fin 4, (y.pre.mem.tcb u).pthrid = some x.thread ↔ some (2 : Fin 4) = some u) ∧
      2 ∈ listed [0, 1, 2] (x :: tr) ∧ ∀ y ∈ w, edit (y.pre.ctl y.thread).point ≠ some (.unlink 2))
    threeTasks_initial (by decide)
  obtain ⟨hthread, hbegins, hwithin, hend, hlist, hown, hin, hstay⟩ := of_decide_eq_true hs
  have hright := my_task_right hr hok ⟨hbegins, hwithin⟩ hend hown fun u hu => by
    obtain rfl := Option.some.inj hu
    exact ⟨hin, hstay⟩
  exact ⟨_, s, some 2, hlist, hthread ▸ hend, hright⟩

theorem deletedUnder_reported : ∃ (w tr : List (ListTransition (Fin 2) (Fin 4))) (x : ListTransition (Fin 2) (Fin 4))
    (seen : List (Fin 4 × Tcb (Fin 2) (Fin 4))), [1, 2, 3] = (seen.map fun b => b.2.taskid).take 10 ∧
      (kept (listed [0, 1, 2] (x :: tr)) w).Sublist (seen.map Prod.fst) ∧ kept (listed [0, 1, 2] (x :: tr)) w = [0, 2] := by
  obtain ⟨w, x, tr, s, hr, hok, hs⟩ := loop_of_check fourIds (deletedUnder (.taskIdListGet 10) 4) 21 4
    (fun w x tr s => (x.pre.ctl x.thread).point = .search .taskIdListGet (.ids 10 []) ∧
      (∀ y ∈ w, y.thread = x.thread → (register (y.pre.ctl x.thread).point).isSome = true) ∧
      (s.ctl x.thread).point = .found .taskIdListGet (.ids 10 [1, 2, 3]) none ∧
      kept (listed [0, 1, 2] (x :: tr)) w = [0, 2])
    threeTasks_initial (by decide)
  obtain ⟨hbegins, hwithin, hend, hkept⟩ := of_decide_eq_true hs
  obtain ⟨seen, hids, hsub, _⟩ := ids_reported hr hok ⟨hbegins, hwithin⟩ hend
  exact ⟨w, tr, x, seen, hids, hsub, hkept⟩

/-- The condition is needed: if the control block of the deleted task goes back to the heap,
thread 1 may read anything there, and miss its own. -/
theorem freedUnder_missed : ∃ (tr : List (ListTransition (Fin 2) (Fin 4))) (s : ListState (Fin 2) (Fin 4)),
    Run (code fourIds) (Initial [0, 1, 2]) tr s ∧ listed [0, 1, 2] tr = [0, 2] ∧ (s.mem.tcb 2).pthrid = some 1 ∧
      s.ctl 1 = .awake (.found .myTask .me none) := by
  let heapTasks : ListState (Fin 2) (Fin 4) :=
    {threeTasks with mem := threeTasks.mem.setTcb 1 {threeTasks.mem.tcb 1 with staticTask := false}}
  have hinit : Initial [0, 1, 2] heapTasks :=
    ⟨chain_iff_way.mpr (way_of_wayFrom (n := 3) (by decide)), fun _ => rfl, fun _ => rfl⟩
  obtain ⟨tr, s, hr, hs⟩ := run_of_check (code fourIds)
    (calls 1 .myTask :: does 1 5 ++ calls 0 (.taskDelete 2) :: does 0 11 ++
      [(0, {choice := .memory ⟨0, none, none, true, true, none⟩}), (0, {choice := .memory ⟨0, none, none, true, true, none⟩})] ++
      does 1 2)
    (fun tr s => listed [0, 1, 2] tr = [0, 2] ∧ (s.mem.tcb 2).pthrid = some 1 ∧
      s.ctl 1 = .awake (.found .myTask .me none)) hinit (by decide)
  exact ⟨tr, s, hr, of_decide_eq_true hs⟩

/-- Thread 1 verifies an identifier while thread 0 looks for its own task. -/
def verified : List (Fin 2 × Input (Choice (Fin 2) (Fin 4))) :=
  calls 1 (.taskIdVerify 3) :: does 1 5 ++ calls 0 .myTask :: does 0 3 ++ does 1 3

theorem verified_first : ∃ (tr : List (ListTransition (Fin 2) (Fin 4))) (s : ListState (Fin 2) (Fin 4)) (r : Option (Fin 4)),
    Run (code fourIds) (Initial [0, 1, 2]) tr s ∧ (s.ctl 1).point = .found .taskIdVerify (.task 3) r ∧
      r = [0, 1, 2].find? fun u : Fin 4 => u = 2 := by
  obtain ⟨w, x, tr, s, hr, hok, hs⟩ := loop_of_check fourIds verified 9 4
    (fun w x tr s => x.thread = 1 ∧ (x.pre.ctl x.thread).point = .search .taskIdVerify (.task 3) ∧
      (∀ y ∈ w, y.thread = x.thread → (register (y.pre.ctl x.thread).point).isSome = true) ∧
      (s.ctl x.thread).point = .found .taskIdVerify (.task 3) (some 2) ∧ listed [0, 1, 2] (w ++ x :: tr) = [0, 1, 2] ∧
      ∀ y ∈ w, ∀ u ∈ listed [0, 1, 2] (x :: tr),
        (Search.task 3).hit x.thread (y.pre.mem.tcb u) = some (decide (u = 2)))
    threeTasks_initial (by decide)
  obtain ⟨hthread, hbegins, hwithin, hend, hlist, hsame⟩ := of_decide_eq_true hs
  have hfirst := locked_lookup_first hr hok ⟨hbegins, hwithin⟩ hend rfl hsame
  rw [hlist] at hfirst
  exact ⟨_, s, some 2, hr, hthread ▸ hend, hfirst⟩

/-- Thread 0 draws an identifier; behind its back the first task is deleted. -/
def drawnUnder : List (Fin 2 × Input (Choice (Fin 2) (Fin 4))) :=
  calls 0 (.taskSpawn none 100 0) :: (0, {choice := .address 3}) :: does 0 4 ++ calls 1 (.taskDelete 1) :: does 1 8 ++
    (1, {choice := .memory ⟨0, none, none, true, true, none⟩}) :: does 1 1 ++ does 0 5

theorem drawnUnder_above : ∃ (tr : List (ListTransition (Fin 2) (Fin 4))) (s : ListState (Fin 2) (Fin 4)) (q' : Search),
    listed [0, 1, 2] tr = [1, 2] ∧ (s.ctl 0).point = .found (.newTid 3 none 100 0) q' none ∧ 3 < q'.newTaskid := by
  obtain ⟨w, x, tr, s, hr, hok, hs⟩ := loop_of_check fourIds drawnUnder 18 4
    (fun w x tr s => x.thread = 0 ∧ (x.pre.ctl x.thread).point = .search (.newTid 3 none 100 0) (.newTid 1) ∧
      (∀ y ∈ w, y.thread = x.thread → (register (y.pre.ctl x.thread).point).isSome = true) ∧
      (s.ctl x.thread).point = .found (.newTid 3 none 100 0) (.newTid 4) none ∧
      listed [0, 1, 2] (w ++ x :: tr) = [1, 2] ∧ 2 ∈ listed [0, 1, 2] (x :: tr) ∧
      (∀ y ∈ w, edit (y.pre.ctl y.thread).point ≠ some (.unlink 2)) ∧ ∀ y ∈ w, (y.pre.mem.tcb 2).taskid = 3)
    threeTasks_initial (by decide)
  obtain ⟨hthread, hbegins, hwithin, hend, hlist, hin, hstay, hid⟩ := of_decide_eq_true hs
  have habove := drawn_above hr hok ⟨hbegins, hwithin⟩ hend hin hstay hid (by decide)
  exact ⟨_, s, .newTid 4, hlist, hthread ▸ hend, habove⟩

end V2lin.TaskList
