import V2lin.Lists.Chain
import V2lin.Task.SuspList

/-! The lists of pended tasks, link by link.

`link_susp_task` and `unlink_susp_task` walk along a list with a pointer to the link they
are at, and rewrite links as they go. What they and `signal_for_my_task` do to the links is
what the functions of the same names do to lists: nobody is lost in an unlinking, while the
linking of a task that is on the list already loses everybody behind it, because its own
link is cleared before the walk. -/
namespace V2lin.Task.Pointers
open V2lin.Lists

/-- What the lists use of the control blocks: the heads of the lists, and the tasks'
`nxt_susp` and `state`. -/
structure Blocks (η θ : Type) where
  links : Cell η θ → Option θ
  state : θ → BitVec 32

/-- `PEND` -/
def pend : BitVec 32 := 0x0001#32

section
variable {η θ : Type} [DecidableEq η] [DecidableEq θ]

/-! ### The functions -/

/-- A turn of the loop of `link_susp_task`, with `i` at a link. -/
def linkTurn (newEntry : θ) : (Cell η θ → Option θ) × Cell η θ → Option ((Cell η θ → Option θ) × Cell η θ)
  | (links, i) =>
    match links i with
    | none => none
    | some t =>
      if t = newEntry then some (Function.update links i (links (.next t)), i)
      else some (links, .next t)

/-- `link_susp_task` -/
def linkSuspTask (fuel : ℕ) (m : Blocks η θ) (listHead : η) : Option θ → Option (Blocks η θ)
  | none => some m
  | some newEntry =>
    (loop (linkTurn newEntry) fuel (Function.update m.links (.next newEntry) none, .head listHead)).map
      fun (links, i) =>
        { links := Function.update links i (some newEntry)
          state := Function.update m.state newEntry (m.state newEntry ||| pend) }

/-- A turn of the loop of `unlink_susp_task`. -/
def unlinkTurn (links : Cell η θ → Option θ) (entry : θ) (i : Cell η θ) : Option (Cell η θ) :=
  match links i with
  | none => none
  | some t => if t = entry then none else some (.next t)

/-- `unlink_susp_task` behind its loop. -/
def unlinkAt (m : Blocks η θ) (entry : θ) (i : Cell η θ) : Blocks η θ :=
  match m.links i with
  | none => m
  | some t =>
    { links := Function.update (Function.update m.links i (m.links (.next t))) (.next entry) none
      state := Function.update m.state entry (m.state entry &&& ~~~pend) }

/-- `unlink_susp_task` -/
def unlinkSuspTask (fuel : ℕ) (m : Blocks η θ) (listHead : η) : Option θ → Option (Blocks η θ)
  | none => some m
  | some entry => (loop (unlinkTurn m.links entry) fuel (.head listHead)).map (unlinkAt m entry)

/-- A turn of the loop of `signal_for_my_task`, with `signalled_task` and `t`. -/
def selectTurn (prio : θ → ℤ) (links : Cell η θ → Option θ) : θ × Option θ → Option (θ × Option θ)
  | (_, none) => none
  | (signalled, some t) => some (if prio t > prio signalled then t else signalled, links (.next t))

/-- `signal_for_my_task`, called by the thread whose control block is `me`. -/
def signalForMyTask (fuel : ℕ) (m : Blocks η θ) (listHead : η) (pendOrder : ℕ) (prio : θ → ℤ) (me : Option θ) :
    Option Bool :=
  match m.links (.head listHead) with
  | none => some (none == me)
  | some head =>
    if pendOrder ≠ 0 then
      (loop (selectTurn prio m.links) fuel (head, some head)).map fun (signalled, _) => some signalled == me
    else some (some head == me)

variable {m : Blocks η θ} {listHead : η} {l : List θ} {e : θ}

/-! ### Linking -/

/-- The head of a list, or the link in one of the tasks. -/
def Within (listHead : η) (tasks : List θ) (c : Cell η θ) : Prop :=
  c = .head listHead ∨ ∃ t ∈ tasks, c = .next t

omit [DecidableEq η] [DecidableEq θ] in
theorem within_after {before : List θ} (h : before ⊆ l) : Within listHead l ((Cell.head listHead).after before) := by
  obtain heq | ⟨t, ht, heq⟩ := (Cell.head listHead).after_mem before
  · exact .inl heq
  · exact .inr ⟨t, h ht, heq⟩

theorem linkTurn_other {links : Cell η θ → Option θ} {c : Cell η θ} {t : θ} (h : links c = some t) (ht : t ≠ e) :
    linkTurn e (links, c) = some (links, .next t) := by
  simp only [linkTurn, h, if_neg ht]

theorem linkTurn_entry {links : Cell η θ → Option θ} {c : Cell η θ} (h : links c = some e) :
    linkTurn e (links, c) = some (Function.update links c (links (.next e)), c) := by
  simp only [linkTurn, h, if_pos]

theorem linkTurn_end {links : Cell η θ → Option θ} {c : Cell η θ} (h : links c = none) :
    linkTurn e (links, c) = none := by
  simp only [linkTurn, h]

/-- The loop passes everybody else. -/
theorem link_walk {links : Cell η θ → Option θ} {c : Cell η θ} {before : List θ} {r : (Cell η θ → Option θ) × Cell η θ}
    (h : Leads links c before) (hb : e ∉ before) (hr : Returns (loop (linkTurn e) · (links, c.after before)) r) :
    Returns (loop (linkTurn e) · (links, c)) r :=
  h.walk (fun c => (links, c)) (fun _ _ ht hc => linkTurn_other hc (ne_of_mem_of_not_mem ht hb)) hr

/-- At the new entry the loop takes out what it finds, and ends: nobody is behind it. -/
theorem link_entry {links : Cell η θ → Option θ} {i : Cell η θ} (hat : links i = some e) (hnull : links (.next e) = none) :
    Returns (loop (linkTurn e) · (links, i)) (Function.update links i (links (.next e)), i) := by
  refine loop_turned (linkTurn_entry hat) (loop_ended (linkTurn_end ?_))
  rw [Function.update_self, hnull]

/-- The loop ends behind the tasks that stand before the new one, and nobody stands there
any more. -/
theorem link_loop (h : Chain m.links (.head listHead) l) (e : θ) :
    ∃ links, Returns (loop (linkTurn e) · (Function.update m.links (.next e) none, .head listHead))
        (links, (Cell.head listHead).after (l.takeWhile (· ≠ e))) ∧
      Chain links (.head listHead) (l.takeWhile (· ≠ e)) ∧ links (.next e) = none ∧
      ∀ c, ¬ Within listHead (e :: l) c → links c = m.links c := by
  set links := Function.update m.links (.next e) none with hlinks
  have hcleared : links (.next e) = none := Function.update_self ..
  have hsame : ∀ c, ¬ Within listHead (e :: l) c → links c = m.links c := fun c hc =>
    Function.update_of_ne (fun hce => hc (.inr ⟨e, List.mem_cons_self .., hce⟩)) ..
  by_cases he : e ∈ l
  · -- the list ends at the entry, whose turn takes it out
    obtain ⟨before, rest, rfl, hbefore⟩ := List.eq_append_cons_of_mem he
    have hcut : Chain links (.head listHead) (before ++ [e]) := h.cut
    rw [takeWhile_of_split hbefore]
    obtain ⟨hleads, hat⟩ := chain_append.mp hcut
    have hremoved := hcut.remove
    rw [List.append_nil] at hremoved
    refine ⟨_, link_walk hleads hbefore (link_entry hat.1.1 hcleared), hremoved, ?_, fun c hc => ?_⟩
    · rw [hcleared]
      by_cases hne : (Cell.head listHead).after before = .next e
      · rw [hne, Function.update_self]
      · rw [Function.update_of_ne (Ne.symm hne), hcleared]
    · have hat : c ≠ (Cell.head listHead).after before := fun hci =>
        hc (hci ▸ within_after (List.subset_cons_of_subset _ (List.subset_append_left ..)))
      rw [Function.update_of_ne hat, hsame c hc]
  · have hchain : Chain links (.head listHead) l := h.update_other he nofun none
    rw [takeWhile_of_notMem he]
    exact ⟨links, link_walk hchain.1 he (loop_ended (linkTurn_end hchain.2)), hchain, hcleared, hsame⟩

/-- The list and the states after `link_susp_task`. -/
structure Linked (m m' : Blocks η θ) (listHead : η) (l : List θ) (e : θ) (l' : List θ) : Prop where
  list : Chain m'.links (.head listHead) l'
  state : m'.state = Function.update m.state e (m.state e ||| pend)
  elsewhere : ∀ c, ¬ Within listHead (e :: l) c → m'.links c = m.links c

/-- `link_susp_task` does what it does to a list. -/
theorem linkSuspTask_linked (h : Chain m.links (.head listHead) l) (e : θ) :
    ∃ m', Returns (linkSuspTask · m listHead (some e)) m' ∧
      Linked m m' listHead l e (Task.linkSuspTask l (some e)) := by
  obtain ⟨links, hloop, hchain, hcleared, hsame⟩ := link_loop h e
  have hnot : e ∉ l.takeWhile (· ≠ e) := fun hin => by simpa using List.mem_takeWhile_imp hin
  refine ⟨_, hloop.map _, hchain.append hnot nofun hcleared, rfl, fun c hc => ?_⟩
  have hat : c ≠ (Cell.head listHead).after (l.takeWhile (· ≠ e)) := fun hce =>
    hc (hce ▸ within_after (List.subset_cons_of_subset _ (List.takeWhile_subset _)))
  exact (Function.update_of_ne hat ..).trans (hsame c hc)

/-! ### Unlinking -/

omit [DecidableEq η] in
theorem unlinkTurn_other {links : Cell η θ → Option θ} {c : Cell η θ} {t : θ} (h : links c = some t) (ht : t ≠ e) :
    unlinkTurn links e c = some (.next t) := by
  simp only [unlinkTurn, h, if_neg ht]

/-- The list and the states after `unlink_susp_task`. -/
structure Unlinked (m m' : Blocks η θ) (listHead : η) (l : List θ) (e : θ) : Prop where
  list : Chain m'.links (.head listHead) (l.erase e)
  state : m'.state = if e ∈ l then Function.update m.state e (m.state e &&& ~~~pend) else m.state
  elsewhere : ∀ c, ¬ Within listHead l c → m'.links c = m.links c

omit [DecidableEq η] in
/-- The loop ends at the link to the entry, or behind the list. -/
theorem unlink_loop {before rest : List θ} (h : Chain m.links (.head listHead) (before ++ rest)) (hb : e ∉ before)
    (hrest : ∀ t ∈ rest.head?, t = e) :
    Returns (loop (unlinkTurn m.links e) · (.head listHead)) ((Cell.head listHead).after before) := by
  obtain ⟨hleads, hat⟩ := chain_append.mp h
  refine hleads.walk id (fun c t ht hc => ?_) (loop_ended ?_)
  · exact unlinkTurn_other hc (ne_of_mem_of_not_mem ht hb)
  · show unlinkTurn m.links e ((Cell.head listHead).after before) = none
    cases rest with
    | nil => simp only [unlinkTurn, chain_nil.mp hat]
    | cons t rest => simp only [unlinkTurn, hat.1.1, if_pos (hrest t rfl)]

/-- `unlink_susp_task` does what it does to a list. -/
theorem unlinkSuspTask_unlinked (h : Chain m.links (.head listHead) l) (e : θ) :
    ∃ m', Returns (unlinkSuspTask · m listHead (some e)) m' ∧ Unlinked m m' listHead l e := by
  by_cases he : e ∈ l
  · obtain ⟨before, rest, rfl, hbefore⟩ := List.eq_append_cons_of_mem he
    have hrest : e ∉ rest := (List.nodup_cons.mp (List.nodup_append.mp h.nodup).2.1).1
    have hat := (chain_append.mp h).2
    set i := (Cell.head listHead).after before with hi
    have hunlink : unlinkAt m e i =
        { links := Function.update (Function.update m.links i (m.links (.next e))) (.next e) none
          state := Function.update m.state e (m.state e &&& ~~~pend) } := by
      simp only [unlinkAt, hat.1.1]
    refine ⟨unlinkAt m e i, (unlink_loop h hbefore fun t ht => (Option.some.inj ht).symm).map _, ?_⟩
    rw [hunlink]
    refine ⟨?_, by rw [if_pos he], fun c hc => ?_⟩
    · rw [List.erase_append_right _ hbefore, List.erase_cons_head]
      exact h.remove.update_other (by simp [hbefore, hrest]) nofun none
    · have hci : c ≠ i := fun hci => hc (hci ▸ within_after (List.subset_append_left ..))
      have hce : c ≠ .next e := fun hce => hc (.inr ⟨e, he, hce⟩)
      exact (Function.update_of_ne hce ..).trans (Function.update_of_ne hci ..)
  · have hall : Chain m.links (.head listHead) (l ++ []) := by rwa [List.append_nil]
    have hloop := unlink_loop hall he nofun
    have hunlink : unlinkAt m e ((Cell.head listHead).after l) = m := by
      simp only [unlinkAt, h.2]
    have hreturns := hloop.map (unlinkAt m e)
    rw [hunlink] at hreturns
    refine ⟨m, hreturns, ?_, by rw [if_neg he], fun _ _ => rfl⟩
    rwa [List.erase_of_not_mem he]

/-! ### What both should do -/

/-- The list that `link_susp_task` leaves has everybody on it exactly if nobody stands
behind the new entry. -/
theorem linkSuspTask_eq_iff (hn : l.Nodup) :
    Task.linkSuspTask l (some e) = l.erase e ++ [e] ↔ (e ∈ l → l.getLast? = some e) := by
  rw [Task.linkSuspTask, List.append_left_inj]
  by_cases he : e ∈ l
  · obtain ⟨before, rest, rfl, hbefore⟩ := List.eq_append_cons_of_mem he
    have hrest : e ∉ rest := (List.nodup_cons.mp (List.nodup_append.mp hn).2.1).1
    rw [takeWhile_of_split hbefore, List.erase_append_right _ hbefore, List.erase_cons_head,
      List.self_eq_append_right]
    constructor
    · rintro rfl _
      rw [List.getLast?_append, List.getLast?_singleton, Option.some_or]
    · intro hlast
      cases rest with
      | nil => rfl
      | cons t rest =>
        -- the last of the list stands behind the entry, so it is somebody else
        obtain ⟨last, hsome⟩ : ∃ last, (t :: rest).getLast? = some last := ⟨_, List.getLast?_eq_some_getLast (by simp)⟩
        have hend := hlast he
        rw [List.getLast?_append, List.getLast?_cons_cons, hsome, Option.some_or] at hend
        exact absurd (Option.some.inj hend ▸ List.mem_of_getLast? hsome) hrest
  · rw [takeWhile_of_notMem he, List.erase_of_not_mem he]
    simp only [he, false_imp_iff]

/-- What `link_susp_task` should do: the list has everybody else on it as before and the
new entry at its end, which is pended. -/
def Links (m : Blocks η θ) (listHead : η) (l : List θ) (e : θ) : Prop :=
  ∃ m', Returns (linkSuspTask · m listHead (some e)) m' ∧ Linked m m' listHead l e (l.erase e ++ [e])

/-- What `unlink_susp_task` should do: the list has everybody else on it as before, and the
entry, if it was on the list, is not pended. -/
def Unlinks (m : Blocks η θ) (listHead : η) (l : List θ) (e : θ) : Prop :=
  ∃ m', Returns (unlinkSuspTask · m listHead (some e)) m' ∧ Unlinked m m' listHead l e

/-- Both do what they should on a list if and only if the task is not on it or stands at
its end. -/
theorem links_unlinks_iff (h : Chain m.links (.head listHead) l) (e : θ) :
    Links m listHead l e ∧ Unlinks m listHead l e ↔ (e ∈ l → l.getLast? = some e) := by
  rw [← linkSuspTask_eq_iff h.nodup]
  obtain ⟨m', hreturns, hlinked⟩ := linkSuspTask_linked h e
  constructor
  · intro ⟨⟨m'', hreturns', hlinks⟩, _⟩
    rw [← hreturns.unique hreturns'] at hlinks
    exact hlinked.list.unique hlinks.list
  · intro heq
    rw [heq] at hlinked
    exact ⟨⟨m', hreturns, hlinked⟩, unlinkSuspTask_unlinked h e⟩

end

/-- A list of the tasks 0, 1 and 2. -/
def three : Blocks Unit (Fin 3) where
  links
    | .head _ => some 0
    | .next 0 => some 1
    | .next 1 => some 2
    | .next 2 => none
  state := fun _ => pend

theorem three_chain : Chain three.links (.head ()) [0, 1, 2] :=
  ⟨⟨rfl, rfl, rfl, trivial⟩, rfl⟩

theorem three_last : Links three () [0, 1, 2] 2 ∧ Unlinks three () [0, 1, 2] 2 :=
  (links_unlinks_iff three_chain 2).mpr (by decide)

/-- A double entry of task 1 loses task 2. -/
theorem double_entry_loses : Chain three.links (.head ()) [0, 1, 2] ∧
    (∃ m', Returns (linkSuspTask · three () (some 1)) m' ∧ Chain m'.links (.head ()) [0, 1]) ∧
    ¬ Links three () [0, 1, 2] 1 := by
  obtain ⟨m', hreturns, hlinked⟩ := linkSuspTask_linked three_chain 1
  have hlist : Chain m'.links (.head ()) [0, 1] := hlinked.list
  refine ⟨three_chain, ⟨m', hreturns, hlist⟩, ?_⟩
  intro ⟨m'', hreturns', hlinks⟩
  rw [← hreturns.unique hreturns'] at hlinks
  exact absurd (hlist.unique hlinks.list) (by decide)

section
variable {η θ : Type} [DecidableEq η] [DecidableEq θ]
variable {m : Blocks η θ} {listHead : η} {l : List θ}

/-! ### The functions on lists -/

/-- The links are those of the lists, and no task is on two of them. -/
structure Represents (m : Blocks η θ) (lists : η → List θ) : Prop where
  chain : ∀ x, Chain m.links (.head x) (lists x)
  apart : ∀ x y, x ≠ y → (lists x).Disjoint (lists y)

variable {lists : η → List θ} {m' : Blocks η θ} {l' tasks : List θ}

omit [DecidableEq θ] in
/-- A call changes one list, and the tasks it is about are on no other. -/
theorem Represents.update (h : Represents m lists) (hlist : Chain m'.links (.head listHead) l')
    (helsewhere : ∀ c, ¬ Within listHead tasks c → m'.links c = m.links c) (hl' : l' ⊆ tasks)
    (hfree : ∀ x ≠ listHead, (lists x).Disjoint tasks) : Represents m' (Function.update lists listHead l') where
  chain x := by
    by_cases hx : x = listHead
    · subst hx
      rwa [Function.update_self]
    · rw [Function.update_of_ne hx]
      refine (h.chain x).congr (helsewhere _ ?_) fun t ht => helsewhere _ ?_
      · rintro (heq | ⟨t, _, heq⟩)
        · exact hx (Cell.head.inj heq)
        · cases heq
      · rintro (heq | ⟨u, hu, heq⟩)
        · cases heq
        · exact hfree x hx ht (Cell.next.inj heq ▸ hu)
  apart x y hxy := by
    by_cases hx : x = listHead
    · subst hx
      rw [Function.update_self, Function.update_of_ne hxy.symm]
      exact fun t ht hty => hfree y hxy.symm hty (hl' ht)
    · rw [Function.update_of_ne hx]
      by_cases hy : y = listHead
      · subst hy
        rw [Function.update_self]
        exact fun t htx ht => hfree x hx htx (hl' ht)
      · rw [Function.update_of_ne hy]
        exact h.apart x y hxy

/-- `link_susp_task` of a task that is on no other list changes the one list. -/
theorem Represents.linkSuspTask (h : Represents m lists) (listHead : η) (newEntry : Option θ)
    (hfree : ∀ e ∈ newEntry, ∀ x ≠ listHead, e ∉ lists x) :
    ∃ m', Returns (linkSuspTask · m listHead newEntry) m' ∧
      Represents m' (Function.update lists listHead (Task.linkSuspTask (lists listHead) newEntry)) := by
  cases newEntry with
  | none => exact ⟨m, .const m, by rwa [Task.linkSuspTask, Function.update_eq_self]⟩
  | some e =>
    obtain ⟨m', hreturns, hlinked⟩ := linkSuspTask_linked (h.chain listHead) e
    refine ⟨m', hreturns, h.update hlinked.list hlinked.elsewhere ?_ fun x hx => ?_⟩
    · intro t ht
      obtain ht | ht := List.mem_append.mp ht
      · exact List.mem_cons_of_mem _ (List.takeWhile_subset _ ht)
      · exact List.mem_cons.mpr (.inl (List.mem_singleton.mp ht))
    · rw [List.disjoint_cons_right]
      exact ⟨hfree e rfl x hx, h.apart x listHead hx⟩

/-- `unlink_susp_task` changes the one list. -/
theorem Represents.unlinkSuspTask (h : Represents m lists) (listHead : η) (entry : Option θ) :
    ∃ m', Returns (unlinkSuspTask · m listHead entry) m' ∧
      Represents m' (Function.update lists listHead (Task.unlinkSuspTask (lists listHead) entry)) := by
  cases entry with
  | none => exact ⟨m, .const m, by rwa [Task.unlinkSuspTask, Function.update_eq_self]⟩
  | some e =>
    obtain ⟨m', hreturns, hunlinked⟩ := unlinkSuspTask_unlinked (h.chain listHead) e
    exact ⟨m', hreturns, h.update hunlinked.list hunlinked.elsewhere (List.erase_subset ..) fun x hx =>
      h.apart x listHead hx⟩

omit [DecidableEq η] [DecidableEq θ] in
theorem select_loop {links : Cell η θ → Option θ} {c : Cell η θ} (h : Chain links c l) (prio : θ → ℤ) (signalled : θ) :
    Returns (loop (selectTurn prio links) · (signalled, links c)) (selectTask prio signalled l, none) := by
  induction l generalizing c signalled with
  | nil =>
    rw [chain_nil.mp h]
    exact loop_ended rfl
  | cons t l ih =>
    obtain ⟨ht, hl⟩ := chain_cons.mp h
    rw [ht]
    exact loop_turned rfl (ih hl _)

omit [DecidableEq η] in
/-- `signal_for_my_task` selects what it selects from a list. -/
theorem signalForMyTask_refines (h : Chain m.links (.head listHead) l) (pendOrder : ℕ) (prio : θ → ℤ) (me : Option θ) :
    Returns (signalForMyTask · m listHead pendOrder prio me) (Task.signalForMyTask l pendOrder prio me) := by
  cases l with
  | nil =>
    simp only [signalForMyTask, chain_nil.mp h]
    exact .const _
  | cons head l =>
    have hhead := h.1.1
    simp only [signalForMyTask, hhead, Task.signalForMyTask, signalledTask]
    by_cases hp : pendOrder ≠ 0
    · have hloop := select_loop h prio head
      rw [hhead] at hloop
      simp only [if_pos hp]
      exact hloop.map fun (signalled, _) => some signalled == me
    · simp only [if_neg hp]
      exact .const _

end

end V2lin.Task.Pointers
