import V2lin.Threads.Machine
import Mathlib.Data.List.Nodup

/-! Calls that look their object up on a list first.

A library keeps its objects on a list: a creation appends one, a deletion erases one. Every
call with an object looks for it on the list, and goes on only if it has found it. If what a
call does fits this scheme step by step (`Sound`), then the calls that are rejected are
exactly those for objects that have not been linked or have been unlinked since, whatever
the other threads do that are not about to create or delete the object; a rejected call
leaves the memory alone, and a deletion that is not rejected has unlinked its object (`law`). -/
namespace V2lin.Threads

/-- What a step does to the list. -/
inductive ListEdit (ι : Type) where
  | link (id : ι)
  | unlink (id : ι)
  deriving DecidableEq

/-- What a point of the code is to a call. -/
inductive View (ω ι : Type) where
  | outside
  /-- Before or in the walk along the list. -/
  | seeks (op : ω) (id : ι)
  /-- The walk has not found the object. -/
  | missed (op : ω) (id : ι)
  /-- The walk has found the object. -/
  | inside (op : ω) (id : ι)
  /-- The call has taken the object off the list. -/
  | removed (op : ω) (id : ι)
  | returned (op : ω) (id : ι) (rejected : Bool)
  deriving DecidableEq

/-- In a call. -/
def View.active {ω ι : Type} : View ω ι → Bool
  | .seeks _ _ | .missed _ _ | .inside _ _ | .removed _ _ => true
  | _ => false

/-- In the lookup of a call. -/
def View.looking {ω ι : Type} : View ω ι → Bool
  | .seeks _ _ | .missed _ _ => true
  | _ => false

/-- A library, with what its list is, which calls are deletions, what the steps from its
points do to the list, which object is made or deleted at a point, and what the point is to
a call. -/
structure Lookups (θ σ μ κ π χ ω ι : Type) where
  code : θ → π → Instr σ μ κ π χ
  initial : State θ σ μ κ π → Prop
  listed : σ → List ι
  deletes : ω → Bool
  edit : π → Option (ListEdit ι)
  changes : π → Option ι
  view : π → View ω ι

namespace Lookups

section
variable {θ σ μ κ π χ ω ι : Type}

/-- What the step `x` does to the list. -/
def editOf (L : Lookups θ σ μ κ π χ ω ι) (x : Transition θ σ μ κ π) : Option (ListEdit ι) :=
  L.edit (x.pre.ctl x.thread).point

/-- In the history `tr`, newest first, the object has been linked, and not been unlinked since. -/
def Live (L : Lookups θ σ μ κ π χ ω ι) (tr : List (Transition θ σ μ κ π)) (id : ι) : Prop :=
  ∃ newer x older, tr = newer ++ x :: older ∧ L.editOf x = some (.link id) ∧
    ∀ y ∈ newer, L.editOf y ≠ some (.unlink id)

/-- In the step `x` its thread calls `op` for `id`, and in the steps `w` that follow, newest
first, it is in this call, while nobody else is making or deleting the object. -/
structure Call (L : Lookups θ σ μ κ π χ ω ι) (op : ω) (id : ι) (x : Transition θ σ μ κ π)
    (w : List (Transition θ σ μ κ π)) : Prop where
  before : (L.view (x.pre.ctl x.thread).point).active = false
  called : L.view (x.post.ctl x.thread).point = .seeks op id
  within : ∀ y ∈ w, y.thread = x.thread → (L.view (y.pre.ctl y.thread).point).active = true
  undisturbed : ∀ y ∈ w, ∀ u ≠ x.thread, L.changes (y.pre.ctl u).point ≠ some id

/-- The list after an edit. -/
def edited [DecidableEq ι] (l : List ι) : Option (ListEdit ι) → List ι
  | none => l
  | some (.link id) => l ++ [id]
  | some (.unlink id) => l.erase id

/-- How a call goes on in a step that does `e` to the list `l`. -/
inductive Moves (deletes : ω → Bool) (l : List ι) (e : Option (ListEdit ι)) : View ω ι → View ω ι → Prop where
  | stays (v) : e = none → Moves deletes l e v v
  | found {op id} : e = none → id ∈ l → Moves deletes l e (.seeks op id) (.inside op id)
  | missed {op id} : e = none → id ∉ l → Moves deletes l e (.seeks op id) (.missed op id)
  | rejected {op id} : Moves deletes l e (.missed op id) (.returned op id true)
  | removed {op id} : e = some (.unlink id) → Moves deletes l e (.inside op id) (.removed op id)
  | ended {op id} : deletes op = false → Moves deletes l e (.inside op id) (.returned op id false)
  | gone {op id} : Moves deletes l e (.removed op id) (.returned op id false)

variable [DecidableEq θ] [DecidableEq μ] [DecidableEq κ]

/-- A call is rejected if and only if its object has not been linked or has been unlinked
since, and then it has changed nothing. A deletion that is not rejected has unlinked it. -/
def Law (L : Lookups θ σ μ κ π χ ω ι) : Prop :=
  ∀ (tr w : List (Transition θ σ μ κ π)) (x : Transition θ σ μ κ π) (s : State θ σ μ κ π) (op : ω) (id : ι)
    (rejected : Bool), Run L.code L.initial (w ++ x :: tr) s → L.Call op id x w →
    L.view (s.ctl x.thread).point = .returned op id rejected →
    (rejected = true ↔ ¬ L.Live tr id) ∧
    (rejected = true → ∀ y ∈ w ++ [x], y.thread = x.thread → y.post.mem = y.pre.mem) ∧
    (rejected = false → L.deletes op = true → ∃ y ∈ w, y.thread = x.thread ∧ L.editOf y = some (.unlink id))

variable [DecidableEq ι]

/-- What a library has to do in each step. -/
structure Sound (L : Lookups θ σ μ κ π χ ω ι) : Prop where
  empty : ∀ s, L.initial s → L.listed s.mem = []
  nodup : ∀ {tr s}, Run L.code L.initial tr s → (L.listed s.mem).Nodup
  lists : ∀ {t s s'}, Step L.code t s s' → L.listed s'.mem = edited (L.listed s.mem) (L.edit (s.ctl t).point)
  /-- A call starts with its lookup, and does nothing before. -/
  starts : ∀ {t s s' op id}, Step L.code t s s' → (L.view (s.ctl t).point).active = false →
    L.view (s'.ctl t).point = .seeks op id → s'.mem = s.mem
  changes : ∀ p id, L.edit p = some (.link id) ∨ L.edit p = some (.unlink id) → L.changes p = some id
  /-- A call that has found its object goes on, as long as nobody else is deleting it. -/
  moves : ∀ {tr t s s'}, Run L.code L.initial tr s → Step L.code t s s' → (L.view (s.ctl t).point).active = true →
    (∀ op id, L.view (s.ctl t).point = .inside op id → id ∈ L.listed s.mem ∧
      ∀ u ≠ t, L.changes (s.ctl u).point ≠ some id) →
    Moves L.deletes (L.listed s.mem) (L.edit (s.ctl t).point) (L.view (s.ctl t).point) (L.view (s'.ctl t).point)
  /-- Nothing is changed until the object has been found. -/
  still : ∀ {t s s'}, Step L.code t s s' → (L.view (s.ctl t).point).looking = true → s'.mem = s.mem

variable {L : Lookups θ σ μ κ π χ ω ι} {tr w : List (Transition θ σ μ κ π)} {x : Transition θ σ μ κ π}
  {s s' : State θ σ μ κ π} {t : θ} {op : ω} {id : ι}

/-! ### The list -/

omit [DecidableEq θ] [DecidableEq μ] [DecidableEq κ] [DecidableEq ι] in
theorem not_live_nil : ¬ L.Live [] id := by
  rintro ⟨newer, x, older, heq, _⟩
  cases newer <;> cases heq

omit [DecidableEq θ] [DecidableEq μ] [DecidableEq κ] [DecidableEq ι] in
theorem live_cons : L.Live (x :: tr) id ↔
    L.editOf x = some (.link id) ∨ L.editOf x ≠ some (.unlink id) ∧ L.Live tr id := by
  constructor
  · rintro ⟨newer, y, older, heq, hlink, hnewer⟩
    cases newer with
    | nil =>
      cases heq
      exact .inl hlink
    | cons z newer =>
      cases heq
      refine .inr ⟨hnewer x (List.mem_cons_self ..), newer, y, older, rfl, hlink, fun z hz => ?_⟩
      exact hnewer z (List.mem_cons_of_mem _ hz)
  · rintro (hlink | ⟨hkeep, newer, y, older, rfl, hlink, hnewer⟩)
    · exact ⟨[], x, tr, rfl, hlink, nofun⟩
    · refine ⟨x :: newer, y, older, rfl, hlink, fun z hz => ?_⟩
      obtain rfl | hz := List.mem_cons.mp hz
      · exact hkeep
      · exact hnewer z hz

/-- Which objects are on the list after an edit. -/
theorem mem_edited {l : List ι} (hl : l.Nodup) (e : Option (ListEdit ι)) :
    id ∈ edited l e ↔ e = some (.link id) ∨ e ≠ some (.unlink id) ∧ id ∈ l := by
  cases e with
  | none => simp [edited]
  | some e =>
    cases e with
    | link j => simp [edited, or_comm, eq_comm]
    | unlink j => simp [edited, hl.mem_erase_iff, eq_comm]

/-- In every run the list holds the objects that are live. -/
theorem listed_iff (hL : L.Sound) (h : Run L.code L.initial tr s) : id ∈ L.listed s.mem ↔ L.Live tr id := by
  induction h with
  | start hi =>
    rw [hL.empty _ hi]
    exact iff_of_false (List.not_mem_nil) not_live_nil
  | step hr hs ih =>
    rw [hL.lists hs, mem_edited (hL.nodup hr), live_cons, ih]
    rfl

/-! ### A call -/

/-- How far a call has come, if `found` says whether its object was on the list at its start:
`v` is where it is, `l` the list now. -/
inductive Stage (op : ω) (id : ι) (found : Prop) (l : List ι) : View ω ι → Prop where
  | seeks : (id ∈ l ↔ found) → Stage op id found l (.seeks op id)
  | missed : ¬ found → Stage op id found l (.missed op id)
  | inside : found → id ∈ l → Stage op id found l (.inside op id)
  | removed : found → Stage op id found l (.removed op id)
  | returned (r : Bool) : (r = true ↔ ¬ found) → Stage op id found l (.returned op id r)

variable {deletes : ω → Bool} {found : Prop} {l l' : List ι} {v v' : View ω ι} {e : Option (ListEdit ι)}

/-- One step of the call itself. -/
theorem Stage.moves (h : Stage op id found l v) (hm : Moves deletes l e v v') (hl : l' = edited l e) :
    Stage op id found l' v' := by
  subst hl
  cases h with
  | seeks hfound =>
    cases hm with
    | stays _ he =>
      subst he
      exact .seeks hfound
    | found he hin =>
      subst he
      exact .inside (hfound.mp hin) hin
    | missed _ hout => exact .missed fun hf => hout (hfound.mpr hf)
  | missed hf =>
    cases hm with
    | stays => exact .missed hf
    | rejected => exact .returned true (iff_of_true rfl hf)
  | inside hf hin =>
    cases hm with
    | stays _ he =>
      subst he
      exact .inside hf hin
    | removed => exact .removed hf
    | ended => exact .returned false (iff_of_false nofun (not_not.mpr hf))
  | removed hf =>
    cases hm with
    | stays => exact .removed hf
    | gone => exact .returned false (iff_of_false nofun (not_not.mpr hf))
  | returned r hr =>
    cases hm with
    | stays => exact .returned r hr

omit [DecidableEq ι] in
/-- A step of another thread. -/
theorem Stage.other (h : Stage op id found l v) (hl : id ∈ l' ↔ id ∈ l) : Stage op id found l' v := by
  cases h with
  | seeks hfound => exact .seeks (hl.trans hfound)
  | missed hf => exact .missed hf
  | inside hf hin => exact .inside hf (hl.mpr hin)
  | removed hf => exact .removed hf
  | returned r hr => exact .returned r hr

omit [DecidableEq ι] in
/-- A call that does not find its object is in its lookup. -/
theorem Stage.looking (h : Stage op id found l v) (hf : ¬ found) (hv : v.active = true) : v.looking = true := by
  cases h with
  | seeks => rfl
  | missed => rfl
  | inside hfound => exact absurd hfound hf
  | removed hfound => exact absurd hfound hf
  | returned => cases hv

/-- The call has taken its object off the list, or is a deletion that was not rejected. -/
inductive Deleted (deletes : ω → Bool) (op : ω) (id : ι) : View ω ι → Prop where
  | removed : Deleted deletes op id (.removed op id)
  | returned : deletes op = true → Deleted deletes op id (.returned op id false)

omit [DecidableEq ι] in
/-- A call becomes such in the step that takes its object off the list. -/
theorem Deleted.before (h : Deleted deletes op id v') (hm : Moves deletes l e v v') :
    Deleted deletes op id v ∨ e = some (.unlink id) := by
  cases h with
  | removed =>
    cases hm with
    | stays => exact .inl .removed
    | removed he => exact .inr he
  | returned hop =>
    cases hm with
    | stays => exact .inl (.returned hop)
    | ended hop' =>
      rw [hop] at hop'
      cases hop'
    | gone => exact .inl .removed

/-- Where a call is, that it has changed nothing unless its object was found, and that it
has taken its object off the list if it is past that. -/
structure Progress (L : Lookups θ σ μ κ π χ ω ι) (op : ω) (id : ι) (found : Prop) (x : Transition θ σ μ κ π)
    (w : List (Transition θ σ μ κ π)) (s : State θ σ μ κ π) : Prop where
  stage : Stage op id found (L.listed s.mem) (L.view (s.ctl x.thread).point)
  still : ¬ found → ∀ y ∈ w, y.thread = x.thread → y.post.mem = y.pre.mem
  deleted : Deleted L.deletes op id (L.view (s.ctl x.thread).point) →
    ∃ y ∈ w, y.thread = x.thread ∧ L.editOf y = some (.unlink id)

/-- A step of a run from which a call goes on. -/
theorem Progress.step {y : Transition θ σ μ κ π} (hL : L.Sound) (h : Run L.code L.initial tr y.pre)
    (hs : Step L.code y.thread y.pre y.post) (hp : Progress L op id found x w y.pre)
    (hwithin : y.thread = x.thread → (L.view (y.pre.ctl y.thread).point).active = true)
    (hothers : ∀ u ≠ x.thread, L.changes (y.pre.ctl u).point ≠ some id) :
    Progress L op id found x (y :: w) y.post := by
  have hearlier : (∃ z ∈ w, z.thread = x.thread ∧ L.editOf z = some (.unlink id)) →
      ∃ z ∈ y :: w, z.thread = x.thread ∧ L.editOf z = some (.unlink id) := by
    rintro ⟨z, hz, hunlink⟩
    exact ⟨z, List.mem_cons_of_mem _ hz, hunlink⟩
  by_cases hthread : y.thread = x.thread
  · have hactive := hwithin hthread
    have hstage := hp.stage
    rw [← hthread] at hstage hothers
    have hmove := hL.moves h hs hactive fun op' id' hinside => by
      rw [hinside] at hstage
      cases hstage with
      | inside _ hin => exact ⟨hin, hothers⟩
    refine ⟨?_, fun hfound z hz hzt => ?_, fun hdeleted => ?_⟩
    · rw [← hthread]
      exact hstage.moves hmove (hL.lists hs)
    · obtain rfl | hz := List.mem_cons.mp hz
      · exact hL.still hs (hstage.looking hfound hactive)
      · exact hp.still hfound z hz hzt
    · rw [← hthread] at hdeleted
      obtain hbefore | hunlink := hdeleted.before hmove
      · rw [hthread] at hbefore
        exact hearlier (hp.deleted hbefore)
      · exact ⟨y, List.mem_cons_self .., hthread, hunlink⟩
  · have hedit : ∀ e, e = .link id ∨ e = .unlink id → L.edit (y.pre.ctl y.thread).point ≠ some e := by
      rintro e he hedit
      refine hothers y.thread hthread (hL.changes _ _ ?_)
      obtain rfl | rfl := he
      · exact .inl hedit
      · exact .inr hedit
    refine ⟨?_, fun hfound z hz hzt => ?_, fun hdeleted => ?_⟩
    · rw [hs.ctl_other (Ne.symm hthread)]
      refine hp.stage.other ?_
      rw [hL.lists hs, mem_edited (hL.nodup h)]
      exact ⟨fun hmem => (hmem.resolve_left (hedit _ (.inl rfl))).2, fun hmem => .inr ⟨hedit _ (.inr rfl), hmem⟩⟩
    · obtain rfl | hz := List.mem_cons.mp hz
      · exact absurd hzt hthread
      · exact hp.still hfound z hz hzt
    · rw [hs.ctl_other (Ne.symm hthread)] at hdeleted
      exact hearlier (hp.deleted hdeleted)

theorem Call.progress (hL : L.Sound) (h : Run L.code L.initial (w ++ x :: tr) s) (hc : L.Call op id x w) :
    Progress L op id (L.Live tr id) x w s := by
  have hx : Step L.code x.thread x.pre x.post := h.steps x (by simp)
  have hbefore : Run L.code L.initial tr x.pre := h.before
  refine h.since (fun w s => Progress L op id (L.Live tr id) x w s) ⟨?_, nofun, ?_⟩ ?_
  · rw [hc.called]
    refine .seeks ?_
    rw [hL.starts hx hc.before hc.called]
    exact listed_iff hL hbefore
  · rw [hc.called]
    nofun
  · intro y l hsuffix hs hP
    have hy : y ∈ w := hsuffix.subset (List.mem_cons_self ..)
    have hrun : Run L.code L.initial (l ++ x :: tr) y.pre := by
      obtain ⟨newer, hw⟩ := hsuffix
      rw [← hw, List.append_assoc] at h
      exact h.before
    exact hP.step hL hrun hs (hc.within y hy) (hc.undisturbed y hy)

/-- A library that is sound keeps the law. -/
theorem Sound.law (hL : L.Sound) : L.Law := by
  intro tr w x s op id rejected h hc hreturned
  have hprogress := hc.progress hL h
  have hstage := hprogress.stage
  rw [hreturned] at hstage
  cases hstage with
  | returned _ hiff =>
    refine ⟨hiff, fun hrejected y hy hyt => ?_, fun haccepted hdeletes => hprogress.deleted ?_⟩
    case refine_2 =>
      subst haccepted
      rw [hreturned]
      exact .returned hdeletes
    obtain hy | hy := List.mem_append.mp hy
    · exact hprogress.still (hiff.mp hrejected) y hy hyt
    · rw [List.mem_singleton.mp hy]
      exact hL.starts (h.steps x (by simp)) hc.before hc.called

end

end Lookups

end V2lin.Threads
