import V2lin.Lists.Chain

/-! Reading a list while it changes.

A reader has an element in hand, or has come to the end, and goes on by the element's link.
It takes no lock: meanwhile elements are appended to the list, and others are taken out. An
element that is taken out keeps its link, so a reader that is on it finds the way back. What
a reader has before it are elements that have gone, and then the rest of the list (`Ahead`). -/
namespace V2lin.Lists

section
variable {η α : Type} {links links' : Cell η α → Option α} {h : η} {c : Cell η α} {o : Option α} {a b n z : α}
variable {l l' way way' seen before after : List α}

theorem Cell.after_concat (c : Cell η α) : c.after (l ++ [b]) = .next b :=
  after_append

/-- The cell behind a list is in no element that is not on it. -/
theorem Cell.head_after_ne (ha : a ∉ l) : (Cell.head h).after l ≠ .next a := by
  obtain heq | ⟨b, hb, heq⟩ := (Cell.head h : Cell η α).after_mem l <;> rw [heq]
  · exact fun h => by cases h
  · exact fun h => ha (Cell.next.inj h ▸ hb)

/-- From what is in hand the links go through the elements of a list, and end there. -/
def Way (links : Cell η α → Option α) (o : Option α) : List α → Prop
  | [] => o = none
  | a :: rest => o = some a ∧ Chain links (.next a) rest

theorem chain_iff_way : Chain links c l ↔ Way links (links c) l := by
  cases l with
  | nil => exact chain_nil
  | cons a l => exact chain_cons

theorem Way.unique (hw : Way links o l) (hw' : Way links o l') : l = l' := by
  cases l with
  | nil =>
    cases l' with
    | nil => rfl
    | cons b l' => exact nomatch hw.symm.trans hw'.1
  | cons a l =>
    cases l' with
    | nil => exact nomatch hw'.symm.trans hw.1
    | cons b l' =>
      obtain rfl : a = b := Option.some.inj (hw.1.symm.trans hw'.1)
      rw [hw.2.unique hw'.2]

/-- A way depends on the links in its own elements only. -/
theorem Way.congr (hw : Way links o way) (hl : ∀ a ∈ way, links' (.next a) = links (.next a)) : Way links' o way := by
  cases way with
  | nil => exact hw
  | cons a rest =>
    refine ⟨hw.1, hw.2.congr (hl a (List.mem_cons_self ..)) fun b hb => ?_⟩
    exact hl b (List.mem_cons_of_mem _ hb)

/-- What a reader of the list `l` has before it. -/
structure Ahead (links : Cell η α → Option α) (l : List α) (o : Option α) (way : List α) : Prop where
  leads : Way links o way
  parts : ∃ gone rest, way = gone ++ rest ∧ rest <:+ l ∧ ∀ a ∈ gone, a ∉ l

/-- A reader begins with the whole list before it. -/
theorem Ahead.start (hl : Chain links c l) : Ahead links l (links c) l :=
  ⟨chain_iff_way.mp hl, [], l, rfl, List.suffix_refl l, fun a ha => by cases ha⟩

/-- A reader goes on to the next element. -/
theorem Ahead.next (hr : Ahead links l (some a) way) : ∃ rest, way = a :: rest ∧ Ahead links l (links (.next a)) rest := by
  obtain ⟨hway, gone, rest, heq, hsuffix, hgone⟩ := hr
  cases way with
  | nil => cases hway
  | cons b tail =>
    obtain ⟨hb, hchain⟩ := hway
    obtain rfl := Option.some.inj hb
    refine ⟨tail, rfl, chain_iff_way.mp hchain, ?_⟩
    cases gone with
    | nil => exact ⟨[], tail, rfl, (List.suffix_cons a tail).trans (heq ▸ hsuffix), fun c hc => by cases hc⟩
    | cons g gone =>
      obtain ⟨rfl, rfl⟩ := List.cons.inj heq
      exact ⟨gone, rest, rfl, hsuffix, fun c hc => hgone c (List.mem_cons_of_mem _ hc)⟩

theorem Ahead.congr (hr : Ahead links l o way) (hl : ∀ a ∈ way, links' (.next a) = links (.next a)) :
    Ahead links' l o way :=
  ⟨hr.leads.congr hl, hr.parts⟩

variable [DecidableEq η] [DecidableEq α]

theorem Way.update_other (hw : Way links o way) (hc : ∀ a ∈ way, c ≠ .next a) (v : Option α) :
    Way (Function.update links c v) o way :=
  hw.congr fun a ha => Function.update_of_ne (hc a ha).symm ..

/-- The last element of a way gets a link to one that has none. -/
theorem Way.append {near : List α} (hw : Way links o (near ++ [b])) (hn : n ∉ near ++ [b])
    (hnull : links (.next n) = none) : Way (Function.update links (.next b) (some n)) o (near ++ [b] ++ [n]) := by
  have hne : ∀ a ∈ near ++ [b], Cell.next a ≠ (.next n : Cell η α) := fun a ha he => hn (Cell.next.inj he ▸ ha)
  cases near with
  | nil => exact ⟨hw.1, hw.2.append List.not_mem_nil (hne b (by simp)) hnull⟩
  | cons a near =>
    have hchain := hw.2.append (fun hin => hn (List.mem_cons_of_mem _ hin)) (hne a (by simp)) hnull
    rw [List.append_eq, Cell.after_concat] at hchain
    exact ⟨hw.1, hchain⟩

/-- An element of a way gets the link of the next one. -/
theorem Way.remove {near far : List α} (hw : Way links o (near ++ b :: z :: far)) :
    Way (Function.update links (.next b) (links (.next z))) o (near ++ b :: far) := by
  cases near with
  | nil =>
    have hchain : Chain links (.next b) ([] ++ z :: far) := hw.2
    exact ⟨hw.1, hchain.remove⟩
  | cons a near =>
    have hchain : Chain links (.next a) ((near ++ [b]) ++ z :: far) := by
      rw [List.append_assoc]
      exact hw.2
    have hrest := hchain.remove
    rw [Cell.after_concat, List.append_assoc] at hrest
    exact ⟨hw.1, hrest⟩

/-- An element is appended: it comes before the reader too, unless nothing of the list does. -/
theorem Ahead.append (hr : Ahead links l o way) (hn : n ∉ l) (hway : n ∉ way) (hnull : links (.next n) = none) :
    ∃ way', Ahead (Function.update links ((Cell.head h).after l) (some n)) (l ++ [n]) o way' ∧
      (way' = way ∨ way' = way ++ [n]) := by
  obtain ⟨hwalk, gone, rest, rfl, hsuffix, hgone⟩ := hr
  have hoff : ∀ a ∈ gone, a ∉ l ++ [n] := by
    intro a ha hin
    obtain hin | hin := List.mem_append.mp hin
    · exact hgone a ha hin
    · exact hway (List.mem_append_left _ (List.mem_singleton.mp hin ▸ ha))
  obtain rfl | ⟨init, last, rfl⟩ := rest.eq_nil_or_concat'
  · refine ⟨gone ++ [], ⟨hwalk.update_other (fun a ha => ?_) _, gone, [], rfl, List.nil_suffix, hoff⟩, .inl rfl⟩
    rw [List.append_nil] at ha
    exact Cell.head_after_ne (hgone a ha)
  · obtain ⟨front, rfl⟩ := hsuffix
    rw [← List.append_assoc] at hwalk hway
    refine ⟨gone ++ (init ++ [last]) ++ [n], ⟨?_, gone, init ++ [last] ++ [n], List.append_assoc .., ?_, hoff⟩, .inr rfl⟩
    · rw [← List.append_assoc front, Cell.after_concat, ← List.append_assoc gone]
      exact hwalk.append hway hnull
    · exact ⟨front, by simp⟩

/-- An element is taken out: a reader that is on it, or is to come to it from one that has
gone, will still pass it; the others will not. -/
theorem Ahead.remove (hr : Ahead links (before ++ z :: after) o way)
    (hl : Chain links (.head h) (before ++ z :: after)) :
    ∃ way', Ahead (Function.update links ((Cell.head h).after before) (links (.next z))) (before ++ after) o way' ∧
      (way' = way ∨ o ≠ some z ∧ way' = way.filter (· ≠ z)) := by
  obtain ⟨hwalk, gone, rest, rfl, hsuffix, hgone⟩ := hr
  obtain ⟨_, hright, hapart⟩ := List.nodup_append.mp hl.nodup
  have hzbefore : z ∉ before := fun hz => hapart z hz z (List.mem_cons_self ..) rfl
  have hzafter : z ∉ after := (List.nodup_cons.mp hright).1
  have hafter : ∀ a ∈ after, a ∉ before := fun a ha hb => hapart a hb a (List.mem_cons_of_mem _ ha) rfl
  have hoff : ∀ a ∈ gone, a ∉ before ++ after := by
    intro a ha hin
    refine hgone a ha ?_
    obtain hin | hin := List.mem_append.mp hin
    · exact List.mem_append_left _ hin
    · exact List.mem_append_right _ (List.mem_cons_of_mem _ hin)
  by_cases hz : z ∈ rest
  · obtain ⟨near, far, rfl⟩ := List.append_of_mem hz
    obtain ⟨front, hfront⟩ := hsuffix
    rw [← List.append_assoc] at hfront
    obtain ⟨rfl, _, rfl⟩ := (List.append_cons_inj_of_notMem hzbefore hzafter).mp hfront.symm
    obtain rfl | ⟨init, last, rfl⟩ := near.eq_nil_or_concat'
    · -- the reader has gone too, or is on `z`: the link that changes is not on its way
      rw [List.append_nil] at *
      refine ⟨gone ++ z :: after, ⟨hwalk.update_other (fun a ha => Cell.head_after_ne ?_) _, gone ++ [z], after,
        by simp, List.suffix_append .., ?_⟩, .inl rfl⟩
      · obtain ha | ha := List.mem_append.mp ha
        · exact fun hb => hoff a ha (List.mem_append_left _ hb)
        · obtain rfl | ha := List.mem_cons.mp ha
          · exact hzbefore
          · exact hafter a ha
      · intro a ha hin
        obtain ha | ha := List.mem_append.mp ha
        · exact hoff a ha hin
        · rw [List.mem_singleton.mp ha] at hin
          exact (List.mem_append.mp hin).elim hzbefore hzafter
    · have hznear : z ∉ gone ++ init ++ [last] := by
        rw [List.append_assoc]
        intro hin
        obtain hin | hin := List.mem_append.mp hin
        · exact hgone z hin (by simp)
        · exact hzbefore (List.mem_append_right _ hin)
      have hkeep : (gone ++ init ++ [last] ++ z :: after).filter (· ≠ z) = gone ++ init ++ [last] ++ after := by
        rw [List.filter_append, List.filter_cons_of_neg (by simp)]
        congr 1
        · exact List.filter_eq_self.mpr fun a ha => decide_eq_true fun he => hznear (he ▸ ha)
        · exact List.filter_eq_self.mpr fun a ha => decide_eq_true fun he => hzafter (he ▸ ha)
      rw [← List.append_assoc gone, ← List.append_assoc gone] at hwalk ⊢
      rw [← List.append_assoc front, Cell.after_concat]
      refine ⟨gone ++ init ++ [last] ++ after, ⟨?_, gone, init ++ [last] ++ after, by simp, ⟨front, by simp⟩, ?_⟩,
        .inr ⟨?_, hkeep.symm⟩⟩
      · rw [List.append_assoc, List.singleton_append] at hwalk ⊢
        exact hwalk.remove
      · simpa using hoff
      · rintro rfl
        cases hway : gone ++ init ++ [last] with
        | nil => simp at hway
        | cons a near =>
          rw [hway] at hwalk hznear
          exact hznear (Option.some.inj hwalk.1 ▸ List.mem_cons_self ..)
  · have hrest : rest <:+ after := by
      obtain ⟨front, hfront⟩ := hsuffix
      obtain ⟨more, _, rfl⟩ | ⟨more, _, hmore⟩ := List.append_eq_append_iff.mp hfront
      · exact absurd (by simp) hz
      · cases more with
        | nil => exact absurd (by rw [List.nil_append] at hmore; rw [← hmore]; simp) hz
        | cons _ more => exact ⟨more, (List.cons.inj hmore).2.symm⟩
    refine ⟨gone ++ rest, ⟨hwalk.update_other (fun a ha => Cell.head_after_ne ?_) _, gone, rest, rfl,
      hrest.trans (List.suffix_append ..), hoff⟩, .inl rfl⟩
    obtain ha | ha := List.mem_append.mp ha
    · exact fun hb => hoff a ha (List.mem_append_left _ hb)
    · exact hafter a (hrest.subset ha)

end

end V2lin.Lists
