import Mathlib.Data.List.Nodup
import Mathlib.Data.Set.Finite.Basic

/-! Walking along a list that changes under the walker.

The walker reads the successor of the element it is at, then things happen to the list
(elements go, new ones are appended), then it looks the successor up again; if it is gone
the walk ends. So nobody is visited twice, and somebody is passed over exactly if the
successor goes at the wrong moment; the walk ends unless there are new elements for ever. -/
namespace V2lin.Lists

/-- A walk: the list and the element the walker is to visit, turn by turn. -/
structure Walk (α : Type) where
  list : ℕ → List α
  cursor : ℕ → Option α
  nodup : ∀ n, (list n).Nodup
  starts : cursor 0 = (list 0).head?
  ended : ∀ n, cursor n = none → cursor (n + 1) = none ∧ list (n + 1) = list n
  lost : ∀ n a, cursor n = some a → a ∉ list n → cursor (n + 1) = none ∧ list (n + 1) = list n
  /-- The successor is read before the list changes. -/
  moves : ∀ n a done rest, cursor n = some a → list n = done ++ a :: rest → cursor (n + 1) = rest.head?
  /-- What goes leaves the rest in order; what comes was never there before. -/
  changes : ∀ n, ∃ (stays : α → Bool) (new : List α), list (n + 1) = (list n).filter stays ++ new ∧
    ∀ a ∈ new, ∀ k ≤ n, a ∉ list k

namespace Walk
variable {α : Type} (w : Walk α)

/-- Turn `n` is a visit to `a`. -/
def Visits (n : ℕ) (a : α) : Prop := w.cursor n = some a ∧ a ∈ w.list n

def Visited (n : ℕ) (a : α) : Prop := ∃ k < n, w.Visits k a

/-- What the walker would visit if the list did not change. -/
def Ahead (n : ℕ) (a : α) : Prop := ∃ b done rest, w.cursor n = some b ∧ w.list n = done ++ b :: rest ∧ a ∈ b :: rest

/-- In turn `n` the successor goes, while an element of the first list behind it stays. -/
def Cut (n : ℕ) : Prop := ∃ a done b rest, w.cursor n = some a ∧ w.list n = done ++ a :: b :: rest ∧
  b ∉ w.list (n + 1) ∧ ∃ c ∈ rest, c ∈ w.list 0 ∧ c ∈ w.list (n + 1)

variable {w} {n k : ℕ} {a b : α}

theorem Visits.ahead (h : w.Visits n a) : w.Ahead n a := by
  obtain ⟨done, rest, hl⟩ := List.append_of_mem h.2
  exact ⟨a, done, rest, h.1, hl, List.mem_cons_self ..⟩

theorem Visits.next (h : w.Visits n a) : ∃ done rest, w.list n = done ++ a :: rest ∧ w.cursor (n + 1) = rest.head? := by
  obtain ⟨done, rest, hl⟩ := List.append_of_mem h.2
  exact ⟨done, rest, hl, w.moves n a done rest h.1 hl⟩

/-- An element of a later list was in this one, or it is new. -/
theorem mem_cases (h : k ≤ n) (ha : a ∈ w.list n) : a ∈ w.list k ∨ ∀ j ≤ k, a ∉ w.list j := by
  induction n, h using Nat.le_induction with
  | base => exact .inl ha
  | succ n hkn ih =>
    obtain ⟨stays, new, hl, hnew⟩ := w.changes n
    rw [hl] at ha
    obtain ha | ha := List.mem_append.mp ha
    · exact ih (List.mem_of_mem_filter ha)
    · exact .inr fun j hj => hnew a ha j (Nat.le_trans hj hkn)

/-- Whoever is gone from the list does not come back. -/
theorem gone (h : k ≤ n) {j : ℕ} (hj : j ≤ k) (ha : a ∈ w.list j) (hgone : a ∉ w.list k) : a ∉ w.list n := fun hin =>
  (mem_cases h hin).elim hgone fun hnever => hnever j hj ha

theorem notMem_done {l done rest : List α} (hn : l.Nodup) (hl : l = done ++ b :: rest) : b ∉ done ∧ b ∉ rest := by
  rw [hl] at hn
  exact ⟨fun hb => (List.nodup_append.mp hn).2.2 b hb b (List.mem_cons_self ..) rfl,
    (List.nodup_cons.mp (List.nodup_append.mp hn).2.1).1⟩

theorem ahead_iff {done rest : List α} (hc : w.cursor n = some b) (hl : w.list n = done ++ b :: rest) :
    w.Ahead n a ↔ a ∈ b :: rest := by
  constructor
  · intro ⟨b', done', rest', hc', hl', ha⟩
    obtain rfl : b = b' := Option.some.inj (hc.symm.trans hc')
    obtain ⟨hdone, hrest⟩ := notMem_done (w.nodup n) hl
    obtain ⟨_, _, rfl⟩ := (List.append_cons_inj_of_notMem hdone hrest).mp (hl.symm.trans hl')
    exact ha
  · exact fun ha => ⟨b, done, rest, hc, hl, ha⟩

/-- Where the walker goes on if the successor is still there: the list less what it has
behind it. -/
theorem ahead_succ {done rest : List α} {c : α} (hc : w.cursor n = some c) (hl : w.list n = done ++ c :: b :: rest) :
    w.Ahead (n + 1) a ↔ b ∈ w.list (n + 1) ∧ a ∈ w.list (n + 1) ∧ a ∉ done ∧ a ≠ c := by
  have hcur : w.cursor (n + 1) = some b := w.moves n c done (b :: rest) hc hl
  obtain ⟨stays, new, heq, hnew⟩ := w.changes n
  by_cases hb : b ∈ w.list (n + 1)
  · have hstays : stays b = true := by
      rw [heq] at hb
      obtain hb | hb := List.mem_append.mp hb
      · exact (List.mem_filter.mp hb).2
      · exact absurd (by rw [hl]; simp) (hnew b hb n (Nat.le_refl n))
    have hparts : w.list (n + 1) = (done ++ [c]).filter stays ++ b :: (rest.filter stays ++ new) := by
      rw [heq, hl, show done ++ c :: b :: rest = (done ++ [c]) ++ b :: rest by simp, List.filter_append,
        List.filter_cons_of_pos hstays, List.append_assoc, List.cons_append]
    have hnodup := w.nodup n
    rw [hl] at hnodup
    obtain ⟨_, hright, hapart⟩ := List.nodup_append.mp hnodup
    rw [ahead_iff hcur hparts]
    refine ⟨fun ha => ⟨hb, by rw [hparts]; exact List.mem_append_right _ ha, ?_, ?_⟩, fun ⟨_, ha, hdone, hne⟩ => ?_⟩
    · intro hdone
      obtain rfl | ha := List.mem_cons.mp ha
      · exact hapart a hdone a (by simp) rfl
      · obtain ha | ha := List.mem_append.mp ha
        · exact hapart a hdone a (by simp [List.mem_of_mem_filter ha]) rfl
        · exact hnew a ha n (Nat.le_refl n) (by rw [hl]; simp [hdone])
    · rintro rfl
      obtain rfl | ha := List.mem_cons.mp ha
      · exact (List.nodup_cons.mp hright).1 (List.mem_cons_self ..)
      · obtain ha | ha := List.mem_append.mp ha
        · exact (List.nodup_cons.mp hright).1 (List.mem_cons_of_mem _ (List.mem_of_mem_filter ha))
        · exact hnew a ha n (Nat.le_refl n) (by rw [hl]; simp)
    · rw [hparts] at ha
      obtain ha | ha := List.mem_append.mp ha
      · have ha := List.mem_of_mem_filter ha
        simp [hdone, hne] at ha
      · exact ha
  · refine ⟨fun ⟨b', done', rest', hc', hl', _⟩ => ?_, fun h => absurd h.1 hb⟩
    obtain rfl : b = b' := Option.some.inj (hcur.symm.trans hc')
    exact absurd (by rw [hl']; simp) hb

/-- A walker that has somewhere to go comes from a visit. -/
theorem Ahead.of_succ (h : w.Ahead (n + 1) a) : ∃ c done b rest, w.Visits n c ∧ w.list n = done ++ c :: b :: rest := by
  obtain ⟨b, _, _, hc, _⟩ := h
  cases hcur : w.cursor n with
  | none =>
    rw [(w.ended n hcur).1] at hc
    cases hc
  | some c =>
    by_cases hin : c ∈ w.list n
    · obtain ⟨done, rest, hl, hnext⟩ := Visits.next ⟨hcur, hin⟩
      rw [hnext] at hc
      cases rest with
      | nil => cases hc
      | cons b' rest => exact ⟨c, done, b', rest, ⟨hcur, hin⟩, hl⟩
    · rw [(w.lost n c hcur hin).1] at hc
      cases hc

theorem Ahead.mem (h : w.Ahead n a) : a ∈ w.list n := by
  obtain ⟨b, done, rest, _, hl, ha⟩ := h
  rw [hl]
  exact List.mem_append_right _ ha

/-- What lies ahead has not been visited. -/
theorem Ahead.not_visited (h : w.Ahead n a) : ¬ w.Visited n a := by
  induction n with
  | zero => exact fun ⟨_, hk, _⟩ => Nat.not_lt_zero _ hk
  | succ n ih =>
    intro ⟨k, hk, hvisit⟩
    obtain ⟨c, done, b, rest, hc, hl⟩ := h.of_succ
    obtain ⟨_, hin, hdone, hne⟩ := (ahead_succ hc.1 hl).mp h
    have hold : a ∈ w.list n := (mem_cases (Nat.le_succ n) hin).resolve_right fun hnever =>
      hnever k (Nat.le_of_lt_succ hk) hvisit.2
    have hahead : w.Ahead n a := by
      rw [ahead_iff hc.1 hl]
      rw [hl] at hold
      exact (List.mem_append.mp hold).resolve_left hdone
    obtain hlt | rfl := Nat.lt_or_eq_of_le (Nat.le_of_lt_succ hk)
    · exact ih hahead ⟨k, hlt, hvisit⟩
    · exact hne (Option.some.inj (hvisit.1.symm.trans hc.1))

/-- Nobody is visited twice. -/
theorem visits_unique (hn : w.Visits n a) (hk : w.Visits k a) : n = k := by
  obtain hlt | heq | hlt := Nat.lt_trichotomy n k
  · exact absurd ⟨n, hlt, hn⟩ hk.ahead.not_visited
  · exact heq
  · exact absurd ⟨k, hlt, hk⟩ hn.ahead.not_visited

/-- Unless the walk is cut, whoever was on the list when it began has been visited, is
ahead, or is gone. -/
theorem settled (hcut : ∀ k < n, ¬ w.Cut k) (ha : a ∈ w.list 0) : w.Visited n a ∨ w.Ahead n a ∨ a ∉ w.list n := by
  induction n with
  | zero =>
    cases hl : w.list 0 with
    | nil =>
      rw [hl] at ha
      cases ha
    | cons b rest =>
      refine .inr (.inl ⟨b, [], rest, ?_, hl, hl ▸ ha⟩)
      rw [w.starts, hl]
      rfl
  | succ n ih =>
    by_cases hin : a ∈ w.list (n + 1)
    · have hold : a ∈ w.list n := (mem_cases (Nat.le_succ n) hin).resolve_right fun hnever => hnever 0 (Nat.zero_le n) ha
      obtain ⟨k, hk, hvisit⟩ | hahead | hout := ih fun k hk => hcut k (Nat.lt_succ_of_lt hk)
      · exact .inl ⟨k, Nat.lt_succ_of_lt hk, hvisit⟩
      · obtain ⟨c, done, rest, hc, hl, hmem⟩ := hahead
        obtain rfl | hrest := List.mem_cons.mp hmem
        · exact .inl ⟨n, Nat.lt_succ_self n, hc, hold⟩
        · cases rest with
          | nil => cases hrest
          | cons b rest =>
            refine .inr (.inl ((ahead_succ hc hl).mpr ⟨?_, hin, ?_, ?_⟩))
            · -- if the successor were gone, this would be a cut
              by_contra hb
              have hmem : a ∈ rest := (List.mem_cons.mp hrest).resolve_left fun he => hb (he ▸ hin)
              exact hcut n (Nat.lt_succ_self n) ⟨c, done, b, rest, hc, hl, hb, a, hmem, ha, hin⟩
            · intro hdone
              have hn := w.nodup n
              rw [hl] at hn
              exact (List.nodup_append.mp hn).2.2 a hdone a (List.mem_cons_of_mem _ hrest) rfl
            · rintro rfl
              exact (notMem_done (w.nodup n) hl).2 hrest
      · exact absurd hold hout
    · exact .inr (.inr hin)

/-- A walk that meets only finitely many elements ends. -/
theorem ends (hfin : ∃ l : List α, ∀ n a, w.Visits n a → a ∈ l) : ∃ n, w.cursor n = none := by
  obtain ⟨l, hl⟩ := hfin
  by_contra hno
  rw [not_exists] at hno
  have hvisit : ∀ n, ∃ a, w.Visits n a := by
    intro n
    obtain ⟨a, hc⟩ := Option.ne_none_iff_exists'.mp (hno n)
    by_cases hin : a ∈ w.list n
    · exact ⟨a, hc, hin⟩
    · exact absurd (w.lost n a hc hin).1 (hno (n + 1))
  choose f hf using hvisit
  have hinj : Function.Injective f := fun i j hij => visits_unique (hij ▸ hf i) (hf j)
  exact Set.infinite_of_injective_forall_mem hinj (fun n => hl n _ (hf n)) l.finite_toSet

theorem cursor_none (h : w.cursor n = none) : w.cursor (n + k) = none ∧ w.list (n + k) = w.list n := by
  induction k with
  | zero => exact ⟨h, rfl⟩
  | succ k ih =>
    obtain ⟨hc, hl⟩ := ih
    obtain ⟨hc', hl'⟩ := w.ended _ hc
    exact ⟨hc', hl'.trans hl⟩

/-- A cut passes somebody over. -/
theorem Cut.passes_over (h : w.Cut n) : ∃ a ∈ w.list 0, (∀ k, a ∈ w.list k) ∧ ∀ k, ¬ w.Visits k a := by
  obtain ⟨c, done, b, rest, hc, hl, hgone, a, hrest, ha, hin⟩ := h
  have hcur : w.cursor (n + 1) = some b := w.moves n c done (b :: rest) hc hl
  obtain ⟨hnone, hlist⟩ := w.lost (n + 1) b hcur hgone
  have hstay : ∀ k, a ∈ w.list k := by
    intro k
    obtain hlt | hle := Nat.lt_or_ge (n + 1) k
    · obtain ⟨j, rfl⟩ := Nat.exists_eq_add_of_le (show n + 1 + 1 ≤ k from hlt)
      rw [(cursor_none hnone).2, hlist]
      exact hin
    · by_contra hout
      exact gone hle (Nat.zero_le k) ha hout hin
  refine ⟨a, ha, hstay, fun k hvisit => ?_⟩
  have hahead : w.Ahead n a := (ahead_iff hc hl).mpr (List.mem_cons_of_mem _ (List.mem_cons_of_mem _ hrest))
  obtain hlt | heq | hlt := Nat.lt_trichotomy k n
  · exact hahead.not_visited ⟨k, hlt, hvisit⟩
  · rw [heq, Visits, hc] at hvisit
    exact (notMem_done (w.nodup n) hl).2 (Option.some.inj hvisit.1 ▸ List.mem_cons_of_mem _ hrest)
  · obtain heq | hlt := Nat.eq_or_lt_of_le (show n + 1 ≤ k from hlt)
    · rw [← heq, Visits, hcur] at hvisit
      exact hgone (Option.some.inj hvisit.1 ▸ hin)
    · obtain ⟨j, rfl⟩ := Nat.exists_eq_add_of_le (show n + 1 + 1 ≤ k from hlt)
      rw [Visits, (cursor_none hnone).1] at hvisit
      cases hvisit.1

/-- A walk that meets finitely many elements serves everybody who is on the list when it
begins and still there at the turn if and only if it is never cut. -/
theorem serves_iff_not_cut (hend : ∃ n, w.cursor n = none) :
    (∀ a ∈ w.list 0, (∃ n, w.Visits n a) ∨ ∃ n, a ∉ w.list n ∧ ¬ w.Visited n a) ↔ ∀ n, ¬ w.Cut n := by
  constructor
  · intro hall n hcut
    obtain ⟨a, ha, hstay, hno⟩ := hcut.passes_over
    obtain ⟨k, hvisit⟩ | ⟨k, hout, _⟩ := hall a ha
    · exact hno k hvisit
    · exact hout (hstay k)
  · intro hcut a ha
    obtain ⟨n, hn⟩ := hend
    obtain ⟨k, _, hvisit⟩ | ⟨_, _, _, hc, _⟩ | hout := settled (n := n) (fun k _ => hcut k) ha
    · exact .inl ⟨k, hvisit⟩
    · rw [hn] at hc
      cases hc
    · by_cases hv : w.Visited n a
      · obtain ⟨k, _, hvisit⟩ := hv
        exact .inl ⟨k, hvisit⟩
      · exact .inr ⟨n, hout, hv⟩

end Walk

end V2lin.Lists
