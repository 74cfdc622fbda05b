import Mathlib.Data.List.Nodup

/-! What a walker along a list still has before it.

The walker knows the element it is at. Elements may be appended behind it, and the list may
be cut off: what is left behind the walker is still behind it. -/
namespace V2lin.Lists

section
variable {α : Type} {l : List α} {a b c : α}

/-- `b` stands somewhere behind `a`. -/
def Behind (l : List α) (a b : α) : Prop := ∃ done rest, l = done ++ a :: rest ∧ b ∈ rest

theorem Behind.append (h : Behind l a b) (new : List α) : Behind (l ++ new) a b := by
  obtain ⟨done, rest, rfl, hb⟩ := h
  exact ⟨done, rest ++ new, by simp, List.mem_append_left _ hb⟩

/-- From the beginning a walker has everybody before it. -/
theorem mem_head_or_behind (h : b ∈ l) : ∃ a, l.head? = some a ∧ (b = a ∨ Behind l a b) := by
  cases l with
  | nil => cases h
  | cons a rest =>
    refine ⟨a, rfl, ?_⟩
    obtain rfl | h := List.mem_cons.mp h
    · exact .inl rfl
    · exact .inr ⟨[], rest, rfl, h⟩

/-- Who is behind `a` and in a first part of the list has `a` in that part before it. -/
theorem Behind.of_append {front back : List α} (hn : (front ++ back).Nodup) (h : Behind (front ++ back) a b)
    (hb : b ∈ front) : Behind front a b := by
  obtain ⟨done, rest, heq, hrest⟩ := h
  rw [heq] at hn
  have hafter : b ∉ done ++ [a] := by
    intro hin
    rw [show done ++ a :: rest = (done ++ [a]) ++ rest by simp] at hn
    exact (List.nodup_append.mp hn).2.2 b hin b hrest rfl
  obtain ⟨more, rfl, heq'⟩ | ⟨more, rfl, heq'⟩ := List.append_eq_append_iff.mp heq
  · exact absurd (by simp [hb]) hafter
  · cases more with
    | nil => exact absurd (by simpa using Or.inl hb) hafter
    | cons d more =>
      obtain ⟨rfl, rfl⟩ := List.cons.inj heq'
      refine ⟨done, more, rfl, ?_⟩
      obtain hb | hb := List.mem_append.mp hb
      · exact absurd (List.mem_append_left _ hb) hafter
      · obtain rfl | hb := List.mem_cons.mp hb
        · exact absurd (by simp) hafter
        · exact hb

variable [DecidableEq α]

theorem Behind.takeWhile (hn : l.Nodup) (h : Behind l a b) (hb : b ∈ l.takeWhile (· ≠ c)) (new : List α) :
    Behind (l.takeWhile (· ≠ c) ++ new) a b := by
  rw [← List.takeWhile_append_dropWhile (p := (· ≠ c)) (l := l)] at hn h
  exact (h.of_append hn hb).append new

/-- The walker goes on to the next element, and has the same before it. -/
theorem Behind.next (hn : l.Nodup) (h : Behind l a b) :
    l.getLast? ≠ some a ∧ ∃ c, (l.dropWhile (· ≠ a)).tail.head? = some c ∧ (b = c ∨ Behind l c b) := by
  obtain ⟨done, rest, rfl, hb⟩ := h
  have hdone : a ∉ done := fun ha => (List.nodup_append.mp hn).2.2 a ha a (List.mem_cons_self ..) rfl
  have hrest : a ∉ rest := (List.nodup_cons.mp (List.nodup_append.mp hn).2.1).1
  obtain ⟨c, rest, rfl⟩ : ∃ c more, rest = c :: more := by
    cases rest with
    | nil => cases hb
    | cons c more => exact ⟨c, more, rfl⟩
  constructor
  · intro hlast
    rw [List.getLast?_append_of_ne_nil _ (List.cons_ne_nil a _), List.getLast?_cons_cons] at hlast
    exact hrest (List.mem_of_getLast? hlast)
  · refine ⟨c, ?_, ?_⟩
    · have hskip : ∀ x ∈ done, decide (x ≠ a) = true := fun x hx => decide_eq_true fun he => hdone (he ▸ hx)
      rw [List.dropWhile_append_of_pos hskip]
      simp
    · obtain rfl | hb := List.mem_cons.mp hb
      · exact .inl rfl
      · exact .inr ⟨done ++ [a], rest, by simp, hb⟩

end

end V2lin.Lists
