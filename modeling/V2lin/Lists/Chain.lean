import Mathlib.Data.List.Nodup
import Mathlib.Logic.Function.Basic

/-! Lists threaded through their elements.

A cell holds a link: it is the head of a list, or the link in an element. From a cell on,
the links lead through elements; a list is a chain of links that ends in a null one. A
chain never comes back to a cell, so a change of one link leaves what is before it alone,
and the list it gives can be read off at that cell (`Leads.relink`).

Loops over cells are turns with a bound on their number; one returns if it ends within
some bound, and then in the same state within every larger one. -/
namespace V2lin.Lists

/-! ### Loops -/

section
variable {σ τ : Type}

/-- A loop, for at most so many looks at its condition: `turn` is one turn, or nothing
where the loop ends. -/
def loop (turn : σ → Option σ) : ℕ → σ → Option σ
  | 0, _ => none
  | n + 1, s =>
    match turn s with
    | none => some s
    | some s' => loop turn n s'

/-- Within some bound, and within every larger one, the result is `s`. -/
def Returns (f : ℕ → Option σ) (s : σ) : Prop := ∃ n, ∀ k ≥ n, f k = some s

variable {turn : σ → Option σ} {f : ℕ → Option σ} {s s' s'' : σ}

theorem Returns.unique (h : Returns f s) (h' : Returns f s') : s = s' := by
  obtain ⟨n, hn⟩ := h
  obtain ⟨n', hn'⟩ := h'
  have heq := (hn (max n n') (Nat.le_max_left ..)).symm.trans (hn' (max n n') (Nat.le_max_right ..))
  exact Option.some.inj heq

theorem Returns.map (h : Returns f s) (g : σ → τ) : Returns (fun k => (f k).map g) (g s) := by
  obtain ⟨n, hn⟩ := h
  refine ⟨n, fun k hk => ?_⟩
  simp only [hn k hk, Option.map_some]

theorem Returns.const (s : σ) : Returns (fun _ => some s) s :=
  ⟨0, fun _ _ => rfl⟩

theorem loop_ended (h : turn s = none) : Returns (loop turn · s) s := by
  refine ⟨1, fun k hk => ?_⟩
  obtain ⟨k, rfl⟩ := Nat.exists_eq_add_of_le' hk
  simp only [loop, h]

theorem loop_turned (h : turn s = some s') (hr : Returns (loop turn · s') s'') : Returns (loop turn · s) s'' := by
  obtain ⟨n, hn⟩ := hr
  refine ⟨n + 1, fun k hk => ?_⟩
  obtain ⟨k, rfl⟩ := Nat.exists_eq_add_of_le' (Nat.le_trans (Nat.le_add_left 1 n) hk)
  simp only [loop, h]
  exact hn k (Nat.le_of_succ_le_succ hk)

end

/-! ### Lists -/

/-- A place for a link: the head of a list, or the link in an element. -/
inductive Cell (η α : Type) where
  | head (h : η)
  | next (a : α)
  deriving DecidableEq

section
variable {η α : Type}

/-- The cell behind the elements of a list that begins at a cell. -/
def Cell.after : Cell η α → List α → Cell η α
  | c, [] => c
  | _, a :: l => (next a).after l

/-- From a cell on, the links go through the elements of a list. -/
def Leads (links : Cell η α → Option α) : Cell η α → List α → Prop
  | _, [] => True
  | c, a :: l => links c = some a ∧ Leads links (.next a) l

/-- The list that begins at `c` is `l`. -/
def Chain (links : Cell η α → Option α) (c : Cell η α) (l : List α) : Prop :=
  Leads links c l ∧ links (c.after l) = none

variable {links links' : Cell η α → Option α} {c d : Cell η α} {a : α} {l l' before rest : List α}

theorem Cell.after_append : c.after (l ++ l') = (c.after l).after l' := by
  induction l generalizing c with
  | nil => rfl
  | cons a l ih => exact ih

/-- Behind elements, the cell is the link in one of them. -/
theorem Cell.after_mem (c : Cell η α) (l : List α) : c.after l = c ∨ ∃ a ∈ l, c.after l = .next a := by
  induction l generalizing c with
  | nil => exact .inl rfl
  | cons a l ih =>
    obtain h | ⟨b, hb, h⟩ := ih (.next a)
    · exact .inr ⟨a, List.mem_cons_self .., h⟩
    · exact .inr ⟨b, List.mem_cons_of_mem _ hb, h⟩

theorem leads_append : Leads links c (l ++ l') ↔ Leads links c l ∧ Leads links (c.after l) l' := by
  induction l generalizing c with
  | nil => exact ⟨fun h => ⟨trivial, h⟩, And.right⟩
  | cons a l ih => exact (and_congr_right fun _ => ih).trans and_assoc.symm

theorem chain_append : Chain links c (l ++ l') ↔ Leads links c l ∧ Chain links (c.after l) l' := by
  rw [Chain, Chain, leads_append, Cell.after_append, and_assoc]

theorem chain_nil : Chain links c [] ↔ links c = none :=
  ⟨And.right, fun h => ⟨trivial, h⟩⟩

theorem chain_cons : Chain links c (a :: l) ↔ links c = some a ∧ Chain links (.next a) l :=
  and_assoc

/-- A list depends on the cell it begins at by its link only, and on the links in its elements. -/
theorem Chain.congr (h : Chain links c l) (hc : links' d = links c)
    (hl : ∀ a ∈ l, links' (.next a) = links (.next a)) : Chain links' d l := by
  induction l generalizing c d with
  | nil => exact chain_nil.mpr (hc.trans (chain_nil.mp h))
  | cons a l ih =>
    obtain ⟨ha, h⟩ := chain_cons.mp h
    refine chain_cons.mpr ⟨hc.trans ha, ih h (hl a (List.mem_cons_self ..)) ?_⟩
    intro b hb
    exact hl b (List.mem_cons_of_mem _ hb)

theorem Chain.unique (h : Chain links c l) (h' : Chain links c l') : l = l' := by
  induction l generalizing c l' with
  | nil =>
    cases l' with
    | nil => rfl
    | cons b l' => exact nomatch (chain_nil.mp h).symm.trans h'.1.1
  | cons a l ih =>
    cases l' with
    | nil => exact nomatch (chain_nil.mp h').symm.trans h.1.1
    | cons b l' =>
      obtain ⟨ha, h⟩ := chain_cons.mp h
      obtain ⟨hb, h'⟩ := chain_cons.mp h'
      obtain rfl : a = b := Option.some.inj (ha.symm.trans hb)
      rw [ih h h']

/-- A list does not begin in one of its own elements: it would not end. -/
theorem Chain.apart (h : Chain links c l) : ∀ a ∈ l, c ≠ .next a := by
  intro a ha hc
  obtain ⟨before, rest, hl⟩ := List.append_of_mem ha
  have hrest : Chain links c rest := by
    rw [hl] at h
    rw [hc]
    exact (chain_cons.mp (chain_append.mp h).2).2
  have hlen := congrArg List.length (h.unique hrest)
  rw [hl, List.length_append, List.length_cons] at hlen
  omega

/-- A loop that goes on along a list gets to the cell behind it. -/
theorem Leads.walk {σ : Type} {turn : σ → Option σ} {r : σ} (h : Leads links c l) (place : Cell η α → σ)
    (hturn : ∀ c, ∀ a ∈ l, links c = some a → turn (place c) = some (place (.next a)))
    (hr : Returns (loop turn · (place (c.after l))) r) : Returns (loop turn · (place c)) r := by
  induction l generalizing c with
  | nil => exact hr
  | cons a l ih =>
    refine loop_turned (hturn c a (List.mem_cons_self ..) h.1) (ih h.2 ?_ hr)
    intro d b hb
    exact hturn d b (List.mem_cons_of_mem _ hb)

theorem Chain.nodup (h : Chain links c l) : l.Nodup := by
  induction l generalizing c with
  | nil => exact List.nodup_nil
  | cons a l ih =>
    obtain ⟨_, h⟩ := chain_cons.mp h
    exact List.nodup_cons.mpr ⟨fun ha => h.apart a ha rfl, ih h⟩

variable [DecidableEq η] [DecidableEq α]

/-- A change of the link behind a list changes nothing on the way there. -/
theorem Leads.update (h : Leads links c l) (hn : l.Nodup) (hc : ∀ a ∈ l, c ≠ .next a) (v : Option α) :
    Leads (Function.update links (c.after l) v) c l := by
  induction l generalizing c with
  | nil => trivial
  | cons a l ih =>
    obtain ⟨ha, hn⟩ := List.nodup_cons.mp hn
    have hother : c ≠ (Cell.next a).after l := by
      obtain heq | ⟨b, hb, heq⟩ := (Cell.next a : Cell η α).after_mem l
      · rw [heq]
        exact hc a (List.mem_cons_self ..)
      · rw [heq]
        exact hc b (List.mem_cons_of_mem _ hb)
    refine ⟨(Function.update_of_ne hother ..).trans h.1, ih h.2 hn ?_⟩
    intro b hb hab
    exact ha (Cell.next.inj hab ▸ hb)

/-- A list whose link behind `before` is changed is `before` and what then begins there. -/
theorem Chain.relink (h : Chain links c (before ++ rest)) {v : Option α}
    (hrest : Chain (Function.update links (c.after before) v) (c.after before) l) :
    Chain (Function.update links (c.after before) v) c (before ++ l) := by
  have hn := (List.nodup_append.mp h.nodup).1
  have hc : ∀ a ∈ before, c ≠ .next a := fun a ha => h.apart a (List.mem_append_left _ ha)
  exact chain_append.mpr ⟨(chain_append.mp h).1.update hn hc v, hrest⟩

/-- The link in an element that is not on the list is no part of it. -/
theorem Chain.update_other (h : Chain links c l) (ha : a ∉ l) (hc : c ≠ .next a) (v : Option α) :
    Chain (Function.update links (.next a) v) c l := by
  refine h.congr (Function.update_of_ne hc ..) fun b hb => Function.update_of_ne (fun hba => ?_) ..
  exact ne_of_mem_of_not_mem hb ha (Cell.next.inj hba)

/-- The link of an element is cleared: the list ends there. -/
theorem Chain.cut (h : Chain links c (before ++ a :: rest)) :
    Chain (Function.update links (.next a) none) c (before ++ [a]) := by
  have hcell : c.after (before ++ [a]) = .next a := by
    rw [Cell.after_append]
    rfl
  rw [List.append_cons] at h
  have hend := h.relink (v := none) (l := []) (chain_nil.mpr (Function.update_self ..))
  rwa [List.append_nil, hcell] at hend

/-- An element is taken out. -/
theorem Chain.remove (h : Chain links c (before ++ a :: rest)) :
    Chain (Function.update links (c.after before) (links (.next a))) c (before ++ rest) := by
  have hrest := (chain_append.mp h).2
  refine h.relink ((chain_cons.mp hrest).2.congr (Function.update_self ..) fun b hb => ?_)
  exact Function.update_of_ne (hrest.apart b (List.mem_cons_of_mem _ hb)).symm ..

/-- An element whose own link is null is appended. -/
theorem Chain.append (h : Chain links c l) (ha : a ∉ l) (hc : c ≠ .next a) (hnull : links (.next a) = none) :
    Chain (Function.update links (c.after l) (some a)) c (l ++ [a]) := by
  have hother : Cell.next a ≠ c.after l := by
    obtain heq | ⟨b, hb, heq⟩ := c.after_mem l
    · rw [heq]
      exact hc.symm
    · rw [heq]
      intro hab
      exact ha (Cell.next.inj hab ▸ hb)
  rw [← List.append_nil l] at h
  refine h.relink (chain_cons.mpr ⟨Function.update_self .., chain_nil.mpr ?_⟩)
  rw [Function.update_of_ne hother, hnull]

end

end V2lin.Lists
