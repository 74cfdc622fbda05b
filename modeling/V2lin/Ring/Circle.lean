import Mathlib.Data.List.Basic
import Mathlib.Data.Nat.ModEq

/-! Runs of cells on a circle.

`contents` reads `count` cells from `head` on, around a circle of `size` cells. As long
as not all of them are read, the place after the last one and the place before the first
one are not among those read. -/
namespace V2lin.Ring

section
variable {α : Type}

/-- The place after `i`. -/
def next (size i : ℕ) : ℕ := if i + 1 = size then 0 else i + 1

/-- The place before `i`. -/
def prev (size i : ℕ) : ℕ := if i = 0 then size - 1 else i - 1

/-- The `k`th place after `i`. -/
def place (size i k : ℕ) : ℕ := (i + k) % size

def contents (cell : ℕ → α) (size head count : ℕ) : List α :=
  (List.range count).map fun k => cell (place size head k)

variable {cell cell' : ℕ → α} {size head count i k : ℕ}

/-! ### Places -/

theorem next_lt (h : i < size) : next size i < size := by
  unfold next
  split <;> omega

theorem prev_lt (h : i < size) : prev size i < size := by
  unfold prev
  split <;> omega

theorem next_prev (h : i < size) : next size (prev size i) = i := by
  unfold next prev
  split <;> split <;> omega

theorem place_lt (h : i < size) : place size i k < size :=
  Nat.mod_lt _ (by omega)

theorem place_zero (h : i < size) : place size i 0 = i :=
  Nat.mod_eq_of_lt h

theorem next_eq_place (h : i < size) : next size i = place size i 1 := by
  unfold next place
  split
  · rename_i hlast
    rw [hlast, Nat.mod_self]
  · exact (Nat.mod_eq_of_lt (by omega)).symm

theorem place_next (h : i < size) : place size (next size i) k = place size i (k + 1) := by
  rw [next_eq_place h, place, place, place, Nat.mod_add_mod, Nat.add_assoc, Nat.add_comm 1 k]

theorem next_place (h : i < size) : next size (place size i k) = place size i (k + 1) := by
  rw [next_eq_place (place_lt h), place, place, place, Nat.mod_add_mod, Nat.add_assoc]

/-- Places less than a whole turn apart differ. -/
theorem place_ne {j : ℕ} (hkj : k < j) (hj : j < k + size) : place size i k ≠ place size i j := by
  intro h
  have hmod : i + k ≡ i + j [MOD size] := h
  have hmod : k ≡ j [MOD size] := Nat.ModEq.add_left_cancel' i hmod
  have hdvd := (Nat.modEq_iff_dvd' hkj.le).mp hmod
  have := Nat.le_of_dvd (by omega) hdvd
  omega

theorem place_ne_prev (h : i < size) (hk : k + 1 < size) : place size i k ≠ prev size i := by
  have hplace : place size i k = place size (prev size i) (k + 1) := by
    rw [← place_next (prev_lt h), next_prev h]
  rw [hplace]
  intro heq
  exact place_ne (show 0 < k + 1 by omega) (by omega) ((place_zero (prev_lt h)).trans heq.symm)

/-! ### Contents -/

@[simp] theorem contents_length : (contents cell size head count).length = count := by
  simp [contents]

theorem contents_congr (h : ∀ k < count, cell' (place size head k) = cell (place size head k)) :
    contents cell' size head count = contents cell size head count :=
  List.map_congr_left fun k hk => h k (List.mem_range.mp hk)

theorem contents_succ_right :
    contents cell size head (count + 1) = contents cell size head count ++ [cell (place size head count)] := by
  simp [contents, List.range_succ]

theorem contents_succ_left (h : head < size) :
    contents cell size head (count + 1) = cell head :: contents cell size (next size head) count := by
  unfold contents
  rw [List.range_succ_eq_map, List.map_cons, place_zero h, List.map_map]
  congr 1
  apply List.map_congr_left
  intro k _
  show cell (place size head (k + 1)) = _
  rw [place_next h]

/-- Writing the cell after the last one appends. -/
theorem contents_push_back (hsame : ∀ k < count, cell' (place size head k) = cell (place size head k)) :
    contents cell' size head (count + 1) =
      contents cell size head count ++ [cell' (place size head count)] := by
  rw [contents_succ_right, contents_congr hsame]

/-- Writing the cell before the first one prepends. -/
theorem contents_push_front (h : head < size)
    (hsame : ∀ k < count, cell' (place size head k) = cell (place size head k)) :
    contents cell' size (prev size head) (count + 1) =
      cell' (prev size head) :: contents cell size head count := by
  rw [contents_succ_left (prev_lt h), next_prev h, contents_congr hsame]

end

end V2lin.Ring
