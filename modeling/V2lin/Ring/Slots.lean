import V2lin.Ring.Bytes
import V2lin.Ring.Circle
import Mathlib.Tactic.Ring
import Mathlib.Tactic.Linarith

/-! Slots of a byte memory, and what is stored in them.

A ring of `n + 1` slots of `size` bytes lies in the memory from an address on. Its slots do
not overlap, and a pointer that goes from slot to slot with a test against the first or the
last one goes around the circle. What code writes is a list of stores, byte by byte; outside
their addresses the memory stays as it is. -/
namespace V2lin.Ring

/-! ### Stores -/

/-- A byte and the address it is stored at. -/
structure Store where
  addr : ℤ
  byte : UInt8
  deriving DecidableEq

/-- The memory after some stores, the first of the list first. -/
def Bytes.stores (mem : Bytes) : List Store → Bytes
  | [] => mem
  | s :: l => stores (Function.update mem s.addr s.byte) l

/-- The stores of a loop that copies bytes to an address. -/
def copies (a : ℤ) : List UInt8 → List Store
  | [] => []
  | b :: l => ⟨a, b⟩ :: copies (a + 1) l

/-- All stores are to the `size` bytes at `a`. -/
def Inside (a size : ℤ) (stores : List Store) : Prop :=
  ∀ s ∈ stores, a ≤ s.addr ∧ s.addr < a + size

section
variable {mem : Bytes} {a b x size : ℤ} {l l' : List Store} {bytes : List UInt8}

theorem Bytes.stores_append : mem.stores (l ++ l') = (mem.stores l).stores l' := by
  induction l generalizing mem with
  | nil => rfl
  | cons s l ih => exact ih

theorem Bytes.stores_frame (h : ∀ s ∈ l, s.addr ≠ x) : mem.stores l x = mem x := by
  induction l generalizing mem with
  | nil => rfl
  | cons s l ih =>
    rw [Bytes.stores, ih fun r hr => h r (List.mem_cons_of_mem _ hr)]
    exact Function.update_of_ne (h s (List.mem_cons_self ..)).symm ..

theorem Bytes.stores_outside (h : Inside a size l) (hx : x < a ∨ a + size ≤ x) : mem.stores l x = mem x := by
  refine Bytes.stores_frame fun s hs heq => ?_
  have hin := h s hs
  omega

/-- Copying is storing the bytes. -/
theorem Bytes.stores_copies : mem.stores (copies a bytes) = mem.write a bytes := by
  induction bytes generalizing mem a with
  | nil =>
    funext x
    exact (Bytes.write_outside (by simp; omega)).symm
  | cons b bytes ih =>
    rw [copies, Bytes.stores, ih]
    funext x
    by_cases hx : a ≤ x ∧ x < a + (b :: bytes).length
    · have hlen := hx.2
      rw [List.length_cons] at hlen
      rw [Bytes.write_inside hx.1 hx.2]
      by_cases hfirst : x = a
      · rw [Bytes.write_outside (.inl (by omega)), hfirst, Function.update_self, Int.sub_self]
        rfl
      · have hindex : (x - a).toNat = (x - (a + 1)).toNat + 1 := by omega
        rw [Bytes.write_inside (by omega) (by push_cast at hlen; omega), hindex, List.getD_cons_succ]
    · rw [List.length_cons] at hx
      push_cast at hx
      have hother : x ≠ a := by omega
      rw [Bytes.write_outside (by omega), Function.update_of_ne hother,
        Bytes.write_outside (by rw [List.length_cons]; push_cast; omega)]

theorem inside_copies : Inside a bytes.length (copies a bytes) := by
  induction bytes generalizing a with
  | nil => exact nofun
  | cons b bytes ih =>
    intro s hs
    rw [List.length_cons]
    push_cast
    obtain rfl | hs := List.mem_cons.mp hs
    · show a ≤ a ∧ a < a + (bytes.length + 1)
      omega
    · have hin := ih s hs
      omega

theorem Inside.append (h : Inside a size l) (h' : Inside a size l') : Inside a size (l ++ l') := fun s hs =>
  (List.mem_append.mp hs).elim (h s) (h' s)

theorem Inside.mono {size' : ℤ} (h : Inside a size l) (ha : b ≤ a) (hb : a + size ≤ b + size') : Inside b size' l :=
  fun s hs => by
    have hin := h s hs
    omega

end

/-! ### Slots -/

/-- The address of slot `i`. -/
def slot (a size : ℤ) (i : ℕ) : ℤ := a + size * i

section
variable {a size : ℤ} {n i j : ℕ}

/-- Different slots do not overlap. -/
theorem slot_apart (h : 0 ≤ size) (hij : i ≠ j) :
    slot a size i + size ≤ slot a size j ∨ slot a size j + size ≤ slot a size i := by
  unfold slot
  obtain hlt | hlt := Nat.lt_or_gt_of_ne hij
  · left
    nlinarith [(by exact_mod_cast hlt : (i : ℤ) + 1 ≤ j)]
  · right
    nlinarith [(by exact_mod_cast hlt : (j : ℤ) + 1 ≤ i)]

/-- The slots fill the ring. -/
theorem slot_inside (h : 0 ≤ size) (hi : i < n + 1) :
    a ≤ slot a size i ∧ slot a size i + size ≤ a + size * (n + 1) := by
  unfold slot
  constructor
  · nlinarith [(by omega : (0 : ℤ) ≤ i)]
  · nlinarith [(by omega : (i : ℤ) + 1 ≤ n + 1)]

/-- A pointer that is moved on by a slot, and from the last slot to the first. -/
theorem slot_next (h : 0 < size) (hi : i < n + 1) :
    (if slot a size i + size > slot a size n then a else slot a size i + size) = slot a size (next (n + 1) i) := by
  unfold slot
  by_cases hlast : i = n
  · rw [if_pos (by rw [hlast]; omega), next, if_pos (by omega)]
    simp
  · have hle : size * i + size ≤ size * n := by
      nlinarith [(by omega : (i : ℤ) + 1 ≤ n)]
    rw [if_neg (by omega), next, if_neg (by omega)]
    push_cast
    ring

/-- A pointer that is moved back by a slot, and from the first slot to the last. -/
theorem slot_prev (h : 0 < size) (hi : i < n + 1) :
    (if slot a size i - size < a then slot a size n else slot a size i - size) = slot a size (prev (n + 1) i) := by
  unfold slot
  by_cases hfirst : i = 0
  · subst hfirst
    rw [if_pos (by simp only [Nat.cast_zero, mul_zero]; omega), prev, if_pos rfl, Nat.add_sub_cancel]
  · have hle : size ≤ size * i := by
      nlinarith [(by omega : (1 : ℤ) ≤ i)]
    rw [if_neg (by omega), prev, if_neg hfirst, Nat.cast_sub (by omega)]
    push_cast
    ring

end

end V2lin.Ring
