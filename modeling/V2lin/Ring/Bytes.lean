import Mathlib.Data.List.Basic
import Mathlib.Data.UInt

/-! Byte memory.

A memory gives the byte at every address. Words of 32 bits are stored with the low byte
first. -/
namespace V2lin.Ring

abbrev Bytes := ℤ → UInt8

/-- Store the bytes `l` from address `a` on. -/
def Bytes.write (mem : Bytes) (a : ℤ) (l : List UInt8) : Bytes := fun x =>
  if a ≤ x ∧ x < a + l.length then l.getD (x - a).toNat 0 else mem x

def Bytes.read (mem : Bytes) (a : ℤ) (n : ℕ) : List UInt8 :=
  (List.range n).map fun i : ℕ => mem (a + i)

/-- The four bytes of a word. -/
def wordBytes (n : ℕ) : List UInt8 :=
  [UInt8.ofNat n, UInt8.ofNat (n / 256), UInt8.ofNat (n / 65536), UInt8.ofNat (n / 16777216)]

def Bytes.writeWord (mem : Bytes) (a : ℤ) (n : ℕ) : Bytes := mem.write a (wordBytes n)

def Bytes.readWord (mem : Bytes) (a : ℤ) : ℕ :=
  (mem a).toNat + 256 * (mem (a + 1)).toNat + 65536 * (mem (a + 2)).toNat + 16777216 * (mem (a + 3)).toNat

variable {mem mem' : Bytes} {a b x : ℤ} {n : ℕ} {l : List UInt8}

theorem Bytes.write_inside (h : a ≤ x) (hx : x < a + l.length) : mem.write a l x = l.getD (x - a).toNat 0 :=
  if_pos ⟨h, hx⟩

theorem Bytes.write_outside (h : x < a ∨ a + l.length ≤ x) : mem.write a l x = mem x :=
  if_neg (by omega)

/-- What is read depends on the bytes read only. -/
theorem Bytes.read_congr (h : ∀ x, a ≤ x → x < a + n → mem' x = mem x) : mem'.read a n = mem.read a n := by
  apply List.map_congr_left
  intro i hi
  have := List.mem_range.mp hi
  exact h (a + i) (by omega) (by omega)

theorem Bytes.readWord_congr (h : ∀ x, a ≤ x → x < a + 4 → mem' x = mem x) : mem'.readWord a = mem.readWord a := by
  unfold Bytes.readWord
  rw [h a (by omega) (by omega), h (a + 1) (by omega) (by omega), h (a + 2) (by omega) (by omega),
    h (a + 3) (by omega) (by omega)]

theorem Bytes.read_write : (mem.write a l).read a l.length = l := by
  apply List.ext_getElem
  · simp [Bytes.read]
  · intro i _ hi
    have hinside : mem.write a l (a + i) = l.getD (a + i - a).toNat 0 :=
      Bytes.write_inside (by omega) (by omega)
    have hindex : (a + (i : ℤ) - a).toNat = i := by omega
    simp only [Bytes.read, List.getElem_map, List.getElem_range]
    rw [hinside, hindex, List.getD_eq_getElem?_getD, List.getElem?_eq_getElem hi, Option.getD_some]

@[simp] theorem Bytes.read_length : (mem.read a n).length = n := by
  simp [Bytes.read]

theorem Bytes.readWord_writeWord (h : n < 2 ^ 32) : (mem.writeWord a n).readWord a = n := by
  have hbyte : ∀ i : ℕ, i < 4 → mem.writeWord a n (a + i) = (wordBytes n).getD i 0 := by
    intro i hi
    have hinside : mem.write a (wordBytes n) (a + i) = (wordBytes n).getD (a + i - a).toNat 0 :=
      Bytes.write_inside (by omega) (by simp only [wordBytes, List.length_cons, List.length_nil]; omega)
    have hindex : (a + (i : ℤ) - a).toNat = i := by omega
    rwa [hindex] at hinside
  have h0 := hbyte 0 (by omega)
  have h1 := hbyte 1 (by omega)
  have h2 := hbyte 2 (by omega)
  have h3 := hbyte 3 (by omega)
  simp only [Nat.cast_zero, Int.add_zero, Nat.cast_one, Nat.cast_ofNat] at h0 h1 h2 h3
  unfold Bytes.readWord
  rw [h0, h1, h2, h3]
  simp only [wordBytes, List.getD_cons_zero, List.getD_cons_succ, UInt8.toNat_ofNat']
  omega

end V2lin.Ring
