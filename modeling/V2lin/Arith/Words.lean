import Mathlib.Algebra.Order.Ring.Int
import Mathlib.Data.Int.Notation
import Mathlib.Data.Nat.Notation

/-! Machine words.

A signed or unsigned word of `w` bits holds the integers that fit it. Any other integer is
stored modulo `2 ^ w`, so storing is exact for the integers that fit and for no others. -/
namespace V2lin.Arith

/-- The values of a signed word of `w` bits. -/
def FitsSigned (w : ℕ) (n : ℤ) : Prop := -(2 : ℤ) ^ w ≤ n * 2 ∧ n * 2 < (2 : ℤ) ^ w

/-- The values of an unsigned word of `w` bits. -/
def FitsUnsigned (w : ℕ) (n : ℤ) : Prop := 0 ≤ n ∧ n < (2 : ℤ) ^ w

instance (w : ℕ) (n : ℤ) : Decidable (FitsSigned w n) := inferInstanceAs (Decidable (_ ∧ _))

instance (w : ℕ) (n : ℤ) : Decidable (FitsUnsigned w n) := inferInstanceAs (Decidable (_ ∧ _))

/-- What a signed word holds after `n` has been stored in it. -/
def toSigned (w : ℕ) (n : ℤ) : ℤ := n.bmod (2 ^ w)

/-- What an unsigned word holds after `n` has been stored in it. -/
def toUnsigned (w : ℕ) (n : ℤ) : ℤ := n % (2 : ℤ) ^ w

/-- `INT_MAX` -/
def intMax : ℤ := 2 ^ 31 - 1

/-- `INT_MIN` -/
def intMin : ℤ := -2 ^ 31

/-- `++` on an `int`, which comes round after `INT_MAX`. -/
def increment (n : ℤ) : ℤ := if n = intMax then intMin else n + 1

variable {w : ℕ} {n : ℤ}

theorem two_pow_cast (w : ℕ) : ((2 ^ w : ℕ) : ℤ) = (2 : ℤ) ^ w := Int.natCast_pow 2 w

/-! ### Signed words -/

theorem toSigned_fits (w : ℕ) (n : ℤ) : FitsSigned w (toSigned w n) := by
  have hpos : 0 < 2 ^ w := Nat.two_pow_pos w
  have hle : -(((2 ^ w : ℕ) : ℤ) / 2) ≤ n.bmod (2 ^ w) := Int.le_bmod hpos
  have hlt : n.bmod (2 ^ w) < (((2 ^ w : ℕ) : ℤ) + 1) / 2 := Int.bmod_lt hpos
  unfold FitsSigned toSigned
  rw [← two_pow_cast]
  omega

theorem toSigned_of_fits (h : FitsSigned w n) : toSigned w n = n := by
  unfold FitsSigned at h
  rw [← two_pow_cast] at h
  exact Int.bmod_eq_of_le_mul_two h.1 h.2

theorem increment_of_ne (h : n ≠ intMax) : increment n = n + 1 := if_neg h

theorem increment_intMax : increment intMax = intMin := if_pos rfl

theorem increment_le (n : ℤ) : increment n ≤ n + 1 := by
  unfold increment intMin
  split
  · rename_i h
    rw [h]
    decide
  · exact Int.le_refl _

theorem increment_ne (n : ℤ) : increment n ≠ n := by
  unfold increment intMin
  split
  · rename_i h
    rw [h]
    decide
  · omega

theorem increment_ne_pred (n : ℤ) : increment n ≠ n - 1 := by
  unfold increment intMin
  split
  · rename_i h
    rw [h]
    decide
  · omega

/-- It is the increment of a signed word. -/
theorem increment_eq_toSigned (h : FitsSigned 32 n) : increment n = toSigned 32 (n + 1) := by
  by_cases hmax : n = intMax
  · rw [hmax]
    decide
  · rw [increment_of_ne hmax, toSigned_of_fits]
    unfold FitsSigned intMax at *
    omega

/-! ### Unsigned words -/

theorem toUnsigned_fits (w : ℕ) (n : ℤ) : FitsUnsigned w (toUnsigned w n) := by
  have hpos : (0 : ℤ) < (2 : ℤ) ^ w := Int.pow_pos (by decide)
  exact ⟨Int.emod_nonneg n (Int.ne_of_gt hpos), Int.emod_lt_of_pos n hpos⟩

theorem toUnsigned_of_fits (h : FitsUnsigned w n) : toUnsigned w n = n := Int.emod_eq_of_lt h.1 h.2

end V2lin.Arith
