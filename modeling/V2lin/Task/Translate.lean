import V2lin.Arith.Words
import Mathlib.Tactic.Ring

/-! VxWorks priorities and the priorities of threads.

`translate_priority` turns the scale round, stretches it to the range of the scheduling
policy and keeps the two highest priorities of the range free. The stretched value of the
most urgent priorities is the highest but one, which the remainder turns into zero: these
priorities come out lowest. -/
namespace V2lin.Task
open V2lin.Arith

/-- `MIN_V2PT_PRIORITY` -/
def minV2ptPriority : ℤ := 255

/-- `MAX_V2PT_PRIORITY` -/
def maxV2ptPriority : ℤ := 0

/-- `translate_priority` reports no `S_taskLib_ILLEGAL_PRIORITY`. -/
def Legal (v : ℤ) : Prop := ¬ (v > minV2ptPriority ∨ v < maxV2ptPriority)

instance (v : ℤ) : Decidable (Legal v) := inferInstanceAs (Decidable (¬ _))

/-- `translate_priority`, for a policy with priorities from `minPriority` to `maxPriority`. -/
def translatePriority (minPriority maxPriority v : ℤ) : ℤ :=
  let pthreadPriority := toSigned 32 (minV2ptPriority - v)
  let pthreadPriority := toSigned 32 (pthreadPriority * maxPriority)
  let pthreadPriority := pthreadPriority.tdiv (minV2ptPriority + 1)
  let pthreadPriority := pthreadPriority.tmod (maxPriority - 1)
  if pthreadPriority < minPriority then minPriority else pthreadPriority

/-- A range that leaves two priorities above the lowest, and whose products fit an `int`. -/
structure Range (minPriority maxPriority : ℤ) : Prop where
  one_le : 1 ≤ minPriority
  min_le : minPriority ≤ maxPriority - 2
  fits : FitsSigned 32 (255 * maxPriority)

variable {lo hi v a b : ℤ}

/-- What is left of the stretched scale above `v`. -/
theorem stretched_eq (hi v : ℤ) : (255 - v) * hi = 256 * hi - (v + 1) * hi := by ring

theorem stretched_bounds (hr : Range lo hi) (hv : Legal v) : hi ≤ (v + 1) * hi ∧ (v + 1) * hi ≤ 256 * hi := by
  have hhi : 0 ≤ hi := by
    have := hr.one_le
    have := hr.min_le
    omega
  unfold Legal minV2ptPriority maxV2ptPriority at hv
  constructor
  · calc hi = 1 * hi := (Int.one_mul hi).symm
      _ ≤ (v + 1) * hi := Int.mul_le_mul_of_nonneg_right (by omega) hhi
  · exact Int.mul_le_mul_of_nonneg_right (by omega) hhi

/-- The remainder changes the stretched value only where that is the highest but one. -/
theorem translatePriority_eq (hr : Range lo hi) (hv : Legal v) :
    translatePriority lo hi v = if (v + 1) * hi ≤ 256 then lo else max lo ((255 - v) * hi / 256) := by
  obtain ⟨hone, hmin, hfits⟩ := hr
  obtain ⟨hlow, hhigh⟩ := stretched_bounds ⟨hone, hmin, hfits⟩ hv
  have hinverted : toSigned 32 (minV2ptPriority - v) = 255 - v := by
    unfold Legal minV2ptPriority maxV2ptPriority at hv
    refine toSigned_of_fits ⟨?_, ?_⟩ <;> unfold minV2ptPriority <;> omega
  have hproduct : toSigned 32 ((255 - v) * hi) = (255 - v) * hi := by
    refine toSigned_of_fits ?_
    unfold FitsSigned at hfits ⊢
    rw [stretched_eq]
    omega
  have hdiv : ((255 - v) * hi).tdiv (minV2ptPriority + 1) = (255 - v) * hi / 256 :=
    Int.tdiv_eq_ediv_of_nonneg (by rw [stretched_eq]; omega)
  simp only [translatePriority, hinverted, hproduct, hdiv]
  rw [stretched_eq]
  by_cases hwrap : (v + 1) * hi ≤ 256
  · have htop : (256 * hi - (v + 1) * hi) / 256 = hi - 1 := by omega
    rw [htop, Int.tmod_self, if_pos (by omega), if_pos hwrap]
  · have hsmall : ((256 * hi - (v + 1) * hi) / 256).tmod (hi - 1) = (256 * hi - (v + 1) * hi) / 256 :=
      Int.tmod_eq_of_lt (by omega) (by omega)
    rw [hsmall, if_neg hwrap]
    omega

/-- Every translated priority leaves the two highest to the system's tasks. -/
theorem translatePriority_range (hr : Range lo hi) (hv : Legal v) :
    lo ≤ translatePriority lo hi v ∧ translatePriority lo hi v ≤ hi - 2 := by
  have hmin := hr.min_le
  rw [translatePriority_eq hr hv, stretched_eq]
  split <;> omega

/-- Two legal priorities keep their order, and both leave the two highest free. -/
structure Translates (lo hi a b : ℤ) : Prop where
  order : translatePriority lo hi b ≤ translatePriority lo hi a
  first : lo ≤ translatePriority lo hi a ∧ translatePriority lo hi a ≤ hi - 2
  second : lo ≤ translatePriority lo hi b ∧ translatePriority lo hi b ≤ hi - 2

/-- Where the order is kept: the more urgent priority is not among those that come out lowest,
or the other one is as well, or it is among the lowest by itself. -/
theorem translates_iff (hr : Range lo hi) (ha : 0 ≤ a) (hab : a < b) (hb : b ≤ 255) :
    Translates lo hi a b ↔ 256 < (a + 1) * hi ∨ (b + 1) * hi ≤ 256 ∨ (255 - b) * hi < 256 * (lo + 1) := by
  have hla : Legal a := by
    unfold Legal minV2ptPriority maxV2ptPriority
    omega
  have hlb : Legal b := by
    unfold Legal minV2ptPriority maxV2ptPriority
    omega
  have hle : (a + 1) * hi ≤ (b + 1) * hi := by
    have hhi : 0 ≤ hi := by
      have := hr.one_le
      have := hr.min_le
      omega
    exact Int.mul_le_mul_of_nonneg_right (by omega) hhi
  have horder : translatePriority lo hi b ≤ translatePriority lo hi a ↔
      256 < (a + 1) * hi ∨ (b + 1) * hi ≤ 256 ∨ (255 - b) * hi < 256 * (lo + 1) := by
    rw [translatePriority_eq hr hla, translatePriority_eq hr hlb, stretched_eq, stretched_eq]
    split <;> split <;> omega
  exact ⟨fun h => horder.mp h.order,
    fun h => ⟨horder.mpr h, translatePriority_range hr hla, translatePriority_range hr hlb⟩⟩

theorem linux_middle_translates : Translates 1 99 100 150 :=
  (translates_iff ⟨by decide, by decide, by decide⟩ (by decide) (by decide) (by decide)).mpr (by decide)

/-- With the real-time priorities of Linux the most urgent priority gets the lowest thread
priority, and the one after the next a high one. -/
theorem most_urgent_lowest :
    ¬ Translates 1 99 0 2 ∧ translatePriority 1 99 0 = 1 ∧ translatePriority 1 99 2 = 97 := by
  refine ⟨fun h => absurd h.order (by decide), by decide, by decide⟩

end V2lin.Task
