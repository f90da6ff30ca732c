import Mathlib.Algebra.Order.Field.Rat
import Mathlib.Tactic.Linarith
import Mathlib.Tactic.Ring

set_option autoImplicit false

-- How C converts a floating point value to an integer, for values read as rationals.

namespace SystemProg

def towardZero (q : ℚ) : Int := if 0 ≤ q then q.floor else q.ceil

variable {q : ℚ}

theorem towardZero_nonneg (sign : 0 ≤ q) :
    0 ≤ towardZero q ∧ (towardZero q : ℚ) ≤ q ∧ q < towardZero q + 1 := by
  rw [towardZero, if_pos sign]
  refine ⟨Rat.le_floor_iff.mpr (by exact_mod_cast sign), Rat.floor_le q, ?_⟩
  exact_mod_cast Rat.lt_floor_add_one q

theorem towardZero_neg (sign : q < 0) :
    towardZero q ≤ 0 ∧ q ≤ towardZero q ∧ (towardZero q : ℚ) < q + 1 := by
  rw [towardZero, if_neg (not_le.mpr sign)]
  exact ⟨Rat.ceil_le_iff.mpr (by exact_mod_cast sign.le), Rat.le_ceil, Rat.ceil_lt⟩

theorem towardZero_near (q : ℚ) : |(towardZero q : ℚ) - q| < 1 := by
  rw [abs_lt]
  rcases le_or_gt 0 q with sign | sign
  · obtain ⟨-, below, above⟩ := towardZero_nonneg sign
    constructor <;> linarith
  · obtain ⟨-, above, below⟩ := towardZero_neg sign
    constructor <;> linarith

end SystemProg
