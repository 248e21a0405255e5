import Mathlib.Algebra.BigOperators.Group.List.Basic
import Mathlib.Algebra.Order.BigOperators.Group.List
import Mathlib.Algebra.Order.Field.Basic
import Mathlib.Tactic

/-!
# Mean and variance of a list

The population variance is the mean squared distance from the mean. It is also
the mean of the squares less the square of the mean, so that it can be kept up
to date with a count and two sums.
-/
namespace Moments

variable {K : Type*} [Field K]

def mean (xs : List K) : K := xs.sum / xs.length

/-- The population variance. -/
def variance (xs : List K) : K :=
  (xs.map fun x => (x - mean xs) ^ 2).sum / xs.length

theorem sum_sq_sub (xs : List K) (m : K) :
    (xs.map fun x => (x - m) ^ 2).sum =
      (xs.map (· ^ 2)).sum - 2 * m * xs.sum + xs.length * m ^ 2 := by
  induction xs with
  | nil => simp
  | cons x xs ih =>
    simp only [List.map_cons, List.sum_cons, ih, List.length_cons, Nat.cast_succ]
    ring

variable {xs : List K}

theorem variance_eq (hn : (xs.length : K) ≠ 0) :
    variance xs = (xs.map (· ^ 2)).sum / xs.length - mean xs * mean xs := by
  rw [variance, sum_sq_sub, mean]
  field_simp
  ring

variable [LinearOrder K] [IsStrictOrderedRing K]

theorem variance_nonneg (xs : List K) : 0 ≤ variance xs := by
  refine div_nonneg (List.sum_nonneg ?_) (Nat.cast_nonneg _)
  intro y hy
  obtain ⟨x, -, rfl⟩ := List.mem_map.mp hy
  exact sq_nonneg _

theorem le_mean {m : K} (hne : xs ≠ []) (hm : ∀ x ∈ xs, m ≤ x) : m ≤ mean xs := by
  have hpos : (0 : K) < xs.length := Nat.cast_pos.mpr (List.length_pos_iff.mpr hne)
  have hsum := List.card_nsmul_le_sum xs m hm
  rw [nsmul_eq_mul] at hsum
  rwa [mean, le_div_iff₀ hpos, mul_comm]

theorem mean_le {m : K} (hne : xs ≠ []) (hm : ∀ x ∈ xs, x ≤ m) : mean xs ≤ m := by
  have hpos : (0 : K) < xs.length := Nat.cast_pos.mpr (List.length_pos_iff.mpr hne)
  have hsum := List.sum_le_card_nsmul xs m hm
  rw [nsmul_eq_mul] at hsum
  rwa [mean, div_le_iff₀ hpos, mul_comm]

end Moments
