import Mathlib

/-!
# Online mean and sum of squared deviations

The mean and the sum of squared deviations of a list, and how they move when a value enters or leaves it.
`sqDev_concat` is Welford's forward update and `sqDev_cons` read from right to left his reverse one; both
come from `sqDev_eq`, the sum of the squares less the sum times the mean.
-/

namespace Welford

variable {K : Type*} [Field K]

def mean (w : List K) : K := w.sum / w.length

/-- The sum of the squared deviations from the mean. -/
def sqDev (w : List K) : K := (w.map fun x => (x - mean w) ^ 2).sum

@[simp] theorem mean_nil : mean ([] : List K) = 0 := by simp [mean]

@[simp] theorem sqDev_nil : sqDev ([] : List K) = 0 := by simp [sqDev]

/-- Deviations from any centre, in terms of the plain sums. -/
theorem sum_sq_sub (c : K) (w : List K) :
    (w.map fun x => (x - c) ^ 2).sum = (w.map (· ^ 2)).sum - 2 * c * w.sum + w.length * c ^ 2 := by
  induction w with
  | nil => simp
  | cons x w ih =>
    simp only [List.map_cons, List.sum_cons, List.length_cons, ih]
    push_cast
    ring

theorem mean_concat (w : List K) (v : K) : mean (w ++ [v]) = (w.sum + v) / (w.length + 1) := by
  simp [mean]

section CharZero

variable [CharZero K]

theorem mean_mul_length (w : List K) : mean w * w.length = w.sum := by
  cases w with
  | nil => simp
  | cons x w => exact div_mul_cancel₀ _ (Nat.cast_ne_zero.mpr (Nat.succ_ne_zero _))

theorem sqDev_eq (w : List K) : sqDev w = (w.map (· ^ 2)).sum - w.sum * mean w := by
  have hm := mean_mul_length w
  rw [sqDev, sum_sq_sub, ← hm]
  ring

/-- One value more, wherever it enters: the sums of both lists decide the change. -/
theorem sqDev_add {w w' : List K} {v : K} (hl : w'.length = w.length + 1) (hs : w'.sum = w.sum + v)
    (hq : (w'.map (· ^ 2)).sum = (w.map (· ^ 2)).sum + v ^ 2) :
    sqDev w' = sqDev w + (v - mean w) * (v - mean w') := by
  have hm := mean_mul_length w
  have hm' := mean_mul_length w'
  rw [hl, hs, ← hm] at hm'
  push_cast at hm'
  rw [sqDev_eq, sqDev_eq, hq, hs, ← hm]
  linear_combination (-mean w) * hm'

theorem sqDev_concat (w : List K) (v : K) :
    sqDev (w ++ [v]) = sqDev w + (v - mean w) * (v - mean (w ++ [v])) :=
  sqDev_add (by simp) (by simp) (by simp)

theorem sqDev_cons (v : K) (w : List K) :
    sqDev (v :: w) = sqDev w + (v - mean w) * (v - mean (v :: w)) :=
  sqDev_add (by simp) (by simp [add_comm]) (by simp [add_comm])

/-- The mean of what is left once the oldest value has gone. -/
theorem mean_of_cons (v : K) {w : List K} (hw : w ≠ []) :
    mean w = mean (v :: w) + (mean (v :: w) - v) / w.length := by
  have hn : (w.length : K) ≠ 0 := Nat.cast_ne_zero.mpr (by simpa using hw)
  have hm := mean_mul_length w
  have hm' := mean_mul_length (v :: w)
  rw [List.length_cons, List.sum_cons, ← hm] at hm'
  push_cast at hm'
  field_simp
  linear_combination -hm'

end CharZero

theorem sqDev_nonneg [LinearOrder K] [IsStrictOrderedRing K] (w : List K) : 0 ≤ sqDev w := by
  refine List.sum_nonneg fun y hy => ?_
  obtain ⟨x, -, rfl⟩ := List.mem_map.mp hy
  exact sq_nonneg _

end Welford
