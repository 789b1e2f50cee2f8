import LighterMM.Lib.TickGrid

/-!
# Rounding to the nearest integer, ties to even

`roundEven x` is the one integer within half of `x`, and of two such integers the even one
(`roundEven_eq_iff`). So integers stay where they are, and `steps`, the number of steps nearest to a point,
recovers the points of the grid (`steps_exact`).
-/

namespace RoundEven

open TickGrid

variable {K : Type*} [Field K] [LinearOrder K] [IsStrictOrderedRing K] [FloorRing K] {x tick : K} {z : ℤ}

def roundEven (x : K) : ℤ :=
  if x - ⌊x⌋ < 1 / 2 then ⌊x⌋
  else if 1 / 2 < x - ⌊x⌋ then ⌊x⌋ + 1
  else if ⌊x⌋ % 2 = 0 then ⌊x⌋ else ⌊x⌋ + 1

/-- The integer is nearer to `x` than a half, or at a half and even. -/
def NearestEven (x : K) (z : ℤ) : Prop := |(z : K) - x| < 1 / 2 ∨ (|(z : K) - x| = 1 / 2 ∧ Even z)

theorem roundEven_nearest (x : K) : NearestEven x (roundEven x) := by
  have hlo := Int.floor_le x
  have hhi := Int.lt_floor_add_one x
  unfold roundEven NearestEven
  split
  · rename_i hlow
    left
    rw [abs_sub_comm, abs_of_nonneg (sub_nonneg.mpr hlo)]
    exact hlow
  · rename_i hlow
    rw [not_lt] at hlow
    split
    · rename_i hhigh
      left
      push_cast
      rw [abs_of_nonneg (by linarith)]
      linarith
    · rename_i hhigh
      have hhalf : x - ⌊x⌋ = 1 / 2 := le_antisymm (not_lt.mp hhigh) hlow
      right
      split
      · rename_i heven
        refine ⟨?_, Int.even_iff.mpr heven⟩
        rw [abs_sub_comm, hhalf, abs_of_pos (by norm_num)]
      · rename_i hodd
        refine ⟨?_, Int.even_iff.mpr (by omega)⟩
        push_cast
        rw [show (⌊x⌋ : K) + 1 - x = 1 / 2 by linarith, abs_of_pos (by norm_num)]

/-- Two integers within half of `x` are neighbours, at a half each. -/
theorem NearestEven.unique {z' : ℤ} (h : NearestEven x z) (h' : NearestEven x z') : z = z' := by
  have hle : ∀ {w : ℤ}, NearestEven x w → |(w : K) - x| ≤ 1 / 2 := by
    rintro w (hw | ⟨hw, -⟩)
    · exact hw.le
    · exact hw.le
  have hdist : |((z - z' : ℤ) : K)| ≤ |(z : K) - x| + |(z' : K) - x| := by
    push_cast
    rw [show (z : K) - z' = (z - x) - (z' - x) by ring]
    exact abs_sub _ _
  by_contra hne
  have hone : (1 : K) ≤ |((z - z' : ℤ) : K)| := by
    have hpos : 1 ≤ |z - z'| := Int.one_le_abs (sub_ne_zero.mpr hne)
    rw [← Int.cast_abs]
    exact_mod_cast hpos
  have hz : |(z : K) - x| = 1 / 2 := le_antisymm (hle h) (by linarith [hle h'])
  have hz' : |(z' : K) - x| = 1 / 2 := le_antisymm (hle h') (by linarith [hle h])
  have heven : Even z := (h.resolve_left (by rw [hz]; exact lt_irrefl _)).2
  have heven' : Even z' := (h'.resolve_left (by rw [hz']; exact lt_irrefl _)).2
  have htwo : |z - z'| ≤ 1 := by
    rw [hz, hz'] at hdist
    have hcast : ((|z - z'| : ℤ) : K) ≤ 1 := by
      rw [Int.cast_abs]
      linarith
    exact_mod_cast hcast
  obtain ⟨a, ha⟩ := heven.sub heven'
  rw [abs_le] at htwo
  omega

/-- **What rounding is.** -/
theorem roundEven_eq_iff : roundEven x = z ↔ NearestEven x z :=
  ⟨fun h => h ▸ roundEven_nearest x, fun h => (roundEven_nearest x).unique h⟩

@[simp] theorem roundEven_intCast (k : ℤ) : roundEven (k : K) = k :=
  roundEven_eq_iff.mpr (.inl (by simp))

/-! ## Multiples of a step -/

/-- The number of steps nearest to `x`. -/
def steps (tick x : K) : ℤ := roundEven (x / tick)

theorem steps_mul (ht : 0 < tick) (k : ℤ) : steps tick (k * tick) = k := by
  rw [steps, mul_div_assoc, div_self ht.ne', mul_one, roundEven_intCast]

/-- A point of the grid is recovered from its number of steps. -/
theorem steps_exact (ht : 0 < tick) (h : OnGrid tick x) : (steps tick x : K) * tick = x := by
  obtain ⟨k, rfl⟩ := h
  rw [steps_mul ht]

end RoundEven
