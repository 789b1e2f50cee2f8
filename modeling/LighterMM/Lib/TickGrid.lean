import Mathlib

/-!
# Rounding to a grid

The grid of step `tick` is the set of its integer multiples. `floorTo` rounds down to it and `ceilTo` up.
Each is determined by its order with the points of the grid (`le_floorTo_iff`, `ceilTo_le_iff`), from which
the other rules follow: the rounded value is on its side of the argument, rounding is monotone, and a
point of the grid stays where it is.
-/

namespace TickGrid

variable {K : Type*} [Field K] [LinearOrder K] [FloorRing K] {tick x y g : K}

def OnGrid (tick x : K) : Prop := ∃ k : ℤ, x = k * tick

def floorTo (tick x : K) : K := ⌊x / tick⌋ * tick

def ceilTo (tick x : K) : K := ⌈x / tick⌉ * tick

theorem onGrid_floorTo (tick x : K) : OnGrid tick (floorTo tick x) := ⟨_, rfl⟩

theorem onGrid_ceilTo (tick x : K) : OnGrid tick (ceilTo tick x) := ⟨_, rfl⟩

variable [IsStrictOrderedRing K]

/-! ## Rounding down -/

theorem le_floorTo_iff (ht : 0 < tick) (hg : OnGrid tick g) : g ≤ floorTo tick x ↔ g ≤ x := by
  obtain ⟨k, rfl⟩ := hg
  rw [floorTo, mul_le_mul_iff_left₀ ht, Int.cast_le, Int.le_floor, le_div_iff₀ ht]

theorem floorTo_le (ht : 0 < tick) : floorTo tick x ≤ x :=
  (le_floorTo_iff ht (onGrid_floorTo tick x)).mp le_rfl

theorem floorTo_mono (ht : 0 < tick) (h : x ≤ y) : floorTo tick x ≤ floorTo tick y :=
  (le_floorTo_iff ht (onGrid_floorTo tick x)).mpr ((floorTo_le ht).trans h)

theorem floorTo_eq_self (ht : 0 < tick) (hg : OnGrid tick g) : floorTo tick g = g :=
  le_antisymm (floorTo_le ht) ((le_floorTo_iff ht hg).mpr le_rfl)

/-! ## Rounding up -/

theorem ceilTo_le_iff (ht : 0 < tick) (hg : OnGrid tick g) : ceilTo tick x ≤ g ↔ x ≤ g := by
  obtain ⟨k, rfl⟩ := hg
  rw [ceilTo, mul_le_mul_iff_left₀ ht, Int.cast_le, Int.ceil_le, div_le_iff₀ ht]

theorem le_ceilTo (ht : 0 < tick) : x ≤ ceilTo tick x :=
  (ceilTo_le_iff ht (onGrid_ceilTo tick x)).mp le_rfl

theorem ceilTo_mono (ht : 0 < tick) (h : x ≤ y) : ceilTo tick x ≤ ceilTo tick y :=
  (ceilTo_le_iff ht (onGrid_ceilTo tick y)).mpr (h.trans (le_ceilTo ht))

theorem ceilTo_eq_self (ht : 0 < tick) (hg : OnGrid tick g) : ceilTo tick g = g :=
  le_antisymm ((ceilTo_le_iff ht hg).mpr le_rfl) (le_ceilTo ht)

end TickGrid
