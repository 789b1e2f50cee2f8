import Mathlib

/-!
# Walks on a ring

`Ring f S pos N` says that `f` walks around the members of `S`, one place at a time: each has a position below
`N`, its own, and `f` moves on by one, from the last place to the first. The `k` members that a walk visits are
distinct exactly if `k ≤ N` (`nodup_iterate_iff`), and a member is among them exactly if it is fewer than `k`
places ahead (`mem_iterate_iff`).
-/

namespace CyclicWalk

variable {γ : Type*} {f : γ → γ} {S : γ → Prop} {pos : γ → ℤ} {N : ℤ} {x y : γ} {k m : ℕ}

structure Ring (f : γ → γ) (S : γ → Prop) (pos : γ → ℤ) (N : ℤ) : Prop where
  pos_size : 0 < N
  closed : ∀ x, S x → S (f x)
  step : ∀ x, S x → pos (f x) = (pos x + 1) % N
  nonneg : ∀ x, S x → 0 ≤ pos x
  lt : ∀ x, S x → pos x < N
  inj : ∀ x y, S x → S y → pos x = pos y → x = y

theorem Ring.iterate (h : Ring f S pos N) (hx : S x) (m : ℕ) :
    S (f^[m] x) ∧ pos (f^[m] x) = (pos x + m) % N := by
  induction m with
  | zero =>
    rw [Function.iterate_zero, id, Nat.cast_zero, add_zero]
    exact ⟨hx, (Int.emod_eq_of_lt (h.nonneg x hx) (h.lt x hx)).symm⟩
  | succ m ih =>
    rw [Function.iterate_succ_apply']
    refine ⟨h.closed _ ih.1, ?_⟩
    rw [h.step _ ih.1, ih.2, Int.emod_add_emod]
    push_cast
    rw [add_assoc]

theorem Ring.nodup_iterate_iff (h : Ring f S pos N) (hx : S x) : (List.iterate f x k).Nodup ↔ (k : ℤ) ≤ N := by
  rw [← List.range_map_iterate, List.nodup_map_iff_inj_on List.nodup_range]
  simp only [List.mem_range]
  constructor
  · intro hinj
    by_contra hlt
    have hN := h.pos_size
    obtain ⟨hS, hpos⟩ := h.iterate hx N.toNat
    have hback : f^[N.toNat] x = f^[0] x := by
      refine h.inj _ _ hS hx ?_
      rw [hpos, Int.toNat_of_nonneg hN.le, Int.add_emod_right]
      exact Int.emod_eq_of_lt (h.nonneg x hx) (h.lt x hx)
    have hzero := hinj N.toNat (by omega) 0 (by omega) hback
    omega
  · intro hle i hi j hj heq
    have hmod : (pos x + i) % N = (pos x + j) % N := by
      rw [← (h.iterate hx i).2, ← (h.iterate hx j).2, heq]
    have hij : (i : ℤ) % N = j % N := Int.ModEq.add_left_cancel' (pos x) hmod
    rw [Int.emod_eq_of_lt (by omega) (by omega), Int.emod_eq_of_lt (by omega) (by omega)] at hij
    exact_mod_cast hij

theorem Ring.mem_iterate_iff (h : Ring f S pos N) (hx : S x) :
    y ∈ List.iterate f x k ↔ S y ∧ (pos y - pos x) % N < k := by
  rw [List.mem_iterate]
  constructor
  · rintro ⟨m, hm, rfl⟩
    obtain ⟨hS, hpos⟩ := h.iterate hx m
    refine ⟨hS, ?_⟩
    rw [hpos, Int.emod_sub_emod, add_sub_cancel_left]
    have hle : (m : ℤ) % N ≤ m := by
      obtain ⟨N', rfl⟩ := Int.eq_ofNat_of_zero_le h.pos_size.le
      exact_mod_cast Nat.mod_le m N'
    exact hle.trans_lt (by exact_mod_cast hm)
  · rintro ⟨hy, hlt⟩
    have hnonneg := Int.emod_nonneg (pos y - pos x) h.pos_size.ne'
    refine ⟨((pos y - pos x) % N).toNat, by omega, ?_⟩
    obtain ⟨hS, hpos⟩ := h.iterate hx ((pos y - pos x) % N).toNat
    refine h.inj _ _ hy hS ?_
    rw [hpos, Int.toNat_of_nonneg hnonneg, Int.add_emod_emod, add_sub_cancel]
    exact (Int.emod_eq_of_lt (h.nonneg y hy) (h.lt y hy)).symm

end CyclicWalk
