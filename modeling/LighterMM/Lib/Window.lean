import Mathlib

/-!
# Counts in a sliding window

A log of instants and a window of length `w`. A set of instants is `Short` if any two of its members are
less than `w` apart, as those of a half-open interval of length `w` are, and `AtMost w cap log` says that
such a set holds at most `cap` instants of the log.

A log with gaps of `d` or more has at most `k` instants in a window of `k` gaps (`AtMost.of_gaps`).
Appending `n` instants `now` keeps the bound if the instants of the log after `now - w` and the `n` new
ones are within it (`AtMost.append_replicate`): the older instants share no short set with the new ones.
-/

namespace Window

variable {α : Type*} [AddCommGroup α] [LinearOrder α]
variable {w now x : α} {cap cap' n : ℕ} {log : List α} {P : α → Bool}

/-- Any two members are less than `w` apart. -/
def Short (w : α) (P : α → Bool) : Prop := ∀ s t, P s = true → P t = true → t < s + w

/-- The instants of the log in the window that ends at `now`. -/
def recent (w now : α) (log : List α) : ℕ := log.countP fun t => decide (now - w < t)

def AtMost (w : α) (cap : ℕ) (log : List α) : Prop := ∀ P, Short w P → log.countP P ≤ cap

theorem AtMost.nil : AtMost w cap [] := fun _ _ => Nat.zero_le _

theorem AtMost.mono (h : AtMost w cap log) (hc : cap ≤ cap') : AtMost w cap' log :=
  fun P hP => (h P hP).trans hc

theorem recent_append (as bs : List α) : recent w now (as ++ bs) = recent w now as + recent w now bs :=
  List.countP_append

/-- Instants at the end of the window or before it do not count. -/
theorem recent_eq_zero (h : ∀ t ∈ log, t ≤ now - w) : recent w now log = 0 := by
  refine List.countP_eq_zero.mpr fun t ht => ?_
  rw [decide_eq_true_eq, not_lt]
  exact h t ht

theorem recent_le_length : recent w now log ≤ log.length := List.countP_le_length

/-- A sorted log whose instant `i` has left the window: only later ones count. -/
theorem recent_le_of_expired {i : ℕ} (hs : log.Pairwise (· ≤ ·)) (hi : i < log.length)
    (hexp : log[i] ≤ now - w) : recent w now log ≤ log.length - (i + 1) := by
  have hsplit : log = log.take (i + 1) ++ log.drop (i + 1) := (List.take_append_drop _ _).symm
  have hold : recent w now (log.take (i + 1)) = 0 := by
    refine recent_eq_zero fun t ht => ?_
    obtain ⟨j, hj, rfl⟩ := List.mem_take_iff_getElem.mp ht
    have hji : j ≤ i := by omega
    rcases hji.eq_or_lt with rfl | hlt
    · exact hexp
    · exact (List.pairwise_iff_getElem.mp hs j i (by omega) hi hlt).trans hexp
  calc recent w now log = recent w now (log.take (i + 1)) + recent w now (log.drop (i + 1)) := by
        conv_lhs => rw [hsplit]
        exact recent_append _ _
    _ ≤ log.length - (i + 1) := by
        rw [hold, Nat.zero_add, ← List.length_drop]
        exact recent_le_length

omit [AddCommGroup α] in
/-- Pruning a sorted log below `x` leaves what comes after instant `i` at most if and only if `i` goes. -/
theorem length_dropWhile_le_iff {i : ℕ} (hs : log.Pairwise (· ≤ ·)) (hi : i < log.length) :
    (log.dropWhile fun t => decide (t < x)).length ≤ log.length - (i + 1) ↔ log[i] < x := by
  induction log generalizing i with
  | nil => exact absurd hi (Nat.not_lt_zero i)
  | cons t log ih =>
    obtain ⟨hle, hs⟩ := List.pairwise_cons.mp hs
    by_cases ht : t < x
    · rw [List.dropWhile_cons, if_pos (decide_eq_true ht), List.length_cons]
      cases i with
      | zero =>
        refine iff_of_true ?_ ht
        rw [Nat.add_sub_cancel]
        exact (List.dropWhile_sublist _).length_le
      | succ i =>
        rw [Nat.add_sub_add_right, List.getElem_cons_succ]
        exact ih hs (Nat.lt_of_succ_lt_succ hi)
    · rw [List.dropWhile_cons, if_neg (by simpa using ht)]
      refine iff_of_false (by rw [List.length_cons]; omega) (not_lt.mpr ?_)
      cases i with
      | zero => exact not_lt.mp ht
      | succ i => exact (not_lt.mp ht).trans (hle _ (List.getElem_mem _))

variable [IsOrderedAddMonoid α]

theorem short_Ico (w x : α) : Short w fun t => decide (x ≤ t ∧ t < x + w) := by
  intro s t hs ht
  rw [decide_eq_true_eq] at hs ht
  exact ht.2.trans_le (add_le_add_left hs.1 w)

theorem short_Ioc (w x : α) : Short w fun t => decide (x < t ∧ t ≤ x + w) := by
  intro s t hs ht
  rw [decide_eq_true_eq] at hs ht
  exact ht.2.trans_lt (add_lt_add_left hs.1 w)

/-- A later window holds fewer of the old instants. -/
theorem recent_anti {now' : α} (h : now ≤ now') : recent w now' log ≤ recent w now log := by
  refine List.countP_mono_left fun t _ ht => ?_
  rw [decide_eq_true_eq] at ht ⊢
  exact (sub_le_sub_right h w).trans_lt ht

/-- New instants within the bound of the window that ends with them. -/
theorem AtMost.append_replicate (h : AtMost w cap log)
    (hroom : recent w now log + n ≤ cap) : AtMost w cap (log ++ List.replicate n now) := by
  intro P hP
  rw [List.countP_append, List.countP_replicate]
  by_cases hnow : P now = true
  · rw [if_pos hnow]
    have hle : log.countP P ≤ recent w now log := by
      refine List.countP_mono_left fun t _ ht => ?_
      rw [decide_eq_true_eq, sub_lt_iff_lt_add]
      exact hP t now ht hnow
    omega
  · rw [if_neg hnow]
    exact h P hP

/-- Instant `j` of a log with gaps of `d` or more. -/
theorem add_nsmul_le_getElem {d : α} (h : log.Pairwise fun s t => s + d ≤ t) {j : ℕ} (hj : j < log.length) :
    log[0] + j • d ≤ log[j] := by
  induction j with
  | zero => rw [zero_nsmul, add_zero]
  | succ j ih =>
    have hgap : log[j] + d ≤ log[j + 1] := List.pairwise_iff_getElem.mp h j (j + 1) (by omega) hj (by omega)
    calc log[0] + (j + 1) • d = log[0] + j • d + d := by rw [succ_nsmul, add_assoc]
      _ ≤ log[j] + d := add_le_add_left (ih (by omega)) d
      _ ≤ log[j + 1] := hgap

/-- A window of `k` gaps holds at most `k` instants of a log with gaps of `d` or more. -/
theorem AtMost.of_gaps {d : α} (hd : 0 ≤ d) (h : log.IsChain fun s t => s + d ≤ t) (k : ℕ) :
    AtMost (k • d) k log := by
  intro P hP
  have : IsTrans α fun s t => s + d ≤ t :=
    ⟨fun _ _ _ hst htu => hst.trans ((le_add_of_nonneg_right hd).trans htu)⟩
  have hpair : (log.filter P).Pairwise fun s t => s + d ≤ t :=
    (List.isChain_iff_pairwise.mp h).sublist List.filter_sublist
  rw [List.countP_eq_length_filter]
  by_contra hlt
  have hk : k < (log.filter P).length := not_le.mp hlt
  have hfirst := (List.mem_filter.mp ((log.filter P).getElem_mem (Nat.zero_lt_of_lt hk))).2
  have hlast := (List.mem_filter.mp ((log.filter P).getElem_mem hk)).2
  exact absurd (hP _ _ hfirst hlast) (not_lt.mpr (add_nsmul_le_getElem hpair hk))

end Window
