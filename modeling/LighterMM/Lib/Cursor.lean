import Mathlib

/-!
# Comparing the keys of a sequence with a list, by index

Some items of a sequence have a key. `agrees` walks the sequence once and compares each key with the item
of a list under a cursor, so that the list of the keys is never built. The items from the cursor on are
the ones that the rest of the sequence has to match (`agrees_iff`).
-/

namespace Cursor

variable {α β : Type*} [DecidableEq β]

/-- The keys of a sequence are the items of `ys` from index `i` on: each key is compared with the item
under the cursor, and the cursor must end behind the last item. -/
def agrees (key : α → Option β) (ys : List β) : List α → ℕ → Bool
  | [], i => i == ys.length
  | x :: xs, i =>
    match key x with
    | none => agrees key ys xs i
    | some y => if ys.length ≤ i ∨ ys[i]? ≠ some y then false else agrees key ys xs (i + 1)

variable {key : α → Option β} {ys : List β} {xs : List α} {i : ℕ}

theorem agrees_iff (hi : i ≤ ys.length) : agrees key ys xs i = true ↔ xs.filterMap key = ys.drop i := by
  induction xs generalizing i with
  | nil =>
    rw [agrees, beq_iff_eq, List.filterMap_nil, eq_comm (a := []), List.drop_eq_nil_iff]
    omega
  | cons x xs ih =>
    unfold agrees
    cases hx : key x with
    | none => rw [List.filterMap_cons_none hx, ih hi]
    | some y =>
      rw [List.filterMap_cons_some hx]
      rcases Nat.lt_or_ge i ys.length with hlt | hge
      · -- The item under the cursor is the first of those that are left.
        rw [List.drop_eq_getElem_cons hlt, List.cons_eq_cons, ← ih hlt, List.getElem?_eq_getElem hlt]
        by_cases hy : ys[i] = y
        · simp [hy, hlt]
        · simp [hy, Ne.symm hy]
      · -- A key more than the list has items.
        rw [List.drop_eq_nil_of_le hge]
        simp [hge]

/-- From the start, the keys are compared with the whole list. -/
theorem agrees_zero : agrees key ys xs 0 = true ↔ xs.filterMap key = ys := agrees_iff (Nat.zero_le _)

end Cursor
