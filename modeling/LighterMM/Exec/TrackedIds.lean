import LighterMM.Lib.Cursor
import LighterMM.Exec.OrderManager

/-!
# The comparison of the tracked ids (`tracked_ids_equal` of `exec/order_manager.rs`)

The hot task publishes its tracked client ids when they changed, and sees that without building the list:
`trackedIdsEqualCursor` walks the slots and compares each id with the published one under a cursor.

- **The loop** is `Cursor.agrees`, so its cursor is accounted for by what is left of the published list.
- **The other models** use `trackedIdsEqual`, which drops the ids that it has compared and keeps no index.
  It decides the same (`trackedIdsEqual_eq_cursor`).
- **Both are exact** (`trackedIdsEqual_exact`).
-/

namespace LighterMM.OrderManager

variable {n : ℕ} {om : OrderManager n} {prev : List ℤ}

/-- `self.bids.iter().chain(self.asks.iter())`. -/
def slotList (om : OrderManager n) : List OrderSlot :=
  (List.finRange n).map (om.slots .buy) ++ (List.finRange n).map (om.slots .sell)

/-- `tracked_ids_equal` with its cursor: every id of a slot is the published one at the cursor, and the
cursor ends at the length of the published list. -/
def trackedIdsEqualCursor (om : OrderManager n) (prev : List ℤ) : Bool :=
  Cursor.agrees OrderSlot.orderId prev om.slotList 0

theorem trackedClientIds_eq (om : OrderManager n) : om.trackedClientIds = om.slotList.filterMap (·.orderId) := by
  rw [slotList, List.filterMap_append, List.filterMap_map, List.filterMap_map]
  rfl

/-- Dropping what has been compared is a cursor that moves on. -/
theorem idsEqualFrom_drop {slots : List OrderSlot} {i : ℕ} (hi : i ≤ prev.length) :
    idsEqualFrom slots (prev.drop i) = Cursor.agrees OrderSlot.orderId prev slots i := by
  induction slots generalizing i with
  | nil =>
    rw [idsEqualFrom, Cursor.agrees, Bool.eq_iff_iff, List.isEmpty_iff, List.drop_eq_nil_iff, beq_iff_eq]
    omega
  | cons s rest ih =>
    unfold idsEqualFrom Cursor.agrees
    cases s.orderId with
    | none => exact ih hi
    | some id =>
      rcases Nat.lt_or_ge i prev.length with hlt | hge
      · rw [List.drop_eq_getElem_cons hlt]
        simp only [ih hlt, List.getElem?_eq_getElem hlt, Option.some.injEq, not_le.mpr hlt, false_or, ite_not]
      · rw [List.drop_eq_nil_of_le hge]
        simp [hge]

theorem trackedIdsEqual_eq_cursor (om : OrderManager n) (prev : List ℤ) :
    om.trackedIdsEqual prev = om.trackedIdsEqualCursor prev :=
  idsEqualFrom_drop (Nat.zero_le prev.length)

theorem trackedIdsEqual_iff : om.trackedIdsEqual prev = true ↔ om.trackedClientIds = prev := by
  rw [trackedIdsEqual_eq_cursor, trackedIdsEqualCursor, Cursor.agrees_zero, trackedClientIds_eq]

/-- **The comparison without a list is exact**, in every state of the order manager and for every
published list. -/
theorem trackedIdsEqual_exact (om : OrderManager n) (prev : List ℤ) :
    om.trackedIdsEqualCursor prev = true ↔ om.trackedClientIds = prev := by
  rw [trackedIdsEqualCursor, Cursor.agrees_zero, trackedClientIds_eq]

end LighterMM.OrderManager
