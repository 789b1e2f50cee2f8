import LighterMM.Exec.OrderManagerLemmas

/-!
# What a snapshot repairs (`exec/order_manager.rs`)

Every Modify and Cancel that is dropped or rejected leaves a slot that says something else than the
exchange. `process_reconcile` mends it, and invents nothing: in a snapshot with one row at most for a client
id, the row of a slot's order is the one that both loops read (`rowOf_unique`), so a live row keeps the slot
and, on the slot's side, gives it the price and the amount that it states (`processReconcile_live`).
-/

namespace LighterMM

namespace OrderManager

variable {n : ℕ} {om : OrderManager n} {now : Instant} {side : Side} {level : Fin n} {s : OrderSlot} {cid : ℤ}
  {remote : List RemoteOrder} {o : RemoteOrder}

/-- No client id has two rows. -/
def OneRowEach (remote : List RemoteOrder) : Prop := (remote.filterMap (·.clientOrderIndex)).Nodup

instance (remote : List RemoteOrder) : Decidable (OneRowEach remote) := List.nodupDecidable _

theorem filter_rows_unique (hone : OneRowEach remote) (ho : o ∈ remote) (hcid : o.clientOrderIndex = some cid) :
    (remote.filter fun r => decide (r.clientOrderIndex = some cid)) = [o] := by
  induction remote with
  | nil => exact absurd ho List.not_mem_nil
  | cons r remote ih =>
    have htail : OneRowEach remote := List.Nodup.sublist ((List.sublist_cons_self r remote).filterMap _) hone
    by_cases hr : r.clientOrderIndex = some cid
    · have hnone : ∀ x ∈ remote, x.clientOrderIndex ≠ some cid := by
        intro x hx hxc
        rw [OneRowEach, List.filterMap_cons_some hr, List.nodup_cons] at hone
        exact hone.1 (List.mem_filterMap.mpr ⟨x, hx, hxc⟩)
      have hro : r = o := by
        rcases List.mem_cons.mp ho with h | h
        · exact h.symm
        · exact absurd hcid (hnone o h)
      rw [List.filter_cons, if_pos (decide_eq_true hr), hro,
        List.filter_eq_nil_iff.mpr fun x hx => by simpa using hnone x hx]
    · have hmem : o ∈ remote := by
        rcases List.mem_cons.mp ho with rfl | h
        · exact absurd hcid hr
        · exact h
      rw [List.filter_cons, if_neg (by simpa using hr)]
      exact ih htail hmem

/-- The row of an id that has no other one. -/
theorem rowOf_unique (hone : OneRowEach remote) (ho : o ∈ remote) (hcid : o.clientOrderIndex = some cid) :
    rowOf remote cid = some o := by
  rw [rowOf, filter_rows_unique hone ho hcid]
  rfl

theorem mem_liveIds (ho : o ∈ remote) (hcid : o.clientOrderIndex = some cid) (hlive : o.isLive = true) :
    cid ∈ liveIds remote :=
  List.mem_filterMap.mpr ⟨o, List.mem_filter.mpr ⟨ho, hlive⟩, hcid⟩

/-- The first loop leaves a slot whose order is shown live, but for the counter of misses. -/
theorem missSlot_live {live : List ℤ} (hid : s.orderId = some cid) (hlive : cid ∈ live) :
    missSlot live now s = { s with miss := 0 } := by
  simp only [missSlot, hid, if_pos hlive]

theorem processReconcile_idle (hid : (om.slot side level).orderId = none) :
    (om.processReconcile now remote).slot side level = om.slot side level := by
  rw [processReconcile_slot]
  simp only [missSlot, hid, refreshSlot]

/-- What both loops leave of a slot that has lost its order is an idle slot. -/
theorem processReconcile_cleared (hid : (om.slot side level).orderId = some cid)
    (hgone : ((om.processReconcile now remote).slot side level).orderId ≠ some cid) :
    (om.processReconcile now remote).slot side level = .idle now := by
  rw [processReconcile_orderId, hid] at hgone
  have hclears : clearsMissing (liveIds remote) now (om.slot side level) = true := by
    by_contra hkeep
    exact hgone (if_neg hkeep)
  have hlive : cid ∉ liveIds remote := by
    simp only [clearsMissing, hid, decide_eq_true_eq] at hclears
    exact hclears.1
  rw [processReconcile_slot]
  simp only [missSlot, hid, if_neg hlive, if_pos hclears, refreshSlot, OrderSlot.idle]

variable (now) in
/-- The slot of a live row keeps its order, and has what the row states if the row is on its side. -/
theorem processReconcile_live (hone : OneRowEach remote) (ho : o ∈ remote) (hlive : o.isLive = true)
    (hcid : o.clientOrderIndex = some cid) (hid : (om.slot side level).orderId = some cid) :
    ((om.processReconcile now remote).slot side level).orderId = some cid ∧
      (sideMismatch side o = false →
        ((om.processReconcile now remote).slot side level).status = .live ∧
          ∀ p q, o.price = some (some p) → o.remainingBaseAmount = some (some q) →
            (om.processReconcile now remote).slot side level = boundSlot now cid p q) := by
  have hrow := rowOf_unique hone ho hcid
  rw [processReconcile_slot, missSlot_live hid (mem_liveIds ho hcid hlive)]
  refine ⟨by rw [refreshSlot_orderId, hid], fun hside => ⟨?_, fun p q hp hq => ?_⟩⟩
  · simp only [refreshSlot, hid, hrow, hside, Bool.false_eq_true, if_false]
    split <;> rfl
  · simp only [refreshSlot, hid, hrow, hside, hp, hq, Bool.false_eq_true, if_false, Option.map_some,
      Option.some_or, parseF64, Option.getD_some]

/-- **A snapshot repairs without inventing.** -/
theorem processReconcile_repairs (om : OrderManager n) (now : Instant) (remote : List RemoteOrder)
    (hone : OneRowEach remote) (side : Side) (level : Fin n) :
    let s := om.slot side level
    let s' := (om.processReconcile now remote).slot side level
    (s'.orderId = s.orderId ∨ s' = .idle now) ∧ (s.orderId = none → s' = s) ∧
      ∀ cid, s.orderId = some cid → ∀ o ∈ remote, o.clientOrderIndex = some cid → o.isLive = true →
        s'.orderId = some cid ∧
          (sideMismatch side o = false →
            s'.status = .live ∧
              ∀ p q, o.price = some (some p) → o.remainingBaseAmount = some (some q) →
                s'.price = some p ∧ s'.size = some q) := by
  intro s s'
  refine ⟨?_, processReconcile_idle, fun cid hid o ho hcid hlive => ?_⟩
  · cases hid : s.orderId with
    | none => exact .inl ((congrArg OrderSlot.orderId (processReconcile_idle hid)).trans hid)
    | some cid =>
      by_cases hkeep : s'.orderId = some cid
      · exact .inl hkeep
      · exact .inr (processReconcile_cleared hid hkeep)
  · obtain ⟨hkept, hsame⟩ := processReconcile_live now hone ho hlive hcid hid
    refine ⟨hkept, fun hside => ⟨(hsame hside).1, fun p q hp hq => ?_⟩⟩
    have hbound : s' = boundSlot now cid p q := (hsame hside).2 p q hp hq
    rw [hbound]
    exact ⟨rfl, rfl⟩

/-- A slot with a Modify on the way, and a snapshot that shows its order at the old price. -/
theorem processReconcile_repairs_modify :
    let held : OrderSlot := ⟨.modifying, some 7, some 101, some 2, 0, 1⟩
    let om : OrderManager 1 := { OrderManager.new 1 1 0 with slots := fun _ _ => held }
    let row : RemoteOrder := ⟨some 7, some 70, some false, some (some 100), some (some 1), none⟩
    let s' := (om.processReconcile 9 [row]).slot .buy 0
    s'.status = .live ∧ s'.price = some 100 ∧ s'.size = some 1 := by
  intro held om row s'
  have h := (processReconcile_repairs om 9 [row] (by decide) .buy 0).2.2 7 rfl row List.mem_cons_self rfl rfl
  exact ⟨(h.2 rfl).1, (h.2 rfl).2 100 1 rfl rfl⟩

end OrderManager

end LighterMM
