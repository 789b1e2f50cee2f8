import LighterMM.Exec.Events
import LighterMM.Hot.Occupancy
import LighterMM.Hot.Requotes

/-!
# Collecting again while the ops are in flight

`mark_pending` occupies the slots of the ops so that the next collection does not repeat them. A marked
Create or Modify has the price and the size of the ladder and is not repeated; a marked Cancel leaves price,
size and id as they were, and the collection, unlike `collect_cancel_ops`, does not look at the status. So
the second collection is empty exactly if no suppressed level cancels an order
(`second_collect_empty_iff`).
-/

namespace LighterMM

variable {n : ℕ}

/-- The ladder has one price for a slot. -/
theorem levelTargets_unique {levels : List Level} {side : Side} {level : Fin n} {price price' : Option ℚ}
    (h : (side, level, price) ∈ levelTargets n levels) (h' : (side, level, price') ∈ levelTargets n levels) :
    price = price' := by
  obtain ⟨l, hget, rfl⟩ := mem_levelTargets_iff.mp h
  obtain ⟨l', hget', rfl⟩ := mem_levelTargets_iff.mp h'
  rw [Option.some.inj (hget.symm.trans hget')]

namespace OrderManager

variable {om : OrderManager n} {args : CollectArgs} {now : Instant} {side : Side} {level : Fin n} {levels : List Level}

/-! ## Marked slots -/

/-- In a batch with one op for each slot, a slot is marked by its own op. -/
theorem markAll_slot {ops : List (BatchOp n)} (hnd : (ops.map BatchOp.key).Nodup) {op : BatchOp n} (hop : op ∈ ops) :
    (om.markAll now ops).slot op.side op.level = (om.markPending now op).slot op.side op.level := by
  induction ops generalizing om with
  | nil => cases hop
  | cons o ops ih =>
    rw [List.map_cons, List.nodup_cons] at hnd
    rw [markAll_cons]
    rcases List.mem_cons.mp hop with rfl | hop
    · refine markAll_slot_ne (k := op.key) fun o ho hkey => hnd.1 ?_
      exact List.mem_map.mpr ⟨o, ho, hkey⟩
    · have hne : o.key ≠ op.key := fun hkey => hnd.1 (List.mem_map.mpr ⟨op, hop, hkey.symm⟩)
      have hsame : (om.markPending now o).slot op.side op.level = om.slot op.side op.level :=
        markPending_slot_ne (k := op.key) hne
      rw [ih hnd.2 hop]
      unfold markPending at hsame ⊢
      rw [slot_setSlot_self, slot_setSlot_self]
      simp only [hsame]

/-- A marked Create or Modify has the price and the size of its op. -/
theorem markPending_placed {op : BatchOp n} (ha : op.action ≠ .cancel) :
    ((om.markPending now op).slot op.side op.level).price = some op.price ∧
      ((om.markPending now op).slot op.side op.level).size = some op.size := by
  unfold markPending
  rw [slot_setSlot_self]
  cases haction : op.action with
  | create => exact ⟨rfl, rfl⟩
  | modify => exact ⟨rfl, rfl⟩
  | cancel => exact absurd haction ha

/-- The ops of a collection have its order size. -/
theorem collectSlot_sized {price : Option ℚ} {op : BatchOp n}
    (h : (om.collectSlot args side level price).2 = some op) (ha : op.action ≠ .cancel) :
    op.size = args.baseAmount := by
  unfold collectSlot at h
  cases price with
  | none =>
    simp only at h
    split at h
    · cases h
    · split at h
      · cases h
      · split at h
        · cases h
        · cases h
          exact absurd rfl ha
  | some p =>
    simp only at h
    split at h
    · cases h
    · split at h
      · split at h
        · cases h
        · split at h
          · cases h
          · split at h <;> cases h
            rfl
      · cases h
        rfl

theorem collectLoop_sized {ts : List (Side × Fin n × Option ℚ)} {op : BatchOp n}
    (h : op ∈ (collectLoop args ts om).2) (ha : op.action ≠ .cancel) : op.size = args.baseAmount := by
  induction ts generalizing om with
  | nil => cases h
  | cons t ts ih =>
    obtain ⟨sd, l, price⟩ := t
    simp only [collectLoop, List.mem_append, Option.mem_toList] at h
    exact h.elim (fun h => collectSlot_sized h ha) ih

/-- An entry at the slot's own price and size is not requoted. -/
theorem not_moved (hthreshold : 0 ≤ args.effectiveThresholdBps) {price : ℚ} (hpos : 0 < price)
    (hprice : (om.slot side level).price = some price) (hsize : (om.slot side level).size = some args.baseAmount) :
    ¬om.Moved args side level price := by
  unfold Moved
  rw [hprice, hsize]
  rintro (hnone | hchange | hresize)
  · cases hnone
  · have hzero : priceChangeBps ((some price).getD 0) price = 0 := by
      simp [priceChangeBps, not_le.mpr hpos]
    rw [hzero] at hchange
    exact absurd hchange (not_lt.mpr hthreshold)
  · unfold sizeChangeRequiresUpdate at hresize
    simp only [sub_self, abs_zero, decide_eq_true_eq] at hresize
    exact absurd hresize (not_le.mpr (lt_max_of_lt_right epsilon_pos))

/-! ## The second collection -/

/-- The order manager after a collection whose ops are marked. -/
def inFlight (om : OrderManager n) (now : Instant) (levels : List Level) (args : CollectArgs) : OrderManager n :=
  (om.collectOrderOperations levels args).1.markAll now (om.collectOrderOperations levels args).2

theorem inFlight_resolve (cid : ℤ) :
    (om.inFlight now levels args).resolveExchangeId cid = om.resolveExchangeId cid := by
  unfold inFlight resolveExchangeId collectOrderOperations
  rw [markAll_map, (collectLoop_frame om args _).2]

theorem collected_slot : (om.collectOrderOperations levels args).1.slot side level = om.slot side level := by
  unfold slot collectOrderOperations
  rw [(collectLoop_frame om args _).1]

@[simp] theorem markAll_tick (ops : List (BatchOp n)) : (om.markAll now ops).amountTick = om.amountTick := by
  induction ops generalizing om with
  | nil => rfl
  | cons op ops ih =>
    rw [markAll_cons, ih]
    rfl

theorem collectLoop_tick (ts : List (Side × Fin n × Option ℚ)) :
    (collectLoop args ts om).1.amountTick = om.amountTick := by
  induction ts generalizing om with
  | nil => rfl
  | cons t ts ih =>
    obtain ⟨side, level, price⟩ := t
    simp only [collectLoop]
    rw [ih]
    rcases om.collectSlot_cases side level args price with h | ⟨op, h, -⟩ | ⟨op, h, -⟩
    · rw [h]
    · rw [h]
    · rw [h]
      rfl

theorem inFlight_sizeChange (existing : Option ℚ) (size : ℚ) :
    (om.inFlight now levels args).sizeChangeRequiresUpdate existing size =
      om.sizeChangeRequiresUpdate existing size := by
  have htick : (om.inFlight now levels args).amountTick = om.amountTick :=
    (markAll_tick _).trans (collectLoop_tick _)
  unfold sizeChangeRequiresUpdate
  rw [htick]

/-- A suppressed level has the order that it had. -/
theorem inFlight_orderId_none (h : (side, level, none) ∈ levelTargets n levels) :
    ((om.inFlight now levels args).slot side level).orderId = (om.slot side level).orderId := by
  unfold inFlight
  rw [markAll_orderId, collected_slot]
  intro op hop hcreate hkey
  have ha : op.action ≠ .cancel := by
    rw [hcreate]
    decide
  obtain ⟨htarget, -⟩ := collectLoop_requotes hop ha
  obtain ⟨rfl, rfl⟩ := Prod.mk.inj hkey
  cases levelTargets_unique h htarget

/-- A priced level whose op is marked holds the price and the size of the ladder. -/
theorem inFlight_placed {price : ℚ} (h : (side, level, some price) ∈ levelTargets n levels)
    (hq : om.Requotes args side level (some price)) :
    ((om.inFlight now levels args).slot side level).orderId ≠ none ∧
      ((om.inFlight now levels args).slot side level).price = some price ∧
      ((om.inFlight now levels args).slot side level).size = some args.baseAmount := by
  obtain ⟨op, hop, hkey, ha⟩ := collectLoop_places h hq
  obtain ⟨rfl, rfl⟩ := Prod.mk.inj hkey
  obtain ⟨htarget, -⟩ := collectLoop_requotes hop ha
  have hprice : op.price = price := (Option.some.inj (levelTargets_unique h htarget)).symm
  have hslot : (om.inFlight now levels args).slot op.side op.level =
      ((om.collectOrderOperations levels args).1.markPending now op).slot op.side op.level :=
    markAll_slot (om.collectOrderOperations_nodup levels args) hop
  obtain ⟨hp, hs⟩ := @markPending_placed n (om.collectOrderOperations levels args).1 now op ha
  rw [hslot, hp, hs, hprice, collectLoop_sized hop ha]
  refine ⟨?_, rfl, rfl⟩
  rw [markPending_orderId, collected_slot]
  by_cases hcreate : op.action = .create
  · rw [if_pos ⟨hcreate, rfl⟩]
    exact Option.some_ne_none _
  · rw [if_neg fun hc => hcreate hc.1, ((collectLoop_fits args _ op hop).tracked hcreate).1]
    exact Option.some_ne_none _

/-- A level without an op is left as it was. -/
theorem inFlight_slot_eq {price : ℚ} (h : (side, level, some price) ∈ levelTargets n levels)
    (hq : ¬om.Requotes args side level (some price)) :
    (om.inFlight now levels args).slot side level = om.slot side level := by
  unfold inFlight
  have hsame : (om.collectOrderOperations levels args).1.slot side level = om.slot side level := collected_slot
  rw [← hsame]
  refine markAll_slot_ne (k := (side, level)) fun op hop hkey => hq ?_
  obtain ⟨price', hmem, hq'⟩ := (collectLoop_addresses _).mp ⟨op, hop, hkey⟩
  rw [levelTargets_unique h hmem]
  exact hq'

/-- **What the second collection requotes**: the suppressed levels with an order to cancel, again. -/
theorem inFlight_requotes (hthreshold : 0 ≤ args.effectiveThresholdBps) {price : Option ℚ}
    (h : (side, level, price) ∈ levelTargets n levels) :
    (om.inFlight now levels args).Requotes args side level price ↔
      price = none ∧ args.holdMutations = false ∧ om.Resolved side level := by
  cases price with
  | none =>
    unfold Requotes Resolved
    rw [inFlight_orderId_none h]
    simp only [inFlight_resolve, true_and]
  | some p =>
    refine iff_of_false (fun hagain => ?_) fun hnone => (by cases hnone.1)
    by_cases hq : om.Requotes args side level (some p)
    · obtain ⟨hid, hprice, hsize⟩ : ((om.inFlight now levels args).slot side level).orderId ≠ none ∧
          ((om.inFlight now levels args).slot side level).price = some p ∧
          ((om.inFlight now levels args).slot side level).size = some args.baseAmount := inFlight_placed h hq
      rcases hagain.2.2 with hnone | ⟨-, -, hmoved⟩
      · exact hid hnone
      · exact not_moved hthreshold hagain.2.1 hprice hsize hmoved
    · have hslot : (om.inFlight now levels args).slot side level = om.slot side level := inFlight_slot_eq h hq
      refine hq ?_
      unfold Requotes Resolved Moved at hagain ⊢
      simp only [hslot, inFlight_resolve, inFlight_sizeChange] at hagain
      exact hagain

/-- **When a second collection is empty.** After a collection whose ops are all marked, the same call
returns no op if and only if mutations are held, or no level that the ladder gives no price to tracks an order
with an exchange id. -/
theorem second_collect_empty_iff (om : OrderManager n) (now : Instant) (levels : List Level) (args : CollectArgs)
    (hthreshold : 0 ≤ args.effectiveThresholdBps) :
    ((om.inFlight now levels args).collectOrderOperations levels args).2 = [] ↔
      args.holdMutations = true ∨
        ∀ side level, (side, level, none) ∈ levelTargets n levels → ¬om.Resolved side level := by
  rw [List.eq_nil_iff_forall_not_mem]
  constructor
  · intro hempty
    by_cases hhold : args.holdMutations = true
    · exact .inl hhold
    · refine .inr fun side level h hresolved => ?_
      rw [Bool.not_eq_true] at hhold
      have hagain : (om.inFlight now levels args).Requotes args side level none :=
        (inFlight_requotes hthreshold h).mpr ⟨rfl, hhold, hresolved⟩
      obtain ⟨op, hop, -⟩ := (collectLoop_addresses _).mpr ⟨none, h, hagain⟩
      exact hempty op hop
  · intro hfree op hop
    obtain ⟨price, h, hq⟩ := (collectLoop_addresses _).mp ⟨op, hop, rfl⟩
    obtain ⟨rfl, hhold, hresolved⟩ := (inFlight_requotes hthreshold h).mp hq
    rcases hfree with hheld | hfree
    · rw [hhold] at hheld
      cases hheld
    · exact hfree op.side op.level h hresolved

theorem second_collect_empty_iff_bid :
    ((bidOfThree.inFlight 1 [(none, none)] ⟨3, 0, 0, 1000, false⟩).collectOrderOperations [(none, none)]
      ⟨3, 0, 0, 1000, false⟩).2 = [] ↔ false = true ∨
        ∀ (side : Side) (level : Fin 1), (side, level, none) ∈ levelTargets 1 [(none, none)] →
          ¬bidOfThree.Resolved side level :=
  second_collect_empty_iff bidOfThree 1 [(none, none)] ⟨3, 0, 0, 1000, false⟩ le_rfl

/-- **A Cancel in flight is emitted again.** -/
theorem cancel_emitted_twice :
    ¬ ∀ (om : OrderManager 1) (now : Instant) (levels : List Level) (args : CollectArgs),
      0 ≤ args.effectiveThresholdBps →
      ((om.inFlight now levels args).collectOrderOperations levels args).2 = [] := by
  intro h
  exact absurd (h bidOfThree 1 [(none, none)] ⟨3, 0, 0, 1000, false⟩ le_rfl) (by decide +kernel)

end OrderManager

end LighterMM
