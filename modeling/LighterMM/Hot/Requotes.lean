import LighterMM.Hot.Readiness

/-!
# Which slots get an op (`collect_order_operations` of `exec/order_manager.rs`)

`Requotes` is the condition for one slot: a priced entry of the ladder creates an order in an idle slot and
moves one with an exchange id, an entry without a price cancels it. `collectLoop_addresses` says so of the
whole collection, and `collectLoop_places` of the Creates and Modifies.
-/

namespace LighterMM

variable {n : ℕ}

namespace OrderManager

variable {om : OrderManager n} {args : CollectArgs} {side : Side} {level : Fin n}

/-- The slot tracks an order with an exchange id. -/
def Resolved (om : OrderManager n) (side : Side) (level : Fin n) : Prop :=
  ∃ cid eid, (om.slot side level).orderId = some cid ∧ om.resolveExchangeId cid = some eid

/-- The ladder is away from the slot's price or size. -/
def Moved (om : OrderManager n) (args : CollectArgs) (side : Side) (level : Fin n) (price : ℚ) : Prop :=
  (om.slot side level).price.isNone ∨
    args.effectiveThresholdBps < priceChangeBps ((om.slot side level).price.getD 0) price ∨
    om.sizeChangeRequiresUpdate (om.slot side level).size args.baseAmount = true

/-- `collect_order_operations` makes an op for the slot where the ladder has this price. -/
def Requotes (om : OrderManager n) (args : CollectArgs) (side : Side) (level : Fin n) : Option ℚ → Prop
  | none => args.holdMutations = false ∧ om.Resolved side level
  | some price => 0 < args.baseAmount ∧ 0 < price ∧ ((om.slot side level).orderId = none ∨
      args.holdMutations = false ∧ om.Resolved side level ∧ om.Moved args side level price)

theorem collectSlot_isSome (om : OrderManager n) (args : CollectArgs) (side : Side) (level : Fin n)
    (price : Option ℚ) :
    (om.collectSlot args side level price).2.isSome = true ↔ om.Requotes args side level price := by
  unfold collectSlot Requotes Resolved
  cases price with
  | none =>
    simp only
    cases args.holdMutations with
    | true => simp
    | false =>
      cases hid : (om.slot side level).orderId with
      | none => simp
      | some cid => cases heid : om.resolveExchangeId cid <;> simp [heid]
  | some p =>
    simp only
    by_cases hpos : args.baseAmount ≤ 0 ∨ p ≤ 0
    · simp only [hpos, if_true, Option.isSome_none, Bool.false_eq_true, false_iff]
      rintro ⟨hsize, hprice, -⟩
      rcases hpos with h | h
      · exact absurd hsize (not_lt.mpr h)
      · exact absurd hprice (not_lt.mpr h)
    · rw [if_neg hpos]
      rw [not_or, not_le, not_le] at hpos
      cases hid : (om.slot side level).orderId with
      | none => simp [hpos]
      | some cid =>
        cases args.holdMutations with
        | true => simp
        | false =>
          cases heid : om.resolveExchangeId cid with
          | none => simp [heid]
          | some eid =>
            simp only [Bool.false_eq_true, if_false, heid]
            split
            · rename_i hmoved
              exact iff_of_true rfl ⟨hpos.1, hpos.2, .inr ⟨trivial, ⟨cid, eid, rfl, heid⟩, hmoved⟩⟩
            · rename_i hmoved
              refine iff_of_false Bool.false_ne_true ?_
              rintro ⟨-, -, h | ⟨-, -, h⟩⟩
              · cases h
              · exact hmoved h

/-- An iteration of `collect_order_operations` leaves what the next ones read. -/
theorem collectSlot_requotes (om : OrderManager n) (args : CollectArgs) (sd : Side) (l : Fin n)
    (p price : Option ℚ) :
    (om.collectSlot args sd l p).1.Requotes args side level price ↔ om.Requotes args side level price := by
  rcases om.collectSlot_cases sd l args p with h | ⟨op, h, -⟩ | ⟨op, h, -⟩ <;> rw [h]
  cases price <;> rfl

/-- The slots that `collect_order_operations` makes ops for. -/
theorem collectLoop_addresses (ts : List (Side × Fin n × Option ℚ)) :
    (∃ op ∈ (collectLoop args ts om).2, op.key = (side, level)) ↔
      ∃ price, (side, level, price) ∈ ts ∧ om.Requotes args side level price := by
  induction ts generalizing om with
  | nil => simp [collectLoop]
  | cons t ts ih =>
    obtain ⟨sd, l, p⟩ := t
    have hfirst : (∃ op ∈ (om.collectSlot args sd l p).2, op.key = (side, level)) ↔
        (sd, l) = (side, level) ∧ om.Requotes args sd l p := by
      rw [← collectSlot_isSome, Option.isSome_iff_exists]
      rcases om.collectSlot_cases sd l args p with h | ⟨op, h, hk, -⟩ | ⟨op, h, hk, -⟩ <;> rw [h]
      · simp
      · simp [hk]
      · simp [hk]
    have hsplit : (∃ op ∈ (collectLoop args ((sd, l, p) :: ts) om).2, op.key = (side, level)) ↔
        (∃ op ∈ (om.collectSlot args sd l p).2, op.key = (side, level)) ∨
          ∃ op ∈ (collectLoop args ts (om.collectSlot args sd l p).1).2, op.key = (side, level) := by
      simp only [collectLoop, List.mem_append, Option.mem_toList, or_and_right, exists_or, Option.mem_def]
    rw [hsplit, hfirst, ih]
    simp only [collectSlot_requotes]
    constructor
    · rintro (⟨hkey, hq⟩ | ⟨price, hmem, hq⟩)
      · cases hkey
        exact ⟨p, List.mem_cons_self, hq⟩
      · exact ⟨price, List.mem_cons_of_mem _ hmem, hq⟩
    · rintro ⟨price, hmem, hq⟩
      rcases List.mem_cons.mp hmem with heq | hmem
      · cases heq
        exact .inl ⟨rfl, hq⟩
      · exact .inr ⟨price, hmem, hq⟩

/-- A priced entry makes no Cancel. -/
theorem collectSlot_action {p : ℚ} {op : BatchOp n} (h : (om.collectSlot args side level (some p)).2 = some op) :
    op.action ≠ .cancel := by
  unfold collectSlot at h
  simp only at h
  split at h
  · cases h
  · split at h
    · split at h
      · cases h
      · split at h
        · cases h
        · split at h <;> cases h
          simp
    · cases h
      simp

/-- A Create or a Modify is for a priced entry that requotes its slot. -/
theorem collectLoop_requotes {ts : List (Side × Fin n × Option ℚ)} {op : BatchOp n}
    (h : op ∈ (collectLoop args ts om).2) (ha : op.action ≠ .cancel) :
    (op.side, op.level, some op.price) ∈ ts ∧ om.Requotes args op.side op.level (some op.price) := by
  induction ts generalizing om with
  | nil => cases h
  | cons t ts ih =>
    obtain ⟨sd, l, price⟩ := t
    simp only [collectLoop, List.mem_append, Option.mem_toList] at h
    rcases h with h | h
    · have hsome : (om.collectSlot args sd l price).2.isSome = true := Option.isSome_iff_exists.mpr ⟨op, h⟩
      obtain ⟨rfl, rfl, rfl, -⟩ := collectSlot_priced h ha
      exact ⟨List.mem_cons_self, (collectSlot_isSome om args _ _ _).mp hsome⟩
    · obtain ⟨hmem, hq⟩ := ih h
      exact ⟨List.mem_cons_of_mem _ hmem, (collectSlot_requotes om args sd l price _).mp hq⟩

/-- A priced entry that requotes its slot makes a Create or a Modify. -/
theorem collectLoop_places {ts : List (Side × Fin n × Option ℚ)} {p : ℚ} (hmem : (side, level, some p) ∈ ts)
    (h : om.Requotes args side level (some p)) :
    ∃ op ∈ (collectLoop args ts om).2, op.key = (side, level) ∧ op.action ≠ .cancel := by
  induction ts generalizing om with
  | nil => cases hmem
  | cons t ts ih =>
    obtain ⟨sd, l, price⟩ := t
    simp only [collectLoop, List.mem_append, Option.mem_toList]
    rcases List.mem_cons.mp hmem with heq | hmem
    · cases heq
      obtain ⟨op, hop⟩ := Option.isSome_iff_exists.mp ((om.collectSlot_isSome args side level (some p)).mpr h)
      have ha : op.action ≠ .cancel := collectSlot_action hop
      obtain ⟨hside, hlevel, -⟩ := collectSlot_priced hop ha
      exact ⟨op, .inl hop, Prod.ext hside hlevel, ha⟩
    · obtain ⟨op, hop, hkey, ha⟩ := ih hmem ((collectSlot_requotes om args sd l price (some p)).mpr h)
      exact ⟨op, .inr hop, hkey, ha⟩

end OrderManager

end LighterMM
