import LighterMM.Exec.OrderManager
import LighterMM.Lib.CappedMap

/-!
# What the order manager's operations do to the slots

- **Order ids of the slots**: `markAll` changes a slot's order id only by a Create of that slot
  (`markAll_orderId`); a snapshot only clears order ids (`processReconcile_orderId`).
- **The id map** (`MapIn`): every mapping is one of the pairs that were recorded.
- **Collection** (`collectOrderOperations_fits`): each op fits its slot, a Create an idle slot, a
  Modify or a Cancel a slot whose order has that exchange id. The ids of the Creates are fresh as
  long as the counter has room (`HasRoom`).
-/

namespace LighterMM

/-- The slot of an op. -/
def BatchOp.key {n : ℕ} (op : BatchOp n) : Side × Fin n := (op.side, op.level)

/-- The client ids of the Creates of a batch. -/
def createIds {n : ℕ} (ops : List (BatchOp n)) : List ℤ :=
  (ops.filter (·.action = .create)).map (·.clientOrderId)

/-- The entries of the loop are the prices of the ladder. -/
theorem mem_levelTargets_iff {n : ℕ} {levels : List Level} {side : Side} {level : Fin n} {price : Option ℚ} :
    (side, level, price) ∈ levelTargets n levels ↔ ∃ l, levels[level.val]? = some l ∧ l.on side = price := by
  unfold levelTargets
  rw [List.mem_flatMap]
  constructor
  · rintro ⟨level', -, h⟩
    split at h
    · rename_i buy sell hget
      simp only [List.mem_cons, Prod.mk.injEq, List.not_mem_nil, or_false] at h
      rcases h with ⟨rfl, rfl, rfl⟩ | ⟨rfl, rfl, rfl⟩
      · exact ⟨_, hget, rfl⟩
      · exact ⟨_, hget, rfl⟩
    · cases h
  · rintro ⟨⟨buy, sell⟩, hget, rfl⟩
    refine ⟨level, List.mem_finRange level, ?_⟩
    rw [hget]
    cases side <;> simp [Level.on]

namespace OrderManager

variable {n : ℕ} {om : OrderManager n} {now : Instant} {side sd : Side} {level l : Fin n}

/-! ## Slot updates -/

theorem slot_setSlot (s : OrderSlot) :
    (om.setSlot side level s).slot sd l = if sd = side ∧ l = level then s else om.slot sd l := rfl

@[simp] theorem slot_setSlot_self (s : OrderSlot) : (om.setSlot side level s).slot side level = s := by
  simp [slot_setSlot]

theorem slot_setSlot_ne (s : OrderSlot) (h : ¬(sd = side ∧ l = level)) :
    (om.setSlot side level s).slot sd l = om.slot sd l := by
  rw [slot_setSlot, if_neg h]

@[simp] theorem setSlot_last (s : OrderSlot) :
    (om.setSlot side level s).lastClientOrderIndex = om.lastClientOrderIndex := rfl

@[simp] theorem setSlot_map (s : OrderSlot) :
    (om.setSlot side level s).clientToExchange = om.clientToExchange := rfl

@[simp] theorem setSlot_resolve (s : OrderSlot) (cid : ℤ) :
    (om.setSlot side level s).resolveExchangeId cid = om.resolveExchangeId cid := rfl

/-! ## Pending marks -/

theorem markPending_orderId (op : BatchOp n) :
    ((om.markPending now op).slot sd l).orderId =
      if op.action = .create ∧ op.key = (sd, l) then some op.clientOrderId
      else (om.slot sd l).orderId := by
  unfold markPending BatchOp.key
  by_cases h : sd = op.side ∧ l = op.level
  · obtain ⟨rfl, rfl⟩ := h
    rw [slot_setSlot_self]
    cases op.action <;> simp
  · rw [slot_setSlot_ne _ h]
    have : ¬((op.side, op.level) = (sd, l)) := by
      rintro h'
      exact h ⟨(congrArg Prod.fst h').symm, (congrArg Prod.snd h').symm⟩
    simp [this]

theorem markAll_cons (op : BatchOp n) (ops : List (BatchOp n)) :
    om.markAll now (op :: ops) = (om.markPending now op).markAll now ops := rfl

@[simp] theorem markAll_nil : om.markAll now [] = om := rfl

@[simp] theorem markAll_last (ops : List (BatchOp n)) :
    (om.markAll now ops).lastClientOrderIndex = om.lastClientOrderIndex := by
  induction ops generalizing om with
  | nil => rfl
  | cons op ops ih => rw [markAll_cons, ih]; rfl

@[simp] theorem markAll_map (ops : List (BatchOp n)) :
    (om.markAll now ops).clientToExchange = om.clientToExchange := by
  induction ops generalizing om with
  | nil => rfl
  | cons op ops ih => rw [markAll_cons, ih]; rfl

/-- A batch without a Create for a slot leaves its order id. -/
theorem markAll_orderId (ops : List (BatchOp n))
    (h : ∀ op ∈ ops, op.action = .create → op.key ≠ (sd, l)) :
    ((om.markAll now ops).slot sd l).orderId = (om.slot sd l).orderId := by
  induction ops generalizing om with
  | nil => rfl
  | cons op ops ih =>
    rw [markAll_cons, ih fun o ho => h o (List.mem_cons_of_mem _ ho), markPending_orderId]
    have hop := h op List.mem_cons_self
    rw [if_neg fun hc => hop hc.1 hc.2]

/-- In a batch with one op for each slot, a Create's slot tracks its id. -/
theorem markAll_orderId_create (ops : List (BatchOp n)) (hnd : (ops.map BatchOp.key).Nodup)
    {op : BatchOp n} (hop : op ∈ ops) (hc : op.action = .create) :
    ((om.markAll now ops).slot op.side op.level).orderId = some op.clientOrderId := by
  induction ops generalizing om with
  | nil => cases hop
  | cons o ops ih =>
    rw [List.map_cons, List.nodup_cons] at hnd
    rw [markAll_cons]
    rcases List.mem_cons.mp hop with rfl | hop
    · rw [markAll_orderId, markPending_orderId, if_pos ⟨hc, rfl⟩]
      intro o' ho' _ hk
      exact hnd.1 (List.mem_map.mpr ⟨o', ho', hk⟩)
    · exact ih hnd.2 hop

/-! ## The id map -/

/-- Every mapping of the id map is one of the pairs `P`. -/
def MapIn (om : OrderManager n) (P : ℤ → ℤ → Prop) : Prop :=
  ∀ c e, om.resolveExchangeId c = some e → P c e

theorem MapIn.mono {P Q : ℤ → ℤ → Prop} (h : om.MapIn P) (hPQ : ∀ c e, P c e → Q c e) : om.MapIn Q :=
  fun c e hce => hPQ c e (h c e hce)

theorem MapIn.of_map {om' : OrderManager n} {P : ℤ → ℤ → Prop} (h : om.MapIn P)
    (heq : om'.clientToExchange = om.clientToExchange) : om'.MapIn P := by
  intro c e hce
  exact h c e (by unfold resolveExchangeId at hce ⊢; rw [← heq]; exact hce)

theorem mem_trackedClientIds_iff {id : ℤ} :
    id ∈ om.trackedClientIds ↔ ∃ side level, (om.slot side level).orderId = some id := by
  rw [trackedClientIds, List.mem_append, List.mem_filterMap, List.mem_filterMap]
  constructor
  · rintro (⟨level, -, h⟩ | ⟨level, -, h⟩)
    · exact ⟨.buy, level, h⟩
    · exact ⟨.sell, level, h⟩
  · rintro ⟨side, level, h⟩
    cases side with
    | buy => exact .inl ⟨level, List.mem_finRange level, h⟩
    | sell => exact .inr ⟨level, List.mem_finRange level, h⟩

/-- The mapped ids above `k` that no slot tracks. -/
def untrackedAbove (om : OrderManager n) (m : AList fun _ : ℤ => ℤ) (k : ℤ) : ℕ :=
  (m.entries.filter fun e => e.1 ∉ om.trackedClientIds).countP fun e => decide (k < e.1)

/-- The map that `record_id_mapping` would have without its cap. -/
def withMapping (om : OrderManager n) (c e : ℤ) : AList fun _ : ℤ => ℤ := om.clientToExchange.insert c e

theorem recordIdMapping_map (om : OrderManager n) (c e : ℤ) :
    (om.recordIdMapping c e).clientToExchange =
      if idMapCap < (om.withMapping c e).entries.length then
        CappedMap.prune (· ∈ om.trackedClientIds) 100 (om.withMapping c e)
      else om.withMapping c e := by
  unfold recordIdMapping withMapping
  simp only
  split <;> rfl

/-- **What a mapping leaves**: the recorded pair and the old ones, but past the cap only those of tracked ids
and of the 100 largest others. -/
theorem recordIdMapping_resolve_iff {c e k v : ℤ} :
    (om.recordIdMapping c e).resolveExchangeId k = some v ↔
      (om.withMapping c e).lookup k = some v ∧
        ((om.withMapping c e).entries.length ≤ idMapCap ∨ k ∈ om.trackedClientIds ∨
          om.untrackedAbove (om.withMapping c e) k < 100) := by
  rw [resolveExchangeId, recordIdMapping_map]
  by_cases hcap : idMapCap < (om.withMapping c e).entries.length
  · rw [if_pos hcap, CappedMap.lookup_prune_iff]
    simp only [not_le.mpr hcap, false_or]
    rfl
  · rw [if_neg hcap]
    exact (and_iff_left (.inl (not_lt.mp hcap))).symm

theorem withMapping_lookup {c e k : ℤ} :
    (om.withMapping c e).lookup k = if k = c then some e else om.resolveExchangeId k := by
  unfold withMapping
  split
  · rename_i hk
    rw [hk, AList.lookup_insert]
  · rename_i hk
    exact AList.lookup_insert_ne hk

/-- A mapping is the recorded pair or an old one, also when the map is pruned. -/
theorem recordIdMapping_resolve {c e k v : ℤ}
    (h : (om.recordIdMapping c e).resolveExchangeId k = some v) :
    (k = c ∧ v = e) ∨ om.resolveExchangeId k = some v := by
  have hlookup := (recordIdMapping_resolve_iff.mp h).1
  rw [withMapping_lookup] at hlookup
  split at hlookup
  · rename_i hk
    exact .inl ⟨hk, (Option.some.inj hlookup).symm⟩
  · exact .inr hlookup

@[simp] theorem recordIdMapping_slots (c e : ℤ) : (om.recordIdMapping c e).slots = om.slots := by
  unfold recordIdMapping
  simp only
  split <;> rfl

@[simp] theorem recordIdMapping_last (c e : ℤ) :
    (om.recordIdMapping c e).lastClientOrderIndex = om.lastClientOrderIndex := by
  unfold recordIdMapping
  simp only
  split <;> rfl

@[simp] theorem recordIdMapping_tick (c e : ℤ) :
    (om.recordIdMapping c e).amountTick = om.amountTick := by
  unfold recordIdMapping
  simp only
  split <;> rfl

theorem MapIn.recordIdMapping {P : ℤ → ℤ → Prop} {c e : ℤ} (h : om.MapIn P) (hce : P c e) :
    (om.recordIdMapping c e).MapIn P := by
  intro k v hkv
  rcases recordIdMapping_resolve hkv with ⟨rfl, rfl⟩ | hkv
  · exact hce
  · exact h k v hkv

/-! ## Events -/

/-- The slots after one event, by the event's kind. -/
theorem applyEvent_bindLive (cid : ℤ) (eid : Option ℤ) (price size : ℚ) :
    (om.applyEvent now (.bindLive side level cid eid price size)).slot sd l =
      if sd = side ∧ l = level then boundSlot now cid price size else om.slot sd l := by
  cases eid with
  | none => rfl
  | some e =>
    simp only [applyEvent, bindLive, slot_setSlot]
    rw [slot, recordIdMapping_slots, slot]

theorem applyEvent_clearLive (cid : ℤ) :
    (om.applyEvent now (.clearLive side level cid)).slot sd l =
      if (sd = side ∧ l = level) ∧ (cid = 0 ∨ (om.slot side level).orderId = some cid) then .idle now
      else om.slot sd l := by
  simp only [applyEvent]
  by_cases hg : cid = 0 ∨ (om.slot side level).orderId = some cid
  · simp [hg, clearLive, slot_setSlot]
  · simp [hg]

@[simp] theorem applyEvent_idResolved_slot (c e : ℤ) :
    (om.applyEvent now (.idResolved c e)).slot sd l = om.slot sd l := by
  simp [applyEvent, slot]

theorem applyFill_last (cid : ℤ) (f : ℚ) :
    (om.applyFill now cid f).lastClientOrderIndex = om.lastClientOrderIndex := by
  unfold applyFill
  split <;> rfl

@[simp] theorem applyEvent_last (e : OrderEvent n) :
    (om.applyEvent now e).lastClientOrderIndex = om.lastClientOrderIndex := by
  cases e with
  | bindLive side level cid eid price size => cases eid <;> simp [applyEvent, bindLive]
  | clearLive side level cid =>
    simp only [applyEvent]
    split <;> rfl
  | clearAll => rfl
  | idResolved c e => simp [applyEvent]
  | fill cid f => exact applyFill_last cid f

/-- The pair an event records in the id map. -/
def eventPair : OrderEvent n → Option (ℤ × ℤ)
  | .bindLive _ _ cid eid _ _ => eid.map (cid, ·)
  | .idResolved c e => some (c, e)
  | _ => none

theorem MapIn.applyEvent {P : ℤ → ℤ → Prop} (h : om.MapIn P) {e : OrderEvent n}
    (he : ∀ p, eventPair e = some p → P p.1 p.2) : (om.applyEvent now e).MapIn P := by
  cases e with
  | bindLive side level cid eid price size =>
    cases eid with
    | none => exact h.of_map rfl
    | some eid => exact (h.recordIdMapping (he _ rfl)).of_map rfl
  | clearLive side level cid =>
    simp only [OrderManager.applyEvent]
    split
    · exact h.of_map rfl
    · exact h
  | clearAll => exact h.of_map rfl
  | idResolved c e => exact h.recordIdMapping (he _ rfl)
  | fill cid f =>
    simp only [OrderManager.applyEvent, applyFill]
    split
    · exact h
    · exact h.of_map rfl

/-! ## Snapshots -/

/-- The pairs of the rows of a snapshot. -/
def RowsIn (remote : List RemoteOrder) (P : ℤ → ℤ → Prop) : Prop :=
  ∀ o ∈ remote, ∀ c e, o.clientOrderIndex = some c → o.orderIndex = some e → P c e

theorem updateIdMapping_cons (o : RemoteOrder) (remote : List RemoteOrder) :
    om.updateIdMappingFromOrders (o :: remote) =
      (match o.clientOrderIndex, o.orderIndex with
        | some c, some e => om.recordIdMapping c e
        | _, _ => om).updateIdMappingFromOrders remote := rfl

@[simp] theorem updateIdMapping_slots (remote : List RemoteOrder) :
    (om.updateIdMappingFromOrders remote).slots = om.slots := by
  induction remote generalizing om with
  | nil => rfl
  | cons o remote ih =>
    rw [updateIdMapping_cons, ih]
    split <;> simp

@[simp] theorem updateIdMapping_last (remote : List RemoteOrder) :
    (om.updateIdMappingFromOrders remote).lastClientOrderIndex = om.lastClientOrderIndex := by
  induction remote generalizing om with
  | nil => rfl
  | cons o remote ih =>
    rw [updateIdMapping_cons, ih]
    split <;> simp

theorem MapIn.updateIdMapping {P : ℤ → ℤ → Prop} (h : om.MapIn P) {remote : List RemoteOrder}
    (hr : RowsIn remote P) : (om.updateIdMappingFromOrders remote).MapIn P := by
  induction remote generalizing om with
  | nil => exact h
  | cons o remote ih =>
    rw [updateIdMapping_cons]
    refine ih ?_ fun o' ho' => hr o' (List.mem_cons_of_mem _ ho')
    split
    · rename_i c e hc he
      exact h.recordIdMapping (hr o List.mem_cons_self c e hc he)
    · exact h

theorem missSlot_orderId (live : List ℤ) (s : OrderSlot) :
    (missSlot live now s).orderId = if clearsMissing live now s then none else s.orderId := by
  unfold missSlot clearsMissing
  split
  · rename_i hs; simp [hs]
  · rename_i id hs
    by_cases hl : id ∈ live
    · simp [hl, hs]
    · simp only [hl, if_false, not_false_eq_true, true_and]
      split <;> simp [OrderSlot.idle, hs]

theorem refreshSlot_orderId (remote : List RemoteOrder) (s : OrderSlot) :
    (refreshSlot remote now side s).orderId = s.orderId := by
  unfold refreshSlot
  split
  · rfl
  · rename_i cid hs
    split
    · rfl
    · split
      · rfl
      · split
        · exact hs.symm
        · rfl

/-- The two loops of `process_reconcile` visit each slot by itself. -/
theorem processReconcile_slot (remote : List RemoteOrder) :
    (om.processReconcile now remote).slot side level =
      refreshSlot remote now side (missSlot (liveIds remote) now (om.slot side level)) := by
  show refreshSlot remote now side (missSlot (liveIds remote) now
    ((om.updateIdMappingFromOrders remote).slots side level)) = _
  rw [updateIdMapping_slots]
  rfl

/-- **A snapshot only clears order ids**, those of the slots it shows as missing. -/
theorem processReconcile_orderId (remote : List RemoteOrder) :
    ((om.processReconcile now remote).slot side level).orderId =
      if clearsMissing (liveIds remote) now (om.slot side level) then none
      else (om.slot side level).orderId := by
  rw [processReconcile_slot, refreshSlot_orderId, missSlot_orderId]

@[simp] theorem processReconcile_last (remote : List RemoteOrder) :
    (om.processReconcile now remote).lastClientOrderIndex = om.lastClientOrderIndex :=
  updateIdMapping_last remote

theorem MapIn.processReconcile {P : ℤ → ℤ → Prop} (h : om.MapIn P) {remote : List RemoteOrder}
    (hr : RowsIn remote P) : (om.processReconcile now remote).MapIn P :=
  (h.updateIdMapping hr).of_map rfl

/-! ## Collection -/

/-- An op fits the slot it is for: a Create an idle slot, a Modify or a Cancel a slot that tracks
the order with that exchange id. -/
structure Fits (om : OrderManager n) (op : BatchOp n) : Prop where
  create : op.action = .create → (om.slot op.side op.level).orderId = none ∧ op.exchangeId = none
  tracked : op.action ≠ .create → (om.slot op.side op.level).orderId = some op.clientOrderId ∧
    ∃ eid, om.resolveExchangeId op.clientOrderId = some eid ∧ op.exchangeId = some eid

/-- What one iteration of the collection can do: nothing, an op for the order that the slot
tracks, or a Create with the next client id. -/
theorem collectSlot_cases (om : OrderManager n) (side : Side) (level : Fin n) (args : CollectArgs)
    (price : Option ℚ) :
    om.collectSlot args side level price = (om, none) ∨
    (∃ op, om.collectSlot args side level price = (om, some op) ∧ op.key = (side, level) ∧
      op.action ≠ .create ∧ om.Fits op) ∨
    ∃ op, om.collectSlot args side level price = ((om.nextClientOrderIndex args.nowNs).2, some op) ∧
      op.key = (side, level) ∧ op.action = .create ∧
      op.clientOrderId = (om.nextClientOrderIndex args.nowNs).1 ∧ om.Fits op := by
  unfold collectSlot
  cases price with
  | none =>
    simp only
    by_cases hh : args.holdMutations = true
    · exact .inl (by simp [hh])
    · cases hcid : (om.slot side level).orderId with
      | none => exact .inl (by simp [hh])
      | some cid =>
        cases heid : om.resolveExchangeId cid with
        | none => exact .inl (by simp [hh, heid])
        | some eid =>
          refine .inr (.inl ⟨.cancelOp side level cid eid, by simp [hh, heid], rfl, by simp [BatchOp.cancelOp], ?_⟩)
          exact ⟨by simp [BatchOp.cancelOp], fun _ => ⟨hcid, eid, heid, rfl⟩⟩
  | some p =>
    simp only
    by_cases hz : args.baseAmount ≤ 0 ∨ p ≤ 0
    · exact .inl (by simp [hz])
    · cases hcid : (om.slot side level).orderId with
      | none =>
        refine .inr (.inr ⟨_, by simp only [if_neg hz]; rfl, rfl, rfl, rfl, ?_⟩)
        exact ⟨fun _ => ⟨hcid, rfl⟩, fun h => absurd rfl h⟩
      | some cid =>
        by_cases hh : args.holdMutations = true
        · exact .inl (by simp [hz, hh])
        · cases heid : om.resolveExchangeId cid with
          | none => exact .inl (by simp [hz, hh, heid])
          | some eid =>
            simp only [if_neg hz, if_neg hh, heid]
            split
            · refine .inr (.inl ⟨_, rfl, rfl, by simp, ?_⟩)
              exact ⟨by simp, fun _ => ⟨hcid, eid, heid, rfl⟩⟩
            · exact .inl rfl

@[simp] theorem nextClientOrderIndex_slots (nowNs : ℤ) :
    (om.nextClientOrderIndex nowNs).2.slots = om.slots := rfl

@[simp] theorem nextClientOrderIndex_map (nowNs : ℤ) :
    (om.nextClientOrderIndex nowNs).2.clientToExchange = om.clientToExchange := rfl

theorem Fits.congr {om' : OrderManager n} {op : BatchOp n} (h : om.Fits op) (hs : om'.slots = om.slots)
    (hm : om'.clientToExchange = om.clientToExchange) : om'.Fits op := by
  obtain ⟨h₁, h₂⟩ := h
  constructor
  · simpa only [slot, hs] using h₁
  · simpa only [slot, resolveExchangeId, hs, hm] using h₂

/-- The collection changes the client id counter only. -/
theorem collectLoop_frame (om : OrderManager n) (args : CollectArgs)
    (ts : List (Side × Fin n × Option ℚ)) :
    (collectLoop args ts om).1.slots = om.slots ∧
      (collectLoop args ts om).1.clientToExchange = om.clientToExchange := by
  induction ts generalizing om with
  | nil => exact ⟨rfl, rfl⟩
  | cons t ts ih =>
    obtain ⟨side, level, price⟩ := t
    simp only [collectLoop]
    obtain ⟨hs, hm⟩ := ih (om.collectSlot args side level price).1
    rw [hs, hm]
    rcases om.collectSlot_cases side level args price with
      h | ⟨op, h, -⟩ | ⟨op, h, -⟩ <;> rw [h] <;> exact ⟨rfl, rfl⟩

theorem collectLoop_fits (args : CollectArgs) (ts : List (Side × Fin n × Option ℚ)) :
    ∀ op ∈ (collectLoop args ts om).2, om.Fits op := by
  induction ts generalizing om with
  | nil => intro op hop; cases hop
  | cons t ts ih =>
    obtain ⟨side, level, price⟩ := t
    intro op hop
    simp only [collectLoop, List.mem_append] at hop
    rcases om.collectSlot_cases side level args price with
      h | ⟨o, h, -, -, hf⟩ | ⟨o, h, -, -, -, hf⟩ <;> rw [h] at hop <;>
      simp only [Option.toList_none, Option.toList_some, List.mem_singleton, List.not_mem_nil,
        false_or] at hop
    · exact ih op hop
    · rcases hop with rfl | hop
      · exact hf
      · exact ih op hop
    · rcases hop with rfl | hop
      · exact hf
      · exact (ih op hop).congr rfl rfl

/-- The ops come in the order of the ladder's slots, at most one for each. -/
theorem collectLoop_keys (args : CollectArgs) (ts : List (Side × Fin n × Option ℚ)) :
    ((collectLoop args ts om).2.map BatchOp.key).Sublist (ts.map fun t => (t.1, t.2.1)) := by
  induction ts generalizing om with
  | nil => exact .slnil
  | cons t ts ih =>
    obtain ⟨side, level, price⟩ := t
    simp only [collectLoop, List.map_append, List.map_cons]
    rcases om.collectSlot_cases side level args price with
      h | ⟨o, h, hk, -⟩ | ⟨o, h, hk, -⟩ <;> rw [h]
    · exact ih.cons _
    · simpa [hk] using ih.cons_cons (side, level)
    · simpa [hk] using ih.cons_cons (side, level)

/-- The client id counter has room for `k` more ids before it wraps around. -/
structure HasRoom (om : OrderManager n) (nowNs : ℤ) (k : ℕ) : Prop where
  last_nonneg : 0 ≤ om.lastClientOrderIndex
  last_room : om.lastClientOrderIndex + k ≤ maxClientOrderIndex
  clock_room : nowNs % maxClientOrderIndex + k ≤ maxClientOrderIndex + 1

instance (om : OrderManager n) (nowNs : ℤ) (k : ℕ) : Decidable (om.HasRoom nowNs k) :=
  decidable_of_iff (0 ≤ om.lastClientOrderIndex ∧ om.lastClientOrderIndex + k ≤ maxClientOrderIndex ∧
      nowNs % maxClientOrderIndex + k ≤ maxClientOrderIndex + 1)
    ⟨fun h => ⟨h.1, h.2.1, h.2.2⟩, fun h => ⟨h.last_nonneg, h.last_room, h.clock_room⟩⟩

theorem HasRoom.mono {nowNs : ℤ} {k k' : ℕ} (h : om.HasRoom nowNs k) (hk : k' ≤ k) :
    om.HasRoom nowNs k' := by
  obtain ⟨h₀, h₁, h₂⟩ := h
  exact ⟨h₀, by omega, by omega⟩

/-- With room the next client id is above the last one, and is the new last one. -/
theorem nextClientOrderIndex_spec {nowNs : ℤ} {k : ℕ} (h : om.HasRoom nowNs (k + 1)) :
    om.lastClientOrderIndex < (om.nextClientOrderIndex nowNs).1 ∧
      (om.nextClientOrderIndex nowNs).2.lastClientOrderIndex = (om.nextClientOrderIndex nowNs).1 ∧
      (om.nextClientOrderIndex nowNs).2.HasRoom nowNs k := by
  obtain ⟨h₀, h₁, h₂⟩ := h
  have hMax : (0 : ℤ) < maxClientOrderIndex := by decide
  have hmod : (om.lastClientOrderIndex + 1) % (maxClientOrderIndex + 1) =
      om.lastClientOrderIndex + 1 := Int.emod_eq_of_lt (by omega) (by omega)
  have hlt : om.lastClientOrderIndex < (om.nextClientOrderIndex nowNs).1 ∧
      (om.nextClientOrderIndex nowNs).1 + k ≤ maxClientOrderIndex := by
    simp only [nextClientOrderIndex, hmod]
    by_cases hle : nowNs % maxClientOrderIndex ≤ om.lastClientOrderIndex
    · rw [if_pos hle, if_neg (by omega)]
      omega
    · rw [if_neg hle, if_neg (by omega)]
      omega
  refine ⟨hlt.1, rfl, ?_, ?_, ?_⟩
  · show 0 ≤ (om.nextClientOrderIndex nowNs).1
    omega
  · exact hlt.2
  · omega

/-- With room for all slots, the ids of the Creates increase from the last one on. -/
theorem collectLoop_fresh (args : CollectArgs) (ts : List (Side × Fin n × Option ℚ))
    (h : om.HasRoom args.nowNs ts.length) :
    om.lastClientOrderIndex ≤ (collectLoop args ts om).1.lastClientOrderIndex ∧
    (∀ id ∈ createIds (collectLoop args ts om).2, om.lastClientOrderIndex < id ∧
      id ≤ (collectLoop args ts om).1.lastClientOrderIndex) ∧
    (createIds (collectLoop args ts om).2).Nodup := by
  induction ts generalizing om with
  | nil => exact ⟨le_refl _, by intro id hid; simp [collectLoop, createIds] at hid, List.nodup_nil⟩
  | cons t ts ih =>
    obtain ⟨side, level, price⟩ := t
    rw [List.length_cons] at h
    simp only [collectLoop]
    rcases om.collectSlot_cases side level args price with
      hc | ⟨o, hc, -, ha, -⟩ | ⟨o, hc, -, ha, hid, -⟩ <;> rw [hc]
    · simpa using ih (h.mono (Nat.le_succ _))
    · have := ih (h.mono (Nat.le_succ _))
      simpa [createIds, ha] using this
    · obtain ⟨hlt, hlast, hroom⟩ := nextClientOrderIndex_spec h
      obtain ⟨hle, hmem, hnd⟩ := ih hroom
      have hids : createIds ((some o).toList ++
          (collectLoop args ts (om.nextClientOrderIndex args.nowNs).2).2) =
          (om.nextClientOrderIndex args.nowNs).1 ::
            createIds (collectLoop args ts (om.nextClientOrderIndex args.nowNs).2).2 := by
        simp [createIds, ha, hid]
      rw [hids]
      dsimp only
      refine ⟨by omega, ?_, ?_⟩
      · intro id hid'
        rcases List.mem_cons.mp hid' with rfl | hid'
        · omega
        · have := hmem id hid'
          omega
      · rw [List.nodup_cons]
        refine ⟨fun hin => ?_, hnd⟩
        have := (hmem _ hin).1
        omega

end OrderManager

end LighterMM
