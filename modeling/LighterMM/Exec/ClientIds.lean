import LighterMM.Exec.IdMap
import LighterMM.Lib.CyclicWalk

/-!
# Which client ids a ladder draws (`exec/order_manager.rs`)

All Creates of one call of `collect_order_operations` draw from one clock value. From the second id on the
counter walks around a ring: up by one to `2^48 - 1`, back to `1`, and from there to the clock value again
(`idRing`). So the ids of a ladder are distinct exactly if the ring has that many places, and differ from the
tracked ones exactly if none of these is so close ahead of the counter (`client_ids_iff`).
-/

namespace LighterMM

/-- The places of the ring of a clock value: `1`, and from the clock value (but not below `2`) to the largest
id. -/
def OnIdRing (clock id : ℤ) : Prop := id = 1 ∨ max clock 2 ≤ id ∧ id ≤ maxClientOrderIndex

def idRingPos (clock id : ℤ) : ℤ := if id = 1 then 0 else id - max clock 2 + 1

def idRingSize (clock : ℤ) : ℤ := maxClientOrderIndex + 2 - max clock 2

/-- The id after `last` for a clock value. -/
def idAfter (clock last : ℤ) : ℤ :=
  if last < clock then clock else if last < maxClientOrderIndex then last + 1 else 1

namespace OrderManager

open CyclicWalk

variable {n : ℕ} {om : OrderManager n} {args : CollectArgs} {clock last : ℤ}

theorem maxClientOrderIndex_eq : maxClientOrderIndex = 281474976710655 := rfl

/-- The counter walks around the ring. -/
theorem idRing (h₀ : 0 ≤ clock) (h : clock < maxClientOrderIndex) :
    Ring (idAfter clock) (OnIdRing clock) (idRingPos clock) (idRingSize clock) := by
  rw [maxClientOrderIndex_eq] at h
  constructor
  · unfold idRingSize
    rw [maxClientOrderIndex_eq]
    omega
  · intro x hx
    unfold OnIdRing idAfter at *
    rw [maxClientOrderIndex_eq] at *
    split <;> try split
    all_goals omega
  · intro x hx
    unfold OnIdRing at hx
    rw [maxClientOrderIndex_eq] at hx
    by_cases hmax : x = 281474976710655
    · have hnext : idAfter clock x = 1 := by
        unfold idAfter
        rw [maxClientOrderIndex_eq, if_neg (by omega), if_neg (by omega)]
      have hlast : idRingPos clock x + 1 = idRingSize clock := by
        unfold idRingPos idRingSize
        rw [maxClientOrderIndex_eq, if_neg (by omega)]
        omega
      rw [hnext, hlast, Int.emod_self, idRingPos, if_pos rfl]
    · have hnext : idRingPos clock (idAfter clock x) = idRingPos clock x + 1 := by
        unfold idRingPos idAfter
        rw [maxClientOrderIndex_eq]
        split <;> split <;> (try split) <;> omega
      have hnonneg : 0 ≤ idRingPos clock x + 1 := by
        unfold idRingPos
        split <;> omega
      have hlt : idRingPos clock x + 1 < idRingSize clock := by
        unfold idRingPos idRingSize
        rw [maxClientOrderIndex_eq]
        split <;> omega
      rw [hnext, Int.emod_eq_of_lt hnonneg hlt]
  · intro x hx
    unfold OnIdRing at hx
    unfold idRingPos
    split <;> omega
  · intro x hx
    unfold OnIdRing at hx
    unfold idRingPos idRingSize
    rw [maxClientOrderIndex_eq] at *
    split <;> omega
  · intro x y hx hy hxy
    unfold OnIdRing at hx hy
    unfold idRingPos at hxy
    split at hxy <;> split at hxy <;> omega

/-- The first id is on the ring. -/
theorem onIdRing_idAfter (h₀ : 0 ≤ clock) (h : clock < maxClientOrderIndex) (hl₀ : 0 ≤ last)
    (hl : last ≤ maxClientOrderIndex) : OnIdRing clock (idAfter clock last) := by
  unfold OnIdRing idAfter
  rw [maxClientOrderIndex_eq] at *
  split <;> (try split) <;> omega

theorem nextClientOrderIndex_eq (hl₀ : 0 ≤ om.lastClientOrderIndex)
    (hl : om.lastClientOrderIndex ≤ maxClientOrderIndex) (nowNs : ℤ) :
    (om.nextClientOrderIndex nowNs).1 = idAfter (nowNs % maxClientOrderIndex) om.lastClientOrderIndex := by
  have h₀ : 0 ≤ nowNs % maxClientOrderIndex := Int.emod_nonneg _ (by decide)
  unfold nextClientOrderIndex idAfter
  simp only
  by_cases hclock : om.lastClientOrderIndex < nowNs % maxClientOrderIndex
  · rw [if_neg (not_le.mpr hclock), if_pos hclock, if_neg (by omega)]
  · rw [if_pos (not_lt.mp hclock), if_neg hclock]
    by_cases hmax : om.lastClientOrderIndex < maxClientOrderIndex
    · have hmod : (om.lastClientOrderIndex + 1) % (maxClientOrderIndex + 1) = om.lastClientOrderIndex + 1 :=
        Int.emod_eq_of_lt (by omega) (by omega)
      rw [hmod, if_neg (by omega), if_pos hmax]
    · have hwrap : om.lastClientOrderIndex + 1 = maxClientOrderIndex + 1 := by omega
      rw [hwrap, Int.emod_self, if_pos rfl, if_neg hmax]

/-! ## A collection -/

/-- The collection creates an order for this entry of the ladder: a price, and no order in its slot. -/
def creates (om : OrderManager n) (args : CollectArgs) (t : Side × Fin n × Option ℚ) : Bool :=
  decide (0 < args.baseAmount) && t.2.2.any (fun p => decide (0 < p)) && (om.slot t.1 t.2.1).orderId.isNone

/-- The number of orders that a collection creates. -/
def numCreates (om : OrderManager n) (levels : List Level) (args : CollectArgs) : ℕ :=
  (levelTargets n levels).countP (om.creates args)

/-- An entry for which nothing is created draws no id. -/
theorem collectSlot_of_not_creates {side : Side} {level : Fin n} {price : Option ℚ}
    (h : om.creates args (side, level, price) = false) :
    (om.collectSlot args side level price).1 = om ∧
      createIds (om.collectSlot args side level price).2.toList = [] := by
  rcases om.collectSlot_cases side level args price with hc | ⟨op, hc, -, ha, -⟩ | ⟨op, hc, hk, ha, -, hfits⟩ <;>
    rw [hc]
  · exact ⟨rfl, rfl⟩
  · exact ⟨rfl, by simp [createIds, ha]⟩
  · exfalso
    obtain ⟨rfl, rfl⟩ : op.side = side ∧ op.level = level := Prod.mk.inj hk
    have hslot := (hfits.create ha).1
    unfold collectSlot at hc
    cases price with
    | none => simp only [hslot, ite_self, Prod.mk.injEq, reduceCtorEq, and_false] at hc
    | some p =>
      simp only [creates, hslot, Option.any_some, Option.isNone_none, Bool.and_true, Bool.and_eq_false_iff,
        decide_eq_false_iff_not, not_lt] at h
      simp only [if_pos h, Prod.mk.injEq, reduceCtorEq, and_false] at hc

theorem collectSlot_of_creates {side : Side} {level : Fin n} {price : Option ℚ}
    (h : om.creates args (side, level, price) = true) :
    (om.collectSlot args side level price).1 = (om.nextClientOrderIndex args.nowNs).2 ∧
      createIds (om.collectSlot args side level price).2.toList = [(om.nextClientOrderIndex args.nowNs).1] := by
  cases price with
  | none => simp [creates] at h
  | some p =>
    simp only [creates, Option.any_some, Bool.and_eq_true, decide_eq_true_eq, Option.isNone_iff_eq_none] at h
    obtain ⟨⟨hsize, hprice⟩, hslot⟩ := h
    have hpos : ¬ (args.baseAmount ≤ 0 ∨ p ≤ 0) := by
      rw [not_or, not_le, not_le]
      exact ⟨hsize, hprice⟩
    simp only [collectSlot, if_neg hpos, hslot]
    exact ⟨trivial, rfl⟩

theorem createIds_append (ops ops' : List (BatchOp n)) : createIds (ops ++ ops') = createIds ops ++ createIds ops' := by
  simp [createIds]

theorem nextClientOrderIndex_range (hl₀ : 0 ≤ om.lastClientOrderIndex)
    (hl : om.lastClientOrderIndex ≤ maxClientOrderIndex) (nowNs : ℤ) :
    0 ≤ (om.nextClientOrderIndex nowNs).2.lastClientOrderIndex ∧
      (om.nextClientOrderIndex nowNs).2.lastClientOrderIndex ≤ maxClientOrderIndex := by
  show 0 ≤ (om.nextClientOrderIndex nowNs).1 ∧ (om.nextClientOrderIndex nowNs).1 ≤ maxClientOrderIndex
  have h₀ : 0 ≤ nowNs % maxClientOrderIndex := Int.emod_nonneg _ (by decide)
  have hlt : nowNs % maxClientOrderIndex < maxClientOrderIndex := Int.emod_lt_of_pos _ (by decide)
  rw [nextClientOrderIndex_eq hl₀ hl, idAfter, maxClientOrderIndex_eq] at *
  split <;> (try split) <;> omega

/-- The ids of the Creates are drawn one after the other. -/
theorem collectLoop_ids (args : CollectArgs) (ts : List (Side × Fin n × Option ℚ))
    (hl₀ : 0 ≤ om.lastClientOrderIndex) (hl : om.lastClientOrderIndex ≤ maxClientOrderIndex) :
    createIds (collectLoop args ts om).2 =
      List.iterate (idAfter (args.nowNs % maxClientOrderIndex))
        (idAfter (args.nowNs % maxClientOrderIndex) om.lastClientOrderIndex) (ts.countP (om.creates args)) := by
  induction ts generalizing om with
  | nil => rfl
  | cons t ts ih =>
    obtain ⟨side, level, price⟩ := t
    simp only [collectLoop, createIds_append]
    cases hcreates : om.creates args (side, level, price) with
    | false =>
      obtain ⟨hom, hids⟩ := collectSlot_of_not_creates hcreates
      rw [hom, hids, List.nil_append, ih hl₀ hl, List.countP_cons_of_neg (by rw [hcreates]; exact Bool.false_ne_true)]
    | true =>
      obtain ⟨hom, hids⟩ := collectSlot_of_creates hcreates
      obtain ⟨hn₀, hn⟩ := nextClientOrderIndex_range hl₀ hl args.nowNs
      have hlast : (om.nextClientOrderIndex args.nowNs).2.lastClientOrderIndex =
          idAfter (args.nowNs % maxClientOrderIndex) om.lastClientOrderIndex := nextClientOrderIndex_eq hl₀ hl _
      rw [hom, hids, ih hn₀ hn, hlast, nextClientOrderIndex_eq hl₀ hl, List.countP_cons_of_pos hcreates]
      rfl

/-! ## Runs -/

/-- The counter is an id, or `0` before the first one. -/
def CounterInRange (om : OrderManager n) : Prop :=
  0 ≤ om.lastClientOrderIndex ∧ om.lastClientOrderIndex ≤ maxClientOrderIndex

theorem collectLoop_range (args : CollectArgs) (ts : List (Side × Fin n × Option ℚ)) (h : om.CounterInRange) :
    (collectLoop args ts om).1.CounterInRange := by
  induction ts generalizing om with
  | nil => exact h
  | cons t ts ih =>
    obtain ⟨side, level, price⟩ := t
    refine ih ?_
    rcases om.collectSlot_cases side level args price with hc | ⟨op, hc, -⟩ | ⟨op, hc, -⟩ <;> rw [hc]
    · exact h
    · exact h
    · exact nextClientOrderIndex_range h.1 h.2 args.nowNs

theorem CounterInRange.act (h : om.CounterInRange) (a : Instant × ManagerAct n) : (om.act a).CounterInRange := by
  obtain ⟨now, a⟩ := a
  cases a with
  | collect levels args => exact collectLoop_range args _ h
  | event e => rwa [CounterInRange, OrderManager.act, applyEvent_last]
  | snapshot remote => rwa [CounterInRange, OrderManager.act, processReconcile_last]
  | mark op => exact h

def actAll (om : OrderManager n) (as : List (Instant × ManagerAct n)) : OrderManager n := as.foldl act om

theorem actAll_counterInRange (amountTick : ℚ) (now : Instant) (as : List (Instant × ManagerAct n)) :
    ((OrderManager.new n amountTick now).actAll as).CounterInRange := by
  induction as using List.reverseRecOn with
  | nil => exact ⟨le_refl _, show (0 : ℤ) ≤ maxClientOrderIndex by decide⟩
  | append_singleton as a ih =>
    rw [actAll, List.foldl_concat]
    exact ih.act a

/-- **Client ids of a ladder.** In every state of every run they are in range, and they are distinct and not
tracked exactly if the ring has a place for each Create and no tracked id is that close ahead of the counter. -/
theorem client_ids_iff (amountTick : ℚ) (now : Instant) (as : List (Instant × ManagerAct n)) (levels : List Level)
    (args : CollectArgs) :
    let om := (OrderManager.new n amountTick now).actAll as
    let ids := createIds (om.collectOrderOperations levels args).2
    let clock := args.nowNs % maxClientOrderIndex
    let first := idAfter clock om.lastClientOrderIndex
    (∀ id ∈ ids, 1 ≤ id ∧ id ≤ maxClientOrderIndex) ∧
      ((ids.Nodup ∧ ∀ id ∈ ids, id ∉ om.trackedClientIds) ↔
        (om.numCreates levels args : ℤ) ≤ idRingSize clock ∧
          ∀ id ∈ om.trackedClientIds, OnIdRing clock id →
            (om.numCreates levels args : ℤ) ≤ (idRingPos clock id - idRingPos clock first) % idRingSize clock) := by
  intro om ids clock first
  obtain ⟨hl₀, hl⟩ : om.CounterInRange := actAll_counterInRange amountTick now as
  have h₀ : 0 ≤ clock := Int.emod_nonneg _ (by decide)
  have hlt : clock < maxClientOrderIndex := Int.emod_lt_of_pos _ (by decide)
  have hring := idRing h₀ hlt
  have hfirst : OnIdRing clock first := onIdRing_idAfter h₀ hlt hl₀ hl
  have hids : ids = List.iterate (idAfter clock) first (om.numCreates levels args) :=
    collectLoop_ids args _ hl₀ hl
  have hmem : ∀ id, id ∈ ids ↔ OnIdRing clock id ∧
      (idRingPos clock id - idRingPos clock first) % idRingSize clock < om.numCreates levels args := by
    intro id
    rw [hids]
    exact hring.mem_iterate_iff hfirst
  refine ⟨fun id hid => ?_, ?_⟩
  · have hon := ((hmem id).mp hid).1
    unfold OnIdRing at hon
    rw [maxClientOrderIndex_eq] at *
    omega
  · refine and_congr (hids ▸ hring.nodup_iterate_iff hfirst) ?_
    simp only [hmem]
    constructor
    · intro h id htracked hon
      by_contra hlt
      exact h id ⟨hon, not_le.mp hlt⟩ htracked
    · intro h id hid htracked
      exact absurd hid.2 (not_lt.mpr (h id htracked hid.1))

/-- Two levels at a clock value one below the last: the counter comes around to it a second time. -/
theorem client_ids_repeated :
    let om := OrderManager.new 2 1 0
    let levels : List Level := [(some 99, some 101), (some 98, some 102)]
    let args : CollectArgs := ⟨1, 0, 1, 281474976710654, false⟩
    createIds (om.collectOrderOperations levels args).2 =
      [281474976710654, 281474976710655, 1, 281474976710654] ∧
        ¬ (createIds (om.collectOrderOperations levels args).2).Nodup := by
  decide +kernel

end OrderManager

end LighterMM
