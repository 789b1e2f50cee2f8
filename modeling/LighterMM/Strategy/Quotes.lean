import LighterMM.Types

/-!
# Quote ladder construction (`strategy/quotes.rs`)
-/

namespace LighterMM

/-- `config.trading.inventory_exit_bias`. -/
structure InventoryExitBias where
  enabled : Bool
  minRatio : ℚ
  exitTightenPerRatio : ℚ
  addWidenPerRatio : ℚ
  maxExitTighten : ℚ
  maxAddWiden : ℚ
  adverseBoostPerBps : ℚ

/-- `[spread_factor_level1^l for l in 0..num_levels]`. -/
def spreadFactors (spreadFactorLevel1 : ℚ) (numLevels : ℕ) : List ℚ :=
  (List.range numLevels).map fun l => spreadFactorLevel1 ^ l

def floorTick (p tick : ℚ) : ℚ := if 0 < tick then ⌊p / tick⌋ * tick else p

def ceilTick (p tick : ℚ) : ℚ := if 0 < tick then ⌈p / tick⌉ * tick else p

/-- `if tick > 0.0 { tick } else { (mid * 1e-6).max(1e-9) }`. -/
def minDepth (mid tick : ℚ) : ℚ :=
  if 0 < tick then tick else max (mid * (1 / 1000000)) (1 / 1000000000)

/-- A ladder without a price. -/
def noneLevels (numLevels : ℕ) : List Level := List.replicate numLevels (none, none)

/-- A single passive reducing quote at level 0. -/
def fallbackReduceOnly (mid position tick fallbackBps : ℚ) (numLevels : ℕ) : List Level :=
  let levels := noneLevels numLevels
  if |position| < epsilon ∨ mid ≤ 0 then levels
  else
    let bps := max fallbackBps 1
    let depth := max (mid * bps / 10000) (minDepth mid tick)
    if 0 < position then
      let ask := ceilTick (mid + depth) tick
      let ask := if ask ≤ mid then mid + minDepth mid tick else ask
      levels.set 0 (none, some ask)
    else
      let bid := floorTick (mid - depth) tick
      let bid := if mid ≤ bid then mid - minDepth mid tick else bid
      levels.set 0 (some bid, none)

/-- The ladder when the engine gives no price: the exit of an inventory, else nothing. -/
def exitLevels (mid position tick fallbackBps : ℚ) (numLevels : ℕ) : List Level :=
  if epsilon ≤ |position| then fallbackReduceOnly mid position tick fallbackBps numLevels
  else noneLevels numLevels

/-- The levels behind level 0, at its depths times the factors. -/
def deeperLevels (mid tick : ℚ) (factors : List ℚ) (numLevels : ℕ) (l0 : Level) : List Level :=
  let bidDepth := l0.1.map (mid - ·)
  let askDepth := l0.2.map (· - mid)
  (List.range' 1 (numLevels - 1)).map fun lvl =>
    let factor := factors.getD lvl 1
    (bidDepth.map fun d => floorTick (mid - d * factor) tick,
      askDepth.map fun d => ceilTick (mid + d * factor) tick)

/-- The full ladder from the level-0 quote of the engine. -/
def buildQuoteLevels (l0 : Option (ℚ × ℚ)) (mid position maxPosUsd tick : ℚ) (numLevels : ℕ)
    (factors : List ℚ) (fallbackBps : ℚ) : List Level :=
  match l0 with
  | none => exitLevels mid position tick fallbackBps numLevels
  | some (b, a) =>
    if maxPosUsd ≤ 0 then exitLevels mid position tick fallbackBps numLevels
    else
      -- At the position limit the side that would increase the exposure is suppressed.
      let atLimit := decide (maxPosUsd ≤ |position| * mid)
      let buy0 := if atLimit ∧ 0 < position then none else some b
      let sell0 := if atLimit ∧ position < 0 then none else some a
      if buy0.isNone ∧ sell0.isNone then
        fallbackReduceOnly mid position tick fallbackBps numLevels
      else (buy0, sell0) :: deeperLevels mid tick factors numLevels (buy0, sell0)

/-- Widens each level's depth by `multiplier`. -/
def applyQualitySpreadMultiplier (levels : List Level) (mid multiplier tick : ℚ) : List Level :=
  if multiplier ≤ 10001 / 10000 ∨ mid ≤ 0 then levels
  else levels.map fun l =>
    (l.1.map fun b => floorTick (mid - max (mid - b) 0 * multiplier) tick,
      l.2.map fun a => ceilTick (mid + max (a - mid) 0 * multiplier) tick)

/-- The tightening of the exit side and the widening of the adding side. -/
def exitBiasFactors (ratio adverseBps adverseThresholdBps : ℚ) (cfg : InventoryExitBias) : ℚ × ℚ :=
  let adverseExcess := max (adverseBps - adverseThresholdBps) 0
  let boost := 1 + min (adverseExcess * max cfg.adverseBoostPerBps 0) (1 / 2)
  (min (max cfg.exitTightenPerRatio 0 * ratio * boost) (max cfg.maxExitTighten 0),
    min (max cfg.addWidenPerRatio 0 * ratio * boost) (max cfg.maxAddWiden 0))

def biasBid (mid position tick exitTighten addWiden b : ℚ) : ℚ :=
  let depth := max (mid - b) (minDepth mid tick)
  let depth := if position < 0 then depth * max (1 - exitTighten) (1 / 20) else depth * (1 + addWiden)
  let nb := floorTick (mid - depth) tick
  if mid ≤ nb then floorTick (mid - minDepth mid tick) tick else nb

def biasAsk (mid position tick exitTighten addWiden a : ℚ) : ℚ :=
  let depth := max (a - mid) (minDepth mid tick)
  let depth := if 0 < position then depth * max (1 - exitTighten) (1 / 20) else depth * (1 + addWiden)
  let na := ceilTick (mid + depth) tick
  if na ≤ mid then ceilTick (mid + minDepth mid tick) tick else na

/-- Tightens the side that reduces the inventory and widens the adding side. -/
def applyInventoryExitBias (levels : List Level) (mid position maxPosUsd adverseBps
    adverseThresholdBps : ℚ) (cfg : InventoryExitBias) (tick : ℚ) : List Level :=
  if cfg.enabled = false ∨ mid ≤ 0 ∨ maxPosUsd ≤ 0 ∨ |position| < epsilon then levels
  else
    let ratio := |position| * mid / maxPosUsd
    if ratio < cfg.minRatio then levels
    else
      let (exitTighten, addWiden) := exitBiasFactors ratio adverseBps adverseThresholdBps cfg
      if exitTighten ≤ 0 ∧ addWiden ≤ 0 then levels
      else levels.map fun l =>
        (l.1.map (biasBid mid position tick exitTighten addWiden),
          l.2.map (biasAsk mid position tick exitTighten addWiden))

/-! ## The length of a ladder -/

@[simp] theorem noneLevels_length (numLevels : ℕ) : (noneLevels numLevels).length = numLevels :=
  List.length_replicate

@[simp] theorem fallbackReduceOnly_length (mid position tick fallbackBps : ℚ) (numLevels : ℕ) :
    (fallbackReduceOnly mid position tick fallbackBps numLevels).length = numLevels := by
  unfold fallbackReduceOnly
  simp only
  split
  · exact noneLevels_length _
  · split <;> rw [List.length_set, noneLevels_length]

@[simp] theorem exitLevels_length (mid position tick fallbackBps : ℚ) (numLevels : ℕ) :
    (exitLevels mid position tick fallbackBps numLevels).length = numLevels := by
  unfold exitLevels
  split
  · exact fallbackReduceOnly_length _ _ _ _ _
  · exact noneLevels_length _

/-- A ladder has a pair of prices for each level. -/
theorem buildQuoteLevels_length {numLevels : ℕ} (h : 0 < numLevels) (l0 : Option (ℚ × ℚ))
    (mid position maxPosUsd tick : ℚ) (factors : List ℚ) (fallbackBps : ℚ) :
    (buildQuoteLevels l0 mid position maxPosUsd tick numLevels factors fallbackBps).length =
      numLevels := by
  have hcases : ∀ l0 : Level, (if l0.1.isNone ∧ l0.2.isNone then
      fallbackReduceOnly mid position tick fallbackBps numLevels
    else l0 :: deeperLevels mid tick factors numLevels l0).length = numLevels := by
    intro l0
    split
    · exact fallbackReduceOnly_length _ _ _ _ _
    · simp only [deeperLevels, List.length_cons, List.length_map, List.length_range']
      omega
  unfold buildQuoteLevels
  split
  · exact exitLevels_length _ _ _ _ _
  · split
    · exact exitLevels_length _ _ _ _ _
    · exact hcases (_, _)

@[simp] theorem applyQualitySpreadMultiplier_length (levels : List Level) (mid multiplier tick : ℚ) :
    (applyQualitySpreadMultiplier levels mid multiplier tick).length = levels.length := by
  unfold applyQualitySpreadMultiplier
  split
  · rfl
  · exact List.length_map _

@[simp] theorem applyInventoryExitBias_length (levels : List Level) (mid position maxPosUsd adverseBps
    adverseThresholdBps : ℚ) (cfg : InventoryExitBias) (tick : ℚ) :
    (applyInventoryExitBias levels mid position maxPosUsd adverseBps adverseThresholdBps cfg tick).length =
      levels.length := by
  unfold applyInventoryExitBias
  split
  · rfl
  · simp only
    split
    · rfl
    · split
      · rfl
      · exact List.length_map _

/-- An order size raised to the exchange minimums. -/
def normalizeLiveOrderSize (size mid amountTick minBase minQuote : ℚ) : ℚ :=
  if size ≤ 0 ∨ mid ≤ 0 then 0
  else
    let s := if 0 < amountTick then (⌊size / amountTick⌋ : ℚ) * amountTick else size
    let s := if 0 < minBase ∧ s + epsilon < minBase then minBase else s
    let s := if 0 < minQuote ∧ s * mid + epsilon < minQuote then
        let s := minQuote / mid
        if 0 < amountTick then (⌈s / amountTick⌉ : ℚ) * amountTick else s
      else s
    max s 0

end LighterMM
