import LighterMM.Book.LocalBook
import LighterMM.Strategy.Rolling

/-!
# Vol + OBI quote engine (`strategy/vol_obi.rs`)
-/

namespace LighterMM

structure VolObiConfig where
  windowSteps : ℕ
  stepNs : ℤ
  volToHalfSpread : ℚ
  minHalfSpreadBps : ℚ
  c1Ticks : ℚ
  c1 : ℚ
  skew : ℚ
  lookingDepth : ℚ
  minWarmupSamples : ℤ

structure VolObiCalculator where
  midStats : RollingStats
  imbStats : RollingStats
  prevMid : ℚ
  hasPrevMid : Bool
  volatility : ℚ
  alpha : ℚ
  localAlpha : ℚ
  alphaOverride : ℚ
  hasAlphaOverride : Bool
  warmedUp : Bool
  totalSamples : ℤ
  tickSize : ℚ
  stepNs : ℤ
  lastSampleNs : ℤ
  volScale : ℚ
  volToHalfSpread : ℚ
  minHalfSpreadBps : ℚ
  c1 : ℚ
  skew : ℚ
  lookingDepth : ℚ
  minWarmupSamples : ℤ
  maxPositionDollar : ℚ

namespace VolObiCalculator

def new (sqrt : ℚ → ℚ) (cfg : VolObiConfig) (tickSize maxPositionDollar : ℚ) : VolObiCalculator where
  midStats := .new cfg.windowSteps
  imbStats := .new cfg.windowSteps
  prevMid := 0
  hasPrevMid := false
  volatility := 0
  alpha := 0
  localAlpha := 0
  alphaOverride := 0
  hasAlphaOverride := false
  warmedUp := false
  totalSamples := 0
  tickSize := tickSize
  stepNs := max cfg.stepNs 1
  lastSampleNs := 0
  volScale := sqrt (1000000000 / cfg.stepNs)
  volToHalfSpread := cfg.volToHalfSpread
  minHalfSpreadBps := cfg.minHalfSpreadBps
  c1 := if 0 < cfg.c1 then cfg.c1 else cfg.c1Ticks * tickSize
  skew := cfg.skew
  lookingDepth := cfg.lookingDepth
  minWarmupSamples := cfg.minWarmupSamples
  maxPositionDollar := maxPositionDollar

/-- A sample is due on the first call and from `stepNs` after the last one. -/
def sampleDue (c : VolObiCalculator) (nowNs : ℤ) : Bool :=
  decide (c.lastSampleNs = 0 ∨ c.stepNs ≤ nowNs - c.lastSampleNs)

/-- Step 1 of `on_book_update`: the mid change since the previous sample. -/
def sampleMid (sqrt : ℚ → ℚ) (c : VolObiCalculator) (nowNs : ℤ) (midPrice : ℚ) : VolObiCalculator :=
  let c := if c.hasPrevMid then
      { c with
        midStats := c.midStats.push sqrt (midPrice - c.prevMid)
        totalSamples := c.totalSamples + 1 }
    else c
  { c with prevMid := midPrice, hasPrevMid := true, lastSampleNs := nowNs }

/-- Size imbalance within the looking depth of the mid. -/
def imbalance (c : VolObiCalculator) (midPrice : ℚ) (bids asks : BookSide) : ℚ :=
  bids.sumSizesFrom (midPrice * (1 - c.lookingDepth)) -
    asks.sumSizesTo (midPrice * (1 + c.lookingDepth))

/-- Feeds a new mid and the book sides. -/
def onBookUpdate (sqrt : ℚ → ℚ) (c : VolObiCalculator) (nowNs : ℤ) (midPrice : ℚ)
    (bids asks : BookSide) : VolObiCalculator :=
  let due := c.sampleDue nowNs
  let c := if due then c.sampleMid sqrt nowNs midPrice else c
  let imb := c.imbalance midPrice bids asks
  let c := if due then { c with imbStats := c.imbStats.push sqrt imb } else c
  if c.minWarmupSamples ≤ c.totalSamples then
    let localAlpha := c.imbStats.zscore imb
    { c with
      warmedUp := true
      volatility := if due then c.midStats.std * c.volScale else c.volatility
      localAlpha := localAlpha
      alpha := if c.hasAlphaOverride then c.alphaOverride else localAlpha }
  else c

/-- Bid and ask of level 0, `none` if not warmed up or crossed. -/
def quote (c : VolObiCalculator) (midPrice positionSize : ℚ) : Option (ℚ × ℚ) :=
  if !c.warmedUp then none
  else
    let tick := c.tickSize
    let halfSpreadTick := c.volatility * c.volToHalfSpread / tick
    let fairPrice := midPrice + c.c1 * c.alpha
    let normPos := if 0 < c.maxPositionDollar then
        clamp (positionSize * midPrice / c.maxPositionDollar) (-1) 1
      else 0
    let bidDepthTick := max (halfSpreadTick * (1 + c.skew * normPos)) 0
    let askDepthTick := max (halfSpreadTick * (1 - c.skew * normPos)) 0
    let rawBid := fairPrice - bidDepthTick * tick
    let rawAsk := fairPrice + askDepthTick * tick
    let floored := decide (0 < c.minHalfSpreadBps)
    let rawBid := if floored then min rawBid (midPrice * (1 - c.minHalfSpreadBps / 10000)) else rawBid
    let rawAsk := if floored then max rawAsk (midPrice * (1 + c.minHalfSpreadBps / 10000)) else rawAsk
    let bidPrice := (⌊rawBid / tick⌋ : ℚ) * tick
    let askPrice := (⌈rawAsk / tick⌉ : ℚ) * tick
    if askPrice ≤ bidPrice then none else some (bidPrice, askPrice)

def setAlphaOverride (c : VolObiCalculator) : Option ℚ → VolObiCalculator
  | none =>
    let c := { c with hasAlphaOverride := false }
    if c.warmedUp then { c with alpha := c.localAlpha } else c
  | some a =>
    let c := { c with hasAlphaOverride := true, alphaOverride := a }
    if c.warmedUp then { c with alpha := a } else c

def setMaxPositionDollar (c : VolObiCalculator) (value : ℚ) : VolObiCalculator :=
  { c with maxPositionDollar := if 0 < value then value else 0 }

def reset (c : VolObiCalculator) : VolObiCalculator :=
  { c with
    midStats := c.midStats.clear
    imbStats := c.imbStats.clear
    prevMid := 0
    hasPrevMid := false
    volatility := 0
    alpha := 0
    localAlpha := 0
    hasAlphaOverride := false
    warmedUp := false
    totalSamples := 0
    lastSampleNs := 0 }

@[simp] theorem setMaxPositionDollar_warmedUp (c : VolObiCalculator) (v : ℚ) :
    (c.setMaxPositionDollar v).warmedUp = c.warmedUp := rfl

@[simp] theorem setAlphaOverride_warmedUp (c : VolObiCalculator) (a : Option ℚ) :
    (c.setAlphaOverride a).warmedUp = c.warmedUp := by
  cases a <;> simp only [setAlphaOverride] <;> split <;> rfl

end VolObiCalculator

end LighterMM
