import Mathlib

/-!
# Core shared types (`types.rs`) and numeric helpers (`util.rs`)

Prices, sizes and positions are exact rationals where the source has `f64`. An `Instant` or a
duration is a number of seconds; a function that reads the clock takes the reading as an
argument. A level index of a market with `n` levels per side is a `Fin n`, so an operation on a
level that does not exist cannot be built.
-/

namespace LighterMM

/-- Seconds on the monotonic clock. -/
abbrev Instant := ℚ

/-- `EPSILON` of `order_manager.rs` and `quotes.rs`. -/
def epsilon : ℚ := 1 / 1000000000

theorem epsilon_pos : 0 < epsilon := by norm_num [epsilon]

/-- A market with one level per side has a level 0. -/
instance oneLevel : NeZero 1 := ⟨Nat.one_ne_zero⟩

/-- Order side. -/
inductive Side where
  | buy | sell
  deriving DecidableEq, Repr

def Side.isAsk : Side → Bool
  | .buy => false
  | .sell => true

/-- What to do with an order slot this cycle. -/
inductive OrderAction where
  | create | modify | cancel
  deriving DecidableEq, Repr

/-- Per-(side, level) order operation. `clientOrderId` is the bot's id (for a modify or a cancel
the existing one), `exchangeId` the exchange's order index (modify and cancel). -/
structure BatchOp (n : ℕ) where
  side : Side
  level : Fin n
  action : OrderAction
  price : ℚ
  size : ℚ
  clientOrderId : ℤ
  exchangeId : Option ℤ
  reduceOnly : Bool
  deriving DecidableEq, Repr

/-- Lifecycle of one (side, level) order slot. -/
inductive SideStatus where
  | idle | placing | live | modifying | canceling
  deriving DecidableEq, Repr

/-- Hot-path order events (the lossless queue). -/
inductive OrderEvent (n : ℕ) where
  | bindLive (side : Side) (level : Fin n) (clientOrderId : ℤ) (exchangeId : Option ℤ)
      (price size : ℚ)
  | clearLive (side : Side) (level : Fin n) (clientOrderId : ℤ)
  | clearAll
  | idResolved (clientOrderId exchangeId : ℤ)
  | fill (clientOrderId : ℤ) (filledSize : ℚ)
  deriving DecidableEq, Repr

/-- Per-market config resolved from REST at startup. -/
structure MarketConfig where
  marketId : ℕ
  priceTick : ℚ
  amountTick : ℚ
  minBaseAmount : ℚ
  minQuoteAmount : ℚ

/-- One quote level: (bid, ask), a suppressed side is `none`. -/
abbrev Level := Option ℚ × Option ℚ

/-- The price of a level on a side. -/
def Level.on (l : Level) : Side → Option ℚ
  | .buy => l.1
  | .sell => l.2

/-! ## `util.rs` -/

/-- Banker's rounding to the nearest integer (`round_ties_even`). -/
def pyRound (x : ℚ) : ℤ :=
  let d := x - ⌊x⌋
  if d < 1 / 2 then ⌊x⌋
  else if 1 / 2 < d then ⌊x⌋ + 1
  else if ⌊x⌋ % 2 = 0 then ⌊x⌋ else ⌊x⌋ + 1

/-- A price or an amount as the exchange's raw integer. -/
def toRaw (value tick : ℚ) : ℤ := pyRound (value / tick)

example : pyRound (5 / 2) = 2 ∧ pyRound (3 / 2) = 2 ∧ pyRound (-1 / 2) = 0 := by decide +kernel

/-- Price change in basis points; `10^18` stands for an unknown old price. -/
def priceChangeBps (oldPrice newPrice : ℚ) : ℚ :=
  if oldPrice ≤ 0 then 10 ^ 18 else |newPrice - oldPrice| / oldPrice * 10000

/-- Maximal position in USD: leveraged capital less the resting ladder, with a 10% reserve. -/
def dynamicMaxPosition (mid capital : ℚ) (leverage : ℤ) (baseAmount : ℚ) (numLevels : ℤ) : ℚ :=
  if capital ≤ 0 ∨ mid ≤ 0 then 0
  else
    let raw := capital * leverage
    let raw := if 0 < baseAmount then raw - 2 * numLevels * baseAmount * mid else raw
    if raw < 0 then 0 else raw * (9 / 10)

def clamp (x lo hi : ℚ) : ℚ := if x < lo then lo else if hi < x then hi else x

end LighterMM
