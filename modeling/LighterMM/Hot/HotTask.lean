import LighterMM.Hot.Cycle
import LighterMM.Strategy.Quotes
import LighterMM.Strategy.VolObi

/-!
# The hot task (`HotTask` of `orchestrator.rs`)

The hot task owns the book, the quote engine and the order manager, and runs on every message of the
market-data stream: `onOrderbook` brings the book up to date (`receive`) and then quotes
(`maybeQuote`).

- **What a call reads** from the clocks, the shared state and the queues is its argument `Reads`; what
  it does to them is the list of its `HotEffect`s, in order.
- **`maybeQuote`** is its market-data half (`chooseExit`: drain, throttle, gate, hold, size, ladder)
  followed by the order-state half of `Hot/Cycle`.

The log lines and the cadence counter behind one of them are left out.
-/

namespace LighterMM

inductive Mode where
  | dryRun | live
  deriving DecidableEq, Repr

/-- `RL_QUOTA_HIGH`, `RL_QUOTA_MEDIUM`, `RL_QUOTA_LOW`. -/
def rlQuotaHigh : ℤ := 500

def rlQuotaMedium : ℤ := 50

def rlQuotaLow : ℤ := 10

/-- The requote threshold, widened under quota pressure (`rate_limit.rs`). -/
def quotaAdaptiveThresholdBps (base : ℚ) : Option ℤ → ℚ
  | none => base
  | some q =>
    if rlQuotaHigh ≤ q then base
    else if rlQuotaMedium ≤ q then base * 2
    else if rlQuotaLow ≤ q then base * (7 / 2)
    else base * 5

/-- `SANITY_TICKER_FRESH`. -/
def sanityTickerFresh : ℚ := 5

/-- `SANITY_STREAK_TRIP`. -/
def sanityStreakTrip : ℕ := 10

/-- The configuration of a hot task with `n` levels per side. -/
structure HotConfig (n : ℕ) where
  /-- `levels_per_side.max(1)`. -/
  levels_pos : 0 < n
  market : MarketConfig
  mode : Mode
  leverage : ℤ
  baseAmount : ℚ
  capitalUsagePercent : ℚ
  minOrderValueUsd : ℚ
  positionValueThresholdUsd : ℚ
  spreadFactorLevel1 : ℚ
  defaultQuoteUpdateThresholdBps : ℚ
  adverseThresholdBps : ℚ
  invBias : InventoryExitBias
  volObi : VolObiConfig
  warmupSeconds : ℚ
  minLoopInterval : ℚ
  positionChangeHoldSec : ℚ
  bookSanityDivergenceBps : ℚ

namespace HotConfig

variable {n : ℕ}

def factors (cfg : HotConfig n) : List ℚ := spreadFactors cfg.spreadFactorLevel1 n

def fallbackBps (cfg : HotConfig n) : ℚ := max cfg.volObi.minHalfSpreadBps 1

def positionDustUsd (cfg : HotConfig n) : ℚ := max cfg.positionValueThresholdUsd 0

def positionHold (cfg : HotConfig n) : ℚ := max cfg.positionChangeHoldSec 0

/-- The minimal order value: the market's, or the one for quota generation. -/
def minQuote (cfg : HotConfig n) : ℚ := max cfg.market.minQuoteAmount cfg.minOrderValueUsd

/-- A position worth less than the dust threshold counts as flat. -/
def quotePosition (cfg : HotConfig n) (mid positionRaw : ℚ) : ℚ :=
  if |positionRaw| * mid < cfg.positionDustUsd then 0 else positionRaw

def normalizeSize (cfg : HotConfig n) (mid size : ℚ) : ℚ :=
  normalizeLiveOrderSize size mid cfg.market.amountTick cfg.market.minBaseAmount cfg.minQuote

/-- The dynamic order size; the static seed when the capital is unknown. -/
def orderSize (cfg : HotConfig n) (mid capital : ℚ) : ℚ :=
  if 0 < capital then cfg.normalizeSize mid (capital * cfg.capitalUsagePercent * cfg.leverage / mid)
  else cfg.baseAmount

end HotConfig

/-- What one call on the hot path reads. One reading of the monotonic clock stands for all of them but
the warm-up's. -/
structure Reads (n : ℕ) where
  now : Instant
  /-- `now_ms() * 1_000_000`, for the sample of the engine and for the client ids. -/
  sampleNs : ℤ
  nowNs : ℤ
  /-- The reading of `loop_start.elapsed()`. -/
  warmupClock : Instant
  events : List (OrderEvent n)
  snapshot : Option (List RemoteOrder)
  usableAlpha : Option ℚ
  /-- The capital that the gate reads, and the one that the sizes are computed from. -/
  gateCapital : ℚ
  capital : ℚ
  /-- A position has been received: `age_ms() != u64::MAX`. -/
  positionSeen : Bool
  position : ℚ
  quota : Option ℤ

/-- The live gate: no capital, or no position yet. -/
def HotConfig.gated {n : ℕ} (cfg : HotConfig n) (r : Reads n) : Bool :=
  cfg.mode == .live && (decide (r.gateCapital ≤ 0) || !r.positionSeen)

inductive HotEffect (n : ℕ) where
  | sendOps (ops : List (BatchOp n))
  | notifyReconnect
  | notifyReconcile
  | storeTracked (ids : List ℤ)
  | setMdNow
  | setMid (mid : ℚ)
  deriving DecidableEq, Repr

structure HotTask (n : ℕ) where
  book : LocalBook
  calculator : VolObiCalculator
  om : OrderManager n
  loopStart : Option Instant
  resetFlag : Bool
  /-- `derived.max_pos_usd`, which only this task writes. -/
  maxPosUsd : ℚ
  lastTracked : List ℤ
  lastQuote : Option Instant
  lastSeenPosition : Option ℚ
  positionHoldUntil : Option Instant
  mid : ℚ
  awaitingResnapshot : Bool
  tickerBbo : Option (ℚ × ℚ × Instant)
  sanityStreak : ℕ

namespace HotTask

variable {n : ℕ}

/-- The task at the start of `run`. -/
def new (sqrt : ℚ → ℚ) (cfg : HotConfig n) (now : Instant) : HotTask n :=
  let maxPosUsd := match cfg.mode with
    | .live => 0
    | .dryRun => 10 ^ 12
  { book := .new
    calculator := .new sqrt { cfg.volObi with c1 := 0 } cfg.market.priceTick maxPosUsd
    om := .new n cfg.market.amountTick now
    loopStart := some now
    resetFlag := false
    maxPosUsd
    lastTracked := []
    lastQuote := none
    lastSeenPosition := none
    positionHoldUntil := none
    mid := 0
    awaitingResnapshot := false
    tickerBbo := none
    sanityStreak := 0 }

/-! ## The book -/

/-- The book can no longer be trusted: drop the pending batch and reconnect. -/
def requestResnapshot (t : HotTask n) : HotTask n × List (HotEffect n) :=
  ({ t with awaitingResnapshot := true, sanityStreak := 0 }, [.notifyReconnect, .sendOps []])

/-- The book's mid has been away from a fresh ticker's for several updates in a row. -/
def bookSanityDiverged (cfg : HotConfig n) (t : HotTask n) (now : Instant) (mid : ℚ) :
    HotTask n × Bool :=
  if cfg.bookSanityDivergenceBps ≤ 0 then (t, false)
  else
    match t.tickerBbo with
    | none => (t, false)
    | some (b, a, at') =>
      let tmid := (b + a) * (1 / 2)
      if sanityTickerFresh < now - at' ∨ tmid ≤ 0 then (t, false)
      else if cfg.bookSanityDivergenceBps < |mid - tmid| / tmid * 10000 then
        ({ t with sanityStreak := t.sanityStreak + 1 }, decide (sanityStreakTrip ≤ t.sanityStreak + 1))
      else ({ t with sanityStreak := 0 }, false)

/-- The WS reconnected since the last message: the book and the engine start over. -/
def takeReset (t : HotTask n) : HotTask n :=
  if t.resetFlag then
    { t with resetFlag := false, book := .new, calculator := t.calculator.reset, awaitingResnapshot := false,
             sanityStreak := 0 }
  else t

/-- The offset guard: a delta that is not newer than the last applied message. -/
def staleDelta (b : LocalBook) (msg : OrderBookMsg) : Bool :=
  match msg.effectiveOffset, b.lastOffset with
  | some off, some last => b.initialized && decide (off ≤ last)
  | _, _ => false

/-- The nonce check: a delta that does not begin where the last applied message ended. -/
def nonceGap (b : LocalBook) (msg : OrderBookMsg) : Bool :=
  match msg.effectiveBeginNonce, b.lastNonce with
  | some bn, some last => b.initialized && decide (bn ≠ last)
  | _, _ => false

/-- A message applied to the book, as a snapshot if it is one or is the first. -/
def applyMsg (b : LocalBook) (msg : OrderBookMsg) : LocalBook :=
  let bids := msg.orderBook.bids.map fun l => (l.price, l.size)
  let asks := msg.orderBook.asks.map fun l => (l.price, l.size)
  let b := if msg.isSnapshot || !b.initialized then b.applySnapshotScratch bids asks
    else b.applyDelta bids asks
  { b with lastOffset := msg.effectiveOffset.or b.lastOffset
           lastNonce := msg.effectiveNonce.or b.lastNonce }

/-- The sanity check and the engine's update, if the book has a mid; the flag says that `maybe_quote` is
called. -/
def updateSignal (sqrt : ℚ → ℚ) (cfg : HotConfig n) (t : HotTask n) (r : Reads n) :
    HotTask n × List (HotEffect n) × Bool :=
  match t.book.mid with
  | none => (t, [], false)
  | some mid =>
    let s := t.bookSanityDiverged cfg r.now mid
    if s.2 then
      let q := s.1.requestResnapshot
      (q.1, q.2, false)
    else
      let t := s.1
      ({ t with mid, calculator := t.calculator.onBookUpdate sqrt r.sampleNs mid t.book.bids t.book.asks },
        [.setMid mid], true)

/-- `on_orderbook` from the applied message on, up to `maybe_quote`. -/
def applied (sqrt : ℚ → ℚ) (cfg : HotConfig n) (t : HotTask n) (msg : OrderBookMsg) (r : Reads n) :
    HotTask n × List (HotEffect n) × Bool :=
  -- Only the first message of a connection resets the engine.
  let calculator := if t.book.initialized then t.calculator else t.calculator.reset
  let q := updateSignal sqrt cfg { t with book := applyMsg t.book msg, calculator } r
  (q.1, .setMdNow :: q.2.1, q.2.2)

/-- `on_orderbook` up to `maybe_quote`. -/
def receive (sqrt : ℚ → ℚ) (cfg : HotConfig n) (t : HotTask n) (msg : OrderBookMsg) (r : Reads n) :
    HotTask n × List (HotEffect n) × Bool :=
  let t := t.takeReset
  if msg.isSnapshot then applied sqrt cfg { t with awaitingResnapshot := false } msg r
  -- A diverged book ignores deltas.
  else if t.awaitingResnapshot then (t, [], false)
  else if staleDelta t.book msg then (t, [], false)
  else if nonceGap t.book msg then
    let q := t.requestResnapshot
    (q.1, q.2, false)
  else applied sqrt cfg t msg r

/-! ## Quoting -/

/-- The post-fill hold: a changed position holds Modify and Cancel ops for a while. -/
def holdQuotesForPositionReconcile (cfg : HotConfig n) (t : HotTask n) (position : ℚ) (now : Instant) :
    HotTask n × List (HotEffect n) × Bool :=
  if cfg.mode ≠ .live then (t, [], false)
  else
    let changed := match t.lastSeenPosition with
      | some prev => decide (epsilon ≤ |position - prev|)
      | none => false
    let holdUntil := if changed then some (now + cfg.positionHold) else t.positionHoldUntil
    let es := if changed then [HotEffect.notifyReconcile] else []
    let t := { t with lastSeenPosition := some position, positionHoldUntil := holdUntil }
    match holdUntil with
    | some til => if now < til then (t, es, true) else ({ t with positionHoldUntil := none }, es, false)
    | none => (t, es, false)

/-- The order manager after the queued events and the latest snapshot. -/
def drainedOm (t : HotTask n) (r : Reads n) : OrderManager n :=
  let om := t.om.drainEvents r.now r.events
  match r.snapshot with
  | some remote => om.processReconcile r.now remote
  | none => om

/-- Within `min_loop_interval` of the last quote. -/
def throttled (cfg : HotConfig n) (t : HotTask n) (now : Instant) : Bool :=
  match t.lastQuote with
  | some last => decide (now - last < cfg.minLoopInterval)
  | none => false

/-- Not ready for normal quoting: the engine or the wall clock is still warming up. -/
def notReady (cfg : HotConfig n) (t : HotTask n) (warmupClock : Instant) : Bool :=
  let inWallclockWarmup := cfg.mode == .live &&
    match t.loopStart with
    | some s => decide (warmupClock - s < cfg.warmupSeconds)
    | none => true
  !t.calculator.warmedUp || inWallclockWarmup

/-- The normal ladder. -/
def normalLevels (cfg : HotConfig n) (t : HotTask n) (position : ℚ) : List Level :=
  let tick := cfg.market.priceTick
  let levels := buildQuoteLevels (t.calculator.quote t.mid position) t.mid position t.maxPosUsd tick n
    cfg.factors cfg.fallbackBps
  let levels := applyQualitySpreadMultiplier levels t.mid 1 tick
  applyInventoryExitBias levels t.mid position t.maxPosUsd 0 cfg.adverseThresholdBps cfg.invBias tick

/-- The exit behind the gate: the reduce-only exit of an inventory or none while not ready, else the
normal ladder. -/
def quoteDecision (cfg : HotConfig n) (t : HotTask n) (r : Reads n) (position orderSize : ℚ)
    (holdMutations : Bool) : Decision n :=
  let args (size : ℚ) : CollectArgs :=
    { baseAmount := size, position, nowNs := r.nowNs, holdMutations
      effectiveThresholdBps := quotaAdaptiveThresholdBps cfg.defaultQuoteUpdateThresholdBps r.quota }
  if t.notReady cfg r.warmupClock then
    if epsilon ≤ |position| then
      .ladder (fallbackReduceOnly t.mid position cfg.market.priceTick cfg.fallbackBps n)
        (args (cfg.normalizeSize t.mid (min orderSize |position|)))
    else .flat
  else .ladder (t.normalLevels cfg position) (args orderSize)

/-- `maybe_quote` behind the gate: the hold, the size and the position limit, then the exit. -/
def openGate (cfg : HotConfig n) (t : HotTask n) (r : Reads n) :
    HotTask n × List (HotEffect n) × Decision n :=
  let position := cfg.quotePosition t.mid r.position
  let hold := t.holdQuotesForPositionReconcile cfg r.position r.now
  let orderSize := cfg.orderSize t.mid r.capital
  let maxPosUsd := if 0 < r.capital then dynamicMaxPosition t.mid r.capital cfg.leverage orderSize n
    else t.maxPosUsd
  let t := { hold.1 with maxPosUsd, calculator := t.calculator.setMaxPositionDollar maxPosUsd }
  (t, hold.2.1, t.quoteDecision cfg r position orderSize hold.2.2)

/-- The market-data half of `maybe_quote`: which exit it takes, and with what ladder. -/
def chooseExit (cfg : HotConfig n) (t : HotTask n) (r : Reads n) :
    HotTask n × List (HotEffect n) × Decision n :=
  let t := { t with om := t.drainedOm r }
  if t.throttled cfg r.now then (t, [], .throttled)
  else
    let t := { t with lastQuote := some r.now, calculator := t.calculator.setAlphaOverride r.usableAlpha }
    if cfg.gated r then (t, [], .gated) else t.openGate cfg r

/-- Publishes the tracked ids when they changed. -/
def publishTracked (t : HotTask n) : HotTask n × List (HotEffect n) :=
  if t.om.trackedIdsEqual t.lastTracked then (t, [])
  else ({ t with lastTracked := t.om.trackedClientIds }, [.storeTracked t.om.trackedClientIds])

/-- The event of the simulated sender in a dry run. -/
def simulatedEvent (op : BatchOp n) : OrderEvent n :=
  match op.action with
  | .cancel => .clearLive op.side op.level op.clientOrderId
  | _ => .bindLive op.side op.level op.clientOrderId (some (op.exchangeId.getD op.clientOrderId)) op.price
    op.size

def maybeQuote (cfg : HotConfig n) (t : HotTask n) (r : Reads n) : HotTask n × List (HotEffect n) :=
  let (t, es, d) := t.chooseExit cfg r
  let c := t.om.cycle r.now d
  let t := { t with om := c.1 }
  let send := (c.2.map HotEffect.sendOps).toList
  match d with
  | .ladder _ _ =>
    let (t, published) := t.publishTracked
    match cfg.mode with
    | .dryRun =>
      ({ t with om := t.om.drainEvents r.now ((c.2.getD []).map simulatedEvent) }, es ++ published)
    | .live => (t, es ++ published ++ send)
  | _ => (t, es ++ send)

/-! ## Messages -/

def onOrderbook (sqrt : ℚ → ℚ) (cfg : HotConfig n) (t : HotTask n) (msg : OrderBookMsg) (r : Reads n) :
    HotTask n × List (HotEffect n) :=
  let (t, es, quotes) := t.receive sqrt cfg msg r
  if quotes then
    let (t, es') := t.maybeQuote cfg r
    (t, es ++ es')
  else (t, es)

/-- A ticker message: the same market's BBO. -/
def onTicker (t : HotTask n) (bestBid bestAsk : Option ℚ) (now : Instant) : HotTask n :=
  match bestBid, bestAsk with
  | some b, some a => if 0 < b ∧ b < a then { t with tickerBbo := some (b, a, now) } else t
  | _, _ => t

/-- The callback of a disconnect. -/
def onDisconnect (t : HotTask n) : HotTask n := { t with resetFlag := true }

end HotTask

/-- What the market-data stream brings. -/
inductive HotInput (n : ℕ) where
  | orderBook (msg : OrderBookMsg) (r : Reads n)
  | ticker (bestBid bestAsk : Option ℚ) (now : Instant)
  | disconnect

/-- The task after one input. Every input is taken. -/
def HotTask.step {n : ℕ} (sqrt : ℚ → ℚ) (cfg : HotConfig n) (t : HotTask n) : HotInput n → Option (HotTask n)
  | .orderBook msg r => some (t.onOrderbook sqrt cfg msg r).1
  | .ticker bestBid bestAsk now => some (t.onTicker bestBid bestAsk now)
  | .disconnect => some t.onDisconnect

end LighterMM
