import LighterMM.Account.FillAccounting
import LighterMM.Lib.FifoSet
import LighterMM.Lighter.Messages

/-!
# The PnL actor (`account/pnl_actor.rs`) and its durable state (`account/persistence.rs`)

The actor takes the client ids that the sender registers and the trades and positions of the account
stream. A trade is booked once: at once if it can be attributed, else it waits in the pending queue for
the registration of its client id (`processOrQueue`, `retryPending`). A position snapshot re-seeds the
accounting, and a trade that was queued before is then booked without its position (`book`).

What an event does is told as a list of `PnlNote`s, in order. Its log lines, the summary files and the
mid that they are marked at are left out.
-/

namespace LighterMM

/-- `PENDING_LIMIT`. -/
def pendingLimit : ℕ := 2000

/-- `ID_SET_CAP`. -/
def idSetCap : ℕ := 10000

/-- A trade of the account stream with all that the PnL actor reads of it. -/
structure PnlTrade extends TradePayload where
  price : Option NumText
  usdAmount : Option NumText
  askId : Option ℤ
  bidId : Option ℤ
  askAccountPnl : Option NumText
  bidAccountPnl : Option NumText
  deriving DecidableEq, Repr

structure PositionSnapshot where
  signedPosition : ℚ
  entryVwap : Option ℚ
  deriving DecidableEq, Repr

inductive PnlEvent where
  | registerClientIds (ids : List ℤ)
  | accountAll (position : Option PositionSnapshot) (trades : List PnlTrade)
  | capital (availableCapital portfolioValue : Option ℚ)
  | shutdown
  deriving DecidableEq, Repr

/-- Our side of a trade. -/
structure FillView where
  side : Side
  price : ℚ
  size : ℚ
  notionalUsd : ℚ
  clientOrderId : Option ℤ
  exchangeOrderId : Option ℤ
  exchangePnl : Option ℚ
  deriving DecidableEq, Repr

namespace FillView

def fromTrade (trade : PnlTrade) (accountIndex : ℤ) : Option FillView :=
  match trade.price.join, trade.size.join with
  | some price, some size =>
    let notionalUsd := trade.usdAmount.join.getD (price * size)
    if trade.askAccountId = some accountIndex then
      some ⟨.sell, price, size, notionalUsd, trade.askClientId, trade.askId, trade.askAccountPnl.join⟩
    else if trade.bidAccountId = some accountIndex then
      some ⟨.buy, price, size, notionalUsd, trade.bidClientId, trade.bidId, trade.bidAccountPnl.join⟩
    else none
  | _, _ => none

def signed (fill : FillView) : ℚ := fill.side.signed fill.size

end FillView

/-- Why a trade is not booked. -/
inductive SkipReason where
  | missingTradeId
  | accountNotInTrade
  | invalidPriceOrSize
  | pendingLimit
  deriving DecidableEq, Repr

/-- What is logged of a booked trade. `forgotten`: the ids that its own id pushed out of the set of
seen trades. -/
structure Booking where
  trade : PnlTrade
  tradeId : ℤ
  fill : FillView
  isKnownStrategy : Bool
  attributed : Bool
  superseded : Bool
  realizedDelta : ℚ
  feeUsd : ℚ
  positionAfter : ℚ
  entryVwapAfter : ℚ
  realizedCumulative : ℚ
  forgotten : List ℤ
  deriving DecidableEq, Repr

/-- `fill_source` of the trade log. -/
def Booking.fillSource (b : Booking) : String :=
  match b.isKnownStrategy, b.superseded with
  | true, false => "account_all"
  | true, true => "account_all_late_attributed"
  | false, _ => "account_all_unattributed"

inductive PnlNote where
  /-- Booked on delivery. -/
  | booked (b : Booking)
  /-- Booked out of the pending queue. -/
  | replayed (b : Booking)
  | queued (trade : PnlTrade)
  | skipped (tradeId : Option ℤ) (reason : SkipReason)
  /-- The accounting starts over from a snapshot. -/
  | reseeded (position : ℚ)
  | forgotClientIds (ids : List ℤ)
  deriving DecidableEq, Repr

inductive TradeDecision where
  | accepted
  | pendingClientId (clientId : ℤ)
  | skipped (reason : SkipReason)
  deriving DecidableEq, Repr

/-- `PnlCfg`, with the other arguments of `PnlActor::new`. -/
structure PnlCfg where
  includeUnattributedAccountFills : Bool
  symbol : String
  marketId : ℕ
  accountIndex : ℤ
  makerFeeRate : ℚ
  deriving DecidableEq, Repr

/-- Durable snapshot of the accounting. -/
structure LiveState where
  accountIndex : ℤ
  marketId : ℕ
  positionSizeEst : ℚ
  entryVwap : ℚ
  realizedPnlCumulative : ℚ
  fillCount : ℕ
  volumeUsd : ℚ
  exchangePositionSize : ℚ
  exchangeEntryVwap : Option ℚ
  portfolioValue : ℚ
  availableCapital : ℚ
  symbol : String
  updatedAt : String
  deriving DecidableEq, Repr

namespace LiveState

/-- `LiveState::default()`, which is also what a missing or corrupt file loads as. -/
def default : LiveState := ⟨0, 0, 0, 0, 0, 0, 0, 0, none, 0, 0, "", ""⟩

/-- The payload of `LiveStateStore::save`. -/
def stamped (s : LiveState) (symbol utcNow : String) : LiveState :=
  { s with symbol, updatedAt := utcNow }

end LiveState

/-- `strategyClientIds` and `seenTradeIds` are each a set and its queue. -/
structure PnlActor where
  cfg : PnlCfg
  accounting : FillAccounting
  strategyClientIds : FifoSet ℤ
  seenTradeIds : FifoSet ℤ
  pendingTradeIds : Finset ℤ
  pending : List (PnlTrade × ℕ)
  syncGeneration : ℕ
  strategyRealizedPnlUsdc : ℚ
  unattributedRealizedPnlUsdc : ℚ
  fillCount : ℕ
  buyCount : ℕ
  sellCount : ℕ
  notionalUsdc : ℚ
  duplicateFillCount : ℕ
  unattributedFillCount : ℕ
  exchangePositionSeen : Bool
  exchangePosition : ℚ
  exchangeEntryVwap : Option ℚ
  availableCapital : Option ℚ
  portfolioValue : Option ℚ
  deriving DecidableEq

namespace PnlActor

/-- A fresh actor; the durable totals are restored if the state belongs to this account and market. -/
def new (cfg : PnlCfg) (restored : LiveState) : PnlActor :=
  let restore := restored.accountIndex = cfg.accountIndex ∧ restored.marketId = cfg.marketId ∧
    restored.updatedAt ≠ ""
  { cfg
    accounting :=
      if restore then
        .fromSnapshot cfg.makerFeeRate restored.positionSizeEst restored.entryVwap
          restored.realizedPnlCumulative
      else .new cfg.makerFeeRate
    strategyClientIds := .empty
    seenTradeIds := .empty
    pendingTradeIds := ∅
    pending := []
    syncGeneration := 0
    strategyRealizedPnlUsdc := if restore then restored.realizedPnlCumulative else 0
    unattributedRealizedPnlUsdc := 0
    fillCount := if restore then restored.fillCount else 0
    buyCount := 0
    sellCount := 0
    notionalUsdc := if restore then restored.volumeUsd else 0
    duplicateFillCount := 0
    unattributedFillCount := 0
    exchangePositionSeen := false
    exchangePosition := 0
    exchangeEntryVwap := none
    availableCapital := none
    portfolioValue := none }

/-! ## Trades -/

def isKnownStrategy (a : PnlActor) (fill : FillView) : Bool :=
  match fill.clientOrderId with
  | some c => decide (c ∈ a.strategyClientIds.members)
  | none => false

def attributeToStrategy (a : PnlActor) (fill : FillView) : Bool :=
  a.isKnownStrategy fill || a.cfg.includeUnattributedAccountFills

/-- The client id whose registration a trade waits for. A trade without a client id waits for none:
it is booked as unattributed. -/
def awaited (a : PnlActor) (fill : FillView) : Option ℤ :=
  if a.attributeToStrategy fill then none else fill.clientOrderId

/-- `mark_seen`; also returns the ids that fell out. -/
def markSeen (a : PnlActor) (tradeId : ℤ) : PnlActor × List ℤ :=
  let r := a.seenTradeIds.insert idSetCap tradeId
  ({ a with seenTradeIds := r.1 }, r.2)

/-- The part of `try_accept_trade` that books. A superseded trade is already in the snapshot: only its
PnL is attributed. -/
def book (a : PnlActor) (trade : PnlTrade) (tradeId : ℤ) (fill : FillView) (superseded : Bool) :
    PnlActor × Booking :=
  let r := a.accounting.apply fill.side fill.price fill.size
  let localDelta := if superseded then fill.exchangePnl.getD 0 else r.2.realizedDelta
  let feeUsd := if superseded then 0 else r.2.feeUsd
  let realizedDelta := fill.exchangePnl.getD localDelta
  let attributed := a.attributeToStrategy fill
  let seen := a.markSeen tradeId
  let a' : PnlActor :=
    { seen.1 with
      accounting := if superseded then a.accounting else r.1
      strategyRealizedPnlUsdc := a.strategyRealizedPnlUsdc + if attributed then realizedDelta else 0
      unattributedRealizedPnlUsdc :=
        a.unattributedRealizedPnlUsdc + if attributed then 0 else realizedDelta
      unattributedFillCount := a.unattributedFillCount + if attributed then 0 else 1
      fillCount := a.fillCount + 1
      buyCount := a.buyCount + if fill.side = .buy then 1 else 0
      sellCount := a.sellCount + if fill.side = .sell then 1 else 0
      notionalUsdc := a.notionalUsdc + fill.notionalUsd }
  (a', { trade, tradeId, fill, attributed, superseded, realizedDelta, feeUsd
         isKnownStrategy := a.isKnownStrategy fill
         positionAfter := a'.accounting.positionSize
         entryVwapAfter := a'.accounting.entryVwap
         realizedCumulative := a'.strategyRealizedPnlUsdc
         forgotten := seen.2 })

/-- `try_accept_trade`, with the row it logs if it books the trade. -/
def tryAcceptTrade (a : PnlActor) (trade : PnlTrade) (queuedGeneration : ℕ) :
    PnlActor × TradeDecision × Option Booking :=
  match trade.tradeId with
  | none => (a, .skipped .missingTradeId, none)
  | some tradeId =>
    if tradeId ∈ a.seenTradeIds.members then
      ({ a with duplicateFillCount := a.duplicateFillCount + 1 }, .accepted, none)
    else
      match FillView.fromTrade trade a.cfg.accountIndex with
      | none => (a, .skipped .accountNotInTrade, none)
      | some fill =>
        if fill.price ≤ 0 ∨ fill.size ≤ 0 then (a, .skipped .invalidPriceOrSize, none)
        else
          match a.awaited fill with
          | some cid => (a, .pendingClientId cid, none)
          | none =>
            let r := a.book trade tradeId fill (decide (queuedGeneration < a.syncGeneration))
            (r.1, .accepted, some r.2)

/-- `self.unattributed_fill_count += 1` and the warning of a trade that is not booked. -/
def skip (a : PnlActor) (tradeId : Option ℤ) (reason : SkipReason) : PnlActor × List PnlNote :=
  ({ a with unattributedFillCount := a.unattributedFillCount + 1 }, [.skipped tradeId reason])

/-- Removes the id of a trade that leaves the queue. -/
def unpend (a : PnlActor) (trade : PnlTrade) : PnlActor :=
  match trade.tradeId with
  | some id => { a with pendingTradeIds := a.pendingTradeIds.erase id }
  | none => a

/-- Pops the front of the queue until it is within the limit. -/
def evictPending : List (PnlTrade × ℕ) → PnlActor → PnlActor × List PnlNote
  | [], a => ({ a with pending := [] }, [])
  | q :: rest, a =>
    if pendingLimit < (q :: rest).length then
      let s := (a.unpend q.1).skip q.1.tradeId .pendingLimit
      let r := evictPending rest s.1
      (r.1, s.2 ++ r.2)
    else ({ a with pending := q :: rest }, [])

def processOrQueue (a : PnlActor) (trade : PnlTrade) : PnlActor × List PnlNote :=
  match trade.tradeId with
  | none => a.skip none .missingTradeId
  | some tradeId =>
    if tradeId ∈ a.seenTradeIds.members then
      ({ a with duplicateFillCount := a.duplicateFillCount + 1 }, [])
    else if tradeId ∈ a.pendingTradeIds then (a, [])
    else
      let generation := a.syncGeneration
      let r := a.tryAcceptTrade trade generation
      match r.2.1 with
      | .accepted => (r.1, (r.2.2.map .booked).toList)
      | .pendingClientId _ =>
        let a := { r.1 with pendingTradeIds := insert tradeId r.1.pendingTradeIds }
        let e := evictPending (a.pending ++ [(trade, generation)]) a
        (e.1, .queued trade :: e.2)
      | .skipped reason => r.1.skip (some tradeId) reason

/-- `for trade in trades { self.process_or_queue(trade) }`. -/
def processAll : List PnlTrade → PnlActor → PnlActor × List PnlNote
  | [], a => (a, [])
  | t :: ts, a =>
    let r := a.processOrQueue t
    let rs := processAll ts r.1
    (rs.1, r.2 ++ rs.2)

/-- The loop of `retry_pending` over the queue; also returns the trades that are still pending. -/
def retryLoop : List (PnlTrade × ℕ) → PnlActor → PnlActor × List PnlNote × List (PnlTrade × ℕ)
  | [], a => (a, [], [])
  | q :: rest, a =>
    let r := (a.unpend q.1).tryAcceptTrade q.1 q.2
    match r.2.1 with
    | .accepted =>
      let rs := retryLoop rest r.1
      (rs.1, (r.2.2.map .replayed).toList ++ rs.2.1, rs.2.2)
    | .pendingClientId _ =>
      let a := match q.1.tradeId with
        | some id => { r.1 with pendingTradeIds := insert id r.1.pendingTradeIds }
        | none => r.1
      let rs := retryLoop rest a
      (rs.1, rs.2.1, q :: rs.2.2)
    | .skipped reason =>
      let s := r.1.skip q.1.tradeId reason
      let rs := retryLoop rest s.1
      (rs.1, s.2 ++ rs.2.1, rs.2.2)

def retryPending (a : PnlActor) : PnlActor × List PnlNote :=
  let r := retryLoop a.pending a
  ({ r.1 with pending := r.2.2 }, r.2.1)

/-! ## Events -/

/-- Whether a snapshot re-seeds the accounting: it is flat or knows its VWAP. -/
def PositionSnapshot.reseeds (p : PositionSnapshot) : Bool :=
  decide (|p.signedPosition| < epsilon) || p.entryVwap.isSome

def updatePosition (a : PnlActor) (p : PositionSnapshot) : PnlActor × List PnlNote :=
  let a : PnlActor :=
    { a with exchangePositionSeen := true, exchangePosition := p.signedPosition,
             exchangeEntryVwap := p.entryVwap }
  if PositionSnapshot.reseeds p then
    ({ a with
        accounting := .fromSnapshot a.cfg.makerFeeRate p.signedPosition (p.entryVwap.getD 0)
          a.strategyRealizedPnlUsdc
        syncGeneration := a.syncGeneration + 1 }, [.reseeded p.signedPosition])
  else (a, [])

/-- One id of `RegisterClientIds`. -/
def registerClientId (a : PnlActor) (id : ℤ) : PnlActor × List PnlNote :=
  if 0 < id then
    let r := a.strategyClientIds.insert idSetCap id
    ({ a with strategyClientIds := r.1 }, if r.2 = [] then [] else [.forgotClientIds r.2])
  else (a, [])

def registerAll : List ℤ → PnlActor → PnlActor × List PnlNote
  | [], a => (a, [])
  | id :: ids, a =>
    let r := a.registerClientId id
    let rs := registerAll ids r.1
    (rs.1, r.2 ++ rs.2)

def handleEvent (a : PnlActor) : PnlEvent → PnlActor × List PnlNote
  | .registerClientIds ids =>
    let r := registerAll ids a
    let s := r.1.retryPending
    (s.1, r.2 ++ s.2)
  | .accountAll position trades =>
    let r := processAll trades a
    let s := r.1.retryPending
    match position with
    | some p =>
      let u := s.1.updatePosition p
      (u.1, r.2 ++ s.2 ++ u.2)
    | none => (s.1, r.2 ++ s.2)
  | .capital availableCapital portfolioValue =>
    ({ a with
        availableCapital := availableCapital.or a.availableCapital
        portfolioValue := portfolioValue.or a.portfolioValue }, [])
  | .shutdown => (a, [])

/-- The actor after a sequence of events, and what they did. -/
def handleAll : List PnlEvent → PnlActor → PnlActor × List PnlNote
  | [], a => (a, [])
  | e :: es, a =>
    let r := a.handleEvent e
    let rs := handleAll es r.1
    (rs.1, r.2 ++ rs.2)

/-- `live_state`. -/
def liveState (a : PnlActor) : LiveState where
  accountIndex := a.cfg.accountIndex
  marketId := a.cfg.marketId
  positionSizeEst := a.accounting.positionSize
  entryVwap := a.accounting.entryVwap
  realizedPnlCumulative := a.strategyRealizedPnlUsdc
  fillCount := a.fillCount
  volumeUsd := a.notionalUsdc
  exchangePositionSize := a.exchangePosition
  exchangeEntryVwap := a.exchangeEntryVwap
  portfolioValue := a.portfolioValue.getD 0
  availableCapital := a.availableCapital.getD 0
  symbol := ""
  updatedAt := ""

/-- What `flush_all` leaves in the live-state file. -/
def flushAll (a : PnlActor) (utcNow : String) : LiveState :=
  a.liveState.stamped a.cfg.symbol utcNow

/-! ## The setup of the source's tests -/

/-- `cfg`: account 7 without fees. -/
def testCfg : PnlCfg := ⟨false, "BTC", 1, 7, 0⟩

/-- `trade`: a trade of account 7 with the given client id on its side. -/
def testTrade (id clientId : ℤ) (side : Side) (price size : ℚ) (pnl : Option ℚ) : PnlTrade :=
  match side with
  | .buy =>
    { tradeId := some id, price := some (some price), size := some (some size), usdAmount := none
      askAccountId := none, askClientId := none, askId := none, askAccountPnl := none
      bidAccountId := some 7, bidClientId := some clientId, bidId := some 99
      bidAccountPnl := pnl.map some }
  | .sell =>
    { tradeId := some id, price := some (some price), size := some (some size), usdAmount := none
      askAccountId := some 7, askClientId := some clientId, askId := some 100
      askAccountPnl := pnl.map some
      bidAccountId := none, bidClientId := none, bidId := none, bidAccountPnl := none }

end PnlActor

end LighterMM
