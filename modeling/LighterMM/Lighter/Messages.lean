import LighterMM.Types

/-!
# Payloads of the exchange (`lighter/messages.rs`)

A number that arrives as text is its value under the text parser, `none` if it does not parse
(`NumText`).
-/

namespace LighterMM

/-- A number as text: its parsed value, `none` for a text that is not a number. -/
abbrev NumText := Option ℚ

/-- `parse_f64`: a text that is not a number counts as `0`. -/
def parseF64 (s : NumText) : ℚ := s.getD 0

/-- A live order as the exchange reports it (REST, or the account_orders stream). -/
structure RemoteOrder where
  clientOrderIndex : Option ℤ
  orderIndex : Option ℤ
  isAsk : Option Bool
  price : Option NumText
  remainingBaseAmount : Option NumText
  status : Option String
  deriving DecidableEq, Repr

/-- Still resting: no status, or one of the four live ones. -/
def RemoteOrder.isLive (o : RemoteOrder) : Bool :=
  match o.status with
  | none => true
  | some s => s == "open" || s == "partial_filled" || s == "pending" || s == "in-progress"

/-- One order book level, parsed at deserialize time. -/
structure PriceLevel where
  price : ℚ
  size : ℚ
  deriving DecidableEq, Repr

structure OrderBookPayload where
  bids : List PriceLevel
  asks : List PriceLevel
  offset : Option ℕ
  nonce : Option ℤ
  beginNonce : Option ℤ

/-- The `order_book/{m}` envelope. `subscribed` tells whether the text of its `type` contains
"subscribed", which is all that is read of it. -/
structure OrderBookMsg where
  subscribed : Bool
  offset : Option ℕ
  nonce : Option ℤ
  beginNonce : Option ℤ
  orderBook : OrderBookPayload

namespace OrderBookMsg

def isSnapshot (m : OrderBookMsg) : Bool := m.subscribed

/-- The envelope's offset, else the payload's. -/
def effectiveOffset (m : OrderBookMsg) : Option ℕ := m.offset.or m.orderBook.offset

def effectiveNonce (m : OrderBookMsg) : Option ℤ := m.nonce.or m.orderBook.nonce

def effectiveBeginNonce (m : OrderBookMsg) : Option ℤ := m.beginNonce.or m.orderBook.beginNonce

end OrderBookMsg

/-- The part of a trade on the account stream that the own-fill handler reads. -/
structure TradePayload where
  size : Option NumText
  askClientId : Option ℤ
  bidClientId : Option ℤ
  askAccountId : Option ℤ
  bidAccountId : Option ℤ
  tradeId : Option ℤ
  deriving DecidableEq, Repr

/-- The parsed size; a missing text and one that is not a number are both `none`. -/
def TradePayload.sizeF64 (t : TradePayload) : Option ℚ := t.size.join

end LighterMM
