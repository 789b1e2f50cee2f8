import LighterMM.Lighter.Messages

/-!
# The exchange as the bot sees it

The exchange executes an accepted batch op by op, in order, and consumes one nonce for each op.
`created` lists every order it has ever accepted, so that a statement about a whole run can name
the order of a client id; `live` lists the resting ones.
-/

namespace LighterMM

/-- A resting order, with the (side, level) its Create was for. -/
structure VenueOrder (n : ℕ) where
  clientOrderIndex : ℤ
  orderIndex : ℤ
  side : Side
  level : Fin n
  price : ℚ
  size : ℚ
  deriving DecidableEq, Repr

/-- The row of an active-order snapshot. -/
def VenueOrder.row {n : ℕ} (o : VenueOrder n) : RemoteOrder where
  clientOrderIndex := some o.clientOrderIndex
  orderIndex := some o.orderIndex
  isAsk := some o.side.isAsk
  price := some (some o.price)
  remainingBaseAmount := some (some o.size)
  status := some "open"

structure Venue (n : ℕ) where
  nextNonce : ℤ
  live : List (VenueOrder n)
  created : List (VenueOrder n)
  deriving DecidableEq, Repr

namespace Venue

variable {n : ℕ}

/-- The account before the bot's first transaction, with its next nonce. -/
def init (n : ℕ) (nextNonce : ℤ) : Venue n := ⟨nextNonce, [], []⟩

/-- The order a Create makes; order indices count up. -/
def orderOf (v : Venue n) (op : BatchOp n) : VenueOrder n :=
  ⟨op.clientOrderId, v.created.length + 1, op.side, op.level, op.price, op.size⟩

def execOp (v : Venue n) (op : BatchOp n) : Venue n :=
  match op.action with
  | .create => { v with live := v.live ++ [v.orderOf op], created := v.created ++ [v.orderOf op] }
  | .modify =>
    { v with live := v.live.map fun o =>
        if some o.orderIndex = op.exchangeId then { o with price := op.price, size := op.size } else o }
  | .cancel => { v with live := v.live.filter fun o => some o.orderIndex ≠ op.exchangeId }

/-- An accepted batch: every op in order, one nonce each. -/
def execBatch (v : Venue n) (ops : List (BatchOp n)) : Venue n :=
  { ops.foldl execOp v with nextNonce := v.nextNonce + ops.length }

/-- An accepted cancel-all. -/
def cancelAll (v : Venue n) : Venue n := { v with live := [], nextNonce := v.nextNonce + 1 }

/-- An accepted cancel of one order. -/
def cancelOne (v : Venue n) (orderIndex : ℤ) : Venue n :=
  { v with live := v.live.filter (·.orderIndex ≠ orderIndex), nextNonce := v.nextNonce + 1 }

/-- An order leaves the book without the bot: filled, expired, or refused by the matching engine. -/
def drop (v : Venue n) (orderIndex : ℤ) : Venue n :=
  { v with live := v.live.filter (·.orderIndex ≠ orderIndex) }

/-- An accurate active-order snapshot. -/
def rows (v : Venue n) : List RemoteOrder := v.live.map VenueOrder.row

/-- The exchange ids of the orders ever accepted, by client id. -/
def Pairs (v : Venue n) (cid eid : ℤ) : Prop :=
  ∃ o ∈ v.created, o.clientOrderIndex = cid ∧ o.orderIndex = eid

end Venue

end LighterMM
