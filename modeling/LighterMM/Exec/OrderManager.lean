import LighterMM.Lighter.Messages

/-!
# Order lifecycle state machine and op collection (`exec/order_manager.rs`)

The hot task owns one `OrderManager`: a slot for each (side, level), the client to exchange id
map and the last client order id. `collectOrderOperations` compares the ladder with the slots;
`markPending`, `applyEvent` and `processReconcile` are the only writers of the slots.

The loops over all slots in `processReconcile` read and write one slot in each iteration, so
they are stated slot by slot (`mapSlots`).
-/

namespace LighterMM

/-- `MAX_CLIENT_ORDER_INDEX = 2^48 - 1`. -/
def maxClientOrderIndex : ℤ := 281474976710655

/-- `ID_MAP_CAP`. -/
def idMapCap : ℕ := 200

/-- `MISSING_RECONCILE_DEBOUNCE`: snapshots in a row that miss an order before its slot is
cleared. -/
def missingReconcileDebounce : ℕ := 2

/-- The grace of `process_reconcile`: a slot touched within 5 s is not cleared. -/
def reconcileGrace : ℚ := 5

structure OrderSlot where
  status : SideStatus
  orderId : Option ℤ
  price : Option ℚ
  size : Option ℚ
  updatedAt : Instant
  miss : ℕ
  deriving DecidableEq, Repr

def OrderSlot.idle (now : Instant) : OrderSlot := ⟨.idle, none, none, none, now, 0⟩

/-- The order manager of a market with `n` levels per side. `slots` holds the source's `bids` and
`asks`. -/
structure OrderManager (n : ℕ) where
  amountTick : ℚ
  slots : Side → Fin n → OrderSlot
  clientToExchange : AList fun _ : ℤ => ℤ
  lastClientOrderIndex : ℤ

/-- The arguments of `collect_order_operations` besides the ladder. -/
structure CollectArgs where
  baseAmount : ℚ
  position : ℚ
  effectiveThresholdBps : ℚ
  nowNs : ℤ
  holdMutations : Bool

/-- The (side, level) pairs in the order of `for lvl in 0..num_levels { for side in [Buy, Sell] }`. -/
def slotKeys (n : ℕ) : List (Side × Fin n) :=
  (List.finRange n).flatMap fun level => [(.buy, level), (.sell, level)]

/-- The ladder as the iterations of `collect_order_operations` see it. -/
def levelTargets (n : ℕ) (levels : List Level) : List (Side × Fin n × Option ℚ) :=
  (List.finRange n).flatMap fun level =>
    match levels[level.val]? with
    | some (buy, sell) => [(.buy, level, buy), (.sell, level, sell)]
    | none => []

/-- The Cancel op of a slot that holds order `cid`, with exchange id `eid`. -/
def BatchOp.cancelOp {n : ℕ} (side : Side) (level : Fin n) (cid eid : ℤ) : BatchOp n :=
  { side, level, action := .cancel, price := 0, size := 0, clientOrderId := cid,
    exchangeId := some eid, reduceOnly := false }

namespace OrderManager

variable {n : ℕ}

def new (n : ℕ) (amountTick : ℚ) (now : Instant) : OrderManager n where
  amountTick := amountTick
  slots := fun _ _ => .idle now
  clientToExchange := ∅
  lastClientOrderIndex := 0

def slot (om : OrderManager n) (side : Side) (level : Fin n) : OrderSlot := om.slots side level

/-- A write through `slot_mut`. -/
def setSlot (om : OrderManager n) (side : Side) (level : Fin n) (s : OrderSlot) : OrderManager n :=
  { om with slots := fun sd l => if sd = side ∧ l = level then s else om.slots sd l }

/-- A loop over all slots whose iterations each rewrite their own slot. -/
def mapSlots (om : OrderManager n) (f : Side → OrderSlot → OrderSlot) : OrderManager n :=
  { om with slots := fun side level => f side (om.slots side level) }

/-- Fresh client id from the wall clock: above the last one, never `0`. -/
def nextClientOrderIndex (om : OrderManager n) (nowNs : ℤ) : ℤ × OrderManager n :=
  let newId := nowNs % maxClientOrderIndex
  let newId :=
    if newId ≤ om.lastClientOrderIndex then
      (om.lastClientOrderIndex + 1) % (maxClientOrderIndex + 1)
    else newId
  -- `0` is the wildcard of `ClearLive`.
  let newId := if newId = 0 then 1 else newId
  (newId, { om with lastClientOrderIndex := newId })

def resolveExchangeId (om : OrderManager n) (clientId : ℤ) : Option ℤ :=
  om.clientToExchange.lookup clientId

def sizeChangeRequiresUpdate (om : OrderManager n) (existing : Option ℚ) (new : ℚ) : Bool :=
  match existing with
  | none => true
  | some e =>
    let tol := if 0 < om.amountTick then om.amountTick else epsilon
    decide (max tol epsilon ≤ |e - new|)

def isReducingSide (side : Side) (position : ℚ) : Bool :=
  (decide (epsilon < position) && side == .sell) || (decide (position < -epsilon) && side == .buy)

/-- One iteration of `collect_order_operations`: the op for one slot, if any. -/
def collectSlot (om : OrderManager n) (args : CollectArgs) (side : Side) (level : Fin n)
    (newPrice : Option ℚ) : OrderManager n × Option (BatchOp n) :=
  let newSize := args.baseAmount
  let reduceOnly := isReducingSide side args.position
  let slot := om.slot side level
  match newPrice with
  | none =>
    -- A suppressed price cancels a tracked order.
    if args.holdMutations then (om, none)
    else
      match slot.orderId with
      | none => (om, none)
      | some cid =>
        match om.resolveExchangeId cid with
        | none => (om, none)
        | some eid => (om, some (.cancelOp side level cid eid))
  | some newPrice =>
    if newSize ≤ 0 ∨ newPrice ≤ 0 then (om, none)
    else
      match slot.orderId with
      | some cid =>
        if args.holdMutations then (om, none)
        else
          match om.resolveExchangeId cid with
          | none => (om, none)
          | some eid =>
            let changeBps := priceChangeBps (slot.price.getD 0) newPrice
            let sizeChanged := om.sizeChangeRequiresUpdate slot.size newSize
            if slot.price.isNone ∨ args.effectiveThresholdBps < changeBps ∨ sizeChanged = true then
              (om, some { side, level, action := .modify, price := newPrice, size := newSize,
                          clientOrderId := cid, exchangeId := some eid, reduceOnly })
            else (om, none)
      | none =>
        let (newOrderId, om') := om.nextClientOrderIndex args.nowNs
        (om', some { side, level, action := .create, price := newPrice, size := newSize,
                     clientOrderId := newOrderId, exchangeId := none, reduceOnly })

/-- The loop of `collect_order_operations` over the remaining ladder entries. -/
def collectLoop (args : CollectArgs) :
    List (Side × Fin n × Option ℚ) → OrderManager n → OrderManager n × List (BatchOp n)
  | [], om => (om, [])
  | (side, level, newPrice) :: rest, om =>
    let r := om.collectSlot args side level newPrice
    let rs := collectLoop args rest r.1
    (rs.1, r.2.toList ++ rs.2)

/-- The ops that move the slots to the ladder. Only the client id counter changes. -/
def collectOrderOperations (om : OrderManager n) (levelPrices : List Level) (args : CollectArgs) :
    OrderManager n × List (BatchOp n) :=
  collectLoop args (levelTargets n levelPrices) om

/-! ## Slot mutation -/

def markStatus (om : OrderManager n) (now : Instant) (side : Side) (level : Fin n)
    (status : SideStatus) : OrderManager n :=
  om.setSlot side level { om.slot side level with status, updatedAt := now }

/-- Occupies a slot the moment an op is emitted, before it is signed or sent. -/
def markPending (om : OrderManager n) (now : Instant) (op : BatchOp n) : OrderManager n :=
  let s := om.slot op.side op.level
  let s := match op.action with
    | .create => { s with orderId := some op.clientOrderId, price := some op.price,
                          size := some op.size, status := .placing }
    | .modify => { s with price := some op.price, size := some op.size, status := .modifying }
    | .cancel => { s with status := .canceling }
  om.setSlot op.side op.level { s with updatedAt := now, miss := 0 }

/-- `for op in &ops { om.mark_pending(op) }`. -/
def markAll (om : OrderManager n) (now : Instant) (ops : List (BatchOp n)) : OrderManager n :=
  ops.foldl (fun om op => om.markPending now op) om

def boundSlot (now : Instant) (orderId : ℤ) (price size : ℚ) : OrderSlot :=
  { status := .live, orderId := some orderId, price := some price, size := some size,
    updatedAt := now, miss := 0 }

def bindLive (om : OrderManager n) (now : Instant) (side : Side) (level : Fin n) (orderId : ℤ)
    (price size : ℚ) : OrderManager n :=
  om.setSlot side level (boundSlot now orderId price size)

def clearLive (om : OrderManager n) (now : Instant) (side : Side) (level : Fin n) : OrderManager n :=
  om.setSlot side level (.idle now)

def clearAll (om : OrderManager n) (now : Instant) : OrderManager n :=
  om.mapSlots fun _ _ => .idle now

/-- The client ids tracked by the slots: the bids, then the asks. -/
def trackedClientIds (om : OrderManager n) : List ℤ :=
  ((List.finRange n).filterMap fun level => (om.slots .buy level).orderId) ++
    (List.finRange n).filterMap fun level => (om.slots .sell level).orderId

/-- The scan of `tracked_ids_equal`: the ids of the remaining slots against the rest of `prev`. -/
def idsEqualFrom : List OrderSlot → List ℤ → Bool
  | [], prev => prev.isEmpty
  | s :: rest, prev =>
    match s.orderId with
    | none => idsEqualFrom rest prev
    | some id =>
      match prev with
      | [] => false
      | p :: prev => if p = id then idsEqualFrom rest prev else false

def trackedIdsEqual (om : OrderManager n) (prev : List ℤ) : Bool :=
  idsEqualFrom ((List.finRange n).map (om.slots .buy) ++ (List.finRange n).map (om.slots .sell)) prev

/-- Inserts a mapping. Past the cap, the mappings of tracked ids are kept, topped up with the 100
largest other ids. -/
def recordIdMapping (om : OrderManager n) (clientId exchangeId : ℤ) : OrderManager n :=
  let m := om.clientToExchange.insert clientId exchangeId
  if idMapCap < m.entries.length then
    let live := om.trackedClientIds
    let kept := (m.entries.filter fun e => e.1 ∈ live).foldl (fun k e => k.insert e.1 e.2) ∅
    let others := (m.entries.filter fun e => e.1 ∉ live).insertionSort fun a b => a.1 ≤ b.1
    { om with
      clientToExchange := (others.reverse.take 100).foldl (fun k e => k.insert e.1 e.2) kept }
  else { om with clientToExchange := m }

/-- The slots that `apply_fill` visits before it returns: the first one that holds the id. -/
def findSlot (om : OrderManager n) (clientOrderId : ℤ) : Option (Side × Fin n) :=
  (slotKeys n).find? fun k => (om.slots k.1 k.2).orderId = some clientOrderId

/-- What a fill leaves of a tracked slot: a smaller size above the tolerance, else an idle slot. -/
def filledSlot (amountTick : ℚ) (now : Instant) (filledSize : ℚ) (s : OrderSlot) : OrderSlot :=
  match s.size.map (· - filledSize) with
  | some r =>
    if max amountTick epsilon < r then { s with size := some r, updatedAt := now, miss := 0 }
    else .idle now
  | none => .idle now

/-- Own fill observed on the account stream. -/
def applyFill (om : OrderManager n) (now : Instant) (clientOrderId : ℤ) (filledSize : ℚ) :
    OrderManager n :=
  match om.findSlot clientOrderId with
  | none => om
  | some (side, level) =>
    om.setSlot side level (filledSlot om.amountTick now filledSize (om.slot side level))

/-- Drains one hot order event. -/
def applyEvent (om : OrderManager n) (now : Instant) : OrderEvent n → OrderManager n
  | .bindLive side level clientOrderId exchangeId price size =>
    let om := match exchangeId with
      | some eid => om.recordIdMapping clientOrderId eid
      | none => om
    om.bindLive now side level clientOrderId price size
  | .clearLive side level clientOrderId =>
    if clientOrderId = 0 ∨ (om.slot side level).orderId = some clientOrderId then
      om.clearLive now side level
    else om
  | .clearAll => om.clearAll now
  | .idResolved clientOrderId exchangeId => om.recordIdMapping clientOrderId exchangeId
  | .fill clientOrderId filledSize => om.applyFill now clientOrderId filledSize

/-- `while let Ok(evt) = evt_rx.try_recv() { om.apply_event(evt) }`. -/
def drainEvents (om : OrderManager n) (now : Instant) (evts : List (OrderEvent n)) : OrderManager n :=
  evts.foldl (fun om evt => om.applyEvent now evt) om

def updateIdMappingFromOrders (om : OrderManager n) (remote : List RemoteOrder) : OrderManager n :=
  remote.foldl (fun om o =>
    match o.clientOrderIndex, o.orderIndex with
    | some c, some e => om.recordIdMapping c e
    | _, _ => om) om

/-- The ids of the live rows of a snapshot. -/
def liveIds (remote : List RemoteOrder) : List ℤ :=
  (remote.filter (·.isLive)).filterMap (·.clientOrderIndex)

/-- A slot whose order a snapshot does not show is cleared at the second such snapshot in a row,
unless it was touched within the grace. -/
def clearsMissing (live : List ℤ) (now : Instant) (s : OrderSlot) : Bool :=
  match s.orderId with
  | none => false
  | some id =>
    decide (id ∉ live ∧ missingReconcileDebounce ≤ s.miss + 1 ∧ reconcileGrace ≤ now - s.updatedAt)

/-- The first loop of `process_reconcile`, on one slot. -/
def missSlot (live : List ℤ) (now : Instant) (s : OrderSlot) : OrderSlot :=
  match s.orderId with
  | none => s
  | some id =>
    if id ∈ live then { s with miss := 0 }
    else if clearsMissing live now s then .idle now
    else { s with miss := s.miss + 1 }

/-- The row that `by_client` holds for an id: the last one with it. -/
def rowOf (remote : List RemoteOrder) (cid : ℤ) : Option RemoteOrder :=
  (remote.filter fun o => o.clientOrderIndex = some cid).getLast?

/-- A row on the other side than the slot. -/
def sideMismatch (side : Side) (o : RemoteOrder) : Bool := o.isAsk == some (!side.isAsk)

/-- The second loop of `process_reconcile`, on one slot: price and size from the snapshot. -/
def refreshSlot (remote : List RemoteOrder) (now : Instant) (side : Side) (s : OrderSlot) : OrderSlot :=
  match s.orderId with
  | none => s
  | some cid =>
    match rowOf remote cid with
    | none => s
    | some o =>
      if sideMismatch side o then s
      else
        match (o.price.map parseF64).or s.price, (o.remainingBaseAmount.map parseF64).or s.size with
        | some p, some sz => boundSlot now cid p sz
        | _, _ => { s with status := .live, updatedAt := now }

/-- Applies a full active-order snapshot. -/
def processReconcile (om : OrderManager n) (now : Instant) (remote : List RemoteOrder) :
    OrderManager n :=
  ((om.updateIdMappingFromOrders remote).mapSlots fun _ => missSlot (liveIds remote) now).mapSlots
    (refreshSlot remote now)

/-- Cancel ops for every tracked slot with a resolved exchange id that is not already
Canceling. -/
def collectCancelOps (om : OrderManager n) : List (BatchOp n) :=
  (slotKeys n).filterMap fun (side, level) =>
    let s := om.slot side level
    if s.status = .canceling then none
    else
      match s.orderId with
      | none => none
      | some cid =>
        match om.resolveExchangeId cid with
        | none => none
        | some eid => some (.cancelOp side level cid eid)

end OrderManager

end LighterMM
