import LighterMM.Exec.PacedSend
import LighterMM.Hot.Cycle
import LighterMM.Lib.Trans

/-!
# The live system: hot task, paced sender, reconcile poller, shutdown, exchange

`World.step` is one atomic step of one party; between two steps any other party may run, so each
await of the source is a place between two steps. The parties share the mailbox, the event queue,
the reconcile snapshot, the published tracked ids, the flags and the desk (`sdk_lock`).

* **Hot task** (`HotAct`): `maybe_quote` drains the events one by one, applies the snapshot, quotes
  (`Decision`: whatever the market data say) and sends the batch into the mailbox.
* **Sender** (`SenderAct`): `run` and `send_once`, piece by piece; how long the rate gate and the lock
  take is left open. Once a frame is written, the exchange decides about it before the sender
  gets an answer or gives up.
* **Poller** (`PollerAct`): the dead-man switch, an accurate snapshot that is some time in transit,
  the caps, the nonce re-sync and the orphan cancels. What it does under the lock is one step,
  taken when the lock is free.
* **Shutdown** (`ShutdownAct`): halt, lock, abort, verified cancel-all, exit.
* **Environment** (`EnvAct`): time, messages of the account streams, orders that leave the book.
-/

namespace LighterMM

/-- The configuration that the parties read. -/
structure Params where
  market : MarketConfig
  accountIndex : ℤ
  apiKeyIndex : ℤ
  nextNonce : ℤ
  maxConsecutiveOrderRejections : ℕ
  circuitBreakerCooldownSec : ℚ
  staleOrderDebounceCount : ℕ
  maxLiveOrdersPerMarket : ℕ
  mdDeadmanSec : ℚ

namespace Params

/-- The values of `config.json`, on a market with tick `1/10`. -/
def shipped : Params where
  market := ⟨1, 1 / 10, 1 / 100000, 1 / 5000, 10⟩
  accountIndex := 7
  apiKeyIndex := 2
  nextNonce := 100
  maxConsecutiveOrderRejections := 5
  circuitBreakerCooldownSec := 60
  staleOrderDebounceCount := 2
  maxLiveOrdersPerMarket := 4
  mdDeadmanSec := 10

def debounceMin (p : Params) : ℕ := max p.staleOrderDebounceCount 1

def maxLive (p : Params) : ℕ := max p.maxLiveOrdersPerMarket 1

/-- The dead-man threshold in milliseconds. -/
def deadmanMs (p : Params) : ℤ := ⌊max p.mdDeadmanSec 1 * 1000⌋

end Params

/-- Where the hot task is: between two ticks, or in a `maybe_quote`. -/
inductive HotPc (n : ℕ) where
  | idle
  | drain
  | reconcile
  | quote
  /-- The slots are marked and the ids published; the batch is not sent yet. -/
  | sending (batch : Option (List (BatchOp n)))

/-- Where the sender is. From `signing` to `settled` it holds the lock. -/
inductive SenderPc (n : ℕ) where
  | idle
  | gate (ops : List (BatchOp n))
  | waitLock (ops : List (BatchOp n))
  | signing (ops : List (BatchOp n))
  | signed (batch : SignedBatch n)
  | written (batch : SignedBatch n)
  | decided (batch : SignedBatch n) (r : TxSendResult)
  | noted (batch : SignedBatch n) (r : TxSendResult)
  | settled (batch : SignedBatch n) (r : TxSendResult)
  | dead

def SenderPc.holdsLock {n : ℕ} : SenderPc n → Bool
  | .signing _ | .signed _ | .written _ | .decided .. | .noted .. | .settled .. => true
  | _ => false

/-- Where the poller is in its loop; `todo` are the orphan cancels left. -/
inductive PollerPc where
  | idle
  | cancelDue
  | fetching
  | inTransit (rows : List RemoteOrder)
  | overCap
  | nonceCheck (todo : List ℤ) (orphans : List ℤ)
  | resyncDue (todo : List ℤ) (orphans : List ℤ)
  | orphans (todo : List ℤ) (orphans : List ℤ)

inductive ShutdownPc where
  | running
  | halted
  | locked
  | aborted
  | verified (flat : Bool)
  | exited (flat : Bool)
  deriving DecidableEq

/-- Shutdown has acquired the lock, now or before. -/
def ShutdownPc.pastLock : ShutdownPc → Bool
  | .running | .halted => false
  | _ => true

def ShutdownPc.holdsLock : ShutdownPc → Bool
  | .locked | .aborted | .verified _ => true
  | _ => false

/-- Shutdown has verified a flat book. -/
def ShutdownPc.confirmedFlat : ShutdownPc → Bool
  | .verified flat | .exited flat => flat
  | _ => false

structure World (n : ℕ) where
  clock : Instant
  om : OrderManager n
  hot : HotPc n
  lastTracked : List ℤ
  mailbox : Watch (List (BatchOp n))
  events : List (OrderEvent n)
  reconcileSwap : Option (List RemoteOrder)
  trackedIds : List ℤ
  /-- `set_md_now`: the time of the last book update. -/
  mdStamp : Option Instant
  halt : Bool
  desk : Desk n
  sender : SenderPc n
  poller : PollerPc
  prevOrphans : List ℤ
  shutdown : ShutdownPc

inductive HotAct (n : ℕ) where
  /-- A book update: the freshness stamp; `maybe_quote` runs if the book has a mid. -/
  | book (hasMid : Bool)
  /-- `request_resnapshot`, before (`stamped = false`) or after the stamp. -/
  | resnapshot (stamped : Bool)
  | drain
  | drained
  | reconcile
  | quote (d : Decision n)
  | send

inductive SenderAct where
  | recover
  | take
  | gate (ok : Bool)
  | lock
  | sign (signer : Signer)
  | signTaskDied (reserved : ℕ)
  | write
  | notSent
  | execute (r : TxSendResult) (consumed : Bool)
  | note
  | settle (refreshes : Fin 3 → Bool)
  | finish (attempts : Fin 5 → CancelAttempt)
  | die (consumed : Bool)

inductive PollerAct where
  | wake
  | deadmanCancel (attempts : Fin 5 → CancelAttempt)
  | fetchFailed (token : Bool)
  | fetch
  | deliver
  | overCapCancel (attempts : Fin 5 → CancelAttempt)
  | nonceCheck
  | resync (ok : Bool)
  | orphan (s : OrphanScript)
  | endLoop

inductive ShutdownAct where
  | halt
  | lock
  | abort
  | cancelAll (attempts : Fin 5 → CancelAttempt)
  | exit

inductive EnvAct where
  | tick (dt : ℚ)
  /-- The account_orders stream resolves the exchange id of an order. -/
  | idResolved (clientOrderId exchangeId : ℤ)
  | fill (clientOrderId : ℤ) (size : ℚ)
  | drop (orderIndex : ℤ)

inductive Act (n : ℕ) where
  | hot (a : HotAct n)
  | sender (a : SenderAct)
  | poller (a : PollerAct)
  | shutdown (a : ShutdownAct)
  | env (a : EnvAct)

namespace World

variable {n : ℕ}

def start (p : Params) (n : ℕ) : World n where
  clock := 0
  om := .new n p.market.amountTick 0
  hot := .idle
  lastTracked := []
  mailbox := .init []
  events := []
  reconcileSwap := none
  trackedIds := []
  mdStamp := none
  halt := false
  desk :=
    { nonce := .init p.nextNonce p.accountIndex p.apiKeyIndex
      nonceOk := true
      risk := .new p.maxConsecutiveOrderRejections p.circuitBreakerCooldownSec
      venue := .init n p.nextNonce }
  sender := .idle
  poller := .idle
  prevOrphans := []
  shutdown := .running

/-- Nobody holds `sdk_lock`. -/
def lockFree (w : World n) : Bool := !w.sender.holdsLock && !w.shutdown.holdsLock

/-- `md_age_ms`, `none` for `u64::MAX` (no book update yet). -/
def mdAgeMs (w : World n) : Option ℤ := w.mdStamp.map fun t => ⌊w.clock * 1000⌋ - ⌊t * 1000⌋

/-! ## Hot task -/

/-- Publishes the tracked ids when they changed. -/
def publishTracked (w : World n) : World n :=
  if w.om.trackedIdsEqual w.lastTracked then w
  else { w with trackedIds := w.om.trackedClientIds, lastTracked := w.om.trackedClientIds }

def hotStep (w : World n) : HotAct n → Option (World n)
  | .book hasMid =>
    match w.hot with
    | .idle => some { w with mdStamp := some w.clock, hot := if hasMid then .drain else .idle }
    | _ => none
  | .resnapshot stamped =>
    match w.hot with
    | .idle =>
      some { w with mailbox := w.mailbox.send [],
                    mdStamp := if stamped then some w.clock else w.mdStamp }
    | _ => none
  | .drain =>
    match w.hot, w.events with
    | .drain, e :: rest => some { w with om := w.om.applyEvent w.clock e, events := rest }
    | _, _ => none
  | .drained =>
    match w.hot, w.events with
    | .drain, [] => some { w with hot := .reconcile }
    | _, _ => none
  | .reconcile =>
    match w.hot, w.reconcileSwap with
    | .reconcile, none => some { w with hot := .quote }
    | .reconcile, some remote =>
      some { w with om := w.om.processReconcile w.clock remote, reconcileSwap := none, hot := .quote }
    | _, _ => none
  | .quote d =>
    match w.hot with
    | .quote =>
      let r := w.om.cycle w.clock d
      let w' : World n := { w with om := r.1, hot := .sending r.2 }
      some (match d with
        | .ladder .. => w'.publishTracked
        | _ => w')
    | _ => none
  | .send =>
    match w.hot with
    | .sending none => some { w with hot := .idle }
    | .sending (some ops) => some { w with mailbox := w.mailbox.send ops, hot := .idle }
    | _ => none

/-! ## Sender -/

/-- `maybe_recover` and the nonce flag: may the sender place orders? -/
def canTrade (w : World n) : World n × Bool :=
  let healthy := match w.mdAgeMs with
    | some age => decide (age < mdHealthMs)
    | none => false
  let r := w.desk.risk.maybeRecover w.clock healthy
  ({ w with desk := { w.desk with risk := r.1 } }, r.2 && w.desk.nonceOk)

def senderStep (p : Params) (w : World n) : SenderAct → Option (World n)
  | .recover =>
    match w.sender with
    | .idle => some w.canTrade.1
    | _ => none
  | .take =>
    match w.sender, w.mailbox.pending with
    | .idle, some ops =>
      let r := w.canTrade
      let w : World n := { r.1 with mailbox := w.mailbox.markSeen }
      -- An empty batch, and under `halt` any batch, is dropped without an answer.
      if ops = [] ∨ w.halt = true then some w
      else if r.2 = false ∧ cancelOnly ops = false then
        some { w with events := w.events ++ clearFailedCreates ops }
      else some { w with sender := .gate ops }
    | _, _ => none
  | .gate ok =>
    match w.sender with
    | .gate ops =>
      if ok then some { w with sender := .waitLock ops }
      else some { w with sender := .idle, events := w.events ++ clearFailedCreates ops }
    | _ => none
  | .lock =>
    match w.sender with
    | .waitLock ops =>
      if !w.lockFree then none
      else if w.halt then some { w with sender := .idle, events := w.events ++ clearFailedCreates ops }
      else some { w with sender := .signing ops }
    | _ => none
  | .sign signer =>
    match w.sender with
    | .signing ops =>
      let r := signBatch signer w.desk.nonce p.market ops
      let w : World n := { w with desk := { w.desk with nonce := r.1 } }
      match r.2 with
      | .ok batch => some { w with sender := .signed batch }
      | .error _ => some { w with sender := .idle, events := w.events ++ clearFailedCreates ops }
    | _ => none
  | .signTaskDied reserved =>
    match w.sender with
    | .signing ops =>
      let nonce := { w.desk.nonce with nonce := w.desk.nonce.nonce + reserved }
      some { w with desk := { w.desk with nonce }, sender := .idle,
                    events := w.events ++ clearFailedCreates ops }
    | _ => none
  | .write =>
    match w.sender with
    | .signed batch => some { w with sender := .written batch }
    | _ => none
  | .notSent =>
    match w.sender with
    | .signed batch => some { w with sender := .decided batch .notSent }
    | _ => none
  | .execute r consumed =>
    match w.sender with
    | .written batch =>
      if r = .notSent then none
      else some { w with desk := w.desk.transmit batch.ops r consumed, sender := .decided batch r }
    | _ => none
  | .note =>
    match w.sender with
    | .decided batch r =>
      some { w with desk := w.desk.noteResult w.clock batch.ops.length r, sender := .noted batch r,
                    events := w.events ++ SenderEffect.events (r.effects batch) }
    | _ => none
  | .settle refreshes =>
    match w.sender with
    | .noted batch r =>
      let d := if r.resyncs then (w.desk.resyncNonceOrPause w.clock refreshes).1 else w.desk
      some { w with desk := d.parkUnknown w.clock r, sender := .settled batch r }
    | _ => none
  | .finish attempts =>
    match w.sender with
    | .settled batch r =>
      let d := if w.desk.cancelsAfter w.clock r then (w.desk.cancelAllAndVerify attempts).1 else w.desk
      some { w with desk := d, sender := .idle,
                    events := w.events ++ SenderEffect.events (r.lateEffects batch) }
    | _ => none
  | .die consumed =>
    match w.sender with
    | .written batch =>
      some { w with desk := w.desk.transmit batch.ops .unknown consumed, sender := .dead }
    | _ => some { w with sender := .dead }

/-! ## Poller -/

/-- Market data is older than the dead-man threshold. -/
def mdStale (p : Params) (w : World n) : Bool :=
  match w.mdAgeMs with
  | some age => decide (p.deadmanMs < age)
  | none => false

def setRisk (w : World n) (r : RiskController) : World n := { w with desk := { w.desk with risk := r } }

/-- `mark_reconcile(false, ..)` and `pause_if_streak`. -/
def markFailed (p : Params) (w : World n) (reason : ReconcileReason) : World n :=
  let r := w.desk.risk.markReconcile w.clock false reason
  w.setRisk (if p.debounceMin ≤ r.mismatchStreak then
    r.triggerPause w.clock (.reconcileMismatch r.mismatchStreak) else r)

/-- Stale market data fail the reconcile, and pause trading unless it is paused. -/
def deadmanRisk (w : World n) : RiskController :=
  let r := w.desk.risk.markReconcile w.clock false .mdStale
  if r.isPaused w.clock then r
  else r.triggerPause w.clock (.marketDataStale (w.mdAgeMs.getD 0))

/-- The dead-man check of one iteration; it ends in a due cancel-all, unless one was done. -/
def deadmanCheck (w : World n) : World n :=
  if w.deadmanRisk.pauseCancelDone then { w.setRisk w.deadmanRisk with poller := .fetching }
  else { w.setRisk (w.deadmanRisk.setPauseCancelDone true) with poller := .cancelDue }

/-- The client ids of a snapshot that the hot task does not track. -/
def orphanIds (w : World n) (rows : List RemoteOrder) : List ℤ :=
  (rows.filterMap (·.clientOrderIndex)).filter (· ∉ w.trackedIds)

/-- The exchange ids of the orphans seen in two snapshots in a row. -/
def orphanTodo (w : World n) (rows : List RemoteOrder) : List ℤ :=
  rows.filterMap fun o =>
    match o.clientOrderIndex, o.orderIndex with
    | some cid, some eid => if cid ∉ w.trackedIds ∧ cid ∈ w.prevOrphans then some eid else none
    | _, _ => none

/-- The health of a snapshot, recorded the instant it is in hand. -/
def markSnapshot (p : Params) (w : World n) (rows : List RemoteOrder) : World n :=
  if p.maxLive < rows.length then
    let r := w.desk.risk.markReconcile w.clock false .tooManyOrders
    w.setRisk (r.triggerPause w.clock (.tooManyOrders rows.length p.maxLive))
  else if w.orphanIds rows = [] then w.setRisk (w.desk.risk.markReconcile w.clock true .pollOk)
  else w.markFailed p .orphansPresent

def pollerStep (p : Params) (w : World n) : PollerAct → Option (World n)
  | .wake =>
    match w.poller with
    | .idle => some (if w.mdStale p then w.deadmanCheck else { w with poller := .fetching })
    | _ => none
  | .deadmanCancel attempts =>
    match w.poller with
    | .cancelDue =>
      if w.lockFree then
        some { w with desk := (w.desk.cancelAllAndVerify attempts).1, poller := .fetching }
      else none
    | _ => none
  | .fetchFailed token =>
    match w.poller with
    | .fetching =>
      some { w.markFailed p (if token then .authToken else .restActiveOrders) with poller := .idle }
    | _ => none
  | .fetch =>
    match w.poller with
    | .fetching => some { w with poller := .inTransit w.desk.venue.rows }
    | _ => none
  | .deliver =>
    match w.poller with
    | .inTransit rows =>
      some { w.markSnapshot p rows with
        reconcileSwap := some rows
        poller := if p.maxLive < rows.length then .overCap
          else .nonceCheck (w.orphanTodo rows) (w.orphanIds rows) }
    | _ => none
  | .overCapCancel attempts =>
    match w.poller with
    | .overCap =>
      if w.lockFree then
        some { w with desk := (w.desk.cancelAllAndVerify attempts).1, prevOrphans := [], poller := .idle }
      else none
    | _ => none
  | .nonceCheck =>
    match w.poller with
    | .nonceCheck todo orphans =>
      some { w with poller := if w.desk.nonceOk then .orphans todo orphans else .resyncDue todo orphans }
    | _ => none
  | .resync ok =>
    match w.poller with
    | .resyncDue todo orphans =>
      if w.lockFree then some { w with desk := w.desk.resyncNonce ok, poller := .orphans todo orphans }
      else none
    | _ => none
  | .orphan s =>
    match w.poller with
    | .orphans (eid :: todo) orphans =>
      if w.lockFree then
        some { w with desk := w.desk.orphanCancel eid s, poller := .orphans todo orphans }
      else none
    | _ => none
  | .endLoop =>
    match w.poller with
    | .orphans [] orphans => some { w with prevOrphans := orphans, poller := .idle }
    | _ => none

/-! ## Shutdown -/

def shutdownStep (w : World n) : ShutdownAct → Option (World n)
  | .halt =>
    match w.shutdown with
    | .running => some { w with halt := true, shutdown := .halted }
    | _ => none
  | .lock =>
    match w.shutdown with
    | .halted => if w.lockFree then some { w with shutdown := .locked } else none
    | _ => none
  | .abort =>
    match w.shutdown with
    | .locked => some { w with shutdown := .aborted }
    | _ => none
  | .cancelAll attempts =>
    match w.shutdown with
    | .aborted =>
      let r := w.desk.cancelAllAndVerify attempts
      some { w with desk := r.1, shutdown := .verified r.2 }
    | _ => none
  | .exit =>
    match w.shutdown with
    | .verified flat => some { w with shutdown := .exited flat }
    | _ => none

/-! ## Environment -/

def envStep (w : World n) : EnvAct → Option (World n)
  | .tick dt => if 0 ≤ dt then some { w with clock := w.clock + dt } else none
  | .idResolved cid eid =>
    if w.desk.venue.created.any fun o => o.clientOrderIndex = cid ∧ o.orderIndex = eid then
      some { w with events := w.events ++ [.idResolved cid eid] }
    else none
  | .fill cid size => some { w with events := w.events ++ [.fill cid size] }
  | .drop eid => some { w with desk := { w.desk with venue := w.desk.venue.drop eid } }

/-- One step of one party. -/
def step (p : Params) (w : World n) : Act n → Option (World n)
  | .hot a => w.hotStep a
  | .sender a => w.senderStep p a
  | .poller a => w.pollerStep p a
  | .shutdown a => w.shutdownStep a
  | .env a => w.envStep a

/-! ## Whole rounds of a party

The steps of one undisturbed round, for runs on fixed inputs. -/

/-- A tick of the hot task whose event queue is empty. -/
def tickActs (d : Decision n) : List (Act n) :=
  [.hot (.book true), .hot .drained, .hot .reconcile, .hot (.quote d), .hot .send]

/-- The sender takes the batch into the rate gate. -/
def takeActs : List (Act n) := [.sender .take]

/-- The batch leaves the gate, is signed and written. -/
def writeActs : List (Act n) :=
  [.sender (.gate true), .sender .lock, .sender (.sign fun _ => some ⟨14, "signed"⟩), .sender .write]

/-- The exchange accepts the batch, and the sender is done with it. -/
def acceptedActs : List (Act n) :=
  [.sender (.execute (.ok none) true), .sender .note, .sender (.settle fun _ => true),
    .sender (.finish fun _ => ⟨true, .accepted, true, true⟩)]

/-- A round of the poller without orphans. -/
def pollActs : List (Act n) :=
  [.poller .wake, .poller .fetch, .poller .deliver, .poller .nonceCheck, .poller .endLoop]

/-- A ladder of one level with a bid of `1` at `price`. -/
def bidAt (price : ℚ) (nowNs : ℤ) : Decision n := .ladder [(some price, none)] ⟨1, 0, 5, nowNs, false⟩

end World

end LighterMM
