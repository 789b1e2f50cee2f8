import LighterMM.Exec.CancelAll

/-!
# Paced order sender (`exec/paced_send.rs`)

`send_once` gives up the processor at its awaits: the rate gate, the lock, the signing thread, the
transport, the nonce re-sync, the cancel-all. Each piece between two awaits is a definition here,
so that the other tasks can be interleaved with them; `handleResult` is what `send_once` does with
the result of a batch as a whole.

What the sender does to the rate limiter, the quota, the PnL actor and the hot task is a list of
`SenderEffect`s, in order.
-/

namespace LighterMM

/-- `MD_HEALTH_MS`. -/
def mdHealthMs : ℤ := 10000

/-- `TxSendResult`, with the class of the message where the exchange rejected the batch. -/
inductive TxSendResult where
  | ok (quotaRemaining : Option ℤ)
  | rejected (kind : RejectKind)
  | unknown
  | notSent
  deriving DecidableEq, Repr

inductive SenderEffect (n : ℕ) where
  | recordOpsSent (k : ℕ)
  | setQuota (quota : ℤ)
  | resetGlobalBackoff
  | triggerGlobalBackoff
  | registerClientIds (ids : List ℤ)
  | notifyReconcile
  | event (e : OrderEvent n)
  deriving DecidableEq, Repr

def cancelOnly {n : ℕ} (ops : List (BatchOp n)) : Bool := ops.all (·.action = .cancel)

/-- The ClearLive events for the Creates of a batch that was not sent. -/
def clearFailedCreates {n : ℕ} (ops : List (BatchOp n)) : List (OrderEvent n) :=
  (ops.filter (·.action = .create)).map fun op => .clearLive op.side op.level op.clientOrderId

/-- The event for one op of an accepted batch: creates and modifies are bound, cancels cleared. -/
def confirmEvent {n : ℕ} (op : BatchOp n) : OrderEvent n :=
  match op.action with
  | .cancel => .clearLive op.side op.level op.clientOrderId
  | _ => .bindLive op.side op.level op.clientOrderId op.exchangeId op.price op.size

/-- The ids handed to the PnL actor. -/
def registeredIds {n : ℕ} (ops : List (BatchOp n)) : List ℤ :=
  (ops.map (·.clientOrderId)).filter (0 < ·)

namespace TxSendResult

variable {n : ℕ}

/-- The nonce must be re-synced: a mandatory refresh, which pauses trading when it fails. -/
def resyncs : TxSendResult → Bool
  | .rejected .rateLimit => false
  | .rejected _ => true
  | .unknown => true
  | _ => false

/-- The reserved nonces are rolled back. -/
def rollsBack : TxSendResult → Bool
  | .rejected .nonce => false
  | .rejected _ => true
  | .notSent => true
  | _ => false

/-- The first effects, before any await. -/
def effects (signed : SignedBatch n) : TxSendResult → List (SenderEffect n)
  | .ok quota =>
    .recordOpsSent signed.ops.length :: (quota.map .setQuota).toList ++ [.resetGlobalBackoff] ++
      (if registeredIds signed.ops = [] then [] else [.registerClientIds (registeredIds signed.ops)]) ++
      signed.ops.map fun op => .event (confirmEvent op)
  | .rejected .quota => [.recordOpsSent signed.ops.length, .setQuota 0]
  | .rejected .rateLimit => [.recordOpsSent signed.ops.length, .triggerGlobalBackoff]
  | .rejected _ => [.recordOpsSent signed.ops.length]
  | .unknown => []
  | .notSent => (clearFailedCreates signed.ops).map .event

/-- The effects after the re-sync of the nonce. -/
def lateEffects (signed : SignedBatch n) : TxSendResult → List (SenderEffect n)
  | .rejected kind =>
    (if kind = .makerOnly ∨ kind = .other then [.notifyReconcile] else []) ++
      (clearFailedCreates signed.ops).map .event
  | _ => []

/-- The effects after the cancel-all. -/
def finalEffects : TxSendResult → List (SenderEffect n)
  | .unknown => [.notifyReconcile]
  | _ => []

/-- Whether the exchange executed the batch: it did what it answered, and a batch without an answer
may have been executed. -/
def executed (consumed : Bool) : TxSendResult → Bool
  | .ok _ => true
  | .unknown => consumed
  | _ => false

end TxSendResult

/-- The order events among the effects. -/
def SenderEffect.events {n : ℕ} (es : List (SenderEffect n)) : List (OrderEvent n) :=
  es.filterMap fun
    | .event e => some e
    | _ => none

namespace Desk

variable {n : ℕ}

/-- The exchange's side of a batch that was sent. -/
def transmit (d : Desk n) (ops : List (BatchOp n)) (r : TxSendResult) (consumed : Bool) : Desk n :=
  { d with venue := if r.executed consumed then d.venue.execBatch ops else d.venue }

def resyncLoop : List Bool → Desk n → Desk n × Bool
  | [], d => (d, false)
  | ok :: rest, d =>
    let r := d.hardRefresh ok
    if r.2 then ({ r.1 with nonceOk := true }, true) else resyncLoop rest r.1

/-- `resync_nonce_or_pause`: three refreshes; if they all fail, the nonce is untrusted and trading
pauses. -/
def resyncNonceOrPause (d : Desk n) (now : Instant) (script : Fin 3 → Bool) : Desk n × Bool :=
  let r := resyncLoop ((List.finRange 3).map script) d
  if r.2 then r
  else
    let risk := r.1.risk.markReconcile now false .nonceResyncFailed
    ({ r.1 with nonceOk := false, risk := risk.triggerPause now .nonceResyncFailed }, false)

/-- What `send_once` does with a result before its next await: the risk controller hears of it, and
the reserved nonces are rolled back where the exchange did not take them. -/
def noteResult (d : Desk n) (now : Instant) (reserved : ℕ) (r : TxSendResult) : Desk n :=
  let risk := match r with
    | .ok _ => d.risk.recordSuccess
    | .rejected kind => d.risk.recordRejection now kind
    | _ => d.risk
  { d with risk, nonce := if r.rollsBack then d.nonce.rollback reserved else d.nonce }

/-- After the re-sync: an unknown outcome pauses trading. -/
def parkUnknown (d : Desk n) (now : Instant) (r : TxSendResult) : Desk n :=
  match r with
  | .unknown =>
    let risk := d.risk.markReconcile now false .txUnknownOutcome
    { d with risk := risk.triggerPause now .unknownTxOutcome }
  | _ => d

/-- Whether the sender cancels all before it releases the lock. -/
def cancelsAfter (d : Desk n) (now : Instant) : TxSendResult → Bool
  | .rejected _ => d.risk.isPaused now
  | .unknown => true
  | _ => false

/-- What `send_once` does with the result of a batch of `reserved` signed ops, up to the
cancel-all. -/
def settleResult (d : Desk n) (now : Instant) (reserved : ℕ) (r : TxSendResult)
    (refreshes : Fin 3 → Bool) : Desk n :=
  let d := d.noteResult now reserved r
  let d := if r.resyncs then (d.resyncNonceOrPause now refreshes).1 else d
  d.parkUnknown now r

/-- Everything `send_once` does with the result of a batch. -/
def handleResult (d : Desk n) (now : Instant) (reserved : ℕ) (r : TxSendResult)
    (refreshes : Fin 3 → Bool) (attempts : Fin 5 → CancelAttempt) : Desk n :=
  let d := d.settleResult now reserved r refreshes
  if d.cancelsAfter now r then (d.cancelAllAndVerify attempts).1 else d

/-! ## What the pieces leave alone -/

theorem resyncLoop_frame (oks : List Bool) (d : Desk n) :
    (resyncLoop oks d).1.risk = d.risk ∧ (resyncLoop oks d).1.venue = d.venue := by
  induction oks generalizing d with
  | nil => exact ⟨rfl, rfl⟩
  | cons ok oks ih =>
    unfold resyncLoop
    simp only
    split
    · exact ⟨rfl, rfl⟩
    · exact ih _

/-- After a successful re-sync the nonce is trusted and the exchange's next one; a failed one
leaves the counter. -/
theorem resyncLoop_nonce (oks : List Bool) (d : Desk n) :
    ((resyncLoop oks d).2 = true → (resyncLoop oks d).1.nonceOk = true ∧
      (resyncLoop oks d).1.nonce.nonce = d.venue.nextNonce - 1) ∧
    ((resyncLoop oks d).2 = false → (resyncLoop oks d).1 = d) := by
  induction oks generalizing d with
  | nil => exact ⟨fun h => Bool.noConfusion h, fun _ => rfl⟩
  | cons ok oks ih =>
    unfold resyncLoop
    cases ok with
    | true => exact ⟨fun _ => ⟨rfl, rfl⟩, fun h => Bool.noConfusion h⟩
    | false => exact ih d

@[simp] theorem resyncNonceOrPause_venue (d : Desk n) (now : Instant) (script : Fin 3 → Bool) :
    (d.resyncNonceOrPause now script).1.venue = d.venue := by
  unfold resyncNonceOrPause
  simp only
  split <;> exact (resyncLoop_frame _ d).2

@[simp] theorem noteResult_venue (d : Desk n) (now : Instant) (k : ℕ) (r : TxSendResult) :
    (d.noteResult now k r).venue = d.venue := rfl

@[simp] theorem parkUnknown_venue (d : Desk n) (now : Instant) (r : TxSendResult) :
    (d.parkUnknown now r).venue = d.venue := by
  cases r <;> rfl

end Desk

end LighterMM
