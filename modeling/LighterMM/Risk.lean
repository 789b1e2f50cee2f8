import LighterMM.Types

/-!
# Risk controller and circuit breaker (`risk.rs`)

Every method that reads the clock takes the reading `now`. The reasons are the texts of the
source as data. `pausesLogged` counts the lines "Trading paused" that `trigger_pause` has
logged; no method reads it.
-/

namespace LighterMM

/-- The classes of a rejected batch (`RejectKind` of `exec/rate_limit.rs`). -/
inductive RejectKind where
  | quota | rateLimit | nonce | makerOnly | other
  deriving DecidableEq, Repr

/-- The reasons given to `trigger_pause`. -/
inductive PauseReason where
  | circuitBreaker (rejections : ℕ) (kind : RejectKind)
  | nonceResyncFailed
  | unknownTxOutcome
  | reconcileMismatch (streak : ℕ)
  | tooManyOrders (live max : ℕ)
  | marketDataStale (ageMs : ℤ)
  deriving DecidableEq, Repr

/-- The reasons given to `mark_reconcile`. -/
inductive ReconcileReason where
  | pollOk | mdStale | authToken | restActiveOrders | tooManyOrders | orphansPresent
  | nonceResyncFailed | txUnknownOutcome
  deriving DecidableEq, Repr

structure RiskController where
  maxConsecutiveOrderRejections : ℕ
  circuitBreakerCooldownSec : ℚ
  consecutiveRejections : ℕ
  pausedUntil : Option Instant
  pauseReason : Option PauseReason
  lastReconcileOk : Bool
  lastReconcileReason : Option ReconcileReason
  lastReconcileTime : Option Instant
  mismatchStreak : ℕ
  pauseCancelDone : Bool
  pausesLogged : ℕ
  deriving DecidableEq, Repr

namespace RiskController

def new (maxConsecutiveOrderRejections : ℕ) (circuitBreakerCooldownSec : ℚ) : RiskController where
  maxConsecutiveOrderRejections := maxConsecutiveOrderRejections
  circuitBreakerCooldownSec := circuitBreakerCooldownSec
  consecutiveRejections := 0
  pausedUntil := none
  pauseReason := none
  lastReconcileOk := true
  lastReconcileReason := none
  lastReconcileTime := none
  mismatchStreak := 0
  pauseCancelDone := false
  pausesLogged := 0

def recordSuccess (r : RiskController) : RiskController := { r with consecutiveRejections := 0 }

/-- Arms or extends a pause: the deadline only moves forward. -/
def triggerPause (r : RiskController) (now : Instant) (reason : PauseReason) : RiskController :=
  let til := now + max r.circuitBreakerCooldownSec 0
  { r with
    pausedUntil := match r.pausedUntil with
      | some prev => if til ≤ prev then some prev else some til
      | none => some til
    pauseReason := some reason
    pauseCancelDone := false
    pausesLogged := r.pausesLogged + 1 }

/-- Counts a rejection and trips the breaker at the threshold (`0` disables it). -/
def recordRejection (r : RiskController) (now : Instant) (kind : RejectKind) : RiskController :=
  let r := { r with consecutiveRejections := r.consecutiveRejections + 1 }
  if 0 < r.maxConsecutiveOrderRejections ∧ r.maxConsecutiveOrderRejections ≤ r.consecutiveRejections then
    r.triggerPause now (.circuitBreaker r.consecutiveRejections kind)
  else r

def isPaused (r : RiskController) (now : Instant) : Bool :=
  match r.pausedUntil with
  | some til => decide (now < til)
  | none => false

/-- Clears a pause after its cooldown if the last reconcile was clean and the market data is
healthy. `true` when trading may proceed. -/
def maybeRecover (r : RiskController) (now : Instant) (websocketHealthy : Bool) : RiskController × Bool :=
  if r.isPaused now then (r, false)
  else if r.pausedUntil.isNone then (r, true)
  else if r.lastReconcileOk = false ∨ websocketHealthy = false then (r, false)
  else
    ({ r with
        pausedUntil := none
        pauseReason := none
        consecutiveRejections := 0
        pauseCancelDone := false }, true)

def markReconcile (r : RiskController) (now : Instant) (ok : Bool) (reason : ReconcileReason) :
    RiskController :=
  { r with
    lastReconcileOk := ok
    lastReconcileReason := some reason
    lastReconcileTime := some now
    mismatchStreak := if ok then 0 else r.mismatchStreak + 1 }

def setPauseCancelDone (r : RiskController) (done : Bool) : RiskController :=
  { r with pauseCancelDone := done }

/-! ## What the methods change -/

variable {r : RiskController} {now : Instant}

@[simp] theorem recordSuccess_pausedUntil : r.recordSuccess.pausedUntil = r.pausedUntil := rfl

@[simp] theorem recordSuccess_pauseCancelDone : r.recordSuccess.pauseCancelDone = r.pauseCancelDone :=
  rfl

@[simp] theorem recordSuccess_pausesLogged : r.recordSuccess.pausesLogged = r.pausesLogged := rfl

@[simp] theorem markReconcile_pausedUntil (ok : Bool) (reason : ReconcileReason) :
    (r.markReconcile now ok reason).pausedUntil = r.pausedUntil := rfl

@[simp] theorem markReconcile_pauseCancelDone (ok : Bool) (reason : ReconcileReason) :
    (r.markReconcile now ok reason).pauseCancelDone = r.pauseCancelDone := rfl

@[simp] theorem markReconcile_pausesLogged (ok : Bool) (reason : ReconcileReason) :
    (r.markReconcile now ok reason).pausesLogged = r.pausesLogged := rfl

@[simp] theorem triggerPause_pauseCancelDone (reason : PauseReason) :
    (r.triggerPause now reason).pauseCancelDone = false := rfl

@[simp] theorem triggerPause_pausesLogged (reason : PauseReason) :
    (r.triggerPause now reason).pausesLogged = r.pausesLogged + 1 := rfl

/-- A rejection either arms a pause or only counts. -/
theorem recordRejection_cases (r : RiskController) (now : Instant) (kind : RejectKind) :
    ((r.recordRejection now kind).pauseCancelDone = r.pauseCancelDone ∧
      (r.recordRejection now kind).pausesLogged = r.pausesLogged) ∨
    ((r.recordRejection now kind).pauseCancelDone = false ∧
      (r.recordRejection now kind).pausesLogged = r.pausesLogged + 1) := by
  unfold recordRejection
  simp only
  split
  · exact .inr ⟨rfl, rfl⟩
  · exact .inl ⟨rfl, rfl⟩

/-- Permission to trade means that no pause is left. -/
theorem maybeRecover_true {healthy : Bool} (h : (r.maybeRecover now healthy).2 = true) :
    (r.maybeRecover now healthy).1.pausedUntil = none := by
  unfold maybeRecover at h ⊢
  split at h
  · cases h
  · split at h
    · rename_i hp hn
      rw [if_neg hp, if_pos hn]
      exact Option.isNone_iff_eq_none.mp hn
    · split at h
      · cases h
      · rename_i hp hn hr
        rw [if_neg hp, if_neg hn, if_neg hr]

/-- Recovery keeps the done flag or clears it; it never sets it. -/
theorem maybeRecover_cases (r : RiskController) (now : Instant) (healthy : Bool) :
    (r.maybeRecover now healthy).1.pausesLogged = r.pausesLogged ∧
      ((r.maybeRecover now healthy).1.pauseCancelDone = r.pauseCancelDone ∨
        (r.maybeRecover now healthy).1.pauseCancelDone = false) := by
  unfold maybeRecover
  split
  · exact ⟨rfl, .inl rfl⟩
  · split
    · exact ⟨rfl, .inl rfl⟩
    · split
      · exact ⟨rfl, .inl rfl⟩
      · exact ⟨rfl, .inr rfl⟩

end RiskController

end LighterMM
