import LighterMM.Exec.RateLimit
import LighterMM.Lighter.TxOutcome

/-!
# Which batches the rate limiter counts (`send_once` of `exec/paced_send.rs`)

`sendOnce` is `send_once` as the rate limiter sees it: the gate, the halt check, the signing, one of the
two transports, and the effects of the result on the limiter. `Handling` is what one batch meets on the
way.

An accepted and a rejected batch are counted, the latter because the gateway saw it. A batch without an
answer may have been seen too, but is not counted: `counted_iff`.
-/

namespace LighterMM

variable {n : ℕ}

/-- What an effect does to the limiter. -/
def RateLimiter.applyEffect (r : RateLimiter) (now : Instant) : SenderEffect n → RateLimiter
  | .recordOpsSent k => r.recordOpsSentAt k now
  | .setQuota quota => r.setQuota (some quota)
  | .resetGlobalBackoff => r.resetGlobalBackoffAt now
  | .triggerGlobalBackoff => r.triggerGlobalBackoffAt now
  | .registerClientIds _ | .notifyReconcile | .event _ => r

/-- A batch and what it meets: the clock of the gate, `halt` behind the lock, the signer (`none` if its
task dies), the published quota, the answers of the two transports, the clock after the answer. -/
structure Handling (n : ℕ) where
  ops : List (BatchOp n)
  gate : SlotClock
  halted : Bool
  nonce : NonceManager
  signer : Option Signer
  quota : Option ℤ
  restErr : String
  rest : Option (ℕ × Option Json)
  reply : TxWebSocket.Reply
  after : Instant

inductive BatchEnd where
  | skipped
  | halted
  | signFailed
  | sent (report : TxSendReport)
  deriving DecidableEq, Repr

/-- The transactions of the batch were or may have been written. -/
def BatchEnd.mayHaveReached : BatchEnd → Bool
  | .sent report => !(report.status == .notSent)
  | _ => false

namespace Handling

variable (market : MarketConfig) (render : Json → String) (lower : String → String)

/-- The batch goes over REST. -/
def freeSlot (b : Handling n) (txs : ℕ) : Bool :=
  (match b.quota with
    | some q => decide (q ≤ 0)
    | none => false) && txs == 1

def transport (b : Handling n) (signed : SignedBatch n) : TxSendReport :=
  if b.freeSlot signed.txTypes.length then sendFreeSlot b.restErr b.rest
  else TxWebSocket.sendBatch render b.reply

def sendOnce (r : RateLimiter) (b : Handling n) : RateLimiter × BatchEnd :=
  let q := r.writeSlot b.ops.length b.gate
  if q.2 = false then (q.1, .skipped)
  else if b.halted then (q.1, .halted)
  else
    match b.signer with
    | none => (q.1, .signFailed)
    | some signer =>
      match (signBatch signer b.nonce market b.ops).2 with
      | .error _ => (q.1, .signFailed)
      | .ok signed =>
        let report := b.transport render signed
        let result := report.result lower
        (((result.effects signed ++ result.lateEffects signed ++ result.finalEffects).foldl
          (fun r e => r.applyEffect b.after e) q.1), .sent report)

/-- The limiter after a sequence of batches. -/
def limiterAfter (r : RateLimiter) (bs : List (Handling n)) : RateLimiter :=
  bs.foldl (fun r b => (b.sendOnce market render lower r).1) r

/-- The ops of the batch are added to the window that the gate has seen if they may have reached the
gateway, and not otherwise. -/
def Counted (r : RateLimiter) (b : Handling n) : Prop :=
  (b.sendOnce market render lower r).1.window =
    (r.writeSlot b.ops.length b.gate).1.window ++
      if (b.sendOnce market render lower r).2.mayHaveReached then List.replicate b.ops.length b.after else []

/-- The transport gives no answer: a write error, a closed connection or a timeout on the WebSocket, a
failed request on REST. -/
def unanswered (b : Handling n) : Bool :=
  if b.freeSlot b.ops.length then (b.rest.bind fun a => parseTxResponse a.1 a.2).isNone
  else
    match b.reply with
    | .sendFailed _ | .disconnected | .timedOut => true
    | .connectFailed | .response _ => false

/-- The batch gets as far as the transport: the gate lets it pass, no halt, and it is signed. -/
def Transmitted (r : RateLimiter) (b : Handling n) : Prop :=
  (r.writeSlot b.ops.length b.gate).2 = true ∧ b.halted = false ∧
    ∃ signer, b.signer = some signer ∧ ∃ signed, (signBatch signer b.nonce market b.ops).2 = .ok signed

end Handling

/-! ## Effects on the window -/

/-- One type for each signed op. -/
theorem signBatch_txTypes {signer : Signer} {market : MarketConfig} {nm : NonceManager}
    {ops : List (BatchOp n)} {sb : SignedBatch n} (h : (signBatch signer nm market ops).2 = .ok sb) :
    sb.txTypes.length = ops.length := by
  obtain ⟨txs, hlen, htypes, -, -⟩ := signLoop_signed ops 0 nm ⟨[], [], []⟩ h
  rw [htypes, List.nil_append, List.length_map, hlen]

namespace RateLimiter

variable {r : RateLimiter} {now : Instant}

/-- The ops that effects record. -/
def recordedBy (es : List (SenderEffect n)) : ℕ :=
  (es.map fun
    | .recordOpsSent k => k
    | _ => 0).sum

/-- Effects add the ops that they record to the window. -/
theorem applyEffects_window (es : List (SenderEffect n)) :
    (es.foldl (fun r e => r.applyEffect now e) r).window =
      r.window ++ List.replicate (recordedBy es) now := by
  induction es generalizing r with
  | nil => simp [recordedBy]
  | cons e es ih =>
    rw [List.foldl_cons, ih]
    cases e with
    | recordOpsSent k =>
      show r.window ++ List.replicate k now ++ _ = _
      rw [List.append_assoc, List.replicate_append_replicate]
      rfl
    | resetGlobalBackoff =>
      rw [show (r.applyEffect now (.resetGlobalBackoff (n := n))).window = r.window
        from resetGlobalBackoffAt_window]
      simp [recordedBy]
    | setQuota quota | triggerGlobalBackoff | registerClientIds ids | notifyReconcile | event e =>
      simp [recordedBy, applyEffect, setQuota, triggerGlobalBackoffAt]

theorem recordedBy_append (as bs : List (SenderEffect n)) :
    recordedBy (as ++ bs) = recordedBy as + recordedBy bs := by
  simp [recordedBy]

theorem recordedBy_eq_zero {es : List (SenderEffect n)} (h : ∀ e ∈ es, ∀ k, e ≠ .recordOpsSent k) :
    recordedBy es = 0 := by
  unfold recordedBy
  rw [List.sum_eq_zero_iff]
  intro k hk
  obtain ⟨e, he, rfl⟩ := List.mem_map.mp hk
  cases e with
  | recordOpsSent k => exact absurd rfl (h _ he k)
  | setQuota | resetGlobalBackoff | triggerGlobalBackoff | registerClientIds | notifyReconcile | event => rfl

/-- Order events record nothing. -/
theorem recordedBy_events (es : List (OrderEvent n)) : recordedBy (es.map SenderEffect.event) = 0 := by
  refine recordedBy_eq_zero fun e he k hk => ?_
  obtain ⟨e', -, rfl⟩ := List.mem_map.mp he
  cases hk

/-- An accepted and a rejected batch are recorded, no other. -/
theorem recordedBy_result (signed : SignedBatch n) (result : TxSendResult) :
    recordedBy (result.effects signed ++ result.lateEffects signed ++ result.finalEffects) =
      match result with
      | .ok _ | .rejected _ => signed.ops.length
      | .unknown | .notSent => 0 := by
  rw [recordedBy_append, recordedBy_append]
  cases result with
  | ok quota =>
    have hfirst : recordedBy ((TxSendResult.ok quota).effects signed) = signed.ops.length := by
      have hrest : recordedBy ((quota.map SenderEffect.setQuota).toList ++ [.resetGlobalBackoff] ++
          (if registeredIds signed.ops = [] then [] else [.registerClientIds (registeredIds signed.ops)]) ++
          signed.ops.map fun op => SenderEffect.event (confirmEvent op)) = 0 := by
        refine recordedBy_eq_zero fun e he k hk => ?_
        subst hk
        simp only [List.mem_append, Option.mem_toList, Option.map_eq_some_iff, List.mem_singleton,
          List.mem_map, reduceCtorEq, and_false, exists_false, or_false, false_or] at he
        split at he
        · cases he
        · simp at he
      exact congrArg (signed.ops.length + ·) hrest
    rw [hfirst]
    rfl
  | rejected kind =>
    have hfirst : recordedBy ((TxSendResult.rejected kind).effects signed) = signed.ops.length := by
      cases kind <;> rfl
    have hnotify : recordedBy (if kind = .makerOnly ∨ kind = .other then
        [SenderEffect.notifyReconcile (n := n)] else []) = 0 := by
      split <;> rfl
    have hlate : recordedBy ((TxSendResult.rejected kind).lateEffects signed) = 0 := by
      unfold TxSendResult.lateEffects
      rw [recordedBy_append, hnotify, recordedBy_events]
    rw [hfirst, hlate]
    rfl
  | unknown => rfl
  | notSent =>
    have hfirst : recordedBy (TxSendResult.notSent.effects signed) = 0 := recordedBy_events _
    rw [hfirst]
    rfl

end RateLimiter

/-! ## Counting -/

namespace Handling

variable {market : MarketConfig} {render : Json → String} {lower : String → String} {r : RateLimiter}
  {b : Handling n}

/-- An unknown outcome is a transport without an answer. -/
theorem transport_unknown {signed : SignedBatch n} (hlen : signed.txTypes.length = b.ops.length) :
    (b.transport render signed).status = .unknown ↔ b.unanswered = true := by
  unfold transport unanswered
  rw [hlen]
  split
  · unfold sendFreeSlot
    cases b.rest.bind fun a => parseTxResponse a.1 a.2 with
    | none => exact iff_of_true rfl rfl
    | some tx =>
      refine iff_of_false ?_ Bool.false_ne_true
      simp only
      split <;> decide
  · cases b.reply with
    | sendFailed | disconnected | timedOut => exact iff_of_true rfl rfl
    | connectFailed =>
      refine iff_of_false ?_ Bool.false_ne_true
      intro h
      cases h
    | response resp =>
      refine iff_of_false ?_ Bool.false_ne_true
      simp only [TxWebSocket.sendBatch]
      split <;> decide

/-- A batch that does not get to the transport is not counted. -/
theorem sendOnce_stopped (render : Json → String) (lower : String → String) (h : ¬ b.Transmitted market r) :
    (b.sendOnce market render lower r).1 = (r.writeSlot b.ops.length b.gate).1 ∧
      (b.sendOnce market render lower r).2.mayHaveReached = false := by
  unfold Transmitted at h
  unfold sendOnce
  simp only
  split
  · exact ⟨rfl, rfl⟩
  · rename_i hpass
    split
    · exact ⟨rfl, rfl⟩
    · rename_i hhalt
      split
      · exact ⟨rfl, rfl⟩
      · rename_i signer hsigner
        split
        · exact ⟨rfl, rfl⟩
        · rename_i signed hsigned
          refine absurd ⟨?_, ?_, signer, hsigner, signed, hsigned⟩ h
          · simpa using hpass
          · simpa using hhalt

/-- A batch that gets to the transport: its outcome, and what it adds to the window. -/
theorem sendOnce_transmitted (render : Json → String) (lower : String → String) (h : b.Transmitted market r) :
    ∃ report : TxSendReport, (b.sendOnce market render lower r).2 = .sent report ∧
      (report.status = .unknown ↔ b.unanswered = true) ∧
      (b.sendOnce market render lower r).1.window = (r.writeSlot b.ops.length b.gate).1.window ++
        if report.status = .ok ∨ report.status = .rejected then List.replicate b.ops.length b.after
        else [] := by
  obtain ⟨hpass, hhalt, signer, hsigner, signed, hsigned⟩ := h
  have hops : signed.ops = b.ops := (signBatch_ok hsigned).2
  have hsend : b.sendOnce market render lower r =
      ((((b.transport render signed).result lower).effects signed ++
          ((b.transport render signed).result lower).lateEffects signed ++
          ((b.transport render signed).result lower).finalEffects).foldl
        (fun r e => r.applyEffect b.after e) (r.writeSlot b.ops.length b.gate).1,
        .sent (b.transport render signed)) := by
    unfold sendOnce
    simp only [hpass, hhalt, hsigner, hsigned, Bool.true_eq_false, Bool.false_eq_true, if_false]
  refine ⟨b.transport render signed, by rw [hsend], transport_unknown (signBatch_txTypes hsigned), ?_⟩
  rw [hsend]
  simp only
  rw [RateLimiter.applyEffects_window, RateLimiter.recordedBy_result, hops]
  congr 1
  unfold TxSendReport.result
  cases (b.transport render signed).status <;> simp

/-- **One batch** is counted as it should be unless it is written and gets no answer. -/
theorem counted_iff_answered :
    Counted market render lower r b ↔ ¬ (b.ops ≠ [] ∧ b.Transmitted market r ∧ b.unanswered = true) := by
  unfold Counted
  by_cases htrans : b.Transmitted market r
  · obtain ⟨report, hend, hunknown, hwindow⟩ := sendOnce_transmitted render lower htrans
    rw [hwindow, hend, List.append_cancel_left_eq]
    simp only [htrans, true_and, ← hunknown, ne_eq, not_and, BatchEnd.mayHaveReached]
    obtain ⟨status, code, message, quota⟩ := report
    cases status with
    | ok | rejected | notSent => simp
    | unknown => simp
  · obtain ⟨hlimiter, hend⟩ := sendOnce_stopped render lower htrans
    rw [hlimiter, hend]
    simp [htrans]

/-- **Counted batches.** In a sequence of batches that `send_once` handles, each one that may have reached
the gateway is in the window before the next decision of the gate, and no other, if and only if no batch
of it gets to a transport that gives no answer. -/
theorem counted_iff (market : MarketConfig) (render : Json → String) (lower : String → String)
    (r : RateLimiter) (bs : List (Handling n)) :
    (∀ pre b post, bs = pre ++ b :: post → Counted market render lower (limiterAfter market render lower r pre) b) ↔
      ∀ pre b post, bs = pre ++ b :: post →
        ¬ (b.ops ≠ [] ∧ b.Transmitted market (limiterAfter market render lower r pre) ∧ b.unanswered = true) := by
  simp only [counted_iff_answered]

/-- A Create that passes the gate at second `1` and is signed, but times out on the WebSocket. -/
def timedOutCreate : Handling 1 where
  ops := [⟨.buy, 0, .create, 100, 1, 5, none, false⟩]
  gate := ⟨1, 1, 1, 1, 1, 1⟩
  halted := false
  nonce := .init 100 7 2
  signer := some fun _ => some ⟨14, "signed"⟩
  quota := none
  restErr := ""
  rest := none
  reply := .timedOut
  after := 6

/-- **A batch without an answer is not counted**, though it may have reached the gateway. -/
theorem unknown_not_counted :
    ¬ ∀ (market : MarketConfig) (render : Json → String) (lower : String → String) (r : RateLimiter)
        (bs pre : List (Handling 1)) (b : Handling 1) (post : List (Handling 1)),
      bs = pre ++ b :: post → Counted market render lower (limiterAfter market render lower r pre) b := by
  intro h
  have hcounted := h ⟨1, 1 / 10, 1 / 100000, 1 / 5000, 10⟩ (fun _ => "") id (.new (1 / 10)) [timedOutCreate] []
    timedOutCreate [] rfl
  unfold Counted at hcounted
  exact absurd hcounted (by decide +kernel)

end Handling

end LighterMM
