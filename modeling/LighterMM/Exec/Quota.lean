import LighterMM.Exec.CountedBatches
import LighterMM.Hot.Exits
import LighterMM.Lib.Sentinel

/-!
# The two copies of the volume quota (`shared.rs`, `exec/paced_send.rs`, `exec/rate_limit.rs`)

The sender learns the volume quota from the answers to its batches and keeps it twice: in its rate limiter,
as an `Option`, and in `Derived`, from which the hot task reads it, as one unsigned word whose largest value
stands for an unknown quota.

- **Batches** (`QuotaCopies.sendOnce`): `send_once` on both copies. The published quota decides the transport.
- **One quota is behind both** (`Holds`): what the answers told last. A batch moves the copies together
  (`Holds.sendOnce`).
- **The word of `-1` is the sentinel**, so an accepted batch with that quota makes the hot task take the
  quota for unknown, and nothing else sets the copies apart (`same_quota_iff`).
-/

namespace LighterMM

variable {n : ℕ}

/-- `u64::MAX`. -/
def u64Max : UInt64 := 18446744073709551615

/-- The quota in `Derived`. -/
structure Derived where
  quotaRemaining : UInt64

namespace Derived

def new : Derived := ⟨u64Max⟩

def setQuota (d : Derived) (q : Option Int64) : Derived :=
  { d with quotaRemaining := (q.map Int64.toUInt64).getD u64Max }

def quota (d : Derived) : Option Int64 :=
  if d.quotaRemaining = u64Max then none else some d.quotaRemaining.toInt64

/-- What an effect of the sender does to the published quota. -/
def applyEffect (d : Derived) : SenderEffect n → Derived
  | .setQuota quota => d.setQuota (some (.ofInt quota))
  | .recordOpsSent _ | .resetGlobalBackoff | .triggerGlobalBackoff | .registerClientIds _ | .notifyReconcile
  | .event _ => d

/-- The word of `Derived`. -/
def quotaWord : Sentinel Int64 UInt64 where
  encode := Int64.toUInt64
  decode := UInt64.toInt64
  sentinel := u64Max
  decode_encode := Int64.toInt64_toUInt64

theorem quota_eq (d : Derived) : d.quota = quotaWord.unpack d.quotaRemaining := rfl

theorem setQuota_eq (d : Derived) (q : Option Int64) : d.setQuota q = ⟨quotaWord.pack q⟩ := rfl

theorem shadowed_iff {q : Int64} : quotaWord.Shadowed q ↔ q = -1 := by
  have hneg : quotaWord.Shadowed (-1) := rfl
  constructor
  · exact fun h => h.eq hneg
  · rintro rfl
    exact hneg

/-- **What is published is read back** unless it is `-1`. -/
theorem quota_setQuota_iff (d : Derived) (q : Option Int64) : (d.setQuota q).quota = q ↔ q ≠ some (-1) := by
  rw [quota_eq, setQuota_eq, Sentinel.unpack_pack_iff]
  simp only [shadowed_iff]
  constructor
  · rintro h rfl
    exact h (-1) rfl rfl
  · rintro h q rfl rfl
    exact h rfl

end Derived

/-- `adaptive_threshold_bps`. The base is the field that `RateLimiter::new` fills. -/
def RateLimiter.adaptiveThresholdBps (r : RateLimiter) (defaultQuoteUpdateThresholdBps : ℚ) : ℚ :=
  quotaAdaptiveThresholdBps defaultQuoteUpdateThresholdBps r.quota

/-! ## The quotas among the effects -/

/-- The quotas that effects set, in order. -/
def SenderEffect.quotas (es : List (SenderEffect n)) : List ℤ :=
  es.filterMap fun
    | .setQuota quota => some quota
    | _ => none

namespace SenderEffect

theorem quotas_append (as bs : List (SenderEffect n)) : quotas (as ++ bs) = quotas as ++ quotas bs :=
  List.filterMap_append

/-- Order events set no quota. -/
theorem quotas_events (es : List (OrderEvent n)) : quotas (es.map SenderEffect.event) = [] := by
  induction es with
  | nil => rfl
  | cons e es ih => exact ih

/-- An accepted batch sets the quota that its answer carries, one that is rejected for the quota sets
`0`, and no other sets one. -/
theorem quotas_result (signed : SignedBatch n) (result : TxSendResult) :
    quotas (result.effects signed ++ result.lateEffects signed ++ result.finalEffects) =
      match result with
      | .ok quota => quota.toList
      | .rejected .quota => [0]
      | _ => [] := by
  rw [quotas_append, quotas_append]
  cases result with
  | ok quota =>
    have hregister : quotas (if registeredIds signed.ops = [] then [] else
        [.registerClientIds (n := n) (registeredIds signed.ops)]) = [] := by
      split <;> rfl
    have hconfirm : quotas (signed.ops.map fun op => SenderEffect.event (confirmEvent op)) = [] := by
      have h := quotas_events (signed.ops.map confirmEvent)
      rwa [List.map_map] at h
    have hset : quotas (.recordOpsSent signed.ops.length :: (quota.map (SenderEffect.setQuota (n := n))).toList) =
        quota.toList := by
      cases quota <;> rfl
    have hreset : quotas [SenderEffect.resetGlobalBackoff (n := n)] = [] := rfl
    show quotas (_ ++ _ ++ _ ++ _) ++ [] ++ [] = _
    rw [quotas_append, quotas_append, quotas_append, hset, hreset, hregister, hconfirm]
    simp only [List.append_nil]
  | rejected kind =>
    have hlate : quotas ((TxSendResult.rejected kind).lateEffects signed) = [] := by
      unfold TxSendResult.lateEffects
      rw [quotas_append, quotas_events]
      split <;> rfl
    rw [hlate]
    cases kind <;> rfl
  | unknown => rfl
  | notSent =>
    show quotas (List.map _ _) ++ [] ++ [] = []
    rw [quotas_events]
    rfl

end SenderEffect

/-! ## The quota in an answer -/

theorem TxResponse.decode_quota {j : Json} {tx : TxResponse} {q : ℤ} (h : decode j = some tx)
    (hq : tx.volumeQuotaRemaining = some q) : -2 ^ 63 ≤ q ∧ q < 2 ^ 63 := by
  unfold decode at h
  split at h
  · rename_i code message quota _
    obtain ⟨code', -, h⟩ := Option.bind_eq_some_iff.mp h
    obtain ⟨message', -, h⟩ := Option.bind_eq_some_iff.mp h
    obtain ⟨quota', hquota, h⟩ := Option.bind_eq_some_iff.mp h
    cases h
    obtain rfl : quota' = some q := hq
    rcases Json.orDefault_eq_some hquota with ⟨-, hnone⟩ | ⟨v, -, hv⟩
    · cases hnone
    · unfold Json.nullable at hv
      split at hv
      · cases hv
      · obtain ⟨z, hz, hzq⟩ := Option.map_eq_some_iff.mp hv
        cases hzq
        exact Json.asI64_range hz
  · cases h

theorem parseTxResponse_quota {status : ℕ} {body : Option Json} {tx : TxResponse} {q : ℤ}
    (h : parseTxResponse status body = some tx) (hq : tx.volumeQuotaRemaining = some q) :
    -2 ^ 63 ≤ q ∧ q < 2 ^ 63 := by
  unfold parseTxResponse at h
  split at h
  · rename_i tx' hbody
    cases h
    obtain ⟨j, -, hj⟩ := Option.bind_eq_some_iff.mp hbody
    exact TxResponse.decode_quota hj hq
  · split at h
    · cases h
      cases hq
    · cases h

namespace Handling

variable (market : MarketConfig) (render : Json → String) (lower : String → String)

/-- The answer of the transport that the batch takes. -/
def answer (b : Handling n) : TxSendReport :=
  if b.freeSlot b.ops.length then sendFreeSlot b.restErr b.rest else TxWebSocket.sendBatch render b.reply

/-- The batch gets to the transport, and the answer accepts it and carries the quota `q`. -/
def Accepted (r : RateLimiter) (b : Handling n) (q : ℤ) : Prop :=
  b.Transmitted market r ∧ (b.answer render).status = .ok ∧ (b.answer render).quotaRemaining = some q

/-- The effects of a batch; one that does not get to the transport has none. -/
def effects (r : RateLimiter) (b : Handling n) : List (SenderEffect n) :=
  if (r.writeSlot b.ops.length b.gate).2 = false then []
  else if b.halted then []
  else
    match b.signer with
    | none => []
    | some signer =>
      match (signBatch signer b.nonce market b.ops).2 with
      | .error _ => []
      | .ok signed =>
        let result := (b.transport render signed).result lower
        result.effects signed ++ result.lateEffects signed ++ result.finalEffects

variable {market : MarketConfig} {render : Json → String} {lower : String → String} {r : RateLimiter}
  {b : Handling n} {q : ℤ}

/-- The limiter's side of `send_once` is the gate and the effects. -/
theorem sendOnce_effects : (b.sendOnce market render lower r).1 =
    (b.effects market render lower r).foldl (fun r e => r.applyEffect b.after e)
      (r.writeSlot b.ops.length b.gate).1 := by
  unfold sendOnce effects
  simp only
  split
  · rfl
  · split
    · rfl
    · cases b.signer with
      | none => rfl
      | some signer =>
        simp only
        cases (signBatch signer b.nonce market b.ops).2 with
        | error e => rfl
        | ok signed => rfl

/-- A quota that an answer carries is an integer of 64 bits. -/
theorem answer_quota (h : (b.answer render).quotaRemaining = some q) : -2 ^ 63 ≤ q ∧ q < 2 ^ 63 := by
  unfold answer at h
  split at h
  · unfold sendFreeSlot at h
    split at h
    · rename_i tx htx
      obtain ⟨a, -, ha⟩ := Option.bind_eq_some_iff.mp htx
      exact parseTxResponse_quota ha h
    · cases h
  · cases hreply : b.reply with
    | response resp =>
      rw [hreply] at h
      obtain ⟨v, -, hv⟩ := Option.bind_eq_some_iff.mp h
      exact Json.asI64_range hv
    | connectFailed | sendFailed | disconnected | timedOut =>
      rw [hreply] at h
      cases h

theorem effects_stopped (h : ¬ b.Transmitted market r) : b.effects market render lower r = [] := by
  unfold effects
  split
  · rfl
  · rename_i hpass
    split
    · rfl
    · rename_i hhalt
      split
      · rfl
      · rename_i signer hsigner
        split
        · rfl
        · rename_i signed hsigned
          refine absurd ⟨?_, ?_, signer, hsigner, signed, hsigned⟩ h
          · simpa using hpass
          · simpa using hhalt

/-- What a batch that gets to the transport sets is read off the answer. -/
theorem quotas_transmitted (h : b.Transmitted market r) :
    SenderEffect.quotas (b.effects market render lower r) =
      match (b.answer render).result lower with
      | .ok quota => quota.toList
      | .rejected .quota => [0]
      | _ => [] := by
  obtain ⟨hpass, hhalt, signer, hsigner, signed, hsigned⟩ := h
  have hanswer : b.transport render signed = b.answer render := by
    unfold transport answer
    rw [signBatch_txTypes hsigned]
  unfold effects
  simp only [hpass, hhalt, hsigner, hsigned, Bool.true_eq_false, Bool.false_eq_true, if_false]
  rw [SenderEffect.quotas_result, hanswer]

/-- The quotas that a batch sets: the one that it was accepted with, or else `0` or none. -/
theorem quotas_effects (market : MarketConfig) (render : Json → String) (lower : String → String)
    (r : RateLimiter) (b : Handling n) :
    (∃ q, b.Accepted market render r q ∧ SenderEffect.quotas (b.effects market render lower r) = [q]) ∨
      (∀ q, ¬ b.Accepted market render r q) ∧
        (SenderEffect.quotas (b.effects market render lower r) = [0] ∨
          SenderEffect.quotas (b.effects market render lower r) = []) := by
  by_cases htrans : b.Transmitted market r
  · rw [quotas_transmitted htrans]
    unfold Accepted TxSendReport.result
    cases hstatus : (b.answer render).status with
    | ok =>
      cases hquota : (b.answer render).quotaRemaining with
      | none => exact .inr ⟨by simp, .inr rfl⟩
      | some q => exact .inl ⟨q, ⟨htrans, rfl, rfl⟩, rfl⟩
    | rejected =>
      refine .inr ⟨by simp, ?_⟩
      cases classifyReject lower (b.answer render).errMsg with
      | quota => exact .inl rfl
      | rateLimit | nonce | makerOnly | other => exact .inr rfl
    | unknown | notSent => exact .inr ⟨by simp, .inr rfl⟩
  · rw [effects_stopped htrans]
    exact .inr ⟨fun q h => htrans h.1, .inr rfl⟩

end Handling

/-! ## The requote threshold of the hot task -/

namespace HotTask

variable {cfg : HotConfig n} {t : HotTask n} {r : Reads n} {levels : List Level} {args : CollectArgs}

theorem quoteDecision_threshold {position orderSize : ℚ} {hold : Bool}
    (h : t.quoteDecision cfg r position orderSize hold = .ladder levels args) :
    args.effectiveThresholdBps = quotaAdaptiveThresholdBps cfg.defaultQuoteUpdateThresholdBps r.quota := by
  unfold quoteDecision at h
  split at h
  · split at h
    · cases h
      rfl
    · cases h
  · cases h
    rfl

/-- Every ladder is quoted with the threshold of the quota that the call has read. -/
theorem chooseExit_threshold (h : (t.chooseExit cfg r).2.2 = .ladder levels args) :
    args.effectiveThresholdBps = quotaAdaptiveThresholdBps cfg.defaultQuoteUpdateThresholdBps r.quota := by
  have hcases := t.chooseExit_cases cfg r
  generalize t.chooseExit cfg r = q at hcases h
  cases hcases with
  | throttled | gated => cases h
  | opened => exact quoteDecision_threshold h

end HotTask

/-! ## The two copies -/

theorem RateLimiter.resetGlobalBackoffAt_quota {r : RateLimiter} {now : Instant} :
    (r.resetGlobalBackoffAt now).quota = r.quota := by
  unfold resetGlobalBackoffAt
  simp only
  rw [apply_ite RateLimiter.quota, ite_self]

theorem RateLimiter.writeSlot_quota (r : RateLimiter) (n : ℕ) (c : SlotClock) :
    (r.writeSlot n c).1.quota = r.quota := by
  have htime : ∀ (r : RateLimiter) (now : Instant), (r.timeUntilOpsFreeAt n now).1.quota = r.quota := by
    intro r now
    unfold timeUntilOpsFreeAt
    simp only
    split
    · rfl
    · split <;> rfl
  unfold writeSlot
  split
  · rfl
  · unfold windowPhase
    simp only
    split
    · exact htime _ _
    · rfl

/-- The limiter of the sender, and the values that it shares with the hot task. -/
structure QuotaCopies where
  rate : RateLimiter
  derived : Derived

namespace QuotaCopies

def start (rateLimitSendInterval : ℚ) : QuotaCopies := ⟨.new rateLimitSendInterval, .new⟩

/-- The quota that the hot task reads. -/
def published (s : QuotaCopies) : Option ℤ := s.derived.quota.map Int64.toInt

/-- The batch as `send_once` meets it: what is published decides its transport. -/
def meet (s : QuotaCopies) (b : Handling n) : Handling n := { b with quota := s.published }

section

variable (market : MarketConfig) (render : Json → String) (lower : String → String)

/-- `send_once` on both copies. -/
def sendOnce (s : QuotaCopies) (b : Handling n) : QuotaCopies :=
  { rate := ((s.meet b).sendOnce market render lower s.rate).1
    derived := ((s.meet b).effects market render lower s.rate).foldl Derived.applyEffect s.derived }

/-- Both copies after a sequence of batches. -/
def run (s : QuotaCopies) (bs : List (Handling n)) : QuotaCopies := bs.foldl (sendOnce market render lower) s

end

/-- The hot task and the limiter have the same quota: what the hot task reads, and the requote threshold of
every ladder that it quotes with what it has read. -/
structure SameQuota (s : QuotaCopies) : Prop where
  quota : s.published = s.rate.quota
  threshold : ∀ {n : ℕ} (cfg : HotConfig n) (t : HotTask n) (r : Reads n) levels args, r.quota = s.published →
    (t.chooseExit cfg r).2.2 = .ladder levels args →
    args.effectiveThresholdBps = s.rate.adaptiveThresholdBps cfg.defaultQuoteUpdateThresholdBps

/-- `o` is the quota that is behind both copies. -/
structure Holds (o : Option Int64) (s : QuotaCopies) : Prop where
  rate : s.rate.quota = o.map Int64.toInt
  derived : s.derived = Derived.new.setQuota o

/-- The quota after effects. -/
def toldBy (o : Option Int64) (es : List (SenderEffect n)) : Option Int64 :=
  (SenderEffect.quotas es).foldl (fun _ q => some (.ofInt q)) o

variable {s : QuotaCopies} {o : Option Int64} {es : List (SenderEffect n)}

theorem start_holds (rateLimitSendInterval : ℚ) : Holds none (start rateLimitSendInterval) := ⟨rfl, rfl⟩

/-- **Effects move the copies together.** -/
theorem Holds.applyEffects (now : Instant) (h : Holds o s)
    (hrange : ∀ q ∈ SenderEffect.quotas es, -2 ^ 63 ≤ q ∧ q < 2 ^ 63) :
    Holds (toldBy o es)
      ⟨es.foldl (fun r e => r.applyEffect now e) s.rate, es.foldl Derived.applyEffect s.derived⟩ := by
  induction es generalizing s o with
  | nil => exact h
  | cons e es ih =>
    cases e with
    | setQuota q =>
      have hq : (Int64.ofInt q).toInt = q := by
        obtain ⟨hlo, hhi⟩ := hrange q List.mem_cons_self
        exact Int64.toInt_ofInt_of_le hlo hhi
      have hset : Holds (some (.ofInt q)) ⟨s.rate.setQuota (some q), s.derived.setQuota (some (.ofInt q))⟩ :=
        ⟨congrArg some hq.symm, rfl⟩
      exact ih hset fun q' hq' => hrange q' (List.mem_cons_of_mem _ hq')
    | resetGlobalBackoff =>
      have hreset : Holds o ⟨s.rate.resetGlobalBackoffAt now, s.derived⟩ :=
        ⟨RateLimiter.resetGlobalBackoffAt_quota.trans h.rate, h.derived⟩
      exact ih hreset hrange
    | recordOpsSent k =>
      have hrecord : Holds o ⟨s.rate.recordOpsSentAt k now, s.derived⟩ := ⟨h.rate, h.derived⟩
      exact ih hrecord hrange
    | triggerGlobalBackoff =>
      have htrigger : Holds o ⟨s.rate.triggerGlobalBackoffAt now, s.derived⟩ := ⟨h.rate, h.derived⟩
      exact ih htrigger hrange
    | registerClientIds | notifyReconcile | event => exact ih h hrange

/-- **One batch**: the quota behind both copies is the one that the answer told, if it told one. -/
theorem Holds.sendOnce (market : MarketConfig) (render : Json → String) (lower : String → String)
    (b : Handling n) (h : Holds o s) :
    Holds (toldBy o ((s.meet b).effects market render lower s.rate)) (s.sendOnce market render lower b) := by
  have hgate : Holds o ⟨(s.rate.writeSlot b.ops.length b.gate).1, s.derived⟩ :=
    ⟨(s.rate.writeSlot_quota _ _).trans h.rate, h.derived⟩
  have hrange : ∀ q ∈ SenderEffect.quotas ((s.meet b).effects market render lower s.rate),
      -2 ^ 63 ≤ q ∧ q < 2 ^ 63 := by
    intro q hq
    rcases (s.meet b).quotas_effects market render lower s.rate with
      ⟨q', ⟨-, -, hanswer⟩, hquotas⟩ | ⟨-, hquotas | hquotas⟩
    · rw [hquotas, List.mem_singleton] at hq
      rw [hq]
      exact Handling.answer_quota hanswer
    · rw [hquotas, List.mem_singleton] at hq
      rw [hq]
      decide
    · rw [hquotas] at hq
      cases hq
  have hmoved := hgate.applyEffects b.after hrange
  unfold QuotaCopies.sendOnce
  rw [Handling.sendOnce_effects]
  exact hmoved

theorem Holds.published (h : Holds o s) : s.published = if o = some (-1) then none else s.rate.quota := by
  unfold QuotaCopies.published
  rw [h.derived, h.rate]
  split
  · rename_i hneg
    rw [hneg]
    rfl
  · rename_i hne
    rw [(Derived.quota_setQuota_iff _ _).mpr hne]

/-- The copies agree unless the quota behind them is `-1`. -/
theorem Holds.sameQuota_iff (h : Holds o s) : SameQuota s ↔ o ≠ some (-1) := by
  constructor
  · rintro ⟨hquota, -⟩ rfl
    rw [h.published, if_pos rfl, h.rate] at hquota
    cases hquota
  · intro hne
    have hquota : s.published = s.rate.quota := by rw [h.published, if_neg hne]
    refine ⟨hquota, fun cfg t r levels args hread hladder => ?_⟩
    rw [HotTask.chooseExit_threshold hladder, hread, hquota]
    rfl

variable {market : MarketConfig} {render : Json → String} {lower : String → String}

theorem run_concat (s : QuotaCopies) (bs : List (Handling n)) (b : Handling n) :
    s.run market render lower (bs ++ [b]) = (s.run market render lower bs).sendOnce market render lower b := by
  rw [run, List.foldl_append]
  rfl

/-- A batch that is accepted with `-1` tells `-1`. -/
theorem toldBy_accepted {r : RateLimiter} {b : Handling n} (o : Option Int64) (lower : String → String)
    (hacc : b.Accepted market render r (-1)) : toldBy o (b.effects market render lower r) = some (-1) := by
  rcases b.quotas_effects market render lower r with ⟨q, hq, hquotas⟩ | ⟨hno, -⟩
  · obtain rfl : q = -1 := Option.some.inj (hq.2.2.symm.trans hacc.2.2)
    rw [toldBy, hquotas]
    rfl
  · exact absurd hacc (hno (-1))

/-- No other batch does. -/
theorem toldBy_ne {r : RateLimiter} {b : Handling n} (lower : String → String) (ho : o ≠ some (-1))
    (hacc : ¬ b.Accepted market render r (-1)) : toldBy o (b.effects market render lower r) ≠ some (-1) := by
  rcases b.quotas_effects market render lower r with ⟨q, hq, hquotas⟩ | ⟨-, hquotas | hquotas⟩
  · rw [toldBy, hquotas]
    intro htold
    -- No other integer of 64 bits has the word of `-1`.
    have hq' : q = -1 := by
      obtain ⟨hlo, hhi⟩ := Handling.answer_quota hq.2.2
      have hback : (Int64.ofInt q).toInt = q := Int64.toInt_ofInt_of_le hlo hhi
      rw [← hback, Option.some.inj htold]
      rfl
    exact hacc (hq' ▸ hq)
  · rw [toldBy, hquotas]
    show some (Int64.ofInt 0) ≠ some (-1)
    decide
  · rw [toldBy, hquotas]
    exact ho

/-- **A run** keeps one quota behind both copies, and it is not `-1` unless a batch is accepted with it. -/
theorem run_holds (market : MarketConfig) (render : Json → String) (lower : String → String)
    (rateLimitSendInterval : ℚ) (bs : List (Handling n)) :
    ∃ o, Holds o ((start rateLimitSendInterval).run market render lower bs) ∧
      ((∀ pre b post, bs = pre ++ b :: post →
          ¬ (((start rateLimitSendInterval).run market render lower pre).meet b).Accepted market render
            ((start rateLimitSendInterval).run market render lower pre).rate (-1)) →
        o ≠ some (-1)) := by
  induction bs using List.reverseRecOn with
  | nil => exact ⟨none, start_holds _, fun _ => by decide⟩
  | append_singleton bs b ih =>
    obtain ⟨o, ho, hne⟩ := ih
    rw [run_concat]
    refine ⟨_, ho.sendOnce market render lower b, fun hno => toldBy_ne lower (hne ?_) (hno bs b [] rfl)⟩
    exact fun pre b' post hsplit => hno pre b' (post ++ [b]) (by simp [hsplit])

/-- **The hot path and the limiter see the same quota** after every outcome of a sequence of batches if and
only if no batch of it is accepted with a remaining quota of `-1`. -/
theorem same_quota_iff (market : MarketConfig) (render : Json → String) (lower : String → String)
    (rateLimitSendInterval : ℚ) (bs : List (Handling n)) :
    (∀ pre b post, bs = pre ++ b :: post →
        SameQuota ((start rateLimitSendInterval).run market render lower (pre ++ [b]))) ↔
      ∀ pre b post, bs = pre ++ b :: post →
        ¬ (((start rateLimitSendInterval).run market render lower pre).meet b).Accepted market render
          ((start rateLimitSendInterval).run market render lower pre).rate (-1) := by
  constructor
  · intro hsame pre b post hsplit hacc
    obtain ⟨o, ho, -⟩ := run_holds market render lower rateLimitSendInterval pre
    have hnext := ho.sendOnce market render lower b
    rw [toldBy_accepted o lower hacc, ← run_concat] at hnext
    exact hnext.sameQuota_iff.mp (hsame pre b post hsplit) rfl
  · intro hno pre b post hsplit
    obtain ⟨o, ho, hne⟩ := run_holds market render lower rateLimitSendInterval (pre ++ [b])
    refine ho.sameQuota_iff.mpr (hne fun pre' b' post' h => hno pre' b' (post' ++ post) ?_)
    rw [hsplit, ← List.cons_append, ← List.append_assoc, ← h, List.append_assoc]
    rfl

/-- A Create that passes the gate at second `1`, is signed, and is accepted with a remaining quota of `-1`. -/
def acceptedCreate : Handling 1 :=
  { Handling.timedOutCreate with
    reply := .response (.obj [("code", .int 200), ("volume_quota_remaining", .int (-1))]) }

def overdrawn : QuotaCopies :=
  (start (1 / 10)).run ⟨1, 1 / 10, 1 / 100000, 1 / 5000, 10⟩ (fun _ => "") id [acceptedCreate]

/-- After it the limiter paces with the quota `-1` and the widest threshold, and the hot task quotes with
the base. -/
theorem overdrawn_copies : overdrawn.published = none ∧ overdrawn.rate.quota = some (-1) ∧
    quotaAdaptiveThresholdBps 8 overdrawn.published = 8 ∧ overdrawn.rate.adaptiveThresholdBps 8 = 40 := by
  decide +kernel

/-- **A quota of `-1` is published as an unknown one.** -/
theorem quota_copies_differ :
    ¬ ∀ (market : MarketConfig) (render : Json → String) (lower : String → String) (rateLimitSendInterval : ℚ)
        (bs pre : List (Handling 1)) (b : Handling 1) (post : List (Handling 1)), bs = pre ++ b :: post →
      SameQuota ((start rateLimitSendInterval).run market render lower (pre ++ [b])) := by
  intro h
  have hsame : SameQuota overdrawn :=
    h ⟨1, 1 / 10, 1 / 100000, 1 / 5000, 10⟩ (fun _ => "") id (1 / 10) [acceptedCreate] [] acceptedCreate [] rfl
  obtain ⟨hpublished, hquota, -, -⟩ := overdrawn_copies
  have hcopies := hsame.quota
  rw [hpublished, hquota] at hcopies
  cases hcopies

end QuotaCopies

end LighterMM
