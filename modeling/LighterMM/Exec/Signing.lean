import LighterMM.Lighter.Nonce

/-!
# Batch signing (`exec/signing.rs`)

The native signer is a parameter: a function from the request to the signed transaction, `none`
where it reports an error. Each request of a batch has its own nonce, so such a function can
answer each call of the batch in its own way.
-/

namespace LighterMM

/-- A call of the native signer. -/
inductive SignRequest where
  | createOrder (marketIndex clientOrderIndex baseAmount price : ℤ) (isAsk : Bool)
      (orderType timeInForce : ℤ) (reduceOnly : Bool) (triggerPrice orderExpiry nonce apiKeyIndex : ℤ)
  | modifyOrder (marketIndex orderIndex baseAmount price triggerPrice nonce apiKeyIndex : ℤ)
  | cancelOrder (marketIndex orderIndex nonce apiKeyIndex : ℤ)
  | cancelAllOrders (timeInForce time nonce apiKeyIndex : ℤ)
  deriving DecidableEq, Repr

structure SignedTx where
  txType : ℕ
  txInfo : String
  deriving DecidableEq, Repr

abbrev Signer := SignRequest → Option SignedTx

def orderTypeLimit : ℤ := 0

/-- `TIF_POST_ONLY`. -/
def tifPostOnly : ℤ := 2

def cancelAllTifImmediate : ℤ := 0

/-- `u32::MAX`. -/
def u32Max : ℤ := 4294967295

/-- `as i32` of a value in the range of `u32`: the same bit pattern. -/
def asI32 (x : ℤ) : ℤ := if x < 2147483648 then x else x - 4294967296

/-- Parallel arrays for the wire and the ops that were signed. -/
structure SignedBatch (n : ℕ) where
  txTypes : List ℕ
  txInfos : List String
  ops : List (BatchOp n)
  deriving DecidableEq, Repr

inductive SignError where
  | createPriceRange (priceRaw : ℤ)
  | missingExchangeId (action : OrderAction) (clientOrderId : ℤ)
  | signFailed (action : OrderAction)
  deriving DecidableEq, Repr

/-- The request that signs one op with nonce `k`, or the check that the op fails. -/
def signRequest {n : ℕ} (market : MarketConfig) (aki : ℤ) (op : BatchOp n) (k : ℤ) :
    Except SignError SignRequest :=
  match op.action with
  | .create =>
    let priceRaw := toRaw op.price market.priceTick
    -- The create struct's `Price` is a `u32`.
    if priceRaw < 0 ∨ u32Max < priceRaw then .error (.createPriceRange priceRaw)
    else
      .ok (.createOrder (asI32 market.marketId) op.clientOrderId (toRaw op.size market.amountTick)
        (asI32 priceRaw) op.side.isAsk orderTypeLimit tifPostOnly op.reduceOnly 0 (-1) k aki)
  | .modify =>
    match op.exchangeId with
    | none => .error (.missingExchangeId .modify op.clientOrderId)
    | some e =>
      .ok (.modifyOrder (asI32 market.marketId) e (toRaw op.size market.amountTick)
        (toRaw op.price market.priceTick) 0 k aki)
  | .cancel =>
    match op.exchangeId with
    | none => .error (.missingExchangeId .cancel op.clientOrderId)
    | some e => .ok (.cancelOrder (asI32 market.marketId) e k aki)

/-- Signs one op: the request, then the native call. -/
def signOp {n : ℕ} (signer : Signer) (market : MarketConfig) (aki : ℤ) (op : BatchOp n) (k : ℤ) :
    Except SignError SignedTx :=
  match signRequest market aki op k with
  | .error e => .error e
  | .ok req =>
    match signer req with
    | some tx => .ok tx
    | none => .error (.signFailed op.action)

/-- The loop of `sign_batch` with `reserved` nonces taken so far. Any failure acknowledges all of
them. -/
def signLoop {n : ℕ} (signer : Signer) (market : MarketConfig) :
    List (BatchOp n) → ℕ → NonceManager → SignedBatch n → NonceManager × Except SignError (SignedBatch n)
  | [], _, nm, acc => (nm, .ok acc)
  | op :: rest, reserved, nm, acc =>
    let (k, nm) := nm.next
    match signOp signer market nm.apiKeyIndex op k with
    | .error e => (NonceManager.acknowledgeFailure^[reserved + 1] nm, .error e)
    | .ok tx =>
      signLoop signer market rest (reserved + 1) nm
        ⟨acc.txTypes ++ [tx.txType], acc.txInfos ++ [tx.txInfo], acc.ops ++ [op]⟩

/-- Signs every op in order. -/
def signBatch {n : ℕ} (signer : Signer) (nm : NonceManager) (market : MarketConfig)
    (ops : List (BatchOp n)) : NonceManager × Except SignError (SignedBatch n) :=
  signLoop signer market ops 0 nm ⟨[], [], []⟩

/-- The loop's outcome, by its result: all ops signed with one nonce each, or the counter back
where the batch began. -/
theorem signLoop_spec {n : ℕ} {signer : Signer} {market : MarketConfig} (ops : List (BatchOp n))
    (reserved : ℕ) (nm : NonceManager) (acc : SignedBatch n) :
    (∀ sb, (signLoop signer market ops reserved nm acc).2 = .ok sb →
      (signLoop signer market ops reserved nm acc).1 = { nm with nonce := nm.nonce + ops.length } ∧
      sb.ops = acc.ops ++ ops) ∧
    (∀ e, (signLoop signer market ops reserved nm acc).2 = .error e →
      (signLoop signer market ops reserved nm acc).1 = { nm with nonce := nm.nonce - reserved }) := by
  induction ops generalizing reserved nm acc with
  | nil =>
    constructor
    · intro sb h
      cases h
      simp [signLoop]
    · intro e h
      cases h
  | cons op ops ih =>
    have hback : nm.nonce + 1 - ((reserved + 1 : ℕ) : ℤ) = nm.nonce - reserved := by
      push_cast
      omega
    simp only [signLoop, NonceManager.next]
    split
    · constructor
      · intro sb h
        cases h
      · intro e h
        rw [NonceManager.acknowledgeFailure_iterate, hback]
    · rename_i tx _
      obtain ⟨hok, herr⟩ := ih (reserved + 1) { nm with nonce := nm.nonce + 1 }
        ⟨acc.txTypes ++ [tx.txType], acc.txInfos ++ [tx.txInfo], acc.ops ++ [op]⟩
      constructor
      · intro sb h
        obtain ⟨h₁, h₂⟩ := hok sb h
        have hlen : nm.nonce + 1 + (ops.length : ℤ) = nm.nonce + ((op :: ops).length : ℤ) := by
          push_cast [List.length_cons]
          omega
        rw [h₁, h₂, hlen]
        exact ⟨rfl, by simp⟩
      · intro e h
        rw [herr e h, hback]

/-- **Signing is all or nothing on the nonce**: it reserves one nonce for each op, or none. -/
theorem signBatch_ok {n : ℕ} {signer : Signer} {market : MarketConfig} {nm : NonceManager}
    {ops : List (BatchOp n)} {sb : SignedBatch n} (h : (signBatch signer nm market ops).2 = .ok sb) :
    (signBatch signer nm market ops).1 = { nm with nonce := nm.nonce + ops.length } ∧ sb.ops = ops := by
  obtain ⟨h₁, h₂⟩ := (signLoop_spec ops 0 nm ⟨[], [], []⟩).1 sb h
  exact ⟨h₁, by simpa using h₂⟩

theorem signBatch_error {n : ℕ} {signer : Signer} {market : MarketConfig} {nm : NonceManager}
    {ops : List (BatchOp n)} {e : SignError} (h : (signBatch signer nm market ops).2 = .error e) :
    (signBatch signer nm market ops).1 = nm := by
  have := (signLoop_spec ops 0 nm ⟨[], [], []⟩).2 e h
  simpa [signBatch] using this

/-! ## The transactions of a batch -/

/-- The nonce that a request carries. -/
def SignRequest.nonce : SignRequest → ℤ
  | .createOrder _ _ _ _ _ _ _ _ _ _ k _ => k
  | .modifyOrder _ _ _ _ _ k _ => k
  | .cancelOrder _ _ k _ => k
  | .cancelAllOrders _ _ k _ => k

variable {n : ℕ} {signer : Signer} {market : MarketConfig} {aki k : ℤ} {op : BatchOp n}

theorem signRequest_nonce {req : SignRequest} (h : signRequest market aki op k = .ok req) : req.nonce = k := by
  unfold signRequest at h
  cases hact : op.action with
  | create =>
    simp only [hact] at h
    split_ifs at h
    cases h
    rfl
  | modify =>
    cases hid : op.exchangeId with
    | none => simp [hact, hid] at h
    | some e =>
      simp only [hact, hid] at h
      cases h
      rfl
  | cancel =>
    cases hid : op.exchangeId with
    | none => simp [hact, hid] at h
    | some e =>
      simp only [hact, hid] at h
      cases h
      rfl

theorem signOp_ok {tx : SignedTx} (h : signOp signer market aki op k = .ok tx) :
    ∃ req, signRequest market aki op k = .ok req ∧ req.nonce = k ∧ signer req = some tx := by
  unfold signOp at h
  cases hreq : signRequest market aki op k with
  | error e =>
    rw [hreq] at h
    cases h
  | ok req =>
    rw [hreq] at h
    simp only at h
    cases htx : signer req with
    | none =>
      rw [htx] at h
      cases h
    | some tx' =>
      rw [htx] at h
      cases h
      exact ⟨req, rfl, signRequest_nonce hreq, htx⟩

/-- The transactions the loop adds: one for each op, signed with the next nonce. -/
theorem signLoop_signed (ops : List (BatchOp n)) (reserved : ℕ) (nm : NonceManager) (acc : SignedBatch n)
    {sb : SignedBatch n} (h : (signLoop signer market ops reserved nm acc).2 = .ok sb) :
    ∃ txs : List SignedTx, txs.length = ops.length ∧ sb.txTypes = acc.txTypes ++ txs.map (·.txType) ∧
      sb.txInfos = acc.txInfos ++ txs.map (·.txInfo) ∧
      ∀ i (hi : i < ops.length) (hi' : i < txs.length),
        signOp signer market nm.apiKeyIndex ops[i] (nm.nonce + (i + 1)) = .ok txs[i] := by
  induction ops generalizing reserved nm acc with
  | nil =>
    cases h
    exact ⟨[], rfl, by simp, by simp, fun i hi => absurd hi (Nat.not_lt_zero i)⟩
  | cons op ops ih =>
    simp only [signLoop, NonceManager.next] at h
    cases hop : signOp signer market nm.apiKeyIndex op (nm.nonce + 1) with
    | error e =>
      rw [hop] at h
      cases h
    | ok tx =>
      rw [hop] at h
      obtain ⟨txs, hlen, htypes, hinfos, hsigned⟩ := ih _ _ _ h
      refine ⟨tx :: txs, by simp [hlen], by simp [htypes], by simp [hinfos], fun i hi hi' => ?_⟩
      cases i with
      | zero => simpa using hop
      | succ i =>
        have hnext := hsigned i (by simpa using hi) (by simpa using hi')
        simp only [List.getElem_cons_succ]
        rw [← hnext]
        push_cast
        congr 1
        omega

/-- **Signing is all or nothing**: an error leaves the counter, and otherwise there is one transaction for each
op, in order, signed with the nonces after the counter, which has advanced past them. -/
theorem signBatch_all_or_nothing (signer : Signer) (nm : NonceManager) (market : MarketConfig)
    (ops : List (BatchOp n)) :
    (∃ e, signBatch signer nm market ops = (nm, .error e)) ∨
      ∃ txs : List SignedTx, txs.length = ops.length ∧
        signBatch signer nm market ops = ({ nm with nonce := nm.nonce + ops.length },
          .ok ⟨txs.map (·.txType), txs.map (·.txInfo), ops⟩) ∧
        ∀ i (hi : i < ops.length) (hi' : i < txs.length), ∃ req,
          signRequest market nm.apiKeyIndex ops[i] (nm.nonce + (i + 1)) = .ok req ∧
            req.nonce = nm.nonce + (i + 1) ∧ signer req = some txs[i] := by
  cases hout : (signBatch signer nm market ops).2 with
  | error e => exact .inl ⟨e, Prod.ext (signBatch_error hout) hout⟩
  | ok sb =>
    obtain ⟨hnm, hops⟩ := signBatch_ok hout
    obtain ⟨txs, hlen, htypes, hinfos, hsigned⟩ := signLoop_signed ops 0 nm ⟨[], [], []⟩ hout
    have hsb : sb = ⟨txs.map (·.txType), txs.map (·.txInfo), ops⟩ := by
      cases sb
      simp only [List.nil_append] at htypes hinfos hops
      subst htypes hinfos hops
      rfl
    exact .inr ⟨txs, hlen, Prod.ext hnm (hout.trans (congrArg _ hsb)), fun i hi hi' =>
      signOp_ok (hsigned i hi hi')⟩

end LighterMM
