import LighterMM.Types

/-!
# Optimistic nonce manager (`lighter/nonce.rs`)
-/

namespace LighterMM

/-- One counter: the last nonce that was reserved. -/
structure NonceManager where
  accountIndex : ℤ
  apiKeyIndex : ℤ
  nonce : ℤ
  deriving DecidableEq, Repr

namespace NonceManager

/-- Stores `N - 1` of the fetched `N`, so the first `next` yields `N`. -/
def init (nextNonce accountIndex apiKeyIndex : ℤ) : NonceManager :=
  ⟨accountIndex, apiKeyIndex, nextNonce - 1⟩

/-- Reserves and returns the next nonce. -/
def next (nm : NonceManager) : ℤ × NonceManager := (nm.nonce + 1, { nm with nonce := nm.nonce + 1 })

def acknowledgeFailure (nm : NonceManager) : NonceManager := { nm with nonce := nm.nonce - 1 }

/-- Rolls back `k` reserved nonces in one shot. -/
def rollback (nm : NonceManager) (k : ℕ) : NonceManager :=
  if 0 < k then { nm with nonce := nm.nonce - k } else nm

/-- Resets the counter from the fetched next nonce; a failed fetch changes nothing. The flag is
`Ok`. -/
def hardRefresh (nm : NonceManager) (reply : Option ℤ) : NonceManager × Bool :=
  match reply with
  | some n => ({ nm with nonce := n - 1 }, true)
  | none => (nm, false)

@[simp] theorem rollback_nonce (nm : NonceManager) (k : ℕ) : (nm.rollback k).nonce = nm.nonce - k := by
  unfold rollback
  split
  · rfl
  · have : k = 0 := by omega
    simp [this]

/-- `k` acknowledged failures are one rollback of `k`. -/
theorem acknowledgeFailure_iterate (nm : NonceManager) (k : ℕ) :
    acknowledgeFailure^[k] nm = { nm with nonce := nm.nonce - k } := by
  induction k with
  | zero => simp
  | succ k ih =>
    rw [Function.iterate_succ_apply', ih, acknowledgeFailure]
    congr 1
    push_cast
    omega

end NonceManager

end LighterMM
