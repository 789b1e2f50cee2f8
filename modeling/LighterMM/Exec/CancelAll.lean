import LighterMM.Exec.Signing
import LighterMM.Lighter.Venue
import LighterMM.Risk

/-!
# The trading desk: what `sdk_lock` serialises (`orchestrator.rs`)

`Desk` is the state that the transactions of the bot read and write: the nonce counter and its
trust flag, the risk controller and the exchange. `cancelAllOrders` and `cancelAllAndVerify` run
at startup, at shutdown, in the dead-man switch and after a bad outcome; `orphanCancel` is the
reconcile poller's cancel of one order it does not know.

What the signer, the transport and the refreshes answer is an argument (a `script`), so a theorem
for every script is one for every such answer.
-/

namespace LighterMM

structure Desk (n : ℕ) where
  nonce : NonceManager
  nonceOk : Bool
  risk : RiskController
  venue : Venue n
  deriving DecidableEq, Repr

/-- What becomes of a transaction that was sent: the exchange accepts it, rejects it, or the
transport fails, before or after the exchange took it. -/
inductive TxFate where
  | accepted
  | rejected
  | transportErr (consumed : Bool)
  deriving DecidableEq, Repr

def TxFate.consumed : TxFate → Bool
  | .accepted => true
  | .rejected => false
  | .transportErr c => c

/-- The reply was a success code. -/
def TxFate.isOk : TxFate → Bool
  | .accepted => true
  | _ => false

/-- The answers of one attempt of `cancel_all_and_verify`: whether the signer signs, the fate of the
transaction, whether a refresh succeeds, and whether the active orders can be read. -/
structure CancelAttempt where
  signs : Bool
  fate : TxFate
  refreshes : Bool
  reads : Bool
  deriving DecidableEq, Repr

/-- The answers of one orphan cancel. -/
structure OrphanScript where
  signs : Bool
  fate : TxFate
  refreshes : Bool
  deriving DecidableEq, Repr

namespace Desk

variable {n : ℕ}

/-- `hard_refresh`: a successful one reads the nonce that the exchange expects. -/
def hardRefresh (d : Desk n) (ok : Bool) : Desk n × Bool :=
  let r := d.nonce.hardRefresh (if ok then some d.venue.nextNonce else none)
  ({ d with nonce := r.1 }, r.2)

/-- Signs and sends a cancel-all. The flag is `Ok`. -/
def cancelAllOrders (d : Desk n) (signs : Bool) (fate : TxFate) : Desk n × Bool :=
  let d := { d with nonce := d.nonce.next.2 }
  if !signs then ({ d with nonce := d.nonce.acknowledgeFailure }, false)
  else
    ({ d with venue := if fate.consumed then d.venue.cancelAll else d.venue }, fate.isOk)

/-- One attempt: the cancel-all, a refresh after an error, then the active orders. The flag is a
confirmed flat book. -/
def cancelAttempt (d : Desk n) (a : CancelAttempt) : Desk n × Bool :=
  let r := d.cancelAllOrders a.signs a.fate
  -- `let _ = nonce.hard_refresh(rest).await`: its failure is not looked at.
  let d := if r.2 then r.1 else (r.1.hardRefresh a.refreshes).1
  (d, a.reads && d.venue.live.isEmpty)

def cancelLoop : List CancelAttempt → Desk n → Desk n × Bool
  | [], d => (d, false)
  | a :: rest, d =>
    let r := d.cancelAttempt a
    if r.2 then (r.1, true) else cancelLoop rest r.1

/-- Cancel-all with up to five attempts, until the book reads flat. -/
def cancelAllAndVerify (d : Desk n) (script : Fin 5 → CancelAttempt) : Desk n × Bool :=
  cancelLoop ((List.finRange 5).map script) d

/-- `if nm.hard_refresh(..).is_err() { nok.store(false) }`. -/
def refreshOrDistrust (d : Desk n) (ok : Bool) : Desk n :=
  let r := d.hardRefresh ok
  if r.2 then r.1 else { r.1 with nonceOk := false }

/-- The poller's cancel of an order that no slot tracks. -/
def orphanCancel (d : Desk n) (orderIndex : ℤ) (s : OrphanScript) : Desk n :=
  let d := { d with nonce := d.nonce.next.2 }
  if !s.signs then { d with nonce := d.nonce.acknowledgeFailure }
  else
    let d := { d with venue := if s.fate.consumed then d.venue.cancelOne orderIndex else d.venue }
    if s.fate.isOk then d else d.refreshOrDistrust s.refreshes

/-- The poller's re-sync of an untrusted nonce. -/
def resyncNonce (d : Desk n) (ok : Bool) : Desk n :=
  let r := d.hardRefresh ok
  if r.2 then { r.1 with nonceOk := true } else r.1

/-! ## What a cancel-all leaves alone -/

/-- A cancel-all keeps the risk controller, the trust flag and the orders ever created, and it
leaves the resting orders or empties them. -/
structure CancelFrame (d d' : Desk n) : Prop where
  risk : d'.risk = d.risk
  nonceOk : d'.nonceOk = d.nonceOk
  created : d'.venue.created = d.venue.created
  live : d'.venue.live = d.venue.live ∨ d'.venue.live = []

theorem CancelFrame.refl (d : Desk n) : CancelFrame d d := ⟨rfl, rfl, rfl, .inl rfl⟩

theorem CancelFrame.trans {d d' d'' : Desk n} (h : CancelFrame d d') (h' : CancelFrame d' d'') :
    CancelFrame d d'' where
  risk := h'.risk.trans h.risk
  nonceOk := h'.nonceOk.trans h.nonceOk
  created := h'.created.trans h.created
  live := by
    rcases h'.live with he | he
    · rw [he]; exact h.live
    · exact .inr he

theorem hardRefresh_frame (d : Desk n) (ok : Bool) : CancelFrame d (d.hardRefresh ok).1 :=
  ⟨rfl, rfl, rfl, .inl rfl⟩

theorem cancelAllOrders_frame (d : Desk n) (signs : Bool) (fate : TxFate) :
    CancelFrame d (d.cancelAllOrders signs fate).1 := by
  unfold cancelAllOrders
  cases signs with
  | false => exact ⟨rfl, rfl, rfl, .inl rfl⟩
  | true =>
    cases fate.consumed with
    | false => exact ⟨rfl, rfl, rfl, .inl rfl⟩
    | true => exact ⟨rfl, rfl, rfl, .inr rfl⟩

theorem cancelAttempt_frame (d : Desk n) (a : CancelAttempt) :
    CancelFrame d (d.cancelAttempt a).1 := by
  unfold cancelAttempt
  simp only
  split
  · exact cancelAllOrders_frame d a.signs a.fate
  · exact (cancelAllOrders_frame d a.signs a.fate).trans (hardRefresh_frame _ _)

theorem cancelLoop_frame (as : List CancelAttempt) (d : Desk n) : CancelFrame d (cancelLoop as d).1 := by
  induction as generalizing d with
  | nil => exact .refl d
  | cons a as ih =>
    unfold cancelLoop
    simp only
    split
    · exact cancelAttempt_frame d a
    · exact (cancelAttempt_frame d a).trans (ih _)

theorem cancelAllAndVerify_frame (d : Desk n) (script : Fin 5 → CancelAttempt) :
    CancelFrame d (d.cancelAllAndVerify script).1 :=
  cancelLoop_frame _ d

/-- **A verified book is flat.** -/
theorem cancelAllAndVerify_flat {d : Desk n} {script : Fin 5 → CancelAttempt}
    (h : (d.cancelAllAndVerify script).2 = true) :
    (d.cancelAllAndVerify script).1.venue.live = [] := by
  have hloop : ∀ (as : List CancelAttempt) (d : Desk n), (cancelLoop as d).2 = true →
      (cancelLoop as d).1.venue.live = [] := by
    intro as
    induction as with
    | nil => intro d h; cases h
    | cons a as ih =>
      intro d h
      unfold cancelLoop at h ⊢
      simp only at h ⊢
      split at h
      · rename_i hflat
        rw [if_pos hflat]
        simp only [cancelAttempt, Bool.and_eq_true, List.isEmpty_iff] at hflat ⊢
        exact hflat.2
      · rename_i hflat
        rw [if_neg hflat]
        exact ih _ h
  exact hloop _ d h

/-- An orphan cancel creates nothing, does not touch the risk controller, and never makes the nonce
trusted. -/
structure OrphanFrame (d d' : Desk n) : Prop where
  risk : d'.risk = d.risk
  nonceOk : d'.nonceOk = true → d.nonceOk = true
  created : d'.venue.created = d.venue.created
  live : d'.venue.live.Sublist d.venue.live

theorem OrphanFrame.refresh {d d' : Desk n} (h : OrphanFrame d d') (ok : Bool) :
    OrphanFrame d (d'.refreshOrDistrust ok) := by
  cases ok with
  | true => exact ⟨h.risk, h.nonceOk, h.created, h.live⟩
  | false => exact ⟨h.risk, fun hf => Bool.noConfusion hf, h.created, h.live⟩

theorem orphanCancel_frame (d : Desk n) (eid : ℤ) (s : OrphanScript) :
    OrphanFrame d (d.orphanCancel eid s) := by
  have hsame : OrphanFrame d { d with nonce := d.nonce.next.2 } := ⟨rfl, id, rfl, .refl _⟩
  have hcut : OrphanFrame d { d with nonce := d.nonce.next.2, venue := d.venue.cancelOne eid } :=
    ⟨rfl, id, rfl, List.filter_sublist⟩
  obtain ⟨signs, fate, refreshes⟩ := s
  unfold orphanCancel
  cases signs with
  | false => exact ⟨rfl, id, rfl, .refl _⟩
  | true =>
    cases fate with
    | accepted => exact hcut
    | rejected => exact hsame.refresh refreshes
    | transportErr c =>
      cases c with
      | false => exact hsame.refresh refreshes
      | true => exact hcut.refresh refreshes

end Desk

end LighterMM
