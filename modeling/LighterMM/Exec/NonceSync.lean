import LighterMM.Exec.PacedSend
import LighterMM.Lib.Trans

/-!
# Is a trusted nonce in sync?

The nonce counter moves only inside critical sections under `sdk_lock`: a batch of the sender, an
orphan cancel, a cancel-all, the poller's re-sync. `Section` lists them with everything their
surroundings may answer, and a run of the desk is a list of sections.

The batch path restores the counter or withdraws the trust on every branch (`settleResult_inSync`),
and so does the orphan cancel (`orphanCancel_inSync`). `cancel_all_and_verify` does neither when
the refresh after a lost cancel-all fails: the counter ends in sync iff each such loss is made good
by a later refresh of the same call (`cancelLoop_inSync_iff`, `LossRecovered`).
-/

namespace LighterMM

/-- A critical section under `sdk_lock`. -/
inductive Section (n : ℕ) where
  | sendOnce (now : Instant) (signer : Signer) (market : MarketConfig) (ops : List (BatchOp n))
      (result : TxSendResult) (consumed : Bool) (refreshes : Fin 3 → Bool)
      (attempts : Fin 5 → CancelAttempt)
  /-- The signing task dies (`JoinError`) with `reserved` nonces taken. -/
  | signTaskDied (reserved : ℕ)
  | orphanCancel (orderIndex : ℤ) (script : OrphanScript)
  | cancelAllAndVerify (attempts : Fin 5 → CancelAttempt)
  | resyncNonce (ok : Bool)

/-- A cancel-all that the exchange did not take, with no refresh after it. -/
def CancelAttempt.lost (a : CancelAttempt) : Bool := a.signs && !a.fate.consumed && !a.refreshes

/-- An attempt that ends in an error and a successful refresh. -/
def CancelAttempt.recovers (a : CancelAttempt) : Bool := !(a.signs && a.fate.isOk) && a.refreshes

/-- The attempts that a call makes: up to the first that reads a flat book. -/
def attemptsMade : List CancelAttempt → Bool → List CancelAttempt
  | [], _ => []
  | a :: rest, flat =>
    let flat := flat || (a.signs && a.fate.consumed)
    a :: if a.reads && flat then [] else attemptsMade rest flat

/-- Every loss is followed, in the same call, by an attempt that recovers. -/
def LossRecovered : List CancelAttempt → Prop
  | [] => True
  | a :: rest => LossRecovered rest ∧ (a.lost = true → ∃ b ∈ rest, b.recovers = true)

instance : DecidablePred LossRecovered := fun as =>
  as.rec (.isTrue trivial) fun _ _ ih => @instDecidableAnd _ _ ih inferInstance

namespace Desk

variable {n : ℕ}

/-- The desk at startup: the fetched nonce, trusted. -/
def start (n : ℕ) (nextNonce accountIndex apiKeyIndex : ℤ) (risk : RiskController) : Desk n where
  nonce := .init nextNonce accountIndex apiKeyIndex
  nonceOk := true
  risk := risk
  venue := .init n nextNonce

/-- The counter plus one is the nonce that the exchange expects. -/
def InSync (d : Desk n) : Prop := d.nonce.nonce + 1 = d.venue.nextNonce

/-- A trusted nonce is in sync. -/
def TrustedInSync (d : Desk n) : Prop := d.nonceOk = true → d.InSync

/-- The desk after the batch of a section was signed and sent. -/
def afterSend (d : Desk n) (nm : NonceManager) (ops : List (BatchOp n)) (r : TxSendResult)
    (consumed : Bool) : Desk n :=
  { d with nonce := nm }.transmit ops r consumed

def runSection (d : Desk n) : Section n → Desk n
  | .sendOnce now signer market ops r consumed refreshes attempts =>
    match signBatch signer d.nonce market ops with
    | (nm, .error _) => { d with nonce := nm }
    | (nm, .ok signed) =>
      (d.afterSend nm signed.ops r consumed).handleResult now signed.ops.length r refreshes attempts
  | .signTaskDied reserved => { d with nonce := { d.nonce with nonce := d.nonce.nonce + reserved } }
  | .orphanCancel orderIndex script => d.orphanCancel orderIndex script
  | .cancelAllAndVerify attempts => (d.cancelAllAndVerify attempts).1
  | .resyncNonce ok => d.resyncNonce ok

/-- A section as a step. -/
def sectionStep (d : Desk n) (a : Section n) : Option (Desk n) := some (d.runSection a)

/-- A cancel-all that starts with a trusted nonce makes good its losses. -/
def CancelRecovers (d : Desk n) (attempts : Fin 5 → CancelAttempt) : Prop :=
  d.nonceOk = true →
    LossRecovered (attemptsMade ((List.finRange 5).map attempts) d.venue.live.isEmpty)

/-- The sections that keep a trusted nonce in sync: their cancel-all makes good its losses, and a
signing task that dies has taken no nonce. -/
def SectionRecovers (d : Desk n) : Section n → Prop
  | .sendOnce now signer market ops r consumed refreshes attempts =>
    match signBatch signer d.nonce market ops with
    | (_, .error _) => True
    | (nm, .ok signed) =>
      let d := (d.afterSend nm signed.ops r consumed).settleResult now signed.ops.length r refreshes
      d.cancelsAfter now r = true → d.CancelRecovers attempts
  | .signTaskDied reserved => d.nonceOk = true → reserved = 0
  | .cancelAllAndVerify attempts => d.CancelRecovers attempts
  | .orphanCancel .. => True
  | .resyncNonce _ => True

/-! ## The cancel-all -/

/-- By how much the counter is ahead. -/
def drift (d : Desk n) : ℤ := d.nonce.nonce + 1 - d.venue.nextNonce

theorem inSync_iff_drift {d : Desk n} : d.InSync ↔ d.drift = 0 := by
  unfold InSync drift
  omega

/-- The drift after one attempt. -/
theorem cancelAttempt_drift (d : Desk n) (a : CancelAttempt) :
    (d.cancelAttempt a).1.drift =
      if a.recovers then 0 else if a.lost then d.drift + 1 else d.drift := by
  obtain ⟨signs, fate, refreshes, reads⟩ := a
  cases signs <;> cases refreshes <;> rcases fate with _ | _ | _ | _ <;>
    simp [cancelAttempt, cancelAllOrders, hardRefresh, NonceManager.hardRefresh, NonceManager.next,
      NonceManager.acknowledgeFailure, TxFate.consumed, TxFate.isOk, CancelAttempt.recovers,
      CancelAttempt.lost, Venue.cancelAll, drift] <;> omega

theorem cancelAttempt_flat (d : Desk n) (a : CancelAttempt) :
    (d.cancelAttempt a).1.venue.live.isEmpty =
      (d.venue.live.isEmpty || (a.signs && a.fate.consumed)) := by
  obtain ⟨signs, fate, refreshes, reads⟩ := a
  cases signs <;> rcases fate with _ | _ | _ | _ <;>
    simp [cancelAttempt, cancelAllOrders, hardRefresh, TxFate.consumed, TxFate.isOk,
      Venue.cancelAll]

/-- **A cancel-all ends in sync iff** it began so or recovers, and makes good its losses. -/
theorem cancelLoop_inSync_iff (as : List CancelAttempt) {d : Desk n} (h : 0 ≤ d.drift) :
    (cancelLoop as d).1.InSync ↔
      (d.drift = 0 ∨ ∃ b ∈ attemptsMade as d.venue.live.isEmpty, b.recovers = true) ∧
        LossRecovered (attemptsMade as d.venue.live.isEmpty) := by
  induction as generalizing d with
  | nil => simp [cancelLoop, attemptsMade, LossRecovered, inSync_iff_drift]
  | cons a as ih =>
    have hdrift := cancelAttempt_drift d a
    have hexcl : a.recovers = true → a.lost = false := by
      unfold CancelAttempt.recovers CancelAttempt.lost
      cases a.refreshes <;> simp
    -- The rest of the call, from the desk after this attempt.
    have hrest : (cancelLoop (a :: as) d).1.InSync ↔
        ((d.cancelAttempt a).1.drift = 0 ∨
          ∃ b ∈ (attemptsMade (a :: as) d.venue.live.isEmpty).tail, b.recovers = true) ∧
        LossRecovered (attemptsMade (a :: as) d.venue.live.isEmpty).tail := by
      have hread : (d.cancelAttempt a).2 =
          (a.reads && (d.cancelAttempt a).1.venue.live.isEmpty) := rfl
      have hnn : 0 ≤ (d.cancelAttempt a).1.drift := by
        rw [hdrift]
        split
        · exact le_refl _
        · split <;> omega
      simp only [cancelLoop, attemptsMade, List.tail_cons, ← cancelAttempt_flat, hread]
      by_cases hdone : (a.reads && (d.cancelAttempt a).1.venue.live.isEmpty) = true
      · simp [hdone, LossRecovered, inSync_iff_drift]
      · rw [if_neg hdone, if_neg hdone]
        exact ih hnn
    rw [hrest, hdrift]
    simp only [attemptsMade, List.tail_cons, LossRecovered, List.mem_cons, exists_eq_or_imp]
    by_cases hr : a.recovers = true
    · simp [hr, hexcl hr]
    · by_cases hl : a.lost = true
      · have hne : d.drift + 1 ≠ 0 := by omega
        simp only [hr, hl]
        tauto
      · simp [hr, hl]

theorem cancelAllAndVerify_inSync {d : Desk n} {attempts : Fin 5 → CancelAttempt}
    (hd : d.TrustedInSync) (h : d.CancelRecovers attempts) :
    (d.cancelAllAndVerify attempts).1.TrustedInSync := by
  intro hok
  rw [(cancelAllAndVerify_frame d attempts).nonceOk] at hok
  have h0 : d.drift = 0 := inSync_iff_drift.mp (hd hok)
  exact (cancelLoop_inSync_iff _ h0.ge).mpr ⟨.inl h0, h hok⟩

/-! ## The other sections -/

theorem resyncNonceOrPause_inSync (d : Desk n) (now : Instant) (refreshes : Fin 3 → Bool) :
    (d.resyncNonceOrPause now refreshes).1.TrustedInSync := by
  unfold resyncNonceOrPause
  obtain ⟨hs, -⟩ := resyncLoop_nonce ((List.finRange 3).map refreshes) d
  obtain ⟨-, hv⟩ := resyncLoop_frame ((List.finRange 3).map refreshes) d
  simp only
  split
  · rename_i hr
    intro _
    show _ + 1 = Venue.nextNonce _
    rw [(hs hr).2, hv]
    omega
  · intro h
    cases h

theorem parkUnknown_inSync {d : Desk n} {now : Instant} {r : TxSendResult} (h : d.TrustedInSync) :
    (d.parkUnknown now r).TrustedInSync := by
  cases r <;> exact h

/-- **The result of a batch leaves a trusted nonce in sync**, on every branch. -/
theorem settleResult_inSync {d : Desk n} {now : Instant} {signer : Signer} {market : MarketConfig}
    {ops : List (BatchOp n)} {sb : SignedBatch n} {nm : NonceManager} {r : TxSendResult}
    {consumed : Bool} {refreshes : Fin 3 → Bool} (hd : d.TrustedInSync)
    (hs : signBatch signer d.nonce market ops = (nm, .ok sb)) :
    ((d.afterSend nm sb.ops r consumed).settleResult now sb.ops.length r refreshes).TrustedInSync := by
  obtain ⟨hnm, hops⟩ := signBatch_ok (congrArg Prod.snd hs)
  rw [hs] at hnm
  simp only at hnm
  subst hnm
  rw [hops]
  unfold settleResult
  simp only
  apply parkUnknown_inSync
  split
  · exact resyncNonceOrPause_inSync _ _ _
  · rename_i hres
    intro hok
    have hsync := hd hok
    unfold InSync at hsync ⊢
    rcases r with q | kind | _ | _
    · simp [noteResult, afterSend, transmit, TxSendResult.rollsBack, TxSendResult.executed,
        Venue.execBatch]
      omega
    · cases kind <;> simp [TxSendResult.resyncs] at hres
      simpa [noteResult, afterSend, transmit, TxSendResult.rollsBack, TxSendResult.executed] using hsync
    · simp [TxSendResult.resyncs] at hres
    · simpa [noteResult, afterSend, transmit, TxSendResult.rollsBack, TxSendResult.executed] using hsync

theorem refreshOrDistrust_inSync (d : Desk n) (ok : Bool) : (d.refreshOrDistrust ok).TrustedInSync := by
  cases ok with
  | true =>
    intro _
    show d.venue.nextNonce - 1 + 1 = d.venue.nextNonce
    omega
  | false =>
    intro h
    cases h

theorem orphanCancel_inSync {d : Desk n} {eid : ℤ} {s : OrphanScript} (hd : d.TrustedInSync) :
    (d.orphanCancel eid s).TrustedInSync := by
  obtain ⟨signs, fate, refreshes⟩ := s
  unfold orphanCancel
  cases signs with
  | false =>
    intro hok
    have hsync := hd hok
    unfold InSync at hsync ⊢
    simp [NonceManager.next, NonceManager.acknowledgeFailure]
    omega
  | true =>
    cases hf : fate.isOk with
    | false =>
      simp only [Bool.not_true, Bool.false_eq_true, if_false]
      exact refreshOrDistrust_inSync _ _
    | true =>
      cases fate <;> cases hf
      intro hok
      have hsync := hd hok
      unfold InSync at hsync ⊢
      simp [NonceManager.next, TxFate.consumed, Venue.cancelOne]
      omega

theorem resyncNonce_inSync {d : Desk n} {ok : Bool} (hd : d.TrustedInSync) :
    (d.resyncNonce ok).TrustedInSync := by
  cases ok with
  | true =>
    intro _
    show d.venue.nextNonce - 1 + 1 = d.venue.nextNonce
    omega
  | false => exact hd

/-- **One section** that makes good its losses leaves a trusted nonce in sync. -/
theorem runSection_inSync {d : Desk n} {a : Section n} (hd : d.TrustedInSync)
    (ha : d.SectionRecovers a) : (d.runSection a).TrustedInSync := by
  cases a with
  | sendOnce now signer market ops r consumed refreshes attempts =>
    unfold runSection
    unfold SectionRecovers at ha
    simp only at ha ⊢
    split
    · rename_i nm e hs
      have : nm = d.nonce := by simpa [hs] using signBatch_error (congrArg Prod.snd hs)
      rw [this]
      exact hd
    · rename_i nm signed hs
      simp only [hs] at ha
      have hset : ((d.afterSend nm signed.ops r consumed).settleResult now signed.ops.length r
          refreshes).TrustedInSync := settleResult_inSync hd hs
      unfold handleResult
      simp only
      split
      · rename_i hc
        exact cancelAllAndVerify_inSync hset (ha hc)
      · exact hset
  | signTaskDied reserved =>
    intro hok
    have h0 : reserved = 0 := ha hok
    subst h0
    simpa [runSection, InSync] using hd hok
  | orphanCancel eid s => exact orphanCancel_inSync hd
  | cancelAllAndVerify attempts => exact cancelAllAndVerify_inSync hd ha
  | resyncNonce ok => exact resyncNonce_inSync hd

/-! ## Runs -/

variable {nextNonce accountIndex apiKeyIndex : ℤ} {risk : RiskController} {d : Desk n}

/-- **A trusted nonce is in sync** in every run from startup whose sections make good their losses:
whenever the lock is released with the nonce trusted, the counter plus one is the nonce that the
exchange expects next. -/
theorem trusted_nonce_inSync
    (h : Trans.ReachBy sectionStep SectionRecovers (start n nextNonce accountIndex apiKeyIndex risk) d)
    (hok : d.nonceOk = true) : d.nonce.nonce + 1 = d.venue.nextNonce := by
  have hinv : d.TrustedInSync := by
    refine h.invariant (fun _ => ?_) fun d a d' hd ha hst => ?_
    · show nextNonce - 1 + 1 = nextNonce
      omega
    · cases hst
      exact runSection_inSync hd ha
  exact hinv hok

/-- A cancel-all that the exchange refuses twice, with one failed and one successful refresh. -/
def recoveringAttempts : Fin 5 → CancelAttempt :=
  fun i => ⟨true, .rejected, i ≠ 0, i ≠ 0⟩

theorem trusted_nonce_inSync_recovering :
    ((start 1 100 7 2 (.new 3 60)).runSection (.cancelAllAndVerify recoveringAttempts)).nonce.nonce + 1 =
      100 := by
  have hrun : Trans.ReachBy sectionStep SectionRecovers (start 1 100 7 2 (.new 3 60))
      ((start 1 100 7 2 (.new 3 60)).runSection (.cancelAllAndVerify recoveringAttempts)) := by
    refine .step (.cancelAllAndVerify recoveringAttempts) .refl (fun _ => ?_) rfl
    decide +kernel
  exact trusted_nonce_inSync hrun (by decide +kernel)

/-- A refused cancel-all whose refresh fails, on a book that reads flat. -/
def lostAttempts : Fin 5 → CancelAttempt := fun _ => ⟨true, .rejected, false, true⟩

/-- **One lost cancel-all is enough**: the call returns "verified flat", the nonce is still trusted,
and the counter is one ahead. -/
theorem lost_cancelAll_out_of_sync :
    ¬ ∀ d : Desk 1, Trans.Reach sectionStep (start 1 100 7 2 (.new 3 60)) d → d.nonceOk = true →
      d.nonce.nonce + 1 = d.venue.nextNonce := by
  intro h
  have hrun : Trans.Reach sectionStep (start 1 100 7 2 (.new 3 60))
      ((start 1 100 7 2 (.new 3 60)).runSection (.cancelAllAndVerify lostAttempts)) :=
    .step (.cancelAllAndVerify lostAttempts) .refl trivial rfl
  exact absurd (h _ hrun (by decide +kernel)) (by decide +kernel)

end Desk

end LighterMM
