import LighterMM.System.Frames

/-!
# The permission to trade, from the check to the write

The sender computes its permission (no pause left, nonce trusted) when it takes a batch, and then
waits in the rate gate and for the lock. Under the lock it looks at `halt` again, but not at the
permission, so the poller can withdraw it in between (`Arms`).

`permitted_write`: as long as the poller does not do so while a batch with a Create or a Modify is on
its way, no such batch is written while trading is blocked.
-/

namespace LighterMM

/-- The ops on their way from the mailbox to the exchange. -/
def SenderPc.pendingOps {n : ℕ} : SenderPc n → List (BatchOp n)
  | .gate ops | .waitLock ops | .signing ops => ops
  | .signed batch => batch.ops
  | _ => []

/-- A batch with a Create or a Modify is on its way. -/
def SenderPc.quoting {n : ℕ} (s : SenderPc n) : Bool := !cancelOnly s.pendingOps

namespace World

variable {n : ℕ} {p : Params} {w w' : World n}

/-- The poller's step arms a pause or withdraws the trust in the nonce: market data are stale and
trading is not paused, a failed or unclean reconcile reaches the debounce count, there are too many
orders, or an orphan cancel is lost together with its refresh. -/
def Arms (p : Params) (w : World n) : PollerAct → Bool
  | .wake => w.mdStale p && !w.desk.risk.isPaused w.clock
  | .fetchFailed _ => decide (p.debounceMin ≤ w.desk.risk.mismatchStreak + 1)
  | .deliver =>
    match w.poller with
    | .inTransit rows =>
      decide (p.maxLive < rows.length) ||
        (decide (w.orphanIds rows ≠ []) && decide (p.debounceMin ≤ w.desk.risk.mismatchStreak + 1))
    | _ => false
  | .orphan s => s.signs && !s.fate.isOk && !s.refreshes
  | _ => false

/-- The poller does not arm a pause or distrust the nonce while a batch with a Create or a Modify is
on its way. -/
def Undisturbed (p : Params) (w : World n) (a : Act n) : Prop :=
  ∀ b, a = .poller b → w.sender.quoting = true → w.Arms p b = false

/-- Trading is not blocked: no pause is left and the nonce is trusted. -/
def Unblocked (w : World n) : Prop := w.desk.risk.pausedUntil = none ∧ w.desk.nonceOk = true

/-- A batch with a Create or a Modify is on its way only while trading is not blocked. -/
def Permitted (w : World n) : Prop := w.sender.quoting = true → w.Unblocked

theorem Permitted.congr (h : w.Permitted) (hs : w'.sender = w.sender)
    (hr : w'.desk.risk.pausedUntil = w.desk.risk.pausedUntil) (hn : w'.desk.nonceOk = w.desk.nonceOk) :
    w'.Permitted := by
  intro hq
  rw [hs] at hq
  obtain ⟨h₁, h₂⟩ := h hq
  exact ⟨hr.trans h₁, hn.trans h₂⟩

theorem permitted_of_not_quoting (h : w.sender.quoting = false) : w.Permitted := by
  intro hq
  rw [h] at hq
  cases hq

theorem canTrade_true (h : w.canTrade.2 = true) : w.canTrade.1.Unblocked := by
  simp only [canTrade, Bool.and_eq_true] at h
  exact ⟨RiskController.maybeRecover_true h.1, h.2⟩

/-- The sender lets a batch pass only with the permission, and does not touch it on the way. -/
theorem Permitted.senderStep {a : SenderAct} (h : w.Permitted) (hst : w.senderStep p a = some w') :
    w'.Permitted := by
  cases senderStep_cases hst with
  | recover hpc | dropped hpc | refused hpc =>
    apply permitted_of_not_quoting
    show (w.sender).quoting = false
    rw [hpc]
    rfl
  | taken hpc hpending hkept hok =>
    intro hq
    -- The batch is not cancel-only, so the permission was given.
    have hcan : w.canTrade.2 = true := by
      by_contra hno
      refine hok ⟨by simpa using hno, ?_⟩
      simpa [SenderPc.quoting, SenderPc.pendingOps] using hq
    exact canTrade_true hcan
  | passed hpc | locked hpc =>
    intro hq
    refine h ?_
    rw [hpc]
    exact hq
  | @signed signer ops batch hpc hok =>
    intro hq
    refine h ?_
    rw [hpc]
    have hops : batch.ops = ops := (signBatch_ok hok).2
    simpa [SenderPc.quoting, SenderPc.pendingOps, hops] using hq
  | _ => exact permitted_of_not_quoting rfl

theorem orphanCancel_nonceOk {d : Desk n} {eid : ℤ} {s : OrphanScript}
    (h : (s.signs && !s.fate.isOk && !s.refreshes) = false) :
    (d.orphanCancel eid s).nonceOk = d.nonceOk := by
  obtain ⟨signs, fate, refreshes⟩ := s
  unfold Desk.orphanCancel
  cases signs with
  | false => rfl
  | true =>
    cases hf : fate.isOk with
    | true => simp
    | false =>
      have : refreshes = true := by simpa [hf] using h
      subst this
      simp only [Bool.not_true, Bool.false_eq_true, if_false]
      rfl

theorem markFailed_pausedUntil (reason : ReconcileReason)
    (h : ¬p.debounceMin ≤ w.desk.risk.mismatchStreak + 1) :
    (w.markFailed p reason).desk.risk.pausedUntil = w.desk.risk.pausedUntil ∧
      (w.markFailed p reason).desk.nonceOk = w.desk.nonceOk := by
  have hstreak : ¬p.debounceMin ≤
      (w.desk.risk.markReconcile w.clock false reason).mismatchStreak := h
  unfold markFailed
  simp only [if_neg hstreak]
  exact ⟨rfl, rfl⟩

theorem Permitted.pollerStep {a : PollerAct} (h : w.Permitted)
    (ha : w.sender.quoting = true → w.Arms p a = false) (hst : w.pollerStep p a = some w') :
    w'.Permitted := by
  have hsender := (pollerStep_frame hst).sender
  -- With no batch on its way there is nothing to show.
  by_cases hq : w.sender.quoting = true
  swap
  · apply permitted_of_not_quoting
    rw [hsender]
    simpa using hq
  obtain ⟨hpause, hnonce⟩ := h hq
  have harm := ha hq
  suffices hunb : w'.desk.risk.pausedUntil = w.desk.risk.pausedUntil ∧
      (w.desk.nonceOk = true → w'.desk.nonceOk = true) from
    fun _ => ⟨hunb.1.trans hpause, hunb.2 hnonce⟩
  cases pollerStep_cases hst with
  | stale hpc hstale =>
    have hnp : w.desk.risk.isPaused w.clock = false := by
      unfold RiskController.isPaused
      rw [hpause]
    have hfresh : w.mdStale p = false := by simpa [Arms, hnp] using harm
    rw [hstale] at hfresh
    cases hfresh
  | deadmanCancel attempts | overCapCancel attempts =>
    have hf := w.desk.cancelAllAndVerify_frame attempts
    exact ⟨congrArg RiskController.pausedUntil hf.risk, fun ht => hf.nonceOk.trans ht⟩
  | fetchFailed token =>
    have hfew : ¬p.debounceMin ≤ w.desk.risk.mismatchStreak + 1 := by simpa [Arms] using harm
    obtain ⟨h₁, h₂⟩ := markFailed_pausedUntil
      (if token = true then ReconcileReason.authToken else .restActiveOrders) hfew
    exact ⟨h₁, fun ht => h₂.trans ht⟩
  | @deliver rows hpc =>
    simp only [Arms, hpc, Bool.or_eq_false_iff, Bool.and_eq_false_iff, decide_eq_false_iff_not] at harm
    obtain ⟨hcap, horphans⟩ := harm
    show (w.markSnapshot p rows).desk.risk.pausedUntil = _ ∧
      (_ → (w.markSnapshot p rows).desk.nonceOk = true)
    unfold markSnapshot
    rw [if_neg hcap]
    by_cases hnil : w.orphanIds rows = []
    · rw [if_pos hnil]
      exact ⟨rfl, id⟩
    · rw [if_neg hnil]
      obtain ⟨h₁, h₂⟩ := markFailed_pausedUntil .orphansPresent (horphans.resolve_left (not_not.mpr hnil))
      exact ⟨h₁, fun ht => h₂.trans ht⟩
  | fresh | fetch | nonceCheck | endLoop => exact ⟨rfl, id⟩
  | resync ok =>
    cases ok
    · exact ⟨rfl, id⟩
    · exact ⟨rfl, fun _ => rfl⟩
  | orphan s =>
    exact ⟨congrArg RiskController.pausedUntil (w.desk.orphanCancel_frame _ s).risk,
      fun ht => (orphanCancel_nonceOk harm).trans ht⟩

theorem Permitted.step {a : Act n} (h : w.Permitted) (ha : Undisturbed p w a)
    (hst : w.step p a = some w') : w'.Permitted := by
  cases a with
  | hot a =>
    have hf := hotStep_frame hst
    exact h.congr hf.sender (by rw [hf.desk]) (by rw [hf.desk])
  | sender a => exact h.senderStep hst
  | poller a => exact h.pollerStep (ha a rfl) hst
  | shutdown a =>
    have hf := shutdownStep_frame hst
    exact h.congr hf.sender (by rw [hf.risk]) hf.nonceOk
  | env a =>
    have hf := envStep_frame hst
    exact h.congr hf.sender (by rw [hf.risk]) hf.nonceOk

/-- **No new order goes out while trading is blocked**, in every run in which the poller does not
withdraw the permission while such a batch is on its way: when a batch with a Create or a Modify is
written, no pause is left and the nonce is trusted. -/
theorem permitted_write (h : Trans.ReachBy (step p) (Undisturbed p) (start p n) w) {batch : SignedBatch n}
    (hpc : w.sender = .signed batch) (hst : w.step p (.sender .write) = some w')
    (hops : cancelOnly batch.ops = false) :
    w.desk.risk.pausedUntil = none ∧ w.desk.nonceOk = true ∧ w'.sender = .written batch := by
  have hperm : w.Permitted := by
    refine h.invariant (permitted_of_not_quoting rfl) fun s a s' hs ha hst => ?_
    exact hs.step ha hst
  have hq : w.sender.quoting = true := by
    rw [hpc]
    simp [SenderPc.quoting, SenderPc.pendingOps, hops]
  refine ⟨(hperm hq).1, (hperm hq).2, ?_⟩
  simp only [step, World.senderStep, hpc] at hst
  cases hst
  rfl

/-- A run without the poller is undisturbed. -/
theorem undisturbed_of_run {as : List (Act n)} (h : Trans.run (step p) (start p n) as = some w)
    (hp : as.all (fun | .poller _ => false | _ => true) = true) :
    Trans.ReachBy (step p) (Undisturbed p) (start p n) w := by
  refine .of_run h fun a ha t b hb => ?_
  rw [List.all_eq_true] at hp
  have := hp a ha
  rw [hb] at this
  cases this

/-- The signed batch that is written next. -/
def writtenNext : SenderPc n → Option (SignedBatch n)
  | .signed batch => some batch
  | _ => none

theorem writtenNext_eq_some {s : SenderPc n} {batch : SignedBatch n} (h : writtenNext s = some batch) :
    s = .signed batch := by
  cases s <;> cases h
  rfl

/-- A batch with a Create is taken and signed. -/
def signActs : List (Act 1) :=
  [.sender (.gate true), .sender .lock, .sender (.sign fun _ => some ⟨14, "signed"⟩)]

theorem permitted_write_first_batch :
    ∃ (w w' : World 1) (batch : SignedBatch 1),
      Trans.run (step .shipped) (start .shipped 1) (tickActs (bidAt 100 1000) ++ takeActs ++ signActs) =
        some w ∧ w.sender = .signed batch ∧ w.step .shipped (.sender .write) = some w' ∧
      w.desk.risk.pausedUntil = none ∧ w.desk.nonceOk = true ∧ w'.sender = .written batch := by
  obtain ⟨w, hw, hops⟩ := Option.map_eq_some_iff.mp
    (show (Trans.run (step .shipped) (start .shipped 1)
        (tickActs (bidAt 100 1000) ++ takeActs ++ signActs)).map
        (fun w => (writtenNext w.sender).any fun batch => !cancelOnly batch.ops) = some true by decide +kernel)
  obtain ⟨batch, hnext, hops⟩ := (Option.any_eq_true _ _).mp hops
  have hpc := writtenNext_eq_some hnext
  have hst : w.step .shipped (.sender .write) = some { w with sender := .written batch } := by
    simp only [step, World.senderStep, hpc]
  exact ⟨w, _, batch, hw, hpc, hst,
    permitted_write (undisturbed_of_run hw rfl) hpc hst (by simpa using hops)⟩

/-- Two failed reconciles while the batch is in the rate gate. -/
def failedPolls : List (Act 1) :=
  [.poller .wake, .poller (.fetchFailed false), .poller .wake, .poller (.fetchFailed false)]

/-- **A Create goes out under an armed pause**: the poller pauses trading while the batch waits in the
rate gate, and the sender writes it all the same. -/
theorem create_written_while_paused :
    ¬ ∀ (w w' : World 1) (batch : SignedBatch 1), Trans.Reach (step .shipped) (start .shipped 1) w →
      w.sender = .signed batch → w.step .shipped (.sender .write) = some w' →
      cancelOnly batch.ops = false → w.desk.risk.pausedUntil = none ∧ w.desk.nonceOk = true := by
  intro h
  obtain ⟨w, hw, hbad⟩ := Option.map_eq_some_iff.mp
    (show (Trans.run (step .shipped) (start .shipped 1)
        (tickActs (bidAt 100 1000) ++ takeActs ++ failedPolls ++ signActs)).map
        (fun w => (writtenNext w.sender).any fun batch =>
          !cancelOnly batch.ops && w.desk.risk.pausedUntil.isSome) = some true by decide +kernel)
  obtain ⟨batch, hnext, hbad⟩ := (Option.any_eq_true _ _).mp hbad
  have hpc := writtenNext_eq_some hnext
  rw [Bool.and_eq_true] at hbad
  have hst : w.step .shipped (.sender .write) = some { w with sender := .written batch } := by
    simp only [step, World.senderStep, hpc]
  have := (h w _ batch (Trans.reach_iff_run.mpr ⟨_, hw⟩) hpc hst (by simpa using hbad.1)).1
  rw [this] at hbad
  cases hbad.2

end World

end LighterMM
