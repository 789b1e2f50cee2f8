import LighterMM.System.World

/-!
# What one step of a party can do

The steps of the parties as relations, one constructor for each way through the code, with what the step found
(`HotCase`, `SenderCase`, `PollerCase`, `ShutdownCase`, `EnvCase`). The proofs about runs take a step apart into
these cases and never unfold the step functions.
-/

namespace LighterMM

namespace World

variable {n : ℕ} {p : Params} {w w' : World n}

/-- The ways through a step of the hot task. -/
inductive HotCase (w : World n) : HotAct n → World n → Prop
  | book (hasMid : Bool) (hpc : w.hot = .idle) :
    HotCase w (.book hasMid) { w with mdStamp := some w.clock, hot := if hasMid then .drain else .idle }
  | resnapshot (stamped : Bool) (hpc : w.hot = .idle) :
    HotCase w (.resnapshot stamped)
      { w with mailbox := w.mailbox.send [], mdStamp := if stamped then some w.clock else w.mdStamp }
  | drain {e : OrderEvent n} {rest : List (OrderEvent n)} (hpc : w.hot = .drain) (hevents : w.events = e :: rest) :
    HotCase w .drain { w with om := w.om.applyEvent w.clock e, events := rest }
  | drained (hpc : w.hot = .drain) (hevents : w.events = []) : HotCase w .drained { w with hot := .reconcile }
  | noSnapshot (hpc : w.hot = .reconcile) (hswap : w.reconcileSwap = none) :
    HotCase w .reconcile { w with hot := .quote }
  | reconcile {remote : List RemoteOrder} (hpc : w.hot = .reconcile) (hswap : w.reconcileSwap = some remote) :
    HotCase w .reconcile
      { w with om := w.om.processReconcile w.clock remote, reconcileSwap := none, hot := .quote }
  | ladder {levels : List Level} {args : CollectArgs} (hpc : w.hot = .quote) :
    HotCase w (.quote (.ladder levels args))
      (publishTracked { w with
        om := (w.om.cycle w.clock (.ladder levels args)).1
        hot := .sending (w.om.cycle w.clock (.ladder levels args)).2 })
  | noLadder {d : Decision n} (hpc : w.hot = .quote) (hd : ∀ levels args, d ≠ .ladder levels args) :
    HotCase w (.quote d) { w with om := (w.om.cycle w.clock d).1, hot := .sending (w.om.cycle w.clock d).2 }
  | noBatch (hpc : w.hot = .sending none) : HotCase w .send { w with hot := .idle }
  | send {ops : List (BatchOp n)} (hpc : w.hot = .sending (some ops)) :
    HotCase w .send { w with mailbox := w.mailbox.send ops, hot := .idle }

theorem hotStep_cases {a : HotAct n} (h : w.hotStep a = some w') : HotCase w a w' := by
  cases a with
  | book hasMid =>
    simp only [hotStep] at h
    split at h <;> cases h
    rename_i hpc
    exact .book hasMid hpc
  | resnapshot stamped =>
    simp only [hotStep] at h
    split at h <;> cases h
    rename_i hpc
    exact .resnapshot stamped hpc
  | drain =>
    simp only [hotStep] at h
    split at h <;> cases h
    rename_i hpc hevents
    exact .drain hpc hevents
  | drained =>
    simp only [hotStep] at h
    split at h <;> cases h
    rename_i hpc hevents
    exact .drained hpc hevents
  | reconcile =>
    simp only [hotStep] at h
    split at h <;> cases h
    · rename_i hpc hswap
      exact .noSnapshot hpc hswap
    · rename_i hpc hswap
      exact .reconcile hpc hswap
  | quote d =>
    simp only [hotStep] at h
    split at h
    · rename_i hpc
      cases d with
      | ladder levels args =>
        cases h
        exact .ladder hpc
      | throttled | gated | flat =>
        cases h
        exact .noLadder hpc fun _ _ => by simp
    · cases h
  | send =>
    simp only [hotStep] at h
    split at h <;> cases h
    · rename_i hpc
      exact .noBatch hpc
    · rename_i hpc
      exact .send hpc

/-- The ways through a step of the sender. -/
inductive SenderCase (p : Params) (w : World n) : SenderAct → World n → Prop
  | recover (hpc : w.sender = .idle) : SenderCase p w .recover w.canTrade.1
  | dropped {ops : List (BatchOp n)} (hpc : w.sender = .idle) (hpending : w.mailbox.pending = some ops)
      (hdrop : ops = [] ∨ w.halt = true) :
    SenderCase p w .take { w.canTrade.1 with mailbox := w.mailbox.markSeen }
  | refused {ops : List (BatchOp n)} (hpc : w.sender = .idle) (hpending : w.mailbox.pending = some ops)
      (hkept : ¬(ops = [] ∨ w.halt = true)) (hno : w.canTrade.2 = false ∧ cancelOnly ops = false) :
    SenderCase p w .take
      { w.canTrade.1 with mailbox := w.mailbox.markSeen, events := w.events ++ clearFailedCreates ops }
  | taken {ops : List (BatchOp n)} (hpc : w.sender = .idle) (hpending : w.mailbox.pending = some ops)
      (hkept : ¬(ops = [] ∨ w.halt = true)) (hok : ¬(w.canTrade.2 = false ∧ cancelOnly ops = false)) :
    SenderCase p w .take { w.canTrade.1 with mailbox := w.mailbox.markSeen, sender := .gate ops }
  | passed {ops : List (BatchOp n)} (hpc : w.sender = .gate ops) :
    SenderCase p w (.gate true) { w with sender := .waitLock ops }
  | skipped {ops : List (BatchOp n)} (hpc : w.sender = .gate ops) :
    SenderCase p w (.gate false) { w with sender := .idle, events := w.events ++ clearFailedCreates ops }
  | halted {ops : List (BatchOp n)} (hpc : w.sender = .waitLock ops) (hfree : w.lockFree = true)
      (hhalt : w.halt = true) :
    SenderCase p w .lock { w with sender := .idle, events := w.events ++ clearFailedCreates ops }
  | locked {ops : List (BatchOp n)} (hpc : w.sender = .waitLock ops) (hfree : w.lockFree = true)
      (hhalt : w.halt = false) :
    SenderCase p w .lock { w with sender := .signing ops }
  | signed {signer : Signer} {ops : List (BatchOp n)} {batch : SignedBatch n} (hpc : w.sender = .signing ops)
      (hok : (signBatch signer w.desk.nonce p.market ops).2 = .ok batch) :
    SenderCase p w (.sign signer) { w with
      desk := { w.desk with nonce := (signBatch signer w.desk.nonce p.market ops).1 }
      sender := .signed batch }
  | unsigned {signer : Signer} {ops : List (BatchOp n)} (hpc : w.sender = .signing ops) :
    SenderCase p w (.sign signer) { w with
      desk := { w.desk with nonce := (signBatch signer w.desk.nonce p.market ops).1 }
      sender := .idle
      events := w.events ++ clearFailedCreates ops }
  | signTaskDied (reserved : ℕ) {ops : List (BatchOp n)} (hpc : w.sender = .signing ops) :
    SenderCase p w (.signTaskDied reserved) { w with
      desk := { w.desk with nonce := { w.desk.nonce with nonce := w.desk.nonce.nonce + reserved } }
      sender := .idle
      events := w.events ++ clearFailedCreates ops }
  | write {batch : SignedBatch n} (hpc : w.sender = .signed batch) :
    SenderCase p w .write { w with sender := .written batch }
  | notSent {batch : SignedBatch n} (hpc : w.sender = .signed batch) :
    SenderCase p w .notSent { w with sender := .decided batch .notSent }
  | execute {r : TxSendResult} (consumed : Bool) {batch : SignedBatch n} (hpc : w.sender = .written batch)
      (hsent : r ≠ .notSent) :
    SenderCase p w (.execute r consumed)
      { w with desk := w.desk.transmit batch.ops r consumed, sender := .decided batch r }
  | note {batch : SignedBatch n} {r : TxSendResult} (hpc : w.sender = .decided batch r) :
    SenderCase p w .note { w with
      desk := w.desk.noteResult w.clock batch.ops.length r
      sender := .noted batch r
      events := w.events ++ SenderEffect.events (r.effects batch) }
  | settle (refreshes : Fin 3 → Bool) {batch : SignedBatch n} {r : TxSendResult}
      (hpc : w.sender = .noted batch r) :
    SenderCase p w (.settle refreshes) { w with
      desk := (if r.resyncs then (w.desk.resyncNonceOrPause w.clock refreshes).1 else w.desk).parkUnknown w.clock r
      sender := .settled batch r }
  | finish (attempts : Fin 5 → CancelAttempt) {batch : SignedBatch n} {r : TxSendResult}
      (hpc : w.sender = .settled batch r) :
    SenderCase p w (.finish attempts) { w with
      desk := if w.desk.cancelsAfter w.clock r then (w.desk.cancelAllAndVerify attempts).1 else w.desk
      sender := .idle
      events := w.events ++ SenderEffect.events (r.lateEffects batch) }
  | dieWritten (consumed : Bool) {batch : SignedBatch n} (hpc : w.sender = .written batch) :
    SenderCase p w (.die consumed)
      { w with desk := w.desk.transmit batch.ops .unknown consumed, sender := .dead }
  | die (consumed : Bool) (hpc : ∀ batch, w.sender ≠ .written batch) :
    SenderCase p w (.die consumed) { w with sender := .dead }

theorem senderStep_cases {a : SenderAct} (h : w.senderStep p a = some w') : SenderCase p w a w' := by
  cases a with
  | recover =>
    simp only [senderStep] at h
    split at h <;> cases h
    rename_i hpc
    exact .recover hpc
  | take =>
    simp only [senderStep] at h
    split at h
    · rename_i hpc hpending
      split at h
      · rename_i hdrop
        cases h
        exact .dropped hpc hpending hdrop
      · rename_i hkept
        split at h <;> cases h
        · rename_i hno
          exact .refused hpc hpending hkept hno
        · rename_i hok
          exact .taken hpc hpending hkept hok
    · cases h
  | gate ok =>
    simp only [senderStep] at h
    split at h
    · rename_i hpc
      cases ok <;> cases h
      · exact .skipped hpc
      · exact .passed hpc
    · cases h
  | lock =>
    simp only [senderStep] at h
    split at h
    · rename_i hpc
      split at h
      · cases h
      · rename_i hfree
        split at h <;> cases h
        · rename_i hhalt
          exact .halted hpc (by simpa using hfree) hhalt
        · rename_i hhalt
          exact .locked hpc (by simpa using hfree) (by simpa using hhalt)
    · cases h
  | sign signer =>
    simp only [senderStep] at h
    split at h
    · rename_i hpc
      split at h <;> cases h
      · rename_i hok
        exact .signed hpc hok
      · exact .unsigned hpc
    · cases h
  | signTaskDied reserved =>
    simp only [senderStep] at h
    split at h <;> cases h
    rename_i hpc
    exact .signTaskDied reserved hpc
  | write =>
    simp only [senderStep] at h
    split at h <;> cases h
    rename_i hpc
    exact .write hpc
  | notSent =>
    simp only [senderStep] at h
    split at h <;> cases h
    rename_i hpc
    exact .notSent hpc
  | execute r consumed =>
    simp only [senderStep] at h
    split at h
    · rename_i hpc
      split at h <;> cases h
      rename_i hsent
      exact .execute consumed hpc hsent
    · cases h
  | note =>
    simp only [senderStep] at h
    split at h <;> cases h
    rename_i hpc
    exact .note hpc
  | settle refreshes =>
    simp only [senderStep] at h
    split at h <;> cases h
    rename_i hpc
    exact .settle refreshes hpc
  | finish attempts =>
    simp only [senderStep] at h
    split at h <;> cases h
    rename_i hpc
    exact .finish attempts hpc
  | die consumed =>
    simp only [senderStep] at h
    split at h <;> cases h
    · rename_i hpc
      exact .dieWritten consumed hpc
    · rename_i hpc
      exact .die consumed hpc

/-- The ways through a step of the poller. -/
inductive PollerCase (p : Params) (w : World n) : PollerAct → World n → Prop
  | stale (hpc : w.poller = .idle) (hstale : w.mdStale p = true) : PollerCase p w .wake w.deadmanCheck
  | fresh (hpc : w.poller = .idle) (hfresh : w.mdStale p = false) : PollerCase p w .wake { w with poller := .fetching }
  | deadmanCancel (attempts : Fin 5 → CancelAttempt) (hpc : w.poller = .cancelDue) (hfree : w.lockFree = true) :
    PollerCase p w (.deadmanCancel attempts)
      { w with desk := (w.desk.cancelAllAndVerify attempts).1, poller := .fetching }
  | fetchFailed (token : Bool) (hpc : w.poller = .fetching) :
    PollerCase p w (.fetchFailed token)
      { w.markFailed p (if token then .authToken else .restActiveOrders) with poller := .idle }
  | fetch (hpc : w.poller = .fetching) : PollerCase p w .fetch { w with poller := .inTransit w.desk.venue.rows }
  | deliver {rows : List RemoteOrder} (hpc : w.poller = .inTransit rows) :
    PollerCase p w .deliver { w.markSnapshot p rows with
      reconcileSwap := some rows
      poller := if p.maxLive < rows.length then .overCap else .nonceCheck (w.orphanTodo rows) (w.orphanIds rows) }
  | overCapCancel (attempts : Fin 5 → CancelAttempt) (hpc : w.poller = .overCap) (hfree : w.lockFree = true) :
    PollerCase p w (.overCapCancel attempts)
      { w with desk := (w.desk.cancelAllAndVerify attempts).1, prevOrphans := [], poller := .idle }
  | nonceCheck {todo orphans : List ℤ} (hpc : w.poller = .nonceCheck todo orphans) :
    PollerCase p w .nonceCheck
      { w with poller := if w.desk.nonceOk then .orphans todo orphans else .resyncDue todo orphans }
  | resync (ok : Bool) {todo orphans : List ℤ} (hpc : w.poller = .resyncDue todo orphans) (hfree : w.lockFree = true) :
    PollerCase p w (.resync ok) { w with desk := w.desk.resyncNonce ok, poller := .orphans todo orphans }
  | orphan (s : OrphanScript) {eid : ℤ} {todo orphans : List ℤ} (hpc : w.poller = .orphans (eid :: todo) orphans)
      (hfree : w.lockFree = true) :
    PollerCase p w (.orphan s) { w with desk := w.desk.orphanCancel eid s, poller := .orphans todo orphans }
  | endLoop {orphans : List ℤ} (hpc : w.poller = .orphans [] orphans) :
    PollerCase p w .endLoop { w with prevOrphans := orphans, poller := .idle }

theorem pollerStep_cases {a : PollerAct} (h : w.pollerStep p a = some w') : PollerCase p w a w' := by
  cases a with
  | wake =>
    simp only [pollerStep] at h
    split at h <;> cases h
    rename_i hpc
    cases hstale : w.mdStale p with
    | true => exact .stale hpc hstale
    | false => exact .fresh hpc hstale
  | deadmanCancel attempts =>
    simp only [pollerStep] at h
    split at h
    · rename_i hpc
      split at h <;> cases h
      rename_i hfree
      exact .deadmanCancel attempts hpc hfree
    · cases h
  | fetchFailed token =>
    simp only [pollerStep] at h
    split at h <;> cases h
    rename_i hpc
    exact .fetchFailed token hpc
  | fetch =>
    simp only [pollerStep] at h
    split at h <;> cases h
    rename_i hpc
    exact .fetch hpc
  | deliver =>
    simp only [pollerStep] at h
    split at h <;> cases h
    rename_i hpc
    exact .deliver hpc
  | overCapCancel attempts =>
    simp only [pollerStep] at h
    split at h
    · rename_i hpc
      split at h <;> cases h
      rename_i hfree
      exact .overCapCancel attempts hpc hfree
    · cases h
  | nonceCheck =>
    simp only [pollerStep] at h
    split at h <;> cases h
    rename_i hpc
    exact .nonceCheck hpc
  | resync ok =>
    simp only [pollerStep] at h
    split at h
    · rename_i hpc
      split at h <;> cases h
      rename_i hfree
      exact .resync ok hpc hfree
    · cases h
  | orphan s =>
    simp only [pollerStep] at h
    split at h
    · rename_i hpc
      split at h <;> cases h
      rename_i hfree
      exact .orphan s hpc hfree
    · cases h
  | endLoop =>
    simp only [pollerStep] at h
    split at h <;> cases h
    rename_i hpc
    exact .endLoop hpc

/-- The steps of shutdown. -/
inductive ShutdownCase (w : World n) : ShutdownAct → World n → Prop
  | halt (hpc : w.shutdown = .running) : ShutdownCase w .halt { w with halt := true, shutdown := .halted }
  | lock (hpc : w.shutdown = .halted) (hfree : w.lockFree = true) : ShutdownCase w .lock { w with shutdown := .locked }
  | abort (hpc : w.shutdown = .locked) : ShutdownCase w .abort { w with shutdown := .aborted }
  | cancelAll (attempts : Fin 5 → CancelAttempt) (hpc : w.shutdown = .aborted) :
    ShutdownCase w (.cancelAll attempts)
      { w with desk := (w.desk.cancelAllAndVerify attempts).1
               shutdown := .verified (w.desk.cancelAllAndVerify attempts).2 }
  | exit {flat : Bool} (hpc : w.shutdown = .verified flat) :
    ShutdownCase w .exit { w with shutdown := .exited flat }

theorem shutdownStep_cases {a : ShutdownAct} (h : w.shutdownStep a = some w') : ShutdownCase w a w' := by
  cases a with
  | halt =>
    simp only [shutdownStep] at h
    split at h <;> cases h
    rename_i hpc
    exact .halt hpc
  | lock =>
    simp only [shutdownStep] at h
    split at h
    · rename_i hpc
      split at h <;> cases h
      rename_i hfree
      exact .lock hpc hfree
    · cases h
  | abort =>
    simp only [shutdownStep] at h
    split at h <;> cases h
    rename_i hpc
    exact .abort hpc
  | cancelAll attempts =>
    simp only [shutdownStep] at h
    split at h <;> cases h
    rename_i hpc
    exact .cancelAll attempts hpc
  | exit =>
    simp only [shutdownStep] at h
    split at h <;> cases h
    rename_i flat hpc
    exact .exit hpc

/-- The steps of the environment. -/
inductive EnvCase (w : World n) : EnvAct → World n → Prop
  | tick {dt : ℚ} (hdt : 0 ≤ dt) : EnvCase w (.tick dt) { w with clock := w.clock + dt }
  | idResolved {cid eid : ℤ}
      (hcreated : (w.desk.venue.created.any fun o => o.clientOrderIndex = cid ∧ o.orderIndex = eid) = true) :
    EnvCase w (.idResolved cid eid) { w with events := w.events ++ [.idResolved cid eid] }
  | fill (cid : ℤ) (size : ℚ) : EnvCase w (.fill cid size) { w with events := w.events ++ [.fill cid size] }
  | drop (eid : ℤ) : EnvCase w (.drop eid) { w with desk := { w.desk with venue := w.desk.venue.drop eid } }

theorem envStep_cases {a : EnvAct} (h : w.envStep a = some w') : EnvCase w a w' := by
  cases a with
  | tick dt =>
    obtain ⟨hdt, hw⟩ := Option.ite_none_right_eq_some.mp h
    cases hw
    exact .tick hdt
  | idResolved cid eid =>
    obtain ⟨hcreated, hw⟩ := Option.ite_none_right_eq_some.mp h
    cases hw
    exact .idResolved hcreated
  | fill cid size =>
    cases h
    exact .fill cid size
  | drop eid =>
    cases h
    exact .drop eid

end World

end LighterMM
