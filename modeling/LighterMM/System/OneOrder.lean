import LighterMM.System.Frames
import LighterMM.System.Ledger

/-!
# One live order for each slot

`Consistent w` is the ledger of a world: in flight is what the sender holds and the exchange has not
decided, then the unread batch of the mailbox, then the batch that the hot task is about to send;
owed to the hot task are the queued events and those the sender has not queued yet.

`step_consistent` says that a step keeps it, except where a snapshot clears the slot of an order that
rests or is on its way, a `BindLive` displaces such an order, a ladder meets the end of the client
ids, or a fill is reported (`OrderSafe`). So the exchange never holds two orders of one slot in a run
of such steps (`one_live_order_per_slot`). `two_live_orders` is a run without fills and without
unknown outcomes that ends with two: a Create outlives the debounce of its slot in the rate gate.
-/

namespace LighterMM

variable {n : ℕ}

/-- The ops that the sender holds and the exchange has not decided about. -/
def SenderPc.unexecuted : SenderPc n → List (BatchOp n)
  | .gate ops | .waitLock ops | .signing ops => ops
  | .signed batch | .written batch => batch.ops
  | _ => []

/-- The events that the sender has not queued yet. -/
def SenderPc.owed : SenderPc n → List (OrderEvent n)
  | .decided batch r =>
    SenderEffect.events (r.effects batch) ++ SenderEffect.events (r.lateEffects batch)
  | .noted batch r | .settled batch r => SenderEffect.events (r.lateEffects batch)
  | _ => []

def HotPc.batch : HotPc n → List (BatchOp n)
  | .sending (some ops) => ops
  | _ => []

def PollerPc.rows : PollerPc → List RemoteOrder
  | .inTransit rows => rows
  | _ => []

/-- The exchange ids of the orphan cancels that are left. -/
def PollerPc.todo : PollerPc → List ℤ
  | .nonceCheck todo _ | .resyncDue todo _ | .orphans todo _ => todo
  | _ => []

/-! ## The events of a result -/

theorem SenderEffect.events_map_event (es : List (OrderEvent n)) :
    SenderEffect.events (es.map .event) = es := by
  induction es with
  | nil => rfl
  | cons e es ih =>
    show e :: SenderEffect.events (es.map .event) = e :: es
    rw [ih]

theorem SenderEffect.events_append (as bs : List (SenderEffect n)) :
    SenderEffect.events (as ++ bs) = SenderEffect.events as ++ SenderEffect.events bs :=
  List.filterMap_append

/-- An accepted batch: the confirmations of its ops. -/
theorem owed_ok (batch : SignedBatch n) (quota : Option ℤ) :
    (SenderPc.decided batch (.ok quota)).owed = batch.ops.map confirmEvent := by
  have hreg : SenderEffect.events (if registeredIds batch.ops = [] then []
      else [SenderEffect.registerClientIds (n := n) (registeredIds batch.ops)]) = [] := by
    split <;> rfl
  have hquota : SenderEffect.events (quota.map (SenderEffect.setQuota (n := n))).toList = [] := by
    cases quota <;> rfl
  have hconfirm : batch.ops.map (fun op => SenderEffect.event (confirmEvent op)) =
      (batch.ops.map confirmEvent).map .event := by
    rw [List.map_map]
    rfl
  simp only [SenderPc.owed, TxSendResult.effects, TxSendResult.lateEffects, List.cons_append, hconfirm]
  show SenderEffect.events _ ++ [] = _
  rw [List.append_nil]
  show SenderEffect.events ((quota.map SenderEffect.setQuota).toList ++ [.resetGlobalBackoff] ++ _ ++ _) = _
  rw [SenderEffect.events_append, SenderEffect.events_append, SenderEffect.events_append, hreg, hquota,
    SenderEffect.events_map_event]
  rfl

/-- A rejected batch and one that was not sent: the clears of its Creates. -/
theorem owed_failed (batch : SignedBatch n) {r : TxSendResult}
    (h : r = .notSent ∨ ∃ kind, r = .rejected kind) :
    (SenderPc.decided batch r).owed = clearFailedCreates batch.ops := by
  rcases h with rfl | ⟨kind, rfl⟩
  · show SenderEffect.events ((clearFailedCreates batch.ops).map .event) ++ [] = _
    rw [SenderEffect.events_map_event, List.append_nil]
  · have hfirst : SenderEffect.events ((TxSendResult.rejected kind).effects batch) = [] := by
      cases kind <;> rfl
    have hnotify : SenderEffect.events (if kind = .makerOnly ∨ kind = .other then
        [SenderEffect.notifyReconcile (n := n)] else []) = [] := by
      split <;> rfl
    simp only [SenderPc.owed, hfirst, TxSendResult.lateEffects, SenderEffect.events_append, hnotify,
      SenderEffect.events_map_event, List.nil_append]

theorem owed_unknown (batch : SignedBatch n) : (SenderPc.decided batch .unknown).owed = [] := rfl

namespace World

variable {p : Params} {w w' : World n}

/-- The ops in flight, the oldest first. -/
def inFlight (w : World n) : List (BatchOp n) :=
  w.sender.unexecuted ++ (w.mailbox.pending.getD [] ++ w.hot.batch)

/-- The events that the hot task has not drained. -/
def owed (w : World n) : List (OrderEvent n) := w.events ++ w.sender.owed

/-- The snapshot rows that the hot task has not applied. -/
def rowsDue (w : World n) : List RemoteOrder := w.reconcileSwap.getD [] ++ w.poller.rows

def Consistent (w : World n) : Prop := Ledger w.om w.inFlight w.owed w.rowsDue w.desk.venue

/-- The steps that keep the ledger: no snapshot clears the slot of an order that rests or whose Create
is on its way, no `BindLive` displaces such an order, the client ids do not wrap around, and nothing
is filled. -/
def OrderSafe (w : World n) : Act n → Prop
  | .hot .drain => ∀ e ∈ w.events.head?, Ledger.EventSafe w.inFlight w.desk.venue e
  | .hot .reconcile =>
    ∀ remote ∈ w.reconcileSwap, Ledger.SnapshotSafe w.om w.clock w.inFlight remote w.desk.venue
  | .hot (.quote (.ladder _ args)) => w.om.HasRoom args.nowNs (2 * n)
  | .env (.fill _ _) => False
  | _ => True

instance (w : World n) : DecidablePred (OrderSafe w)
  | .hot .drain => inferInstanceAs (Decidable (∀ e ∈ w.events.head?, _))
  | .hot .reconcile => inferInstanceAs (Decidable (∀ remote ∈ w.reconcileSwap, _))
  | .hot (.quote (.ladder _ args)) => inferInstanceAs (Decidable (w.om.HasRoom args.nowNs (2 * n)))
  | .hot (.quote .throttled) | .hot (.quote .gated) | .hot (.quote .flat) | .hot (.book _)
  | .hot (.resnapshot _) | .hot .drained | .hot .send => isTrue trivial
  | .env (.fill _ _) => isFalse id
  | .env (.tick _) | .env (.idResolved _ _) | .env (.drop _) => isTrue trivial
  | .sender _ | .poller _ | .shutdown _ => isTrue trivial

theorem start_consistent : (start p n).Consistent := by
  constructor
  · intro side level id hid
    cases hid
  · intro o ho
    cases ho
  · exact List.nodup_nil
  · exact List.nodup_nil
  · exact List.nodup_nil
  · intro id hid
    cases hid
  · intro id hid
    cases hid
  · intro id hid
    cases hid
  · intro op hop
    cases hop
  · intro e he
    cases he
  · intro c e hce
    cases hce
  · intro o ho
    cases ho
  · exact le_refl _

/-! ## Steps of the parties -/

/-- A step that touches the exchange only by taking orders off the book, and the things under way
only by losing some. -/
theorem Consistent.shrink (h : w.Consistent) (hom : w'.om = w.om) (hf : w'.inFlight.Sublist w.inFlight)
    (ho : w'.owed ⊆ w.owed) (hr : w'.rowsDue ⊆ w.rowsDue)
    (hc : w'.desk.venue.created = w.desk.venue.created)
    (hl : w'.desk.venue.live.Sublist w.desk.venue.live) : w'.Consistent := by
  unfold Consistent
  rw [hom]
  exact Ledger.shrink h hf ho (fun o hor => h.rowsTrue o (hr hor)) hc (Venue.idents_sublist hl)

/-- The hot task moves on with the batch that it holds. -/
theorem Consistent.moveHot (h : w.Consistent) (pc : HotPc n) (stamp : Option Instant)
    (hpc : pc.batch = w.hot.batch) : Consistent { w with mdStamp := stamp, hot := pc } := by
  refine h.shrink rfl ?_ (fun _ he => he) (fun _ hr => hr) rfl (.refl _)
  simp only [inFlight, hpc]
  exact .refl _

/-- The hot task's cycle: the ops of its batch are in flight from then on. -/
theorem Consistent.cycle {d : Decision n} (h : w.Consistent) (hpc : w.hot = .quote)
    (hspec : OrderManager.CycleSpec w.om (w.om.cycle w.clock d).1 ((w.om.cycle w.clock d).2.getD [])) :
    Consistent { w with om := (w.om.cycle w.clock d).1, hot := .sending (w.om.cycle w.clock d).2 } := by
  have hcyc := Ledger.cycle h hspec
  have hbatch : (HotPc.sending (w.om.cycle w.clock d).2).batch = (w.om.cycle w.clock d).2.getD [] := by
    cases (w.om.cycle w.clock d).2 <;> rfl
  have hflight : w.inFlight ++ (w.om.cycle w.clock d).2.getD [] =
      w.sender.unexecuted ++ (w.mailbox.pending.getD [] ++ (HotPc.sending (w.om.cycle w.clock d).2).batch) := by
    rw [hbatch]
    simp only [inFlight, hpc, HotPc.batch, List.append_nil, List.append_assoc]
  rw [hflight] at hcyc
  exact hcyc

theorem Consistent.hotStep {a : HotAct n} (h : w.Consistent) (hok : OrderSafe w (.hot a))
    (hst : w.hotStep a = some w') : w'.Consistent := by
  cases hotStep_cases hst with
  | book hasMid hpc =>
    refine h.moveHot _ _ ?_
    rw [hpc]
    cases hasMid <;> rfl
  | resnapshot =>
    refine h.shrink rfl ?_ (fun _ he => he) (fun _ hr => hr) rfl (.refl _)
    exact (List.Sublist.refl _).append ((List.nil_sublist _).append (.refl _))
  | @drain e rest hpc hev =>
    have hsafe : Ledger.EventSafe w.inFlight w.desk.venue e := hok e (by rw [hev]; rfl)
    have howed : w.owed = e :: (rest ++ w.sender.owed) := by
      simp only [owed, hev, List.cons_append]
    have hl : Ledger w.om w.inFlight (e :: (rest ++ w.sender.owed)) w.rowsDue w.desk.venue := howed ▸ h
    exact hl.drain hsafe
  | drained hpc | noSnapshot hpc | noBatch hpc => exact h.moveHot _ _ (by rw [hpc]; rfl)
  | @reconcile remote hpc hswap =>
    have hsafe := hok remote (by rw [hswap]; rfl)
    have hl : Ledger w.om w.inFlight w.owed (remote ++ w.poller.rows) w.desk.venue := by
      have hrows : w.rowsDue = remote ++ w.poller.rows := by simp only [rowsDue, hswap, Option.getD_some]
      exact hrows ▸ h
    have hflight : w.inFlight = w.sender.unexecuted ++ (w.mailbox.pending.getD [] ++ []) := by
      simp only [inFlight, hpc]
      rfl
    have hrec := hl.reconcile hsafe
    rw [hflight] at hrec
    exact hrec
  | @ladder levels args hpc =>
    have hcyc := h.cycle hpc (OrderManager.cycle_spec (.ladder levels args) fun _ _ hd => by
      cases hd
      exact hok)
    obtain ⟨hfr, hom, hhot, hmb, hev, hrs⟩ := publishTracked_frame
      { w with om := (w.om.cycle w.clock (.ladder levels args)).1,
               hot := .sending (w.om.cycle w.clock (.ladder levels args)).2 }
    unfold Consistent inFlight owed rowsDue
    rw [hom, hhot, hmb, hev, hrs, hfr.sender, hfr.poller, hfr.desk]
    exact hcyc
  | noLadder hpc hd =>
    exact h.cycle hpc (OrderManager.cycle_spec _ fun levels args hl => absurd hl (hd levels args))
  | @send ops hpc =>
    refine h.shrink rfl ?_ (fun _ he => he) (fun _ hr => hr) rfl (.refl _)
    simp only [inFlight, hpc, Watch.pending_send, Option.getD_some, HotPc.batch, List.append_nil]
    exact (List.Sublist.refl _).append (List.sublist_append_right _ _)

/-- The sender gives up a batch: the clears of its Creates are queued. -/
theorem Consistent.giveUp {ops : List (BatchOp n)} {d : Desk n} {mb : Watch (List (BatchOp n))}
    (h : Ledger w.om (ops ++ (mb.pending.getD [] ++ w.hot.batch)) w.events w.rowsDue w.desk.venue)
    (hv : d.venue = w.desk.venue) :
    Consistent { w with desk := d, mailbox := mb, sender := .idle,
                        events := w.events ++ clearFailedCreates ops } := by
  have hf := h.fail
  rw [← hv] at hf
  show Ledger w.om ([] ++ (mb.pending.getD [] ++ w.hot.batch))
    ((w.events ++ clearFailedCreates ops) ++ []) w.rowsDue d.venue
  rw [List.nil_append, List.append_nil]
  exact hf

/-- The sender goes on with a batch. -/
theorem Consistent.passOn {ops : List (BatchOp n)} (d : Desk n) (mb : Watch (List (BatchOp n)))
    (pc : SenderPc n)
    (h : Ledger w.om (ops ++ (mb.pending.getD [] ++ w.hot.batch)) w.events w.rowsDue w.desk.venue)
    (hops : pc.unexecuted = ops) (howed : pc.owed = []) (hv : d.venue = w.desk.venue) :
    Consistent { w with desk := d, mailbox := mb, sender := pc } := by
  show Ledger w.om (pc.unexecuted ++ (mb.pending.getD [] ++ w.hot.batch)) (w.events ++ pc.owed)
    w.rowsDue d.venue
  rw [hops, howed, hv, List.append_nil]
  exact h

/-- A sender that owes no events, at its program point. -/
theorem Consistent.atPc {pc : SenderPc n} (h : w.Consistent) (hpc : w.sender = pc) (howed : pc.owed = []) :
    Ledger w.om (pc.unexecuted ++ (w.mailbox.pending.getD [] ++ w.hot.batch)) w.events w.rowsDue
      w.desk.venue := by
  subst hpc
  have heq : w.owed = w.events := by
    simp only [owed, howed, List.append_nil]
  exact heq ▸ h

/-- The exchange decides about a written batch. -/
theorem Consistent.executeStep {batch : SignedBatch n} (h : w.Consistent) (r : TxSendResult)
    (consumed : Bool) (hpc : w.sender = .written batch) (hr : r ≠ .notSent) :
    Consistent { w with desk := w.desk.transmit batch.ops r consumed, sender := .decided batch r } := by
  have hl := h.atPc hpc rfl
  show Ledger w.om ([] ++ (w.mailbox.pending.getD [] ++ w.hot.batch))
    (w.events ++ (SenderPc.decided batch r).owed) w.rowsDue (w.desk.transmit batch.ops r consumed).venue
  rw [List.nil_append]
  cases r with
  | ok quota =>
    rw [owed_ok]
    exact hl.execBatch
  | rejected kind =>
    rw [owed_failed batch (.inr ⟨kind, rfl⟩)]
    exact hl.fail
  | unknown =>
    rw [owed_unknown, List.append_nil]
    cases consumed with
    | true =>
      have hex := hl.execBatch
      exact hex.shrink (.refl _) (List.subset_append_left _ _) hex.rowsTrue rfl (.refl _)
    | false => exact hl.shrink (List.sublist_append_right _ _) (fun _ he => he) hl.rowsTrue rfl (.refl _)
  | notSent => exact absurd rfl hr

theorem Consistent.takeStep (h : w.Consistent) (hst : w.senderStep p .take = some w') :
    w'.Consistent := by
  -- The batch is in the sender's hands now, and no longer in the mailbox.
  have hfront : ∀ {ops : List (BatchOp n)}, w.sender = .idle → w.mailbox.pending = some ops →
      Ledger w.om (ops ++ (w.mailbox.markSeen.pending.getD [] ++ w.hot.batch)) w.events w.rowsDue
        w.desk.venue := by
    intro ops hpc hpending
    have hl := h.atPc hpc rfl
    rw [hpending] at hl
    have hseen : w.mailbox.markSeen.pending.getD [] ++ w.hot.batch = w.hot.batch := by
      rw [Watch.pending_markSeen]
      rfl
    rw [hseen]
    exact hl
  cases senderStep_cases hst with
  | dropped =>
    refine h.shrink rfl ?_ (fun _ he => he) (fun _ hr => hr) rfl (.refl _)
    exact (List.Sublist.refl _).append ((List.nil_sublist _).append (.refl _))
  | refused hpc hpending =>
    have hg := Consistent.giveUp (d := w.canTrade.1.desk) (hfront hpc hpending) rfl
    rw [← hpc] at hg
    exact hg
  | taken hpc hpending => exact Consistent.passOn _ _ _ (hfront hpc hpending) rfl rfl rfl

/-- The queue of events and what the sender owes, before and after the sender queues some. -/
theorem Consistent.requeue (h : w.Consistent) (d : Desk n) (pc : SenderPc n)
    (es : List (OrderEvent n)) (hf : pc.unexecuted.Sublist w.sender.unexecuted) (ho : es ++ pc.owed ⊆ w.sender.owed)
    (hc : d.venue.created = w.desk.venue.created) (hl : d.venue.live.Sublist w.desk.venue.live) :
    Consistent { w with desk := d, sender := pc, events := w.events ++ es } := by
  refine h.shrink rfl (hf.append (.refl _)) ?_ (fun _ hr => hr) hc hl
  show (w.events ++ es) ++ pc.owed ⊆ w.events ++ w.sender.owed
  rw [List.append_assoc]
  exact List.append_subset.mpr ⟨List.subset_append_left _ _, List.subset_append_of_subset_right _ ho⟩

theorem Consistent.senderStep {a : SenderAct} (h : w.Consistent) (hst : w.senderStep p a = some w') :
    w'.Consistent := by
  by_cases htake : a = .take
  · exact h.takeStep (htake ▸ hst)
  cases senderStep_cases hst with
  | dropped | refused | taken => exact absurd rfl htake
  | recover => exact h.shrink rfl (.refl _) (fun _ he => he) (fun _ hr => hr) rfl (.refl _)
  | passed hpc | locked hpc => exact Consistent.passOn _ _ _ (h.atPc hpc rfl) rfl rfl rfl
  | write hpc => exact Consistent.passOn _ _ (.written _) (h.atPc hpc rfl) rfl rfl rfl
  | skipped hpc | halted hpc => exact Consistent.giveUp (d := w.desk) (h.atPc hpc rfl) rfl
  | @signed signer ops batch hpc hok =>
    obtain ⟨-, hops⟩ := signBatch_ok hok
    exact Consistent.passOn { w.desk with nonce := (signBatch signer w.desk.nonce p.market ops).1 } _
      (.signed batch) (h.atPc hpc rfl) hops rfl rfl
  | @unsigned signer ops hpc =>
    exact Consistent.giveUp
      (d := { w.desk with nonce := (signBatch signer w.desk.nonce p.market ops).1 }) (h.atPc hpc rfl) rfl
  | signTaskDied reserved hpc =>
    exact Consistent.giveUp
      (d := { w.desk with nonce := { w.desk.nonce with nonce := w.desk.nonce.nonce + reserved } })
      (h.atPc hpc rfl) rfl
  | @notSent batch hpc =>
    have hl := h.atPc hpc rfl
    show Ledger w.om ([] ++ _) (w.events ++ (SenderPc.decided batch .notSent).owed) w.rowsDue w.desk.venue
    rw [owed_failed batch (.inl rfl), List.nil_append]
    exact hl.fail
  | execute consumed hpc hsent => exact h.executeStep _ consumed hpc hsent
  | note hpc =>
    refine h.requeue _ _ _ (List.nil_sublist _) ?_ rfl (.refl _)
    rw [hpc]
    exact List.Subset.refl _
  | @settle refreshes batch r hpc =>
    have hv : ((if r.resyncs then (w.desk.resyncNonceOrPause w.clock refreshes).1 else w.desk).parkUnknown
        w.clock r).venue = w.desk.venue := by
      rw [Desk.parkUnknown_venue]
      split
      · exact Desk.resyncNonceOrPause_venue _ _ _
      · rfl
    have hq := h.requeue _ (.settled batch r) [] (List.nil_sublist _)
      (by rw [hpc]; exact List.Subset.refl _) (congrArg Venue.created hv)
      (by rw [hv])
    rw [List.append_nil] at hq
    exact hq
  | finish attempts hpc =>
    refine h.requeue _ _ _ (List.nil_sublist _) ?_ ?_ ?_
    · rw [hpc, show SenderPc.idle.owed = ([] : List (OrderEvent n)) from rfl, List.append_nil]
      exact List.Subset.refl _
    · split
      · exact (w.desk.cancelAllAndVerify_frame attempts).created
      · rfl
    · split
      · exact CancelFrame_live (w.desk.cancelAllAndVerify_frame attempts)
      · exact .refl _
  | dieWritten consumed hpc =>
    have hex := h.executeStep .unknown consumed hpc (by decide)
    exact hex.shrink rfl (.refl _) (fun _ he => he) (fun _ hr => hr) rfl (.refl _)
  | die =>
    refine h.shrink rfl ?_ ?_ (fun _ hr => hr) rfl (.refl _)
    · exact (List.nil_sublist _).append (.refl _)
    · show w.events ++ [] ⊆ w.events ++ w.sender.owed
      rw [List.append_nil]
      exact List.subset_append_left _ _

/-- What a step does with the rows and the orphan cancels that the poller has in hand. -/
inductive PollerMove (w w' : World n) : Prop
  | fewer : w'.poller.rows ⊆ w.poller.rows → w'.poller.todo ⊆ w.poller.todo → PollerMove w w'
  | fetched : w'.poller.rows = w.desk.venue.rows → w'.poller.todo = [] → PollerMove w w'
  | delivered : w'.poller.rows = [] → w'.poller.todo ⊆ w.orphanTodo w.poller.rows → PollerMove w w'

/-- **A step of the poller**; what it hands to the hot task was due. -/
theorem pollerStep_move {a : PollerAct} (hst : w.pollerStep p a = some w') :
    PollerMove w w' ∧ w'.reconcileSwap.getD [] ⊆ w.rowsDue := by
  have hswap : w.reconcileSwap.getD [] ⊆ w.rowsDue := fun o ho => List.mem_append_left _ ho
  cases pollerStep_cases hst with
  | fetch => exact ⟨.fetched rfl rfl, hswap⟩
  | @deliver rows hpc =>
    refine ⟨.delivered ?_ ?_, ?_⟩
    · dsimp only
      split <;> rfl
    · rw [hpc]
      dsimp only
      split
      · exact List.nil_subset _
      · exact List.Subset.refl _
    · simp only [rowsDue, hpc, Option.getD_some]
      exact List.subset_append_right _ rows
  | stale =>
    unfold deadmanCheck
    split <;> exact ⟨.fewer (List.nil_subset _) (List.nil_subset _), hswap⟩
  | nonceCheck hpc =>
    refine ⟨.fewer ?_ ?_, hswap⟩
    · dsimp only
      split <;> exact List.nil_subset _
    · rw [hpc]
      dsimp only
      split <;> exact List.Subset.refl _
  | resync ok hpc =>
    refine ⟨.fewer (List.nil_subset _) ?_, hswap⟩
    rw [hpc]
    exact List.Subset.refl _
  | @orphan s eid todo orphans hpc =>
    refine ⟨.fewer (List.nil_subset _) ?_, hswap⟩
    rw [hpc]
    exact List.subset_cons_self eid todo
  | fresh | fetchFailed | endLoop | deadmanCancel | overCapCancel =>
    exact ⟨.fewer (List.nil_subset _) (List.nil_subset _), hswap⟩

/-- A snapshot row that the poller passes on was due before or is of an order that rests. -/
theorem pollerStep_rows {a : PollerAct} (hst : w.pollerStep p a = some w') :
    ∀ o ∈ w'.rowsDue, o ∈ w.rowsDue ∨ o ∈ w.desk.venue.rows := by
  obtain ⟨hmove, hswap⟩ := pollerStep_move hst
  intro o ho
  rcases List.mem_append.mp ho with ho | ho
  · exact .inl (hswap ho)
  · cases hmove with
    | fewer hrows _ => exact .inl (List.mem_append_right _ (hrows ho))
    | fetched hrows _ =>
      rw [hrows] at ho
      exact .inr ho
    | delivered hrows _ =>
      rw [hrows] at ho
      cases ho

theorem Consistent.pollerStep {a : PollerAct} (h : w.Consistent) (hst : w.pollerStep p a = some w') :
    w'.Consistent := by
  have hf := pollerStep_frame hst
  have hflight : w'.inFlight = w.inFlight := by
    simp only [inFlight, hf.sender, hf.mailbox, hf.hot]
  have howed : w'.owed = w.owed := by
    simp only [owed, hf.events, hf.sender]
  unfold Consistent
  rw [hf.om, hflight, howed]
  refine Ledger.shrink h (.refl _) (fun _ he => he) ?_ hf.created (Venue.idents_sublist hf.live)
  intro o ho
  rcases pollerStep_rows hst o ho with hold | hnew
  · exact h.rowsTrue o hold
  · exact h.rows_true o hnew

theorem Consistent.shutdownStep {a : ShutdownAct} (h : w.Consistent)
    (hst : w.shutdownStep a = some w') : w'.Consistent := by
  have hf := shutdownStep_frame hst
  refine h.shrink hf.om ?_ ?_ ?_ hf.created hf.live
  · simp only [inFlight, hf.sender, hf.mailbox, hf.hot]
    exact .refl _
  · simp only [owed, hf.events, hf.sender]
    exact List.Subset.refl _
  · simp only [rowsDue, hf.reconcileSwap, hf.poller]
    exact List.Subset.refl _

theorem Consistent.envStep {a : EnvAct} (h : w.Consistent) (hok : OrderSafe w (.env a))
    (hst : w.envStep a = some w') : w'.Consistent := by
  cases envStep_cases hst with
  | tick => exact h
  | @idResolved cid eid hany =>
    have hpairs : w.desk.venue.Pairs cid eid := by
      obtain ⟨o, ho, hoc⟩ := List.any_eq_true.mp hany
      exact ⟨o, ho, of_decide_eq_true hoc⟩
    have hl := Ledger.owe h [.idResolved cid eid] fun e he => by
      rw [List.mem_singleton.mp he]
      exact hpairs
    refine hl.shrink (.refl _) ?_ hl.rowsTrue rfl (.refl _)
    -- the new event stands before those the sender owes
    show (w.events ++ [OrderEvent.idResolved cid eid]) ++ w.sender.owed ⊆
      (w.events ++ w.sender.owed) ++ [OrderEvent.idResolved cid eid]
    intro e he
    simp only [List.mem_append] at he ⊢
    rcases he with (he | he) | he
    · exact .inl (.inl he)
    · exact .inr he
    · exact .inl (.inr he)
  | fill => exact hok.elim
  | drop => exact h.shrink rfl (.refl _) (fun _ he => he) (fun _ hr => hr) rfl List.filter_sublist

/-- **A step keeps the ledger.** -/
theorem Consistent.step {a : Act n} (h : w.Consistent) (hok : OrderSafe w a)
    (hst : w.step p a = some w') : w'.Consistent := by
  cases a with
  | hot a => exact h.hotStep hok hst
  | sender a => exact h.senderStep hst
  | poller a => exact h.pollerStep hst
  | shutdown a => exact h.shutdownStep hst
  | env a => exact h.envStep hok hst

/-- **One live order per slot**: in every run of such steps the exchange never holds two orders that
were created for the same slot. -/
theorem one_live_order_per_slot (h : Trans.ReachBy (step p) OrderSafe (start p n) w) (side : Side)
    (level : Fin n) : (w.desk.venue.liveAt side level).length ≤ 1 := by
  have hcons : w.Consistent :=
    h.invariant start_consistent fun s a s' hs hok hst => hs.step hok hst
  exact Ledger.liveAt_length hcons side level

/-- A tick of the hot task that drains one event and is throttled. -/
def drainActs : List (Act 1) :=
  [.hot (.book true), .hot .drain, .hot .drained, .hot .reconcile, .hot (.quote .throttled), .hot .send]

/-- A bid is created, confirmed, and found again by a snapshot. -/
def confirmedBid : List (Act 1) :=
  tickActs (bidAt 100 1000) ++ takeActs ++ writeActs ++ acceptedActs ++ pollActs ++ drainActs

theorem one_live_order_per_slot_confirmed :
    ∃ w : World 1, Trans.ReachBy (step .shipped) OrderSafe (start .shipped 1) w ∧
      w.desk.venue.live ≠ [] ∧ (w.desk.venue.liveAt .buy 0).length ≤ 1 := by
  obtain ⟨w, hw, hlive⟩ := Option.map_eq_some_iff.mp
    (show (Trans.runIf (step .shipped) OrderSafe (start .shipped 1) confirmedBid).map
        (fun w => w.desk.venue.live.length) = some 1 by decide +kernel)
  refine ⟨w, .of_runIf hw, ?_, one_live_order_per_slot (.of_runIf hw) .buy 0⟩
  rintro hnil
  rw [hnil] at hlive
  cases hlive

/-- The grace of a slot passes. -/
def graceActs : List (Act 1) := [.env (.tick 6)]

/-- A Create waits in the rate gate while two snapshots miss its order. The slot is cleared and
created again, and then both Creates are sent and accepted. -/
def slowGate : List (Act 1) :=
  tickActs (bidAt 100 1000) ++ takeActs ++ graceActs ++ pollActs ++ tickActs .throttled ++
    pollActs ++ tickActs (bidAt 100 2000) ++ writeActs ++ acceptedActs ++ takeActs ++ writeActs ++
    acceptedActs

/-- No fill is reported, and no batch ends without an answer. -/
def noFillNoUnknown : Act n → Bool
  | .env (.fill _ _) => false
  | .sender (.execute .unknown _) => false
  | .sender (.die _) => false
  | _ => true

/-- **Two live orders for one slot**, without fills and without unknown outcomes. -/
theorem two_live_orders :
    ¬ ∀ (as : List (Act 1)) (w : World 1), as.all noFillNoUnknown = true →
      Trans.run (step .shipped) (start .shipped 1) as = some w →
      ∀ side level, (w.desk.venue.liveAt side level).length ≤ 1 := by
  intro h
  obtain ⟨w, hw, hlive⟩ := Option.map_eq_some_iff.mp
    (show (Trans.run (step .shipped) (start .shipped 1) slowGate).map
        (fun w => (w.desk.venue.liveAt .buy 0).length) = some 2 by decide +kernel)
  have := h slowGate w (by decide) hw .buy 0
  omega

end World

end LighterMM
