import LighterMM.Exec.ClientIds
import LighterMM.Lib.WatchLog
import LighterMM.System.OneOrder

/-!
# The way of a batch to the exchange

The mailbox between `maybe_quote` and `paced_send` is a single slot that the hot task overwrites. `Posted` is a
run of the live system with the numbers of the batches: the hot task publishes them in order, the sender takes
some of them, writes some of these, and the exchange executes some of those.

`batches_in_order`: whatever the interleaving and the outcomes, no batch overtakes another one, none is taken,
written or executed twice, the newest one waits or was taken, and the orders that the exchange ever accepted
are those of the executed batches, in the order of publication.
-/

namespace LighterMM

variable {n : ℕ}

/-- The batch that the sender holds and has not written yet. -/
def SenderPc.unwritten : SenderPc n → Option (List (BatchOp n))
  | .gate ops | .waitLock ops | .signing ops => some ops
  | .signed batch => some batch.ops
  | _ => none

/-- The batch that the exchange has to decide about. -/
def SenderPc.onWire : SenderPc n → Option (List (BatchOp n))
  | .written batch => some batch.ops
  | _ => none

/-! ## The orders that the exchange accepts -/

namespace Venue

theorem execOp_createdIds (v : Venue n) (op : BatchOp n) :
    (v.execOp op).createdIds = v.createdIds ++ createIds [op] := by
  unfold execOp createdIds createIds
  cases hact : op.action with
  | create => simp [hact, orderOf]
  | modify | cancel => simp [hact]

theorem foldl_execOp_createdIds (v : Venue n) (ops : List (BatchOp n)) :
    (ops.foldl execOp v).createdIds = v.createdIds ++ createIds ops := by
  induction ops generalizing v with
  | nil => simp [createIds]
  | cons op ops ih =>
    rw [List.foldl_cons, ih, execOp_createdIds, List.append_assoc, ← createIds_append, List.singleton_append]

end Venue

theorem transmit_createdIds (d : Desk n) (ops : List (BatchOp n)) (r : TxSendResult) (consumed : Bool) :
    (d.transmit ops r consumed).venue.createdIds =
      d.venue.createdIds ++ if r.executed consumed then createIds ops else [] := by
  unfold Desk.transmit
  split
  · exact Venue.foldl_execOp_createdIds d.venue ops
  · exact (List.append_nil _).symm

/-! ## The run with the numbers of its batches -/

/-- A run of the live system: the batches published, and the numbers of those that the sender took, of those
that it wrote, and of those that the exchange executed. -/
structure Posted (n : ℕ) where
  world : World n
  sent : List (List (BatchOp n))
  taken : List ℕ
  written : List ℕ
  executed : List ℕ

namespace Posted

/-- The batches that an action publishes. -/
def posts (w : World n) : Act n → List (List (BatchOp n))
  | .hot (.resnapshot _) => [[]]
  | .hot .send =>
    match w.hot with
    | .sending (some ops) => [ops]
    | _ => []
  | _ => []

/-- The number that the sender takes. -/
def takes (o : Posted n) : Act n → List ℕ
  | .sender .take => [o.sent.length - 1]
  | _ => []

/-- The number of the batch that the sender writes: it took it last. -/
def writes (o : Posted n) : Act n → List ℕ
  | .sender .write => o.taken.getLast?.toList
  | _ => []

/-- The exchange executes the batch that was written last. -/
def executes (o : Posted n) : Act n → List ℕ
  | .sender (.execute r consumed) => if r.executed consumed then o.written.getLast?.toList else []
  | .sender (.die consumed) =>
    match o.world.sender with
    | .written _ => if consumed then o.written.getLast?.toList else []
    | _ => []
  | _ => []

def start (p : Params) (n : ℕ) : Posted n := ⟨.start p n, [], [], [], []⟩

def step (p : Params) (o : Posted n) (a : Act n) : Option (Posted n) :=
  (o.world.step p a).map fun world =>
    ⟨world, o.sent ++ posts o.world a, o.taken ++ o.takes a, o.written ++ o.writes a, o.executed ++ o.executes a⟩

/-- The mailbox with its history. -/
def log (o : Posted n) : WatchLog (List (BatchOp n)) := ⟨o.world.mailbox, o.sent, o.taken⟩

/-- The batch of a number. -/
def batch (o : Posted n) (i : ℕ) : List (BatchOp n) := o.sent[i]?.getD []

/-- `ops` is the last batch of `ids`, and no later one is among `done`. -/
def Heads (o : Posted n) (ids done : List ℕ) (ops : List (BatchOp n)) : Prop :=
  ∃ prev i, ids = prev ++ [i] ∧ o.sent[i]? = some ops ∧ done.Sublist prev

structure Inv (o : Posted n) : Prop where
  log : o.log.Ordered
  written : o.written.Sublist o.taken
  executed : o.executed.Sublist o.written
  unwritten : ∀ ops, o.world.sender.unwritten = some ops → o.Heads o.taken o.written ops
  onWire : ∀ ops, o.world.sender.onWire = some ops → o.Heads o.written o.executed ops
  created : o.world.desk.venue.createdIds = o.executed.flatMap fun i => createIds (o.batch i)

variable {p : Params} {o o' : Posted n} {w : World n}

theorem start_inv : (start p n).Inv :=
  ⟨WatchLog.init_ordered [], .slnil, .slnil, fun _ h => (by cases h), fun _ h => (by cases h), rfl⟩

/-- A step that moves no batch. The sender may drop the one that it holds. -/
theorem Inv.keep (h : o.Inv) (hm : w.mailbox = o.world.mailbox)
    (hu : w.sender.unwritten = o.world.sender.unwritten ∨ w.sender.unwritten = none)
    (hw : w.sender.onWire = o.world.sender.onWire ∨ w.sender.onWire = none)
    (hc : w.desk.venue.created = o.world.desk.venue.created) : Inv { o with world := w } where
  log := by
    show (WatchLog.mk w.mailbox o.sent o.taken).Ordered
    rw [hm]
    exact h.log
  written := h.written
  executed := h.executed
  unwritten ops hops := by
    rcases hu with hu | hu
    · exact h.unwritten ops (hu ▸ hops)
    · rw [hu] at hops
      cases hops
  onWire ops hops := by
    rcases hw with hw | hw
    · exact h.onWire ops (hw ▸ hops)
    · rw [hw] at hops
      cases hops
  created := by
    show w.desk.venue.createdIds = _
    rw [Venue.createdIds, hc]
    exact h.created

/-- The hot task publishes a batch. -/
theorem Inv.publish (h : o.Inv) (ops : List (BatchOp n)) (hm : w.mailbox = o.world.mailbox.send ops)
    (hs : w.sender = o.world.sender) (hd : w.desk = o.world.desk) :
    Inv { o with world := w, sent := o.sent ++ [ops] } := by
  have hget : ∀ {i : ℕ} {b : List (BatchOp n)}, o.sent[i]? = some b → (o.sent ++ [ops])[i]? = some b :=
    fun {i b} hi => by rw [List.getElem?_append_left (List.getElem?_eq_some_iff.mp hi).1, hi]
  refine ⟨?_, h.written, h.executed, fun b hb => ?_, fun b hb => ?_, ?_⟩
  · show (WatchLog.mk w.mailbox (o.sent ++ [ops]) o.taken).Ordered
    rw [hm]
    exact h.log.send ops
  · obtain ⟨prev, i, hids, hi, hsub⟩ := h.unwritten b (hs ▸ hb)
    exact ⟨prev, i, hids, hget hi, hsub⟩
  · obtain ⟨prev, i, hids, hi, hsub⟩ := h.onWire b (hs ▸ hb)
    exact ⟨prev, i, hids, hget hi, hsub⟩
  · show w.desk.venue.createdIds = _
    rw [hd, h.created]
    refine List.flatMap_congr fun i hi => ?_
    have hlt : i < o.sent.length := h.log.bounded i (h.written.subset (h.executed.subset hi))
    simp only [batch, List.getElem?_append_left hlt]

/-- The sender takes what the mailbox holds; it keeps it or drops it. -/
theorem Inv.take (h : o.Inv) {ops : List (BatchOp n)} (hpending : o.world.mailbox.pending = some ops)
    (hm : w.mailbox = o.world.mailbox.markSeen) (hu : w.sender.unwritten = some ops ∨ w.sender.unwritten = none)
    (hw : w.sender.onWire = none) (hc : w.desk.venue.created = o.world.desk.venue.created) :
    Inv { o with world := w, taken := o.taken ++ [o.sent.length - 1] } := by
  have hget : o.sent[o.sent.length - 1]? = some ops := h.log.pending_get hpending
  refine ⟨?_, h.written.trans (List.sublist_append_left _ _), h.executed, fun b hb => ?_, fun b hb => ?_, ?_⟩
  · show (WatchLog.mk w.mailbox o.sent (o.taken ++ [o.sent.length - 1])).Ordered
    rw [hm]
    exact h.log.take hpending
  · rcases hu with hu | hu
    · obtain rfl : ops = b := Option.some.inj (hu.symm.trans hb)
      exact ⟨o.taken, o.sent.length - 1, rfl, hget, h.written⟩
    · rw [hu] at hb
      cases hb
  · rw [hw] at hb
    cases hb
  · show w.desk.venue.createdIds = _
    rw [Venue.createdIds, hc]
    exact h.created

/-- The sender writes the batch that it took last. -/
theorem Inv.write (h : o.Inv) {batch : SignedBatch n} (hpc : o.world.sender = .signed batch) :
    Inv { o with world := { o.world with sender := .written batch },
                 written := o.written ++ o.taken.getLast?.toList } := by
  obtain ⟨prev, i, hids, hi, hsub⟩ := h.unwritten batch.ops (by rw [hpc]; rfl)
  have hlast : o.taken.getLast?.toList = [i] := by rw [hids, List.getLast?_concat]; rfl
  rw [hlast]
  refine ⟨h.log, ?_, h.executed.trans (List.sublist_append_left _ _), fun _ hb => (by cases hb), fun b hb => ?_,
    h.created⟩
  · show (o.written ++ [i]).Sublist o.taken
    rw [hids]
    exact hsub.append (.refl _)
  · cases hb
    exact ⟨o.written, i, rfl, hi, h.executed⟩

/-- The exchange decides about the batch on the wire. -/
theorem Inv.decide (h : o.Inv) {batch : SignedBatch n} (hpc : o.world.sender = .written batch) {r : TxSendResult}
    {consumed : Bool} {pc : SenderPc n} (hu : pc.unwritten = none) (hw : pc.onWire = none) :
    Inv { o with world := { o.world with desk := o.world.desk.transmit batch.ops r consumed, sender := pc },
                 executed := o.executed ++ if r.executed consumed then o.written.getLast?.toList else [] } := by
  obtain ⟨prev, i, hids, hi, hsub⟩ := h.onWire batch.ops (by rw [hpc]; rfl)
  have hlast : o.written.getLast?.toList = [i] := by rw [hids, List.getLast?_concat]; rfl
  have hbatch : o.batch i = batch.ops := by rw [Posted.batch, hi]; rfl
  rw [hlast]
  refine ⟨h.log, h.written, ?_, fun b hb => ?_, fun b hb => ?_, ?_⟩
  · show (o.executed ++ if r.executed consumed then [i] else []).Sublist o.written
    rw [hids]
    refine hsub.append ?_
    split
    · exact .refl _
    · exact List.nil_sublist _
  · rw [show pc.unwritten = some b from hb] at hu
    cases hu
  · rw [show pc.onWire = some b from hb] at hw
    cases hw
  · show (o.world.desk.transmit batch.ops r consumed).venue.createdIds = _
    rw [transmit_createdIds, h.created, List.flatMap_append]
    congr 1
    split
    · rw [List.flatMap_singleton]
      exact congrArg createIds hbatch.symm
    · rfl

theorem Inv.hotStep {a : HotAct n} (h : o.Inv) (hst : o.step p (.hot a) = some o') : o'.Inv := by
  obtain ⟨w, hw, rfl⟩ := Option.map_eq_some_iff.mp hst
  have hframe := World.hotStep_frame hw
  have hkeep : w.mailbox = o.world.mailbox → Inv { o with world := w } := fun hm =>
    h.keep hm (.inl (by rw [hframe.sender])) (.inl (by rw [hframe.sender])) (by rw [hframe.desk])
  simp only [takes, writes, executes, List.append_nil]
  cases World.hotStep_cases hw with
  | resnapshot => exact h.publish [] rfl rfl rfl
  | send hpc =>
    simp only [posts, hpc]
    exact h.publish _ rfl rfl rfl
  | noBatch hpc =>
    simp only [posts, hpc, List.append_nil]
    exact hkeep rfl
  | ladder =>
    simp only [posts, List.append_nil]
    exact hkeep (World.publishTracked_frame _).2.2.2.1
  | book | drain | drained | noSnapshot | reconcile | noLadder =>
    simp only [posts, List.append_nil]
    exact hkeep rfl

theorem Inv.senderStep {a : SenderAct} (h : o.Inv) (hst : o.step p (.sender a) = some o') : o'.Inv := by
  obtain ⟨w, hw, rfl⟩ := Option.map_eq_some_iff.mp hst
  simp only [posts, List.append_nil]
  cases World.senderStep_cases hw with
  | dropped hpc hpending | refused hpc hpending =>
    simp only [takes, writes, executes, List.append_nil]
    have hidle : o.world.canTrade.1.sender = .idle := hpc
    exact h.take hpending rfl (.inr (by simp only [hidle]; rfl)) (by simp only [hidle]; rfl) rfl
  | taken hpc hpending =>
    simp only [takes, writes, executes, List.append_nil]
    exact h.take hpending rfl (.inl rfl) rfl rfl
  | write hpc =>
    simp only [takes, executes, List.append_nil]
    exact h.write hpc
  | execute consumed hpc =>
    simp only [takes, writes, List.append_nil]
    exact h.decide hpc rfl rfl
  | dieWritten consumed hpc =>
    simp only [takes, writes, executes, hpc, List.append_nil]
    exact h.decide (r := .unknown) hpc rfl rfl
  | die consumed hpc =>
    have hnone : o.executes (.sender (.die consumed)) = [] := by simp only [executes]
    simp only [takes, writes, hnone, List.append_nil]
    exact h.keep rfl (.inr rfl) (.inr rfl) rfl
  | recover =>
    simp only [takes, writes, executes, List.append_nil]
    exact h.keep rfl (.inl rfl) (.inl rfl) rfl
  | passed hpc | locked hpc =>
    simp only [takes, writes, executes, List.append_nil]
    exact h.keep rfl (.inl (by rw [hpc]; rfl)) (.inr rfl) rfl
  | signed hpc hok =>
    simp only [takes, writes, executes, List.append_nil]
    refine h.keep rfl (.inl ?_) (.inr rfl) rfl
    rw [hpc]
    exact congrArg some (signBatch_ok hok).2
  | settle =>
    simp only [takes, writes, executes, List.append_nil]
    refine h.keep rfl (.inr rfl) (.inr rfl) ?_
    rw [Desk.parkUnknown_venue]
    split
    · rw [Desk.resyncNonceOrPause_venue]
    · rfl
  | finish attempts =>
    simp only [takes, writes, executes, List.append_nil]
    refine h.keep rfl (.inr rfl) (.inr rfl) ?_
    split
    · exact (o.world.desk.cancelAllAndVerify_frame attempts).created
    · rfl
  | skipped | halted | unsigned | signTaskDied | notSent | note =>
    simp only [takes, writes, executes, List.append_nil]
    exact h.keep rfl (.inr rfl) (.inr rfl) rfl

theorem Inv.step {a : Act n} (h : o.Inv) (hst : o.step p a = some o') : o'.Inv := by
  cases a with
  | hot a => exact h.hotStep hst
  | sender a => exact h.senderStep hst
  | poller a =>
    obtain ⟨w, hw, rfl⟩ := Option.map_eq_some_iff.mp hst
    have hframe := World.pollerStep_frame hw
    simp only [posts, takes, writes, executes, List.append_nil]
    exact h.keep hframe.mailbox (.inl (by rw [hframe.sender])) (.inl (by rw [hframe.sender])) hframe.created
  | shutdown a =>
    obtain ⟨w, hw, rfl⟩ := Option.map_eq_some_iff.mp hst
    have hframe := World.shutdownStep_frame hw
    simp only [posts, takes, writes, executes, List.append_nil]
    exact h.keep hframe.mailbox (.inl (by rw [hframe.sender])) (.inl (by rw [hframe.sender])) hframe.created
  | env a =>
    obtain ⟨w, hw, rfl⟩ := Option.map_eq_some_iff.mp hst
    have hframe := World.envStep_frame hw
    simp only [posts, takes, writes, executes, List.append_nil]
    exact h.keep hframe.mailbox (.inl (by rw [hframe.sender])) (.inl (by rw [hframe.sender])) hframe.created

/-- **Batches reach the exchange in order.** In every run, with any interleaving of the parties and any outcome
of each frame: the sender takes the batches in the order of their publication, none of them twice, writes some of
these and the exchange executes some of those, at most once each; the newest batch waits in the mailbox or is the
one that the sender took last; and the client ids of all the orders that the exchange ever accepted are those of
the Creates of the executed batches, in that order. -/
theorem batches_in_order (p : Params) (o : Posted n) (h : Trans.Reach (step p) (start p n) o) :
    o.taken.Pairwise (· < ·) ∧ (∀ i ∈ o.taken, i < o.sent.length) ∧ o.written.Sublist o.taken ∧
      o.executed.Sublist o.written ∧
      (∀ ops, o.sent.getLast? = some ops →
        o.world.mailbox.pending = some ops ∨ o.taken.getLast? = some (o.sent.length - 1)) ∧
      o.world.desk.venue.createdIds = o.executed.flatMap fun i => createIds (o.batch i) := by
  have hinv : o.Inv := h.invariant start_inv fun o a o' ho _ hst => ho.step hst
  refine ⟨hinv.log.increasing, hinv.log.bounded, hinv.written, hinv.executed, fun ops hops => ?_, hinv.created⟩
  cases hpending : o.world.mailbox.pending with
  | some v =>
    left
    rw [← (hinv.log.newest v hpending).1]
    exact hops
  | none =>
    right
    rcases hinv.log.served hpending with hnil | hlast
    · rw [show o.sent = [] from hnil] at hops
      cases hops
    · exact hlast

/-- A ladder overwrites the batch before it; the exchange accepts it. -/
def overwritten : List (Act 1) :=
  [.hot (.resnapshot true)] ++ World.tickActs (World.bidAt 100 1) ++ World.takeActs ++ World.writeActs ++
    World.acceptedActs

theorem batches_in_order_overwritten : ∃ o : Posted 1, o.sent.length = 2 ∧ o.executed = [1] ∧
    o.written.Sublist o.taken ∧ o.executed.Sublist o.written := by
  obtain ⟨o, ho, h⟩ := Option.map_eq_some_iff.mp
    (show (Trans.run (step .shipped) (start .shipped 1) overwritten).map (fun o =>
      decide (o.sent.length = 2 ∧ o.executed = [1])) = some true by decide +kernel)
  have horder := batches_in_order .shipped o (Trans.reach_iff_run.mpr ⟨_, ho⟩)
  exact ⟨o, (of_decide_eq_true h).1, (of_decide_eq_true h).2, horder.2.2.1, horder.2.2.2.1⟩

end Posted

end LighterMM
