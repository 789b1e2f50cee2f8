import LighterMM.Exec.TrackedIds
import LighterMM.Hot.Occupancy
import LighterMM.System.OneOrder

/-!
# The poller never takes a tracked order for an orphan

The hot task publishes the tracked ids before it sends the batch, and the poller loads them after the
fetch. The marks that a quote makes before it publishes are private to the hot task, so the quote and
its publication are one step here; the send is the next one.

- **What is published** (`step_published`): `last_tracked` is the published list, and a step leaves it
  or publishes the ids that the slots track.
- **What the poller has in hand** (`Accurate`): its rows and its orphan cancels name orders that the
  exchange has accepted.
- **A created order that keeps its slot is no orphan** (`tracked_never_orphan`): in every state after
  the quote its id is published, and no orphan cancel that is left names its order.
-/

namespace LighterMM

variable {n : ℕ}

/-! ## The published ids -/

namespace World

variable {p : Params} {w w' : World n}

/-- What the hot task published last is what the others read. -/
def Published (w : World n) : Prop := w.lastTracked = w.trackedIds

theorem publishTracked_published (h : w.Published) :
    w.publishTracked.Published ∧ w.publishTracked.trackedIds = w.publishTracked.om.trackedClientIds := by
  unfold publishTracked
  split
  · rename_i heq
    exact ⟨h, h.symm.trans (OrderManager.trackedIdsEqual_iff.mp heq).symm⟩
  · exact ⟨rfl, rfl⟩

theorem quote_published {levels : List Level} {args : CollectArgs} (h : w.Published)
    (hst : w.hotStep (.quote (.ladder levels args)) = some w') :
    w'.Published ∧ w'.trackedIds = w'.om.trackedClientIds := by
  cases hotStep_cases hst with
  | ladder => exact publishTracked_published h
  | noLadder _ hd => exact absurd rfl (hd levels args)

theorem hotStep_published {a : HotAct n} (h : w.Published) (hst : w.hotStep a = some w') :
    w'.Published ∧ (w'.trackedIds = w.trackedIds ∨ w'.trackedIds = w'.om.trackedClientIds) := by
  cases hotStep_cases hst with
  | ladder =>
    obtain ⟨hp, ht⟩ := quote_published h hst
    exact ⟨hp, .inr ht⟩
  | _ => exact ⟨h, .inl rfl⟩

/-- Only the hot task remembers what it published. -/
theorem pollerStep_lastTracked {a : PollerAct} (hst : w.pollerStep p a = some w') :
    w'.lastTracked = w.lastTracked := by
  obtain ⟨d, rs, pc, po, rfl, -⟩ := pollerStep_own hst
  rfl

theorem senderStep_lastTracked {a : SenderAct} (hst : w.senderStep p a = some w') :
    w'.lastTracked = w.lastTracked := by
  obtain ⟨d, mb, ev, pc, rfl⟩ := senderStep_own hst
  rfl

theorem shutdownStep_lastTracked {a : ShutdownAct} (hst : w.shutdownStep a = some w') :
    w'.lastTracked = w.lastTracked := by
  cases shutdownStep_cases hst <;> rfl

theorem envStep_lastTracked {a : EnvAct} (hst : w.envStep a = some w') :
    w'.lastTracked = w.lastTracked := by
  cases envStep_cases hst <;> rfl

/-- **A step** leaves the published list or publishes the ids that the slots track. -/
theorem step_published {a : Act n} (h : w.Published) (hst : w.step p a = some w') :
    w'.Published ∧ (w'.trackedIds = w.trackedIds ∨ w'.trackedIds = w'.om.trackedClientIds) := by
  have hsame (hl : w'.lastTracked = w.lastTracked) (ht : w'.trackedIds = w.trackedIds) :
      w'.Published ∧ (w'.trackedIds = w.trackedIds ∨ w'.trackedIds = w'.om.trackedClientIds) :=
    ⟨hl.trans (h.trans ht.symm), .inl ht⟩
  cases a with
  | hot a => exact hotStep_published h hst
  | sender a => exact hsame (senderStep_lastTracked hst) (senderStep_frame hst).trackedIds
  | poller a => exact hsame (pollerStep_lastTracked hst) (pollerStep_frame hst).trackedIds
  | shutdown a => exact hsame (shutdownStep_lastTracked hst) (shutdownStep_frame hst).trackedIds
  | env a => exact hsame (envStep_lastTracked hst) (envStep_frame hst).trackedIds

end World

/-! ## The orders of the exchange -/

namespace Venue

/-- An order index names one order that was ever accepted, and a resting order is one of them. -/
structure Numbered (v : Venue n) : Prop where
  le : ∀ o ∈ v.created, o.orderIndex ≤ v.created.length
  nodup : (v.created.map (·.orderIndex)).Nodup
  live : ∀ o ∈ v.live, v.Pairs o.clientOrderIndex o.orderIndex

/-- What a step of the system does to the exchange: orders leave the book, or a batch is executed. -/
inductive Moved (v : Venue n) : Venue n → Prop
  | fewer {v' : Venue n} : v'.created = v.created → v'.live.Sublist v.live → Moved v v'
  | executed (ops : List (BatchOp n)) : Moved v (v.execBatch ops)

variable {v v' : Venue n}

theorem Pairs.mono {c e : ℤ} (h : v.Pairs c e) (hc : v.created ⊆ v'.created) : v'.Pairs c e := by
  obtain ⟨o, ho, hids⟩ := h
  exact ⟨o, hc ho, hids⟩

/-- Two orders of one index are the same. -/
theorem Numbered.unique (h : v.Numbered) {o o' : VenueOrder n} (ho : o ∈ v.created) (ho' : o' ∈ v.created)
    (he : o.orderIndex = o'.orderIndex) : o = o' :=
  List.inj_on_of_nodup_map h.nodup ho ho' he

/-- The same orders, of which no other rests. -/
theorem Numbered.fewer (h : v.Numbered) (hc : v'.created = v.created) (hl : v'.idents ⊆ v.idents) :
    v'.Numbered := by
  refine ⟨by rw [hc]; exact h.le, by rw [hc]; exact h.nodup, fun o ho => ?_⟩
  obtain ⟨o₀, ho₀, hids⟩ := List.mem_map.mp (hl (mem_idents ho))
  have hpair := h.live o₀ ho₀
  simp only [Prod.mk.injEq] at hids
  rw [hids.1, hids.2.1] at hpair
  exact hpair.mono (by rw [hc]; exact List.Subset.refl _)

theorem execOp_numbered (h : v.Numbered) (op : BatchOp n) :
    (v.execOp op).Numbered ∧ v.created ⊆ (v.execOp op).created := by
  cases ha : op.action with
  | create =>
    obtain ⟨hlive, hcreated⟩ := execOp_create (v := v) ha
    have hsub : v.created ⊆ (v.execOp op).created := by
      rw [hcreated]
      exact List.subset_append_left _ _
    refine ⟨⟨fun o ho => ?_, ?_, fun o ho => ?_⟩, hsub⟩
    · rw [hcreated] at ho ⊢
      rw [List.length_append, List.length_singleton]
      rcases List.mem_append.mp ho with ho | ho
      · have := h.le o ho
        omega
      · rw [List.mem_singleton.mp ho]
        exact (Nat.cast_succ v.created.length).symm.le
    · rw [hcreated, List.map_append, List.map_singleton, List.nodup_append]
      refine ⟨h.nodup, List.nodup_singleton _, fun e he e' he' heq => ?_⟩
      -- The new index is above the others.
      obtain ⟨o, ho, rfl⟩ := List.mem_map.mp he
      have hle := h.le o ho
      have hnew : e' = v.created.length + 1 := List.mem_singleton.mp he'
      omega
    · rw [hlive] at ho
      rcases List.mem_append.mp ho with ho | ho
      · exact (h.live o ho).mono hsub
      · rw [List.mem_singleton.mp ho]
        refine ⟨v.orderOf op, ?_, rfl, rfl⟩
        rw [hcreated]
        exact List.mem_append_right _ (List.mem_singleton_self _)
  | modify =>
    obtain ⟨hcreated, hids⟩ := execOp_modify (v := v) ha
    refine ⟨h.fewer hcreated ?_, ?_⟩
    · rw [hids]
      exact List.Subset.refl _
    · rw [hcreated]
      exact List.Subset.refl _
  | cancel =>
    obtain ⟨hcreated, hlive⟩ := execOp_cancel (v := v) ha
    refine ⟨h.fewer hcreated ?_, ?_⟩
    · exact (idents_sublist (by rw [hlive]; exact List.filter_sublist)).subset
    · rw [hcreated]
      exact List.Subset.refl _

/-- **A step of the system** forgets no accepted order and keeps the indices apart. -/
theorem Numbered.moved (h : v.Numbered) (hm : v.Moved v') : v'.Numbered ∧ v.created ⊆ v'.created := by
  cases hm with
  | fewer hc hl =>
    refine ⟨h.fewer hc (idents_sublist hl).subset, ?_⟩
    rw [hc]
    exact List.Subset.refl _
  | executed ops =>
    -- The nonce of the exchange plays no part.
    have hfold : (ops.foldl execOp v).Numbered ∧ v.created ⊆ (ops.foldl execOp v).created := by
      induction ops generalizing v with
      | nil => exact ⟨h, List.Subset.refl _⟩
      | cons op ops ih =>
        obtain ⟨hop, hsub⟩ := execOp_numbered h op
        obtain ⟨hrest, hsub'⟩ := ih hop
        exact ⟨hrest, List.Subset.trans hsub hsub'⟩
    exact ⟨⟨hfold.1.le, hfold.1.nodup, hfold.1.live⟩, hfold.2⟩

end Venue

namespace World

variable {p : Params} {w w' : World n}

theorem transmit_moved (d : Desk n) (ops : List (BatchOp n)) (r : TxSendResult) (consumed : Bool) :
    d.venue.Moved (d.transmit ops r consumed).venue := by
  unfold Desk.transmit
  cases r.executed consumed with
  | true => exact .executed ops
  | false => exact .fewer rfl (.refl _)

theorem senderStep_moved {a : SenderAct} (hst : w.senderStep p a = some w') :
    w.desk.venue.Moved w'.desk.venue := by
  cases senderStep_cases hst with
  | execute | dieWritten => exact transmit_moved _ _ _ _
  | settle =>
    refine .fewer ?_ ?_
    all_goals
      rw [Desk.parkUnknown_venue]
      split
      · rw [Desk.resyncNonceOrPause_venue]
      · rfl
  | finish attempts =>
    have hf := w.desk.cancelAllAndVerify_frame attempts
    refine .fewer ?_ ?_
    · split
      · exact hf.created
      · rfl
    · split
      · exact CancelFrame_live hf
      · exact .refl _
  | _ => exact .fewer rfl (.refl _)

theorem step_moved {a : Act n} (hst : w.step p a = some w') : w.desk.venue.Moved w'.desk.venue := by
  cases a with
  | hot a =>
    rw [(hotStep_frame hst).desk]
    exact .fewer rfl (.refl _)
  | sender a => exact senderStep_moved hst
  | poller a => exact .fewer (pollerStep_frame hst).created (pollerStep_frame hst).live
  | shutdown a => exact .fewer (shutdownStep_frame hst).created (shutdownStep_frame hst).live
  | env a => exact .fewer (envStep_frame hst).created (envStep_frame hst).live

/-! ## What the poller has in hand -/

/-- The orphan cancels of a snapshot are of rows that no slot tracks. -/
theorem mem_orphanTodo {rows : List RemoteOrder} {e : ℤ} (h : e ∈ w.orphanTodo rows) :
    ∃ o ∈ rows, ∃ c, o.clientOrderIndex = some c ∧ o.orderIndex = some e ∧ c ∉ w.trackedIds := by
  obtain ⟨o, ho, he⟩ := List.mem_filterMap.mp h
  split at he
  · rename_i c e' hc he'
    split at he <;> cases he
    rename_i hcond
    exact ⟨o, ho, c, hc, he', hcond.1⟩
  · cases he

theorem PollerMove.ofSame (h : w'.poller = w.poller) : PollerMove w w' := by
  refine .fewer ?_ ?_
  · rw [h]
    exact List.Subset.refl _
  · rw [h]
    exact List.Subset.refl _

theorem step_move {a : Act n} (hst : w.step p a = some w') : PollerMove w w' := by
  cases a with
  | hot a => exact .ofSame (hotStep_frame hst).poller
  | sender a => exact .ofSame (senderStep_frame hst).poller
  | poller a => exact (pollerStep_move hst).1
  | shutdown a => exact .ofSame (shutdownStep_frame hst).poller
  | env a => exact .ofSame (envStep_frame hst).poller

/-- The rows and the orphan cancels of the poller name orders that the exchange has accepted. -/
structure Accurate (w : World n) : Prop where
  numbered : w.desk.venue.Numbered
  rows : OrderManager.RowsIn w.poller.rows w.desk.venue.Pairs
  todo : ∀ e ∈ w.poller.todo, ∃ c, w.desk.venue.Pairs c e

theorem start_accurate : (start p n).Accurate :=
  ⟨⟨by simp [start, Venue.init], by simp [start, Venue.init], by simp [start, Venue.init]⟩,
    by simp [OrderManager.RowsIn, start, PollerPc.rows], by simp [start, PollerPc.todo]⟩

/-- An orphan cancel of a snapshot is of an accepted order that no slot tracks. -/
theorem Accurate.orphanTodo (h : w.Accurate) {e : ℤ} (he : e ∈ w.orphanTodo w.poller.rows) :
    ∃ c, w.desk.venue.Pairs c e ∧ c ∉ w.trackedIds := by
  obtain ⟨o, ho, c, hc, he, hnot⟩ := mem_orphanTodo he
  exact ⟨c, h.rows o ho c e hc he, hnot⟩

theorem Accurate.step {a : Act n} (h : w.Accurate) (hst : w.step p a = some w') : w'.Accurate := by
  obtain ⟨hnum, hsub⟩ := h.numbered.moved (step_moved hst)
  refine ⟨hnum, fun r hr c e hc he => ?_, fun e he => ?_⟩
  · cases step_move hst with
    | fewer hrows _ => exact (h.rows r (hrows hr) c e hc he).mono hsub
    | fetched hrows _ =>
      rw [hrows] at hr
      obtain ⟨o, ho, rfl⟩ := List.mem_map.mp hr
      cases hc
      cases he
      exact (h.numbered.live o ho).mono hsub
    | delivered hrows _ =>
      rw [hrows] at hr
      cases hr
  · cases step_move hst with
    | fewer _ htodo =>
      obtain ⟨c, hc⟩ := h.todo e (htodo he)
      exact ⟨c, hc.mono hsub⟩
    | fetched _ htodo =>
      rw [htodo] at he
      cases he
    | delivered _ htodo =>
      obtain ⟨c, hc, -⟩ := h.orphanTodo (htodo he)
      exact ⟨c, hc.mono hsub⟩

/-! ## A created order that keeps its slot -/

/-- The slot of a Create tracks its order. -/
def Holds (op : BatchOp n) (w : World n) : Prop :=
  (w.om.slot op.side op.level).orderId = some op.clientOrderId

/-- While the slot of `op` tracks its order, the order is published, and no orphan cancel that is left
names an order of its client id but the old ones. -/
structure NoOrphan (op : BatchOp n) (old : List (VenueOrder n)) (w : World n) : Prop where
  accurate : w.Accurate
  published : w.Published
  tracked : Holds op w → op.clientOrderId ∈ w.trackedIds
  cancels : ∀ o ∈ w.desk.venue.created, o.clientOrderIndex = op.clientOrderId →
    o.orderIndex ∈ w.poller.todo → o ∈ old

variable {op : BatchOp n} {old : List (VenueOrder n)}

/-- **A step** of any party, from a state in which the slot tracks the order. -/
theorem NoOrphan.step {a : Act n} (h : NoOrphan op old w) (hold : Holds op w)
    (hst : w.step p a = some w') : NoOrphan op old w' := by
  obtain ⟨hpub, htracked⟩ := step_published h.published hst
  obtain ⟨hnum, hsub⟩ := h.accurate.numbered.moved (step_moved hst)
  have hid := h.tracked hold
  refine ⟨h.accurate.step hst, hpub, fun hold' => ?_, fun o ho hcid htodo => ?_⟩
  · rcases htracked with heq | heq
    · rw [heq]
      exact hid
    · rw [heq]
      exact OrderManager.mem_trackedClientIds_iff.mpr ⟨_, _, hold'⟩
  · -- The cancel names an order that was accepted before the step, and it is this one.
    cases step_move hst with
    | fewer _ hle =>
      obtain ⟨c, o', ho', -, he⟩ := h.accurate.todo _ (hle htodo)
      cases hnum.unique (hsub ho') ho he
      exact h.cancels o ho' hcid (hle htodo)
    | fetched _ hnil =>
      rw [hnil] at htodo
      cases htodo
    | delivered _ hle =>
      obtain ⟨c, ⟨o', ho', hc, he⟩, hnot⟩ := h.accurate.orphanTodo (hle htodo)
      cases hnum.unique (hsub ho') ho he
      rw [← hc, hcid] at hnot
      exact absurd hid hnot

/-- Only a ladder creates orders. -/
theorem ladder_of_create {d : Decision n} {om : OrderManager n} {now : Instant}
    (hop : op ∈ om.emitted now d) (hc : op.action = .create) : ∃ levels args, d = .ladder levels args := by
  cases d with
  | throttled => cases hop
  | flat => cases hop
  | gated =>
    have hcancel := (OrderManager.collectCancelOps_fits hop).1
    rw [hc] at hcancel
    cases hcancel
  | ladder levels args => exact ⟨levels, args, rfl⟩

/-- **No tracked order is an orphan**: from the quote that emits a Create on, in every run in which its
slot keeps the client id, the id is in no orphan set of the poller, and none of its orphan cancels
names an order that the exchange accepted under that id. -/
theorem tracked_never_orphan {w₀ w₁ w₂ : World n} {d : Decision n}
    (h₀ : Trans.Reach (step p) (start p n) w₀) (hq : w₀.step p (.hot (.quote d)) = some w₁)
    (hop : op ∈ w₀.om.emitted w₀.clock d) (hc : op.action = .create)
    (hrun : Trans.ReachBy (step p) (fun w _ => Holds op w) w₁ w₂) (hend : Holds op w₂) :
    (∀ rows, op.clientOrderId ∉ w₂.orphanIds rows) ∧
      ∀ o ∈ w₂.desk.venue.created, o.clientOrderIndex = op.clientOrderId →
        o ∉ w₀.desk.venue.created → o.orderIndex ∉ w₂.poller.todo := by
  obtain ⟨hacc, hpub⟩ : w₀.Accurate ∧ w₀.Published :=
    h₀.invariant (I := fun w => w.Accurate ∧ w.Published) ⟨start_accurate, rfl⟩ fun s a s' hs _ hst =>
      ⟨hs.1.step hst, (step_published hs.2 hst).1⟩
  obtain ⟨levels, args, rfl⟩ := ladder_of_create hop hc
  obtain ⟨hpub₁, htracked⟩ := quote_published hpub hq
  have hframe : HotFrame w₀ w₁ := hotStep_frame (a := .quote (.ladder levels args)) hq
  have h₁ : NoOrphan op w₀.desk.venue.created w₁ := by
    refine ⟨hacc.step hq, hpub₁, fun hold => ?_, fun o ho _ _ => ?_⟩
    · rw [htracked]
      exact OrderManager.mem_trackedClientIds_iff.mpr ⟨_, _, hold⟩
    · rw [hframe.desk] at ho
      exact ho
  have h₂ : NoOrphan op w₀.desk.venue.created w₂ :=
    hrun.invariant h₁ fun s a s' hs hold hst => hs.step hold hst
  refine ⟨fun rows hin => ?_, fun o ho hcid hnew htodo => hnew (h₂.cancels o ho hcid htodo)⟩
  have hnot := of_decide_eq_true (List.mem_filter.mp hin).2
  exact hnot (h₂.tracked hend)

instance (op : BatchOp n) (w : World n) : Decidable (Holds op w) :=
  inferInstanceAs (Decidable ((w.om.slot op.side op.level).orderId = some op.clientOrderId))

/-- The first Create of a bid at `100`. -/
def firstBid : BatchOp 1 := ⟨.buy, 0, .create, 100, 1, 1000, none, false⟩

/-- The batch goes out and is accepted, and the poller fetches its order and finds it tracked. -/
def polledActs : List (Act 1) :=
  [.hot .send] ++ takeActs ++ writeActs ++ acceptedActs ++
    [.poller .wake, .poller .fetch, .poller .deliver]

theorem tracked_never_orphan_polled :
    ∃ w : World 1, Trans.Reach (step .shipped) (start .shipped 1) w ∧
      w.desk.venue.liveIds = [1000] ∧ ∀ rows, 1000 ∉ w.orphanIds rows := by
  obtain ⟨w₀, hw₀, h⟩ := Option.bind_eq_some_iff.mp
    (show ((Trans.run (step .shipped) (start .shipped 1)
        [.hot (.book true), .hot .drained, .hot .reconcile]).bind fun w₀ =>
          (w₀.step .shipped (.hot (.quote (bidAt 100 1000)))).bind fun w₁ =>
            (Trans.runIf (step .shipped) (fun w _ => Holds firstBid w) w₁ polledActs).map fun w₂ =>
              decide (firstBid ∈ w₀.om.emitted w₀.clock (bidAt 100 1000) ∧ Holds firstBid w₂ ∧
                w₂.desk.venue.liveIds = [1000])) = some true by decide +kernel)
  obtain ⟨w₁, hw₁, h⟩ := Option.bind_eq_some_iff.mp h
  obtain ⟨w₂, hw₂, h⟩ := Option.map_eq_some_iff.mp h
  obtain ⟨hop, hend, hlive⟩ := of_decide_eq_true h
  have hreach : Trans.Reach (step .shipped) (start .shipped 1) w₀ := Trans.reach_iff_run.mpr ⟨_, hw₀⟩
  refine ⟨w₂, (hreach.step _ trivial hw₁).trans (Trans.ReachBy.of_runIf hw₂).reach, hlive, ?_⟩
  exact (tracked_never_orphan hreach hw₁ hop rfl (.of_runIf hw₂) hend).1

end World

end LighterMM
