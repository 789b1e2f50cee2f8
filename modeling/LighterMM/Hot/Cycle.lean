import LighterMM.Exec.OrderManagerLemmas

/-!
# The order-state half of `maybe_quote` (`orchestrator.rs`, live mode)

The market-data half of `maybe_quote` decides which exit a cycle takes and with what ladder
(`Decision`); this half turns the decision into ops, marks the slots and says what is sent into the
mailbox (`none`: nothing is sent). `HotTask.maybeQuote` is the two halves together.
-/

namespace LighterMM

/-- The exits of `maybe_quote`. -/
inductive Decision (n : ℕ) where
  /-- Within `min_loop_interval` of the last quote. -/
  | throttled
  /-- No capital, or no position received yet. -/
  | gated
  /-- Not ready and flat: no ladder. -/
  | flat
  | ladder (levels : List Level) (args : CollectArgs)

namespace OrderManager

variable {n : ℕ}

/-- The exit of the feed-readiness gate: Cancels for the resting ladder, marked. -/
def gateCycle (om : OrderManager n) (now : Instant) : OrderManager n × List (BatchOp n) :=
  let cancels := om.collectCancelOps
  (om.markAll now cancels, cancels)

/-- The normal exit: the ops that move the slots to the ladder, marked. -/
def ladderCycle (om : OrderManager n) (now : Instant) (levels : List Level) (args : CollectArgs) :
    OrderManager n × List (BatchOp n) :=
  let r := om.collectOrderOperations levels args
  (r.1.markAll now r.2, r.2)

/-- The slots after a cycle and the batch it sends into the mailbox. -/
def cycle (om : OrderManager n) (now : Instant) : Decision n → OrderManager n × Option (List (BatchOp n))
  | .throttled => (om, none)
  | .gated => let r := om.gateCycle now; (r.1, some r.2)
  | .flat => (om, some [])
  | .ladder levels args =>
    let r := om.ladderCycle now levels args
    (r.1, if r.2 = [] then none else some r.2)

variable {om : OrderManager n} {now : Instant}

/-! ## The Cancels of the gate -/

/-- The Cancel of one slot, if `collect_cancel_ops` makes one. -/
def cancelFor (om : OrderManager n) (side : Side) (level : Fin n) : Option (BatchOp n) :=
  let s := om.slot side level
  if s.status = .canceling then none
  else
    match s.orderId with
    | none => none
    | some cid =>
      match om.resolveExchangeId cid with
      | none => none
      | some eid => some (.cancelOp side level cid eid)

theorem mem_slotKeys (side : Side) (level : Fin n) : (side, level) ∈ slotKeys n := by
  unfold slotKeys
  rw [List.mem_flatMap]
  refine ⟨level, List.mem_finRange level, ?_⟩
  cases side <;> simp

theorem slotKeys_nodup : (slotKeys n).Nodup := by
  unfold slotKeys
  rw [List.nodup_flatMap]
  refine ⟨fun level _ => by simp, ?_⟩
  refine (List.nodup_finRange n).imp fun {a b} hab => ?_
  intro k ha hb
  simp only [List.mem_cons, List.not_mem_nil, or_false] at ha hb
  rcases ha with rfl | rfl <;> rcases hb with hb | hb <;> simp_all

theorem collectCancelOps_eq :
    om.collectCancelOps = (slotKeys n).filterMap fun k => om.cancelFor k.1 k.2 := rfl

/-- A Cancel of the gate is for a slot that is not Canceling and tracks a resolved order. -/
theorem cancelFor_eq_some {side : Side} {level : Fin n} {op : BatchOp n} :
    om.cancelFor side level = some op ↔
      (om.slot side level).status ≠ .canceling ∧ ∃ cid eid, (om.slot side level).orderId = some cid ∧
        om.resolveExchangeId cid = some eid ∧ op = .cancelOp side level cid eid := by
  unfold cancelFor
  simp only
  constructor
  · intro h
    split at h
    · cases h
    · rename_i hst
      split at h
      · cases h
      · rename_i cid hcid
        split at h
        · cases h
        · rename_i eid heid
          exact ⟨hst, cid, eid, hcid, heid, (Option.some.inj h).symm⟩
  · rintro ⟨hst, cid, eid, hcid, heid, rfl⟩
    rw [if_neg hst, hcid]
    simp only [heid]

theorem mem_collectCancelOps {op : BatchOp n} :
    op ∈ om.collectCancelOps ↔ om.cancelFor op.side op.level = some op := by
  rw [collectCancelOps_eq, List.mem_filterMap]
  constructor
  · rintro ⟨⟨side, level⟩, -, h⟩
    obtain ⟨-, cid, eid, -, -, rfl⟩ := cancelFor_eq_some.mp h
    exact h
  · intro h
    exact ⟨(op.side, op.level), mem_slotKeys _ _, h⟩

/-- A Cancel of the gate fits its slot. -/
theorem collectCancelOps_fits {op : BatchOp n} (h : op ∈ om.collectCancelOps) :
    op.action = .cancel ∧ om.Fits op := by
  obtain ⟨-, cid, eid, hcid, heid, hop⟩ := cancelFor_eq_some.mp (mem_collectCancelOps.mp h)
  rw [hop] at hcid ⊢
  exact ⟨rfl, ⟨(nomatch ·), fun _ => ⟨hcid, eid, heid, rfl⟩⟩⟩

/-! ## What a cycle does -/

/-- The slots of the ladder are pairwise different. -/
theorem levelTargets_keys (levels : List Level) :
    ((levelTargets n levels).map fun t => (t.1, t.2.1)).Sublist (slotKeys n) := by
  unfold levelTargets slotKeys
  induction List.finRange n with
  | nil => exact .slnil
  | cons level rest ih =>
    rw [List.flatMap_cons, List.flatMap_cons, List.map_append]
    refine List.Sublist.append ?_ ih
    split
    · exact .refl _
    · exact List.nil_sublist _

/-- `k` levels make at most `2 k` ops. -/
theorem levelTargets_length (levels : List Level) : (levelTargets n levels).length ≤ 2 * n := by
  have h := (levelTargets_keys (n := n) levels).length_le
  have hk : (slotKeys n).length = 2 * n := by
    simp [slotKeys, List.length_flatMap, Nat.mul_comm]
  rw [List.length_map, hk] at h
  exact h

theorem collectOrderOperations_nodup (levels : List Level) (args : CollectArgs) :
    ((om.collectOrderOperations levels args).2.map BatchOp.key).Nodup :=
  (slotKeys_nodup.sublist (levelTargets_keys levels)).sublist (collectLoop_keys args _)

theorem collectCancelOps_nodup (om : OrderManager n) : (om.collectCancelOps.map BatchOp.key).Nodup := by
  refine slotKeys_nodup.sublist ?_
  rw [collectCancelOps_eq]
  induction slotKeys n with
  | nil => exact .slnil
  | cons k ks ih =>
    rw [List.filterMap_cons]
    split
    · exact ih.cons _
    · rename_i op hop
      obtain ⟨-, cid, eid, -, -, rfl⟩ := cancelFor_eq_some.mp hop
      rw [List.map_cons]
      exact ih.cons_cons k

/-- The ops of a batch are for different slots. -/
theorem cycle_nodup {d : Decision n} {ops : List (BatchOp n)} (h : (om.cycle now d).2 = some ops) :
    (ops.map BatchOp.key).Nodup := by
  cases d with
  | throttled => cases h
  | gated =>
    cases h
    exact om.collectCancelOps_nodup
  | flat =>
    cases h
    exact List.nodup_nil
  | ladder levels args =>
    simp only [cycle] at h
    split at h
    · cases h
    · cases h
      exact om.collectOrderOperations_nodup levels args

/-- What a cycle does with the order ids: a Create of its batch puts a fresh id into an idle slot,
every other slot keeps its order id. -/
structure CycleSpec (om om' : OrderManager n) (ops : List (BatchOp n)) : Prop where
  map : om'.clientToExchange = om.clientToExchange
  last : om.lastClientOrderIndex ≤ om'.lastClientOrderIndex
  fits : ∀ op ∈ ops, om.Fits op
  create : ∀ op ∈ ops, op.action = .create → (om'.slot op.side op.level).orderId = some op.clientOrderId
  keep : ∀ side level, (∀ op ∈ ops, op.action = .create → op.key ≠ (side, level)) →
    (om'.slot side level).orderId = (om.slot side level).orderId
  fresh : ∀ id ∈ createIds ops, om.lastClientOrderIndex < id ∧ id ≤ om'.lastClientOrderIndex
  nodup : (createIds ops).Nodup

theorem CycleSpec.refl (om : OrderManager n) : CycleSpec om om [] :=
  ⟨rfl, le_refl _, by simp, by simp, fun _ _ _ => rfl, by simp [createIds], List.nodup_nil⟩

theorem gateCycle_spec : CycleSpec om (om.gateCycle now).1 (om.gateCycle now).2 := by
  have hcancel : ∀ op ∈ om.collectCancelOps, op.action ≠ .create := by
    intro op hop hc
    rw [(collectCancelOps_fits hop).1] at hc
    cases hc
  have hids : createIds om.collectCancelOps = [] := by
    unfold createIds
    rw [List.map_eq_nil_iff, List.filter_eq_nil_iff]
    intro op hop
    simpa using hcancel op hop
  refine ⟨markAll_map _, ?_, fun op hop => (collectCancelOps_fits hop).2, ?_, ?_, ?_, ?_⟩
  · exact (markAll_last om.collectCancelOps).ge
  · intro op hop hc
    exact absurd hc (hcancel op hop)
  · intro side level h
    exact markAll_orderId _ h
  · intro id hid
    rw [show (om.gateCycle now).2 = om.collectCancelOps from rfl, hids] at hid
    cases hid
  · rw [show (om.gateCycle now).2 = om.collectCancelOps from rfl, hids]
    exact List.nodup_nil

theorem ladderCycle_spec {levels : List Level} {args : CollectArgs} (h : om.HasRoom args.nowNs (2 * n)) :
    CycleSpec om (om.ladderCycle now levels args).1 (om.ladderCycle now levels args).2 := by
  obtain ⟨hs, hm⟩ := collectLoop_frame om args (levelTargets n levels)
  obtain ⟨hle, hfresh, hnd⟩ := collectLoop_fresh args (levelTargets n levels)
    (h.mono (levelTargets_length levels))
  have hnodup := om.collectOrderOperations_nodup levels args
  refine ⟨?_, ?_, collectLoop_fits args _, ?_, ?_, ?_, hnd⟩
  · exact (markAll_map _).trans hm
  · exact hle.trans (markAll_last _).ge
  · intro op hop hc
    exact markAll_orderId_create _ hnodup hop hc
  · intro side level hk
    refine (markAll_orderId _ hk).trans ?_
    show ((collectLoop args (levelTargets n levels) om).1.slots side level).orderId = _
    rw [hs]
    rfl
  · intro id hid
    have := hfresh id hid
    exact ⟨this.1, this.2.trans (markAll_last _).ge⟩

/-- **A cycle of any exit**, as long as a ladder finds room for its client ids. -/
theorem cycle_spec (d : Decision n)
    (h : ∀ levels args, d = .ladder levels args → om.HasRoom args.nowNs (2 * n)) :
    CycleSpec om (om.cycle now d).1 ((om.cycle now d).2.getD []) := by
  cases d with
  | throttled => exact .refl om
  | gated => exact gateCycle_spec
  | flat => exact .refl om
  | ladder levels args =>
    have hspec : CycleSpec om (om.ladderCycle now levels args).1 (om.ladderCycle now levels args).2 :=
      ladderCycle_spec (h levels args rfl)
    simp only [cycle]
    split
    · rename_i hnil
      rw [hnil] at hspec
      exact hspec
    · exact hspec

end OrderManager

end LighterMM
