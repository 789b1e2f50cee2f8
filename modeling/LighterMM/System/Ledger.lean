import LighterMM.Exec.PacedSend
import LighterMM.Hot.Cycle

/-!
# The ledger of one account: slots, orders in flight, resting orders

`Ledger om flight owed rows v` relates the hot task's slots `om` to everything about orders that is
under way: the ops in flight to the exchange, the events owed to the hot task, the snapshot rows
still to be applied, and the orders at the exchange `v`.

An id is alive for a slot if its order rests there or its Create is still in flight (`aliveIds`).
The ledger says that a slot tracks every id that is alive for it, so it has at most one; the other
fields make the ids unambiguous and say that every event, mapping and snapshot row is true.

One lemma for each kind of step says when the ledger is kept. Two kinds need a condition: draining a
`BindLive` must not displace an id that is alive (`Ledger.event`), and a snapshot must not clear a
slot that has one (`Ledger.snapshot`).
-/

namespace LighterMM

variable {n : ℕ}

namespace Venue

/-- The client ids of the orders ever created. -/
def createdIds (v : Venue n) : List ℤ := v.created.map (·.clientOrderIndex)

/-- The client ids of the resting orders. -/
def liveIds (v : Venue n) : List ℤ := v.live.map (·.clientOrderIndex)

/-- The orders that rest for a slot. -/
def liveAt (v : Venue n) (side : Side) (level : Fin n) : List (VenueOrder n) :=
  v.live.filter fun o => o.side = side ∧ o.level = level

/-- What of the resting orders a Modify does not change: the ids and the slot. -/
def idents (v : Venue n) : List (ℤ × ℤ × Side × Fin n) :=
  v.live.map fun o => (o.clientOrderIndex, o.orderIndex, o.side, o.level)

theorem liveIds_eq (v : Venue n) : v.liveIds = v.idents.map Prod.fst := by
  simp [liveIds, idents]

theorem mem_idents {v : Venue n} {o : VenueOrder n} (h : o ∈ v.live) :
    (o.clientOrderIndex, o.orderIndex, o.side, o.level) ∈ v.idents :=
  List.mem_map_of_mem h

theorem execOp_create {v : Venue n} {op : BatchOp n} (ha : op.action = .create) :
    (v.execOp op).live = v.live ++ [v.orderOf op] ∧
      (v.execOp op).created = v.created ++ [v.orderOf op] := by
  simp only [execOp, ha, and_self]

theorem execOp_modify {v : Venue n} {op : BatchOp n} (ha : op.action = .modify) :
    (v.execOp op).created = v.created ∧ (v.execOp op).idents = v.idents := by
  simp only [execOp, ha, true_and]
  unfold idents
  rw [List.map_map]
  refine List.map_congr_left fun o _ => ?_
  simp only [Function.comp]
  split <;> rfl

theorem execOp_cancel {v : Venue n} {op : BatchOp n} (ha : op.action = .cancel) :
    (v.execOp op).created = v.created ∧
      (v.execOp op).live = v.live.filter fun o => some o.orderIndex ≠ op.exchangeId := by
  simp only [execOp, ha, and_self]

/-- Fewer resting orders. -/
theorem idents_sublist {v v' : Venue n} (h : v'.live.Sublist v.live) : v'.idents.Sublist v.idents :=
  h.map _

end Venue

/-- The ids that are alive for a slot: its order rests, or its Create is in flight. -/
def aliveIds (flight : List (BatchOp n)) (v : Venue n) (side : Side) (level : Fin n) : List ℤ :=
  (v.liveAt side level).map (·.clientOrderIndex) ++ createIds (flight.filter (·.key = (side, level)))

theorem mem_createIds {ops : List (BatchOp n)} {id : ℤ} :
    id ∈ createIds ops ↔ ∃ op ∈ ops, op.action = .create ∧ op.clientOrderId = id := by
  unfold createIds
  simp only [List.mem_map, List.mem_filter, decide_eq_true_eq, and_assoc]

theorem mem_aliveIds {flight : List (BatchOp n)} {v : Venue n} {side : Side} {level : Fin n} {id : ℤ} :
    id ∈ aliveIds flight v side level ↔
      (∃ o ∈ v.live, (o.side = side ∧ o.level = level) ∧ o.clientOrderIndex = id) ∨
      ∃ op ∈ flight, op.key = (side, level) ∧ op.action = .create ∧ op.clientOrderId = id := by
  unfold aliveIds Venue.liveAt
  rw [List.mem_append, mem_createIds]
  simp only [List.mem_map, List.mem_filter, decide_eq_true_eq, and_assoc]

theorem createIds_append (as bs : List (BatchOp n)) :
    createIds (as ++ bs) = createIds as ++ createIds bs := by
  simp [createIds]

theorem createIds_sublist {as bs : List (BatchOp n)} (h : as.Sublist bs) :
    (createIds as).Sublist (createIds bs) := (h.filter _).map _

/-- An id that is not alive anywhere. -/
def Gone (flight : List (BatchOp n)) (v : Venue n) (id : ℤ) : Prop :=
  id ∉ createIds flight ∧ id ∉ v.liveIds

/-- The exchange id of an op is that of its order; a Create has none. -/
structure OpTrue (v : Venue n) (op : BatchOp n) : Prop where
  create : op.action = .create → op.exchangeId = none
  tracked : op.action ≠ .create → ∃ e, op.exchangeId = some e ∧ v.Pairs op.clientOrderId e

/-- An event that is true: it names an exchange id of its order, or it clears an order that is gone
for good. -/
def EventTrue (last : ℤ) (flight : List (BatchOp n)) (v : Venue n) : OrderEvent n → Prop
  | .bindLive _ _ cid eid _ _ => ∀ e, eid = some e → v.Pairs cid e
  | .clearLive _ _ cid => 0 < cid ∧ cid ≤ last ∧ Gone flight v cid
  | .idResolved c e => v.Pairs c e
  | .clearAll => False
  | .fill _ _ => False

structure Ledger (om : OrderManager n) (flight : List (BatchOp n)) (owed : List (OrderEvent n))
    (rows : List RemoteOrder) (v : Venue n) : Prop where
  tracked : ∀ side level, ∀ id ∈ aliveIds flight v side level,
    (om.slot side level).orderId = some id
  liveFrom : ∀ o ∈ v.live, v.Pairs o.clientOrderIndex o.orderIndex
  createdNodup : v.createdIds.Nodup
  liveNodup : v.liveIds.Nodup
  flightNodup : (createIds flight).Nodup
  flightNew : ∀ id ∈ createIds flight, id ∉ v.createdIds
  createdRange : ∀ id ∈ v.createdIds, 0 < id ∧ id ≤ om.lastClientOrderIndex
  flightRange : ∀ id ∈ createIds flight, 0 < id ∧ id ≤ om.lastClientOrderIndex
  ops : ∀ op ∈ flight, OpTrue v op
  events : ∀ e ∈ owed, EventTrue om.lastClientOrderIndex flight v e
  map : om.MapIn v.Pairs
  rowsTrue : OrderManager.RowsIn rows v.Pairs
  last : 0 ≤ om.lastClientOrderIndex

namespace Ledger

variable {om om' : OrderManager n} {flight flight' ops : List (BatchOp n)}
  {owed owed' : List (OrderEvent n)} {rows rows' : List RemoteOrder} {v v' : Venue n}
  {now : Instant}

/-! ## Consequences -/

theorem live_created (h : Ledger om flight owed rows v) {id : ℤ} (hid : id ∈ v.liveIds) :
    id ∈ v.createdIds := by
  obtain ⟨o, ho, rfl⟩ := List.mem_map.mp hid
  obtain ⟨c, hc, hcid, -⟩ := h.liveFrom o ho
  exact List.mem_map.mpr ⟨c, hc, hcid⟩

/-- **One resting order for each slot**: its id is the one that the slot tracks. -/
theorem liveAt_length (h : Ledger om flight owed rows v) (side : Side) (level : Fin n) :
    (v.liveAt side level).length ≤ 1 := by
  have hnd : ((v.liveAt side level).map (·.clientOrderIndex)).Nodup :=
    h.liveNodup.sublist (List.filter_sublist.map _)
  have hsame : ∀ id ∈ (v.liveAt side level).map (·.clientOrderIndex),
      (om.slot side level).orderId = some id :=
    fun id hid => h.tracked side level id (List.mem_append_left _ hid)
  cases hs : (om.slot side level).orderId with
  | none =>
    have hnil : v.liveAt side level = [] := by
      apply List.map_eq_nil_iff.mp
      apply List.eq_nil_iff_forall_not_mem.mpr
      intro id hid
      have := hsame id hid
      rw [hs] at this
      cases this
    rw [hnil]
    exact Nat.zero_le _
  | some x =>
    have hrep := List.eq_replicate_of_mem fun id hid =>
      (Option.some.inj (hs.symm.trans (hsame id hid))).symm
    rw [hrep, List.nodup_replicate, List.length_map] at hnd
    exact hnd

/-- The rows of a snapshot taken now are true. -/
theorem rows_true (h : Ledger om flight owed rows v) : OrderManager.RowsIn v.rows v.Pairs := by
  intro r hr c e hc he
  obtain ⟨o, ho, rfl⟩ := List.mem_map.mp hr
  cases hc
  cases he
  exact h.liveFrom o ho

/-- The order of a client id has one exchange id. -/
theorem pairs_unique (h : Ledger om flight owed rows v) {c e e' : ℤ} (he : v.Pairs c e)
    (he' : v.Pairs c e') : e = e' := by
  obtain ⟨o, ho, rfl, rfl⟩ := he
  obtain ⟨o', ho', hc, rfl⟩ := he'
  rw [List.inj_on_of_nodup_map h.createdNodup ho ho' hc.symm]

/-! ## Fewer things -/

/-- The pairs of two accounts that created the same orders. -/
theorem pairs_congr (hc : v'.created = v.created) {c e : ℤ} (h : v.Pairs c e) : v'.Pairs c e := by
  unfold Venue.Pairs
  rw [hc]
  exact h

theorem liveIds_sublist (hl : v'.idents.Sublist v.idents) : v'.liveIds.Sublist v.liveIds := by
  rw [v'.liveIds_eq, v.liveIds_eq]
  exact hl.map _

theorem eventTrue_mono {last : ℤ} {e : OrderEvent n} (h : EventTrue last flight v e)
    (hf : flight'.Sublist flight) (hc : v'.created = v.created) (hl : v'.idents.Sublist v.idents) :
    EventTrue last flight' v' e := by
  cases e with
  | bindLive side level cid eid price size => exact fun e he => pairs_congr hc (h e he)
  | clearLive side level cid =>
    obtain ⟨h₁, h₂, h₃, h₄⟩ := h
    refine ⟨h₁, h₂, fun hm => h₃ ((createIds_sublist hf).subset hm), fun hm => ?_⟩
    exact h₄ ((liveIds_sublist hl).subset hm)
  | clearAll => exact h
  | idResolved c e => exact pairs_congr hc h
  | fill c f => exact h

/-- Ops are dropped, events are taken, rows are replaced by true ones, orders are modified or
leave the book. -/
theorem shrink (h : Ledger om flight owed rows v) (hf : flight'.Sublist flight) (ho : owed' ⊆ owed)
    (hr : OrderManager.RowsIn rows' v.Pairs) (hc : v'.created = v.created)
    (hl : v'.idents.Sublist v.idents) : Ledger om flight' owed' rows' v' := by
  have hcreated : v'.createdIds = v.createdIds := congrArg (List.map _) hc
  have hids := createIds_sublist hf
  have horder : ∀ o ∈ v'.live, ∃ o₀ ∈ v.live, o₀.clientOrderIndex = o.clientOrderIndex ∧
      o₀.orderIndex = o.orderIndex ∧ o₀.side = o.side ∧ o₀.level = o.level := by
    intro o ho
    obtain ⟨o₀, ho₀, heq⟩ := List.mem_map.mp (hl.subset (Venue.mem_idents ho))
    simp only [Prod.mk.injEq] at heq
    exact ⟨o₀, ho₀, heq⟩
  constructor
  · intro side level id hid
    apply h.tracked
    rcases mem_aliveIds.mp hid with ⟨o, ho, hk, hid⟩ | ⟨op, hop, hk⟩
    · obtain ⟨o₀, ho₀, h₁, -, h₃, h₄⟩ := horder o ho
      exact mem_aliveIds.mpr (.inl ⟨o₀, ho₀, ⟨h₃.trans hk.1, h₄.trans hk.2⟩, h₁.trans hid⟩)
    · exact mem_aliveIds.mpr (.inr ⟨op, hf.subset hop, hk⟩)
  · intro o ho
    obtain ⟨o₀, ho₀, h₁, h₂, -⟩ := horder o ho
    rw [← h₁, ← h₂]
    exact pairs_congr hc (h.liveFrom o₀ ho₀)
  · rw [hcreated]
    exact h.createdNodup
  · exact h.liveNodup.sublist (liveIds_sublist hl)
  · exact h.flightNodup.sublist hids
  · intro id hid
    rw [hcreated]
    exact h.flightNew id (hids.subset hid)
  · intro id hid
    rw [hcreated] at hid
    exact h.createdRange id hid
  · exact fun id hid => h.flightRange id (hids.subset hid)
  · intro op hop
    obtain ⟨h₁, h₂⟩ := h.ops op (hf.subset hop)
    exact ⟨h₁, fun hne => (h₂ hne).imp fun e he => ⟨he.1, pairs_congr hc he.2⟩⟩
  · exact fun e he => eventTrue_mono (h.events e (ho he)) hf hc hl
  · exact h.map.mono fun c e => pairs_congr hc
  · exact fun o ho c e hoc hoe => pairs_congr hc (hr o ho c e hoc hoe)
  · exact h.last

/-! ## Events become owed -/

theorem owe (h : Ledger om flight owed rows v) (es : List (OrderEvent n))
    (hes : ∀ e ∈ es, EventTrue om.lastClientOrderIndex flight v e) :
    Ledger om flight (owed ++ es) rows v where
  __ := h
  events := by
    intro e he
    rcases List.mem_append.mp he with he | he
    · exact h.events e he
    · exact hes e he

/-- The Creates at the head of the flight fail; their ClearLive events are owed. -/
theorem fail (h : Ledger om (ops ++ flight) owed rows v) :
    Ledger om flight (owed ++ clearFailedCreates ops) rows v := by
  have hbase : Ledger om flight owed rows v :=
    h.shrink (List.sublist_append_right _ _) (fun _ he => he) h.rowsTrue rfl (.refl _)
  refine hbase.owe _ fun e he => ?_
  obtain ⟨op, hop, rfl⟩ := List.mem_map.mp he
  rw [List.mem_filter, decide_eq_true_eq] at hop
  have hmem : op.clientOrderId ∈ createIds ops := mem_createIds.mpr ⟨op, hop.1, hop.2, rfl⟩
  have hfl : op.clientOrderId ∈ createIds (ops ++ flight) := by
    rw [createIds_append]
    exact List.mem_append_left _ hmem
  obtain ⟨hpos, hle⟩ := h.flightRange _ hfl
  refine ⟨hpos, hle, ?_, fun hlive => h.flightNew _ hfl (h.live_created hlive)⟩
  have hnd := h.flightNodup
  rw [createIds_append] at hnd
  exact fun hrest => (List.nodup_append.mp hnd).2.2 _ hmem _ hrest rfl

/-! ## The exchange executes an op -/

theorem execute_create {op : BatchOp n} (h : Ledger om (op :: flight) owed rows v)
    (ha : op.action = .create) : Ledger om flight (owed ++ [confirmEvent op]) rows (v.execOp op) := by
  obtain ⟨hvl, hvc⟩ := Venue.execOp_create (v := v) ha
  have hids : createIds (op :: flight) = op.clientOrderId :: createIds flight := by
    simp [createIds, ha]
  have hmem : op.clientOrderId ∈ createIds (op :: flight) := by simp [hids]
  have hnew := h.flightNew _ hmem
  have hnd := h.flightNodup
  rw [hids, List.nodup_cons] at hnd
  have hlive : (v.execOp op).liveIds = v.liveIds ++ [op.clientOrderId] := by
    simp [Venue.liveIds, hvl, Venue.orderOf]
  have hcreated : (v.execOp op).createdIds = v.createdIds ++ [op.clientOrderId] := by
    simp [Venue.createdIds, hvc, Venue.orderOf]
  have hpairs : ∀ c e, v.Pairs c e → (v.execOp op).Pairs c e := by
    rintro c e ⟨o, ho, hoc⟩
    exact ⟨o, hvc ▸ List.mem_append_left _ ho, hoc⟩
  have hrest : ∀ id ∈ createIds flight, id ∈ createIds (op :: flight) := by
    intro id hid
    rw [hids]
    exact List.mem_cons_of_mem _ hid
  constructor
  · intro side level id hid
    apply h.tracked
    rcases mem_aliveIds.mp hid with ⟨o, ho, hk, hid⟩ | ⟨op', hop, hk⟩
    · rw [hvl] at ho
      rcases List.mem_append.mp ho with ho | ho
      · exact mem_aliveIds.mpr (.inl ⟨o, ho, hk, hid⟩)
      · -- the order of this op: its Create was in flight
        rw [List.mem_singleton.mp ho] at hk hid
        exact mem_aliveIds.mpr (.inr ⟨op, List.mem_cons_self, Prod.ext hk.1 hk.2, ha, hid⟩)
    · exact mem_aliveIds.mpr (.inr ⟨op', List.mem_cons_of_mem _ hop, hk⟩)
  · intro o ho
    rw [hvl] at ho
    rcases List.mem_append.mp ho with ho | ho
    · exact hpairs _ _ (h.liveFrom o ho)
    · exact ⟨o, hvc ▸ List.mem_append_right _ ho, rfl, rfl⟩
  · rw [hcreated, List.nodup_append]
    exact ⟨h.createdNodup, List.nodup_singleton _, by
      rintro a ha b hb rfl
      exact hnew (List.mem_singleton.mp hb ▸ ha)⟩
  · show (v.execOp op).liveIds.Nodup
    rw [hlive, List.nodup_append]
    exact ⟨h.liveNodup, List.nodup_singleton _, by
      rintro a ha b hb rfl
      exact hnew (h.live_created (List.mem_singleton.mp hb ▸ ha))⟩
  · exact hnd.2
  · intro id hid hcr
    rw [hcreated] at hcr
    rcases List.mem_append.mp hcr with hcr | hcr
    · exact h.flightNew id (hrest id hid) hcr
    · exact hnd.1 (List.mem_singleton.mp hcr ▸ hid)
  · intro id hid
    rw [hcreated] at hid
    rcases List.mem_append.mp hid with hid | hid
    · exact h.createdRange id hid
    · rw [List.mem_singleton.mp hid]
      exact h.flightRange _ hmem
  · exact fun id hid => h.flightRange id (hrest id hid)
  · intro op' hop
    obtain ⟨h₁, h₂⟩ := h.ops op' (List.mem_cons_of_mem _ hop)
    exact ⟨h₁, fun hne => (h₂ hne).imp fun e he => ⟨he.1, hpairs _ _ he.2⟩⟩
  · intro e he
    rcases List.mem_append.mp he with he | he
    · have htrue := h.events e he
      cases e with
      | bindLive side level cid eid price size => exact fun e he => hpairs _ _ (htrue e he)
      | clearLive side level cid =>
        obtain ⟨h₁, h₂, h₃, h₄⟩ := htrue
        refine ⟨h₁, h₂, fun hid => h₃ (hrest _ hid), fun hid => ?_⟩
        rw [hlive] at hid
        rcases List.mem_append.mp hid with hid | hid
        · exact h₄ hid
        · exact h₃ (List.mem_singleton.mp hid ▸ hmem)
      | clearAll => exact htrue
      | idResolved c e => exact hpairs _ _ htrue
      | fill c f => exact htrue
    · rw [List.mem_singleton.mp he]
      simp only [confirmEvent, ha]
      intro e he
      rw [(h.ops op List.mem_cons_self).create ha] at he
      cases he
  · exact h.map.mono hpairs
  · exact fun o ho c e hoc hoe => hpairs _ _ (h.rowsTrue o ho c e hoc hoe)
  · exact h.last

theorem execute_modify {op : BatchOp n} (h : Ledger om (op :: flight) owed rows v)
    (ha : op.action = .modify) : Ledger om flight (owed ++ [confirmEvent op]) rows (v.execOp op) := by
  obtain ⟨hvc, hvi⟩ := Venue.execOp_modify (v := v) ha
  have hbase : Ledger om flight owed rows (v.execOp op) :=
    h.shrink (List.sublist_cons_self _ _) (fun _ he => he) h.rowsTrue hvc (by rw [hvi])
  refine hbase.owe _ fun e he => ?_
  rw [List.mem_singleton.mp he]
  simp only [confirmEvent, ha]
  obtain ⟨eid, heid, hp⟩ := (h.ops op List.mem_cons_self).tracked (by rw [ha]; nofun)
  intro e he
  rw [heid] at he
  cases he
  exact pairs_congr hvc hp

theorem execute_cancel {op : BatchOp n} (h : Ledger om (op :: flight) owed rows v)
    (ha : op.action = .cancel) : Ledger om flight (owed ++ [confirmEvent op]) rows (v.execOp op) := by
  obtain ⟨hvc, hvl⟩ := Venue.execOp_cancel (v := v) ha
  have hsub : (v.execOp op).live.Sublist v.live := by
    rw [hvl]
    exact List.filter_sublist
  have hbase : Ledger om flight owed rows (v.execOp op) :=
    h.shrink (List.sublist_cons_self _ _) (fun _ he => he) h.rowsTrue hvc (Venue.idents_sublist hsub)
  obtain ⟨eid, heid, hp⟩ := (h.ops op List.mem_cons_self).tracked (by rw [ha]; nofun)
  have hcr : op.clientOrderId ∈ v.createdIds := by
    obtain ⟨o, ho, hoc, -⟩ := hp
    exact List.mem_map.mpr ⟨o, ho, hoc⟩
  obtain ⟨hpos, hle⟩ := h.createdRange _ hcr
  refine hbase.owe _ fun e he => ?_
  rw [List.mem_singleton.mp he]
  simp only [confirmEvent, ha]
  refine ⟨hpos, hle, fun hid => ?_, fun hid => ?_⟩
  · exact h.flightNew _ ((createIds_sublist (List.sublist_cons_self _ _)).subset hid) hcr
  · -- the order of this id has the exchange id that was cancelled
    obtain ⟨o, ho, hoc⟩ := List.mem_map.mp hid
    rw [hvl, List.mem_filter] at ho
    have hpo := h.liveFrom o ho.1
    rw [hoc] at hpo
    rw [h.pairs_unique hpo hp, heid] at ho
    simp at ho

theorem execute {op : BatchOp n} (h : Ledger om (op :: flight) owed rows v) :
    Ledger om flight (owed ++ [confirmEvent op]) rows (v.execOp op) := by
  cases ha : op.action with
  | create => exact h.execute_create ha
  | modify => exact h.execute_modify ha
  | cancel => exact h.execute_cancel ha

/-- **The exchange executes a batch**: the confirmations of its ops are owed. -/
theorem execBatch (h : Ledger om (ops ++ flight) owed rows v) :
    Ledger om flight (owed ++ ops.map confirmEvent) rows (v.execBatch ops) := by
  have hfold : Ledger om flight (owed ++ ops.map confirmEvent) rows (ops.foldl Venue.execOp v) := by
    induction ops generalizing owed v with
    | nil => simpa using h
    | cons op ops ih =>
      have := ih (execute h)
      rwa [List.append_assoc] at this
  exact hfold.shrink (.refl _) (fun _ he => he) hfold.rowsTrue rfl (.refl _)

/-! ## The hot task -/

/-- A slot for which an id is alive keeps its order id in a cycle. -/
theorem tracked_cycle (h : Ledger om flight owed rows v) (hc : OrderManager.CycleSpec om om' ops)
    {side : Side} {level : Fin n} {id : ℤ} (hid : id ∈ aliveIds flight v side level) :
    (om'.slot side level).orderId = some id := by
  have hs := h.tracked side level id hid
  rw [hc.keep side level ?_, hs]
  intro op hop hact hk
  have hnone := ((hc.fits op hop).create hact).1
  cases hk
  rw [hs] at hnone
  cases hnone

/-- A cycle puts its batch in flight: a Create goes to a slot for which no id is alive, because
that slot tracks none. -/
theorem cycle (h : Ledger om flight owed rows v) (hc : OrderManager.CycleSpec om om' ops) :
    Ledger om' (flight ++ ops) owed rows v := by
  have hold : ∀ id ∈ createIds flight, id ≤ om.lastClientOrderIndex :=
    fun id hid => (h.flightRange id hid).2
  constructor
  · intro side level id hid
    rcases mem_aliveIds.mp hid with ⟨o, ho⟩ | ⟨op, hop, hk, hact, hid'⟩
    · exact h.tracked_cycle hc (mem_aliveIds.mpr (.inl ⟨o, ho⟩))
    · rcases List.mem_append.mp hop with hop | hop
      · exact h.tracked_cycle hc (mem_aliveIds.mpr (.inr ⟨op, hop, hk, hact, hid'⟩))
      · have := hc.create op hop hact
        cases hk
        rwa [hid'] at this
  · exact h.liveFrom
  · exact h.createdNodup
  · exact h.liveNodup
  · rw [createIds_append, List.nodup_append]
    refine ⟨h.flightNodup, hc.nodup, ?_⟩
    rintro a ha b hb rfl
    have := hold a ha
    have := (hc.fresh a hb).1
    omega
  · intro id hid
    rw [createIds_append] at hid
    rcases List.mem_append.mp hid with hid | hid
    · exact h.flightNew id hid
    · intro hcr
      have := (h.createdRange id hcr).2
      have := (hc.fresh id hid).1
      omega
  · exact fun id hid => ⟨(h.createdRange id hid).1, (h.createdRange id hid).2.trans hc.last⟩
  · intro id hid
    rw [createIds_append] at hid
    rcases List.mem_append.mp hid with hid | hid
    · exact ⟨(h.flightRange id hid).1, (h.flightRange id hid).2.trans hc.last⟩
    · obtain ⟨h₁, h₂⟩ := hc.fresh id hid
      exact ⟨h.last.trans_lt h₁, h₂⟩
  · intro op hop
    rcases List.mem_append.mp hop with hop | hop
    · exact h.ops op hop
    · obtain ⟨h₁, h₂⟩ := hc.fits op hop
      refine ⟨fun hact => (h₁ hact).2, fun hact => ?_⟩
      obtain ⟨-, eid, hres, heid⟩ := h₂ hact
      exact ⟨eid, heid, h.map _ _ hres⟩
  · intro e he
    have htrue := h.events e he
    cases e with
    | clearLive side level cid =>
      obtain ⟨h₁, h₂, h₃, h₄⟩ := htrue
      refine ⟨h₁, h₂.trans hc.last, fun hid => ?_, h₄⟩
      rw [createIds_append] at hid
      rcases List.mem_append.mp hid with hid | hid
      · exact h₃ hid
      · have := (hc.fresh cid hid).1
        omega
    | bindLive side level cid eid price size => exact htrue
    | clearAll => exact htrue
    | idResolved c e => exact htrue
    | fill c f => exact htrue
  · exact h.map.of_map hc.map
  · exact h.rowsTrue
  · exact h.last.trans hc.last

/-- Whether draining an event keeps an id that is alive: a `BindLive` may put its order only into a
slot for which no other id is alive. -/
def EventSafe (flight : List (BatchOp n)) (v : Venue n) : OrderEvent n → Prop
  | .bindLive side level cid _ _ _ => ∀ id ∈ aliveIds flight v side level, id = cid
  | _ => True

instance (flight : List (BatchOp n)) (v : Venue n) : DecidablePred (EventSafe flight v)
  | .bindLive side level cid _ _ _ => inferInstanceAs (Decidable (∀ id ∈ aliveIds flight v side level, id = cid))
  | .clearLive .. | .clearAll | .idResolved .. | .fill .. => isTrue trivial

theorem drain {e : OrderEvent n} (h : Ledger om flight (e :: owed) rows v)
    (hsafe : EventSafe flight v e) : Ledger (om.applyEvent now e) flight owed rows v := by
  have htrue := h.events e List.mem_cons_self
  have hbase : Ledger om flight owed rows v :=
    h.shrink (.refl _) (fun _ he => List.mem_cons_of_mem _ he) h.rowsTrue rfl (.refl _)
  refine { hbase with tracked := ?_, createdRange := ?_, flightRange := ?_, events := ?_, map := ?_, last := ?_ }
  · intro side level id hid
    have hs := h.tracked side level id hid
    cases e with
    | bindLive side' level' cid eid price size =>
      rw [OrderManager.applyEvent_bindLive]
      split
      · rename_i hk
        obtain ⟨rfl, rfl⟩ := hk
        exact congrArg some (hsafe id hid).symm
      · exact hs
    | clearLive side' level' cid =>
      rw [OrderManager.applyEvent_clearLive]
      split
      · -- the slot would track the id of the event, which is gone
        rename_i hk
        obtain ⟨⟨rfl, rfl⟩, hg⟩ := hk
        obtain ⟨hpos, -, hfl, hlive⟩ := htrue
        rcases hg with hg | hg
        · omega
        · rw [hs] at hg
          cases hg
          rcases mem_aliveIds.mp hid with ⟨o, ho, -, hoc⟩ | ⟨op, hop, -, hact, hopc⟩
          · exact absurd (List.mem_map.mpr ⟨o, ho, hoc⟩) hlive
          · exact absurd (mem_createIds.mpr ⟨op, hop, hact, hopc⟩) hfl
      · exact hs
    | idResolved c x => rwa [OrderManager.applyEvent_idResolved_slot]
    | clearAll => exact htrue.elim
    | fill c f => exact htrue.elim
  · rw [OrderManager.applyEvent_last]
    exact hbase.createdRange
  · rw [OrderManager.applyEvent_last]
    exact hbase.flightRange
  · rw [OrderManager.applyEvent_last]
    exact hbase.events
  · refine h.map.applyEvent fun p hp => ?_
    cases e with
    | bindLive side level cid eid price size =>
      obtain ⟨x, hx, rfl⟩ := Option.map_eq_some_iff.mp hp
      exact htrue x hx
    | idResolved c x =>
      cases hp
      exact htrue
    | clearLive side level cid => cases hp
    | clearAll => cases hp
    | fill c f => cases hp
  · rw [OrderManager.applyEvent_last]
    exact hbase.last

/-- Whether a snapshot keeps the ids that are alive: it clears only slots that have none. -/
def SnapshotSafe (om : OrderManager n) (now : Instant) (flight : List (BatchOp n))
    (remote : List RemoteOrder) (v : Venue n) : Prop :=
  ∀ k ∈ slotKeys n, OrderManager.clearsMissing (OrderManager.liveIds remote) now (om.slot k.1 k.2) = true →
    aliveIds flight v k.1 k.2 = []

instance (om : OrderManager n) (now : Instant) (flight : List (BatchOp n)) (remote : List RemoteOrder)
    (v : Venue n) : Decidable (SnapshotSafe om now flight remote v) :=
  inferInstanceAs (Decidable (∀ k ∈ slotKeys n, _))

theorem reconcile {remote : List RemoteOrder} (h : Ledger om flight owed (remote ++ rows) v)
    (hsafe : SnapshotSafe om now flight remote v) :
    Ledger (om.processReconcile now remote) flight owed rows v := by
  have hbase : Ledger om flight owed rows v :=
    h.shrink (.refl _) (fun _ he => he) (fun o ho => h.rowsTrue o (List.mem_append_right _ ho)) rfl
      (.refl _)
  refine { hbase with tracked := ?_, createdRange := ?_, flightRange := ?_, events := ?_, map := ?_, last := ?_ }
  · intro side level id hid
    rw [OrderManager.processReconcile_orderId]
    split
    · rename_i hclear
      rw [hsafe (side, level) (OrderManager.mem_slotKeys side level) hclear] at hid
      cases hid
    · exact h.tracked side level id hid
  · rw [OrderManager.processReconcile_last]
    exact hbase.createdRange
  · rw [OrderManager.processReconcile_last]
    exact hbase.flightRange
  · rw [OrderManager.processReconcile_last]
    exact hbase.events
  · exact h.map.processReconcile fun o ho => h.rowsTrue o (List.mem_append_left _ ho)
  · rw [OrderManager.processReconcile_last]
    exact hbase.last

end Ledger

end LighterMM
