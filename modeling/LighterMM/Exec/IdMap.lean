import LighterMM.Hot.Cycle

/-!
# Which exchange id an op carries (`exec/order_manager.rs`)

Runs of order events, snapshots, op collection and marks, with an observer (`IdRun`) that keeps for each
client id the exchange id recorded last, and whether a slot has tracked the id ever since.

- A mapping that is found is the one recorded last (`Sound`), so every Modify and Cancel carries it.
- The map stays within its bound (`recordIdMapping_length`).
- Recording keeps the mappings of tracked ids (`recordIdMapping_tracked`). Only `BindLive` records the mapping
  of an id that no slot may track yet: it is the one event after which a tracked id may have lost its mapping
  (`bindLive_resolves_iff`), and a run without such events resolves all ids (`id_map_iff`).
-/

namespace LighterMM

/-- What is done with an order manager. `mark` is `mark_pending`. -/
inductive ManagerAct (n : ℕ) where
  | event (e : OrderEvent n)
  | snapshot (remote : List RemoteOrder)
  | collect (levels : List Level) (args : CollectArgs)
  | mark (op : BatchOp n)

/-- The pair of a row. -/
def rowPair (o : RemoteOrder) : Option (ℤ × ℤ) :=
  o.clientOrderIndex.bind fun c => o.orderIndex.map fun e => (c, e)

/-- The mapping of an id that comes last. -/
def lastOf (ps : List (ℤ × ℤ)) (id : ℤ) : Option ℤ := ((ps.filter (·.1 = id)).getLast?).map (·.2)

namespace OrderManager

variable {n : ℕ} {om : OrderManager n} {now : Instant} {side : Side} {level : Fin n} {c e id v : ℤ}

/-- The pairs that an action records, in order. -/
def pairsOf : ManagerAct n → List (ℤ × ℤ)
  | .event e => (eventPair e).toList
  | .snapshot remote => remote.filterMap rowPair
  | _ => []

def act (om : OrderManager n) : Instant × ManagerAct n → OrderManager n
  | (now, .event e) => om.applyEvent now e
  | (now, .snapshot remote) => om.processReconcile now remote
  | (_, .collect levels args) => (om.collectOrderOperations levels args).1
  | (now, .mark op) => om.markPending now op

def recordAll (om : OrderManager n) (ps : List (ℤ × ℤ)) : OrderManager n :=
  ps.foldl (fun om p => om.recordIdMapping p.1 p.2) om

/-! ## Recording -/

theorem tracked_congr {om' : OrderManager n} (h : om'.slots = om.slots) :
    om'.trackedClientIds = om.trackedClientIds := by
  unfold trackedClientIds
  rw [h]

/-- Recording keeps what the tracked ids resolve to, but for the new pair. -/
theorem recordIdMapping_tracked (hid : id ∈ om.trackedClientIds) :
    (om.recordIdMapping c e).resolveExchangeId id = if id = c then some e else om.resolveExchangeId id := by
  rw [← withMapping_lookup]
  refine Option.ext fun v => ?_
  rw [recordIdMapping_resolve_iff]
  exact and_iff_left (.inr (.inl hid))

/-- A mapping that is found is the new one or the old one. -/
theorem recordIdMapping_found (h : (om.recordIdMapping c e).resolveExchangeId id = some v) :
    (if id = c then some e else om.resolveExchangeId id) = some v := by
  rw [← withMapping_lookup]
  exact (recordIdMapping_resolve_iff.mp h).1

theorem length_trackedClientIds (om : OrderManager n) : om.trackedClientIds.length ≤ 2 * n := by
  have hle : ∀ side, ((List.finRange n).filterMap fun level => (om.slots side level).orderId).length ≤ n := by
    intro side
    have h := List.length_filterMap_le (fun level => (om.slots side level).orderId) (List.finRange n)
    rwa [List.length_finRange] at h
  have hbuy := hle .buy
  have hsell := hle .sell
  rw [trackedClientIds, List.length_append]
  omega

/-- The bound of the map. -/
def mapBound (n : ℕ) : ℕ := max idMapCap (2 * n + 100)

theorem recordIdMapping_length (om : OrderManager n) (c e : ℤ) :
    (om.recordIdMapping c e).clientToExchange.entries.length ≤ mapBound n := by
  rw [recordIdMapping_map, mapBound]
  by_cases hcap : idMapCap < (om.withMapping c e).entries.length
  · rw [if_pos hcap]
    have hprune := CappedMap.length_prune_le (· ∈ om.trackedClientIds) 100 (om.withMapping c e)
    have hlive := CappedMap.length_filter_mem_le (om.withMapping c e) om.trackedClientIds
    have hids := om.length_trackedClientIds
    omega
  · rw [if_neg hcap]
    omega

/-! ## Recording a list of pairs -/

theorem lastOf_cons (p : ℤ × ℤ) (ps : List (ℤ × ℤ)) (id : ℤ) :
    lastOf (p :: ps) id = (lastOf ps id).or (if p.1 = id then some p.2 else none) := by
  unfold lastOf
  by_cases hp : p.1 = id
  · rw [List.filter_cons, if_pos (decide_eq_true hp), if_pos hp, List.getLast?_cons]
    cases (ps.filter (·.1 = id)).getLast? <;> rfl
  · rw [List.filter_cons, if_neg (by simpa using hp), if_neg hp, Option.or_none]

theorem updateIdMapping_eq (om : OrderManager n) (remote : List RemoteOrder) :
    om.updateIdMappingFromOrders remote = om.recordAll (remote.filterMap rowPair) := by
  induction remote generalizing om with
  | nil => rfl
  | cons o remote ih =>
    rw [updateIdMapping_cons, ih, List.filterMap_cons]
    cases hc : o.clientOrderIndex with
    | none => simp [rowPair, hc]
    | some c =>
      cases he : o.orderIndex with
      | none => simp [rowPair, hc, he]
      | some e =>
        simp only [rowPair, hc, he, Option.bind_some, Option.map_some]
        rfl

theorem recordAll_tracked (ps : List (ℤ × ℤ)) (hid : id ∈ om.trackedClientIds) :
    (om.recordAll ps).resolveExchangeId id = (lastOf ps id).or (om.resolveExchangeId id) := by
  induction ps generalizing om with
  | nil => rfl
  | cons p ps ih =>
    have hid' : id ∈ (om.recordIdMapping p.1 p.2).trackedClientIds := by
      rwa [tracked_congr (recordIdMapping_slots _ _)]
    refine (ih hid').trans ?_
    rw [recordIdMapping_tracked hid, lastOf_cons, Option.or_assoc]
    congr 1
    by_cases hp : id = p.1
    · rw [if_pos hp, if_pos hp.symm, Option.some_or]
    · rw [if_neg hp, if_neg (Ne.symm hp), Option.none_or]

theorem recordAll_found (ps : List (ℤ × ℤ)) (h : (om.recordAll ps).resolveExchangeId id = some v) :
    (lastOf ps id).or (om.resolveExchangeId id) = some v := by
  induction ps generalizing om with
  | nil => exact h
  | cons p ps ih =>
    have hrest : (lastOf ps id).or ((om.recordIdMapping p.1 p.2).resolveExchangeId id) = some v := ih h
    rw [lastOf_cons, Option.or_assoc]
    cases hlast : lastOf ps id with
    | some w =>
      rw [hlast] at hrest
      exact hrest
    | none =>
      rw [hlast, Option.none_or] at hrest
      have hfound := recordIdMapping_found hrest
      rw [Option.none_or]
      by_cases hp : id = p.1
      · rw [if_pos hp] at hfound
        rw [if_pos hp.symm, Option.some_or]
        exact hfound
      · rw [if_neg hp] at hfound
        rw [if_neg (Ne.symm hp), Option.none_or]
        exact hfound

theorem recordAll_length (ps : List (ℤ × ℤ)) (h : om.clientToExchange.entries.length ≤ mapBound n) :
    (om.recordAll ps).clientToExchange.entries.length ≤ mapBound n := by
  induction ps generalizing om with
  | nil => exact h
  | cons p ps ih => exact ih (recordIdMapping_length om p.1 p.2)

/-! ## Actions -/

/-- An action leaves the map that its pairs make. -/
theorem act_map (om : OrderManager n) (a : Instant × ManagerAct n) :
    (om.act a).clientToExchange = (om.recordAll (pairsOf a.2)).clientToExchange := by
  obtain ⟨now, a⟩ := a
  cases a with
  | event e =>
    cases e with
    | bindLive side level cid eid price size => cases eid <;> rfl
    | clearLive side level cid =>
      simp only [act, applyEvent]
      split <;> rfl
    | clearAll => rfl
    | idResolved c e => rfl
    | fill cid f =>
      simp only [act, applyEvent, applyFill]
      split <;> rfl
  | snapshot remote =>
    show (om.updateIdMappingFromOrders remote).clientToExchange = _
    rw [updateIdMapping_eq]
    rfl
  | collect levels args => exact (collectLoop_frame om args _).2
  | mark op => rfl

theorem act_resolve (om : OrderManager n) (a : Instant × ManagerAct n) (id : ℤ) :
    (om.act a).resolveExchangeId id = (om.recordAll (pairsOf a.2)).resolveExchangeId id := by
  rw [resolveExchangeId, act_map, resolveExchangeId]

/-- What `record_id_mapping` keeps of the pair that a `BindLive` brings. -/
def Kept (om : OrderManager n) : ManagerAct n → Prop
  | .event (.bindLive _ _ cid (some eid) _ _) =>
    (om.withMapping cid eid).entries.length ≤ idMapCap ∨ cid ∈ om.trackedClientIds ∨
      om.untrackedAbove (om.withMapping cid eid) cid < 100
  | _ => True

/-- A pair of an id that is tracked afterwards is of an id that is tracked before, or of a `BindLive`. -/
theorem tracked_after (om : OrderManager n) (a : Instant × ManagerAct n)
    (hid : id ∈ (om.act a).trackedClientIds) (hpair : (lastOf (pairsOf a.2) id).isSome) :
    id ∈ om.trackedClientIds ∨ ∃ side level eid price size,
      a.2 = .event (.bindLive side level id (some eid) price size) := by
  obtain ⟨now, a⟩ := a
  cases a with
  | event e =>
    cases e with
    | bindLive side level cid eid price size =>
      cases eid with
      | none => exact absurd hpair Bool.false_ne_true
      | some eid =>
        by_cases hcid : cid = id
        · subst hcid
          exact .inr ⟨side, level, eid, price, size, rfl⟩
        · refine absurd hpair ?_
          simp [pairsOf, eventPair, lastOf, hcid]
    | idResolved c e =>
      refine .inl ?_
      have hslots : (om.applyEvent now (.idResolved c e)).slots = om.slots := recordIdMapping_slots c e
      rwa [← tracked_congr hslots]
    | clearLive side level cid => exact absurd hpair Bool.false_ne_true
    | clearAll => exact absurd hpair Bool.false_ne_true
    | fill cid f => exact absurd hpair Bool.false_ne_true
  | snapshot remote =>
    obtain ⟨side, level, h⟩ := mem_trackedClientIds_iff.mp hid
    have hslot : some id = _ := h.symm.trans (processReconcile_orderId remote)
    refine .inl (mem_trackedClientIds_iff.mpr ⟨side, level, ?_⟩)
    split at hslot
    · cases hslot
    · exact hslot.symm
  | collect levels args => exact absurd hpair Bool.false_ne_true
  | mark op => exact absurd hpair Bool.false_ne_true

/-- **After a `BindLive` the id that it binds resolves exactly if its pair was kept.** -/
theorem bindLive_resolves_iff (om : OrderManager n) (now : Instant) (side : Side) (level : Fin n) (cid eid : ℤ)
    (price size : ℚ) :
    (om.applyEvent now (.bindLive side level cid (some eid) price size)).resolveExchangeId cid = some eid ↔
      om.Kept (.event (.bindLive side level cid (some eid) price size)) := by
  have hlookup : (om.withMapping cid eid).lookup cid = some eid := by
    rw [withMapping_lookup, if_pos rfl]
  exact recordIdMapping_resolve_iff.trans (and_iff_right hlookup)

end OrderManager

/-! ## Runs -/

/-- The order manager of a run, with the exchange id that was recorded last for each client id, and the client
ids that a slot has tracked ever since. -/
structure IdRun (n : ℕ) where
  om : OrderManager n
  recorded : ℤ → Option ℤ
  held : ℤ → Prop

namespace IdRun

open OrderManager

variable {n : ℕ} {w : IdRun n} {id v : ℤ}

def start (n : ℕ) (amountTick : ℚ) (now : Instant) : IdRun n :=
  ⟨.new n amountTick now, fun _ => none, fun _ => False⟩

def step (w : IdRun n) (a : Instant × ManagerAct n) : IdRun n where
  om := w.om.act a
  recorded := fun id => (lastOf (pairsOf a.2) id).or (w.recorded id)
  held := fun id => id ∈ (w.om.act a).trackedClientIds ∧ ((lastOf (pairsOf a.2) id).isSome ∨ w.held id)

def run (w : IdRun n) (as : List (Instant × ManagerAct n)) : IdRun n := as.foldl step w

/-- The op is for the order that its slot tracks, with the exchange id that was recorded last. -/
def Carries (w : IdRun n) (op : BatchOp n) : Prop :=
  (w.om.slot op.side op.level).orderId = some op.clientOrderId ∧
    ∃ eid, op.exchangeId = some eid ∧ w.recorded op.clientOrderId = some eid

/-- What the id map is for. -/
structure Good (w : IdRun n) : Prop where
  resolves : ∀ id, w.held id → w.om.resolveExchangeId id = w.recorded id
  collected : ∀ levels args, ∀ op ∈ (w.om.collectOrderOperations levels args).2,
    op.action ≠ .create → w.Carries op
  cancels : ∀ op ∈ w.om.collectCancelOps, w.Carries op
  bound : w.om.clientToExchange.entries.length ≤ max idMapCap (2 * n + 100)

/-- What holds in every run. -/
structure Sound (w : IdRun n) : Prop where
  found : ∀ id v, w.om.resolveExchangeId id = some v → w.recorded id = some v
  held : ∀ id, w.held id → id ∈ w.om.trackedClientIds
  bound : w.om.clientToExchange.entries.length ≤ mapBound n

theorem start_sound (amountTick : ℚ) (now : Instant) : Sound (start n amountTick now) :=
  ⟨fun _ _ h => h, fun _ h => h.elim, Nat.zero_le _⟩

theorem Sound.step (h : Sound w) (a : Instant × ManagerAct n) : Sound (w.step a) where
  found := by
    intro id v hv
    have hfound := recordAll_found (pairsOf a.2) ((act_resolve w.om a id).symm.trans hv)
    cases hlast : lastOf (pairsOf a.2) id with
    | some e =>
      rw [hlast] at hfound
      simpa [IdRun.step, hlast] using hfound
    | none =>
      rw [hlast, Option.none_or] at hfound
      simpa [IdRun.step, hlast] using h.found id v hfound
  held := fun id hid => hid.1
  bound := by
    show (w.om.act a).clientToExchange.entries.length ≤ mapBound n
    rw [act_map]
    exact recordAll_length _ h.bound

theorem Sound.carries (h : Sound w) {op : BatchOp n} (hfits : w.om.Fits op) (hop : op.action ≠ .create) :
    w.Carries op := by
  obtain ⟨hslot, eid, hres, heid⟩ := hfits.tracked hop
  exact ⟨hslot, eid, heid, h.found _ _ hres⟩

/-- In a sound run it is the tracked ids that decide. -/
theorem Sound.good_iff (h : Sound w) :
    Good w ↔ ∀ id, w.held id → w.om.resolveExchangeId id = w.recorded id := by
  refine ⟨Good.resolves, fun hres => ⟨hres, fun levels args op hop hact => ?_, fun op hop => ?_, h.bound⟩⟩
  · exact h.carries (collectLoop_fits args _ op hop) hact
  · obtain ⟨hact, hfits⟩ := collectCancelOps_fits hop
    exact h.carries hfits (by rw [hact]; exact OrderAction.noConfusion)

/-- An action that keeps its pair leaves the ids held resolved. -/
theorem Sound.resolves_step (h : Sound w) (hgood : Good w) {a : Instant × ManagerAct n} (hkept : w.om.Kept a.2)
    (hid : (w.step a).held id) : (w.step a).om.resolveExchangeId id = (w.step a).recorded id := by
  obtain ⟨hafter, hsince⟩ := hid
  show (w.om.act a).resolveExchangeId id = (lastOf (pairsOf a.2) id).or (w.recorded id)
  by_cases hbefore : id ∈ w.om.trackedClientIds
  · rw [act_resolve, recordAll_tracked _ hbefore]
    cases hlast : lastOf (pairsOf a.2) id with
    | some e => rfl
    | none =>
      rw [hlast] at hsince
      rw [hgood.resolves id (hsince.resolve_left Bool.false_ne_true)]
  · -- Only a `BindLive` records the pair of an id and has a slot track it.
    have hpair := hsince.resolve_right fun hheld => hbefore (h.held id hheld)
    obtain ⟨side, level, eid, price, size, ha⟩ := (tracked_after w.om a hafter hpair).resolve_left hbefore
    obtain ⟨now, a⟩ := a
    simp only at ha
    subst ha
    have hres := (bindLive_resolves_iff w.om now side level id eid price size).mpr hkept
    exact hres.trans (by simp [pairsOf, eventPair, lastOf])

/-- One action on a good state. -/
theorem Sound.step_good_iff (h : Sound w) (hgood : Good w) (a : Instant × ManagerAct n) :
    Good (w.step a) ↔ w.om.Kept a.2 := by
  rw [(h.step a).good_iff]
  refine ⟨fun hres => ?_, fun hkept id hid => h.resolves_step hgood hkept hid⟩
  obtain ⟨now, a⟩ := a
  cases a with
  | event e =>
    cases e with
    | bindLive side level cid eid price size =>
      cases eid with
      | none => trivial
      | some eid =>
        have hslot : (w.om.applyEvent now (.bindLive side level cid (some eid) price size)).slot side level =
            boundSlot now cid price size := by
          rw [applyEvent_bindLive, if_pos ⟨rfl, rfl⟩]
        have htracked := mem_trackedClientIds_iff.mpr ⟨side, level, congrArg OrderSlot.orderId hslot⟩
        have hres := hres cid ⟨htracked, .inl (by simp [pairsOf, eventPair, lastOf])⟩
        refine (bindLive_resolves_iff w.om now side level cid eid price size).mp (hres.trans ?_)
        simp [IdRun.step, pairsOf, eventPair, lastOf]
    | _ => trivial
  | _ => trivial

theorem run_sound (amountTick : ℚ) (now : Instant) (as : List (Instant × ManagerAct n)) :
    Sound ((start n amountTick now).run as) := by
  induction as using List.reverseRecOn with
  | nil => exact start_sound amountTick now
  | append_singleton as a ih =>
    rw [run, List.foldl_concat]
    exact ih.step a

/-- **The id map.** In a run every id that has been tracked since its mapping resolves to the exchange id recorded
last, every op carries that id, and the map is within its bound, exactly if every `BindLive` brings a pair that is
kept. -/
theorem id_map_iff (amountTick : ℚ) (now : Instant) (as : List (Instant × ManagerAct n)) :
    (∀ pre, pre <+: as → Good ((start n amountTick now).run pre)) ↔
      ∀ pre a, pre ++ [a] <+: as → ((start n amountTick now).run pre).om.Kept a.2 := by
  have hconcat : ∀ pre a, (start n amountTick now).run (pre ++ [a]) = ((start n amountTick now).run pre).step a :=
    fun pre a => List.foldl_concat _ _ _ _
  constructor
  · intro hgood pre a hpre
    have hbefore := hgood pre ((List.prefix_append pre [a]).trans hpre)
    have hafter := hgood (pre ++ [a]) hpre
    rw [hconcat] at hafter
    exact ((run_sound amountTick now pre).step_good_iff hbefore a).mp hafter
  · intro hkept pre
    induction pre using List.reverseRecOn with
    | nil => exact fun _ => (start_sound amountTick now).good_iff.mpr fun _ h => h.elim
    | append_singleton pre a ih =>
      intro hpre
      have hbefore := ih ((List.prefix_append pre [a]).trans hpre)
      rw [hconcat]
      exact ((run_sound amountTick now pre).step_good_iff hbefore a).mpr (hkept pre a hpre)

/-- `200` mappings of ids without a slot, and the late confirmation of a Modify for an older id. -/
def lateConfirmation : List (Instant × ManagerAct 1) :=
  ((List.range 200).map fun i => (0, .event (.idResolved (1000 + i) i))) ++
    [(0, .event (.bindLive .buy 0 1 (some 5) 100 1))]

/-- The slot tracks the id from then on, and its mapping is gone. -/
theorem lateConfirmation_unresolved :
    ((start 1 1 0).run lateConfirmation).held 1 ∧ ((start 1 1 0).run lateConfirmation).recorded 1 = some 5 ∧
      ((start 1 1 0).run lateConfirmation).om.resolveExchangeId 1 = none ∧
        ¬ ∀ pre, pre <+: lateConfirmation → Good ((start 1 1 0).run pre) := by
  obtain ⟨hres, hrecorded, htracked⟩ : ((start 1 1 0).run lateConfirmation).om.resolveExchangeId 1 = none ∧
      ((start 1 1 0).run lateConfirmation).recorded 1 = some 5 ∧
        1 ∈ ((start 1 1 0).run lateConfirmation).om.trackedClientIds := by decide +kernel
  have hheld : ((start 1 1 0).run lateConfirmation).held 1 := by
    rw [lateConfirmation, run, List.foldl_concat] at htracked ⊢
    exact ⟨htracked, .inl rfl⟩
  refine ⟨hheld, hrecorded, hres, fun hgood => ?_⟩
  have hresolves := (hgood lateConfirmation (List.prefix_refl _)).resolves 1 hheld
  rw [hres, hrecorded] at hresolves
  cases hresolves

end IdRun

end LighterMM
