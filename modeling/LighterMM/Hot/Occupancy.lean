import LighterMM.Hot.Cycle

/-!
# A slot is created again only after a release

- **What happens to an occupied slot** (`exec_outcome`): a touch (mark, bind, partial fill) keeps it
  occupied, an event releases it, or a snapshot shows or misses its order.
- **Release** (`Released`): a clear of the slot, a fill that leaves at most the tolerance, or two
  successive snapshots that miss the order, with no touch since the first and none within the grace.
- **Between two Creates of a slot there is a release** (`create_needs_release`), over every run of
  cycles, events and snapshots. The invariant (`Occupied`) ties the miss counter and the time stamp of
  the slot to the run since the first Create.
-/

namespace LighterMM

/-- What the hot task does to its order manager. -/
inductive SlotAction (n : ℕ) where
  | cycle (d : Decision n)
  | event (e : OrderEvent n)
  | snapshot (remote : List RemoteOrder)

def SlotAction.isSnapshot {n : ℕ} : SlotAction n → Bool
  | .snapshot _ => true
  | _ => false

/-- An action with its reading of the clock. -/
abbrev Timed (n : ℕ) := Instant × SlotAction n

/-- The slots that a batch creates an order for. -/
def createKeys {n : ℕ} (ops : List (BatchOp n)) : List (Side × Fin n) :=
  (ops.filter (·.action = .create)).map BatchOp.key

namespace OrderManager

variable {n : ℕ}

/-- The ops of a cycle, all of them marked. -/
def emitted (om : OrderManager n) (now : Instant) (d : Decision n) : List (BatchOp n) :=
  (om.cycle now d).2.getD []

def exec (om : OrderManager n) : Timed n → OrderManager n
  | (t, .cycle d) => (om.cycle t d).1
  | (t, .event e) => om.applyEvent t e
  | (t, .snapshot remote) => om.processReconcile t remote

def execAll (om : OrderManager n) (l : List (Timed n)) : OrderManager n := l.foldl exec om

/-- The second loop of `process_reconcile` finds a row for the slot. -/
def refreshes (remote : List RemoteOrder) (side : Side) (s : OrderSlot) : Bool :=
  match s.orderId with
  | none => false
  | some cid =>
    match rowOf remote cid with
    | none => false
    | some o => !sideMismatch side o

/-- A fill leaves more than the tolerance of the tracked size. -/
def fillsPartially (om : OrderManager n) (s : OrderSlot) (filledSize : ℚ) : Bool :=
  match s.size with
  | none => false
  | some size => decide (max om.amountTick epsilon < size - filledSize)

/-- The action marks or binds the slot, or fills its order partially. -/
def touches (k : Side × Fin n) (om : OrderManager n) : Timed n → Bool
  | (t, .cycle d) => (om.emitted t d).any fun op => decide (op.key = k)
  | (_, .event (.bindLive side level _ _ _ _)) => decide ((side, level) = k)
  | (_, .event (.fill cid filledSize)) =>
    decide (om.findSlot cid = some k) && om.fillsPartially (om.slot k.1 k.2) filledSize
  | (_, .event _) => false
  | (t, .snapshot remote) => refreshes remote k.1 (missSlot (liveIds remote) t (om.slot k.1 k.2))

/-- When the slot was touched in a run. -/
def touchTimes (k : Side × Fin n) : OrderManager n → List (Timed n) → List Instant
  | _, [] => []
  | om, a :: l => (if touches k om a then [a.1] else []) ++ touchTimes k (om.exec a) l

/-- An event that releases the slot. -/
inductive ReleasedBy (k : Side × Fin n) (om : OrderManager n) : Timed n → Prop
  | clearLive {t : Instant} {cid : ℤ} : cid = 0 ∨ (om.slot k.1 k.2).orderId = some cid →
      ReleasedBy k om (t, .event (.clearLive k.1 k.2 cid))
  | clearAll {t : Instant} : ReleasedBy k om (t, .event .clearAll)
  | filled {t : Instant} {cid : ℤ} {filledSize size : ℚ} : om.findSlot cid = some k →
      (om.slot k.1 k.2).size = some size → size - filledSize ≤ max om.amountTick epsilon →
      ReleasedBy k om (t, .event (.fill cid filledSize))

/-- In the run `l` from `om`, whose slot was touched at `t₀`, the slot is released: by an event, or by
two successive snapshots that do not show its order. -/
inductive Released (k : Side × Fin n) (om : OrderManager n) (t₀ : Instant) : List (Timed n) → Prop
  | event {pre post : List (Timed n)} {a : Timed n} : ReleasedBy k (om.execAll pre) a →
      Released k om t₀ (pre ++ a :: post)
  | missing {pre mid post : List (Timed n)} {t t' : Instant} {remote remote' : List RemoteOrder} {id : ℤ} :
      ((om.execAll pre).slot k.1 k.2).orderId = some id →
      id ∉ liveIds remote' → id ∉ liveIds remote → (∀ a ∈ mid, a.2.isSnapshot = false) →
      touchTimes k (om.execAll pre) ((t', .snapshot remote') :: mid) = [] →
      (∀ u ∈ t₀ :: touchTimes k om (pre ++ (t', .snapshot remote') :: mid), reconcileGrace ≤ t - u) →
      Released k om t₀ (pre ++ (t', .snapshot remote') :: mid ++ (t, .snapshot remote) :: post)

variable {om : OrderManager n} {k : Side × Fin n} {t t₀ : Instant}

theorem execAll_concat (l : List (Timed n)) (a : Timed n) :
    om.execAll (l ++ [a]) = (om.execAll l).exec a := by
  simp [execAll]

theorem touchTimes_append (l l' : List (Timed n)) :
    touchTimes k om (l ++ l') = touchTimes k om l ++ touchTimes k (om.execAll l) l' := by
  induction l generalizing om with
  | nil => rfl
  | cons a l ih =>
    simp only [List.cons_append, touchTimes, ih, List.append_assoc]
    rfl

/-- A touch is the time of one of the actions. -/
theorem touchTimes_subset (l : List (Timed n)) : ∀ u ∈ touchTimes k om l, u ∈ l.map Prod.fst := by
  induction l generalizing om with
  | nil => intro u hu; exact hu
  | cons a l ih =>
    intro u hu
    rcases List.mem_append.mp hu with hu | hu
    · by_cases h : touches k om a = true
      · rw [if_pos h, List.mem_singleton] at hu
        rw [hu]
        exact List.mem_cons_self
      · rw [if_neg h] at hu
        cases hu
    · exact List.mem_cons_of_mem _ (ih u hu)

theorem Released.append {l : List (Timed n)} (h : Released k om t₀ l) (l' : List (Timed n)) :
    Released k om t₀ (l ++ l') := by
  cases h with
  | event h =>
    rw [List.append_assoc, List.cons_append]
    exact .event h
  | missing hid hlive' hlive hmid hquiet hgrace =>
    rw [List.append_assoc, List.cons_append]
    exact .missing hid hlive' hlive hmid hquiet hgrace

/-! ## What one action does to an occupied slot -/

/-- The slot tracks order `id` with a known price and size. -/
structure Held (s : OrderSlot) (id : ℤ) : Prop where
  orderId : s.orderId = some id
  price : s.price ≠ none
  size : s.size ≠ none

/-- And it was touched just now. -/
structure JustTouched (now : Instant) (s : OrderSlot) (id : ℤ) : Prop extends Held s id where
  updatedAt : s.updatedAt = now
  miss : s.miss = 0

/-- The mark of an op that is no Create. -/
theorem markPending_held {op : BatchOp n} {id : ℤ} (h : Held (om.slot op.side op.level) id)
    (hc : op.action ≠ .create) : JustTouched t ((om.markPending t op).slot op.side op.level) id := by
  unfold markPending
  rw [slot_setSlot_self]
  cases ha : op.action with
  | create => exact absurd ha hc
  | modify => exact ⟨⟨h.orderId, Option.some_ne_none _, Option.some_ne_none _⟩, rfl, rfl⟩
  | cancel => exact ⟨⟨h.orderId, h.price, h.size⟩, rfl, rfl⟩

theorem markPending_slot_ne {op : BatchOp n} (h : op.key ≠ k) :
    (om.markPending t op).slot k.1 k.2 = om.slot k.1 k.2 :=
  slot_setSlot_ne _ fun hk => h (Prod.ext hk.1.symm hk.2.symm)

/-- The marks of a batch without an op for the slot. -/
theorem markAll_slot_ne {ops : List (BatchOp n)} (h : ∀ op ∈ ops, op.key ≠ k) :
    (om.markAll t ops).slot k.1 k.2 = om.slot k.1 k.2 := by
  induction ops generalizing om with
  | nil => rfl
  | cons op ops ih =>
    rw [markAll_cons, ih fun o ho => h o (List.mem_cons_of_mem _ ho),
      markPending_slot_ne (h op List.mem_cons_self)]

/-- The marks of a batch with an op for the slot, but no Create. -/
theorem markAll_held {ops : List (BatchOp n)} {id : ℤ} (h : Held (om.slot k.1 k.2) id)
    (hc : ∀ op ∈ ops, op.key = k → op.action ≠ .create) (hk : ∃ op ∈ ops, op.key = k) :
    JustTouched t ((om.markAll t ops).slot k.1 k.2) id := by
  induction ops generalizing om with
  | nil =>
    obtain ⟨op, hop, -⟩ := hk
    cases hop
  | cons op ops ih =>
    have hc' : ∀ o ∈ ops, o.key = k → o.action ≠ .create := fun o ho => hc o (List.mem_cons_of_mem _ ho)
    rw [markAll_cons]
    by_cases hop : op.key = k
    · subst hop
      have hmark : JustTouched t ((om.markPending t op).slot op.side op.level) id :=
        markPending_held h (hc op List.mem_cons_self rfl)
      by_cases hrest : ∃ o ∈ ops, o.key = op.key
      · exact ih hmark.toHeld hc' hrest
      · rw [markAll_slot_ne fun o ho hk => hrest ⟨o, ho, hk⟩]
        exact hmark
    · refine ih (by rw [markPending_slot_ne hop]; exact h) hc' ?_
      obtain ⟨o, ho, hk⟩ := hk
      rcases List.mem_cons.mp ho with rfl | ho
      · exact absurd hk hop
      · exact ⟨o, ho, hk⟩

/-- A Create occupies its slot, if the batch creates no other order for it. -/
theorem markAll_create {ops : List (BatchOp n)} (hnd : (createKeys ops).Nodup) {op : BatchOp n}
    (hop : op ∈ ops) (hc : op.action = .create) :
    JustTouched t ((om.markAll t ops).slot op.side op.level) op.clientOrderId := by
  induction ops generalizing om with
  | nil => cases hop
  | cons o ops ih =>
    rw [markAll_cons]
    rcases List.mem_cons.mp hop with rfl | hop
    · have hrest : ∀ o ∈ ops, o.key = op.key → o.action ≠ .create := by
        intro o ho hkey hco
        simp only [createKeys, List.filter_cons, hc, decide_true, if_true, List.map_cons, List.nodup_cons] at hnd
        exact hnd.1 (List.mem_map.mpr ⟨o, List.mem_filter.mpr ⟨ho, decide_eq_true hco⟩, hkey⟩)
      have hmark : JustTouched t ((om.markPending t op).slot op.side op.level) op.clientOrderId := by
        unfold markPending
        rw [slot_setSlot_self, hc]
        exact ⟨⟨rfl, Option.some_ne_none _, Option.some_ne_none _⟩, rfl, rfl⟩
      by_cases hk : ∃ o ∈ ops, o.key = op.key
      · exact markAll_held (k := op.key) hmark.toHeld hrest hk
      · have hne : ∀ o ∈ ops, o.key ≠ op.key := fun o ho hkey => hk ⟨o, ho, hkey⟩
        have heq : ((om.markPending t op).markAll t ops).slot op.side op.level =
            (om.markPending t op).slot op.side op.level := markAll_slot_ne (k := op.key) hne
        rw [heq]
        exact hmark
    · refine ih ?_ hop
      unfold createKeys at hnd ⊢
      exact hnd.sublist (((List.sublist_cons_self o ops).filter _).map _)

theorem emitted_ladder (om : OrderManager n) (t : Instant) (levels : List Level) (args : CollectArgs) :
    om.emitted t (.ladder levels args) = (om.collectOrderOperations levels args).2 := by
  unfold emitted cycle ladderCycle
  by_cases hnil : (om.collectOrderOperations levels args).2 = []
  · simp only [hnil, if_true, Option.getD_none]
  · simp only [hnil, if_false, Option.getD_some]

/-- The ops of a cycle are for different slots. -/
theorem emitted_nodup (om : OrderManager n) (t : Instant) (d : Decision n) :
    ((om.emitted t d).map BatchOp.key).Nodup := by
  unfold emitted
  cases hops : (om.cycle t d).2 with
  | none => exact List.nodup_nil
  | some ops => exact cycle_nodup hops

/-- Every op of a cycle fits its slot, no two Creates are for one slot, and the cycle marks exactly the
ops that it emits. -/
theorem cycle_emitted (om : OrderManager n) (t : Instant) (d : Decision n) :
    (∀ op ∈ om.emitted t d, om.Fits op) ∧ (createKeys (om.emitted t d)).Nodup ∧
      ∃ om' : OrderManager n, om'.slots = om.slots ∧ (om.cycle t d).1 = om'.markAll t (om.emitted t d) := by
  cases d with
  | throttled => exact ⟨fun _ h => absurd h List.not_mem_nil, List.nodup_nil, om, rfl, rfl⟩
  | flat => exact ⟨fun _ h => absurd h List.not_mem_nil, List.nodup_nil, om, rfl, rfl⟩
  | gated =>
    refine ⟨fun op hop => (collectCancelOps_fits hop).2, ?_, om, rfl, rfl⟩
    have hnil : (om.emitted t .gated).filter (·.action = .create) = [] := by
      rw [List.filter_eq_nil_iff]
      intro op hop
      rw [(collectCancelOps_fits hop).1]
      decide
    rw [createKeys, hnil]
    exact List.nodup_nil
  | ladder levels args =>
    obtain ⟨hs, -⟩ := collectLoop_frame om args (levelTargets n levels)
    rw [emitted_ladder]
    refine ⟨collectLoop_fits args _, ?_, (om.collectOrderOperations levels args).1, hs, rfl⟩
    exact (om.collectOrderOperations_nodup levels args).sublist (List.filter_sublist.map _)

/-- The second loop of a snapshot leaves a slot alone that it finds no row for. -/
theorem refreshSlot_eq {remote : List RemoteOrder} {side : Side} {s : OrderSlot}
    (hr : refreshes remote side s = false) : refreshSlot remote t side s = s := by
  unfold refreshes at hr
  unfold refreshSlot
  cases hid : s.orderId with
  | none => rfl
  | some id =>
    rw [hid] at hr
    cases hrow : rowOf remote id with
    | none => simp only [hrow]
    | some o =>
      simp only [hrow, Bool.not_eq_false'] at hr
      simp only [hrow, hr, if_true]

/-- It binds an occupied slot that it finds a row for. -/
theorem refreshSlot_held {remote : List RemoteOrder} {side : Side} {s : OrderSlot} {id : ℤ}
    (h : Held s id) (hr : refreshes remote side s = true) :
    JustTouched t (refreshSlot remote t side s) id := by
  unfold refreshes at hr
  rw [h.orderId] at hr
  obtain ⟨p, hp⟩ := Option.ne_none_iff_exists'.mp h.price
  obtain ⟨sz, hsz⟩ := Option.ne_none_iff_exists'.mp h.size
  cases hrow : rowOf remote id with
  | none => simp only [hrow, Bool.false_eq_true] at hr
  | some o =>
    simp only [hrow, Bool.not_eq_true'] at hr
    have hprice : ∃ p', (o.price.map parseF64).or s.price = some p' := by
      rw [hp]
      cases o.price.map parseF64 <;> exact ⟨_, rfl⟩
    have hsize : ∃ sz', (o.remainingBaseAmount.map parseF64).or s.size = some sz' := by
      rw [hsz]
      cases o.remainingBaseAmount.map parseF64 <;> exact ⟨_, rfl⟩
    obtain ⟨p', hp'⟩ := hprice
    obtain ⟨sz', hsz'⟩ := hsize
    have hbound : refreshSlot remote t side s = boundSlot t id p' sz' := by
      simp only [refreshSlot, h.orderId, hrow, hr, hp', hsz', Bool.false_eq_true, if_false]
    rw [hbound]
    exact ⟨⟨rfl, Option.some_ne_none _, Option.some_ne_none _⟩, rfl, rfl⟩

/-- What an action does to a slot that tracks order `id`. -/
inductive Outcome (k : Side × Fin n) (om : OrderManager n) (id : ℤ) : Timed n → Prop
  | touched {a : Timed n} {id' : ℤ} : touches k om a = true →
      JustTouched a.1 ((om.exec a).slot k.1 k.2) id' → Outcome k om id a
  | released {a : Timed n} : ReleasedBy k om a → Outcome k om id a
  | cleared {t : Instant} {remote : List RemoteOrder} :
      clearsMissing (liveIds remote) t (om.slot k.1 k.2) = true → Outcome k om id (t, .snapshot remote)
  | missed {t : Instant} {remote : List RemoteOrder} : id ∉ liveIds remote →
      touches k om (t, .snapshot remote) = false →
      (om.exec (t, .snapshot remote)).slot k.1 k.2 =
        { om.slot k.1 k.2 with miss := (om.slot k.1 k.2).miss + 1 } → Outcome k om id (t, .snapshot remote)
  | shown {t : Instant} {remote : List RemoteOrder} : touches k om (t, .snapshot remote) = false →
      (om.exec (t, .snapshot remote)).slot k.1 k.2 = { om.slot k.1 k.2 with miss := 0 } →
      Outcome k om id (t, .snapshot remote)
  | kept {a : Timed n} : a.2.isSnapshot = false → touches k om a = false →
      (om.exec a).slot k.1 k.2 = om.slot k.1 k.2 → Outcome k om id a

theorem cycle_outcome {id : ℤ} (h : Held (om.slot k.1 k.2) id) (d : Decision n) :
    Outcome k om id (t, .cycle d) := by
  obtain ⟨hfits, -, om', hs, hcycle⟩ := cycle_emitted om t d
  have hslot : om'.slot k.1 k.2 = om.slot k.1 k.2 := by rw [slot, hs, slot]
  by_cases hk : ∃ op ∈ om.emitted t d, op.key = k
  · refine @Outcome.touched n k om id (t, .cycle d) id ?_ ?_
    · show (om.emitted t d).any _ = true
      rw [List.any_eq_true]
      obtain ⟨op, hop, hkey⟩ := hk
      exact ⟨op, hop, decide_eq_true hkey⟩
    · show JustTouched t ((om.cycle t d).1.slot k.1 k.2) id
      rw [hcycle]
      refine markAll_held (by rw [hslot]; exact h) (fun op hop hkey hc => ?_) hk
      -- A Create needs an idle slot.
      have hidle := ((hfits op hop).create hc).1
      rw [show op.side = k.1 from congrArg Prod.fst hkey, show op.level = k.2 from congrArg Prod.snd hkey,
        h.orderId] at hidle
      cases hidle
  · refine .kept rfl ?_ ?_
    · show (om.emitted t d).any _ = false
      rw [List.any_eq_false]
      exact fun op hop => by simpa using fun hkey => hk ⟨op, hop, hkey⟩
    · show (om.cycle t d).1.slot k.1 k.2 = _
      rw [hcycle, markAll_slot_ne fun op hop hkey => hk ⟨op, hop, hkey⟩, hslot]

theorem event_outcome {id : ℤ} (h : Held (om.slot k.1 k.2) id) (e : OrderEvent n) :
    Outcome k om id (t, .event e) := by
  cases e with
  | bindLive side level cid eid price size =>
    have hslot : (om.applyEvent t (.bindLive side level cid eid price size)).slot k.1 k.2 = _ :=
      applyEvent_bindLive cid eid price size
    by_cases hk : (side, level) = k
    · subst hk
      rw [if_pos ⟨rfl, rfl⟩] at hslot
      have hj : JustTouched t (boundSlot t cid price size) cid :=
        ⟨⟨rfl, Option.some_ne_none _, Option.some_ne_none _⟩, rfl, rfl⟩
      rw [← hslot] at hj
      exact .touched (decide_eq_true rfl) hj
    · rw [if_neg fun hkk => hk (Prod.ext hkk.1.symm hkk.2.symm)] at hslot
      exact .kept rfl (decide_eq_false hk) hslot
  | clearLive side level cid =>
    have hslot : (om.applyEvent t (.clearLive side level cid)).slot k.1 k.2 = _ := applyEvent_clearLive cid
    by_cases hk : (side, level) = k
    · subst hk
      by_cases hg : cid = 0 ∨ (om.slot side level).orderId = some cid
      · exact .released (.clearLive hg)
      · rw [if_neg fun hkg => hg hkg.2] at hslot
        exact .kept rfl rfl hslot
    · rw [if_neg fun hkg => hk (Prod.ext hkg.1.1.symm hkg.1.2.symm)] at hslot
      exact .kept rfl rfl hslot
  | clearAll => exact .released .clearAll
  | idResolved c e => exact .kept rfl rfl (@applyEvent_idResolved_slot n om t k.1 k.2 c e)
  | fill cid filledSize =>
    obtain ⟨size, hsize⟩ := Option.ne_none_iff_exists'.mp h.size
    by_cases hk : om.findSlot cid = some k
    · have hslot : (om.exec (t, .event (.fill cid filledSize))).slot k.1 k.2 =
          filledSlot om.amountTick t filledSize (om.slot k.1 k.2) := by
        simp only [exec, applyEvent, applyFill, hk]
        exact slot_setSlot_self _
      by_cases hr : max om.amountTick epsilon < size - filledSize
      · refine @Outcome.touched n k om id _ id ?_ ?_
        · simp only [touches, hk, fillsPartially, hsize, decide_true, Bool.true_and, decide_eq_true hr]
        · rw [hslot]
          simp only [filledSlot, hsize, Option.map_some, if_pos hr]
          exact ⟨⟨h.orderId, h.price, Option.some_ne_none _⟩, rfl, rfl⟩
      · exact .released (.filled hk hsize (not_lt.mp hr))
    · refine .kept rfl ?_ ?_
      · simp only [touches, hk, decide_false, Bool.false_and]
      · simp only [exec, applyEvent, applyFill]
        cases hf : om.findSlot cid with
        | none => rfl
        | some k' =>
          refine slot_setSlot_ne _ fun hkk => hk ?_
          rw [hf]
          exact congrArg some (Prod.ext hkk.1.symm hkk.2.symm)

theorem missSlot_shown {live : List ℤ} {s : OrderSlot} {id : ℤ} (h : s.orderId = some id) (hl : id ∈ live) :
    missSlot live t s = { s with miss := 0 } := by
  unfold missSlot
  split
  · rename_i hn
    rw [h] at hn
    cases hn
  · rename_i i hi
    obtain rfl : i = id := Option.some.inj (hi.symm.trans h)
    rw [if_pos hl]

theorem missSlot_missed {live : List ℤ} {s : OrderSlot} {id : ℤ} (h : s.orderId = some id) (hl : id ∉ live)
    (hc : clearsMissing live t s = false) : missSlot live t s = { s with miss := s.miss + 1 } := by
  unfold missSlot
  split
  · rename_i hn
    rw [h] at hn
    cases hn
  · rename_i i hi
    obtain rfl : i = id := Option.some.inj (hi.symm.trans h)
    rw [if_neg hl, hc, if_neg Bool.false_ne_true]

theorem snapshot_outcome {id : ℤ} (h : Held (om.slot k.1 k.2) id) (remote : List RemoteOrder) :
    Outcome k om id (t, .snapshot remote) := by
  have hslot : (om.exec (t, .snapshot remote)).slot k.1 k.2 =
      refreshSlot remote t k.1 (missSlot (liveIds remote) t (om.slot k.1 k.2)) :=
    processReconcile_slot remote
  cases hc : clearsMissing (liveIds remote) t (om.slot k.1 k.2) with
  | true => exact .cleared hc
  | false =>
    by_cases hlive : id ∈ liveIds remote
    · have hmiss := @missSlot_shown t _ _ _ h.orderId hlive
      cases hr : touches k om (t, .snapshot remote) with
      | true =>
        refine @Outcome.touched n k om id _ id hr ?_
        rw [hslot]
        exact refreshSlot_held (hmiss ▸ ⟨h.orderId, h.price, h.size⟩) hr
      | false => exact .shown hr (by rw [hslot, refreshSlot_eq hr, hmiss])
    · have hmiss := missSlot_missed h.orderId hlive hc
      cases hr : touches k om (t, .snapshot remote) with
      | true =>
        refine @Outcome.touched n k om id _ id hr ?_
        rw [hslot]
        exact refreshSlot_held (hmiss ▸ ⟨h.orderId, h.price, h.size⟩) hr
      | false => exact .missed hlive hr (by rw [hslot, refreshSlot_eq hr, hmiss])

theorem exec_outcome {id : ℤ} (h : Held (om.slot k.1 k.2) id) (a : Timed n) : Outcome k om id a := by
  obtain ⟨t, act⟩ := a
  cases act with
  | cycle d => exact cycle_outcome h d
  | event e => exact event_outcome h e
  | snapshot remote => exact snapshot_outcome h remote

/-! ## From the Create on -/

/-- The last snapshot of the run did not show order `id` of the slot, and the slot was not touched since. -/
def Missed (k : Side × Fin n) (om : OrderManager n) (id : ℤ) (l : List (Timed n)) : Prop :=
  ∃ pre t' remote' mid, l = pre ++ (t', .snapshot remote') :: mid ∧
    ((om.execAll pre).slot k.1 k.2).orderId = some id ∧ id ∉ liveIds remote' ∧
    (∀ a ∈ mid, a.2.isSnapshot = false) ∧
    touchTimes k (om.execAll pre) ((t', .snapshot remote') :: mid) = []

/-- After the run `l` from `om`, whose slot was touched at `t₀`: the slot still tracks an order, its time
stamp is not before any touch, and its miss counter counts only untouched misses. -/
structure Occupied (k : Side × Fin n) (om : OrderManager n) (t₀ : Instant) (l : List (Timed n)) (id : ℤ) :
    Prop where
  held : Held ((om.execAll l).slot k.1 k.2) id
  touched : ∀ u ∈ t₀ :: touchTimes k om l, u ≤ ((om.execAll l).slot k.1 k.2).updatedAt
  miss : 0 < ((om.execAll l).slot k.1 k.2).miss → Missed k om id l

variable {l : List (Timed n)} {id : ℤ} {a : Timed n}

/-- An untouched action that is no snapshot keeps the miss. -/
theorem Missed.kept (h : Missed k om id l) (hs : a.2.isSnapshot = false)
    (ht : touches k (om.execAll l) a = false) : Missed k om id (l ++ [a]) := by
  obtain ⟨pre, t', remote', mid, rfl, hid, hlive, hmid, hquiet⟩ := h
  refine ⟨pre, t', remote', mid ++ [a], by simp, hid, hlive, fun b hb => ?_, ?_⟩
  · rcases List.mem_append.mp hb with hb | hb
    · exact hmid b hb
    · rw [List.mem_singleton.mp hb]
      exact hs
  · have hend : (om.execAll pre).execAll ((t', .snapshot remote') :: mid) =
        om.execAll (pre ++ (t', .snapshot remote') :: mid) := (List.foldl_append).symm
    rw [← List.cons_append, touchTimes_append, hquiet, List.nil_append, hend, touchTimes, ht]
    rfl

/-- A slot that the snapshot clears was missed by the one before. -/
theorem Occupied.cleared {remote : List RemoteOrder} (h : Occupied k om t₀ l id)
    (hc : clearsMissing (liveIds remote) t ((om.execAll l).slot k.1 k.2) = true) :
    Released k om t₀ (l ++ [(t, .snapshot remote)]) := by
  unfold clearsMissing at hc
  rw [h.held.orderId] at hc
  obtain ⟨hlive, hmiss, hgrace⟩ := of_decide_eq_true hc
  have hpos : 0 < ((om.execAll l).slot k.1 k.2).miss := by
    unfold missingReconcileDebounce at hmiss
    omega
  have htouched := h.touched
  obtain ⟨pre, t', remote', mid, rfl, hid, hlive', hmid, hquiet⟩ := h.miss hpos
  refine .missing hid hlive' hlive hmid hquiet fun u hu => ?_
  have hle := htouched u hu
  linarith

theorem touchTimes_concat (l : List (Timed n)) (a : Timed n) :
    touchTimes k om (l ++ [a]) =
      touchTimes k om l ++ if touches k (om.execAll l) a then [a.1] else [] := by
  rw [touchTimes_append]
  simp only [touchTimes, List.append_nil]

/-- An action that touches the slot keeps it occupied. -/
theorem Occupied.touch {id' : ℤ} (h : Occupied k om t₀ l id) (ht : touches k (om.execAll l) a = true)
    (hj : JustTouched a.1 (((om.execAll l).exec a).slot k.1 k.2) id')
    (hle : ∀ u ∈ t₀ :: l.map Prod.fst, u ≤ a.1) : Occupied k om t₀ (l ++ [a]) id' := by
  rw [← execAll_concat] at hj
  refine ⟨hj.toHeld, fun u hu => ?_, fun hpos => absurd hj.miss hpos.ne'⟩
  rw [hj.updatedAt]
  rw [touchTimes_concat, ht, if_pos rfl] at hu
  rcases List.mem_cons.mp hu with rfl | hu
  · exact hle _ List.mem_cons_self
  · rcases List.mem_append.mp hu with hu | hu
    · exact hle u (List.mem_cons_of_mem _ (touchTimes_subset l u hu))
    · exact (List.mem_singleton.mp hu).le

/-- An action that changes at most the miss counter keeps it occupied: the stamp still covers all
touches. -/
theorem Occupied.untouched {m : ℕ} (h : Occupied k om t₀ l id) (ht : touches k (om.execAll l) a = false)
    (hslot : ((om.execAll l).exec a).slot k.1 k.2 = { (om.execAll l).slot k.1 k.2 with miss := m })
    (hmiss : 0 < m → Missed k om id (l ++ [a])) : Occupied k om t₀ (l ++ [a]) id := by
  rw [← execAll_concat] at hslot
  refine ⟨?_, ?_, ?_⟩
  · rw [hslot]
    exact ⟨h.held.orderId, h.held.price, h.held.size⟩
  · rw [hslot, touchTimes_concat, ht, if_neg Bool.false_ne_true, List.append_nil]
    exact h.touched
  · rw [hslot]
    exact hmiss

/-- **One more action**: the slot stays occupied or is released. -/
theorem Occupied.step (h : Occupied k om t₀ l id) (hle : ∀ u ∈ t₀ :: l.map Prod.fst, u ≤ a.1) :
    (∃ id', Occupied k om t₀ (l ++ [a]) id') ∨ Released k om t₀ (l ++ [a]) := by
  cases exec_outcome h.held a with
  | touched ht hj => exact .inl ⟨_, h.touch ht hj hle⟩
  | released hr => exact .inr (.event hr)
  | cleared hc => exact .inr (h.cleared hc)
  | @missed t remote hlive ht hslot =>
    refine .inl ⟨id, h.untouched ht hslot fun _ => ⟨l, t, remote, [], rfl, h.held.orderId, hlive, ?_, ?_⟩⟩
    · exact fun b hb => absurd hb List.not_mem_nil
    · rw [touchTimes, ht]
      rfl
  | shown ht hslot => exact .inl ⟨id, h.untouched ht hslot fun hpos => absurd hpos (lt_irrefl 0)⟩
  | kept hs ht hslot => exact .inl ⟨id, h.untouched ht hslot fun hpos => (h.miss hpos).kept hs ht⟩

/-- **A run** at non-decreasing times keeps the slot occupied or releases it. -/
theorem occupied_or_released (h : Occupied k om t₀ [] id)
    (hsorted : (t₀ :: l.map Prod.fst).Pairwise (· ≤ ·)) :
    (∃ id', Occupied k om t₀ l id') ∨ Released k om t₀ l := by
  induction l using List.reverseRecOn with
  | nil => exact .inl ⟨id, h⟩
  | append_singleton l a ih =>
    rw [List.map_append, List.map_singleton, ← List.cons_append, List.pairwise_append] at hsorted
    obtain ⟨hl, -, hle⟩ := hsorted
    rcases ih hl with ⟨id', hI⟩ | hr
    · exact hI.step fun u hu => hle u hu a.1 (List.mem_singleton_self _)
    · exact .inr (hr.append [a])

/-- The slot of an emitted Create right after its cycle. -/
theorem occupied_of_create {d : Decision n} {op : BatchOp n} (hop : op ∈ om.emitted t₀ d)
    (hc : op.action = .create) :
    Occupied op.key (om.exec (t₀, .cycle d)) t₀ [] op.clientOrderId := by
  obtain ⟨-, hnd, om', -, hcycle⟩ := cycle_emitted om t₀ d
  have hj : JustTouched t₀ ((om.cycle t₀ d).1.slot op.side op.level) op.clientOrderId := by
    rw [hcycle]
    exact markAll_create hnd hop hc
  refine ⟨hj.toHeld, fun u hu => ?_, fun hpos => absurd hj.miss hpos.ne'⟩
  rw [List.mem_singleton.mp hu]
  exact hj.updatedAt.ge

/-- **No second Create for an occupied slot**: one batch creates at most one order for a slot, and
between two cycles that create an order for it the slot is released. -/
theorem create_needs_release (om : OrderManager n) (t₀ t₁ : Instant) (d₀ d₁ : Decision n)
    (mid : List (Timed n)) (hsorted : (t₀ :: mid.map Prod.fst).Pairwise (· ≤ ·)) (k : Side × Fin n)
    (h₀ : k ∈ createKeys (om.emitted t₀ d₀))
    (h₁ : k ∈ createKeys (((om.exec (t₀, .cycle d₀)).execAll mid).emitted t₁ d₁)) :
    (createKeys (om.emitted t₀ d₀)).Nodup ∧ Released k (om.exec (t₀, .cycle d₀)) t₀ mid := by
  refine ⟨(cycle_emitted om t₀ d₀).2.1, ?_⟩
  obtain ⟨op, hop, rfl⟩ := List.mem_map.mp h₀
  obtain ⟨hop, hc⟩ := List.mem_filter.mp hop
  rcases occupied_or_released (occupied_of_create hop (of_decide_eq_true hc)) hsorted with ⟨id, hI⟩ | hr
  · -- The second Create needs an idle slot.
    obtain ⟨op', hop', hkey⟩ := List.mem_map.mp h₁
    obtain ⟨hop', hc'⟩ := List.mem_filter.mp hop'
    have hidle := (((cycle_emitted _ t₁ d₁).1 op' hop').create (of_decide_eq_true hc')).1
    have hheld := hI.held.orderId
    rw [← hkey] at hheld
    exact absurd (hidle.symm.trans hheld) (Option.some_ne_none id).symm
  · exact hr

/-- A market with one level, whose bid is created, cleared by the sender's wildcard and created again. -/
theorem create_needs_release_cleared :
    let om : OrderManager 1 := .new 1 1 0
    let quote : Decision 1 := .ladder [(some 100, none)] ⟨1, 0, 0, 1000, false⟩
    Released (.buy, 0) (om.exec (0, .cycle quote)) 0 [(1, .event (.clearLive .buy 0 0))] :=
  (create_needs_release (.new 1 1 0) 0 2 (.ladder [(some 100, none)] ⟨1, 0, 0, 1000, false⟩)
    (.ladder [(some 100, none)] ⟨1, 0, 0, 1000, false⟩) [(1, .event (.clearLive .buy 0 0))]
    (by decide +kernel) (.buy, 0) (by decide +kernel) (by decide +kernel)).2

end OrderManager

end LighterMM
