import LighterMM.System.Batches
import LighterMM.Hot.Requotes

/-!
# Reduce-only at the exchange (`maybe_quote`, `sign_batch`)

The reduce-only flag of an op is decided from the position of its cycle, but only the request of a Create
transmits it (`signRequest_reduceOnly`): a Modify leaves the flag that the order was created with.

`Quoting` is the live system with the market-data half of its hot task, the position behind each op, and
the Creates behind the orders that the exchange has accepted. A task that is not ready only quotes the exit
of its position. `unready_reduce_only_iff` says when each order that it creates or reprices is reduce-only
at the exchange.
-/

namespace LighterMM

variable {n : ℕ}

/-- The reduce-only flag of a request; only that of a Create has one. -/
def SignRequest.reduceOnly : SignRequest → Option Bool
  | .createOrder _ _ _ _ _ _ _ reduceOnly _ _ _ _ => some reduceOnly
  | _ => none

/-- The flag that an op is signed with. -/
def BatchOp.signedReduceOnly (op : BatchOp n) : Option Bool :=
  if op.action = .create then some op.reduceOnly else none

/-- **What signing transmits.** -/
theorem signRequest_reduceOnly {market : MarketConfig} {aki k : ℤ} {op : BatchOp n} {req : SignRequest}
    (h : signRequest market aki op k = .ok req) : req.reduceOnly = op.signedReduceOnly := by
  unfold signRequest at h
  unfold BatchOp.signedReduceOnly
  cases ha : op.action with
  | create =>
    simp only [ha] at h
    split at h
    · cases h
    · cases h
      rfl
  | modify =>
    simp only [ha] at h
    split at h <;> cases h
    rfl
  | cancel =>
    simp only [ha] at h
    split at h <;> cases h
    rfl

/-! ## The live system with its market data -/

/-- The live system with a hot task that quotes. -/
structure Quoting (n : ℕ) where
  world : World n
  /-- The market-data half of the hot task; its order manager is the world's. -/
  task : HotTask n
  /-- The ops of all cycles, each with the position that it was computed from. -/
  emitted : List (BatchOp n × ℚ)
  /-- The orders that the exchange has accepted: their exchange ids and their Creates. -/
  accepted : List (ℤ × BatchOp n)
  /-- The Creates and the Modifies of the cycles of a task that was not ready. -/
  unready : List (BatchOp n)

inductive QuotingAct (n : ℕ) where
  | orderBook (msg : OrderBookMsg) (r : Reads n)
  | ticker (bestBid bestAsk : Option ℚ) (now : Instant)
  | disconnect
  /-- `maybe_quote` after the drain. -/
  | quote (r : Reads n)
  /-- Any other step of the live system. -/
  | other (a : Act n)

namespace Quoting

/-- The step of the live system that a message is, if it is more than ignored. -/
def bookAct (q : HotTask n × List (HotEffect n) × Bool) : Option (HotAct n) :=
  if q.2.1.contains .notifyReconnect then some (.resnapshot (q.2.1.contains .setMdNow))
  else if q.2.1.contains .setMdNow then some (.book q.2.2)
  else none

/-- The steps of the hot task that depend on its market data. -/
def readsMarket : Act n → Bool
  | .hot (.book _) | .hot (.resnapshot _) | .hot (.quote _) => true
  | _ => false

/-- The exit of `maybe_quote`; the events and the snapshot are already in the order manager. -/
def exit (cfg : HotConfig n) (w : Quoting n) (r : Reads n) : HotTask n × List (HotEffect n) × Decision n :=
  HotTask.chooseExit cfg { w.task with om := w.world.om } { r with events := [], snapshot := none }

/-- The orders that the exchange makes in a step, each with its Create in the batch of the sender. -/
def newOrders (w w' : World n) : List (ℤ × BatchOp n) :=
  ((w'.desk.venue.created.drop w.desk.venue.created.length).map (·.orderIndex)).zip
    (w.sender.unexecuted.filter (·.action = .create))

def start (sqrt : ℚ → ℚ) (p : Params) (cfg : HotConfig n) : Quoting n :=
  ⟨.start p n, .new sqrt cfg 0, [], [], []⟩

def step (sqrt : ℚ → ℚ) (p : Params) (cfg : HotConfig n) (w : Quoting n) : QuotingAct n → Option (Quoting n)
  | .orderBook msg r =>
    let q := w.task.receive sqrt cfg msg r
    match bookAct q, w.world.hot with
    | some a, _ => (w.world.hotStep a).map fun world => { w with world, task := q.1 }
    | none, .idle => some { w with task := q.1 }
    | none, _ => none
  | .ticker bestBid bestAsk now =>
    match w.world.hot with
    | .idle => some { w with task := w.task.onTicker bestBid bestAsk now }
    | _ => none
  | .disconnect => some { w with task := w.task.onDisconnect }
  | .quote r =>
    let e := w.exit cfg r
    let ops := w.world.om.emitted w.world.clock e.2.2
    let position := cfg.quotePosition w.task.mid r.position
    (w.world.hotStep (.quote e.2.2)).map fun world =>
      { w with
        world
        task := e.1
        emitted := w.emitted ++ ops.map fun op => (op, position)
        unready := if w.task.notReady cfg r.warmupClock then w.unready ++ ops.filter (·.action ≠ .cancel)
          else w.unready }
  | .other a =>
    if readsMarket a then none
    else (w.world.step p a).map fun world =>
      { w with world, accepted := w.accepted ++ newOrders w.world world }

/-- The exchange holds the order of a Create or a Modify as reduce-only: the order's Create was signed with
the flag. -/
def HeldReduceOnly (w : Quoting n) (op : BatchOp n) : Prop :=
  op.signedReduceOnly = some true ∨
    ∃ eid c, op.action = .modify ∧ op.exchangeId = some eid ∧ (eid, c) ∈ w.accepted ∧
      c.signedReduceOnly = some true

/-- Each order that was created or repriced while the task was not ready is reduce-only at the exchange. -/
def UnreadyReduceOnly (w : Quoting n) : Prop := ∀ op ∈ w.unready, w.HeldReduceOnly op

/-- The order was created in a cycle whose position it reduced. -/
def CreatedReducing (w : Quoting n) (eid : ℤ) : Prop :=
  ∃ c position, (eid, c) ∈ w.accepted ∧ (c, position) ∈ w.emitted ∧
    OrderManager.isReducingSide c.side position = true

/-- The cycle of a task that is not ready prices a slot whose order does not reduce: it creates one for a
position of just the tolerance, or it moves one that was not created to reduce a position. -/
def Exposes (cfg : HotConfig n) (w : Quoting n) : QuotingAct n → Prop
  | .quote r =>
    w.task.notReady cfg r.warmupClock = true ∧
      ∃ levels args side level price, (w.exit cfg r).2.2 = .ladder levels args ∧
        (side, level, some price) ∈ levelTargets n levels ∧
        w.world.om.Requotes args side level (some price) ∧
        match (w.world.om.slot side level).orderId with
        | none => OrderManager.isReducingSide side (cfg.quotePosition w.task.mid r.position) = false
        | some cid => ∀ eid, w.world.om.resolveExchangeId cid = some eid → ¬w.CreatedReducing eid
  | _ => False

variable {sqrt : ℚ → ℚ} {p : Params} {cfg : HotConfig n} {w w' : Quoting n}

/-! ## Provenance -/

/-- Every op on its way, and the Create of every order, is from a cycle; its flag is that of the position
of the cycle. -/
structure Inv (w : Quoting n) : Prop where
  batches : w.world.Batches fun ops => ∀ op ∈ ops, ∃ position, (op, position) ∈ w.emitted
  accepted : ∀ e ∈ w.accepted, e.2.action = .create ∧ ∃ position, (e.2, position) ∈ w.emitted
  flags : ∀ e ∈ w.emitted, e.1.action ≠ .cancel → e.1.reduceOnly = OrderManager.isReducingSide e.1.side e.2

theorem start_inv : (start sqrt p cfg).Inv :=
  ⟨World.start_batches (List.forall_mem_nil _), List.forall_mem_nil _, List.forall_mem_nil _⟩

theorem mem_newOrders {v v' : World n} {e : ℤ × BatchOp n} (h : e ∈ newOrders v v') :
    e.2 ∈ v.sender.unexecuted ∧ e.2.action = .create := by
  obtain ⟨hop, hc⟩ := List.mem_filter.mp (List.of_mem_zip h).2
  exact ⟨hop, of_decide_eq_true hc⟩

/-- What a ladder says about an op of its cycle. -/
theorem exit_places {r : Reads n} {op : BatchOp n}
    (hop : op ∈ w.world.om.emitted w.world.clock (w.exit cfg r).2.2) (ha : op.action ≠ .cancel) :
    ∃ levels args, (w.exit cfg r).2.2 = .ladder levels args ∧
      args.position = cfg.quotePosition w.task.mid r.position ∧
      (op.side, op.level, some op.price) ∈ levelTargets n levels ∧
      w.world.om.Requotes args op.side op.level (some op.price) ∧
      op.reduceOnly = OrderManager.isReducingSide op.side (cfg.quotePosition w.task.mid r.position) := by
  cases hbatch : (w.world.om.cycle w.world.clock (w.exit cfg r).2.2).2 with
  | none =>
    rw [OrderManager.emitted, hbatch] at hop
    cases hop
  | some ops =>
    rw [OrderManager.emitted, hbatch] at hop
    obtain ⟨levels, args, hd, hops⟩ := OrderManager.cycle_places hbatch hop ha
    have hposition : args.position = cfg.quotePosition w.task.mid r.position :=
      (HotTask.chooseExit_ladder hd).2.1
    rw [hops] at hop
    obtain ⟨hmem, hq⟩ := OrderManager.collectLoop_requotes hop ha
    have hflag := (OrderManager.collectLoop_priced hop ha).2
    rw [hposition] at hflag
    exact ⟨levels, args, hd, hposition, hmem, hq, hflag⟩

theorem Inv.step {a : QuotingAct n} (h : w.Inv) (hst : w.step sqrt p cfg a = some w') : w'.Inv := by
  have hnil : ∀ op ∈ ([] : List (BatchOp n)), ∃ position, (op, position) ∈ w.emitted := List.forall_mem_nil _
  cases a with
  | ticker bestBid bestAsk now =>
    simp only [Quoting.step] at hst
    split at hst <;> cases hst
    exact ⟨h.batches, h.accepted, h.flags⟩
  | disconnect =>
    cases hst
    exact ⟨h.batches, h.accepted, h.flags⟩
  | orderBook msg r =>
    simp only [Quoting.step] at hst
    split at hst
    · rename_i a _ ha
      obtain ⟨world, hworld, rfl⟩ := Option.map_eq_some_iff.mp hst
      refine ⟨h.batches.hotStep hnil (fun d hd => ?_) hworld, h.accepted, h.flags⟩
      rw [hd] at ha
      unfold bookAct at ha
      split at ha
      · cases ha
      · split at ha <;> cases ha
    · cases hst
      exact ⟨h.batches, h.accepted, h.flags⟩
    · cases hst
  | quote r =>
    obtain ⟨world, hworld, rfl⟩ := Option.map_eq_some_iff.mp hst
    have hmono : ∀ op, (∃ position, (op, position) ∈ w.emitted) → ∃ position, (op, position) ∈ w.emitted ++
        (w.world.om.emitted w.world.clock (w.exit cfg r).2.2).map
          fun op => (op, cfg.quotePosition w.task.mid r.position) := by
      rintro op ⟨position, hmem⟩
      exact ⟨position, List.mem_append_left _ hmem⟩
    refine ⟨?_, fun e he => ⟨(h.accepted e he).1, hmono _ (h.accepted e he).2⟩, fun e he ha => ?_⟩
    · refine World.Batches.hotStep (List.forall_mem_nil _)
        (h.batches.mono fun ops hops op hop => hmono op (hops op hop)) (fun d hd op hop => ?_) hworld
      cases hd
      exact ⟨_, List.mem_append_right _ (List.mem_map.mpr ⟨op, hop, rfl⟩)⟩
    · rcases List.mem_append.mp he with he | he
      · exact h.flags e he ha
      · obtain ⟨op, hop, rfl⟩ := List.mem_map.mp he
        obtain ⟨-, -, -, -, -, -, hflag⟩ := exit_places hop ha
        exact hflag
  | other a =>
    simp only [Quoting.step] at hst
    split at hst
    · cases hst
    · rename_i hreads
      obtain ⟨world, hworld, rfl⟩ := Option.map_eq_some_iff.mp hst
      refine ⟨h.batches.step hnil (fun d hd => ?_) hworld, fun e he => ?_, h.flags⟩
      · rw [hd] at hreads
        exact absurd rfl hreads
      · rcases List.mem_append.mp he with he | he
        · exact h.accepted e he
        · obtain ⟨hop, hc⟩ := mem_newOrders he
          exact ⟨hc, h.batches.sender _ hop⟩

/-! ## Orders and their flags -/

theorem HeldReduceOnly.mono {op : BatchOp n} (h : w.HeldReduceOnly op) (hacc : w.accepted ⊆ w'.accepted) :
    w'.HeldReduceOnly op := by
  rcases h with h | ⟨eid, c, ha, heid, hc, hflag⟩
  · exact .inl h
  · exact .inr ⟨eid, c, ha, heid, hacc hc, hflag⟩

/-- The order of a Modify is reduce-only at the exchange if it was created to reduce. -/
theorem Inv.held_iff (h : w.Inv) (eid : ℤ) :
    (∃ c, (eid, c) ∈ w.accepted ∧ c.signedReduceOnly = some true) ↔ w.CreatedReducing eid := by
  constructor
  · rintro ⟨c, hc, hflag⟩
    obtain ⟨ha, position, hmem⟩ := h.accepted _ hc
    refine ⟨c, position, hc, hmem, ?_⟩
    rw [← h.flags _ hmem (by rw [show c.action = .create from ha]; decide)]
    rw [BatchOp.signedReduceOnly, if_pos (show c.action = .create from ha)] at hflag
    exact Option.some.inj hflag
  · rintro ⟨c, position, hc, hmem, hreducing⟩
    obtain ⟨ha, -⟩ := h.accepted _ hc
    refine ⟨c, hc, ?_⟩
    rw [BatchOp.signedReduceOnly, if_pos (show c.action = .create from ha),
      h.flags _ hmem (by rw [show c.action = .create from ha]; decide)]
    exact congrArg some hreducing

/-- **An op of a cycle and its order**: a Create is reduce-only if the position makes it so, a Modify if its
order was created to reduce. -/
theorem Inv.op_held_iff (h : w.Inv) {d : Decision n} {op : BatchOp n} {position : ℚ}
    (hop : op ∈ w.world.om.emitted w.world.clock d) (ha : op.action ≠ .cancel)
    (hflag : op.reduceOnly = OrderManager.isReducingSide op.side position) :
    ¬w.HeldReduceOnly op ↔
      match (w.world.om.slot op.side op.level).orderId with
      | none => OrderManager.isReducingSide op.side position = false
      | some cid => ∀ eid, w.world.om.resolveExchangeId cid = some eid → ¬w.CreatedReducing eid := by
  have hfits : w.world.om.Fits op := (OrderManager.cycle_emitted _ _ d).1 op hop
  cases hact : op.action with
  | cancel => exact absurd hact ha
  | create =>
    rw [(hfits.create hact).1]
    unfold HeldReduceOnly BatchOp.signedReduceOnly
    simp [hact, hflag]
  | modify =>
    obtain ⟨hid, eid, hres, heid⟩ := hfits.tracked (by rw [hact]; decide)
    rw [hid]
    have hheld : w.HeldReduceOnly op ↔ w.CreatedReducing eid := by
      rw [← h.held_iff]
      unfold HeldReduceOnly
      rw [BatchOp.signedReduceOnly, if_neg (by rw [hact]; decide)]
      constructor
      · rintro (hno | ⟨eid', c, -, heid', hc⟩)
        · cases hno
        · rw [heid] at heid'
          cases heid'
          exact ⟨c, hc⟩
      · rintro ⟨c, hc⟩
        exact .inr ⟨eid, c, hact, heid, hc⟩
    rw [hheld]
    simp only [hres, Option.some.injEq, forall_eq']

/-- A step goes wrong exactly where a cycle prices an order that does not reduce. -/
theorem Inv.unready_step_iff {a : QuotingAct n} (h : w.Inv) (hgood : w.UnreadyReduceOnly)
    (hst : w.step sqrt p cfg a = some w') : ¬w'.UnreadyReduceOnly ↔ w.Exposes cfg a := by
  have hsame : w'.unready = w.unready → w.accepted ⊆ w'.accepted → w'.UnreadyReduceOnly := by
    intro hun hacc op hop
    rw [hun] at hop
    exact (hgood op hop).mono hacc
  cases a with
  | ticker bestBid bestAsk now =>
    simp only [Quoting.step] at hst
    split at hst <;> cases hst
    exact iff_of_false (not_not.mpr (hsame rfl (List.Subset.refl _))) id
  | disconnect =>
    cases hst
    exact iff_of_false (not_not.mpr (hsame rfl (List.Subset.refl _))) id
  | orderBook msg r =>
    simp only [Quoting.step] at hst
    split at hst
    · obtain ⟨world, -, rfl⟩ := Option.map_eq_some_iff.mp hst
      exact iff_of_false (not_not.mpr (hsame rfl (List.Subset.refl _))) id
    · cases hst
      exact iff_of_false (not_not.mpr (hsame rfl (List.Subset.refl _))) id
    · cases hst
  | other a =>
    simp only [Quoting.step] at hst
    split at hst
    · cases hst
    · obtain ⟨world, -, rfl⟩ := Option.map_eq_some_iff.mp hst
      exact iff_of_false (not_not.mpr (hsame rfl (List.subset_append_left _ _))) id
  | quote r =>
    obtain ⟨world, -, rfl⟩ := Option.map_eq_some_iff.mp hst
    by_cases hready : w.task.notReady cfg r.warmupClock = true
    · have hun : ∀ op, op ∈ (if w.task.notReady cfg r.warmupClock then w.unready ++
          (w.world.om.emitted w.world.clock (w.exit cfg r).2.2).filter (·.action ≠ .cancel) else w.unready) ↔
          op ∈ w.unready ∨ op ∈ w.world.om.emitted w.world.clock (w.exit cfg r).2.2 ∧ op.action ≠ .cancel := by
        intro op
        rw [if_pos hready, List.mem_append, List.mem_filter, decide_eq_true_iff]
      constructor
      · intro hbad
        unfold UnreadyReduceOnly at hbad
        push Not at hbad
        obtain ⟨op, hop, hheld⟩ := hbad
        rcases (hun op).mp hop with hop | ⟨hop, ha⟩
        · exact absurd (hgood op hop) hheld
        · obtain ⟨levels, args, hd, -, hmem, hq, hflag⟩ := exit_places hop ha
          exact ⟨hready, levels, args, op.side, op.level, op.price, hd, hmem, hq,
            (h.op_held_iff hop ha hflag).mp hheld⟩
      · rintro ⟨-, levels, args, side, level, price, hd, hmem, hq, hexposed⟩ hgood'
        obtain ⟨op, hop, hkey, ha⟩ := OrderManager.collectLoop_places hmem hq
        have hemitted : op ∈ w.world.om.emitted w.world.clock (w.exit cfg r).2.2 := by
          rw [hd, OrderManager.emitted_ladder]
          exact hop
        obtain ⟨-, -, -, -, -, -, hflag⟩ := exit_places hemitted ha
        cases hkey
        exact (h.op_held_iff hemitted ha hflag).mpr hexposed (hgood' op ((hun op).mpr (.inr ⟨hemitted, ha⟩)))
    · refine iff_of_false (not_not.mpr (hsame ?_ (List.Subset.refl _))) fun hex => hready hex.1
      simp only [hready, Bool.false_eq_true, if_false]

/-- **Not-ready quoting and reduce-only.** In a run of the live system in live mode, each order that the
hot task created or repriced while it was not ready is reduce-only at the exchange, at all times, if and
only if in each cycle of a task that is not ready the order that it prices reduces: a new one reduces the
position, and one that it moves was created to reduce the position of that time. -/
theorem unready_reduce_only_iff (sqrt : ℚ → ℚ) (p : Params) (cfg : HotConfig n) (as : List (QuotingAct n))
    (w : Quoting n) (h : Trans.run (step sqrt p cfg) (start sqrt p cfg) as = some w) :
    (∀ t, Trans.Visits (step sqrt p cfg) (start sqrt p cfg) as t → t.UnreadyReduceOnly) ↔
      ∀ t a, Trans.Takes (step sqrt p cfg) (start sqrt p cfg) as t a → ¬t.Exposes cfg a := by
  have hiff := Trans.run_good_iff (I := Inv) (B := fun w => ¬w.UnreadyReduceOnly) (T := Exposes cfg)
    start_inv (not_not.mpr (List.forall_mem_nil _)) (fun s a s' hs hst => hs.step hst)
    (fun s a s' hinv hs hst => hinv.unready_step_iff (not_not.mp hs) hst) h
  simpa only [not_not] using hiff

/-- What an account with `position` reads at second `now`. -/
def readsAt (now : ℕ) (position : ℚ) : Reads 1 := { HotTask.flatReads now [] with position }

/-- A cycle of the hot task, `dt` after the last step, with `events` events in the queue. -/
def cycleActs (dt : ℚ) (events : ℕ) (r : Reads 1) : List (QuotingAct 1) :=
  [.other (.env (.tick dt)), .orderBook HotTask.bookSnapshot r] ++
    List.replicate events (.other (.hot .drain)) ++
    [.other (.hot .drained), .other (.hot .reconcile), .quote r, .other (.hot .send)]

/-- The engine warms up, and a flat account's ladder is created and accepted. -/
def acceptedLadder : List (QuotingAct 1) :=
  cycleActs 1 0 (readsAt 1 0) ++ cycleActs 1 0 (readsAt 2 0) ++
    (World.takeActs ++ World.writeActs ++ World.acceptedActs).map .other

theorem unready_reduce_only_iff_flat :
    ∃ w, Trans.run (step id .shipped HotTask.quickConfig) (start id .shipped HotTask.quickConfig)
        acceptedLadder = some w ∧
      ((∀ t, Trans.Visits (step id .shipped HotTask.quickConfig) (start id .shipped HotTask.quickConfig)
          acceptedLadder t → t.UnreadyReduceOnly) ↔
        ∀ t a, Trans.Takes (step id .shipped HotTask.quickConfig) (start id .shipped HotTask.quickConfig)
          acceptedLadder t a → ¬t.Exposes HotTask.quickConfig a) := by
  obtain ⟨w, hw, -⟩ := Option.map_eq_some_iff.mp
    (show (Trans.run (step id .shipped HotTask.quickConfig) (start id .shipped HotTask.quickConfig)
      acceptedLadder).map (fun w => decide (w.accepted.length = 2)) = some true by decide +kernel)
  exact ⟨w, hw, unready_reduce_only_iff id .shipped HotTask.quickConfig acceptedLadder w hw⟩

/-- The bid of the ladder is filled in part, the stream disconnects, and the engine warms up again. -/
def repricedAsk : List (QuotingAct 1) :=
  acceptedLadder ++ [.other (.env (.idResolved 2000000001 2)), .other (.env (.fill 2000000000 1))] ++
    cycleActs 1 4 (readsAt 3 1) ++ [.disconnect] ++ cycleActs 7 0 (readsAt 10 1)

/-- **An order that can open a position**: the ask of a flat account's ladder, created without the flag, is
moved as the exit of a position. -/
theorem repriced_ask_not_reduce_only :
    ¬ ∀ w : Quoting 1, Trans.Reach (step id .shipped HotTask.quickConfig)
      (start id .shipped HotTask.quickConfig) w → w.UnreadyReduceOnly := by
  intro hall
  obtain ⟨w, hw, h⟩ := Option.map_eq_some_iff.mp
    (show (Trans.run (step id .shipped HotTask.quickConfig) (start id .shipped HotTask.quickConfig)
      repricedAsk).map (fun w => decide (w.unready.map (·.action) = [.modify] ∧
        ∀ e ∈ w.accepted, e.2.reduceOnly = false)) = some true by decide +kernel)
  obtain ⟨hmodify, hflags⟩ := of_decide_eq_true h
  obtain ⟨op, hop, hact⟩ := List.map_eq_singleton_iff.mp hmodify
  have hheld : w.HeldReduceOnly op :=
    hall w (Trans.reach_iff_run.mpr ⟨_, hw⟩) op (hop ▸ List.mem_singleton_self op)
  rcases hheld with hflag | ⟨eid, c, -, -, hc, hflag⟩
  · rw [BatchOp.signedReduceOnly, hact] at hflag
    cases hflag
  · rw [BatchOp.signedReduceOnly, hflags _ hc] at hflag
    split at hflag <;> cases hflag

end Quoting

end LighterMM
