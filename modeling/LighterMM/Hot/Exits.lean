import LighterMM.Hot.HotTask
import LighterMM.Lib.Trans

/-!
# The exits of `maybe_quote`

Every exit is a cycle of `Hot/Cycle`: `chooseExit` picks the decision (`chooseExit_spec`), and in live
mode `maybeQuote` leaves the order manager and sends the batch as `OrderManager.cycle` says
(`maybeQuote_live`).

The gate and the ladder cancel every order that the ladder has no price for; the exit of a task that
is not ready and flat cancels nothing (`cancels_unpriced_iff`).
-/

namespace LighterMM

variable {n : ℕ}

namespace OrderManager

variable {om : OrderManager n}

/-- A slot that tracks an order with a resolved exchange id and is not Canceling yet. -/
def Cancelable (om : OrderManager n) (side : Side) (level : Fin n) (cid eid : ℤ) : Prop :=
  (om.slot side level).status ≠ .canceling ∧ (om.slot side level).orderId = some cid ∧
    om.resolveExchangeId cid = some eid

instance (om : OrderManager n) (side : Side) (level : Fin n) (cid eid : ℤ) :
    Decidable (om.Cancelable side level cid eid) :=
  inferInstanceAs (Decidable (_ ∧ _ ∧ _))

/-- The gate cancels every such slot. -/
theorem Cancelable.mem_collectCancelOps {side : Side} {level : Fin n} {cid eid : ℤ}
    (h : om.Cancelable side level cid eid) : BatchOp.cancelOp side level cid eid ∈ om.collectCancelOps :=
  OrderManager.mem_collectCancelOps.mpr (cancelFor_eq_some.mpr ⟨h.1, cid, eid, h.2.1, h.2.2, rfl⟩)

/-- Without a hold the collection cancels a slot that the ladder gives no price. -/
theorem collectLoop_cancels {args : CollectArgs} (hhold : args.holdMutations = false) {side : Side}
    {level : Fin n} {cid eid : ℤ} (hcid : (om.slot side level).orderId = some cid)
    (heid : om.resolveExchangeId cid = some eid) {ts : List (Side × Fin n × Option ℚ)}
    (hts : (side, level, none) ∈ ts) : BatchOp.cancelOp side level cid eid ∈ (collectLoop args ts om).2 := by
  induction ts generalizing om with
  | nil => cases hts
  | cons t ts ih =>
    obtain ⟨sd, l, price⟩ := t
    simp only [collectLoop, List.mem_append, Option.mem_toList]
    rcases List.mem_cons.mp hts with heq | hts
    · left
      cases heq
      simp [collectSlot, hhold, hcid, heid]
    · right
      -- the iterations before leave the slots and the mappings
      obtain ⟨hs, hm⟩ : (om.collectSlot args sd l price).1.slots = om.slots ∧
          (om.collectSlot args sd l price).1.clientToExchange = om.clientToExchange := by
        rcases om.collectSlot_cases sd l args price with
          h | ⟨op, h, -⟩ | ⟨op, h, -⟩ <;> rw [h] <;> exact ⟨rfl, rfl⟩
      refine ih ?_ ?_ hts
      · rw [slot, hs]
        exact hcid
      · rw [resolveExchangeId, hm]
        exact heid

end OrderManager

namespace Decision

/-- The price that the ladder of a cycle gives to a slot. -/
def price : Decision n → Side → Fin n → Option ℚ
  | .ladder levels _, .buy, level => (levels[level.val]?).bind (·.1)
  | .ladder levels _, .sell, level => (levels[level.val]?).bind (·.2)
  | _, _, _ => none

theorem mem_levelTargets {levels : List Level} (args : CollectArgs) (hlen : levels.length = n)
    (side : Side) (level : Fin n) :
    (side, level, (Decision.ladder levels args).price side level) ∈ levelTargets n levels := by
  have hlt : level.val < levels.length := hlen ▸ level.isLt
  have hget : levels[level.val]? = some levels[level.val] := List.getElem?_eq_getElem hlt
  refine mem_levelTargets_iff.mpr ⟨levels[level.val], hget, ?_⟩
  cases side <;> simp [price, hget, Level.on]

end Decision

namespace HotTask

variable {cfg : HotConfig n} {t : HotTask n} {r : Reads n}

/-! ## The decision -/

/-- The hold writes only its own two fields. -/
theorem hold_eq (cfg : HotConfig n) (t : HotTask n) (position : ℚ) (now : Instant) :
    ∃ seen til, (t.holdQuotesForPositionReconcile cfg position now).1 =
      { t with lastSeenPosition := seen, positionHoldUntil := til } := by
  unfold holdQuotesForPositionReconcile
  split
  · exact ⟨t.lastSeenPosition, t.positionHoldUntil, rfl⟩
  · simp only
    split
    · split <;> exact ⟨_, _, rfl⟩
    · exact ⟨_, _, rfl⟩

theorem hold_effects (cfg : HotConfig n) (t : HotTask n) (position : ℚ) (now : Instant) :
    ∀ e ∈ (t.holdQuotesForPositionReconcile cfg position now).2.1, e = .notifyReconcile := by
  have hes : ∀ b : Bool, ∀ e ∈ (if b then [HotEffect.notifyReconcile (n := n)] else []),
      e = .notifyReconcile := by
    intro b e he
    cases b with
    | true => exact List.mem_singleton.mp he
    | false => cases he
  unfold holdQuotesForPositionReconcile
  split
  · exact fun e he => nomatch he
  · simp only
    split
    · split <;> exact hes _
    · exact hes _

theorem hold_congr (cfg : HotConfig n) {t t' : HotTask n} (position : ℚ) (now : Instant)
    (hp : t'.lastSeenPosition = t.lastSeenPosition) (hu : t'.positionHoldUntil = t.positionHoldUntil) :
    (t'.holdQuotesForPositionReconcile cfg position now).2.2 =
      (t.holdQuotesForPositionReconcile cfg position now).2.2 := by
  unfold holdQuotesForPositionReconcile
  rw [hp, hu]
  split
  · rfl
  · simp only
    split
    · split <;> rfl
    · rfl

/-- Not ready and flat, behind an open gate. -/
def FlatExit (cfg : HotConfig n) (t : HotTask n) (r : Reads n) : Prop :=
  cfg.gated r = false ∧ t.notReady cfg r.warmupClock = true ∧
    |cfg.quotePosition t.mid r.position| < epsilon

/-- What the decision is: the gate, the flat exit, or a ladder with a pair of prices for each level
and the flag of the hold. -/
inductive ExitSpec (cfg : HotConfig n) (t : HotTask n) (r : Reads n) : Decision n → Prop
  | gated (h : cfg.gated r = true) : ExitSpec cfg t r .gated
  | flat (h : FlatExit cfg t r) : ExitSpec cfg t r .flat
  | ladder (levels : List Level) (args : CollectArgs) (h : ¬FlatExit cfg t r) (hlen : levels.length = n)
      (hhold : args.holdMutations = (t.holdQuotesForPositionReconcile cfg r.position r.now).2.2) :
      ExitSpec cfg t r (.ladder levels args)

/-- The decision reads the mid, the readiness and the hold of the task. -/
theorem ExitSpec.congr {t' : HotTask n} {d : Decision n} (h : ExitSpec cfg t' r d) (hmid : t'.mid = t.mid)
    (hready : t'.notReady cfg r.warmupClock = t.notReady cfg r.warmupClock)
    (hp : t'.lastSeenPosition = t.lastSeenPosition) (hu : t'.positionHoldUntil = t.positionHoldUntil) :
    ExitSpec cfg t r d := by
  have hflat : FlatExit cfg t' r ↔ FlatExit cfg t r := by
    unfold FlatExit
    rw [hmid, hready]
  cases h with
  | gated h => exact .gated h
  | flat h => exact .flat (hflat.mp h)
  | ladder levels args h hlen hhold =>
    exact .ladder levels args (fun hf => h (hflat.mpr hf)) hlen
      (hhold.trans (hold_congr cfg r.position r.now hp hu))

theorem quoteDecision_spec (t : HotTask n) (position orderSize : ℚ) (hold : Bool) :
    (t.notReady cfg r.warmupClock = true ∧ |position| < epsilon ∧
      t.quoteDecision cfg r position orderSize hold = .flat) ∨
    ¬(t.notReady cfg r.warmupClock = true ∧ |position| < epsilon) ∧
      ∃ levels args, t.quoteDecision cfg r position orderSize hold = .ladder levels args ∧
        levels.length = n ∧ args.holdMutations = hold := by
  unfold quoteDecision
  by_cases hnr : t.notReady cfg r.warmupClock = true
  · by_cases hpos : epsilon ≤ |position|
    · refine .inr ⟨fun h => absurd h.2 (not_lt.mpr hpos), _, _, by simp only [hnr, hpos, if_true]; rfl, ?_, rfl⟩
      exact fallbackReduceOnly_length _ _ _ _ _
    · exact .inl ⟨hnr, not_le.mp hpos, by simp only [hnr, hpos, if_true, if_false]⟩
  · refine .inr ⟨fun h => absurd h.1 hnr, _, _, by simp only [hnr]; rfl, ?_, rfl⟩
    unfold normalLevels
    rw [applyInventoryExitBias_length, applyQualitySpreadMultiplier_length,
      buildQuoteLevels_length cfg.levels_pos]

theorem openGate_eq (cfg : HotConfig n) (t : HotTask n) (r : Reads n) :
    ∃ calculator maxPosUsd seen til, (t.openGate cfg r).1 =
      { t with calculator, maxPosUsd, lastSeenPosition := seen, positionHoldUntil := til } := by
  obtain ⟨seen, til, hhold⟩ := hold_eq cfg t r.position r.now
  exact ⟨_, _, seen, til, by rw [openGate, hhold]⟩

theorem openGate_notReady (clock : Instant) :
    (t.openGate cfg r).1.notReady cfg clock = t.notReady cfg clock := by
  obtain ⟨seen, til, hhold⟩ := hold_eq cfg t r.position r.now
  simp only [notReady, openGate, VolObiCalculator.setMaxPositionDollar_warmedUp, hhold]

theorem openGate_spec (hgate : cfg.gated r = false) : ExitSpec cfg t r (t.openGate cfg r).2.2 := by
  have hready : (t.openGate cfg r).1.notReady cfg r.warmupClock = t.notReady cfg r.warmupClock :=
    openGate_notReady r.warmupClock
  have hexit : (t.openGate cfg r).2.2 = (t.openGate cfg r).1.quoteDecision cfg r
      (cfg.quotePosition t.mid r.position) (cfg.orderSize t.mid r.capital)
      (t.holdQuotesForPositionReconcile cfg r.position r.now).2.2 := rfl
  rw [hexit]
  rcases quoteDecision_spec (t.openGate cfg r).1 (cfg.quotePosition t.mid r.position)
      (cfg.orderSize t.mid r.capital) (t.holdQuotesForPositionReconcile cfg r.position r.now).2.2 with
    ⟨hnr, hflat, hd⟩ | ⟨hno, levels, args, hd, hlen, hhold⟩
  · rw [hd]
    exact .flat ⟨hgate, hready ▸ hnr, hflat⟩
  · rw [hd]
    exact .ladder levels args (fun h => hno ⟨hready.trans h.2.1, h.2.2⟩) hlen hhold

/-- The ways through `chooseExit`. -/
inductive ExitCase (cfg : HotConfig n) (t : HotTask n) (r : Reads n) :
    HotTask n × List (HotEffect n) × Decision n → Prop
  | throttled (hthrottle : t.throttled cfg r.now = true) :
    ExitCase cfg t r ({ t with om := t.drainedOm r }, [], .throttled)
  | gated (hthrottle : t.throttled cfg r.now = false) (hgate : cfg.gated r = true) :
    ExitCase cfg t r
      ({ t with
          om := t.drainedOm r
          lastQuote := some r.now
          calculator := t.calculator.setAlphaOverride r.usableAlpha },
        [], .gated)
  | opened (hthrottle : t.throttled cfg r.now = false) (hgate : cfg.gated r = false) :
    ExitCase cfg t r
      (({ t with
          om := t.drainedOm r
          lastQuote := some r.now
          calculator := t.calculator.setAlphaOverride r.usableAlpha } : HotTask n).openGate cfg r)

theorem chooseExit_cases (cfg : HotConfig n) (t : HotTask n) (r : Reads n) :
    ExitCase cfg t r (t.chooseExit cfg r) := by
  unfold chooseExit
  simp only
  split
  · rename_i hthrottle
    exact .throttled hthrottle
  · rename_i hthrottle
    have hready : t.throttled cfg r.now = false := Bool.eq_false_iff.mpr hthrottle
    split
    · rename_i hgate
      exact .gated hready hgate
    · rename_i hgate
      exact .opened hready (Bool.eq_false_iff.mpr hgate)

/-- The first half drains the order manager, and writes only the fields of the throttle, the engine, the
position limit and the hold besides. -/
theorem chooseExit_eq (cfg : HotConfig n) (t : HotTask n) (r : Reads n) :
    ∃ lastQuote calculator maxPosUsd seen til, (t.chooseExit cfg r).1 =
      { t with
          om := t.drainedOm r
          lastQuote, calculator, maxPosUsd
          lastSeenPosition := seen
          positionHoldUntil := til } := by
  have hcases := t.chooseExit_cases cfg r
  generalize t.chooseExit cfg r = q at hcases ⊢
  cases hcases with
  | throttled | gated => exact ⟨_, _, _, _, _, rfl⟩
  | opened =>
    obtain ⟨calculator, maxPosUsd, seen, til, hopen⟩ := openGate_eq cfg
      { t with om := t.drainedOm r, lastQuote := some r.now
               calculator := t.calculator.setAlphaOverride r.usableAlpha } r
    exact ⟨_, _, _, _, _, hopen⟩

theorem chooseExit_om (cfg : HotConfig n) (t : HotTask n) (r : Reads n) :
    (t.chooseExit cfg r).1.om = t.drainedOm r := by
  obtain ⟨lastQuote, calculator, maxPosUsd, seen, til, hexit⟩ := chooseExit_eq cfg t r
  rw [hexit]

theorem chooseExit_effects (cfg : HotConfig n) (t : HotTask n) (r : Reads n) :
    ∀ e ∈ (t.chooseExit cfg r).2.1, e = .notifyReconcile := by
  have hcases := t.chooseExit_cases cfg r
  generalize t.chooseExit cfg r = q at hcases ⊢
  cases hcases with
  | throttled | gated => exact fun e he => absurd he List.not_mem_nil
  | opened => exact hold_effects cfg _ r.position r.now

theorem chooseExit_spec (h : t.throttled cfg r.now = false) :
    ExitSpec cfg t r (t.chooseExit cfg r).2.2 := by
  have hcases := t.chooseExit_cases cfg r
  generalize t.chooseExit cfg r = q at hcases ⊢
  cases hcases with
  | throttled hthrottle =>
    rw [h] at hthrottle
    cases hthrottle
  | gated _ hgate => exact .gated hgate
  | opened _ hgate =>
    refine (openGate_spec hgate).congr rfl ?_ rfl rfl
    simp only [notReady, VolObiCalculator.setAlphaOverride_warmedUp]

/-! ## One input -/

/-- What the first half leaves and `maybe_quote` keeps holds after a message. -/
theorem onOrderbook_keeps {P : HotTask n → Prop} {sqrt : ℚ → ℚ} {msg : OrderBookMsg}
    (h : P (t.receive sqrt cfg msg r).1) (hquote : ∀ u, P u → P (u.maybeQuote cfg r).1) :
    P (t.onOrderbook sqrt cfg msg r).1 := by
  unfold onOrderbook
  simp only
  split
  · exact hquote _ h
  · exact h

theorem onTicker_eq (t : HotTask n) (bestBid bestAsk : Option ℚ) (now : Instant) :
    ∃ bbo, t.onTicker bestBid bestAsk now = { t with tickerBbo := bbo } := by
  unfold onTicker
  split
  · split
    · exact ⟨_, rfl⟩
    · exact ⟨t.tickerBbo, rfl⟩
  · exact ⟨t.tickerBbo, rfl⟩

/-! ## What the cycle sends -/

theorem publishTracked_om (t : HotTask n) : t.publishTracked.1.om = t.om ∧
    ∀ ops, HotEffect.sendOps ops ∉ t.publishTracked.2 := by
  unfold publishTracked
  split
  · exact ⟨rfl, fun ops h => nomatch h⟩
  · exact ⟨rfl, fun ops h => nomatch List.mem_singleton.mp h⟩

theorem publishTracked_eq (t : HotTask n) : ∃ ids, t.publishTracked.1 = { t with lastTracked := ids } := by
  unfold publishTracked
  split <;> exact ⟨_, rfl⟩

/-- `maybe_quote` leaves the book, the clock of the warm-up and what the stream has told. -/
theorem maybeQuote_eq (cfg : HotConfig n) (t : HotTask n) (r : Reads n) :
    ∃ om lastTracked lastQuote calculator maxPosUsd seen til, (t.maybeQuote cfg r).1 =
      { t with
          om, lastTracked, lastQuote, calculator, maxPosUsd
          lastSeenPosition := seen
          positionHoldUntil := til } := by
  obtain ⟨lastQuote, calculator, maxPosUsd, seen, til, hexit⟩ := chooseExit_eq cfg t r
  unfold maybeQuote
  simp only [hexit]
  generalize (t.chooseExit cfg r).2.2 = d
  cases d with
  | throttled | gated | flat => exact ⟨_, _, _, _, _, _, _, rfl⟩
  | ladder levels args =>
    obtain ⟨ids, hpublish⟩ := publishTracked_eq
      { t with om := ((t.drainedOm r).cycle r.now (.ladder levels args)).1
               lastQuote, calculator, maxPosUsd
               lastSeenPosition := seen
               positionHoldUntil := til }
    simp only [hpublish]
    cases cfg.mode <;> exact ⟨_, _, _, _, _, _, _, rfl⟩

/-- **In live mode `maybe_quote` is a cycle** of the drained order manager: its slots, and the batch
that it sends. -/
theorem maybeQuote_live (hlive : cfg.mode = .live) :
    (t.maybeQuote cfg r).1.om = ((t.drainedOm r).cycle r.now (t.chooseExit cfg r).2.2).1 ∧
    ∀ ops, HotEffect.sendOps ops ∈ (t.maybeQuote cfg r).2 ↔
      ((t.drainedOm r).cycle r.now (t.chooseExit cfg r).2.2).2 = some ops := by
  have hom := chooseExit_om cfg t r
  have hes := chooseExit_effects cfg t r
  have hsend : ∀ (batch : Option (List (BatchOp n))) ops,
      HotEffect.sendOps ops ∈ (batch.map HotEffect.sendOps).toList ↔ batch = some ops := by
    intro batch ops
    cases batch <;> simp [eq_comm]
  have hno : ∀ ops, HotEffect.sendOps ops ∉ (t.chooseExit cfg r).2.1 :=
    fun ops h => nomatch hes _ h
  unfold maybeQuote
  simp only [hom]
  generalize (t.chooseExit cfg r).2.2 = d
  have hquiet : ∀ (batch : Option (List (BatchOp n))) ops,
      HotEffect.sendOps ops ∈ (t.chooseExit cfg r).2.1 ++ (batch.map HotEffect.sendOps).toList ↔
        batch = some ops := by
    intro batch ops
    rw [List.mem_append, hsend]
    exact or_iff_right (hno ops)
  cases d with
  | throttled => exact ⟨rfl, hquiet _⟩
  | gated => exact ⟨rfl, hquiet _⟩
  | flat => exact ⟨rfl, hquiet _⟩
  | ladder levels args =>
    simp only [hlive]
    refine ⟨(publishTracked_om _).1, fun ops => ?_⟩
    rw [List.mem_append, List.mem_append, hsend]
    refine or_iff_right (fun h => ?_)
    rcases h with h | h
    · exact hno ops h
    · exact (publishTracked_om _).2 ops h

/-! ## Unmanaged orders -/

/-- Each order that could be cancelled and whose slot the ladder gives no price gets a Cancel in the batch
of the cycle. -/
def CancelsUnpriced (cfg : HotConfig n) (t : HotTask n) (r : Reads n) : Prop :=
  ∀ side level cid eid, (t.drainedOm r).Cancelable side level cid eid →
    (t.chooseExit cfg r).2.2.price side level = none →
    ∃ ops, HotEffect.sendOps ops ∈ (t.maybeQuote cfg r).2 ∧ BatchOp.cancelOp side level cid eid ∈ ops

/-- **No unmanaged ladder**, but for the flat exit: a call that passes the throttle without a hold
cancels every order that its ladder has no price for if and only if it does not leave through the
flat exit, or there is no such order. -/
theorem cancels_unpriced_iff (hlive : cfg.mode = .live) (hthrottle : t.throttled cfg r.now = false)
    (hhold : (t.holdQuotesForPositionReconcile cfg r.position r.now).2.2 = false) :
    CancelsUnpriced cfg t r ↔
      ¬FlatExit cfg t r ∨ ∀ side level cid eid, ¬(t.drainedOm r).Cancelable side level cid eid := by
  obtain ⟨-, hsend⟩ := maybeQuote_live (t := t) (r := r) hlive
  unfold CancelsUnpriced
  simp only [hsend]
  have hspec := chooseExit_spec hthrottle
  generalize (t.chooseExit cfg r).2.2 = d at hspec
  cases hspec with
  | gated hgate =>
    refine iff_of_true ?_ (.inl fun hf => ?_)
    · intro side level cid eid hc _
      exact ⟨_, rfl, hc.mem_collectCancelOps⟩
    · rw [hf.1] at hgate
      cases hgate
  | flat hflat =>
    constructor
    · refine fun h => .inr fun side level cid eid hc => ?_
      obtain ⟨ops, hops, hmem⟩ := h side level cid eid hc rfl
      cases hops
      cases hmem
    · rintro (hno | hnone)
      · exact absurd hflat hno
      · exact fun side level cid eid hc => absurd hc (hnone side level cid eid)
  | ladder levels args hno hlen hargs =>
    refine iff_of_true ?_ (.inl hno)
    intro side level cid eid hc hprice
    have hts := Decision.mem_levelTargets args hlen side level
    rw [hprice] at hts
    have hmem : BatchOp.cancelOp side level cid eid ∈ ((t.drainedOm r).ladderCycle r.now levels args).2 :=
      OrderManager.collectLoop_cancels (hargs.trans hhold) hc.2.1 hc.2.2 hts
    refine ⟨_, ?_, hmem⟩
    simp only [OrderManager.cycle]
    exact if_neg (List.ne_nil_of_mem hmem)

/-- One level with the values of `config.json`, but for a warm-up of one sample. With these values the
runs below take the square root of `0` and of `1` only, where `id` agrees with it. -/
def quickConfig : HotConfig 1 where
  levels_pos := Nat.one_pos
  market := ⟨1, 1 / 10, 1 / 100000, 1 / 5000, 10⟩
  mode := .live
  leverage := 2
  baseAmount := 1 / 5000
  capitalUsagePercent := 15 / 100
  minOrderValueUsd := 29 / 2
  positionValueThresholdUsd := 11
  spreadFactorLevel1 := 2
  defaultQuoteUpdateThresholdBps := 8
  adverseThresholdBps := 2
  invBias := ⟨true, 1 / 20, 9 / 20, 3 / 4, 7 / 20, 13 / 20, 3 / 100⟩
  volObi := ⟨6000, 1000000000, 60, 4, 40, 0, 1 / 10, 1 / 40, 1⟩
  warmupSeconds := 0
  minLoopInterval := 1 / 10
  positionChangeHoldSec := 3
  bookSanityDivergenceBps := 50

/-- What a flat account reads at second `now`. -/
def flatReads (now : ℕ) (events : List (OrderEvent 1)) : Reads 1 where
  now := now
  sampleNs := now * 1000000000
  nowNs := now * 1000000000
  warmupClock := now
  events := events
  snapshot := none
  usableAlpha := none
  gateCapital := 1000
  capital := 1000
  positionSeen := true
  position := 0
  quota := none

/-- A snapshot with a bid at `99` and an ask at `101`. -/
def bookSnapshot : OrderBookMsg := ⟨true, none, none, none, ⟨[⟨99, 1⟩], [⟨101, 1⟩], none, none, none⟩⟩

/-- The engine warms up, a ladder is created and its bid is confirmed. -/
def restingLadder : List (HotInput 1) :=
  [.orderBook bookSnapshot (flatReads 1 []), .orderBook bookSnapshot (flatReads 2 []),
    .orderBook bookSnapshot (flatReads 3 [.bindLive .buy 0 2000000000 (some 1) 98 1])]

instance (cfg : HotConfig n) (t : HotTask n) (r : Reads n) : Decidable (FlatExit cfg t r) :=
  inferInstanceAs (Decidable (_ ∧ _ ∧ _))

/-- `maybe_quote` runs past the throttle and without a hold. -/
def Quotes (cfg : HotConfig n) (t : HotTask n) (r : Reads n) : Prop :=
  t.throttled cfg r.now = false ∧ (t.holdQuotesForPositionReconcile cfg r.position r.now).2.2 = false

instance (cfg : HotConfig n) (t : HotTask n) (r : Reads n) : Decidable (Quotes cfg t r) :=
  inferInstanceAs (Decidable (_ ∧ _))

theorem cancels_unpriced_iff_resting :
    ∃ t : HotTask 1, Trans.Reach (step id quickConfig) (new id quickConfig 0) t ∧
      let q := (t.receive id quickConfig bookSnapshot (flatReads 4 [])).1
      (q.drainedOm (flatReads 4 [])).Cancelable .buy 0 2000000000 1 ∧
        CancelsUnpriced quickConfig q (flatReads 4 []) := by
  obtain ⟨t, ht, h⟩ := Option.map_eq_some_iff.mp
    (show (Trans.run (step id quickConfig) (new id quickConfig 0) restingLadder).map (fun t =>
        let q := (t.receive id quickConfig bookSnapshot (flatReads 4 [])).1
        decide (Quotes quickConfig q (flatReads 4 []) ∧ ¬FlatExit quickConfig q (flatReads 4 []) ∧
          (q.drainedOm (flatReads 4 [])).Cancelable .buy 0 2000000000 1)) = some true by decide +kernel)
  obtain ⟨⟨hthrottle, hhold⟩, hno, hc⟩ := of_decide_eq_true h
  exact ⟨t, Trans.reach_iff_run.mpr ⟨_, ht⟩, hc, (cancels_unpriced_iff rfl hthrottle hhold).mpr (.inl hno)⟩

/-- **The flat exit leaves the ladder resting**: after a disconnect the engine warms up again, and the
call of the first snapshot sends an empty batch. -/
theorem flat_exit_leaves_ladder :
    ¬ ∀ (t : HotTask 1) (msg : OrderBookMsg) (r : Reads 1),
      Trans.Reach (step id quickConfig) (new id quickConfig 0) t →
      (t.receive id quickConfig msg r).2.2 = true → Quotes quickConfig (t.receive id quickConfig msg r).1 r →
      CancelsUnpriced quickConfig (t.receive id quickConfig msg r).1 r := by
  intro hall
  obtain ⟨t, ht, h⟩ := Option.map_eq_some_iff.mp
    (show (Trans.run (step id quickConfig) (new id quickConfig 0) (restingLadder ++ [.disconnect])).map
      (fun t =>
        let q := t.receive id quickConfig bookSnapshot (flatReads 4 [])
        decide (q.2.2 = true ∧ Quotes quickConfig q.1 (flatReads 4 []) ∧
          (q.1.drainedOm (flatReads 4 [])).Cancelable .buy 0 2000000000 1 ∧
          (q.1.chooseExit quickConfig (flatReads 4 [])).2.2.price .buy 0 = none ∧
          (q.1.maybeQuote quickConfig (flatReads 4 [])).2 = [.sendOps []])) = some true by decide +kernel)
  obtain ⟨hrun, hq, hc, hprice, hsent⟩ := of_decide_eq_true h
  obtain ⟨ops, hops, hmem⟩ := hall t bookSnapshot (flatReads 4 []) (Trans.reach_iff_run.mpr ⟨_, ht⟩) hrun hq
    .buy 0 2000000000 1 hc hprice
  rw [hsent, List.mem_singleton] at hops
  cases hops
  cases hmem

end HotTask

end LighterMM
