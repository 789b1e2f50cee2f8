import LighterMM.Hot.Readiness
import LighterMM.Lib.Trans
import LighterMM.Strategy.ExitBias

/-!
# The ladder that `maybe_quote` builds

Whatever the cycle starts from, its ladder

- **never crosses** (`ladder_never_crosses`): a pair of prices for each level, on the tick grid, bids below
  the mid and asks above it, and in order if the spread factor does not shrink;
- **keeps the position limit** (`position_limit`): where the inventory is at the limit, there is no capital,
  no quote of the engine or no readiness, the side that would increase the exposure has no price, and no
  Create or Modify comes from it;
- **stays within the leveraged capital** (`exposure_bound`): if all orders of an increasing side fill.
-/

namespace LighterMM

open TickGrid

variable {n : ℕ}

/-- A side whose fills increase the exposure; of a flat position, both. -/
def IncreasesExposure (position : ℚ) (side : Side) : Prop :=
  (0 < position → side = .buy) ∧ (position < 0 → side = .sell)

/-- No level of the ladder has a price on the side. -/
def Suppressed (levels : List Level) (side : Side) : Prop := ∀ l ∈ levels, l.on side = none

/-! ## The engine's constants -/

namespace VolObiCalculator

@[simp] theorem setAlphaOverride_tickSize (c : VolObiCalculator) (a : Option ℚ) :
    (c.setAlphaOverride a).tickSize = c.tickSize := by
  cases a <;> simp only [setAlphaOverride] <;> split <;> rfl

@[simp] theorem setAlphaOverride_minHalfSpreadBps (c : VolObiCalculator) (a : Option ℚ) :
    (c.setAlphaOverride a).minHalfSpreadBps = c.minHalfSpreadBps := by
  cases a <;> simp only [setAlphaOverride] <;> split <;> rfl

/-- The constants of the engine that the ladder rests on. -/
def SameGrid (c c' : VolObiCalculator) : Prop := c'.tickSize = c.tickSize ∧ c'.minHalfSpreadBps = c.minHalfSpreadBps

theorem SameGrid.trans {c c' c'' : VolObiCalculator} (h : SameGrid c c') (h' : SameGrid c' c'') : SameGrid c c'' :=
  ⟨h'.1.trans h.1, h'.2.trans h.2⟩

theorem sameGrid_onBookUpdate (sqrt : ℚ → ℚ) (c : VolObiCalculator) (nowNs : ℤ) (mid : ℚ) (bids asks : BookSide) :
    SameGrid c (c.onBookUpdate sqrt nowNs mid bids asks) := by
  have hsample : SameGrid c (c.sampleMid sqrt nowNs mid) := by
    unfold sampleMid
    split <;> exact ⟨rfl, rfl⟩
  unfold onBookUpdate
  simp only
  cases c.sampleDue nowNs with
  | true =>
    simp only [if_true]
    split
    · exact hsample
    · exact hsample
  | false =>
    simp only [Bool.false_eq_true, if_false]
    split <;> exact ⟨rfl, rfl⟩

end VolObiCalculator

namespace HotTask

variable {sqrt : ℚ → ℚ} {cfg : HotConfig n} {t u : HotTask n} {r : Reads n} {levels : List Level} {args : CollectArgs}

theorem receive_sameGrid (sqrt : ℚ → ℚ) (cfg : HotConfig n) (t : HotTask n) (msg : OrderBookMsg) (r : Reads n) :
    VolObiCalculator.SameGrid t.calculator (t.receive sqrt cfg msg r).1.calculator := by
  have hreset : VolObiCalculator.SameGrid t.calculator t.takeReset.calculator := by
    unfold takeReset
    split <;> exact ⟨rfl, rfl⟩
  have hsignal : ∀ u : HotTask n, VolObiCalculator.SameGrid u.calculator (u.updateSignal sqrt cfg r).1.calculator := by
    intro u
    have hcases := u.updateSignal_cases sqrt cfg r
    generalize u.updateSignal sqrt cfg r = q at hcases ⊢
    cases hcases with
    | noMid | diverged => exact ⟨rfl, rfl⟩
    | updated => exact VolObiCalculator.sameGrid_onBookUpdate _ _ _ _ _ _
  have happlied : ∀ u : HotTask n, VolObiCalculator.SameGrid u.calculator (u.applied sqrt cfg msg r).1.calculator := by
    intro u
    unfold applied
    refine VolObiCalculator.SameGrid.trans ?_ (hsignal _)
    simp only
    split <;> exact ⟨rfl, rfl⟩
  refine hreset.trans ?_
  have hcases := t.receive_cases sqrt cfg msg r
  generalize t.receive sqrt cfg msg r = q at hcases ⊢
  cases hcases with
  | snapshot => exact happlied { t.takeReset with awaitingResnapshot := false }
  | waiting | stale | gap => exact ⟨rfl, rfl⟩
  | delta => exact happlied t.takeReset

theorem maybeQuote_sameGrid (cfg : HotConfig n) (t : HotTask n) (r : Reads n) :
    VolObiCalculator.SameGrid t.calculator (t.maybeQuote cfg r).1.calculator := by
  have hexit : VolObiCalculator.SameGrid t.calculator (t.chooseExit cfg r).1.calculator := by
    have hcases := t.chooseExit_cases cfg r
    generalize t.chooseExit cfg r = q at hcases ⊢
    cases hcases with
    | throttled => exact ⟨rfl, rfl⟩
    | gated | opened =>
      exact ⟨VolObiCalculator.setAlphaOverride_tickSize _ _, VolObiCalculator.setAlphaOverride_minHalfSpreadBps _ _⟩
  have hpublish : ∀ u : HotTask n, u.publishTracked.1.calculator = u.calculator := by
    intro u
    obtain ⟨ids, hu⟩ := u.publishTracked_eq
    rw [hu]
  unfold maybeQuote
  simp only
  split
  · cases cfg.mode <;> simp only [hpublish] <;> exact hexit
  · exact hexit

theorem step_sameGrid {a : HotInput n} (h : step sqrt cfg t a = some u) :
    VolObiCalculator.SameGrid t.calculator u.calculator := by
  cases a with
  | orderBook msg r =>
    cases h
    exact onOrderbook_keeps (P := fun u => VolObiCalculator.SameGrid t.calculator u.calculator)
      (receive_sameGrid sqrt cfg t msg r) fun u hu => hu.trans (maybeQuote_sameGrid cfg u r)
  | ticker bestBid bestAsk now =>
    cases h
    obtain ⟨bbo, hbbo⟩ := t.onTicker_eq bestBid bestAsk now
    rw [hbbo]
    exact ⟨rfl, rfl⟩
  | disconnect =>
    cases h
    exact ⟨rfl, rfl⟩

/-- **The engine of a running task is on the tick of its market**, with the configured spread floor. -/
theorem reach_sameGrid {now : Instant} (h : Trans.Reach (step sqrt cfg) (new sqrt cfg now) t) :
    t.calculator.tickSize = cfg.market.priceTick ∧ t.calculator.minHalfSpreadBps = cfg.volObi.minHalfSpreadBps := by
  have hgrid : VolObiCalculator.SameGrid (new sqrt cfg now).calculator t.calculator := by
    refine h.invariant (I := fun u => VolObiCalculator.SameGrid (new sqrt cfg now).calculator u.calculator)
      ⟨rfl, rfl⟩ fun u a u' hu _ hstep => ?_
    exact hu.trans (step_sameGrid hstep)
  exact hgrid

/-- The task `u` at the end of a cycle of `t`, and the ladder that it quoted. -/
structure Quoted (cfg : HotConfig n) (t u : HotTask n) (r : Reads n) (levels : List Level) (args : CollectArgs) : Prop where
  mid : u.mid = t.mid
  tickSize : u.calculator.tickSize = t.calculator.tickSize
  minHalfSpreadBps : u.calculator.minHalfSpreadBps = t.calculator.minHalfSpreadBps
  maxPosUsd : 0 < r.capital →
    u.maxPosUsd = dynamicMaxPosition t.mid r.capital cfg.leverage (cfg.orderSize t.mid r.capital) n
  ladder : (u.notReady cfg r.warmupClock = true ∧ epsilon ≤ |cfg.quotePosition t.mid r.position| ∧
      levels = fallbackReduceOnly t.mid (cfg.quotePosition t.mid r.position) cfg.market.priceTick cfg.fallbackBps n) ∨
    (u.notReady cfg r.warmupClock = false ∧ args.baseAmount = cfg.orderSize t.mid r.capital ∧
      levels = u.normalLevels cfg (cfg.quotePosition t.mid r.position))

theorem openGate_quoted (h : (t.openGate cfg r).2.2 = .ladder levels args) :
    Quoted cfg t (t.openGate cfg r).1 r levels args := by
  obtain ⟨calculator, maxPosUsd, seen, til, hopen⟩ := openGate_eq cfg t r
  have hu : (t.openGate cfg r).1.mid = t.mid := by rw [hopen]
  refine ⟨hu, rfl, rfl, fun hcap => if_pos hcap, ?_⟩
  have hdec : (t.openGate cfg r).1.quoteDecision cfg r (cfg.quotePosition t.mid r.position)
      (cfg.orderSize t.mid r.capital) (t.holdQuotesForPositionReconcile cfg r.position r.now).2.2 =
        .ladder levels args := h
  unfold quoteDecision at hdec
  by_cases hnr : (t.openGate cfg r).1.notReady cfg r.warmupClock = true
  · left
    simp only [hnr, if_true] at hdec
    by_cases hpos : epsilon ≤ |cfg.quotePosition t.mid r.position|
    · rw [if_pos hpos, hu] at hdec
      cases hdec
      exact ⟨hnr, hpos, rfl⟩
    · rw [if_neg hpos] at hdec
      cases hdec
  · right
    rw [Bool.not_eq_true] at hnr
    simp only [hnr, Bool.false_eq_true, if_false] at hdec
    cases hdec
    exact ⟨hnr, rfl, rfl⟩

theorem chooseExit_quoted (h : (t.chooseExit cfg r).2.2 = .ladder levels args) :
    Quoted cfg t (t.chooseExit cfg r).1 r levels args := by
  have hcases := t.chooseExit_cases cfg r
  generalize t.chooseExit cfg r = q at hcases h ⊢
  cases hcases with
  | throttled | gated => cases h
  | opened =>
    obtain ⟨hmid, htick, hfloor, hlimit, hladder⟩ := openGate_quoted h
    exact ⟨hmid, htick.trans (VolObiCalculator.setAlphaOverride_tickSize _ _),
      hfloor.trans (VolObiCalculator.setAlphaOverride_minHalfSpreadBps _ _), hlimit, hladder⟩

theorem normalLevels_eq (u : HotTask n) (position : ℚ) :
    u.normalLevels cfg position = applyInventoryExitBias
      (buildQuoteLevels (u.calculator.quote u.mid position) u.mid position u.maxPosUsd cfg.market.priceTick n
        cfg.factors cfg.fallbackBps) u.mid position u.maxPosUsd 0 cfg.adverseThresholdBps cfg.invBias
      cfg.market.priceTick := by
  unfold normalLevels
  simp only [applyQualitySpreadMultiplier_one]

theorem Quoted.length (h : Quoted cfg t u r levels args) : levels.length = n := by
  rcases h.ladder with ⟨-, -, rfl⟩ | ⟨-, -, rfl⟩
  · exact fallbackReduceOnly_length _ _ _ _ _
  · rw [normalLevels_eq, applyInventoryExitBias_length, buildQuoteLevels_length cfg.levels_pos]

/-! ## Crossing -/

/-- An order of the ladder would trade against the book. -/
def Crosses (levels : List Level) (book : LocalBook) : Prop :=
  ∃ l ∈ levels, (∃ b ∈ l.1, ∃ a ∈ book.bestAsk, a ≤ b) ∨ ∃ a ∈ l.2, ∃ b ∈ book.bestBid, a ≤ b

/-- The sides of the book do not overlap. -/
def Uncrossed (book : LocalBook) : Prop := ∀ b ∈ book.bestBid, ∀ a ∈ book.bestAsk, b ≤ a

theorem passive_not_crosses {mid tick : ℚ} {book : LocalBook} (h : Passive mid tick levels)
    (hbook : book.mid = some mid) (huncrossed : Uncrossed book) : ¬Crosses levels book := by
  unfold LocalBook.mid at hbook
  split at hbook
  · rename_i bid ask hbid hask
    have hle := huncrossed bid hbid ask hask
    have hmid : (bid + ask) * (1 / 2) = mid := Option.some.inj hbook
    rintro ⟨l, hl, ⟨b, hb, a, ha, hab⟩ | ⟨a, ha, b, hb, hab⟩⟩
    · rw [hask] at ha
      cases ha
      linarith [((h l hl).bid b hb).2]
    · rw [hbid] at hb
      cases hb
      linarith [((h l hl).ask a ha).2]
  · cases hbook

/-- The engine of the cycle quotes passively. -/
theorem Quoted.quote_passive (h : Quoted cfg t u r levels args) (ht : 0 < cfg.market.priceTick)
    (htick : t.calculator.tickSize = cfg.market.priceTick) (hfloor : 0 < t.calculator.minHalfSpreadBps)
    (hmid : 0 < t.mid) {position b a : ℚ} (hq : u.calculator.quote t.mid position = some (b, a)) :
    Level.Passive t.mid cfg.market.priceTick (some b, some a) := by
  rw [← htick, ← h.tickSize]
  refine LighterMM.quote_passive ?_ ?_ hmid hq
  · rw [h.tickSize, htick]
    exact ht
  · rw [h.minHalfSpreadBps]
    exact hfloor

theorem Quoted.passive (h : Quoted cfg t u r levels args) (ht : 0 < cfg.market.priceTick)
    (htick : t.calculator.tickSize = cfg.market.priceTick) (hfloor : 0 < t.calculator.minHalfSpreadBps)
    (hmid : 0 < t.mid) (hfactor : 0 < cfg.spreadFactorLevel1) : Passive t.mid cfg.market.priceTick levels := by
  rcases h.ladder with ⟨-, -, rfl⟩ | ⟨-, -, rfl⟩
  · exact passive_fallback ht _
  · rw [normalLevels_eq, h.mid]
    refine passive_bias ht (passive_buildQuoteLevels ht cfg.levels_pos (fun b a hq => ?_) hfactor _ _) _ _ _ _
    exact h.quote_passive ht htick hfloor hmid hq

theorem Quoted.ordered (h : Quoted cfg t u r levels args) (ht : 0 < cfg.market.priceTick)
    (htick : t.calculator.tickSize = cfg.market.priceTick) (hfloor : 0 < t.calculator.minHalfSpreadBps)
    (hmid : 0 < t.mid) (hfactor : 1 ≤ cfg.spreadFactorLevel1) : Ordered levels := by
  rcases h.ladder with ⟨-, -, rfl⟩ | ⟨-, -, rfl⟩
  · exact ordered_fallback _ _ _ _ _
  · rw [normalLevels_eq, h.mid]
    refine ordered_bias ht (ordered_buildQuoteLevels ht cfg.levels_pos (fun b a hq => ?_) hfactor _ _) _ _ _ _ _ _
    exact h.quote_passive ht htick hfloor hmid hq

/-- **The ladder never crosses.** Whatever the engine, the position and the limit: with a spread floor, the
engine and the market on one tick, and positive mid, tick and spread factor, the ladder of a cycle has a
pair of prices for each level, every bid is a tick multiple below the mid and every ask one above it, and
none crosses an uncrossed book with that mid. If the spread factor is at least one, bids do not increase with
the level and asks do not decrease. -/
theorem ladder_never_crosses (cfg : HotConfig n) (t : HotTask n) (r : Reads n)
    (h : (t.chooseExit cfg r).2.2 = .ladder levels args) (ht : 0 < cfg.market.priceTick)
    (htick : t.calculator.tickSize = cfg.market.priceTick) (hfloor : 0 < t.calculator.minHalfSpreadBps)
    (hmid : 0 < t.mid) (hfactor : 0 < cfg.spreadFactorLevel1) :
    levels.length = n ∧ Passive t.mid cfg.market.priceTick levels ∧
      (∀ book : LocalBook, book.mid = some t.mid → Uncrossed book → ¬Crosses levels book) ∧
      (1 ≤ cfg.spreadFactorLevel1 → Ordered levels) := by
  have hq := chooseExit_quoted h
  have hpassive := hq.passive ht htick hfloor hmid hfactor
  exact ⟨hq.length, hpassive, fun book hbook huncrossed => passive_not_crosses hpassive hbook huncrossed,
    fun hone => hq.ordered ht htick hfloor hmid hone⟩

/-! ## The position limit -/

theorem suppressed_noneLevels (side : Side) : Suppressed (noneLevels n) side := by
  intro l hl
  rw [List.eq_of_mem_replicate hl]
  cases side <;> rfl

/-- The exit of an inventory is on the reducing side. -/
theorem suppressed_fallback {position : ℚ} {side : Side} (hside : IncreasesExposure position side)
    (mid tick fallbackBps : ℚ) : Suppressed (fallbackReduceOnly mid position tick fallbackBps n) side := by
  rcases fallbackReduceOnly_cases mid position tick fallbackBps n with heq | ⟨l, heq, -, hl, -⟩
  · rw [heq]
    exact suppressed_noneLevels side
  · rw [heq]
    intro l' hl'
    rcases mem_set_noneLevels hl' with rfl | rfl
    · rcases hl with ⟨hpos, hnone⟩ | ⟨hneg, hnone⟩
      · rw [hside.1 hpos]
        exact hnone
      · rw [hside.2 hneg]
        exact hnone
    · cases side <;> rfl

theorem suppressed_exitLevels {position : ℚ} {side : Side} (hside : |position| < epsilon ∨ IncreasesExposure position side)
    (mid tick fallbackBps : ℚ) : Suppressed (exitLevels mid position tick fallbackBps n) side := by
  rcases exitLevels_cases mid position tick fallbackBps n with ⟨hpos, heq⟩ | ⟨-, heq⟩
  · rw [heq]
    exact suppressed_fallback (hside.resolve_left (not_lt.mpr hpos)) mid tick fallbackBps
  · rw [heq]
    exact suppressed_noneLevels side

/-- A side suppressed at level 0 is suppressed at the deeper levels. -/
theorem suppressed_normal {l : Level} {side : Side} (h : l.on side = none) (mid tick : ℚ) (factors : List ℚ) :
    Suppressed (l :: deeperLevels mid tick factors n l) side := by
  intro l' hl'
  rcases List.mem_cons.mp hl' with rfl | hl'
  · exact h
  · obtain ⟨lvl, -, rfl⟩ := List.mem_map.mp hl'
    cases side with
    | buy =>
      have hbid : l.1 = none := h
      rw [hbid]
      rfl
    | sell =>
      have hask : l.2 = none := h
      rw [hask]
      rfl

theorem limitedLevel_on {mid position maxPosUsd b a : ℚ} {side : Side} (hside : IncreasesExposure position side)
    (hne : position ≠ 0) (hlimit : maxPosUsd ≤ |position| * mid) :
    (limitedLevel mid position maxPosUsd b a).on side = none := by
  unfold limitedLevel
  rcases lt_or_gt_of_ne hne with hneg | hpos
  · rw [hside.2 hneg]
    exact if_pos ⟨hlimit, hneg⟩
  · rw [hside.1 hpos]
    exact if_pos ⟨hlimit, hpos⟩

theorem ne_zero_of_epsilon_le {position : ℚ} (h : epsilon ≤ |position|) : position ≠ 0 := by
  rintro rfl
  rw [abs_zero] at h
  exact absurd h (not_le.mpr epsilon_pos)

/-- What keeps the cycle that ends with task `u` from increasing the exposure: the limit is reached, there
is no capital, the engine gives no quote, or the cycle is not ready. -/
def Blocked (cfg : HotConfig n) (u : HotTask n) (r : Reads n) (position : ℚ) : Prop :=
  (u.maxPosUsd ≤ |position| * u.mid ∧ epsilon ≤ |position|) ∨ u.maxPosUsd ≤ 0 ∨
    u.calculator.quote u.mid position = none ∨ u.notReady cfg r.warmupClock = true

/-- The ladder before the bias, where there is no quote, no capital, or no room for the side. -/
theorem suppressed_buildQuoteLevels {l0 : Option (ℚ × ℚ)} {mid position maxPosUsd : ℚ} {side : Side}
    (hside : |position| < epsilon ∨ IncreasesExposure position side)
    (h : l0 = none ∨ maxPosUsd ≤ 0 ∨
      (maxPosUsd ≤ |position| * mid ∧ position ≠ 0 ∧ IncreasesExposure position side))
    (tick : ℚ) (factors : List ℚ) (fallbackBps : ℚ) :
    Suppressed (buildQuoteLevels l0 mid position maxPosUsd tick n factors fallbackBps) side := by
  rcases buildQuoteLevels_cases l0 mid position maxPosUsd tick n factors fallbackBps with
    ⟨-, heq⟩ | ⟨b, a, hquote, hM, heq⟩
  · rw [heq]
    exact suppressed_exitLevels hside _ _ _
  · rw [heq]
    rcases h with hnone | hM' | ⟨hlimit, hne, hincreases⟩
    · rw [hquote] at hnone
      cases hnone
    · exact absurd hM (not_lt.mpr hM')
    · exact suppressed_normal (limitedLevel_on hincreases hne hlimit) _ _ _

theorem suppressed_normalLevels {position : ℚ} {side : Side} (hside : |position| < epsilon ∨ IncreasesExposure position side)
    (hready : u.notReady cfg r.warmupClock = false) (hblocked : Blocked cfg u r position) :
    Suppressed (u.normalLevels cfg position) side := by
  rw [normalLevels_eq]
  refine bias_suppressed (suppressed_buildQuoteLevels hside ?_ _ _ _) _ _ _ _ _ _ _
  rcases hblocked with ⟨hlimit, hpos⟩ | hM | hnone | hnr
  · exact .inr (.inr ⟨hlimit, ne_zero_of_epsilon_le hpos, hside.resolve_left (not_lt.mpr hpos)⟩)
  · exact .inr (.inl hM)
  · exact .inl hnone
  · rw [hready] at hnr
    cases hnr

/-- No op places an order on a suppressed side. -/
theorem suppressed_ops {side : Side} (h : Suppressed levels side) {om : OrderManager n} {op : BatchOp n}
    (hop : op ∈ (om.collectOrderOperations levels args).2) (hplaces : op.action ≠ .cancel) : op.side ≠ side := by
  rintro rfl
  obtain ⟨htarget, -⟩ := OrderManager.collectLoop_priced hop hplaces
  obtain ⟨l, hget, hl⟩ := levelTargets_get htarget
  have hnone := h l (List.mem_of_getElem? hget)
  rcases hl with ⟨hs, hprice⟩ | ⟨hs, hprice⟩
  · rw [hs] at hnone
    cases hprice.symm.trans hnone
  · rw [hs] at hnone
    cases hprice.symm.trans hnone

/-- **The position limit.** Where the inventory is worth the limit, there is no capital, the engine gives no
quote or the cycle is not ready, the ladder has no price on the side that would increase the exposure (on no
side at all if there is no inventory), and whatever the slots hold, no Create or Modify is for that side. -/
theorem position_limit (cfg : HotConfig n) (t : HotTask n) (r : Reads n)
    (h : (t.chooseExit cfg r).2.2 = .ladder levels args)
    (hblocked : Blocked cfg (t.chooseExit cfg r).1 r (cfg.quotePosition t.mid r.position)) (side : Side)
    (hside : |cfg.quotePosition t.mid r.position| < epsilon ∨
      IncreasesExposure (cfg.quotePosition t.mid r.position) side) :
    Suppressed levels side ∧ ∀ (om : OrderManager n), ∀ op ∈ (om.collectOrderOperations levels args).2,
      op.action = .create ∨ op.action = .modify → op.side ≠ side := by
  have hsuppressed : Suppressed levels side := by
    rcases (chooseExit_quoted h).ladder with ⟨-, hpos, rfl⟩ | ⟨hready, -, rfl⟩
    · exact suppressed_fallback (hside.resolve_left (not_lt.mpr hpos)) _ _ _
    · exact suppressed_normalLevels hside hready hblocked
  refine ⟨hsuppressed, fun om op hop hplaces => suppressed_ops hsuppressed hop ?_⟩
  rintro hcancel
  rw [hcancel] at hplaces
  rcases hplaces with hplaces | hplaces <;> cases hplaces

/-! ## The exposure -/

theorem normalizeLiveOrderSize_nonneg (size mid amountTick minBase minQuote : ℚ) :
    0 ≤ normalizeLiveOrderSize size mid amountTick minBase minQuote := by
  unfold normalizeLiveOrderSize
  split
  · exact le_rfl
  · exact le_max_right _ _

/-- A position below the limit leaves room for a ladder of orders. -/
theorem exposure_le_of_lt_limit {mid capital size value : ℚ} {leverage : ℤ} (hcap : 0 < capital) (hmid : 0 < mid)
    (hsize : 0 ≤ size) (hvalue : 0 ≤ value) (h : value < dynamicMaxPosition mid capital leverage size n) :
    value + n * size * mid ≤ capital * leverage := by
  have hladder : 0 ≤ n * size * mid := mul_nonneg (mul_nonneg (Nat.cast_nonneg n) hsize) hmid.le
  unfold dynamicMaxPosition at h
  rw [if_neg (not_or.mpr ⟨not_le.mpr hcap, not_le.mpr hmid⟩)] at h
  simp only at h
  by_cases hs : 0 < size
  · rw [if_pos hs] at h
    have hraw : 2 * ((n : ℤ) : ℚ) * size * mid = 2 * (n * size * mid) := by
      push_cast
      ring
    rw [hraw] at h
    split at h
    · exact absurd h (not_lt.mpr hvalue)
    · linarith
  · have hzero : size = 0 := le_antisymm (not_lt.mp hs) hsize
    rw [if_neg hs] at h
    rw [hzero, mul_zero, zero_mul, add_zero]
    split at h
    · exact absurd h (not_lt.mpr hvalue)
    · linarith

/-- **The exposure bound.** With capital and a mid: if the ladder of a cycle has a price on a side that
would increase the exposure, the inventory with all orders of that side filled is within the leveraged
capital. Its orders have the size that the limit was computed from. -/
theorem exposure_bound (cfg : HotConfig n) (t : HotTask n) (r : Reads n)
    (h : (t.chooseExit cfg r).2.2 = .ladder levels args) (hcap : 0 < r.capital) (hmid : 0 < t.mid) (side : Side)
    (hside : IncreasesExposure (cfg.quotePosition t.mid r.position) side) (hquoted : ¬Suppressed levels side) :
    args.baseAmount = cfg.orderSize t.mid r.capital ∧
      |cfg.quotePosition t.mid r.position| * t.mid + n * args.baseAmount * t.mid ≤ r.capital * cfg.leverage := by
  have hq := chooseExit_quoted h
  rcases hq.ladder with ⟨-, -, rfl⟩ | ⟨hready, hsize, rfl⟩
  · exact absurd (suppressed_fallback hside _ _ _) hquoted
  · refine ⟨hsize, ?_⟩
    rw [hsize]
    have hM := hq.maxPosUsd hcap
    have hnonneg : 0 ≤ cfg.orderSize t.mid r.capital := by
      rw [HotConfig.orderSize, if_pos hcap]
      exact normalizeLiveOrderSize_nonneg _ _ _ _ _
    have hvalue : 0 ≤ |cfg.quotePosition t.mid r.position| * t.mid := mul_nonneg (abs_nonneg _) hmid.le
    refine exposure_le_of_lt_limit hcap hmid hnonneg hvalue ?_
    rw [← hM]
    by_contra hlimit
    rw [not_lt] at hlimit
    refine hquoted ?_
    rw [normalLevels_eq, hq.mid]
    by_cases hzero : cfg.quotePosition t.mid r.position = 0
    · -- A flat position is at the limit only without capital.
      have hflat : |cfg.quotePosition t.mid r.position| < epsilon := by
        rw [hzero, abs_zero]
        exact epsilon_pos
      rw [hzero, abs_zero, zero_mul] at hlimit
      exact bias_suppressed (suppressed_buildQuoteLevels (.inl hflat) (.inr (.inl hlimit)) _ _ _) _ _ _ _ _ _ _
    · exact bias_suppressed
        (suppressed_buildQuoteLevels (.inr hside) (.inr (.inr ⟨hlimit, hzero, hside⟩)) _ _ _) _ _ _ _ _ _ _

/-! ## A warmed-up task -/

/-- A cycle past the throttle and the gate, and not the flat exit, has a ladder. -/
theorem chooseExit_isLadder (hthrottle : t.throttled cfg r.now = false) (hgate : cfg.gated r = false)
    (hflat : ¬FlatExit cfg t r) : ∃ levels args, (t.chooseExit cfg r).2.2 = .ladder levels args := by
  have hspec : ExitSpec cfg t r (t.chooseExit cfg r).2.2 := chooseExit_spec hthrottle
  cases hd : (t.chooseExit cfg r).2.2 with
  | ladder levels args => exact ⟨levels, args, rfl⟩
  | throttled =>
    rw [hd] at hspec
    cases hspec
  | gated =>
    rw [hd] at hspec
    cases hspec with
    | gated h =>
      rw [hgate] at h
      cases h
  | flat =>
    rw [hd] at hspec
    cases hspec with
    | flat h => exact absurd h hflat

theorem price_of_suppressed {side : Side} (h : Suppressed levels side) (level : Fin n) :
    (Decision.ladder levels args).price side level = none := by
  cases hget : levels[level.val]? with
  | none => cases side <;> simp [Decision.price, hget]
  | some l =>
    have hnone := h l (List.mem_of_getElem? hget)
    cases side with
    | buy =>
      have hbid : l.1 = none := hnone
      simp [Decision.price, hget, hbid]
    | sell =>
      have hask : l.2 = none := hnone
      simp [Decision.price, hget, hask]

/-- A task whose engine is warm, at mid 100. -/
def warmTask : HotTask 1 :=
  { new id quickConfig 0 with
    calculator := { (new id quickConfig 0).calculator with warmedUp := true, volatility := 1 / 100 }
    mid := 100 }

theorem ladder_never_crosses_warm : ∃ levels args,
    (warmTask.chooseExit quickConfig (flatReads 1 [])).2.2 = .ladder levels args ∧
      levels.length = 1 ∧ Passive 100 (1 / 10) levels ∧
      (∀ book : LocalBook, book.mid = some 100 → Uncrossed book → ¬Crosses levels book) ∧
      ((1 : ℚ) ≤ 2 → Ordered levels) := by
  obtain ⟨levels, args, h⟩ := chooseExit_isLadder (show warmTask.throttled quickConfig (flatReads 1 []).now = false by rfl)
    (by decide +kernel) (by decide +kernel)
  exact ⟨levels, args, h, ladder_never_crosses quickConfig warmTask (flatReads 1 []) h (by decide +kernel)
    (by decide +kernel) (by decide +kernel) (by decide +kernel) (by decide +kernel)⟩

/-- The same task with an inventory of 50. -/
def atLimitReads : Reads 1 := { flatReads 1 [] with position := 50 }

theorem position_limit_at : ∃ levels args,
    (warmTask.chooseExit quickConfig atLimitReads).2.2 = .ladder levels args ∧
      Suppressed levels .buy ∧ ∀ (om : OrderManager 1), ∀ op ∈ (om.collectOrderOperations levels args).2,
        op.action = .create ∨ op.action = .modify → op.side ≠ .buy := by
  obtain ⟨levels, args, h⟩ := chooseExit_isLadder (show warmTask.throttled quickConfig atLimitReads.now = false by rfl)
    (by decide +kernel) (by decide +kernel)
  exact ⟨levels, args, h, position_limit quickConfig warmTask atLimitReads h (.inl (by decide +kernel)) .buy
    (.inr ⟨fun _ => rfl, fun hneg => absurd hneg (by decide +kernel)⟩)⟩

theorem exposure_bound_warm : ∃ levels args,
    (warmTask.chooseExit quickConfig (flatReads 1 [])).2.2 = .ladder levels args ∧
      args.baseAmount = quickConfig.orderSize 100 1000 ∧
      |quickConfig.quotePosition 100 0| * 100 + (1 : ℕ) * args.baseAmount * 100 ≤ 1000 * (2 : ℤ) := by
  obtain ⟨levels, args, h⟩ := chooseExit_isLadder (show warmTask.throttled quickConfig (flatReads 1 []).now = false by rfl)
    (by decide +kernel) (by decide +kernel)
  refine ⟨levels, args, h, exposure_bound quickConfig warmTask (flatReads 1 []) h (by decide +kernel)
    (by decide +kernel) .buy ⟨fun _ => rfl, fun hneg => absurd hneg (by decide +kernel)⟩ fun hsuppressed => ?_⟩
  have hnone : (Decision.ladder levels args).price .buy (0 : Fin 1) = none := price_of_suppressed hsuppressed 0
  rw [← h] at hnone
  exact absurd hnone (by decide +kernel)

end HotTask

end LighterMM
