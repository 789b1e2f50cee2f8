import LighterMM.Strategy.Ladder

/-!
# Which way the inventory bias moves a quote

The depth of a quote is raised to a tick before it is scaled. On the adding side that only widens. On the
reducing side a quote less than a tick from the mid is first moved away from it, and the rounding keeps it
there: `bias_moves_right_iff` gives the depth from which on the reducing side moves inwards, and
`near_exit_moves_away` a quote below it.
-/

namespace LighterMM

open TickGrid

/-- `InventoryExitBias::default`. -/
def InventoryExitBias.default : InventoryExitBias where
  enabled := true
  minRatio := 5 / 100
  exitTightenPerRatio := 45 / 100
  addWidenPerRatio := 75 / 100
  maxExitTighten := 35 / 100
  maxAddWiden := 65 / 100
  adverseBoostPerBps := 3 / 100

/-- What the depth of a bid is multiplied by. -/
def bidFactor (position exitTighten addWiden : ℚ) : ℚ :=
  if position < 0 then max (1 - exitTighten) (1 / 20) else 1 + addWiden

def askFactor (position exitTighten addWiden : ℚ) : ℚ :=
  if 0 < position then max (1 - exitTighten) (1 / 20) else 1 + addWiden

/-- The bias is applied, with some factor. -/
structure BiasApplies (mid position maxPosUsd adverseBps adverseThresholdBps : ℚ) (cfg : InventoryExitBias) : Prop where
  enabled : cfg.enabled = true
  mid_pos : 0 < mid
  limit_pos : 0 < maxPosUsd
  inventory : epsilon ≤ |position|
  ratio : cfg.minRatio ≤ |position| * mid / maxPosUsd
  active : 0 < (exitBiasFactors (|position| * mid / maxPosUsd) adverseBps adverseThresholdBps cfg).1 ∨
    0 < (exitBiasFactors (|position| * mid / maxPosUsd) adverseBps adverseThresholdBps cfg).2

variable {mid tick position maxPosUsd adverseBps adverseThresholdBps exitTighten addWiden : ℚ} {cfg : InventoryExitBias}
  {l l' : Level} {levels : List Level}

theorem exitBiasFactors_nonneg {ratio : ℚ} (h : 0 ≤ ratio) :
    0 ≤ (exitBiasFactors ratio adverseBps adverseThresholdBps cfg).1 ∧
      0 ≤ (exitBiasFactors ratio adverseBps adverseThresholdBps cfg).2 := by
  have hboost : 0 ≤ 1 + min (max (adverseBps - adverseThresholdBps) 0 * max cfg.adverseBoostPerBps 0) (1 / 2) :=
    add_nonneg zero_le_one (le_min (mul_nonneg (le_max_right _ _) (le_max_right _ _)) (by norm_num))
  exact ⟨le_min (mul_nonneg (mul_nonneg (le_max_right _ _) h) hboost) (le_max_right _ _),
    le_min (mul_nonneg (mul_nonneg (le_max_right _ _) h) hboost) (le_max_right _ _)⟩

theorem BiasApplies.ratio_nonneg
    (h : BiasApplies mid position maxPosUsd adverseBps adverseThresholdBps cfg) : 0 ≤ |position| * mid / maxPosUsd :=
  div_nonneg (mul_nonneg (abs_nonneg _) h.mid_pos.le) h.limit_pos.le

/-- The bias scales every level, or leaves the ladder alone. -/
theorem applyInventoryExitBias_cases (levels : List Level) (mid position maxPosUsd adverseBps adverseThresholdBps : ℚ)
    (cfg : InventoryExitBias) (tick : ℚ) :
    (¬BiasApplies mid position maxPosUsd adverseBps adverseThresholdBps cfg ∧
      applyInventoryExitBias levels mid position maxPosUsd adverseBps adverseThresholdBps cfg tick = levels) ∨
    (BiasApplies mid position maxPosUsd adverseBps adverseThresholdBps cfg ∧ ∃ exitTighten addWiden,
      exitBiasFactors (|position| * mid / maxPosUsd) adverseBps adverseThresholdBps cfg = (exitTighten, addWiden) ∧
      applyInventoryExitBias levels mid position maxPosUsd adverseBps adverseThresholdBps cfg tick =
        levels.map fun l => (l.1.map (biasBid mid position tick exitTighten addWiden),
          l.2.map (biasAsk mid position tick exitTighten addWiden))) := by
  unfold applyInventoryExitBias
  by_cases hoff : cfg.enabled = false ∨ mid ≤ 0 ∨ maxPosUsd ≤ 0 ∨ |position| < epsilon
  · refine .inl ⟨fun h => ?_, if_pos hoff⟩
    rcases hoff with hoff | hoff | hoff | hoff
    · rw [h.enabled] at hoff
      cases hoff
    · exact absurd h.mid_pos (not_lt.mpr hoff)
    · exact absurd h.limit_pos (not_lt.mpr hoff)
    · exact absurd hoff (not_lt.mpr h.inventory)
  · rw [if_neg hoff]
    simp only [not_or, Bool.not_eq_false, not_le, not_lt] at hoff
    obtain ⟨hen, hmid, hM, hinv⟩ := hoff
    by_cases hratio : |position| * mid / maxPosUsd < cfg.minRatio
    · exact .inl ⟨fun h => absurd hratio (not_lt.mpr h.ratio), by simp only [if_pos hratio]⟩
    · simp only [if_neg hratio]
      by_cases hzero : (exitBiasFactors (|position| * mid / maxPosUsd) adverseBps adverseThresholdBps cfg).1 ≤ 0 ∧
          (exitBiasFactors (|position| * mid / maxPosUsd) adverseBps adverseThresholdBps cfg).2 ≤ 0
      · refine .inl ⟨fun h => ?_, if_pos hzero⟩
        exact h.active.elim (fun h1 => absurd h1 (not_lt.mpr hzero.1)) fun h2 => absurd h2 (not_lt.mpr hzero.2)
      · refine .inr ⟨⟨hen, hmid, hM, hinv, not_lt.mp hratio, ?_⟩, _, _, rfl, if_neg hzero⟩
        rw [not_and_or, not_le, not_le] at hzero
        exact hzero

/-! ## One quote -/

theorem bidFactor_pos (h : 0 ≤ addWiden) : 0 < bidFactor position exitTighten addWiden := by
  unfold bidFactor
  split
  · exact lt_max_of_lt_right (by norm_num)
  · linarith

theorem askFactor_pos (h : 0 ≤ addWiden) : 0 < askFactor position exitTighten addWiden := by
  unfold askFactor
  split
  · exact lt_max_of_lt_right (by norm_num)
  · linarith

theorem biasDepth_pos (ht : 0 < tick) (d : ℚ) {factor : ℚ} (hf : 0 < factor) : 0 < max d tick * factor :=
  mul_pos (lt_max_of_lt_right ht) hf

/-- A biased bid: it is below the mid without the second rounding. -/
theorem biasBid_eq (ht : 0 < tick) (hw : 0 ≤ addWiden) (b : ℚ) :
    biasBid mid position tick exitTighten addWiden b =
      floorTo tick (mid - max (mid - b) tick * bidFactor position exitTighten addWiden) := by
  have hf : 0 < bidFactor position exitTighten addWiden := bidFactor_pos hw
  have hbelow := (floorTo_below ht mid (biasDepth_pos ht (mid - b) hf)).2
  have hdepth : (if position < 0 then max (mid - b) tick * max (1 - exitTighten) (1 / 20)
      else max (mid - b) tick * (1 + addWiden)) = max (mid - b) tick * bidFactor position exitTighten addWiden := by
    unfold bidFactor
    split <;> rfl
  unfold biasBid
  simp only [minDepth_eq ht, hdepth, floorTick_eq ht]
  exact if_neg (not_le.mpr hbelow)

theorem biasAsk_eq (ht : 0 < tick) (hw : 0 ≤ addWiden) (a : ℚ) :
    biasAsk mid position tick exitTighten addWiden a =
      ceilTo tick (mid + max (a - mid) tick * askFactor position exitTighten addWiden) := by
  have hf : 0 < askFactor position exitTighten addWiden := askFactor_pos hw
  have habove := (ceilTo_above ht mid (biasDepth_pos ht (a - mid) hf)).2
  have hdepth : (if 0 < position then max (a - mid) tick * max (1 - exitTighten) (1 / 20)
      else max (a - mid) tick * (1 + addWiden)) = max (a - mid) tick * askFactor position exitTighten addWiden := by
    unfold askFactor
    split <;> rfl
  unfold biasAsk
  simp only [minDepth_eq ht, hdepth, ceilTick_eq ht]
  exact if_neg (not_le.mpr habove)

/-- A bid moves inwards if its depth, at least a tick before the scaling, shrinks. -/
theorem le_biasBid_iff (ht : 0 < tick) (hw : 0 ≤ addWiden) {b : ℚ} (hb : OnGrid tick b) :
    b ≤ biasBid mid position tick exitTighten addWiden b ↔
      max (mid - b) tick * bidFactor position exitTighten addWiden ≤ mid - b := by
  rw [biasBid_eq ht hw, le_floorTo_iff ht hb, le_sub_comm]

theorem biasAsk_le_iff (ht : 0 < tick) (hw : 0 ≤ addWiden) {a : ℚ} (ha : OnGrid tick a) :
    biasAsk mid position tick exitTighten addWiden a ≤ a ↔
      max (a - mid) tick * askFactor position exitTighten addWiden ≤ a - mid := by
  rw [biasAsk_eq ht hw, ceilTo_le_iff ht ha, le_sub_iff_add_le']

/-- A scaled depth of a tick at least is no more than the depth. -/
theorem scaledDepth_le_iff {d factor : ℚ} (hd : 0 < d) (hf : 0 < factor) (hone : factor ≤ 1) :
    max d tick * factor ≤ d ↔ tick * factor ≤ d := by
  rw [max_mul_of_nonneg _ _ hf.le, max_le_iff, and_iff_right (mul_le_of_le_one_right hd.le hone)]

theorem le_scaledDepth {d factor : ℚ} (hd : 0 < d) (hone : 1 ≤ factor) : d ≤ max d tick * factor :=
  (le_max_left d tick).trans (le_mul_of_one_le_right (hd.le.trans (le_max_left d tick)) hone)

/-! ## A ladder -/

/-- The bias applied with nonnegative factors, if at all. -/
theorem applyInventoryExitBias_map (levels : List Level) (mid position maxPosUsd adverseBps adverseThresholdBps : ℚ)
    (cfg : InventoryExitBias) (tick : ℚ) :
    applyInventoryExitBias levels mid position maxPosUsd adverseBps adverseThresholdBps cfg tick = levels ∨
    ∃ exitTighten addWiden, 0 ≤ addWiden ∧
      applyInventoryExitBias levels mid position maxPosUsd adverseBps adverseThresholdBps cfg tick =
        levels.map fun l => (l.1.map (biasBid mid position tick exitTighten addWiden),
          l.2.map (biasAsk mid position tick exitTighten addWiden)) := by
  rcases applyInventoryExitBias_cases levels mid position maxPosUsd adverseBps adverseThresholdBps cfg tick with
    ⟨-, heq⟩ | ⟨happly, e, w, hfactors, heq⟩
  · exact .inl heq
  · refine .inr ⟨e, w, ?_, heq⟩
    have hw : 0 ≤ (exitBiasFactors (|position| * mid / maxPosUsd) adverseBps adverseThresholdBps cfg).2 :=
      (exitBiasFactors_nonneg happly.ratio_nonneg).2
    rw [hfactors] at hw
    exact hw

theorem passive_bias (ht : 0 < tick) (h : Passive mid tick levels) (maxPosUsd adverseBps adverseThresholdBps : ℚ)
    (cfg : InventoryExitBias) :
    Passive mid tick (applyInventoryExitBias levels mid position maxPosUsd adverseBps adverseThresholdBps cfg tick) := by
  rcases applyInventoryExitBias_map levels mid position maxPosUsd adverseBps adverseThresholdBps cfg tick with
    heq | ⟨e, w, hw, heq⟩
  · rw [heq]
    exact h
  · rw [heq]
    intro l hl
    obtain ⟨l₀, -, rfl⟩ := List.mem_map.mp hl
    refine ⟨fun b hb => ?_, fun a ha => ?_⟩
    · obtain ⟨b₀, -, rfl⟩ := Option.map_eq_some_iff.mp hb
      rw [biasBid_eq ht hw]
      exact floorTo_below ht mid (biasDepth_pos ht (mid - b₀) (bidFactor_pos hw))
    · obtain ⟨a₀, -, rfl⟩ := Option.map_eq_some_iff.mp ha
      rw [biasAsk_eq ht hw]
      exact ceilTo_above ht mid (biasDepth_pos ht (a₀ - mid) (askFactor_pos hw))

theorem ordered_bias (ht : 0 < tick) (h : Ordered levels) (mid position maxPosUsd adverseBps adverseThresholdBps : ℚ)
    (cfg : InventoryExitBias) :
    Ordered (applyInventoryExitBias levels mid position maxPosUsd adverseBps adverseThresholdBps cfg tick) := by
  rcases applyInventoryExitBias_map levels mid position maxPosUsd adverseBps adverseThresholdBps cfg tick with
    heq | ⟨e, w, hw, heq⟩
  · rw [heq]
    exact h
  · rw [heq, Ordered, List.pairwise_map]
    refine h.imp fun hbehind => ⟨fun b hb b' hb' => ?_, fun a ha a' ha' => ?_⟩
    · obtain ⟨b₀, hb₀, rfl⟩ := Option.map_eq_some_iff.mp hb
      obtain ⟨b₁, hb₁, rfl⟩ := Option.map_eq_some_iff.mp hb'
      rw [biasBid_eq ht hw, biasBid_eq ht hw]
      have hdepth := max_le_max_right tick (sub_le_sub_left (hbehind.bid b₀ hb₀ b₁ hb₁) mid)
      exact floorTo_mono ht (sub_le_sub_left (mul_le_mul_of_nonneg_right hdepth (bidFactor_pos hw).le) mid)
    · obtain ⟨a₀, ha₀, rfl⟩ := Option.map_eq_some_iff.mp ha
      obtain ⟨a₁, ha₁, rfl⟩ := Option.map_eq_some_iff.mp ha'
      rw [biasAsk_eq ht hw, biasAsk_eq ht hw]
      have hdepth := max_le_max_right tick (sub_le_sub_right (hbehind.ask a₀ ha₀ a₁ ha₁) mid)
      exact ceilTo_mono ht (add_le_add_right (mul_le_mul_of_nonneg_right hdepth (askFactor_pos hw).le) mid)

/-- A suppressed side stays suppressed. -/
theorem bias_suppressed {sd : Side} (h : ∀ l ∈ levels, Level.on l sd = none) (mid position maxPosUsd adverseBps
    adverseThresholdBps : ℚ) (cfg : InventoryExitBias) (tick : ℚ) :
    ∀ l ∈ applyInventoryExitBias levels mid position maxPosUsd adverseBps adverseThresholdBps cfg tick,
      Level.on l sd = none := by
  rcases applyInventoryExitBias_map levels mid position maxPosUsd adverseBps adverseThresholdBps cfg tick with
    heq | ⟨e, w, -, heq⟩
  · rw [heq]
    exact h
  · rw [heq]
    intro l hl
    obtain ⟨l₀, hl₀, rfl⟩ := List.mem_map.mp hl
    have hnone := h l₀ hl₀
    cases sd with
    | buy => exact Option.map_eq_none_iff.mpr hnone
    | sell => exact Option.map_eq_none_iff.mpr hnone

/-! ## Inwards and outwards -/

/-- A side before and after: suppressed stays suppressed, a reducing quote is no further from the mid, any
other one no closer. -/
def SideMoves (mid : ℚ) (reducing : Prop) (before after : Option ℚ) : Prop :=
  (before = none → after = none) ∧ ∀ p ∈ before, ∃ p' ∈ after,
    (reducing → |p' - mid| ≤ |p - mid|) ∧ (¬reducing → |p - mid| ≤ |p' - mid|)

/-- Bids reduce a short position, asks a long one. -/
structure MovesRight (mid position : ℚ) (l l' : Level) : Prop where
  bid : SideMoves mid (position < 0) l.1 l'.1
  ask : SideMoves mid (0 < position) l.2 l'.2

/-- The reducing quotes are deep enough to be tightened: a tick, scaled by the tightening. -/
def RoomToTighten (mid tick position exitTighten : ℚ) (l : Level) : Prop :=
  (position < 0 → ∀ b ∈ l.1, tick * max (1 - exitTighten) (1 / 20) ≤ mid - b) ∧
    (0 < position → ∀ a ∈ l.2, tick * max (1 - exitTighten) (1 / 20) ≤ a - mid)

theorem SideMoves.refl (mid : ℚ) (reducing : Prop) (p : Option ℚ) : SideMoves mid reducing p p :=
  ⟨id, fun q hq => ⟨q, hq, fun _ => le_rfl, fun _ => le_rfl⟩⟩

theorem sideMoves_map {reducing : Prop} {f : ℚ → ℚ} {p : Option ℚ} :
    SideMoves mid reducing p (p.map f) ↔ ∀ q ∈ p,
      (reducing → |f q - mid| ≤ |q - mid|) ∧ (¬reducing → |q - mid| ≤ |f q - mid|) := by
  cases p with
  | none => exact iff_of_true ⟨fun _ => rfl, fun q hq => (by cases hq)⟩ fun q hq => (by cases hq)
  | some q =>
    constructor
    · rintro ⟨-, h⟩ _ ⟨⟩
      obtain ⟨_, ⟨⟩, hq⟩ := h q rfl
      exact hq
    · intro h
      refine ⟨fun hq => (by cases hq), ?_⟩
      rintro _ ⟨⟩
      exact ⟨f q, rfl, h q rfl⟩

/-- Distances of two bids. -/
theorem abs_bid_le_iff {b b' : ℚ} (hb : b < mid) (hb' : b' < mid) : |b' - mid| ≤ |b - mid| ↔ b ≤ b' := by
  rw [abs_of_neg (sub_neg.mpr hb), abs_of_neg (sub_neg.mpr hb'), neg_le_neg_iff, sub_le_sub_iff_right]

theorem abs_ask_le_iff {a a' : ℚ} (ha : mid < a) (ha' : mid < a') : |a' - mid| ≤ |a - mid| ↔ a' ≤ a := by
  rw [abs_of_pos (sub_pos.mpr ha), abs_of_pos (sub_pos.mpr ha'), sub_le_sub_iff_right]

theorem tightenFactor_le_one (h : 0 ≤ exitTighten) : max (1 - exitTighten) (1 / 20) ≤ 1 :=
  max_le (by linarith) (by norm_num)

theorem tightenFactor_pos : 0 < max (1 - exitTighten) (1 / 20) := lt_max_of_lt_right (by norm_num)

/-- A biased bid. -/
theorem biasBid_moves (ht : 0 < tick) (he : 0 ≤ exitTighten) (hw : 0 ≤ addWiden) {b : ℚ} (hb : OnGrid tick b)
    (hlt : b < mid) :
    ((position < 0 → |biasBid mid position tick exitTighten addWiden b - mid| ≤ |b - mid|) ↔
      (position < 0 → tick * max (1 - exitTighten) (1 / 20) ≤ mid - b)) ∧
    (¬position < 0 → |b - mid| ≤ |biasBid mid position tick exitTighten addWiden b - mid|) := by
  have hbelow : biasBid mid position tick exitTighten addWiden b < mid := by
    rw [biasBid_eq ht hw]
    exact (floorTo_below ht mid (biasDepth_pos ht (mid - b) (bidFactor_pos hw))).2
  have hd : 0 < mid - b := sub_pos.mpr hlt
  refine ⟨imp_congr_right fun hneg => ?_, fun hneg => ?_⟩
  · rw [abs_bid_le_iff hlt hbelow, le_biasBid_iff ht hw hb, bidFactor, if_pos hneg]
    exact scaledDepth_le_iff hd tightenFactor_pos (tightenFactor_le_one he)
  · rw [abs_bid_le_iff hbelow hlt, biasBid_eq ht hw, bidFactor, if_neg hneg]
    refine (floorTo_le ht).trans (sub_le_comm.mp ?_)
    exact le_scaledDepth hd (le_add_of_nonneg_right hw)

/-- A biased ask. -/
theorem biasAsk_moves (ht : 0 < tick) (he : 0 ≤ exitTighten) (hw : 0 ≤ addWiden) {a : ℚ} (ha : OnGrid tick a)
    (hlt : mid < a) :
    ((0 < position → |biasAsk mid position tick exitTighten addWiden a - mid| ≤ |a - mid|) ↔
      (0 < position → tick * max (1 - exitTighten) (1 / 20) ≤ a - mid)) ∧
    (¬0 < position → |a - mid| ≤ |biasAsk mid position tick exitTighten addWiden a - mid|) := by
  have habove : mid < biasAsk mid position tick exitTighten addWiden a := by
    rw [biasAsk_eq ht hw]
    exact (ceilTo_above ht mid (biasDepth_pos ht (a - mid) (askFactor_pos hw))).2
  have hd : 0 < a - mid := sub_pos.mpr hlt
  refine ⟨imp_congr_right fun hpos => ?_, fun hpos => ?_⟩
  · rw [abs_ask_le_iff hlt habove, biasAsk_le_iff ht hw ha, askFactor, if_pos hpos]
    exact scaledDepth_le_iff hd tightenFactor_pos (tightenFactor_le_one he)
  · rw [abs_ask_le_iff habove hlt, biasAsk_eq ht hw, askFactor, if_neg hpos]
    refine (sub_le_iff_le_add'.mp ?_).trans (le_ceilTo ht)
    exact le_scaledDepth hd (le_add_of_nonneg_right hw)

/-- One level of a passive ladder. -/
theorem Level.Passive.moves_iff (h : l.Passive mid tick) (ht : 0 < tick) (he : 0 ≤ exitTighten) (hw : 0 ≤ addWiden) :
    MovesRight mid position l (l.1.map (biasBid mid position tick exitTighten addWiden),
      l.2.map (biasAsk mid position tick exitTighten addWiden)) ↔ RoomToTighten mid tick position exitTighten l := by
  have hbid : SideMoves mid (position < 0) l.1 (l.1.map (biasBid mid position tick exitTighten addWiden)) ↔
      (position < 0 → ∀ b ∈ l.1, tick * max (1 - exitTighten) (1 / 20) ≤ mid - b) := by
    rw [sideMoves_map]
    refine ⟨fun hall hneg b hb => ?_, fun hroom b hb => ?_⟩
    · exact (biasBid_moves ht he hw (h.bid b hb).1 (h.bid b hb).2).1.mp (hall b hb).1 hneg
    · obtain ⟨hiff, hadd⟩ := biasBid_moves ht he hw (h.bid b hb).1 (h.bid b hb).2
      exact ⟨hiff.mpr fun hneg => hroom hneg b hb, hadd⟩
  have hask : SideMoves mid (0 < position) l.2 (l.2.map (biasAsk mid position tick exitTighten addWiden)) ↔
      (0 < position → ∀ a ∈ l.2, tick * max (1 - exitTighten) (1 / 20) ≤ a - mid) := by
    rw [sideMoves_map]
    refine ⟨fun hall hpos a ha => ?_, fun hroom a ha => ?_⟩
    · exact (biasAsk_moves ht he hw (h.ask a ha).1 (h.ask a ha).2).1.mp (hall a ha).1 hpos
    · obtain ⟨hiff, hadd⟩ := biasAsk_moves ht he hw (h.ask a ha).1 (h.ask a ha).2
      exact ⟨hiff.mpr fun hpos => hroom hpos a ha, hadd⟩
  exact ⟨fun hm => ⟨hbid.mp hm.bid, hask.mp hm.ask⟩, fun hr => ⟨hbid.mpr hr.1, hask.mpr hr.2⟩⟩

/-- **Which way the bias moves the quotes.** On every passive ladder the reducing quotes come no further
from the mid, the other ones no closer, and suppressed sides stay suppressed, if and only if the bias is
not applied or every reducing quote has room to be tightened. -/
theorem bias_moves_right_iff (levels : List Level) (mid tick position maxPosUsd adverseBps adverseThresholdBps : ℚ)
    (cfg : InventoryExitBias) (ht : 0 < tick) (h : Passive mid tick levels) :
    List.Forall₂ (MovesRight mid position) levels
        (applyInventoryExitBias levels mid position maxPosUsd adverseBps adverseThresholdBps cfg tick) ↔
      (BiasApplies mid position maxPosUsd adverseBps adverseThresholdBps cfg → ∀ l ∈ levels, RoomToTighten mid tick
        position (exitBiasFactors (|position| * mid / maxPosUsd) adverseBps adverseThresholdBps cfg).1 l) := by
  rcases applyInventoryExitBias_cases levels mid position maxPosUsd adverseBps adverseThresholdBps cfg tick with
    ⟨hnot, heq⟩ | ⟨happly, e, w, hfactors, heq⟩
  · rw [heq]
    refine iff_of_true ?_ fun happly => absurd happly hnot
    exact List.forall₂_same.mpr fun l _ => ⟨.refl _ _ _, .refl _ _ _⟩
  · obtain ⟨he, hw⟩ : 0 ≤ (exitBiasFactors (|position| * mid / maxPosUsd) adverseBps adverseThresholdBps cfg).1 ∧
        0 ≤ (exitBiasFactors (|position| * mid / maxPosUsd) adverseBps adverseThresholdBps cfg).2 :=
      exitBiasFactors_nonneg happly.ratio_nonneg
    rw [hfactors] at he hw
    rw [heq, hfactors, List.forall₂_map_right_iff, List.forall₂_same]
    exact ⟨fun hall _ l hl => ((h l hl).moves_iff ht he hw).mp (hall l hl),
      fun hroom l hl => ((h l hl).moves_iff ht he hw).mpr (hroom happly l hl)⟩

/-- A ladder around 100.05 whose ask is half a tick away. -/
def nearLadder : List Level := [(some 100, some (1001 / 10))]

theorem passive_nearLadder : Passive (2001 / 20) (1 / 10) nearLadder := by
  intro l hl
  rw [nearLadder, List.mem_singleton] at hl
  subst hl
  refine ⟨?_, ?_⟩
  · rintro _ ⟨⟩
    exact ⟨⟨1000, by norm_num⟩, by norm_num⟩
  · rintro _ ⟨⟩
    exact ⟨⟨1001, by norm_num⟩, by norm_num⟩

theorem bias_moves_right_iff_near :
    List.Forall₂ (MovesRight (2001 / 20) 1) nearLadder
        (applyInventoryExitBias nearLadder (2001 / 20) 1 100 0 2 .default (1 / 10)) ↔
      (BiasApplies (2001 / 20) 1 100 0 2 .default → ∀ l ∈ nearLadder, RoomToTighten (2001 / 20) (1 / 10) 1
        (exitBiasFactors (|1| * (2001 / 20) / 100) 0 2 .default).1 l) :=
  bias_moves_right_iff nearLadder (2001 / 20) (1 / 10) 1 100 0 2 .default (by norm_num) passive_nearLadder

/-- **An exit half a tick from the mid moves away**: the ask at 100.1 goes to 100.2. -/
theorem near_exit_moves_away :
    ¬ ∀ (levels : List Level) (mid tick position maxPosUsd adverseBps adverseThresholdBps : ℚ)
      (cfg : InventoryExitBias), 0 < mid → 0 < tick → position ≠ 0 → Passive mid tick levels →
      List.Forall₂ (MovesRight mid position) levels
        (applyInventoryExitBias levels mid position maxPosUsd adverseBps adverseThresholdBps cfg tick) := by
  intro h
  have hall := h nearLadder (2001 / 20) (1 / 10) 1 100 0 2 .default (by norm_num) (by norm_num) one_ne_zero
    passive_nearLadder
  have hbiased : applyInventoryExitBias nearLadder (2001 / 20) 1 100 0 2 .default (1 / 10) =
      [(some (998 / 10), some (1002 / 10))] := by decide +kernel
  rw [hbiased, nearLadder, List.forall₂_cons] at hall
  obtain ⟨_, ⟨⟩, hcloser, -⟩ := hall.1.ask.2 _ rfl
  exact absurd (hcloser one_pos) (by norm_num [abs_le])

end LighterMM
