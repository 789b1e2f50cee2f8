import LighterMM.Strategy.VolObi
import LighterMM.Strategy.Windows

/-!
# The step clock of the volatility samples (`strategy/vol_obi.rs`)

The calls of `on_book_update` since the last reset, and which of them are sampled: the first, then each
whose timestamp is at least the step after the last sampled one, whatever the order of the timestamps
(`sampleStep`). `Shaped` is what a calculator keeps through everything, `Samples` what it has of the
sampled calls: the last one, their number, and the windows of the mid changes and of the imbalances.
One update samples exactly the calls of the definition (`Samples.onBookUpdate`), and so does a run with
resets and overrides in between (`run_samples`).
-/

namespace LighterMM

/-- The arguments of one call of `on_book_update`. -/
structure BookUpdateCall where
  nowNs : ℤ
  midPrice : ℚ
  bids : BookSide
  asks : BookSide

inductive VolObiOp where
  | update (u : BookUpdateCall)
  | alphaOverride (alpha : Option ℚ)
  | maxPositionDollar (value : ℚ)
  | reset

namespace VolObiCalculator

def step (sqrt : ℚ → ℚ) (c : VolObiCalculator) : VolObiOp → VolObiCalculator
  | .update u => c.onBookUpdate sqrt u.nowNs u.midPrice u.bids u.asks
  | .alphaOverride a => c.setAlphaOverride a
  | .maxPositionDollar v => c.setMaxPositionDollar v
  | .reset => c.reset

def run (sqrt : ℚ → ℚ) (c : VolObiCalculator) (ops : List VolObiOp) : VolObiCalculator :=
  ops.foldl (step sqrt) c

/-- The updates since the last reset, one operation on. -/
def callsStep (us : List BookUpdateCall) : VolObiOp → List BookUpdateCall
  | .update u => us ++ [u]
  | .reset => []
  | _ => us

def calls (ops : List VolObiOp) : List BookUpdateCall := ops.foldl callsStep []

end VolObiCalculator

/-! ## The sampled calls -/

namespace BookUpdateCall

/-- A call is sampled if it is the first, or at least the step after the last sampled one. -/
def accepts (stepNs : ℤ) (s : List BookUpdateCall) (u : BookUpdateCall) : Bool :=
  s.getLast?.all fun last => decide (last.nowNs + stepNs ≤ u.nowNs)

def sampleStep (stepNs : ℤ) (s : List BookUpdateCall) (u : BookUpdateCall) : List BookUpdateCall :=
  if accepts stepNs s u then s ++ [u] else s

def sampled (stepNs : ℤ) (us : List BookUpdateCall) : List BookUpdateCall := us.foldl (sampleStep stepNs) []

/-- The differences of consecutive mids. -/
def midChanges : List BookUpdateCall → List ℚ
  | u :: u' :: us => (u'.midPrice - u.midPrice) :: midChanges (u' :: us)
  | _ => []

/-- Size imbalance of a call within a looking depth. -/
def imbalanceWithin (lookingDepth : ℚ) (u : BookUpdateCall) : ℚ :=
  u.bids.sumSizesFrom (u.midPrice * (1 - lookingDepth)) - u.asks.sumSizesTo (u.midPrice * (1 + lookingDepth))

variable {stepNs : ℤ} {s us : List BookUpdateCall} {u last : BookUpdateCall}

theorem sampled_concat (stepNs : ℤ) (us : List BookUpdateCall) (u : BookUpdateCall) :
    sampled stepNs (us ++ [u]) = sampleStep stepNs (sampled stepNs us) u := by
  rw [sampled, List.foldl_concat, sampled]

theorem sampled_subset (stepNs : ℤ) (us : List BookUpdateCall) : sampled stepNs us ⊆ us := by
  induction us using List.reverseRecOn with
  | nil => exact List.Subset.refl _
  | append_singleton us u ih =>
    rw [sampled_concat, sampleStep]
    split
    · exact List.append_subset.mpr ⟨List.subset_append_of_subset_left _ ih, List.subset_append_right _ _⟩
    · exact List.subset_append_of_subset_left _ ih

theorem midChanges_concat (s : List BookUpdateCall) (last u : BookUpdateCall) :
    midChanges (s ++ [last] ++ [u]) = midChanges (s ++ [last]) ++ [u.midPrice - last.midPrice] := by
  induction s with
  | nil => rfl
  | cons a s ih =>
    cases s with
    | nil => rfl
    | cons b s => simpa [midChanges] using ih

theorem length_midChanges (s : List BookUpdateCall) : (midChanges s).length = s.length - 1 := by
  induction s with
  | nil => rfl
  | cons a s ih =>
    cases s with
    | nil => rfl
    | cons b s => simp [midChanges, ih]

end BookUpdateCall

/-! ## What a calculator has of them -/

namespace VolObiCalculator

open BookUpdateCall

/-- What a calculator of `cfg` keeps through every call and reset. -/
structure Shaped (cfg : VolObiConfig) (c : VolObiCalculator) : Prop where
  stepNs : c.stepNs = max cfg.stepNs 1
  depth : c.lookingDepth = cfg.lookingDepth
  warmup : c.minWarmupSamples = cfg.minWarmupSamples
  midCapacity : c.midStats.capacity = cfg.windowSteps
  imbCapacity : c.imbStats.capacity = cfg.windowSteps
  mid : ∃ w, c.midStats.Exact w
  imb : ∃ w, c.imbStats.Exact w

/-- What it has of the sampled calls `s`. -/
structure Samples (cfg : VolObiConfig) (c : VolObiCalculator) (s : List BookUpdateCall) : Prop where
  last : c.lastSampleNs = (s.getLast?.map nowNs).getD 0
  prev : c.prevMid = (s.getLast?.map midPrice).getD 0
  hasPrev : c.hasPrevMid = !s.isEmpty
  total : c.totalSamples = ((s.length - 1 : ℕ) : ℤ)
  mid : c.midStats.Exact ((midChanges s).rtake cfg.windowSteps)
  imb : c.imbStats.Exact ((s.map (imbalanceWithin cfg.lookingDepth)).rtake cfg.windowSteps)

variable {sqrt : ℚ → ℚ} {cfg : VolObiConfig} {c : VolObiCalculator} {s us : List BookUpdateCall}
  {u : BookUpdateCall}

theorem shaped_new (h : 1 ≤ cfg.windowSteps) (tick maxPos : ℚ) : Shaped cfg (new sqrt cfg tick maxPos) where
  stepNs := rfl
  depth := rfl
  warmup := rfl
  midCapacity := rfl
  imbCapacity := rfl
  mid := ⟨_, RollingStats.exact_new h⟩
  imb := ⟨_, RollingStats.exact_new h⟩

theorem samples_new (h : 1 ≤ cfg.windowSteps) (tick maxPos : ℚ) : Samples cfg (new sqrt cfg tick maxPos) [] where
  last := rfl
  prev := rfl
  hasPrev := rfl
  total := rfl
  mid := by simpa [midChanges, new] using RollingStats.exact_new h
  imb := by simpa [new] using RollingStats.exact_new h

theorem Shaped.reset (h : Shaped cfg c) : Shaped cfg c.reset ∧ Samples cfg c.reset [] := by
  obtain ⟨w, hw⟩ := h.mid
  obtain ⟨w', hw'⟩ := h.imb
  have hmid : c.reset.midStats.Exact [] := hw.clear
  have himb : c.reset.imbStats.Exact [] := hw'.clear
  exact ⟨⟨h.stepNs, h.depth, h.warmup, h.midCapacity, h.imbCapacity, ⟨_, hmid⟩, ⟨_, himb⟩⟩,
    ⟨rfl, rfl, rfl, rfl, by simpa [midChanges] using hmid, by simpa using himb⟩⟩

/-- The windows of an update: the first half of `on_book_update`. -/
def sampleUpdate (sqrt : ℚ → ℚ) (c : VolObiCalculator) (u : BookUpdateCall) : VolObiCalculator :=
  { c.sampleMid sqrt u.nowNs u.midPrice with
    imbStats := c.imbStats.push sqrt (u.imbalanceWithin c.lookingDepth) }

/-- The quoting fields, of which neither predicate speaks. -/
def withAlpha (c : VolObiCalculator) (warmedUp : Bool) (volatility localAlpha alpha : ℚ) : VolObiCalculator :=
  { c with warmedUp := warmedUp, volatility := volatility, localAlpha := localAlpha, alpha := alpha }

theorem Shaped.withAlpha (h : Shaped cfg c) (w : Bool) (v l a : ℚ) : Shaped cfg (c.withAlpha w v l a) :=
  ⟨h.stepNs, h.depth, h.warmup, h.midCapacity, h.imbCapacity, h.mid, h.imb⟩

theorem Samples.withAlpha (h : Samples cfg c s) (w : Bool) (v l a : ℚ) :
    Samples cfg (c.withAlpha w v l a) s :=
  ⟨h.last, h.prev, h.hasPrev, h.total, h.mid, h.imb⟩

/-- An update samples if it is due, and then refreshes the quoting fields: it is warm if it was or has the
samples. -/
theorem onBookUpdate_eq (sqrt : ℚ → ℚ) (c : VolObiCalculator) (u : BookUpdateCall) :
    let c₁ := if c.sampleDue u.nowNs then c.sampleUpdate sqrt u else c
    ∃ v l a, c.onBookUpdate sqrt u.nowNs u.midPrice u.bids u.asks =
      c₁.withAlpha (c₁.warmedUp || decide (c₁.minWarmupSamples ≤ c₁.totalSamples)) v l a := by
  intro c₁
  have hd : (c.sampleMid sqrt u.nowNs u.midPrice).lookingDepth = c.lookingDepth := by
    simp only [sampleMid]
    split <;> rfl
  have hi : (c.sampleMid sqrt u.nowNs u.midPrice).imbStats = c.imbStats := by
    simp only [sampleMid]
    split <;> rfl
  have hc₁ : c.onBookUpdate sqrt u.nowNs u.midPrice u.bids u.asks =
      if c₁.minWarmupSamples ≤ c₁.totalSamples then
        c₁.withAlpha true (if c.sampleDue u.nowNs then c₁.midStats.std * c₁.volScale else c₁.volatility)
          (c₁.imbStats.zscore (u.imbalanceWithin c.lookingDepth))
          (if c₁.hasAlphaOverride then c₁.alphaOverride
            else c₁.imbStats.zscore (u.imbalanceWithin c.lookingDepth))
      else c₁ := by
    cases hdue : c.sampleDue u.nowNs with
    | true =>
      have hc₁ : c₁ = c.sampleUpdate sqrt u := if_pos hdue
      simp only [hc₁, onBookUpdate, hdue, if_true, imbalance, imbalanceWithin, sampleUpdate, withAlpha, hd, hi]
    | false =>
      have hc₁ : c₁ = c := if_neg (by rw [hdue]; exact Bool.false_ne_true)
      simp only [hc₁, onBookUpdate, hdue, Bool.false_eq_true, if_false]
      rfl
  by_cases hw : c₁.minWarmupSamples ≤ c₁.totalSamples
  · rw [hc₁, if_pos hw, decide_eq_true hw, Bool.or_true]
    exact ⟨_, _, _, rfl⟩
  · rw [hc₁, if_neg hw, decide_eq_false hw, Bool.or_false]
    exact ⟨c₁.volatility, c₁.localAlpha, c₁.alpha, rfl⟩

/-! ## One update -/

theorem sampleUpdate_eq (sqrt : ℚ → ℚ) (c : VolObiCalculator) (u : BookUpdateCall) :
    c.sampleUpdate sqrt u = { c with
      midStats := if c.hasPrevMid then c.midStats.push sqrt (u.midPrice - c.prevMid) else c.midStats
      totalSamples := c.totalSamples + if c.hasPrevMid then 1 else 0
      prevMid := u.midPrice
      hasPrevMid := true
      lastSampleNs := u.nowNs
      imbStats := c.imbStats.push sqrt (u.imbalanceWithin c.lookingDepth) } := by
  simp only [sampleUpdate, sampleMid]
  split
  · rfl
  · simp only [add_zero]

theorem Shaped.sampleUpdate (h : Shaped cfg c) (sqrt : ℚ → ℚ) (u : BookUpdateCall) :
    Shaped cfg (c.sampleUpdate sqrt u) := by
  obtain ⟨w, hw⟩ := h.mid
  obtain ⟨w', hw'⟩ := h.imb
  have himb := hw'.push sqrt (u.imbalanceWithin c.lookingDepth)
  have himbCap := hw'.withRoom.2.trans h.imbCapacity
  rw [sampleUpdate_eq]
  cases hprev : c.hasPrevMid with
  | true =>
    exact ⟨h.stepNs, h.depth, h.warmup, hw.withRoom.2.trans h.midCapacity, himbCap,
      ⟨_, hw.push sqrt (u.midPrice - c.prevMid)⟩, ⟨_, himb⟩⟩
  | false => exact ⟨h.stepNs, h.depth, h.warmup, h.midCapacity, himbCap, ⟨_, hw⟩, ⟨_, himb⟩⟩

theorem Shaped.windowSteps_pos (h : Shaped cfg c) : 0 < cfg.windowSteps := by
  obtain ⟨w, hw⟩ := h.mid
  rw [← h.midCapacity]
  exact (Nat.zero_le _).trans_lt hw.pos

/-- A sampled call is the last of the sampled ones. -/
theorem Samples.sampleUpdate (hs : Shaped cfg c) (h : Samples cfg c s) (sqrt : ℚ → ℚ) (u : BookUpdateCall) :
    Samples cfg (c.sampleUpdate sqrt u) (s ++ [u]) where
  last := by
    rw [List.getLast?_concat]
    rfl
  prev := by
    rw [List.getLast?_concat]
    rfl
  hasPrev := by simp [sampleUpdate_eq]
  total := by
    simp only [sampleUpdate_eq, h.total, h.hasPrev]
    cases s with
    | nil => rfl
    | cons a s => simp
  mid := by
    simp only [sampleUpdate_eq, h.hasPrev]
    cases hlast : s.getLast? with
    | none =>
      have hnil : s = [] := List.getLast?_eq_none_iff.mp hlast
      subst hnil
      exact h.mid
    | some last =>
      obtain ⟨s', rfl⟩ := List.getLast?_eq_some_iff.mp hlast
      have hprev : c.prevMid = last.midPrice := by rw [h.prev, hlast]; rfl
      have hpush := h.mid.push sqrt (u.midPrice - last.midPrice)
      rw [hs.midCapacity, RingBuffer.rtake_concat_rtake hs.windowSteps_pos, ← midChanges_concat] at hpush
      simpa [hprev] using hpush
  imb := by
    have hpush := h.imb.push sqrt (u.imbalanceWithin cfg.lookingDepth)
    rw [hs.imbCapacity, RingBuffer.rtake_concat_rtake hs.windowSteps_pos] at hpush
    simp only [sampleUpdate_eq, hs.depth]
    rw [List.map_append, List.map_singleton]
    exact hpush

/-- The sentinel of the first sample is told from a timestamp, which is positive. -/
theorem Samples.sampleDue (hs : Shaped cfg c) (h : Samples cfg c s) (hpos : ∀ u ∈ s, 0 < u.nowNs)
    (u : BookUpdateCall) : c.sampleDue u.nowNs = accepts (max cfg.stepNs 1) s u := by
  rw [VolObiCalculator.sampleDue, accepts, h.last, hs.stepNs]
  cases hlast : s.getLast? with
  | none => rfl
  | some last =>
    have hp : 0 < last.nowNs := hpos last (List.mem_of_getLast? hlast)
    refine decide_eq_decide.mpr ?_
    simp only [Option.map_some, Option.getD_some]
    omega

/-! ## A run -/

/-- A calculator after the calls `us` since its last reset. -/
structure Clocked (cfg : VolObiConfig) (c : VolObiCalculator) (us : List BookUpdateCall) : Prop where
  shaped : Shaped cfg c
  samples : (∀ u ∈ us, 0 < u.nowNs) → Samples cfg c (sampled (max cfg.stepNs 1) us)
  warm : c.warmedUp = true → cfg.minWarmupSamples ≤ c.totalSamples
  warmed : us ≠ [] → cfg.minWarmupSamples ≤ c.totalSamples → c.warmedUp = true

theorem Clocked.onBookUpdate (h : Clocked cfg c us) (sqrt : ℚ → ℚ) (u : BookUpdateCall) :
    Clocked cfg (c.onBookUpdate sqrt u.nowNs u.midPrice u.bids u.asks) (us ++ [u]) := by
  obtain ⟨v, l, a, hc⟩ := onBookUpdate_eq sqrt c u
  generalize hc₁ : (if c.sampleDue u.nowNs then c.sampleUpdate sqrt u else c) = c₁ at hc
  have hkept : Shaped cfg c₁ ∧ c.totalSamples ≤ c₁.totalSamples ∧ c₁.warmedUp = c.warmedUp := by
    subst hc₁
    split
    · refine ⟨h.shaped.sampleUpdate sqrt u, ?_, by rw [sampleUpdate_eq]⟩
      simp only [sampleUpdate_eq]
      split <;> omega
    · exact ⟨h.shaped, le_refl _, rfl⟩
  obtain ⟨hshaped, htotal, hwarm⟩ := hkept
  rw [hc, hshaped.warmup, hwarm]
  refine ⟨hshaped.withAlpha _ v l a, fun hpos => ?_, fun hw => ?_, fun _ hw => ?_⟩
  · have hus : ∀ u ∈ us, 0 < u.nowNs := fun u' hu' => hpos u' (List.mem_append_left _ hu')
    have hs := h.samples hus
    refine Samples.withAlpha ?_ _ v l a
    rw [sampled_concat, sampleStep, ← hc₁,
      hs.sampleDue h.shaped (fun u' hu' => hus u' (sampled_subset _ _ hu'))]
    split
    · exact hs.sampleUpdate h.shaped sqrt u
    · exact hs
  · rcases Bool.or_eq_true_iff.mp hw with hold | hnew
    · exact (h.warm hold).trans htotal
    · exact of_decide_eq_true hnew
  · exact Bool.or_eq_true_iff.mpr (.inr (decide_eq_true hw))

/-- The settings of which the samples know nothing. -/
theorem Clocked.withSettings (h : Clocked cfg c us) (has : Bool) (override alpha maxPos : ℚ) :
    Clocked cfg { c with
      hasAlphaOverride := has
      alphaOverride := override
      alpha := alpha
      maxPositionDollar := maxPos } us where
  shaped := ⟨h.shaped.stepNs, h.shaped.depth, h.shaped.warmup, h.shaped.midCapacity,
    h.shaped.imbCapacity, h.shaped.mid, h.shaped.imb⟩
  samples := fun hpos => ⟨(h.samples hpos).last, (h.samples hpos).prev, (h.samples hpos).hasPrev,
    (h.samples hpos).total, (h.samples hpos).mid, (h.samples hpos).imb⟩
  warm := h.warm
  warmed := h.warmed

theorem Clocked.step (h : Clocked cfg c us) (sqrt : ℚ → ℚ) (op : VolObiOp) :
    Clocked cfg (c.step sqrt op) (callsStep us op) := by
  cases op with
  | update u => exact h.onBookUpdate sqrt u
  | reset =>
    refine ⟨h.shaped.reset.1, fun _ => h.shaped.reset.2, fun hw => ?_, fun hne => absurd rfl hne⟩
    exact absurd hw Bool.false_ne_true
  | maxPositionDollar v => exact h.withSettings c.hasAlphaOverride c.alphaOverride c.alpha _
  | alphaOverride a =>
    cases a with
    | none =>
      simp only [VolObiCalculator.step, setAlphaOverride]
      split
      · exact h.withSettings false c.alphaOverride c.localAlpha c.maxPositionDollar
      · exact h.withSettings false c.alphaOverride c.alpha c.maxPositionDollar
    | some a =>
      simp only [VolObiCalculator.step, setAlphaOverride]
      split
      · exact h.withSettings true a a c.maxPositionDollar
      · exact h.withSettings true a c.alpha c.maxPositionDollar

theorem run_clocked (sqrt : ℚ → ℚ) (hcap : 1 ≤ cfg.windowSteps) (tick maxPos : ℚ) (ops : List VolObiOp) :
    Clocked cfg ((new sqrt cfg tick maxPos).run sqrt ops) (calls ops) := by
  induction ops using List.reverseRecOn with
  | nil =>
    refine ⟨shaped_new hcap tick maxPos, fun _ => samples_new hcap tick maxPos, fun hw => ?_,
      fun hne => absurd rfl hne⟩
    exact absurd hw Bool.false_ne_true
  | append_singleton ops op ih =>
    rw [run, List.foldl_concat, calls, List.foldl_concat]
    exact ih.step sqrt op

/-- The windows hold the last samples of the step clock, and the warm-up counts them. -/
theorem run_samples (sqrt : ℚ → ℚ) (hcap : 1 ≤ cfg.windowSteps) (tick maxPos : ℚ) (ops : List VolObiOp)
    (hpos : ∀ u ∈ calls ops, 0 < u.nowNs) :
    let c₀ := new sqrt cfg tick maxPos
    let c := c₀.run sqrt ops
    let s := sampled c₀.stepNs (calls ops)
    c.totalSamples = ((s.length - 1 : ℕ) : ℤ) ∧
      c.midStats.window = (midChanges s).rtake cfg.windowSteps ∧
      (c.midStats.window.length : ℤ) = min c.totalSamples cfg.windowSteps ∧
      c.imbStats.window = (s.map (imbalanceWithin cfg.lookingDepth)).rtake cfg.windowSteps ∧
      (calls ops ≠ [] → (c.warmedUp = true ↔ cfg.minWarmupSamples ≤ c.totalSamples)) := by
  intro c₀ c s
  have h : Clocked cfg c (calls ops) := run_clocked sqrt hcap tick maxPos ops
  have hs : Samples cfg c s := h.samples hpos
  refine ⟨hs.total, hs.mid.window, ?_, hs.imb.window, fun hne => ⟨h.warm, h.warmed hne⟩⟩
  rw [hs.mid.window, hs.total, List.rtake, List.length_drop, length_midChanges]
  omega

/-- A step of two nanoseconds: a call too early and a clock step backwards are not sampled. -/
theorem run_samples_skips :
    let cfg : VolObiConfig := ⟨2, 2, 0, 0, 0, 0, 0, 0, 1⟩
    let u (t : ℤ) (m : ℚ) : VolObiOp := .update ⟨t, m, .new, .new⟩
    let c := (new id cfg 1 0).run id [u 9 5, .reset, u 1 10, u 2 11, u 3 13, u 1 12, u 5 16]
    c.totalSamples = 2 ∧ c.midStats.window = [3, 3] := by
  intro cfg u c
  have h := @run_samples cfg id (by decide) 1 0
    [u 9 5, .reset, u 1 10, u 2 11, u 3 13, u 1 12, u 5 16] (by simp [u, calls, callsStep])
  refine ⟨h.1.trans ?_, h.2.1.trans ?_⟩
  · rfl
  · norm_num [sampled, sampleStep, accepts, midChanges, calls, callsStep, new, cfg, u, List.rtake]

end VolObiCalculator

end LighterMM
