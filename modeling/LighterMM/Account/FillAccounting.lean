import LighterMM.Types

/-!
# Live fill accounting (`account/fill_accounting.rs`)

A signed position with its entry VWAP, and the realized PnL net of maker fees. A fill opens a
position, adds to it, reduces it, closes it or flips it to the other side (`legs`).

- **On the venue's amount grid** (`Fill.Valid`) a fill moves the position by exactly its signed size,
  because no position but `0` is below `epsilon` there (`legs_spec`).
- **The books balance** (`Balanced`): realized PnL and open position together are what the fills
  cost (`pnl_identity`), and the VWAP is a mean of the prices since the position was opened.
-/

namespace LighterMM

/-- `size` if we bought, `-size` if we sold. -/
def Side.signed (side : Side) (size : ℚ) : ℚ :=
  match side with
  | .buy => size
  | .sell => -size

structure FillResult where
  positionAfter : ℚ
  realizedDelta : ℚ
  realizedCumulative : ℚ
  entryVwapAfter : ℚ
  feeUsd : ℚ
  deriving DecidableEq, Repr

structure FillAccounting where
  makerFeeRate : ℚ
  positionSize : ℚ
  entryVwap : ℚ
  realizedPnlCumulative : ℚ
  fillCount : ℕ
  volumeUsd : ℚ
  deriving DecidableEq, Repr

/-- What a fill makes of position and VWAP, and what its closed leg realizes before the fee. -/
structure Legs where
  position : ℚ
  vwap : ℚ
  closed : ℚ
  deriving DecidableEq, Repr

namespace FillAccounting

def new (makerFeeRate : ℚ) : FillAccounting := ⟨makerFeeRate, 0, 0, 0, 0, 0⟩

/-- Restores position, VWAP and realized PnL; the counters start over. -/
def fromSnapshot (makerFeeRate position vwap realizedCum : ℚ) : FillAccounting :=
  ⟨makerFeeRate, position, vwap, realizedCum, 0, 0⟩

def legs (pos vwap : ℚ) (side : Side) (price size : ℚ) : Legs :=
  let signedFill := side.signed size
  if |pos| < epsilon then
    -- Flat: open at the price.
    ⟨signedFill, if epsilon ≤ |signedFill| then price else 0, 0⟩
  else if 0 < pos * signedFill then
    ⟨pos + signedFill, (|pos| * vwap + |signedFill| * price) / (|pos| + |signedFill|), 0⟩
  else
    let closingSize := min |pos| |signedFill|
    let closed :=
      if 0 < pos ∧ side = .sell then (price - vwap) * closingSize
      else if pos < 0 ∧ side = .buy then (vwap - price) * closingSize
      else 0
    let candidate := pos + signedFill
    if |candidate| < epsilon then ⟨0, 0, closed⟩
    else if 0 < pos * candidate then ⟨candidate, vwap, closed⟩
    else ⟨candidate, price, closed⟩

/-- Applies a single fill. -/
def apply (a : FillAccounting) (side : Side) (price size : ℚ) : FillAccounting × FillResult :=
  let feeUsd := |price * size * a.makerFeeRate|
  let l := legs a.positionSize a.entryVwap side price size
  let realizedDelta := -feeUsd + l.closed
  let a' : FillAccounting :=
    { a with
      positionSize := l.position
      entryVwap := l.vwap
      realizedPnlCumulative := a.realizedPnlCumulative + realizedDelta
      fillCount := a.fillCount + 1
      volumeUsd := a.volumeUsd + |price * size| }
  (a', ⟨l.position, realizedDelta, a'.realizedPnlCumulative, l.vwap, feeUsd⟩)

end FillAccounting

/-- A fill of ours. -/
structure Fill where
  side : Side
  price : ℚ
  size : ℚ
  deriving DecidableEq, Repr

namespace Fill

def signed (f : Fill) : ℚ := f.side.signed f.size

def fee (rate : ℚ) (f : Fill) : ℚ := |f.price * f.size * rate|

/-- A positive price, and a size that is a positive multiple of the lot. -/
structure Valid (lot : ℚ) (f : Fill) : Prop where
  price : 0 < f.price
  size : 0 < f.size
  grid : f.size ∈ AddSubgroup.zmultiples lot

end Fill

namespace FillAccounting

/-- `apply` over a sequence of fills. -/
def applyAll (a : FillAccounting) (fills : List Fill) : FillAccounting :=
  fills.foldl (fun a f => (a.apply f.side f.price f.size).1) a

/-- The net position of the fills. -/
def netPosition (fills : List Fill) : ℚ := (fills.map Fill.signed).sum

/-- The fills since the position was last flat or flipped: the one that opened or flipped it, and all
after it. -/
def openFills (fills : List Fill) : List Fill :=
  (fills.foldl (fun (s : ℚ × List Fill) f =>
    let pos := s.1 + f.signed
    (pos, if pos = 0 then [] else if s.1 * pos ≤ 0 then [f] else s.2 ++ [f])) (0, [])).2

example : openFills [⟨.buy, 100, 2⟩, ⟨.sell, 110, 5⟩, ⟨.buy, 90, 1⟩] =
    [⟨.sell, 110, 5⟩, ⟨.buy, 90, 1⟩] := by decide +kernel

/-! ## The grid -/

/-- A multiple of the lot that is smaller than the lot is `0`. -/
theorem eq_zero_of_lt_lot {lot x : ℚ} (hx : x ∈ AddSubgroup.zmultiples lot) (hlt : |x| < lot) :
    x = 0 := by
  obtain ⟨k, rfl⟩ := AddSubgroup.mem_zmultiples_iff.mp hx
  have hpos : 0 < lot := (abs_nonneg _).trans_lt hlt
  have hk : |(k : ℚ)| < 1 := by
    rw [zsmul_eq_mul, abs_mul, abs_of_pos hpos] at hlt
    exact (mul_lt_iff_lt_one_left hpos).mp hlt
  have hk0 : |k| < 1 := by exact_mod_cast hk
  rw [Int.abs_lt_one_iff.mp hk0, zero_smul]

end FillAccounting

namespace Fill.Valid

variable {lot : ℚ} {f : Fill}

theorem signed_mem (h : f.Valid lot) : f.signed ∈ AddSubgroup.zmultiples lot := by
  unfold signed Side.signed
  split
  · exact h.grid
  · exact neg_mem h.grid

theorem lot_le (h : f.Valid lot) : lot ≤ f.size := by
  by_contra hlt
  have h0 : f.size = 0 := FillAccounting.eq_zero_of_lt_lot h.grid (by rw [abs_of_pos h.size]; linarith)
  exact h.size.ne' h0

theorem abs_signed (h : f.Valid lot) : |f.signed| = f.size := by
  unfold signed Side.signed
  split
  · exact abs_of_pos h.size
  · rw [abs_neg, abs_of_pos h.size]

theorem signed_ne_zero (h : f.Valid lot) : f.signed ≠ 0 := by
  rw [← abs_pos, h.abs_signed]
  exact h.size

end Fill.Valid

namespace FillAccounting

variable {lot pos vwap rate : ℚ} {f : Fill}

/-! ## One fill -/

/-- What a fill does on the grid. `balance`: what is realized and what is held pay for the fill. -/
structure LegsSpec (pos vwap : ℚ) (f : Fill) (l : Legs) : Prop where
  position : l.position = pos + f.signed
  balance : l.closed - l.position * l.vwap = -(pos * vwap) - f.signed * f.price
  flat : l.position = 0 → l.vwap = 0
  opened : l.position ≠ 0 → pos * l.position ≤ 0 → l.vwap = f.price
  kept : 0 < pos * l.position → min vwap f.price ≤ l.vwap ∧ l.vwap ≤ max vwap f.price

/-- A weighted mean lies between the two values. -/
theorem mean_mem {a b x y : ℚ} (ha : 0 < a) (hb : 0 < b) :
    min x y ≤ (a * x + b * y) / (a + b) ∧ (a * x + b * y) / (a + b) ≤ max x y := by
  have hab : 0 < a + b := add_pos ha hb
  constructor
  · rw [le_div_iff₀ hab]
    have hx := mul_le_mul_of_nonneg_left (min_le_left x y) ha.le
    have hy := mul_le_mul_of_nonneg_left (min_le_right x y) hb.le
    linarith
  · rw [div_le_iff₀ hab]
    have hx := mul_le_mul_of_nonneg_left (le_max_left x y) ha.le
    have hy := mul_le_mul_of_nonneg_left (le_max_right x y) hb.le
    linarith

/-- On the grid a position is either `0` or not below `epsilon`. -/
theorem grid_small (hlot : epsilon < lot) {x : ℚ} (hx : x ∈ AddSubgroup.zmultiples lot) :
    |x| < epsilon ↔ x = 0 := by
  constructor
  · intro h
    exact eq_zero_of_lt_lot hx (h.trans hlot)
  · rintro rfl
    rw [abs_zero]
    exact epsilon_pos

/-- What the closed leg realizes: `min |pos| |s|` of the position at the price. -/
theorem closed_eq (hsign : pos * f.signed < 0) (hf : 0 < f.size) :
    (if 0 < pos ∧ f.side = .sell then (f.price - vwap) * min |pos| |f.signed|
      else if pos < 0 ∧ f.side = .buy then (vwap - f.price) * min |pos| |f.signed| else 0) =
    if |f.signed| ≤ |pos| then -f.signed * (f.price - vwap) else pos * (f.price - vwap) := by
  obtain ⟨side, price, size⟩ := f
  simp only [Fill.signed, Side.signed] at *
  cases side with
  | buy =>
    have hpos : pos < 0 := by
      by_contra h
      exact absurd hsign (not_lt.mpr (mul_nonneg (not_lt.mp h) hf.le))
    simp only [hpos, hpos.not_gt, abs_of_neg hpos, abs_of_pos hf, reduceCtorEq, if_false, and_self,
      if_true]
    split
    · rename_i h
      rw [min_eq_right h]
      ring
    · rename_i h
      rw [min_eq_left (not_le.mp h).le]
      ring
  | sell =>
    have hpos : 0 < pos := by
      by_contra h
      exact absurd hsign (not_lt.mpr (mul_nonneg_of_nonpos_of_nonpos (not_lt.mp h) (by linarith)))
    simp only [hpos, abs_neg, abs_of_pos hpos, abs_of_pos hf, and_self, if_true]
    split
    · rename_i h
      rw [min_eq_right h]
      ring
    · rename_i h
      rw [min_eq_left (not_le.mp h).le]
      ring

/-- `x * v` from the size and the side of `x`. -/
theorem add_mul_mean {x y v w : ℚ} (h : 0 < x * y) :
    (x + y) * ((|x| * v + |y| * w) / (|x| + |y|)) = x * v + y * w := by
  rcases pos_and_pos_or_neg_and_neg_of_mul_pos h with ⟨hx, hy⟩ | ⟨hx, hy⟩
  · rw [abs_of_pos hx, abs_of_pos hy]
    have := (add_pos hx hy).ne'
    field_simp
  · rw [abs_of_neg hx, abs_of_neg hy]
    have : -x + -y ≠ 0 := by linarith
    field_simp
    ring

/-- A fill of the other side leaves the position on its side as long as it is not larger. -/
theorem abs_le_abs_iff_of_opposite {x y : ℚ} (h : x * y < 0) : |y| ≤ |x| ↔ 0 ≤ x * (x + y) := by
  rcases mul_neg_iff.mp h with ⟨hx, hy⟩ | ⟨hx, hy⟩
  · rw [abs_of_pos hx, abs_of_neg hy, mul_nonneg_iff_of_pos_left hx]
    constructor <;> intro h <;> linarith
  · rw [abs_of_neg hx, abs_of_pos hy, ← neg_mul_neg, mul_nonneg_iff_of_pos_left (neg_pos.mpr hx)]
    constructor <;> intro h <;> linarith

/-- **One fill on the grid.** -/
theorem legs_spec (hlot : epsilon < lot) (hpos : pos ∈ AddSubgroup.zmultiples lot) (hf : f.Valid lot) :
    LegsSpec pos vwap f (legs pos vwap f.side f.price f.size) := by
  have hs : f.signed ≠ 0 := hf.signed_ne_zero
  have hcand : |pos + f.signed| < epsilon ↔ pos + f.signed = 0 :=
    grid_small hlot (add_mem hpos hf.signed_mem)
  unfold legs
  simp only
  change LegsSpec pos vwap f
    (if |pos| < epsilon then ⟨f.signed, if epsilon ≤ |f.signed| then f.price else 0, 0⟩
    else if 0 < pos * f.signed then
      ⟨pos + f.signed, (|pos| * vwap + |f.signed| * f.price) / (|pos| + |f.signed|), 0⟩
    else _)
  by_cases h0 : pos = 0
  · -- Flat: open.
    subst h0
    have hbig : epsilon ≤ |f.signed| := by
      rw [hf.abs_signed]
      exact hlot.le.trans hf.lot_le
    rw [if_pos (by rw [abs_zero]; exact epsilon_pos), if_pos hbig]
    exact ⟨by simp, by simp, fun h => absurd h hs, fun _ _ => rfl, fun h => absurd h (by simp)⟩
  rw [if_neg (mt (grid_small hlot hpos).mp h0)]
  rcases lt_or_gt_of_ne (mul_ne_zero h0 hs) with hsign | hsign
  · -- The other side: reduce, close or flip.
    rw [if_neg (not_lt.mpr hsign.le)]
    change LegsSpec pos vwap f
      (if |pos + f.signed| < epsilon then ⟨0, 0, _⟩
      else if 0 < pos * (pos + f.signed) then ⟨pos + f.signed, vwap, _⟩
      else ⟨pos + f.signed, f.price, _⟩)
    rw [show Side.signed f.side f.size = f.signed from rfl, closed_eq hsign hf.size]
    simp only [abs_le_abs_iff_of_opposite hsign]
    by_cases hflat : pos + f.signed = 0
    · rw [if_pos (hcand.mpr hflat), hflat, mul_zero, if_pos le_rfl]
      have hpos' : pos = -f.signed := eq_neg_of_add_eq_zero_left hflat
      refine ⟨hflat.symm, ?_, fun _ => rfl, fun h => absurd rfl h, fun h => absurd h (by simp)⟩
      rw [hpos']
      ring
    · rw [if_neg (mt hcand.mp hflat)]
      rcases lt_or_gt_of_ne (mul_ne_zero h0 hflat) with hflip | hkeep
      · rw [if_neg (not_lt.mpr hflip.le), if_neg (not_le.mpr hflip)]
        refine ⟨rfl, ?_, fun h => absurd h hflat, fun _ _ => rfl, fun h => absurd h (not_lt.mpr hflip.le)⟩
        dsimp only
        ring
      · rw [if_pos hkeep, if_pos hkeep.le]
        refine ⟨rfl, ?_, fun h => absurd h hflat, fun _ h => absurd hkeep (not_lt.mpr h),
          fun _ => ⟨min_le_left _ _, le_max_left _ _⟩⟩
        dsimp only
        ring
  · -- The same side: add.
    rw [if_pos hsign]
    have hsum : 0 < pos * (pos + f.signed) := by
      have := mul_self_pos.mpr h0
      linarith [mul_add pos pos f.signed]
    refine ⟨rfl, ?_, ?_, ?_, fun _ => mean_mem (abs_pos.mpr h0) (abs_pos.mpr hs)⟩
    · show 0 - (pos + f.signed) * _ = _
      rw [add_mul_mean hsign]
      ring
    · intro h
      rw [show pos + f.signed = 0 from h, mul_zero] at hsum
      exact absurd hsum (lt_irrefl _)
    · intro _ h
      exact absurd hsum (not_lt.mpr h)

/-! ## A run of fills -/

/-- The accounting after the fills `fills` from flat. -/
structure Balanced (rate lot : ℚ) (fills : List Fill) (a : FillAccounting) : Prop where
  feeRate : a.makerFeeRate = rate
  position : a.positionSize = netPosition fills
  grid : a.positionSize ∈ AddSubgroup.zmultiples lot
  balance : a.realizedPnlCumulative - a.positionSize * a.entryVwap =
    -(fills.map fun f => f.signed * f.price).sum - (fills.map (Fill.fee rate)).sum
  flat : a.positionSize = 0 → a.entryVwap = 0
  mean : a.positionSize ≠ 0 → ∃ lo ∈ openFills fills, ∃ hi ∈ openFills fills,
    lo.price ≤ a.entryVwap ∧ a.entryVwap ≤ hi.price

theorem netPosition_concat (fills : List Fill) (f : Fill) :
    netPosition (fills ++ [f]) = netPosition fills + f.signed := by
  simp [netPosition]

/-- The window after one more fill. -/
theorem openFills_concat (fills : List Fill) (f : Fill) :
    openFills (fills ++ [f]) =
      if netPosition (fills ++ [f]) = 0 then []
      else if netPosition fills * netPosition (fills ++ [f]) ≤ 0 then [f]
      else openFills fills ++ [f] := by
  have hfst : ∀ (fs : List Fill) (s : ℚ × List Fill), (fs.foldl (fun (s : ℚ × List Fill) f =>
      (s.1 + f.signed, if s.1 + f.signed = 0 then [] else if s.1 * (s.1 + f.signed) ≤ 0 then [f]
        else s.2 ++ [f])) s).1 = s.1 + netPosition fs := by
    intro fs
    induction fs with
    | nil => intro s; simp [netPosition]
    | cons g fs ih =>
      intro s
      rw [List.foldl_cons, ih]
      simp only [netPosition, List.map_cons, List.sum_cons]
      ring
  rw [netPosition_concat]
  unfold openFills
  rw [List.foldl_append]
  simp only [List.foldl_cons, List.foldl_nil]
  rw [hfst fills (0, []), zero_add]

theorem openFills_subset (fills : List Fill) : ∀ f ∈ openFills fills, f ∈ fills := by
  induction fills using List.reverseRecOn with
  | nil => intro f hf; exact hf
  | append_singleton fills f ih =>
    intro g hg
    rw [openFills_concat] at hg
    split at hg
    · cases hg
    · split at hg
      · exact List.mem_append_right _ hg
      · rcases List.mem_append.mp hg with h | h
        · exact List.mem_append_left _ (ih g h)
        · exact List.mem_append_right _ h

theorem balanced_new (rate lot : ℚ) : Balanced rate lot [] (new rate) where
  feeRate := rfl
  position := rfl
  grid := zero_mem _
  balance := by simp [new]
  flat := fun _ => rfl
  mean := fun h => absurd rfl h

/-- One more fill. -/
theorem Balanced.apply {fills : List Fill} {a : FillAccounting} (h : Balanced rate lot fills a)
    (hlot : epsilon < lot) (hf : f.Valid lot) :
    Balanced rate lot (fills ++ [f]) (a.apply f.side f.price f.size).1 := by
  have hspec : LegsSpec a.positionSize a.entryVwap f
      (legs a.positionSize a.entryVwap f.side f.price f.size) := legs_spec hlot h.grid hf
  have hnet : (legs a.positionSize a.entryVwap f.side f.price f.size).position =
      netPosition (fills ++ [f]) := by
    rw [hspec.position, h.position, netPosition_concat]
  refine ⟨h.feeRate, hnet, ?_, ?_, hspec.flat, ?_⟩
  · show (legs a.positionSize a.entryVwap f.side f.price f.size).position ∈ _
    rw [hspec.position]
    exact add_mem h.grid hf.signed_mem
  · have hfee : |f.price * f.size * a.makerFeeRate| = f.fee rate := by rw [h.feeRate]; rfl
    have hold := h.balance
    have hnew := hspec.balance
    simp only [FillAccounting.apply, List.map_append, List.sum_append, List.map_cons, List.map_nil,
      List.sum_cons, List.sum_nil, add_zero]
    rw [hfee]
    linarith
  · intro hne
    change (legs a.positionSize a.entryVwap f.side f.price f.size).position ≠ 0 at hne
    show ∃ lo ∈ openFills (fills ++ [f]), ∃ hi ∈ openFills (fills ++ [f]),
      lo.price ≤ (legs a.positionSize a.entryVwap f.side f.price f.size).vwap ∧
        (legs a.positionSize a.entryVwap f.side f.price f.size).vwap ≤ hi.price
    rw [openFills_concat, ← hnet, if_neg hne, ← h.position]
    rcases le_or_gt (a.positionSize * (legs a.positionSize a.entryVwap f.side f.price f.size).position) 0
      with hopen | hkept
    · rw [if_pos hopen]
      have hv := hspec.opened hne hopen
      exact ⟨f, List.mem_singleton_self f, f, List.mem_singleton_self f, hv.ge, hv.le⟩
    · rw [if_neg (not_le.mpr hkept)]
      have hf_mem : f ∈ openFills fills ++ [f] := List.mem_append_right _ (List.mem_singleton_self f)
      obtain ⟨lo, hlo, hi, hhi, hle, hge⟩ := h.mean (left_ne_zero_of_mul hkept.ne')
      obtain ⟨hmin, hmax⟩ := hspec.kept hkept
      -- The new VWAP lies between the old one and the fill's price.
      have hlow : ∃ lo' ∈ openFills fills ++ [f], lo'.price ≤ min a.entryVwap f.price := by
        rcases min_choice a.entryVwap f.price with he | he <;> rw [he]
        · exact ⟨lo, List.mem_append_left _ hlo, hle⟩
        · exact ⟨f, hf_mem, le_rfl⟩
      have hhigh : ∃ hi' ∈ openFills fills ++ [f], max a.entryVwap f.price ≤ hi'.price := by
        rcases max_choice a.entryVwap f.price with he | he <;> rw [he]
        · exact ⟨hi, List.mem_append_left _ hhi, hge⟩
        · exact ⟨f, hf_mem, le_rfl⟩
      obtain ⟨lo', hlo', hle'⟩ := hlow
      obtain ⟨hi', hhi', hge'⟩ := hhigh
      exact ⟨lo', hlo', hi', hhi', hle'.trans hmin, hmax.trans hge'⟩

theorem applyAll_concat (a : FillAccounting) (fills : List Fill) (f : Fill) :
    a.applyAll (fills ++ [f]) = ((a.applyAll fills).apply f.side f.price f.size).1 := by
  simp [applyAll]

theorem balanced_applyAll (hlot : epsilon < lot) (fills : List Fill) (hf : ∀ f ∈ fills, f.Valid lot) :
    Balanced rate lot fills ((new rate).applyAll fills) := by
  induction fills using List.reverseRecOn with
  | nil => exact balanced_new rate lot
  | append_singleton fills f ih =>
    rw [applyAll_concat]
    exact (ih fun g hg => hf g (List.mem_append_left _ hg)).apply hlot (hf f (by simp))

/-- What the fills are worth at `m`. -/
theorem sum_worth (fills : List Fill) (m : ℚ) :
    (fills.map fun f => f.signed * (m - f.price)).sum =
      netPosition fills * m - (fills.map fun f => f.signed * f.price).sum := by
  induction fills with
  | nil => simp [netPosition]
  | cons f fills ih =>
    simp only [netPosition, List.map_cons, List.sum_cons] at ih ⊢
    rw [ih]
    ring

/-- **The PnL identity**: realized PnL plus the open position marked at `m` is what the fills are
worth at `m` less their fees. The VWAP is `0` exactly when flat, and lies between the prices of the
open fills otherwise. -/
theorem pnl_identity (rate : ℚ) {lot : ℚ} (hlot : epsilon < lot) (fills : List Fill)
    (hf : ∀ f ∈ fills, f.Valid lot) (m : ℚ) :
    let a := (new rate).applyAll fills
    a.realizedPnlCumulative + a.positionSize * (m - a.entryVwap) =
        (fills.map fun f => f.signed * (m - f.price)).sum - (fills.map (Fill.fee rate)).sum ∧
      (a.entryVwap = 0 ↔ a.positionSize = 0) ∧
      (a.positionSize ≠ 0 → ∃ lo ∈ openFills fills, ∃ hi ∈ openFills fills,
        lo.price ≤ a.entryVwap ∧ a.entryVwap ≤ hi.price) := by
  intro a
  have h : Balanced rate lot fills a := balanced_applyAll hlot fills hf
  refine ⟨?_, ⟨fun hv => ?_, h.flat⟩, h.mean⟩
  · have hbal := h.balance
    rw [sum_worth, ← h.position, mul_sub]
    linarith
  · by_contra hne
    obtain ⟨lo, hlo, _, _, hle, _⟩ := h.mean hne
    have := (hf lo (openFills_subset fills lo hlo)).price
    linarith

theorem pnl_identity_round_trip :
    epsilon < 1 ∧ ((new 0).applyAll [⟨.buy, 100, 2⟩, ⟨.sell, 110, 2⟩]).realizedPnlCumulative = 20 := by
  have hlot : epsilon < 1 := by norm_num [epsilon]
  have hgrid : (2 : ℚ) ∈ AddSubgroup.zmultiples (1 : ℚ) :=
    AddSubgroup.mem_zmultiples_iff.mpr ⟨2, by norm_num⟩
  have h := pnl_identity 0 hlot [⟨.buy, 100, 2⟩, ⟨.sell, 110, 2⟩] (by
    intro f hf
    simp only [List.mem_cons, List.not_mem_nil, or_false] at hf
    rcases hf with rfl | rfl
    · exact ⟨by norm_num, by norm_num, hgrid⟩
    · exact ⟨by norm_num, by norm_num, hgrid⟩) 0
  have hflat : ((new 0).applyAll [⟨.buy, 100, 2⟩, ⟨.sell, 110, 2⟩]).positionSize = 0 := by decide +kernel
  refine ⟨hlot, ?_⟩
  have hid := h.1
  rw [hflat, zero_mul, add_zero] at hid
  rw [hid]
  decide +kernel

end FillAccounting

end LighterMM
