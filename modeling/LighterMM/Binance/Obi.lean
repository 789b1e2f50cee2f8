import LighterMM.Book.LocalBook
import LighterMM.Strategy.Rolling

/-!
# Order-book-imbalance alpha (`binance/obi.rs`, `SharedAlpha` of `shared.rs`)

`BinanceObi` keeps a local book and the window of its imbalances, and publishes the z-score of the current
imbalance. The cursor `prevU` is the number of the last diff that was applied.
-/

namespace LighterMM

/-- `SharedAlpha`: what the depth task publishes. -/
structure SharedAlpha where
  alpha : ℚ
  sampleCount : ℕ
  lastUpdateMs : ℕ
  deriving DecidableEq, Repr

namespace SharedAlpha

def new : SharedAlpha := ⟨0, 0, 0⟩

def update (s : SharedAlpha) (alpha : ℚ) (nowMs : ℕ) : SharedAlpha := ⟨alpha, s.sampleCount + 1, nowMs⟩

def reset (_s : SharedAlpha) : SharedAlpha := ⟨0, 0, 0⟩

end SharedAlpha

namespace LocalBook

def reset (_b : LocalBook) : LocalBook := .new

end LocalBook

structure BinanceObi where
  book : LocalBook
  imbStats : RollingStats
  lookingDepth : ℚ
  lastUpdateId : ℤ
  prevU : ℤ
  shared : SharedAlpha
  deriving DecidableEq, Repr

namespace BinanceObi

def new (window : ℕ) (lookingDepth : ℚ) : BinanceObi := ⟨.new, .new window, lookingDepth, 0, 0, .new⟩

def reset (o : BinanceObi) : BinanceObi :=
  { o with book := o.book.reset, imbStats := o.imbStats.clear, lastUpdateId := 0, prevU := 0,
           shared := o.shared.reset }

def applySnapshot (o : BinanceObi) (bids asks : List (ℚ × ℚ)) (lastUpdateId : ℤ) : BinanceObi :=
  { o with book := o.book.applySnapshotScratch bids asks, lastUpdateId, prevU := 0 }

/-- Applies a depth diff; `u` is the new cursor. -/
def applyDiff (o : BinanceObi) (bids asks : List (ℚ × ℚ)) (u : ℤ) : BinanceObi :=
  { o with book := o.book.applyDelta bids asks, prevU := u }

/-- The size imbalance within the looking depth of the mid; `none` for a book that is one-sided, crossed
or without a positive mid. -/
def imbalance (o : BinanceObi) : Option ℚ :=
  match o.book.bestBid, o.book.bestAsk with
  | some bestBid, some bestAsk =>
    let mid := (bestBid + bestAsk) * (1 / 2)
    if mid ≤ 0 ∨ bestAsk ≤ bestBid then none
    else some (o.book.bids.sumSizesFrom (mid * (1 - o.lookingDepth)) -
      o.book.asks.sumSizesTo (mid * (1 + o.lookingDepth)))
  | _, _ => none

/-- Publishes the z-score of the imbalance; the alpha that was published, if any. -/
def updateAlpha (sqrt : ℚ → ℚ) (o : BinanceObi) (nowMs : ℕ) : BinanceObi × Option ℚ :=
  match o.imbalance with
  | none => (o, none)
  | some imbalance =>
    let imbStats := o.imbStats.push sqrt imbalance
    let alpha := imbStats.zscore imbalance
    ({ o with imbStats, shared := o.shared.update alpha nowMs }, some alpha)

/-- An update of the alpha leaves the book and the cursor; it changes the shared alpha by what it
publishes. -/
theorem updateAlpha_frame (sqrt : ℚ → ℚ) (o : BinanceObi) (nowMs : ℕ) :
    (o.updateAlpha sqrt nowMs).1.book = o.book ∧ (o.updateAlpha sqrt nowMs).1.prevU = o.prevU ∧
      (o.updateAlpha sqrt nowMs).1.lastUpdateId = o.lastUpdateId ∧
      (o.updateAlpha sqrt nowMs).1.shared =
        (o.updateAlpha sqrt nowMs).2.toList.foldl (fun s alpha => s.update alpha nowMs) o.shared := by
  unfold updateAlpha
  cases o.imbalance <;> exact ⟨rfl, rfl, rfl, rfl⟩

end BinanceObi

end LighterMM
