import LighterMM.Types

/-!
# Rolling statistics (`strategy/rolling.rs`)

A fixed-capacity ring buffer with Welford's mean and sum of squared deviations. `f64::sqrt` is
the parameter `sqrt`.
-/

namespace LighterMM

structure RollingStats where
  buffer : List ℚ
  capacity : ℕ
  writePos : ℕ
  count : ℕ
  sum : ℚ
  m2 : ℚ
  cachedMean : ℚ
  cachedStd : ℚ
  deriving DecidableEq, Repr

namespace RollingStats

def new (capacity : ℕ) : RollingStats :=
  ⟨List.replicate capacity 0, capacity, 0, 0, 0, 0, 0, 0⟩

/-- Reverse Welford: drops the oldest value of a full window. -/
def evict (r : RollingStats) : RollingStats :=
  let old := r.buffer.getD r.writePos 0
  let n := r.count
  let oldMean := r.cachedMean
  let newMean := if 1 < n then oldMean + (oldMean - old) / (n - 1) else 0
  let m2 := r.m2 - (old - oldMean) * (old - newMean)
  { r with
    m2 := if m2 < 0 then 0 else m2
    sum := r.sum - old
    count := r.count - 1
    cachedMean := newMean }

/-- Forward Welford: adds a value to a window with room. -/
def add (sqrt : ℚ → ℚ) (r : RollingStats) (value : ℚ) : RollingStats :=
  let n := r.count + 1
  let sum := r.sum + value
  let oldMean := r.cachedMean
  let newMean := sum / n
  let m2 := r.m2 + (value - oldMean) * (value - newMean)
  let m2 := if m2 < 0 then 0 else m2
  { r with
    buffer := r.buffer.set r.writePos value
    sum := sum
    count := n
    writePos := if r.capacity ≤ r.writePos + 1 then 0 else r.writePos + 1
    m2 := m2
    cachedMean := newMean
    cachedStd := if 2 ≤ n then sqrt (m2 / n) else 0 }

def push (sqrt : ℚ → ℚ) (r : RollingStats) (value : ℚ) : RollingStats :=
  add sqrt (if r.capacity ≤ r.count then r.evict else r) value

def std (r : RollingStats) : ℚ := r.cachedStd

/-- Z-score of a value, `0` when the deviation underflows. -/
def zscore (r : RollingStats) (value : ℚ) : ℚ :=
  if r.cachedStd < 1 / 10000000000 then 0 else (value - r.cachedMean) / r.cachedStd

def clear (r : RollingStats) : RollingStats :=
  { r with writePos := 0, count := 0, sum := 0, m2 := 0, cachedMean := 0, cachedStd := 0 }

end RollingStats

end LighterMM
