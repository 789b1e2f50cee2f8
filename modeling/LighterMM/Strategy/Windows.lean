import LighterMM.Lib.RingBuffer
import LighterMM.Lib.Welford
import LighterMM.Strategy.Rolling

/-!
# What the rolling statistics hold (`strategy/rolling.rs`)

`Exact r w` says that the ring buffer of `r` holds the window `w` and that count, sum, mean and `m2` are
those of `w`. Eviction and addition are Welford's two updates (`Exact.evict`, `Exact.add`), so a push
moves the window on by one value (`Exact.push`) and neither clamp of `m2` ever cuts anything off
(`Exact.evict_m2`, `Exact.add_m2`). After any pushes and clears the window is the last `capacity` values
since the last clear (`run_exact`).
-/

namespace LighterMM

open Welford

namespace RollingStats

/-- The values in the buffer that count, the oldest first. -/
def window (r : RollingStats) : List ℚ := RingBuffer.window r.buffer r.writePos r.count

/-- `m2` after an eviction, before its clamp. -/
def evictM2 (r : RollingStats) : ℚ :=
  let old := r.buffer.getD r.writePos 0
  r.m2 - (old - r.cachedMean) * (old - r.evict.cachedMean)

/-- `m2` after an addition, before its clamp. -/
def addM2 (r : RollingStats) (value : ℚ) : ℚ :=
  r.m2 + (value - r.cachedMean) * (value - (r.sum + value) / (r.count + 1))

/-- The state in which `push` adds its value: a full window has dropped its oldest one. -/
def withRoom (r : RollingStats) : RollingStats := if r.capacity ≤ r.count then r.evict else r

variable {sqrt : ℚ → ℚ} {r : RollingStats} {w : List ℚ} {v : ℚ}

theorem evict_m2 (r : RollingStats) : r.evict.m2 = if r.evictM2 < 0 then 0 else r.evictM2 := rfl

theorem add_m2 (sqrt : ℚ → ℚ) (r : RollingStats) (v : ℚ) :
    (r.add sqrt v).m2 = if r.addM2 v < 0 then 0 else r.addM2 v := by
  simp only [add, addM2]
  push_cast
  rfl

/-- The statistics of the window `w`, and where the buffer has it. -/
structure Exact (r : RollingStats) (w : List ℚ) : Prop where
  length : r.buffer.length = r.capacity
  pos : r.writePos < r.capacity
  le : w.length ≤ r.capacity
  window : r.window = w
  count : r.count = w.length
  sum : r.sum = w.sum
  mean : r.cachedMean = mean w
  m2 : r.m2 = sqDev w

theorem exact_new {cap : ℕ} (h : 1 ≤ cap) : Exact (new cap) [] where
  length := List.length_replicate
  pos := h
  le := Nat.zero_le _
  window := RingBuffer.window_zero
  count := rfl
  sum := rfl
  mean := mean_nil.symm
  m2 := sqDev_nil.symm

/-- What the buffer still holds does not count. -/
theorem Exact.clear (h : Exact r w) : Exact r.clear [] where
  length := h.length
  pos := (Nat.zero_le _).trans_lt h.pos
  le := Nat.zero_le _
  window := RingBuffer.window_zero
  count := rfl
  sum := rfl
  mean := mean_nil.symm
  m2 := sqDev_nil.symm

section Evict

variable {old : ℚ}

/-- The oldest value of a full window is at the write position. -/
theorem Exact.full (h : Exact r (old :: w)) (hf : r.capacity ≤ r.count) :
    r.buffer.getD r.writePos 0 = old ∧ RingBuffer.window r.buffer r.writePos w.length = w := by
  have hpos : r.writePos < r.buffer.length := h.length ▸ h.pos
  have hlen : w.length + 1 = r.buffer.length := by
    have hle := h.le
    have hc := h.count
    rw [List.length_cons] at hle hc
    rw [h.length]
    omega
  have hw := h.window
  rw [RollingStats.window, h.count, List.length_cons, RingBuffer.window_full hpos hlen] at hw
  obtain ⟨hhead, htail⟩ := List.cons.inj hw
  exact ⟨(List.getD_eq_getElem _ _ hpos).trans hhead, htail⟩

theorem Exact.evict_mean (h : Exact r (old :: w)) (hf : r.capacity ≤ r.count) :
    r.evict.cachedMean = Welford.mean w := by
  simp only [evict, (h.full hf).1, h.mean, h.count, List.length_cons]
  by_cases hw : w = []
  · subst hw
    rw [if_neg (by simp), mean_nil]
  · have hpos : 0 < w.length := List.length_pos_iff.mpr hw
    rw [if_pos (by omega), mean_of_cons old hw]
    push_cast
    rw [add_sub_cancel_right]

theorem Exact.evictM2 (h : Exact r (old :: w)) (hf : r.capacity ≤ r.count) : r.evictM2 = sqDev w := by
  simp only [RollingStats.evictM2, (h.full hf).1, h.evict_mean hf, h.mean, h.m2, sqDev_cons]
  ring

theorem Exact.evict_m2 (h : Exact r (old :: w)) (hf : r.capacity ≤ r.count) : r.evict.m2 = r.evictM2 := by
  have hn : ¬ r.evictM2 < 0 := by
    rw [h.evictM2 hf]
    exact not_lt.mpr (sqDev_nonneg w)
  rw [RollingStats.evict_m2, if_neg hn]

theorem Exact.evict (h : Exact r (old :: w)) (hf : r.capacity ≤ r.count) : Exact r.evict w where
  length := h.length
  pos := h.pos
  le := (Nat.le_succ _).trans h.le
  window := by
    have hc : r.evict.count = w.length := by simp [RollingStats.evict, h.count]
    simp only [RollingStats.window, hc]
    exact (h.full hf).2
  count := by simp [RollingStats.evict, h.count]
  sum := by simp only [RollingStats.evict, (h.full hf).1, h.sum, List.sum_cons, add_sub_cancel_left]
  mean := h.evict_mean hf
  m2 := (h.evict_m2 hf).trans (h.evictM2 hf)

end Evict

theorem Exact.addM2 (h : Exact r w) (v : ℚ) : r.addM2 v = sqDev (w ++ [v]) := by
  rw [RollingStats.addM2, h.m2, h.mean, h.sum, h.count, sqDev_concat, mean_concat]

theorem Exact.add_m2 (h : Exact r w) (sqrt : ℚ → ℚ) (v : ℚ) : (r.add sqrt v).m2 = r.addM2 v := by
  have hn : ¬ r.addM2 v < 0 := by
    rw [h.addM2]
    exact not_lt.mpr (sqDev_nonneg _)
  rw [RollingStats.add_m2, if_neg hn]

theorem Exact.add (h : Exact r w) (hroom : w.length < r.capacity) (sqrt : ℚ → ℚ) (v : ℚ) :
    Exact (r.add sqrt v) (w ++ [v]) where
  length := List.length_set.trans h.length
  pos := RingBuffer.next_lt ((Nat.zero_le _).trans_lt h.pos)
  le := by
    rw [List.length_append, List.length_singleton]
    exact hroom
  window := by
    have hw : RingBuffer.window r.buffer r.writePos w.length = w := h.count ▸ h.window
    have hnext := RingBuffer.window_write (v := v) (h.length ▸ h.pos) (h.length ▸ hroom)
    rw [hw, h.length] at hnext
    simp only [RollingStats.window, RollingStats.add, h.count]
    exact hnext
  count := by simp [RollingStats.add, h.count]
  sum := by simp [RollingStats.add, h.sum]
  mean := by
    simp only [RollingStats.add, h.sum, h.count, mean_concat]
    push_cast
    rfl
  m2 := (h.add_m2 sqrt v).trans (h.addM2 v)

/-- Room for one value: the oldest one of a full window goes. -/
theorem Exact.withRoom (h : Exact r w) :
    Exact r.withRoom (if r.capacity ≤ w.length then w.tail else w) ∧
      r.withRoom.capacity = r.capacity := by
  rw [RollingStats.withRoom, h.count]
  by_cases hf : r.capacity ≤ w.length
  · rw [if_pos hf, if_pos hf]
    cases w with
    | nil =>
      have hpos := h.pos
      simp only [List.length_nil] at hf
      omega
    | cons old w => exact ⟨h.evict (h.count.symm ▸ hf), rfl⟩
  · rw [if_neg hf, if_neg hf]
    exact ⟨h, rfl⟩

/-- A push moves the window on: it holds the last `capacity` values of itself and the new one. -/
theorem Exact.push (h : Exact r w) (sqrt : ℚ → ℚ) (v : ℚ) :
    Exact (r.push sqrt v) ((w ++ [v]).rtake r.capacity) := by
  have hcap : 0 < r.capacity := (Nat.zero_le _).trans_lt h.pos
  have hw : w.rtake r.capacity = w := by
    rw [List.rtake, Nat.sub_eq_zero_of_le h.le, List.drop_zero]
  rw [RingBuffer.rtake_concat hcap, hw]
  obtain ⟨hroom, hc⟩ := h.withRoom
  refine hroom.add ?_ sqrt v
  rw [hc]
  have hle := h.le
  split
  · rw [List.length_tail]
    omega
  · omega

end RollingStats

inductive RollingOp where
  | push (value : ℚ)
  | clear

namespace RollingStats

def step (sqrt : ℚ → ℚ) (r : RollingStats) : RollingOp → RollingStats
  | .push v => r.push sqrt v
  | .clear => r.clear

def run (sqrt : ℚ → ℚ) (capacity : ℕ) (ops : List RollingOp) : RollingStats :=
  ops.foldl (step sqrt) (new capacity)

/-- The values pushed since the last clear, one operation on. -/
def pushedStep (vs : List ℚ) : RollingOp → List ℚ
  | .push v => vs ++ [v]
  | .clear => []

def pushed (ops : List RollingOp) : List ℚ := ops.foldl pushedStep []

variable {sqrt : ℚ → ℚ} {r : RollingStats} {w : List ℚ} {cap : ℕ}

theorem Exact.step {vs : List ℚ} (h : Exact r (vs.rtake r.capacity)) (sqrt : ℚ → ℚ) (op : RollingOp) :
    Exact (r.step sqrt op) ((pushedStep vs op).rtake r.capacity) ∧
      (r.step sqrt op).capacity = r.capacity := by
  cases op with
  | push v =>
    have hcap : 0 < r.capacity := (Nat.zero_le _).trans_lt h.pos
    have hnext := h.push sqrt v
    rw [RingBuffer.rtake_concat_rtake hcap] at hnext
    exact ⟨hnext, h.withRoom.2⟩
  | clear =>
    rw [pushedStep, List.rtake_nil]
    exact ⟨h.clear, rfl⟩

theorem run_exact (sqrt : ℚ → ℚ) (hcap : 1 ≤ cap) (ops : List RollingOp) :
    Exact (run sqrt cap ops) ((pushed ops).rtake cap) := by
  suffices h : ∀ {r : RollingStats} {vs : List ℚ}, r.capacity = cap → Exact r (vs.rtake cap) →
      Exact (ops.foldl (step sqrt) r) ((ops.foldl pushedStep vs).rtake cap) from
    h rfl (by simpa using exact_new hcap)
  induction ops with
  | nil => exact fun _ h => h
  | cons op ops ih =>
    intro r vs hr h
    subst hr
    obtain ⟨hstep, hc⟩ := h.step sqrt op
    exact ih hc hstep

/-- Rolling statistics are those of the last values of the window, and the clamps of `m2` are idle. -/
theorem run_statistics (sqrt : ℚ → ℚ) (hcap : 1 ≤ cap) (ops : List RollingOp) :
    let r := run sqrt cap ops
    let w := (pushed ops).rtake cap
    w.length = min (pushed ops).length cap ∧ r.count = w.length ∧ r.cachedMean = mean w ∧
      r.m2 = sqDev w ∧ (r.capacity ≤ r.count → r.evict.m2 = r.evictM2) ∧
      ∀ v, (r.push sqrt v).m2 = r.withRoom.addM2 v := by
  intro r w
  have h : Exact r w := run_exact sqrt hcap ops
  refine ⟨?_, h.count, h.mean, h.m2, fun hf => ?_, fun v => h.withRoom.1.add_m2 sqrt v⟩
  · simp only [w, List.rtake, List.length_drop]
    omega
  · cases hw : w with
    | nil =>
      have hpos := h.pos
      rw [h.count, hw, List.length_nil] at hf
      omega
    | cons old w' => exact (hw ▸ h : Exact r (old :: w')).evict_m2 hf

/-- A window of two values that has been cleared and filled once more. -/
theorem run_statistics_refilled :
    let r := run id 2 [.push 7, .clear, .push 1, .push 2, .push 4]
    r.count = 2 ∧ r.cachedMean = 3 ∧ r.m2 = 2 := by
  obtain ⟨-, hcount, hmean, hm2, -⟩ :=
    @run_statistics 2 id (by decide) [.push 7, .clear, .push 1, .push 2, .push 4]
  refine ⟨hcount, hmean.trans ?_, hm2.trans ?_⟩ <;> norm_num [pushed, pushedStep, List.rtake, mean, sqDev]

end RollingStats

end LighterMM
