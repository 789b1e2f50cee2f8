import LighterMM.Exec.RateLimit

/-!
# Waits of the gate (`exec/rate_limit.rs`)

The three waits of `write_slot` and what they come to.

- **The window** (`timeUntilOpsFree_isGLB_iff`): the wait is for the op at `idx`, but the ops before it make
  room enough, so it is the least one only where the two leave the window together.
- **The intervals**: a sleep up to a bound ends at the bound or is none (`add_sleepUpTo`). Under a clock whose
  sleeps are not cut short a batch passes after the backoff and spaced from the last send
  (`writeSlot_honours`), under one whose sleeps are exact as soon as that is so (`approvedDelay_spaced`).
- **Cancels against quotes** (`cancel_delay_le_iff`): both are ready at the same time, but the spacing of a
  cancel-only batch is fixed, and the one of quotes may be shorter.
-/

namespace LighterMM

namespace RateLimiter

variable {r : RateLimiter} {n : ℕ} {now start : Instant} {cancelOnly : Bool}

/-! ## The wait for the window -/

/-- The waits after which `n` ops are available if none is recorded meanwhile. -/
def waits (r : RateLimiter) (n : ℕ) (now : Instant) : Set ℚ :=
  {w | 0 ≤ w ∧ n ≤ (r.opsAvailableAt (now + w)).2}

/-- The op whose expiry makes room, and the one that is waited for, leave the window together. -/
def WaitsForLastNeeded (r : RateLimiter) (n : ℕ) (now : Instant) : Prop :=
  let l := (r.pruneOpWindowAt now).window
  l.length + n ≤ rlOpsPerWindow ∨ n = rlOpsPerWindow ∨
    l[l.length + n - rlOpsPerWindow - 1]? = l[l.length + n - rlOpsPerWindow]?

theorem prune_ge (hs : r.window.Pairwise (· ≤ ·)) :
    ∀ t ∈ (r.pruneOpWindowAt now).window, now - rlWindowSeconds ≤ t := by
  intro t ht
  cases hl : (r.pruneOpWindowAt now).window with
  | nil => exact absurd (hl ▸ ht) List.not_mem_nil
  | cons t₀ l =>
    have hhead : ¬ t₀ < now - rlWindowSeconds := by
      have := List.head?_dropWhile_not (fun front => decide (front < now - rlWindowSeconds)) r.window
      rw [show r.window.dropWhile _ = t₀ :: l from hl] at this
      simpa using this
    have hsorted : (r.pruneOpWindowAt now).window.Pairwise (· ≤ ·) := prune_sorted hs
    rw [hl] at ht hsorted
    rcases List.mem_cons.mp ht with rfl | ht
    · exact not_lt.mp hhead
    · exact (not_lt.mp hhead).trans ((List.pairwise_cons.mp hsorted).1 t ht)

/-- All it takes is that the first `i + 1` ops have left. -/
theorem mem_waits_iff (hs : r.window.Pairwise (· ≤ ·)) {w : ℚ} {i : ℕ} (hi : i < r.window.length)
    (hin : i + 1 + rlOpsPerWindow = r.window.length + n) (h1 : 1 ≤ n) :
    w ∈ r.waits n now ↔ 0 ≤ w ∧ r.window[i] + rlWindowSeconds < now + w := by
  have hlen := Window.length_dropWhile_le_iff (x := now + w - rlWindowSeconds) hs hi
  rw [lt_sub_iff_add_lt] at hlen
  rw [← hlen]
  refine and_congr_right fun _ => ?_
  simp only [opsAvailableAt, pruneOpWindowAt]
  omega

theorem waits_eq_Ioi (hs : r.window.Pairwise (· ≤ ·)) {i : ℕ} (hi : i < r.window.length)
    (hin : i + 1 + rlOpsPerWindow = r.window.length + n) (h1 : 1 ≤ n)
    (hge : now - rlWindowSeconds ≤ r.window[i]) :
    r.waits n now = Set.Ioi (r.window[i] + rlWindowSeconds - now) := by
  ext w
  rw [mem_waits_iff hs hi hin h1, Set.mem_Ioi, sub_lt_iff_lt_add']
  exact and_iff_right_of_imp fun hlt => by linarith

/-- The index of the op that is waited for. -/
def waitIndex (len n : ℕ) : ℕ := if n = rlOpsPerWindow then len - 1 else len + n - rlOpsPerWindow

theorem timeUntilOpsFreeAt_of_full (hs : r.window.Pairwise (· ≤ ·)) (h40 : n ≤ rlOpsPerWindow)
    (hfull : rlOpsPerWindow < (r.pruneOpWindowAt now).window.length + n)
    (hi : waitIndex (r.pruneOpWindowAt now).window.length n < (r.pruneOpWindowAt now).window.length) :
    (r.timeUntilOpsFreeAt n now).2 =
      (r.pruneOpWindowAt now).window[waitIndex (r.pruneOpWindowAt now).window.length n] +
        rlWindowSeconds - now := by
  have hge := prune_ge hs _ (List.getElem_mem hi)
  generalize hl : (r.pruneOpWindowAt now).window = l at *
  have hidx : (if (l.length : ℤ) ≤ l.length - (rlOpsPerWindow - n) then (l.length : ℤ) - 1
      else l.length - (rlOpsPerWindow - n)).toNat = waitIndex l.length n := by
    unfold waitIndex
    split <;> split <;> omega
  have hroom : ¬ (l.length = 0 ∨ l.length + n ≤ rlOpsPerWindow) := by omega
  have hneg : ¬ ((l.length : ℤ) - (rlOpsPerWindow - n) < 0) := by omega
  simp only [timeUntilOpsFreeAt, hl, if_neg hroom, if_neg hneg, hidx, List.getElem?_eq_getElem hi,
    Option.getD_some]
  split <;> linarith

/-- With room for the ops there is nothing to wait for. -/
theorem isGLB_waits_of_room (h : r.window.length + n ≤ rlOpsPerWindow) : IsGLB (r.waits n now) 0 := by
  have hlen : (r.pruneOpWindowAt (now + 0)).window.length ≤ r.window.length :=
    (List.dropWhile_sublist _).length_le
  have hmem : (0 : ℚ) ∈ r.waits n now := by
    refine ⟨le_refl _, ?_⟩
    simp only [opsAvailableAt]
    omega
  exact IsLeast.isGLB ⟨hmem, fun w hw => hw.1⟩

/-- The wait is the least one exactly if the op that is waited for leaves with the last one needed. -/
theorem timeUntilOpsFree_isGLB_iff (r : RateLimiter) (n : ℕ) (now : Instant)
    (hs : r.window.Pairwise (· ≤ ·)) (h1 : 1 ≤ n) (h40 : n ≤ rlOpsPerWindow) :
    IsGLB ((r.timeUntilOpsFreeAt n now).1.waits n now) (r.timeUntilOpsFreeAt n now).2 ↔
      r.WaitsForLastNeeded n now := by
  rw [timeUntilOpsFreeAt_window]
  by_cases hroom : (r.pruneOpWindowAt now).window.length + n ≤ rlOpsPerWindow
  · have hzero : (r.timeUntilOpsFreeAt n now).2 = 0 := by
      simp only [timeUntilOpsFreeAt, if_pos (Or.inr hroom)]
    rw [hzero]
    exact iff_of_true (isGLB_waits_of_room hroom) (.inl hroom)
  · have hsorted : (r.pruneOpWindowAt now).window.Pairwise (· ≤ ·) := prune_sorted hs
    have hge : ∀ t ∈ (r.pruneOpWindowAt now).window, now - rlWindowSeconds ≤ t := prune_ge hs
    have hfull := not_le.mp hroom
    set l := (r.pruneOpWindowAt now).window with hl
    -- The ops up to `i` make room for `n` once they have left.
    obtain ⟨i, hi, hin⟩ : ∃ i, i < l.length ∧ i + 1 + rlOpsPerWindow = l.length + n :=
      ⟨l.length + n - rlOpsPerWindow - 1, by omega, by omega⟩
    have hidx : waitIndex l.length n < l.length := by
      unfold waitIndex
      split <;> omega
    have hwaits : IsGLB ((r.pruneOpWindowAt now).waits n now) (l[i] + rlWindowSeconds - now) := by
      rw [waits_eq_Ioi hsorted hi hin h1 (hge _ (List.getElem_mem hi))]
      exact isGLB_Ioi
    have hsame : IsGLB ((r.pruneOpWindowAt now).waits n now) (r.timeUntilOpsFreeAt n now).2 ↔
        l[waitIndex l.length n] = l[i] := by
      rw [timeUntilOpsFreeAt_of_full hs h40 hfull hidx]
      refine ⟨fun h => ?_, fun h => ?_⟩
      · have heq := h.unique hwaits
        linarith
      · rw [h]
        exact hwaits
    rw [hsame]
    by_cases hn : n = rlOpsPerWindow
    · have hlast : waitIndex l.length n = i := by
        rw [waitIndex, if_pos hn]
        omega
      simp only [hlast]
      exact iff_of_true trivial (.inr (.inl hn))
    · have hnext : waitIndex l.length n = i + 1 := by
        rw [waitIndex, if_neg hn]
        omega
      have hi1 : i + 1 < l.length := hnext ▸ hidx
      have hi1' : l.length + n - rlOpsPerWindow = i + 1 := by omega
      simp only [WaitsForLastNeeded, ← hl, hnext, hi1', Nat.add_sub_cancel, List.getElem?_eq_getElem hi,
        List.getElem?_eq_getElem hi1, Option.some.injEq]
      constructor
      · exact fun h => .inr (.inr h.symm)
      · rintro (h | h | h)
        · exact absurd h hroom
        · exact absurd h hn
        · exact h.symm

/-- Ops that were sent at one time leave together. -/
theorem timeUntilOpsFree_isGLB_batch :
    let r : RateLimiter := { RateLimiter.new (1 / 10) with window := List.replicate 40 0 }
    IsGLB ((r.timeUntilOpsFreeAt 4 10).1.waits 4 10) (r.timeUntilOpsFreeAt 4 10).2 := by
  intro r
  exact (timeUntilOpsFree_isGLB_iff r 4 10 (List.pairwise_replicate.mpr (.inr (le_refl _))) (by decide)
    (by decide)).mpr (.inr (.inr (by decide +kernel)))

/-- One op at `0` and `39` at `10`: one op is free from second `60` on, and the wait is until second `70`. -/
theorem timeUntilOpsFree_not_isGLB :
    let r : RateLimiter := { RateLimiter.new (1 / 10) with window := 0 :: List.replicate 39 10 }
    r.window.Pairwise (· ≤ ·) ∧ (∀ t ∈ r.window, t ≤ 10) ∧
      ¬ IsGLB ((r.timeUntilOpsFreeAt 1 10).1.waits 1 10) (r.timeUntilOpsFreeAt 1 10).2 := by
  intro r
  refine ⟨by decide +kernel, by decide +kernel, fun hglb => ?_⟩
  have hearlier : (51 : ℚ) ∈ (r.timeUntilOpsFreeAt 1 10).1.waits 1 10 :=
    show (0 : ℚ) ≤ 51 ∧ 1 ≤ ((r.timeUntilOpsFreeAt 1 10).1.opsAvailableAt (10 + 51)).2 by decide +kernel
  have hwait : (r.timeUntilOpsFreeAt 1 10).2 = 60 := by decide +kernel
  have hle := hglb.1 hearlier
  rw [hwait] at hle
  exact absurd hle (by norm_num)

/-! ## Intervals between sends -/

/-- The interval that is kept from the last send: the floor, and the pacing on top of it. -/
def spacing (r : RateLimiter) (cancelOnly : Bool) : ℚ :=
  if cancelOnly then rlCancelMinInterval
  else
    match r.quotaPaceMultiplier with
    | some mult => r.minSendInterval * mult
    | none => max r.minSendInterval rlFreeSlotInterval

/-- The end of the sleeps of the last two phases. -/
def spacedFrom (r : RateLimiter) (cancelOnly : Bool) (now : Instant) : Instant :=
  let pace := now + r.floorPhase cancelOnly now
  pace + r.pacePhase cancelOnly pace

theorem quotaPaceMultiplier_one_le {mult : ℚ} (h : r.quotaPaceMultiplier = some mult) : 1 ≤ mult := by
  have hall : ∀ q, ∀ m ∈ quotaPaceMultiplier { r with quota := q }, 1 ≤ m := by
    rintro (- | q) m hm
    · cases hm
      exact le_refl _
    · simp only [quotaPaceMultiplier] at hm
      split_ifs at hm <;> cases hm <;> norm_num
  exact hall r.quota mult h

theorem elapsedSinceLastSend_of_some {t : Instant} (ht : r.lastSend = some t) (hle : t ≤ now) :
    r.elapsedSinceLastSend now = some (now - t) := by
  rw [elapsedSinceLastSend, ht]
  exact congrArg some (max_eq_left (sub_nonneg.mpr hle))

/-- A sleep up to a bound ends when the bound is reached, if it is not passed already. -/
theorem add_sleepUpTo {t : Instant} (ht : r.lastSend = some t) (hle : t ≤ now) (bound : ℚ) :
    now + sleepUpTo bound (r.elapsedSinceLastSend now) = max now (t + bound) := by
  rw [elapsedSinceLastSend_of_some ht hle, sleepUpTo]
  split
  · rename_i hlt
    rw [max_eq_right (by linarith)]
    ring
  · rename_i hge
    rw [max_eq_left (by linarith), add_zero]

theorem sleepUpTo_of_none (h : r.lastSend = none) (bound : ℚ) :
    sleepUpTo bound (r.elapsedSinceLastSend now) = 0 := by
  rw [elapsedSinceLastSend, h]
  rfl

/-- Without a last send there is no interval to keep. -/
theorem spacedFrom_of_none (h : r.lastSend = none) : r.spacedFrom cancelOnly now = now := by
  simp only [spacedFrom, floorPhase, pacePhase, sleepUpTo_of_none h, add_zero]
  cases cancelOnly with
  | true => exact add_zero _
  | false =>
    cases r.quotaPaceMultiplier with
    | none => exact add_zero _
    | some mult => simp

/-- The pacing of a batch with other ops, after its floor. -/
theorem add_pacePhase {t : Instant} (ht : r.lastSend = some t) (hle : t ≤ now)
    (hfloor : t + r.minSendInterval ≤ now) : now + r.pacePhase false now = max now (t + r.spacing false) := by
  simp only [pacePhase, spacing, Bool.false_eq_true, if_false, sendFloor]
  cases hmult : r.quotaPaceMultiplier with
  | none =>
    simp only [add_sleepUpTo ht hle, ← max_add_add_left, ← max_assoc, max_eq_left hfloor]
  | some mult =>
    simp only
    split
    · rw [add_sleepUpTo ht hle]
      ring_nf
    · rename_i hone
      have h1 : mult = 1 := le_antisymm (not_lt.mp hone) (quotaPaceMultiplier_one_le hmult)
      rw [h1, mul_one, max_eq_left hfloor, add_zero]

/-- The last two phases end when the batch is spaced from the last send. -/
theorem spacedFrom_eq {t : Instant} (ht : r.lastSend = some t) (hle : t ≤ now)
    (hm : 0 ≤ r.minSendInterval) : r.spacedFrom cancelOnly now = max now (t + r.spacing cancelOnly) := by
  have hfloor := add_sleepUpTo ht hle (r.sendFloor cancelOnly)
  cases cancelOnly with
  | true =>
    simp only [spacedFrom, floorPhase, pacePhase, if_true, add_zero, hfloor]
    rfl
  | false =>
    have hmin : r.minSendInterval ≤ r.spacing false := by
      simp only [spacing, Bool.false_eq_true, if_false]
      cases hmult : r.quotaPaceMultiplier with
      | none => exact le_max_left _ _
      | some mult => exact le_mul_of_one_le_right hm (quotaPaceMultiplier_one_le hmult)
    have hreached : t + r.minSendInterval ≤ max now (t + r.sendFloor false) := le_max_right _ _
    simp only [spacedFrom, floorPhase, hfloor]
    rw [add_pacePhase ht (hle.trans (le_max_left _ _)) hreached, max_assoc]
    congr 1
    exact max_eq_right (add_le_add_right hmin t)

/-- Sleeps that are not cut short keep the interval too. -/
theorem spaced_of_honest {t floor pace done : Instant} (ht : r.lastSend = some t) (hle : t ≤ floor)
    (hfloor : floor + r.floorPhase cancelOnly floor ≤ pace) (hpace : pace + r.pacePhase cancelOnly pace ≤ done) :
    t + r.spacing cancelOnly ≤ done := by
  rw [floorPhase, add_sleepUpTo ht hle, max_le_iff] at hfloor
  cases cancelOnly with
  | true =>
    rw [pacePhase, if_pos rfl, add_zero] at hpace
    exact hfloor.2.trans hpace
  | false =>
    rw [add_pacePhase ht (hle.trans hfloor.1) hfloor.2, max_le_iff] at hpace
    exact hpace.2

/-! ## The phases before -/

theorem backoffPhase_reaches {d : ℚ} (h : r.backoffPhase start = some d) {til : Instant}
    (htil : r.globalBackoffUntil = some til) : til ≤ start + d := by
  rw [backoffPhase, htil] at h
  simp only at h
  split_ifs at h <;> cases h <;> linarith

theorem backoffPhase_skips (h : r.backoffPhase start = none) :
    ∃ til, r.globalBackoffUntil = some til ∧ backoffSleepThreshold < til - start := by
  unfold backoffPhase at h
  cases htil : r.globalBackoffUntil with
  | none =>
    rw [htil] at h
    cases h
  | some til =>
    rw [htil] at h
    simp only at h
    split_ifs at h with h1 h2
    exact ⟨til, rfl, not_le.mp h2⟩

/-- What the window asks for, when it is asked. -/
def windowWait (r : RateLimiter) (n : ℕ) (avail wait : Instant) : ℚ :=
  ((r.opsAvailableAt avail).1.timeUntilOpsFreeAt n wait).2

theorem windowPhase_window (r : RateLimiter) (n : ℕ) (avail wait : Instant) :
    (r.windowPhase n avail wait).1 = { r with window := (r.windowPhase n avail wait).1.window } := by
  unfold windowPhase
  simp only [timeUntilOpsFreeAt_window]
  split <;> rfl

theorem windowPhase_nonneg {avail wait : Instant} {d : ℚ} (h : (r.windowPhase n avail wait).2 = some d) :
    0 ≤ d := by
  unfold windowPhase at h
  simp only at h
  split_ifs at h
  · cases h
    exact (timeUntilOpsFreeAt_spec _ n wait).1
  · cases h
    exact le_refl _

theorem windowPhase_skips {avail wait : Instant} (h : (r.windowPhase n avail wait).2 = none) :
    windowSkipThreshold < r.windowWait n avail wait := by
  unfold windowPhase at h
  simp only at h
  split_ifs at h with h1 h2
  exact h2

theorem writeSlot_window (r : RateLimiter) (n : ℕ) (c : SlotClock) :
    (r.writeSlot n c).1 = { r with window := (r.writeSlot n c).1.window } := by
  unfold writeSlot
  cases r.backoffPhase c.start with
  | none => rfl
  | some d => exact windowPhase_window r n c.avail c.wait

theorem writeSlot_skips {c : SlotClock} (h : (r.writeSlot n c).2 = false) :
    (∃ til, r.globalBackoffUntil = some til ∧ backoffSleepThreshold < til - c.start) ∨
      windowSkipThreshold < r.windowWait n c.avail c.wait := by
  unfold writeSlot at h
  cases hback : r.backoffPhase c.start with
  | none => exact .inl (backoffPhase_skips hback)
  | some d =>
    rw [hback] at h
    exact .inr (windowPhase_skips (Option.isSome_eq_false_iff.mp h |> Option.isNone_iff_eq_none.mp))

/-- A batch that passes has slept through all phases. -/
theorem writeSlot_passes {c : SlotClock} (hc : r.Honest n cancelOnly c) (h : (r.writeSlot n c).2 = true) :
    (∀ til, r.globalBackoffUntil = some til → til ≤ c.floor) ∧ c.start ≤ c.floor ∧
      c.floor + r.floorPhase cancelOnly c.floor ≤ c.pace ∧ c.pace + r.pacePhase cancelOnly c.pace ≤ c.done := by
  unfold writeSlot at h
  unfold Honest at hc
  cases hback : r.backoffPhase c.start with
  | none =>
    rw [hback] at h
    cases h
  | some d₁ =>
    rw [hback] at h hc
    obtain ⟨hstart, havail, hrest⟩ := hc
    have hd₁ := backoffPhase_nonneg hback
    have hwindow := windowPhase_window r n c.avail c.wait
    cases hphase : r.windowPhase n c.avail c.wait with
    | mk r' o =>
      rw [hphase] at h hrest hwindow
      cases o with
      | none => cases h
      | some d₂ =>
        have hd₂ : 0 ≤ d₂ := windowPhase_nonneg (congrArg Prod.snd hphase)
        simp only at hwindow hrest
        rw [hwindow] at hrest
        refine ⟨fun til htil => ?_, by linarith, hrest.2⟩
        linarith [backoffPhase_reaches hback htil]

/-- **The gate honours backoff, spacing and pacing.** The clock does not go back, so the call is not before
the last send. -/
theorem writeSlot_honours (r : RateLimiter) (n : ℕ) (cancelOnly : Bool) (c : SlotClock)
    (hlast : ∀ t, r.lastSend = some t → t ≤ c.start) (hc : r.Honest n cancelOnly c) :
    (r.writeSlot n c).1 = { r with window := (r.writeSlot n c).1.window } ∧
      ((r.writeSlot n c).2 = false →
        (∃ til, r.globalBackoffUntil = some til ∧ backoffSleepThreshold < til - c.start) ∨
          windowSkipThreshold < r.windowWait n c.avail c.wait) ∧
      ((r.writeSlot n c).2 = true →
        (∀ til, r.globalBackoffUntil = some til → til ≤ c.done) ∧
          ∀ t, r.lastSend = some t →
            (cancelOnly = true → rlCancelMinInterval ≤ c.done - t) ∧
              (cancelOnly = false →
                (∀ mult, r.quotaPaceMultiplier = some mult → r.minSendInterval * mult ≤ c.done - t) ∧
                  ∀ quota, r.quota = some quota → quota < rlQuotaLow → rlFreeSlotInterval ≤ c.done - t)) := by
  refine ⟨writeSlot_window r n c, writeSlot_skips, fun h => ?_⟩
  obtain ⟨htil, hfloor, hpace, hdone⟩ := writeSlot_passes hc h
  have hd₃ : 0 ≤ r.floorPhase cancelOnly c.floor := sleepUpTo_nonneg _ _
  have hd₄ : 0 ≤ r.pacePhase cancelOnly c.pace := pacePhase_nonneg _
  refine ⟨fun til h => by linarith [htil til h], fun t ht => ?_⟩
  have hspaced := spaced_of_honest ht ((hlast t ht).trans hfloor) hpace hdone
  refine ⟨fun hcancel => ?_, fun hquotes => ⟨fun mult hmult => ?_, fun quota hq hlow => ?_⟩⟩
  · rw [spacing, if_pos hcancel] at hspaced
    linarith
  · rw [spacing, if_neg (by rw [hquotes]; exact Bool.false_ne_true), hmult] at hspaced
    simp only at hspaced
    linarith
  · have hnone : r.quotaPaceMultiplier = none := by
      have hh : quota < rlQuotaHigh := hlow.trans (by decide)
      have hm : quota < rlQuotaMedium := hlow.trans (by decide)
      simp only [quotaPaceMultiplier, hq, not_le.mpr hh, not_le.mpr hm, not_le.mpr hlow, if_false]
    rw [spacing, if_neg (by rw [hquotes]; exact Bool.false_ne_true), hnone] at hspaced
    have hle : rlFreeSlotInterval ≤ max r.minSendInterval rlFreeSlotInterval := le_max_right _ _
    simp only at hspaced
    linarith

/-! ## Exact sleeps -/

/-- The readings if nothing but the sleeps takes time. -/
def exactClock (r : RateLimiter) (n : ℕ) (cancelOnly : Bool) (start : Instant) : SlotClock :=
  match r.backoffPhase start with
  | none => ⟨start, start, start, start, start, start⟩
  | some d₁ =>
    let avail := start + d₁
    match (r.windowPhase n avail avail).2 with
    | none => ⟨start, avail, avail, avail, avail, avail⟩
    | some d₂ =>
      let floor := avail + d₂
      let pace := floor + r.floorPhase cancelOnly floor
      ⟨start, avail, avail, floor, pace, pace + r.pacePhase cancelOnly pace⟩

/-- When the backoff and the window let a batch pass, `none` if one of them skips the cycle. -/
def readyAt (r : RateLimiter) (n : ℕ) (start : Instant) : Option Instant :=
  (r.backoffPhase start).bind fun d₁ =>
    (r.windowPhase n (start + d₁) (start + d₁)).2.map fun d₂ => start + d₁ + d₂

/-- The delay of a batch that is let pass. -/
def approvedDelay (r : RateLimiter) (n : ℕ) (cancelOnly : Bool) (start : Instant) : Option ℚ :=
  let c := r.exactClock n cancelOnly start
  if (r.writeSlot n c).2 then some (c.done - start) else none

theorem exactClock_honest (r : RateLimiter) (n : ℕ) (cancelOnly : Bool) (start : Instant) :
    r.Honest n cancelOnly (r.exactClock n cancelOnly start) := by
  unfold exactClock
  cases hback : r.backoffPhase start with
  | none =>
    simp only [Honest, hback]
    exact le_refl _
  | some d₁ =>
    have hwindow := windowPhase_window r n (start + d₁) (start + d₁)
    cases hphase : r.windowPhase n (start + d₁) (start + d₁) with
    | mk r' o =>
      rw [hphase] at hwindow
      simp only at hwindow
      cases o with
      | none => simp [Honest, hback, hphase]
      | some d₂ =>
        simp only [Honest, hback, hphase]
        rw [hwindow]
        exact ⟨le_refl _, le_refl _, le_refl _, le_refl _, le_refl _⟩

/-- A backoff of one second and pacing at three times the interval, slept through. -/
theorem writeSlot_honours_paced :
    let r : RateLimiter :=
      { RateLimiter.new (1 / 2) with lastSend := some 0, globalBackoffUntil := some 1, quota := some 20 }
    let c := r.exactClock 3 false 0
    1 ≤ c.done ∧ 1 / 2 * 3 ≤ c.done - 0 := by
  intro r c
  have hstart : c.start = 0 := by decide +kernel
  have hlast : ∀ t, r.lastSend = some t → t ≤ c.start := by
    intro t ht
    cases ht
    exact hstart.ge
  have h := writeSlot_honours r 3 false c hlast (exactClock_honest r 3 false 0)
  obtain ⟨htil, hspaced⟩ := h.2.2 (by decide +kernel)
  exact ⟨htil 1 rfl, ((hspaced 0 rfl).2 rfl).1 3 rfl⟩

theorem approvedDelay_eq (r : RateLimiter) (n : ℕ) (cancelOnly : Bool) (start : Instant) :
    r.approvedDelay n cancelOnly start =
      (r.readyAt n start).map fun ready => r.spacedFrom cancelOnly ready - start := by
  unfold approvedDelay exactClock readyAt
  cases hback : r.backoffPhase start with
  | none => simp [writeSlot, hback]
  | some d₁ =>
    cases hphase : (r.windowPhase n (start + d₁) (start + d₁)).2 with
    | none => simp [writeSlot, hback, hphase]
    | some d₂ => simp [writeSlot, hback, hphase, spacedFrom]

theorem start_le_readyAt {ready : Instant} (h : r.readyAt n start = some ready) : start ≤ ready := by
  obtain ⟨d₁, hd₁, hmap⟩ := Option.bind_eq_some_iff.mp h
  obtain ⟨d₂, hd₂, rfl⟩ := Option.map_eq_some_iff.mp hmap
  linarith [backoffPhase_nonneg hd₁, windowPhase_nonneg hd₂]

/-- Without sleeps that last too long a batch passes as soon as it is ready and spaced. -/
theorem approvedDelay_spaced {t : Instant} (ht : r.lastSend = some t) (hle : t ≤ start)
    (hm : 0 ≤ r.minSendInterval) :
    r.approvedDelay n cancelOnly start =
      (r.readyAt n start).map fun ready => max ready (t + r.spacing cancelOnly) - start := by
  rw [approvedDelay_eq]
  refine Option.map_congr fun ready hready => ?_
  rw [spacedFrom_eq ht (hle.trans (start_le_readyAt hready)) hm]

/-- The interval of a cancel-only batch holds nothing up: there is no send to keep it from, it has passed
when the batch is ready, or the other batches keep one as long. -/
def CancelUnheld (r : RateLimiter) (n : ℕ) (start : Instant) : Prop :=
  ∀ ready, r.readyAt n start = some ready → ∀ t, r.lastSend = some t →
    t + rlCancelMinInterval ≤ ready ∨ rlCancelMinInterval ≤ r.spacing false

/-- **Cancels against quotes.** A cancel-only batch passes no later than another one of its size exactly if
its interval holds nothing up. -/
theorem cancel_delay_le_iff (r : RateLimiter) (n : ℕ) (start : Instant) (hm : 0 < r.minSendInterval)
    (hlast : ∀ t, r.lastSend = some t → t ≤ start) :
    (∀ d, r.approvedDelay n false start = some d →
      ∃ d', r.approvedDelay n true start = some d' ∧ d' ≤ d) ↔ r.CancelUnheld n start := by
  unfold CancelUnheld
  cases ht : r.lastSend with
  | none =>
    refine iff_of_true (fun d hd => ⟨d, ?_, le_refl _⟩) (fun _ _ t h => by cases h)
    rw [approvedDelay_eq] at hd ⊢
    simpa only [spacedFrom_of_none ht] using hd
  | some t =>
    simp only [approvedDelay_spaced ht (hlast t ht) hm.le, Option.some.injEq, forall_eq']
    cases r.readyAt n start with
    | none => simp
    | some ready =>
      simp only [Option.map_some, Option.some.injEq, forall_eq', exists_eq_left', sub_le_sub_iff_right]
      have hcancel : r.spacing true = rlCancelMinInterval := rfl
      rw [hcancel, max_le_iff, and_iff_right (le_max_left _ _), le_max_iff, add_le_add_iff_left]

/-- At a minimum interval of half a second cancels are as fast as quotes. -/
theorem cancel_delay_le_same :
    let r : RateLimiter := { RateLimiter.new (1 / 2) with lastSend := some 0 }
    ∀ d, r.approvedDelay 3 false (1 / 10) = some d →
      ∃ d', r.approvedDelay 3 true (1 / 10) = some d' ∧ d' ≤ d := by
  intro r
  refine (cancel_delay_le_iff r 3 (1 / 10) (by decide +kernel) ?_).mpr fun _ _ _ _ => .inr (by decide +kernel)
  intro t ht
  cases ht
  norm_num

/-- A tenth of a second after a send quotes pass at once, cancels wait four tenths more. -/
theorem cancel_delay_gt :
    let r : RateLimiter := { RateLimiter.new (1 / 10) with lastSend := some 0 }
    0 < r.minSendInterval ∧
      ¬ ∀ d, r.approvedDelay 3 false (1 / 10) = some d →
        ∃ d', r.approvedDelay 3 true (1 / 10) = some d' ∧ d' ≤ d := by
  intro r
  have hquotes : r.approvedDelay 3 false (1 / 10) = some 0 := by decide +kernel
  have hcancel : r.approvedDelay 3 true (1 / 10) = some (2 / 5) := by decide +kernel
  refine ⟨by decide +kernel, fun hle => ?_⟩
  obtain ⟨d', hd', hd⟩ := hle 0 hquotes
  rw [hcancel, Option.some.injEq] at hd'
  rw [← hd'] at hd
  exact absurd hd (by norm_num)

end RateLimiter

/-! ## The clock of a run -/

namespace RateRun

variable {w w' : RateRun}

theorem honest_start_le_done {r : RateLimiter} {n : ℕ} {cancelOnly : Bool} {c : SlotClock}
    (hc : r.Honest n cancelOnly c) : c.start ≤ c.done := by
  unfold RateLimiter.Honest at hc
  cases hback : r.backoffPhase c.start with
  | none =>
    rw [hback] at hc
    exact hc
  | some d₁ =>
    rw [hback] at hc
    obtain ⟨hstart, havail, hrest⟩ := hc
    have hd₁ := RateLimiter.backoffPhase_nonneg hback
    cases hphase : r.windowPhase n c.avail c.wait with
    | mk r' o =>
      rw [hphase] at hrest
      cases o with
      | none =>
        simp only at hrest
        linarith
      | some d₂ =>
        obtain ⟨hfloor, hpace, hdone⟩ := hrest
        have hd₂ : 0 ≤ d₂ := RateLimiter.windowPhase_nonneg (congrArg Prod.snd hphase)
        have hd₃ : 0 ≤ r'.floorPhase cancelOnly c.floor := RateLimiter.sleepUpTo_nonneg _ _
        have hd₄ : 0 ≤ r'.pacePhase cancelOnly c.pace := RateLimiter.pacePhase_nonneg _
        linarith

theorem resetGlobalBackoffAt_lastSend (r : RateLimiter) (now : Instant) :
    (r.resetGlobalBackoffAt now).lastSend = r.lastSend := by
  unfold RateLimiter.resetGlobalBackoffAt
  simp only
  rw [apply_ite RateLimiter.lastSend, ite_self]

theorem lastSend_step {a : RateAct} (h : ∀ t, w.limiter.lastSend = some t → t ≤ w.clock)
    (hst : w.step a = some w') : ∀ t, w'.limiter.lastSend = some t → t ≤ w'.clock := by
  cases a with
  | writeSlot n cancelOnly c =>
    obtain ⟨⟨hle, hc⟩, hw⟩ := Option.ite_none_right_eq_some.mp hst
    cases hw
    intro t ht
    have hsame : (w.limiter.writeSlot n c).1.lastSend = w.limiter.lastSend := by
      rw [RateLimiter.writeSlot_window]
    exact ((h t (hsame ▸ ht)).trans hle).trans (honest_start_le_done hc)
  | recordOpsSent now =>
    simp only [step] at hst
    cases happ : w.approved with
    | none =>
      rw [happ] at hst
      cases hst
    | some n =>
      rw [happ] at hst
      obtain ⟨-, hw⟩ := Option.ite_none_right_eq_some.mp hst
      cases hw
      intro t ht
      exact (Option.some.inj ht).ge
  | setQuota value =>
    cases hst
    exact h
  | triggerGlobalBackoff now =>
    obtain ⟨hle, hw⟩ := Option.ite_none_right_eq_some.mp hst
    cases hw
    exact fun t ht => (h t ht).trans hle
  | resetGlobalBackoff now =>
    obtain ⟨hle, hw⟩ := Option.ite_none_right_eq_some.mp hst
    cases hw
    exact fun t ht => (h t (resetGlobalBackoffAt_lastSend w.limiter now ▸ ht)).trans hle

/-- In a run the last send is never ahead of the clock, so `writeSlot_honours` speaks of every call. -/
theorem lastSend_le_clock {minSendInterval : ℚ} {t₀ : Instant} {as : List RateAct}
    (h : Trans.run step (start minSendInterval t₀) as = some w) :
    ∀ t, w.limiter.lastSend = some t → t ≤ w.clock :=
  Trans.run_history (P := fun _ w => ∀ t, w.limiter.lastSend = some t → t ≤ w.clock)
    (fun t ht => by cases ht) (fun _ _ _ _ _ h hst => lastSend_step h hst) h

end RateRun

end LighterMM
