import LighterMM.Hot.HotTask
import LighterMM.Lib.Trans
import LighterMM.Lib.Window

/-!
# Rate limiter (`exec/rate_limit.rs`)

The window of the ops sent, the volume quota, the backoff after a 429, and `write_slot`, the gate of the
sender. A method that reads the clock takes its readings as arguments; `write_slot` reads it before each
of its phases and sleeps in between, so its readings are a `SlotClock`, which is `Honest` if no sleep is
shorter than requested.

`write_slot` does not look at the window again after it has slept. That it need not is `windowPhase_room`,
and from it follows the guarantee of the window over any run of approvals and records
(`ops_per_window`).
-/

namespace LighterMM

/-- `RL_OPS_PER_WINDOW`. -/
def rlOpsPerWindow : ℕ := 40

/-- `RL_WINDOW_SECONDS`. -/
def rlWindowSeconds : ℚ := 60

/-- `RL_CANCEL_MIN_INTERVAL`. -/
def rlCancelMinInterval : ℚ := 1 / 2

/-- `RL_FREE_SLOT_INTERVAL`. -/
def rlFreeSlotInterval : ℚ := 15

/-- `RL_BACKOFF_BASE`, `RL_BACKOFF_MAX`, `RL_BACKOFF_RESET_AFTER`. -/
def rlBackoffBase : ℚ := 15

def rlBackoffMax : ℚ := 120

def rlBackoffResetAfter : ℕ := 2

/-- `BACKOFF_DECAY_SECS`. -/
def backoffDecaySecs : ℚ := 300

/-- `BACKOFF_SLEEP_THRESHOLD`: a backoff that ends sooner is slept out. -/
def backoffSleepThreshold : ℚ := 2

/-- `WINDOW_SKIP_THRESHOLD`: a longer wait for the window skips the cycle. -/
def windowSkipThreshold : ℚ := 30

structure RateLimiter where
  window : List Instant
  lastSend : Option Instant
  globalBackoffUntil : Option Instant
  backoffLevel : ℕ
  consecutiveSuccesses : ℕ
  lastBackoffTrigger : Option Instant
  quota : Option ℤ
  minSendInterval : ℚ

/-- The clock readings of one `write_slot`, and the time of its return. -/
structure SlotClock where
  start : Instant
  avail : Instant
  wait : Instant
  floor : Instant
  pace : Instant
  done : Instant

namespace RateLimiter

def new (rateLimitSendInterval : ℚ) : RateLimiter := ⟨[], none, none, 0, 0, none, none, rateLimitSendInterval⟩

def setQuota (r : RateLimiter) (value : Option ℤ) : RateLimiter := { r with quota := value }

/-! ## The window -/

def pruneOpWindowAt (r : RateLimiter) (now : Instant) : RateLimiter :=
  { r with window := r.window.dropWhile fun front => decide (front < now - rlWindowSeconds) }

def opsAvailableAt (r : RateLimiter) (now : Instant) : RateLimiter × ℕ :=
  let r := r.pruneOpWindowAt now
  (r, rlOpsPerWindow - r.window.length)

/-- Seconds until `n` ops become available: until the op at `idx` has left the window. -/
def timeUntilOpsFreeAt (r : RateLimiter) (n : ℕ) (now : Instant) : RateLimiter × ℚ :=
  let r := r.pruneOpWindowAt now
  let len := r.window.length
  if len = 0 ∨ len + n ≤ rlOpsPerWindow then (r, 0)
  else
    let idx : ℤ := len - (rlOpsPerWindow - n)
    if idx < 0 then (r, 0)
    else
      -- A batch of the whole budget or more waits for the last op.
      let idx : ℤ := if len ≤ idx then len - 1 else idx
      let expiresAt := r.window[idx.toNat]?.getD 0 + rlWindowSeconds
      (r, if expiresAt ≤ now then 0 else expiresAt - now)

def recordOpsSentAt (r : RateLimiter) (count : ℕ) (now : Instant) : RateLimiter :=
  { r with window := r.window ++ List.replicate count now, lastSend := some now }

/-! ## Quota and backoff -/

/-- The pacing multiplier, `none` for infinity. -/
def quotaPaceMultiplier (r : RateLimiter) : Option ℚ :=
  match r.quota with
  | none => some 1
  | some q =>
    if rlQuotaHigh ≤ q then some 1
    else if rlQuotaMedium ≤ q then some (3 / 2)
    else if rlQuotaLow ≤ q then some 3
    else none

def triggerGlobalBackoffAt (r : RateLimiter) (now : Instant) : RateLimiter :=
  let duration := min (rlBackoffBase * 2 ^ r.backoffLevel) rlBackoffMax
  { r with backoffLevel := r.backoffLevel + 1, consecutiveSuccesses := 0, lastBackoffTrigger := some now,
           globalBackoffUntil := some (now + duration) }

def resetGlobalBackoffAt (r : RateLimiter) (now : Instant) : RateLimiter :=
  let r := { r with consecutiveSuccesses := r.consecutiveSuccesses + 1 }
  let decayed := match r.lastBackoffTrigger with
    | some trig => decide (backoffDecaySecs < now - trig)
    | none => false
  if 0 < r.backoffLevel ∧ (decayed = true ∨ rlBackoffResetAfter ≤ r.consecutiveSuccesses) then
    { r with backoffLevel := 0, consecutiveSuccesses := 0 }
  else r

/-! ## The gate -/

/-- Seconds since the last recorded send, `none` if there was none. -/
def elapsedSinceLastSend (r : RateLimiter) (now : Instant) : Option ℚ := r.lastSend.map (max (now - ·) 0)

/-- The sleep that brings the elapsed time up to a bound. -/
def sleepUpTo (bound : ℚ) : Option ℚ → ℚ
  | some elapsed => if elapsed < bound then bound - elapsed else 0
  | none => 0

/-- Phase 1: the rest of a backoff that ends soon; `none` skips the cycle. -/
def backoffPhase (r : RateLimiter) (now : Instant) : Option ℚ :=
  match r.globalBackoffUntil with
  | some til =>
    if now < til then if til - now ≤ backoffSleepThreshold then some (til - now) else none else some 0
  | none => some 0

/-- Phase 2: the wait for `n` ops in the window; `none` skips the cycle. -/
def windowPhase (r : RateLimiter) (n : ℕ) (avail wait : Instant) : RateLimiter × Option ℚ :=
  let q := r.opsAvailableAt avail
  if q.2 < n then
    let u := q.1.timeUntilOpsFreeAt n wait
    (u.1, if windowSkipThreshold < u.2 then none else some u.2)
  else (q.1, some 0)

def sendFloor (r : RateLimiter) (cancelOnly : Bool) : ℚ :=
  if cancelOnly then rlCancelMinInterval else r.minSendInterval

/-- Phase 3: the minimum interval between two sends. -/
def floorPhase (r : RateLimiter) (cancelOnly : Bool) (now : Instant) : ℚ :=
  sleepUpTo (r.sendFloor cancelOnly) (r.elapsedSinceLastSend now)

/-- Phase 4: pacing by the volume quota. -/
def pacePhase (r : RateLimiter) (cancelOnly : Bool) (now : Instant) : ℚ :=
  if cancelOnly then 0
  else
    match r.quotaPaceMultiplier with
    | none => sleepUpTo rlFreeSlotInterval (r.elapsedSinceLastSend now)
    | some mult =>
      if 1 < mult then
        sleepUpTo (r.sendFloor cancelOnly + r.sendFloor cancelOnly * (mult - 1)) (r.elapsedSinceLastSend now)
      else 0

/-- May a batch of `n` ops proceed? The last two phases only sleep. -/
def writeSlot (r : RateLimiter) (n : ℕ) (c : SlotClock) : RateLimiter × Bool :=
  match r.backoffPhase c.start with
  | none => (r, false)
  | some _ =>
    let q := r.windowPhase n c.avail c.wait
    (q.1, q.2.isSome)

/-- The readings of a clock that does not go back, with sleeps that last at least as long as
requested. -/
def Honest (r : RateLimiter) (n : ℕ) (cancelOnly : Bool) (c : SlotClock) : Prop :=
  match r.backoffPhase c.start with
  | none => c.start ≤ c.done
  | some d₁ =>
    c.start + d₁ ≤ c.avail ∧ c.avail ≤ c.wait ∧
      match r.windowPhase n c.avail c.wait with
      | (_, none) => c.wait ≤ c.done
      | (r', some d₂) =>
        c.wait + d₂ ≤ c.floor ∧ c.floor + r'.floorPhase cancelOnly c.floor ≤ c.pace ∧
          c.pace + r'.pacePhase cancelOnly c.pace ≤ c.done

variable {r : RateLimiter} {n : ℕ} {now : Instant}

theorem sleepUpTo_nonneg (bound : ℚ) (elapsed : Option ℚ) : 0 ≤ sleepUpTo bound elapsed := by
  unfold sleepUpTo
  split
  · split
    · linarith
    · exact le_refl _
  · exact le_refl _

theorem pacePhase_nonneg (cancelOnly : Bool) : 0 ≤ r.pacePhase cancelOnly now := by
  unfold pacePhase
  split
  · exact le_refl _
  · split
    · exact sleepUpTo_nonneg _ _
    · split
      · exact sleepUpTo_nonneg _ _
      · exact le_refl _

theorem backoffPhase_nonneg {d : ℚ} (h : r.backoffPhase now = some d) : 0 ≤ d := by
  unfold backoffPhase at h
  split at h
  · split at h
    · split at h
      · cases h
        linarith
      · cases h
    · cases h
      exact le_refl _
  · cases h
    exact le_refl _

theorem resetGlobalBackoffAt_window : (r.resetGlobalBackoffAt now).window = r.window := by
  unfold resetGlobalBackoffAt
  simp only
  rw [apply_ite RateLimiter.window, ite_self]

/-! ## What the window says -/

/-- Pruning drops a prefix of ops that have left the window. -/
theorem prune_spec (r : RateLimiter) (now : Instant) :
    ∃ old, r.window = old ++ (r.pruneOpWindowAt now).window ∧ ∀ t ∈ old, t ≤ now - rlWindowSeconds := by
  refine ⟨_, (List.takeWhile_append_dropWhile).symm, fun t ht => ?_⟩
  have := List.mem_takeWhile_imp ht
  rw [decide_eq_true_eq] at this
  exact this.le

theorem prune_sorted (hs : r.window.Pairwise (· ≤ ·)) : (r.pruneOpWindowAt now).window.Pairwise (· ≤ ·) :=
  hs.sublist (List.dropWhile_sublist _)

theorem timeUntilOpsFreeAt_window : (r.timeUntilOpsFreeAt n now).1 = r.pruneOpWindowAt now := by
  unfold timeUntilOpsFreeAt
  simp only
  split
  · rfl
  · split <;> rfl

/-- The wait is not negative. Unless there is room already, it lasts until an op has left the window after
which few enough are left. -/
theorem timeUntilOpsFreeAt_spec (r : RateLimiter) (n : ℕ) (now : Instant) :
    let l := (r.pruneOpWindowAt now).window
    0 ≤ (r.timeUntilOpsFreeAt n now).2 ∧
      (l.length + n ≤ max rlOpsPerWindow n ∨
        ∃ i, ∃ hi : i < l.length, l[i] + rlWindowSeconds ≤ now + (r.timeUntilOpsFreeAt n now).2 ∧
          l.length - (i + 1) + n ≤ max rlOpsPerWindow n) := by
  intro l
  unfold timeUntilOpsFreeAt
  simp only
  by_cases hroom : l.length = 0 ∨ l.length + n ≤ rlOpsPerWindow
  · rw [if_pos hroom]
    exact ⟨le_refl _, .inl (by omega)⟩
  · rw [if_neg hroom]
    rw [not_or] at hroom
    have hidx : ¬ ((l.length : ℤ) - (rlOpsPerWindow - n) < 0) := by omega
    rw [if_neg hidx]
    set idx : ℤ := if (l.length : ℤ) ≤ l.length - (rlOpsPerWindow - n) then (l.length : ℤ) - 1
      else l.length - (rlOpsPerWindow - n) with hdef
    have hi : idx.toNat < l.length := by
      rw [hdef]
      split <;> omega
    have hget : l[idx.toNat]?.getD 0 = l[idx.toNat] := by
      rw [List.getElem?_eq_getElem hi, Option.getD_some]
    have hleft : l.length - (idx.toNat + 1) + n ≤ max rlOpsPerWindow n := by
      rw [hdef]
      split <;> omega
    show 0 ≤ (if l[idx.toNat]?.getD 0 + rlWindowSeconds ≤ now then _ else _) ∧
      (_ ∨ ∃ i, ∃ hi : i < l.length, _ ≤ now + (if l[idx.toNat]?.getD 0 + rlWindowSeconds ≤ now then _ else _) ∧ _)
    rw [hget]
    split
    · rename_i hexp
      exact ⟨le_refl _, .inr ⟨idx.toNat, hi, by linarith, hleft⟩⟩
    · rename_i hexp
      exact ⟨by linarith, .inr ⟨idx.toNat, hi, by linarith, hleft⟩⟩

/-- **After the wait there is room for `n` ops.** -/
theorem timeUntilOpsFreeAt_room (hs : r.window.Pairwise (· ≤ ·)) {later : Instant}
    (hlater : now + (r.timeUntilOpsFreeAt n now).2 ≤ later) :
    Window.recent rlWindowSeconds later (r.pruneOpWindowAt now).window + n ≤ max rlOpsPerWindow n := by
  rcases (r.timeUntilOpsFreeAt_spec n now).2 with hroom | ⟨i, hi, hexp, hleft⟩
  · exact (Nat.add_le_add_right Window.recent_le_length n).trans hroom
  · refine (Nat.add_le_add_right ?_ n).trans hleft
    exact Window.recent_le_of_expired (prune_sorted hs) hi (by linarith)

/-- What phase 2 leaves of the window, and the room it finds when it lets a batch pass. -/
theorem windowPhase_spec (hs : r.window.Pairwise (· ≤ ·)) {avail wait : Instant} (hle : avail ≤ wait) :
    (∃ old, r.window = old ++ (r.windowPhase n avail wait).1.window ∧ ∀ t ∈ old, t ≤ wait - rlWindowSeconds) ∧
      ∀ d, (r.windowPhase n avail wait).2 = some d → 0 ≤ d ∧ ∀ later, wait + d ≤ later → n ≠ 0 →
        Window.recent rlWindowSeconds later (r.windowPhase n avail wait).1.window + n ≤ max rlOpsPerWindow n := by
  obtain ⟨old₁, h₁, hold₁⟩ := r.prune_spec avail
  have hold₁' : ∀ t ∈ old₁, t ≤ wait - rlWindowSeconds := fun t ht => (hold₁ t ht).trans (by linarith)
  unfold windowPhase opsAvailableAt
  simp only
  split
  · obtain ⟨old₂, h₂, hold₂⟩ := (r.pruneOpWindowAt avail).prune_spec wait
    rw [timeUntilOpsFreeAt_window]
    refine ⟨⟨old₁ ++ old₂, by rw [List.append_assoc, ← h₂, ← h₁], ?_⟩, fun d hd => ?_⟩
    · intro t ht
      rcases List.mem_append.mp ht with ht | ht
      · exact hold₁' t ht
      · exact hold₂ t ht
    · split at hd
      · cases hd
      · cases hd
        refine ⟨(timeUntilOpsFreeAt_spec _ n wait).1, fun later hlater _ => ?_⟩
        exact timeUntilOpsFreeAt_room (prune_sorted hs) hlater
  · rename_i havail
    refine ⟨⟨old₁, h₁, hold₁'⟩, fun d hd => ?_⟩
    cases hd
    refine ⟨le_refl _, fun later _ hn => ?_⟩
    have hlen : Window.recent rlWindowSeconds later (r.pruneOpWindowAt avail).window ≤
      (r.pruneOpWindowAt avail).window.length := Window.recent_le_length
    show Window.recent rlWindowSeconds later (r.pruneOpWindowAt avail).window + n ≤ _
    omega

end RateLimiter

/-! ## Runs of approvals and records -/

/-- What is done with the limiter. -/
inductive RateAct where
  | writeSlot (n : ℕ) (cancelOnly : Bool) (c : SlotClock)
  /-- `record_ops_sent` for the batch that was let pass last. -/
  | recordOpsSent (now : Instant)
  | setQuota (value : Option ℤ)
  | triggerGlobalBackoff (now : Instant)
  | resetGlobalBackoff (now : Instant)

/-- The limiter, the batch that was let pass and is not recorded yet, and all ops recorded so far. -/
structure RateRun where
  limiter : RateLimiter
  clock : Instant
  approved : Option ℕ
  log : List Instant
  largest : ℕ

namespace RateRun

open RateLimiter in
instance (r : RateLimiter) (n : ℕ) (cancelOnly : Bool) (c : SlotClock) : Decidable (Honest r n cancelOnly c) := by
  unfold Honest
  split
  · infer_instance
  · split <;> infer_instance

def start (minSendInterval : ℚ) (now : Instant) : RateRun := ⟨.new minSendInterval, now, none, [], 0⟩

def step (w : RateRun) : RateAct → Option RateRun
  | .writeSlot n cancelOnly c =>
    if w.clock ≤ c.start ∧ w.limiter.Honest n cancelOnly c then
      let q := w.limiter.writeSlot n c
      some { w with limiter := q.1, clock := c.done, approved := if q.2 then some n else none }
    else none
  | .recordOpsSent now =>
    match w.approved with
    | some n =>
      if w.clock ≤ now then
        some { limiter := w.limiter.recordOpsSentAt n now, clock := now, approved := none,
               log := w.log ++ List.replicate n now, largest := max w.largest n }
      else none
    | none => none
  | .setQuota value => some { w with limiter := w.limiter.setQuota value }
  | .triggerGlobalBackoff now =>
    if w.clock ≤ now then some { w with limiter := w.limiter.triggerGlobalBackoffAt now, clock := now } else none
  | .resetGlobalBackoff now =>
    if w.clock ≤ now then some { w with limiter := w.limiter.resetGlobalBackoffAt now, clock := now } else none

/-- The cap of a window. -/
def cap (w : RateRun) : ℕ := max rlOpsPerWindow w.largest

/-- The limiter holds the recorded ops that may still count, and a batch that was let pass has room. -/
structure Accounted (w : RateRun) : Prop where
  split : ∃ old, w.log = old ++ w.limiter.window ∧ ∀ t ∈ old, t ≤ w.clock - rlWindowSeconds
  sorted : w.limiter.window.Pairwise (· ≤ ·)
  past : ∀ t ∈ w.log, t ≤ w.clock
  bound : Window.AtMost rlWindowSeconds w.cap w.log
  room : ∀ n, w.approved = some n → n ≠ 0 →
    Window.recent rlWindowSeconds w.clock w.log + n ≤ max rlOpsPerWindow n

variable {w w' : RateRun}

theorem start_accounted (minSendInterval : ℚ) (now : Instant) : Accounted (start minSendInterval now) :=
  ⟨⟨[], rfl, by simp⟩, .nil, by simp [start], .nil, fun n h => by cases h⟩

/-- Time passes, and the limiter keeps its window. -/
theorem Accounted.later {r : RateLimiter} {now : Instant} (h : Accounted w) (hr : r.window = w.limiter.window)
    (hle : w.clock ≤ now) : Accounted { w with limiter := r, clock := now } := by
  obtain ⟨old, hlog, hold⟩ := h.split
  refine ⟨⟨old, hlog.trans (by rw [hr]), fun t ht => (hold t ht).trans (by linarith)⟩, ?_, ?_, h.bound, ?_⟩
  · show r.window.Pairwise _
    rw [hr]
    exact h.sorted
  · exact fun t ht => (h.past t ht).trans hle
  · exact fun n hn hz => (Nat.add_le_add_right (Window.recent_anti hle) n).trans (h.room n hn hz)

/-- A batch that has room is recorded. -/
theorem Accounted.recorded {n : ℕ} {now : Instant} (h : Accounted w) (hn : w.approved = some n)
    (hle : w.clock ≤ now) :
    Accounted { limiter := w.limiter.recordOpsSentAt n now, clock := now, approved := none,
                log := w.log ++ List.replicate n now, largest := max w.largest n } := by
  obtain ⟨old, hlog, hold⟩ := h.split
  have hpast : ∀ t ∈ w.log, t ≤ now := fun t ht => (h.past t ht).trans hle
  refine ⟨⟨old, ?_, fun t ht => (hold t ht).trans (by linarith)⟩, ?_, ?_, ?_, fun n h => by cases h⟩
  · show w.log ++ _ = old ++ (w.limiter.window ++ _)
    rw [hlog, List.append_assoc]
  · refine List.pairwise_append.mpr ⟨h.sorted, List.pairwise_replicate.mpr (.inr (le_refl _)), ?_⟩
    intro s hs t ht
    rw [List.eq_of_mem_replicate ht]
    exact hpast s (by rw [hlog]; exact List.mem_append_right _ hs)
  · intro t ht
    rcases List.mem_append.mp ht with ht | ht
    · exact hpast t ht
    · exact (List.eq_of_mem_replicate ht).le
  · have hcap : w.cap ≤ max rlOpsPerWindow (max w.largest n) := by
      unfold cap
      omega
    show Window.AtMost _ (max rlOpsPerWindow (max w.largest n)) _
    by_cases hz : n = 0
    · rw [hz, List.replicate_zero, List.append_nil]
      exact h.bound.mono (by rw [← hz]; exact hcap)
    · refine (h.bound.mono hcap).append_replicate ?_
      have hroom := (Nat.add_le_add_right (Window.recent_anti hle) n).trans (h.room n hn hz)
      omega

/-- A call of the gate, whether or not it lets the batch pass. -/
theorem Accounted.gated {n : ℕ} {cancelOnly : Bool} {c : SlotClock} (h : Accounted w) (hle : w.clock ≤ c.start)
    (hc : w.limiter.Honest n cancelOnly c) :
    Accounted { w with limiter := (w.limiter.writeSlot n c).1, clock := c.done,
                       approved := if (w.limiter.writeSlot n c).2 then some n else none } := by
  unfold RateLimiter.Honest at hc
  unfold RateLimiter.writeSlot
  cases hback : w.limiter.backoffPhase c.start with
  | none =>
    rw [hback] at hc
    have hlater := h.later (r := w.limiter) rfl (hle.trans hc)
    exact ⟨hlater.split, hlater.sorted, hlater.past, hlater.bound, fun n h => by cases h⟩
  | some d₁ =>
    rw [hback] at hc
    obtain ⟨hstart, havail, hrest⟩ := hc
    have hd₁ := RateLimiter.backoffPhase_nonneg hback
    obtain ⟨⟨old', hold', hexp'⟩, hpass⟩ := RateLimiter.windowPhase_spec (n := n) h.sorted havail
    obtain ⟨old, hlog, hexp⟩ := h.split
    have hdone : c.wait ≤ c.done ∧ ∀ d, (w.limiter.windowPhase n c.avail c.wait).2 = some d →
        c.wait + d ≤ c.done := by
      cases hphase : w.limiter.windowPhase n c.avail c.wait with
      | mk r' o =>
        rw [hphase] at hrest hpass
        cases o with
        | none => exact ⟨hrest, fun d hd => by cases hd⟩
        | some d₂ =>
          obtain ⟨hfloor, hpace, hend⟩ := hrest
          have hd₂ := (hpass d₂ rfl).1
          have hd₃ : 0 ≤ r'.floorPhase cancelOnly c.floor := RateLimiter.sleepUpTo_nonneg _ _
          have hd₄ : 0 ≤ r'.pacePhase cancelOnly c.pace := RateLimiter.pacePhase_nonneg _
          refine ⟨by linarith, fun d hd => ?_⟩
          obtain rfl : d₂ = d := Option.some.inj hd
          linarith
    have hclock : w.clock ≤ c.wait := by linarith
    have hgone : ∀ t ∈ old ++ old', t ≤ c.done - rlWindowSeconds := by
      intro t ht
      rcases List.mem_append.mp ht with ht | ht
      · exact (hexp t ht).trans (by linarith [hdone.1])
      · exact (hexp' t ht).trans (by linarith [hdone.1])
    have hlog' : w.log = (old ++ old') ++ (w.limiter.windowPhase n c.avail c.wait).1.window := by
      rw [hlog, List.append_assoc, ← hold']
    refine ⟨⟨old ++ old', hlog', hgone⟩, ?_, ?_, h.bound, ?_⟩
    · exact (List.pairwise_append.mp (hold' ▸ h.sorted)).2.1
    · exact fun t ht => (h.past t ht).trans (hclock.trans hdone.1)
    · intro m hm hz
      cases hphase : (w.limiter.windowPhase n c.avail c.wait).2 with
      | none =>
        simp only [hphase, Option.isSome_none] at hm
        cases hm
      | some d =>
        simp only [hphase, Option.isSome_some] at hm
        cases hm
        rw [hlog', Window.recent_append, Window.recent_eq_zero hgone, Nat.zero_add]
        exact (hpass d hphase).2 c.done (hdone.2 d hphase) hz

theorem Accounted.step {a : RateAct} (h : Accounted w) (hst : w.step a = some w') : Accounted w' := by
  cases a with
  | writeSlot n cancelOnly c =>
    simp only [RateRun.step] at hst
    split at hst
    · rename_i hc
      cases hst
      exact h.gated hc.1 hc.2
    · cases hst
  | recordOpsSent now =>
    simp only [RateRun.step] at hst
    split at hst
    · rename_i n hn
      split at hst
      · rename_i hle
        cases hst
        exact h.recorded hn hle
      · cases hst
    · cases hst
  | setQuota value =>
    cases hst
    exact h.later rfl (le_refl _)
  | triggerGlobalBackoff now =>
    simp only [RateRun.step] at hst
    split at hst
    · rename_i hle
      cases hst
      exact h.later rfl hle
    · cases hst
  | resetGlobalBackoff now =>
    simp only [RateRun.step] at hst
    split at hst
    · rename_i hle
      cases hst
      exact h.later RateLimiter.resetGlobalBackoffAt_window hle
    · cases hst

/-- **The window of the rate limiter.** In every run of approvals and records, under a clock that does
not go back and whose sleeps are not cut short, no half-open interval of 60 s holds more recorded ops
than the budget of 40 or the largest single batch. -/
theorem ops_per_window (minSendInterval : ℚ) (t₀ : Instant) (as : List RateAct) (w : RateRun)
    (h : Trans.run step (start minSendInterval t₀) as = some w) (x : Instant) :
    w.log.countP (fun t => decide (x ≤ t ∧ t < x + rlWindowSeconds)) ≤ max rlOpsPerWindow w.largest ∧
      w.log.countP (fun t => decide (x < t ∧ t ≤ x + rlWindowSeconds)) ≤ max rlOpsPerWindow w.largest := by
  have hacc : Accounted w := Trans.run_history (P := fun _ w => Accounted w) (start_accounted _ _)
    (fun _ _ _ _ _ hacc hst => hacc.step hst) h
  exact ⟨hacc.bound _ (Window.short_Ico _ x), hacc.bound _ (Window.short_Ioc _ x)⟩

/-- A batch of `30` at `0`, which lets one of `20` pass only after a wait of `20` at second `40`. -/
def waitedBatches : List RateAct :=
  [.writeSlot 30 false ⟨0, 0, 0, 0, 0, 0⟩, .recordOpsSent 0, .writeSlot 20 false ⟨40, 40, 40, 60, 60, 60⟩,
    .recordOpsSent 60]

theorem ops_per_window_waited :
    ∃ w, Trans.run step (start (1 / 10) 0) waitedBatches = some w ∧ w.log.length = 50 ∧
      w.log.countP (fun t => decide ((1 : ℚ) ≤ t ∧ t < 1 + rlWindowSeconds)) ≤ max rlOpsPerWindow w.largest := by
  obtain ⟨w, hw, hlen⟩ := Option.map_eq_some_iff.mp
    (show (Trans.run step (start (1 / 10) 0) waitedBatches).map (·.log.length) = some 50 by decide +kernel)
  exact ⟨w, hw, hlen, (ops_per_window (1 / 10) 0 waitedBatches w hw 1).1⟩

end RateRun

end LighterMM
