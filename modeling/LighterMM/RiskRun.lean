import LighterMM.Lib.Trans
import LighterMM.Risk

/-!
# Runs of the risk controller

The sender and the reconcile poller call the controller at non-decreasing times. `PauseRun` is the
controller next to what its callers have seen of it: when a pause was last armed, how many rejections
there were since the last success or recovery, what the last reconcile said.

`Tracks` ties the two together: the deadline is the last arming plus the cooldown, also after several
armings, since a later one gives a later deadline. A pause is therefore left at its last deadline
(`pause_left_by_recovery`), and not by the clock alone.
-/

namespace LighterMM

inductive RiskCall where
  | recordSuccess
  | recordRejection (kind : RejectKind)
  | triggerPause (reason : PauseReason)
  | markReconcile (ok : Bool) (reason : ReconcileReason)
  | maybeRecover (websocketHealthy : Bool)
  deriving DecidableEq, Repr

structure PauseRun where
  risk : RiskController
  clock : Instant
  /-- The last arming of the pause, `none` if there is no pause. -/
  armedAt : Option Instant
  /-- The rejections since the last success or recovery. -/
  rejections : ℕ
  lastReconcile : Option Bool

namespace PauseRun

def start (k : ℕ) (cooldown : ℚ) (now : Instant) : PauseRun := ⟨.new k cooldown, now, none, 0, none⟩

/-- A call at time `now`, which is not before the last one. -/
def step (w : PauseRun) (call : Instant × RiskCall) : Option PauseRun :=
  let now := call.1
  if now < w.clock then none
  else
    let w := { w with clock := now }
    match call.2 with
    | .recordSuccess => some { w with risk := w.risk.recordSuccess, rejections := 0 }
    | .recordRejection kind =>
      let k := w.risk.maxConsecutiveOrderRejections
      some { w with
        risk := w.risk.recordRejection now kind
        rejections := w.rejections + 1
        armedAt := if 0 < k ∧ k ≤ w.rejections + 1 then some now else w.armedAt }
    | .triggerPause reason => some { w with risk := w.risk.triggerPause now reason, armedAt := some now }
    | .markReconcile ok reason =>
      some { w with risk := w.risk.markReconcile now ok reason, lastReconcile := some ok }
    | .maybeRecover healthy =>
      let r := w.risk.maybeRecover now healthy
      if r.2 ∧ w.armedAt.isSome then some { w with risk := r.1, armedAt := none, rejections := 0 }
      else some { w with risk := r.1 }

end PauseRun

/-- A later arming moves the deadline. -/
theorem RiskController.triggerPause_deadline {r : RiskController} {now : Instant} {armedAt : Option Instant}
    (hc : 0 ≤ r.circuitBreakerCooldownSec)
    (hd : r.pausedUntil = armedAt.map (· + r.circuitBreakerCooldownSec))
    (hpast : ∀ a, armedAt = some a → a ≤ now) (reason : PauseReason) :
    (r.triggerPause now reason).pausedUntil = some (now + r.circuitBreakerCooldownSec) := by
  unfold triggerPause
  simp only [hd, max_eq_left hc]
  cases armedAt with
  | none => rfl
  | some a =>
    have hle : a ≤ now := hpast a rfl
    simp only [Option.map_some]
    split
    · rename_i htil
      have hsame : a = now := by linarith
      rw [hsame]
    · rfl

namespace PauseRun

/-- The controller agrees with what its callers have seen. -/
structure Tracks (k : ℕ) (cooldown : ℚ) (w : PauseRun) : Prop where
  threshold : w.risk.maxConsecutiveOrderRejections = k
  cool : w.risk.circuitBreakerCooldownSec = cooldown
  deadline : w.risk.pausedUntil = w.armedAt.map (· + cooldown)
  past : ∀ a, w.armedAt = some a → a ≤ w.clock
  count : w.risk.consecutiveRejections = w.rejections
  reconcile : w.risk.lastReconcileOk = decide (w.lastReconcile ≠ some false)
  tripped : 0 < k → k ≤ w.rejections → w.armedAt ≠ none

variable {k : ℕ} {cooldown : ℚ} {now : Instant} {w w' : PauseRun}

theorem start_tracks : Tracks k cooldown (start k cooldown now) :=
  ⟨rfl, rfl, rfl, fun a h => (Option.some_ne_none a h.symm).elim, rfl, rfl,
    fun hk h => absurd hk (not_lt.mpr h)⟩

/-- What `maybe_recover` answers. -/
theorem Tracks.recover_iff (h : Tracks k cooldown w) (healthy : Bool) :
    (w.risk.maybeRecover now healthy).2 = true ↔
      ∀ a, w.armedAt = some a → a + cooldown ≤ now ∧ healthy = true ∧ w.lastReconcile ≠ some false := by
  unfold RiskController.maybeRecover RiskController.isPaused
  rw [h.deadline, h.reconcile]
  cases ha : w.armedAt with
  | none => simp
  | some a =>
    simp only [Option.map_some, decide_eq_true_eq, Option.isNone_some, Bool.false_eq_true, if_false,
      Option.some.injEq, forall_eq', decide_eq_false_iff_not, not_not]
    by_cases hlt : now < a + cooldown
    · rw [if_pos hlt]
      exact iff_of_false Bool.false_ne_true fun hr => absurd hr.1 (not_le.mpr hlt)
    · rw [if_neg hlt]
      by_cases hbad : w.lastReconcile = some false ∨ healthy = false
      · rw [if_pos hbad]
        refine iff_of_false Bool.false_ne_true fun hr => ?_
        rcases hbad with hbad | hbad
        · exact hr.2.2 hbad
        · rw [hbad] at hr
          exact Bool.false_ne_true hr.2.1
      · rw [if_neg hbad]
        rw [not_or, Bool.not_eq_false] at hbad
        exact iff_of_true rfl ⟨not_lt.mp hlt, hbad.2, hbad.1⟩

/-- The controller after `maybe_recover`: cleared if a pause was left, else the same. -/
theorem Tracks.recovered (h : Tracks k cooldown w) (now : Instant) (healthy : Bool) :
    (w.risk.maybeRecover now healthy).1 =
      if (w.risk.maybeRecover now healthy).2 ∧ w.armedAt.isSome then
        { w.risk with pausedUntil := none, pauseReason := none, consecutiveRejections := 0,
                      pauseCancelDone := false }
      else w.risk := by
  have hsome : w.risk.pausedUntil.isSome = w.armedAt.isSome := by
    rw [h.deadline, Option.isSome_map]
  unfold RiskController.maybeRecover
  split
  · rw [if_neg fun hr => Bool.false_ne_true hr.1]
  · split
    · rename_i hnone
      rw [if_neg]
      rintro ⟨-, hr⟩
      rw [← hsome, Option.isNone_iff_eq_none.mp hnone] at hr
      cases hr
    · split
      · rw [if_neg fun hr => Bool.false_ne_true hr.1]
      · rename_i hnone _
        rw [if_pos]
        refine ⟨rfl, ?_⟩
        rw [← hsome]
        simpa [Option.isSome_iff_ne_none] using hnone

theorem Tracks.step {call : Instant × RiskCall} (h : Tracks k cooldown w) (hc : 0 ≤ cooldown)
    (hst : w.step call = some w') : Tracks k cooldown w' := by
  obtain ⟨now, call⟩ := call
  unfold PauseRun.step at hst
  simp only at hst
  split at hst
  · cases hst
  · rename_i hle
    have hnow : w.clock ≤ now := not_lt.mp hle
    have hpast : ∀ a, w.armedAt = some a → a ≤ now := fun a ha => (h.past a ha).trans hnow
    cases call with
    | recordSuccess =>
      cases hst
      exact ⟨h.threshold, h.cool, h.deadline, hpast, rfl, h.reconcile,
        fun hk hz => absurd hk (not_lt.mpr hz)⟩
    | recordRejection kind =>
      cases hst
      by_cases htrip : 0 < w.risk.maxConsecutiveOrderRejections ∧
          w.risk.maxConsecutiveOrderRejections ≤ w.rejections + 1
      · have hrisk : w.risk.recordRejection now kind =
            { w.risk with consecutiveRejections := w.risk.consecutiveRejections + 1 }.triggerPause now
              (.circuitBreaker (w.risk.consecutiveRejections + 1) kind) :=
          if_pos (by rw [h.count]; exact htrip)
        have hdeadline := RiskController.triggerPause_deadline
          (r := { w.risk with consecutiveRejections := w.risk.consecutiveRejections + 1 })
          (by rw [h.cool]; exact hc) (by rw [h.cool]; exact h.deadline) hpast
          (.circuitBreaker (w.risk.consecutiveRejections + 1) kind)
        rw [h.cool] at hdeadline
        rw [hrisk, if_pos htrip]
        exact ⟨h.threshold, h.cool, hdeadline, fun a ha => (Option.some.inj ha).ge,
          congrArg (· + 1) h.count, h.reconcile, fun _ _ => Option.some_ne_none _⟩
      · have hrisk : w.risk.recordRejection now kind =
            { w.risk with consecutiveRejections := w.risk.consecutiveRejections + 1 } :=
          if_neg (by rw [h.count]; exact htrip)
        rw [h.threshold] at htrip
        rw [hrisk, h.threshold, if_neg htrip]
        exact ⟨h.threshold, h.cool, h.deadline, hpast, congrArg (· + 1) h.count, h.reconcile,
          fun hk hz => absurd ⟨hk, hz⟩ htrip⟩
    | triggerPause reason =>
      cases hst
      have hdeadline := RiskController.triggerPause_deadline (r := w.risk) (by rw [h.cool]; exact hc)
        (by rw [h.cool]; exact h.deadline) hpast reason
      rw [h.cool] at hdeadline
      exact ⟨h.threshold, h.cool, hdeadline, fun a ha => (Option.some.inj ha).ge, h.count, h.reconcile,
        fun _ _ => Option.some_ne_none _⟩
    | markReconcile ok reason =>
      cases hst
      refine ⟨h.threshold, h.cool, h.deadline, hpast, h.count, ?_, h.tripped⟩
      cases ok <;> rfl
    | maybeRecover healthy =>
      simp only at hst
      have hrec := h.recovered now healthy
      by_cases hr : (w.risk.maybeRecover now healthy).2 ∧ w.armedAt.isSome
      · rw [if_pos hr] at hst hrec
        cases hst
        rw [hrec]
        exact ⟨h.threshold, h.cool, rfl, (fun a ha => by cases ha), rfl, h.reconcile,
          fun hk hz => absurd hk (not_lt.mpr hz)⟩
      · rw [if_neg hr] at hst hrec
        cases hst
        rw [hrec]
        exact ⟨h.threshold, h.cool, h.deadline, hpast, h.count, h.reconcile, h.tripped⟩

theorem Tracks.of_run {t₀ : Instant} {calls : List (Instant × RiskCall)} (hc : 0 ≤ cooldown)
    (h : Trans.run PauseRun.step (start k cooldown t₀) calls = some w) : Tracks k cooldown w :=
  Trans.run_history (P := fun _ w => Tracks k cooldown w) start_tracks
    (fun _ _ _ _ _ ht hst => ht.step hc hst) h

/-- **A pause is only left through recovery.** After any calls at non-decreasing times, with a
non-negative cooldown: while a pause is armed, `maybe_recover` answers yes if and only if it is called
at or after the last arming plus the cooldown, with a healthy websocket, and no reconcile failed since the
last good one; then the pause is cleared and the count of rejections zero. And as many rejections
as the threshold since the last success or recovery have armed a pause. -/
theorem pause_left_by_recovery (k : ℕ) (cooldown : ℚ) (t₀ : Instant) (calls : List (Instant × RiskCall))
    (w : PauseRun) (hc : 0 ≤ cooldown) (h : Trans.run step (start k cooldown t₀) calls = some w) :
    (∀ a, w.armedAt = some a → ∀ now healthy,
      ((w.risk.maybeRecover now healthy).2 = true ↔
        a + cooldown ≤ now ∧ healthy = true ∧ w.lastReconcile ≠ some false) ∧
      ((w.risk.maybeRecover now healthy).2 = true →
        (w.risk.maybeRecover now healthy).1.pausedUntil = none ∧
          (w.risk.maybeRecover now healthy).1.consecutiveRejections = 0)) ∧
    (w.armedAt = none ↔ w.risk.pausedUntil = none) ∧
    (0 < k → k ≤ w.rejections → w.risk.pausedUntil ≠ none) := by
  have ht := Tracks.of_run hc h
  have hsame : w.armedAt = none ↔ w.risk.pausedUntil = none := by
    rw [ht.deadline, Option.map_eq_none_iff]
  refine ⟨fun a ha now healthy => ⟨?_, fun hr => ?_⟩, hsame, fun hk hz => ?_⟩
  · rw [ht.recover_iff, ha]
    simp only [Option.some.injEq, forall_eq']
  · rw [ht.recovered _ healthy, if_pos ⟨hr, by rw [ha]; rfl⟩]
    exact ⟨rfl, rfl⟩
  · rw [ne_eq, ← hsame]
    exact ht.tripped hk hz

/-- Two rejections at the threshold, and a failed reconcile after them. -/
def trippedCalls : List (Instant × RiskCall) :=
  [(1, .recordRejection .other), (2, .recordRejection .other), (3, .markReconcile false .orphansPresent)]

theorem pause_left_by_recovery_tripped :
    ∃ w, Trans.run step (start 2 60 0) trippedCalls = some w ∧ w.armedAt = some 2 ∧
      ((w.risk.maybeRecover 70 true).2 = true ↔
        (2 : ℚ) + 60 ≤ 70 ∧ true = true ∧ w.lastReconcile ≠ some false) := by
  obtain ⟨w, hw, ha⟩ := Option.map_eq_some_iff.mp
    (show (Trans.run step (start 2 60 0) trippedCalls).map (·.armedAt) = some (some 2) by decide +kernel)
  exact ⟨w, hw, ha, ((pause_left_by_recovery 2 60 0 trippedCalls w (by norm_num) hw).1 2 ha 70 true).1⟩

end PauseRun

end LighterMM
