import LighterMM.Lib.Window
import LighterMM.Lighter.Subscription

/-!
# How often a subscription loop connects, and how old its data gets

The backoff of `subscribe_loop` has a closed form in the number of short rounds since the last stable
session (`backoffAfter`), and each round starts no sooner than the sleep after the one before it allows. So
there is a bound on the attempts to connect in any window of time, whatever the server does
(`reconnects_paced`).

An open session whose ping ticks are taken within `δ` of being due has data younger than the timeout plus a
period, and has sent a frame within the last period (`open_session_fresh`): neither the pings nor their
answers keep a session without data alive.
-/

namespace LighterMM

/-- The backoff after `k` short rounds in a row. -/
def SubscribeOptions.backoffAfter (opts : SubscribeOptions) : ℕ → ℚ
  | 0 => opts.reconnectBase
  | k + 1 => min (2 ^ (k + 1) * opts.reconnectBase) opts.reconnectMax

/-- The short rounds since the last stable session. -/
def shortRounds (rounds : List Round) : ℕ := (rounds.reverse.takeWhile Round.short).length

/-- The shortest sleep after the round `r`, with the rounds `before` it. -/
def SubscribeOptions.delayAfter (opts : SubscribeOptions) (before : List Round) (r : Round) : ℚ :=
  if r.short then opts.backoffAfter (shortRounds before) else opts.reconnectBase

/-- When the sleep after the last round may end. -/
def SubscribeOptions.sleepEnd (opts : SubscribeOptions) (rounds : List Round) : Option Instant :=
  rounds.getLast?.map fun r => r.ended + opts.delayAfter rounds.dropLast r

/-- Each round begins after the sleep that follows the round before it. -/
inductive Paced (opts : SubscribeOptions) : List Round → Prop
  | nil : Paced opts []
  | concat {before : List Round} {r : Round} (h : Paced opts before) (hr : r.began ≤ r.ended)
      (hsleep : ∀ t ∈ opts.sleepEnd before, t ≤ r.began) : Paced opts (before ++ [r])

namespace SubscribeOptions

variable {opts : SubscribeOptions}

theorem backoffAfter_succ (hmax : 0 ≤ opts.reconnectMax) (k : ℕ) :
    opts.backoffAfter (k + 1) = min (opts.backoffAfter k * 2) opts.reconnectMax := by
  cases k with
  | zero =>
    rw [backoffAfter, backoffAfter]
    congr 1
    ring
  | succ k =>
    have htwo : opts.reconnectMax ≤ opts.reconnectMax * 2 := by linarith
    calc opts.backoffAfter (k + 1 + 1)
        = min (2 ^ (k + 1) * opts.reconnectBase * 2) (min (opts.reconnectMax * 2) opts.reconnectMax) := by
          rw [backoffAfter, min_eq_right htwo, pow_succ]
          congr 1
          ring
      _ = min (opts.backoffAfter (k + 1) * 2) opts.reconnectMax := by
          rw [backoffAfter, min_mul_of_nonneg _ _ (by norm_num), min_assoc]

theorem le_backoffAfter (hbase : 0 ≤ opts.reconnectBase) (k : ℕ) :
    min opts.reconnectBase opts.reconnectMax ≤ opts.backoffAfter k := by
  cases k with
  | zero => exact min_le_left _ _
  | succ k =>
    refine min_le_min_right _ ?_
    have hpow : (1 : ℚ) ≤ 2 ^ (k + 1) := one_le_pow₀ (by norm_num)
    exact le_mul_of_one_le_left hbase hpow

theorem le_delayAfter (hbase : 0 ≤ opts.reconnectBase) (before : List Round) (r : Round) :
    min opts.reconnectBase opts.reconnectMax ≤ opts.delayAfter before r := by
  unfold delayAfter
  split
  · exact le_backoffAfter hbase _
  · exact min_le_left _ _

theorem delayAfter_nonneg (hbase : 0 ≤ opts.reconnectBase) (hmax : 0 ≤ opts.reconnectMax) (before : List Round)
    (r : Round) : 0 ≤ opts.delayAfter before r := (le_min hbase hmax).trans (le_delayAfter hbase before r)

end SubscribeOptions

theorem shortRounds_concat (rounds : List Round) (r : Round) :
    shortRounds (rounds ++ [r]) = if r.short then shortRounds rounds + 1 else 0 := by
  unfold shortRounds
  rw [List.reverse_concat, List.takeWhile_cons]
  split <;> rfl

theorem jitter_bounds {d : ℚ} (hd : 0 ≤ d) (nowMs : ℕ) : 0 ≤ jitter d nowMs ∧ jitter d nowMs ≤ d / 5 := by
  have hlt : nowMs % 1000 < 1000 := Nat.mod_lt _ (by norm_num)
  have hfrac : ((nowMs % 1000 : ℕ) : ℚ) / 1000 ≤ 1 := by
    rw [div_le_one (by norm_num)]
    exact_mod_cast hlt.le
  have hpos : (0 : ℚ) ≤ ((nowMs % 1000 : ℕ) : ℚ) / 1000 := by positivity
  unfold jitter
  constructor
  · positivity
  · calc d * (1 / 5) * (((nowMs % 1000 : ℕ) : ℚ) / 1000) ≤ d * (1 / 5) * 1 :=
          mul_le_mul_of_nonneg_left hfrac (by positivity)
      _ = d / 5 := by ring

theorem sleepEnd_concat (opts : SubscribeOptions) (rounds : List Round) (r : Round) :
    opts.sleepEnd (rounds ++ [r]) = some (r.ended + opts.delayAfter rounds r) := by
  rw [SubscribeOptions.sleepEnd, List.getLast?_concat, List.dropLast_concat]
  rfl

namespace Paced

variable {opts : SubscribeOptions} {rounds : List Round} {r : Round}

theorem began_le (h : Paced opts rounds) : ∀ r ∈ rounds, r.began ≤ r.ended := by
  induction h with
  | nil => exact fun r hr => nomatch hr
  | concat _ hr _ ih =>
    intro r' hr'
    rcases List.mem_append.mp hr' with hr' | hr'
    · exact ih r' hr'
    · rw [List.mem_singleton.mp hr']
      exact hr

/-- The sleep after the last round lasts the shortest backoff or longer. -/
theorem sleepEnd_le (h : Paced opts rounds) (hbase : 0 ≤ opts.reconnectBase) {t : Instant}
    (ht : ∀ x ∈ opts.sleepEnd rounds, x ≤ t) :
    ∀ x ∈ (rounds.map (·.began)).getLast?, x + min opts.reconnectBase opts.reconnectMax ≤ t := by
  intro x hx
  rcases List.eq_nil_or_concat' rounds with rfl | ⟨before, r, rfl⟩
  · cases hx
  · rw [List.map_append, List.map_singleton, List.getLast?_concat] at hx
    cases hx
    have hend := ht _ (sleepEnd_concat opts before r)
    have hr := h.began_le r (by simp)
    have hd := SubscribeOptions.le_delayAfter hbase before r
    linarith

/-- The beginnings of the rounds are a sleep apart. -/
theorem gaps (h : Paced opts rounds) (hbase : 0 ≤ opts.reconnectBase) :
    (rounds.map (·.began)).IsChain fun s t => s + min opts.reconnectBase opts.reconnectMax ≤ t := by
  induction h with
  | nil => exact .nil
  | concat h _ hsleep ih =>
    rw [List.map_append, List.isChain_append]
    refine ⟨ih, .singleton _, fun x hx y hy => ?_⟩
    cases hy
    exact h.sleepEnd_le hbase hsleep x hx

end Paced

namespace SubLoop

variable {σ ρ : Type} {sub : Subscriber σ ρ} {opts : SubscribeOptions} {s s' : SubLoop σ} {a : SubAct ρ}
  {state : σ} {now : Instant}

/-! ## The pace -/

/-- When the rounds began, the one under way included. -/
def attempts (s : SubLoop σ) : List Instant :=
  s.rounds.map (·.began) ++ match s.pc with
    | .sleeping _ => []
    | _ => [s.started]

/-- The backoff is that of the short rounds so far, and a sleep lasts the delay and at most a fifth more. -/
structure PacedInv (opts : SubscribeOptions) (s : SubLoop σ) : Prop where
  backoff : s.backoff = opts.backoffAfter (shortRounds s.rounds)
  paced : Paced opts s.rounds
  sleeps : ∀ til, s.pc = .sleeping til → ∀ before r, s.rounds = before ++ [r] →
    r.ended + opts.delayAfter before r ≤ til ∧ til ≤ r.ended + opts.delayAfter before r * (6 / 5)
  runs : (∀ til, s.pc ≠ .sleeping til) → s.started ≤ s.clock ∧ ∀ t ∈ opts.sleepEnd s.rounds, t ≤ s.started

theorem start_pacedInv : PacedInv opts (start opts state now) := by
  refine ⟨rfl, .nil, fun til _ before r h => ?_, fun h => absurd rfl (h now)⟩
  simp [start] at h

/-- A sleep that is over has lasted long enough. -/
theorem PacedInv.sleepEnd_le (h : PacedInv opts s) {til t : Instant} (hpc : s.pc = .sleeping til) (hdue : til ≤ t) :
    ∀ x ∈ opts.sleepEnd s.rounds, x ≤ t := by
  intro x hx
  rcases List.eq_nil_or_concat' s.rounds with hnil | ⟨before, r, hr⟩
  · rw [hnil] at hx
    cases hx
  · rw [hr, sleepEnd_concat] at hx
    cases hx
    exact (h.sleeps til hpc before r hr).1.trans hdue

theorem PacedInv.endSession (h : PacedInv opts s) (hpc : ∀ til, s.pc ≠ .sleeping til)
    (hbase : 0 ≤ opts.reconnectBase) (hmax : 0 ≤ opts.reconnectMax) (nowMs : ℕ) :
    PacedInv opts (s.endSession sub opts nowMs) := by
  obtain ⟨hstarted, hdue⟩ := h.runs hpc
  have hdelay : reconnectDelayAfterSession s.backoff opts.reconnectBase (s.clock - s.started) =
      opts.delayAfter s.rounds ⟨s.started, s.clock, false⟩ := by
    rw [reconnectDelayAfterSession, SubscribeOptions.delayAfter, Round.short, h.backoff]
    by_cases hlong : reconnectBackoffResetAfter ≤ s.clock - s.started
    · rw [if_pos hlong, if_neg (by simpa using hlong)]
    · rw [if_neg hlong, if_pos (by simpa using hlong)]
  refine ⟨?_, h.paced.concat hstarted hdue, ?_, fun h => absurd rfl (h _)⟩
  · show nextReconnectBackoff s.backoff opts.reconnectBase opts.reconnectMax (s.clock - s.started) =
      opts.backoffAfter (shortRounds (s.rounds ++ [⟨s.started, s.clock, false⟩]))
    rw [nextReconnectBackoff, shortRounds_concat, Round.short, h.backoff]
    by_cases hlong : reconnectBackoffResetAfter ≤ s.clock - s.started
    · rw [if_pos hlong, if_neg (by simpa using hlong)]
      rfl
    · rw [if_neg hlong, if_pos (by simpa using hlong), SubscribeOptions.backoffAfter_succ hmax]
  · intro til htil before r hr
    obtain ⟨rfl, hlast⟩ := List.append_inj' hr rfl
    obtain rfl : _ = r := List.singleton_inj.mp hlast
    obtain rfl := SubPc.sleeping.inj htil
    have hd := SubscribeOptions.delayAfter_nonneg hbase hmax s.rounds ⟨s.started, s.clock, false⟩
    obtain ⟨hj₀, hj₁⟩ := jitter_bounds hd nowMs
    show s.clock + _ ≤ s.clock + (reconnectDelayAfterSession _ _ _ + _) ∧ _ ≤ s.clock + _
    rw [hdelay]
    constructor
    · linarith
    · linarith

theorem PacedInv.step (h : PacedInv opts s) (hbase : 0 ≤ opts.reconnectBase) (hmax : 0 ≤ opts.reconnectMax)
    (hst : s.step sub opts a = some s') : PacedInv opts s' := by
  obtain ⟨hclock, hcase⟩ := step_cases hst
  have h : PacedInv opts { s with clock := a.now } :=
    ⟨h.backoff, h.paced, h.sleeps, fun hpc => ⟨(h.runs hpc).1.trans hclock, (h.runs hpc).2⟩⟩
  generalize ({ s with clock := a.now } : SubLoop σ) = s at h hcase
  have running (hpc : s.pc = .connecting ∨ s.pc = .checking ∨ s.pc = .waiting) : ∀ til, s.pc ≠ .sleeping til := by
    intro til htil
    simp [htil] at hpc
  cases hcase with
  | @noToken _ _ auths til hpc hdue =>
    refine ⟨?_, h.paced.concat le_rfl (h.sleepEnd_le hpc hdue), ?_, fun h => absurd rfl (h _)⟩
    · show min (s.backoff * 2) opts.reconnectMax = opts.backoffAfter (shortRounds (s.rounds ++ [_]))
      rw [shortRounds_concat, h.backoff, ← SubscribeOptions.backoffAfter_succ hmax]
      rfl
    · intro til' htil before r hr
      obtain ⟨rfl, hlast⟩ := List.append_inj' hr rfl
      obtain rfl : _ = r := List.singleton_inj.mp hlast
      obtain rfl := SubPc.sleeping.inj htil
      have hd := SubscribeOptions.delayAfter_nonneg hbase hmax s.rounds ⟨s.clock, s.clock, true⟩
      have hback : opts.delayAfter s.rounds ⟨s.clock, s.clock, true⟩ = s.backoff := h.backoff.symm
      rw [hback] at hd ⊢
      exact ⟨le_rfl, by show s.clock + s.backoff ≤ s.clock + s.backoff * (6 / 5); linarith⟩
  | begins tokens hpc hdue =>
    exact ⟨h.backoff, h.paced, (fun _ h => nomatch h), fun _ => ⟨le_rfl, h.sleepEnd_le hpc hdue⟩⟩
  | opens hpc => exact ⟨h.backoff, h.paced, (fun _ h => nomatch h), fun _ => h.runs (running (.inl hpc))⟩
  | passes hpc => exact ⟨h.backoff, h.paced, (fun _ h => nomatch h), fun _ => h.runs (running (.inr (.inl hpc)))⟩
  | forced hpc =>
    have hrun := running (.inr (.inl hpc))
    exact PacedInv.endSession (s := { s with permit := false }) ⟨h.backoff, h.paced, h.sleeps, h.runs⟩ hrun hbase hmax _
  | pings hpc | hands hpc | ignores hpc =>
    exact ⟨h.backoff, h.paced, (fun _ h => nomatch h), fun _ => h.runs (running (.inr (.inr hpc)))⟩
  | breaks hpc pingDue frames =>
    have hrun := running (hpc.imp_right .inr)
    exact PacedInv.endSession (s := { s with pingDue, frames }) ⟨h.backoff, h.paced, h.sleeps, h.runs⟩ hrun hbase hmax _

/-- **The pace of the attempts to connect.** Whatever the server does: the backoff has its closed form; a
sleep lasts the delay of the round before it and at most a fifth more; and any window of `k` shortest
backoffs has at most `k` attempts. -/
theorem reconnects_paced (hbase : 0 ≤ opts.reconnectBase) (hmax : 0 ≤ opts.reconnectMax)
    (h : Trans.Reach (SubLoop.step sub opts) (start opts state now) s) :
    s.backoff = opts.backoffAfter (shortRounds s.rounds) ∧
    (∀ til, s.pc = .sleeping til → ∀ before r, s.rounds = before ++ [r] →
      r.ended + opts.delayAfter before r ≤ til ∧ til ≤ r.ended + opts.delayAfter before r * (6 / 5)) ∧
    ∀ k, Window.AtMost (k • min opts.reconnectBase opts.reconnectMax) k s.attempts := by
  have hinv : PacedInv opts s :=
    h.invariant start_pacedInv fun s a s' hs _ hst => hs.step hbase hmax hst
  refine ⟨hinv.backoff, hinv.sleeps, Window.AtMost.of_gaps (le_min hbase hmax) ?_⟩
  have hgaps := hinv.paced.gaps hbase
  unfold attempts
  have hrun (hpc : ∀ til, s.pc ≠ .sleeping til) : (s.rounds.map (·.began) ++ [s.started]).IsChain
      fun x y => x + min opts.reconnectBase opts.reconnectMax ≤ y := by
    refine List.isChain_append.mpr ⟨hgaps, .singleton _, fun x hx y hy => ?_⟩
    cases hy
    exact hinv.paced.sleepEnd_le hbase (hinv.runs hpc).2 x hx
  split
  · rw [List.append_nil]
    exact hgaps
  · rename_i hpc
    exact hrun hpc

/-- Callbacks that do nothing. -/
def quietSubscriber : Subscriber Unit Unit := ⟨fun _ _ _ _ => ((), false), id, false, false⟩

/-- The defaults of `SubscribeOptions`. -/
def defaultOptions : SubscribeOptions := ⟨["ticker/1"], [], 30, 5, 60, 20⟩

theorem reconnects_paced_failing :
    ∃ s : SubLoop Unit, s.pc = .sleeping 17 ∧ s.backoff = 20 ∧ s.rounds.length = 2 ∧
      ∀ k, Window.AtMost (k • min defaultOptions.reconnectBase defaultOptions.reconnectMax) k s.attempts := by
  obtain ⟨s, hrun, h⟩ := Option.map_eq_some_iff.mp
    (show (Trans.run (SubLoop.step quietSubscriber defaultOptions) (start defaultOptions () 0)
        [⟨0, 0, .wake []⟩, ⟨1, 0, .connectFails⟩, ⟨6, 0, .wake []⟩, ⟨7, 0, .connectFails⟩]).map
        (fun s => decide (s.pc = .sleeping 17 ∧ s.backoff = 20 ∧ s.rounds.length = 2)) = some true by decide +kernel)
  obtain ⟨hpc, hback, hlen⟩ := of_decide_eq_true h
  exact ⟨s, hpc, hback, hlen,
    (reconnects_paced (by decide) (by decide) (Trans.reach_iff_run.mpr ⟨_, hrun⟩)).2.2⟩

/-! ## The age of the data -/

/-- The session got an application message at `t`, or opened then. -/
def HeardAt (s : SubLoop σ) (t : Instant) : Prop :=
  (∃ m, (t, m) ∈ s.frames ∧ m.application.isSome = true) ∨ ∃ ch auth, (t, .subscribe ch auth) ∈ s.sent

/-- At the last tick `t`, or when the session opened, a frame was sent and the data was not too old. -/
def FreshInv (opts : SubscribeOptions) (s : SubLoop σ) : Prop :=
  s.InSession → s.HeardAt s.lastData ∧ ∃ t f, (t, f) ∈ s.sent ∧ t ≤ s.clock ∧ s.pingDue ≤ t + opts.pingPeriod ∧
    t - s.lastData ≤ opts.recvTimeout

theorem HeardAt.mono {t : Instant} (h : s.HeardAt t) (hframes : s.frames ⊆ s'.frames) (hsent : s.sent ⊆ s'.sent) :
    s'.HeardAt t := by
  rcases h with ⟨m, hm, happ⟩ | ⟨ch, auth, hsub⟩
  · exact .inl ⟨m, hframes hm, happ⟩
  · exact .inr ⟨ch, auth, hsent hsub⟩

theorem nextTick_le {period due now : ℚ} (hperiod : 0 < period) (hdue : due ≤ now) :
    nextTick period due now ≤ now + period := by
  unfold nextTick
  split
  · have hfloor : (⌊(now - due) / period⌋ : ℚ) * period ≤ now - due :=
      (le_div_iff₀ hperiod).mp (Int.floor_le _)
    linarith
  · linarith

theorem pingPeriod_bounds (opts : SubscribeOptions) : 0 < opts.pingPeriod ∧ opts.pingPeriod ≤ 110 := by
  unfold SubscribeOptions.pingPeriod clamp
  split
  · norm_num
  · split
    · norm_num
    · constructor
      · linarith
      · linarith

theorem FreshInv.step (h : FreshInv opts s) (hch : opts.channels ≠ []) (hto : 0 ≤ opts.recvTimeout)
    (hst : s.step sub opts a = some s') : FreshInv opts s' := by
  obtain ⟨hclock, hcase⟩ := step_cases hst
  have h : FreshInv opts { s with clock := a.now } := by
    intro hs
    obtain ⟨hheard, t, f, hf, ht, hdue, hage⟩ := h hs
    exact ⟨hheard, t, f, hf, ht.trans hclock, hdue, hage⟩
  generalize ({ s with clock := a.now } : SubLoop σ) = s at h hcase
  cases hcase with
  | noToken | begins | forced | breaks =>
    intro hs
    rcases hs with hs | hs
    · cases hs
    · cases hs
  | opens =>
    intro _
    obtain ⟨ch, chs, hcons⟩ := List.exists_cons_of_ne_nil hch
    have hmem : (s.clock, .subscribe ch (s.auths.lookup ch)) ∈ (s.subscribed opts).sent := by
      show _ ∈ opts.channels.map _
      rw [hcons]
      exact List.mem_cons_self
    refine ⟨.inr ⟨ch, _, hmem⟩, s.clock, _, hmem, le_rfl, le_rfl, ?_⟩
    show s.clock - s.clock ≤ _
    rw [sub_self]
    exact hto
  | passes hpc =>
    intro _
    obtain ⟨hheard, hrest⟩ := h (.inl hpc)
    exact ⟨hheard.mono (List.Subset.refl _) (List.Subset.refl _), hrest⟩
  | pings hpc hdue hfresh =>
    intro _
    obtain ⟨hheard, -⟩ := h (.inr hpc)
    refine ⟨hheard.mono (List.Subset.refl _) (List.subset_append_left _ _), s.clock, .ping, ?_, le_rfl, ?_, hfresh⟩
    · exact List.mem_append_right _ (List.mem_singleton_self _)
    · exact nextTick_le (pingPeriod_bounds opts).1 hdue
  | @hands _ _ m r mtype raw hpc hm =>
    intro _
    obtain ⟨-, t, f, hf, ht, hdue, -⟩ := h (.inr hpc)
    refine ⟨.inl ⟨m, List.mem_append_right _ (List.mem_singleton_self _), ?_⟩, t, f, hf, ht, hdue, ?_⟩
    · rw [hm]
      rfl
    · show t - s.clock ≤ _
      linarith
  | ignores hpc hm answers =>
    intro _
    obtain ⟨hheard, t, f, hf, hrest⟩ := h (.inr hpc)
    exact ⟨hheard.mono (List.subset_append_left _ _) (List.subset_append_left _ _), t, f,
      List.mem_append_left _ hf, hrest⟩

/-- **An open session has fresh data and is not idle.** As long as its ping ticks are taken within `δ` of
being due, it has heard an application message (or opened) within the receive timeout, a period and `δ`,
and it has sent a frame within a period and `δ`. -/
theorem open_session_fresh (hch : opts.channels ≠ []) (hto : 0 ≤ opts.recvTimeout)
    (h : Trans.Reach (SubLoop.step sub opts) (start opts state now) s) (hs : s.InSession) {t δ : ℚ}
    (ht : t ≤ s.pingDue + δ) :
    (∃ x, s.HeardAt x ∧ t - x ≤ opts.recvTimeout + opts.pingPeriod + δ) ∧
    (∃ x ∈ s.sent, t - x.1 ≤ opts.pingPeriod + δ) ∧ opts.pingPeriod ≤ 110 := by
  have hinv : FreshInv opts s := by
    refine h.invariant (fun hs => ?_) fun s a s' hs _ hst => hs.step hch hto hst
    rcases hs with hs | hs
    · cases hs
    · cases hs
  obtain ⟨hheard, t₀, f, hf, -, hdue, hage⟩ := hinv hs
  refine ⟨⟨s.lastData, hheard, ?_⟩, ⟨_, hf, ?_⟩, (pingPeriod_bounds opts).2⟩
  · linarith
  · show t - t₀ ≤ _
    linarith

/-- A session that has taken one ping tick and read a pong. -/
theorem open_session_fresh_pinged :
    ∃ s : SubLoop Unit, s.pingDue = 40 ∧ (∃ x, s.HeardAt x ∧ 40 - x ≤ 30 + 20 + 0) := by
  obtain ⟨s, hrun, h⟩ := Option.map_eq_some_iff.mp
    (show (Trans.run (SubLoop.step quietSubscriber defaultOptions) (start defaultOptions () 0)
        [⟨0, 0, .wake []⟩, ⟨0, 0, .connected⟩, ⟨0, 0, .check⟩, ⟨20, 0, .tick true⟩, ⟨20, 0, .check⟩,
          ⟨21, 0, .read .pong ()⟩]).map (fun s => decide (s.InSession ∧ s.pingDue = 40)) = some true by decide +kernel)
  obtain ⟨hs, hdue⟩ := of_decide_eq_true h
  exact ⟨s, hdue, (open_session_fresh (by decide) (by decide) (Trans.reach_iff_run.mpr ⟨_, hrun⟩) hs
    (by rw [hdue]; norm_num)).1⟩

end SubLoop

end LighterMM
