import LighterMM.Exec.CountedBatches
import LighterMM.Exec.WriteSlot

/-!
# The backoff after a 429, over runs of the sender

The sender hands its batches to `send_once` one after another. Each one passes the gate or is skipped, and
its answer moves the backoff of the limiter: a 429 raises the level and sets the end of the pause, an accepted
batch may end the episode. `episode` says what that comes to: the batches since the last recovery, which is an
accepted batch that is the second one since the last 429, or that comes more than five minutes after it.

The `k`-th 429 of an episode is followed by a pause of `15 * 2 ^ (k - 1)` seconds, `120` at most, in which no
batch passes; no other pause is made (`backoff_paced`). The level counts the 429s of the episode and nothing
else, so an exchange that answers every batch with a 429 gets one every two minutes in the long run
(`episode_lasts`).
-/

namespace LighterMM

/-- How a batch that passed the gate was answered. -/
inductive SendAnswer where
  | accepted
  | limited
  /-- Rejected for another reason, or without an answer, or not sent. -/
  | other
  deriving DecidableEq, Repr

/-- A batch that the gate let pass, and the clock after its answer. -/
structure Passed where
  passed : Instant
  after : Instant
  answer : SendAnswer
  deriving DecidableEq, Repr

def TxSendResult.answer : TxSendResult → SendAnswer
  | .ok _ => .accepted
  | .rejected .rateLimit => .limited
  | _ => .other

/-- `none` for a batch that the gate skipped. -/
def BatchEnd.answer (lower : String → String) : BatchEnd → Option SendAnswer
  | .skipped => none
  | .halted | .signFailed => some .other
  | .sent report => some (report.result lower).answer

/-! ## The fields of the limiter -/

/-- The fields of the limiter that the backoff is made of. -/
structure Backoff where
  level : ℕ
  successes : ℕ
  trigger : Option Instant
  til : Option Instant
  deriving DecidableEq, Repr

namespace Backoff

def new : Backoff := ⟨0, 0, none, none⟩

/-- The pause after the `k`-th 429 of an episode. -/
def pause : ℕ → ℚ
  | 0 => 0
  | k + 1 => min (rlBackoffBase * 2 ^ k) rlBackoffMax

/-- `trigger_global_backoff_at`. -/
def limited (b : Backoff) (now : Instant) : Backoff :=
  ⟨b.level + 1, 0, some now, some (now + pause (b.level + 1))⟩

/-- `reset_global_backoff_at`. -/
def accepted (b : Backoff) (now : Instant) : Backoff :=
  let decayed := match b.trigger with
    | some trig => decide (backoffDecaySecs < now - trig)
    | none => false
  if 0 < b.level ∧ (decayed = true ∨ rlBackoffResetAfter ≤ b.successes + 1) then
    { b with level := 0, successes := 0 }
  else { b with successes := b.successes + 1 }

def answered (b : Backoff) (e : Passed) : Backoff :=
  match e.answer with
  | .limited => b.limited e.after
  | .accepted => b.accepted e.after
  | .other => b

end Backoff

namespace RateLimiter

def backoff (r : RateLimiter) : Backoff :=
  ⟨r.backoffLevel, r.consecutiveSuccesses, r.lastBackoffTrigger, r.globalBackoffUntil⟩

variable {n : ℕ} {r : RateLimiter} {now : Instant}

theorem resetGlobalBackoffAt_backoff : (r.resetGlobalBackoffAt now).backoff = r.backoff.accepted now := by
  unfold resetGlobalBackoffAt
  exact apply_ite RateLimiter.backoff _ _ _

theorem writeSlot_backoff (r : RateLimiter) (n : ℕ) (c : SlotClock) : (r.writeSlot n c).1.backoff = r.backoff := by
  rw [writeSlot_window]
  rfl

/-- An effect that the backoff is not about. -/
theorem applyEffect_backoff {e : SenderEffect n} (htrigger : e ≠ .triggerGlobalBackoff)
    (hreset : e ≠ .resetGlobalBackoff) : (r.applyEffect now e).backoff = r.backoff := by
  cases e with
  | triggerGlobalBackoff => exact absurd rfl htrigger
  | resetGlobalBackoff => exact absurd rfl hreset
  | recordOpsSent | setQuota | registerClientIds | notifyReconcile | event => rfl

/-- The effects, in order. -/
def applyEffects (r : RateLimiter) (now : Instant) (es : List (SenderEffect n)) : RateLimiter :=
  es.foldl (fun r e => r.applyEffect now e) r

theorem applyEffects_append (as bs : List (SenderEffect n)) :
    r.applyEffects now (as ++ bs) = (r.applyEffects now as).applyEffects now bs := List.foldl_append

theorem applyEffects_backoff {es : List (SenderEffect n)} (h : ∀ e ∈ es, e ≠ .triggerGlobalBackoff ∧
    e ≠ .resetGlobalBackoff) : (r.applyEffects now es).backoff = r.backoff := by
  induction es generalizing r with
  | nil => rfl
  | cons e es ih =>
    obtain ⟨htrigger, hreset⟩ := h e List.mem_cons_self
    exact (ih fun e' he' => h e' (List.mem_cons_of_mem _ he')).trans (applyEffect_backoff htrigger hreset)

theorem applyEvents_backoff (es : List (OrderEvent n)) :
    (r.applyEffects now (es.map SenderEffect.event)).backoff = r.backoff := by
  refine applyEffects_backoff fun e he => ?_
  obtain ⟨e', -, rfl⟩ := List.mem_map.mp he
  exact ⟨nofun, nofun⟩

/-- After the re-sync there is nothing for the backoff. -/
theorem lateEffects_backoff (signed : SignedBatch n) (kind : RejectKind) :
    (r.applyEffects now ((TxSendResult.rejected kind).lateEffects signed)).backoff = r.backoff := by
  unfold TxSendResult.lateEffects
  rw [applyEffects_append, applyEvents_backoff]
  refine applyEffects_backoff fun e he => ?_
  split at he
  · rw [List.mem_singleton.mp he]
    exact ⟨nofun, nofun⟩
  · cases he

/-- Among the effects of an accepted batch there is one recovery, and nothing else for the backoff. -/
theorem okEffects_backoff (signed : SignedBatch n) (quota : Option ℤ) :
    (r.applyEffects now ((TxSendResult.ok quota).effects signed)).backoff = r.backoff.accepted now := by
  have hevents : signed.ops.map (fun op => SenderEffect.event (confirmEvent op)) =
      (signed.ops.map confirmEvent).map .event := List.map_map.symm
  unfold TxSendResult.effects
  rw [applyEffects_append, hevents, applyEvents_backoff, applyEffects_append]
  have hregister (r : RateLimiter) : (r.applyEffects now (if registeredIds signed.ops = [] then [] else
      ([.registerClientIds (registeredIds signed.ops)] : List (SenderEffect n)))).backoff = r.backoff := by
    split <;> rfl
  rw [hregister]
  cases quota with
  | none => exact resetGlobalBackoffAt_backoff
  | some q => exact resetGlobalBackoffAt_backoff

/-- What `send_once` does to the backoff after an answer. -/
theorem result_backoff (signed : SignedBatch n) (result : TxSendResult) (passed : Instant) :
    (r.applyEffects now (result.effects signed ++ result.lateEffects signed ++ result.finalEffects)).backoff =
      r.backoff.answered ⟨passed, now, result.answer⟩ := by
  rw [applyEffects_append, applyEffects_append]
  cases result with
  | ok quota => exact okEffects_backoff signed quota
  | rejected kind =>
    refine (lateEffects_backoff signed kind).trans ?_
    cases kind <;> rfl
  | unknown => rfl
  | notSent => exact applyEvents_backoff _

end RateLimiter

/-! ## Episodes -/

def Passed.isLimited (e : Passed) : Bool := e.answer = .limited

def Passed.isAccepted (e : Passed) : Bool := e.answer = .accepted

def lastLimited (ep : List Passed) : Option Passed := (ep.filter Passed.isLimited).getLast?

/-- The batches after the last 429. -/
def sinceLimited (ep : List Passed) : List Passed := ep.rtakeWhile fun x => !x.isLimited

/-- The batch `e` ends the episode `ep`: it is the second one accepted since the last 429, or the first one
long after it. -/
def recovers (ep : List Passed) (e : Passed) : Bool :=
  e.isAccepted &&
    match lastLimited ep with
    | none => false
    | some l => (sinceLimited ep).any Passed.isAccepted || decide (backoffDecaySecs < e.after - l.after)

/-- The batches since the last recovery. -/
def episode (log : List Passed) : List Passed := log.foldl (fun ep e => if recovers ep e then [] else ep ++ [e]) []

/-- The 429s of the episode. -/
def limitedCount (log : List Passed) : ℕ := (episode log).countP Passed.isLimited

section Episodes

variable {log ep pre post : List Passed} {e l : Passed} {b : Backoff}

theorem Passed.not_accepted (h : e.isLimited = true) : e.isAccepted = false := by
  unfold isLimited at h
  unfold isAccepted
  rw [of_decide_eq_true h]
  rfl

theorem Passed.not_limited (h : e.isAccepted = true) : e.isLimited = false := by
  unfold isAccepted at h
  unfold isLimited
  rw [of_decide_eq_true h]
  rfl

theorem lastLimited_concat (ep : List Passed) (e : Passed) :
    lastLimited (ep ++ [e]) = if e.isLimited then some e else lastLimited ep := by
  unfold lastLimited
  rw [List.filter_append, List.filter_singleton]
  cases e.isLimited with
  | true => exact List.getLast?_concat
  | false => exact congrArg List.getLast? (List.append_nil _)

theorem lastLimited_eq_none : lastLimited ep = none ↔ ep.countP Passed.isLimited = 0 := by
  unfold lastLimited
  rw [List.getLast?_eq_none_iff, List.countP_eq_length_filter, List.length_eq_zero_iff]

theorem sinceLimited_concat (ep : List Passed) (e : Passed) :
    sinceLimited (ep ++ [e]) = if e.isLimited then [] else sinceLimited ep ++ [e] := by
  unfold sinceLimited
  rw [List.rtakeWhile_concat]
  cases e.isLimited <;> rfl

theorem episode_concat (log : List Passed) (e : Passed) :
    episode (log ++ [e]) = if recovers (episode log) e then [] else episode log ++ [e] := by
  unfold episode
  rw [List.foldl_append]
  rfl

theorem episode_keeps (h : e.isAccepted = false) : episode (log ++ [e]) = episode log ++ [e] := by
  rw [episode_concat, recovers, h, Bool.false_and, if_neg Bool.false_ne_true]

theorem limitedCount_limited (h : e.isLimited = true) : limitedCount (log ++ [e]) = limitedCount log + 1 := by
  unfold limitedCount
  rw [episode_keeps (Passed.not_accepted h), List.countP_append, List.countP_singleton, if_pos h]

/-- The level counts the 429s of the episode; within one, the successes are those since the last 429. -/
structure CountsLimits (b : Backoff) (ep : List Passed) : Prop where
  level : b.level = ep.countP Passed.isLimited
  trigger : ∀ l ∈ lastLimited ep, b.trigger = some l.after
  til : ∀ l ∈ lastLimited ep, b.til = some (l.after + Backoff.pause b.level)
  successes : ∀ l ∈ lastLimited ep, b.successes = (sinceLimited ep).countP Passed.isAccepted

theorem CountsLimits.limited (h : CountsLimits b ep) (he : e.isLimited = true) :
    CountsLimits (b.limited e.after) (ep ++ [e]) := by
  refine ⟨?_, fun l hl => ?_, fun l hl => ?_, fun l _ => ?_⟩
  · rw [List.countP_append, List.countP_singleton, if_pos he, ← h.level]
    rfl
  · rw [lastLimited_concat, if_pos he] at hl
    cases hl
    rfl
  · rw [lastLimited_concat, if_pos he] at hl
    cases hl
    rfl
  · rw [sinceLimited_concat, if_pos he]
    rfl

/-- A batch that is no 429 and does not end the episode. -/
theorem CountsLimits.concat (h : CountsLimits b ep) (hlim : e.isLimited = false) {k : ℕ}
    (hk : k = b.successes + if e.isAccepted then 1 else 0) :
    CountsLimits { b with successes := k } (ep ++ [e]) := by
  refine ⟨?_, fun l hl => ?_, fun l hl => ?_, fun l hl => ?_⟩
  · rw [List.countP_append, List.countP_singleton, hlim]
    exact h.level
  · rw [lastLimited_concat, hlim] at hl
    exact h.trigger l hl
  · rw [lastLimited_concat, hlim] at hl
    exact h.til l hl
  · rw [lastLimited_concat, hlim] at hl
    show k = _
    rw [sinceLimited_concat, hlim, if_neg Bool.false_ne_true, List.countP_append, List.countP_singleton, hk,
      h.successes l hl]

theorem CountsLimits.accepted (h : CountsLimits b ep) (hacc : e.isAccepted = true) :
    CountsLimits (b.accepted e.after) (if recovers ep e then [] else ep ++ [e]) := by
  have hkept : CountsLimits { b with successes := b.successes + 1 } (ep ++ [e]) :=
    h.concat (Passed.not_limited hacc) (by rw [hacc, if_pos rfl])
  cases hl : lastLimited ep with
  | none =>
    have hrec : recovers ep e = false := by
      rw [recovers, hl, Bool.and_false]
    have hlevel : b.level = 0 := h.level.trans (lastLimited_eq_none.mp hl)
    have hstay : b.accepted e.after = { b with successes := b.successes + 1 } :=
      if_neg fun hc => absurd hc.1 (by omega)
    rw [hrec, hstay]
    exact hkept
  | some l =>
    have hpos : 0 < b.level := by
      have hne : ep.countP Passed.isLimited ≠ 0 := fun hz => by
        rw [lastLimited_eq_none.mpr hz] at hl
        cases hl
      have := h.level
      omega
    have hany : (sinceLimited ep).any Passed.isAccepted = true ↔ rlBackoffResetAfter ≤ b.successes + 1 := by
      rw [h.successes l hl, List.any_eq_true, ← List.countP_pos_iff]
      unfold rlBackoffResetAfter
      omega
    have hrec : recovers ep e = true ↔ (decide (backoffDecaySecs < e.after - l.after) = true ∨
        rlBackoffResetAfter ≤ b.successes + 1) := by
      rw [recovers, hl, hacc, Bool.true_and, Bool.or_eq_true, hany]
      exact or_comm
    unfold Backoff.accepted
    simp only [h.trigger l hl, hpos, true_and, ← hrec]
    by_cases hr : recovers ep e = true
    · rw [if_pos hr, if_pos hr]
      exact ⟨rfl, nofun, nofun, nofun⟩
    · rw [if_neg hr, if_neg hr, ← h.trigger l hl]
      exact hkept

/-- The backoff of the limiter after these batches. -/
def Backoff.afterAll (log : List Passed) : Backoff := log.foldl Backoff.answered .new

theorem Backoff.afterAll_concat (log : List Passed) (e : Passed) :
    Backoff.afterAll (log ++ [e]) = (Backoff.afterAll log).answered e := List.foldl_append

theorem afterAll_counts (log : List Passed) : CountsLimits (.afterAll log) (episode log) := by
  induction log using List.reverseRecOn with
  | nil => exact ⟨rfl, nofun, nofun, nofun⟩
  | append_singleton log e ih =>
    rw [Backoff.afterAll_concat]
    unfold Backoff.answered
    cases ha : e.answer with
    | limited =>
      have he : e.isLimited = true := decide_eq_true ha
      rw [episode_keeps (Passed.not_accepted he)]
      exact ih.limited he
    | accepted =>
      rw [episode_concat]
      exact ih.accepted (decide_eq_true ha)
    | other =>
      have hlim : e.isLimited = false := decide_eq_false (by rw [ha]; nofun)
      have hacc : e.isAccepted = false := decide_eq_false (by rw [ha]; nofun)
      rw [episode_keeps hacc]
      exact ih.concat hlim (by rw [hacc]; rfl)

theorem Backoff.answered_til (b : Backoff) (h : e.isLimited = false) : (b.answered e).til = b.til := by
  unfold Backoff.answered
  cases ha : e.answer with
  | limited =>
    rw [Passed.isLimited, ha] at h
    cases h
  | accepted =>
    unfold Backoff.accepted
    exact (apply_ite Backoff.til _ _ _).trans (ite_self _)
  | other => rfl

/-- Where the last of some batches is in a decomposition of them. -/
theorem concat_eq_append_cons {α : Type*} {xs ys zs : List α} {x y : α} (h : xs ++ [x] = ys ++ y :: zs) :
    (xs = ys ∧ x = y ∧ zs = []) ∨ ∃ zs', zs = zs' ++ [x] ∧ xs = ys ++ y :: zs' := by
  rcases List.eq_nil_or_concat zs with rfl | ⟨zs', z, rfl⟩
  · obtain ⟨hxs, hx⟩ := List.append_inj' h rfl
    exact .inl ⟨hxs, List.singleton_inj.mp hx, rfl⟩
  · have h' : xs ++ [x] = (ys ++ y :: zs') ++ [z] := by
      rw [h, List.append_assoc, List.cons_append, List.concat_eq_append]
    obtain ⟨hxs, hx⟩ := List.append_inj' h' rfl
    exact .inr ⟨zs', by rw [List.singleton_inj.mp hx, List.concat_eq_append], hxs⟩

/-- **The end of the pause** is that of the last 429, whatever was answered since. -/
theorem afterAll_til (log : List Passed) (til : Instant) :
    (Backoff.afterAll log).til = some til ↔ ∃ pre l post, log = pre ++ l :: post ∧ l.isLimited = true ∧
      (∀ x ∈ post, x.isLimited = false) ∧ til = l.after + Backoff.pause (limitedCount (pre ++ [l])) := by
  induction log using List.reverseRecOn with
  | nil => simp [Backoff.afterAll, Backoff.new]
  | append_singleton log e ih =>
    rw [Backoff.afterAll_concat]
    cases he : e.isLimited with
    | true =>
      have hans : (Backoff.afterAll log).answered e = (Backoff.afterAll log).limited e.after := by
        unfold Backoff.answered
        rw [show e.answer = .limited from of_decide_eq_true he]
      rw [hans]
      show some (e.after + Backoff.pause ((Backoff.afterAll log).level + 1)) = some til ↔ _
      rw [(afterAll_counts log).level, ← limitedCount, ← limitedCount_limited he, Option.some.injEq]
      constructor
      · rintro rfl
        exact ⟨log, e, [], rfl, he, nofun, rfl⟩
      · rintro ⟨pre, l, post, hsplit, hl, hpost, rfl⟩
        rcases concat_eq_append_cons hsplit with ⟨rfl, rfl, -⟩ | ⟨post', rfl, -⟩
        · rfl
        · have := hpost e (List.mem_append_right _ (List.mem_singleton_self e))
          rw [he] at this
          cases this
    | false =>
      rw [Backoff.answered_til _ he, ih]
      constructor
      · rintro ⟨pre, l, post, rfl, hl, hpost, rfl⟩
        refine ⟨pre, l, post ++ [e], by rw [List.append_assoc, List.cons_append], hl, fun x hx => ?_, rfl⟩
        rcases List.mem_append.mp hx with hx | hx
        · exact hpost x hx
        · rw [List.mem_singleton.mp hx]
          exact he
      · rintro ⟨pre, l, post, hsplit, hl, hpost, rfl⟩
        rcases concat_eq_append_cons hsplit with ⟨-, rfl, -⟩ | ⟨post', rfl, hlog⟩
        · rw [he] at hl
          cases hl
        · exact ⟨pre, l, post', hlog, hl, fun x hx => hpost x (List.mem_append_left _ hx), rfl⟩

/-! ## Pauses -/

theorem pause_nonneg (k : ℕ) : 0 ≤ Backoff.pause k := by
  cases k with
  | zero => exact le_rfl
  | succ k =>
    refine le_min ?_ (by decide)
    have : (0 : ℚ) < 2 ^ k := by positivity
    unfold rlBackoffBase
    linarith

/-- The pauses after the first `k` 429s of an episode. -/
def pauses : ℕ → ℚ
  | 0 => 0
  | k + 1 => pauses k + Backoff.pause (k + 1)

/-- From the fourth 429 on a pause is as long as it gets. -/
theorem pause_cap (k : ℕ) : Backoff.pause (k + 4) = rlBackoffMax := by
  refine min_eq_right ?_
  have : (1 : ℚ) ≤ 2 ^ k := one_le_pow₀ (by norm_num)
  unfold rlBackoffMax rlBackoffBase
  rw [pow_add]
  linarith

theorem le_pauses (k : ℕ) : 120 * (k : ℚ) - 255 ≤ pauses k := by
  match k with
  | 0 | 1 | 2 | 3 => norm_num [pauses, Backoff.pause, rlBackoffBase, rlBackoffMax]
  | k + 4 =>
    have hprev := le_pauses (k + 3)
    rw [pauses, pause_cap, rlBackoffMax]
    push_cast at hprev ⊢
    linarith

/-- A batch passes after the pause that it finds. -/
def Gated (log : List Passed) : Prop :=
  ∀ pre e post, log = pre ++ e :: post → e.passed ≤ e.after ∧
    ∀ til, (Backoff.afterAll pre).til = some til → til ≤ e.passed

theorem Gated.concat (h : Gated log) (hle : e.passed ≤ e.after)
    (htil : ∀ til, (Backoff.afterAll log).til = some til → til ≤ e.passed) : Gated (log ++ [e]) := by
  intro pre e' post hsplit
  rcases concat_eq_append_cons hsplit with ⟨rfl, rfl, -⟩ | ⟨post', -, hlog⟩
  · exact ⟨hle, htil⟩
  · exact h pre e' post' hlog

theorem Gated.of_concat (h : Gated (log ++ [e])) : Gated log := by
  intro pre e' post hlog
  exact h pre e' (post ++ [e]) (by rw [hlog, List.append_assoc, List.cons_append])

theorem exists_last_limited {xs : List Passed} (h : ∃ x ∈ xs, x.isLimited = true) :
    ∃ as l bs, xs = as ++ l :: bs ∧ l.isLimited = true ∧ ∀ x ∈ bs, x.isLimited = false := by
  induction xs using List.reverseRecOn with
  | nil =>
    obtain ⟨x, hx, -⟩ := h
    cases hx
  | append_singleton xs e ih =>
    cases he : e.isLimited with
    | true => exact ⟨xs, e, [], rfl, he, nofun⟩
    | false =>
      obtain ⟨x, hx, hlim⟩ := h
      rcases List.mem_append.mp hx with hx | hx
      · obtain ⟨as, l, bs, rfl, hl, hbs⟩ := ih ⟨x, hx, hlim⟩
        refine ⟨as, l, bs ++ [e], by rw [List.append_assoc, List.cons_append], hl, fun y hy => ?_⟩
        rcases List.mem_append.mp hy with hy | hy
        · exact hbs y hy
        · rw [List.mem_singleton.mp hy]
          exact he
      · rw [List.mem_singleton.mp hx, he] at hlim
        cases hlim

/-- **No batch passes in the pause after a 429**, nor in any pause before. -/
theorem Gated.spaced (h : Gated log) : ∀ pre l mid e post, log = pre ++ l :: (mid ++ e :: post) →
    l.isLimited = true → l.after + Backoff.pause (limitedCount (pre ++ [l])) ≤ e.passed := by
  intro pre l mid e post hsplit hl
  -- Induction on the batches between the two, by the last 429 among them.
  induction hlen : mid.length using Nat.strong_induction_on generalizing mid e post with
  | _ m ih =>
    have hlast : ∀ as x bs, pre ++ l :: mid = as ++ x :: bs → x.isLimited = true →
        (∀ y ∈ bs, y.isLimited = false) → x.after + Backoff.pause (limitedCount (as ++ [x])) ≤ e.passed := by
      intro as x bs hmid hx hbs
      refine (h (pre ++ l :: mid) e post (by rw [hsplit, List.append_assoc, List.cons_append])).2 _ ?_
      exact (afterAll_til _ _).mpr ⟨as, x, bs, hmid, hx, hbs, rfl⟩
    by_cases hmid : ∃ x ∈ mid, x.isLimited = true
    · obtain ⟨as, x, bs, rfl, hx, hbs⟩ := exists_last_limited hmid
      have hfirst : l.after + Backoff.pause (limitedCount (pre ++ [l])) ≤ x.passed := by
        refine ih as.length ?_ as x (bs ++ e :: post) ?_ rfl
        · rw [← hlen, List.length_append, List.length_cons]
          omega
        · rw [hsplit, List.append_assoc, List.cons_append]
      have hthen := hlast (pre ++ l :: as) x bs (by rw [List.append_assoc, List.cons_append]) hx hbs
      have hanswered := (h (pre ++ l :: as) x (bs ++ e :: post) (by rw [hsplit]; simp)).1
      have := pause_nonneg (limitedCount ((pre ++ l :: as) ++ [x]))
      linarith
    · refine hlast pre l mid rfl hl fun y hy => ?_
      exact Bool.eq_false_of_not_eq_true fun hy' => hmid ⟨y, hy, hy'⟩

/-- **How long an episode lasts** at least. -/
theorem Gated.lasts (h : Gated log) : ∀ f ∈ ((episode log).filter Passed.isLimited).head?,
    ∀ l ∈ lastLimited (episode log), f.after + pauses (limitedCount log - 1) ≤ l.after := by
  induction log using List.reverseRecOn with
  | nil => nofun
  | append_singleton log e ih =>
    intro f hf l hl
    have hprev := ih h.of_concat
    have hcounts := afterAll_counts log
    cases he : e.isLimited with
    | true =>
      rw [episode_keeps (Passed.not_accepted he)] at hf hl
      rw [lastLimited_concat, if_pos he] at hl
      obtain rfl : e = l := Option.some.inj hl
      rw [List.filter_append, List.filter_singleton, he, cond_true] at hf
      rw [limitedCount_limited he, Nat.add_sub_cancel]
      cases hlast : lastLimited (episode log) with
      | none =>
        have hzero : limitedCount log = 0 := lastLimited_eq_none.mp hlast
        rw [List.getLast?_eq_none_iff.mp hlast] at hf
        obtain rfl : e = f := Option.some.inj hf
        rw [hzero]
        exact (add_zero _).le
      | some l =>
        obtain ⟨g, fs, hfs⟩ : ∃ g fs, (episode log).filter Passed.isLimited = g :: fs := by
          cases hfs : (episode log).filter Passed.isLimited with
          | nil =>
            rw [lastLimited, hfs] at hlast
            cases hlast
          | cons g fs => exact ⟨g, fs, rfl⟩
        rw [hfs] at hf hprev
        have hstart := hprev f hf l hlast
        have hpos : limitedCount log ≠ 0 := fun hz => by
          rw [lastLimited_eq_none.mpr hz] at hlast
          cases hlast
        obtain ⟨m, hm⟩ := Nat.exists_eq_succ_of_ne_zero hpos
        have htil := hcounts.til l hlast
        rw [hcounts.level, ← limitedCount] at htil
        obtain ⟨hanswered, hpass⟩ := h log e [] rfl
        have := hpass _ htil
        rw [hm, Nat.succ_sub_one] at hstart
        rw [hm] at this ⊢
        rw [pauses]
        linarith
    | false =>
      rw [episode_concat] at hf hl
      rw [limitedCount, episode_concat]
      by_cases hr : recovers (episode log) e = true
      · rw [if_pos hr] at hl
        cases hl
      · rw [if_neg hr] at hf hl ⊢
        rw [lastLimited_concat, he] at hl
        rw [List.filter_append, List.filter_singleton, he, cond_false, List.append_nil] at hf
        rw [List.countP_append, List.countP_singleton, he]
        exact hprev f hf l hl

end Episodes

/-! ## Runs of the sender -/

/-- The limiter, the clock, and the batches that passed the gate. -/
structure BackoffRun where
  limiter : RateLimiter
  clock : Instant
  log : List Passed

namespace BackoffRun

variable {n : ℕ}

def start (minSendInterval : ℚ) (now : Instant) : BackoffRun := ⟨.new minSendInterval, now, []⟩

section

variable (market : MarketConfig) (render : Json → String) (lower : String → String)

/-- The next batch, under a clock that does not go back, and with sleeps that are not cut short. -/
def step (w : BackoffRun) (b : Handling n) : Option BackoffRun :=
  if w.clock ≤ b.gate.start ∧ w.limiter.Honest b.ops.length (cancelOnly b.ops) b.gate ∧ b.gate.done ≤ b.after then
    let r := b.sendOnce market render lower w.limiter
    some ⟨r.1, b.after, w.log ++ (r.2.answer lower).toList.map fun answer => ⟨b.gate.done, b.after, answer⟩⟩
  else none

end

variable {market : MarketConfig} {render : Json → String} {lower : String → String} {w w' : BackoffRun}
  {r : RateLimiter} {b : Handling n}

/-- What one batch does to the backoff, and that the gate let it pass if it has an answer. -/
theorem sendOnce_backoff (market : MarketConfig) (render : Json → String) (lower : String → String)
    (r : RateLimiter) (b : Handling n) :
    ((b.sendOnce market render lower r).2.answer lower = none ∧
        (b.sendOnce market render lower r).1.backoff = r.backoff) ∨
      ∃ answer, (b.sendOnce market render lower r).2.answer lower = some answer ∧
        (r.writeSlot b.ops.length b.gate).2 = true ∧
        (b.sendOnce market render lower r).1.backoff = r.backoff.answered ⟨b.gate.done, b.after, answer⟩ := by
  have hslot := r.writeSlot_backoff b.ops.length b.gate
  unfold Handling.sendOnce
  simp only
  split
  · exact .inl ⟨rfl, hslot⟩
  · rename_i hpass
    have hpass' : (r.writeSlot b.ops.length b.gate).2 = true := by simpa using hpass
    split
    · exact .inr ⟨.other, rfl, hpass', hslot⟩
    · split
      · exact .inr ⟨.other, rfl, hpass', hslot⟩
      · split
        · exact .inr ⟨.other, rfl, hpass', hslot⟩
        · refine .inr ⟨_, rfl, hpass', ?_⟩
          exact (RateLimiter.result_backoff _ _ b.gate.done).trans (congrArg (Backoff.answered · _) hslot)

structure Inv (w : BackoffRun) : Prop where
  backoff : w.limiter.backoff = .afterAll w.log
  gated : Gated w.log

theorem Inv.step (h : w.Inv) (hst : w.step market render lower b = some w') : w'.Inv := by
  obtain ⟨⟨-, hhonest, hafter⟩, hw⟩ := Option.ite_none_right_eq_some.mp hst
  cases hw
  rcases sendOnce_backoff market render lower w.limiter b with ⟨hans, hback⟩ | ⟨answer, hans, hpass, hback⟩
  · rw [hans, Option.toList_none, List.map_nil, List.append_nil]
    exact ⟨hback.trans h.backoff, h.gated⟩
  · rw [hans, Option.toList_some, List.map_singleton]
    obtain ⟨htil, -, hpace, hdone⟩ := RateLimiter.writeSlot_passes hhonest hpass
    have hfloor : 0 ≤ w.limiter.floorPhase (cancelOnly b.ops) b.gate.floor := RateLimiter.sleepUpTo_nonneg _ _
    have hpaced : 0 ≤ w.limiter.pacePhase (cancelOnly b.ops) b.gate.pace := RateLimiter.pacePhase_nonneg _
    refine ⟨?_, h.gated.concat hafter fun til ht => ?_⟩
    · rw [Backoff.afterAll_concat, ← h.backoff]
      exact hback
    · have hlimit : w.limiter.globalBackoffUntil = some til := (congrArg Backoff.til h.backoff).trans ht
      have := htil til hlimit
      show til ≤ b.gate.done
      linarith

theorem inv_of_reach {minSendInterval : ℚ} {now : Instant}
    (h : Trans.Reach (step (n := n) market render lower) (start minSendInterval now) w) : w.Inv :=
  h.invariant ⟨rfl, fun pre e post hsplit => by simp [start] at hsplit⟩ fun _ _ _ hw _ hst => hw.step hst

/-- A batch of one Create, and the code that answers it. -/
def codedBatch (gate : SlotClock) (code : ℤ) (after : Instant) : Handling 1 where
  ops := [⟨.buy, 0, .create, 100, 1, 5, none, false⟩]
  gate := gate
  halted := false
  nonce := .init 100 7 2
  signer := some fun _ => some ⟨14, "signed"⟩
  quota := none
  restErr := ""
  rest := none
  reply := .response (.obj [("code", .int code), ("message", .str "too many requests")])
  after := after

/-- Two batches are answered by a 429, one in between is skipped, and a fourth one is accepted. -/
def limitedTwice : List (Handling 1) :=
  [codedBatch ⟨1, 1, 1, 1, 1, 1⟩ 429 2, codedBatch ⟨3, 3, 3, 3, 3, 3⟩ 429 4,
    codedBatch ⟨16, 17, 17, 17, 17, 17⟩ 429 18, codedBatch ⟨50, 50, 50, 50, 50, 50⟩ 0 51]

def anyMarket : MarketConfig := ⟨1, 1 / 10, 1 / 100000, 1 / 5000, 10⟩

theorem limitedTwice_run : ∃ w, Trans.Reach (step (n := 1) anyMarket (fun _ => "") id) (start (1 / 10) 0) w ∧
    w.log = [⟨1, 2, .limited⟩, ⟨17, 18, .limited⟩, ⟨50, 51, .accepted⟩] := by
  obtain ⟨w, hrun, hlog⟩ := Option.map_eq_some_iff.mp (show ((Trans.run (step anyMarket (fun _ => "") id)
    (start (1 / 10) 0) limitedTwice).map BackoffRun.log) =
      some [⟨1, 2, .limited⟩, ⟨17, 18, .limited⟩, ⟨50, 51, .accepted⟩] by decide +kernel)
  exact ⟨w, Trans.reach_iff_run.mpr ⟨_, hrun⟩, hlog⟩

/-- **The pauses of the sender.** In any run, no batch passes the gate in the pause of a 429 before it, where
the `k`-th 429 of an episode makes a pause of `15 * 2 ^ (k - 1)` seconds, `120` at most. And the backoff holds
a batch back only there: at `now` exactly if more than two seconds of the pause of the last 429 are left. -/
theorem backoff_paced {minSendInterval : ℚ} {t₀ : Instant}
    (h : Trans.Reach (step (n := n) market render lower) (start minSendInterval t₀) w) :
    (∀ pre l mid e post, w.log = pre ++ l :: (mid ++ e :: post) → l.isLimited = true →
      l.after + Backoff.pause (limitedCount (pre ++ [l])) ≤ e.passed) ∧
    ∀ now, w.limiter.backoffPhase now = none ↔ ∃ pre l post, w.log = pre ++ l :: post ∧ l.isLimited = true ∧
      (∀ x ∈ post, x.isLimited = false) ∧
      now + backoffSleepThreshold < l.after + Backoff.pause (limitedCount (pre ++ [l])) := by
  have hinv := inv_of_reach h
  refine ⟨hinv.gated.spaced, fun now => ?_⟩
  have htil : ∀ til, w.limiter.globalBackoffUntil = some til ↔ (Backoff.afterAll w.log).til = some til := fun til => by
    rw [← hinv.backoff]
    rfl
  constructor
  · intro hskip
    obtain ⟨til, hlimit, hlong⟩ := RateLimiter.backoffPhase_skips hskip
    obtain ⟨pre, l, post, hsplit, hl, hpost, rfl⟩ := (afterAll_til _ _).mp ((htil til).mp hlimit)
    exact ⟨pre, l, post, hsplit, hl, hpost, by linarith⟩
  · rintro ⟨pre, l, post, hsplit, hl, hpost, hlong⟩
    have hlimit := (htil _).mpr ((afterAll_til _ _).mpr ⟨pre, l, post, hsplit, hl, hpost, rfl⟩)
    have hpos : 0 < backoffSleepThreshold := by decide
    unfold RateLimiter.backoffPhase
    rw [hlimit]
    simp only
    rw [if_pos (by linarith), if_neg (by linarith)]

theorem backoff_paced_limited : ∃ w : BackoffRun,
    w.log = [⟨1, 2, .limited⟩, ⟨17, 18, .limited⟩, ⟨50, 51, .accepted⟩] ∧
      (18 : ℚ) + Backoff.pause (limitedCount [⟨1, 2, .limited⟩, ⟨17, 18, .limited⟩]) ≤ 50 ∧
      w.limiter.backoffPhase 20 = none := by
  obtain ⟨w, hreach, hlog⟩ := limitedTwice_run
  obtain ⟨hspaced, hskip⟩ := backoff_paced hreach
  refine ⟨w, hlog, hspaced [⟨1, 2, .limited⟩] ⟨17, 18, .limited⟩ [] ⟨50, 51, .accepted⟩ [] hlog rfl,
    (hskip 20).mpr ⟨[⟨1, 2, .limited⟩], ⟨17, 18, .limited⟩, [⟨50, 51, .accepted⟩], hlog, rfl, ?_, by decide +kernel⟩⟩
  intro x hx
  rw [List.mem_singleton.mp hx]
  rfl

/-- **A sustained limit**: the 429s of an episode are at most one in two minutes, up to a few at its start. -/
theorem episode_lasts {minSendInterval : ℚ} {t₀ : Instant}
    (h : Trans.Reach (step (n := n) market render lower) (start minSendInterval t₀) w) :
    ∀ f ∈ ((episode w.log).filter Passed.isLimited).head?, ∀ l ∈ lastLimited (episode w.log),
      120 * (limitedCount w.log : ℚ) ≤ l.after - f.after + 375 := by
  intro f hf l hl
  have hlasts := (inv_of_reach h).gated.lasts f hf l hl
  have hpauses := le_pauses (limitedCount w.log - 1)
  have hpos : limitedCount w.log ≠ 0 := fun hz => by
    rw [lastLimited_eq_none.mpr hz] at hl
    cases hl
  obtain ⟨m, hm⟩ := Nat.exists_eq_succ_of_ne_zero hpos
  rw [hm, Nat.succ_sub_one] at hlasts hpauses
  rw [hm]
  push_cast
  linarith

theorem episode_lasts_limited : ∃ w : BackoffRun, limitedCount w.log = 2 ∧ 120 * (2 : ℚ) ≤ 18 - 2 + 375 := by
  obtain ⟨w, hreach, hlog⟩ := limitedTwice_run
  have hcount : limitedCount w.log = 2 := by
    rw [hlog]
    decide +kernel
  have hlasts := episode_lasts hreach ⟨1, 2, .limited⟩ (by rw [hlog]; decide +kernel) ⟨17, 18, .limited⟩
    (by rw [hlog]; decide +kernel)
  rw [hcount] at hlasts
  exact ⟨w, hcount, hlasts⟩

end BackoffRun

end LighterMM
