import LighterMM.Hot.BookFeed

/-!
# The readiness gate (`maybe_quote` of `orchestrator.rs`)

A Create or a Modify comes from a priced entry of a ladder (`collectLoop_priced`), and a ladder comes
from behind the gate (`chooseExit_ladder`): there is capital, a position has been received, and the book
has a mid. While the engine or the wall clock is warming up, the only ladder is the reduce-only exit of
the position, with one price at level 0 (`fallback_targets`).

`readiness_gate` says so of every batch that the hot task publishes in live mode.
-/

namespace LighterMM

variable {n : ℕ}

namespace OrderManager

variable {om : OrderManager n} {args : CollectArgs}

/-- A Create or a Modify of one iteration: the price is the ladder's, and the flag is that of the
position. -/
theorem collectSlot_priced {side : Side} {level : Fin n} {price : Option ℚ} {op : BatchOp n}
    (h : (om.collectSlot args side level price).2 = some op) (ha : op.action ≠ .cancel) :
    op.side = side ∧ op.level = level ∧ price = some op.price ∧
      op.reduceOnly = isReducingSide side args.position := by
  unfold collectSlot at h
  cases price with
  | none =>
    simp only at h
    split at h
    · cases h
    · split at h
      · cases h
      · split at h
        · cases h
        · cases h
          exact absurd rfl ha
  | some p =>
    simp only at h
    split at h
    · cases h
    · split at h
      · split at h
        · cases h
        · split at h
          · cases h
          · split at h
            · cases h
              exact ⟨rfl, rfl, rfl, rfl⟩
            · cases h
      · cases h
        exact ⟨rfl, rfl, rfl, rfl⟩

theorem collectLoop_priced {ts : List (Side × Fin n × Option ℚ)} {op : BatchOp n}
    (h : op ∈ (collectLoop args ts om).2) (ha : op.action ≠ .cancel) :
    (op.side, op.level, some op.price) ∈ ts ∧ op.reduceOnly = isReducingSide op.side args.position := by
  induction ts generalizing om with
  | nil => cases h
  | cons t ts ih =>
    obtain ⟨side, level, price⟩ := t
    simp only [collectLoop, List.mem_append, Option.mem_toList] at h
    rcases h with h | h
    · obtain ⟨rfl, rfl, rfl, hflag⟩ := collectSlot_priced h ha
      exact ⟨List.mem_cons_self, hflag⟩
    · obtain ⟨hmem, hflag⟩ := ih h
      exact ⟨List.mem_cons_of_mem _ hmem, hflag⟩

/-- A Create or a Modify of a cycle is from a ladder. -/
theorem cycle_places {now : Instant} {d : Decision n} {ops : List (BatchOp n)} {op : BatchOp n}
    (h : (om.cycle now d).2 = some ops) (hop : op ∈ ops) (ha : op.action ≠ .cancel) :
    ∃ levels args, d = .ladder levels args ∧ ops = (om.collectOrderOperations levels args).2 := by
  cases d with
  | throttled => cases h
  | gated =>
    cases h
    exact absurd (collectCancelOps_fits hop).1 ha
  | flat =>
    cases h
    cases hop
  | ladder levels args =>
    simp only [cycle] at h
    split at h
    · cases h
    · cases h
      exact ⟨levels, args, rfl, rfl⟩

end OrderManager

/-- Level 0, on the side that reduces the position. -/
def BatchOp.ReducesAtTop (op : BatchOp n) (position : ℚ) : Prop :=
  op.level.val = 0 ∧ ((0 < position ∧ op.side = .sell) ∨ (position < 0 ∧ op.side = .buy))

/-- A priced entry of a ladder. -/
theorem levelTargets_get {levels : List Level} {side : Side} {level : Fin n} {p : ℚ}
    (h : (side, level, some p) ∈ levelTargets n levels) :
    ∃ l, levels[level.val]? = some l ∧ ((side = .buy ∧ l.1 = some p) ∨ (side = .sell ∧ l.2 = some p)) := by
  obtain ⟨l, hget, hl⟩ := mem_levelTargets_iff.mp h
  cases side with
  | buy => exact ⟨l, hget, .inl ⟨rfl, hl⟩⟩
  | sell => exact ⟨l, hget, .inr ⟨rfl, hl⟩⟩

/-- A ladder with one level that is not empty, the first. -/
theorem noneLevels_set {l₀ l : Level} {i : ℕ} (h : ((noneLevels n).set 0 l₀)[i]? = some l) :
    l = (none, none) ∨ i = 0 ∧ l = l₀ := by
  by_cases hi : i = 0
  · subst hi
    rw [List.getElem?_set_self'] at h
    obtain ⟨-, -, rfl⟩ := Option.map_eq_some_iff.mp h
    exact .inr ⟨rfl, rfl⟩
  · rw [List.getElem?_set_ne (Ne.symm hi)] at h
    exact .inl (List.eq_of_mem_replicate (List.mem_of_getElem? h))

/-- The reduce-only exit has one price. -/
theorem fallback_targets {mid position tick bps p : ℚ} {side : Side} {level : Fin n}
    (hpos : epsilon ≤ |position|)
    (h : (side, level, some p) ∈ levelTargets n (fallbackReduceOnly mid position tick bps n)) :
    level.val = 0 ∧ ((0 < position ∧ side = .sell) ∨ (position < 0 ∧ side = .buy)) := by
  obtain ⟨l, hget, hl⟩ := levelTargets_get h
  unfold fallbackReduceOnly at hget
  simp only at hget
  split at hget
  · rw [List.eq_of_mem_replicate (List.mem_of_getElem? hget)] at hl
    rcases hl with ⟨-, hl⟩ | ⟨-, hl⟩ <;> cases hl
  · split at hget
    · rename_i hlong
      rcases noneLevels_set hget with rfl | ⟨hzero, rfl⟩
      · rcases hl with ⟨-, hl⟩ | ⟨-, hl⟩ <;> cases hl
      · rcases hl with ⟨-, hl⟩ | ⟨hside, -⟩
        · cases hl
        · exact ⟨hzero, .inl ⟨hlong, hside⟩⟩
    · rename_i hshort
      rcases noneLevels_set hget with rfl | ⟨hzero, rfl⟩
      · rcases hl with ⟨-, hl⟩ | ⟨-, hl⟩ <;> cases hl
      · rcases hl with ⟨hside, -⟩ | ⟨-, hl⟩
        · refine ⟨hzero, .inr ⟨?_, hside⟩⟩
          refine lt_of_le_of_ne (not_lt.mp hshort) fun hflat => ?_
          rw [hflat, abs_zero] at hpos
          exact absurd epsilon_pos (not_lt.mpr hpos)
        · cases hl

namespace HotTask

variable {cfg : HotConfig n} {t : HotTask n} {r : Reads n}

/-! ## The ladder behind the gate -/

theorem quoteDecision_ladder {position orderSize : ℚ} {hold : Bool} {levels : List Level} {args : CollectArgs}
    (h : t.quoteDecision cfg r position orderSize hold = .ladder levels args) :
    args.position = position ∧ (t.notReady cfg r.warmupClock = true → epsilon ≤ |position| ∧
      levels = fallbackReduceOnly t.mid position cfg.market.priceTick cfg.fallbackBps n) := by
  unfold quoteDecision at h
  split at h
  · split at h
    · rename_i hpos
      cases h
      exact ⟨rfl, fun _ => ⟨hpos, rfl⟩⟩
    · cases h
  · rename_i hready
    cases h
    exact ⟨rfl, fun hnr => absurd hnr hready⟩

/-- A ladder comes from behind the gate; while the task is not ready it is the reduce-only exit of the
position. -/
theorem chooseExit_ladder {levels : List Level} {args : CollectArgs}
    (h : (t.chooseExit cfg r).2.2 = .ladder levels args) :
    cfg.gated r = false ∧ args.position = cfg.quotePosition t.mid r.position ∧
      (t.notReady cfg r.warmupClock = true → epsilon ≤ |cfg.quotePosition t.mid r.position| ∧
        levels = fallbackReduceOnly t.mid (cfg.quotePosition t.mid r.position) cfg.market.priceTick
          cfg.fallbackBps n) := by
  have hcases := t.chooseExit_cases cfg r
  generalize t.chooseExit cfg r = q at hcases h
  cases hcases with
  | throttled | gated => cases h
  | opened _ hgate =>
    set t' : HotTask n := { t with
      om := t.drainedOm r, lastQuote := some r.now,
      calculator := t.calculator.setAlphaOverride r.usableAlpha } with ht'
    have hready : (t'.openGate cfg r).1.notReady cfg r.warmupClock = t.notReady cfg r.warmupClock := by
      rw [openGate_notReady]
      simp only [notReady, ht', VolObiCalculator.setAlphaOverride_warmedUp]
    obtain ⟨calculator, maxPosUsd, seen, til, hopen⟩ := openGate_eq cfg t' r
    have hdec : (t'.openGate cfg r).1.quoteDecision cfg r (cfg.quotePosition t'.mid r.position) _ _ =
      .ladder levels args := h
    obtain ⟨hposition, hexit⟩ := quoteDecision_ladder hdec
    refine ⟨hgate, hposition, fun hnr => ?_⟩
    obtain ⟨hpos, hlevels⟩ := hexit (hready.trans hnr)
    refine ⟨hpos, ?_⟩
    rw [hlevels, hopen]

/-! ## What a message publishes -/

/-- What is sent into the mailbox, in order. -/
def published (es : List (HotEffect n)) : List (List (BatchOp n)) :=
  es.filterMap fun
    | .sendOps ops => some ops
    | _ => none

theorem published_append (as bs : List (HotEffect n)) : published (as ++ bs) = published as ++ published bs :=
  List.filterMap_append

theorem published_eq_nil {es : List (HotEffect n)} (h : ∀ ops, HotEffect.sendOps ops ∉ es) :
    published es = [] := by
  refine List.filterMap_eq_nil_iff.mpr fun e he => ?_
  cases e with
  | sendOps ops => exact absurd he (h ops)
  | notifyReconnect | notifyReconcile | storeTracked | setMdNow | setMid => rfl

theorem mem_published {es : List (HotEffect n)} {ops : List (BatchOp n)} :
    ops ∈ published es ↔ HotEffect.sendOps ops ∈ es := by
  unfold published
  rw [List.mem_filterMap]
  constructor
  · rintro ⟨e, he, hops⟩
    cases e with
    | sendOps ops' =>
      cases hops
      exact he
    | notifyReconnect | notifyReconcile | storeTracked | setMdNow | setMid => cases hops
  · exact fun h => ⟨_, h, rfl⟩

/-- The first half of `on_orderbook`: it leaves the order manager, and publishes nothing, but for the
empty batch of a resnapshot. -/
structure ReceiveFrame (t : HotTask n) (q : HotTask n × List (HotEffect n) × Bool) : Prop where
  om : q.1.om = t.om
  loopStart : q.1.loopStart = t.loopStart
  quotes : q.2.2 = true → q.1.book.mid = some q.1.mid ∧ HotEffect.notifyReconnect ∉ q.2.1
  published : published q.2.1 = if HotEffect.notifyReconnect ∈ q.2.1 then [[]] else []

theorem ReceiveFrame.of_eq {t t' : HotTask n} {q : HotTask n × List (HotEffect n) × Bool}
    (h : ReceiveFrame t' q) (hom : t'.om = t.om) (hstart : t'.loopStart = t.loopStart) : ReceiveFrame t q :=
  ⟨h.om.trans hom, h.loopStart.trans hstart, h.quotes, h.published⟩

/-- Nothing happens. -/
theorem ReceiveFrame.ignored (t : HotTask n) : ReceiveFrame t (t, [], false) :=
  ⟨rfl, rfl, fun h => Bool.noConfusion h, rfl⟩

theorem ReceiveFrame.resnapshot (t : HotTask n) :
    ReceiveFrame t (t.requestResnapshot.1, t.requestResnapshot.2, false) :=
  ⟨rfl, rfl, fun h => Bool.noConfusion h, rfl⟩

variable (sqrt : ℚ → ℚ)

theorem updateSignal_receiveFrame : ReceiveFrame t (t.updateSignal sqrt cfg r) := by
  have hcases := t.updateSignal_cases sqrt cfg r
  generalize t.updateSignal sqrt cfg r = q at hcases ⊢
  cases hcases with
  | noMid => exact .ignored t
  | diverged => exact .resnapshot t
  | updated _ hmid => exact ⟨rfl, rfl, fun _ => ⟨hmid, by simp⟩, by simp [published]⟩

theorem applied_receiveFrame (msg : OrderBookMsg) : ReceiveFrame t (t.applied sqrt cfg msg r) := by
  set t' : HotTask n :=
    { t with book := applyMsg t.book msg
             calculator := if t.book.initialized then t.calculator else t.calculator.reset } with ht'
  have h : ReceiveFrame t' (t'.updateSignal sqrt cfg r) := updateSignal_receiveFrame sqrt
  refine ⟨h.om, h.loopStart, fun hq => ⟨(h.quotes hq).1, fun hmem => (h.quotes hq).2 ?_⟩, ?_⟩
  · exact (List.mem_cons.mp hmem).resolve_left (by simp)
  · refine Eq.trans h.published ?_
    simp [applied, ht']

theorem receive_frame (msg : OrderBookMsg) : ReceiveFrame t (t.receive sqrt cfg msg r) := by
  have hreset : t.takeReset.om = t.om ∧ t.takeReset.loopStart = t.loopStart := by
    unfold takeReset
    split <;> exact ⟨rfl, rfl⟩
  suffices hframe : ReceiveFrame t.takeReset (t.receive sqrt cfg msg r) from hframe.of_eq hreset.1 hreset.2
  have hcases := t.receive_cases sqrt cfg msg r
  generalize t.receive sqrt cfg msg r = q at hcases ⊢
  cases hcases with
  | snapshot => exact (applied_receiveFrame sqrt msg).of_eq rfl rfl
  | waiting | stale => exact .ignored _
  | gap => exact .resnapshot _
  | delta => exact applied_receiveFrame sqrt msg

theorem maybeQuote_loopStart : (t.maybeQuote cfg r).1.loopStart = t.loopStart := by
  obtain ⟨om, lastTracked, lastQuote, calculator, maxPosUsd, seen, til, hquote⟩ := maybeQuote_eq cfg t r
  rw [hquote]

/-- In live mode `maybe_quote` publishes the batch of its cycle. -/
theorem maybeQuote_published (hlive : cfg.mode = .live) :
    published (t.maybeQuote cfg r).2 = ((t.drainedOm r).cycle r.now (t.chooseExit cfg r).2.2).2.toList := by
  have hom := chooseExit_om cfg t r
  have hes := chooseExit_effects cfg t r
  have hsent : ∀ batch : Option (List (BatchOp n)), published (batch.map HotEffect.sendOps).toList =
      batch.toList := by
    intro batch
    cases batch <;> rfl
  have hno : published (t.chooseExit cfg r).2.1 = [] := published_eq_nil fun ops h => nomatch hes _ h
  have hquiet : ∀ batch : Option (List (BatchOp n)),
      published ((t.chooseExit cfg r).2.1 ++ (batch.map HotEffect.sendOps).toList) = batch.toList := by
    intro batch
    rw [published_append, hno, hsent, List.nil_append]
  unfold maybeQuote
  simp only [hom]
  generalize (t.chooseExit cfg r).2.2 = d
  cases d with
  | throttled | gated | flat => exact hquiet _
  | ladder levels args =>
    simp only [hlive]
    rw [published_append, published_append, hno, hsent, published_eq_nil (publishTracked_om _).2]
    rfl

/-- What a message publishes in live mode: the batch of the cycle if it quotes, else the empty batch of a
resnapshot or nothing. -/
theorem onOrderbook_published (hlive : cfg.mode = .live) (msg : OrderBookMsg) :
    let q := t.receive sqrt cfg msg r
    (q.2.2 = true ∧ published (t.onOrderbook sqrt cfg msg r).2 =
        ((q.1.drainedOm r).cycle r.now (q.1.chooseExit cfg r).2.2).2.toList) ∨
      (q.2.2 = false ∧ published (t.onOrderbook sqrt cfg msg r).2 =
        if HotEffect.notifyReconnect ∈ q.2.1 then [[]] else []) := by
  intro q
  have hframe : ReceiveFrame t q := receive_frame sqrt msg
  unfold onOrderbook
  cases hq : q.2.2 with
  | true =>
    refine .inl ⟨rfl, ?_⟩
    simp only [show (t.receive sqrt cfg msg r).2.2 = true from hq, if_true]
    have hnone : published (t.receive sqrt cfg msg r).2.1 = [] := by
      refine hframe.published.trans ?_
      rw [if_neg (hframe.quotes hq).2]
    rw [published_append, hnone, maybeQuote_published hlive]
    rfl
  | false =>
    refine .inr ⟨rfl, ?_⟩
    simp only [show (t.receive sqrt cfg msg r).2.2 = false from hq, Bool.false_eq_true, if_false]
    exact hframe.published

/-- The wall clock of the warm-up starts with the task. -/
theorem loopStart_reach {t₀ : Instant} (h : Trans.Reach (step sqrt cfg) (new sqrt cfg t₀) t) :
    t.loopStart = some t₀ := by
  refine h.invariant (I := fun t => t.loopStart = some t₀) rfl fun t a t' ih _ hst => ?_
  cases a with
  | orderBook msg r =>
    cases hst
    have hframe : ReceiveFrame t (t.receive sqrt cfg msg r) := receive_frame sqrt msg
    exact onOrderbook_keeps (P := fun t => t.loopStart = some t₀) (hframe.loopStart.trans ih)
      fun u hu => maybeQuote_loopStart.trans hu
  | ticker bestBid bestAsk now =>
    cases hst
    obtain ⟨bbo, hbbo⟩ := t.onTicker_eq bestBid bestAsk now
    rw [hbbo]
    exact ih
  | disconnect =>
    cases hst
    exact ih

/-- **The readiness gate.** In a run of the hot task in live mode, a batch with a Create or a Modify was
computed when there was capital, a position had been received, and the book had both sides. If the
engine was not warmed up or the wall clock was within the warm-up, its Creates and Modifies are at level
0, on the side that reduces the position. -/
theorem readiness_gate (cfg : HotConfig n) (t₀ : Instant) (t : HotTask n) (msg : OrderBookMsg) (r : Reads n)
    (ops : List (BatchOp n)) (hlive : cfg.mode = .live)
    (hreach : Trans.Reach (step sqrt cfg) (new sqrt cfg t₀) t)
    (hsend : HotEffect.sendOps ops ∈ (t.onOrderbook sqrt cfg msg r).2)
    (hplaces : ∃ op ∈ ops, op.action ≠ .cancel) :
    let q := (t.receive sqrt cfg msg r).1
    (0 < r.gateCapital ∧ r.positionSeen = true ∧ q.book.bestBid ≠ none ∧ q.book.bestAsk ≠ none) ∧
      (q.calculator.warmedUp = false ∨ r.warmupClock - t₀ < cfg.warmupSeconds →
        ∀ op ∈ ops, op.action ≠ .cancel → op.ReducesAtTop (cfg.quotePosition q.mid r.position)) := by
  intro q
  obtain ⟨op, hop, ha⟩ := hplaces
  have hframe : ReceiveFrame t (t.receive sqrt cfg msg r) := receive_frame sqrt msg
  rw [← mem_published] at hsend
  rcases onOrderbook_published (t := t) (r := r) sqrt hlive msg with ⟨hquotes, hpub⟩ | ⟨-, hpub⟩
  · rw [hpub, Option.mem_toList] at hsend
    obtain ⟨levels, args, hd, hops⟩ := OrderManager.cycle_places hsend hop ha
    obtain ⟨hgate, -, hexit⟩ := chooseExit_ladder hd
    refine ⟨?_, fun hwarm op hop ha => ?_⟩
    · obtain ⟨hmid, -⟩ := hframe.quotes hquotes
      have hopen : ¬(r.gateCapital ≤ 0 ∨ r.positionSeen = false) := by
        unfold HotConfig.gated at hgate
        simpa [hlive] using hgate
      rw [not_or, not_le, Bool.not_eq_false] at hopen
      refine ⟨hopen.1, hopen.2, fun hbid => ?_, fun hask => ?_⟩
      · unfold LocalBook.mid at hmid
        rw [show (t.receive sqrt cfg msg r).1.book.bestBid = none from hbid] at hmid
        cases hmid
      · unfold LocalBook.mid at hmid
        rw [show (t.receive sqrt cfg msg r).1.book.bestAsk = none from hask] at hmid
        split at hmid
        · rename_i hask'
          cases hask'
        · cases hmid
    · have hnr : (t.receive sqrt cfg msg r).1.notReady cfg r.warmupClock = true := by
        unfold notReady
        rw [hframe.loopStart, loopStart_reach sqrt hreach, hlive]
        rcases hwarm with hwarm | hwarm
        · rw [show (t.receive sqrt cfg msg r).1.calculator.warmedUp = false from hwarm]
          rfl
        · simp [hwarm]
      obtain ⟨hpos, hlevels⟩ := hexit hnr
      rw [hops, hlevels] at hop
      exact fallback_targets hpos (OrderManager.collectLoop_priced hop ha).1
  · rw [hpub] at hsend
    split at hsend
    · rw [List.mem_singleton.mp hsend] at hop
      cases hop
    · cases hsend

/-- What an account with a position of `1` reads at second `1`. -/
def longReads : Reads 1 := { flatReads 1 [] with position := 1 }

theorem readiness_gate_exit :
    ∃ ops, HotEffect.sendOps ops ∈ ((new id quickConfig 0).onOrderbook id quickConfig bookSnapshot longReads).2 ∧
      (∃ op ∈ ops, op.action ≠ .cancel) ∧ ∀ op ∈ ops, op.action ≠ .cancel → op.ReducesAtTop
        (quickConfig.quotePosition ((new id quickConfig 0).receive id quickConfig bookSnapshot longReads).1.mid
          longReads.position) := by
  have hpub : (published ((new id quickConfig 0).onOrderbook id quickConfig bookSnapshot longReads).2).any
      (fun ops => ops.any fun op => decide (op.action ≠ .cancel)) = true := by decide +kernel
  obtain ⟨ops, hops, hany⟩ := List.any_eq_true.mp hpub
  obtain ⟨op, hop, ha⟩ := List.any_eq_true.mp hany
  have hplaces : ∃ op ∈ ops, op.action ≠ .cancel := ⟨op, hop, of_decide_eq_true ha⟩
  exact ⟨ops, mem_published.mp hops, hplaces, (readiness_gate id quickConfig 0 _ bookSnapshot longReads ops rfl
    .refl (mem_published.mp hops) hplaces).2 (.inl (by decide +kernel))⟩

end HotTask

end LighterMM
