import LighterMM.Exec.TrackedIds
import LighterMM.Hot.BookFeed
import LighterMM.Hot.Ladder

/-!
# The published ids (`maybe_quote` of `orchestrator.rs`)

The hot task stores the client ids of its slots for the reconcile poller when they differ from the list that
it stored last. `PublishedIds` is the hot task and the stored list, over any run of inputs.

- **Remembered** (`reach_remembered`): `last_tracked` is the list that the poller reads.
- **Current** (`published_current`): after every message on which the task quotes a ladder, the list has
  the ids of the slots, which rests on the exactness of the comparison.
-/

namespace LighterMM

variable {n : ℕ}

namespace HotTask

variable {cfg : HotConfig n} {t : HotTask n} {r : Reads n} {ids : List ℤ} {es : List (HotEffect n)}

/-! ## What the effects store -/

/-- The stored list after effects. -/
def stored (ids : List ℤ) (es : List (HotEffect n)) : List ℤ :=
  es.foldl (fun ids e =>
    match e with
    | .storeTracked ids' => ids'
    | _ => ids) ids

theorem stored_append (ids : List ℤ) (as bs : List (HotEffect n)) :
    stored ids (as ++ bs) = stored (stored ids as) bs := List.foldl_append

theorem stored_eq_self (h : ∀ ids', HotEffect.storeTracked ids' ∉ es) : stored ids es = ids := by
  induction es with
  | nil => rfl
  | cons e es ih =>
    have hrest : stored ids es = ids := ih fun ids' he => h ids' (List.mem_cons_of_mem _ he)
    cases e with
    | storeTracked ids' => exact absurd List.mem_cons_self (h ids')
    | sendOps | notifyReconnect | notifyReconcile | setMdNow | setMid => exact hrest

/-- Nothing is stored, and nothing else is remembered. -/
structure Silent (t : HotTask n) (q : HotTask n × List (HotEffect n)) : Prop where
  lastTracked : q.1.lastTracked = t.lastTracked
  quiet : ∀ ids, HotEffect.storeTracked ids ∉ q.2

/-! ## The first half -/

theorem updateSignal_silent (sqrt : ℚ → ℚ) (cfg : HotConfig n) (t : HotTask n) (r : Reads n) :
    Silent t ((t.updateSignal sqrt cfg r).1, (t.updateSignal sqrt cfg r).2.1) := by
  have hcases := t.updateSignal_cases sqrt cfg r
  generalize t.updateSignal sqrt cfg r = q at hcases ⊢
  cases hcases with
  | noMid => exact ⟨rfl, fun ids h => nomatch h⟩
  | diverged => exact ⟨rfl, by simp [requestResnapshot]⟩
  | updated => exact ⟨rfl, by simp⟩

theorem applied_silent (sqrt : ℚ → ℚ) (cfg : HotConfig n) (t : HotTask n) (msg : OrderBookMsg) (r : Reads n) :
    Silent t ((t.applied sqrt cfg msg r).1, (t.applied sqrt cfg msg r).2.1) := by
  have h := updateSignal_silent sqrt cfg
    { t with book := applyMsg t.book msg
             calculator := if t.book.initialized then t.calculator else t.calculator.reset } r
  refine ⟨h.lastTracked, fun ids hmem => ?_⟩
  rcases List.mem_cons.mp hmem with hmem | hmem
  · cases hmem
  · exact h.quiet ids hmem

theorem receive_silent (sqrt : ℚ → ℚ) (cfg : HotConfig n) (t : HotTask n) (msg : OrderBookMsg) (r : Reads n) :
    Silent t ((t.receive sqrt cfg msg r).1, (t.receive sqrt cfg msg r).2.1) := by
  have hreset : t.takeReset.lastTracked = t.lastTracked := by
    unfold takeReset
    split <;> rfl
  have hcases := t.receive_cases sqrt cfg msg r
  generalize t.receive sqrt cfg msg r = q at hcases ⊢
  cases hcases with
  | snapshot =>
    have h := applied_silent sqrt cfg { t.takeReset with awaitingResnapshot := false } msg r
    exact ⟨h.lastTracked.trans hreset, h.quiet⟩
  | waiting | stale => exact ⟨hreset, fun ids h => nomatch h⟩
  | gap => exact ⟨hreset, by simp [requestResnapshot]⟩
  | delta =>
    have h := applied_silent sqrt cfg t.takeReset msg r
    exact ⟨h.lastTracked.trans hreset, h.quiet⟩

theorem chooseExit_silent (cfg : HotConfig n) (t : HotTask n) (r : Reads n) :
    Silent t ((t.chooseExit cfg r).1, (t.chooseExit cfg r).2.1) := by
  obtain ⟨lastQuote, calculator, maxPosUsd, seen, til, hexit⟩ := chooseExit_eq cfg t r
  refine ⟨?_, fun ids h => nomatch chooseExit_effects cfg t r _ h⟩
  show (t.chooseExit cfg r).1.lastTracked = t.lastTracked
  rw [hexit]

/-! ## The publication -/

/-- **The publication**: whatever was stored before, the ids of the slots are stored and remembered
afterwards. -/
theorem publishTracked_current (t : HotTask n) :
    t.publishTracked.1.lastTracked = t.om.trackedClientIds ∧
      stored t.lastTracked t.publishTracked.2 = t.om.trackedClientIds := by
  unfold publishTracked
  split
  · rename_i heq
    have hsame : t.om.trackedClientIds = t.lastTracked := OrderManager.trackedIdsEqual_iff.mp heq
    exact ⟨hsame.symm, hsame.symm⟩
  · exact ⟨rfl, rfl⟩

/-- `maybe_quote` stores what it remembers; live, the ladder's ids. -/
theorem maybeQuote_stored (cfg : HotConfig n) (t : HotTask n) (r : Reads n) :
    stored t.lastTracked (t.maybeQuote cfg r).2 = (t.maybeQuote cfg r).1.lastTracked ∧
      (cfg.mode = .live → (∃ levels args, (t.chooseExit cfg r).2.2 = .ladder levels args) →
        (t.maybeQuote cfg r).1.lastTracked = (t.maybeQuote cfg r).1.om.trackedClientIds) := by
  obtain ⟨hlast, hquiet⟩ := chooseExit_silent cfg t r
  have hbefore : stored t.lastTracked (t.chooseExit cfg r).2.1 = (t.chooseExit cfg r).1.lastTracked :=
    (stored_eq_self hquiet).trans hlast.symm
  have hsend : ∀ (ids : List ℤ) (batch : Option (List (BatchOp n))),
      stored ids (batch.map HotEffect.sendOps).toList = ids := by
    intro ids batch
    cases batch <;> rfl
  unfold maybeQuote
  simp only
  generalize (t.chooseExit cfg r).2.2 = d
  cases d with
  | throttled | gated | flat =>
    refine ⟨?_, fun _ ⟨levels, args, h⟩ => nomatch h⟩
    rw [stored_append, hsend]
    exact hbefore
  | ladder levels args =>
    set u : HotTask n := { (t.chooseExit cfg r).1 with
      om := ((t.chooseExit cfg r).1.om.cycle r.now (.ladder levels args)).1 }
    obtain ⟨hremembered, hstored⟩ := u.publishTracked_current
    have hboth : stored t.lastTracked ((t.chooseExit cfg r).2.1 ++ u.publishTracked.2) =
        u.publishTracked.1.lastTracked := by
      rw [stored_append, hbefore]
      exact hstored.trans hremembered.symm
    cases hmode : cfg.mode with
    | dryRun => exact ⟨hboth, fun h => nomatch h⟩
    | live =>
      refine ⟨?_, fun _ _ => hremembered.trans (congrArg _ (publishTracked_om u).1.symm)⟩
      simp only
      rw [stored_append, hsend]
      exact hboth

end HotTask

/-! ## Runs -/

/-- The hot task, and the list that the reconcile poller reads. -/
structure PublishedIds (n : ℕ) where
  task : HotTask n
  trackedIds : List ℤ

namespace PublishedIds

def start (sqrt : ℚ → ℚ) (cfg : HotConfig n) (now : Instant) : PublishedIds n := ⟨.new sqrt cfg now, []⟩

def step (sqrt : ℚ → ℚ) (cfg : HotConfig n) (w : PublishedIds n) : HotInput n → Option (PublishedIds n)
  | .orderBook msg r =>
    let q := w.task.onOrderbook sqrt cfg msg r
    some ⟨q.1, HotTask.stored w.trackedIds q.2⟩
  | a => (w.task.step sqrt cfg a).map fun task => { w with task }

variable {sqrt : ℚ → ℚ} {cfg : HotConfig n} {w w' : PublishedIds n}

/-- A message, whether or not the task quotes on it. -/
theorem onOrderbook_stored (t : HotTask n) (msg : OrderBookMsg) (r : Reads n) :
    HotTask.stored t.lastTracked (t.onOrderbook sqrt cfg msg r).2 = (t.onOrderbook sqrt cfg msg r).1.lastTracked := by
  obtain ⟨hlast, hquiet⟩ := HotTask.receive_silent sqrt cfg t msg r
  have hbefore : HotTask.stored t.lastTracked (t.receive sqrt cfg msg r).2.1 =
      (t.receive sqrt cfg msg r).1.lastTracked := (HotTask.stored_eq_self hquiet).trans hlast.symm
  unfold HotTask.onOrderbook
  simp only
  split
  · rw [HotTask.stored_append, hbefore]
    exact (HotTask.maybeQuote_stored cfg _ r).1
  · exact hbefore

theorem step_remembered {a : HotInput n} (h : w.trackedIds = w.task.lastTracked) (hst : w.step sqrt cfg a = some w') :
    w'.trackedIds = w'.task.lastTracked := by
  cases a with
  | orderBook msg r =>
    cases hst
    show HotTask.stored w.trackedIds _ = _
    rw [h]
    exact onOrderbook_stored w.task msg r
  | ticker bestBid bestAsk now =>
    cases hst
    obtain ⟨bbo, hbbo⟩ := w.task.onTicker_eq bestBid bestAsk now
    show w.trackedIds = (w.task.onTicker bestBid bestAsk now).lastTracked
    rw [hbbo]
    exact h
  | disconnect =>
    cases hst
    exact h

/-- In every reachable state the hot task remembers what the poller reads. -/
theorem reach_remembered {now : Instant} (h : Trans.Reach (step sqrt cfg) (start sqrt cfg now) w) :
    w.trackedIds = w.task.lastTracked :=
  h.invariant (I := fun w => w.trackedIds = w.task.lastTracked) rfl fun _ _ _ ih _ hst => step_remembered ih hst

/-- **The published ids are current**: in every run, after a message on which the live task quotes a
ladder, the poller reads the ids of the slots. -/
theorem published_current (hlive : cfg.mode = .live) {now : Instant} {msg : OrderBookMsg} {r : Reads n}
    (h : Trans.Reach (step sqrt cfg) (start sqrt cfg now) w) (hst : w.step sqrt cfg (.orderBook msg r) = some w')
    (hquotes : (w.task.receive sqrt cfg msg r).2.2 = true)
    (hladder : ∃ levels args, ((w.task.receive sqrt cfg msg r).1.chooseExit cfg r).2.2 = .ladder levels args) :
    w'.trackedIds = w'.task.om.trackedClientIds := by
  rw [step_remembered (reach_remembered h) hst]
  cases hst
  have hlast := (HotTask.maybeQuote_stored cfg (w.task.receive sqrt cfg msg r).1 r).2 hlive hladder
  unfold HotTask.onOrderbook
  simp only [hquotes, if_true]
  exact hlast

/-- The second snapshot creates an order on each side. -/
theorem published_current_created : ∃ w : PublishedIds 1, w.trackedIds.length = 2 ∧
    w.trackedIds = w.task.om.trackedClientIds := by
  obtain ⟨w, hw, h⟩ := Option.bind_eq_some_iff.mp
    (show (Trans.run (step id HotTask.quickConfig) (start id HotTask.quickConfig 0)
      [.orderBook HotTask.bookSnapshot (HotTask.flatReads 1 [])]).bind (fun w =>
        (w.step id HotTask.quickConfig (.orderBook HotTask.bookSnapshot (HotTask.flatReads 2 []))).map fun w' =>
          let q := w.task.receive id HotTask.quickConfig HotTask.bookSnapshot (HotTask.flatReads 2 [])
          decide (q.2.2 = true ∧ q.1.throttled HotTask.quickConfig (HotTask.flatReads 2 []).now = false ∧
            HotTask.quickConfig.gated (HotTask.flatReads 2 []) = false ∧
            ¬HotTask.FlatExit HotTask.quickConfig q.1 (HotTask.flatReads 2 []) ∧ w'.trackedIds.length = 2)) =
      some true by decide +kernel)
  obtain ⟨w', hst, h⟩ := Option.map_eq_some_iff.mp h
  obtain ⟨hquotes, hthrottle, hgate, hflat, hlen⟩ := of_decide_eq_true h
  exact ⟨w', hlen, published_current rfl (Trans.reach_iff_run.mpr ⟨_, hw⟩) hst hquotes
    (HotTask.chooseExit_isLadder hthrottle hgate hflat)⟩

end PublishedIds

end LighterMM
