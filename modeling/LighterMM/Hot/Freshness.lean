import LighterMM.Book.Unreadable
import LighterMM.Hot.Readiness

/-!
# Fresh market data and the ladder

The stamp `setMdNow` keeps the dead-man switch off. A call of `on_orderbook` sets it exactly if it takes
its message (`Takes`), but it goes on only with a book that has a mid.

- **Which calls manage the ladder** (`fresh_managed_iff`): one that takes its message re-evaluates the
  ladder or asks for a re-snapshot if and only if each side keeps a level (`KeepsLevel`).
- **A fresh feed with a frozen ladder** (`onOrderbook_quiet`): on a one-sided book a delta without levels
  sets the stamp and leaves the task as it was, whatever is queued, any number of times.
-/

namespace LighterMM

open KeyedList

variable {n : ℕ}

/-! ## A side after a message -/

/-- The side has a level once a message is applied. A snapshot names one of non-zero size; in a delta the
last level of some price has a size, or fewer levels remove the price than the side holds. -/
def BookSide.KeepsLevel (b : BookSide) (asSnapshot : Bool) (levels : List (ℚ × ℚ)) : Prop :=
  if asSnapshot then ∃ l ∈ levels, l.2 ≠ 0
  else ∃ price, (∃ size ∈ (stack levels price).getLast?, size ≠ 0) ∨
    (stack levels price).count 0 < b.prices.count price

namespace BookSide

variable {b : BookSide}

theorem stack_writes (levels : List (ℚ × ℚ)) (price : ℚ) :
    stack (writes levels) price = (stack levels price).map sizeWrite := by
  induction levels with
  | nil => rfl
  | cons l levels ih =>
    have hcons : writes (l :: levels) = (l.1, sizeWrite l.2) :: writes levels := rfl
    rw [hcons, stack_cons, stack_cons, ih]
    split <;> rfl

theorem applySnapshotScratch_ne_nil_iff (levels : List (ℚ × ℚ)) :
    (applySnapshotScratch levels).levels ≠ [] ↔ ∃ l ∈ levels, l.2 ≠ 0 := by
  rw [levels_applySnapshotScratch, ← List.length_pos_iff, List.length_insertionSort, List.length_pos_iff]
  simp [List.filter_eq_nil_iff]

theorem Sorted.upsertAll_ne_nil_iff (h : b.Sorted) (levels : List (ℚ × ℚ)) :
    (b.upsertAll levels).levels ≠ [] ↔ b.KeepsLevel false levels := by
  rw [ne_nil_iff_stack, KeepsLevel, if_neg Bool.false_ne_true]
  refine exists_congr fun price => ?_
  rw [h.stack_upsertAll, foldl_writeTop_ne_nil_iff, stack_writes, length_stack, ← h.prices_eq, List.countP_map]
  refine or_congr ?_ ?_
  · rw [List.getLast?_map]
    cases (stack levels price).getLast? with
    | none => simp
    | some size => by_cases hs : size = 0 <;> simp [sizeWrite, hs]
  · have hzero : (fun v : Option ℚ => v.isNone) ∘ sizeWrite = (· == 0) := by
      funext size
      by_cases hs : size = 0 <;> simp [sizeWrite, hs]
    rw [hzero]
    rfl

end BookSide

/-- A book has a mid if both sides have a level. -/
theorem LocalBook.mid_eq_none_iff (b : LocalBook) : b.mid = none ↔ ∃ sd, (b.side sd).levels = [] := by
  have hbid : b.bestBid = none ↔ (b.side .buy).levels = [] := by
    unfold LocalBook.bestBid BookSide.highest
    rw [Option.map_eq_none_iff, List.getLast?_eq_none_iff]
    rfl
  have hask : b.bestAsk = none ↔ (b.side .sell).levels = [] := by
    unfold LocalBook.bestAsk BookSide.lowest
    rw [Option.map_eq_none_iff, List.head?_eq_none_iff]
    rfl
  have hmid : b.mid = none ↔ b.bestBid = none ∨ b.bestAsk = none := by
    unfold LocalBook.mid
    cases b.bestBid <;> cases b.bestAsk <;> simp
  rw [hmid, hbid, hask]
  constructor
  · rintro (h | h)
    · exact ⟨.buy, h⟩
    · exact ⟨.sell, h⟩
  · rintro ⟨sd, h⟩
    cases sd with
    | buy => exact .inl h
    | sell => exact .inr h

namespace HotTask

variable {sqrt : ℚ → ℚ} {cfg : HotConfig n} {t : HotTask n} {msg : OrderBookMsg} {r : Reads n} {now : Instant}

/-- Both sides of the book keep a level. -/
def KeepsBothSides (b : LocalBook) (msg : OrderBookMsg) : Prop :=
  ∀ sd, (b.side sd).KeepsLevel (msg.toUpdate b).snapshot ((msg.toUpdate b).levels sd)

theorem applyMsg_mid_iff {b : LocalBook} (h : ∀ sd, (b.side sd).Sorted) (msg : OrderBookMsg) :
    (applyMsg b msg).mid ≠ none ↔ KeepsBothSides b msg := by
  rw [Ne, LocalBook.mid_eq_none_iff, not_exists]
  refine forall_congr' fun sd => ?_
  rw [applyMsg_side, LocalBook.side_update]
  cases (msg.toUpdate b).snapshot with
  | true =>
    rw [if_pos rfl, BookSide.KeepsLevel, if_pos rfl]
    exact BookSide.applySnapshotScratch_ne_nil_iff _
  | false =>
    rw [if_neg Bool.false_ne_true]
    exact (h sd).upsertAll_ne_nil_iff _

/-! ## The sides of a task's book -/

def SortedBook (t : HotTask n) : Prop := ∀ sd, (t.book.side sd).Sorted

theorem SortedBook.takeReset (h : t.SortedBook) : t.takeReset.SortedBook := by
  intro sd
  obtain ⟨-, ⟨-, hbook⟩ | ⟨-, heq⟩⟩ := t.takeReset_cases
  · rw [hbook]
    exact (LocalBook.new_isMap sd).sorted
  · rw [heq]
    exact h sd

theorem SortedBook.applyMsg (h : t.SortedBook) (msg : OrderBookMsg) (sd : Side) :
    ((HotTask.applyMsg t.book msg).side sd).Sorted := by
  rw [applyMsg_side]
  exact LocalBook.update_sorted (h sd) _

theorem SortedBook.receive (h : t.SortedBook) : (t.receive sqrt cfg msg r).1.SortedBook := by
  intro sd
  have hspec := t.receive_spec sqrt cfg msg r
  generalize t.receive sqrt cfg msg r = q at hspec ⊢
  cases hspec with
  | waiting _ _ hq =>
    rw [hq]
    exact h.takeReset sd
  | stale _ _ hq =>
    rw [hq]
    exact h.takeReset sd
  | gap _ hbook _ _ _ =>
    rw [hbook]
    exact h.takeReset sd
  | applied _ hbook _ _ =>
    rw [hbook]
    exact h.takeReset.applyMsg msg sd

theorem SortedBook.step {t' : HotTask n} {a : HotInput n} (h : t.SortedBook) (hst : t.step sqrt cfg a = some t') :
    t'.SortedBook := by
  intro sd
  cases a with
  | orderBook msg r =>
    cases hst
    rw [(t.onOrderbook_sameFeed sqrt cfg msg r).1]
    exact h.receive sd
  | ticker bestBid bestAsk now =>
    cases hst
    rw [(t.onTicker_sameFeed bestBid bestAsk now).1]
    exact h sd
  | disconnect =>
    cases hst
    exact h sd

/-- Every run leaves a book with sorted sides. -/
theorem sortedBook_reach (h : Trans.Reach (step sqrt cfg) (new sqrt cfg now) t) : t.SortedBook :=
  h.invariant (fun sd => (LocalBook.new_isMap sd).sorted) fun _ _ _ hs _ hst => hs.step hst

/-! ## One call -/

/-- The message is applied to the book: a snapshot, or a delta that is not ignored and leaves no gap. -/
def Takes (t : HotTask n) (msg : OrderBookMsg) : Prop :=
  msg.isSnapshot = true ∨
    t.awaitingResnapshot = false ∧ staleDelta t.book msg = false ∧ nonceGap t.book msg = false

/-- The call sets the stamp of the market data. -/
def Refreshes (sqrt : ℚ → ℚ) (cfg : HotConfig n) (t : HotTask n) (msg : OrderBookMsg) (r : Reads n) : Prop :=
  .setMdNow ∈ (t.onOrderbook sqrt cfg msg r).2

/-- The call runs `maybe_quote`, which drains the queued events and the pending snapshot before it
chooses an exit. -/
structure Reevaluates (sqrt : ℚ → ℚ) (cfg : HotConfig n) (t : HotTask n) (msg : OrderBookMsg) (r : Reads n) :
    Prop where
  quotes : (t.receive sqrt cfg msg r).2.2 = true
  drained : ((t.receive sqrt cfg msg r).1.chooseExit cfg r).1.om = t.drainedOm r

/-- The call re-evaluates the ladder or asks for a re-snapshot. -/
def Manages (sqrt : ℚ → ℚ) (cfg : HotConfig n) (t : HotTask n) (msg : OrderBookMsg) (r : Reads n) : Prop :=
  t.Reevaluates sqrt cfg msg r ∨ .notifyReconnect ∈ (t.onOrderbook sqrt cfg msg r).2

theorem reevaluates_iff :
    t.Reevaluates sqrt cfg msg r ↔ (t.receive sqrt cfg msg r).2.2 = true := by
  refine ⟨fun h => h.quotes, fun hq => ⟨hq, ?_⟩⟩
  have hom : (t.receive sqrt cfg msg r).1.om = t.om := (receive_frame sqrt msg).om
  rw [chooseExit_om cfg _ r, drainedOm, drainedOm, hom]

/-- The effects of the first half stay. -/
theorem mem_onOrderbook {e : HotEffect n} (h : e ∈ (t.receive sqrt cfg msg r).2.1) :
    e ∈ (t.onOrderbook sqrt cfg msg r).2 := by
  unfold onOrderbook
  simp only
  split
  · exact List.mem_append_left _ h
  · exact h

/-- Without `maybe_quote` there are no other effects. -/
theorem onOrderbook_of_not_quotes (h : (t.receive sqrt cfg msg r).2.2 = false) :
    t.onOrderbook sqrt cfg msg r = ((t.receive sqrt cfg msg r).1, (t.receive sqrt cfg msg r).2.1) := by
  unfold onOrderbook
  simp only [h, Bool.false_eq_true, if_false]

variable (sqrt cfg r) in
/-- A message that is not taken sets no stamp. -/
theorem receive_of_not_takes (h : ¬t.takeReset.Takes msg) :
    .setMdNow ∉ (t.receive sqrt cfg msg r).2.1 ∧ (t.receive sqrt cfg msg r).2.2 = false := by
  have hcases := t.receive_cases sqrt cfg msg r
  generalize t.receive sqrt cfg msg r = q at hcases ⊢
  cases hcases with
  | snapshot hsnap => exact absurd (.inl hsnap) h
  | waiting | stale => exact ⟨List.not_mem_nil, rfl⟩
  | gap => exact ⟨by simp [requestResnapshot], rfl⟩
  | delta _ hw hst hgap => exact absurd (.inr ⟨hw, hst, hgap⟩) h

variable (sqrt cfg r) in
/-- A message that is taken is applied to the book behind the reset. -/
theorem receive_of_takes (h : t.takeReset.Takes msg) :
    ∃ t' : HotTask n, t'.book = t.takeReset.book ∧ t.receive sqrt cfg msg r = t'.applied sqrt cfg msg r := by
  have hcases := t.receive_cases sqrt cfg msg r
  generalize t.receive sqrt cfg msg r = q at hcases ⊢
  cases hcases with
  | snapshot => exact ⟨{ t.takeReset with awaitingResnapshot := false }, rfl, rfl⟩
  | waiting hd hw => simp [Takes, hd, hw] at h
  | stale hd _ hst => simp [Takes, hd, hst] at h
  | gap hd _ _ hgap => simp [Takes, hd, hgap] at h
  | delta => exact ⟨t.takeReset, rfl, rfl⟩

/-- With a mid the signal's update ends in `maybe_quote` or in a re-snapshot, without one in neither. -/
theorem updateSignal_manages_iff :
    (t.updateSignal sqrt cfg r).2.2 = true ∨ .notifyReconnect ∈ (t.updateSignal sqrt cfg r).2.1 ↔
      t.book.mid ≠ none := by
  have hcases := t.updateSignal_cases sqrt cfg r
  generalize t.updateSignal sqrt cfg r = q at hcases ⊢
  cases hcases with
  | noMid hmid => simp [hmid]
  | diverged hmid => exact iff_of_true (.inr List.mem_cons_self) (hmid ▸ Option.some_ne_none _)
  | updated _ hmid => exact iff_of_true (.inl rfl) (hmid ▸ Option.some_ne_none _)

theorem refreshes_iff : t.Refreshes sqrt cfg msg r ↔ t.takeReset.Takes msg := by
  constructor
  · intro h
    by_contra hno
    obtain ⟨hstamp, hquotes⟩ := receive_of_not_takes sqrt cfg r hno
    rw [Refreshes, onOrderbook_of_not_quotes hquotes] at h
    exact hstamp h
  · intro h
    obtain ⟨t', -, heq⟩ := receive_of_takes sqrt cfg r h
    exact mem_onOrderbook (heq ▸ List.mem_cons_self)

/-- A call manages the ladder if its first half ends in `maybe_quote` or in a re-snapshot. -/
theorem manages_iff : t.Manages sqrt cfg msg r ↔
    (t.receive sqrt cfg msg r).2.2 = true ∨ .notifyReconnect ∈ (t.receive sqrt cfg msg r).2.1 := by
  rw [Manages, reevaluates_iff]
  cases hq : (t.receive sqrt cfg msg r).2.2 with
  | true => exact iff_of_true (.inl rfl) (.inl rfl)
  | false => rw [onOrderbook_of_not_quotes hq]

theorem Takes.manages_iff (h : t.takeReset.Takes msg) :
    t.Manages sqrt cfg msg r ↔ (applyMsg t.takeReset.book msg).mid ≠ none := by
  obtain ⟨t', hbook, heq⟩ := receive_of_takes sqrt cfg r h
  rw [HotTask.manages_iff, heq, ← hbook]
  refine Iff.trans (or_congr_right ?_) updateSignal_manages_iff
  -- the stamp is not the request
  exact List.mem_cons.trans (or_iff_right (by simp))

end HotTask

/-! ## Runs -/

/-- A call of `on_orderbook`. -/
structure OrderbookCall (n : ℕ) where
  task : HotTask n
  msg : OrderBookMsg
  reads : Reads n

namespace OrderbookCall

variable {sqrt : ℚ → ℚ} {cfg : HotConfig n}

def Refreshes (sqrt : ℚ → ℚ) (cfg : HotConfig n) (c : OrderbookCall n) : Prop :=
  c.task.Refreshes sqrt cfg c.msg c.reads

def Manages (sqrt : ℚ → ℚ) (cfg : HotConfig n) (c : OrderbookCall n) : Prop :=
  c.task.Manages sqrt cfg c.msg c.reads

def Takes (c : OrderbookCall n) : Prop := c.task.takeReset.Takes c.msg

def KeepsBothSides (c : OrderbookCall n) : Prop := HotTask.KeepsBothSides c.task.takeReset.book c.msg

/-- The call of an input, if it is an order book message. -/
def ofInput (t : HotTask n) : HotInput n → Option (OrderbookCall n)
  | .orderBook msg r => some ⟨t, msg, r⟩
  | _ => none

/-- The calls of a run. -/
def ofRun (sqrt : ℚ → ℚ) (cfg : HotConfig n) : HotTask n → List (HotInput n) → List (OrderbookCall n)
  | _, [] => []
  | t, a :: as =>
    match t.step sqrt cfg a with
    | none => []
    | some t' => (ofInput t a).toList ++ ofRun sqrt cfg t' as

variable {t₀ t : HotTask n} {as : List (HotInput n)} {c : OrderbookCall n}

theorem ofRun_reach (h : Trans.Reach (HotTask.step sqrt cfg) t₀ t) (hc : c ∈ ofRun sqrt cfg t as) :
    Trans.Reach (HotTask.step sqrt cfg) t₀ c.task := by
  induction as generalizing t with
  | nil => cases hc
  | cons a as ih =>
    rw [ofRun] at hc
    cases hst : t.step sqrt cfg a with
    | none =>
      rw [hst] at hc
      cases hc
    | some t' =>
      rw [hst] at hc
      rcases List.mem_append.mp hc with hc | hc
      · cases a with
        | orderBook msg r =>
          rw [List.mem_singleton.mp hc]
          exact h
        | ticker | disconnect => cases hc
      · exact ih (.step a h trivial hst) hc

/-- **Which calls manage the ladder.** In every run from every state of the task, a call that sets the
stamp re-evaluates the ladder or asks for a re-snapshot if and only if the message that it takes leaves
both sides with a level. So a sequence keeps the feed fresh and never re-evaluates the ladder exactly if
every message is taken and leaves a side empty. -/
theorem fresh_managed_iff {now : Instant} (h : Trans.Reach (HotTask.step sqrt cfg) (.new sqrt cfg now) t)
    (as : List (HotInput n)) :
    (∀ c ∈ ofRun sqrt cfg t as, (c.Refreshes sqrt cfg → c.Manages sqrt cfg) ↔ (c.Takes → c.KeepsBothSides)) ∧
    ((∀ c ∈ ofRun sqrt cfg t as, c.Refreshes sqrt cfg ∧ ¬c.Manages sqrt cfg) ↔
      ∀ c ∈ ofRun sqrt cfg t as, c.Takes ∧ ¬c.KeepsBothSides) := by
  have hcall : ∀ c ∈ ofRun sqrt cfg t as,
      ((c.Refreshes sqrt cfg → c.Manages sqrt cfg) ↔ (c.Takes → c.KeepsBothSides)) := by
    intro c hc
    have hsorted := (HotTask.sortedBook_reach (ofRun_reach h hc)).takeReset
    refine imp_congr_ctx HotTask.refreshes_iff fun htakes => ?_
    exact htakes.manages_iff.trans (HotTask.applyMsg_mid_iff hsorted c.msg)
  refine ⟨hcall, forall₂_congr fun c hc => ?_⟩
  rw [← Classical.not_imp, ← Classical.not_imp, hcall c hc]

theorem fresh_managed_iff_resting :
    ∃ t : HotTask 1, Trans.Reach (HotTask.step id HotTask.quickConfig) (.new id HotTask.quickConfig 0) t ∧
      t.om.Cancelable .buy 0 2000000000 1 ∧
      ∀ c ∈ ofRun id HotTask.quickConfig t [.orderBook oneBid (HotTask.flatReads 4 [])],
        (c.Refreshes id HotTask.quickConfig → c.Manages id HotTask.quickConfig) ↔ (c.Takes → c.KeepsBothSides) := by
  obtain ⟨t, ht, h⟩ := Option.map_eq_some_iff.mp
    (show (Trans.run (HotTask.step id HotTask.quickConfig) (.new id HotTask.quickConfig 0)
        HotTask.restingLadder).map (fun t => decide (t.om.Cancelable .buy 0 2000000000 1)) = some true by
      decide +kernel)
  have hreach : Trans.Reach (HotTask.step id HotTask.quickConfig) (.new id HotTask.quickConfig 0) t :=
    Trans.reach_iff_run.mpr ⟨_, ht⟩
  exact ⟨t, hreach, of_decide_eq_true h, (fresh_managed_iff hreach _).1⟩

end OrderbookCall

/-! ## A one-sided book -/

namespace HotTask

variable {sqrt : ℚ → ℚ} {cfg : HotConfig n} {t : HotTask n} {r : Reads n}

/-- A delta without levels. -/
def quietDelta : OrderBookMsg := ⟨false, none, none, none, ⟨[], [], none, none, none⟩⟩

theorem receive_quiet (hreset : t.resetFlag = false) (hwait : t.awaitingResnapshot = false)
    (hinit : t.book.initialized = true) (hmid : t.book.mid = none) (r : Reads n) :
    t.receive sqrt cfg quietDelta r = (t, [.setMdNow], false) := by
  have htake : t.takeReset = t := by
    unfold takeReset
    simp only [hreset, Bool.false_eq_true, if_false]
  have hbook : applyMsg t.book quietDelta = t.book := by
    unfold applyMsg
    simp only [hinit]
    rfl
  unfold receive
  simp only [htake, hwait]
  show t.applied sqrt cfg quietDelta r = _
  unfold applied
  simp only [hbook, hinit, if_true]
  unfold updateSignal
  rw [hmid]

/-- **On a one-sided book a quiet delta sets the stamp, and that is all.** -/
theorem onOrderbook_quiet (h : t.receive sqrt cfg quietDelta r = (t, [.setMdNow], false)) :
    t.onOrderbook sqrt cfg quietDelta r = (t, [.setMdNow]) ∧ ¬t.Manages sqrt cfg quietDelta r := by
  rw [manages_iff, onOrderbook_of_not_quotes (congrArg (·.2.2) h), h]
  exact ⟨rfl, by simp⟩

/-- The bid of a ladder rests, and then the asks of the book are gone. -/
def asksGone : List (HotInput 1) := restingLadder ++ [.orderBook oneBid (flatReads 4 [])]

/-- **A fresh feed with a frozen ladder**: with an order resting, quiet deltas set the stamp and do
nothing else, whatever they read. -/
theorem fresh_feed_frozen :
    ∃ t : HotTask 1, Trans.Reach (step id quickConfig) (new id quickConfig 0) t ∧
      t.om.Cancelable .buy 0 2000000000 1 ∧
      ∀ r, t.onOrderbook id quickConfig quietDelta r = (t, [.setMdNow]) ∧ ¬t.Manages id quickConfig quietDelta r := by
  obtain ⟨t, ht, h⟩ := Option.map_eq_some_iff.mp
    (show (Trans.run (step id quickConfig) (new id quickConfig 0) asksGone).map (fun t =>
        decide (t.om.Cancelable .buy 0 2000000000 1 ∧ t.resetFlag = false ∧ t.awaitingResnapshot = false ∧
          t.book.initialized = true ∧ t.book.mid = none)) = some true by decide +kernel)
  obtain ⟨hc, hreset, hwait, hinit, hmid⟩ := of_decide_eq_true h
  exact ⟨t, Trans.reach_iff_run.mpr ⟨_, ht⟩, hc, fun r => onOrderbook_quiet (receive_quiet hreset hwait hinit hmid r)⟩

/-- **The feed stays fresh and the ladder is not managed.** -/
theorem fresh_feed_unmanaged :
    ¬ ∀ (t : HotTask 1) (msg : OrderBookMsg) (r : Reads 1),
      Trans.Reach (step id quickConfig) (new id quickConfig 0) t →
      t.Refreshes id quickConfig msg r → t.Manages id quickConfig msg r := by
  intro hall
  obtain ⟨t, ht, -, hquiet⟩ := fresh_feed_frozen
  obtain ⟨heq, hno⟩ := hquiet (flatReads 5 [])
  refine hno (hall t quietDelta (flatReads 5 []) ht ?_)
  rw [Refreshes, heq]
  exact List.mem_cons_self

end HotTask

end LighterMM
