import LighterMM.Hot.Cycle
import LighterMM.Lib.Trans

/-!
# Order events that come twice or late

- **Own fills** (`account_all` handler of `orchestrator.rs`): every delivered trade of the account
  becomes a `Fill` event. The PnL actor skips a trade id it has seen, this handler does not.
  `replayed_fills_harmless_iff` says for which slots a replay changes nothing.
- **Late confirmations**: `BindLive` has no id guard, so it displaces whatever its slot tracks
  (`late_bind_displaces`).
-/

namespace LighterMM

/-- The `Fill` events of one trade for account `acct`: the ask side, then the bid side. -/
def tradeFills (n : ℕ) (acct : ℤ) (t : TradePayload) : List (OrderEvent n) :=
  let size := t.sizeF64.getD 0
  if size ≤ 0 then []
  else
    (if t.askAccountId = some acct then (t.askClientId.map (OrderEvent.fill · size)).toList else []) ++
      if t.bidAccountId = some acct then (t.bidClientId.map (OrderEvent.fill · size)).toList else []

/-- The events of the trades that a sequence of `account_all` messages delivers for the market. -/
def accountAllFills (n : ℕ) (acct : ℤ) (trades : List TradePayload) : List (OrderEvent n) :=
  trades.flatMap (tradeFills n acct)

/-- Each distinct trade id once, its first delivery; `seen` are the ids before. -/
def distinctTrades : List ℤ → List TradePayload → List TradePayload
  | _, [] => []
  | seen, t :: ts =>
    match t.tradeId with
    | none => t :: distinctTrades seen ts
    | some id => if id ∈ seen then distinctTrades seen ts else t :: distinctTrades (id :: seen) ts

/-- The deliveries of a trade id after its first. -/
def replayedTrades : List ℤ → List TradePayload → List TradePayload
  | _, [] => []
  | seen, t :: ts =>
    match t.tradeId with
    | none => replayedTrades seen ts
    | some id => if id ∈ seen then t :: replayedTrades seen ts else replayedTrades (id :: seen) ts

/-- The filled sizes for one client id. -/
def fillsOf {n : ℕ} (cid : ℤ) (evts : List (OrderEvent n)) : List ℚ :=
  evts.filterMap fun
    | .fill c f => if c = cid then some f else none
    | _ => none

/-- The fills use up a slot of that size (any fill uses up a slot without one). -/
def Spent (amountTick : ℚ) (size : Option ℚ) (fills : List ℚ) : Prop :=
  fills ≠ [] ∧ ∀ z, size = some z → z - fills.sum ≤ max amountTick epsilon

namespace OrderManager

variable {n : ℕ} {om : OrderManager n} {now : Instant} {cid : ℤ} {k : Side × Fin n}

/-- A slot with a key. -/
def slotOf (om : OrderManager n) (k : Side × Fin n) : OrderSlot := om.slot k.1 k.2

/-- No other slot tracks the order of slot `k`. -/
def OnlySlot (om : OrderManager n) (k : Side × Fin n) (cid : ℤ) : Prop :=
  ∀ k', (om.slotOf k').orderId = some cid → k' = k

/-- No order is tracked by two slots. -/
def TrackedDistinct (om : OrderManager n) : Prop :=
  ∀ k cid, (om.slotOf k).orderId = some cid → om.OnlySlot k cid

/-- Replays are harmless for every slot: there is none for its order, or the distinct fills use up
the order by themselves. -/
def ReplayHarmless (om : OrderManager n) (acct : ℤ) (trades : List TradePayload) : Prop :=
  ∀ k cid, (om.slotOf k).orderId = some cid →
    fillsOf cid (accountAllFills n acct (replayedTrades [] trades)) = [] ∨
      om.OnlySlot k cid ∧
        Spent om.amountTick (om.slotOf k).size
          (fillsOf cid (accountAllFills n acct (distinctTrades [] trades)))

/-! ## Fills -/

@[simp] theorem fillsOf_cons_fill {c : ℤ} {f : ℚ} {evts : List (OrderEvent n)} :
    fillsOf cid (.fill c f :: evts) = if c = cid then f :: fillsOf cid evts else fillsOf cid evts := by
  unfold fillsOf
  rw [List.filterMap_cons]
  by_cases h : c = cid <;> simp [h]

theorem fillsOf_append (as bs : List (OrderEvent n)) :
    fillsOf cid (as ++ bs) = fillsOf cid as ++ fillsOf cid bs := List.filterMap_append

/-- The events of a list are all fills. -/
def AllFills (evts : List (OrderEvent n)) : Prop := ∀ e ∈ evts, ∃ c f, e = .fill c f ∧ 0 < f

theorem accountAllFills_allFills (acct : ℤ) (trades : List TradePayload) :
    AllFills (accountAllFills n acct trades) := by
  intro e he
  obtain ⟨t, -, het⟩ := List.mem_flatMap.mp he
  unfold tradeFills at het
  simp only at het
  split at het
  · cases het
  · rename_i hpos
    have hopt : ∀ o : Option ℤ, e ∈ (o.map (OrderEvent.fill · (t.sizeF64.getD 0))).toList →
        ∃ c f, e = .fill c f ∧ 0 < f := by
      intro o ho
      rw [Option.mem_toList, Option.map_eq_some_iff] at ho
      obtain ⟨c, -, rfl⟩ := ho
      exact ⟨c, _, rfl, not_le.mp hpos⟩
    rcases List.mem_append.mp het with h | h <;> split at h
    · exact hopt _ h
    · cases h
    · exact hopt _ h
    · cases h

theorem fillsOf_pos {evts : List (OrderEvent n)} (h : AllFills evts) :
    ∀ f ∈ fillsOf cid evts, 0 < f := by
  intro f hf
  obtain ⟨e, he, hef⟩ := List.mem_filterMap.mp hf
  obtain ⟨c, g, rfl, hg⟩ := h e he
  simp only at hef
  split at hef
  · cases hef
    exact hg
  · cases hef

theorem filledSlot_orderId (tick : ℚ) (now : Instant) (f : ℚ) (s : OrderSlot) :
    (filledSlot tick now f s).orderId = s.orderId ∨ (filledSlot tick now f s).orderId = none := by
  unfold filledSlot
  split
  · split
    · exact .inl rfl
    · exact .inr rfl
  · exact .inr rfl

/-- A fill touches one slot at most, one that tracks its order. -/
theorem applyFill_at (om : OrderManager n) (now : Instant) (c : ℤ) (f : ℚ) (k : Side × Fin n) :
    (om.applyFill now c f).slotOf k = om.slotOf k ∨
      (om.slotOf k).orderId = some c ∧ om.findSlot c = some k ∧
        (om.applyFill now c f).slotOf k = filledSlot om.amountTick now f (om.slotOf k) := by
  unfold applyFill
  cases hfind : om.findSlot c with
  | none => exact .inl rfl
  | some k₀ =>
    by_cases hk : k = k₀
    · subst hk
      have htrack := List.find?_some hfind
      simp only [decide_eq_true_eq] at htrack
      exact .inr ⟨htrack, rfl, slot_setSlot_self _⟩
    · refine .inl (slot_setSlot_ne _ fun h => hk ?_)
      exact Prod.ext h.1 h.2

@[simp] theorem applyFill_tick (c : ℤ) (f : ℚ) : (om.applyFill now c f).amountTick = om.amountTick := by
  unfold applyFill
  split <;> rfl

theorem findSlot_of_tracked (h : (om.slotOf k).orderId = some cid) : ∃ k₀, om.findSlot cid = some k₀ := by
  rw [← Option.isSome_iff_exists, findSlot, List.find?_isSome]
  exact ⟨k, mem_slotKeys k.1 k.2, decide_eq_true h⟩

theorem findSlot_tracks {k₀ : Side × Fin n} (h : om.findSlot cid = some k₀) :
    (om.slotOf k₀).orderId = some cid := by
  have := List.find?_some h
  simp only [decide_eq_true_eq] at this
  exact this

theorem applyFill_untracked (hk : (om.slotOf k).orderId = none) (c : ℤ) (f : ℚ) :
    (om.applyFill now c f).slotOf k = om.slotOf k := by
  rcases applyFill_at om now c f k with hsame | ⟨hid, -⟩
  · exact hsame
  · rw [hk] at hid
    cases hid

/-- Fills leave a slot alone that tracks nothing. -/
theorem drainFills_untracked {evts : List (OrderEvent n)} (h : AllFills evts)
    (hk : (om.slotOf k).orderId = none) : (om.drainEvents now evts).slotOf k = om.slotOf k := by
  induction evts generalizing om with
  | nil => rfl
  | cons e evts ih =>
    obtain ⟨c, f, rfl, -⟩ := h e List.mem_cons_self
    have hsame : (om.applyFill now c f).slotOf k = om.slotOf k := applyFill_untracked hk c f
    show ((om.applyFill now c f).drainEvents now evts).slotOf k = _
    rw [ih (fun e he => h e (List.mem_cons_of_mem _ he)) (by rw [hsame]; exact hk), hsame]

/-- A fill moves no order into another slot. -/
theorem OnlySlot.applyFill (h : om.OnlySlot k cid) (now : Instant) (c : ℤ) (f : ℚ) :
    (om.applyFill now c f).OnlySlot k cid := by
  intro k' hk'
  apply h
  rcases applyFill_at om now c f k' with h' | ⟨-, -, h'⟩
  · rwa [h'] at hk'
  · rw [h'] at hk'
    rcases filledSlot_orderId om.amountTick now f (om.slotOf k') with hid | hid
    · rwa [hid] at hk'
    · rw [hid] at hk'
      cases hk'

/-- A fill of an order goes to its only slot. -/
theorem OnlySlot.applyFill_slot (h : om.OnlySlot k cid) (hk : (om.slotOf k).orderId = some cid)
    (now : Instant) (f : ℚ) :
    (om.applyFill now cid f).slotOf k = filledSlot om.amountTick now f (om.slotOf k) := by
  obtain ⟨k₀, hfind⟩ := findSlot_of_tracked hk
  obtain rfl : k₀ = k := h k₀ (findSlot_tracks hfind)
  unfold OrderManager.applyFill
  rw [hfind]
  exact slot_setSlot_self _

/-- The first of some fills leaves more than the tolerance: they use the order up if the others use up
what it leaves. -/
theorem spent_cons {tick z f : ℚ} {fills : List ℚ} (hr : max tick epsilon < z - f) :
    Spent tick (some z) (f :: fills) ↔ Spent tick (some (z - f)) fills := by
  simp only [Spent, ne_eq, reduceCtorEq, not_false_eq_true, true_and, Option.some.injEq, forall_eq',
    List.sum_cons]
  rw [show z - (f + fills.sum) = z - f - fills.sum by ring]
  constructor
  · intro hle
    refine ⟨fun hnil => ?_, hle⟩
    rw [hnil, List.sum_nil] at hle
    linarith
  · exact And.right

/-- **The fills of one order on its only slot**: the slot shrinks by their sum, or is idle once they
use it up. -/
theorem drainFills_only {evts : List (OrderEvent n)} (now : Instant) (h : AllFills evts)
    (hk : (om.slotOf k).orderId = some cid) (honly : om.OnlySlot k cid) :
    (Spent om.amountTick (om.slotOf k).size (fillsOf cid evts) →
      (om.drainEvents now evts).slotOf k = .idle now) ∧
    (¬Spent om.amountTick (om.slotOf k).size (fillsOf cid evts) →
      ((om.drainEvents now evts).slotOf k).orderId = some cid ∧
      ((om.drainEvents now evts).slotOf k).size =
        (om.slotOf k).size.map (· - (fillsOf cid evts).sum)) := by
  induction evts generalizing om with
  | nil =>
    refine ⟨fun hs => absurd rfl hs.1, fun _ => ⟨hk, ?_⟩⟩
    show (om.slotOf k).size = _
    cases (om.slotOf k).size <;> simp [fillsOf]
  | cons e evts ih =>
    obtain ⟨c, f, rfl, hf⟩ := h e List.mem_cons_self
    have hrest : AllFills evts := fun e he => h e (List.mem_cons_of_mem _ he)
    have honly' : (om.applyFill now c f).OnlySlot k cid := honly.applyFill now c f
    show (_ → ((om.applyFill now c f).drainEvents now evts).slotOf k = _) ∧
      (_ → (((om.applyFill now c f).drainEvents now evts).slotOf k).orderId = _ ∧
        (((om.applyFill now c f).drainEvents now evts).slotOf k).size = _)
    rw [fillsOf_cons_fill]
    by_cases hc : c = cid
    · subst hc
      rw [if_pos rfl]
      have hslot := honly.applyFill_slot hk now f
      have hsum : 0 ≤ (fillsOf c evts).sum :=
        List.sum_nonneg fun g hg => (fillsOf_pos hrest g hg).le
      cases hz : (om.slotOf k).size with
      | none =>
        have hidle : filledSlot om.amountTick now f (om.slotOf k) = .idle now := by
          simp [filledSlot, hz]
        refine ⟨fun _ => ?_, fun hn => absurd ⟨by simp, by simp⟩ hn⟩
        rw [drainFills_untracked hrest (by rw [hslot, hidle]; rfl), hslot, hidle]
      | some z =>
        by_cases hr : max om.amountTick epsilon < z - f
        · have hshrunk : filledSlot om.amountTick now f (om.slotOf k) =
              { om.slotOf k with size := some (z - f), updatedAt := now, miss := 0 } := by
            simp [filledSlot, hz, hr]
          have hih := ih hrest (by rw [hslot, hshrunk]; exact hk) honly'
          rw [hslot, hshrunk, applyFill_tick] at hih
          rw [spent_cons hr]
          refine ⟨hih.1, fun hn => ⟨(hih.2 hn).1, ?_⟩⟩
          rw [(hih.2 hn).2]
          simp only [Option.map_some, List.sum_cons, Option.some.injEq]
          ring
        · have hidle : filledSlot om.amountTick now f (om.slotOf k) = .idle now := by
            simp [filledSlot, hz, hr]
          refine ⟨fun _ => ?_, fun hn => absurd ⟨by simp, ?_⟩ hn⟩
          · rw [drainFills_untracked hrest (by rw [hslot, hidle]; rfl), hslot, hidle]
          · intro z' hz'
            cases hz'
            rw [List.sum_cons]
            linarith
    · rw [if_neg hc]
      have hslot : (om.applyFill now c f).slotOf k = om.slotOf k := by
        rcases applyFill_at om now c f k with h' | ⟨h', -⟩
        · exact h'
        · rw [hk] at h'
          exact absurd (Option.some.inj h').symm hc
      have hih := ih hrest (by rw [hslot]; exact hk) honly'
      rwa [hslot, applyFill_tick] at hih

/-! ## Fills of other orders -/

/-- Two states that agree on the slots `K`, the only ones that may track `cid`. -/
structure Agree (cid : ℤ) (K : Side × Fin n → Prop) (om₁ om₂ : OrderManager n) : Prop where
  tick : om₁.amountTick = om₂.amountTick
  inside : ∀ k, K k → om₁.slotOf k = om₂.slotOf k ∧
    ((om₁.slotOf k).orderId = some cid ∨ (om₁.slotOf k).orderId = none)
  outside : ∀ k, ¬K k → (om₁.slotOf k).orderId ≠ some cid ∧ (om₂.slotOf k).orderId ≠ some cid

/-- A fill of another order on one side. -/
theorem Agree.fill_other {K : Side × Fin n → Prop} {om₁ om₂ : OrderManager n} {c : ℤ} {f : ℚ}
    (h : Agree cid K om₁ om₂) (hc : c ≠ cid) : Agree cid K (om₁.applyFill now c f) om₂ where
  tick := (applyFill_tick c f).trans h.tick
  inside k hk := by
    have hsame : (om₁.applyFill now c f).slotOf k = om₁.slotOf k := by
      rcases applyFill_at om₁ now c f k with h' | ⟨h', -⟩
      · exact h'
      · rcases (h.inside k hk).2 with hid | hid <;> rw [hid] at h'
        · exact absurd (Option.some.inj h').symm hc
        · cases h'
    rw [hsame]
    exact h.inside k hk
  outside k hk := by
    refine ⟨?_, (h.outside k hk).2⟩
    rcases applyFill_at om₁ now c f k with h' | ⟨hid, -, h'⟩
    · rw [h']
      exact (h.outside k hk).1
    · rw [h']
      rcases filledSlot_orderId om₁.amountTick now f (om₁.slotOf k) with h'' | h'' <;> rw [h'']
      · exact (h.outside k hk).1
      · simp

/-- The same fill of `cid` on both sides. -/
theorem Agree.fill_same {K : Side × Fin n → Prop} {om₁ om₂ : OrderManager n} {f : ℚ}
    (h : Agree cid K om₁ om₂) : Agree cid K (om₁.applyFill now cid f) (om₂.applyFill now cid f) := by
  have hfind : om₁.findSlot cid = om₂.findSlot cid := by
    unfold findSlot
    congr 1
    funext k
    have hiff : (om₁.slotOf k).orderId = some cid ↔ (om₂.slotOf k).orderId = some cid := by
      by_cases hk : K k
      · rw [(h.inside k hk).1]
      · exact iff_of_false (h.outside k hk).1 (h.outside k hk).2
    exact decide_eq_decide.mpr hiff
  have hat : ∀ om : OrderManager n, ∀ k, (om.applyFill now cid f).slotOf k =
      if om.findSlot cid = some k then filledSlot om.amountTick now f (om.slotOf k)
      else om.slotOf k := by
    intro om k
    unfold applyFill
    cases hf : om.findSlot cid with
    | none => simp
    | some k₀ =>
      by_cases hk : k = k₀
      · subst hk
        rw [if_pos rfl]
        exact slot_setSlot_self _
      · rw [if_neg fun he => hk (Option.some.inj he).symm]
        exact slot_setSlot_ne _ fun h => hk (Prod.ext h.1 h.2)
  constructor
  · rw [applyFill_tick, applyFill_tick, h.tick]
  · intro k hk
    obtain ⟨heq, hid⟩ := h.inside k hk
    rw [hat, hat, hfind, heq, h.tick]
    refine ⟨rfl, ?_⟩
    rw [heq] at hid
    split
    · rcases filledSlot_orderId om₂.amountTick now f (om₂.slotOf k) with h' | h' <;> rw [h']
      · exact hid
      · exact .inr rfl
    · exact hid
  · intro k hk
    have hne : ∀ om : OrderManager n, (om.slotOf k).orderId ≠ some cid →
        ((om.applyFill now cid f).slotOf k).orderId ≠ some cid := by
      intro om hid
      rw [hat]
      rw [if_neg fun hf => hid (findSlot_tracks hf)]
      exact hid
    exact ⟨hne om₁ (h.outside k hk).1, hne om₂ (h.outside k hk).2⟩

/-- Only the fills of `cid` matter for the slots that may track it. -/
theorem Agree.drainFills {K : Side × Fin n → Prop} {om₁ om₂ : OrderManager n}
    {evts : List (OrderEvent n)} (now : Instant) (h : Agree cid K om₁ om₂) (hf : AllFills evts) :
    Agree cid K (om₁.drainEvents now evts)
      (om₂.drainEvents now ((fillsOf cid evts).map (OrderEvent.fill cid))) := by
  induction evts generalizing om₁ om₂ with
  | nil => exact h
  | cons e evts ih =>
    obtain ⟨c, f, rfl, -⟩ := hf e List.mem_cons_self
    have hrest : AllFills evts := fun e he => hf e (List.mem_cons_of_mem _ he)
    rw [fillsOf_cons_fill]
    by_cases hc : c = cid
    · subst hc
      rw [if_pos rfl]
      exact ih h.fill_same hrest
    · rw [if_neg hc]
      exact ih (h.fill_other hc) hrest

/-- Two lists of fills with the same fills of an order leave its slots the same. -/
theorem drainFills_congr {as bs : List (OrderEvent n)} (ha : AllFills as) (hb : AllFills bs)
    (hfills : fillsOf cid as = fillsOf cid bs) (hk : (om.slotOf k).orderId = some cid) :
    (om.drainEvents now as).slotOf k = (om.drainEvents now bs).slotOf k := by
  have hself : Agree cid (fun k => (om.slotOf k).orderId = some cid) om om :=
    ⟨rfl, fun _ h => ⟨rfl, .inl h⟩, fun _ h => ⟨h, h⟩⟩
  have h₁ := ((Agree.drainFills now hself ha).inside k hk).1
  have h₂ := ((Agree.drainFills now hself hb).inside k hk).1
  rw [h₁, h₂, hfills]

/-! ## Replays -/

theorem fillsOf_accountAll_cons (acct : ℤ) (t : TradePayload) (ts : List TradePayload) :
    fillsOf cid (accountAllFills n acct (t :: ts)) =
      fillsOf cid (tradeFills n acct t) ++ fillsOf cid (accountAllFills n acct ts) := by
  unfold accountAllFills
  rw [List.flatMap_cons, fillsOf_append]

/-- The fills of all deliveries are those of the distinct trades and of the replays. -/
theorem fills_split (cid acct : ℤ) (seen : List ℤ) (trades : List TradePayload) :
    (fillsOf cid (accountAllFills n acct trades)).Perm
      (fillsOf cid (accountAllFills n acct (distinctTrades seen trades)) ++
        fillsOf cid (accountAllFills n acct (replayedTrades seen trades))) := by
  induction trades generalizing seen with
  | nil => exact .refl _
  | cons t ts ih =>
    rw [fillsOf_accountAll_cons]
    unfold distinctTrades replayedTrades
    split
    · rw [fillsOf_accountAll_cons, List.append_assoc]
      exact (ih seen).append_left _
    · rename_i id _
      split
      · rw [fillsOf_accountAll_cons]
        refine ((ih seen).append_left _).trans ?_
        rw [← List.append_assoc, ← List.append_assoc]
        exact List.perm_append_comm.append_right _
      · rw [fillsOf_accountAll_cons, List.append_assoc]
        exact (ih (id :: seen)).append_left _

/-- Without replays of an order the two lists have the same fills of it, in the same order. -/
theorem fills_distinct_of_no_replay (acct : ℤ) (seen : List ℤ) (trades : List TradePayload)
    (h : fillsOf cid (accountAllFills n acct (replayedTrades seen trades)) = []) :
    fillsOf cid (accountAllFills n acct trades) =
      fillsOf cid (accountAllFills n acct (distinctTrades seen trades)) := by
  induction trades generalizing seen with
  | nil => rfl
  | cons t ts ih =>
    unfold replayedTrades at h
    unfold distinctTrades
    split at h
    · rw [fillsOf_accountAll_cons, fillsOf_accountAll_cons, ih seen h]
    · rename_i id _
      split at h
      · rename_i hmem
        rw [fillsOf_accountAll_cons, List.append_eq_nil_iff] at h
        rw [fillsOf_accountAll_cons, h.1, List.nil_append]
        simp only [if_pos hmem]
        exact ih seen h.2
      · rename_i hmem
        simp only [if_neg hmem]
        rw [fillsOf_accountAll_cons, fillsOf_accountAll_cons, ih (id :: seen) h]

theorem replays_spent {tick : ℚ} {size : Option ℚ} (acct : ℤ) (trades : List TradePayload)
    (h : Spent tick size (fillsOf cid (accountAllFills n acct (distinctTrades [] trades)))) :
    Spent tick size (fillsOf cid (accountAllFills n acct trades)) := by
  have hperm := fills_split (n := n) cid acct [] trades
  have hpos : 0 ≤ (fillsOf cid (accountAllFills n acct (replayedTrades [] trades))).sum :=
    List.sum_nonneg fun g hg => (fillsOf_pos (accountAllFills_allFills acct _) g hg).le
  obtain ⟨hne, hle⟩ := h
  refine ⟨fun hnil => hne ?_, fun z hz => ?_⟩
  · rw [hnil] at hperm
    exact (List.append_eq_nil_iff.mp hperm.symm.eq_nil).1
  · have := hle z hz
    rw [hperm.sum_eq, List.sum_append]
    linarith

/-- All deliveries leave the slots that each distinct trade once leaves. -/
def ReplayUnseen (om : OrderManager n) (now : Instant) (acct : ℤ) (trades : List TradePayload) : Prop :=
  (om.drainEvents now (accountAllFills n acct trades)).slots =
    (om.drainEvents now (accountAllFills n acct (distinctTrades [] trades))).slots

/-- **Replayed trades** in a sequence of `account_all` messages change no slot if they are harmless
for every slot; and if no order is tracked by two slots, only then. -/
theorem replayed_fills_harmless_iff (om : OrderManager n) (now : Instant) (acct : ℤ)
    (msgs : List (List TradePayload)) :
    (om.ReplayHarmless acct msgs.flatten → om.ReplayUnseen now acct msgs.flatten) ∧
    (om.TrackedDistinct → om.ReplayUnseen now acct msgs.flatten →
      om.ReplayHarmless acct msgs.flatten) := by
  have hall := accountAllFills_allFills (n := n) acct msgs.flatten
  have hdis := accountAllFills_allFills (n := n) acct (distinctTrades [] msgs.flatten)
  constructor
  · intro hharm
    funext side level
    show (drainEvents om now _).slotOf (side, level) = (drainEvents om now _).slotOf (side, level)
    cases hid : (om.slotOf (side, level)).orderId with
    | none => rw [drainFills_untracked hall hid, drainFills_untracked hdis hid]
    | some cid =>
      rcases hharm (side, level) cid hid with hnone | ⟨honly, hspent⟩
      · exact drainFills_congr hall hdis (fills_distinct_of_no_replay acct [] _ hnone) hid
      · rw [(drainFills_only now hall hid honly).1 (replays_spent acct _ hspent),
          (drainFills_only now hdis hid honly).1 hspent]
  · intro hdist hsame k cid hid
    have hk : (om.drainEvents now (accountAllFills n acct msgs.flatten)).slotOf k =
        (om.drainEvents now (accountAllFills n acct (distinctTrades [] msgs.flatten))).slotOf k :=
      congrFun (congrFun hsame k.1) k.2
    have honly := hdist k cid hid
    obtain ⟨hallS, hallN⟩ := drainFills_only now hall hid honly
    obtain ⟨-, hdisN⟩ := drainFills_only now hdis hid honly
    by_contra hcon
    rw [not_or, not_and] at hcon
    obtain ⟨hreplay, hns⟩ := hcon
    obtain ⟨hdid, hdsize⟩ := hdisN (hns honly)
    -- The distinct fills leave the order in its slot, so the slots differ in the order's size.
    by_cases hs : Spent om.amountTick (om.slotOf k).size (fillsOf cid (accountAllFills n acct msgs.flatten))
    · rw [← hk, hallS hs] at hdid
      cases hdid
    · obtain ⟨-, hsize⟩ := hallN hs
      rw [hk, hdsize] at hsize
      cases hz : (om.slotOf k).size with
      | none =>
        refine hs ⟨fun hnil => hreplay ?_, fun z h => by rw [hz] at h; cases h⟩
        have hperm := fills_split (n := n) cid acct [] msgs.flatten
        rw [hnil] at hperm
        exact (List.append_eq_nil_iff.mp hperm.symm.eq_nil).2
      | some z =>
        rw [hz] at hsize
        simp only [Option.map_some, Option.some.injEq] at hsize
        rw [(fills_split (n := n) cid acct [] msgs.flatten).sum_eq, List.sum_append] at hsize
        have hpos : 0 < (fillsOf cid (accountAllFills n acct (replayedTrades [] msgs.flatten))).sum :=
          List.sum_pos _ (fillsOf_pos (accountAllFills_allFills acct _)) hreplay
        linarith

/-- A resting bid of size `3`, order `5`. -/
def bidOfThree : OrderManager 1 :=
  (OrderManager.new 1 (1 / 100) 0).applyEvent 0 (.bindLive .buy 0 5 (some 9) 100 3)

/-- A trade of size `1` in which the account `7` bought with order `5`. -/
def tradeOfOne : TradePayload := ⟨some (some 1), some 40, some 5, some 8, some 7, some 77⟩

/-- **A replayed partial fill is booked twice**: the bid of size `3` shrinks to `1`, not to `2`. -/
theorem replayed_fill_booked_twice :
    ¬ ∀ (om : OrderManager 1) (now : Instant) (acct : ℤ) (msgs : List (List TradePayload)),
      om.ReplayUnseen now acct msgs.flatten := by
  intro h
  have hslots := h bidOfThree 1 7 [[tradeOfOne], [tradeOfOne]]
  have hsize : ∀ om om' : OrderManager 1, om.slots = om'.slots →
      (om.slots .buy 0).size = (om'.slots .buy 0).size := by
    intro om om' heq
    rw [heq]
  exact absurd (hsize _ _ hslots) (by decide +kernel)

/-! ## Late confirmations -/

/-- What the hot task does to its order manager: it drains an event, applies a snapshot, or runs a
quote cycle. -/
inductive OmAct (n : ℕ) where
  | event (now : Instant) (e : OrderEvent n)
  | snapshot (now : Instant) (remote : List RemoteOrder)
  | cycle (now : Instant) (d : Decision n)

def omStep (om : OrderManager n) : OmAct n → Option (OrderManager n)
  | .event now e => some (om.applyEvent now e)
  | .snapshot now remote => some (om.processReconcile now remote)
  | .cycle now d => some (om.cycle now d).1

/-- **A confirmation displaces whatever its slot tracks**: after a `BindLive` for `X` on a slot that
tracks another order `Y`, the slot tracks `X`, and if no other slot tracked `Y`, none does now. -/
theorem late_bind_displaces (om : OrderManager n) (now : Instant) (side : Side) (level : Fin n)
    (X Y : ℤ) (eid : Option ℤ) (price size : ℚ) (_hY : (om.slot side level).orderId = some Y)
    (hXY : X ≠ Y) :
    let om' := om.applyEvent now (.bindLive side level X eid price size)
    (om'.slot side level).orderId ≠ some Y ∧
      (om.OnlySlot (side, level) Y → ∀ k, (om'.slotOf k).orderId ≠ some Y) := by
  have hbound : ((om.applyEvent now (.bindLive side level X eid price size)).slot side level).orderId =
      some X := by
    rw [applyEvent_bindLive, if_pos ⟨rfl, rfl⟩]
    rfl
  have hdis : ((om.applyEvent now (.bindLive side level X eid price size)).slot side level).orderId ≠
      some Y := by
    rw [hbound]
    exact fun h => hXY (Option.some.inj h)
  refine ⟨hdis, fun honly k hk => ?_⟩
  by_cases hkey : k.1 = side ∧ k.2 = level
  · have hk' : k = (side, level) := Prod.ext hkey.1 hkey.2
    subst hk'
    exact hdis hk
  · have hslot : (om.applyEvent now (.bindLive side level X eid price size)).slotOf k = om.slotOf k := by
      show OrderManager.slot _ _ _ = _
      rw [applyEvent_bindLive, if_neg hkey]
      rfl
    rw [hslot] at hk
    have := honly k hk
    exact hkey ⟨congrArg Prod.fst this, congrArg Prod.snd this⟩

/-- A one-sided ladder of size `1` at `100`, priced at wall-clock `nowNs`. -/
def bidLadder (nowNs : ℤ) : Decision 1 := .ladder [(some 100, none)] ⟨1, 0, 5, nowNs, false⟩

/-- A Create of order `10`, two snapshots that miss it, and a Create of order `20` in its slot. -/
def clearedAndRecreated : List (OmAct 1) :=
  [.snapshot 6 [], .snapshot 7 [], .cycle 8 (bidLadder 20)]

theorem late_bind_displaces_recreated :
    (∃ om : OrderManager 1, Trans.run omStep (.new 1 (1 / 100) 0)
        (.cycle 0 (bidLadder 10) :: clearedAndRecreated) = some om ∧
      (om.slot .buy 0).orderId = some 20) ∧
    (((((((OrderManager.new 1 (1 / 100) 0).cycle 0 (bidLadder 10)).1.processReconcile 6
      []).processReconcile 7 []).cycle 8 (bidLadder 20)).1.applyEvent 9
      (.bindLive .buy 0 10 none 100 1)).slot .buy 0).orderId ≠ some 20 :=
  ⟨⟨_, rfl, by decide +kernel⟩,
    (late_bind_displaces _ 9 .buy 0 10 20 none 100 1 (by decide +kernel) (by decide)).1⟩

/-- **Displaced in a run**: the slot of `X` was cleared and re-created with `Y` before the
confirmation of `X` is drained. -/
theorem late_bind_displaces_newer :
    ¬ ∀ (pre post : List (OmAct 1)) (om₁ om₂ : OrderManager 1) (X Y : ℤ) (now : Instant),
      Trans.run omStep (.new 1 (1 / 100) 0) pre = some om₁ → (om₁.slot .buy 0).orderId = some X →
      Trans.run omStep om₁ post = some om₂ → (om₂.slot .buy 0).orderId = some Y → X < Y →
      ((om₂.applyEvent now (.bindLive .buy 0 X none 100 1)).slot .buy 0).orderId = some Y := by
  intro h
  have := h [.cycle 0 (bidLadder 10)] clearedAndRecreated _ _ 10 20 9 rfl (by decide +kernel) rfl
    (by decide +kernel) (by decide)
  exact absurd this (by decide +kernel)

end OrderManager

end LighterMM
