import LighterMM.Hot.Exits
import LighterMM.Lib.Feed

/-!
# The book that quotes are priced from

`GapFree conn book` is what the book should be after the messages `conn` of a connection: the latest
snapshot-type message with the fresh deltas after it applied in order (`bookFeed`), each beginning at
the nonce where the one before it ended.

An observer (`Observed`) records the messages of the current connection and whether a gap or a sanity
trip still waits for a snapshot-type message; it does not touch the task. On connections whose first
message is of snapshot type (`SnapshotFirst`), `maybe_quote` runs on a gap-free book only, and nothing
is applied while a trip waits (`quotes_gap_free`). A connection may begin with a delta, and then the
book is made of that delta (`delta_prices_quotes`).
-/

namespace LighterMM

variable {n : ℕ}

/-- The levels of a message as the book takes them. -/
def bookLevels (levels : List PriceLevel) : List (ℚ × ℚ) := levels.map fun l => (l.price, l.size)

/-- The two sides of a book as a feed of order book messages. -/
def bookFeed : Feed OrderBookMsg (BookSide × BookSide) where
  number := OrderBookMsg.effectiveOffset
  set m := (.applySnapshotScratch (bookLevels m.orderBook.bids),
    .applySnapshotScratch (bookLevels m.orderBook.asks))
  change b m := ((bookLevels m.orderBook.bids).foldl (fun s l => s.upsert l.1 l.2) b.1,
    (bookLevels m.orderBook.asks).foldl (fun s l => s.upsert l.1 l.2) b.2)

def LocalBook.sides (b : LocalBook) : BookSide × BookSide := (b.bids, b.asks)

/-- A message begins at the nonce where the one before it ended, if both are present. -/
def Follows (m m' : OrderBookMsg) : Prop :=
  ∀ bn last, m'.effectiveBeginNonce = some bn → m.effectiveNonce = some last → bn = last

/-- `s` is the latest snapshot-type message of a connection, `after` the deltas since, and `base` the
offset at which they start: that of `s`, or if it has none one received before. -/
structure Since (conn : List OrderBookMsg) (s : OrderBookMsg) (after : List OrderBookMsg)
    (base : Option ℕ) : Prop where
  split : ∃ before, conn = before ++ s :: after
  snapshot : s.isSnapshot = true
  deltas : ∀ m ∈ after, m.isSnapshot = false
  base_own : ∀ off, s.effectiveOffset = some off → base = some off
  base_received : ∀ off, base = some off → ∃ m ∈ conn, m.effectiveOffset = some off

/-- The book is the latest snapshot-type message of the connection with the fresh deltas since, and
there is no gap between these. -/
def GapFree (conn : List OrderBookMsg) (book : LocalBook) : Prop :=
  ∃ s after base, Since conn s after base ∧ book.sides = bookFeed.replay s (bookFeed.fresh base after) ∧
    (s :: bookFeed.fresh base after).IsChain Follows

/-- What the task knows of a gap-free book: the last offset and the last nonce. -/
structure Tracks (conn : List OrderBookMsg) (book : LocalBook) (s : OrderBookMsg)
    (after : List OrderBookMsg) (base : Option ℕ) : Prop where
  since : Since conn s after base
  sides : book.sides = bookFeed.replay s (bookFeed.fresh base after)
  chain : (s :: bookFeed.fresh base after).IsChain Follows
  offset : book.lastOffset = bookFeed.last base after
  nonce : ∀ m ∈ (s :: bookFeed.fresh base after).getLast?, ∀ x, m.effectiveNonce = some x →
    book.lastNonce = some x

theorem Tracks.gapFree {conn : List OrderBookMsg} {book : LocalBook} {s : OrderBookMsg}
    {after : List OrderBookMsg} {base : Option ℕ} (h : Tracks conn book s after base) : GapFree conn book :=
  ⟨s, after, base, h.since, h.sides, h.chain⟩

namespace HotTask

variable {sqrt : ℚ → ℚ} {cfg : HotConfig n} {t : HotTask n} {msg : OrderBookMsg} {r : Reads n}
  {conn after : List OrderBookMsg} {s : OrderBookMsg} {base : Option ℕ} {book : LocalBook}

/-! ## One message -/

theorem applyMsg_offset : (applyMsg book msg).lastOffset = msg.effectiveOffset.or book.lastOffset := by
  unfold applyMsg
  simp only
  split <;> rfl

theorem applyMsg_nonce : (applyMsg book msg).lastNonce = msg.effectiveNonce.or book.lastNonce := by
  unfold applyMsg
  simp only
  split <;> rfl

theorem applyMsg_snapshot (h : msg.isSnapshot = true) :
    (applyMsg book msg).sides = bookFeed.set msg ∧ (applyMsg book msg).initialized = true := by
  unfold applyMsg
  simp only [h, Bool.true_or, if_true]
  exact ⟨rfl, rfl⟩

theorem applyMsg_delta (h : msg.isSnapshot = false) (hinit : book.initialized = true) :
    (applyMsg book msg).sides = bookFeed.change book.sides msg ∧
      (applyMsg book msg).initialized = true := by
  unfold applyMsg
  simp only [h, hinit, Bool.not_true, Bool.or_false, Bool.false_eq_true, if_false]
  exact ⟨rfl, hinit⟩

/-- A snapshot-type message starts over. -/
theorem tracks_snapshot (h : msg.isSnapshot = true)
    (hoff : ∀ off, book.lastOffset = some off → ∃ m ∈ conn, m.effectiveOffset = some off) :
    Tracks (conn ++ [msg]) (applyMsg book msg) msg [] (msg.effectiveOffset.or book.lastOffset) := by
  refine ⟨⟨⟨conn, rfl⟩, h, (fun m hm => nomatch hm), ?_, ?_⟩, (applyMsg_snapshot h).1, .singleton _, applyMsg_offset, ?_⟩
  · intro off ho
    rw [ho]
    rfl
  · intro off ho
    cases hmsg : msg.effectiveOffset with
    | some k =>
      rw [hmsg] at ho
      exact ⟨msg, by simp, hmsg.trans ho⟩
    | none =>
      rw [hmsg] at ho
      obtain ⟨m, hm, hmo⟩ := hoff off ho
      exact ⟨m, List.mem_append_left _ hm, hmo⟩
  · intro m hm x hx
    obtain rfl : msg = m := Option.some.inj hm
    rw [applyMsg_nonce, hx]
    rfl

theorem Since.concat (h : Since conn s after base) (hd : msg.isSnapshot = false) :
    Since (conn ++ [msg]) s (after ++ [msg]) base := by
  obtain ⟨⟨before, hb⟩, hs, hdel, hown, hrec⟩ := h
  refine ⟨⟨before, by rw [hb]; simp⟩, hs, ?_, hown, ?_⟩
  · intro m hm
    rcases List.mem_append.mp hm with hm | hm
    · exact hdel m hm
    · rw [List.mem_singleton.mp hm]
      exact hd
  · intro off ho
    obtain ⟨m, hm, hmo⟩ := hrec off ho
    exact ⟨m, List.mem_append_left _ hm, hmo⟩

theorem staleDelta_eq (h : Tracks conn book s after base) (hinit : book.initialized = true) :
    staleDelta book msg = bookFeed.stale (bookFeed.last base after) msg := by
  have hnumber : bookFeed.number msg = msg.effectiveOffset := rfl
  unfold staleDelta Feed.stale
  rw [h.offset, hinit, hnumber]
  cases msg.effectiveOffset with
  | none => rfl
  | some off => cases bookFeed.last base after <;> rfl

/-- A stale delta is received and ignored. -/
theorem Tracks.stale (h : Tracks conn book s after base) (hinit : book.initialized = true)
    (hd : msg.isSnapshot = false) (hst : staleDelta book msg = true) :
    Tracks (conn ++ [msg]) book s (after ++ [msg]) base := by
  rw [staleDelta_eq h hinit] at hst
  obtain ⟨hfresh, hlast⟩ := Feed.concat_stale hst
  refine ⟨Since.concat h.since hd, ?_, ?_, ?_, ?_⟩
  · rw [hfresh]
    exact h.sides
  · rw [hfresh]
    exact h.chain
  · rw [hlast]
    exact h.offset
  · rw [hfresh]
    exact h.nonce

/-- A fresh delta without a gap is applied. -/
theorem Tracks.delta (h : Tracks conn book s after base) (hinit : book.initialized = true)
    (hd : msg.isSnapshot = false) (hst : staleDelta book msg = false) (hgap : nonceGap book msg = false) :
    Tracks (conn ++ [msg]) (applyMsg book msg) s (after ++ [msg]) base := by
  rw [staleDelta_eq h hinit] at hst
  obtain ⟨hfresh, hlast⟩ := Feed.concat_fresh hst
  refine ⟨Since.concat h.since hd, ?_, ?_, ?_, ?_⟩
  · rw [(applyMsg_delta hd hinit).1, h.sides, hfresh, Feed.replay_concat]
  · rw [hfresh, ← List.cons_append]
    refine h.chain.append (.singleton msg) ?_
    intro m hm m' hm' bn x hbn hx
    cases hm'
    -- the nonce check compares with the nonce of the last applied message
    have hln := h.nonce m hm x hx
    unfold nonceGap at hgap
    rw [hbn, hln, hinit] at hgap
    simpa using hgap
  · rw [hlast, applyMsg_offset, h.offset]
    rfl
  · intro m hm x hx
    rw [hfresh, ← List.cons_append, List.getLast?_concat] at hm
    cases hm
    rw [applyMsg_nonce, hx]
    rfl

/-- The sanity check writes its streak only. -/
theorem bookSanityDiverged_frame (cfg : HotConfig n) (t : HotTask n) (now : Instant) (mid : ℚ) :
    ∃ streak, (t.bookSanityDiverged cfg now mid).1 = { t with sanityStreak := streak } := by
  unfold bookSanityDiverged
  split
  · exact ⟨_, rfl⟩
  · split
    · exact ⟨_, rfl⟩
    · simp only
      split
      · exact ⟨_, rfl⟩
      · split <;> exact ⟨_, rfl⟩

/-- The ways through `updateSignal`. -/
inductive SignalCase (sqrt : ℚ → ℚ) (cfg : HotConfig n) (t : HotTask n) (r : Reads n) :
    HotTask n × List (HotEffect n) × Bool → Prop
  | noMid (hmid : t.book.mid = none) : SignalCase sqrt cfg t r (t, [], false)
  | diverged {mid : ℚ} (hmid : t.book.mid = some mid) :
    SignalCase sqrt cfg t r (t.requestResnapshot.1, t.requestResnapshot.2, false)
  | updated {mid : ℚ} (streak : ℕ) (hmid : t.book.mid = some mid) :
    SignalCase sqrt cfg t r
      ({ t with
          sanityStreak := streak
          mid
          calculator := t.calculator.onBookUpdate sqrt r.sampleNs mid t.book.bids t.book.asks },
        [.setMid mid], true)

theorem updateSignal_cases (sqrt : ℚ → ℚ) (cfg : HotConfig n) (t : HotTask n) (r : Reads n) :
    SignalCase sqrt cfg t r (t.updateSignal sqrt cfg r) := by
  unfold updateSignal
  split
  · rename_i hmid
    exact .noMid hmid
  · rename_i mid hmid
    obtain ⟨streak, hframe⟩ := bookSanityDiverged_frame cfg t r.now mid
    simp only [hframe]
    split
    · exact .diverged hmid
    · exact .updated streak hmid

/-- The ways through `receive`, behind the reset. -/
inductive ReceiveCase (sqrt : ℚ → ℚ) (cfg : HotConfig n) (t : HotTask n) (msg : OrderBookMsg) (r : Reads n) :
    HotTask n × List (HotEffect n) × Bool → Prop
  | snapshot (hsnap : msg.isSnapshot = true) :
    ReceiveCase sqrt cfg t msg r (({ t with awaitingResnapshot := false } : HotTask n).applied sqrt cfg msg r)
  | waiting (hd : msg.isSnapshot = false) (hw : t.awaitingResnapshot = true) :
    ReceiveCase sqrt cfg t msg r (t, [], false)
  | stale (hd : msg.isSnapshot = false) (hw : t.awaitingResnapshot = false) (hst : staleDelta t.book msg = true) :
    ReceiveCase sqrt cfg t msg r (t, [], false)
  | gap (hd : msg.isSnapshot = false) (hw : t.awaitingResnapshot = false) (hst : staleDelta t.book msg = false)
      (hgap : nonceGap t.book msg = true) :
    ReceiveCase sqrt cfg t msg r (t.requestResnapshot.1, t.requestResnapshot.2, false)
  | delta (hd : msg.isSnapshot = false) (hw : t.awaitingResnapshot = false) (hst : staleDelta t.book msg = false)
      (hgap : nonceGap t.book msg = false) :
    ReceiveCase sqrt cfg t msg r (t.applied sqrt cfg msg r)

theorem receive_cases (sqrt : ℚ → ℚ) (cfg : HotConfig n) (t : HotTask n) (msg : OrderBookMsg) (r : Reads n) :
    ReceiveCase sqrt cfg t.takeReset msg r (t.receive sqrt cfg msg r) := by
  unfold receive
  simp only
  split
  · rename_i hsnap
    exact .snapshot hsnap
  · rename_i hsnap
    have hd : msg.isSnapshot = false := Bool.eq_false_iff.mpr hsnap
    split
    · rename_i hw
      exact .waiting hd hw
    · rename_i hw
      have hready : t.takeReset.awaitingResnapshot = false := Bool.eq_false_iff.mpr hw
      split
      · rename_i hst
        exact .stale hd hready hst
      · rename_i hst
        have hfresh : staleDelta t.takeReset.book msg = false := Bool.eq_false_iff.mpr hst
        split
        · rename_i hgap
          exact .gap hd hready hfresh hgap
        · rename_i hgap
          exact .delta hd hready hfresh (Bool.eq_false_iff.mpr hgap)

/-- What `receive` does with a message, behind the reset: nothing, a re-snapshot, or the message is
applied and the task quotes or asks for a re-snapshot. -/
inductive Received (t : HotTask n) (msg : OrderBookMsg) (q : HotTask n × List (HotEffect n) × Bool) : Prop
  | waiting (hd : msg.isSnapshot = false) (hw : t.awaitingResnapshot = true) (hq : q = (t, [], false))
  | stale (hd : msg.isSnapshot = false) (hst : staleDelta t.book msg = true) (hq : q = (t, [], false))
  | gap (hd : msg.isSnapshot = false) (hbook : q.1.book = t.book) (hw : q.1.awaitingResnapshot = true)
      (hreset : q.1.resetFlag = t.resetFlag) (hquotes : q.2.2 = false)
  | applied (hnew : msg.isSnapshot = true ∨
        msg.isSnapshot = false ∧ t.awaitingResnapshot = false ∧ staleDelta t.book msg = false ∧
          nonceGap t.book msg = false)
      (hbook : q.1.book = applyMsg t.book msg) (hreset : q.1.resetFlag = t.resetFlag)
      (htrip : HotEffect.notifyReconnect ∈ q.2.1 → q.1.awaitingResnapshot = true)

/-- The update of the signal leaves the book; if it asks for a re-snapshot, the task waits for one. -/
theorem updateSignal_frame (sqrt : ℚ → ℚ) (cfg : HotConfig n) (t : HotTask n) (r : Reads n) :
    (t.updateSignal sqrt cfg r).1.book = t.book ∧
    (t.updateSignal sqrt cfg r).1.resetFlag = t.resetFlag ∧
    (HotEffect.notifyReconnect ∈ (t.updateSignal sqrt cfg r).2.1 →
      (t.updateSignal sqrt cfg r).1.awaitingResnapshot = true) := by
  have hcases := t.updateSignal_cases sqrt cfg r
  generalize t.updateSignal sqrt cfg r = q at hcases ⊢
  cases hcases with
  | noMid => exact ⟨rfl, rfl, fun h => absurd h List.not_mem_nil⟩
  | diverged => exact ⟨rfl, rfl, fun _ => rfl⟩
  | updated => exact ⟨rfl, rfl, fun h => by cases List.mem_singleton.mp h⟩

theorem applied_frame (sqrt : ℚ → ℚ) (cfg : HotConfig n) (t : HotTask n) (msg : OrderBookMsg) (r : Reads n) :
    (t.applied sqrt cfg msg r).1.book = applyMsg t.book msg ∧
    (t.applied sqrt cfg msg r).1.resetFlag = t.resetFlag ∧
    (HotEffect.notifyReconnect ∈ (t.applied sqrt cfg msg r).2.1 →
      (t.applied sqrt cfg msg r).1.awaitingResnapshot = true) := by
  obtain ⟨hbook, hreset, htrip⟩ := updateSignal_frame sqrt cfg
    { t with book := applyMsg t.book msg
             calculator := if t.book.initialized then t.calculator else t.calculator.reset } r
  refine ⟨hbook, hreset, fun h => htrip ?_⟩
  rcases List.mem_cons.mp h with h | h
  · cases h
  · exact h

theorem receive_spec (sqrt : ℚ → ℚ) (cfg : HotConfig n) (t : HotTask n) (msg : OrderBookMsg) (r : Reads n) :
    Received t.takeReset msg (t.receive sqrt cfg msg r) := by
  have hcases := t.receive_cases sqrt cfg msg r
  generalize t.receive sqrt cfg msg r = q at hcases ⊢
  cases hcases with
  | snapshot hsnap =>
    obtain ⟨hbook, hreset, htrip⟩ := applied_frame sqrt cfg { t.takeReset with awaitingResnapshot := false } msg r
    exact .applied (.inl hsnap) hbook hreset htrip
  | waiting hd hw => exact .waiting hd hw rfl
  | stale hd _ hst => exact .stale hd hst rfl
  | gap hd => exact .gap hd rfl rfl rfl rfl
  | delta hd hw hst hgap =>
    obtain ⟨hbook, hreset, htrip⟩ := applied_frame sqrt cfg t.takeReset msg r
    exact .applied (.inr ⟨hd, hw, hst, hgap⟩) hbook hreset htrip

/-! ## Quoting leaves the book -/

/-- Two tasks with the same book, reset flag and wait for a snapshot. -/
structure SameFeed (t t' : HotTask n) : Prop where
  book : t'.book = t.book
  resetFlag : t'.resetFlag = t.resetFlag
  awaiting : t'.awaitingResnapshot = t.awaitingResnapshot

theorem maybeQuote_sameFeed (cfg : HotConfig n) (t : HotTask n) (r : Reads n) :
    SameFeed t (t.maybeQuote cfg r).1 := by
  obtain ⟨om, lastTracked, lastQuote, calculator, maxPosUsd, seen, til, hquote⟩ := maybeQuote_eq cfg t r
  rw [hquote]
  exact ⟨rfl, rfl, rfl⟩

theorem onOrderbook_sameFeed (sqrt : ℚ → ℚ) (cfg : HotConfig n) (t : HotTask n) (msg : OrderBookMsg)
    (r : Reads n) : SameFeed (t.receive sqrt cfg msg r).1 (t.onOrderbook sqrt cfg msg r).1 := by
  refine onOrderbook_keeps ⟨rfl, rfl, rfl⟩ fun u hu => ?_
  obtain ⟨h₁, h₂, h₃⟩ := maybeQuote_sameFeed cfg u r
  exact ⟨h₁.trans hu.book, h₂.trans hu.resetFlag, h₃.trans hu.awaiting⟩

theorem onTicker_sameFeed (t : HotTask n) (bestBid bestAsk : Option ℚ) (now : Instant) :
    SameFeed t (t.onTicker bestBid bestAsk now) := by
  obtain ⟨bbo, hbbo⟩ := t.onTicker_eq bestBid bestAsk now
  rw [hbbo]
  exact ⟨rfl, rfl, rfl⟩

/-- A pending reset is taken; without one nothing happens. -/
theorem takeReset_cases (t : HotTask n) : t.takeReset.resetFlag = false ∧
    (t.resetFlag = true ∧ t.takeReset.book = .new ∨ t.resetFlag = false ∧ t.takeReset = t) := by
  unfold takeReset
  cases h : t.resetFlag with
  | true => exact ⟨rfl, .inl ⟨rfl, rfl⟩⟩
  | false => exact ⟨h, .inr ⟨rfl, rfl⟩⟩

end HotTask

/-! ## Runs -/

/-- A task with what an observer of its stream has seen. -/
structure Observed (n : ℕ) where
  task : HotTask n
  /-- The order book messages since the last disconnect. -/
  connection : List OrderBookMsg
  /-- A gap or a sanity trip was detected, and no snapshot-type message has arrived since. -/
  tripped : Bool

namespace Observed

variable {sqrt : ℚ → ℚ} {cfg : HotConfig n} {w w' : Observed n} {msg : OrderBookMsg} {r : Reads n}

/-- The task asks for a re-snapshot: a gap or a sanity trip. -/
def trips (sqrt : ℚ → ℚ) (cfg : HotConfig n) (w : Observed n) (msg : OrderBookMsg) (r : Reads n) : Bool :=
  HotEffect.notifyReconnect ∈ (w.task.receive sqrt cfg msg r).2.1

def start (sqrt : ℚ → ℚ) (cfg : HotConfig n) (now : Instant) : Observed n := ⟨.new sqrt cfg now, [], false⟩

def step (sqrt : ℚ → ℚ) (cfg : HotConfig n) (w : Observed n) (a : HotInput n) : Option (Observed n) :=
  (w.task.step sqrt cfg a).map fun t =>
    match a with
    | .orderBook msg r => ⟨t, w.connection ++ [msg], w.trips sqrt cfg msg r || w.tripped && !msg.isSnapshot⟩
    | .ticker _ _ _ => ⟨t, w.connection, w.tripped⟩
    | .disconnect => ⟨t, [], w.tripped⟩

/-- The first message of a connection is of snapshot type. -/
def SnapshotFirst (w : Observed n) : HotInput n → Prop
  | .orderBook msg _ => w.connection = [] → msg.isSnapshot = true
  | _ => True

instance (w : Observed n) : DecidablePred w.SnapshotFirst
  | .orderBook msg _ => inferInstanceAs (Decidable (w.connection = [] → msg.isSnapshot = true))
  | .ticker _ _ _ | .disconnect => isTrue trivial

/-- What holds between two messages: a reset is pending only before the first message; then the book is
gap-free or waits for a snapshot-type message, as it does while a trip does. -/
structure Inv (w : Observed n) : Prop where
  reset : w.task.resetFlag = true → w.connection = []
  offsets : w.task.resetFlag = false → ∀ off, w.task.book.lastOffset = some off →
    ∃ m ∈ w.connection, m.effectiveOffset = some off
  initialized : w.connection ≠ [] → w.task.book.initialized = true
  tracked : w.connection ≠ [] → w.task.awaitingResnapshot = true ∨
    ∃ s after base, Tracks w.connection w.task.book s after base
  tripped : w.tripped = true → w.connection ≠ [] → w.task.awaitingResnapshot = true

theorem start_inv {now : Instant} : (start sqrt cfg now).Inv := by
  refine ⟨fun _ => rfl, ?_, fun h => absurd rfl h, fun h => absurd rfl h, fun _ h => absurd rfl h⟩
  intro _ off ho
  cases ho

/-- A message that is not the first of its connection meets no pending reset. -/
theorem Inv.takeReset (h : w.Inv) (hc : w.connection ≠ []) : w.task.takeReset = w.task := by
  obtain ⟨-, ⟨hreset, -⟩ | ⟨-, heq⟩⟩ := w.task.takeReset_cases
  · exact absurd (h.reset hreset) hc
  · exact heq

/-- The invariant after a message that leaves the book. -/
theorem Inv.ignored (h : w.Inv) {t : HotTask n} {b : Bool} (hc : w.connection ≠ [])
    (hbook : t.book = w.task.book) (hreset : t.resetFlag = w.task.resetFlag)
    (htracked : t.awaitingResnapshot = true ∨ ∃ s after base, Tracks (w.connection ++ [msg]) t.book s after base)
    (htripped : b = true → t.awaitingResnapshot = true) : Inv ⟨t, w.connection ++ [msg], b⟩ := by
  have hflag : t.resetFlag = false := by
    rw [hreset]
    exact Bool.eq_false_iff.mpr fun ht => hc (h.reset ht)
  refine ⟨fun ht => ?_, fun _ off ho => ?_, fun _ => ?_, fun _ => htracked, fun ht _ => htripped ht⟩
  · rw [hflag] at ht
    cases ht
  · show ∃ m ∈ w.connection ++ [msg], _
    rw [hbook] at ho
    obtain ⟨m, hm, hmo⟩ := h.offsets (hreset ▸ hflag) off ho
    exact ⟨m, List.mem_append_left _ hm, hmo⟩
  · rw [hbook]
    exact h.initialized hc

/-- The invariant after a message that is applied. -/
theorem Inv.taken {t : HotTask n} {b : Bool} (hreset : t.resetFlag = false)
    (hinit : t.book.initialized = true) {s : OrderBookMsg} {after : List OrderBookMsg} {base : Option ℕ}
    (ht : Tracks (w.connection ++ [msg]) t.book s after base)
    (hoff : ∀ off, t.book.lastOffset = some off → ∃ m ∈ w.connection ++ [msg], m.effectiveOffset = some off)
    (htripped : b = true → t.awaitingResnapshot = true) : Inv ⟨t, w.connection ++ [msg], b⟩ := by
  refine ⟨fun h => ?_, fun _ => hoff, fun _ => hinit, fun _ => .inr ⟨s, after, base, ht⟩, fun h _ => htripped h⟩
  rw [hreset] at h
  cases h

/-- **A message keeps the invariant**; if the task quotes, the book is tracked. -/
theorem Inv.receive (h : w.Inv) (hfirst : w.connection = [] → msg.isSnapshot = true) :
    Inv ⟨(w.task.receive sqrt cfg msg r).1, w.connection ++ [msg],
      w.trips sqrt cfg msg r || w.tripped && !msg.isSnapshot⟩ ∧
    ((w.task.receive sqrt cfg msg r).2.2 = true → ∃ s after base,
      Tracks (w.connection ++ [msg]) (w.task.receive sqrt cfg msg r).1.book s after base) := by
  have hconn : msg.isSnapshot = false → w.connection ≠ [] := by
    intro hd hc
    rw [hfirst hc] at hd
    cases hd
  have hoff : ∀ off, w.task.takeReset.book.lastOffset = some off →
      ∃ m ∈ w.connection, m.effectiveOffset = some off := by
    intro off ho
    obtain ⟨-, ⟨-, hbook⟩ | ⟨hreset, heq⟩⟩ := w.task.takeReset_cases
    · rw [hbook] at ho
      cases ho
    · rw [heq] at ho
      exact h.offsets hreset off ho
  have hoff' : ∀ off, (HotTask.applyMsg w.task.takeReset.book msg).lastOffset = some off →
      ∃ m ∈ w.connection ++ [msg], m.effectiveOffset = some off := by
    intro off ho
    rw [HotTask.applyMsg_offset] at ho
    rcases Option.or_eq_some_iff.mp ho with ho | ⟨-, ho⟩
    · exact ⟨msg, by simp, ho⟩
    · obtain ⟨m, hm, hmo⟩ := hoff off ho
      exact ⟨m, List.mem_append_left _ hm, hmo⟩
  have hspec := w.task.receive_spec sqrt cfg msg r
  unfold trips
  generalize w.task.receive sqrt cfg msg r = q at hspec ⊢
  cases hspec with
  | waiting hd hw hq =>
    have hc := hconn hd
    rw [h.takeReset hc] at hw hq
    rw [hq]
    exact ⟨h.ignored hc rfl rfl (.inl hw) fun _ => hw, fun hq => Bool.noConfusion hq⟩
  | stale hd hst hq =>
    have hc := hconn hd
    rw [h.takeReset hc] at hst hq
    rw [hq]
    refine ⟨h.ignored hc rfl rfl ?_ fun ht => ?_, fun hq => Bool.noConfusion hq⟩
    · rcases h.tracked hc with hw | ⟨s, after, base, ht⟩
      · exact .inl hw
      · exact .inr ⟨s, _, base, HotTask.Tracks.stale ht (h.initialized hc) hd hst⟩
    · simp only [List.not_mem_nil, decide_false, Bool.false_or, Bool.and_eq_true] at ht
      exact h.tripped ht.1 hc
  | gap hd hbook hw hreset hquotes =>
    have hc := hconn hd
    rw [h.takeReset hc] at hbook hreset
    refine ⟨h.ignored hc hbook hreset (.inl hw) fun _ => hw, fun hq => ?_⟩
    rw [hquotes] at hq
    cases hq
  | applied hnew hbook hreset htrip =>
    have hflag : q.1.resetFlag = false := hreset.trans w.task.takeReset_cases.1
    rcases hnew with hs | ⟨hd, hw, hst, hgap⟩
    · have ht := HotTask.tracks_snapshot hs hoff
      rw [← hbook] at ht hoff'
      refine ⟨Inv.taken hflag ?_ ht hoff' fun hb => ?_, fun _ => ⟨_, _, _, ht⟩⟩
      · rw [hbook]
        exact (HotTask.applyMsg_snapshot hs).2
      · -- the snapshot ends the wait of earlier trips
        simp only [hs, Bool.not_true, Bool.and_false, Bool.or_false] at hb
        exact htrip (of_decide_eq_true hb)
    · have hc := hconn hd
      rw [h.takeReset hc] at hw hst hgap hbook hoff'
      have hinit := h.initialized hc
      rcases h.tracked hc with hw' | ⟨s, after, base, ht⟩
      · rw [hw] at hw'
        cases hw'
      · have ht' := HotTask.Tracks.delta ht hinit hd hst hgap
        rw [← hbook] at ht' hoff'
        refine ⟨Inv.taken hflag ?_ ht' hoff' fun hb => ?_, fun _ => ⟨_, _, _, ht'⟩⟩
        · rw [hbook]
          exact (HotTask.applyMsg_delta hd hinit).2
        · rcases Bool.or_eq_true_iff.mp hb with hb | hb
          · exact htrip (of_decide_eq_true hb)
          · have := h.tripped (Bool.and_eq_true_iff.mp hb).1 hc
            rw [hw] at this
            cases this

/-- The invariant reads the book, the reset flag and the wait of the task. -/
theorem Inv.congr {t t' : HotTask n} {cs : List OrderBookMsg} {b : Bool} (h : Inv ⟨t, cs, b⟩)
    (hs : HotTask.SameFeed t t') : Inv ⟨t', cs, b⟩ := by
  obtain ⟨h₁, h₂, h₃, h₄, h₅⟩ := h
  obtain ⟨hb, hr, ha⟩ := hs
  constructor
  · exact fun h => h₁ (hr ▸ h)
  · intro h off ho
    exact h₂ (hr ▸ h) off (hb ▸ ho)
  · intro h
    show t'.book.initialized = true
    rw [hb]
    exact h₃ h
  · intro h
    show t'.awaitingResnapshot = true ∨ ∃ s after base, Tracks cs t'.book s after base
    rw [hb, ha]
    exact h₄ h
  · intro h hc
    show t'.awaitingResnapshot = true
    rw [ha]
    exact h₅ h hc

theorem Inv.step {a : HotInput n} (h : w.Inv) (hfirst : w.SnapshotFirst a)
    (hst : w.step sqrt cfg a = some w') : w'.Inv := by
  cases a with
  | orderBook msg r =>
    cases hst
    exact (h.receive hfirst).1.congr (w.task.onOrderbook_sameFeed sqrt cfg msg r)
  | ticker bestBid bestAsk now =>
    cases hst
    exact Inv.congr h (w.task.onTicker_sameFeed bestBid bestAsk now)
  | disconnect =>
    cases hst
    exact ⟨fun _ => rfl, fun hr => Bool.noConfusion hr, fun hc => absurd rfl hc, fun hc => absurd rfl hc,
      fun _ hc => absurd rfl hc⟩

/-- **Quotes are only priced from a gap-free book**, as long as every connection begins with a
snapshot-type message: when `maybe_quote` runs, the book is gap-free; and while a gap or a sanity trip
waits for a snapshot-type message, no other message changes the book. -/
theorem quotes_gap_free {now : Instant}
    (h : Trans.ReachBy (step sqrt cfg) SnapshotFirst (start sqrt cfg now) w)
    (hfirst : w.connection = [] → msg.isSnapshot = true) :
    ((w.task.receive sqrt cfg msg r).2.2 = true →
      GapFree (w.connection ++ [msg]) (w.task.receive sqrt cfg msg r).1.book) ∧
    (w.tripped = true → msg.isSnapshot = false →
      (w.task.receive sqrt cfg msg r).1.book = w.task.book) := by
  have hinv : w.Inv := h.invariant start_inv fun s a s' hs hok hst => hs.step hok hst
  constructor
  · intro hq
    obtain ⟨s, after, base, ht⟩ := (hinv.receive hfirst).2 hq
    exact ht.gapFree
  · intro ht hd
    have hc : w.connection ≠ [] := by
      intro hc
      rw [hfirst hc] at hd
      cases hd
    have hw := hinv.tripped ht hc
    have heq := hinv.takeReset hc
    unfold HotTask.receive
    simp only [heq, hd, hw, Bool.false_eq_true, if_false, if_true]

/-- A two-sided delta that begins at nonce `bn` and ends at `bn + 1`. -/
def deltaFrom (bn : ℤ) : OrderBookMsg :=
  ⟨false, none, some (bn + 1), some bn, ⟨[⟨98, 1⟩], [⟨102, 1⟩], none, none, none⟩⟩

/-- A snapshot-type message at nonce `5` and the delta after it. -/
def firstDelta : List (HotInput 1) :=
  [.orderBook { HotTask.bookSnapshot with nonce := some 5 } (HotTask.flatReads 1 []),
    .orderBook (deltaFrom 5) (HotTask.flatReads 2 [])]

theorem quotes_gap_free_second_delta :
    ∃ w : Observed 1, Trans.ReachBy (step id HotTask.quickConfig) SnapshotFirst
        (start id HotTask.quickConfig 0) w ∧
      GapFree (w.connection ++ [deltaFrom 6])
        (w.task.receive id HotTask.quickConfig (deltaFrom 6) (HotTask.flatReads 3 [])).1.book := by
  obtain ⟨w, hw, h⟩ := Option.map_eq_some_iff.mp
    (show (Trans.runIf (step id HotTask.quickConfig) SnapshotFirst (start id HotTask.quickConfig 0)
        firstDelta).map (fun w => decide (w.connection.length = 2 ∧
          (w.task.receive id HotTask.quickConfig (deltaFrom 6) (HotTask.flatReads 3 [])).2.2 = true)) =
        some true by decide +kernel)
  obtain ⟨hlen, hq⟩ := of_decide_eq_true h
  have hfirst : w.connection = [] → (deltaFrom 6).isSnapshot = true := by
    intro hc
    rw [hc] at hlen
    cases hlen
  exact ⟨w, .of_runIf hw, (quotes_gap_free (.of_runIf hw) hfirst).1 hq⟩

/-- A gap is detected, and then the stream disconnects. -/
def gapThenDisconnect : List (HotInput 1) :=
  [.orderBook { HotTask.bookSnapshot with nonce := some 5 } (HotTask.flatReads 1 []),
    .orderBook (deltaFrom 9) (HotTask.flatReads 2 []), .disconnect]

/-- **A delta prices quotes**: the reset of a new connection ends the wait for a snapshot-type message,
and the first message is applied as a snapshot, whatever its type. -/
theorem delta_prices_quotes :
    ¬ ∀ (w : Observed 1) (msg : OrderBookMsg) (r : Reads 1),
      Trans.Reach (step id HotTask.quickConfig) (start id HotTask.quickConfig 0) w →
      ((w.task.receive id HotTask.quickConfig msg r).2.2 = true →
        GapFree (w.connection ++ [msg]) (w.task.receive id HotTask.quickConfig msg r).1.book) ∧
      (w.tripped = true → msg.isSnapshot = false →
        (w.task.receive id HotTask.quickConfig msg r).1.book = w.task.book) := by
  intro hall
  obtain ⟨w, hw, h⟩ := Option.map_eq_some_iff.mp
    (show (Trans.run (step id HotTask.quickConfig) (start id HotTask.quickConfig 0) gapThenDisconnect).map
        (fun w => decide (w.connection.length = 0 ∧ w.tripped = true ∧
          (w.task.receive id HotTask.quickConfig (deltaFrom 9) (HotTask.flatReads 3 [])).2.2 = true)) =
        some true by decide +kernel)
  obtain ⟨hlen, -, hq⟩ := of_decide_eq_true h
  obtain ⟨s, after, base, hsince, -⟩ :=
    (hall w (deltaFrom 9) (HotTask.flatReads 3 []) (Trans.reach_iff_run.mpr ⟨_, hw⟩)).1 hq
  obtain ⟨before, hsplit⟩ := hsince.split
  rw [List.eq_nil_of_length_eq_zero hlen] at hsplit
  -- the connection has one message, and that is a delta
  have hs : s = deltaFrom 9 := by
    have hmem : s ∈ [] ++ [deltaFrom 9] := hsplit ▸ List.mem_append_right before List.mem_cons_self
    exact List.mem_singleton.mp hmem
  have hsnap := hsince.snapshot
  rw [hs] at hsnap
  cases hsnap

end Observed

end LighterMM
