import LighterMM.Account.Moves
import Mathlib.Data.List.DropRight

/-!
# The position estimate

* `seed`, `applied`: the last snapshot that re-seeded the accounting, and the bookings after it that
  move the position: those on delivery, and those out of a queue entry that was made after it.
* `position_estimate`: on the lot grid the position is the seed plus the signed sizes of the applied
  bookings. An entry that was queued before a re-seed never moves the position after it.

The entry is what counts, not the trade id: a trade whose entry the pending limit evicts is a new one
when it is delivered again (`position_estimate_evicted`).
-/

namespace LighterMM

/-! ## The log since the last re-seed -/

namespace PnlNote

def isReseed : PnlNote → Bool
  | .reseeded _ => true
  | _ => false

/-- The id of a trade that is queued. -/
def queued? : PnlNote → Option ℤ
  | .queued t => t.tradeId
  | _ => none

end PnlNote

def queuedIds (log : List PnlNote) : List ℤ := log.filterMap PnlNote.queued?

/-- The log after the last re-seed. -/
def sinceReseed (log : List PnlNote) : List PnlNote := log.rtakeWhile (!·.isReseed)

/-- The log up to the last re-seed. -/
def untilReseed (log : List PnlNote) : List PnlNote := log.rdropWhile (!·.isReseed)

/-- The position of the last snapshot that re-seeded the accounting, else the starting value. -/
def seed (start : ℚ) (log : List PnlNote) : ℚ :=
  match (untilReseed log).getLast? with
  | some (.reseeded position) => position
  | _ => start

/-- The bookings that move the position, where `queued` holds the ids of the entries made so far. -/
def applied : List ℤ → List PnlNote → List Booking
  | _, [] => []
  | queued, .booked b :: ns => b :: applied queued ns
  | queued, .replayed b :: ns =>
    if b.tradeId ∈ queued then b :: applied queued ns else applied queued ns
  | queued, n :: ns => applied (queued ++ n.queued?.toList) ns

/-- The signed sizes of bookings, summed up. -/
def signedSum (bs : List Booking) : ℚ := (bs.map (·.fill.signed)).sum

/-- The seed plus what was applied since. -/
def estimate (start : ℚ) (log : List PnlNote) : ℚ :=
  seed start log + signedSum (applied [] (sinceReseed log))

/-- The sizes and snapshot positions that an event delivers are multiples of the lot. -/
def PnlEvent.OnGrid (lot : ℚ) : PnlEvent → Prop
  | .accountAll position trades =>
    (∀ p, position = some p → p.signedPosition ∈ AddSubgroup.zmultiples lot) ∧
      ∀ t ∈ trades, ∀ s, t.size.join = some s → s ∈ AddSubgroup.zmultiples lot
  | _ => True

theorem queuedIds_append (l l' : List PnlNote) : queuedIds (l ++ l') = queuedIds l ++ queuedIds l' :=
  List.filterMap_append

@[simp] theorem sinceReseed_nil : sinceReseed [] = [] := rfl

theorem sinceReseed_concat (log : List PnlNote) {n : PnlNote} (hn : n.isReseed = false) :
    sinceReseed (log ++ [n]) = sinceReseed log ++ [n] :=
  List.rtakeWhile_concat_pos _ _ _ (by rw [hn]; rfl)

theorem sinceReseed_reseeded (log : List PnlNote) (p : ℚ) : sinceReseed (log ++ [.reseeded p]) = [] :=
  List.rtakeWhile_concat_neg _ _ _ Bool.false_ne_true

theorem untilReseed_concat (log : List PnlNote) {n : PnlNote} (hn : n.isReseed = false) :
    untilReseed (log ++ [n]) = untilReseed log :=
  List.rdropWhile_concat_pos _ _ _ (by rw [hn]; rfl)

theorem untilReseed_reseeded (log : List PnlNote) (p : ℚ) :
    untilReseed (log ++ [.reseeded p]) = log ++ [.reseeded p] :=
  List.rdropWhile_concat_neg _ _ _ Bool.false_ne_true

theorem seed_concat (start : ℚ) (log : List PnlNote) {n : PnlNote} (hn : n.isReseed = false) :
    seed start (log ++ [n]) = seed start log := by
  rw [seed, untilReseed_concat _ hn]
  rfl

theorem seed_reseeded (start : ℚ) (log : List PnlNote) (p : ℚ) :
    seed start (log ++ [.reseeded p]) = p := by
  rw [seed, untilReseed_reseeded, List.getLast?_concat]

/-- One more note. -/
theorem applied_concat (queued : List ℤ) (l : List PnlNote) (n : PnlNote) :
    applied queued (l ++ [n]) = applied queued l ++ applied (queued ++ queuedIds l) [n] := by
  induction l generalizing queued with
  | nil => simp [applied, queuedIds]
  | cons m l ih =>
    have hcons : queuedIds (m :: l) = m.queued?.toList ++ queuedIds l := by
      rw [← List.singleton_append, queuedIds_append]
      congr 1
    rw [hcons, ← List.append_assoc]
    cases m with
    | booked b => simp [applied, ih, PnlNote.queued?]
    | replayed b =>
      simp only [applied, List.cons_append, ih, PnlNote.queued?, Option.toList_none, List.append_nil]
      split <;> rfl
    | _ => simp only [applied, List.cons_append, ih]

/-- A note that neither re-seeds, nor queues, nor books. -/
def PnlNote.Silent (n : PnlNote) : Prop :=
  (∃ id r, n = .skipped id r) ∨ ∃ ids, n = .forgotClientIds ids

/-- Silent notes change nothing of this. -/
theorem silent_append (start : ℚ) (log : List PnlNote) {ns : List PnlNote} (h : ∀ n ∈ ns, n.Silent) :
    estimate start (log ++ ns) = estimate start log ∧
      queuedIds (sinceReseed (log ++ ns)) = queuedIds (sinceReseed log) := by
  induction ns using List.reverseRecOn with
  | nil => simp
  | append_singleton ns n ih =>
    obtain ⟨he, hq⟩ := ih fun m hm => h m (List.mem_append_left _ hm)
    have hn : n.isReseed = false ∧ n.queued? = none ∧ ∀ q, applied q [n] = [] := by
      rcases h n (by simp) with ⟨id, r, rfl⟩ | ⟨ids, rfl⟩
      · exact ⟨rfl, rfl, fun _ => rfl⟩
      · exact ⟨rfl, rfl, fun _ => rfl⟩
    obtain ⟨hres, hque, happ⟩ := hn
    rw [← List.append_assoc]
    constructor
    · rw [← he, estimate, estimate, seed_concat _ _ hres, sinceReseed_concat _ hres, applied_concat,
        happ, List.append_nil]
    · rw [sinceReseed_concat _ hres, queuedIds_append, hq]
      simp [queuedIds, hque]

/-! ## One note at a time -/

section Concat

variable (start : ℚ) (log : List PnlNote)

/-- What a note that does not re-seed adds. -/
theorem estimate_concat {n : PnlNote} (hn : n.isReseed = false) :
    estimate start (log ++ [n]) =
      estimate start log + signedSum (applied (queuedIds (sinceReseed log)) [n]) := by
  rw [estimate, estimate, seed_concat _ _ hn, sinceReseed_concat _ hn, applied_concat, List.nil_append,
    add_assoc, signedSum, signedSum, signedSum, List.map_append, List.sum_append]

theorem estimate_booked (b : Booking) :
    estimate start (log ++ [.booked b]) = estimate start log + b.fill.signed := by
  rw [estimate_concat _ _ rfl]
  simp [applied, signedSum]

theorem estimate_replayed (b : Booking) :
    estimate start (log ++ [.replayed b]) = estimate start log +
      if b.tradeId ∈ queuedIds (sinceReseed log) then b.fill.signed else 0 := by
  rw [estimate_concat _ _ rfl]
  by_cases h : b.tradeId ∈ queuedIds (sinceReseed log) <;> simp [applied, signedSum, h]

theorem estimate_queued (t : PnlTrade) :
    estimate start (log ++ [.queued t]) = estimate start log := by
  rw [estimate_concat _ _ rfl]
  simp [applied, signedSum]

theorem estimate_reseeded (p : ℚ) : estimate start (log ++ [.reseeded p]) = p := by
  rw [estimate, seed_reseeded, sinceReseed_reseeded]
  simp [applied, signedSum]

/-- A note about no queued trade leaves the ids queued since the re-seed. -/
theorem queuedSince_concat {n : PnlNote} (hn : n.isReseed = false) (hq : n.queued? = none) :
    queuedIds (sinceReseed (log ++ [n])) = queuedIds (sinceReseed log) := by
  rw [sinceReseed_concat _ hn, queuedIds_append]
  simp [queuedIds, hq]

end Concat

namespace PnlActor

variable {a a' : PnlActor} {ns log : List PnlNote} {lot start : ℚ}

/-- The deliveries on the grid. -/
def onGrid (lot : ℚ) : Deliveries where
  trade t := ∀ s, t.size.join = some s → s ∈ AddSubgroup.zmultiples lot
  client _ := True
  snapshot p := p.signedPosition ∈ AddSubgroup.zmultiples lot

/-- The position is the estimate, and the generation of a queue entry tells whether it was made since
the last re-seed. -/
structure Estimates (lot start : ℚ) (log : List PnlNote) (a : PnlActor) : Prop where
  pendingOk : PendingOk a
  position : a.accounting.positionSize = estimate start log
  grid : a.accounting.positionSize ∈ AddSubgroup.zmultiples lot
  sizes : ∀ q ∈ a.pending, ∀ s, q.1.size.join = some s → s ∈ AddSubgroup.zmultiples lot
  generation : ∀ q ∈ a.pending, q.2 ≤ a.syncGeneration
  since : ∀ q ∈ a.pending, ∀ id, q.1.tradeId = some id →
    (q.2 < a.syncGeneration ↔ id ∉ queuedIds (sinceReseed log))

theorem Estimates.new (cfg : PnlCfg) (restored : LiveState)
    (hgrid : (new cfg restored).accounting.positionSize ∈ AddSubgroup.zmultiples lot) :
    Estimates lot (new cfg restored).accounting.positionSize [] (new cfg restored) where
  pendingOk := .new cfg restored
  position := by simp [estimate, seed, untilReseed, applied, signedSum]
  grid := hgrid
  sizes := fun _ h => absurd h List.not_mem_nil
  generation := fun _ h => absurd h List.not_mem_nil
  since := fun _ h => absurd h List.not_mem_nil

/-- A booking that is not superseded moves the position by the signed size of its fill. -/
theorem book_position {t : PnlTrade} {id : ℤ} {fill : FillView} (hlot : epsilon < lot)
    (hpos : a.accounting.positionSize ∈ AddSubgroup.zmultiples lot)
    (hf : OwnFill a.cfg.accountIndex t id fill)
    (hsize : ∀ s, t.size.join = some s → s ∈ AddSubgroup.zmultiples lot) :
    (a.book t id fill false).1.accounting.positionSize = a.accounting.positionSize + fill.signed ∧
      a.accounting.positionSize + fill.signed ∈ AddSubgroup.zmultiples lot := by
  have hvalid : Fill.Valid lot ⟨fill.side, fill.price, fill.size⟩ :=
    ⟨hf.price, hf.size, hsize _ (FillView.fromTrade_size hf.view)⟩
  constructor
  · exact (FillAccounting.legs_spec hlot hpos hvalid).position
  · exact add_mem hpos hvalid.signed_mem

/-- The invariant after a move that makes no queue entry and no re-seed. -/
theorem Estimates.ofSub {log' : List PnlNote} (hI : Estimates lot start log a) (hok : PendingOk a')
    (hsub : ∀ q ∈ a'.pending, q ∈ a.pending) (hgen : a'.syncGeneration = a.syncGeneration)
    (hids : queuedIds (sinceReseed log') = queuedIds (sinceReseed log))
    (hpos : a'.accounting.positionSize = estimate start log')
    (hgrid : a'.accounting.positionSize ∈ AddSubgroup.zmultiples lot) : Estimates lot start log' a' where
  pendingOk := hok
  position := hpos
  grid := hgrid
  sizes q hq := hI.sizes q (hsub q hq)
  generation q hq := by
    rw [hgen]
    exact hI.generation q (hsub q hq)
  since q hq := by
    rw [hgen, hids]
    exact hI.since q (hsub q hq)

/-- The invariant after a move that leaves position and generation alone and makes no queue entry. -/
theorem Estimates.silent (hI : Estimates lot start log a) (hok : PendingOk a')
    (hpos : a'.accounting = a.accounting) (hsub : ∀ q ∈ a'.pending, q ∈ a.pending)
    (hgen : a'.syncGeneration = a.syncGeneration) (hns : ∀ n ∈ ns, n.Silent) :
    Estimates lot start (log ++ ns) a' := by
  obtain ⟨he, hids⟩ := silent_append start log hns
  refine hI.ofSub hok hsub hgen hids ?_ ?_
  · rw [hpos, he]
    exact hI.position
  · rw [hpos]
    exact hI.grid

theorem Move.estimates (h : Move (onGrid lot) a ns a') (hlot : epsilon < lot)
    (hI : Estimates lot start log a) : Estimates lot start (log ++ ns) a' := by
  have hok := h.pendingOk hI.pendingOk
  cases h with
  | @register c _ =>
    obtain ⟨s, hs⟩ := registerClientId_eq a c
    rw [hs] at hok ⊢
    refine hI.silent hok rfl (fun _ hq => hq) rfl fun n hn => .inr ?_
    rcases registerClientId_notes a c with he | ⟨ids, he⟩ <;> rw [he] at hn
    · cases hn
    · exact ⟨ids, List.mem_singleton.mp hn⟩
  | count dup unattr _ hn =>
    refine hI.silent hok rfl (fun _ hq => hq) rfl fun n hmem => .inl ?_
    obtain ⟨id, r, he, -⟩ := hn n hmem
    exact ⟨id, r, he⟩
  | capital _ _ => exact hI.silent hok rfl (fun _ hq => hq) rfl fun n hn => absurd hn List.not_mem_nil
  | @evict t g id rest hq hlen hid =>
    have hsub : ∀ q ∈ rest, q ∈ a.pending := fun q hm => hq ▸ List.mem_cons_of_mem _ hm
    exact hI.silent hok rfl hsub rfl fun n hn => .inl ⟨_, _, List.mem_singleton.mp hn⟩
  | position p hp =>
    rcases updatePosition_cases a p with ⟨-, hu⟩ | ⟨-, hu⟩
    · rw [hu] at hok ⊢
      refine ⟨hok, (estimate_reseeded _ _ _).symm, hp, hI.sizes, ?_, ?_⟩
      · exact fun q hm => (hI.generation q hm).trans (Nat.le_succ _)
      · intro q hm id _
        -- Every entry is older than the new generation.
        rw [sinceReseed_reseeded]
        exact ⟨fun _ => List.not_mem_nil, fun _ => Nat.lt_succ_of_le (hI.generation q hm)⟩
    · rw [hu] at hok ⊢
      exact hI.silent hok rfl (fun _ hq => hq) rfl fun n hn => absurd hn List.not_mem_nil
  | @queue t id cid fill ht hf hs hp haw =>
    have hids : queuedIds (sinceReseed (log ++ [.queued t])) = queuedIds (sinceReseed log) ++ [id] := by
      rw [sinceReseed_concat _ rfl, queuedIds_append]
      simp [queuedIds, PnlNote.queued?, hf.tradeId]
    refine ⟨hok, ?_, hI.grid, ?_, ?_, ?_⟩
    · rw [estimate_queued]
      exact hI.position
    · intro q hm
      rcases List.mem_append.mp hm with hm | hm
      · exact hI.sizes q hm
      · rw [List.mem_singleton.mp hm]
        exact ht
    · intro q hm
      rcases List.mem_append.mp hm with hm | hm
      · exact hI.generation q hm
      · rw [List.mem_singleton.mp hm]
    · intro q hmem i hi
      rw [hids, List.mem_append, not_or, List.mem_singleton]
      rcases List.mem_append.mp hmem with hm | hm
      · have hne : i ≠ id := by
          rintro rfl
          refine hp ?_
          rw [hI.pendingOk.ids, List.mem_toFinset, mem_queueIds]
          exact ⟨q, hm, hi⟩
        rw [and_iff_left hne]
        exact hI.since q hm i hi
      · rw [List.mem_singleton.mp hm] at hi ⊢
        have hid : i = id := Option.some.inj (hi.symm.trans hf.tradeId)
        simp [hid]
  | @book t id fill ht hf hs hp haw =>
    obtain ⟨hnew, hgrid⟩ := book_position hlot hI.grid hf ht
    refine hI.ofSub hok (fun _ hq => hq) rfl (queuedSince_concat _ rfl rfl) ?_ (hnew ▸ hgrid)
    rw [hnew, hI.position, estimate_booked, book_fill]
  | @replay t g id fill still rest hq hf hs haw =>
    have hentry : (t, g) ∈ a.pending := hq ▸ List.mem_append_right _ List.mem_cons_self
    have hsub : ∀ q ∈ still ++ rest, q ∈ a.pending := by
      intro q hm
      rw [hq]
      rcases List.mem_append.mp hm with hm | hm
      · exact List.mem_append_left _ hm
      · exact List.mem_append_right _ (List.mem_cons_of_mem _ hm)
    have hsince := hI.since (t, g) hentry id hf.tradeId
    by_cases hsup : g < a.syncGeneration
    · -- An entry from before the re-seed: the position stays.
      have hdec : decide (g < a.syncGeneration) = true := decide_eq_true hsup
      rw [hdec]
      refine hI.ofSub (hdec ▸ hok) hsub rfl (queuedSince_concat _ rfl rfl) ?_ hI.grid
      rw [estimate_replayed, book_tradeId, if_neg (hsince.mp hsup), add_zero, ← hI.position]
      rfl
    · obtain ⟨hnew, hgrid⟩ := book_position hlot hI.grid hf (hI.sizes (t, g) hentry)
      have hdec : decide (g < a.syncGeneration) = false := decide_eq_false hsup
      rw [hdec]
      refine hI.ofSub (hdec ▸ hok) hsub rfl (queuedSince_concat _ rfl rfl) ?_ (hnew ▸ hgrid)
      rw [estimate_replayed, book_tradeId, if_pos (not_not.mp (mt hsince.mpr hsup)), ← hI.position]
      exact hnew

theorem Estimates.steps {pre : List PnlNote} (hI : Estimates lot start pre a) (hlot : epsilon < lot)
    (h : Steps (Move (onGrid lot)) a ns a') : Estimates lot start (pre ++ ns) a' :=
  h.invariant hI fun _ _ _ _ hI hm => hm.estimates hlot hI

theorem deliveries_onGrid {e : PnlEvent} (h : e.OnGrid lot) : e.deliveries.Le (onGrid lot) := by
  cases e with
  | accountAll position trades => exact ⟨h.2, fun _ _ => trivial, h.1⟩
  | _ => exact ⟨fun _ => False.elim, fun _ _ => trivial, fun _ => False.elim⟩

/-- **The position is the last re-seeding snapshot plus the bookings applied since**, after every
sequence of events. -/
theorem position_estimate (cfg : PnlCfg) (restored : LiveState) {lot : ℚ} (hlot : epsilon < lot)
    (hstart : (new cfg restored).accounting.positionSize ∈ AddSubgroup.zmultiples lot)
    (es : List PnlEvent) (hes : ∀ e ∈ es, e.OnGrid lot) :
    (handleAll es (new cfg restored)).1.accounting.positionSize =
      estimate (new cfg restored).accounting.positionSize (handleAll es (new cfg restored)).2 := by
  have h := handleAll_steps (.new cfg restored) fun e he => deliveries_onGrid (hes e he)
  exact ((Estimates.new cfg restored hstart).steps hlot h).position

/-- The fill that races its registration and is in the snapshot of its own message. -/
theorem position_estimate_superseded :
    (handleAll [.accountAll (some ⟨1 / 2, some 100⟩) [testTrade 1 42 .buy 100 (1 / 2) none],
      .registerClientIds [42]] (new testCfg .default)).1.accounting.positionSize = 1 / 2 := by
  have hgrid : (1 / 2 : ℚ) ∈ AddSubgroup.zmultiples (1 / 2 : ℚ) := AddSubgroup.mem_zmultiples _
  have h := position_estimate testCfg .default (show epsilon < 1 / 2 by norm_num [epsilon])
    (zero_mem _)
    [.accountAll (some ⟨1 / 2, some 100⟩) [testTrade 1 42 .buy 100 (1 / 2) none], .registerClientIds [42]]
    (by
      intro e he
      rcases List.mem_cons.mp he with rfl | he
      · refine ⟨fun p hp => ?_, fun t ht s hs => ?_⟩
        · cases hp
          exact hgrid
        · rw [List.mem_singleton.mp ht] at hs
          cases hs
          exact hgrid
      · rw [List.mem_singleton.mp he]
        trivial)
  rw [h]
  decide +kernel

/-! ## An evicted trade

A message with more trades than the queue holds, all of them before their registrations: the first one
is evicted. Its message has a snapshot, so it is delivered again after the re-seed. -/

/-- A trade of ours that is not seen and waits for a registration. -/
structure Waits (a : PnlActor) (t : PnlTrade) (id : ℤ) : Prop where
  own : ∃ fill, OwnFill a.cfg.accountIndex t id fill ∧ ∃ cid, a.awaited fill = some cid
  unseen : id ∉ a.seenTradeIds.members

theorem evictPending_within {q : List (PnlTrade × ℕ)} (hq : q.length ≤ pendingLimit) :
    evictPending q a = ({ a with pending := q }, []) := by
  cases q with
  | nil => rfl
  | cons x rest => rw [evictPending, if_neg (not_lt.mpr hq)]

/-- A queue of waiting trades stays as it is. -/
theorem retryLoop_waits {q : List (PnlTrade × ℕ)}
    (h : ∀ x ∈ q, ∃ id, Waits a x.1 id ∧ id ∈ a.pendingTradeIds) : retryLoop q a = (a, [], q) := by
  induction q with
  | nil => rfl
  | cons x rest ih =>
    obtain ⟨t, g⟩ := x
    obtain ⟨id, ⟨⟨fill, hf, cid, haw⟩, hs⟩, hp⟩ := h (t, g) List.mem_cons_self
    have hid : t.tradeId = some id := hf.tradeId
    have hun : a.unpend t = { a with pendingTradeIds := a.pendingTradeIds.erase id } := by
      simp only [unpend, hid]
    have htry : (a.unpend t).tryAcceptTrade t g = (a.unpend t, .pendingClientId cid, none) := by
      rw [hun]
      exact tryAcceptTrade_pending g hf hs haw
    have hback : { a.unpend t with pendingTradeIds := insert id (a.unpend t).pendingTradeIds } = a := by
      rw [hun]
      simp only [Finset.insert_erase hp]
    unfold retryLoop
    rw [htry]
    simp only [hid, hback, ih fun y hy => h y (List.mem_cons_of_mem _ hy)]

theorem retryPending_waits (h : ∀ x ∈ a.pending, ∃ id, Waits a x.1 id ∧ id ∈ a.pendingTradeIds) :
    a.retryPending = (a, []) := by
  rw [retryPending, retryLoop_waits h]

theorem processAll_append (ts ts' : List PnlTrade) (a : PnlActor) :
    processAll (ts ++ ts') a =
      ((processAll ts' (processAll ts a).1).1, (processAll ts a).2 ++ (processAll ts' (processAll ts a).1).2) := by
  induction ts generalizing a with
  | nil => rfl
  | cons t ts ih => simp only [List.cons_append, processAll, ih, List.append_assoc]

/-- The trades of the message: the first one is of client 1, the others of client 2. -/
def floodTrade (i : ℕ) : PnlTrade := testTrade i (if i = 0 then 1 else 2) .buy 100 1 none

def floodFill (i : ℕ) : FillView := ⟨.buy, 100, 1, 100 * 1, some (if i = 0 then 1 else 2), some 99, none⟩

theorem floodTrade_own (i : ℕ) : OwnFill 7 (floodTrade i) i (floodFill i) :=
  ⟨rfl, rfl, by norm_num [floodFill], by norm_num [floodFill]⟩

/-- A message with `n + 1` trades, the registration of client 1, and its trade once more. -/
def floodEvents (n : ℕ) : List PnlEvent :=
  [.accountAll (some ⟨0, none⟩) ((List.range (n + 1)).map floodTrade),
    .registerClientIds [1], .accountAll none [floodTrade 0]]

/-- The actor after the first `n` trades. -/
def flooded (n : ℕ) : PnlActor :=
  { new testCfg .default with
    pending := (List.range n).map fun i => (floodTrade i, 0)
    pendingTradeIds := (Finset.range n).image Nat.cast }

theorem flooded_fresh (n : ℕ) : (n : ℤ) ∉ (flooded n).pendingTradeIds := by
  simp [flooded]

theorem flooded_ids (n : ℕ) : insert (n : ℤ) (flooded n).pendingTradeIds = (flooded (n + 1)).pendingTradeIds := by
  simp only [flooded]
  rw [Finset.range_add_one, Finset.image_insert]

theorem flooded_pending (n : ℕ) :
    (flooded n).pending ++ [(floodTrade n, (flooded n).syncGeneration)] = (flooded (n + 1)).pending := by
  simp only [flooded, List.range_succ, List.map_append, List.map_singleton]
  rfl

theorem processAll_flood {n : ℕ} (hn : n ≤ pendingLimit) :
    processAll ((List.range n).map floodTrade) (new testCfg .default) =
      (flooded n, (List.range n).map fun i => .queued (floodTrade i)) := by
  induction n with
  | zero => rfl
  | succ n ih =>
    have hlen : (flooded (n + 1)).pending.length ≤ pendingLimit := by
      simpa [flooded] using hn
    have hlast : (flooded n).processOrQueue (floodTrade n) =
        (flooded (n + 1), [.queued (floodTrade n)]) := by
      rw [processOrQueue_waits (floodTrade_own n) (Finset.notMem_empty _) (flooded_fresh n) rfl, flooded_pending, flooded_ids,
        evictPending_within hlen]
      rfl
    rw [List.range_succ, List.map_append, List.map_append, processAll_append, ih (Nat.le_of_succ_le hn)]
    simp only [List.map_singleton, processAll, hlast, List.append_nil]

/-- The actor after the message: trade 0 is gone, and the snapshot is flat. -/
def overflowed (n : ℕ) : PnlActor :=
  { flooded (n + 1) with
    pending := (List.range n).map fun i => (floodTrade (i + 1), 0)
    pendingTradeIds := (flooded (n + 1)).pendingTradeIds.erase 0
    unattributedFillCount := 1
    exchangePositionSeen := true
    accounting := .fromSnapshot 0 0 0 0
    syncGeneration := 1 }

/-- What the message did. -/
def floodNotes (n : ℕ) : List PnlNote :=
  (List.range (n + 1)).map (fun i => .queued (floodTrade i)) ++ [.skipped (some 0) .pendingLimit]

/-- The actor before the snapshot. -/
def overflowing (n : ℕ) : PnlActor :=
  { overflowed n with exchangePositionSeen := false, accounting := .new 0, syncGeneration := 0 }

theorem processOrQueue_overflow {n : ℕ} (hn : n = pendingLimit) :
    (flooded n).processOrQueue (floodTrade n) =
      (overflowing n, [.queued (floodTrade n), .skipped (some 0) .pendingLimit]) := by
  have hsplit : (flooded (n + 1)).pending =
      (floodTrade 0, 0) :: (List.range n).map fun i => (floodTrade (i + 1), 0) := by
    simp only [flooded, List.range_succ_eq_map, List.map_cons, List.map_map]
    rfl
  have hrest : ((List.range n).map fun i => (floodTrade (i + 1), 0)).length ≤ pendingLimit := by
    rw [List.length_map, List.length_range, hn]
  have hfull : pendingLimit <
      ((floodTrade 0, 0) :: (List.range n).map fun i => (floodTrade (i + 1), 0)).length := by
    rw [List.length_cons, List.length_map, List.length_range, hn]
    exact Nat.lt_succ_self _
  rw [processOrQueue_waits (floodTrade_own n) (Finset.notMem_empty _) (flooded_fresh n) rfl,
    flooded_pending, flooded_ids, hsplit,
    evictPending, if_pos hfull]
  simp only [unpend, show (floodTrade 0).tradeId = some 0 from rfl, skip]
  rw [evictPending_within hrest]
  rfl

/-- The trades of client 2 wait until its registration. -/
theorem overflowed_waits {a : PnlActor} {n : ℕ} (hp : a.pending = (overflowed n).pending)
    (hids : a.pendingTradeIds = (overflowed n).pendingTradeIds) (hcfg : a.cfg = testCfg)
    (hclient : (2 : ℤ) ∉ a.strategyClientIds.members)
    (hseen : a.seenTradeIds.members ⊆ {0}) :
    ∀ x ∈ a.pending, ∃ id, Waits a x.1 id ∧ id ∈ a.pendingTradeIds := by
  intro x hx
  rw [hp] at hx
  obtain ⟨i, hi, rfl⟩ := List.mem_map.mp hx
  have hne : ((i + 1 : ℕ) : ℤ) ≠ 0 := by omega
  refine ⟨(i + 1 : ℕ), ⟨⟨floodFill (i + 1), ?_, 2, ?_⟩, fun hm => ?_⟩, ?_⟩
  · rw [hcfg]
    exact floodTrade_own (i + 1)
  · have hfill : (floodFill (i + 1)).clientOrderId = some 2 := rfl
    have hnot : a.attributeToStrategy (floodFill (i + 1)) = false := by
      simp [attributeToStrategy, isKnownStrategy, hfill, hclient, hcfg, testCfg]
    rw [awaited, hnot, if_neg Bool.false_ne_true, hfill]
  · exact hne (Finset.mem_singleton.mp (hseen hm))
  · rw [hids]
    refine Finset.mem_erase.mpr ⟨hne, Finset.mem_image_of_mem _ (Finset.mem_range.mpr ?_)⟩
    have := List.mem_range.mp hi
    omega

theorem handleEvent_flood {n : ℕ} (hn : n = pendingLimit) : (new testCfg .default).handleEvent
    (.accountAll (some ⟨0, none⟩) ((List.range (n + 1)).map floodTrade)) =
      (overflowed n, floodNotes n ++ [.reseeded 0]) := by
  have hall : processAll ((List.range (n + 1)).map floodTrade) (new testCfg .default) =
      (overflowing n, floodNotes n) := by
    rw [List.range_succ, List.map_append, processAll_append, processAll_flood hn.le]
    simp only [List.map_singleton, processAll, processOrQueue_overflow hn, List.append_nil]
    simp only [floodNotes, List.range_succ, List.map_append, List.map_singleton, List.append_assoc]
    rfl
  have hretry : (overflowing n).retryPending = (overflowing n, []) :=
    retryPending_waits (overflowed_waits rfl rfl rfl (Finset.notMem_empty _) (Finset.empty_subset _))
  have hflat : PositionSnapshot.reseeds ⟨0, none⟩ = true := by decide +kernel
  simp only [handleEvent, hall, hretry, updatePosition, if_pos hflat, List.append_nil]
  rfl

/-- The actor that knows client 1. -/
def registered (n : ℕ) : PnlActor := { overflowed n with strategyClientIds := ⟨{1}, [1]⟩ }

theorem registered_waits {a : PnlActor} {n : ℕ} (hp : a.pending = (overflowed n).pending)
    (hids : a.pendingTradeIds = (overflowed n).pendingTradeIds) (hcfg : a.cfg = testCfg)
    (hclient : a.strategyClientIds = ⟨{1}, [1]⟩) (hseen : a.seenTradeIds.members ⊆ {0}) :
    a.retryPending = (a, []) := by
  refine retryPending_waits (overflowed_waits hp hids hcfg ?_ hseen)
  rw [hclient]
  decide

theorem handleEvent_register (n : ℕ) :
    (overflowed n).handleEvent (.registerClientIds [1]) = (registered n, []) := by
  have hreg : registerAll [1] (overflowed n) = (registered n, []) := by
    have hnew : (overflowed n).strategyClientIds.insert idSetCap 1 = (⟨{1}, [1]⟩, []) := by
      show (FifoSet.empty : FifoSet ℤ).insert idSetCap 1 = _
      decide
    simp only [registerAll, registerClientId, hnew]
    rfl
  simp only [handleEvent, hreg,
    registered_waits (show (registered n).pending = (overflowed n).pending from rfl) rfl rfl rfl
      (Finset.empty_subset _)]
  rfl

/-- The evicted trade is a fresh one. -/
theorem handleEvent_again (n : ℕ) :
    (registered n).handleEvent (.accountAll none [floodTrade 0]) =
      (((registered n).book (floodTrade 0) 0 (floodFill 0) false).1,
        [.booked ((registered n).book (floodTrade 0) 0 (floodFill 0) false).2]) := by
  have hown : OwnFill (registered n).cfg.accountIndex (floodTrade 0) 0 (floodFill 0) := floodTrade_own 0
  have hone := processOrQueue_books hown (Finset.notMem_empty _) (Finset.notMem_erase _ _) rfl
  have hseen : ((registered n).book (floodTrade 0) 0 (floodFill 0) false).1.seenTradeIds.members ⊆ {0} := by
    show ((FifoSet.empty : FifoSet ℤ).insert idSetCap 0).1.members ⊆ {0}
    decide
  have hretry : ((registered n).book (floodTrade 0) 0 (floodFill 0) false).1.retryPending =
      (((registered n).book (floodTrade 0) 0 (floodFill 0) false).1, []) :=
    registered_waits (n := n) rfl rfl rfl rfl hseen
  simp only [handleEvent, processAll, hone, hretry, List.append_nil]

/-- A trade whose entry the pending limit evicts moves the position after the re-seed: by trade ids it
was queued before. -/
theorem position_estimate_evicted :
    let r := handleAll (floodEvents pendingLimit) (new testCfg .default)
    (∀ e ∈ floodEvents pendingLimit, e.OnGrid 1) ∧ r.1.accounting.positionSize = 1 ∧
      seed 0 r.2 + signedSum ((bookings (sinceReseed r.2)).filter
        (·.tradeId ∉ queuedIds (untilReseed r.2))) = 0 := by
  obtain ⟨n, hn⟩ : ∃ n, n = pendingLimit := ⟨_, rfl⟩
  rw [← hn]
  have hrun : handleAll (floodEvents n) (new testCfg .default) =
      (((registered n).book (floodTrade 0) 0 (floodFill 0) false).1,
        floodNotes n ++ [.reseeded 0] ++
          [.booked ((registered n).book (floodTrade 0) 0 (floodFill 0) false).2]) := by
    simp only [floodEvents, handleAll, handleEvent_flood hn, handleEvent_register, handleEvent_again,
      List.append_nil, List.nil_append]
  intro r
  have hr : r = _ := hrun
  refine ⟨?_, ?_, ?_⟩
  · have hgrid : (1 : ℚ) ∈ AddSubgroup.zmultiples (1 : ℚ) := AddSubgroup.mem_zmultiples _
    have hflood : ∀ i s, (floodTrade i).size.join = some s → s ∈ AddSubgroup.zmultiples (1 : ℚ) := by
      rintro i s hs
      cases hs
      exact hgrid
    intro e he
    simp only [floodEvents, List.mem_cons, List.not_mem_nil, or_false] at he
    rcases he with rfl | rfl | rfl
    · refine ⟨fun p hp => ?_, fun t ht => ?_⟩
      · cases hp
        exact zero_mem _
      · obtain ⟨i, -, rfl⟩ := List.mem_map.mp ht
        exact hflood i
    · trivial
    · refine ⟨fun p hp => ?_, fun t ht => ?_⟩
      · cases hp
      · rw [List.mem_singleton.mp ht]
        exact hflood 0
  · rw [hr]
    show (FillAccounting.legs 0 0 .buy 100 1).position = 1
    decide +kernel
  · rw [hr]
    have hsince : sinceReseed (floodNotes n ++ [.reseeded 0] ++
        [.booked ((registered n).book (floodTrade 0) 0 (floodFill 0) false).2]) =
        [.booked ((registered n).book (floodTrade 0) 0 (floodFill 0) false).2] := by
      rw [sinceReseed_concat _ rfl, sinceReseed_reseeded, List.nil_append]
    have hmem : (0 : ℤ) ∈ queuedIds (untilReseed (floodNotes n ++ [.reseeded 0] ++
        [.booked ((registered n).book (floodTrade 0) 0 (floodFill 0) false).2])) := by
      rw [untilReseed_concat _ rfl, untilReseed_reseeded, floodNotes, queuedIds, List.mem_filterMap]
      refine ⟨.queued (floodTrade 0), ?_, rfl⟩
      refine List.mem_append_left _ (List.mem_append_left _ (List.mem_map.mpr ⟨0, ?_, rfl⟩))
      exact List.mem_range.mpr (Nat.succ_pos n)
    rw [seed_concat _ _ rfl, seed_reseeded, hsince, zero_add]
    refine List.sum_eq_zero fun x hx => ?_
    -- The only booking since the re-seed is filtered out.
    obtain ⟨b, hb, -⟩ := List.mem_map.mp hx
    obtain ⟨hmem', hnot⟩ := List.mem_filter.mp hb
    rw [List.mem_singleton.mp (show b ∈ [_] from hmem')] at hnot
    exact absurd hmem (of_decide_eq_true hnot)

end PnlActor

end LighterMM
