import LighterMM.Account.PnlActor
import LighterMM.Lib.Trans

/-!
# What an event does to the PnL actor

`Move` lists all that can happen to the actor, one thing at a time: a registration, a booking on
delivery or out of the queue, a trade that is queued, evicted or skipped, a snapshot. Every event is a
run of moves (`handleEvent_steps`), so an invariant of the actor is proved once for each move.

A move says what it was given (`Deliveries`): a theorem about events with certain trades, ids or snapshots
needs the moves with those only.
-/

namespace LighterMM

/-- A trade with an id, our account on a side, and a positive price and size. -/
structure OwnTrade (acct : ℤ) (t : PnlTrade) (id : ℤ) : Prop where
  tradeId : t.tradeId = some id
  account : t.askAccountId = some acct ∨ t.bidAccountId = some acct
  price : ∃ p, t.price.join = some p ∧ 0 < p
  size : ∃ s, t.size.join = some s ∧ 0 < s

/-- The view of an own trade. -/
structure OwnFill (acct : ℤ) (t : PnlTrade) (id : ℤ) (fill : FillView) : Prop where
  tradeId : t.tradeId = some id
  view : FillView.fromTrade t acct = some fill
  price : 0 < fill.price
  size : 0 < fill.size

theorem OwnTrade.fill {acct : ℤ} {t : PnlTrade} {id : ℤ} (h : OwnTrade acct t id) :
    ∃ fill, OwnFill acct t id fill := by
  obtain ⟨hid, hacct, ⟨p, hp, hp0⟩, ⟨s, hs, hs0⟩⟩ := h
  by_cases hask : t.askAccountId = some acct
  · refine ⟨⟨.sell, p, s, t.usdAmount.join.getD (p * s), t.askClientId, t.askId, t.askAccountPnl.join⟩,
      hid, ?_, hp0, hs0⟩
    simp only [FillView.fromTrade, hp, hs, if_pos hask]
  · have hbid := hacct.resolve_left hask
    refine ⟨⟨.buy, p, s, t.usdAmount.join.getD (p * s), t.bidClientId, t.bidId, t.bidAccountPnl.join⟩,
      hid, ?_, hp0, hs0⟩
    simp only [FillView.fromTrade, hp, hs, if_neg hask, if_pos hbid]

theorem OwnFill.unique {acct : ℤ} {t : PnlTrade} {id id' : ℤ} {fill fill' : FillView}
    (h : OwnFill acct t id fill) (h' : OwnFill acct t id' fill') : id = id' ∧ fill = fill' :=
  ⟨Option.some.inj (h.tradeId.symm.trans h'.tradeId), Option.some.inj (h.view.symm.trans h'.view)⟩

/-- The size of a view is the parsed size of its trade. -/
theorem FillView.fromTrade_size {acct : ℤ} {t : PnlTrade} {fill : FillView}
    (h : fromTrade t acct = some fill) : t.size.join = some fill.size := by
  unfold fromTrade at h
  split at h
  · rename_i p s hp hs
    simp only at h
    split at h
    · cases h; exact hs
    · split at h
      · cases h; exact hs
      · cases h
  · cases h

theorem OwnTrade.testTrade (id clientId : ℤ) (side : Side) {price size : ℚ} (pnl : Option ℚ)
    (hp : 0 < price) (hs : 0 < size) :
    OwnTrade 7 (PnlActor.testTrade id clientId side price size pnl) id := by
  cases side with
  | buy => exact ⟨rfl, .inr rfl, ⟨price, rfl, hp⟩, ⟨size, rfl, hs⟩⟩
  | sell => exact ⟨rfl, .inl rfl, ⟨price, rfl, hp⟩, ⟨size, rfl, hs⟩⟩

/-! ## Reading a log -/

namespace PnlNote

def booking? : PnlNote → Option Booking
  | .booked b | .replayed b => some b
  | _ => none

/-- A trade that the actor takes in. -/
def taken? : PnlNote → Option PnlTrade
  | .booked b => some b.trade
  | .queued t => some t
  | _ => none

/-- The id of a trade that the pending limit evicts. -/
def evicted? : PnlNote → Option ℤ
  | .skipped (some id) .pendingLimit => some id
  | _ => none

end PnlNote

def bookings (log : List PnlNote) : List Booking := log.filterMap PnlNote.booking?

def bookedIds (log : List PnlNote) : List ℤ := (bookings log).map (·.tradeId)

def takenTrades (log : List PnlNote) : List PnlTrade := log.filterMap PnlNote.taken?

def evictedIds (log : List PnlNote) : List ℤ := log.filterMap PnlNote.evicted?

@[simp] theorem bookings_append (l l' : List PnlNote) : bookings (l ++ l') = bookings l ++ bookings l' :=
  List.filterMap_append

@[simp] theorem bookedIds_append (l l' : List PnlNote) :
    bookedIds (l ++ l') = bookedIds l ++ bookedIds l' := by
  simp [bookedIds]

@[simp] theorem takenTrades_append (l l' : List PnlNote) :
    takenTrades (l ++ l') = takenTrades l ++ takenTrades l' := List.filterMap_append

@[simp] theorem evictedIds_append (l l' : List PnlNote) :
    evictedIds (l ++ l') = evictedIds l ++ evictedIds l' := List.filterMap_append

section Single

variable (b : Booking) (t : PnlTrade)

@[simp] theorem bookings_booked : bookings [.booked b] = [b] := rfl

@[simp] theorem bookings_replayed : bookings [.replayed b] = [b] := rfl

@[simp] theorem bookings_queued : bookings [.queued t] = [] := rfl

@[simp] theorem takenTrades_booked : takenTrades [.booked b] = [b.trade] := rfl

@[simp] theorem takenTrades_replayed : takenTrades [.replayed b] = [] := rfl

@[simp] theorem takenTrades_queued : takenTrades [.queued t] = [t] := rfl

end Single

/-- A note about a trade that is not taken, and not for the pending limit. -/
def PnlNote.Rejects (n : PnlNote) : Prop := ∃ id r, n = .skipped id r ∧ r ≠ .pendingLimit

/-- What events may deliver. -/
structure Deliveries where
  trade : PnlTrade → Prop
  client : ℤ → Prop
  snapshot : PositionSnapshot → Prop

/-- What one event delivers. -/
def PnlEvent.deliveries : PnlEvent → Deliveries
  | .registerClientIds ids => ⟨fun _ => False, (· ∈ ids), fun _ => False⟩
  | .accountAll position trades => ⟨(· ∈ trades), fun _ => False, (position = some ·)⟩
  | _ => ⟨fun _ => False, fun _ => False, fun _ => False⟩

structure Deliveries.Le (D D' : Deliveries) : Prop where
  trade : ∀ t, D.trade t → D'.trade t
  client : ∀ c, D.client c → D'.client c
  snapshot : ∀ p, D.snapshot p → D'.snapshot p

namespace PnlActor

/-- The ids in the pending queue. -/
def queueIds (a : PnlActor) : List ℤ := a.pending.filterMap (·.1.tradeId)

/-- One thing that happens to the actor, with what it notes. -/
inductive Move (D : Deliveries) (a : PnlActor) : List PnlNote → PnlActor → Prop
  | register {id : ℤ} : D.client id → Move D a (a.registerClientId id).2 (a.registerClientId id).1
  | count (dup unattr : ℕ) (notes : List PnlNote) : (∀ n ∈ notes, n.Rejects) →
      Move D a notes { a with duplicateFillCount := dup, unattributedFillCount := unattr }
  | book {t : PnlTrade} {id : ℤ} {fill : FillView} : D.trade t → OwnFill a.cfg.accountIndex t id fill →
      id ∉ a.seenTradeIds.members → id ∉ a.pendingTradeIds → a.awaited fill = none →
      Move D a [.booked (a.book t id fill false).2] (a.book t id fill false).1
  | replay {t : PnlTrade} {g : ℕ} {id : ℤ} {fill : FillView} {still rest : List (PnlTrade × ℕ)} :
      a.pending = still ++ (t, g) :: rest → OwnFill a.cfg.accountIndex t id fill →
      id ∉ a.seenTradeIds.members → a.awaited fill = none →
      Move D a [.replayed (a.book t id fill (decide (g < a.syncGeneration))).2]
        { (a.book t id fill (decide (g < a.syncGeneration))).1 with
          pending := still ++ rest, pendingTradeIds := a.pendingTradeIds.erase id }
  | queue {t : PnlTrade} {id cid : ℤ} {fill : FillView} : D.trade t →
      OwnFill a.cfg.accountIndex t id fill → id ∉ a.seenTradeIds.members → id ∉ a.pendingTradeIds →
      a.awaited fill = some cid →
      Move D a [.queued t]
        { a with pending := a.pending ++ [(t, a.syncGeneration)],
                 pendingTradeIds := insert id a.pendingTradeIds }
  | evict {t : PnlTrade} {g : ℕ} {id : ℤ} {rest : List (PnlTrade × ℕ)} : a.pending = (t, g) :: rest →
      pendingLimit < a.pending.length → t.tradeId = some id →
      Move D a [.skipped (some id) .pendingLimit]
        { a with pending := rest, pendingTradeIds := a.pendingTradeIds.erase id,
                 unattributedFillCount := a.unattributedFillCount + 1 }
  | position (p : PositionSnapshot) : D.snapshot p → Move D a (a.updatePosition p).2 (a.updatePosition p).1
  | capital (c v : Option ℚ) : Move D a [] { a with availableCapital := c, portfolioValue := v }

theorem Move.mono {D D' : Deliveries} {a a' : PnlActor} {ns : List PnlNote} (h : Move D a ns a')
    (hD : D.Le D') : Move D' a ns a' := by
  cases h with
  | register hid => exact .register (hD.client _ hid)
  | count dup unattr _ hn => exact .count dup unattr _ hn
  | book ht hf hs hp haw => exact .book (hD.trade _ ht) hf hs hp haw
  | replay hq hf hs haw => exact .replay hq hf hs haw
  | queue ht hf hs hp haw => exact .queue (hD.trade _ ht) hf hs hp haw
  | evict hq hlen hid => exact .evict hq hlen hid
  | position p hp => exact .position p (hD.snapshot p hp)
  | capital c v => exact .capital c v

/-- The pending set and the pending queue hold the same ids, no id is pending twice or also seen, and
every pending trade is an own one. -/
structure PendingOk (a : PnlActor) : Prop where
  ids : a.pendingTradeIds = a.queueIds.toFinset
  nodup : a.queueIds.Nodup
  own : ∀ q ∈ a.pending, ∃ id fill, OwnFill a.cfg.accountIndex q.1 id fill
  unseen : ∀ id ∈ a.pendingTradeIds, id ∉ a.seenTradeIds.members

/-! ## What the operations leave alone -/

variable {a a' : PnlActor} {D : Deliveries} {ns : List PnlNote}

section Frames

variable (a) (t : PnlTrade) (id : ℤ) (fill : FillView) (superseded : Bool)

@[simp] theorem book_cfg : (a.book t id fill superseded).1.cfg = a.cfg := rfl

@[simp] theorem book_pending : (a.book t id fill superseded).1.pending = a.pending := rfl

@[simp] theorem book_pendingTradeIds :
    (a.book t id fill superseded).1.pendingTradeIds = a.pendingTradeIds := rfl

@[simp] theorem book_syncGeneration :
    (a.book t id fill superseded).1.syncGeneration = a.syncGeneration := rfl

@[simp] theorem book_strategyClientIds :
    (a.book t id fill superseded).1.strategyClientIds = a.strategyClientIds := rfl

@[simp] theorem book_seenTradeIds :
    (a.book t id fill superseded).1.seenTradeIds = (a.seenTradeIds.insert idSetCap id).1 := rfl

@[simp] theorem book_trade : (a.book t id fill superseded).2.trade = t := rfl

@[simp] theorem book_tradeId : (a.book t id fill superseded).2.tradeId = id := rfl

@[simp] theorem book_fill : (a.book t id fill superseded).2.fill = fill := rfl

end Frames

/-- A registration only touches the set of client ids, and only notes the ids that fall out of it. -/
theorem registerClientId_eq (a : PnlActor) (id : ℤ) :
    ∃ s, (a.registerClientId id).1 = { a with strategyClientIds := s } := by
  unfold registerClientId
  split
  · exact ⟨_, rfl⟩
  · exact ⟨a.strategyClientIds, rfl⟩

theorem registerClientId_notes (a : PnlActor) (id : ℤ) :
    (a.registerClientId id).2 = [] ∨ ∃ ids, (a.registerClientId id).2 = [.forgotClientIds ids] := by
  unfold registerClientId
  split
  · dsimp only
    split
    · exact .inl rfl
    · exact .inr ⟨_, rfl⟩
  · exact .inl rfl

/-- What a snapshot writes: it re-seeds the accounting or not. -/
theorem updatePosition_cases (a : PnlActor) (p : PositionSnapshot) :
    (PositionSnapshot.reseeds p = true ∧ a.updatePosition p =
      ({ a with
          exchangePositionSeen := true, exchangePosition := p.signedPosition
          exchangeEntryVwap := p.entryVwap
          accounting := .fromSnapshot a.cfg.makerFeeRate p.signedPosition (p.entryVwap.getD 0)
            a.strategyRealizedPnlUsdc
          syncGeneration := a.syncGeneration + 1 }, [.reseeded p.signedPosition])) ∨
    (PositionSnapshot.reseeds p = false ∧ a.updatePosition p =
      ({ a with
          exchangePositionSeen := true, exchangePosition := p.signedPosition
          exchangeEntryVwap := p.entryVwap }, [])) := by
  by_cases h : PositionSnapshot.reseeds p = true
  · exact .inl ⟨h, if_pos h⟩
  · exact .inr ⟨by simpa using h, if_neg h⟩

/-! ## An event is a run of moves -/

theorem mem_queueIds {id : ℤ} : id ∈ a.queueIds ↔ ∃ q ∈ a.pending, q.1.tradeId = some id := by
  simp [queueIds, List.mem_filterMap]

/-- The entry of an own trade in the queue. -/
theorem queueIds_split {t : PnlTrade} {g : ℕ} {id : ℤ} {still rest : List (PnlTrade × ℕ)}
    (hq : a.pending = still ++ (t, g) :: rest) (hid : t.tradeId = some id) :
    a.queueIds = still.filterMap (·.1.tradeId) ++ id :: rest.filterMap (·.1.tradeId) := by
  simp only [queueIds, hq, List.filterMap_append, List.filterMap_cons, hid]

theorem PendingOk.new (cfg : PnlCfg) (restored : LiveState) : PendingOk (new cfg restored) where
  ids := rfl
  nodup := List.nodup_nil
  own := fun _ h => absurd h List.not_mem_nil
  unseen := fun _ h => absurd h (Finset.notMem_empty _)

/-- An entry leaves the queue. -/
theorem PendingOk.remove {t : PnlTrade} {g : ℕ} {id : ℤ} {still rest : List (PnlTrade × ℕ)}
    (h : PendingOk a) (hq : a.pending = still ++ (t, g) :: rest) (hid : t.tradeId = some id) :
    PendingOk { a with pending := still ++ rest, pendingTradeIds := a.pendingTradeIds.erase id } := by
  have hsplit := queueIds_split hq hid
  have hnd := h.nodup
  rw [hsplit] at hnd
  have hrest : still.filterMap (·.1.tradeId) ++ rest.filterMap (·.1.tradeId) =
      (still ++ rest).filterMap (·.1.tradeId) := List.filterMap_append.symm
  obtain ⟨hnot, hnd'⟩ := List.nodup_middle.mp hnd |> List.nodup_cons.mp
  refine ⟨?_, ?_, ?_, ?_⟩
  · show a.pendingTradeIds.erase id = ((still ++ rest).filterMap (·.1.tradeId)).toFinset
    rw [h.ids, hsplit, ← hrest]
    ext x
    by_cases hx : x = id
    · subst hx
      simp only [Finset.mem_erase, ne_eq, not_true_eq_false, false_and, List.mem_toFinset, false_iff]
      exact hnot
    · simp [hx]
  · show ((still ++ rest).filterMap (·.1.tradeId)).Nodup
    rw [← hrest]
    exact hnd'
  · intro q hmem
    refine h.own q ?_
    rw [hq]
    rcases List.mem_append.mp hmem with hm | hm
    · exact List.mem_append_left _ hm
    · exact List.mem_append_right _ (List.mem_cons_of_mem _ hm)
  · intro x hx
    exact h.unseen x (Finset.mem_of_mem_erase hx)

/-- What leaves the queue is no longer pending. -/
theorem PendingOk.entry {t : PnlTrade} {g : ℕ} {id : ℤ} {still rest : List (PnlTrade × ℕ)}
    (h : PendingOk a) (hq : a.pending = still ++ (t, g) :: rest) (hid : t.tradeId = some id) :
    id ∈ a.pendingTradeIds := by
  rw [h.ids, List.mem_toFinset, mem_queueIds]
  exact ⟨(t, g), by rw [hq]; exact List.mem_append_right _ List.mem_cons_self, hid⟩

/-- Only `id` is newly seen. -/
theorem insert_unseen {s : FifoSet ℤ} {cap : ℕ} {id x : ℤ} (hx : x ∉ s.members) (hne : x ≠ id) :
    x ∉ (s.insert cap id).1.members := fun hm =>
  (FifoSet.mem_insert hm).elim hne hx

theorem Move.cfg_eq (h : Move D a ns a') : a'.cfg = a.cfg := by
  cases h with
  | @register id _ =>
    obtain ⟨s, hs⟩ := registerClientId_eq a id
    rw [hs]
  | position p _ =>
    rcases updatePosition_cases a p with ⟨-, hu⟩ | ⟨-, hu⟩ <;> rw [hu]
  | _ => rfl

theorem Move.pendingOk (h : Move D a ns a') (hok : PendingOk a) : PendingOk a' := by
  cases h with
  | @register id _ =>
    obtain ⟨s, hs⟩ := registerClientId_eq a id
    rw [hs]
    exact ⟨hok.ids, hok.nodup, hok.own, hok.unseen⟩
  | count dup unattr _ _ => exact ⟨hok.ids, hok.nodup, hok.own, hok.unseen⟩
  | capital c v => exact ⟨hok.ids, hok.nodup, hok.own, hok.unseen⟩
  | position p _ =>
    rcases updatePosition_cases a p with ⟨-, hu⟩ | ⟨-, hu⟩ <;> rw [hu] <;>
      exact ⟨hok.ids, hok.nodup, hok.own, hok.unseen⟩
  | evict hq _ hid =>
    have hrem := hok.remove (show a.pending = [] ++ _ from hq) hid
    exact ⟨hrem.ids, hrem.nodup, hrem.own, hrem.unseen⟩
  | @queue t id cid fill ht hf hs hp haw =>
    have hids : ({ a with pending := a.pending ++ [(t, a.syncGeneration)],
                          pendingTradeIds := insert id a.pendingTradeIds } : PnlActor).queueIds =
        a.queueIds ++ [id] := by
      simp [queueIds, hf.tradeId]
    refine ⟨?_, ?_, ?_, ?_⟩
    · rw [hids, List.toFinset_append, ← hok.ids]
      ext x
      simp
    · rw [hids, ← List.concat_eq_append, List.nodup_concat]
      refine ⟨fun hm => hp ?_, hok.nodup⟩
      rw [hok.ids]
      exact List.mem_toFinset.mpr hm
    · intro q hq
      rcases List.mem_append.mp hq with hq | hq
      · exact hok.own q hq
      · rw [List.mem_singleton.mp hq]
        exact ⟨id, fill, hf⟩
    · intro x hx
      rcases Finset.mem_insert.mp hx with rfl | hx
      · exact hs
      · exact hok.unseen x hx
  | book _ hf hs hp _ =>
    refine ⟨hok.ids, hok.nodup, hok.own, fun x hx => ?_⟩
    exact insert_unseen (hok.unseen x hx) fun he => hp (he ▸ hx)
  | replay hq hf hs _ =>
    have hrem := hok.remove hq hf.tradeId
    refine ⟨hrem.ids, hrem.nodup, hrem.own, fun x hx => ?_⟩
    exact insert_unseen (hok.unseen x (Finset.mem_of_mem_erase hx)) (Finset.ne_of_mem_erase hx)

/-- The run rule for `PendingOk`. -/
theorem PendingOk.steps (hok : PendingOk a) (h : Steps (Move D) a ns a') : PendingOk a' :=
  @Steps.invariant _ _ _ _ _ _ (fun _ b => PendingOk b) [] h hok fun _ _ _ _ hI hm => hm.pendingOk hI

theorem cfg_of_steps (h : Steps (Move D) a ns a') : a'.cfg = a.cfg :=
  @Steps.invariant _ _ _ _ _ _ (fun _ b => b.cfg = a.cfg) [] h rfl fun _ _ _ _ hI hm => hm.cfg_eq.trans hI

/-- A fresh trade of ours whose client id is not registered yet. -/
theorem tryAcceptTrade_pending {t : PnlTrade} {id cid : ℤ} {fill : FillView} (g : ℕ)
    (hf : OwnFill a.cfg.accountIndex t id fill) (hs : id ∉ a.seenTradeIds.members)
    (haw : a.awaited fill = some cid) : a.tryAcceptTrade t g = (a, .pendingClientId cid, none) := by
  have hbad : ¬ (fill.price ≤ 0 ∨ fill.size ≤ 0) := by
    rw [not_or, not_le, not_le]
    exact ⟨hf.price, hf.size⟩
  simp only [tryAcceptTrade, hf.tradeId, if_neg hs, hf.view, if_neg hbad, haw]

/-- A fresh trade of ours that waits for no registration. -/
theorem tryAcceptTrade_booked {t : PnlTrade} {id : ℤ} {fill : FillView} (g : ℕ)
    (hf : OwnFill a.cfg.accountIndex t id fill) (hs : id ∉ a.seenTradeIds.members)
    (haw : a.awaited fill = none) :
    a.tryAcceptTrade t g = ((a.book t id fill (decide (g < a.syncGeneration))).1, .accepted,
      some (a.book t id fill (decide (g < a.syncGeneration))).2) := by
  have hbad : ¬ (fill.price ≤ 0 ∨ fill.size ≤ 0) := by
    rw [not_or, not_le, not_le]
    exact ⟨hf.price, hf.size⟩
  simp only [tryAcceptTrade, hf.tradeId, if_neg hs, hf.view, if_neg hbad, haw]

/-- A delivered trade that waits joins the queue, and then the oldest ones leave it. -/
theorem processOrQueue_waits {t : PnlTrade} {id cid : ℤ} {fill : FillView}
    (hf : OwnFill a.cfg.accountIndex t id fill) (hs : id ∉ a.seenTradeIds.members)
    (hp : id ∉ a.pendingTradeIds) (haw : a.awaited fill = some cid) :
    a.processOrQueue t =
      ((evictPending (a.pending ++ [(t, a.syncGeneration)])
          { a with pendingTradeIds := insert id a.pendingTradeIds }).1,
        .queued t :: (evictPending (a.pending ++ [(t, a.syncGeneration)])
          { a with pendingTradeIds := insert id a.pendingTradeIds }).2) := by
  simp only [processOrQueue, show t.tradeId = some id from hf.tradeId, if_neg hs, if_neg hp,
    tryAcceptTrade_pending _ hf hs haw]

/-- A delivered trade that waits for no registration is not superseded. -/
theorem processOrQueue_books {t : PnlTrade} {id : ℤ} {fill : FillView}
    (hf : OwnFill a.cfg.accountIndex t id fill) (hs : id ∉ a.seenTradeIds.members)
    (hp : id ∉ a.pendingTradeIds) (haw : a.awaited fill = none) :
    a.processOrQueue t = ((a.book t id fill false).1, [.booked (a.book t id fill false).2]) := by
  have htry := tryAcceptTrade_booked a.syncGeneration hf hs haw
  rw [decide_eq_false (lt_irrefl a.syncGeneration)] at htry
  simp only [processOrQueue, show t.tradeId = some id from hf.tradeId, if_neg hs, if_neg hp, htry]
  rfl

/-- A fresh trade is either one of ours or skipped. -/
theorem tryAcceptTrade_cases {t : PnlTrade} {id : ℤ} (g : ℕ) (hid : t.tradeId = some id)
    (hs : id ∉ a.seenTradeIds.members) :
    (∃ fill, OwnFill a.cfg.accountIndex t id fill) ∨
      ∃ r, r ≠ .pendingLimit ∧ a.tryAcceptTrade t g = (a, .skipped r, none) := by
  simp only [tryAcceptTrade, hid, if_neg hs]
  cases hv : FillView.fromTrade t a.cfg.accountIndex with
  | none => exact .inr ⟨.accountNotInTrade, by decide, rfl⟩
  | some fill =>
    by_cases hbad : fill.price ≤ 0 ∨ fill.size ≤ 0
    · exact .inr ⟨.invalidPriceOrSize, by decide, by simp only [if_pos hbad]⟩
    · rw [not_or, not_le, not_le] at hbad
      exact .inl ⟨fill, hid, hv, hbad.1, hbad.2⟩

/-- `evictPending` ignores the queue of the actor that it is given: it works on `q`. -/
theorem evictPending_steps (a : PnlActor) {q : List (PnlTrade × ℕ)}
    (hown : ∀ x ∈ q, ∃ id, x.1.tradeId = some id) :
    Steps (Move D) { a with pending := q } (evictPending q a).2 (evictPending q a).1 := by
  induction q generalizing a with
  | nil => exact .refl
  | cons x rest ih =>
    obtain ⟨t, g⟩ := x
    obtain ⟨id, hid⟩ := hown (t, g) List.mem_cons_self
    dsimp only at hid
    unfold evictPending
    by_cases hlen : pendingLimit < ((t, g) :: rest).length
    · rw [if_pos hlen]
      have hmove : Move D { a with pending := (t, g) :: rest } [.skipped t.tradeId .pendingLimit]
          { ((a.unpend t).skip t.tradeId .pendingLimit).1 with pending := rest } := by
        simp only [unpend, hid, skip]
        exact .evict rfl hlen hid
      exact (Steps.single hmove).trans (ih _ fun x hx => hown x (List.mem_cons_of_mem _ hx))
    · rw [if_neg hlen]
      exact .refl

theorem processOrQueue_steps {t : PnlTrade} (hok : PendingOk a) (ht : D.trade t) :
    Steps (Move D) a (a.processOrQueue t).2 (a.processOrQueue t).1 := by
  cases hid : t.tradeId with
  | none =>
    simp only [processOrQueue, hid]
    refine .single (.count _ _ _ fun n hn => ?_)
    exact ⟨_, _, List.mem_singleton.mp hn, by decide⟩
  | some id =>
    by_cases hs : id ∈ a.seenTradeIds.members
    · simp only [processOrQueue, hid, if_pos hs]
      exact .single (.count _ _ _ fun n hn => absurd hn List.not_mem_nil)
    by_cases hp : id ∈ a.pendingTradeIds
    · simp only [processOrQueue, hid, if_neg hs, if_pos hp]
      exact .refl
    rcases tryAcceptTrade_cases a.syncGeneration hid hs with ⟨fill, hf⟩ | ⟨r, hr, he⟩
    · cases haw : a.awaited fill with
      | none =>
        rw [processOrQueue_books hf hs hp haw]
        exact .single (.book ht hf hs hp haw)
      | some cid =>
        rw [processOrQueue_waits hf hs hp haw]
        have hmove : Move D a _ _ := .queue ht hf hs hp haw
        refine (Steps.single hmove).trans
          (evictPending_steps { a with pendingTradeIds := insert id a.pendingTradeIds } fun x hx => ?_)
        obtain ⟨i, _, hi⟩ := (hmove.pendingOk hok).own x hx
        exact ⟨i, hi.tradeId⟩
    · simp only [processOrQueue, hid, if_neg hs, if_neg hp, he]
      refine .single (.count _ _ _ fun n hn => ?_)
      exact ⟨_, _, List.mem_singleton.mp hn, hr⟩

theorem processAll_steps {ts : List PnlTrade} (hok : PendingOk a) (ht : ∀ t ∈ ts, D.trade t) :
    Steps (Move D) a (processAll ts a).2 (processAll ts a).1 := by
  induction ts generalizing a with
  | nil => exact .refl
  | cons t ts ih =>
    have h := processOrQueue_steps hok (ht t List.mem_cons_self)
    exact h.trans (ih (hok.steps h) fun u hu => ht u (List.mem_cons_of_mem _ hu))

/-- The loop of `retry_pending`, with the entries `still` that it has put back so far. -/
theorem retryLoop_steps (a : PnlActor) {still todo : List (PnlTrade × ℕ)}
    (hok : PendingOk { a with pending := still ++ todo }) :
    Steps (Move D) { a with pending := still ++ todo } (retryLoop todo a).2.1
      { (retryLoop todo a).1 with pending := still ++ (retryLoop todo a).2.2 } := by
  induction todo generalizing a still with
  | nil => exact .refl
  | cons x rest ih =>
    obtain ⟨t, g⟩ := x
    obtain ⟨id, fill, hf⟩ := hok.own (t, g) (List.mem_append_right _ List.mem_cons_self)
    have hpend : id ∈ a.pendingTradeIds := hok.entry rfl hf.tradeId
    have hs : id ∉ a.seenTradeIds.members := hok.unseen id hpend
    have hun : a.unpend t = { a with pendingTradeIds := a.pendingTradeIds.erase id } := by
      simp only [unpend, show t.tradeId = some id from hf.tradeId]
    have hf' : OwnFill (a.unpend t).cfg.accountIndex t id fill := by rw [hun]; exact hf
    have hs' : id ∉ (a.unpend t).seenTradeIds.members := by rw [hun]; exact hs
    have haw : (a.unpend t).awaited fill = a.awaited fill := by rw [hun]; rfl
    unfold retryLoop
    cases hw : a.awaited fill with
    | none =>
      rw [tryAcceptTrade_booked g hf' hs' (haw.trans hw)]
      have hmove : Move D { a with pending := still ++ (t, g) :: rest }
          [.replayed ((a.unpend t).book t id fill (decide (g < (a.unpend t).syncGeneration))).2]
          { ((a.unpend t).book t id fill (decide (g < (a.unpend t).syncGeneration))).1 with
            pending := still ++ rest } := by
        rw [hun]
        exact .replay rfl hf hs hw
      exact (Steps.single hmove).trans (ih _ (hmove.pendingOk hok))
    | some cid =>
      -- The id is taken out and put back.
      have hback : { a.unpend t with pendingTradeIds := insert id (a.unpend t).pendingTradeIds } = a := by
        rw [hun]
        simp only [Finset.insert_erase hpend]
      rw [tryAcceptTrade_pending g hf' hs' (haw.trans hw)]
      simp only [show t.tradeId = some id from hf.tradeId, hback]
      have hok' : PendingOk { a with pending := (still ++ [(t, g)]) ++ rest } := by simpa using hok
      have hrest := ih a hok'
      simpa using hrest

theorem retryPending_steps (hok : PendingOk a) :
    Steps (Move D) a a.retryPending.2 a.retryPending.1 :=
  retryLoop_steps a (show PendingOk { a with pending := [] ++ a.pending } from hok)

theorem registerAll_steps {ids : List ℤ} (hids : ∀ id ∈ ids, D.client id) :
    Steps (Move D) a (registerAll ids a).2 (registerAll ids a).1 := by
  induction ids generalizing a with
  | nil => exact .refl
  | cons id ids ih =>
    exact (Steps.single (.register (hids id List.mem_cons_self))).trans
      (ih fun x hx => hids x (List.mem_cons_of_mem _ hx))

/-- What the account stream's event does after its trades. -/
theorem handleEvent_accountAll (a : PnlActor) (position : Option PositionSnapshot)
    (trades : List PnlTrade) (hok : PendingOk (processAll trades a).1) :
    ∃ ns, Steps (Move (PnlEvent.accountAll position trades).deliveries) (processAll trades a).1 ns
        (a.handleEvent (.accountAll position trades)).1 ∧
      (a.handleEvent (.accountAll position trades)).2 = (processAll trades a).2 ++ ns := by
  have h : Steps (Move (PnlEvent.accountAll position trades).deliveries) _ _ _ :=
    retryPending_steps hok
  cases position with
  | none => exact ⟨_, h, rfl⟩
  | some p => exact ⟨_, h.tail (.position p rfl), List.append_assoc _ _ _⟩

/-- **An event is a run of moves** with what it delivers. -/
theorem handleEvent_steps (e : PnlEvent) (hok : PendingOk a) :
    Steps (Move e.deliveries) a (a.handleEvent e).2 (a.handleEvent e).1 := by
  cases e with
  | registerClientIds ids =>
    have h : Steps (Move (PnlEvent.registerClientIds ids).deliveries) a _ _ :=
      registerAll_steps fun _ hid => hid
    exact h.trans (retryPending_steps (hok.steps h))
  | accountAll position trades =>
    have h : Steps (Move (PnlEvent.accountAll position trades).deliveries) a _ _ :=
      processAll_steps hok fun _ ht => ht
    obtain ⟨ns, hns, he⟩ := handleEvent_accountAll a position trades (hok.steps h)
    rw [he]
    exact h.trans hns
  | capital c v => exact .single (.capital _ _)
  | shutdown => exact .refl

/-- A run of events whose deliveries are all in `D`. -/
theorem handleAll_steps {es : List PnlEvent} (hok : PendingOk a)
    (hD : ∀ e ∈ es, e.deliveries.Le D) : Steps (Move D) a (handleAll es a).2 (handleAll es a).1 := by
  induction es generalizing a with
  | nil => exact .refl
  | cons e es ih =>
    have h := handleEvent_steps e hok
    have hD' : Steps (Move D) a _ _ := h.mono fun _ _ _ hm => hm.mono (hD e List.mem_cons_self)
    exact hD'.trans (ih (hok.steps h) fun x hx => hD x (List.mem_cons_of_mem _ hx))

theorem handleAll_append (es es' : List PnlEvent) (a : PnlActor) :
    handleAll (es ++ es') a =
      ((handleAll es' (handleAll es a).1).1, (handleAll es a).2 ++ (handleAll es' (handleAll es a).1).2) := by
  induction es generalizing a with
  | nil => rfl
  | cons e es ih => simp only [List.cons_append, handleAll, ih, List.append_assoc]

/-! ## Which moves book -/

/-- A move that books nothing. -/
structure Quiet (a : PnlActor) (ns : List PnlNote) (a' : PnlActor) : Prop where
  bookings : bookings ns = []
  seen : a'.seenTradeIds = a.seenTradeIds
  fillCount : a'.fillCount = a.fillCount
  buyCount : a'.buyCount = a.buyCount
  sellCount : a'.sellCount = a.sellCount
  notional : a'.notionalUsdc = a.notionalUsdc
  realized : a'.strategyRealizedPnlUsdc = a.strategyRealizedPnlUsdc

/-- A move that books `b`. -/
structure Books (a : PnlActor) (ns : List PnlNote) (a' : PnlActor) (b : Booking) : Prop where
  bookings : bookings ns = [b]
  fresh : b.tradeId ∉ a.seenTradeIds.members
  own : OwnFill a.cfg.accountIndex b.trade b.tradeId b.fill
  awaited : a.awaited b.fill = none
  attributed : b.attributed = a.attributeToStrategy b.fill
  exchangePnl : ∀ x, b.fill.exchangePnl = some x → b.realizedDelta = x
  forgotten : b.forgotten = (a.seenTradeIds.insert idSetCap b.tradeId).2
  seen : a'.seenTradeIds = (a.seenTradeIds.insert idSetCap b.tradeId).1
  fillCount : a'.fillCount = a.fillCount + 1
  buyCount : a'.buyCount = a.buyCount + if b.fill.side = .buy then 1 else 0
  sellCount : a'.sellCount = a.sellCount + if b.fill.side = .sell then 1 else 0
  notional : a'.notionalUsdc = a.notionalUsdc + b.fill.notionalUsd
  realized : a'.strategyRealizedPnlUsdc =
    a.strategyRealizedPnlUsdc + if b.attributed then b.realizedDelta else 0

theorem book_exchangePnl (t : PnlTrade) (id : ℤ) (fill : FillView) (superseded : Bool) (x : ℚ)
    (hx : fill.exchangePnl = some x) : (a.book t id fill superseded).2.realizedDelta = x := by
  simp only [book, hx, Option.getD_some]

/-- Notes that reject trades book and take nothing. -/
theorem rejects_eq_nil {α : Type*} {f : PnlNote → Option α} (hf : ∀ id r, r ≠ .pendingLimit →
    f (.skipped id r) = none) (hn : ∀ n ∈ ns, n.Rejects) : ns.filterMap f = [] := by
  rw [List.filterMap_eq_nil_iff]
  intro n hmem
  obtain ⟨id, r, rfl, hr⟩ := hn n hmem
  exact hf id r hr

theorem Move.booking_cases (h : Move D a ns a') : Quiet a ns a' ∨ ∃ b, Books a ns a' b := by
  cases h with
  | @register id _ =>
    obtain ⟨s, hs⟩ := registerClientId_eq a id
    rw [hs]
    refine .inl ⟨?_, rfl, rfl, rfl, rfl, rfl, rfl⟩
    rcases registerClientId_notes a id with hn | ⟨ids, hn⟩ <;> rw [hn] <;> rfl
  | count dup unattr _ hn => exact .inl ⟨rejects_eq_nil (fun _ _ _ => rfl) hn, rfl, rfl, rfl, rfl, rfl, rfl⟩
  | book ht hf hs hp haw =>
    exact .inr ⟨_, rfl, hs, hf, haw, rfl, book_exchangePnl _ _ _ _, rfl, rfl, rfl, rfl, rfl, rfl, rfl⟩
  | replay hq hf hs haw =>
    exact .inr ⟨_, rfl, hs, hf, haw, rfl, book_exchangePnl _ _ _ _, rfl, rfl, rfl, rfl, rfl, rfl, rfl⟩
  | position p _ =>
    rcases updatePosition_cases a p with ⟨-, hu⟩ | ⟨-, hu⟩ <;> rw [hu] <;>
      exact .inl ⟨rfl, rfl, rfl, rfl, rfl, rfl, rfl⟩
  | _ => exact .inl ⟨rfl, rfl, rfl, rfl, rfl, rfl, rfl⟩

end PnlActor

end LighterMM
