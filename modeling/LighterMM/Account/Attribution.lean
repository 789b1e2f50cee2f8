import LighterMM.Account.Booking

/-!
# When a client id is registered

A fill that comes before the registration of its client id waits in the queue and is booked later,
perhaps after a snapshot that already includes it.

* `Known`, `Conserved`, `Totals`: what was taken in is booked or pending, and the totals are sums over the
  bookings.
* `handleEvent_settled`: no trade that could be booked is left in the queue.
* `registration_timing`: fill count and notional depend on the trades alone, and so does the realized
  PnL if the exchange reports the PnL of each fill. Without it the local estimate depends on the order of
  the bookings and is left out of a superseded one (`registration_timing_unreported`).
-/

namespace LighterMM

namespace PnlEvent

def trades : PnlEvent → List PnlTrade
  | .accountAll _ trades => trades
  | _ => []

def isRegistration : PnlEvent → Bool
  | .registerClientIds _ => true
  | _ => false

end PnlEvent

/-- The trades that the events deliver, in order. -/
def delivered (es : List PnlEvent) : List PnlTrade := es.flatMap PnlEvent.trades

/-- The notional of our side of a trade. -/
def tradeNotional (acct : ℤ) (t : PnlTrade) : ℚ :=
  ((FillView.fromTrade t acct).map (·.notionalUsd)).getD 0

/-- The PnL that the exchange reports of our side of a trade. -/
def tradePnl (acct : ℤ) (t : PnlTrade) : Option ℚ := (FillView.fromTrade t acct).bind (·.exchangePnl)

theorem delivered_cons (e : PnlEvent) (es : List PnlEvent) :
    delivered (e :: es) = e.trades ++ delivered es := List.flatMap_cons

/-- Registrations deliver no trade. -/
theorem delivered_filter (es : List PnlEvent) :
    delivered (es.filter (!·.isRegistration)) = delivered es := by
  induction es with
  | nil => rfl
  | cons e es ih =>
    rw [delivered_cons, ← ih]
    cases e with
    | registerClientIds ids => rfl
    | _ => rfl

namespace PnlActor

variable {a a' : PnlActor} {D : Deliveries} {ns pre log : List PnlNote}

/-! ## What is seen or pending was taken in -/

/-- Every id that is seen or pending is that of a trade taken in before. -/
structure Known (log : List PnlNote) (a : PnlActor) : Prop where
  seen : ∀ id ∈ a.seenTradeIds.members, some id ∈ (takenTrades log).map (·.tradeId)
  pending : ∀ q ∈ a.pending, q.1 ∈ takenTrades log

/-- What was taken in is booked or pending, if nothing was evicted. -/
def Conserved (log : List PnlNote) (a : PnlActor) : Prop :=
  evictedIds log = [] →
    (takenTrades log).Perm ((bookings log).map (·.trade) ++ a.pending.map (·.1))

theorem Known.new (cfg : PnlCfg) (restored : LiveState) : Known [] (new cfg restored) where
  seen := fun _ h => absurd h (Finset.notMem_empty _)
  pending := fun _ h => absurd h List.not_mem_nil

theorem Conserved.new (cfg : PnlCfg) (restored : LiveState) : Conserved [] (new cfg restored) :=
  fun _ => List.Perm.refl _

theorem Known.log_append (h : Known log a) (ns : List PnlNote) : Known (log ++ ns) a where
  seen := fun id hid => by
    rw [takenTrades_append, List.map_append]
    exact List.mem_append_left _ (h.seen id hid)
  pending := fun q hq => by
    rw [takenTrades_append]
    exact List.mem_append_left _ (h.pending q hq)

theorem Known.mono (h : Known log a) (hs : a'.seenTradeIds = a.seenTradeIds)
    (hp : ∀ q ∈ a'.pending, q ∈ a.pending) : Known log a' where
  seen := fun id hid => h.seen id (hs ▸ hid)
  pending := fun q hq => h.pending q (hp q hq)

/-- A newly seen id is that of the booked trade, which is taken in. -/
theorem Known.seen_insert {t : PnlTrade} {id x : ℤ} (h : Known log a) (hid : t.tradeId = some id)
    (ht : t ∈ takenTrades (log ++ ns)) (hx : x ∈ (a.seenTradeIds.insert idSetCap id).1.members) :
    some x ∈ (takenTrades (log ++ ns)).map (·.tradeId) := by
  rcases FifoSet.mem_insert hx with rfl | hx
  · exact hid ▸ List.mem_map_of_mem ht
  · rw [takenTrades_append, List.map_append]
    exact List.mem_append_left _ (h.seen x hx)

theorem Move.known (h : Move D a ns a') (hI : Known log a) : Known (log ++ ns) a' := by
  have hkeep := hI.log_append ns
  cases h with
  | @register c _ =>
    obtain ⟨s, hs⟩ := registerClientId_eq a c
    exact hkeep.mono (by rw [hs]) (by rw [hs]; exact fun _ h => h)
  | position p _ =>
    rcases updatePosition_cases a p with ⟨-, hu⟩ | ⟨-, hu⟩ <;>
      exact hkeep.mono (by rw [hu]) (by rw [hu]; exact fun _ h => h)
  | count _ _ _ _ => exact hkeep.mono rfl fun _ h => h
  | capital _ _ => exact hkeep.mono rfl fun _ h => h
  | evict hq _ _ => exact hkeep.mono rfl fun q hm => hq ▸ List.mem_cons_of_mem _ hm
  | @queue t id _ _ _ hf _ _ _ =>
    refine ⟨hkeep.seen, fun q hm => ?_⟩
    rcases List.mem_append.mp hm with hm | hm
    · exact hkeep.pending q hm
    · rw [List.mem_singleton.mp hm, takenTrades_append]
      exact List.mem_append_right _ (List.mem_singleton_self t)
  | @book t id fill _ hf _ _ _ =>
    have ht : t ∈ takenTrades (log ++ [.booked (a.book t id fill false).2]) := by
      rw [takenTrades_append]
      exact List.mem_append_right _ (List.mem_singleton_self t)
    exact ⟨fun x hx => hI.seen_insert hf.tradeId ht hx, hkeep.pending⟩
  | @replay t g id fill still rest hq hf _ _ =>
    have hentry : (t, g) ∈ a.pending := hq ▸ List.mem_append_right _ List.mem_cons_self
    refine ⟨fun x hx => hI.seen_insert hf.tradeId (hkeep.pending _ hentry) hx, fun q hm => ?_⟩
    refine hkeep.pending q ?_
    rw [hq]
    rcases List.mem_append.mp hm with hm | hm
    · exact List.mem_append_left _ hm
    · exact List.mem_append_right _ (List.mem_cons_of_mem _ hm)

theorem Known.steps (hI : Known pre a) (h : Steps (Move D) a ns a') : Known (pre ++ ns) a' :=
  h.invariant hI fun _ _ _ _ hI hm => hm.known hI

/-- A move that neither takes, nor books, nor evicts, and leaves the queue alone. -/
theorem Conserved.quiet (hI : Conserved log a) (hq : a'.pending = a.pending)
    (ht : takenTrades ns = []) (hb : bookings ns = []) : Conserved (log ++ ns) a' := by
  intro hev
  rw [evictedIds_append] at hev
  rw [takenTrades_append, bookings_append, ht, hb, List.append_nil, List.append_nil, hq]
  exact hI (List.append_eq_nil_iff.mp hev).1

theorem Move.conserved (h : Move D a ns a') (hI : Conserved log a) : Conserved (log ++ ns) a' := by
  cases h with
  | @register c _ =>
    obtain ⟨s, hs⟩ := registerClientId_eq a c
    rw [hs]
    refine hI.quiet rfl ?_ ?_ <;>
      rcases registerClientId_notes a c with hn | ⟨ids, hn⟩ <;> rw [hn] <;> rfl
  | position p _ =>
    rcases updatePosition_cases a p with ⟨-, hu⟩ | ⟨-, hu⟩ <;> rw [hu] <;> exact hI.quiet rfl rfl rfl
  | count _ _ _ hn =>
    exact hI.quiet rfl (rejects_eq_nil (fun _ _ _ => rfl) hn) (rejects_eq_nil (fun _ _ _ => rfl) hn)
  | capital _ _ => exact hI.quiet rfl rfl rfl
  | evict _ _ _ =>
    intro hev
    rw [evictedIds_append] at hev
    exact absurd (List.append_eq_nil_iff.mp hev).2 (List.cons_ne_nil _ _)
  | @queue t id _ _ _ _ _ _ _ =>
    intro hev
    rw [evictedIds_append] at hev
    have h := hI (List.append_eq_nil_iff.mp hev).1
    rw [takenTrades_append, bookings_append, takenTrades_queued, bookings_queued, List.append_nil,
      List.map_append, ← List.append_assoc]
    exact h.append_right [t]
  | @book t id fill _ _ _ _ _ =>
    intro hev
    rw [evictedIds_append] at hev
    have h := hI (List.append_eq_nil_iff.mp hev).1
    rw [takenTrades_append, bookings_append, takenTrades_booked, bookings_booked, List.map_append]
    refine (h.append_right [t]).trans ?_
    -- The new booking goes before the queue.
    rw [List.append_assoc, List.append_assoc]
    exact List.perm_append_comm.append_left _
  | @replay t g id fill still rest hq _ _ _ =>
    intro hev
    rw [evictedIds_append] at hev
    have h := hI (List.append_eq_nil_iff.mp hev).1
    rw [takenTrades_append, bookings_append, takenTrades_replayed, bookings_replayed, List.append_nil,
      List.map_append, List.append_assoc]
    refine h.trans (List.Perm.append_left _ ?_)
    -- The trade moves from the queue to the bookings.
    rw [hq, List.map_append, List.map_append]
    exact List.perm_middle

theorem Conserved.steps (hI : Conserved pre a) (h : Steps (Move D) a ns a') : Conserved (pre ++ ns) a' :=
  h.invariant hI fun _ _ _ _ hI hm => hm.conserved hI

/-! ## The totals are sums over the bookings -/

/-- Since the start `s₀`. -/
structure Totals (s₀ : PnlActor) (log : List PnlNote) (a : PnlActor) : Prop where
  cfg : a.cfg = s₀.cfg
  fillCount : a.fillCount = s₀.fillCount + (bookings log).length
  notional : a.notionalUsdc = s₀.notionalUsdc + ((bookings log).map (·.fill.notionalUsd)).sum
  realized : a.strategyRealizedPnlUsdc = s₀.strategyRealizedPnlUsdc +
    ((bookings log).map fun b => if b.attributed then b.realizedDelta else 0).sum
  own : ∀ b ∈ bookings log, OwnFill s₀.cfg.accountIndex b.trade b.tradeId b.fill
  attributed : ∀ b ∈ bookings log, b.fill.clientOrderId ≠ none → b.attributed = true
  exchangePnl : ∀ b ∈ bookings log, ∀ x, b.fill.exchangePnl = some x → b.realizedDelta = x

theorem Totals.refl (a : PnlActor) : Totals a [] a where
  cfg := rfl
  fillCount := rfl
  notional := by simp [bookings]
  realized := by simp [bookings]
  own := fun _ h => absurd h List.not_mem_nil
  attributed := fun _ h => absurd h List.not_mem_nil
  exchangePnl := fun _ h => absurd h List.not_mem_nil

theorem Move.totals {s₀ : PnlActor} (h : Move D a ns a') (hI : Totals s₀ log a) :
    Totals s₀ (log ++ ns) a' := by
  have hcfg := h.cfg_eq.trans hI.cfg
  rcases h.booking_cases with hq | ⟨b, hb⟩
  · have hbook : bookings (log ++ ns) = bookings log := by
      rw [bookings_append, hq.bookings, List.append_nil]
    refine ⟨hcfg, ?_, ?_, ?_, ?_, ?_, ?_⟩ <;> rw [hbook]
    · exact hq.fillCount.trans hI.fillCount
    · exact hq.notional.trans hI.notional
    · exact hq.realized.trans hI.realized
    · exact hI.own
    · exact hI.attributed
    · exact hI.exchangePnl
  · have hbook : bookings (log ++ ns) = bookings log ++ [b] := by rw [bookings_append, hb.bookings]
    have hattr : b.fill.clientOrderId ≠ none → b.attributed = true := by
      intro hne
      rw [hb.attributed]
      by_contra hnot
      exact hne ((if_neg hnot).symm.trans hb.awaited)
    refine ⟨hcfg, ?_, ?_, ?_, ?_, ?_, ?_⟩ <;> rw [hbook]
    · rw [hb.fillCount, hI.fillCount, List.length_append, List.length_singleton, add_assoc]
    · rw [hb.notional, hI.notional, List.map_append, List.sum_append, List.map_singleton,
        List.sum_singleton, add_assoc]
    · rw [hb.realized, hI.realized, List.map_append, List.sum_append, List.map_singleton,
        List.sum_singleton, add_assoc]
    · intro b' hb'
      rcases List.mem_append.mp hb' with hm | hm
      · exact hI.own b' hm
      · rw [List.mem_singleton.mp hm, ← hI.cfg]
        exact hb.own
    · intro b' hb'
      rcases List.mem_append.mp hb' with hm | hm
      · exact hI.attributed b' hm
      · rw [List.mem_singleton.mp hm]
        exact hattr
    · intro b' hb'
      rcases List.mem_append.mp hb' with hm | hm
      · exact hI.exchangePnl b' hm
      · rw [List.mem_singleton.mp hm]
        exact hb.exchangePnl

theorem Totals.steps {s₀ : PnlActor} (hI : Totals s₀ pre a) (h : Steps (Move D) a ns a') :
    Totals s₀ (pre ++ ns) a' :=
  h.invariant hI fun _ _ _ _ hI hm => hm.totals hI

/-! ## The queue holds no trade that could be booked -/

/-- Every queued trade waits for a registration. -/
def Settled (a : PnlActor) : Prop :=
  ∀ q ∈ a.pending, ∀ id fill, OwnFill a.cfg.accountIndex q.1 id fill → a.awaited fill ≠ none

theorem awaited_congr (hcfg : a'.cfg = a.cfg) (hs : a'.strategyClientIds = a.strategyClientIds)
    (fill : FillView) : a'.awaited fill = a.awaited fill := by
  unfold awaited attributeToStrategy isKnownStrategy
  rw [hcfg, hs]

theorem tryAcceptTrade_frame (a : PnlActor) (t : PnlTrade) (g : ℕ) :
    (a.tryAcceptTrade t g).1.cfg = a.cfg ∧
      (a.tryAcceptTrade t g).1.strategyClientIds = a.strategyClientIds := by
  unfold tryAcceptTrade
  cases t.tradeId with
  | none => exact ⟨rfl, rfl⟩
  | some id =>
    dsimp only
    by_cases hs : id ∈ a.seenTradeIds.members
    · rw [if_pos hs]
      exact ⟨rfl, rfl⟩
    rw [if_neg hs]
    cases FillView.fromTrade t a.cfg.accountIndex with
    | none => exact ⟨rfl, rfl⟩
    | some fill =>
      dsimp only
      by_cases hbad : fill.price ≤ 0 ∨ fill.size ≤ 0
      · rw [if_pos hbad]
        exact ⟨rfl, rfl⟩
      rw [if_neg hbad]
      cases a.awaited fill <;> exact ⟨rfl, rfl⟩

/-- The decision to keep a trade is made for its fill. -/
theorem awaited_of_pendingClientId {t : PnlTrade} {g : ℕ} {cid id : ℤ} {fill : FillView}
    (h : (a.tryAcceptTrade t g).2.1 = .pendingClientId cid) (hf : OwnFill a.cfg.accountIndex t id fill) :
    a.awaited fill ≠ none := by
  intro haw
  by_cases hs : id ∈ a.seenTradeIds.members
  · simp only [tryAcceptTrade, show t.tradeId = some id from hf.tradeId, if_pos hs] at h
    cases h
  · rw [tryAcceptTrade_booked g hf hs haw] at h
    cases h

theorem unpend_frame (a : PnlActor) (t : PnlTrade) :
    (a.unpend t).cfg = a.cfg ∧ (a.unpend t).strategyClientIds = a.strategyClientIds := by
  unfold unpend
  cases t.tradeId <;> exact ⟨rfl, rfl⟩

/-- The loop leaves the registrations alone, keeps only trades that wait, and takes none in. -/
theorem retryLoop_settled (q : List (PnlTrade × ℕ)) (a : PnlActor) :
    (retryLoop q a).1.cfg = a.cfg ∧ (retryLoop q a).1.strategyClientIds = a.strategyClientIds ∧
      takenTrades (retryLoop q a).2.1 = [] ∧
      ∀ x ∈ (retryLoop q a).2.2, ∀ id fill, OwnFill a.cfg.accountIndex x.1 id fill →
        a.awaited fill ≠ none := by
  induction q generalizing a with
  | nil => exact ⟨rfl, rfl, rfl, fun _ h => absurd h List.not_mem_nil⟩
  | cons x rest ih =>
    obtain ⟨hucfg, hus⟩ := unpend_frame a x.1
    obtain ⟨htcfg, hts⟩ := tryAcceptTrade_frame (a.unpend x.1) x.1 x.2
    have hcfg := htcfg.trans hucfg
    have hs := hts.trans hus
    have hkept : ∀ {cid}, ((a.unpend x.1).tryAcceptTrade x.1 x.2).2.1 = .pendingClientId cid →
        ∀ id fill, OwnFill a.cfg.accountIndex x.1 id fill → a.awaited fill ≠ none := by
      intro cid hd id fill hf
      rw [← awaited_congr hucfg hus]
      exact awaited_of_pendingClientId hd (hucfg ▸ hf)
    -- The loop goes on from a state with the same registrations.
    have hrest : ∀ b : PnlActor, b.cfg = a.cfg → b.strategyClientIds = a.strategyClientIds →
        (retryLoop rest b).1.cfg = a.cfg ∧ (retryLoop rest b).1.strategyClientIds = a.strategyClientIds ∧
          takenTrades (retryLoop rest b).2.1 = [] ∧
          ∀ y ∈ (retryLoop rest b).2.2, ∀ id fill, OwnFill a.cfg.accountIndex y.1 id fill →
            a.awaited fill ≠ none := by
      intro b hbcfg hbs
      obtain ⟨hc, hi, ht, hw⟩ := ih b
      refine ⟨hc.trans hbcfg, hi.trans hbs, ht, fun y hy id fill hf => ?_⟩
      rw [← awaited_congr hbcfg hbs]
      exact hw y hy id fill (hbcfg ▸ hf)
    cases hd : ((a.unpend x.1).tryAcceptTrade x.1 x.2).2.1 with
    | accepted =>
      simp only [retryLoop, hd]
      obtain ⟨hc, hi, ht, hw⟩ := hrest _ hcfg hs
      refine ⟨hc, hi, ?_, hw⟩
      rw [takenTrades_append, ht, List.append_nil]
      cases ((a.unpend x.1).tryAcceptTrade x.1 x.2).2.2 <;> rfl
    | pendingClientId cid =>
      cases hid : x.1.tradeId with
      | none =>
        simp only [retryLoop, hd, hid]
        obtain ⟨hc, hi, ht, hw⟩ := hrest _ hcfg hs
        refine ⟨hc, hi, ht, fun y hy => ?_⟩
        rcases List.mem_cons.mp hy with rfl | hy
        · exact hkept hd
        · exact hw y hy
      | some id =>
        simp only [retryLoop, hd, hid]
        obtain ⟨hc, hi, ht, hw⟩ := hrest
          { ((a.unpend x.1).tryAcceptTrade x.1 x.2).1 with
            pendingTradeIds := insert id ((a.unpend x.1).tryAcceptTrade x.1 x.2).1.pendingTradeIds } hcfg hs
        refine ⟨hc, hi, ht, fun y hy => ?_⟩
        rcases List.mem_cons.mp hy with rfl | hy
        · exact hkept hd
        · exact hw y hy
    | skipped reason =>
      simp only [retryLoop, hd]
      obtain ⟨hc, hi, ht, hw⟩ := hrest
        (((a.unpend x.1).tryAcceptTrade x.1 x.2).1.skip x.1.tradeId reason).1 hcfg hs
      refine ⟨hc, hi, ?_, hw⟩
      rw [takenTrades_append, ht, List.append_nil]
      rfl

theorem retryPending_settled (a : PnlActor) :
    Settled a.retryPending.1 ∧ takenTrades a.retryPending.2 = [] := by
  obtain ⟨hc, hi, ht, hw⟩ := retryLoop_settled a.pending a
  refine ⟨fun q hq id fill hf => ?_, ht⟩
  have hcfg : a.retryPending.1.cfg = a.cfg := hc
  rw [awaited_congr hcfg (show a.retryPending.1.strategyClientIds = a.strategyClientIds from hi)]
  exact hw q hq id fill (hcfg ▸ hf)

/-- After every event. -/
theorem handleEvent_settled (e : PnlEvent) (h : Settled a) : Settled (a.handleEvent e).1 := by
  cases e with
  | registerClientIds ids => exact (retryPending_settled _).1
  | accountAll position trades =>
    have hset := (retryPending_settled (processAll trades a).1).1
    cases position with
    | none => exact hset
    | some p =>
      show Settled ((processAll trades a).1.retryPending.1.updatePosition p).1
      rcases updatePosition_cases (processAll trades a).1.retryPending.1 p with ⟨-, hu⟩ | ⟨-, hu⟩ <;>
        rw [hu] <;> exact hset
  | capital c v => exact h
  | shutdown => exact h

theorem handleAll_settled (es : List PnlEvent) (h : Settled a) : Settled (handleAll es a).1 := by
  induction es generalizing a with
  | nil => exact h
  | cons e es ih => exact ih (handleEvent_settled e h)

/-! ## Each delivered trade is taken in once -/

/-- The ids of what was taken in. -/
def takenIds (log : List PnlNote) : List (Option ℤ) := (takenTrades log).map (·.tradeId)

theorem takenTrades_evictPending (q : List (PnlTrade × ℕ)) (a : PnlActor) :
    takenTrades (evictPending q a).2 = [] := by
  induction q generalizing a with
  | nil => rfl
  | cons x rest ih =>
    unfold evictPending
    by_cases hlen : pendingLimit < (x :: rest).length
    · rw [if_pos hlen, takenTrades_append, ih]
      rfl
    · rw [if_neg hlen]
      rfl

theorem takenTrades_registerAll (ids : List ℤ) (a : PnlActor) :
    takenTrades (registerAll ids a).2 = [] := by
  induction ids generalizing a with
  | nil => rfl
  | cons id ids ih =>
    rw [registerAll, takenTrades_append, ih, List.append_nil]
    rcases registerClientId_notes a id with hn | ⟨l, hn⟩ <;> rw [hn] <;> rfl

theorem takenTrades_processOrQueue {t : PnlTrade} {id : ℤ} (hI : Known pre a) (hok : PendingOk a)
    (ht : OwnTrade a.cfg.accountIndex t id) (hfresh : t.tradeId ∉ takenIds pre) :
    takenTrades (a.processOrQueue t).2 = [t] := by
  obtain ⟨fill, hf⟩ := ht.fill
  rw [ht.tradeId] at hfresh
  have hs : id ∉ a.seenTradeIds.members := fun hm => hfresh (hI.seen id hm)
  have hp : id ∉ a.pendingTradeIds := by
    rw [hok.ids, List.mem_toFinset, mem_queueIds]
    rintro ⟨q, hq, hid⟩
    exact hfresh (hid ▸ List.mem_map_of_mem (hI.pending q hq))
  cases haw : a.awaited fill with
  | none =>
    rw [processOrQueue_books hf hs hp haw]
    rfl
  | some cid =>
    rw [processOrQueue_waits hf hs hp haw]
    show t :: takenTrades (evictPending _ _).2 = [t]
    rw [takenTrades_evictPending]

theorem takenTrades_processAll {acct : ℤ} {ts : List PnlTrade} (hI : Known pre a) (hok : PendingOk a)
    (hacct : a.cfg.accountIndex = acct) (ht : ∀ t ∈ ts, ∃ id, OwnTrade acct t id)
    (hnd : (takenIds pre ++ ts.map (·.tradeId)).Nodup) : takenTrades (processAll ts a).2 = ts := by
  induction ts generalizing a pre with
  | nil => rfl
  | cons t ts ih =>
    obtain ⟨id, hid⟩ := ht t List.mem_cons_self
    have hstep : Steps (Move anything) a _ _ := processOrQueue_steps hok (t := t) trivial
    have hone : takenTrades (a.processOrQueue t).2 = [t] := by
      refine takenTrades_processOrQueue hI hok (hacct ▸ hid) fun hm => ?_
      rw [List.map_cons] at hnd
      exact (List.nodup_append.mp hnd).2.2 _ hm _ List.mem_cons_self rfl
    have hids : takenIds (pre ++ (a.processOrQueue t).2) = takenIds pre ++ [t.tradeId] := by
      rw [takenIds, takenTrades_append, hone, List.map_append]
      rfl
    have hrest := ih (hI.steps hstep) (hok.steps hstep) (by rw [cfg_of_steps hstep, hacct])
      (fun u hu => ht u (List.mem_cons_of_mem _ hu)) (by simpa [hids] using hnd)
    rw [processAll, takenTrades_append, hone, hrest]
    rfl

theorem takenTrades_handleEvent {acct : ℤ} {e : PnlEvent} (hI : Known pre a) (hok : PendingOk a)
    (hacct : a.cfg.accountIndex = acct) (ht : ∀ t ∈ e.trades, ∃ id, OwnTrade acct t id)
    (hnd : (takenIds pre ++ e.trades.map (·.tradeId)).Nodup) :
    takenTrades (a.handleEvent e).2 = e.trades := by
  cases e with
  | registerClientIds ids =>
    simp only [handleEvent, takenTrades_append, takenTrades_registerAll, (retryPending_settled _).2]
    rfl
  | accountAll position trades =>
    have hall : takenTrades (processAll trades a).2 = trades :=
      takenTrades_processAll hI hok hacct ht hnd
    cases position with
    | none => simp only [handleEvent, takenTrades_append, hall, (retryPending_settled _).2, List.append_nil,
        PnlEvent.trades]
    | some p =>
      have hpos : ∀ b : PnlActor, takenTrades (b.updatePosition p).2 = [] := by
        intro b
        rcases updatePosition_cases b p with ⟨-, hu⟩ | ⟨-, hu⟩ <;> rw [hu] <;> rfl
      simp only [handleEvent, takenTrades_append, hall, (retryPending_settled _).2, hpos, List.append_nil,
        PnlEvent.trades]
  | capital c v => rfl
  | shutdown => rfl

theorem takenTrades_handleAll {acct : ℤ} {es : List PnlEvent} (hI : Known pre a) (hok : PendingOk a)
    (hacct : a.cfg.accountIndex = acct) (ht : ∀ t ∈ delivered es, ∃ id, OwnTrade acct t id)
    (hnd : (takenIds pre ++ (delivered es).map (·.tradeId)).Nodup) :
    takenTrades (handleAll es a).2 = delivered es := by
  induction es generalizing a pre with
  | nil => rfl
  | cons e es ih =>
    have hstep := handleEvent_steps e hok
    rw [delivered_cons, List.map_append, ← List.append_assoc] at hnd
    have hone : takenTrades (a.handleEvent e).2 = e.trades :=
      takenTrades_handleEvent hI hok hacct (fun u hu => ht u (List.mem_append_left _ hu))
        (List.nodup_append.mp hnd).1
    have hids : takenIds (pre ++ (a.handleEvent e).2) = takenIds pre ++ e.trades.map (·.tradeId) := by
      rw [takenIds, takenTrades_append, hone, List.map_append]
      rfl
    have hrest := ih (hI.steps hstep) (hok.steps hstep) (by rw [cfg_of_steps hstep, hacct])
      (fun u hu => ht u (List.mem_append_right _ hu)) (by rw [hids]; exact hnd)
    rw [handleAll, takenTrades_append, hone, hrest, delivered_cons]

/-! ## Two runs -/

/-- A run whose trades are ours, with distinct ids and with client ids that are all registered at its
end, and in which the pending limit evicts none. -/
structure Attributable (cfg : PnlCfg) (restored : LiveState) (es : List PnlEvent) : Prop where
  own : ∀ t ∈ delivered es, ∃ id, OwnTrade cfg.accountIndex t id
  nodup : ((delivered es).map (·.tradeId)).Nodup
  registered : ∀ t ∈ delivered es, ∀ fill, FillView.fromTrade t cfg.accountIndex = some fill →
    ∃ c, fill.clientOrderId = some c ∧
      c ∈ (handleAll es (new cfg restored)).1.strategyClientIds.members
  kept : evictedIds (handleAll es (new cfg restored)).2 = []

/-- At the end of such a run each delivered trade is booked once. -/
theorem Attributable.booked {cfg : PnlCfg} {restored : LiveState} {es : List PnlEvent}
    (h : Attributable cfg restored es) :
    (delivered es).Perm ((bookings (handleAll es (new cfg restored)).2).map (·.trade)) := by
  have hsteps := handleAll_anything es (.new cfg restored)
  have htaken : takenTrades (handleAll es (new cfg restored)).2 = delivered es :=
    takenTrades_handleAll (.new cfg restored) (.new cfg restored) rfl h.own h.nodup
  have hcons : Conserved _ _ := (Conserved.new cfg restored).steps hsteps
  have hperm := hcons h.kept
  rw [List.nil_append, htaken] at hperm
  -- The queue is empty: what it holds would wait for a registration.
  have hempty : (handleAll es (new cfg restored)).1.pending = [] := by
    refine List.eq_nil_iff_forall_not_mem.mpr fun q hq => ?_
    have hset : Settled (handleAll es (new cfg restored)).1 :=
      handleAll_settled es fun _ hm => absurd hm List.not_mem_nil
    obtain ⟨id, fill, hf⟩ := ((PendingOk.new cfg restored).steps hsteps).own q hq
    have hcfg : (handleAll es (new cfg restored)).1.cfg = cfg := cfg_of_steps hsteps
    have hmem : q.1 ∈ delivered es :=
      hperm.mem_iff.mpr (List.mem_append_right _ (List.mem_map_of_mem hq))
    obtain ⟨c, hc, hreg⟩ := h.registered q.1 hmem fill (hcfg ▸ hf.view)
    refine hset q hq id fill hf ?_
    rw [awaited, attributeToStrategy, isKnownStrategy, hc]
    simp only [decide_eq_true hreg, Bool.true_or, if_true]
  rw [hempty, List.map_nil, List.append_nil] at hperm
  exact hperm

/-- What such a run adds to the totals. -/
theorem Attributable.totals {cfg : PnlCfg} {restored : LiveState} {es : List PnlEvent}
    (h : Attributable cfg restored es) :
    (handleAll es (new cfg restored)).1.fillCount = (new cfg restored).fillCount + (delivered es).length ∧
      (handleAll es (new cfg restored)).1.notionalUsdc =
        (new cfg restored).notionalUsdc + ((delivered es).map (tradeNotional cfg.accountIndex)).sum ∧
      ((∀ t ∈ delivered es, tradePnl cfg.accountIndex t ≠ none) →
        (handleAll es (new cfg restored)).1.strategyRealizedPnlUsdc =
          (new cfg restored).strategyRealizedPnlUsdc +
            ((delivered es).map fun t => (tradePnl cfg.accountIndex t).getD 0).sum) := by
  have hperm := h.booked
  have htot : Totals (new cfg restored) (handleAll es (new cfg restored)).2 _ :=
    (Totals.refl (new cfg restored)).steps (handleAll_anything es (.new cfg restored))
  refine ⟨?_, ?_, fun hpnl => ?_⟩
  · rw [htot.fillCount, hperm.length_eq, List.length_map]
  · rw [htot.notional, (hperm.map _).sum_eq, List.map_map]
    congr 2
    refine List.map_congr_left fun b hb => ?_
    have hview : FillView.fromTrade b.trade cfg.accountIndex = some b.fill := (htot.own b hb).view
    simp only [Function.comp_apply, tradeNotional, hview, Option.map_some, Option.getD_some]
  · rw [htot.realized, (hperm.map _).sum_eq, List.map_map]
    congr 2
    refine List.map_congr_left fun b hb => ?_
    have hmem : b.trade ∈ delivered es := hperm.mem_iff.mpr (List.mem_map_of_mem hb)
    have hview : FillView.fromTrade b.trade cfg.accountIndex = some b.fill := (htot.own b hb).view
    have hview' : tradePnl cfg.accountIndex b.trade = b.fill.exchangePnl := by rw [tradePnl, hview]; rfl
    obtain ⟨c, hc, -⟩ := h.registered b.trade hmem b.fill hview
    obtain ⟨x, hx⟩ := Option.ne_none_iff_exists'.mp (hview' ▸ hpnl b.trade hmem)
    rw [htot.attributed b hb (by rw [hc]; exact Option.some_ne_none c), if_pos rfl,
      htot.exchangePnl b hb x hx, Function.comp_apply, hview', hx, Option.getD_some]

/-- **When client ids are registered does not matter** for fill count and notional, nor for the realized
PnL of fills whose PnL the exchange reports. -/
theorem registration_timing (cfg : PnlCfg) (restored : LiveState) {es es' : List PnlEvent}
    (hsame : es.filter (!·.isRegistration) = es'.filter (!·.isRegistration))
    (h : Attributable cfg restored es) (h' : Attributable cfg restored es') :
    let a := (handleAll es (new cfg restored)).1
    let a' := (handleAll es' (new cfg restored)).1
    a.fillCount = a'.fillCount ∧ a.notionalUsdc = a'.notionalUsdc ∧
      ((∀ t ∈ delivered es, tradePnl cfg.accountIndex t ≠ none) →
        a.strategyRealizedPnlUsdc = a'.strategyRealizedPnlUsdc) := by
  have hdel : delivered es = delivered es' := by
    rw [← delivered_filter es, hsame, delivered_filter]
  obtain ⟨hcount, hnotional, hpnl⟩ := h.totals
  obtain ⟨hcount', hnotional', hpnl'⟩ := h'.totals
  refine ⟨?_, ?_, fun hrep => ?_⟩
  · rw [hcount, hcount', hdel]
  · rw [hnotional, hnotional', hdel]
  · rw [hpnl hrep, hpnl' (hdel ▸ hrep), hdel]

/-- A fill of client 42 before its registration and after it. -/
theorem registration_timing_reported :
    let t := testTrade 1 42 .sell 101 (1 / 2) (some (5 / 4))
    let early := (handleAll [.registerClientIds [42], .accountAll none [t]] (new testCfg .default)).1
    let late := (handleAll [.accountAll none [t], .registerClientIds [42]] (new testCfg .default)).1
    early.strategyRealizedPnlUsdc = late.strategyRealizedPnlUsdc ∧ late.strategyRealizedPnlUsdc = 5 / 4 := by
  intro t early late
  have hown : ∀ u ∈ [t], ∃ id, OwnTrade 7 u id := by
    intro u hu
    rw [List.mem_singleton.mp hu]
    exact ⟨1, OwnTrade.testTrade 1 42 .sell _ (by norm_num) (by norm_num)⟩
  have hview : ∀ u ∈ [t], ∀ fill, FillView.fromTrade u 7 = some fill → fill.clientOrderId = some 42 := by
    intro u hu fill hf
    rw [List.mem_singleton.mp hu] at hf
    cases hf
    rfl
  have h : Attributable testCfg .default [.registerClientIds [42], .accountAll none [t]] :=
    ⟨hown, by decide, fun u hu fill hf => ⟨42, hview u hu fill hf, by decide +kernel⟩, by decide +kernel⟩
  have h' : Attributable testCfg .default [.accountAll none [t], .registerClientIds [42]] :=
    ⟨hown, by decide, fun u hu fill hf => ⟨42, hview u hu fill hf, by decide +kernel⟩, by decide +kernel⟩
  refine ⟨(registration_timing testCfg .default (by rfl) h h').2.2 fun u hu => ?_, by decide +kernel⟩
  rw [List.mem_singleton.mp (show u ∈ [t] from hu)]
  decide +kernel

/-- Without a PnL of the exchange the superseded fill counts for nothing. -/
theorem registration_timing_unreported :
    let buy := testTrade 1 1 .buy 100 1 none
    let sell := testTrade 2 2 .sell 110 1 none
    let messages : List PnlEvent := [.accountAll none [buy], .accountAll (some ⟨0, none⟩) [sell]]
    (handleAll (.registerClientIds [1, 2] :: messages) (new testCfg .default)).1.strategyRealizedPnlUsdc = 10 ∧
      (handleAll (messages ++ [.registerClientIds [1, 2]]) (new testCfg .default)).1.strategyRealizedPnlUsdc = 0 ∧
      Attributable testCfg .default (.registerClientIds [1, 2] :: messages) ∧
      Attributable testCfg .default (messages ++ [.registerClientIds [1, 2]]) := by
  intro buy sell messages
  have hown : ∀ u ∈ [buy, sell], ∃ id, OwnTrade 7 u id := by
    intro u hu
    rcases List.mem_cons.mp hu with rfl | hu
    · exact ⟨1, OwnTrade.testTrade 1 1 .buy _ (by norm_num) (by norm_num)⟩
    · rw [List.mem_singleton.mp hu]
      exact ⟨2, OwnTrade.testTrade 2 2 .sell _ (by norm_num) (by norm_num)⟩
  have hview : ∀ u ∈ [buy, sell], ∀ fill, FillView.fromTrade u 7 = some fill →
      fill.clientOrderId = some 1 ∨ fill.clientOrderId = some 2 := by
    intro u hu fill hf
    rcases List.mem_cons.mp hu with rfl | hu
    · cases hf
      exact .inl rfl
    · rw [List.mem_singleton.mp hu] at hf
      cases hf
      exact .inr rfl
  refine ⟨by decide +kernel, by decide +kernel, ⟨hown, by decide, ?_, by decide +kernel⟩,
    ⟨hown, by decide, ?_, by decide +kernel⟩⟩
  · intro u hu fill hf
    rcases hview u hu fill hf with hc | hc
    · exact ⟨1, hc, by decide +kernel⟩
    · exact ⟨2, hc, by decide +kernel⟩
  · intro u hu fill hf
    rcases hview u hu fill hf with hc | hc
    · exact ⟨1, hc, by decide +kernel⟩
    · exact ⟨2, hc, by decide +kernel⟩

end PnlActor

end LighterMM
