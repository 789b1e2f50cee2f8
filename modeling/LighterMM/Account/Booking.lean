import LighterMM.Account.Moves

/-!
# Fills are booked exactly once

* `ExactlyOnce`: what holds of the actor and of its log after every sequence of events.
* `Covered`: a trade that was taken in is booked, pending, or was evicted by the pending limit.
* `exactly_once`: both of every sequence of events. A trade id leaves the set of seen trades after
  `idSetCap` others, so it can be booked again, but not earlier.
-/

namespace LighterMM

open FifoSet

namespace PnlActor

variable {a a' : PnlActor} {D : Deliveries} {ns : List PnlNote}

/-- The sets of ids, the spacing of the bookings and the counts; `start` is the restored count. -/
structure ExactlyOnce (start : ℕ) (log : List PnlNote) (a : PnlActor) : Prop where
  seen : a.seenTradeIds.Consistent
  pendingIds : a.pendingTradeIds = a.queueIds.toFinset
  pendingNodup : a.queueIds.Nodup
  pendingLength : a.queueIds.length = a.pending.length
  disjoint : Disjoint a.seenTradeIds.members a.pendingTradeIds
  spaced : Spaced idSetCap (bookedIds log)
  count : a.fillCount = start + a.buyCount + a.sellCount

/-- The invariant behind it: the set of seen trades holds the last bookings. -/
structure Remembered (start : ℕ) (log : List PnlNote) (a : PnlActor) : Prop where
  pendingOk : PendingOk a
  remembers : Remembers idSetCap (bookedIds log) a.seenTradeIds
  spaced : Spaced idSetCap (bookedIds log)
  count : a.fillCount = start + a.buyCount + a.sellCount

theorem Remembered.new (cfg : PnlCfg) (restored : LiveState) :
    Remembered (new cfg restored).fillCount [] (new cfg restored) where
  pendingOk := .new cfg restored
  remembers := Remembers.empty idSetCap
  spaced := Spaced.nil idSetCap
  count := rfl

/-- A booked trade that is still remembered was booked. -/
theorem Remembered.booked_of_seen {start : ℕ} {log : List PnlNote} {id : ℤ}
    (h : Remembered start log a) (hs : id ∈ a.seenTradeIds.members) : id ∈ bookedIds log :=
  h.remembers.suffix.subset (h.remembers.mem.mp hs)

theorem Move.remembered {start : ℕ} {log : List PnlNote} (h : Move D a ns a')
    (hI : Remembered start log a) : Remembered start (log ++ ns) a' := by
  have hok := h.pendingOk hI.pendingOk
  rcases h.booking_cases with hq | ⟨b, hb⟩
  · have hids : bookedIds (log ++ ns) = bookedIds log := by
      rw [bookedIds_append, bookedIds, bookedIds, hq.bookings, List.map_nil, List.append_nil]
    refine ⟨hok, ?_, ?_, ?_⟩
    · rw [hids, hq.seen]
      exact hI.remembers
    · rw [hids]
      exact hI.spaced
    · rw [hq.fillCount, hq.buyCount, hq.sellCount]
      exact hI.count
  · have hids : bookedIds (log ++ ns) = bookedIds log ++ [b.tradeId] := by
      rw [bookedIds_append, bookedIds, bookedIds, hb.bookings, List.map_singleton]
    refine ⟨hok, ?_, ?_, ?_⟩
    · rw [hids, hb.seen]
      exact hI.remembers.insert hb.fresh
    · rw [hids]
      exact hI.spaced.concat hI.remembers hb.fresh
    · rw [hb.fillCount, hb.buyCount, hb.sellCount, hI.count]
      -- The fill is on one of the two sides.
      cases b.fill.side <;> simp only [if_true, reduceCtorEq, if_false] <;> omega

theorem Remembered.steps {start : ℕ} {pre : List PnlNote} (hI : Remembered start pre a)
    (h : Steps (Move D) a ns a') : Remembered start (pre ++ ns) a' :=
  h.invariant hI fun _ _ _ _ hI hm => hm.remembered hI

/-- Every entry of the queue has an id. -/
theorem PendingOk.length_queueIds (h : PendingOk a) : a.queueIds.length = a.pending.length := by
  have hall : ∀ q ∈ a.pending, q.1.tradeId.isSome := by
    intro q hq
    obtain ⟨id, fill, hf⟩ := h.own q hq
    rw [hf.tradeId]
    rfl
  rw [queueIds]
  exact List.filterMap_length_eq_length.mpr hall

theorem Remembered.exactlyOnce {start : ℕ} {log : List PnlNote} (h : Remembered start log a) :
    ExactlyOnce start log a where
  seen := h.remembers.toConsistent
  pendingIds := h.pendingOk.ids
  pendingNodup := h.pendingOk.nodup
  pendingLength := h.pendingOk.length_queueIds
  disjoint := Finset.disjoint_right.mpr h.pendingOk.unseen
  spaced := h.spaced
  count := h.count

/-! ## No trade is lost -/

/-- The id is booked at some time, pending, or evicted since its delivery. -/
def Covered (pre : List PnlNote) (id : ℤ) (log : List PnlNote) (a : PnlActor) : Prop :=
  id ∈ bookedIds (pre ++ log) ∨ id ∈ a.queueIds ∨ id ∈ evictedIds log

variable {pre log log' : List PnlNote} {id : ℤ}

/-- What a move takes out of the queue it books or evicts. -/
theorem Move.queueIds_cases (h : Move D a ns a') (hid : id ∈ a.queueIds) :
    id ∈ bookedIds ns ∨ id ∈ a'.queueIds ∨ id ∈ evictedIds ns := by
  cases h with
  | @register c _ =>
    obtain ⟨s, hs⟩ := registerClientId_eq a c
    rw [hs]
    exact .inr (.inl hid)
  | position p _ =>
    rcases updatePosition_cases a p with ⟨-, hu⟩ | ⟨-, hu⟩ <;> rw [hu] <;> exact .inr (.inl hid)
  | count _ _ _ _ => exact .inr (.inl hid)
  | capital _ _ => exact .inr (.inl hid)
  | book _ _ _ _ _ => exact .inr (.inl hid)
  | queue _ _ _ _ _ =>
    refine .inr (.inl ?_)
    rw [queueIds, List.filterMap_append]
    exact List.mem_append_left _ hid
  | @replay t g i fill still rest hq hf _ _ =>
    rw [queueIds_split hq hf.tradeId] at hid
    rcases List.mem_append.mp hid with hm | hm
    · refine .inr (.inl ?_)
      rw [queueIds, List.filterMap_append]
      exact List.mem_append_left _ hm
    · rcases List.mem_cons.mp hm with rfl | hm
      · exact .inl List.mem_cons_self
      · refine .inr (.inl ?_)
        rw [queueIds, List.filterMap_append]
        exact List.mem_append_right _ hm
  | @evict t g i rest hq _ hi =>
    rw [queueIds_split (show a.pending = [] ++ _ from hq) hi, List.filterMap_nil, List.nil_append] at hid
    rcases List.mem_cons.mp hid with rfl | hm
    · exact .inr (.inr List.mem_cons_self)
    · exact .inr (.inl hm)

theorem Covered.move (hI : Covered pre id log a) (h : Move D a ns a') :
    Covered pre id (log ++ ns) a' := by
  unfold Covered
  rw [← List.append_assoc, bookedIds_append, evictedIds_append]
  rcases hI with hb | hq | he
  · exact .inl (List.mem_append_left _ hb)
  · rcases h.queueIds_cases hq with hb | hq | he
    · exact .inl (List.mem_append_right _ hb)
    · exact .inr (.inl hq)
    · exact .inr (.inr (List.mem_append_right _ he))
  · exact .inr (.inr (List.mem_append_left _ he))

theorem Covered.steps (hI : Covered pre id log a) (h : Steps (Move D) a ns a') :
    Covered pre id (log ++ ns) a' :=
  h.invariant (show Covered pre id log a from hI) fun _ _ _ _ hI hm => hI.move hm

/-- The log of the time since the delivery may start earlier. -/
theorem Covered.earlier (hI : Covered (pre ++ log) id log' a) : Covered pre id (log ++ log') a := by
  rcases hI with hb | hq | he
  · exact .inl (by rwa [List.append_assoc] at hb)
  · exact .inr (.inl hq)
  · exact .inr (.inr (by rw [evictedIds_append]; exact List.mem_append_right _ he))

/-- A delivered trade is taken in. -/
theorem processOrQueue_covered {start : ℕ} {t : PnlTrade} (hI : Remembered start pre a)
    (ht : OwnTrade a.cfg.accountIndex t id) :
    Covered pre id (a.processOrQueue t).2 (a.processOrQueue t).1 := by
  obtain ⟨fill, hf⟩ := ht.fill
  have hid : t.tradeId = some id := hf.tradeId
  by_cases hs : id ∈ a.seenTradeIds.members
  · simp only [processOrQueue, hid, if_pos hs]
    refine .inl ?_
    rw [List.append_nil]
    exact hI.booked_of_seen hs
  by_cases hp : id ∈ a.pendingTradeIds
  · simp only [processOrQueue, hid, if_neg hs, if_pos hp]
    refine .inr (.inl ?_)
    rw [hI.pendingOk.ids] at hp
    exact List.mem_toFinset.mp hp
  cases haw : a.awaited fill with
  | none =>
    rw [processOrQueue_books hf hs hp haw]
    refine .inl ?_
    rw [bookedIds_append]
    exact List.mem_append_right _ List.mem_cons_self
  | some cid =>
    rw [processOrQueue_waits hf hs hp haw]
    -- It is in the queue, where the pending limit may evict it.
    have hmove : Move ⟨(· = t), fun _ => False, fun _ => False⟩ a _ _ := .queue rfl hf hs hp haw
    have hin : Covered pre id [.queued t] { a with
        pending := a.pending ++ [(t, a.syncGeneration)],
        pendingTradeIds := insert id a.pendingTradeIds } := by
      refine .inr (.inl ?_)
      rw [mem_queueIds]
      exact ⟨(t, a.syncGeneration), List.mem_append_right _ (List.mem_singleton_self _), hid⟩
    refine hin.steps (evictPending_steps (D := ⟨(· = t), fun _ => False, fun _ => False⟩)
      { a with pendingTradeIds := insert id a.pendingTradeIds } fun x hx => ?_)
    obtain ⟨i, _, hi⟩ := (hmove.pendingOk hI.pendingOk).own x hx
    exact ⟨i, hi.tradeId⟩

theorem processAll_covered {start : ℕ} {t : PnlTrade} {ts : List PnlTrade} (hI : Remembered start pre a)
    (hmem : t ∈ ts) (ht : OwnTrade a.cfg.accountIndex t id) :
    Covered pre id (processAll ts a).2 (processAll ts a).1 := by
  induction ts generalizing a pre with
  | nil => cases hmem
  | cons u ts ih =>
    have hu : Steps (Move ⟨(· = u), fun _ => False, fun _ => False⟩) a _ _ :=
      processOrQueue_steps hI.pendingOk rfl
    have hI' := hI.steps hu
    rcases List.mem_cons.mp hmem with rfl | hmem
    · have hts : Steps (Move ⟨(· ∈ ts), fun _ => False, fun _ => False⟩) (a.processOrQueue t).1 _ _ :=
        processAll_steps hI'.pendingOk fun _ h => h
      exact (processOrQueue_covered hI ht).steps hts
    · have hcfg : (a.processOrQueue u).1.cfg = a.cfg := cfg_of_steps hu
      exact (ih hI' hmem (hcfg ▸ ht)).earlier

theorem handleEvent_covered {start : ℕ} {t : PnlTrade} (position : Option PositionSnapshot)
    {trades : List PnlTrade} (hI : Remembered start pre a) (hmem : t ∈ trades)
    (ht : OwnTrade a.cfg.accountIndex t id) :
    Covered pre id (a.handleEvent (.accountAll position trades)).2
      (a.handleEvent (.accountAll position trades)).1 := by
  have hts : Steps (Move ⟨(· ∈ trades), fun _ => False, fun _ => False⟩) a _ _ :=
    processAll_steps hI.pendingOk fun _ h => h
  obtain ⟨ns, hns, he⟩ := handleEvent_accountAll a position trades (hI.pendingOk.steps hts)
  rw [he]
  exact (processAll_covered hI hmem ht).steps hns

/-- Every delivery is allowed. -/
def anything : Deliveries := ⟨fun _ => True, fun _ => True, fun _ => True⟩

theorem handleAll_anything (es : List PnlEvent) (hok : PendingOk a) :
    Steps (Move anything) a (handleAll es a).2 (handleAll es a).1 :=
  handleAll_steps hok fun _ _ => ⟨fun _ _ => trivial, fun _ _ => trivial, fun _ _ => trivial⟩

/-- **Exactly-once booking**, after every sequence of events. A trade of ours that one of them
delivered is booked, still pending, or was evicted since then. -/
theorem exactly_once (cfg : PnlCfg) (restored : LiveState) (es : List PnlEvent) :
    ExactlyOnce (new cfg restored).fillCount (handleAll es (new cfg restored)).2
        (handleAll es (new cfg restored)).1 ∧
      ∀ es₁ position trades es₂ t id, es = es₁ ++ .accountAll position trades :: es₂ → t ∈ trades →
        OwnTrade cfg.accountIndex t id →
        id ∈ bookedIds (handleAll es (new cfg restored)).2 ∨
        id ∈ (handleAll es (new cfg restored)).1.queueIds ∨
        id ∈ evictedIds (handleAll (.accountAll position trades :: es₂)
          (handleAll es₁ (new cfg restored)).1).2 := by
  have hstart := Remembered.new cfg restored
  constructor
  · exact (hstart.steps (handleAll_anything es hstart.pendingOk)).exactlyOnce
  · rintro es₁ position trades es₂ t id rfl hmem ht
    have h₁ := handleAll_anything es₁ hstart.pendingOk
    have hI : Remembered _ (handleAll es₁ (new cfg restored)).2 (handleAll es₁ (new cfg restored)).1 :=
      hstart.steps h₁
    have hcov := handleEvent_covered position hI hmem
      (show OwnTrade (handleAll es₁ (new cfg restored)).1.cfg.accountIndex t id by
        rw [cfg_of_steps h₁]
        exact ht)
    -- The later events keep it covered.
    have hok := hI.pendingOk.steps (handleEvent_steps (.accountAll position trades) hI.pendingOk)
    have hend := hcov.steps (handleAll_anything es₂ hok)
    rw [handleAll_append]
    exact hend

/-- A trade that comes twice in one message is booked once. -/
theorem exactly_once_duplicate :
    let t := testTrade 1 42 .buy 100 (1 / 2) none
    let r := handleAll [.registerClientIds [42], .accountAll none [t, t]] (new testCfg .default)
    1 ∈ bookedIds r.2 ∧ r.1.fillCount = 1 := by
  intro t r
  have hcov := (exactly_once testCfg .default [.registerClientIds [42], .accountAll none [t, t]]).2
    [.registerClientIds [42]] none [t, t] [] t 1 rfl List.mem_cons_self
    (OwnTrade.testTrade 1 42 .buy none (by norm_num) (by norm_num))
  refine ⟨?_, by decide +kernel⟩
  rcases hcov with hb | hq | he
  · exact hb
  · exact absurd hq (by decide +kernel)
  · exact absurd he (by decide +kernel)

end PnlActor

end LighterMM
