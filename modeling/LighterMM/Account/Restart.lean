import LighterMM.Account.Attribution

/-!
# A restart

The totals survive a restart, the set of seen trades does not. A trade that was booked before and is
delivered again after it is booked again as soon as it can be attributed.

* `ReplaySafe`: an event that cannot book a trade of a given set, by what the actor knows before it.
* `handleEvent_notBooked`: it books none of them.
* `restart_counts_once`: in a run of such events no total counts a trade twice.
-/

namespace LighterMM

namespace PnlActor

variable {a b b' : PnlActor} {D : Deliveries} {ns log : List PnlNote} {old : List ℤ}

/-- The fill waits for a registration that is not among the delivered ones. -/
def Blocked (D : Deliveries) (a : PnlActor) (fill : FillView) : Prop :=
  a.awaited fill ≠ none ∧ ∀ c, fill.clientOrderId = some c → 0 < c → ¬D.client c

/-- The event delivers no trade with an id of `old` that can be attributed at once, and registers the
client id of none that is pending. -/
structure ReplaySafe (old : List ℤ) (a : PnlActor) (e : PnlEvent) : Prop where
  trades : ∀ t, e.deliveries.trade t → ∀ id ∈ old, ∀ fill, OwnFill a.cfg.accountIndex t id fill →
    a.awaited fill ≠ none
  clients : ∀ q ∈ a.pending, ∀ id ∈ old, ∀ fill, OwnFill a.cfg.accountIndex q.1 id fill →
    ∀ c, fill.clientOrderId = some c → 0 < c → ¬e.deliveries.client c

/-- A run of such events. -/
def ReplaySafeRun (old : List ℤ) : List PnlEvent → PnlActor → Prop
  | [], _ => True
  | e :: es, a => ReplaySafe old a e ∧ ReplaySafeRun old es (a.handleEvent e).1

/-- Inside an event that started in `a`: no client is known but those of `a` and the delivered ones, the
pending trades of `old` are blocked, and none of them is booked. -/
structure NotBooked (D : Deliveries) (old : List ℤ) (a : PnlActor) (log : List PnlNote) (b : PnlActor) :
    Prop where
  cfg : b.cfg = a.cfg
  clients : ∀ c ∈ b.strategyClientIds.members, c ∈ a.strategyClientIds.members ∨ (0 < c ∧ D.client c)
  pending : ∀ q ∈ b.pending, ∀ id ∈ old, ∀ fill, OwnFill a.cfg.accountIndex q.1 id fill →
    Blocked D a fill
  booked : ∀ id ∈ bookedIds log, id ∉ old

/-- A blocked fill still waits. -/
theorem NotBooked.awaited {fill : FillView} (h : NotBooked D old a log b) (hf : Blocked D a fill) :
    b.awaited fill ≠ none := by
  obtain ⟨hwait, hclient⟩ := hf
  unfold PnlActor.awaited attributeToStrategy isKnownStrategy at hwait ⊢
  rw [h.cfg]
  cases hc : fill.clientOrderId with
  | none =>
    rw [hc] at hwait
    exact absurd (ite_self none) hwait
  | some c =>
    rw [hc] at hwait
    simp only [Bool.or_eq_true, decide_eq_true_eq] at hwait ⊢
    have hold : ¬(c ∈ a.strategyClientIds.members ∨ a.cfg.includeUnattributedAccountFills = true) :=
      fun hk => hwait (if_pos hk)
    rw [not_or] at hold
    have hnew : c ∉ b.strategyClientIds.members := by
      intro hm
      rcases h.clients c hm with hm | ⟨hpos, hd⟩
      · exact hold.1 hm
      · exact hclient c hc hpos hd
    rw [if_neg (not_or.mpr ⟨hnew, hold.2⟩)]
    exact Option.some_ne_none c

/-- A move that books nothing and leaves clients and queue alone. -/
theorem NotBooked.quiet (h : NotBooked D old a log b) (hcfg : b'.cfg = b.cfg)
    (hs : b'.strategyClientIds = b.strategyClientIds) (hq : ∀ q ∈ b'.pending, q ∈ b.pending)
    (hns : bookedIds ns = []) : NotBooked D old a (log ++ ns) b' where
  cfg := hcfg.trans h.cfg
  clients := hs ▸ h.clients
  pending := fun q hm => h.pending q (hq q hm)
  booked := by
    rw [bookedIds_append, hns, List.append_nil]
    exact h.booked

theorem Move.notBooked (hm : Move D b ns b') (h : NotBooked D old a log b)
    (hD : ∀ t, D.trade t → ∀ id ∈ old, ∀ fill, OwnFill a.cfg.accountIndex t id fill → Blocked D a fill) :
    NotBooked D old a (log ++ ns) b' := by
  cases hm with
  | @register id hid =>
    have hns : bookedIds (b.registerClientId id).2 = [] := by
      rcases registerClientId_notes b id with hn | ⟨ids, hn⟩ <;> rw [hn] <;> rfl
    obtain ⟨s, hs⟩ := registerClientId_eq b id
    refine ⟨by rw [hs]; exact h.cfg, fun c hc => ?_, by rw [hs]; exact h.pending, ?_⟩
    · unfold registerClientId at hc
      by_cases hpos : 0 < id
      · rw [if_pos hpos] at hc
        rcases FifoSet.mem_insert hc with rfl | hc
        · exact .inr ⟨hpos, hid⟩
        · exact h.clients c hc
      · rw [if_neg hpos] at hc
        exact h.clients c hc
    · rw [bookedIds_append, hns, List.append_nil]
      exact h.booked
  | count _ _ _ hn =>
    exact h.quiet rfl rfl (fun _ hq => hq)
      (by rw [bookedIds, bookings, rejects_eq_nil (fun _ _ _ => rfl) hn]; rfl)
  | capital _ _ => exact h.quiet rfl rfl (fun _ hq => hq) rfl
  | position p _ =>
    rcases updatePosition_cases b p with ⟨-, hu⟩ | ⟨-, hu⟩ <;> rw [hu] <;>
      exact h.quiet rfl rfl (fun _ hq => hq) rfl
  | evict hq _ _ => exact h.quiet rfl rfl (fun q hm => hq ▸ List.mem_cons_of_mem _ hm) rfl
  | @queue t id _ _ ht hf _ _ _ =>
    refine ⟨h.cfg, h.clients, fun q hq => ?_, ?_⟩
    · rcases List.mem_append.mp hq with hq | hq
      · exact h.pending q hq
      · rw [List.mem_singleton.mp hq]
        exact hD t ht
    · rw [bookedIds_append]
      exact fun x hx => h.booked x ((List.mem_append.mp hx).resolve_right List.not_mem_nil)
  | @book t id fill ht hf _ _ haw =>
    refine ⟨h.cfg, h.clients, h.pending, fun x hx => ?_⟩
    rw [bookedIds_append] at hx
    rcases List.mem_append.mp hx with hx | hx
    · exact h.booked x hx
    · -- A delivered trade of `old` waits.
      rw [List.mem_singleton.mp (show x ∈ [id] from hx)]
      exact fun hold => h.awaited (hD t ht id hold fill (h.cfg ▸ hf)) haw
  | @replay t g id fill still rest hq hf _ haw =>
    have hentry : (t, g) ∈ b.pending := hq ▸ List.mem_append_right _ List.mem_cons_self
    refine ⟨h.cfg, h.clients, fun q hm => h.pending q ?_, fun x hx => ?_⟩
    · rw [hq]
      rcases List.mem_append.mp hm with hm | hm
      · exact List.mem_append_left _ hm
      · exact List.mem_append_right _ (List.mem_cons_of_mem _ hm)
    · rw [bookedIds_append] at hx
      rcases List.mem_append.mp hx with hx | hx
      · exact h.booked x hx
      · rw [List.mem_singleton.mp (show x ∈ [id] from hx)]
        exact fun hold => h.awaited (h.pending (t, g) hentry id hold fill (h.cfg ▸ hf)) haw

/-- A safe event books no trade of `old`. -/
theorem handleEvent_notBooked {e : PnlEvent} (hok : PendingOk a) (hset : Settled a)
    (hsafe : ReplaySafe old a e) : ∀ id ∈ bookedIds (a.handleEvent e).2, id ∉ old := by
  have hstart : NotBooked e.deliveries old a [] a := by
    refine ⟨rfl, fun c hc => .inl hc, fun q hq id hid fill hf => ⟨?_, ?_⟩, fun _ h => absurd h List.not_mem_nil⟩
    · exact hset q hq id fill hf
    · exact hsafe.clients q hq id hid fill hf
  have hD : ∀ t, e.deliveries.trade t → ∀ id ∈ old, ∀ fill, OwnFill a.cfg.accountIndex t id fill →
      Blocked e.deliveries a fill := by
    intro t ht id hid fill hf
    refine ⟨hsafe.trades t ht id hid fill hf, fun c _ _ hc => ?_⟩
    -- An event with trades registers nothing.
    cases e with
    | accountAll position trades => exact hc
    | _ => exact ht
  have hend : NotBooked e.deliveries old a ([] ++ (a.handleEvent e).2) (a.handleEvent e).1 :=
    (handleEvent_steps e hok).invariant hstart fun _ _ _ _ hI hm => hm.notBooked hI hD
  exact hend.booked

theorem handleAll_notBooked {es : List PnlEvent} (hok : PendingOk a) (hset : Settled a)
    (hsafe : ReplaySafeRun old es a) : ∀ id ∈ bookedIds (handleAll es a).2, id ∉ old := by
  induction es generalizing a with
  | nil => exact fun _ h => absurd h List.not_mem_nil
  | cons e es ih =>
    obtain ⟨he, hrest⟩ := hsafe
    have hrest' := ih (hok.steps (handleEvent_steps e hok)) (handleEvent_settled e hset) hrest
    intro id hid
    rw [handleAll, bookedIds_append] at hid
    rcases List.mem_append.mp hid with hid | hid
    · exact handleEvent_notBooked hok hset he id hid
    · exact hrest' id hid

/-- The restored totals are those of the flushed actor. -/
theorem new_flushAll {cfg : PnlCfg} {a : PnlActor} {utcNow : String}
    (hacct : cfg.accountIndex = a.cfg.accountIndex) (hmarket : cfg.marketId = a.cfg.marketId)
    (hnow : utcNow ≠ "") :
    (new cfg (a.flushAll utcNow)).fillCount = a.fillCount ∧
      (new cfg (a.flushAll utcNow)).notionalUsdc = a.notionalUsdc ∧
      (new cfg (a.flushAll utcNow)).strategyRealizedPnlUsdc = a.strategyRealizedPnlUsdc := by
  have hrestore : (a.flushAll utcNow).accountIndex = cfg.accountIndex ∧
      (a.flushAll utcNow).marketId = cfg.marketId ∧ (a.flushAll utcNow).updatedAt ≠ "" :=
    ⟨hacct.symm, hmarket.symm, hnow⟩
  simp only [new, if_pos hrestore]
  exact ⟨rfl, rfl, rfl⟩

/-- **A restart counts no trade twice** as long as the events after it are safe for the trades booked
before it: the durable totals grow by the bookings after it, and none of these is an old trade. -/
theorem restart_counts_once (cfg cfg' : PnlCfg) (restored : LiveState) (es es' : List PnlEvent)
    (utcNow : String) (hacct : cfg'.accountIndex = cfg.accountIndex) (hmarket : cfg'.marketId = cfg.marketId)
    (hnow : utcNow ≠ "")
    (hsafe : ReplaySafeRun (bookedIds (handleAll es (new cfg restored)).2) es'
      (new cfg' ((handleAll es (new cfg restored)).1.flushAll utcNow))) :
    let before := handleAll es (new cfg restored)
    let after := handleAll es' (new cfg' (before.1.flushAll utcNow))
    (∀ id ∈ bookedIds after.2, id ∉ bookedIds before.2) ∧
      after.1.fillCount = before.1.fillCount + (bookings after.2).length ∧
      after.1.notionalUsdc = before.1.notionalUsdc + ((bookings after.2).map (·.fill.notionalUsd)).sum ∧
      after.1.strategyRealizedPnlUsdc = before.1.strategyRealizedPnlUsdc +
        ((bookings after.2).map fun b => if b.attributed then b.realizedDelta else 0).sum := by
  intro before after
  have hcfg : before.1.cfg = cfg := cfg_of_steps (handleAll_anything es (.new cfg restored))
  obtain ⟨hcount, hnotional, hrealized⟩ :=
    new_flushAll (a := before.1) (hcfg ▸ hacct) (hcfg ▸ hmarket) hnow
  have hok : PendingOk (new cfg' (before.1.flushAll utcNow)) := .new _ _
  have htot : Totals (new cfg' (before.1.flushAll utcNow)) after.2 after.1 :=
    (Totals.refl _).steps (handleAll_anything es' hok)
  refine ⟨handleAll_notBooked hok (fun _ h => absurd h List.not_mem_nil) hsafe, ?_, ?_, ?_⟩
  · rw [htot.fillCount, hcount]
  · rw [htot.notional, hnotional]
  · rw [htot.realized, hrealized]

/-- A trade of a client id that the new process does not know. -/
theorem restart_counts_once_unknown :
    let t := testTrade 1 42 .sell 101 (1 / 2) none
    let before := handleAll [.registerClientIds [42], .accountAll none [t]] (new testCfg .default)
    let after := handleAll [.accountAll none [t]] (new testCfg (before.1.flushAll "later"))
    1 ∈ bookedIds before.2 ∧ 1 ∉ bookedIds after.2 ∧ after.1.fillCount = 1 := by
  intro t before after
  have hold : 1 ∈ bookedIds before.2 := by decide +kernel
  have h := restart_counts_once testCfg testCfg .default
    [.registerClientIds [42], .accountAll none [t]] [.accountAll none [t]] "later" rfl rfl (by decide)
    ⟨⟨fun u hu id _ fill hf => by
        have hview := hf.view
        rw [List.mem_singleton.mp (show u ∈ [t] from hu)] at hview
        cases hview
        decide +kernel,
      fun q hq => absurd hq List.not_mem_nil⟩, trivial⟩
  exact ⟨hold, fun hnew => h.1 1 hnew hold, by decide +kernel⟩

/-- A trade of ours without a client id, as a liquidation has it. -/
def liquidation : PnlTrade := { testTrade 1 42 .sell 101 (1 / 2) none with askClientId := none }

/-- It is booked again when it is delivered again after the restart. -/
theorem restart_counts_twice :
    let before := handleAll [.accountAll none [liquidation]] (new testCfg .default)
    let after := handleAll [.accountAll none [liquidation]] (new testCfg (before.1.flushAll "later"))
    OwnTrade 7 liquidation 1 ∧ 1 ∈ bookedIds before.2 ∧ 1 ∈ bookedIds after.2 ∧
      before.1.fillCount = 1 ∧ after.1.fillCount = 2 := by
  refine ⟨⟨rfl, .inl rfl, ⟨101, rfl, by norm_num⟩, ⟨1 / 2, rfl, by norm_num⟩⟩, ?_, ?_, ?_, ?_⟩
  · decide +kernel
  · decide +kernel
  · decide +kernel
  · decide +kernel

end PnlActor

end LighterMM
