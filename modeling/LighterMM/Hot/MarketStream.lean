import LighterMM.Book.Unreadable
import LighterMM.Lighter.Reconnects

/-!
# The hot task behind its subscription (`HotTask::run`)

The hot task runs as the callback of `subscribe_loop`: `onMessage` reads an application message, and a
disconnect raises the reset flag. A request for a fresh snapshot is a permit that the loop looks for before
it waits for the next message.

So the request ends the session before another message is read, and the reset is pending when the next
session brings one: no message ever finds the task waiting for a snapshot (`resnapshot_reconnects`), and
the branch of `on_orderbook` that ignores deltas meanwhile is never taken. If the first book message of each
session is of snapshot type, then quotes are priced from the messages of the current session and from
nothing else (`quotes_from_session`).
-/

namespace LighterMM

variable {n : ℕ} (parse : String → NumText)

/-! ## Reading the messages -/

/-- An `order_book` message, up to its levels. -/
def RawBookMsg.decode (j : Json) : Option RawBookMsg :=
  match j.record ["type", "offset", "nonce", "begin_nonce", "order_book"] with
  | some [some mtype, offset, nonce, beginNonce, some payload] =>
    match payload.record ["bids", "asks", "offset", "nonce", "begin_nonce"] with
    | some [bids, asks, payloadOffset, payloadNonce, payloadBeginNonce] => do
      let mtype ← mtype.asStr
      let offset ← Json.orDefault (Json.nullable Json.asU64) none offset
      let nonce ← Json.orDefault (Json.nullable Json.asI64) none nonce
      let beginNonce ← Json.orDefault (Json.nullable Json.asI64) none beginNonce
      let bids ← Json.orDefault Json.asArray [] bids
      let asks ← Json.orDefault Json.asArray [] asks
      let payloadOffset ← Json.orDefault (Json.nullable Json.asU64) none payloadOffset
      let payloadNonce ← Json.orDefault (Json.nullable Json.asI64) none payloadNonce
      let payloadBeginNonce ← Json.orDefault (Json.nullable Json.asI64) none payloadBeginNonce
      let levels : Side → List Json := fun | .buy => bids | .sell => asks
      pure { subscribed := contains mtype "subscribed", offset, nonce, beginNonce, levels, payloadOffset
             payloadNonce, payloadBeginNonce }
    | _ => none
  | _ => none

def OrderBookMsg.decode (j : Json) : Option OrderBookMsg := (RawBookMsg.decode j).bind (RawBookMsg.read parse)

/-- `TickerMsg`: the values under `ticker`. -/
structure TickerMsg where
  ticker : Json

namespace TickerMsg

def decode (j : Json) : Option TickerMsg :=
  match j.record ["type", "ticker"] with
  | some [some mtype, ticker] => do
    let _ ← mtype.asStr
    let ticker ← Json.orDefault (fun t => if t.isObject then some t else none) (.obj []) ticker
    pure { ticker }
  | _ => none

def field (m : TickerMsg) (k : String) : Option ℚ :=
  (m.ticker.get k).bind fun
    | .str s => parse s
    | v => v.asF64

def bestBid (m : TickerMsg) : Option ℚ := (m.field parse "best_bid").or (m.field parse "bid")

def bestAsk (m : TickerMsg) : Option ℚ := (m.field parse "best_ask").or (m.field parse "ask")

end TickerMsg

/-- The hot path: one message, by its type. -/
def HotTask.onMessage (sqrt : ℚ → ℚ) (cfg : HotConfig n) (t : HotTask n) (mtype : String) (raw : Json)
    (r : Reads n) : HotTask n × List (HotEffect n) :=
  if contains mtype "order_book" then
    match OrderBookMsg.decode parse raw with
    | some msg => t.onOrderbook sqrt cfg msg r
    | none => (t, [])
  else if contains mtype "ticker" then
    match TickerMsg.decode raw with
    | some m => (t.onTicker (m.bestBid parse) (m.bestAsk parse) r.now, [])
    | none => (t, [])
  else (t, [])

/-- What `HotTask::run` subscribes with. -/
def HotTask.subscriber (sqrt : ℚ → ℚ) (cfg : HotConfig n) : Subscriber (HotTask n) (Reads n) where
  onMessage mtype raw r t :=
    let q := t.onMessage parse sqrt cfg mtype raw r
    (q.1, q.2.contains .notifyReconnect)
  onDisconnect t := t.onDisconnect
  listens := true
  authed := false

/-- The order book message in a frame. -/
def bookMessage (m : WsMessage) : Option OrderBookMsg :=
  m.application.bind fun x => if contains x.1 "order_book" then OrderBookMsg.decode parse x.2 else none

/-- The order book messages of a session. -/
def bookMessages (frames : List (Instant × WsMessage)) : List OrderBookMsg :=
  frames.filterMap fun x => bookMessage parse x.2

namespace HotTask

variable {parse} {sqrt : ℚ → ℚ} {cfg : HotConfig n} {t : HotTask n} {msg : OrderBookMsg} {r : Reads n}
  {mtype : String} {raw : Json}

/-! ## One message -/

/-- The task waits for a snapshot after a message only if it asks for one, or waited before. -/
theorem receive_waits (h : (t.receive sqrt cfg msg r).1.awaitingResnapshot = true) :
    HotEffect.notifyReconnect ∈ (t.receive sqrt cfg msg r).2.1 ∨ t.takeReset.awaitingResnapshot = true := by
  have happlied (u : HotTask n) (hu : (u.applied sqrt cfg msg r).1.awaitingResnapshot = true) :
      HotEffect.notifyReconnect ∈ (u.applied sqrt cfg msg r).2.1 ∨ u.awaitingResnapshot = true := by
    unfold applied at hu ⊢
    simp only at hu ⊢
    have hcases := updateSignal_cases sqrt cfg
      ({ u with book := applyMsg u.book msg
                calculator := if u.book.initialized then u.calculator else u.calculator.reset } : HotTask n) r
    generalize updateSignal sqrt cfg _ r = q at hcases hu ⊢
    cases hcases with
    | noMid => exact .inr hu
    | diverged => exact .inl (by simp [requestResnapshot])
    | updated => exact .inr hu
  have hcases := t.receive_cases sqrt cfg msg r
  generalize t.receive sqrt cfg msg r = q at hcases h ⊢
  cases hcases with
  | snapshot =>
    rcases happlied _ h with h | h
    · exact .inl h
    · cases h
  | waiting hd hw => exact .inr hw
  | stale hd hw => exact .inr h
  | gap => exact .inl (by simp [requestResnapshot])
  | delta => exact happlied _ h

/-- A reset ends the wait. -/
theorem takeReset_waits (h : t.takeReset.awaitingResnapshot = true) :
    t.awaitingResnapshot = true ∧ t.resetFlag = false := by
  obtain ⟨-, ⟨hreset, -⟩ | ⟨hreset, heq⟩⟩ := t.takeReset_cases
  · simp [takeReset, hreset] at h
  · exact ⟨heq ▸ h, hreset⟩

theorem onMessage_book (hm : contains mtype "order_book" = true) (hdec : OrderBookMsg.decode parse raw = some msg) :
    t.onMessage parse sqrt cfg mtype raw r = t.onOrderbook sqrt cfg msg r := by
  rw [onMessage, if_pos hm, hdec]

/-- A message that is no order book message leaves the book and the two flags, and asks for nothing. -/
theorem onMessage_other (h : (if contains mtype "order_book" then OrderBookMsg.decode parse raw else none) = none) :
    SameFeed t (t.onMessage parse sqrt cfg mtype raw r).1 := by
  unfold onMessage
  split
  · rename_i hbook
    rw [if_pos hbook] at h
    rw [h]
    exact ⟨rfl, rfl, rfl⟩
  · split
    · split
      · exact onTicker_sameFeed _ _ _ _
      · exact ⟨rfl, rfl, rfl⟩
    · exact ⟨rfl, rfl, rfl⟩

theorem onOrderbook_asks (h : HotEffect.notifyReconnect ∈ (t.receive sqrt cfg msg r).2.1) :
    HotEffect.notifyReconnect ∈ (t.onOrderbook sqrt cfg msg r).2 := by
  unfold onOrderbook
  simp only
  split
  · exact List.mem_append_left _ h
  · exact h

end HotTask

/-! ## Requests for a snapshot -/

namespace MarketStream

variable {parse} {sqrt : ℚ → ℚ} {cfg : HotConfig n} {opts : SubscribeOptions} {s s' : SubLoop (HotTask n)}
  {a : SubAct (Reads n)} {now : Instant} {msg : OrderBookMsg} {r : Reads n} {m : WsMessage}

/-- The market data stream at the start of `run`. -/
def start (sqrt : ℚ → ℚ) (cfg : HotConfig n) (opts : SubscribeOptions) (now : Instant) : SubLoop (HotTask n) :=
  .start opts (.new sqrt cfg now) now

def step (parse : String → NumText) (sqrt : ℚ → ℚ) (cfg : HotConfig n) (opts : SubscribeOptions) :
    SubLoop (HotTask n) → SubAct (Reads n) → Option (SubLoop (HotTask n)) :=
  SubLoop.step (HotTask.subscriber parse sqrt cfg) opts

/-- A task that waits for a snapshot has a request under way or a reset pending. -/
def WaitsForSession (s : SubLoop (HotTask n)) : Prop :=
  s.state.awaitingResnapshot = true → s.permit = true ∨ s.state.resetFlag = true

/-- A handed message keeps this; while no request is under way, the task waits only for a pending reset. -/
theorem WaitsForSession.handed {mtype : String} {raw : Json} (h : WaitsForSession s) (hp : s.permit = false) :
    (s.state.onMessage parse sqrt cfg mtype raw r).1.awaitingResnapshot = true →
      (s.state.onMessage parse sqrt cfg mtype raw r).2.contains .notifyReconnect = true ∨
      (s.state.onMessage parse sqrt cfg mtype raw r).1.resetFlag = true := by
  intro hw
  cases hb : (if contains mtype "order_book" then OrderBookMsg.decode parse raw else none) with
  | none =>
    have hsame : HotTask.SameFeed s.state (s.state.onMessage parse sqrt cfg mtype raw r).1 :=
      HotTask.onMessage_other hb
    rw [hsame.awaiting] at hw
    rcases h hw with hperm | hreset
    · rw [hp] at hperm
      cases hperm
    · exact .inr (hsame.resetFlag.trans hreset)
  | some msg =>
    obtain ⟨hbook, hdec⟩ : contains mtype "order_book" = true ∧ OrderBookMsg.decode parse raw = some msg := by
      split at hb
      · exact ⟨by assumption, hb⟩
      · cases hb
    rw [HotTask.onMessage_book hbook hdec] at hw ⊢
    rw [(s.state.onOrderbook_sameFeed sqrt cfg msg r).awaiting] at hw
    rcases HotTask.receive_waits hw with hask | hw
    · exact .inl (List.contains_iff_mem.mpr (HotTask.onOrderbook_asks hask))
    · obtain ⟨hw, hreset⟩ := HotTask.takeReset_waits hw
      rcases h hw with hperm | hreset'
      · rw [hp] at hperm
        cases hperm
      · rw [hreset] at hreset'
        cases hreset'

theorem WaitsForSession.step (h : WaitsForSession s) (hquiet : s.permit = true → s.pc = .checking)
    (hst : step parse sqrt cfg opts s a = some s') : WaitsForSession s' := by
  obtain ⟨-, hcase⟩ := SubLoop.step_cases hst
  have h : WaitsForSession { s with clock := a.now } := h
  have hquiet : ({ s with clock := a.now } : SubLoop (HotTask n)).permit = true →
      ({ s with clock := a.now } : SubLoop (HotTask n)).pc = .checking := hquiet
  generalize ({ s with clock := a.now } : SubLoop (HotTask n)) = s at h hquiet hcase
  cases hcase with
  | noToken | begins | opens | passes | pings | ignores => exact h
  | forced | breaks => exact fun _ => .inr rfl
  | @hands _ _ m r mtype raw hpc hm =>
    have hp : s.permit = false :=
      Bool.eq_false_of_not_eq_true fun hp => absurd ((hquiet hp).symm.trans hpc) nofun
    intro hw
    rcases h.handed hp hw with hask | hreset
    · refine .inl ?_
      show (s.permit || _) = true
      rw [show ((HotTask.subscriber parse sqrt cfg).onMessage mtype raw r s.state).2 = true from hask, Bool.or_true]
    · exact .inr hreset

theorem reach_inv (h : Trans.Reach (step parse sqrt cfg opts) (start sqrt cfg opts now) s) :
    (s.permit = true → s.pc = .checking) ∧ WaitsForSession s := by
  refine h.invariant (I := fun s => (s.permit = true → s.pc = .checking) ∧ WaitsForSession s)
    ⟨(fun hp => nomatch hp), (fun hw => nomatch hw)⟩ fun s a s' hs _ hst => ?_
  exact ⟨SubLoop.permit_checking rfl hs.1 hst, hs.2.step hs.1 hst⟩

/-- **A request for a snapshot reconnects at once.** In every run of the stream: no message finds the task
waiting for a snapshot; and if the task asks for one at a message, the next step of the loop ends the
session, with the reset pending, the book as it was and nothing left of the request. -/
theorem resnapshot_reconnects (h : Trans.Reach (step parse sqrt cfg opts) (start sqrt cfg opts now) s) :
    (s.pc = .waiting → s.state.takeReset.awaitingResnapshot = false) ∧
    ∀ now nowMs m r mtype raw a' s' s'', m.application = some (mtype, raw) →
      .notifyReconnect ∈ (s.state.onMessage parse sqrt cfg mtype raw r).2 →
      step parse sqrt cfg opts s ⟨now, nowMs, .read m r⟩ = some s' → step parse sqrt cfg opts s' a' = some s'' →
      (∃ til, s''.pc = .sleeping til) ∧ s''.state.resetFlag = true ∧ s''.state.book = s'.state.book ∧
        s''.frames = s.frames ++ [(now, m)] ∧ s''.permit = false := by
  obtain ⟨hquiet, hwaits⟩ := reach_inv h
  constructor
  · intro hpc
    refine Bool.eq_false_of_not_eq_true fun hw => ?_
    obtain ⟨hw, hreset⟩ := HotTask.takeReset_waits hw
    rcases hwaits hw with hp | hreset'
    · exact absurd ((hquiet hp).symm.trans hpc) nofun
    · rw [hreset] at hreset'
      cases hreset'
  · intro now nowMs m r mtype raw a' s' s'' hm hask hst hst'
    obtain ⟨-, rfl⟩ := SubLoop.step_hands hm hst
    have hp : (s.permit || (s.state.onMessage parse sqrt cfg mtype raw r).2.contains .notifyReconnect) = true := by
      rw [List.contains_iff_mem.mpr hask, Bool.or_true]
    rw [SubLoop.request_ends_session rfl hp rfl hst']
    exact ⟨⟨_, rfl⟩, rfl, rfl, rfl, rfl⟩

/-- A book message with one level on each side. -/
def bookText (mtype : String) (fields : List (String × Json)) : WsMessage :=
  .text (some (.obj [("type", .str mtype), ("order_book", .obj
    ([("bids", .arr [.obj [("price", .int 99), ("size", .int 1)]]),
      ("asks", .arr [.obj [("price", .int 101), ("size", .int 1)]])] ++ fields))]))

/-- A session opens, and a snapshot arrives. -/
def snapshotRead : List (SubAct (Reads 1)) :=
  [⟨0, 0, .wake []⟩, ⟨0, 0, .connected⟩, ⟨0, 0, .check⟩,
    ⟨1, 0, .read (bookText "subscribed/order_book" [("nonce", .int 5)]) (HotTask.flatReads 1 [])⟩, ⟨1, 0, .check⟩]

/-- A delta that does not follow it. -/
def gappedDelta : WsMessage := bookText "update/order_book" [("begin_nonce", .int 9)]

theorem resnapshot_reconnects_gap :
    ∃ s s' s'' : SubLoop (HotTask 1),
      step (fun _ => none) id HotTask.quickConfig SubLoop.defaultOptions s
        ⟨2, 0, .read gappedDelta (HotTask.flatReads 2 [])⟩ = some s' ∧
      step (fun _ => none) id HotTask.quickConfig SubLoop.defaultOptions s' ⟨3, 0, .check⟩ = some s'' ∧
      s''.state.resetFlag = true ∧ s''.state.book = s'.state.book ∧ s''.permit = false := by
  obtain ⟨s, hrun, hs⟩ := Option.bind_eq_some_iff.mp
    (show ((Trans.run (step (fun _ => none) id HotTask.quickConfig SubLoop.defaultOptions)
        (start id HotTask.quickConfig SubLoop.defaultOptions 0) snapshotRead).bind fun s =>
      (step (fun _ => none) id HotTask.quickConfig SubLoop.defaultOptions s
          ⟨2, 0, .read gappedDelta (HotTask.flatReads 2 [])⟩).bind fun s' =>
        (step (fun _ => none) id HotTask.quickConfig SubLoop.defaultOptions s' ⟨3, 0, .check⟩).map fun _ =>
          gappedDelta.application.any fun p => decide (.notifyReconnect ∈ (s.state.onMessage (fun _ => none) id
            HotTask.quickConfig p.1 p.2 (HotTask.flatReads 2 [])).2)) = some true by decide +kernel)
  obtain ⟨s', hst, hs⟩ := Option.bind_eq_some_iff.mp hs
  obtain ⟨s'', hst', hask⟩ := Option.map_eq_some_iff.mp hs
  obtain ⟨⟨mtype, raw⟩, hm, hask⟩ := (Option.any_eq_true _ _).mp hask
  obtain ⟨-, hreset, hbook, -, hp⟩ := (resnapshot_reconnects (Trans.reach_iff_run.mpr ⟨_, hrun⟩)).2 2 0 gappedDelta
    (HotTask.flatReads 2 []) mtype raw ⟨3, 0, .check⟩ s' s'' hm (of_decide_eq_true hask) hst hst'
  exact ⟨s, s', s'', hst, hst', hreset, hbook, hp⟩

/-! ## Quotes -/

/-- The order book messages of the session under way. -/
def sessionMessages (parse : String → NumText) (s : SubLoop (HotTask n)) : List OrderBookMsg :=
  match s.pc with
  | .sleeping _ => []
  | _ => bookMessages parse s.frames

/-- The first order book message of a session is of snapshot type. -/
def SnapshotFirst (parse : String → NumText) (s : SubLoop (HotTask n)) : SubAct (Reads n) → Prop
  | ⟨_, _, .read m _⟩ => bookMessages parse s.frames = [] → ∀ msg ∈ bookMessage parse m, msg.isSnapshot = true
  | _ => True

instance (s : SubLoop (HotTask n)) : DecidablePred (SnapshotFirst parse s)
  | ⟨_, _, .read m _⟩ => inferInstanceAs (Decidable
      (bookMessages parse s.frames = [] → ∀ msg ∈ bookMessage parse m, msg.isSnapshot = true))
  | ⟨_, _, .wake _⟩ | ⟨_, _, .connectFails⟩ | ⟨_, _, .connected⟩ | ⟨_, _, .check⟩ | ⟨_, _, .tick _⟩
  | ⟨_, _, .readEnds⟩ => isTrue trivial

/-- The task is as an observer of the messages of the session expects it. -/
def FromSession (parse : String → NumText) (s : SubLoop (HotTask n)) : Prop :=
  ∃ tripped, Observed.Inv ⟨s.state, sessionMessages parse s, tripped⟩

theorem bookMessages_concat (frames : List (Instant × WsMessage)) (x : Instant × WsMessage) :
    bookMessages parse (frames ++ [x]) = bookMessages parse frames ++ (bookMessage parse x.2).toList := by
  rw [bookMessages, bookMessages, List.filterMap_append, List.filterMap_cons]
  cases bookMessage parse x.2 <;> rfl

theorem bookMessage_eq {mtype : String} {raw : Json} (hm : m.application = some (mtype, raw)) :
    bookMessage parse m = if contains mtype "order_book" then OrderBookMsg.decode parse raw else none := by
  rw [bookMessage, hm]
  rfl

theorem bookMessage_eq_none (hm : m.application = none) : bookMessage parse m = none := by
  rw [bookMessage, hm]
  rfl

/-- A message in the words of the observer. -/
theorem onMessage_observed {mtype : String} {raw : Json} {conn : List OrderBookMsg} {b : Bool}
    (h : Observed.Inv ⟨s.state, conn, b⟩) (hm : m.application = some (mtype, raw))
    (hfirst : conn = [] → ∀ msg ∈ bookMessage parse m, msg.isSnapshot = true) :
    ∃ b', Observed.Inv ⟨(s.state.onMessage parse sqrt cfg mtype raw r).1, conn ++ (bookMessage parse m).toList, b'⟩ := by
  rw [bookMessage_eq hm] at hfirst ⊢
  cases hb : (if contains mtype "order_book" then OrderBookMsg.decode parse raw else none) with
  | none =>
    rw [Option.toList_none, List.append_nil]
    exact ⟨b, h.congr (HotTask.onMessage_other hb)⟩
  | some msg =>
    obtain ⟨hbook, hdec⟩ : contains mtype "order_book" = true ∧ OrderBookMsg.decode parse raw = some msg := by
      split at hb
      · exact ⟨by assumption, hb⟩
      · cases hb
    rw [HotTask.onMessage_book hbook hdec]
    have hkeep : Observed.Inv ⟨(s.state.receive sqrt cfg msg r).1, conn ++ [msg], _⟩ :=
      (h.receive fun hc => hfirst hc msg hb).1
    exact ⟨_, hkeep.congr (s.state.onOrderbook_sameFeed sqrt cfg msg r)⟩

theorem FromSession.step (h : FromSession parse s) (hok : SnapshotFirst parse s a)
    (hst : step parse sqrt cfg opts s a = some s') : FromSession parse s' := by
  obtain ⟨-, hcase⟩ := SubLoop.step_cases hst
  have h : FromSession parse { s with clock := a.now } := h
  have hok : SnapshotFirst parse { s with clock := a.now } a := hok
  generalize ({ s with clock := a.now } : SubLoop (HotTask n)) = s at h hok hcase
  obtain ⟨b, h⟩ := h
  have running (hpc : s.pc = .connecting ∨ s.pc = .checking ∨ s.pc = .waiting) :
      sessionMessages parse s = bookMessages parse s.frames := by
    unfold sessionMessages
    rcases hpc with hpc | hpc | hpc <;> rw [hpc]
  have ended (t : SubLoop (HotTask n)) (hstate : t.state = s.state.onDisconnect) (hpc : ∃ til, t.pc = .sleeping til) :
      FromSession parse t := by
    obtain ⟨til, hpc⟩ := hpc
    refine ⟨b, ?_⟩
    rw [hstate, sessionMessages, hpc]
    have hdisconnect : Observed.step sqrt cfg ⟨s.state, sessionMessages parse s, b⟩ .disconnect =
      some ⟨s.state.onDisconnect, [], b⟩ := rfl
    exact h.step (a := .disconnect) trivial hdisconnect
  cases hcase with
  | noToken hpc =>
    rw [sessionMessages, hpc] at h
    exact ⟨b, h⟩
  | begins tokens hpc =>
    rw [sessionMessages, hpc] at h
    exact ⟨b, h⟩
  | opens hpc | passes hpc | pings hpc =>
    rw [running (by simp [hpc])] at h
    exact ⟨b, h⟩
  | forced | breaks => exact ended _ rfl ⟨_, rfl⟩
  | @hands _ _ m r mtype raw hpc hm =>
    rw [running (by simp [hpc])] at h
    obtain ⟨b', h'⟩ := onMessage_observed h hm hok
    refine ⟨b', ?_⟩
    rw [← bookMessages_concat s.frames (s.clock, m)] at h'
    exact h'
  | @ignores _ _ m r hpc hm answers =>
    rw [running (by simp [hpc])] at h
    refine ⟨b, ?_⟩
    show Observed.Inv ⟨s.state, bookMessages parse (s.frames ++ [(s.clock, m)]), b⟩
    rw [bookMessages_concat, bookMessage_eq_none hm, Option.toList_none, List.append_nil]
    exact h

/-- **Quotes are priced from the current session.** On a stream whose sessions all begin with a
snapshot-type message, the book that `maybe_quote` runs on is the latest snapshot of the session with the
fresh deltas after it, without a gap. -/
theorem quotes_from_session
    (h : Trans.ReachBy (step parse sqrt cfg opts) (SnapshotFirst parse) (start sqrt cfg opts now) s)
    (hpc : s.pc = .waiting) (hm : bookMessage parse m = some msg)
    (hfirst : bookMessages parse s.frames = [] → msg.isSnapshot = true) (x : Instant) :
    (s.state.receive sqrt cfg msg r).2.2 = true →
      GapFree (bookMessages parse (s.frames ++ [(x, m)])) (s.state.receive sqrt cfg msg r).1.book := by
  intro hq
  have hinv : FromSession parse s :=
    h.invariant ⟨false, Observed.start_inv⟩ fun s a s' hs hok hst => hs.step hok hst
  obtain ⟨b, hinv⟩ := hinv
  have hconn : sessionMessages parse s = bookMessages parse s.frames := by rw [sessionMessages, hpc]
  rw [hconn] at hinv
  obtain ⟨snap, after, base, ht⟩ := (hinv.receive hfirst).2 hq
  rw [bookMessages_concat, hm]
  exact ht.gapFree

/-- A delta that follows the snapshot. -/
theorem quotes_from_session_delta :
    ∃ s : SubLoop (HotTask 1), s.pc = .waiting ∧
      GapFree (bookMessages (fun _ => none) (s.frames ++ [(2, bookText "update/order_book" [("begin_nonce", .int 5)])]))
        (s.state.receive id HotTask.quickConfig ⟨false, none, none, none,
          ⟨[⟨99, 1⟩], [⟨101, 1⟩], none, none, some 5⟩⟩ (HotTask.flatReads 2 [])).1.book := by
  obtain ⟨s, hrun, h⟩ := Option.map_eq_some_iff.mp
    (show (Trans.runIf (step (fun _ => none) id HotTask.quickConfig SubLoop.defaultOptions)
        (SnapshotFirst fun _ => none) (start id HotTask.quickConfig SubLoop.defaultOptions 0) snapshotRead).map
        (fun s => decide (s.pc = .waiting ∧ (bookMessages (fun _ => none) s.frames).length = 1 ∧
          (s.state.receive id HotTask.quickConfig ⟨false, none, none, none,
            ⟨[⟨99, 1⟩], [⟨101, 1⟩], none, none, some 5⟩⟩ (HotTask.flatReads 2 [])).2.2 = true)) = some true by
      decide +kernel)
  obtain ⟨hpc, hlen, hq⟩ := of_decide_eq_true h
  refine ⟨s, hpc, quotes_from_session (.of_runIf hrun) hpc rfl (fun hnil => ?_) 2 hq⟩
  rw [hnil] at hlen
  cases hlen

end MarketStream

end LighterMM
