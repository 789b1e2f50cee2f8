import LighterMM.Lighter.TxConnection

/-!
# Subscription sessions (`lighter/ws.rs`)

`subscribe_loop` and `subscribe_loop_authed` run one session after another: connect, subscribe, hand the
application messages to a callback until the session ends, sleep, start over. They are one step relation
here, `SubLoop`, for any `Subscriber`: its callbacks, and which of the two loops it runs.

- **A session** ends at a read error, a dead socket, a close frame, a request to reconnect (looked for
  before each wait), or at the first ping tick that finds the data too old. Only application messages count
  as data.
- **Between two sessions** the loop sleeps for the backoff and some jitter. The backoff doubles from round
  to round and starts over after a stable session.

`rounds` and `frames` are histories: the rounds so far, and what the current session has read.
-/

namespace LighterMM

/-- `RECONNECT_BACKOFF_RESET_AFTER`. -/
def reconnectBackoffResetAfter : ℚ := 30

/-- The delay before the next session. -/
def reconnectDelayAfterSession (currentBackoff baseBackoff elapsed : ℚ) : ℚ :=
  if reconnectBackoffResetAfter ≤ elapsed then baseBackoff else currentBackoff

/-- The backoff to carry forward after a session. -/
def nextReconnectBackoff (currentBackoff baseBackoff maxBackoff elapsed : ℚ) : ℚ :=
  if reconnectBackoffResetAfter ≤ elapsed then baseBackoff else min (currentBackoff * 2) maxBackoff

/-- Jitter from the wall clock in milliseconds. -/
def jitter (base : ℚ) (nowMs : ℕ) : ℚ := base * (1 / 5) * (((nowMs % 1000 : ℕ) : ℚ) / 1000)

/-- `TypeProbe`: the type of a message, if it has one. A type of another kind fails the probe. -/
def typeProbe (j : Json) : Option (Option String) :=
  match j.record ["type"] with
  | some [mtype] => Json.orDefault (Json.nullable Json.asStr) none mtype
  | _ => none

/-- An application message: its type and its text. Pings, confirmations and what is no message are none. -/
def WsMessage.application : WsMessage → Option (String × Json)
  | .text (some j) =>
    match typeProbe j with
    | none => none
    | some mtype => if mtype = some "ping" ∨ mtype = some "subscribed" then none else some (mtype.getD "", j)
  | _ => none

structure SubscribeOptions where
  channels : List String
  channelAuths : List (String × String)
  recvTimeout : ℚ
  reconnectBase : ℚ
  reconnectMax : ℚ
  pingInterval : ℚ

/-- The period of the ping ticks. -/
def SubscribeOptions.pingPeriod (opts : SubscribeOptions) : ℚ := clamp opts.pingInterval 5 110

/-- The tick after the one that was due at `due` and taken at `now` (`MissedTickBehavior::Skip`). -/
def nextTick (period due now : ℚ) : ℚ :=
  if due + 1 / 200 < now then now + period - ((now - due) - period * ⌊(now - due) / period⌋)
  else due + period

/-- What a loop is called with. `onMessage` also tells whether it requested a reconnect; `ρ` is what it
reads when it is called. -/
structure Subscriber (σ ρ : Type) where
  onMessage : String → Json → ρ → σ → σ × Bool
  onDisconnect : σ → σ
  /-- A `reconnect` to wait for is given. -/
  listens : Bool
  /-- `subscribe_loop_authed`: fresh tokens before each session. -/
  authed : Bool

inductive ClientFrame where
  | subscribe (channel : String) (auth : Option String)
  | ping
  | pong
  /-- The pong of the application level. -/
  | pongText
  deriving DecidableEq, Repr

/-- The answer to a ping: of the protocol, or of the application level. -/
def WsMessage.answer : WsMessage → Option ClientFrame
  | .text (some j) => if typeProbe j = some (some "ping") then some .pongText else none
  | .ping => some .pong
  | _ => none

/-- A round of the loop: a session, or the wait for a token. -/
structure Round where
  began : Instant
  ended : Instant
  /-- No token, so no session. -/
  tokenless : Bool
  deriving DecidableEq, Repr

/-- The backoff does not start over after it. -/
def Round.short (r : Round) : Bool := r.tokenless || decide (r.ended - r.began < reconnectBackoffResetAfter)

/-- Where the loop is. -/
inductive SubPc where
  /-- At `connect_async`, or sending the subscriptions. -/
  | connecting
  /-- Before the check for a request to reconnect. -/
  | checking
  /-- At the `select!`. -/
  | waiting
  | sleeping (til : Instant)
  deriving DecidableEq, Repr

structure SubLoop (σ : Type) where
  pc : SubPc
  /-- The state of the callbacks. -/
  state : σ
  /-- The permit of `reconnect`. -/
  permit : Bool
  backoff : ℚ
  auths : List (String × String)
  started : Instant
  lastData : Instant
  pingDue : Instant
  /-- The monotonic clock at the last step. -/
  clock : Instant
  /-- What the session has sent, and when. -/
  sent : List (Instant × ClientFrame)
  /-- What the session has read, and when. -/
  frames : List (Instant × WsMessage)
  rounds : List Round

inductive SubEvent (ρ : Type) where
  /-- The sleep is over; `auths` are the tokens of the next session. -/
  | wake (auths : List (String × String))
  | connectFails
  /-- Connected and subscribed. -/
  | connected
  | check
  /-- The ping tick; `pingOk`: whether the ping can be written. -/
  | tick (pingOk : Bool)
  | read (m : WsMessage) (r : ρ)
  /-- The stream ends or fails. -/
  | readEnds

/-- One step of the loop: the monotonic clock, the wall clock that seeds the jitter, and what happens. -/
structure SubAct (ρ : Type) where
  now : Instant
  nowMs : ℕ
  event : SubEvent ρ

namespace SubLoop

variable {σ ρ : Type}

def start (opts : SubscribeOptions) (state : σ) (now : Instant) : SubLoop σ :=
  { pc := .sleeping now, state, permit := false, backoff := opts.reconnectBase, auths := [], started := now
    lastData := now, pingDue := now, clock := now, sent := [], frames := [], rounds := [] }

/-- A session is open. -/
def InSession (s : SubLoop σ) : Prop := s.pc = .checking ∨ s.pc = .waiting

instance (s : SubLoop σ) : Decidable s.InSession := inferInstanceAs (Decidable (_ ∨ _))

/-- The end of a session: the disconnect callback, and the sleep. -/
def endSession (sub : Subscriber σ ρ) (opts : SubscribeOptions) (nowMs : ℕ) (s : SubLoop σ) : SubLoop σ :=
  let elapsed := s.clock - s.started
  let delay := reconnectDelayAfterSession s.backoff opts.reconnectBase elapsed
  { s with
    pc := .sleeping (s.clock + (delay + jitter delay nowMs))
    state := if sub.authed then s.state else sub.onDisconnect s.state
    backoff := nextReconnectBackoff s.backoff opts.reconnectBase opts.reconnectMax elapsed
    rounds := s.rounds ++ [⟨s.started, s.clock, false⟩] }

/-- The start of a round. Without a token there is no session. -/
def wake (sub : Subscriber σ ρ) (opts : SubscribeOptions) (auths : List (String × String)) (s : SubLoop σ) :
    SubLoop σ :=
  if sub.authed ∧ auths = [] then
    { s with pc := .sleeping (s.clock + s.backoff), auths, backoff := min (s.backoff * 2) opts.reconnectMax
             rounds := s.rounds ++ [⟨s.clock, s.clock, true⟩] }
  else { s with pc := .connecting, auths := if sub.authed then auths else opts.channelAuths, started := s.clock
                sent := [], frames := [] }

/-- The session opens: every channel is subscribed to, with its token if it has one. -/
def subscribed (opts : SubscribeOptions) (s : SubLoop σ) : SubLoop σ :=
  { s with pc := .checking, lastData := s.clock, pingDue := s.clock + opts.pingPeriod
           sent := opts.channels.map fun ch => (s.clock, .subscribe ch (s.auths.lookup ch)) }

/-- The ping tick: the watchdog, then the ping. -/
def tick (sub : Subscriber σ ρ) (opts : SubscribeOptions) (nowMs : ℕ) (pingOk : Bool) (s : SubLoop σ) :
    SubLoop σ :=
  let s := { s with pingDue := nextTick opts.pingPeriod s.pingDue s.clock }
  if opts.recvTimeout < s.clock - s.lastData ∨ pingOk = false then s.endSession sub opts nowMs
  else { s with pc := .checking, sent := s.sent ++ [(s.clock, .ping)] }

/-- One message of the server. -/
def read (sub : Subscriber σ ρ) (opts : SubscribeOptions) (nowMs : ℕ) (m : WsMessage) (r : ρ) (s : SubLoop σ) :
    SubLoop σ :=
  let s := { s with pc := .checking, frames := s.frames ++ [(s.clock, m)] }
  match m.application with
  | some (mtype, raw) =>
    let q := sub.onMessage mtype raw r s.state
    { s with state := q.1, permit := s.permit || q.2, lastData := s.clock }
  | none =>
    match m with
    | .close => s.endSession sub opts nowMs
    | _ => { s with sent := s.sent ++ (m.answer.map fun f => (s.clock, f)).toList }

/-- One step; the monotonic clock does not go back. -/
def step (sub : Subscriber σ ρ) (opts : SubscribeOptions) (s : SubLoop σ) (a : SubAct ρ) : Option (SubLoop σ) :=
  if a.now < s.clock then none
  else
    let s := { s with clock := a.now }
    match s.pc, a.event with
    | .sleeping til, .wake auths => if a.now < til then none else some (s.wake sub opts auths)
    | .connecting, .connectFails => some (s.endSession sub opts a.nowMs)
    | .connecting, .connected => some (s.subscribed opts)
    | .checking, .check =>
      if sub.listens && s.permit then some (({ s with permit := false } : SubLoop σ).endSession sub opts a.nowMs)
      else some { s with pc := .waiting }
    | .waiting, .tick pingOk => if a.now < s.pingDue then none else some (s.tick sub opts a.nowMs pingOk)
    | .waiting, .read m r => some (s.read sub opts a.nowMs m r)
    | .waiting, .readEnds => some (s.endSession sub opts a.nowMs)
    | _, _ => none

variable {sub : Subscriber σ ρ} {opts : SubscribeOptions} {s s' : SubLoop σ} {a : SubAct ρ}

/-- The ways of a step, from a state whose clock shows the time of the step. -/
inductive Case (sub : Subscriber σ ρ) (opts : SubscribeOptions) (s : SubLoop σ) : SubAct ρ → SubLoop σ → Prop
  | noToken {now : Instant} {nowMs : ℕ} {auths : List (String × String)} {til : Instant}
      (hpc : s.pc = .sleeping til) (hdue : til ≤ s.clock) :
      Case sub opts s ⟨now, nowMs, .wake auths⟩
        { s with pc := .sleeping (s.clock + s.backoff), auths, backoff := min (s.backoff * 2) opts.reconnectMax
                 rounds := s.rounds ++ [⟨s.clock, s.clock, true⟩] }
  | begins {now : Instant} {nowMs : ℕ} {auths : List (String × String)} {til : Instant} (tokens : List (String × String))
      (hpc : s.pc = .sleeping til) (hdue : til ≤ s.clock) :
      Case sub opts s ⟨now, nowMs, .wake auths⟩
        { s with pc := .connecting, auths := tokens, started := s.clock, sent := [], frames := [] }
  | opens {now : Instant} {nowMs : ℕ} (hpc : s.pc = .connecting) :
      Case sub opts s ⟨now, nowMs, .connected⟩ (s.subscribed opts)
  | passes {now : Instant} {nowMs : ℕ} (hpc : s.pc = .checking) (hpermit : (sub.listens && s.permit) = false) :
      Case sub opts s ⟨now, nowMs, .check⟩ { s with pc := .waiting }
  | forced {now : Instant} {nowMs : ℕ} (hpc : s.pc = .checking) (hpermit : (sub.listens && s.permit) = true) :
      Case sub opts s ⟨now, nowMs, .check⟩ (({ s with permit := false } : SubLoop σ).endSession sub opts nowMs)
  | pings {now : Instant} {nowMs : ℕ} (hpc : s.pc = .waiting) (hdue : s.pingDue ≤ s.clock)
      (hfresh : s.clock - s.lastData ≤ opts.recvTimeout) :
      Case sub opts s ⟨now, nowMs, .tick true⟩
        { s with pc := .checking, pingDue := nextTick opts.pingPeriod s.pingDue s.clock
                 sent := s.sent ++ [(s.clock, .ping)] }
  | hands {now : Instant} {nowMs : ℕ} {m : WsMessage} {r : ρ} {mtype : String} {raw : Json}
      (hpc : s.pc = .waiting) (hm : m.application = some (mtype, raw)) :
      Case sub opts s ⟨now, nowMs, .read m r⟩
        { s with pc := .checking, frames := s.frames ++ [(s.clock, m)], state := (sub.onMessage mtype raw r s.state).1
                 permit := s.permit || (sub.onMessage mtype raw r s.state).2, lastData := s.clock }
  | ignores {now : Instant} {nowMs : ℕ} {m : WsMessage} {r : ρ} (hpc : s.pc = .waiting) (hm : m.application = none)
      (answers : List (Instant × ClientFrame)) :
      Case sub opts s ⟨now, nowMs, .read m r⟩
        { s with pc := .checking, frames := s.frames ++ [(s.clock, m)], sent := s.sent ++ answers }
  | breaks {a : SubAct ρ} (hpc : s.pc = .connecting ∨ s.pc = .waiting) (pingDue : Instant) (frames : List (Instant × WsMessage)) :
      Case sub opts s a (({ s with pingDue, frames } : SubLoop σ).endSession sub opts a.nowMs)

theorem tick_cases {now : Instant} {nowMs : ℕ} {pingOk : Bool} (hpc : s.pc = .waiting) (hdue : s.pingDue ≤ s.clock) :
    Case sub opts s ⟨now, nowMs, .tick pingOk⟩ (s.tick sub opts nowMs pingOk) := by
  unfold tick
  simp only
  split
  · exact .breaks (.inr hpc) _ _
  · rename_i hgo
    obtain ⟨hfresh, hok⟩ := not_or.mp hgo
    obtain rfl : pingOk = true := Bool.eq_true_of_not_eq_false hok
    exact .pings hpc hdue (not_lt.mp hfresh)

theorem read_cases {now : Instant} {nowMs : ℕ} {m : WsMessage} {r : ρ} (hpc : s.pc = .waiting) :
    Case sub opts s ⟨now, nowMs, .read m r⟩ (s.read sub opts nowMs m r) := by
  unfold read
  simp only
  split
  · rename_i mtype raw hm
    exact .hands hpc hm
  · rename_i hm
    split
    · exact .breaks (.inr hpc) _ _
    · exact .ignores hpc hm _

theorem step_cases (h : s.step sub opts a = some s') :
    s.clock ≤ a.now ∧ Case sub opts { s with clock := a.now } a s' := by
  unfold step at h
  split at h
  · cases h
  · rename_i hclock
    refine ⟨not_lt.mp hclock, ?_⟩
    obtain ⟨now, nowMs, event⟩ := a
    simp only at h
    split at h
    · rename_i til auths hpc
      split at h
      · cases h
      · rename_i hdue
        cases h
        unfold wake
        split
        · exact .noToken hpc (not_lt.mp hdue)
        · exact .begins _ hpc (not_lt.mp hdue)
    · rename_i hpc
      cases h
      exact .breaks (s := { s with clock := now }) (a := ⟨now, nowMs, .connectFails⟩) (.inl hpc) s.pingDue s.frames
    · rename_i hpc
      cases h
      exact .opens hpc
    · rename_i hpc
      split at h
      · rename_i hpermit
        cases h
        exact .forced hpc hpermit
      · rename_i hpermit
        cases h
        exact .passes hpc (Bool.eq_false_of_not_eq_true hpermit)
    · rename_i pingOk hpc
      split at h
      · cases h
      · rename_i hdue
        cases h
        exact tick_cases hpc (not_lt.mp hdue)
    · rename_i m r hpc
      cases h
      exact read_cases hpc
    · rename_i hpc
      cases h
      exact .breaks (s := { s with clock := now }) (a := ⟨now, nowMs, .readEnds⟩) (.inr hpc) s.pingDue s.frames
    · cases h

/-- An application message goes to the callback. -/
theorem step_hands {now : Instant} {nowMs : ℕ} {m : WsMessage} {r : ρ} {mtype : String} {raw : Json}
    (hm : m.application = some (mtype, raw)) (h : s.step sub opts ⟨now, nowMs, .read m r⟩ = some s') :
    s.pc = .waiting ∧
    s' = { s with pc := .checking, frames := s.frames ++ [(now, m)], state := (sub.onMessage mtype raw r s.state).1
                  permit := s.permit || (sub.onMessage mtype raw r s.state).2, lastData := now, clock := now } := by
  unfold step at h
  split at h
  · cases h
  · simp only at h
    cases hpc : s.pc with
    | waiting =>
      rw [hpc] at h
      simp only [read, hm, Option.some.injEq] at h
      exact ⟨rfl, h.symm⟩
    | connecting | checking | sleeping =>
      rw [hpc] at h
      cases h

/-! ## Requests to reconnect -/

/-- A request is only there between the callback that made it and the check. -/
theorem permit_checking (hl : sub.listens = true) (hp : s.permit = true → s.pc = .checking)
    (hst : s.step sub opts a = some s') : s'.permit = true → s'.pc = .checking := by
  obtain ⟨-, hcase⟩ := step_cases hst
  have hp : ({ s with clock := a.now } : SubLoop σ).permit = true →
      ({ s with clock := a.now } : SubLoop σ).pc = .checking := hp
  generalize ({ s with clock := a.now } : SubLoop σ) = s at hp hcase
  intro hp'
  cases hcase with
  | noToken hpc | begins _ hpc | opens hpc => exact absurd ((hp hp').symm.trans hpc) nofun
  | passes hpc hpermit =>
    have hp' : s.permit = true := hp'
    simp [hl, hp'] at hpermit
  | forced => cases hp'
  | pings | hands | ignores => rfl
  | breaks hpc =>
    rcases hpc with hpc | hpc
    · exact absurd ((hp hp').symm.trans hpc) nofun
    · exact absurd ((hp hp').symm.trans hpc) nofun

/-- **A request ends the session at the next step**, and nothing is left of it for the session after. -/
theorem request_ends_session (hl : sub.listens = true) (hp : s.permit = true) (hpc : s.pc = .checking)
    (hst : s.step sub opts a = some s') :
    s' = ({ s with clock := a.now, permit := false } : SubLoop σ).endSession sub opts a.nowMs := by
  obtain ⟨now, nowMs, event⟩ := a
  unfold step at hst
  split at hst
  · cases hst
  · simp only [hpc, hl, hp, Bool.and_self, if_true] at hst
    cases event with
    | check => exact (Option.some.inj hst).symm
    | wake | connectFails | connected | tick | read | readEnds => cases hst

end SubLoop

end LighterMM
