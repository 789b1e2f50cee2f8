import LighterMM.Lib.Trans
import LighterMM.Lighter.TxOutcome

/-!
# The tx connection (`TxWebSocket::send_batch` of `lighter/tx_ws.rs`)

The responses of the server carry no request id. What ties a response to its frame is the discipline of
`send_batch`: one call at a time, and no further frame on a connection after any outcome but a response. With
a server that keeps to its side, the loop that empties the channel before a write has nothing to do.

`TxRun` is any run of such calls: the call that holds the lock, the recv loop and the pinger of its
connection, and a server that answers a frame at most once, in order, on the connection it came by. Calls
are numbered, and a frame has the number of its call. A frame counts as written from the moment it is
handed to the socket, also when the write then fails.

A connection is `Clean` when nothing is to come on it, and it `Owes` a call when all that can come is the
answer to the frame of that call. Neither the background tasks nor the server take a connection out of these.
-/

namespace LighterMM

/-- A message of the server; a text that is not JSON is `none`, and `other` is a binary or a raw frame. -/
inductive WsMessage where
  | text (v : Option Json)
  | ping
  | pong
  | close
  | other

namespace WsMessage

/-- The response in a message. -/
def response : WsMessage → Option Json
  | .text v => v.filter TxWebSocket.routed
  | _ => none

/-- What the server sends without a request: texts of the types `ping`, `connected` and `subscribed`, and
what is no JSON text. -/
def isInfo : WsMessage → Bool
  | .text (some v) =>
    [some "ping", some "connected", some "subscribed"].contains ((v.get "type").bind Json.asStr)
  | _ => true

end WsMessage

/-- Where the recv loop is. -/
inductive ReaderPc where
  | reading
  /-- Out of the loop, with `alive` not yet stored. -/
  | left
  /-- `alive` is stored, and the channel not yet closed. -/
  | stored
  | ended
  deriving DecidableEq, Repr

/-- A connection. `responses` is the channel of the recv loop; `inbound` and `unanswered` are the messages
that it has not read and the frames that the server has not answered, both in order. -/
structure TxConn where
  alive : Bool
  reader : ReaderPc
  responses : List Json
  inbound : List WsMessage
  unanswered : List ℕ

/-- A step of the background tasks of a connection. -/
inductive ConnAct where
  /-- The recv loop takes the next message. `pongOk`: whether the answer to a ping can be written. -/
  | read (pongOk : Bool)
  /-- The stream ends or fails. -/
  | disconnected
  | storeDead
  | closeChannel
  | pingFailed

namespace TxConn

/-- `open`. -/
def opened : TxConn := ⟨true, .reading, [], [], []⟩

/-- `alive.store(false)`. -/
def kill (c : TxConn) : TxConn := { c with alive := false }

/-- One iteration of `recv_loop`. -/
def onMessage (c : TxConn) (pongOk : Bool) : WsMessage → TxConn
  | .text (some v) =>
    if TxWebSocket.routed v then { c with responses := c.responses ++ [v] }
    else if (v.get "type").bind Json.asStr = some "ping" ∧ pongOk = false then { c with reader := .left }
    else c
  | .close => { c with reader := .left }
  | _ => c

def step (c : TxConn) : ConnAct → Option TxConn
  | .read pongOk =>
    match c.reader, c.inbound with
    | .reading, m :: rest => some (onMessage { c with inbound := rest } pongOk m)
    | _, _ => none
  | .disconnected => if c.reader = .reading then some { c with reader := .left } else none
  | .storeDead => if c.reader = .left then some { c.kill with reader := .stored } else none
  | .closeChannel => if c.reader = .stored then some { c with reader := .ended } else none
  | .pingFailed => some c.kill

end TxConn

/-- Where `send_batch` is. -/
inductive CallPc where
  /-- No call holds the lock. -/
  | idle
  | opening (frame : Json)
  | draining (frame : Json)
  | drained (frame : Json)
  | writing
  | waiting

/-- The frame of the call is not yet written. -/
def CallPc.unwritten : CallPc → Bool
  | .opening _ | .draining _ | .drained _ => true
  | _ => false

/-- A step of the call. -/
inductive CallAct where
  | call (txTypes : List ℕ) (txInfos : List String)
  | opened (ok : Bool)
  | tryRecv
  | write
  | wrote (err : Option String)
  | recv
  | timeout

/-- A step of the server. -/
inductive ServerAct where
  | answer (body : Option Json)
  /-- The oldest frame gets no answer. -/
  | ignore
  | info (m : WsMessage)

inductive TxAct where
  /-- `connect`: the new connection is opened before the lock is taken. -/
  | connect
  | call (a : CallAct)
  | conn (a : ConnAct)
  | server (a : ServerAct)

/-- The connection, the last call and where it is; and what was written, answered and returned so far. -/
structure TxRun where
  conn : Option TxConn
  pc : CallPc
  calls : ℕ
  written : List (ℕ × Json)
  answers : List (ℕ × Option Json)
  returned : List (ℕ × TxSendReport)

namespace TxRun

open TxWebSocket

variable (render : Json → String)

def start : TxRun := ⟨none, .idle, 0, [], [], []⟩

/-- The frame of a batch: the arrays are texts inside of it. -/
def sendFrame (txTypes : List ℕ) (txInfos : List String) : Json :=
  .obj [("type", .str "jsonapi/sendtxbatch"),
    ("data", .obj [("tx_types", .str (render (.arr (txTypes.map fun t => .int t)))),
      ("tx_infos", .str (render (.arr (txInfos.map .str))))])]

/-- The call returns, and leaves the connection `conn`. -/
def finish (s : TxRun) (conn : Option TxConn) (reply : Reply) : TxRun :=
  { s with conn, pc := .idle, returned := s.returned ++ [(s.calls, sendBatch render reply)] }

/-- `send_batch`, from one await to the next. -/
def callStep (s : TxRun) : CallAct → Option TxRun
  | .call txTypes txInfos =>
    match s.pc with
    | .idle =>
      let frame := sendFrame render txTypes txInfos
      let live := (s.conn.map TxConn.alive).getD false
      some { s with calls := s.calls + 1, pc := if live then .draining frame else .opening frame }
    | _ => none
  | .opened ok =>
    match s.pc with
    | .opening frame =>
      if ok then some { s with conn := some .opened, pc := .draining frame }
      else some (s.finish render s.conn .connectFailed)
    | _ => none
  | .tryRecv =>
    match s.pc, s.conn with
    | .draining frame, some c =>
      match c.responses with
      | _ :: rest => some { s with conn := some { c with responses := rest } }
      | [] => some { s with pc := .drained frame }
    | _, _ => none
  | .write =>
    match s.pc, s.conn with
    | .drained frame, some c =>
      some { s with conn := some { c with unanswered := c.unanswered ++ [s.calls] }, pc := .writing,
                    written := s.written ++ [(s.calls, frame)] }
    | _, _ => none
  | .wrote err =>
    match s.pc, s.conn with
    | .writing, some c =>
      match err with
      | none => some { s with pc := .waiting }
      | some e => some (s.finish render (some c.kill) (.sendFailed e))
    | _, _ => none
  | .recv =>
    match s.pc, s.conn with
    | .waiting, some c =>
      match c.responses with
      | resp :: rest => some (s.finish render (some { c with responses := rest }) (.response resp))
      | [] => if c.reader = .ended then some (s.finish render (some c.kill) .disconnected) else none
    | _, _ => none
  | .timeout =>
    match s.pc, s.conn with
    | .waiting, some c => some (s.finish render (some c.kill) .timedOut)
    | _, _ => none

def serverStep (s : TxRun) (c : TxConn) : ServerAct → Option TxRun
  | .answer body =>
    match c.unanswered with
    | k :: rest =>
      some { s with conn := some { c with unanswered := rest, inbound := c.inbound ++ [.text body] },
                    answers := s.answers ++ [(k, body)] }
    | [] => none
  | .ignore =>
    match c.unanswered with
    | _ :: rest => some { s with conn := some { c with unanswered := rest } }
    | [] => none
  | .info m =>
    if m.isInfo then some { s with conn := some { c with inbound := c.inbound ++ [m] } } else none

def step (s : TxRun) : TxAct → Option TxRun
  | .connect =>
    match s.pc with
    | .idle => some { s with conn := some .opened }
    | _ => none
  | .call a => s.callStep render a
  | .conn a => s.conn.bind fun c => (c.step a).map fun c' => { s with conn := some c' }
  | .server a => s.conn.bind fun c => s.serverStep c a

/-- `resp` is the one answer of the server to the frame of `call`. -/
def AnswerTo (s : TxRun) (call : ℕ) (resp : Json) : Prop :=
  (call, some resp) ∈ s.answers ∧ ∀ body, (call, body) ∈ s.answers → body = some resp

end TxRun

/-! ## The connection -/

theorem WsMessage.response_eq_none {m : WsMessage} (h : m.isInfo = true) : m.response = none := by
  cases m with
  | text v =>
    cases v with
    | none => rfl
    | some v =>
      unfold isInfo at h
      unfold response TxWebSocket.routed
      rw [List.contains_iff_mem] at h
      simp only [List.mem_cons, List.not_mem_nil, or_false] at h
      rcases h with h | h | h
      · simp [Option.filter, h]
      · simp [Option.filter, h]
      · simp [Option.filter, h]
  | ping | pong | close | other => rfl

namespace TxConn

variable {c c' : TxConn} {answers : List (ℕ × Option Json)} {call k : ℕ} {rest : List ℕ} {body : Option Json}

/-- The responses that can still reach a call, in order. -/
def pending (c : TxConn) : List Json := c.responses ++ c.inbound.filterMap WsMessage.response

/-- Nothing of an earlier call is left. -/
structure Clean (c : TxConn) : Prop where
  unanswered : c.unanswered = []
  pending : c.pending = []

/-- All that can come is the answer to the frame of `call`: it is to be given, on its way, or neither. -/
def Owes (answers : List (ℕ × Option Json)) (call : ℕ) (c : TxConn) : Prop :=
  (c.unanswered = [call] ∧ c.pending = []) ∨
    (c.unanswered = [] ∧ ∃ resp, c.pending = [resp] ∧ (call, some resp) ∈ answers) ∨ c.Clean

theorem clean_opened : opened.Clean := ⟨rfl, rfl⟩

theorem Clean.responses (h : c.Clean) : c.responses = [] := (List.append_eq_nil_iff.mp h.pending).1

theorem onMessage_spec (c : TxConn) (pongOk : Bool) (m : WsMessage) :
    (c.onMessage pongOk m).unanswered = c.unanswered ∧ (c.onMessage pongOk m).alive = c.alive ∧
      (c.onMessage pongOk m).inbound = c.inbound ∧
      (c.onMessage pongOk m).responses = c.responses ++ m.response.toList := by
  cases m with
  | text v =>
    cases v with
    | none => simp [onMessage, WsMessage.response]
    | some v =>
      unfold onMessage WsMessage.response
      by_cases hv : TxWebSocket.routed v
      · simp [Option.filter, hv]
      · by_cases hping : (v.get "type").bind Json.asStr = some "ping" ∧ pongOk = false
        · simp [Option.filter, hv, hping]
        · simp [Option.filter, hv, hping]
  | ping | pong | close | other => simp [onMessage, WsMessage.response]

/-- A background task neither makes nor loses a response, and never revives the connection. -/
theorem step_spec {a : ConnAct} (h : c.step a = some c') :
    c'.unanswered = c.unanswered ∧ c'.pending = c.pending ∧ (c'.alive = true → c.alive = true) := by
  cases a with
  | read pongOk =>
    simp only [step] at h
    split at h
    · rename_i m rest hreader hinbound
      cases h
      obtain ⟨hun, halive, hin, hresp⟩ := onMessage_spec { c with inbound := rest } pongOk m
      refine ⟨hun, ?_, fun hal => by rwa [halive] at hal⟩
      unfold pending
      rw [hin, hresp, hinbound, List.append_assoc]
      cases hm : m.response with
      | none => simp [List.filterMap_cons_none hm]
      | some v => simp [List.filterMap_cons_some hm]
    · cases h
  | disconnected =>
    obtain ⟨-, rfl⟩ := Option.ite_some_none_eq_some.mp h
    exact ⟨rfl, rfl, id⟩
  | storeDead =>
    obtain ⟨-, rfl⟩ := Option.ite_some_none_eq_some.mp h
    exact ⟨rfl, rfl, fun hal => (Bool.false_ne_true hal).elim⟩
  | closeChannel =>
    obtain ⟨-, rfl⟩ := Option.ite_some_none_eq_some.mp h
    exact ⟨rfl, rfl, id⟩
  | pingFailed =>
    cases h
    exact ⟨rfl, rfl, fun hal => (Bool.false_ne_true hal).elim⟩

theorem Clean.step {a : ConnAct} (h : c.Clean) (hst : c.step a = some c') : c'.Clean := by
  obtain ⟨hun, hpending, -⟩ := step_spec hst
  exact ⟨hun.trans h.unanswered, hpending.trans h.pending⟩

theorem Owes.step {a : ConnAct} (h : c.Owes answers call) (hst : c.step a = some c') :
    c'.Owes answers call := by
  obtain ⟨hun, hpending, -⟩ := step_spec hst
  unfold Owes
  rw [hun, hpending]
  rcases h with h | h | h
  · exact .inl h
  · exact .inr (.inl h)
  · exact .inr (.inr (h.step hst))

/-! ### The server -/

theorem pending_inbound (c : TxConn) (m : WsMessage) :
    pending { c with inbound := c.inbound ++ [m] } = c.pending ++ m.response.toList := by
  unfold pending
  rw [List.filterMap_append, ← List.append_assoc]
  cases hm : m.response with
  | none => simp [hm]
  | some v => simp [hm]

theorem Clean.info {m : WsMessage} (h : c.Clean) (hm : m.isInfo = true) :
    Clean { c with inbound := c.inbound ++ [m] } := by
  refine ⟨h.unanswered, ?_⟩
  rw [pending_inbound, WsMessage.response_eq_none hm, h.pending]
  rfl

theorem Owes.info {m : WsMessage} (h : c.Owes answers call) (hm : m.isInfo = true) :
    Owes answers call { c with inbound := c.inbound ++ [m] } := by
  have hpending : pending { c with inbound := c.inbound ++ [m] } = c.pending := by
    rw [pending_inbound, WsMessage.response_eq_none hm]
    exact List.append_nil _
  rcases h with ⟨hun, hp⟩ | ⟨hun, resp, hp, hans⟩ | h
  · exact .inl ⟨hun, hpending.trans hp⟩
  · exact .inr (.inl ⟨hun, resp, hpending.trans hp, hans⟩)
  · exact .inr (.inr (h.info hm))

/-- A frame that is to be answered is that of the call, and nothing else is to come. -/
theorem Owes.oldest (h : c.Owes answers call) (hun : c.unanswered = k :: rest) :
    k = call ∧ rest = [] ∧ c.pending = [] := by
  rcases h with ⟨hone, hp⟩ | ⟨hnil, -⟩ | hclean
  · rw [hun, List.cons.injEq] at hone
    exact ⟨hone.1, hone.2, hp⟩
  · rw [hun] at hnil
    cases hnil
  · have hnil := hclean.unanswered
    rw [hun] at hnil
    cases hnil

theorem Owes.ignore (h : c.Owes answers call) (hun : c.unanswered = k :: rest) :
    Owes answers call { c with unanswered := rest } := by
  obtain ⟨-, hrest, hp⟩ := h.oldest hun
  exact .inr (.inr ⟨hrest, hp⟩)

theorem Owes.answer (h : c.Owes answers call) (hun : c.unanswered = k :: rest) :
    Owes (answers ++ [(k, body)]) call
      { c with unanswered := rest, inbound := c.inbound ++ [.text body] } := by
  obtain ⟨rfl, hrest, hp⟩ := h.oldest hun
  have hpending := pending_inbound { c with unanswered := rest } (.text body)
  have hp' : pending { c with unanswered := rest } = [] := hp
  rw [hp', List.nil_append] at hpending
  cases hresp : (WsMessage.text body).response with
  | none =>
    rw [hresp] at hpending
    exact .inr (.inr ⟨hrest, hpending⟩)
  | some v =>
    rw [hresp] at hpending
    obtain ⟨rfl, -⟩ := Option.filter_eq_some_iff.mp hresp
    exact .inr (.inl ⟨hrest, v, hpending, List.mem_append_right _ (List.mem_singleton_self _)⟩)

/-! ### The call -/

/-- A frame on a clean connection. -/
theorem Clean.write (h : c.Clean) : Owes answers call { c with unanswered := c.unanswered ++ [call] } := by
  refine .inl ⟨?_, h.pending⟩
  rw [h.unanswered]
  rfl

/-- The response that a call takes is the answer to its frame, and the last of what the connection owed. -/
theorem Owes.recv {resp : Json} {tail : List Json} (h : c.Owes answers call)
    (hresp : c.responses = resp :: tail) :
    (call, some resp) ∈ answers ∧ Clean { c with responses := tail } := by
  have hpending : c.pending = resp :: pending { c with responses := tail } := by
    unfold pending
    rw [hresp]
    rfl
  rcases h with ⟨-, hp⟩ | ⟨hun, v, hp, hans⟩ | h
  · rw [hpending] at hp
    cases hp
  · rw [hpending, List.cons.injEq] at hp
    obtain ⟨rfl, hp⟩ := hp
    exact ⟨hans, hun, hp⟩
  · rw [h.responses] at hresp
    cases hresp

end TxConn

end LighterMM
