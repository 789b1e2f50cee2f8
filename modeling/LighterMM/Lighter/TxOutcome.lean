import LighterMM.Exec.PacedSend
import LighterMM.Lib.Json

/-!
# The outcome of a transaction (`lighter/tx_ws.rs`, `lighter/rest.rs`, `exec/paced_send.rs`)

A batch goes out over the tx WebSocket, or over REST when the free slot is used. Both answer with a
code, and `0` and `200` are a success.

* **WebSocket** (`sendBatch`): the code of a non-null error object, or else of `code` or `status_code`.
  A code that is missing or is not an integer counts as `-1` inside an error and as `0` outside.
* **REST** (`parseTxResponse`): the code of the body read as a `TxResponse`, `0` if it has none; a
  body that cannot be read under a success status counts as one with code `0`.

So a response without a code is a success on both paths. `ok_only_on_success_code` says exactly which
responses do not show it.

A text that is not JSON is `none`; `render` is the text of a JSON value, and `lower` is
`str::to_lowercase`.
-/

namespace LighterMM

inductive TxSendStatus where
  | ok | rejected | unknown | notSent
  deriving DecidableEq, Repr

/-- `TxSendResult` with all its fields. -/
structure TxSendReport where
  status : TxSendStatus
  code : ℤ
  message : String
  quotaRemaining : Option ℤ
  deriving DecidableEq, Repr

namespace TxSendReport

def notSent (reason : String) : TxSendReport := ⟨.notSent, -1, reason, none⟩

def unknown (reason : String) : TxSendReport := ⟨.unknown, -1, reason, none⟩

end TxSendReport

/-! ## The tx WebSocket -/

namespace TxWebSocket

variable (render : Json → String)

/-- The raw content of a message field: an empty text stays empty. -/
def extractMessage : Option Json → String
  | some (.str s) => s
  | some v => if v.isNull then "" else render v
  | none => ""

/-- 200 normalised to 0. -/
def normalCode (code : ℤ) : ℤ := if code = 200 then 0 else code

/-- The code and message of a response without an error. -/
def plainCodeMessage (resp : Json) : ℤ × String :=
  let code := (((resp.get "code").or (resp.get "status_code")).bind Json.asI64).getD 0
  (normalCode code, extractMessage render (resp.get "message"))

def codeMessage (resp : Json) : ℤ × String :=
  match resp.get "error" with
  | some err =>
    if err.isObject then
      let code := ((err.get "code").bind Json.asI64).getD (-1)
      (normalCode code, extractMessage render (err.get "message"))
    else if !err.isNull then (-1, render err)
    else plainCodeMessage render resp
  | none => plainCodeMessage render resp

/-- Whether the recv loop hands a message on as a response. -/
def routed (v : Json) : Bool :=
  match (v.get "type").bind Json.asStr with
  | some t => !(t == "ping" || t == "connected" || t == "subscribed")
  | none => true

/-- What a send meets. -/
inductive Reply where
  | connectFailed
  | sendFailed (err : String)
  | response (resp : Json)
  | disconnected
  | timedOut

def sendBatch : Reply → TxSendReport
  | .connectFailed => .notSent "connect_failed"
  | .sendFailed err => .unknown ("send_failed:" ++ err)
  | .response resp =>
    let r := codeMessage render resp
    { status := if r.1 = 0 then .ok else .rejected
      code := r.1
      message := r.2
      quotaRemaining := (resp.get "volume_quota_remaining").bind Json.asI64 }
  | .disconnected => .unknown "disconnected_after_send"
  | .timedOut => .unknown "response_timeout"

end TxWebSocket

/-! ## REST -/

/-- The response shape of sendTx. -/
structure TxResponse where
  code : ℤ
  message : String
  volumeQuotaRemaining : Option ℤ
  deriving DecidableEq, Repr

namespace TxResponse

/-- `TxResponse::default()`. -/
def default : TxResponse := ⟨0, "", none⟩

def decode (j : Json) : Option TxResponse :=
  match j.record ["code", "message", "volume_quota_remaining"] with
  | some [code, message, quota] => do
    let code ← Json.orDefault Json.asI64 0 code
    let message ← Json.orDefault Json.asStr "" message
    let quota ← Json.orDefault (Json.nullable Json.asI64) none quota
    pure ⟨code, message, quota⟩
  | _ => none

end TxResponse

/-- `StatusCode::is_success`. -/
def isSuccess (status : ℕ) : Bool := decide (200 ≤ status ∧ status < 300)

/-- `parse_tx_response`: the body counts even when the status is an error. -/
def parseTxResponse (status : ℕ) (body : Option Json) : Option TxResponse :=
  match body.bind TxResponse.decode with
  | some tx => some tx
  | none => if isSuccess status then some .default else none

/-- The free-slot path of `send_once`; `none` is a request without an answer, `err` the text of the
error. -/
def sendFreeSlot (err : String) (answer : Option (ℕ × Option Json)) : TxSendReport :=
  match answer.bind fun a => parseTxResponse a.1 a.2 with
  | some tx =>
    { status := if tx.code = 0 ∨ tx.code = 200 then .ok else .rejected
      code := tx.code
      message := tx.message
      quotaRemaining := tx.volumeQuotaRemaining }
  | none => .unknown ("rest_err:" ++ err)

/-! ## What `send_once` makes of it -/

/-- `char::is_whitespace`. -/
def isWhite (c : Char) : Bool :=
  let k := c.toNat
  decide (9 ≤ k ∧ k ≤ 13) || decide (0x2000 ≤ k ∧ k ≤ 0x200a) ||
    [0x20, 0x85, 0xa0, 0x1680, 0x2028, 0x2029, 0x202f, 0x205f, 0x3000].contains k

/-- `str::contains`. -/
def contains (text part : String) : Bool := decide (part.toList <:+: text.toList)

/-- `classify_reject`. -/
def classifyReject (lower : String → String) (msg : String) : RejectKind :=
  let m := lower msg
  if contains m "quota" && !contains m "remained" && !contains m "didn't use" then .quota
  else if contains m "429" || contains m "too many" then .rateLimit
  else if contains m "nonce" then .nonce
  else if contains m "maker-only api key" || contains m "maker only api key" ||
      contains m "0ms delay transactions" then .makerOnly
  else .other

namespace TxSendReport

/-- The text that a rejection is classified by: the code stands in for an empty message. -/
def errMsg (r : TxSendReport) : String :=
  if r.message.toList.all isWhite then "code=" ++ toString r.code else r.message

def result (lower : String → String) (r : TxSendReport) : TxSendResult :=
  match r.status with
  | .ok => .ok r.quotaRemaining
  | .rejected => .rejected (classifyReject lower r.errMsg)
  | .unknown => .unknown
  | .notSent => .notSent

theorem result_eq_ok {lower : String → String} {r : TxSendReport} :
    (∃ quota, r.result lower = .ok quota) ↔ r.status = .ok := by
  unfold result
  cases r.status with
  | ok => exact ⟨fun _ => rfl, fun _ => ⟨_, rfl⟩⟩
  | rejected | unknown | notSent => exact ⟨fun ⟨_, h⟩ => (nomatch h), fun h => (nomatch h)⟩

end TxSendReport

/-! ## Explicit success -/

/-- A success code: the integer 0 or 200. -/
def SuccessCode (v : Option Json) : Prop := ∃ z, v.bind Json.asI64 = some z ∧ (z = 0 ∨ z = 200)

/-- An integer code. -/
def IntegerCode (v : Option Json) : Prop := ∃ z, v.bind Json.asI64 = some z

theorem SuccessCode.integer {v : Option Json} (h : SuccessCode v) : IntegerCode v := by
  obtain ⟨z, hz, -⟩ := h
  exact ⟨z, hz⟩

/-- A success code in `code`, or in `status_code` where `code` is absent or null. -/
def ExplicitSuccess (j : Json) : Prop :=
  SuccessCode (j.get "code") ∨
    ((j.get "code" = none ∨ j.get "code" = some .null) ∧ SuccessCode (j.get "status_code"))

/-- A non-null error. -/
def HasError (j : Json) : Prop := ∃ err, j.get "error" = some err ∧ err.isNull = false

/-- The responses whose outcome over the WebSocket is definite: a non-null error without a success code;
or no error, and an integer in `code`, or in `status_code` if `code` is absent, or a success code in
`status_code` if `code` is null. -/
def Definite (resp : Json) : Prop :=
  (∃ err, resp.get "error" = some err ∧ err.isNull = false ∧ ¬ SuccessCode (err.get "code")) ∨
    (¬ HasError resp ∧ (IntegerCode (resp.get "code") ∨
      (resp.get "code" = none ∧ IntegerCode (resp.get "status_code")) ∨
      (resp.get "code" = some .null ∧ SuccessCode (resp.get "status_code"))))

/-- The REST answers whose outcome is definite: an explicit success; a `TxResponse` with another integer
code; or a body that is no `TxResponse` under an error status. -/
def DefiniteRest (status : ℕ) (body : Option Json) : Prop :=
  (∃ j, body = some j ∧ ExplicitSuccess j) ∨
    (∃ j, body = some j ∧ TxResponse.decode j ≠ none ∧ IntegerCode (j.first "code") ∧
      ¬ SuccessCode (j.first "code")) ∨
    (body.bind TxResponse.decode = none ∧ isSuccess status = false)

/-- A code that is read as `0` unless it is an integer shows a success only if it is one, exactly where
it is an integer. -/
theorem code_shows_success {v : Option Json} :
    (¬ IntegerCode v ∨ SuccessCode v → SuccessCode v) ↔ IntegerCode v := by
  constructor
  · intro h
    by_contra hno
    exact hno (h (.inl hno)).integer
  · rintro hint (hno | hsuccess)
    · exact absurd hint hno
    · exact hsuccess

theorem not_successCode_null : ¬ SuccessCode (some .null) := fun ⟨_, hz, _⟩ => (nomatch hz)

theorem not_integerCode_null : ¬ IntegerCode (some .null) := fun ⟨_, hz⟩ => (nomatch hz)

theorem not_integerCode_none : ¬ IntegerCode none := fun ⟨_, hz⟩ => (nomatch hz)

theorem not_successCode_none : ¬ SuccessCode none := fun h => not_integerCode_none h.integer

namespace TxWebSocket

variable {render : Json → String} {resp : Json}

theorem normalCode_eq_zero {z : ℤ} : normalCode z = 0 ↔ z = 0 ∨ z = 200 := by
  unfold normalCode
  split
  · rename_i h
    exact ⟨fun _ => .inr h, fun _ => rfl⟩
  · rename_i h
    exact ⟨.inl, fun h' => h'.resolve_right h⟩

/-- The code of an error. -/
theorem codeMessage_error {err : Json} (h : resp.get "error" = some err) (hnull : err.isNull = false) :
    (codeMessage render resp).1 = 0 ↔ SuccessCode (err.get "code") := by
  unfold codeMessage SuccessCode
  rw [h]
  by_cases hobj : err.isObject
  · simp only [hobj, if_true, normalCode_eq_zero]
    cases (err.get "code").bind Json.asI64 with
    | none => simp
    | some z => simp
  · have hget : err.get "code" = none := by
      cases hget : err.get "code" with
      | none => rfl
      | some v => exact absurd (Json.isObject_of_get hget) hobj
    simp [hobj, hnull, hget]

/-- The code of a response without an error. -/
theorem codeMessage_plain (h : ¬ HasError resp) :
    (codeMessage render resp).1 = 0 ↔
      ¬ IntegerCode ((resp.get "code").or (resp.get "status_code")) ∨
        SuccessCode ((resp.get "code").or (resp.get "status_code")) := by
  have hplain : codeMessage render resp = plainCodeMessage render resp := by
    unfold codeMessage
    cases herr : resp.get "error" with
    | none => rfl
    | some err =>
      cases hnull : err.isNull with
      | false => exact absurd ⟨err, herr, hnull⟩ h
      | true =>
        have hobj : err.isObject = false := by
          cases err with
          | null => rfl
          | bool | int | float | str | arr | obj => cases hnull
        simp [hobj, hnull]
  rw [hplain]
  unfold plainCodeMessage IntegerCode SuccessCode
  simp only [normalCode_eq_zero]
  cases ((resp.get "code").or (resp.get "status_code")).bind Json.asI64 with
  | none => simp
  | some z => simp

theorem sendBatch_ok : (sendBatch render (.response resp)).status = .ok ↔ (codeMessage render resp).1 = 0 := by
  show (if (codeMessage render resp).1 = 0 then TxSendStatus.ok else .rejected) = .ok ↔ _
  by_cases h : (codeMessage render resp).1 = 0
  · simp [h]
  · simp [h]

/-- A response with an error: definite unless the error has a success code. -/
theorem definite_error {err : Json} (h : resp.get "error" = some err) (hnull : err.isNull = false) :
    Definite resp ↔ ¬ SuccessCode (err.get "code") := by
  constructor
  · rintro (⟨err', h', -, hcode⟩ | ⟨hno, -⟩)
    · obtain rfl := Option.some.inj (h.symm.trans h')
      exact hcode
    · exact absurd ⟨err, h, hnull⟩ hno
  · intro hcode
    exact .inl ⟨err, h, hnull, hcode⟩

/-- A response without an error: definite if its code is. -/
theorem definite_plain (h : ¬ HasError resp) :
    Definite resp ↔ IntegerCode (resp.get "code") ∨
      (resp.get "code" = none ∧ IntegerCode (resp.get "status_code")) ∨
      (resp.get "code" = some .null ∧ SuccessCode (resp.get "status_code")) := by
  constructor
  · rintro (⟨err, herr, hnull, -⟩ | ⟨-, hcode⟩)
    · exact absurd ⟨err, herr, hnull⟩ h
    · exact hcode
  · exact fun hcode => .inr ⟨h, hcode⟩

/-- Without a code, or with a null one, `status_code` decides; any other code decides itself. -/
theorem plain_definite :
    (¬ IntegerCode ((resp.get "code").or (resp.get "status_code")) ∨
        SuccessCode ((resp.get "code").or (resp.get "status_code")) → ExplicitSuccess resp) ↔
      IntegerCode (resp.get "code") ∨ (resp.get "code" = none ∧ IntegerCode (resp.get "status_code")) ∨
        (resp.get "code" = some .null ∧ SuccessCode (resp.get "status_code")) := by
  unfold ExplicitSuccess
  cases hcode : resp.get "code" with
  | none =>
    simp only [Option.none_or, not_successCode_none, not_integerCode_none, true_and, false_or, reduceCtorEq,
      false_and, or_false]
    exact code_shows_success
  | some c =>
    by_cases hc : c = .null
    · subst hc
      simp only [Option.some_or, not_successCode_null, not_integerCode_null, or_true, true_and, false_or,
        reduceCtorEq, false_and, not_false_eq_true, true_or, true_implies]
    · have hc' : some c ≠ some Json.null := fun h => hc (Option.some.inj h)
      simp only [Option.some_or, hc', reduceCtorEq, or_self, false_and, or_false]
      exact code_shows_success

/-- **The WebSocket**: a response shows a success that is not explicit unless it is definite. -/
theorem sendBatch_definite :
    ((sendBatch render (.response resp)).status = .ok → ExplicitSuccess resp ∧ ¬ HasError resp) ↔
      Definite resp := by
  rw [sendBatch_ok]
  by_cases herr : HasError resp
  · obtain ⟨err, hget, hnull⟩ := herr
    rw [codeMessage_error hget hnull, definite_error hget hnull]
    constructor
    · exact fun h hcode => (h hcode).2 ⟨err, hget, hnull⟩
    · exact fun hcode h => absurd h hcode
  · rw [codeMessage_plain herr, definite_plain herr, and_iff_left herr]
    exact plain_definite

/-- A response without an error and without a code counts as a sent batch. -/
theorem codeless_ok {lower : String → String} (herr : ¬ HasError resp) (hcode : resp.get "code" = none)
    (hstatus : resp.get "status_code" = none) :
    ∃ quota, (sendBatch render (.response resp)).result lower = .ok quota := by
  rw [TxSendReport.result_eq_ok, sendBatch_ok, codeMessage_plain herr, hcode, hstatus]
  exact .inl not_integerCode_none

end TxWebSocket

/-! ## The REST path -/

/-- The code of a `TxResponse` is its field, `0` if it is absent. -/
theorem TxResponse.decode_code {j : Json} {tx : TxResponse} (h : TxResponse.decode j = some tx) :
    (tx.code = 0 ∨ tx.code = 200) ↔ ¬ IntegerCode (j.first "code") ∨ SuccessCode (j.first "code") := by
  unfold TxResponse.decode at h
  split at h
  · rename_i code message quota hrec
    obtain ⟨z, hz, h⟩ := Option.bind_eq_some_iff.mp h
    obtain ⟨m, -, h⟩ := Option.bind_eq_some_iff.mp h
    obtain ⟨q, -, h⟩ := Option.bind_eq_some_iff.mp h
    cases h
    rw [Json.record_first hrec]
    unfold IntegerCode SuccessCode
    rcases Json.orDefault_eq_some hz with ⟨rfl, rfl⟩ | ⟨v, rfl, hv⟩
    · simp
    · simp [hv]
  · cases h

/-- **REST**: an answer shows a success that is not explicit unless it is definite. -/
theorem sendFreeSlot_definite {err : String} {status : ℕ} {body : Option Json} :
    ((sendFreeSlot err (some (status, body))).status = .ok → ∃ j, body = some j ∧ ExplicitSuccess j) ↔
      DefiniteRest status body := by
  unfold sendFreeSlot parseTxResponse DefiniteRest
  simp only [Option.bind_some]
  cases hdec : body.bind TxResponse.decode with
  | some tx =>
    obtain ⟨j, rfl, hj⟩ := Option.bind_eq_some_iff.mp hdec
    have hcode := TxResponse.decode_code hj
    simp only [Option.some.injEq, exists_eq_left', reduceCtorEq, false_and, or_false, hj, ne_eq,
      not_false_eq_true, true_and]
    by_cases hok : tx.code = 0 ∨ tx.code = 200
    · have hno := hcode.mp hok
      simp only [hok, if_true, true_implies]
      constructor
      · exact .inl
      · rintro (h | ⟨hint, hnot⟩)
        · exact h
        · rcases hno with hno | hno
          · exact absurd hint hno
          · exact absurd hno hnot
    · have hyes := mt hcode.mpr hok
      rw [not_or, not_not] at hyes
      simp only [hok, if_false, reduceCtorEq, false_implies, true_iff]
      exact .inr hyes
  | none =>
    have hnone : ∀ j, body = some j → TxResponse.decode j = none := by
      rintro j rfl
      exact hdec
    cases hstatus : isSuccess status with
    | true =>
      simp only [if_true, TxResponse.default, true_or, true_implies, reduceCtorEq, and_false, or_false]
      constructor
      · exact .inl
      · rintro (h | ⟨j, hj, hdec', -⟩)
        · exact h
        · exact absurd (hnone j hj) hdec'
    | false =>
      simp only [Bool.false_eq_true, if_false, TxSendReport.unknown, reduceCtorEq, false_implies, true_and,
        or_true]

/-- **A success is explicit** on definite answers, and only on these. -/
theorem ok_only_on_success_code (render : Json → String) (err : String) :
    (∀ resp, ((TxWebSocket.sendBatch render (.response resp)).status = .ok →
        ExplicitSuccess resp ∧ ¬ HasError resp) ↔ Definite resp) ∧
      ∀ status body, ((sendFreeSlot err (some (status, body))).status = .ok →
        ∃ j, body = some j ∧ ExplicitSuccess j) ↔ DefiniteRest status body :=
  ⟨fun _ => TxWebSocket.sendBatch_definite, fun _ _ => sendFreeSlot_definite⟩

/-- A response over the WebSocket that carries a message and no code. -/
def codelessResponse : Json := .obj [("type", .str "jsonapi/sendtxbatch"), ("message", .str "internal error")]

/-- **A success without a code**: a WebSocket response that has none, and a REST answer under status 200
whose body is not JSON. -/
theorem ok_without_code :
    (¬ ∀ (render : Json → String) (resp : Json), TxWebSocket.routed resp = true →
      (TxWebSocket.sendBatch render (.response resp)).status = .ok →
        ExplicitSuccess resp ∧ ¬ HasError resp) ∧
      ¬ ∀ (err : String) (status : ℕ) (body : Option Json),
        (sendFreeSlot err (some (status, body))).status = .ok → ∃ j, body = some j ∧ ExplicitSuccess j := by
  constructor
  · intro h
    obtain ⟨hsuccess, -⟩ := h (fun _ => "") codelessResponse (by decide +kernel) (by decide +kernel)
    rcases hsuccess with ⟨z, hz, -⟩ | ⟨-, z, hz, -⟩
    · cases hz
    · cases hz
  · intro h
    obtain ⟨j, hj, -⟩ := h "" 200 none rfl
    cases hj

end LighterMM
