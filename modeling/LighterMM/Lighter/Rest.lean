import LighterMM.Lighter.Messages
import LighterMM.Lib.Json

/-!
# Account state over REST (`lighter/rest.rs`)

A reply is the JSON body of an answer that is no HTTP error; `none` stands for everything else (no
token, no answer, an error status, a body that is not JSON). `parse` is the text parser of numbers.

`account_active_orders` reads a record with default fields, `account_position` a dynamic value.
-/

namespace LighterMM

variable (parse : String → NumText)

/-! ## Active orders -/

/-- A row of the active orders; `filled_base_amount` is checked and not kept. -/
def RemoteOrder.decode (j : Json) : Option RemoteOrder :=
  match j.record ["client_order_index", "order_index", "is_ask", "price", "remaining_base_amount",
    "filled_base_amount", "status"] with
  | some [clientOrderIndex, orderIndex, isAsk, price, remaining, filled, status] => do
    let clientOrderIndex ← Json.orDefault (Json.nullable Json.asI64) none clientOrderIndex
    let orderIndex ← Json.orDefault (Json.nullable Json.asI64) none orderIndex
    let isAsk ← Json.orDefault (Json.nullable Json.asBool) none isAsk
    let price ← Json.orDefault (Json.nullable Json.asStr) none price
    let remaining ← Json.orDefault (Json.nullable Json.asStr) none remaining
    let _ ← Json.orDefault (Json.nullable Json.asStr) none filled
    let status ← Json.orDefault (Json.nullable Json.asStr) none status
    pure { clientOrderIndex, orderIndex, isAsk, price := price.map parse,
           remainingBaseAmount := remaining.map parse, status }
  | _ => none

/-- The `orders` of an `AccountActiveOrdersResponse`. -/
def decodeActiveOrders (j : Json) : Option (List RemoteOrder) :=
  match j.record ["orders"] with
  | some [orders] => Json.orDefault (Json.listOf (RemoteOrder.decode parse)) [] orders
  | _ => none

def accountActiveOrders (reply : Option Json) : Option (List RemoteOrder) :=
  reply.bind (decodeActiveOrders parse)

/-- The body carries the orders list. -/
def CarriesOrders (body : Json) : Prop := ∃ rows, body.get "orders" = some (.arr rows)

variable {parse} {members : List (String × Json)} {rows : List RemoteOrder}

/-- A body without the key reads as no orders. -/
theorem decodeActiveOrders_lacking (h : (Json.obj members).get "orders" = none) :
    decodeActiveOrders parse (.obj members) = some [] := by
  have hrec : (Json.obj members).record ["orders"] = some [none] := by
    rw [Json.record, List.mapM_cons, Json.field_of_get_eq_none h]
    rfl
  rw [decodeActiveOrders, hrec]
  rfl

/-- A body with the key is read only if it carries the list. -/
theorem carriesOrders_of_decode (h : decodeActiveOrders parse (.obj members) = some rows)
    (hget : (Json.obj members).get "orders" ≠ none) : CarriesOrders (.obj members) := by
  unfold decodeActiveOrders at h
  split at h
  · rename_i orders hrec
    have hfirst : (Json.obj members).get "orders" = orders := Json.record_first hrec
    rcases Json.orDefault_eq_some h with ⟨rfl, -⟩ | ⟨v, rfl, hv⟩
    · exact absurd hfirst hget
    · obtain ⟨elems, rfl, -⟩ := Json.listOf_eq_some hv
      exact ⟨elems, hfirst⟩
  · cases h

/-- **A read body carries the list** exactly where it has the key. -/
theorem decodeActiveOrders_carries :
    ((∃ rows, decodeActiveOrders parse (.obj members) = some rows) → CarriesOrders (.obj members)) ↔
      ∃ v, ("orders", v) ∈ members := by
  have hkey : (Json.obj members).get "orders" ≠ none ↔ ∃ v, ("orders", v) ∈ members := by
    rw [ne_eq, Json.get_eq_none]
    push Not
    rfl
  rw [← hkey]
  constructor
  · intro h hnone
    obtain ⟨rows, hrows⟩ := h ⟨[], decodeActiveOrders_lacking hnone⟩
    rw [hnone] at hrows
    cases hrows
  · rintro h ⟨rows, hrows⟩
    exact carriesOrders_of_decode hrows h

/-! ## The position -/

/-- A number that arrives as text or as a number; anything else is `0`. -/
def flexNum (parse : String → NumText) : Option Json → ℚ
  | some (.str s) => parseF64 (parse s)
  | some v => v.asF64.getD 0
  | none => 0

/-- The signed position of a row. -/
def positionOfRow (parse : String → NumText) (p : Json) : ℚ :=
  let mag := |flexNum parse (p.get "position")|
  let sign := ((p.get "sign").bind Json.asI64).getD 1
  if sign < 0 then -mag else mag

/-- `accounts[0].positions`. -/
def accountPositions (v : Json) : Option (List Json) := do
  let accounts ← (v.get "accounts").bind Json.asArray
  let acc ← accounts.head?
  (acc.get "positions").bind Json.asArray

/-- The position of a market in an account body, `0` if it is not found. -/
def positionIn (parse : String → NumText) (marketId : ℕ) (v : Json) : ℚ :=
  match accountPositions v with
  | some rows =>
    match rows.find? fun p => (p.get "market_id").bind Json.asU64 = some marketId with
    | some p => positionOfRow parse p
    | none => 0
  | none => 0

/-- Every JSON body has a position. -/
def accountPosition (parse : String → NumText) (marketId : ℕ) (reply : Option Json) : Option ℚ :=
  reply.map (positionIn parse marketId)

/-- The body carries `accounts[0].positions`. -/
def CarriesPositions (body : Json) : Prop :=
  ∃ acc rest rows, body.get "accounts" = some (.arr (acc :: rest)) ∧ acc.get "positions" = some (.arr rows)

theorem accountPositions_eq_none {body : Json} (h : ¬ CarriesPositions body) :
    accountPositions body = none := by
  cases hpos : accountPositions body with
  | none => rfl
  | some rows =>
    obtain ⟨accounts, haccounts, hpos⟩ := Option.bind_eq_some_iff.mp hpos
    obtain ⟨acc, hacc, hpos⟩ := Option.bind_eq_some_iff.mp hpos
    obtain ⟨a, ha, harr⟩ := Option.bind_eq_some_iff.mp haccounts
    obtain ⟨p, hp, hrows⟩ := Option.bind_eq_some_iff.mp hpos
    obtain rfl := Json.asArray_eq_some harr
    obtain rfl := Json.asArray_eq_some hrows
    cases accounts with
    | nil => cases hacc
    | cons acc' rest =>
      cases hacc
      exact absurd ⟨_, rest, rows, ha, hp⟩ h

theorem positionIn_lacking {marketId : ℕ} {body : Json} (h : ¬ CarriesPositions body) :
    positionIn parse marketId body = 0 := by
  rw [positionIn, accountPositions_eq_none h]

end LighterMM
