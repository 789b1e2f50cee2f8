import LighterMM.Exec.CancelAll
import LighterMM.Exec.OrderManager
import LighterMM.Lighter.Rest
import LighterMM.System.PositionFeed

/-!
# What the bot concludes from a reply

Three conclusions rest on REST replies: `cancel_all_and_verify` confirms a flat book (`verifiedFlat`),
the reconcile counts orders as missing (`CountsMissing`), and the position fallback sets the position
(`positionFallback`). A body without the data is read as no orders and as position `0`, so each of them
can rest on one that says nothing. `conclusions_carry_data` says exactly for which bodies they do not.
-/

namespace LighterMM

variable {parse : String → NumText}

/-! ## The flat book -/

/-- An attempt of `cancel_all_and_verify` reads no active orders. -/
def readsFlat (parse : String → NumText) (reply : Option Json) : Bool :=
  match accountActiveOrders parse reply with
  | some rows => rows.isEmpty
  | none => false

/-- The verdict of `cancel_all_and_verify` on the replies of its attempts. -/
def verifiedFlat (parse : String → NumText) : List (Option Json) → Bool
  | [] => false
  | reply :: rest => if readsFlat parse reply then true else verifiedFlat parse rest

/-- The body that the verdict rests on: the first one that reads as no orders. -/
def FlatBy (parse : String → NumText) (replies : List (Option Json)) (body : Json) : Prop :=
  ∃ pre post, replies = pre ++ some body :: post ∧ readsFlat parse (some body) = true ∧
    ∀ r ∈ pre, readsFlat parse r = false

theorem readsFlat_iff {body : Json} :
    readsFlat parse (some body) = true ↔ decodeActiveOrders parse body = some [] := by
  unfold readsFlat accountActiveOrders
  rw [Option.bind_some]
  cases decodeActiveOrders parse body with
  | none => simp
  | some rows => simp

/-- On accurate replies an attempt is that of the desk: its flag is what the reply reads as. -/
theorem readsFlat_accurate {n : ℕ} (d : Desk n) (a : CancelAttempt) {reply : Option Json}
    (h : accountActiveOrders parse reply =
      if a.reads then some (d.cancelAttempt a).1.venue.rows else none) :
    readsFlat parse reply = (d.cancelAttempt a).2 := by
  rw [readsFlat, h]
  cases hreads : a.reads with
  | false => simp [Desk.cancelAttempt, hreads]
  | true => simp [Desk.cancelAttempt, hreads, Venue.rows]

/-- A flat book is confirmed by some body. -/
theorem verifiedFlat_iff {replies : List (Option Json)} :
    verifiedFlat parse replies = true ↔ ∃ body, FlatBy parse replies body := by
  induction replies with
  | nil =>
    refine ⟨fun h => (nomatch h), ?_⟩
    rintro ⟨body, pre, post, heq, -⟩
    exact absurd heq (by simp)
  | cons reply rest ih =>
    unfold verifiedFlat
    by_cases hr : readsFlat parse reply = true
    · rw [if_pos hr]
      refine ⟨fun _ => ?_, fun _ => rfl⟩
      cases reply with
      | none => cases hr
      | some body => exact ⟨body, [], rest, rfl, hr, fun _ h => absurd h List.not_mem_nil⟩
    · rw [if_neg hr, ih]
      rw [Bool.not_eq_true] at hr
      constructor
      · rintro ⟨body, pre, post, rfl, hflat, hpre⟩
        refine ⟨body, reply :: pre, post, rfl, hflat, fun r hmem => ?_⟩
        rcases List.mem_cons.mp hmem with rfl | hmem
        · exact hr
        · exact hpre r hmem
      · rintro ⟨body, pre, post, heq, hflat, hpre⟩
        cases pre with
        | nil =>
          obtain ⟨rfl, -⟩ := List.cons.inj heq
          rw [hr] at hflat
          cases hflat
        | cons r pre =>
          obtain ⟨-, rfl⟩ := List.cons.inj heq
          exact ⟨body, pre, post, rfl, hflat, fun r hmem => hpre r (List.mem_cons_of_mem _ hmem)⟩

/-- An object with an empty orders list, read as such. -/
def ListsNoOrders (parse : String → NumText) (reply : Option Json) : Prop :=
  readsFlat parse reply = true ∧ ∀ body ∈ reply, body.get "orders" ≠ none

theorem verifiedFlat_of_mem {replies : List (Option Json)} {reply : Option Json} (h : reply ∈ replies)
    (hflat : readsFlat parse reply = true) : verifiedFlat parse replies = true := by
  induction replies with
  | nil => cases h
  | cons r rest ih =>
    unfold verifiedFlat
    rcases List.mem_cons.mp h with rfl | h
    · rw [if_pos hflat]
    · rw [ih h, ite_self]

/-- A verdict stands whatever comes after it. -/
theorem FlatBy.append {replies : List (Option Json)} {body : Json} (h : FlatBy parse replies body)
    (more : List (Option Json)) : FlatBy parse (replies ++ more) body := by
  obtain ⟨pre, post, rfl, hflat, hpre⟩ := h
  exact ⟨pre, post ++ more, by simp, hflat, hpre⟩

theorem carriesOrders_of_flat {members : List (String × Json)}
    (h : readsFlat parse (some (.obj members)) = true) (hkey : ∃ v, ("orders", v) ∈ members) :
    CarriesOrders (.obj members) :=
  decodeActiveOrders_carries.mpr hkey ⟨[], readsFlat_iff.mp h⟩

/-- **The verdict rests on an orders list** exactly where each body without the key comes after an
empty list. -/
theorem verdict_carries (bodies : List (Option (List (String × Json)))) :
    (∀ body, FlatBy parse (bodies.map (·.map Json.obj)) body → CarriesOrders body) ↔
      ∀ pre members post, bodies = pre ++ some members :: post → (∀ v, ("orders", v) ∉ members) →
        ∃ r ∈ pre, ListsNoOrders parse (r.map Json.obj) := by
  constructor
  · rintro h pre members post rfl hlack
    have hnone : (Json.obj members).get "orders" = none := Json.get_eq_none.mpr hlack
    -- The first body up to this one that reads as no orders.
    have hflat : verifiedFlat parse ((pre ++ [some members]).map (·.map Json.obj)) = true :=
      verifiedFlat_of_mem (List.mem_map_of_mem (List.mem_append_right _ (List.mem_singleton_self _)))
        (readsFlat_iff.mpr (decodeActiveOrders_lacking hnone))
    obtain ⟨body, hbody⟩ := verifiedFlat_iff.mp hflat
    obtain ⟨rows, hrows⟩ := h body (by
      have := hbody.append (post.map (·.map Json.obj))
      rwa [← List.map_append, List.append_assoc, List.singleton_append] at this)
    obtain ⟨pre', post', heq, hread, -⟩ := hbody
    have hmem : some body ∈ (pre ++ [some members]).map (·.map Json.obj) := by
      rw [heq]
      exact List.mem_append_right _ List.mem_cons_self
    obtain ⟨r, hr, hbody⟩ := List.mem_map.mp hmem
    rcases List.mem_append.mp hr with hr | hr
    · refine ⟨r, hr, by rw [hbody]; exact hread, fun b hb => ?_⟩
      obtain rfl := Option.some.inj (hbody.symm.trans hb)
      rw [hrows]
      exact Option.some_ne_none _
    · obtain rfl := List.mem_singleton.mp hr
      obtain rfl := Option.some.inj hbody
      rw [hnone] at hrows
      cases hrows
  · rintro h body ⟨pre', post', heq, hread, hpre⟩
    obtain ⟨pre, rest, rfl, rfl, hrest⟩ := List.map_eq_append_iff.mp heq
    obtain ⟨r, post, rfl, hr, rfl⟩ := List.map_eq_cons_iff.mp hrest
    obtain ⟨members, rfl, rfl⟩ := Option.map_eq_some_iff.mp hr
    by_cases hkey : ∃ v, ("orders", v) ∈ members
    · exact carriesOrders_of_flat hread hkey
    · obtain ⟨r, hmem, hflat, -⟩ := h pre members post rfl (not_exists.mp hkey)
      have := hpre _ (List.mem_map_of_mem hmem)
      rw [hflat] at this
      cases this

/-! ## The missing orders -/

/-- A snapshot counts the order of a slot as missing, or clears the slot for it. -/
def CountsMissing {n : ℕ} (om : OrderManager n) (now : Instant) (rows : List RemoteOrder) (side : Side)
    (level : Fin n) : Prop :=
  let s := om.slot side level
  let s' := (om.processReconcile now rows).slot side level
  s.orderId ≠ none ∧ (s.miss < s'.miss ∨ s'.orderId = none)

/-- A bid that rests, just touched. -/
def restingBid : OrderManager 1 :=
  (OrderManager.new 1 1 0).setSlot .buy 0 (OrderManager.boundSlot 0 1000 100 1)

/-- **An order is missing from a list** exactly where the body has the key. -/
theorem missing_carries (members : List (String × Json)) :
    (∀ (n : ℕ) (om : OrderManager n) now rows side level,
      accountActiveOrders parse (some (.obj members)) = some rows → CountsMissing om now rows side level →
        CarriesOrders (.obj members)) ↔ ∃ v, ("orders", v) ∈ members := by
  constructor
  · intro h
    by_contra hkey
    have hnone : (Json.obj members).get "orders" = none := Json.get_eq_none.mpr (not_exists.mp hkey)
    have hmiss : CountsMissing restingBid 0 [] .buy 0 := by
      unfold CountsMissing
      decide +kernel
    obtain ⟨rows, hrows⟩ := h 1 restingBid 0 [] .buy 0 (decodeActiveOrders_lacking hnone) hmiss
    rw [hnone] at hrows
    cases hrows
  · intro hkey n om now rows side level hrows _
    exact decodeActiveOrders_carries.mpr hkey ⟨rows, hrows⟩

/-! ## The position -/

/-- The poller's position fallback on a reply. -/
def positionFallback (parse : String → NumText) (marketId : ℕ) (s : SharedPosition) (nowMs : ℕ)
    (reply : Option Json) : SharedPosition :=
  match accountPosition parse marketId reply with
  | some pos => (s.storeValue pos).storeStamp nowMs
  | none => s

/-- **The position becomes zero on a body with positions** exactly where it has them. -/
theorem zero_carries (marketId : ℕ) (body : Json) :
    (∀ (s : SharedPosition) (nowMs : ℕ), s.value ≠ 0 →
      (positionFallback parse marketId s nowMs (some body)).value = 0 → CarriesPositions body) ↔
        CarriesPositions body := by
  constructor
  · intro h
    by_contra hno
    exact hno (h ⟨1, 0⟩ 0 one_ne_zero (positionIn_lacking hno))
  · exact fun h _ _ _ _ => h

/-! ## All conclusions -/

/-- **No conclusion without the data**, for object bodies: the active orders are read from their list,
and the flat verdict and the missing orders rest on one, exactly for the bodies with the key `orders`
(in a verdict: where an empty list comes before any body without it); `account_position` reads its
data, and sets a position to zero on them, exactly for the bodies with `accounts[0].positions`. -/
theorem conclusions_carry_data (parse : String → NumText) (marketId : ℕ) :
    (∀ members, ((∃ rows, accountActiveOrders parse (some (.obj members)) = some rows) →
      CarriesOrders (.obj members)) ↔ ∃ v, ("orders", v) ∈ members) ∧
    (∀ members, ((∃ pos, accountPosition parse marketId (some (.obj members)) = some pos) →
      CarriesPositions (.obj members)) ↔ CarriesPositions (.obj members)) ∧
    (∀ bodies : List (Option (List (String × Json))),
      (∀ body, FlatBy parse (bodies.map (·.map Json.obj)) body → CarriesOrders body) ↔
        ∀ pre members post, bodies = pre ++ some members :: post → (∀ v, ("orders", v) ∉ members) →
          ∃ r ∈ pre, ListsNoOrders parse (r.map Json.obj)) ∧
    (∀ members, (∀ (n : ℕ) (om : OrderManager n) now rows side level,
      accountActiveOrders parse (some (.obj members)) = some rows → CountsMissing om now rows side level →
        CarriesOrders (.obj members)) ↔ ∃ v, ("orders", v) ∈ members) ∧
    ∀ members, (∀ (s : SharedPosition) (nowMs : ℕ), s.value ≠ 0 →
      (positionFallback parse marketId s nowMs (some (.obj members))).value = 0 →
        CarriesPositions (.obj members)) ↔ CarriesPositions (.obj members) :=
  ⟨fun _ => decodeActiveOrders_carries, fun _ => ⟨fun h => h ⟨_, rfl⟩, fun h _ => h⟩, verdict_carries,
    missing_carries, fun _ => zero_carries marketId _⟩

/-- An error that the exchange sends with HTTP 200. -/
def errorReply : List (String × Json) := [("code", .int 29500), ("message", .str "internal server error")]

/-- **An error object is a flat book, a missing order and a zero position.** -/
theorem error_reply_is_state :
    (¬ ∀ (parse : String → NumText) members,
      (∃ rows, accountActiveOrders parse (some (.obj members)) = some rows) → CarriesOrders (.obj members)) ∧
    (¬ ∀ (parse : String → NumText) marketId members,
      (∃ pos, accountPosition parse marketId (some (.obj members)) = some pos) →
        CarriesPositions (.obj members)) ∧
    verifiedFlat (fun _ => none) [some (.obj errorReply)] = true ∧
    (positionFallback (fun _ => none) 1 ⟨2, 1000⟩ 70000 (some (.obj errorReply))).value = 0 := by
  refine ⟨fun h => ?_, fun h => ?_, by decide +kernel, by rfl⟩
  · obtain ⟨rows, hrows⟩ := h (fun _ => none) errorReply ⟨[], by rfl⟩
    cases hrows
  · obtain ⟨acc, rest, rows, hacc, -⟩ := h (fun _ => none) 1 errorReply ⟨0, by rfl⟩
    cases hacc

end LighterMM
