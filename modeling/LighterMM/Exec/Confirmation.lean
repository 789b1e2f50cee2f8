import LighterMM.Exec.Fills
import LighterMM.Exec.PacedSend

/-!
# Fills that overtake their confirmation

The account stream and the sender feed one queue, so the fills of an order may be drained before the
confirmation of its Create. They find the order, since `mark_pending` has put it into the slot. But
`bind_live` then writes the size of the op, whatever the fills have left: of the fills only those after the
confirmation count (`confirmed_rest`), so the slot is right only if none came before it or if the later ones
use the order up by themselves (`confirmation_commutes_iff`).
-/

namespace LighterMM

/-- What `fills` leave of an order: an idle slot if they use it up, else the order with the rest of its
size. Times are free, and so is the status of a tracked order. -/
def OrderSlot.HoldsRest (tick : ℚ) (cid : ℤ) (price size : ℚ) (fills : List ℚ) (slot : OrderSlot) : Prop :=
  (Spent tick (some size) fills → ∃ t, slot = .idle t) ∧
    (¬Spent tick (some size) fills →
      ∃ status t, slot = ⟨status, some cid, some price, some (size - fills.sum), t, 0⟩)

/-- A slot that holds what the last fills leave holds what all of them leave only if there are no others, or
if the last ones use the order up. -/
theorem OrderSlot.HoldsRest.append_iff {tick price size : ℚ} {cid : ℤ} {slot : OrderSlot} {pre post : List ℚ}
    (hpos : ∀ x ∈ pre, 0 < x) (h : slot.HoldsRest tick cid price size post) :
    slot.HoldsRest tick cid price size (pre ++ post) ↔ pre = [] ∨ Spent tick (some size) post := by
  constructor
  · intro hall
    by_contra hcon
    rw [not_or] at hcon
    obtain ⟨hne, hrest⟩ := hcon
    obtain ⟨status, t, rfl⟩ := h.2 hrest
    have hsum : 0 < pre.sum := List.sum_pos pre hpos hne
    by_cases hspent : Spent tick (some size) (pre ++ post)
    · obtain ⟨t', hidle⟩ := hall.1 hspent
      cases congrArg OrderSlot.orderId hidle
    · obtain ⟨status', t', heq⟩ := hall.2 hspent
      have hsize := Option.some.inj (congrArg OrderSlot.size heq)
      rw [List.sum_append] at hsize
      linarith
  · rintro (rfl | hspent)
    · exact h
    · obtain ⟨hne, hle⟩ := hspent
      have hall : Spent tick (some size) (pre ++ post) := by
        refine ⟨List.append_ne_nil_of_right_ne_nil _ hne, fun z hz => ?_⟩
        have hsum : 0 ≤ pre.sum := List.sum_nonneg fun x hx => (hpos x hx).le
        have := hle z hz
        rw [List.sum_append]
        linarith
      exact ⟨fun _ => h.1 ⟨hne, hle⟩, fun hn => absurd hall hn⟩

namespace OrderManager

variable {n : ℕ} {om : OrderManager n} {k : Side × Fin n} {cid : ℤ} {t now : Instant} {price size : ℚ}
  {op : BatchOp n} {fills pre post : List (Instant × ℚ)}

/-- The fills of an order at their times. -/
def applyFills (om : OrderManager n) (cid : ℤ) (fills : List (Instant × ℚ)) : OrderManager n :=
  om.applyTimed (fills.map fun f => (f.1, .fill cid f.2))

/-- A Create is marked, and its confirmation is drained between two runs of its fills. -/
def confirmedBetween (om : OrderManager n) (now : Instant) (op : BatchOp n) (pre : List (Instant × ℚ)) (t : Instant)
    (post : List (Instant × ℚ)) : OrderManager n :=
  ((((om.markPending now op).applyFills op.clientOrderId pre).applyEvent t (confirmEvent op)).applyFills
    op.clientOrderId post)

/-- The slot of the Create holds what all the fills leave of it. -/
def HoldsRestOf (om : OrderManager n) (tick : ℚ) (op : BatchOp n) (fills : List (Instant × ℚ)) : Prop :=
  (om.slotOf op.key).HoldsRest tick op.clientOrderId op.price op.size (fills.map Prod.snd)

/-! ## Fills -/

theorem applyFills_cons (f : Instant × ℚ) :
    om.applyFills cid (f :: fills) = (om.applyFill f.1 cid f.2).applyFills cid fills := rfl

@[simp] theorem applyFills_tick : (om.applyFills cid fills).amountTick = om.amountTick := applyTimed_tick

theorem OnlySlot.applyFills (h : om.OnlySlot k cid) : (om.applyFills cid fills).OnlySlot k cid := by
  induction fills generalizing om with
  | nil => exact h
  | cons f fills ih => exact ih (h.applyFill f.1 cid f.2)

theorem applyFills_untracked (h : (om.slotOf k).orderId = none) :
    (om.applyFills cid fills).slotOf k = om.slotOf k := by
  induction fills generalizing om with
  | nil => rfl
  | cons f fills ih =>
    have hsame : (om.applyFill f.1 cid f.2).slotOf k = om.slotOf k := applyFill_untracked h cid f.2
    rw [applyFills_cons, ih (by rw [hsame]; exact h), hsame]

theorem sum_fills_nonneg (hpos : ∀ f ∈ fills, 0 < f.2) : 0 ≤ (fills.map Prod.snd).sum := by
  refine List.sum_nonneg fun x hx => ?_
  obtain ⟨f, hf, rfl⟩ := List.mem_map.mp hx
  exact (hpos f hf).le

/-- **The fills of a tracked order**, on its only slot. -/
theorem applyFills_rest (honly : om.OnlySlot k cid) (hpos : ∀ f ∈ fills, 0 < f.2) {status : SideStatus}
    (hk : om.slotOf k = ⟨status, some cid, some price, some size, t, 0⟩) :
    ((om.applyFills cid fills).slotOf k).HoldsRest om.amountTick cid price size (fills.map Prod.snd) := by
  induction fills generalizing om size t with
  | nil =>
    refine ⟨fun hspent => absurd rfl hspent.1, fun _ => ⟨status, t, ?_⟩⟩
    show om.slotOf k = _
    rw [hk, List.map_nil, List.sum_nil, sub_zero]
  | cons f fills ih =>
    have hposs : ∀ g ∈ fills, 0 < g.2 := fun g hg => hpos g (List.mem_cons_of_mem _ hg)
    have hslot := honly.applyFill_slot (by rw [hk]) f.1 f.2
    rw [applyFills_cons]
    by_cases hr : max om.amountTick epsilon < size - f.2
    · have hshrunk : (om.applyFill f.1 cid f.2).slotOf k =
          ⟨status, some cid, some price, some (size - f.2), f.1, 0⟩ := by
        rw [hslot, hk]
        simp [filledSlot, hr]
      obtain ⟨hspent, hrest⟩ := ih (honly.applyFill f.1 cid f.2) hposs hshrunk
      rw [applyFill_tick] at hspent hrest
      rw [OrderSlot.HoldsRest, List.map_cons, spent_cons hr, List.sum_cons, ← sub_sub]
      exact ⟨hspent, hrest⟩
    · have hidle : (om.applyFill f.1 cid f.2).slotOf k = .idle f.1 := by
        rw [hslot, hk]
        simp [filledSlot, hr]
      have huntracked : ((om.applyFill f.1 cid f.2).slotOf k).orderId = none := by
        rw [hidle]
        rfl
      rw [applyFills_untracked huntracked, hidle]
      refine ⟨fun _ => ⟨f.1, rfl⟩, fun hn => absurd ⟨List.cons_ne_nil _ _, fun z hz => ?_⟩ hn⟩
      have hsum := sum_fills_nonneg hposs
      rw [← Option.some.inj hz, List.map_cons, List.sum_cons]
      linarith

/-! ## The confirmation -/

theorem confirmEvent_create (hcreate : op.action = .create) :
    confirmEvent op = .bindLive op.side op.level op.clientOrderId op.exchangeId op.price op.size := by
  unfold confirmEvent
  rw [hcreate]

/-- The confirmation writes the size of the op. -/
theorem confirmed_slot (hcreate : op.action = .create) :
    (om.applyEvent t (confirmEvent op)).slotOf op.key = boundSlot t op.clientOrderId op.price op.size := by
  rw [confirmEvent_create hcreate]
  exact (applyEvent_bindLive _ _ _ _).trans (if_pos ⟨rfl, rfl⟩)

theorem OnlySlot.markPending (h : om.OnlySlot op.key op.clientOrderId) :
    (om.markPending now op).OnlySlot op.key op.clientOrderId := by
  intro k hk
  by_contra hne
  refine hne (h k ?_)
  rwa [slotOf, markPending_orderId, if_neg fun hkey => hne hkey.2.symm] at hk

theorem OnlySlot.confirm (hcreate : op.action = .create) (h : om.OnlySlot op.key op.clientOrderId) :
    (om.applyEvent t (confirmEvent op)).OnlySlot op.key op.clientOrderId := by
  intro k hk
  by_contra hne
  refine hne (h k ?_)
  rwa [confirmEvent_create hcreate, slotOf, applyEvent_bindLive,
    if_neg fun hkey => hne (Prod.ext hkey.1 hkey.2)] at hk

theorem markPending_tick : (om.markPending now op).amountTick = om.amountTick := rfl

/-- **Only the fills after the confirmation count.** -/
theorem confirmed_rest (hcreate : op.action = .create) (honly : om.OnlySlot op.key op.clientOrderId)
    (hpos : ∀ f ∈ post, 0 < f.2) : (om.confirmedBetween now op pre t post).HoldsRestOf om.amountTick op post := by
  have hbound : ((om.markPending now op).applyFills op.clientOrderId pre).OnlySlot op.key op.clientOrderId :=
    honly.markPending.applyFills
  have hrest := applyFills_rest (hbound.confirm hcreate) hpos (confirmed_slot (t := t) hcreate)
  rwa [applyEvent_tick, applyFills_tick, markPending_tick] at hrest

/-- A confirmation after all the fills restores the whole size. -/
theorem confirmed_last (hcreate : op.action = .create) :
    (om.confirmedBetween now op pre t []).HoldsRestOf om.amountTick op [] :=
  ⟨fun hspent => absurd rfl hspent.1, fun _ => ⟨.live, t, by
    rw [List.map_nil, List.sum_nil, sub_zero]
    exact confirmed_slot hcreate⟩⟩

theorem holdsRestOf_append {tick : ℚ} (hpos : ∀ f ∈ pre, 0 < f.2) (h : om.HoldsRestOf tick op post) :
    om.HoldsRestOf tick op (pre ++ post) ↔ pre = [] ∨ Spent tick (some op.size) (post.map Prod.snd) := by
  unfold HoldsRestOf at h ⊢
  rw [List.map_append, OrderSlot.HoldsRest.append_iff ?_ h, List.map_eq_nil_iff]
  intro x hx
  obtain ⟨f, hf, rfl⟩ := List.mem_map.mp hx
  exact hpos f hf

/-- **Fills and the confirmation of a Create.** A Create is marked, and its fills and its confirmation are
drained. Whatever the position of the confirmation, the slot holds what the fills leave of the order if and
only if there is no fill. At a given position, if no other slot tracks the order, it does if and only if
no fill came before the confirmation, or those after it use the order up by themselves. -/
theorem confirmation_commutes_iff (om : OrderManager n) (now : Instant) (op : BatchOp n) (fills : List (Instant × ℚ))
    (hcreate : op.action = .create) (hpos : ∀ f ∈ fills, 0 < f.2) :
    ((∀ pre t post, fills = pre ++ post →
          (om.confirmedBetween now op pre t post).HoldsRestOf om.amountTick op fills) ↔ fills = []) ∧
      (om.OnlySlot op.key op.clientOrderId → ∀ pre t post, fills = pre ++ post →
        ((om.confirmedBetween now op pre t post).HoldsRestOf om.amountTick op fills ↔
          pre = [] ∨ Spent om.amountTick (some op.size) (post.map Prod.snd))) := by
  refine ⟨⟨fun hall => ?_, ?_⟩, ?_⟩
  · have hlast := hall fills 0 [] (List.append_nil _).symm
    rw [← List.append_nil fills, holdsRestOf_append hpos (confirmed_last hcreate)] at hlast
    rcases hlast with hnil | hspent
    · exact hnil
    · exact absurd rfl hspent.1
  · rintro rfl pre t post hsplit
    obtain ⟨rfl, rfl⟩ := List.append_eq_nil_iff.mp hsplit.symm
    exact confirmed_last hcreate
  · rintro honly pre t post rfl
    refine holdsRestOf_append (fun f hf => hpos f (List.mem_append_left _ hf)) ?_
    exact confirmed_rest hcreate honly fun f hf => hpos f (List.mem_append_right _ hf)

/-- A Create of a bid of size `3`, order `5`. -/
def createOfThree : BatchOp 1 := ⟨.buy, 0, .create, 100, 3, 5, none, false⟩

theorem confirmation_commutes_iff_three :
    ((∀ pre t post, [(1, (1 : ℚ))] = pre ++ post →
          ((OrderManager.new 1 (1 / 100) 0).confirmedBetween 0 createOfThree pre t post).HoldsRestOf (1 / 100)
            createOfThree [(1, 1)]) ↔ [((1 : Instant), (1 : ℚ))] = []) ∧
      ((OrderManager.new 1 (1 / 100) 0).OnlySlot createOfThree.key createOfThree.clientOrderId →
        ∀ pre t post, [(1, (1 : ℚ))] = pre ++ post →
          (((OrderManager.new 1 (1 / 100) 0).confirmedBetween 0 createOfThree pre t post).HoldsRestOf (1 / 100)
              createOfThree [(1, 1)] ↔ pre = [] ∨ Spent (1 / 100) (some 3) (post.map Prod.snd))) := by
  refine confirmation_commutes_iff (.new 1 (1 / 100) 0) 0 createOfThree [(1, 1)] rfl fun f hf => ?_
  rw [List.mem_singleton.mp hf]
  exact one_pos

/-- **A fill drained before the confirmation is lost**: of a bid of size `3` with a fill of `1`, the slot
tracks `3` after the confirmation. -/
theorem early_fill_lost :
    ¬ ∀ (om : OrderManager 1) (now t : Instant) (op : BatchOp 1) (pre post : List (Instant × ℚ)),
      op.action = .create → om.OnlySlot op.key op.clientOrderId → (∀ f ∈ pre ++ post, 0 < f.2) →
      (om.confirmedBetween now op pre t post).HoldsRestOf om.amountTick op (pre ++ post) := by
  intro h
  have hrest := (h (.new 1 (1 / 100) 0) 0 2 createOfThree [(1, 1)] [] rfl ?_ ?_).2 ?_
  · obtain ⟨status, t, heq⟩ := hrest
    have hsize : (((OrderManager.new 1 (1 / 100) 0).confirmedBetween 0 createOfThree [(1, 1)] 2 []).slotOf
        createOfThree.key).size = some (3 - ([1] : List ℚ).sum) := congrArg OrderSlot.size heq
    exact absurd hsize (by decide +kernel)
  · intro k hk
    cases hk
  · intro f hf
    rw [List.mem_singleton.mp hf]
    exact one_pos
  · rintro ⟨-, hle⟩
    exact absurd (hle 3 rfl) (by decide +kernel)

end OrderManager

end LighterMM
