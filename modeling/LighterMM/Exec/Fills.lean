import LighterMM.Exec.Events

/-!
# The fills of a resting order

An order of size `s` rests in slot `k`; the events that follow are its fills, of any positive sizes,
and events of other slots. A fill keeps the slot as long as it leaves more than the tolerance
`max amount_tick EPSILON`, which is one lot: so a fill that leaves exactly one lot frees the slot of an
order that still rests (`last_lot_freed`). `fills_keep_rest_iff` says that this is the only way in which
the fills of an order go wrong.
-/

namespace LighterMM

/-- The filled total of an order. -/
def filledTotal {n : ℕ} (cid : ℤ) (evts : List (Instant × OrderEvent n)) : ℚ :=
  (fillsOf cid (evts.map Prod.snd)).sum

/-- An event that is neither on slot `k` nor about order `cid`. -/
def OrderEvent.Elsewhere {n : ℕ} (k : Side × Fin n) (cid : ℤ) : OrderEvent n → Prop
  | .bindLive side level c _ _ _ => (side, level) ≠ k ∧ c ≠ cid
  | .clearLive side level _ => (side, level) ≠ k
  | .clearAll => False
  | .idResolved _ _ => True
  | .fill c _ => c ≠ cid

/-- The fills of an order, of positive sizes, among events of other slots. -/
def OnlyFills {n : ℕ} (k : Side × Fin n) (cid : ℤ) (evts : List (Instant × OrderEvent n)) : Prop :=
  ∀ e ∈ evts, (∃ f, 0 < f ∧ e.2 = .fill cid f) ∨ e.2.Elsewhere k cid

namespace OrderManager

variable {n : ℕ} {om : OrderManager n} {k : Side × Fin n} {cid : ℤ} {s : ℚ} {t : Instant}
  {evts : List (Instant × OrderEvent n)}

/-- The order manager after events at their times. -/
def applyTimed (om : OrderManager n) (evts : List (Instant × OrderEvent n)) : OrderManager n :=
  evts.foldl (fun om e => om.applyEvent e.1 e.2) om

/-- What a slot that was bound with size `s` looks like once `total` of it is filled. -/
def FilledTo (cid : ℤ) (s total : ℚ) (slot : OrderSlot) : Prop :=
  (total < s → slot.orderId = some cid ∧ slot.size = some (s - total)) ∧
    (s ≤ total → slot.status = .idle ∧ slot.orderId = none)

/-- Through the whole sequence the slot holds what is left of its order, and a fill of the order
changes no other slot. -/
structure KeepsRest (om : OrderManager n) (k : Side × Fin n) (cid : ℤ) (s : ℚ)
    (evts : List (Instant × OrderEvent n)) : Prop where
  slot : ∀ pre post, evts = pre ++ post → FilledTo cid s (filledTotal cid pre) ((om.applyTimed pre).slotOf k)
  others : ∀ pre t f post, evts = pre ++ (t, .fill cid f) :: post → ∀ k' ≠ k,
    (om.applyTimed (pre ++ [(t, .fill cid f)])).slotOf k' = (om.applyTimed pre).slotOf k'

/-- No fill leaves a rest within the tolerance, and each one finds its order in slot `k`, if at all. -/
structure NoLotLeft (om : OrderManager n) (k : Side × Fin n) (cid : ℤ) (s : ℚ)
    (evts : List (Instant × OrderEvent n)) : Prop where
  rest : ∀ pre t f post, evts = pre ++ (t, .fill cid f) :: post → filledTotal cid pre + f < s →
    max om.amountTick epsilon < s - (filledTotal cid pre + f)
  own : ∀ pre t f post, evts = pre ++ (t, .fill cid f) :: post →
    ∀ k', (om.applyTimed pre).findSlot cid = some k' → k' = k

/-! ## One event -/

theorem applyTimed_concat (e : Instant × OrderEvent n) :
    om.applyTimed (evts ++ [e]) = (om.applyTimed evts).applyEvent e.1 e.2 := by
  simp [applyTimed]

theorem filledTotal_concat_fill (f : ℚ) :
    filledTotal cid (evts ++ [(t, .fill cid f)]) = filledTotal cid evts + f := by
  unfold filledTotal
  rw [List.map_append, fillsOf_append, List.sum_append]
  simp [fillsOf]

theorem filledTotal_concat_elsewhere {e : Instant × OrderEvent n} (h : e.2.Elsewhere k cid) :
    filledTotal cid (evts ++ [e]) = filledTotal cid evts := by
  obtain ⟨t, e⟩ := e
  have hnone : fillsOf cid [e] = [] := by
    cases e with
    | fill c f => rw [fillsOf_cons_fill, if_neg h]; rfl
    | _ => rfl
  unfold filledTotal
  rw [List.map_append, fillsOf_append, List.map_singleton, hnone, List.append_nil]

@[simp] theorem applyEvent_tick (e : OrderEvent n) : (om.applyEvent t e).amountTick = om.amountTick := by
  cases e with
  | bindLive side level cid eid price size => cases eid <;> simp [applyEvent, bindLive, setSlot]
  | clearLive side level cid =>
    simp only [applyEvent]
    split <;> rfl
  | clearAll => rfl
  | idResolved c e => exact recordIdMapping_tick c e
  | fill c f => exact applyFill_tick c f

@[simp] theorem applyTimed_tick : (om.applyTimed evts).amountTick = om.amountTick := by
  induction evts using List.reverseRecOn with
  | nil => rfl
  | append_singleton evts e ih => rw [applyTimed_concat, applyEvent_tick, ih]

/-- An event elsewhere leaves a slot alone that tracks the order or nothing. -/
theorem applyEvent_elsewhere {e : OrderEvent n} (h : e.Elsewhere k cid)
    (hk : (om.slotOf k).orderId = some cid ∨ (om.slotOf k).orderId = none) :
    (om.applyEvent t e).slotOf k = om.slotOf k := by
  cases e with
  | bindLive side level c eid price size =>
    refine applyEvent_bindLive c eid price size |>.trans (if_neg fun hkk => h.1 ?_)
    exact Prod.ext hkk.1.symm hkk.2.symm
  | clearLive side level c =>
    refine applyEvent_clearLive c |>.trans (if_neg fun hkk => h ?_)
    exact Prod.ext hkk.1.1.symm hkk.1.2.symm
  | clearAll => exact absurd h id
  | idResolved c e => exact applyEvent_idResolved_slot c e
  | fill c f =>
    rcases applyFill_at om t c f k with hsame | ⟨hid, -⟩
    · exact hsame
    · rcases hk with hk | hk <;> rw [hk] at hid
      · exact absurd (Option.some.inj hid).symm h
      · cases hid

/-- A fill of an order that no slot tracks does nothing. -/
theorem applyFill_none (h : om.findSlot cid = none) (f : ℚ) : om.applyFill t cid f = om := by
  unfold applyFill
  rw [h]

theorem applyFill_found (h : om.findSlot cid = some k) (f : ℚ) :
    (om.applyFill t cid f).slotOf k = filledSlot om.amountTick t f (om.slotOf k) := by
  unfold applyFill
  rw [h]
  exact slot_setSlot_self _

/-- A positive fill changes the slot it finds. -/
theorem filledSlot_ne {tick f : ℚ} {slot : OrderSlot} (hf : 0 < f) (hid : slot.orderId = some cid) :
    filledSlot tick t f slot ≠ slot := by
  intro heq
  unfold filledSlot at heq
  cases hz : slot.size with
  | none =>
    rw [hz] at heq
    rw [← heq] at hid
    cases hid
  | some z =>
    rw [hz] at heq
    simp only [Option.map_some] at heq
    split at heq
    · have hsize := congrArg OrderSlot.size heq
      rw [hz, Option.some.injEq] at hsize
      linarith
    · rw [← heq] at hid
      cases hid

/-- What a fill leaves of a slot that holds `r`. -/
theorem filledSlot_filledTo {tick f total : ℚ} {slot : OrderSlot} (hid : slot.orderId = some cid)
    (hsize : slot.size = some (s - total)) (hrest : total + f < s → max tick epsilon < s - (total + f)) :
    FilledTo cid s (total + f) (filledSlot tick t f slot) := by
  have hr : s - total - f = s - (total + f) := by ring
  unfold filledSlot
  rw [hsize]
  simp only [Option.map_some, hr]
  refine ⟨fun hlt => ?_, fun hle => ?_⟩
  · rw [if_pos (hrest hlt)]
    exact ⟨hid, rfl⟩
  · have hpos : 0 < max tick epsilon := lt_max_of_lt_right epsilon_pos
    rw [if_neg (by linarith)]
    exact ⟨rfl, rfl⟩

/-! ## A whole sequence -/

theorem FilledTo.tracks {total : ℚ} {slot : OrderSlot} (h : FilledTo cid s total slot) :
    slot.orderId = some cid ∨ slot.orderId = none := by
  rcases lt_or_ge total s with hlt | hge
  · exact .inl (h.1 hlt).1
  · exact .inr (h.2 hge).2

/-- One fill of the order, found in slot `k` if at all. -/
theorem FilledTo.fill {total f : ℚ} (h : FilledTo cid s total (om.slotOf k)) (hf : 0 < f)
    (hown : ∀ k', om.findSlot cid = some k' → k' = k)
    (hrest : total + f < s → max om.amountTick epsilon < s - (total + f)) :
    FilledTo cid s (total + f) ((om.applyFill t cid f).slotOf k) := by
  rcases lt_or_ge total s with hlt | hge
  · obtain ⟨hid, hsize⟩ := h.1 hlt
    obtain ⟨k₀, hfind⟩ := findSlot_of_tracked hid
    obtain rfl := hown k₀ hfind
    rw [applyFill_found hfind]
    exact filledSlot_filledTo hid hsize hrest
  · have hnone : om.findSlot cid = none := by
      cases hfind : om.findSlot cid with
      | none => rfl
      | some k₀ =>
        have hid := findSlot_tracks hfind
        rw [hown k₀ hfind, (h.2 hge).2] at hid
        cases hid
    rw [applyFill_none hnone]
    exact ⟨fun hlt => absurd hge (by linarith), fun _ => h.2 hge⟩

/-- A clean sequence keeps the slot at what is left. -/
theorem NoLotLeft.filledTo (h : NoLotLeft om k cid s evts) (hid : (om.slotOf k).orderId = some cid)
    (hsize : (om.slotOf k).size = some s) (hs : 0 < s) (hevts : OnlyFills k cid evts)
    {pre post : List (Instant × OrderEvent n)} (hsplit : evts = pre ++ post) :
    FilledTo cid s (filledTotal cid pre) ((om.applyTimed pre).slotOf k) := by
  induction pre using List.reverseRecOn generalizing post with
  | nil =>
    have hzero : filledTotal cid ([] : List (Instant × OrderEvent n)) = 0 := rfl
    rw [hzero]
    refine ⟨fun _ => ⟨hid, ?_⟩, fun hle => absurd hs (not_lt.mpr hle)⟩
    rw [sub_zero]
    exact hsize
  | append_singleton pre e ih =>
    obtain ⟨t, e⟩ := e
    rw [List.append_assoc, List.singleton_append] at hsplit
    have hih := ih hsplit
    rw [applyTimed_concat]
    rcases hevts (t, e) (by rw [hsplit]; simp) with ⟨f, hf, he⟩ | helse
    · obtain rfl : e = .fill cid f := he
      rw [filledTotal_concat_fill]
      refine hih.fill hf (h.own pre t f post hsplit) ?_
      rw [applyTimed_tick]
      exact h.rest pre t f post hsplit
    · rw [filledTotal_concat_elsewhere helse, applyEvent_elsewhere helse hih.tracks]
      exact hih

/-- **Fills and the rest of an order.** An order of size `s` is tracked by slot `k`, and the events are
its fills among events of other slots. The slot tracks the order with what is left of it until the
fill that completes it, and no other slot changes, if and only if no fill leaves a rest of at most
`max amount_tick EPSILON` and no other slot is found to track the order. -/
theorem fills_keep_rest_iff (om : OrderManager n) (k : Side × Fin n) (cid : ℤ) (s : ℚ)
    (evts : List (Instant × OrderEvent n)) (hid : (om.slotOf k).orderId = some cid)
    (hsize : (om.slotOf k).size = some s) (hs : 0 < s) (hevts : OnlyFills k cid evts) :
    KeepsRest om k cid s evts ↔ NoLotLeft om k cid s evts := by
  constructor
  · intro h
    have hown : ∀ pre t f post, evts = pre ++ (t, .fill cid f) :: post →
        ∀ k', (om.applyTimed pre).findSlot cid = some k' → k' = k := by
      intro pre t f post hsplit k' hfind
      by_contra hne
      have hf : 0 < f := by
        rcases hevts (t, .fill cid f) (by rw [hsplit]; simp) with ⟨g, hg, he⟩ | helse
        · cases he
          exact hg
        · exact absurd rfl helse
      have hsame := h.others pre t f post hsplit k' hne
      rw [applyTimed_concat] at hsame
      exact filledSlot_ne hf (findSlot_tracks hfind) ((applyFill_found hfind f).symm.trans hsame)
    refine ⟨fun pre t f post hsplit hlt => ?_, hown⟩
    have hf : 0 < f := by
      rcases hevts (t, .fill cid f) (by rw [hsplit]; simp) with ⟨g, hg, he⟩ | helse
      · cases he
        exact hg
      · exact absurd rfl helse
    obtain ⟨hid₁, hsize₁⟩ := (h.slot pre _ hsplit).1 (by linarith)
    obtain ⟨k₀, hfind⟩ := findSlot_of_tracked hid₁
    obtain rfl := hown pre t f post hsplit k₀ hfind
    -- The slot still tracks the order after the fill, so the fill left more than the tolerance.
    have hafter := (h.slot (pre ++ [(t, .fill cid f)]) post (by simpa using hsplit)).1
      (by rw [filledTotal_concat_fill]; exact hlt)
    rw [applyTimed_concat] at hafter
    have htracked := hafter.1
    rw [show ((om.applyTimed pre).applyEvent t (.fill cid f)).slotOf k₀ =
        filledSlot (om.applyTimed pre).amountTick t f ((om.applyTimed pre).slotOf k₀)
      from applyFill_found hfind f, applyTimed_tick] at htracked
    by_contra hle
    unfold filledSlot at htracked
    rw [hsize₁] at htracked
    simp only [Option.map_some] at htracked
    rw [if_neg (by rw [sub_sub]; exact hle)] at htracked
    cases htracked
  · intro h
    refine ⟨fun pre post hsplit => h.filledTo hid hsize hs hevts hsplit, ?_⟩
    intro pre t f post hsplit k' hne
    rw [applyTimed_concat]
    rcases applyFill_at (om.applyTimed pre) t cid f k' with hsame | ⟨-, hfind, -⟩
    · exact hsame
    · exact absurd (h.own pre t f post hsplit k' hfind) hne

theorem fills_keep_rest_iff_bid :
    KeepsRest bidOfThree (.buy, 0) 5 3 [(1, .fill 5 1), (2, .idResolved 6 10), (3, .fill 5 2)] ↔
      NoLotLeft bidOfThree (.buy, 0) 5 3 [(1, .fill 5 1), (2, .idResolved 6 10), (3, .fill 5 2)] := by
  refine fills_keep_rest_iff _ _ _ _ _ (by decide +kernel) (by decide +kernel) (by norm_num) ?_
  intro e he
  simp only [List.mem_cons, List.not_mem_nil, or_false] at he
  rcases he with rfl | rfl | rfl
  · exact .inl ⟨1, one_pos, rfl⟩
  · exact .inr trivial
  · exact .inl ⟨2, two_pos, rfl⟩

/-! ## Lots -/

/-- A positive number of whole lots. -/
def Lots (tick x : ℚ) : Prop := ∃ m : ℕ, 0 < m ∧ x = m * tick

/-- Of the rests of whole lots, the tolerance hides exactly the last lot. -/
theorem lots_within_tolerance {tick x : ℚ} (htick : epsilon ≤ tick) (h : Lots tick x) :
    x ≤ max tick epsilon ↔ x = tick := by
  obtain ⟨m, hm, rfl⟩ := h
  have hpos : 0 < tick := epsilon_pos.trans_le htick
  rw [max_eq_left htick]
  constructor
  · intro hle
    have hm1 : (m : ℚ) ≤ 1 := le_of_mul_le_mul_right (by linarith) hpos
    have hone : m = 1 := le_antisymm (by exact_mod_cast hm1) hm
    rw [hone, Nat.cast_one, one_mul]
  · exact le_of_eq

/-- A bid of two lots, order `5`. -/
def bidOfTwoLots : OrderManager 1 :=
  (OrderManager.new 1 (1 / 100) 0).applyEvent 0 (.bindLive .buy 0 5 (some 9) 100 (2 / 100))

/-- **The last lot is taken for a full fill**: a fill of one of two lots frees the slot. -/
theorem last_lot_freed :
    ¬ ∀ (om : OrderManager 1) (k : Side × Fin 1) (cid : ℤ) (s : ℚ) (evts : List (Instant × OrderEvent 1)),
      (om.slotOf k).orderId = some cid → (om.slotOf k).size = some s → om.OnlySlot k cid →
      epsilon ≤ om.amountTick → Lots om.amountTick s → OnlyFills k cid evts →
      (∀ f ∈ fillsOf cid (evts.map Prod.snd), Lots om.amountTick f) → KeepsRest om k cid s evts := by
  intro h
  have hkeeps := h bidOfTwoLots (.buy, 0) 5 (2 / 100) [(1, .fill 5 (1 / 100))] (by decide +kernel)
    (by decide +kernel) ?_ (by decide +kernel) ⟨2, two_pos, by decide +kernel⟩ ?_ ?_
  · have hrests := (hkeeps.slot [(1, .fill 5 (1 / 100))] [] rfl).1 (by decide +kernel)
    exact absurd hrests.1 (by decide +kernel)
  · rintro ⟨side, level⟩ hid
    obtain rfl := Subsingleton.elim level 0
    cases side with
    | buy => rfl
    | sell => exact absurd hid (by decide +kernel)
  · intro e he
    rw [List.mem_singleton] at he
    exact .inl ⟨1 / 100, by norm_num, by rw [he]⟩
  · intro f hf
    have hmem : f ∈ ([1 / 100] : List ℚ) := hf
    rw [List.mem_singleton] at hmem
    exact ⟨1, one_pos, by rw [hmem]; decide +kernel⟩

end OrderManager

end LighterMM
