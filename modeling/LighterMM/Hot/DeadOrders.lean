import LighterMM.Exec.Events
import LighterMM.Hot.Occupancy

/-!
# Orders that the exchange reports dead

`process_reconcile` drops an order that two successive snapshots do not show live, once its slot has been
left alone for the grace. But its second loop looks the order up among all rows, not among the live ones:
a row with a terminal status binds the slot again, which restarts the counter and the grace.
`dead_released_iff` says when a sequence of snapshots, none of which shows the order live, does release it.
-/

namespace LighterMM

/-- A snapshot with its reading of the clock. -/
abbrev Snapshot := Instant × List RemoteOrder

/-- The snapshots of a run. -/
def snapshots {n : ℕ} (l : List (Timed n)) : List Snapshot :=
  l.filterMap fun
    | (t, .snapshot remote) => some (t, remote)
    | _ => none

namespace OrderManager

variable {n : ℕ} {om : OrderManager n} {k : Side × Fin n} {t : Instant} {side : Side} {s : OrderSlot} {cid : ℤ}
  {remote : List RemoteOrder} {l : List (Timed n)} {snaps : List Snapshot}

/-- The second loop of `process_reconcile` binds the slot: a row of the order on its side, and a price and a
size in the row or in the slot. -/
def binds (remote : List RemoteOrder) (side : Side) (s : OrderSlot) : Bool :=
  match s.orderId with
  | none => false
  | some cid =>
    match rowOf remote cid with
    | none => false
    | some o =>
      !sideMismatch side o && (o.price.isSome || s.price.isSome) && (o.remainingBaseAmount.isSome || s.size.isSome)

/-- A snapshot at `t` after the snapshots `pre` comes late enough to clear slot `s`. If none of `pre` listed the
order on its side, then it comes after the grace and is not the first that misses the order. Else it comes
after the grace from the last one that did, and not right after it, unless none could bind the slot. -/
def Due (side : Side) (s : OrderSlot) (pre : List Snapshot) (t : Instant) : Prop :=
  ((∀ x ∈ pre, refreshes x.2 side s = false) ∧ 0 < s.miss + pre.length ∧ reconcileGrace ≤ t - s.updatedAt) ∨
    ∃ a x b, pre = a ++ x :: b ∧ refreshes x.2 side s = true ∧ (∀ y ∈ b, refreshes y.2 side s = false) ∧
      reconcileGrace ≤ t - x.1 ∧ (b ≠ [] ∨ ∀ y ∈ a ++ [x], binds y.2 side s = false)

/-- Every action of a run other than a snapshot leaves the slot as it was. -/
def LeftAlone (k : Side × Fin n) : OrderManager n → List (Timed n) → Prop
  | _, [] => True
  | om, a :: l => (a.2.isSnapshot = false → (om.exec a).slot k.1 k.2 = om.slot k.1 k.2) ∧ LeftAlone k (om.exec a) l

/-! ## One snapshot -/

/-- Both loops of `process_reconcile`, on one slot. -/
def reconcileSlot (side : Side) (s : OrderSlot) (x : Snapshot) : OrderSlot :=
  refreshSlot x.2 x.1 side (missSlot (liveIds x.2) x.1 s)

theorem exec_snapshot (x : Snapshot) :
    (om.exec (x.1, .snapshot x.2)).slot k.1 k.2 = reconcileSlot k.1 (om.slot k.1 k.2) x :=
  processReconcile_slot x.2

theorem missSlot_cleared {live : List ℤ} (hid : s.orderId = some cid) (hc : clearsMissing live t s = true) :
    missSlot live t s = .idle t := by
  have hdead := hc
  unfold clearsMissing at hdead
  rw [hid] at hdead
  unfold missSlot
  split
  · rename_i hnone
    rw [hid] at hnone
    cases hnone
  · rename_i id hid'
    obtain rfl : id = cid := Option.some.inj (hid'.symm.trans hid)
    rw [if_neg (of_decide_eq_true hdead).1, if_pos hc]

/-- A value of the row or of the slot. -/
theorem isSome_or_map {α β : Type} (f : α → β) (a : Option α) (b : Option β) :
    ((a.map f).or b).isSome = (a.isSome || b.isSome) := by
  cases a <;> rfl

section Dead

variable {x : Snapshot} (hid : s.orderId = some cid) (hdead : cid ∉ liveIds x.2)

include hid hdead

/-- A snapshot clears exactly the slots that are due at once. -/
theorem clears_iff_due : clearsMissing (liveIds x.2) x.1 s = true ↔ Due side s [] x.1 := by
  unfold clearsMissing Due missingReconcileDebounce
  rw [hid]
  simp only [decide_eq_true_eq]
  constructor
  · rintro ⟨-, hmiss, hgrace⟩
    refine .inl ⟨fun y hy => absurd hy List.not_mem_nil, ?_, hgrace⟩
    rw [List.length_nil]
    omega
  · rintro (⟨-, hmiss, hgrace⟩ | ⟨a, y, b, hnil, -⟩)
    · refine ⟨hdead, ?_, hgrace⟩
      rw [List.length_nil] at hmiss
      omega
    · exact absurd hnil (by simp)

variable (hc : clearsMissing (liveIds x.2) x.1 s = false)

include hc

/-- No row for the slot: one more miss. -/
theorem reconcileSlot_missed (hr : refreshes x.2 side s = false) :
    reconcileSlot side s x = { s with miss := s.miss + 1 } := by
  unfold reconcileSlot
  rw [missSlot_missed hid hdead hc]
  exact refreshSlot_eq hr

/-- A row that binds restarts the counter. -/
theorem reconcileSlot_bound (hb : binds x.2 side s = true) :
    ∃ price size, reconcileSlot side s x = boundSlot x.1 cid price size := by
  unfold binds at hb
  unfold reconcileSlot
  rw [missSlot_missed hid hdead hc]
  rw [hid] at hb
  cases hrow : rowOf x.2 cid with
  | none => simp only [hrow, Bool.false_eq_true] at hb
  | some o =>
    simp only [hrow, Bool.and_eq_true, Bool.not_eq_true'] at hb
    obtain ⟨⟨hside, hp⟩, hs⟩ := hb
    rw [← isSome_or_map parseF64, Option.isSome_iff_exists] at hp hs
    obtain ⟨p, hprice⟩ := hp
    obtain ⟨sz, hsize⟩ := hs
    refine ⟨p, sz, ?_⟩
    simp only [refreshSlot, hid, hrow, hside, hprice, hsize, Bool.false_eq_true, if_false]

/-- A row without a price or a size restarts the grace only. -/
theorem reconcileSlot_marked (hr : refreshes x.2 side s = true) (hb : binds x.2 side s = false) :
    reconcileSlot side s x = { s with status := .live, updatedAt := x.1, miss := s.miss + 1 } := by
  unfold refreshes at hr
  unfold binds at hb
  unfold reconcileSlot
  rw [missSlot_missed hid hdead hc]
  rw [hid] at hr hb
  cases hrow : rowOf x.2 cid with
  | none => simp only [hrow, Bool.false_eq_true] at hr
  | some o =>
    simp only [hrow, Bool.not_eq_true'] at hr
    simp only [hrow, hr, Bool.not_false, Bool.true_and] at hb
    simp only [refreshSlot, hid, hrow, hr, Bool.false_eq_true, if_false]
    cases hp : (o.price.map parseF64).or s.price with
    | none => rfl
    | some p =>
      cases hs : (o.remainingBaseAmount.map parseF64).or s.size with
      | none => rfl
      | some sz =>
        rw [← isSome_or_map parseF64, ← isSome_or_map parseF64, hp, hs] at hb
        cases hb

end Dead

/-! ## Due after one more snapshot before -/

theorem binds_refreshes (h : binds remote side s = true) : refreshes remote side s = true := by
  unfold binds at h
  unfold refreshes
  cases hid : s.orderId with
  | none =>
    rw [hid] at h
    cases h
  | some cid =>
    rw [hid] at h
    cases hrow : rowOf remote cid with
    | none =>
      simp only [hrow] at h
      cases h
    | some o =>
      simp only [hrow, Bool.and_eq_true] at h
      simp only [hrow]
      exact h.1.1

theorem refreshes_bound {price size : ℚ} (hid : s.orderId = some cid) :
    refreshes remote side (boundSlot t cid price size) = refreshes remote side s := by
  unfold refreshes
  rw [hid]
  rfl

/-- A slot with price and size is bound by every row on its side. -/
theorem binds_bound {price size : ℚ} (hid : s.orderId = some cid) (hr : refreshes remote side s = true) :
    binds remote side (boundSlot t cid price size) = true := by
  unfold refreshes at hr
  unfold binds boundSlot
  rw [hid] at hr
  cases hrow : rowOf remote cid with
  | none => simp only [hrow, Bool.false_eq_true] at hr
  | some o =>
    simp only [hrow] at hr
    simp [hrow, hr]

/-- The first snapshot listed the order last, or it did not. -/
theorem due_cons {x : Snapshot} {pre : List Snapshot} :
    Due side s (x :: pre) t ↔
      (refreshes x.2 side s = false ∧ (∀ y ∈ pre, refreshes y.2 side s = false) ∧
          reconcileGrace ≤ t - s.updatedAt) ∨
        (refreshes x.2 side s = true ∧ (∀ y ∈ pre, refreshes y.2 side s = false) ∧ reconcileGrace ≤ t - x.1 ∧
          (pre ≠ [] ∨ binds x.2 side s = false)) ∨
        ∃ a y b, pre = a ++ y :: b ∧ refreshes y.2 side s = true ∧ (∀ z ∈ b, refreshes z.2 side s = false) ∧
          reconcileGrace ≤ t - y.1 ∧
          (b ≠ [] ∨ binds x.2 side s = false ∧ ∀ z ∈ a ++ [y], binds z.2 side s = false) := by
  constructor
  · rintro (⟨hnone, -, hgrace⟩ | ⟨a, y, b, hsplit, hy, hb, hgrace, hlast⟩)
    · exact .inl ⟨hnone x List.mem_cons_self, fun y hy => hnone y (List.mem_cons_of_mem _ hy), hgrace⟩
    · cases a with
      | nil =>
        obtain ⟨rfl, rfl⟩ := List.cons.inj hsplit
        refine .inr (.inl ⟨hy, hb, hgrace, hlast.imp_right fun h => h x ?_⟩)
        exact List.mem_singleton_self x
      | cons z a =>
        obtain ⟨rfl, rfl⟩ := List.cons.inj hsplit
        exact .inr (.inr ⟨a, y, b, rfl, hy, hb, hgrace, hlast.imp_right List.forall_mem_cons.mp⟩)
  · rintro (⟨hx, hnone, hgrace⟩ | ⟨hx, hnone, hgrace, hlast⟩ | ⟨a, y, b, rfl, hy, hb, hgrace, hlast⟩)
    · exact .inl ⟨List.forall_mem_cons.mpr ⟨hx, hnone⟩, by rw [List.length_cons]; omega, hgrace⟩
    · refine .inr ⟨[], x, pre, rfl, hx, hnone, hgrace, hlast.imp_right fun h y hy => ?_⟩
      rw [List.mem_singleton.mp hy]
      exact h
    · exact .inr ⟨x :: a, y, b, rfl, hy, hb, hgrace, hlast.imp_right List.forall_mem_cons.mpr⟩

theorem due_missed {x : Snapshot} {pre : List Snapshot} (hr : refreshes x.2 side s = false) :
    Due side s (x :: pre) t ↔ Due side { s with miss := s.miss + 1 } pre t := by
  have hb : binds x.2 side s = false := by
    rw [← Bool.not_eq_true]
    intro hb
    rw [binds_refreshes hb] at hr
    cases hr
  rw [due_cons]
  unfold Due
  simp only [hr, hb, true_and, Bool.false_eq_true, false_and, false_or]
  refine or_congr (and_congr_right fun _ => (and_iff_right ?_).symm) Iff.rfl
  show 0 < s.miss + 1 + pre.length
  omega

theorem due_marked {x : Snapshot} {pre : List Snapshot} (hr : refreshes x.2 side s = true)
    (hb : binds x.2 side s = false) :
    Due side s (x :: pre) t ↔ Due side { s with status := .live, updatedAt := x.1, miss := s.miss + 1 } pre t := by
  rw [due_cons]
  unfold Due
  simp only [hr, hb, true_and, Bool.true_eq_false, false_and, false_or, or_true, and_true]
  refine or_congr (and_congr_right fun _ => (and_iff_right ?_).symm) Iff.rfl
  show 0 < s.miss + 1 + pre.length
  omega

theorem due_bound {x : Snapshot} {pre : List Snapshot} {price size : ℚ} (hid : s.orderId = some cid)
    (hb : binds x.2 side s = true) :
    Due side s (x :: pre) t ↔ Due side (boundSlot x.1 cid price size) pre t := by
  rw [due_cons]
  unfold Due
  simp only [binds_refreshes hb, hb, Bool.true_eq_false, true_and, false_and, false_or, or_false, refreshes_bound hid]
  refine or_congr (and_congr_right fun _ => ?_) ?_
  · show reconcileGrace ≤ t - x.1 ∧ pre ≠ [] ↔ 0 < 0 + pre.length ∧ reconcileGrace ≤ t - x.1
    rw [zero_add, List.length_pos_iff, and_comm]
  · constructor
    · rintro ⟨a, y, b, rfl, hy, hnone, hgrace, hne⟩
      exact ⟨a, y, b, rfl, hy, hnone, hgrace, .inl hne⟩
    · rintro ⟨a, y, b, rfl, hy, hnone, hgrace, hne | hfree⟩
      · exact ⟨a, y, b, rfl, hy, hnone, hgrace, hne⟩
      · have hbind := hfree y (List.mem_append_right _ (List.mem_singleton_self y))
        rw [binds_bound hid hy] at hbind
        cases hbind

/-! ## A sequence of snapshots -/

theorem reconcile_idle (u : Instant) : snaps.foldl (reconcileSlot side) (.idle u) = .idle u := by
  induction snaps with
  | nil => rfl
  | cons x snaps ih => exact ih

/-- What a snapshot that does not clear the slot leaves of it. -/
theorem reconcileSlot_due (side : Side) {x : Snapshot} (hid : s.orderId = some cid) (hdead : cid ∉ liveIds x.2)
    (hc : clearsMissing (liveIds x.2) x.1 s = false) :
    (reconcileSlot side s x).orderId = some cid ∧
      ∀ pre t, Due side s (x :: pre) t ↔ Due side (reconcileSlot side s x) pre t := by
  cases hr : refreshes x.2 side s with
  | false =>
    rw [reconcileSlot_missed hid hdead hc hr]
    exact ⟨hid, fun _ _ => due_missed hr⟩
  | true =>
    cases hb : binds x.2 side s with
    | false =>
      rw [reconcileSlot_marked hid hdead hc hr hb]
      exact ⟨hid, fun _ _ => due_marked hr hb⟩
    | true =>
      obtain ⟨price, size, hbound⟩ := reconcileSlot_bound hid hdead hc hb
      rw [hbound]
      exact ⟨rfl, fun _ _ => due_bound hid hb⟩

/-- **One slot through snapshots** that do not show its order live. -/
theorem slot_released_iff (hid : s.orderId = some cid) (hdead : ∀ x ∈ snaps, cid ∉ liveIds x.2) :
    (∃ u, snaps.foldl (reconcileSlot side) s = .idle u) ↔
      ∃ pre x post, snaps = pre ++ x :: post ∧ Due side s pre x.1 := by
  induction snaps generalizing s with
  | nil =>
    refine iff_of_false ?_ ?_
    · rintro ⟨u, hu⟩
      rw [show s = .idle u from hu] at hid
      cases hid
    · rintro ⟨pre, x, post, hnil, -⟩
      exact absurd hnil (by simp)
  | cons x snaps ih =>
    have hx := hdead x List.mem_cons_self
    have hrest : ∀ y ∈ snaps, cid ∉ liveIds y.2 := fun y hy => hdead y (List.mem_cons_of_mem _ hy)
    rw [List.foldl_cons]
    cases hc : clearsMissing (liveIds x.2) x.1 s with
    | true =>
      have hidle : reconcileSlot side s x = .idle x.1 := by
        unfold reconcileSlot
        rw [missSlot_cleared hid hc]
        rfl
      rw [hidle, reconcile_idle]
      exact iff_of_true ⟨x.1, rfl⟩ ⟨[], x, snaps, rfl, (clears_iff_due hid hx).mp hc⟩
    | false =>
      obtain ⟨hid', hdue⟩ := reconcileSlot_due side hid hx hc
      rw [ih hid' hrest]
      constructor
      · rintro ⟨pre, y, post, rfl, hd⟩
        exact ⟨x :: pre, y, post, rfl, (hdue pre y.1).mpr hd⟩
      · rintro ⟨pre, y, post, hsplit, hd⟩
        cases pre with
        | nil =>
          obtain ⟨rfl, rfl⟩ := List.cons.inj hsplit
          rw [(clears_iff_due hid hx).mpr hd] at hc
          cases hc
        | cons z pre =>
          obtain ⟨rfl, rfl⟩ := List.cons.inj hsplit
          exact ⟨pre, y, post, rfl, (hdue pre y.1).mp hd⟩

/-! ## Runs -/

/-- In a run that leaves the slot alone, the snapshots alone decide what becomes of it. -/
theorem LeftAlone.slot (h : LeftAlone k om l) :
    (om.execAll l).slot k.1 k.2 = (snapshots l).foldl (reconcileSlot k.1) (om.slot k.1 k.2) := by
  induction l generalizing om with
  | nil => rfl
  | cons a l ih =>
    obtain ⟨hkeep, hrest⟩ := h
    obtain ⟨t, act⟩ := a
    show ((om.exec (t, act)).execAll l).slot k.1 k.2 = _
    rw [ih hrest]
    cases act with
    | cycle d => rw [hkeep rfl]; rfl
    | event e => rw [hkeep rfl]; rfl
    | snapshot remote => rw [exec_snapshot (t, remote)]; rfl

/-- **Dead orders.** A slot holds an order; in a run that but for snapshots leaves the slot alone, no snapshot
shows the order live. The slot ends idle if and only if one of the snapshots is due. -/
theorem dead_released_iff (om : OrderManager n) (k : Side × Fin n) (cid : ℤ) (l : List (Timed n))
    (hid : (om.slot k.1 k.2).orderId = some cid) (halone : LeftAlone k om l)
    (hdead : ∀ x ∈ snapshots l, cid ∉ liveIds x.2) :
    (∃ t, (om.execAll l).slot k.1 k.2 = .idle t) ↔
      ∃ pre x post, snapshots l = pre ++ x :: post ∧ Due k.1 (om.slot k.1 k.2) pre x.1 := by
  rw [halone.slot]
  exact slot_released_iff hid hdead

/-- A row of the bid `5` with a terminal status. -/
def filledRow : RemoteOrder := ⟨some 5, some 9, some false, none, none, some "filled"⟩

/-- It is listed once and then missed twice. -/
def listedThenMissed : List (Timed 1) := [(1, .snapshot [filledRow]), (4, .snapshot []), (7, .snapshot [])]

theorem dead_released_iff_bid :
    (∃ t, (bidOfThree.execAll listedThenMissed).slot .buy 0 = .idle t) ↔
      ∃ pre x post, snapshots listedThenMissed = pre ++ x :: post ∧ Due .buy (bidOfThree.slot .buy 0) pre x.1 := by
  refine dead_released_iff bidOfThree (.buy, 0) 5 listedThenMissed (by decide +kernel) ?_ (by decide +kernel)
  exact ⟨fun h => (by cases h), fun h => (by cases h), fun h => (by cases h), trivial⟩

/-- Snapshots without a row for the slot release it: the second one, and one after the grace. -/
theorem unlisted_released (hid : (om.slot k.1 k.2).orderId = some cid) (halone : LeftAlone k om l)
    (hdead : ∀ x ∈ snapshots l, cid ∉ liveIds x.2)
    (hunlisted : ∀ x ∈ snapshots l, refreshes x.2 k.1 (om.slot k.1 k.2) = false) (htwo : 2 ≤ (snapshots l).length)
    (hgrace : ∀ x, (snapshots l).getLast? = some x → reconcileGrace ≤ x.1 - (om.slot k.1 k.2).updatedAt) :
    ∃ t, (om.execAll l).slot k.1 k.2 = .idle t := by
  rw [halone.slot, slot_released_iff hid hdead]
  have hne : snapshots l ≠ [] := by
    intro hnil
    rw [hnil] at htwo
    cases htwo
  obtain ⟨pre, x, hlast⟩ : ∃ pre x, snapshots l = pre ++ [x] :=
    ⟨_, _, (List.dropLast_append_getLast hne).symm⟩
  rw [hlast] at htwo hgrace hunlisted
  refine ⟨pre, x, [], hlast, .inl ⟨fun y hy => hunlisted y (List.mem_append_left _ hy), ?_, hgrace x ?_⟩⟩
  · rw [List.length_append, List.length_singleton] at htwo
    omega
  · exact List.getLast?_concat

/-- It is listed at every snapshot. -/
def listedTwice : List (Timed 1) := [(10, .snapshot [filledRow]), (20, .snapshot [filledRow])]

/-- **A dead order that is listed stays**: the row binds the slot again at every snapshot. -/
theorem dead_row_binds :
    ¬ ∀ (om : OrderManager 1) (k : Side × Fin 1) (cid : ℤ) (l : List (Timed 1)),
      (om.slot k.1 k.2).orderId = some cid → LeftAlone k om l → (∀ x ∈ snapshots l, cid ∉ liveIds x.2) →
      2 ≤ (snapshots l).length →
      (∀ x, (snapshots l).getLast? = some x → reconcileGrace ≤ x.1 - (om.slot k.1 k.2).updatedAt) →
      ∃ t, (om.execAll l).slot k.1 k.2 = .idle t := by
  intro h
  have hidle := h bidOfThree (.buy, 0) 5 listedTwice (by decide +kernel)
    ⟨fun h => (by cases h), fun h => (by cases h), trivial⟩ (by decide +kernel) (by decide) ?_
  · obtain ⟨t, ht⟩ := hidle
    have hid := congrArg OrderSlot.orderId ht
    have hkept : ((bidOfThree.execAll listedTwice).slot .buy 0).orderId = some 5 := by decide +kernel
    cases hid.symm.trans hkept
  · intro x hx
    have hlast : x = (20, [filledRow]) := (Option.some.inj hx).symm
    rw [hlast]
    decide +kernel

end OrderManager

end LighterMM
