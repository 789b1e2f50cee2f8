import LighterMM.Hot.Cycle
import LighterMM.Lib.Trans

/-!
# Gated ticks against the sender's mailbox

While the feed-readiness gate is closed, every tick of `maybe_quote` sends the Cancels it has just
collected into the single-slot mailbox, also when there are none. A slot that is already Canceling
gives no Cancel, so a tick that finds the Cancels of an earlier one unread throws them away for good.

`GateRun` is a run of gated ticks and sender wake-ups: `marked` are the Cancels whose slots the gate
has marked, `taken` the ops that the sender has taken out of the mailbox.
-/

namespace LighterMM

structure GateRun (n : ℕ) where
  om : OrderManager n
  mailbox : Watch (List (BatchOp n))
  marked : List (BatchOp n)
  taken : List (BatchOp n)

inductive GateAct where
  /-- A gated tick of the hot task. -/
  | tick (now : Instant)
  /-- The sender sees the changed mailbox and takes the batch. -/
  | wake

namespace GateRun

variable {n : ℕ}

/-- The gate closes on slots `om`, with whatever is in the mailbox. -/
def start (om : OrderManager n) (mailbox : Watch (List (BatchOp n))) : GateRun n :=
  ⟨om, mailbox, [], []⟩

def step (w : GateRun n) : GateAct → Option (GateRun n)
  | .tick now =>
    let r := w.om.gateCycle now
    some ⟨r.1, w.mailbox.send r.2, w.marked ++ r.2, w.taken⟩
  | .wake =>
    w.mailbox.pending.map fun ops => { w with mailbox := w.mailbox.markSeen, taken := w.taken ++ ops }

/-- The batch that the sender has not seen. -/
def unread (w : GateRun n) : List (BatchOp n) := w.mailbox.pending.getD []

/-- A slot is marked Canceling by the gate, and the Cancel of its order is neither taken nor in the
mailbox. -/
def Lost (w : GateRun n) : Prop :=
  ∃ op ∈ w.marked, (w.om.slot op.side op.level).status = .canceling ∧
    (w.om.slot op.side op.level).orderId = some op.clientOrderId ∧ op ∉ w.taken ∧ op ∉ w.unread

/-- A Cancel that the gate published is still unread. -/
def UnreadCancel (w : GateRun n) : Prop := ∃ op ∈ w.unread, op ∈ w.marked ∧ op ∉ w.taken

instance (w : GateRun n) : Decidable w.Lost := by unfold Lost; infer_instance

/-! ## Marks -/

variable {om : OrderManager n} {now : Instant} {w w' : GateRun n}

/-- Cancels keep a Canceling slot Canceling. -/
theorem markAll_canceling (ops : List (BatchOp n)) (hc : ∀ op ∈ ops, op.action = .cancel)
    {side : Side} {level : Fin n}
    (h : (om.slot side level).status = .canceling ∨ ∃ op ∈ ops, op.key = (side, level)) :
    ((om.markAll now ops).slot side level).status = .canceling := by
  induction ops generalizing om with
  | nil =>
    rcases h with h | ⟨op, hop, -⟩
    · exact h
    · cases hop
  | cons op ops ih =>
    have hop : op.action = .cancel := hc op List.mem_cons_self
    rw [OrderManager.markAll_cons]
    apply ih fun o ho => hc o (List.mem_cons_of_mem _ ho)
    by_cases hk : side = op.side ∧ level = op.level
    · left
      rw [hk.1, hk.2]
      simp [OrderManager.markPending, hop]
    · have hslot : (om.markPending now op).slot side level = om.slot side level :=
        OrderManager.slot_setSlot_ne _ hk
      rw [hslot]
      rcases h with h | ⟨o, ho, hko⟩
      · exact .inl h
      · rcases List.mem_cons.mp ho with rfl | ho
        · exact absurd ⟨(congrArg Prod.fst hko).symm, (congrArg Prod.snd hko).symm⟩ hk
        · exact .inr ⟨o, ho, hko⟩

/-- What the gate has marked: Canceling slots that track the orders of the Cancels. -/
def Marked (w : GateRun n) : Prop :=
  ∀ op ∈ w.marked, (w.om.slot op.side op.level).status = .canceling ∧
    (w.om.slot op.side op.level).orderId = some op.clientOrderId

theorem marked_step {a : GateAct} (h : w.Marked) (hst : w.step a = some w') : w'.Marked := by
  cases a with
  | tick now =>
    cases hst
    have hcancel : ∀ op ∈ w.om.collectCancelOps, op.action = .cancel := fun op hop =>
      (OrderManager.collectCancelOps_fits hop).1
    have hid : ∀ side level, ((w.om.gateCycle now).1.slot side level).orderId =
        (w.om.slot side level).orderId := by
      intro side level
      refine OrderManager.markAll_orderId _ fun op hop hc => ?_
      rw [hcancel op hop] at hc
      cases hc
    intro op hop
    rcases List.mem_append.mp hop with hop | hop
    · refine ⟨markAll_canceling _ hcancel (.inl (h op hop).1), ?_⟩
      rw [hid]
      exact (h op hop).2
    · refine ⟨markAll_canceling _ hcancel (.inr ⟨op, hop, rfl⟩), ?_⟩
      rw [hid]
      refine ((OrderManager.collectCancelOps_fits hop).2.tracked ?_).1
      rw [hcancel op hop]
      decide
  | wake =>
    obtain ⟨ops, -, rfl⟩ := Option.map_eq_some_iff.mp hst
    exact h

/-- The gate makes no second Cancel for a slot it has marked. -/
theorem marked_not_collected {op : BatchOp n} (h : w.Marked) (hop : op ∈ w.marked) :
    op ∉ w.om.collectCancelOps := by
  intro hc
  have := (OrderManager.cancelFor_eq_some.mp (OrderManager.mem_collectCancelOps.mp hc)).1
  exact this (h op hop).1

/-! ## Losing a Cancel -/

/-- A lost Cancel stays lost. -/
theorem lost_step {a : GateAct} (h : w.Marked) (hl : w.Lost) (hst : w.step a = some w') : w'.Lost := by
  obtain ⟨op, hop, -, -, htaken, hunread⟩ := hl
  have hm' := marked_step h hst
  cases a with
  | tick now =>
    cases hst
    have hop' : op ∈ w.marked ++ (w.om.gateCycle now).2 := List.mem_append_left _ hop
    exact ⟨op, hop', (hm' op hop').1, (hm' op hop').2, htaken, marked_not_collected h hop⟩
  | wake =>
    obtain ⟨ops, hp, rfl⟩ := Option.map_eq_some_iff.mp hst
    refine ⟨op, hop, (hm' op hop).1, (hm' op hop).2, ?_, ?_⟩
    · rw [List.mem_append]
      rintro (ht | ht)
      · exact htaken ht
      · exact hunread (by unfold unread; rw [hp]; exact ht)
    · simp [unread]

/-- **A Cancel is lost exactly at a gated tick that finds it unread.** -/
theorem lost_step_iff {a : GateAct} (h : w.Marked) (hl : ¬ w.Lost) (hst : w.step a = some w') :
    w'.Lost ↔ (∃ now, a = .tick now) ∧ w.UnreadCancel := by
  have hkept : ∀ op ∈ w.marked, op ∉ w.taken → op ∈ w.unread := by
    intro op hop ht
    by_contra hu
    exact hl ⟨op, hop, (h op hop).1, (h op hop).2, ht, hu⟩
  have hm' := marked_step h hst
  cases a with
  | tick now =>
    cases hst
    constructor
    · rintro ⟨op, hop, -, -, ht, hu⟩
      refine ⟨⟨now, rfl⟩, op, ?_⟩
      rcases List.mem_append.mp hop with hop | hop
      · exact ⟨hkept op hop ht, hop, ht⟩
      · exact absurd hop hu
    · rintro ⟨-, op, -, hop, ht⟩
      have hop' : op ∈ w.marked ++ (w.om.gateCycle now).2 := List.mem_append_left _ hop
      exact ⟨op, hop', (hm' op hop').1, (hm' op hop').2, ht, marked_not_collected h hop⟩
  | wake =>
    obtain ⟨ops, hp, rfl⟩ := Option.map_eq_some_iff.mp hst
    constructor
    · rintro ⟨op, hop, -, -, ht, -⟩
      rw [List.mem_append, not_or] at ht
      have := hkept op hop ht.1
      unfold unread at this
      rw [hp] at this
      exact absurd this ht.2
    · rintro ⟨⟨now, hnow⟩, -⟩
      cases hnow

/-- **Gate cancels and the mailbox.** In a run of gated ticks and sender wake-ups, a Cancel marked by
the gate is lost if and only if some tick of the run found a Cancel of the gate still unread. -/
theorem gate_cancel_lost_iff {mailbox : Watch (List (BatchOp n))} {as : List GateAct}
    (h : Trans.run step (start om mailbox) as = some w) :
    w.Lost ↔ ∃ pre now post t, as = pre ++ .tick now :: post ∧
      Trans.run step (start om mailbox) pre = some t ∧ t.UnreadCancel := by
  have hboth : w.Marked ∧ (w.Lost ↔ ∃ pre now post t, as = pre ++ .tick now :: post ∧
      Trans.run step (start om mailbox) pre = some t ∧ t.UnreadCancel) := by
    refine Trans.run_history (P := fun as w => w.Marked ∧ (w.Lost ↔ ∃ pre now post t,
        as = pre ++ .tick now :: post ∧ Trans.run step (start om mailbox) pre = some t ∧
        t.UnreadCancel)) ?_
      (fun as s a s' hrun ⟨hm, hiff⟩ hst => ⟨marked_step hm hst, ?_⟩) h
    · refine ⟨fun op hop => absurd hop List.not_mem_nil, ?_, ?_⟩
      · rintro ⟨op, hop, -⟩
        cases hop
      · rintro ⟨pre, now, post, t, has, -⟩
        simp at has
    · constructor
      · intro hl'
        by_cases hl : s.Lost
        · obtain ⟨pre, now, post, t, rfl, hpre, hu⟩ := hiff.mp hl
          exact ⟨pre, now, post ++ [a], t, by simp, hpre, hu⟩
        · obtain ⟨⟨now, rfl⟩, hu⟩ := (lost_step_iff hm hl hst).mp hl'
          exact ⟨as, now, [], s, rfl, hrun, hu⟩
      · rintro ⟨pre, now, post, t, has, hpre, hu⟩
        by_cases hl : s.Lost
        · exact lost_step hm hl hst
        · apply (lost_step_iff hm hl hst).mpr
          -- The tick is the last action, since no earlier one has lost a Cancel.
          rcases List.eq_nil_or_concat post with rfl | ⟨post, b, rfl⟩
          · obtain ⟨rfl, ha⟩ := List.append_inj' has rfl
            rw [hrun] at hpre
            cases hpre
            exact ⟨⟨now, by simpa using ha⟩, hu⟩
          · exfalso
            have has' : as ++ [a] = (pre ++ .tick now :: post) ++ [b] := by simpa using has
            obtain ⟨rfl, -⟩ := List.append_inj' has' rfl
            exact hl (hiff.mpr ⟨pre, now, post, t, rfl, hpre, hu⟩)
  exact hboth.2

/-- A market with one level whose bid rests: order `5`, exchange id `9`. -/
def restingBid : OrderManager 1 :=
  (OrderManager.new 1 (1 / 100) 0).applyEvent 0 (.bindLive .buy 0 5 (some 9) 100 1)

theorem gate_cancel_lost_iff_two_ticks :
    ∃ w : GateRun 1, Trans.run step (start restingBid (.init [])) [.tick 1, .wake, .tick 2] = some w ∧
      (w.Lost ↔ ∃ pre now post t, [GateAct.tick 1, .wake, .tick 2] = pre ++ .tick now :: post ∧
        Trans.run step (start restingBid (.init [])) pre = some t ∧ t.UnreadCancel) :=
  ⟨_, rfl, gate_cancel_lost_iff rfl⟩

/-- **Two gated ticks in a row lose the Cancel** that the first one published. -/
theorem gate_cancel_lost_two_ticks :
    ¬ ∀ (om : OrderManager 1) (mailbox : Watch (List (BatchOp 1))) (as : List GateAct) (w : GateRun 1),
      Trans.run step (start om mailbox) as = some w → ¬ w.Lost := by
  intro h
  have hlost : ∃ w : GateRun 1,
      Trans.run step (start restingBid (.init [])) [.tick 1, .tick 2] = some w ∧ w.Lost :=
    ⟨_, rfl, by decide +kernel⟩
  obtain ⟨w, hw, hl⟩ := hlost
  exact h _ _ _ w hw hl

end GateRun

end LighterMM
