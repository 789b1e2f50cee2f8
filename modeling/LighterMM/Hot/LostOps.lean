import LighterMM.Hot.Occupancy
import LighterMM.Hot.Requotes

/-!
# Marked, but never sent (`maybe_quote` of `orchestrator.rs`, live mode)

A cycle marks the slots of its ops and then publishes the batch. The mailbox keeps the newest batch only,
and a slot that is marked gets its next op when the ladder moves away from it, if at all. So a batch
without an op for a slot throws away the op of that slot that the sender has not taken.

`MarkedRun` is the hot task with its mailbox and the op behind the mark of each slot, in any interleaving of
messages with the wake-ups of the sender. `marked_ops_sent_iff` says which runs lose no op.
-/

namespace LighterMM

variable {n : ℕ}

namespace OrderManager

variable {om : OrderManager n} {side : Side} {level : Fin n} {now : Instant}

/-! ## What an exit leaves out -/

/-- The exit publishes a batch, and it has no op for the slot. -/
inductive Skips (om : OrderManager n) (side : Side) (level : Fin n) : Decision n → Prop
  | gated : (∀ cid eid, ¬om.Cancelable side level cid eid) → Skips om side level .gated
  | flat : Skips om side level .flat
  | ladder {levels : List Level} {args : CollectArgs} :
      (∃ k ∈ levelTargets n levels, om.Requotes args k.1 k.2.1 k.2.2) →
      (∀ price, (side, level, price) ∈ levelTargets n levels → ¬om.Requotes args side level price) →
      Skips om side level (.ladder levels args)

/-- **The slots that a published batch leaves out.** -/
theorem cycle_skips {d : Decision n} :
    om.Skips side level d ↔ ∃ ops, (om.cycle now d).2 = some ops ∧ ∀ op ∈ ops, op.key ≠ (side, level) := by
  cases d with
  | throttled =>
    constructor
    · intro h
      cases h
    · rintro ⟨ops, h, -⟩
      cases h
  | flat => exact iff_of_true .flat ⟨[], rfl, fun op hop => by cases hop⟩
  | gated =>
    constructor
    · intro h
      cases h with
      | gated hno =>
        refine ⟨om.collectCancelOps, rfl, fun op hop hkey => ?_⟩
        obtain ⟨hst, cid, eid, hcid, heid, -⟩ := cancelFor_eq_some.mp (mem_collectCancelOps.mp hop)
        cases hkey
        exact hno cid eid ⟨hst, hcid, heid⟩
    · rintro ⟨ops, hops, hno⟩
      cases hops
      exact .gated fun cid eid hc => hno _ hc.mem_collectCancelOps rfl
  | ladder levels args =>
    have hslot : (∃ op ∈ (om.collectOrderOperations levels args).2, op.key = (side, level)) ↔
        ∃ price, (side, level, price) ∈ levelTargets n levels ∧ om.Requotes args side level price :=
      collectLoop_addresses _
    have hany : (om.collectOrderOperations levels args).2 ≠ [] ↔
        ∃ k ∈ levelTargets n levels, om.Requotes args k.1 k.2.1 k.2.2 := by
      constructor
      · intro hne
        obtain ⟨op, hop⟩ := List.exists_mem_of_ne_nil _ hne
        have hat : ∃ op' ∈ (om.collectOrderOperations levels args).2, op'.key = (op.side, op.level) := ⟨op, hop, rfl⟩
        obtain ⟨price, hmem, hq⟩ := (collectLoop_addresses _).mp hat
        exact ⟨(op.side, op.level, price), hmem, hq⟩
      · rintro ⟨⟨sd, l, price⟩, hmem, hq⟩
        obtain ⟨op, hop, -⟩ := (collectLoop_addresses _).mpr ⟨price, hmem, hq⟩
        exact List.ne_nil_of_mem hop
    have hcycle : (om.cycle now (.ladder levels args)).2 =
        if (om.collectOrderOperations levels args).2 = [] then none
        else some (om.collectOrderOperations levels args).2 := rfl
    rw [hcycle]
    constructor
    · intro h
      cases h with
      | ladder hq hno =>
        rw [if_neg (hany.mpr hq)]
        refine ⟨_, rfl, fun op hop hkey => ?_⟩
        obtain ⟨price, hmem, hq⟩ := hslot.mp ⟨op, hop, hkey⟩
        exact hno price hmem hq
    · rintro ⟨ops, hops, hno⟩
      split at hops
      · cases hops
      · rename_i hne
        cases hops
        refine .ladder (hany.mp hne) fun price hmem hq => ?_
        obtain ⟨op, hop, hkey⟩ := hslot.mpr ⟨price, hmem, hq⟩
        exact hno op hop hkey

/-- The status of a slot marked for an op. -/
def pendingStatus : OrderAction → SideStatus
  | .create => .placing
  | .modify => .modifying
  | .cancel => .canceling

/-- A batch with one op for each slot marks the slots with the actions of their ops. -/
theorem markAll_status {ops : List (BatchOp n)} (hnd : (ops.map BatchOp.key).Nodup) {op : BatchOp n}
    (hop : op ∈ ops) : ((om.markAll now ops).slot op.side op.level).status = pendingStatus op.action := by
  induction ops generalizing om with
  | nil => cases hop
  | cons o ops ih =>
    rw [List.map_cons, List.nodup_cons] at hnd
    rw [markAll_cons]
    rcases List.mem_cons.mp hop with rfl | hop
    · have hrest : ∀ o ∈ ops, o.key ≠ op.key := fun o ho hk => hnd.1 (hk ▸ List.mem_map_of_mem ho)
      rw [show ((om.markPending now op).markAll now ops).slot op.side op.level =
        (om.markPending now op).slot op.side op.level from markAll_slot_ne (k := op.key) hrest]
      unfold markPending
      rw [slot_setSlot_self]
      cases op.action <;> rfl
    · exact ih hnd.2 hop

theorem cycle_status {d : Decision n} {op : BatchOp n} (h : op ∈ om.emitted now d) :
    ((om.cycle now d).1.slot op.side op.level).status = pendingStatus op.action := by
  obtain ⟨-, -, om', -, hcycle⟩ := cycle_emitted om now d
  rw [hcycle]
  exact markAll_status (emitted_nodup om now d) h

theorem cycle_slot_ne {d : Decision n} (h : ∀ op ∈ om.emitted now d, op.key ≠ (side, level)) :
    (om.cycle now d).1.slot side level = om.slot side level := by
  obtain ⟨-, -, om', hslots, hcycle⟩ := cycle_emitted om now d
  rw [hcycle]
  refine (markAll_slot_ne (k := (side, level)) h).trans ?_
  unfold slot
  rw [hslots]

end OrderManager

/-! ## Messages and wake-ups -/

/-- An op that the hot task has emitted for a slot. -/
structure Mark (n : ℕ) where
  op : BatchOp n
  /-- The sender has taken its batch. -/
  taken : Bool

/-- The sender takes a batch. -/
def Mark.take (ops : List (BatchOp n)) (m : Mark n) : Mark n := { m with taken := m.taken || ops.contains m.op }

/-- A slot but for its miss counter: a snapshot that counts a miss leaves the order of the slot. -/
def OrderSlot.order (s : OrderSlot) : OrderSlot := { s with miss := 0 }

/-- The message makes the task publish a batch without an op for the slot, and neither its events nor its
snapshot touch the slot. -/
inductive HotTask.Bypasses (sqrt : ℚ → ℚ) (cfg : HotConfig n) (t : HotTask n) (msg : OrderBookMsg) (r : Reads n)
    (side : Side) (level : Fin n) : Prop
  | resnapshot : HotEffect.notifyReconnect ∈ (t.receive sqrt cfg msg r).2.1 →
      Bypasses sqrt cfg t msg r side level
  | quote {q : HotTask n × List (HotEffect n) × Bool} : t.receive sqrt cfg msg r = q → q.2.2 = true →
      ((q.1.drainedOm r).slot side level).order = (t.om.slot side level).order →
      (q.1.drainedOm r).Skips side level (q.1.chooseExit cfg r).2.2 → Bypasses sqrt cfg t msg r side level

/-- The hot task, its mailbox, and for each slot the op that it was marked for, as long as no event and
no snapshot has touched it. -/
structure MarkedRun (n : ℕ) where
  task : HotTask n
  mailbox : Watch (List (BatchOp n))
  marks : Side → Fin n → Option (Mark n)

inductive MarkedAct (n : ℕ) where
  | input (a : HotInput n)
  /-- The sender takes the batch in the mailbox. -/
  | wake

namespace MarkedRun

/-- The marks of the slots that the drain of a cycle leaves. -/
def untouched (om om' : OrderManager n) (marks : Side → Fin n → Option (Mark n)) (side : Side)
    (level : Fin n) : Option (Mark n) :=
  if (om'.slot side level).order = (om.slot side level).order then marks side level else none

/-- The marks after a batch. -/
def mark (ops : List (BatchOp n)) (marks : Side → Fin n → Option (Mark n)) (side : Side) (level : Fin n) :
    Option (Mark n) :=
  match ops.find? fun op => op.key = (side, level) with
  | some op => some ⟨op, false⟩
  | none => marks side level

def start (sqrt : ℚ → ℚ) (cfg : HotConfig n) (now : Instant) : MarkedRun n :=
  ⟨.new sqrt cfg now, .init [], fun _ _ => none⟩

/-- A message of the order-book stream. -/
def message (sqrt : ℚ → ℚ) (cfg : HotConfig n) (w : MarkedRun n) (msg : OrderBookMsg) (r : Reads n) :
    MarkedRun n :=
  let q := w.task.receive sqrt cfg msg r
  let res := w.task.onOrderbook sqrt cfg msg r
  let batches := HotTask.published res.2
  let marks := if q.2.2 then untouched q.1.om (q.1.drainedOm r) w.marks else w.marks
  ⟨res.1, batches.foldl Watch.send w.mailbox, mark batches.flatten marks⟩

def step (sqrt : ℚ → ℚ) (cfg : HotConfig n) (w : MarkedRun n) : MarkedAct n → Option (MarkedRun n)
  | .input (.orderBook msg r) => some (w.message sqrt cfg msg r)
  | .input a => (w.task.step sqrt cfg a).map fun task => { w with task }
  | .wake => w.mailbox.pending.map fun ops =>
    { w with mailbox := w.mailbox.markSeen
             marks := fun side level => (w.marks side level).map (Mark.take ops) }

/-- The batch that the sender has not seen. -/
def unread (w : MarkedRun n) : List (BatchOp n) := w.mailbox.pending.getD []

/-- Each slot that is Placing or Modifying because of an op of the hot task, untouched since: the op is in
the mailbox, or the sender has taken it. -/
def Sent (w : MarkedRun n) : Prop :=
  ∀ side level m, w.marks side level = some m →
    (w.task.om.slot side level).status = .placing ∨ (w.task.om.slot side level).status = .modifying →
    m.op ∈ w.unread ∨ m.taken = true

/-- A Create or a Modify that the sender has not taken, for a slot that nothing has touched since. -/
def Waits (w : MarkedRun n) (side : Side) (level : Fin n) : Prop :=
  ∃ m, w.marks side level = some m ∧ m.op.action ≠ .cancel ∧ m.taken = false

/-- A message that overwrites an op in the mailbox. -/
def Overwrites (sqrt : ℚ → ℚ) (cfg : HotConfig n) (w : MarkedRun n) (a : MarkedAct n) : Prop :=
  ∃ msg r side level, a = .input (.orderBook msg r) ∧ w.Waits side level ∧
    w.task.Bypasses sqrt cfg msg r side level

variable {sqrt : ℚ → ℚ} {cfg : HotConfig n} {w w' : MarkedRun n} {side : Side} {level : Fin n} {m : Mark n}

/-- A mark is for its slot, and the slot has its status. -/
def Inv (w : MarkedRun n) : Prop :=
  ∀ side level m, w.marks side level = some m → m.op.key = (side, level) ∧
    (w.task.om.slot side level).status = OrderManager.pendingStatus m.op.action

/-! ## Marks -/

theorem untouched_eq_some {om om' : OrderManager n} {marks : Side → Fin n → Option (Mark n)} :
    untouched om om' marks side level = some m ↔
      (om'.slot side level).order = (om.slot side level).order ∧ marks side level = some m := by
  unfold untouched
  split <;> rename_i h <;> simp [h]

theorem mark_skip {ops : List (BatchOp n)} {marks : Side → Fin n → Option (Mark n)}
    (h : ∀ op ∈ ops, op.key ≠ (side, level)) : mark ops marks side level = marks side level := by
  unfold mark
  rw [List.find?_eq_none.mpr fun op hop => by simpa using h op hop]

/-- A mark is fresh, or the batch has no op for the slot. -/
theorem mark_cases {ops : List (BatchOp n)} {marks : Side → Fin n → Option (Mark n)}
    (h : mark ops marks side level = some m) :
    (m.op ∈ ops ∧ m.op.key = (side, level) ∧ m.taken = false) ∨
      (∀ op ∈ ops, op.key ≠ (side, level)) ∧ marks side level = some m := by
  unfold mark at h
  split at h
  · rename_i op hfind
    cases h
    have hkey := List.find?_some hfind
    exact .inl ⟨List.mem_of_find?_eq_some hfind, of_decide_eq_true hkey, rfl⟩
  · rename_i hnone
    exact .inr ⟨fun op hop => by simpa using List.find?_eq_none.mp hnone op hop, h⟩

/-- What is in the mailbox after at most one batch. -/
theorem unread_send {mailbox : Watch (List (BatchOp n))} {batch : Option (List (BatchOp n))} :
    ((batch.toList.foldl Watch.send mailbox).pending.getD []) = batch.getD (mailbox.pending.getD []) := by
  cases batch <;> rfl

/-- What a message does in live mode: the marks and the mailbox after a cycle, or a resnapshot. -/
inductive Outcome (sqrt : ℚ → ℚ) (cfg : HotConfig n) (w : MarkedRun n) (msg : OrderBookMsg) (r : Reads n)
    (q : HotTask n × List (HotEffect n) × Bool) (w' : MarkedRun n) : Prop
  | quoted {batch : Option (List (BatchOp n))} : q.2.2 = true → HotEffect.notifyReconnect ∉ q.2.1 →
      batch = ((q.1.drainedOm r).cycle r.now (q.1.chooseExit cfg r).2.2).2 →
      w'.task.om = ((q.1.drainedOm r).cycle r.now (q.1.chooseExit cfg r).2.2).1 →
      w'.unread = batch.getD w.unread →
      w'.marks = mark (batch.getD []) (untouched w.task.om (q.1.drainedOm r) w.marks) →
      Outcome sqrt cfg w msg r q w'
  | quiet : q.2.2 = false → w'.task.om = w.task.om → w'.marks = w.marks →
      w'.unread = (if HotEffect.notifyReconnect ∈ q.2.1 then [] else w.unread) →
      Outcome sqrt cfg w msg r q w'

theorem message_outcome (hlive : cfg.mode = .live) (msg : OrderBookMsg) (r : Reads n) :
    Outcome sqrt cfg w msg r (w.task.receive sqrt cfg msg r) (w.message sqrt cfg msg r) := by
  have hframe : HotTask.ReceiveFrame w.task (w.task.receive sqrt cfg msg r) := HotTask.receive_frame sqrt msg
  rcases HotTask.onOrderbook_published (t := w.task) (r := r) sqrt hlive msg with ⟨hq, hpub⟩ | ⟨hq, hpub⟩
  · refine .quoted hq (hframe.quotes hq).2 rfl ?_ ?_ ?_
    · unfold message HotTask.onOrderbook
      simp only [hq, if_true]
      exact (HotTask.maybeQuote_live hlive).1
    · show ((HotTask.published (w.task.onOrderbook sqrt cfg msg r).2).foldl Watch.send w.mailbox).pending.getD [] = _
      rw [hpub]
      exact unread_send
    · unfold message
      simp only [hpub, hq, if_true, hframe.om]
      congr 1
      cases ((w.task.receive sqrt cfg msg r).1.drainedOm r).cycle r.now
        ((w.task.receive sqrt cfg msg r).1.chooseExit cfg r).2.2 |>.2 <;> simp
  · refine .quiet hq ?_ ?_ ?_
    · unfold message HotTask.onOrderbook
      simp only [hq, Bool.false_eq_true, if_false]
      exact hframe.om
    · unfold message
      simp only [hpub, hq, Bool.false_eq_true, if_false]
      split <;> rfl
    · show ((HotTask.published (w.task.onOrderbook sqrt cfg msg r).2).foldl Watch.send w.mailbox).pending.getD [] = _
      rw [hpub]
      split <;> rfl

/-- A step is a message, a batch that the sender takes, or an input that leaves the slots. -/
theorem step_cases {a : MarkedAct n} (hst : w.step sqrt cfg a = some w') :
    (∃ msg r, a = .input (.orderBook msg r) ∧ w' = w.message sqrt cfg msg r) ∨
    (∃ ops, w.mailbox.pending = some ops ∧
      w' = { w with mailbox := w.mailbox.markSeen
                    marks := fun side level => (w.marks side level).map (Mark.take ops) }) ∨
    ∃ task : HotTask n, task.om = w.task.om ∧ w' = { w with task } := by
  cases a with
  | wake =>
    obtain ⟨ops, hpend, rfl⟩ := Option.map_eq_some_iff.mp hst
    exact .inr (.inl ⟨ops, hpend, rfl⟩)
  | input a =>
    cases a with
    | orderBook msg r =>
      cases hst
      exact .inl ⟨msg, r, rfl, rfl⟩
    | ticker bestBid bestAsk now =>
      cases hst
      refine .inr (.inr ⟨w.task.onTicker bestBid bestAsk now, ?_, rfl⟩)
      unfold HotTask.onTicker
      split
      · split <;> rfl
      · rfl
    | disconnect =>
      cases hst
      exact .inr (.inr ⟨w.task.onDisconnect, rfl, rfl⟩)

theorem start_inv {now : Instant} : (start sqrt cfg now).Inv := by
  intro side level m hm
  cases hm

theorem start_sent {now : Instant} : (start sqrt cfg now).Sent := by
  intro side level m hm
  cases hm

theorem order_status {s s' : OrderSlot} (h : s'.order = s.order) : s'.status = s.status := by
  have hstatus : s'.order.status = s.order.status := congrArg OrderSlot.status h
  exact hstatus

/-- A mark after a message is one of the new batch, or one that the message leaves. Then the mailbox is
as before, or its batch is overwritten by one without an op for the slot. -/
theorem message_mark (hlive : cfg.mode = .live) {msg : OrderBookMsg} {r : Reads n}
    (hm : (w.message sqrt cfg msg r).marks side level = some m) :
    (m.op ∈ (w.message sqrt cfg msg r).unread ∧ m.op.key = (side, level) ∧
      ((w.message sqrt cfg msg r).task.om.slot side level).status =
        OrderManager.pendingStatus m.op.action) ∨
    (w.marks side level = some m ∧
      ((w.message sqrt cfg msg r).task.om.slot side level).status = (w.task.om.slot side level).status ∧
      ((w.message sqrt cfg msg r).unread = w.unread ∨ w.task.Bypasses sqrt cfg msg r side level)) := by
  have hout : Outcome sqrt cfg w msg r (w.task.receive sqrt cfg msg r) (w.message sqrt cfg msg r) :=
    message_outcome hlive msg r
  cases hout with
  | @quoted batch hq _ hbatch hom hunread hmarks =>
    rw [hmarks] at hm
    rw [hom, hunread]
    rcases mark_cases hm with ⟨hop, hkey, -⟩ | ⟨hskip, hm⟩
    · left
      cases hkey
      cases hb : batch with
      | none =>
        rw [hb] at hop
        cases hop
      | some ops =>
        rw [hb] at hop
        refine ⟨hop, rfl, OrderManager.cycle_status ?_⟩
        rw [OrderManager.emitted, ← hbatch, hb]
        exact hop
    · right
      obtain ⟨horder, hm⟩ := untouched_eq_some.mp hm
      refine ⟨hm, ?_, ?_⟩
      · rw [OrderManager.cycle_slot_ne (by rw [OrderManager.emitted, ← hbatch]; exact hskip)]
        exact order_status horder
      · cases hb : batch with
        | none => exact .inl rfl
        | some ops =>
          rw [hb] at hskip
          exact .inr (.quote rfl hq horder (OrderManager.cycle_skips.mpr ⟨ops, hbatch.symm.trans hb, hskip⟩))
  | quiet _ hom hmarks hunread =>
    rw [hmarks] at hm
    rw [hom, hunread]
    refine .inr ⟨hm, rfl, ?_⟩
    split
    · rename_i hreconnect
      exact .inr (.resnapshot hreconnect)
    · exact .inl rfl

/-- A message that bypasses a slot leaves its mark, and overwrites its op. -/
theorem message_bypasses (hlive : cfg.mode = .live) {msg : OrderBookMsg} {r : Reads n}
    (h : w.task.Bypasses sqrt cfg msg r side level) (hm : w.marks side level = some m)
    (hkey : m.op.key = (side, level)) :
    (w.message sqrt cfg msg r).marks side level = some m ∧ m.op ∉ (w.message sqrt cfg msg r).unread ∧
      ((w.message sqrt cfg msg r).task.om.slot side level).status = (w.task.om.slot side level).status := by
  have hout : Outcome sqrt cfg w msg r (w.task.receive sqrt cfg msg r) (w.message sqrt cfg msg r) :=
    message_outcome hlive msg r
  cases h with
  | resnapshot hreconnect =>
    cases hout with
    | quoted _ hno => exact absurd hreconnect hno
    | quiet _ hom hmarks hunread =>
      rw [hmarks, hunread, if_pos hreconnect, hom]
      exact ⟨hm, List.not_mem_nil, rfl⟩
  | quote hrec hq horder hskips =>
    subst hrec
    cases hout with
    | quiet hq' => exact absurd (hq'.symm.trans hq) Bool.false_ne_true
    | @quoted batch _ _ hbatch hom hunread hmarks =>
      have hpub : ∃ ops, (OrderManager.cycle _ r.now _).2 = some ops ∧ ∀ op ∈ ops, op.key ≠ (_, _) :=
        OrderManager.cycle_skips.mp hskips
      obtain ⟨ops, hops, hskip⟩ := hpub
      have hb : batch = some ops := hbatch.trans hops
      rw [hb] at hunread hmarks
      rw [hmarks, hunread, hom]
      refine ⟨?_, fun hmem => hskip _ hmem hkey, ?_⟩
      · rw [Option.getD_some, mark_skip hskip]
        exact untouched_eq_some.mpr ⟨horder, hm⟩
      · rw [OrderManager.cycle_slot_ne (by rw [OrderManager.emitted, hops]; exact hskip)]
        exact order_status horder

theorem Inv.step {a : MarkedAct n} (hlive : cfg.mode = .live) (h : w.Inv)
    (hst : w.step sqrt cfg a = some w') : w'.Inv := by
  intro side level m hm
  rcases step_cases hst with ⟨msg, r, -, rfl⟩ | ⟨ops, -, rfl⟩ | ⟨task, hom, rfl⟩
  · rcases message_mark hlive hm with ⟨-, hkey, hstatus⟩ | ⟨hm₀, hstatus, -⟩
    · exact ⟨hkey, hstatus⟩
    · rw [hstatus]
      exact h side level m hm₀
  · obtain ⟨m₀, hm₀, rfl⟩ := Option.map_eq_some_iff.mp hm
    exact h side level m₀ hm₀
  · rw [hom]
    exact h side level m hm

/-- The slot of a Create or a Modify is Placing or Modifying. -/
theorem Inv.pending_iff (h : w.Inv) (hm : w.marks side level = some m) :
    ((w.task.om.slot side level).status = .placing ∨ (w.task.om.slot side level).status = .modifying) ↔
      m.op.action ≠ .cancel := by
  rw [(h side level m hm).2]
  cases m.op.action <;> simp [OrderManager.pendingStatus]

/-- An op that is neither taken nor in the mailbox was overwritten. -/
theorem Sent.step {a : MarkedAct n} (hlive : cfg.mode = .live) (h : w.Inv) (hs : w.Sent)
    (hst : w.step sqrt cfg a = some w') (hno : ¬w.Overwrites sqrt cfg a) : w'.Sent := by
  intro side level m hm hstatus
  have haction : m.op.action ≠ .cancel := ((h.step hlive hst).pending_iff hm).mp hstatus
  rcases step_cases hst with ⟨msg, r, ha, rfl⟩ | ⟨ops, hpend, rfl⟩ | ⟨task, hom, rfl⟩
  · rcases message_mark hlive hm with ⟨hop, -⟩ | ⟨hm₀, -, hkept⟩
    · exact .inl hop
    · rcases hs side level m hm₀ ((h.pending_iff hm₀).mpr haction) with hmem | ht
      · rcases hkept with hkept | hbypass
        · exact .inl (hkept ▸ hmem)
        · right
          by_contra ht
          exact hno ⟨msg, r, side, level, ha, ⟨m, hm₀, haction, Bool.not_eq_true _ ▸ ht⟩, hbypass⟩
      · exact .inr ht
  · obtain ⟨m₀, hm₀, rfl⟩ := Option.map_eq_some_iff.mp hm
    right
    show (m₀.taken || ops.contains m₀.op) = true
    rcases hs side level m₀ hm₀ hstatus with hmem | ht
    · have hops : m₀.op ∈ ops := by
        rw [unread, hpend] at hmem
        exact hmem
      rw [List.contains_iff_mem.mpr hops, Bool.or_true]
    · rw [ht, Bool.true_or]
  · exact hs side level m hm (hom ▸ hstatus)

/-- An overwritten op is lost. -/
theorem not_sent_of_overwrites {a : MarkedAct n} (hlive : cfg.mode = .live) (h : w.Inv)
    (hst : w.step sqrt cfg a = some w') (hover : w.Overwrites sqrt cfg a) : ¬w'.Sent := by
  obtain ⟨msg, r, side, level, rfl, ⟨m, hm, haction, htaken⟩, hbypass⟩ := hover
  cases hst
  intro hs'
  obtain ⟨hm', hunread, hsame⟩ := message_bypasses hlive hbypass hm (h side level m hm).1
  rcases hs' side level m hm' (by rw [hsame]; exact (h.pending_iff hm).mpr haction) with hmem | ht
  · exact hunread hmem
  · rw [ht] at htaken
    cases htaken

/-- **Marked ops and the mailbox.** In a run of messages and wake-ups in live mode, every slot that an op of
the hot task left Placing or Modifying has that op in the mailbox or with the sender, at all times, if
and only if no message of the run overwrites an op that waits in the mailbox. -/
theorem marked_ops_sent_iff (cfg : HotConfig n) (now : Instant) (as : List (MarkedAct n)) (w : MarkedRun n)
    (hlive : cfg.mode = .live) (h : Trans.run (step sqrt cfg) (start sqrt cfg now) as = some w) :
    (∀ t, Trans.Visits (step sqrt cfg) (start sqrt cfg now) as t → t.Sent) ↔
      ∀ t a, Trans.Takes (step sqrt cfg) (start sqrt cfg now) as t a → ¬t.Overwrites sqrt cfg a := by
  have hiff := Trans.run_good_iff (I := Inv) (B := fun w => ¬w.Sent) (T := Overwrites sqrt cfg)
    start_inv (not_not.mpr start_sent) (fun s a s' hs hst => hs.step hlive hst) ?_ h
  · simpa only [not_not] using hiff
  · intro s a s' hinv hs hst
    rw [not_not] at hs
    constructor
    · intro hlost
      by_contra hno
      exact hlost (hs.step hlive hinv hst hno)
    · exact not_sent_of_overwrites hlive hinv hst

/-- A message with the snapshot of a flat account at second `now`. -/
def bookAt (now : ℕ) : MarkedAct 1 := .input (.orderBook HotTask.bookSnapshot (HotTask.flatReads now []))

/-- A ladder is created, the sender takes it, and the engine warms up again. -/
def takenLadder : List (MarkedAct 1) := [bookAt 1, bookAt 2, .wake, .input .disconnect, bookAt 3]

theorem marked_ops_sent_iff_taken :
    ∃ w, Trans.run (step id HotTask.quickConfig) (start id HotTask.quickConfig 0) takenLadder = some w ∧
      ((∀ t, Trans.Visits (step id HotTask.quickConfig) (start id HotTask.quickConfig 0) takenLadder t →
        t.Sent) ↔ ∀ t a, Trans.Takes (step id HotTask.quickConfig) (start id HotTask.quickConfig 0)
          takenLadder t a → ¬t.Overwrites id HotTask.quickConfig a) := by
  obtain ⟨w, hw, -⟩ := Option.map_eq_some_iff.mp
    (show (Trans.run (step id HotTask.quickConfig) (start id HotTask.quickConfig 0) takenLadder).map
      (fun w => w.mailbox.unseen) = some true by decide +kernel)
  exact ⟨w, hw, marked_ops_sent_iff HotTask.quickConfig 0 takenLadder w rfl hw⟩

/-- **A ladder is never sent**: its batch is still unread when the engine warms up again, and the flat exit
publishes an empty one. -/
theorem ladder_never_sent :
    ¬ ∀ w : MarkedRun 1, Trans.Reach (step id HotTask.quickConfig) (start id HotTask.quickConfig 0) w →
      w.Sent := by
  intro hall
  obtain ⟨w, hw, h⟩ := Option.map_eq_some_iff.mp
    (show (Trans.run (step id HotTask.quickConfig) (start id HotTask.quickConfig 0)
      [bookAt 1, bookAt 2, .input .disconnect, bookAt 3]).map (fun w =>
        decide (w.unread = [] ∧ (w.task.om.slot .buy 0).status = .placing ∧
          (w.marks .buy 0).map (·.taken) = some false)) = some true by decide +kernel)
  obtain ⟨hunread, hstatus, hmark⟩ := of_decide_eq_true h
  obtain ⟨m, hm, htaken⟩ := Option.map_eq_some_iff.mp hmark
  rcases hall w (Trans.reach_iff_run.mpr ⟨_, hw⟩) .buy 0 m hm (.inl hstatus) with hmem | ht
  · rw [hunread] at hmem
    cases hmem
  · rw [htaken] at ht
    cases ht

end MarkedRun

end LighterMM
