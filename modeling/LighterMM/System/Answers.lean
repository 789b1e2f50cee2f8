import LighterMM.System.Batches

/-!
# One answer for each Create (`run` and `send_once` of `exec/paced_send.rs`)

`Handled` is the live system next to what became of the batch that the sender took last: the events that
the sender has queued for it, and the result of the batch if it got that far.

On every way back to its mailbox the sender has answered the whole batch (`Progress`): it confirms the
ops of an accepted batch, answers nothing where the outcome is unknown, and clears the Creates in all
other cases. The ops of a batch are for different slots (`OpsDistinct`), so each Create has exactly
one answer (`creates_answered_once`).
-/

namespace LighterMM

variable {n : ℕ}

/-- A slot event for the slot and the order of an op. -/
def OrderEvent.answersOp (op : BatchOp n) : OrderEvent n → Bool
  | .bindLive side level cid _ _ _ => decide (side = op.side ∧ level = op.level ∧ cid = op.clientOrderId)
  | .clearLive side level cid => decide (side = op.side ∧ level = op.level ∧ cid = op.clientOrderId)
  | _ => false

/-- The events that a batch with an outcome is answered with; `none` if it was not handed to the
transport. -/
def answersFor (ops : List (BatchOp n)) : Option TxSendResult → List (OrderEvent n)
  | some (.ok _) => ops.map confirmEvent
  | some .unknown => []
  | _ => clearFailedCreates ops

/-- The answer to one Create. -/
def createAnswer (op : BatchOp n) : Option TxSendResult → List (OrderEvent n)
  | some (.ok _) => [.bindLive op.side op.level op.clientOrderId op.exchangeId op.price op.size]
  | some .unknown => []
  | _ => [.clearLive op.side op.level op.clientOrderId]

/-! ## The answers of a batch -/

/-- Events for ops with different slots: at most one of them answers an op. -/
theorem filter_answers {f : BatchOp n → OrderEvent n} {ops : List (BatchOp n)} {op : BatchOp n}
    (hnd : (ops.map BatchOp.key).Nodup) (hop : op ∈ ops)
    (hself : (f op).answersOp op = true) (hkey : ∀ o ∈ ops, (f o).answersOp op = true → o.key = op.key) :
    (ops.map f).filter (OrderEvent.answersOp op) = [f op] := by
  induction ops with
  | nil => cases hop
  | cons o ops ih =>
    rw [List.map_cons, List.nodup_cons] at hnd
    have hrest : ∀ o' ∈ ops, (f o').answersOp op = true → o'.key = op.key :=
      fun o' ho' => hkey o' (List.mem_cons_of_mem _ ho')
    rcases List.mem_cons.mp hop with rfl | hmem
    · rw [List.map_cons, List.filter_cons_of_pos hself, List.cons.injEq]
      refine ⟨rfl, List.filter_eq_nil_iff.mpr fun e he => ?_⟩
      obtain ⟨o', ho', rfl⟩ := List.mem_map.mp he
      exact fun hans => hnd.1 (hrest o' ho' hans ▸ List.mem_map_of_mem ho')
    · have hno : ¬ (f o).answersOp op = true := fun hans =>
        hnd.1 (hkey o List.mem_cons_self hans ▸ List.mem_map_of_mem hmem)
      rw [List.map_cons, List.filter_cons_of_neg hno]
      exact ih hnd.2 hmem hrest

theorem answersOp_key {e : OrderEvent n} {o op : BatchOp n}
    (he : e = confirmEvent o ∨ e = .clearLive o.side o.level o.clientOrderId) (h : e.answersOp op = true) :
    o.key = op.key := by
  have hclear : (OrderEvent.clearLive o.side o.level o.clientOrderId).answersOp op = true → o.key = op.key := by
    intro h
    obtain ⟨hside, hlevel, -⟩ := of_decide_eq_true h
    exact Prod.ext hside hlevel
  have hbind : (OrderEvent.bindLive o.side o.level o.clientOrderId o.exchangeId o.price o.size).answersOp op =
      true → o.key = op.key := by
    intro h
    obtain ⟨hside, hlevel, -⟩ := of_decide_eq_true h
    exact Prod.ext hside hlevel
  rcases he with rfl | rfl
  · unfold confirmEvent at h
    split at h
    · exact hclear h
    · exact hbind h
  · exact hclear h

/-- **A Create has one answer** among those of its batch. -/
theorem answersFor_create {ops : List (BatchOp n)} {op : BatchOp n} (hnd : (ops.map BatchOp.key).Nodup)
    (hop : op ∈ ops) (hc : op.action = .create) (outcome : Option TxSendResult) :
    (answersFor ops outcome).filter (OrderEvent.answersOp op) = createAnswer op outcome := by
  have hclear : (clearFailedCreates ops).filter (OrderEvent.answersOp op) =
      [.clearLive op.side op.level op.clientOrderId] := by
    refine filter_answers (f := fun op => .clearLive op.side op.level op.clientOrderId)
      (hnd.sublist (List.filter_sublist.map _)) (List.mem_filter.mpr ⟨hop, decide_eq_true hc⟩) ?_
      fun o _ h => answersOp_key (.inr rfl) h
    exact decide_eq_true ⟨rfl, rfl, rfl⟩
  have hconfirm : (ops.map confirmEvent).filter (OrderEvent.answersOp op) =
      [.bindLive op.side op.level op.clientOrderId op.exchangeId op.price op.size] := by
    have hself : confirmEvent op =
        .bindLive op.side op.level op.clientOrderId op.exchangeId op.price op.size := by
      unfold confirmEvent
      rw [hc]
    rw [← hself]
    refine filter_answers hnd hop ?_ fun o _ h => answersOp_key (.inl rfl) h
    rw [hself]
    exact decide_eq_true ⟨rfl, rfl, rfl⟩
  cases outcome with
  | none => exact hclear
  | some r =>
    cases r with
    | ok quota => exact hconfirm
    | unknown => rfl
    | rejected kind => exact hclear
    | notSent => exact hclear

/-- What a decided batch is answered with. -/
theorem owed_eq (batch : SignedBatch n) (r : TxSendResult) :
    (SenderPc.decided batch r).owed = answersFor batch.ops (some r) := by
  cases r with
  | ok quota => exact owed_ok batch quota
  | rejected kind => exact owed_failed batch (.inr ⟨kind, rfl⟩)
  | unknown => rfl
  | notSent => exact owed_failed batch (.inl rfl)

/-- The ops of a batch are for different slots. -/
def OpsDistinct (ops : List (BatchOp n)) : Prop := (ops.map BatchOp.key).Nodup

theorem opsDistinct_nil : OpsDistinct ([] : List (BatchOp n)) := List.nodup_nil

namespace World

variable {p : Params} {w w' : World n}

theorem step_distinct {a : Act n} (h : w.Batches OpsDistinct) (hst : w.step p a = some w') :
    w'.Batches OpsDistinct :=
  h.step opsDistinct_nil (fun d _ => OrderManager.emitted_nodup w.om w.clock d) hst

theorem shutdownStep_halt {a : ShutdownAct} (hst : w.shutdownStep a = some w') (h : w'.halt = false) :
    w.halt = false := by
  cases shutdownStep_cases hst with
  | halt => cases h
  | lock | abort | cancelAll | exit => exact h

end World

/-! ## The batch that the sender took last -/

/-- The live system and the batch that the sender took last: the events queued for it, and its result. -/
structure Handled (n : ℕ) where
  world : World n
  ops : List (BatchOp n)
  answers : List (OrderEvent n)
  outcome : Option TxSendResult

namespace Handled

def start (p : Params) (n : ℕ) : Handled n := ⟨.start p n, [], [], none⟩

/-- The result that a step of the sender brings. -/
def resultOf : SenderAct → Option TxSendResult
  | .notSent => some .notSent
  | .execute r _ => some r
  | _ => none

/-- A step of the live system. The events of a sender step are those that it adds to the queue. -/
def step (p : Params) (o : Handled n) (a : Act n) : Option (Handled n) :=
  (o.world.step p a).map fun w =>
    match a with
    | .sender .take =>
      ⟨w, o.world.mailbox.pending.getD [], w.events.drop o.world.events.length, none⟩
    | .sender b =>
      ⟨w, o.ops, o.answers ++ w.events.drop o.world.events.length, (resultOf b).or o.outcome⟩
    | _ => { o with world := w }

/-- What is answered when the sender is at `pc`. -/
def Progress (o : Handled n) : SenderPc n → Prop
  | .idle => o.answers = answersFor o.ops o.outcome
  | .gate ops | .waitLock ops | .signing ops => ops = o.ops ∧ o.answers = [] ∧ o.outcome = none
  | .signed batch | .written batch => batch.ops = o.ops ∧ o.answers = [] ∧ o.outcome = none
  | .decided batch r => batch.ops = o.ops ∧ o.answers = [] ∧ o.outcome = some r
  | .noted batch r | .settled batch r =>
    batch.ops = o.ops ∧ o.answers = SenderEffect.events (r.effects batch) ∧ o.outcome = some r
  | .dead => True

structure Inv (o : Handled n) : Prop where
  ops : OpsDistinct o.ops
  progress : o.world.halt = false → o.Progress o.world.sender

variable {p : Params} {o o' : Handled n}

theorem start_inv : (start p n).Inv := ⟨List.nodup_nil, fun _ => rfl⟩

/-- A step of another party. -/
theorem Inv.other {w : World n} (h : o.Inv) (hs : w.sender = o.world.sender)
    (hh : w.halt = false → o.world.halt = false) : Inv { o with world := w } := by
  refine ⟨h.ops, fun hhalt => ?_⟩
  have hp := h.progress (hh hhalt)
  show Progress _ w.sender
  rw [hs]
  cases hpc : o.world.sender <;> rw [hpc] at hp <;> exact hp

/-- The sender queues `new` for the batch. -/
theorem Inv.queued {w : World n} {outcome : Option TxSendResult} (new : List (OrderEvent n)) (h : o.Inv)
    (hev : w.events = o.world.events ++ new)
    (hp : w.halt = false → Progress ⟨w, o.ops, o.answers ++ new, outcome⟩ w.sender) :
    Inv ⟨w, o.ops, o.answers ++ w.events.drop o.world.events.length, outcome⟩ := by
  rw [hev, List.drop_left]
  exact ⟨h.ops, hp⟩

/-- The sender moves on without an event. -/
theorem Inv.quiet {w : World n} {outcome : Option TxSendResult} (h : o.Inv)
    (hev : w.events = o.world.events)
    (hp : w.halt = false → Progress ⟨w, o.ops, o.answers, outcome⟩ w.sender) :
    Inv ⟨w, o.ops, o.answers ++ w.events.drop o.world.events.length, outcome⟩ := by
  rw [hev, List.drop_length, List.append_nil]
  exact ⟨h.ops, hp⟩

/-- The batch is given up, and its Creates are cleared. -/
theorem Progress.givenUp {w : World n} {ops : List (BatchOp n)}
    (h : ops = o.ops ∧ o.answers = [] ∧ o.outcome = none) :
    Progress ⟨w, o.ops, o.answers ++ clearFailedCreates ops, o.outcome⟩ .idle := by
  obtain ⟨rfl, hans, hout⟩ := h
  show o.answers ++ _ = answersFor o.ops o.outcome
  rw [hans, hout]
  rfl

theorem take_inv (hd : o.world.Batches OpsDistinct) (hst : o.step p (.sender .take) = some o') : o'.Inv := by
  obtain ⟨w, hw, rfl⟩ := Option.map_eq_some_iff.mp hst
  change o.world.senderStep p .take = some w at hw
  have hdistinct : ∀ {ops : List (BatchOp n)}, o.world.mailbox.pending = some ops → OpsDistinct ops :=
    fun hpending => (Watch.pending_eq_some.mp hpending).2 ▸ hd.mailbox
  cases World.senderStep_cases hw with
  | @dropped ops hpc hpending hdrop =>
    simp only [hpending, Option.getD_some]
    refine ⟨hdistinct hpending, fun hhalt => ?_⟩
    have hnil : ops = [] := hdrop.resolve_right (by rw [show o.world.halt = false from hhalt]; decide)
    show Progress _ o.world.sender
    rw [hpc, hnil]
    show o.world.events.drop _ = []
    exact List.drop_length
  | @refused ops hpc hpending =>
    simp only [hpending, Option.getD_some]
    refine ⟨hdistinct hpending, fun _ => ?_⟩
    show Progress _ o.world.sender
    rw [hpc]
    show (o.world.events ++ clearFailedCreates ops).drop _ = clearFailedCreates ops
    exact List.drop_left
  | taken hpc hpending =>
    simp only [hpending, Option.getD_some]
    exact ⟨hdistinct hpending, fun _ => ⟨rfl, List.drop_length, rfl⟩⟩

theorem Inv.sender {b : SenderAct} (h : o.Inv) (hd : o.world.Batches OpsDistinct) (hst : o.step p (.sender b) = some o') : o'.Inv := by
  by_cases htake : b = .take
  · rw [htake] at hst
    exact take_inv hd hst
  obtain ⟨w, hw, ho⟩ := Option.map_eq_some_iff.mp hst
  change o.world.senderStep p b = some w at hw
  have hp := h.progress
  cases World.senderStep_cases hw with
  | dropped | refused | taken => exact absurd rfl htake
  | recover =>
    cases ho
    exact h.quiet rfl hp
  | passed hpc | locked hpc | write hpc | settle refreshes hpc =>
    cases ho
    rw [hpc] at hp
    exact h.quiet rfl hp
  | skipped hpc | halted hpc | unsigned hpc | signTaskDied reserved hpc =>
    cases ho
    rw [hpc] at hp
    exact h.queued _ rfl fun hhalt => Progress.givenUp (hp hhalt)
  | signed hpc hok =>
    cases ho
    rw [hpc] at hp
    exact h.quiet rfl fun hhalt => ⟨(signBatch_ok hok).2.trans (hp hhalt).1, (hp hhalt).2⟩
  | notSent hpc | execute consumed hpc =>
    cases ho
    rw [hpc] at hp
    exact h.quiet rfl fun hhalt => ⟨(hp hhalt).1, (hp hhalt).2.1, rfl⟩
  | note hpc =>
    cases ho
    rw [hpc] at hp
    refine h.queued _ rfl fun hhalt => ⟨(hp hhalt).1, ?_, (hp hhalt).2.2⟩
    show o.answers ++ _ = _
    rw [(hp hhalt).2.1, List.nil_append]
  | @finish attempts batch r hpc =>
    cases ho
    rw [hpc] at hp
    refine h.queued _ rfl fun hhalt => ?_
    obtain ⟨hops, hans, hout⟩ := hp hhalt
    show o.answers ++ _ = answersFor o.ops o.outcome
    rw [hans, hout, ← hops]
    exact owed_eq batch r
  | dieWritten | die =>
    cases ho
    exact h.quiet rfl fun _ => trivial

theorem Inv.step {a : Act n} (h : o.Inv) (hd : o.world.Batches OpsDistinct) (hst : o.step p a = some o') :
    o'.Inv := by
  cases a with
  | sender b => exact h.sender hd hst
  | hot b =>
    obtain ⟨w, hw, rfl⟩ := Option.map_eq_some_iff.mp hst
    have hf := World.hotStep_frame hw
    exact h.other hf.sender (hf.halt ▸ id)
  | poller b =>
    obtain ⟨w, hw, rfl⟩ := Option.map_eq_some_iff.mp hst
    have hf := World.pollerStep_frame hw
    exact h.other hf.sender (hf.halt ▸ id)
  | shutdown b =>
    obtain ⟨w, hw, rfl⟩ := Option.map_eq_some_iff.mp hst
    exact h.other (World.shutdownStep_frame hw).sender (World.shutdownStep_halt hw)
  | env b =>
    obtain ⟨w, hw, rfl⟩ := Option.map_eq_some_iff.mp hst
    have hf := World.envStep_frame hw
    exact h.other hf.sender (hf.halt ▸ id)

/-- A step of the pair is a step of the live system. -/
theorem step_world {a : Act n} (hst : o.step p a = some o') : o.world.step p a = some o'.world := by
  obtain ⟨w, hw, rfl⟩ := Option.map_eq_some_iff.mp hst
  rw [hw]
  cases a with
  | sender b => cases b <;> rfl
  | hot b | poller b | shutdown b | env b => rfl

/-- **One answer for each Create.** As long as `halt` is not set: whenever the sender is back at its
mailbox, on any path, each Create of the batch that it took last has exactly one answer for its slot and
its order. It is bound if the batch was accepted and cleared otherwise; only an unknown outcome leaves it
without an answer. -/
theorem creates_answered_once (p : Params) (o : Handled n) (op : BatchOp n)
    (h : Trans.Reach (step p) (start p n) o) (hhalt : o.world.halt = false) (hidle : o.world.sender = .idle)
    (hop : op ∈ o.ops) (hc : op.action = .create) :
    o.answers.filter (OrderEvent.answersOp op) = createAnswer op o.outcome := by
  have hinv : o.world.Batches OpsDistinct ∧ o.Inv :=
    h.invariant (I := fun o => o.world.Batches OpsDistinct ∧ o.Inv)
      ⟨World.start_batches opsDistinct_nil, start_inv⟩ fun s a s' hs _ hst =>
        ⟨World.step_distinct hs.1 (step_world hst), hs.2.step hs.1 hst⟩
  have hans := hinv.2.progress hhalt
  rw [hidle] at hans
  rw [show o.answers = answersFor o.ops o.outcome from hans]
  exact answersFor_create hinv.2.ops hop hc o.outcome

/-- The sender is at its mailbox. -/
def atMailbox : SenderPc n → Bool
  | .idle => true
  | _ => false

theorem atMailbox_iff {s : SenderPc n} : atMailbox s = true ↔ s = .idle := by
  cases s <;> simp [atMailbox]

/-- A bid is created and accepted. -/
def acceptedBid : List (Act 1) :=
  World.tickActs (World.bidAt 100 1000) ++ World.takeActs ++ World.writeActs ++ World.acceptedActs

theorem creates_answered_once_accepted :
    ∃ (o : Handled 1) (op : BatchOp 1), Trans.Reach (step .shipped) (start .shipped 1) o ∧ op ∈ o.ops ∧
      op.action = .create ∧ o.outcome = some (.ok none) ∧
      o.answers.filter (OrderEvent.answersOp op) = createAnswer op o.outcome := by
  have hrun : (Trans.run (step .shipped) (start .shipped 1) acceptedBid).map (fun o =>
      decide (o.world.halt = false ∧ atMailbox o.world.sender = true ∧ o.outcome = some (.ok none) ∧
        o.ops ≠ [] ∧ ∀ op ∈ o.ops, op.action = .create)) = some true := by decide +kernel
  obtain ⟨o, ho, h⟩ := Option.map_eq_some_iff.mp hrun
  obtain ⟨hhalt, hidle, hout, hne, hcreate⟩ := of_decide_eq_true h
  obtain ⟨op, hop⟩ := List.exists_mem_of_ne_nil _ hne
  have hreach := Trans.reach_iff_run.mpr ⟨_, ho⟩
  exact ⟨o, op, hreach, hop, hcreate op hop, hout,
    creates_answered_once .shipped o op hreach hhalt (atMailbox_iff.mp hidle) hop (hcreate op hop)⟩

end Handled

end LighterMM
