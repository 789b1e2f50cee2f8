import LighterMM.Hot.InFlight
import LighterMM.Hot.Ladder
import LighterMM.System.Process

/-!
# Where the orders on the exchange come from

An `Emission` is a batch of the hot task, with the task and the reads that it was computed from. The observer
`Traced` records the emissions of the process; it does not touch it.

An op that places an order is `Founded` in its emission: it came from behind the gate, from a book with both
sides, and its price is on its own side of the mid of that book. `orders_founded`: so is every order that the
exchange has ever accepted, every price and size that an order rests with, and every Create and Modify on its
way, in every state that the process reaches.
-/

namespace LighterMM

open TickGrid

variable {n : ℕ}

/-! ## Orders and their ops -/

/-- The order was made by the Create. -/
structure VenueOrder.MadeBy (o : VenueOrder n) (op : BatchOp n) : Prop where
  create : op.action = .create
  clientOrderIndex : o.clientOrderIndex = op.clientOrderId
  side : o.side = op.side
  level : o.level = op.level
  price : o.price = op.price
  size : o.size = op.size

/-- The order rests with the price and the size of the op. -/
structure VenueOrder.PricedBy (o : VenueOrder n) (op : BatchOp n) : Prop where
  places : op.action ≠ .cancel
  price : o.price = op.price
  size : o.size = op.size

namespace Venue

variable {P Q : BatchOp n → Prop} {v v' : Venue n} {op : BatchOp n}

/-- All orders are from ops with `P`. -/
structure From (P : BatchOp n → Prop) (v : Venue n) : Prop where
  created : ∀ o ∈ v.created, ∃ op, P op ∧ o.MadeBy op
  live : ∀ o ∈ v.live, ∃ op, P op ∧ o.PricedBy op

theorem From.mono (h : v.From P) (himp : ∀ op, P op → Q op) : v.From Q := by
  refine ⟨fun o ho => ?_, fun o ho => ?_⟩
  · obtain ⟨op, hop, hmade⟩ := h.created o ho
    exact ⟨op, himp op hop, hmade⟩
  · obtain ⟨op, hop, hpriced⟩ := h.live o ho
    exact ⟨op, himp op hop, hpriced⟩

theorem From.fewer (h : v.From P) (hc : v'.created = v.created) (hl : v'.live.Sublist v.live) : v'.From P := by
  refine ⟨?_, fun o ho => h.live o (hl.subset ho)⟩
  rw [hc]
  exact h.created

theorem From.execOp (h : v.From P) (hop : op.action ≠ .cancel → P op) : (v.execOp op).From P := by
  cases ha : op.action with
  | create =>
    obtain ⟨hlive, hcreated⟩ := execOp_create (v := v) ha
    have hP : P op := hop (by simp [ha])
    refine ⟨fun o ho => ?_, fun o ho => ?_⟩
    · rw [hcreated] at ho
      rcases List.mem_append.mp ho with ho | ho
      · exact h.created o ho
      · rw [List.mem_singleton.mp ho]
        exact ⟨op, hP, ha, rfl, rfl, rfl, rfl, rfl⟩
    · rw [hlive] at ho
      rcases List.mem_append.mp ho with ho | ho
      · exact h.live o ho
      · rw [List.mem_singleton.mp ho]
        exact ⟨op, hP, by simp [ha], rfl, rfl⟩
  | modify =>
    have hP : P op := hop (by simp [ha])
    refine ⟨?_, fun o ho => ?_⟩
    · rw [(execOp_modify (v := v) ha).1]
      exact h.created
    · simp only [Venue.execOp, ha, List.mem_map] at ho
      obtain ⟨o', ho', rfl⟩ := ho
      split
      · exact ⟨op, hP, by simp [ha], rfl, rfl⟩
      · exact h.live o' ho'
  | cancel =>
    obtain ⟨hcreated, hlive⟩ := execOp_cancel (v := v) ha
    refine h.fewer hcreated ?_
    rw [hlive]
    exact List.filter_sublist

theorem From.execBatch {ops : List (BatchOp n)} (h : v.From P) (hops : ∀ op ∈ ops, op.action ≠ .cancel → P op) :
    (v.execBatch ops).From P := by
  have hfold : (ops.foldl Venue.execOp v).From P := by
    induction ops generalizing v with
    | nil => exact h
    | cons op ops ih =>
      exact ih (h.execOp (hops op List.mem_cons_self)) fun op hop => hops op (List.mem_cons_of_mem _ hop)
  exact ⟨hfold.created, hfold.live⟩

end Venue

namespace World

variable {p : Params} {w w' : World n} {P : BatchOp n → Prop}

theorem transmit_from {d : Desk n} {ops : List (BatchOp n)} {r : TxSendResult} {consumed : Bool}
    (h : d.venue.From P) (hops : ∀ op ∈ ops, op.action ≠ .cancel → P op) :
    (d.transmit ops r consumed).venue.From P := by
  unfold Desk.transmit
  cases r.executed consumed with
  | true => exact h.execBatch hops
  | false => exact h

/-- A step makes and moves orders from the sender's batch only. -/
theorem step_from {a : Act n} (h : w.desk.venue.From P)
    (hops : ∀ op ∈ w.sender.unexecuted, op.action ≠ .cancel → P op) (hst : w.step p a = some w') :
    w'.desk.venue.From P := by
  cases a with
  | hot a =>
    rw [(hotStep_frame hst).desk]
    exact h
  | poller a => exact h.fewer (pollerStep_frame hst).created (pollerStep_frame hst).live
  | shutdown a => exact h.fewer (shutdownStep_frame hst).created (shutdownStep_frame hst).live
  | env a => exact h.fewer (envStep_frame hst).created (envStep_frame hst).live
  | sender a =>
    cases senderStep_cases hst with
    | execute _ hpc | dieWritten _ hpc =>
      rw [hpc] at hops
      exact transmit_from h hops
    | settle =>
      refine h.fewer ?_ ?_
      all_goals
        rw [Desk.parkUnknown_venue]
        split
        · rw [Desk.resyncNonceOrPause_venue]
        · rfl
    | finish attempts =>
      have hf := w.desk.cancelAllAndVerify_frame attempts
      refine h.fewer ?_ ?_
      · split
        · exact hf.created
        · rfl
      · split
        · exact CancelFrame_live hf
        · exact .refl _
    | _ => exact h

end World

/-! ## Emissions -/

/-- A batch of the hot task, with the task and the reads of its `maybe_quote`. -/
structure Emission (n : ℕ) where
  task : HotTask n
  reads : Reads n
  ops : List (BatchOp n)

/-- The op places an order, and its emission came from behind the gate: there was capital, a position had
been received, and the book had both sides. A task that was not ready placed the exit of its position only.
With a tick, a spread floor and a spread factor, the price is a tick multiple on its own side of the mid; with
capital, the size is normalized to the market. -/
structure Emission.Founds (cfg : HotConfig n) (e : Emission n) (op : BatchOp n) : Prop where
  mem : op ∈ e.ops
  capital : 0 < e.reads.gateCapital
  position : e.reads.positionSeen = true
  mid : e.task.book.mid = some e.task.mid
  exit : e.task.notReady cfg e.reads.warmupClock = true →
    op.ReducesAtTop (cfg.quotePosition e.task.mid e.reads.position)
  passive : 0 < cfg.market.priceTick → 0 < cfg.volObi.minHalfSpreadBps → 0 < cfg.spreadFactorLevel1 →
    0 < e.task.mid → OnGrid cfg.market.priceTick op.price ∧
      (op.side = .buy → op.price < e.task.mid) ∧ (op.side = .sell → e.task.mid < op.price)
  price_pos : 0 < op.price
  size_pos : 0 < op.size
  size : 0 < e.reads.capital → ∃ raw, op.size = cfg.normalizeSize e.task.mid raw

namespace HotTask

variable {sqrt : ℚ → ℚ} {cfg : HotConfig n} {t : HotTask n} {r : Reads n} {ops : List (BatchOp n)}

/-- The prices of a passive ladder, as its targets. -/
theorem levelTargets_passive {levels : List Level} {mid tick price : ℚ} {side : Side} {level : Fin n}
    (h : Passive mid tick levels) (ht : (side, level, some price) ∈ levelTargets n levels) :
    OnGrid tick price ∧ (side = .buy → price < mid) ∧ (side = .sell → mid < price) := by
  obtain ⟨l, hget, hl⟩ := levelTargets_get ht
  have hpassive : l.Passive mid tick := h l (List.mem_of_getElem? hget)
  rcases hl with ⟨rfl, hbid⟩ | ⟨rfl, hask⟩
  · obtain ⟨hgrid, hlt⟩ := hpassive.bid price hbid
    exact ⟨hgrid, fun _ => hlt, by simp⟩
  · obtain ⟨hgrid, hlt⟩ := hpassive.ask price hask
    exact ⟨hgrid, by simp, fun _ => hlt⟩

/-- The orders of a ladder have the normalized size, or that of the exit. -/
theorem quoteDecision_size {position orderSize : ℚ} {hold : Bool} {levels : List Level} {args : CollectArgs}
    (h : t.quoteDecision cfg r position orderSize hold = .ladder levels args) :
    args.baseAmount = orderSize ∨ args.baseAmount = cfg.normalizeSize t.mid (min orderSize |position|) := by
  unfold quoteDecision at h
  split at h
  · split at h
    · cases h
      exact .inr rfl
    · cases h
  · cases h
    exact .inl rfl

theorem chooseExit_size {levels : List Level} {args : CollectArgs} (h : (t.chooseExit cfg r).2.2 = .ladder levels args)
    (hcap : 0 < r.capital) : ∃ raw, args.baseAmount = cfg.normalizeSize t.mid raw := by
  have hcases := t.chooseExit_cases cfg r
  generalize t.chooseExit cfg r = q at hcases h
  cases hcases with
  | throttled | gated => cases h
  | opened =>
    set t' : HotTask n := { t with
      om := t.drainedOm r, lastQuote := some r.now,
      calculator := t.calculator.setAlphaOverride r.usableAlpha } with ht'
    obtain ⟨calculator, maxPosUsd, seen, til, hopen⟩ := openGate_eq cfg t' r
    have hdec : (t'.openGate cfg r).1.quoteDecision cfg r (cfg.quotePosition t'.mid r.position)
      (cfg.orderSize t'.mid r.capital) _ = .ladder levels args := h
    have hmid : (t'.openGate cfg r).1.mid = t.mid := by rw [hopen]
    have hnormal : cfg.orderSize t'.mid r.capital = cfg.normalizeSize t.mid _ := if_pos hcap
    rcases quoteDecision_size hdec with hsize | hsize
    · exact ⟨_, hsize.trans hnormal⟩
    · rw [hmid] at hsize
      exact ⟨_, hsize⟩

/-- **What a message publishes is founded.** -/
theorem onOrderbook_founds (hlive : cfg.mode = .live) {t₀ : Instant}
    (hreach : Trans.Reach (step sqrt cfg) (new sqrt cfg t₀) t) {msg : OrderBookMsg}
    (hops : ops ∈ published (t.onOrderbook sqrt cfg msg r).2) {op : BatchOp n} (hop : op ∈ ops)
    (ha : op.action ≠ .cancel) : Emission.Founds cfg ⟨(t.receive sqrt cfg msg r).1, r, ops⟩ op := by
  have hframe : ReceiveFrame t (t.receive sqrt cfg msg r) := receive_frame sqrt msg
  have hgrid := (receive_sameGrid sqrt cfg t msg r)
  obtain ⟨htick, hfloor⟩ := reach_sameGrid hreach
  rcases onOrderbook_published (t := t) (r := r) sqrt hlive msg with ⟨hquotes, hpub⟩ | ⟨-, hpub⟩
  · rw [hpub, Option.mem_toList] at hops
    obtain ⟨levels, args, hd, rfl⟩ := OrderManager.cycle_places hops hop ha
    obtain ⟨hgate, -, hexit⟩ := chooseExit_ladder hd
    obtain ⟨htarget, hprice⟩ := OrderManager.collectLoop_requotes hop ha
    have hsize : op.size = args.baseAmount := OrderManager.collectLoop_sized hop ha
    have hopen : ¬(r.gateCapital ≤ 0 ∨ r.positionSeen = false) := by
      unfold HotConfig.gated at hgate
      simpa [hlive] using hgate
    rw [not_or, not_le, Bool.not_eq_false] at hopen
    refine ⟨hop, hopen.1, hopen.2, (hframe.quotes hquotes).1, fun hnr => ?_, fun ht hmin hfactor hmid => ?_,
      hprice.2.1, ?_, fun hcap => ?_⟩
    · obtain ⟨hpos, hlevels⟩ := hexit hnr
      rw [hlevels] at htarget
      exact fallback_targets hpos htarget
    · refine levelTargets_passive ?_ htarget
      refine (chooseExit_quoted hd).passive ht (hgrid.1.trans htick) ?_ hmid hfactor
      rw [hgrid.2.trans hfloor]
      exact hmin
    · rw [hsize]
      exact hprice.1
    · rw [hsize]
      exact chooseExit_size hd hcap
  · rw [hpub] at hops
    split at hops
    · rw [List.mem_singleton.mp hops] at hop
      cases hop
    · cases hops

end HotTask

/-! ## The process with its emissions -/

structure Traced (n : ℕ) where
  process : Process n
  emitted : List (Emission n)

namespace Traced

/-- The batches of an action, each with the task and the reads of its call. -/
def emissions (sqrt : ℚ → ℚ) (c : LiveConfig n) (s : Process n) : ProcessAct n → List (Emission n)
  | .hot (.orderBook msg r) =>
    (HotTask.published (s.task.onOrderbook sqrt c.hot msg r).2).map fun ops =>
      ⟨(s.task.receive sqrt c.hot msg r).1, r, ops⟩
  | _ => []

def start (sqrt : ℚ → ℚ) (c : LiveConfig n) : Traced n := ⟨.start sqrt c, []⟩

def step (sqrt : ℚ → ℚ) (c : LiveConfig n) (o : Traced n) (a : ProcessAct n) : Option (Traced n) :=
  (o.process.step sqrt c a).map fun process => ⟨process, o.emitted ++ emissions sqrt c o.process a⟩

variable {sqrt : ℚ → ℚ} {c : LiveConfig n} {o o' : Traced n}

/-- Some emission so far founds the op. -/
def Founded (c : LiveConfig n) (o : Traced n) (op : BatchOp n) : Prop := ∃ e ∈ o.emitted, e.Founds c.hot op

theorem Founded.mono {op : BatchOp n} (h : o.Founded c op) (hsub : o.emitted ⊆ o'.emitted) : o'.Founded c op := by
  obtain ⟨e, he, hop⟩ := h
  exact ⟨e, hsub he, hop⟩

/-- Every op of a batch that places an order is founded. -/
def OpsFounded (c : LiveConfig n) (o : Traced n) (ops : List (BatchOp n)) : Prop :=
  ∀ op ∈ ops, op.action ≠ .cancel → o.Founded c op

structure Inv (sqrt : ℚ → ℚ) (c : LiveConfig n) (o : Traced n) : Prop where
  task : Trans.Reach (HotTask.step sqrt c.hot) (.new sqrt c.hot 0) o.process.task
  batches : o.process.world.Batches (o.OpsFounded c)
  orders : o.process.shared.desk.venue.From (o.Founded c)

theorem start_inv : (start sqrt c).Inv sqrt c :=
  ⟨.refl, ⟨List.forall_mem_nil _, List.forall_mem_nil _, List.forall_mem_nil _⟩,
    ⟨List.forall_mem_nil _, List.forall_mem_nil _⟩⟩

/-- What waits in the mailbox after effects. -/
theorem applyEffects_mailbox (w : World n) (es : List (HotEffect n)) :
    (w.applyEffects es).mailbox.value = w.mailbox.value ∨
      (w.applyEffects es).mailbox.value ∈ HotTask.published es := by
  induction es generalizing w with
  | nil => exact .inl rfl
  | cons e es ih =>
    rcases ih (w.applyEffect e) with h | h
    · cases e with
      | sendOps ops => exact .inr (List.mem_cons.mpr (.inl h))
      | notifyReconnect | notifyReconcile | storeTracked | setMdNow | setMid => exact .inl h
    · right
      cases e with
      | sendOps ops => exact List.mem_cons_of_mem _ h
      | notifyReconnect | notifyReconcile | storeTracked | setMdNow | setMid => exact h

/-- What a message leaves to the other parties. -/
theorem orderBook_frame {s s' : Process n} {msg : OrderBookMsg} {r : Reads n}
    (hst : s.step sqrt c (.hot (.orderBook msg r)) = some s') :
    s'.task = (s.task.onOrderbook sqrt c.hot msg r).1 ∧ s'.shared.desk = s.shared.desk ∧
      s'.shared.sender = s.shared.sender ∧
      (s'.shared.mailbox.value = s.shared.mailbox.value ∨
        s'.shared.mailbox.value ∈ HotTask.published (s.task.onOrderbook sqrt c.hot msg r).2) := by
  rw [Process.step] at hst
  split at hst
  · cases hst
    set quotes := (s.task.receive sqrt c.hot msg r).2.2
    set es := (s.task.onOrderbook sqrt c.hot msg r).2
    obtain ⟨hmailbox, hdesk, hsender⟩ := World.takeQueues_frame s.shared quotes
    have hvalue := applyEffects_mailbox (s.shared.takeQueues quotes) es
    obtain ⟨mailbox, trackedIds, mdStamp, heq⟩ := World.applyEffects_eq (s.shared.takeQueues quotes) es
    rw [hmailbox] at hvalue
    refine ⟨rfl, ?_, ?_, hvalue⟩
    · simp only [heq, hdesk]
    · simp only [heq, hsender]
  · cases hst

theorem Inv.step {a : ProcessAct n} (h : o.Inv sqrt c) (hst : o.step sqrt c a = some o') : o'.Inv sqrt c := by
  obtain ⟨s, hs, rfl⟩ := Option.map_eq_some_iff.mp hst
  set emitted := o.emitted ++ emissions sqrt c o.process a with hemitted
  have hmono : ∀ op, o.Founded c op → Founded c ⟨s, emitted⟩ op :=
    fun op hop => hop.mono (List.subset_append_left _ _)
  have hbatch : ∀ ops, o.OpsFounded c ops → OpsFounded c ⟨s, emitted⟩ ops :=
    fun ops hops op hop ha => hmono op (hops op hop ha)
  cases a with
  | hot a =>
    cases a with
    | orderBook msg r =>
      obtain ⟨htask, hdesk, hsender, hmailbox⟩ := orderBook_frame hs
      refine ⟨?_, ⟨?_, List.forall_mem_nil _, ?_⟩, ?_⟩
      · rw [htask]
        exact .step (.orderBook msg r) h.task trivial rfl
      · show OpsFounded c ⟨s, emitted⟩ s.shared.mailbox.value
        rcases hmailbox with hmailbox | hmailbox
        · rw [hmailbox]
          exact hbatch _ h.batches.mailbox
        · intro op hop ha
          exact ⟨_, List.mem_append_right _ (List.mem_map.mpr ⟨_, hmailbox, rfl⟩),
            HotTask.onOrderbook_founds c.live h.task hmailbox hop ha⟩
      · show OpsFounded c ⟨s, emitted⟩ s.shared.sender.unexecuted
        rw [hsender]
        exact hbatch _ h.batches.sender
      · show s.shared.desk.venue.From _
        rw [hdesk]
        exact h.orders.mono hmono
    | ticker bestBid bestAsk now =>
      cases hs
      exact ⟨.step (.ticker bestBid bestAsk now) h.task trivial rfl, (h.batches.mono hbatch).congr rfl rfl rfl,
        h.orders.mono hmono⟩
    | disconnect =>
      cases hs
      exact ⟨.step .disconnect h.task trivial rfl, (h.batches.mono hbatch).congr rfl rfl rfl,
        h.orders.mono hmono⟩
  | other a =>
    rw [Process.step] at hs
    split at hs
    · cases hs
    · rename_i ha
      obtain ⟨w, hw, rfl⟩ := Option.map_eq_some_iff.mp hs
      obtain ⟨hom, hlast, hhot⟩ := World.step_own (Bool.eq_false_iff.mpr ha) hw
      refine ⟨h.task, ?_, ?_⟩
      · rw [Process.world_shared o.process hom hlast hhot]
        refine (h.batches.step (List.forall_mem_nil _) (fun d hd => ?_) hw).mono hbatch
        rw [hd] at ha
        exact absurd rfl ha
      · exact (World.step_from (w := o.process.world) h.orders h.batches.sender hw).mono hmono

/-- **Every order is founded.** In every state that the process reaches, with any interleaving of the parties,
any outcome of each frame and any message: each order that the exchange has ever accepted was made by a Create
of an emission that founds it; each order rests with the price and the size of a founded Create or Modify; and
the Creates and Modifies that the sender holds or that wait in the mailbox are founded. -/
theorem orders_founded (sqrt : ℚ → ℚ) (c : LiveConfig n) (o : Traced n)
    (h : Trans.Reach (step sqrt c) (start sqrt c) o) :
    (∀ ord ∈ o.process.shared.desk.venue.created, ∃ op, o.Founded c op ∧ ord.MadeBy op) ∧
      (∀ ord ∈ o.process.shared.desk.venue.live, ∃ op, o.Founded c op ∧ ord.PricedBy op) ∧
      o.OpsFounded c o.process.shared.sender.unexecuted ∧
      o.OpsFounded c o.process.shared.mailbox.value := by
  have hinv : o.Inv sqrt c := h.invariant start_inv fun o a o' ho _ hst => ho.step hst
  exact ⟨hinv.orders.created, hinv.orders.live, hinv.batches.sender, hinv.batches.mailbox⟩

theorem orders_founded_accepted : ∃ o : Traced 1, (∃ ord, ord ∈ o.process.shared.desk.venue.live) ∧
    ∀ ord ∈ o.process.shared.desk.venue.live, ∃ op, o.Founded Process.quickLive op ∧ ord.PricedBy op := by
  obtain ⟨o, ho, h⟩ := Option.map_eq_some_iff.mp
    (show (Trans.run (step id Process.quickLive) (start id Process.quickLive) Process.acceptedLadder).map
      (fun o => decide (o.process.shared.desk.venue.live ≠ [])) = some true by decide +kernel)
  have hreach := Trans.reach_iff_run.mpr ⟨_, ho⟩
  exact ⟨o, List.exists_mem_of_ne_nil _ (of_decide_eq_true h),
    (orders_founded id Process.quickLive o hreach).2.1⟩

end Traced

end LighterMM
