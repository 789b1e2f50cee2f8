import LighterMM.Hot.PublishedIds
import LighterMM.Lib.Simulation
import LighterMM.System.ReduceOnly

/-!
# The live process: the hot task as the code has it, inside the live system

`World` leaves open what the market data say. `Process` does not: its hot task is the `HotTask` of the code,
which takes messages of the market-data stream, reads the queues and the clock of the shared state, and
leaves its effects there. The other parties are those of `World`, in any interleaving with its calls.

`simulates`: a call of the hot task is a run of hot steps of `World`, so every run of the process is a run of
the live system, and what is proved about all runs of `World` holds of the process.
-/

namespace LighterMM

variable {n : ℕ}

/-- The configuration of a live bot: the hot task and the other parties are on the same market. -/
structure LiveConfig (n : ℕ) where
  params : Params
  hot : HotConfig n
  live : hot.mode = .live
  market : hot.market = params.market

/-- The hot task and the rest of the live system. What `shared` has for the hot task is not read. -/
structure Process (n : ℕ) where
  task : HotTask n
  shared : World n

inductive ProcessAct (n : ℕ) where
  /-- A message of the market-data stream. -/
  | hot (a : HotInput n)
  /-- A step of any other party. -/
  | other (a : Act n)

namespace World

/-- What an effect of the hot task does to the shared state. -/
def applyEffect (w : World n) : HotEffect n → World n
  | .sendOps ops => { w with mailbox := w.mailbox.send ops }
  | .storeTracked ids => { w with trackedIds := ids }
  | .setMdNow => { w with mdStamp := some w.clock }
  | .notifyReconnect | .notifyReconcile | .setMid _ => w

def applyEffects (w : World n) (es : List (HotEffect n)) : World n := es.foldl applyEffect w

/-- The events and the snapshot are taken by a call that quotes. -/
def takeQueues (w : World n) (quotes : Bool) : World n :=
  if quotes then { w with events := [], reconcileSwap := none } else w

end World

def Act.isHot : Act n → Bool
  | .hot _ => true
  | _ => false

namespace Process

variable (sqrt : ℚ → ℚ) (c : LiveConfig n)

def start : Process n := ⟨.new sqrt c.hot 0, .start c.params n⟩

/-- The live system with the fields of the hot task filled in; between two calls it is idle. -/
def world (s : Process n) : World n :=
  { s.shared with om := s.task.om, lastTracked := s.task.lastTracked, hot := .idle }

/-- What a call reads of the shared state. -/
def Fits (s : Process n) (r : Reads n) : Prop :=
  r.now = s.shared.clock ∧ r.events = s.shared.events ∧ r.snapshot = s.shared.reconcileSwap

instance (s : Process n) (r : Reads n) : Decidable (s.Fits r) :=
  inferInstanceAs (Decidable (_ ∧ _ ∧ _))

def step (s : Process n) : ProcessAct n → Option (Process n)
  | .hot (.orderBook msg r) =>
    if s.Fits r then
      let q := s.task.onOrderbook sqrt c.hot msg r
      let quotes := (s.task.receive sqrt c.hot msg r).2.2
      some ⟨q.1, (s.shared.takeQueues quotes).applyEffects q.2⟩
    else none
  | .hot a => (s.task.step sqrt c.hot a).map fun task => { s with task }
  | .other a => if a.isHot then none else (s.world.step c.params a).map fun shared => ⟨s.task, shared⟩

/-- The steps of a `maybe_quote` that reads `events` events. -/
def callActs (events : ℕ) (d : Decision n) : List (HotAct n) :=
  List.replicate events .drain ++ [.drained, .reconcile, .quote d, .send]

/-- The steps of the live system that an action of the process is. -/
def acts (s : Process n) : ProcessAct n → List (Act n)
  | .hot (.orderBook msg r) =>
    let q := s.task.receive sqrt c.hot msg r
    let call := if q.2.2 then callActs r.events.length (q.1.chooseExit c.hot r).2.2 else []
    ((Quoting.bookAct q).toList ++ call).map .hot
  | .hot _ => []
  | .other a => [a]

end Process

/-! ## Effects -/

namespace World

variable {p : Params} {w : World n} {es : List (HotEffect n)}

theorem applyEffects_append (w : World n) (as bs : List (HotEffect n)) :
    w.applyEffects (as ++ bs) = (w.applyEffects as).applyEffects bs := List.foldl_append

theorem applyEffects_notify (h : ∀ e ∈ es, e = .notifyReconcile) : w.applyEffects es = w := by
  induction es with
  | nil => rfl
  | cons e es ih =>
    rw [h e List.mem_cons_self]
    exact ih fun e he => h e (List.mem_cons_of_mem _ he)

/-- The effects write the mailbox, the published ids and the stamp. -/
theorem applyEffects_eq (w : World n) (es : List (HotEffect n)) :
    ∃ mailbox trackedIds mdStamp, w.applyEffects es = { w with mailbox, trackedIds, mdStamp } := by
  induction es generalizing w with
  | nil => exact ⟨_, _, _, rfl⟩
  | cons e es ih =>
    obtain ⟨mailbox, trackedIds, mdStamp, heq⟩ := ih (w.applyEffect e)
    refine ⟨mailbox, trackedIds, mdStamp, heq.trans ?_⟩
    cases e <;> rfl

/-- What the hot task keeps for itself is not read. -/
theorem applyEffects_own (w : World n) (es : List (HotEffect n)) (om : OrderManager n) (lastTracked : List ℤ)
    (hot : HotPc n) :
    applyEffects { w with om, lastTracked, hot } es = { w.applyEffects es with om, lastTracked, hot } := by
  induction es generalizing w with
  | nil => rfl
  | cons e es ih =>
    refine Eq.trans ?_ (ih (w.applyEffect e))
    cases e <;> rfl

theorem applyEffects_takeQueues (w : World n) (quotes : Bool) (es : List (HotEffect n)) :
    (w.takeQueues quotes).applyEffects es = (w.applyEffects es).takeQueues quotes := by
  induction es generalizing w with
  | nil => rfl
  | cons e es ih =>
    refine Eq.trans ?_ (ih (w.applyEffect e))
    cases quotes <;> cases e <;> rfl

theorem takeQueues_frame (w : World n) (quotes : Bool) :
    (w.takeQueues quotes).mailbox = w.mailbox ∧ (w.takeQueues quotes).desk = w.desk ∧
      (w.takeQueues quotes).sender = w.sender := by
  cases quotes <;> exact ⟨rfl, rfl, rfl⟩

/-- The other parties leave what the hot task keeps for itself. -/
theorem step_own {w' : World n} {a : Act n} (ha : a.isHot = false) (hst : w.step p a = some w') :
    w'.om = w.om ∧ w'.lastTracked = w.lastTracked ∧ w'.hot = w.hot := by
  cases a with
  | hot a => cases ha
  | sender a =>
    obtain ⟨d, mailbox, events, pc, rfl⟩ := senderStep_own hst
    exact ⟨rfl, rfl, rfl⟩
  | poller a =>
    obtain ⟨d, swap, pc, prev, rfl, -⟩ := pollerStep_own hst
    exact ⟨rfl, rfl, rfl⟩
  | shutdown a => cases shutdownStep_cases hst <;> exact ⟨rfl, rfl, rfl⟩
  | env a => cases envStep_cases hst <;> exact ⟨rfl, rfl, rfl⟩

/-! ## A call as steps of the live system -/

/-- The drain of the whole queue. -/
theorem run_drain (p : Params) {events : List (OrderEvent n)} (hhot : w.hot = .drain) (hevents : w.events = events) :
    Trans.run (step p) w ((List.replicate events.length .drain).map .hot) =
      some { w with om := w.om.drainEvents w.clock events, events := [] } := by
  induction events generalizing w with
  | nil =>
    show some w = some { w with events := [] }
    rw [← hevents]
  | cons e events ih =>
    have hstep : w.step p (.hot .drain) = some { w with om := w.om.applyEvent w.clock e, events } := by
      simp only [step, hotStep, hhot, hevents]
    rw [List.length_cons, List.replicate_succ, List.map_cons, Trans.run_cons, hstep, Option.bind_some]
    exact ih (w := { w with om := w.om.applyEvent w.clock e, events }) hhot rfl

/-- The order manager after the snapshot that waits, if there is one. -/
def settledOm (w : World n) : OrderManager n :=
  match w.reconcileSwap with
  | some remote => w.om.processReconcile w.clock remote
  | none => w.om

/-- The steps of a call after the drain. -/
theorem run_settle (p : Params) (d : Decision n) (hhot : w.hot = .drain) (hevents : w.events = []) :
    Trans.run (step p) w ([HotAct.drained, .reconcile, .quote d, .send].map .hot) =
      (step p { w with om := w.settledOm, reconcileSwap := none, hot := .quote } (.hot (.quote d))).bind
        fun w' => step p w' (.hot .send) := by
  have hdrained : w.step p (.hot .drained) = some { w with hot := .reconcile } := by
    simp only [step, hotStep, hhot, hevents]
  have hreconcile : step p { w with hot := .reconcile } (.hot .reconcile) =
      some { w with om := w.settledOm, reconcileSwap := none, hot := .quote } := by
    unfold settledOm
    cases hswap : w.reconcileSwap <;> simp only [step, hotStep]
  simp only [List.map_cons, List.map_nil, Trans.run_cons, Trans.run_nil, hdrained, hreconcile, Option.bind_some]
  cases step p _ (.hot (.quote d)) with
  | none => rfl
  | some w' => exact Option.bind_fun_some _

theorem step_quote_quiet (p : Params) {d : Decision n} (hhot : w.hot = .quote)
    (hd : ∀ levels args, d ≠ .ladder levels args) :
    w.step p (.hot (.quote d)) =
      some { w with om := (w.om.cycle w.clock d).1, hot := .sending (w.om.cycle w.clock d).2 } := by
  cases d with
  | ladder levels args => exact absurd rfl (hd levels args)
  | throttled | gated | flat => simp only [step, hotStep, hhot]

theorem step_quote_ladder (p : Params) (levels : List Level) (args : CollectArgs) (hhot : w.hot = .quote) :
    w.step p (.hot (.quote (.ladder levels args))) =
      some (publishTracked { w with
        om := (w.om.cycle w.clock (.ladder levels args)).1
        hot := .sending (w.om.cycle w.clock (.ladder levels args)).2 }) := by
  simp only [step, hotStep, hhot]

/-- The batch of a cycle is sent, if there is one. -/
theorem step_send (p : Params) {batch : Option (List (BatchOp n))} (hhot : w.hot = .sending batch) :
    w.step p (.hot .send) = some { w.applyEffects (batch.map HotEffect.sendOps).toList with hot := .idle } := by
  cases batch with
  | none => simp only [step, hotStep, hhot, Option.map_none, Option.toList_none, applyEffects, List.foldl_nil]
  | some ops =>
    simp only [step, hotStep, hhot, Option.map_some, Option.toList_some, applyEffects, List.foldl_cons, List.foldl_nil,
      applyEffect]

/-- The world and the hot task publish the same ids. -/
theorem publishTracked_same {u : HotTask n} (hom : w.om = u.om) (hlast : w.lastTracked = u.lastTracked) :
    w.publishTracked =
      { w.applyEffects u.publishTracked.2 with lastTracked := u.publishTracked.1.lastTracked } := by
  unfold publishTracked HotTask.publishTracked
  rw [← hom, ← hlast]
  split
  · show w = { w with lastTracked := u.lastTracked }
    rw [← hlast]
  · rfl

end World

namespace HotTask

variable {cfg : HotConfig n} {t : HotTask n} {r : Reads n} {w : World n}

/-- **A `maybe_quote` is a run of the live system**, which reads the same queues and clock: the order
manager, the remembered ids and the effects are those of the call. -/
theorem run_maybeQuote (p : Params) (hlive : cfg.mode = .live) (hhot : w.hot = .drain) (hom : w.om = t.om)
    (hlast : w.lastTracked = t.lastTracked) (hnow : r.now = w.clock) (hevents : r.events = w.events)
    (hswap : r.snapshot = w.reconcileSwap) :
    Trans.run (World.step p) w ((Process.callActs r.events.length (t.chooseExit cfg r).2.2).map .hot) =
      some { (w.takeQueues true).applyEffects (t.maybeQuote cfg r).2 with
        om := (t.maybeQuote cfg r).1.om
        lastTracked := (t.maybeQuote cfg r).1.lastTracked
        hot := .idle } := by
  have hdrained := World.run_drain p hhot hevents.symm
  rw [Process.callActs, List.map_append, Trans.run_append, hdrained, Option.bind_some,
    World.run_settle (w := { w with om := w.om.drainEvents w.clock r.events, events := [] }) p _ hhot rfl]
  -- the order manager after the drain and the snapshot is that of the call
  have hsettled : World.settledOm { w with om := w.om.drainEvents w.clock r.events, events := [] } =
      t.drainedOm r := by
    unfold drainedOm World.settledOm
    simp only
    rw [hom, hnow, hswap] <;> rfl
  have hexit := chooseExit_om cfg t r
  have hnotify : ∀ v : World n, v.applyEffects (t.chooseExit cfg r).2.1 = v :=
    fun v => World.applyEffects_notify (chooseExit_effects cfg t r)
  have hseen : (t.chooseExit cfg r).1.lastTracked = w.lastTracked := by
    rw [hlast]
    exact (chooseExit_silent cfg t r).lastTracked
  simp only [hsettled]
  set v : World n := { w with om := t.drainedOm r, events := [], reconcileSwap := none, hot := .quote } with hv
  unfold maybeQuote
  simp only [hexit, hnow]
  generalize (t.chooseExit cfg r).2.2 = d
  cases d with
  | throttled | gated | flat =>
    rw [World.step_quote_quiet p rfl (fun _ _ => by simp), Option.bind_some, World.step_send p rfl]
    simp only [World.applyEffects_append, hnotify, hseen]
    exact congrArg some (congrArg (fun v : World n => { v with hot := .idle })
      (World.applyEffects_own (w.takeQueues true) _ _ _ _))
  | ladder levels args =>
    rw [World.step_quote_ladder p levels args rfl, Option.bind_some]
    simp only [hlive]
    set u : HotTask n := { (t.chooseExit cfg r).1 with
      om := ((t.drainedOm r).cycle w.clock (.ladder levels args)).1 } with hu
    set v' : World n := { v with
      om := (v.om.cycle v.clock (.ladder levels args)).1
      hot := .sending (v.om.cycle v.clock (.ladder levels args)).2 } with hv'
    have hpublish : v'.publishTracked =
        { v'.applyEffects u.publishTracked.2 with lastTracked := u.publishTracked.1.lastTracked } :=
      World.publishTracked_same rfl hseen.symm
    rw [World.step_send p (World.publishTracked_frame v').2.2.1, hpublish]
    simp only [World.applyEffects_append, hnotify, (publishTracked_om u).1]
    have hown : v'.applyEffects u.publishTracked.2 =
        { (w.takeQueues true).applyEffects u.publishTracked.2 with
          om := v'.om, lastTracked := v'.lastTracked, hot := v'.hot } :=
      World.applyEffects_own (w.takeQueues true) _ _ _ _
    rw [hown]
    exact congrArg some (congrArg (fun v : World n => { v with hot := .idle })
      (World.applyEffects_own ((w.takeQueues true).applyEffects u.publishTracked.2) _ _ _ _))

/-- The first half of a message is its step of the live system, if it is more than ignored. -/
def MatchesBook (p : Params) (w : World n) (q : HotTask n × List (HotEffect n) × Bool) : Prop :=
  Trans.run (World.step p) w ((Quoting.bookAct q).toList.map .hot) =
    some { w.applyEffects q.2.1 with hot := if q.2.2 then .drain else .idle }

theorem matchesBook_ignored (p : Params) (t : HotTask n) (hhot : w.hot = .idle) : MatchesBook p w (t, [], false) := by
  show some w = some { w with hot := .idle }
  rw [← hhot]

theorem matchesBook_applied (sqrt : ℚ → ℚ) (p : Params) (t : HotTask n) (msg : OrderBookMsg) (hhot : w.hot = .idle) :
    MatchesBook p w (t.applied sqrt cfg msg r) := by
  have hsignal : ∀ (u : HotTask n) q, SignalCase sqrt cfg u r q →
      MatchesBook p w (q.1, .setMdNow :: q.2.1, q.2.2) := by
    intro u q hcase
    cases hcase with
    | noMid | diverged | updated =>
      simp [MatchesBook, Quoting.bookAct, requestResnapshot, Trans.run_cons, World.step, World.hotStep, hhot,
        World.applyEffects, World.applyEffect]
  exact hsignal _ _ (updateSignal_cases sqrt cfg _ r)

theorem matchesBook_receive (sqrt : ℚ → ℚ) (p : Params) (t : HotTask n) (msg : OrderBookMsg) (hhot : w.hot = .idle) :
    MatchesBook p w (t.receive sqrt cfg msg r) := by
  have hcases := t.receive_cases sqrt cfg msg r
  generalize t.receive sqrt cfg msg r = q at hcases ⊢
  cases hcases with
  | snapshot | delta => exact matchesBook_applied sqrt p _ msg hhot
  | waiting | stale => exact matchesBook_ignored p _ hhot
  | gap =>
    simp [MatchesBook, Quoting.bookAct, requestResnapshot, Trans.run_cons, World.step, World.hotStep, hhot,
      World.applyEffects, World.applyEffect]

end HotTask

namespace Process

variable {sqrt : ℚ → ℚ} {c : LiveConfig n} {s s' : Process n}

theorem world_shared (s : Process n) {w : World n} (hom : w.om = s.task.om)
    (hlast : w.lastTracked = s.task.lastTracked) (hhot : w.hot = .idle) : (⟨s.task, w⟩ : Process n).world = w := by
  show { w with om := s.task.om, lastTracked := s.task.lastTracked, hot := .idle } = w
  rw [← hom, ← hlast, ← hhot]

/-- **A message is a run of the live system**: the freshness stamp, a re-snapshot, or a whole call. -/
theorem run_orderBook {msg : OrderBookMsg} {r : Reads n} (hst : s.step sqrt c (.hot (.orderBook msg r)) = some s') :
    Trans.run (World.step c.params) s.world (acts sqrt c s (.hot (.orderBook msg r))) = some s'.world := by
  rw [step] at hst
  split at hst
  · rename_i hfits
    cases hst
    obtain ⟨hnow, hevents, hswap⟩ := hfits
    have hframe : HotTask.ReceiveFrame s.task (s.task.receive sqrt c.hot msg r) := HotTask.receive_frame sqrt msg
    have hsilent : (s.task.receive sqrt c.hot msg r).1.lastTracked = s.task.lastTracked :=
      (HotTask.receive_silent sqrt c.hot s.task msg r).lastTracked
    have hbook : HotTask.MatchesBook c.params s.world (s.task.receive sqrt c.hot msg r) :=
      HotTask.matchesBook_receive sqrt c.params s.task msg rfl
    have hown : ∀ es, s.world.applyEffects es =
        { s.shared.applyEffects es with om := s.task.om, lastTracked := s.task.lastTracked, hot := .idle } :=
      fun es => World.applyEffects_own s.shared es _ _ _
    rw [acts, List.map_append, Trans.run_append, hbook, Option.bind_some]
    unfold HotTask.onOrderbook
    simp only
    generalize s.task.receive sqrt c.hot msg r = q at hframe hsilent ⊢
    obtain ⟨t, es, quotes⟩ := q
    have hom : t.om = s.task.om := hframe.om
    have hlast : t.lastTracked = s.task.lastTracked := hsilent
    simp only [hown, ← hom, ← hlast]
    cases quotes with
    | false => rfl
    | true =>
      obtain ⟨mailbox, trackedIds, mdStamp, heq⟩ := World.applyEffects_eq s.shared es
      set v : World n := { s.shared.applyEffects es with om := t.om, lastTracked := t.lastTracked, hot := .drain } with hv
      have hcall := HotTask.run_maybeQuote (w := v) (t := t) (r := r) c.params c.live rfl rfl rfl
        (by rw [hv, heq]; exact hnow) (by rw [hv, heq]; exact hevents) (by rw [hv, heq]; exact hswap)
      refine Eq.trans hcall (congrArg some ?_)
      have hrest : (v.takeQueues true).applyEffects (t.maybeQuote c.hot r).2 =
          { ((s.shared.applyEffects es).takeQueues true).applyEffects (t.maybeQuote c.hot r).2 with
            om := t.om, lastTracked := t.lastTracked, hot := .drain } :=
        World.applyEffects_own ((s.shared.applyEffects es).takeQueues true) _ _ _ _
      rw [hrest]
      simp only [world, if_true, World.applyEffects_append, World.applyEffects_takeQueues]
  · cases hst

/-- **The process refines the live system.** -/
theorem simulates (sqrt : ℚ → ℚ) (c : LiveConfig n) :
    Trans.Simulates (step sqrt c) (fun _ => True) (World.step c.params) world (acts sqrt c) where
  keeps _ _ _ _ _ := trivial
  sim s a s' _ hst := by
    cases a with
    | hot a =>
      cases a with
      | orderBook msg r => exact run_orderBook hst
      | ticker bestBid bestAsk now =>
        cases hst
        obtain ⟨bbo, hbbo⟩ := s.task.onTicker_eq bestBid bestAsk now
        simp only [acts, world, Trans.run_nil, hbbo]
      | disconnect =>
        cases hst
        rfl
    | other a =>
      rw [step] at hst
      split at hst
      · cases hst
      · rename_i ha
        obtain ⟨w, hw, rfl⟩ := Option.map_eq_some_iff.mp hst
        obtain ⟨hom, hlast, hhot⟩ := World.step_own (Bool.eq_false_iff.mpr ha) hw
        rw [world_shared s hom hlast hhot]
        exact Option.bind_eq_some_iff.mpr ⟨w, hw, rfl⟩

theorem start_world (sqrt : ℚ → ℚ) (c : LiveConfig n) : (start sqrt c).world = .start c.params n := by
  simp only [world, start, HotTask.new, World.start, c.market]

/-- What holds in every state that the live system reaches holds of the process. -/
theorem reach_world {s : Process n} (h : Trans.Reach (step sqrt c) (start sqrt c) s) :
    Trans.Reach (World.step c.params) (.start c.params n) s.world := by
  have hreach := (simulates sqrt c).reach trivial h
  rwa [start_world] at hreach

/-- **The process refines the live system**: every run of the hot task on its messages, with the other parties
in any order between its calls, is a run of the live system step by step. The order manager, the mailbox, the
queues, the published ids and the freshness stamp at its end are those of the process. -/
theorem process_refines_world (sqrt : ℚ → ℚ) (c : LiveConfig n) (as : List (ProcessAct n)) (s : Process n)
    (h : Trans.run (step sqrt c) (start sqrt c) as = some s) :
    Trans.run (World.step c.params) (.start c.params n)
      (Trans.actsOf (step sqrt c) (acts sqrt c) (start sqrt c) as) = some s.world := by
  rw [← start_world sqrt c]
  exact (simulates sqrt c).run trivial h

/-- The configuration of the runs on fixed inputs. -/
def quickLive : LiveConfig 1 := ⟨.shipped, HotTask.quickConfig, rfl, rfl⟩

/-- A second passes, and a snapshot of the book arrives. -/
def secondOf (now : ℕ) : List (ProcessAct 1) :=
  [.other (.env (.tick 1)), .hot (.orderBook HotTask.bookSnapshot (HotTask.flatReads now []))]

/-- The engine warms up on two snapshots; the sender takes the ladder and the exchange accepts it. -/
def acceptedLadder : List (ProcessAct 1) :=
  secondOf 1 ++ secondOf 2 ++ (World.takeActs ++ World.writeActs ++ World.acceptedActs).map .other

theorem process_refines_world_accepted : ∃ s : Process 1, s.shared.desk.venue.live.length = 2 ∧
    Trans.run (World.step .shipped) (.start .shipped 1)
      (Trans.actsOf (step id quickLive) (acts id quickLive) (start id quickLive) acceptedLadder) = some s.world := by
  obtain ⟨s, hs, h⟩ := Option.map_eq_some_iff.mp
    (show (Trans.run (step id quickLive) (start id quickLive) acceptedLadder).map (fun s =>
      decide (s.shared.desk.venue.live.length = 2)) = some true by decide +kernel)
  exact ⟨s, of_decide_eq_true h, process_refines_world id quickLive acceptedLadder s hs⟩

end Process

end LighterMM
