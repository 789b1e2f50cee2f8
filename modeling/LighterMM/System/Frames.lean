import LighterMM.System.Cases

/-!
# What each party leaves alone

A step of one party changes the fields of that party and the shared ones it writes. The proofs
about runs use these frames and never unfold the steps of the parties they are not about.
-/

namespace LighterMM

namespace World

variable {n : ℕ} {p : Params} {w w' : World n}

/-- The hot task writes its order manager, the mailbox, the published ids and the stamp, and takes
from the queues. -/
structure HotFrame (w w' : World n) : Prop where
  clock : w'.clock = w.clock
  halt : w'.halt = w.halt
  desk : w'.desk = w.desk
  sender : w'.sender = w.sender
  poller : w'.poller = w.poller
  prevOrphans : w'.prevOrphans = w.prevOrphans
  shutdown : w'.shutdown = w.shutdown

theorem publishTracked_frame (w : World n) :
    HotFrame w w.publishTracked ∧ w.publishTracked.om = w.om ∧ w.publishTracked.hot = w.hot ∧
      w.publishTracked.mailbox = w.mailbox ∧ w.publishTracked.events = w.events ∧
      w.publishTracked.reconcileSwap = w.reconcileSwap := by
  unfold publishTracked
  split
  · exact ⟨⟨rfl, rfl, rfl, rfl, rfl, rfl, rfl⟩, rfl, rfl, rfl, rfl, rfl⟩
  · exact ⟨⟨rfl, rfl, rfl, rfl, rfl, rfl, rfl⟩, rfl, rfl, rfl, rfl, rfl⟩

theorem hotStep_frame {a : HotAct n} (h : w.hotStep a = some w') : HotFrame w w' := by
  cases hotStep_cases h with
  | ladder =>
    obtain ⟨⟨h₁, h₂, h₃, h₄, h₅, h₆, h₇⟩, -⟩ := publishTracked_frame _
    exact ⟨h₁, h₂, h₃, h₄, h₅, h₆, h₇⟩
  | _ => exact ⟨rfl, rfl, rfl, rfl, rfl, rfl, rfl⟩

/-- The poller creates nothing and fills nothing: it may cancel, and it moves the risk controller, the
nonce and its own fields. -/
structure PollerFrame (w w' : World n) : Prop where
  clock : w'.clock = w.clock
  om : w'.om = w.om
  hot : w'.hot = w.hot
  mailbox : w'.mailbox = w.mailbox
  events : w'.events = w.events
  trackedIds : w'.trackedIds = w.trackedIds
  mdStamp : w'.mdStamp = w.mdStamp
  halt : w'.halt = w.halt
  sender : w'.sender = w.sender
  shutdown : w'.shutdown = w.shutdown
  created : w'.desk.venue.created = w.desk.venue.created
  live : w'.desk.venue.live.Sublist w.desk.venue.live

theorem CancelFrame_live {d d' : Desk n} (h : Desk.CancelFrame d d') :
    d'.venue.live.Sublist d.venue.live := by
  rcases h.live with he | he <;> rw [he]
  exact List.nil_sublist _

/-- A step that changes the desk and the poller's own fields only. -/
theorem PollerFrame.ofDesk {d : Desk n} {rs : Option (List RemoteOrder)} {pc : PollerPc} {po : List ℤ}
    (hc : d.venue.created = w.desk.venue.created) (hl : d.venue.live.Sublist w.desk.venue.live) :
    PollerFrame w { w with desk := d, reconcileSwap := rs, poller := pc, prevOrphans := po } :=
  ⟨rfl, rfl, rfl, rfl, rfl, rfl, rfl, rfl, rfl, rfl, hc, hl⟩

/-- What the poller writes: the desk, the snapshot and its own fields. -/
theorem pollerStep_own {a : PollerAct} (h : w.pollerStep p a = some w') :
    ∃ (d : Desk n) (rs : Option (List RemoteOrder)) (pc : PollerPc) (po : List ℤ),
      w' = { w with desk := d, reconcileSwap := rs, poller := pc, prevOrphans := po } ∧
        d.venue.created = w.desk.venue.created ∧ d.venue.live.Sublist w.desk.venue.live := by
  cases pollerStep_cases h with
  | stale =>
    unfold deadmanCheck
    split <;> exact ⟨_, _, _, _, rfl, rfl, .refl _⟩
  | deadmanCancel attempts | overCapCancel attempts =>
    have hf := w.desk.cancelAllAndVerify_frame attempts
    exact ⟨_, _, _, _, rfl, hf.created, CancelFrame_live hf⟩
  | deliver =>
    unfold markSnapshot
    split
    · exact ⟨_, _, _, _, rfl, rfl, .refl _⟩
    · split <;> exact ⟨_, _, _, _, rfl, rfl, .refl _⟩
  | resync ok =>
    have hv : (w.desk.resyncNonce ok).venue = w.desk.venue := by cases ok <;> rfl
    exact ⟨_, _, _, _, rfl, by rw [hv], by rw [hv]⟩
  | orphan s =>
    exact ⟨_, _, _, _, rfl, (w.desk.orphanCancel_frame _ s).created, (w.desk.orphanCancel_frame _ s).live⟩
  | fresh | fetchFailed | fetch | nonceCheck | endLoop => exact ⟨_, _, _, _, rfl, rfl, .refl _⟩

theorem pollerStep_frame {a : PollerAct} (h : w.pollerStep p a = some w') : PollerFrame w w' := by
  obtain ⟨d, rs, pc, po, rfl, hc, hl⟩ := pollerStep_own h
  exact .ofDesk hc hl

/-- Shutdown sets the halt flag and cancels; it touches neither the hot task nor the sender. -/
structure ShutdownFrame (w w' : World n) : Prop where
  clock : w'.clock = w.clock
  om : w'.om = w.om
  hot : w'.hot = w.hot
  mailbox : w'.mailbox = w.mailbox
  events : w'.events = w.events
  reconcileSwap : w'.reconcileSwap = w.reconcileSwap
  trackedIds : w'.trackedIds = w.trackedIds
  mdStamp : w'.mdStamp = w.mdStamp
  sender : w'.sender = w.sender
  poller : w'.poller = w.poller
  risk : w'.desk.risk = w.desk.risk
  nonceOk : w'.desk.nonceOk = w.desk.nonceOk
  created : w'.desk.venue.created = w.desk.venue.created
  live : w'.desk.venue.live.Sublist w.desk.venue.live

theorem ShutdownFrame.ofFlags {b : Bool} {pc : ShutdownPc} :
    ShutdownFrame w { w with halt := b, shutdown := pc } :=
  ⟨rfl, rfl, rfl, rfl, rfl, rfl, rfl, rfl, rfl, rfl, rfl, rfl, rfl, .refl _⟩

theorem shutdownStep_frame {a : ShutdownAct} (h : w.shutdownStep a = some w') : ShutdownFrame w w' := by
  cases shutdownStep_cases h with
  | cancelAll attempts =>
    have hf := w.desk.cancelAllAndVerify_frame attempts
    exact ⟨rfl, rfl, rfl, rfl, rfl, rfl, rfl, rfl, rfl, rfl, hf.risk, hf.nonceOk, hf.created,
      CancelFrame_live hf⟩
  | halt | lock | abort | exit => exact .ofFlags

/-- The environment moves the clock, adds events and takes orders off the book. -/
structure EnvFrame (w w' : World n) : Prop where
  clock : w.clock ≤ w'.clock
  om : w'.om = w.om
  hot : w'.hot = w.hot
  mailbox : w'.mailbox = w.mailbox
  reconcileSwap : w'.reconcileSwap = w.reconcileSwap
  trackedIds : w'.trackedIds = w.trackedIds
  mdStamp : w'.mdStamp = w.mdStamp
  halt : w'.halt = w.halt
  sender : w'.sender = w.sender
  poller : w'.poller = w.poller
  shutdown : w'.shutdown = w.shutdown
  nonce : w'.desk.nonce = w.desk.nonce
  nonceOk : w'.desk.nonceOk = w.desk.nonceOk
  risk : w'.desk.risk = w.desk.risk
  created : w'.desk.venue.created = w.desk.venue.created
  live : w'.desk.venue.live.Sublist w.desk.venue.live

theorem envStep_frame {a : EnvAct} (h : w.envStep a = some w') : EnvFrame w w' := by
  cases envStep_cases h with
  | @tick dt hdt =>
    refine ⟨?_, rfl, rfl, rfl, rfl, rfl, rfl, rfl, rfl, rfl, rfl, rfl, rfl, rfl, rfl, .refl _⟩
    show w.clock ≤ w.clock + dt
    linarith
  | idResolved | fill =>
    exact ⟨le_refl _, rfl, rfl, rfl, rfl, rfl, rfl, rfl, rfl, rfl, rfl, rfl, rfl, rfl, rfl, .refl _⟩
  | drop =>
    exact ⟨le_refl _, rfl, rfl, rfl, rfl, rfl, rfl, rfl, rfl, rfl, rfl, rfl, rfl, rfl, rfl,
      List.filter_sublist⟩

@[simp] theorem canTrade_venue (w : World n) : w.canTrade.1.desk.venue = w.desk.venue := rfl

/-- The sender leaves the order manager, the clock, the halt flag and the other tasks alone. -/
structure SenderFrame (w w' : World n) : Prop where
  clock : w'.clock = w.clock
  om : w'.om = w.om
  hot : w'.hot = w.hot
  reconcileSwap : w'.reconcileSwap = w.reconcileSwap
  trackedIds : w'.trackedIds = w.trackedIds
  mdStamp : w'.mdStamp = w.mdStamp
  halt : w'.halt = w.halt
  poller : w'.poller = w.poller
  shutdown : w'.shutdown = w.shutdown

/-- A step that changes the desk, the mailbox, the queue of events and the sender only. -/
theorem SenderFrame.ofOwn {d : Desk n} {mb : Watch (List (BatchOp n))} {ev : List (OrderEvent n)}
    {pc : SenderPc n} : SenderFrame w { w with desk := d, mailbox := mb, events := ev, sender := pc } :=
  ⟨rfl, rfl, rfl, rfl, rfl, rfl, rfl, rfl, rfl⟩

/-- What the sender writes: the desk, the mailbox's mark, the event queue and its own field. -/
theorem senderStep_own {a : SenderAct} (h : w.senderStep p a = some w') :
    ∃ (d : Desk n) (mb : Watch (List (BatchOp n))) (ev : List (OrderEvent n)) (pc : SenderPc n),
      w' = { w with desk := d, mailbox := mb, events := ev, sender := pc } := by
  cases senderStep_cases h <;> exact ⟨_, _, _, _, rfl⟩

theorem senderStep_frame {a : SenderAct} (h : w.senderStep p a = some w') : SenderFrame w w' := by
  obtain ⟨d, mb, ev, pc, rfl⟩ := senderStep_own h
  exact .ofOwn

end World

end LighterMM
