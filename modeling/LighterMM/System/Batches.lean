import LighterMM.System.OneOrder
import LighterMM.Hot.Occupancy

/-!
# The batches of the live system

A batch goes from the hot task through the mailbox to the sender, and no step changes its ops. So what
holds of the batch of each cycle, and of the empty one, holds of all batches on the way (`Batches.step`).
-/

namespace LighterMM

variable {n : ℕ}

namespace World

variable {p : Params} {w w' : World n} {P : List (BatchOp n) → Prop}

/-- The batches of the hot task, of the mailbox, and of the sender until the exchange decides. -/
structure Batches (P : List (BatchOp n) → Prop) (w : World n) : Prop where
  mailbox : P w.mailbox.value
  hot : P w.hot.batch
  sender : P w.sender.unexecuted

theorem start_batches (hnil : P []) : (start p n).Batches P := ⟨hnil, hnil, hnil⟩

theorem Batches.mono {Q : List (BatchOp n) → Prop} (h : w.Batches P) (himp : ∀ ops, P ops → Q ops) :
    w.Batches Q := ⟨himp _ h.mailbox, himp _ h.hot, himp _ h.sender⟩

theorem Batches.congr (h : w.Batches P) (hm : w'.mailbox = w.mailbox) (hh : w'.hot = w.hot)
    (hs : w'.sender = w.sender) : w'.Batches P :=
  ⟨hm ▸ h.mailbox, hh ▸ h.hot, hs ▸ h.sender⟩

/-- The hot task moves on; it holds no batch or the one before. -/
theorem Batches.moveHot (hnil : P []) (h : w.Batches P) {w' : World n} (hm : w'.mailbox = w.mailbox)
    (hs : w'.sender = w.sender) (hh : w'.hot.batch = [] ∨ w'.hot = w.hot) : w'.Batches P := by
  refine ⟨hm ▸ h.mailbox, ?_, hs ▸ h.sender⟩
  rcases hh with hh | hh
  · rw [hh]
    exact hnil
  · rw [hh]
    exact h.hot

theorem Batches.hotStep {a : HotAct n} (hnil : P []) (h : w.Batches P)
    (hquote : ∀ d, a = .quote d → P (w.om.emitted w.clock d)) (hst : w.hotStep a = some w') :
    w'.Batches P := by
  have hbatch : ∀ d, a = .quote d → P (HotPc.sending (w.om.cycle w.clock d).2).batch := by
    intro d hd
    have hemitted : (HotPc.sending (w.om.cycle w.clock d).2).batch = w.om.emitted w.clock d := by
      unfold OrderManager.emitted
      cases (w.om.cycle w.clock d).2 <;> rfl
    rw [hemitted]
    exact hquote d hd
  cases hotStep_cases hst with
  | book hasMid => exact h.moveHot hnil rfl rfl (.inl (by cases hasMid <;> rfl))
  | resnapshot => exact ⟨hnil, h.hot, h.sender⟩
  | drain => exact ⟨h.mailbox, h.hot, h.sender⟩
  | drained | noSnapshot | reconcile | noBatch => exact h.moveHot hnil rfl rfl (.inl rfl)
  | @ladder levels args =>
    obtain ⟨hframe, -, hhot, hmail, -⟩ := publishTracked_frame
      { w with om := (w.om.cycle w.clock (.ladder levels args)).1,
               hot := .sending (w.om.cycle w.clock (.ladder levels args)).2 }
    exact Batches.congr (w := { w with hot := .sending (w.om.cycle w.clock (.ladder levels args)).2 })
      ⟨h.mailbox, hbatch _ rfl, h.sender⟩ hmail hhot hframe.sender
  | noLadder => exact ⟨h.mailbox, hbatch _ rfl, h.sender⟩
  | send hpc =>
    have hops := h.hot
    rw [hpc] at hops
    exact ⟨hops, hnil, h.sender⟩

/-- The sender moves on, with its batch or without one. -/
theorem Batches.moveSender (hnil : P []) (h : w.Batches P) {w' : World n} (hm : w'.mailbox = w.mailbox)
    (hh : w'.hot = w.hot) (hs : w'.sender.unexecuted = [] ∨ w'.sender.unexecuted = w.sender.unexecuted) :
    w'.Batches P := by
  refine ⟨hm ▸ h.mailbox, hh ▸ h.hot, ?_⟩
  rcases hs with hs | hs
  · rw [hs]
    exact hnil
  · rw [hs]
    exact h.sender

theorem Batches.senderStep {a : SenderAct} (hnil : P []) (h : w.Batches P)
    (hst : w.senderStep p a = some w') : w'.Batches P := by
  cases senderStep_cases hst with
  | recover | dropped | refused => exact ⟨h.mailbox, h.hot, h.sender⟩
  | taken hpc hpending =>
    have hops : P _ := (Watch.pending_eq_some.mp hpending).2 ▸ h.mailbox
    exact ⟨h.mailbox, h.hot, hops⟩
  | passed hpc | locked hpc | write hpc => exact h.moveSender hnil rfl rfl (.inr (by rw [hpc]; rfl))
  | signed hpc hok =>
    refine h.moveSender hnil rfl rfl (.inr ?_)
    rw [hpc]
    exact (signBatch_ok hok).2
  | _ => exact h.moveSender hnil rfl rfl (.inl rfl)

/-- **A step carries the batches on.** -/
theorem Batches.step {a : Act n} (hnil : P []) (h : w.Batches P)
    (hquote : ∀ d, a = .hot (.quote d) → P (w.om.emitted w.clock d)) (hst : w.step p a = some w') :
    w'.Batches P := by
  cases a with
  | hot b => exact h.hotStep hnil (fun d hd => hquote d (congrArg Act.hot hd)) hst
  | sender b => exact h.senderStep hnil hst
  | poller b =>
    have hf := pollerStep_frame hst
    exact h.congr hf.mailbox hf.hot hf.sender
  | shutdown b =>
    have hf := shutdownStep_frame hst
    exact h.congr hf.mailbox hf.hot hf.sender
  | env b =>
    have hf := envStep_frame hst
    exact h.congr hf.mailbox hf.hot hf.sender

end World

end LighterMM
