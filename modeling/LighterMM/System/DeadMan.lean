import LighterMM.System.Frames

/-!
# The dead-man switch

With market data stale, an iteration of the poller pauses trading and cancels all, once for each
pause: `pause_cancel_done` is set before the cancel-all is issued and reset whenever a pause is
armed or cleared. `skip_after_deadman_cancel` says what the flag means over whole runs: an iteration
that skips the cancel-all has one behind it in the same pause, whatever that one returned.
-/

namespace LighterMM

namespace World

variable {n : ℕ} {p : Params} {w w' : World n}

/-- The dead-man's cancel-all that a step issues, if any: in which pause, and what it returned. -/
def deadmanCancelOf (w : World n) : Act n → List (ℕ × Bool)
  | .poller (.deadmanCancel attempts) =>
    [(w.desk.risk.pausesLogged, (w.desk.cancelAllAndVerify attempts).2)]
  | _ => []

/-- The dead-man's cancel-alls of a run. A pause is named by the number of pauses logged so far. -/
def deadmanCancels (p : Params) : World n → List (Act n) → List (ℕ × Bool)
  | _, [] => []
  | w, a :: as =>
    match w.step p a with
    | none => []
    | some w' => w.deadmanCancelOf a ++ deadmanCancels p w' as

/-- The next iteration skips the cancel-all although market data are stale, because
`pause_cancel_done` is set. -/
def SkipsCancel (p : Params) (w : World n) : Prop :=
  w.poller = .idle ∧ w.mdStale p = true ∧ w.deadmanRisk.pauseCancelDone = true

theorem deadmanCancels_concat {as : List (Act n)} {a : Act n} {s : World n}
    (h : Trans.run (step p) w as = some s) (hst : s.step p a = some w') :
    deadmanCancels p w (as ++ [a]) = deadmanCancels p w as ++ s.deadmanCancelOf a := by
  induction as generalizing w with
  | nil =>
    cases h
    simp [deadmanCancels, hst]
  | cons b as ih =>
    rw [Trans.run_cons] at h
    obtain ⟨t, ht, hrest⟩ := Option.bind_eq_some_iff.mp h
    simp only [List.cons_append, deadmanCancels, ht]
    rw [ih hrest, List.append_assoc]

/-- The done flag and the pause stay, or the flag is cleared. -/
def DoneKept (r r' : RiskController) : Prop :=
  (r'.pauseCancelDone = r.pauseCancelDone ∧ r'.pausesLogged = r.pausesLogged) ∨
    r'.pauseCancelDone = false

theorem DoneKept.refl (r : RiskController) : DoneKept r r := .inl ⟨rfl, rfl⟩

theorem DoneKept.trans {r r' r'' : RiskController} (h : DoneKept r r') (h' : DoneKept r' r'') :
    DoneKept r r'' := by
  rcases h' with ⟨hd', hp'⟩ | hd'
  · rcases h with ⟨hd, hp⟩ | hd
    · exact .inl ⟨hd'.trans hd, hp'.trans hp⟩
    · exact .inr (hd'.trans hd)
  · exact .inr hd'

theorem doneKept_maybeRecover (r : RiskController) (now : Instant) (healthy : Bool) :
    DoneKept r (r.maybeRecover now healthy).1 := by
  obtain ⟨hp, hd | hd⟩ := r.maybeRecover_cases now healthy
  · exact .inl ⟨hd, hp⟩
  · exact .inr hd

theorem doneKept_triggerPause {r r' : RiskController} (now : Instant) (reason : PauseReason) :
    DoneKept r (r'.triggerPause now reason) := .inr rfl

/-! ## The sender and the flag -/

theorem doneKept_noteResult (d : Desk n) (now : Instant) (k : ℕ) (r : TxSendResult) :
    DoneKept d.risk (d.noteResult now k r).risk := by
  cases r with
  | rejected kind =>
    rcases d.risk.recordRejection_cases now kind with h | h
    · exact .inl h
    · exact .inr h.1
  | ok quota => exact .inl ⟨rfl, rfl⟩
  | unknown => exact .refl _
  | notSent => exact .refl _

theorem doneKept_resync (d : Desk n) (now : Instant) (script : Fin 3 → Bool) :
    DoneKept d.risk (d.resyncNonceOrPause now script).1.risk := by
  unfold Desk.resyncNonceOrPause
  simp only
  split
  · rw [(Desk.resyncLoop_frame _ d).1]
    exact .refl _
  · exact doneKept_triggerPause _ _

theorem doneKept_parkUnknown (d : Desk n) (now : Instant) (r : TxSendResult) :
    DoneKept d.risk (d.parkUnknown now r).risk := by
  cases r with
  | unknown => exact doneKept_triggerPause _ _
  | ok | rejected | notSent => exact .refl _

theorem doneKept_senderStep {a : SenderAct} (hst : w.senderStep p a = some w') :
    DoneKept w.desk.risk w'.desk.risk := by
  cases senderStep_cases hst with
  | recover | dropped | refused | taken => exact doneKept_maybeRecover _ _ _
  | note => exact doneKept_noteResult _ _ _ _
  | settle =>
    refine .trans ?_ (doneKept_parkUnknown _ _ _)
    split
    · exact doneKept_resync _ _ _
    · exact .refl _
  | finish attempts =>
    show DoneKept _ (Desk.risk (if _ then _ else _))
    split
    · rw [(Desk.cancelAllAndVerify_frame _ attempts).risk]
      exact .refl _
    · exact .refl _
  | _ => exact .refl _

/-! ## The poller and the flag -/

theorem doneKept_markFailed (reason : ReconcileReason) :
    DoneKept w.desk.risk (w.markFailed p reason).desk.risk := by
  unfold markFailed
  simp only
  split
  · exact doneKept_triggerPause _ _
  · exact .inl ⟨rfl, rfl⟩

theorem doneKept_markSnapshot (rows : List RemoteOrder) :
    DoneKept w.desk.risk (w.markSnapshot p rows).desk.risk := by
  unfold markSnapshot
  split
  · exact doneKept_triggerPause _ _
  · split
    · exact .inl ⟨rfl, rfl⟩
    · exact doneKept_markFailed _

/-- The dead-man check keeps a set flag only in the pause that set it. -/
theorem deadmanRisk_done (h : w.deadmanRisk.pauseCancelDone = true) :
    w.desk.risk.pauseCancelDone = true ∧ w.deadmanRisk.pausesLogged = w.desk.risk.pausesLogged := by
  unfold deadmanRisk at h ⊢
  simp only at h ⊢
  split at h
  · rename_i hp
    rw [if_pos hp]
    exact ⟨h, rfl⟩
  · cases h

/-- The flag is set while the cancel-all of this pause is due or after it was issued. -/
def DoneMeans (w : World n) (cancels : List (ℕ × Bool)) : Prop :=
  w.desk.risk.pauseCancelDone = true →
    w.poller = .cancelDue ∨ ∃ r ∈ cancels, r.1 = w.desk.risk.pausesLogged

theorem DoneMeans.of_kept {cancels cancels' : List (ℕ × Bool)} (h : w.DoneMeans cancels)
    (hr : DoneKept w.desk.risk w'.desk.risk) (hpc : w'.poller = w.poller ∨ w.poller ≠ .cancelDue)
    (hsub : cancels ⊆ cancels') : w'.DoneMeans cancels' := by
  intro hd
  rcases hr with ⟨hd', hp'⟩ | hd'
  · rcases h (hd' ▸ hd) with hdue | ⟨r, hr, hrp⟩
    · rcases hpc with hpc | hpc
      · exact .inl (hpc.trans hdue)
      · exact absurd hdue hpc
    · exact .inr ⟨r, hsub hr, hrp.trans hp'.symm⟩
  · rw [hd'] at hd
    cases hd

theorem DoneMeans.pollerStep {a : PollerAct} {cancels : List (ℕ × Bool)} (h : w.DoneMeans cancels)
    (hst : w.pollerStep p a = some w') :
    w'.DoneMeans (cancels ++ w.deadmanCancelOf (.poller a)) := by
  have hsub : cancels ⊆ cancels ++ w.deadmanCancelOf (.poller a) := List.subset_append_left _ _
  cases pollerStep_cases hst with
  | stale hpc =>
    unfold deadmanCheck
    split
    · rename_i hdone
      obtain ⟨hd, hp⟩ := deadmanRisk_done hdone
      rcases h hd with hdue | ⟨r, hr, hrp⟩
      · rw [hpc] at hdue
        cases hdue
      · exact fun _ => .inr ⟨r, hsub hr, hrp.trans hp.symm⟩
    · exact fun _ => .inl rfl
  | deadmanCancel attempts =>
    intro _
    have hrisk := (w.desk.cancelAllAndVerify_frame attempts).risk
    refine .inr ⟨(w.desk.risk.pausesLogged, (w.desk.cancelAllAndVerify attempts).2), ?_, ?_⟩
    · exact List.mem_append_right _ (List.mem_singleton.mpr rfl)
    · show w.desk.risk.pausesLogged = (w.desk.cancelAllAndVerify attempts).1.risk.pausesLogged
      rw [hrisk]
  | fetchFailed token hpc => exact h.of_kept (doneKept_markFailed _) (.inr (by rw [hpc]; simp)) hsub
  | deliver hpc => exact h.of_kept (doneKept_markSnapshot _) (.inr (by rw [hpc]; simp)) hsub
  | overCapCancel attempts hpc =>
    refine h.of_kept ?_ (.inr (by rw [hpc]; simp)) hsub
    show DoneKept w.desk.risk (w.desk.cancelAllAndVerify attempts).1.risk
    rw [(w.desk.cancelAllAndVerify_frame attempts).risk]
    exact .refl _
  | fresh hpc | fetch hpc | nonceCheck hpc | endLoop hpc =>
    exact h.of_kept (.refl _) (.inr (by rw [hpc]; simp)) hsub
  | resync ok hpc =>
    refine h.of_kept ?_ (.inr (by rw [hpc]; simp)) hsub
    cases ok <;> exact .refl _
  | orphan s hpc =>
    refine h.of_kept ?_ (.inr (by rw [hpc]; simp)) hsub
    show DoneKept w.desk.risk (w.desk.orphanCancel _ s).risk
    rw [(w.desk.orphanCancel_frame _ s).risk]
    exact .refl _

theorem DoneMeans.step {a : Act n} {cancels : List (ℕ × Bool)} (h : w.DoneMeans cancels)
    (hst : w.step p a = some w') : w'.DoneMeans (cancels ++ w.deadmanCancelOf a) := by
  have hsub : cancels ⊆ cancels ++ w.deadmanCancelOf a := List.subset_append_left _ _
  cases a with
  | hot a =>
    have hf := hotStep_frame hst
    exact h.of_kept (by rw [hf.desk]; exact .refl _) (.inl hf.poller) hsub
  | sender a => exact h.of_kept (doneKept_senderStep hst) (.inl (senderStep_frame hst).poller) hsub
  | poller a => exact h.pollerStep hst
  | shutdown a =>
    have hf := shutdownStep_frame hst
    exact h.of_kept (by rw [hf.risk]; exact .refl _) (.inl hf.poller) hsub
  | env a =>
    have hf := envStep_frame hst
    exact h.of_kept (by rw [hf.risk]; exact .refl _) (.inl hf.poller) hsub

/-- **An iteration that skips has cancelled in this pause.** In every run, when an iteration with stale
market data skips the cancel-all because `pause_cancel_done` is set, the dead-man has issued a
cancel-all, and it has returned, since the current pause was last armed. -/
theorem skip_after_deadman_cancel {as : List (Act n)}
    (h : Trans.run (step p) (start p n) as = some w) (hskip : w.SkipsCancel p) :
    ∃ r ∈ deadmanCancels p (start p n) as, r.1 = w.desk.risk.pausesLogged := by
  have hinv : w.DoneMeans (deadmanCancels p (start p n) as) := by
    refine Trans.run_history (P := fun as w => w.DoneMeans (deadmanCancels p (start p n) as))
      (fun hd => by cases hd) (fun as s a s' hrun hs hst => ?_) h
    rw [deadmanCancels_concat hrun hst]
    exact hs.step hst
  obtain ⟨hpc, -, hdone⟩ := hskip
  rcases hinv (deadmanRisk_done hdone).1 with hdue | hr
  · rw [hpc] at hdue
    cases hdue
  · exact hr

/-- The book goes stale, and the exchange refuses the dead-man's cancel-all five times. -/
def refusedRound : List (Act 1) :=
  [.env (.tick 11), .poller .wake, .poller (.deadmanCancel fun _ => ⟨true, .rejected, true, true⟩),
    .poller .fetch, .poller .deliver, .poller .nonceCheck, .poller .endLoop]

/-- A bid rests, and the dead-man's cancel-all is refused. -/
def staleActs : List (Act 1) :=
  tickActs (bidAt 100 1000) ++ takeActs ++ writeActs ++ acceptedActs ++ refusedRound

/-- `SkipsCancel` as a test. -/
def skipsCancel (p : Params) (w : World n) : Bool :=
  (match w.poller with
    | .idle => true
    | _ => false) && w.mdStale p && w.deadmanRisk.pauseCancelDone

theorem skipsCancel_iff : w.skipsCancel p = true ↔ w.SkipsCancel p := by
  unfold skipsCancel SkipsCancel
  rw [Bool.and_eq_true, Bool.and_eq_true, and_assoc]
  constructor
  · rintro ⟨hpc, h⟩
    refine ⟨?_, h⟩
    split at hpc
    · assumption
    · cases hpc
  · rintro ⟨hpc, h⟩
    rw [hpc]
    exact ⟨rfl, h⟩

theorem skip_after_deadman_cancel_stale :
    ∃ w : World 1, Trans.run (step .shipped) (start .shipped 1) staleActs = some w ∧
      ∃ r ∈ deadmanCancels .shipped (start .shipped 1) staleActs, r.1 = w.desk.risk.pausesLogged := by
  obtain ⟨w, hw, hskip⟩ := Option.map_eq_some_iff.mp
    (show (Trans.run (step .shipped) (start .shipped 1) staleActs).map (skipsCancel .shipped) =
      some true by decide +kernel)
  exact ⟨w, hw, skip_after_deadman_cancel hw (skipsCancel_iff.mp hskip)⟩

/-- **A failed cancel-all ends the dead-man's cancelling**: it returned `false`, the bid still rests, and
the next iteration skips. -/
theorem deadman_gives_up :
    ¬ ∀ (as : List (Act 1)) (w : World 1),
      Trans.run (step .shipped) (start .shipped 1) as = some w → w.SkipsCancel .shipped →
      ∃ r ∈ deadmanCancels .shipped (start .shipped 1) as,
        r.1 = w.desk.risk.pausesLogged ∧ r.2 = true := by
  intro h
  obtain ⟨w, hw, hskip⟩ := Option.map_eq_some_iff.mp
    (show (Trans.run (step .shipped) (start .shipped 1) staleActs).map
      (fun w => w.skipsCancel .shipped && !w.desk.venue.live.isEmpty) = some true by decide +kernel)
  rw [Bool.and_eq_true] at hskip
  obtain ⟨r, hr, -, htrue⟩ := h staleActs w hw (skipsCancel_iff.mp hskip.1)
  have hnone : (deadmanCancels .shipped (start .shipped 1) staleActs).all (!·.2) = true := by
    decide +kernel
  have := List.all_eq_true.mp hnone r hr
  rw [htrue] at this
  cases this

end World

end LighterMM
