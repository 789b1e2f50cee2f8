import LighterMM.System.Frames

/-!
# Shutdown is final

Shutdown sets `halt` before it waits for the lock, and the sender looks at `halt` again after it has
the lock. So when shutdown has the lock, the sender is in no critical section (`shutdown_quiet`),
and it never gets into one again: whatever the parties do afterwards, no frame is written and no
order appears (`shutdown_final`).
-/

namespace LighterMM

namespace World

variable {n : ℕ} {p : Params} {w w' : World n}

/-- Shutdown has begun only if the halt flag is set; once it has had the lock, the sender is outside
its critical section. -/
structure ShutdownQuiet (w : World n) : Prop where
  halt : w.shutdown ≠ .running → w.halt = true
  quiet : w.shutdown.pastLock = true → w.sender.holdsLock = false

theorem pastLock_ne_running {s : ShutdownPc} (h : s.pastLock = true) : s ≠ .running := by
  rintro rfl
  cases h

/-- The sender's way into the critical section is shut by the halt flag. -/
theorem senderStep_quiet {a : SenderAct} (hhalt : w.halt = true) (hq : w.sender.holdsLock = false)
    (h : w.senderStep p a = some w') :
    w'.sender.holdsLock = false ∧ w'.desk.venue = w.desk.venue ∧ a ≠ .write := by
  cases senderStep_cases h with
  | recover | dropped => exact ⟨hq, rfl, by simp⟩
  | refused _ _ hkept | taken _ _ hkept => exact absurd (.inr hhalt) hkept
  | passed | skipped | halted | die => exact ⟨rfl, rfl, by simp⟩
  | locked _ _ hrunning =>
    rw [hhalt] at hrunning
    cases hrunning
  | signed hpc | unsigned hpc | signTaskDied _ hpc | write hpc | notSent hpc | execute _ hpc | note hpc
  | settle _ hpc | finish _ hpc | dieWritten _ hpc =>
    rw [hpc] at hq
    cases hq

theorem ShutdownQuiet.shutdownStep {a : ShutdownAct} (h : w.ShutdownQuiet)
    (hst : w.shutdownStep a = some w') : w'.ShutdownQuiet := by
  cases shutdownStep_cases hst with
  | halt => exact ⟨fun _ => rfl, fun hp => by cases hp⟩
  | lock hpc hfree =>
    refine ⟨fun _ => h.halt (by rw [hpc]; simp), fun _ => ?_⟩
    simp only [lockFree, Bool.and_eq_true, Bool.not_eq_true'] at hfree
    exact hfree.1
  | abort hpc | cancelAll _ hpc | exit hpc =>
    exact ⟨fun _ => h.halt (by rw [hpc]; simp), fun _ => h.quiet (by rw [hpc]; rfl)⟩

/-- A step that leaves the flags and the sender alone. -/
theorem ShutdownQuiet.congr (h : w.ShutdownQuiet) (hhalt : w'.halt = w.halt)
    (hpc : w'.shutdown = w.shutdown) (hsender : w'.sender = w.sender) : w'.ShutdownQuiet := by
  obtain ⟨h₁, h₂⟩ := h
  exact ⟨by rwa [hhalt, hpc], by rwa [hpc, hsender]⟩

theorem ShutdownQuiet.step {a : Act n} (h : w.ShutdownQuiet) (hst : w.step p a = some w') :
    w'.ShutdownQuiet := by
  cases a with
  | hot a =>
    have hf := hotStep_frame hst
    exact h.congr hf.halt hf.shutdown hf.sender
  | sender a =>
    have hf := senderStep_frame hst
    refine ⟨by rw [hf.shutdown, hf.halt]; exact h.halt, fun hp => ?_⟩
    rw [hf.shutdown] at hp
    exact (senderStep_quiet (h.halt (pastLock_ne_running hp)) (h.quiet hp) hst).1
  | poller a =>
    have hf := pollerStep_frame hst
    exact h.congr hf.halt hf.shutdown hf.sender
  | shutdown a => exact h.shutdownStep hst
  | env a =>
    have hf := envStep_frame hst
    exact h.congr hf.halt hf.shutdown hf.sender

/-- **When shutdown has the lock, the sender is in no critical section.** -/
theorem shutdown_quiet (h : Trans.Reach (step p) (start p n) w) : w.ShutdownQuiet := by
  refine h.invariant ⟨fun hne => absurd rfl hne, fun hp => by cases hp⟩ ?_
  intro s a s' hs _ hst
  exact hs.step hst

/-- Shutdown never goes back before the lock. -/
theorem pastLock_step {a : Act n} (h : w.shutdown.pastLock = true) (hst : w.step p a = some w') :
    w'.shutdown.pastLock = true := by
  cases a with
  | hot a => rw [(hotStep_frame hst).shutdown]; exact h
  | sender a => rw [(senderStep_frame hst).shutdown]; exact h
  | poller a => rw [(pollerStep_frame hst).shutdown]; exact h
  | env a => rw [(envStep_frame hst).shutdown]; exact h
  | shutdown a =>
    cases shutdownStep_cases hst with
    | halt hpc =>
      rw [hpc] at h
      cases h
    | lock | abort | cancelAll | exit => rfl

/-- What one step after the lock leaves: no frame is written, no order is created. -/
theorem pastLock_frame {a : Act n} (hq : w.ShutdownQuiet) (h : w.shutdown.pastLock = true)
    (hst : w.step p a = some w') :
    a ≠ .sender .write ∧ w'.desk.venue.created = w.desk.venue.created ∧
      w'.desk.venue.live.Sublist w.desk.venue.live := by
  cases a with
  | hot a =>
    have hf := hotStep_frame hst
    exact ⟨by simp, by rw [hf.desk], by rw [hf.desk]⟩
  | sender a =>
    obtain ⟨-, hv, hw⟩ := senderStep_quiet (hq.halt (pastLock_ne_running h)) (hq.quiet h) hst
    exact ⟨by simpa using hw, by rw [hv], by rw [hv]⟩
  | poller a =>
    have hf := pollerStep_frame hst
    exact ⟨by simp, hf.created, hf.live⟩
  | shutdown a =>
    have hf := shutdownStep_frame hst
    exact ⟨by simp, hf.created, hf.live⟩
  | env a =>
    have hf := envStep_frame hst
    exact ⟨by simp, hf.created, hf.live⟩

/-- After the lock, a run writes nothing and creates nothing. -/
theorem run_after_lock {as : List (Act n)} (hq : w.ShutdownQuiet) (h : w.shutdown.pastLock = true)
    (hrun : Trans.run (step p) w as = some w') :
    .sender .write ∉ as ∧ w'.desk.venue.created = w.desk.venue.created ∧
      w'.desk.venue.live.Sublist w.desk.venue.live := by
  induction as generalizing w with
  | nil =>
    cases hrun
    exact ⟨List.not_mem_nil, rfl, .refl _⟩
  | cons a as ih =>
    rw [Trans.run_cons] at hrun
    obtain ⟨t, ht, hrest⟩ := Option.bind_eq_some_iff.mp hrun
    obtain ⟨hne, hcreated, hlive⟩ := pastLock_frame hq h ht
    obtain ⟨hmem, hcreated', hlive'⟩ := ih (hq.step ht) (pastLock_step h ht) hrest
    refine ⟨?_, hcreated'.trans hcreated, hlive'.trans hlive⟩
    rw [List.mem_cons, not_or]
    exact ⟨hne.symm, hmem⟩

/-- The check that shutdown passed read a flat book, and it still is. -/
def ConfirmedFlat (w : World n) : Prop :=
  w.shutdown.confirmedFlat = true → w.desk.venue.live = []

theorem confirmedFlat_pastLock {s : ShutdownPc} (h : s.confirmedFlat = true) : s.pastLock = true := by
  cases s <;> first | rfl | cases h

theorem ConfirmedFlat.step {a : Act n} (h : w.ConfirmedFlat) (hq : w.ShutdownQuiet)
    (hst : w.step p a = some w') : w'.ConfirmedFlat := by
  intro hc
  -- Either this step is the check, or the check was before it.
  by_cases hprev : w.shutdown.confirmedFlat = true
  · have hlive := (pastLock_frame hq (confirmedFlat_pastLock hprev) hst).2.2
    rw [h hprev] at hlive
    exact List.sublist_nil.mp hlive
  · cases a with
    | hot a => rw [(hotStep_frame hst).shutdown] at hc; exact absurd hc hprev
    | sender a => rw [(senderStep_frame hst).shutdown] at hc; exact absurd hc hprev
    | poller a => rw [(pollerStep_frame hst).shutdown] at hc; exact absurd hc hprev
    | env a => rw [(envStep_frame hst).shutdown] at hc; exact absurd hc hprev
    | shutdown a =>
      cases shutdownStep_cases hst with
      | halt | lock | abort => cases hc
      | cancelAll attempts => exact Desk.cancelAllAndVerify_flat hc
      | exit hpc =>
        rw [hpc] at hprev
        exact absurd hc hprev

theorem confirmed_flat (h : Trans.Reach (step p) (start p n) w) : w.ConfirmedFlat := by
  have hinv : w.ShutdownQuiet ∧ w.ConfirmedFlat := by
    refine h.invariant (I := fun w => w.ShutdownQuiet ∧ w.ConfirmedFlat)
      ⟨shutdown_quiet .refl, fun hc => by cases hc⟩ ?_
    rintro s a s' ⟨hq, hc⟩ - hst
    exact ⟨hq.step hst, hc.step hq hst⟩
  exact hinv.2

/-- **Shutdown is final.** From any reachable state in which shutdown has acquired the lock, no run of
the parties, in any order, writes a frame or creates an order; and after the verified-flat check the
book is flat and stays so. -/
theorem shutdown_final {as : List (Act n)} (h : Trans.Reach (step p) (start p n) w)
    (hlock : w.shutdown.pastLock = true) (hrun : Trans.run (step p) w as = some w') :
    .sender .write ∉ as ∧ w'.desk.venue.created = w.desk.venue.created ∧
      (w.shutdown.confirmedFlat = true → w'.desk.venue.live = []) := by
  obtain ⟨hmem, hcreated, hlive⟩ := run_after_lock (shutdown_quiet h) hlock hrun
  refine ⟨hmem, hcreated, fun hflat => ?_⟩
  rw [confirmed_flat h hflat] at hlive
  exact List.sublist_nil.mp hlive

/-- A batch leaves the rate gate; shutdown takes the lock and verifies a flat book. -/
def haltRound : List (Act 1) :=
  [.sender (.gate true), .shutdown .halt, .shutdown .lock, .shutdown .abort,
    .shutdown (.cancelAll fun _ => ⟨true, .accepted, true, true⟩)]

/-- The sender waits for the lock with a batch when shutdown takes it. -/
def shutdownActs : List (Act 1) := tickActs (bidAt 100 1000) ++ takeActs ++ haltRound

/-- The lock is free again, the sender gets it, and the hot task goes on quoting. -/
def afterExitActs : List (Act 1) :=
  [.shutdown .exit, .sender .lock, .hot (.book true), .hot .drain, .hot .drained, .hot .reconcile,
    .hot (.quote (bidAt 101 2000)), .hot .send, .sender .take]

theorem shutdown_final_waiting_sender :
    ∃ w w' : World 1, Trans.run (step .shipped) (start .shipped 1) shutdownActs = some w ∧
      Trans.run (step .shipped) w afterExitActs = some w' ∧ w.shutdown.confirmedFlat = true ∧
      w'.desk.venue.live = [] := by
  obtain ⟨w, hw, hpc⟩ := Option.map_eq_some_iff.mp
    (show (Trans.run (step .shipped) (start .shipped 1) shutdownActs).map (·.shutdown) =
      some (.verified true) by decide +kernel)
  have hrun : (Trans.run (step .shipped) (start .shipped 1) (shutdownActs ++ afterExitActs)).isSome := by
    decide +kernel
  rw [Trans.run_append, hw] at hrun
  obtain ⟨w', hw'⟩ := Option.isSome_iff_exists.mp hrun
  have hfinal := shutdown_final (Trans.reach_iff_run.mpr ⟨_, hw⟩) (by rw [hpc]; rfl) hw'
  exact ⟨w, w', hw, hw', by rw [hpc]; rfl, hfinal.2.2 (by rw [hpc]; rfl)⟩

end World

end LighterMM
