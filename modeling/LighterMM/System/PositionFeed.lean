import LighterMM.Lib.Trans

/-!
# The shared position and its REST fallback

`SharedPosition` has two writers: the `account_all` handler, and the reconcile poller when the account
stream has been quiet for `pos_fallback_ms`. The poller checks the age of the value, requests the
position and stores the reply. The request is an await, and nothing is checked after it.

* A step is one load or store of a writer (`SharedPosition::set` is two stores), or the clock.
* Whether a read succeeds, and with what, is drawn when it starts.
* `log` is the history: updates of `account_all`, starts of REST reads, and stores of their replies.

A store is fresh if no update was applied since its read was started (`NoOverwrite`).
`rest_store_fresh` says that a run has only fresh stores exactly if no update is applied while a read
that will succeed is in flight (`Quiet`); `rest_overwrites_update` is the run without that.
-/

namespace LighterMM

/-- `SharedPosition`: the signed position, and when it was set last (`0`: never). -/
structure SharedPosition where
  value : ℚ
  lastUpdateMs : ℕ
  deriving DecidableEq, Repr

namespace SharedPosition

def new : SharedPosition := ⟨0, 0⟩

/-- The first store of `set`. -/
def storeValue (s : SharedPosition) (pos : ℚ) : SharedPosition := { s with value := pos }

/-- The second store of `set`. -/
def storeStamp (s : SharedPosition) (nowMs : ℕ) : SharedPosition := { s with lastUpdateMs := nowMs }

/-- `age_ms`, `none` for `u64::MAX` (never set). -/
def ageMs (s : SharedPosition) (nowMs : ℕ) : Option ℕ :=
  if s.lastUpdateMs = 0 then none else some (nowMs - s.lastUpdateMs)

/-- The poller's test for the fallback. -/
def fallbackDue (s : SharedPosition) (nowMs posFallbackMs : ℕ) : Bool :=
  match s.ageMs nowMs with
  | none => true
  | some age => decide (posFallbackMs < age)

end SharedPosition

inductive PositionEvent where
  /-- An `account_all` message set the position. -/
  | updated (pos : ℚ)
  | readStarted
  /-- The reply of a REST read was stored. -/
  | stored (pos : ℚ)
  deriving DecidableEq, Repr

/-- Where the `account_all` handler is. -/
inductive AccountPc where
  | idle
  | stamping
  deriving DecidableEq, Repr

/-- Where the poller is in its position fallback; `answer` is what the read in flight will return,
`none` for an error. -/
inductive FallbackPc where
  | idle
  | due
  | reading (answer : Option ℚ)
  | stamping
  deriving DecidableEq, Repr

/-- A read that will succeed is in flight. -/
def FallbackPc.willStore : FallbackPc → Bool
  | .reading (some _) => true
  | _ => false

structure PositionFeed where
  nowMs : ℕ
  shared : SharedPosition
  account : AccountPc
  fallback : FallbackPc
  log : List PositionEvent
  deriving DecidableEq, Repr

inductive PositionAct where
  | clock (nowMs : ℕ)
  | update (pos : ℚ)
  | updateStamp
  | check
  | request (answer : Option ℚ)
  | reply
  | replyStamp
  deriving DecidableEq, Repr

namespace PositionFeed

def start : PositionFeed := ⟨0, .new, .idle, .idle, []⟩

def step (posFallbackMs : ℕ) (w : PositionFeed) : PositionAct → Option PositionFeed
  | .clock nowMs => some { w with nowMs }
  | .update pos =>
    match w.account with
    | .idle =>
      some { w with shared := w.shared.storeValue pos, account := .stamping, log := w.log ++ [.updated pos] }
    | _ => none
  | .updateStamp =>
    match w.account with
    | .stamping => some { w with shared := w.shared.storeStamp w.nowMs, account := .idle }
    | _ => none
  | .check =>
    match w.fallback with
    | .idle => some (if w.shared.fallbackDue w.nowMs posFallbackMs then { w with fallback := .due } else w)
    | _ => none
  | .request answer =>
    match w.fallback with
    | .due => some { w with fallback := .reading answer, log := w.log ++ [.readStarted] }
    | _ => none
  | .reply =>
    match w.fallback with
    | .reading none => some { w with fallback := .idle }
    | .reading (some pos) =>
      some { w with shared := w.shared.storeValue pos, fallback := .stamping, log := w.log ++ [.stored pos] }
    | _ => none
  | .replyStamp =>
    match w.fallback with
    | .stamping => some { w with shared := w.shared.storeStamp w.nowMs, fallback := .idle }
    | _ => none

/-- No update is applied while a read that will succeed is in flight. -/
def Quiet (w : PositionFeed) : PositionAct → Prop
  | .update _ => w.fallback.willStore = false
  | _ => True

instance (w : PositionFeed) (a : PositionAct) : Decidable (Quiet w a) :=
  match a with
  | .update _ => inferInstanceAs (Decidable (w.fallback.willStore = false))
  | .clock _ | .updateStamp | .check | .request _ | .reply | .replyStamp => inferInstanceAs (Decidable True)

/-! ## Fresh stores -/

/-- `mid` is the history since the latest start of a read. -/
def SinceRead (log mid : List PositionEvent) : Prop :=
  (∃ before, log = before ++ .readStarted :: mid) ∧ .readStarted ∉ mid

/-- No update was applied since the latest start of a read. -/
def Fresh (log : List PositionEvent) : Prop := ∃ mid, SinceRead log mid ∧ ∀ pos, .updated pos ∉ mid

/-- A REST value is stored only if no update was applied since its read was started. -/
def NoOverwrite (log : List PositionEvent) : Prop :=
  ∀ pre pos post, log = pre ++ .stored pos :: post → Fresh pre

variable {log mid mid' : List PositionEvent} {e : PositionEvent}

theorem SinceRead.concat (h : SinceRead log mid) (he : e ≠ .readStarted) :
    SinceRead (log ++ [e]) (mid ++ [e]) := by
  obtain ⟨⟨before, rfl⟩, hmid⟩ := h
  refine ⟨⟨before, by simp⟩, fun hin => ?_⟩
  rcases List.mem_append.mp hin with hin | hin
  · exact hmid hin
  · exact he (List.mem_singleton.mp hin).symm

theorem SinceRead.start (log : List PositionEvent) : SinceRead (log ++ [.readStarted]) [] :=
  ⟨⟨log, rfl⟩, List.not_mem_nil⟩

/-- There is one latest start. -/
theorem SinceRead.unique (h : SinceRead log mid) (h' : SinceRead log mid') : mid = mid' := by
  obtain ⟨⟨before, rfl⟩, hmid⟩ := h
  obtain ⟨⟨before', heq⟩, hmid'⟩ := h'
  rcases List.append_eq_append_iff.mp heq with ⟨as, -, has⟩ | ⟨as, -, has⟩
  · cases as with
    | nil => exact (List.cons.inj has).2
    | cons a as =>
      obtain ⟨-, rfl⟩ := List.cons.inj has
      exact absurd (List.mem_append_right as List.mem_cons_self) hmid
  · cases as with
    | nil => exact (List.cons.inj has).2.symm
    | cons a as =>
      obtain ⟨-, rfl⟩ := List.cons.inj has
      exact absurd (List.mem_append_right as List.mem_cons_self) hmid'

theorem NoOverwrite.concat (h : NoOverwrite log) (he : ∀ pos, e = .stored pos → Fresh log) :
    NoOverwrite (log ++ [e]) := by
  intro pre pos post heq
  rcases List.eq_nil_or_concat post with rfl | ⟨post, e', rfl⟩
  · obtain ⟨rfl, hlast⟩ := List.append_inj' heq rfl
    exact he pos (List.cons.inj hlast).1
  · rw [List.concat_eq_append, ← List.cons_append, ← List.append_assoc] at heq
    exact h pre pos post (List.append_inj' heq rfl).1

theorem NoOverwrite.of_concat (h : NoOverwrite (log ++ [e])) : NoOverwrite log := by
  intro pre pos post heq
  refine h pre pos (post ++ [e]) ?_
  rw [heq, List.append_assoc]
  rfl

/-- An update was applied since the latest start of a read. -/
def Stale (log : List PositionEvent) : Prop := ∃ mid, SinceRead log mid ∧ ∃ pos, .updated pos ∈ mid

theorem Stale.not_fresh (h : Stale log) : ¬ Fresh log := by
  rintro ⟨mid, hmid, hno⟩
  obtain ⟨mid', hmid', pos, hpos⟩ := h
  rw [hmid'.unique hmid] at hpos
  exact hno pos hpos

theorem Fresh.stale (h : Fresh log) (pos : ℚ) : Stale (log ++ [.updated pos]) := by
  obtain ⟨mid, hmid, -⟩ := h
  exact ⟨mid ++ [.updated pos], hmid.concat (e := .updated pos) nofun, pos, by simp⟩

theorem Stale.concat (h : Stale log) (he : e ≠ .readStarted) : Stale (log ++ [e]) := by
  obtain ⟨mid, hmid, pos, hpos⟩ := h
  exact ⟨mid ++ [e], hmid.concat he, pos, List.mem_append_left _ hpos⟩

/-! ## Runs -/

variable {posFallbackMs : ℕ} {w w' : PositionFeed} {a : PositionAct} {as : List PositionAct}

/-- What a step does to the history. -/
inductive Move (w : PositionFeed) (a : PositionAct) (w' : PositionFeed) : Prop
  | silent : Quiet w a → w'.log = w.log → w'.fallback.willStore = w.fallback.willStore → Move w a w'
  | updated {pos : ℚ} : a = .update pos → w'.log = w.log ++ [.updated pos] → w'.fallback = w.fallback →
      Move w a w'
  | requested : Quiet w a → w.fallback.willStore = false → w'.log = w.log ++ [.readStarted] → Move w a w'
  | stored {pos : ℚ} : Quiet w a → w.fallback.willStore = true → w'.log = w.log ++ [.stored pos] →
      w'.fallback.willStore = false → Move w a w'

theorem step_move (hst : w.step posFallbackMs a = some w') : Move w a w' := by
  cases a with
  | clock t =>
    cases hst
    exact .silent trivial rfl rfl
  | update pos =>
    simp only [step] at hst
    split at hst <;> cases hst
    exact .updated rfl rfl rfl
  | updateStamp =>
    simp only [step] at hst
    split at hst <;> cases hst
    exact .silent trivial rfl rfl
  | check =>
    simp only [step] at hst
    split at hst <;> cases hst
    rename_i hpc
    split
    · exact .silent trivial rfl (by rw [hpc]; rfl)
    · exact .silent trivial rfl rfl
  | request answer =>
    simp only [step] at hst
    split at hst <;> cases hst
    rename_i hpc
    exact .requested trivial (by rw [hpc]; rfl) rfl
  | reply =>
    simp only [step] at hst
    split at hst <;> cases hst
    · rename_i hpc
      exact .silent trivial rfl (by rw [hpc]; rfl)
    · rename_i pos hpc
      exact .stored trivial (by rw [hpc]; rfl) rfl rfl
  | replyStamp =>
    simp only [step] at hst
    split at hst <;> cases hst
    rename_i hpc
    exact .silent trivial rfl (by rw [hpc]; rfl)

/-- All stores were fresh, and the next one will be. -/
structure Clean (w : PositionFeed) : Prop where
  log : NoOverwrite w.log
  fresh : w.fallback.willStore = true → Fresh w.log

/-- A store was not fresh, or the next one will not be. -/
inductive Broken (w : PositionFeed) : Prop
  | pending : w.fallback.willStore = true → Stale w.log → Broken w
  | stored : ¬ NoOverwrite w.log → Broken w

theorem Clean.step (h : Clean w) (hq : Quiet w a) (hst : w.step posFallbackMs a = some w') : Clean w' := by
  cases step_move hst with
  | silent _ heq hpc =>
    refine ⟨by rw [heq]; exact h.log, fun hstore => ?_⟩
    rw [heq]
    exact h.fresh (hpc.symm.trans hstore)
  | updated ha heq hpc =>
    subst ha
    have hidle : w.fallback.willStore = false := hq
    refine ⟨?_, fun hstore => ?_⟩
    · rw [heq]
      exact h.log.concat nofun
    · rw [hpc, hidle] at hstore
      cases hstore
  | requested _ _ heq =>
    refine ⟨?_, fun _ => ?_⟩
    · rw [heq]
      exact h.log.concat nofun
    · rw [heq]
      exact ⟨[], .start w.log, fun _ => List.not_mem_nil⟩
  | stored _ hpc heq hpc' =>
    refine ⟨?_, fun hstore => ?_⟩
    · rw [heq]
      exact h.log.concat fun _ _ => h.fresh hpc
    · rw [hpc'] at hstore
      cases hstore

/-- A step that is not quiet overtakes the read in flight. -/
theorem Clean.overtaken (h : Clean w) (hq : ¬ Quiet w a) (hst : w.step posFallbackMs a = some w') :
    Broken w' := by
  cases step_move hst with
  | silent hq' _ _ => exact absurd hq' hq
  | requested hq' _ _ => exact absurd hq' hq
  | stored hq' _ _ _ => exact absurd hq' hq
  | @updated pos ha heq hpc =>
    subst ha
    have hstore : w.fallback.willStore = true := Bool.of_not_eq_false hq
    refine .pending (by rw [hpc]; exact hstore) ?_
    rw [heq]
    exact (h.fresh hstore).stale pos

theorem Broken.step (h : Broken w) (hst : w.step posFallbackMs a = some w') : Broken w' := by
  cases h with
  | pending hstore hstale =>
    cases step_move hst with
    | silent _ heq hpc => exact .pending (hpc.trans hstore) (by rw [heq]; exact hstale)
    | updated _ heq hpc =>
      refine .pending (by rw [hpc]; exact hstore) ?_
      rw [heq]
      exact hstale.concat nofun
    | requested _ hpc _ =>
      rw [hstore] at hpc
      cases hpc
    | stored _ _ heq _ =>
      refine .stored fun hno => hstale.not_fresh ?_
      rw [heq] at hno
      exact hno _ _ [] rfl
  | stored hno =>
    refine .stored fun hno' => hno ?_
    cases step_move hst with
    | silent _ heq _ => exact heq ▸ hno'
    | updated _ heq _ => exact NoOverwrite.of_concat (heq ▸ hno')
    | requested _ _ heq => exact NoOverwrite.of_concat (heq ▸ hno')
    | stored _ _ heq _ => exact NoOverwrite.of_concat (heq ▸ hno')

theorem quiet_clean (h : Trans.runIf (step posFallbackMs) Quiet start as = some w) : Clean w :=
  (Trans.ReachBy.of_runIf h).invariant
    ⟨fun pre pos post heq => by simp [start] at heq, fun hstore => by cases hstore⟩
    fun _ _ _ hs hq hst => hs.step hq hst

theorem quiet_or_broken (h : Trans.run (step posFallbackMs) start as = some w) :
    Trans.runIf (step posFallbackMs) Quiet start as = some w ∨ Broken w := by
  refine Trans.run_history (P := fun as w => Trans.runIf (step posFallbackMs) Quiet start as = some w ∨ Broken w)
    (.inl rfl) (fun as s a s' _ hs hst => ?_) h
  rcases hs with hs | hs
  · by_cases hq : Quiet s a
    · exact .inl (Trans.runIf_concat.mpr ⟨s, hs, hq, hst⟩)
    · exact .inr ((quiet_clean hs).overtaken hq hst)
  · exact .inr (hs.step hst)

/-- **A REST read overwrites no newer position** in a quiet run; and a run with fresh stores only, whose
reads are all answered, is a quiet one. -/
theorem rest_store_fresh (h : Trans.run (step posFallbackMs) start as = some w) :
    (Trans.runIf (step posFallbackMs) Quiet start as = some w → NoOverwrite w.log) ∧
      (w.fallback.willStore = false → NoOverwrite w.log →
        Trans.runIf (step posFallbackMs) Quiet start as = some w) := by
  refine ⟨fun hq => (quiet_clean hq).log, fun hdone hno => ?_⟩
  rcases quiet_or_broken h with hq | hbroken
  · exact hq
  · cases hbroken with
    | pending hstore _ =>
      rw [hdone] at hstore
      cases hstore
    | stored hno' => exact absurd hno hno'

/-- An update, then a read once the stream has been quiet for a second, then an update. -/
def quietRead : List PositionAct :=
  [.clock 10000, .update 2, .updateStamp, .clock 12000, .check, .request (some 3), .reply, .replyStamp,
    .update 4, .updateStamp]

theorem rest_store_fresh_quiet :
    NoOverwrite [.updated 2, .readStarted, .stored 3, .updated 4] := by
  obtain ⟨w, hw, hlog⟩ := Option.map_eq_some_iff.mp
    (show (Trans.runIf (step 1000) Quiet start quietRead).map (·.log) =
      some [.updated 2, .readStarted, .stored 3, .updated 4] by decide +kernel)
  rw [← hlog]
  exact (rest_store_fresh (Trans.run_of_runIf hw)).1 hw

/-- The account fills while the first read is in flight: the stream says `2`, the reply says `0`. -/
def overtakenRead : List PositionAct :=
  [.clock 10000, .check, .request (some 0), .update 2, .updateStamp, .reply, .replyStamp]

/-- **An old position overwrites a newer one.** -/
theorem rest_overwrites_update :
    ¬ ∀ (posFallbackMs : ℕ) (as : List PositionAct) (w : PositionFeed),
      Trans.run (step posFallbackMs) start as = some w → NoOverwrite w.log := by
  intro h
  have hrun : Trans.run (step 1000) start overtakenRead =
      some ⟨10000, ⟨0, 10000⟩, .idle, .idle, [.readStarted, .updated 2, .stored 0]⟩ := by decide +kernel
  have hfresh := h 1000 overtakenRead _ hrun [.readStarted, .updated 2] 0 [] rfl
  refine Stale.not_fresh ⟨[.updated 2], ⟨⟨[], rfl⟩, ?_⟩, 2, List.mem_singleton_self _⟩ hfresh
  decide

end PositionFeed

end LighterMM
