import Mathlib

/-!
# Partial transition systems, runs and guarded reachability

A system is a partial step function `step : S → A → Option S`: the state, the action (of some
party) and the state after it, `none` where the action is not enabled. All nondeterminism (which
party moves, what the environment answers) is in the choice of the actions, so a run is a list
of actions.

* `Trans.run`: the state after a list of actions.
* `Trans.ReachBy ok`: the states reached by steps that all meet the guard `ok`; `Trans.Reach`
  without a guard.
* `ReachBy.invariant`: an inductive invariant holds in every state reached.
* `Trans.runIf`: a run that checks a decidable guard.
* `run_history`: a property of the pair (actions so far, state) by induction on the run, from
  its start to its last action.
* `Trans.Visits`, `Trans.Takes`: the states of a run and the actions that it takes there;
  `run_good_iff` for the runs that never go bad.
* `Steps`: the runs of a step relation whose steps write a log, with the invariant rule for the pair
  (log so far, state).
* `Watch`: a single-slot channel whose sender overwrites an unread value (the freshest value
  wins), with a mark for a value that the receiver has not seen.
-/

namespace Trans

variable {S A : Type*}

/-- The state after the actions `as`, if each of them was enabled. -/
def run (step : S → A → Option S) : S → List A → Option S
  | s, [] => some s
  | s, a :: as => (step s a).bind fun s' => run step s' as

variable {step : S → A → Option S} {s s' s₀ : S} {a : A} {as bs : List A}

@[simp] theorem run_nil : run step s [] = some s := rfl

theorem run_cons : run step s (a :: as) = (step s a).bind fun s' => run step s' as := rfl

theorem run_append : run step s (as ++ bs) = (run step s as).bind fun s' => run step s' bs := by
  induction as generalizing s with
  | nil => rfl
  | cons a as ih =>
    simp only [List.cons_append, run_cons]
    cases step s a with
    | none => rfl
    | some t => exact ih

theorem run_concat : run step s (as ++ [a]) = (run step s as).bind fun s' => step s' a := by
  rw [run_append]
  congr 1
  funext t
  simp [run_cons]

/-- The last step of a run. -/
theorem run_concat_some (h : run step s (as ++ [a]) = some s') :
    ∃ t, run step s as = some t ∧ step t a = some s' := by
  rw [run_concat] at h
  exact Option.bind_eq_some_iff.mp h

/-- States reached from `s₀` by enabled steps that meet the guard `ok`. -/
inductive ReachBy (step : S → A → Option S) (ok : S → A → Prop) (s₀ : S) : S → Prop
  | refl : ReachBy step ok s₀ s₀
  | step {s s' : S} (a : A) : ReachBy step ok s₀ s → ok s a → step s a = some s' →
      ReachBy step ok s₀ s'

/-- The states reached from `s₀`. -/
abbrev Reach (step : S → A → Option S) (s₀ : S) : S → Prop := ReachBy step (fun _ _ => True) s₀

namespace ReachBy

variable {ok ok' : S → A → Prop}

/-- An inductive invariant: it holds at the start and every guarded step keeps it. -/
theorem invariant {I : S → Prop} (h : ReachBy step ok s₀ s) (h₀ : I s₀)
    (hstep : ∀ s a s', I s → ok s a → step s a = some s' → I s') : I s := by
  induction h with
  | refl => exact h₀
  | step a _ hok hst ih => exact hstep _ a _ ih hok hst

theorem mono (h : ReachBy step ok s₀ s) (himp : ∀ s a, ok s a → ok' s a) :
    ReachBy step ok' s₀ s := by
  induction h with
  | refl => exact .refl
  | step a _ hok hst ih => exact .step a ih (himp _ _ hok) hst

theorem reach (h : ReachBy step ok s₀ s) : Reach step s₀ s := h.mono fun _ _ _ => trivial

/-- A guarded continuation of a guarded run. -/
theorem trans (h : ReachBy step ok s₀ s) (h' : ReachBy step ok s s') : ReachBy step ok s₀ s' := by
  induction h' with
  | refl => exact h
  | step a _ hok hst ih => exact .step a ih hok hst

end ReachBy

/-- The reachable states are the ends of the runs. -/
theorem reach_iff_run : Reach step s₀ s ↔ ∃ as, run step s₀ as = some s := by
  constructor
  · intro h
    induction h with
    | refl => exact ⟨[], rfl⟩
    | step a _ _ hst ih =>
      obtain ⟨as, has⟩ := ih
      exact ⟨as ++ [a], by rw [run_concat, has]; exact hst⟩
  · rintro ⟨as, has⟩
    induction as using List.reverseRecOn generalizing s with
    | nil => cases has; exact .refl
    | append_singleton as a ih =>
      obtain ⟨t, ht, hst⟩ := run_concat_some has
      exact .step a (ih ht) trivial hst

/-- A run whose actions meet the guard in every state. -/
theorem ReachBy.of_run {ok : S → A → Prop} (h : run step s₀ as = some s)
    (hok : ∀ a ∈ as, ∀ t, ok t a) : ReachBy step ok s₀ s := by
  induction as using List.reverseRecOn generalizing s with
  | nil => cases h; exact .refl
  | append_singleton as a ih =>
    obtain ⟨t, ht, hst⟩ := run_concat_some h
    exact .step a (ih ht fun b hb => hok b (List.mem_append_left _ hb)) (hok a (by simp) t) hst

/-- The state after the actions `as`, if each of them was enabled and allowed. -/
def runIf (step : S → A → Option S) (ok : S → A → Prop) [∀ s a, Decidable (ok s a)] :
    S → List A → Option S
  | s, [] => some s
  | s, a :: as => if ok s a then (step s a).bind fun s' => runIf step ok s' as else none

theorem ReachBy.of_runIf {ok : S → A → Prop} [∀ s a, Decidable (ok s a)]
    (h : runIf step ok s₀ as = some s) : ReachBy step ok s₀ s := by
  induction as generalizing s₀ with
  | nil => cases h; exact .refl
  | cons a as ih =>
    rw [runIf] at h
    split at h
    · rename_i hok
      obtain ⟨t, ht, hrest⟩ := Option.bind_eq_some_iff.mp h
      exact (ReachBy.step a .refl hok ht).trans (ih hrest)
    · cases h

/-- The last step of a run that checks the guard. -/
theorem runIf_concat {ok : S → A → Prop} [∀ s a, Decidable (ok s a)] :
    runIf step ok s (as ++ [a]) = some s' ↔ ∃ t, runIf step ok s as = some t ∧ ok t a ∧ step t a = some s' := by
  induction as generalizing s with
  | nil =>
    simp only [List.nil_append, runIf, Option.some.injEq, exists_eq_left']
    by_cases hok : ok s a
    · simp [hok]
    · simp [hok]
  | cons b as ih =>
    simp only [List.cons_append, runIf]
    by_cases hok : ok s b
    · simp only [hok, if_true]
      cases step s b with
      | none => simp
      | some t => exact ih
    · simp [hok]

theorem run_of_runIf {ok : S → A → Prop} [∀ s a, Decidable (ok s a)] (h : runIf step ok s as = some s') :
    run step s as = some s' := by
  induction as using List.reverseRecOn generalizing s' with
  | nil => exact h
  | append_singleton as a ih =>
    obtain ⟨t, ht, -, hst⟩ := runIf_concat.mp h
    rw [run_concat, ih ht]
    exact hst

/-- Induction on a run from its start: `P` holds of the empty run and each further action
keeps it, where `P` also reads the actions so far. -/
theorem run_history {P : List A → S → Prop} (h₀ : P [] s₀)
    (hstep : ∀ as s a s', run step s₀ as = some s → P as s → step s a = some s' →
      P (as ++ [a]) s') (h : run step s₀ as = some s) : P as s := by
  induction as using List.reverseRecOn generalizing s with
  | nil => cases h; exact h₀
  | append_singleton as a ih =>
    obtain ⟨t, ht, hst⟩ := run_concat_some h
    exact hstep as t a s ht (ih ht) hst

/-! ### What a run passes through -/

/-- The run `as` passes through `t`. -/
def Visits (step : S → A → Option S) (s₀ : S) (as : List A) (t : S) : Prop :=
  ∃ pre post, as = pre ++ post ∧ run step s₀ pre = some t

/-- The run `as` takes the action `a` in `t`. -/
def Takes (step : S → A → Option S) (s₀ : S) (as : List A) (t : S) (a : A) : Prop :=
  ∃ pre post, as = pre ++ a :: post ∧ run step s₀ pre = some t

/-- Every state of a run meets an inductive invariant. -/
theorem Visits.invariant {I : S → Prop} {t : S} (h : Visits step s₀ as t) (h₀ : I s₀)
    (hstep : ∀ s a s', I s → step s a = some s' → I s') : I t := by
  obtain ⟨pre, post, -, hpre⟩ := h
  exact (reach_iff_run.mpr ⟨pre, hpre⟩).invariant h₀ fun s a s' hs _ hst => hstep s a s' hs hst

/-- The action that a run takes is enabled, and the run passes through the state after it. -/
theorem Takes.enabled {t : S} (h : Takes step s₀ as t a) (hrun : run step s₀ as = some s) :
    ∃ t', step t a = some t' ∧ Visits step s₀ as t' := by
  obtain ⟨pre, post, rfl, hpre⟩ := h
  rw [run_append, hpre, Option.bind_some, run_cons] at hrun
  obtain ⟨t', ht', -⟩ := Option.bind_eq_some_iff.mp hrun
  refine ⟨t', ht', pre ++ [a], post, by simp, ?_⟩
  rw [run_concat, hpre]
  exact ht'

theorem Takes.visits {t : S} (h : Takes step s₀ as t a) : Visits step s₀ as t := by
  obtain ⟨pre, post, rfl, hpre⟩ := h
  exact ⟨pre, a :: post, rfl, hpre⟩

/-- **When a run stays good**: if under an invariant the states after a good one are bad exactly where
`T` says so, then a run has no bad state if and only if it takes no action that `T` names. -/
theorem run_good_iff {I B : S → Prop} {T : S → A → Prop} (h₀ : I s₀) (hgood : ¬B s₀)
    (hI : ∀ s a s', I s → step s a = some s' → I s')
    (hiff : ∀ s a s', I s → ¬B s → step s a = some s' → (B s' ↔ T s a))
    (h : run step s₀ as = some s) :
    (∀ t, Visits step s₀ as t → ¬B t) ↔ ∀ t a, Takes step s₀ as t a → ¬T t a := by
  constructor
  · intro hnever t a htakes htrig
    obtain ⟨t', hst, hvisit⟩ := htakes.enabled h
    have hinv : I t := htakes.visits.invariant h₀ hI
    exact hnever t' hvisit ((hiff t a t' hinv (hnever t htakes.visits) hst).mpr htrig)
  · rintro hno t ⟨pre, post, rfl, hpre⟩
    induction pre using List.reverseRecOn generalizing t post with
    | nil =>
      cases hpre
      exact hgood
    | append_singleton pre a ih =>
      obtain ⟨u, hu, hst⟩ := run_concat_some hpre
      rw [List.append_assoc] at h hno
      have htakes : Takes step s₀ (pre ++ ([a] ++ post)) u a := ⟨pre, post, rfl, hu⟩
      have hinv : I u := htakes.visits.invariant h₀ hI
      have hu' : ¬B u := ih u (a :: post) hu h hno
      exact fun hbad => hno u a htakes ((hiff u a t hinv hu' hst).mp hbad)

end Trans

/-! ## Runs that write a log -/

/-- The runs of the step relation `R`; the log of a run is what its steps write, in order. -/
inductive Steps {S L : Type*} (R : S → List L → S → Prop) (s : S) : List L → S → Prop
  | refl : Steps R s [] s
  | tail {log new : List L} {s' s'' : S} : Steps R s log s' → R s' new s'' →
      Steps R s (log ++ new) s''

namespace Steps

variable {S L : Type*} {R : S → List L → S → Prop} {s s' s'' : S} {log log' : List L}

theorem single (h : R s log s') : Steps R s log s' := by
  simpa using Steps.refl.tail h

theorem trans (h : Steps R s log s') (h' : Steps R s' log' s'') : Steps R s (log ++ log') s'' := by
  induction h' with
  | refl => simpa using h
  | tail _ hR ih =>
    rw [← List.append_assoc]
    exact ih.tail hR

theorem mono {R' : S → List L → S → Prop} (h : Steps R s log s')
    (himp : ∀ s new s', R s new s' → R' s new s') : Steps R' s log s' := by
  induction h with
  | refl => exact .refl
  | tail _ hR ih => exact ih.tail (himp _ _ _ hR)

/-- An inductive invariant of the pair (log so far, state); `pre` is what was written before. -/
theorem invariant {I : List L → S → Prop} {pre : List L} (h : Steps R s log s') (h₀ : I pre s)
    (hstep : ∀ log s new s', I log s → R s new s' → I (log ++ new) s') : I (pre ++ log) s' := by
  induction h with
  | refl => simpa using h₀
  | tail _ hR ih =>
    rw [← List.append_assoc]
    exact hstep _ _ _ _ ih hR

end Steps

/-! ## The single-slot channel -/

/-- A watch channel: its current value, and whether the receiver has not seen it yet. -/
structure Watch (α : Type*) where
  value : α
  unseen : Bool
  deriving DecidableEq, Repr

namespace Watch

variable {α : Type*}

/-- A channel whose initial value counts as seen. -/
def init (v : α) : Watch α := ⟨v, false⟩

/-- Replaces the value, read or not. -/
def send (_w : Watch α) (v : α) : Watch α := ⟨v, true⟩

/-- The receiver reads the value and marks it seen. -/
def markSeen (w : Watch α) : Watch α := { w with unseen := false }

/-- The value if the receiver has not seen it. -/
def pending (w : Watch α) : Option α := if w.unseen then some w.value else none

@[simp] theorem pending_init (v : α) : (init v).pending = none := rfl

@[simp] theorem pending_send (w : Watch α) (v : α) : (w.send v).pending = some v := rfl

@[simp] theorem pending_markSeen (w : Watch α) : w.markSeen.pending = none := rfl

theorem pending_eq_some {w : Watch α} {v : α} : w.pending = some v ↔ w.unseen = true ∧ w.value = v := by
  unfold pending
  split <;> simp_all

end Watch
