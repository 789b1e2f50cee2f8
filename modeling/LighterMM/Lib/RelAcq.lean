import Mathlib

/-!
# One writer, release and acquire

A thread stores to registers that another thread loads without a lock. What the writer stores, in its
program order, is the history; as there is one writer, it gives the modification order of each register.
The loads of the reader are not in step with it: a load may return an old value.

* `View`: for each register, how much of the history the reader knows. A load never returns a store that
  the known part of the history overwrites (coherence).
* `load`: with the number of the store that it returns, the choice of the memory. A relaxed load makes the
  history known up to that store for its register only; an acquire load of a release store, for every
  register.
-/

namespace RelAcq

/-- A store names its register, and is a release store or a relaxed one. -/
class Stores (S : Type*) (R : outParam Type*) where
  reg : S → R
  release : S → Bool

export Stores (reg release)

abbrev View (R : Type*) := R → ℕ

variable {S R : Type*} [DecidableEq R] [Stores S R]

/-- What the reader knows after it loaded the store `s`, number `i` of the history. -/
def View.after (view : View R) (acquire : Bool) (s : S) (i : ℕ) : View R :=
  fun r => if r = reg s ∨ (acquire && release s) = true then max (view r) (i + 1) else view r

/-- A load of `r` may return the store `s`, number `i`: the known stores after it are to other registers. -/
def MayReturn (history : List S) (view : View R) (r : R) (i : ℕ) (s : S) : Prop :=
  reg s = r ∧ ∀ s' ∈ (history.take (view r)).drop (i + 1), reg s' ≠ r

instance (history : List S) (view : View R) (r : R) (i : ℕ) (s : S) : Decidable (MayReturn history view r i s) :=
  inferInstanceAs (Decidable (_ ∧ _))

/-- A load of `r` that returns store number `i`, if it may. -/
def load (history : List S) (view : View R) (r : R) (acquire : Bool) (i : ℕ) : Option (S × View R) :=
  (history[i]?).bind fun s => if MayReturn history view r i s then some (s, view.after acquire s i) else none

variable {history : List S} {view view' : View R} {r r' : R} {acquire : Bool} {i j : ℕ} {s s' : S}

theorem View.le_after (view : View R) (acquire : Bool) (s : S) (i : ℕ) (r : R) :
    view r ≤ view.after acquire s i r := by
  unfold View.after
  split
  · exact le_max_left _ _
  · exact le_rfl

theorem load_eq_some (h : load history view r acquire i = some (s, view')) :
    history[i]? = some s ∧ MayReturn history view r i s ∧ view' = view.after acquire s i := by
  obtain ⟨t, ht, hif⟩ := Option.bind_eq_some_iff.mp h
  split at hif
  · rename_i hok
    cases hif
    exact ⟨ht, hok, rfl⟩
  · cases hif

theorem load_mono (h : load history view r acquire i = some (s, view')) (r' : R) : view r' ≤ view' r' := by
  rw [(load_eq_some h).2.2]
  exact view.le_after acquire s i r'

/-- **Coherence**: a load returns no store before a known one of its register. -/
theorem load_ge (h : load history view r acquire i = some (s, view')) (hj : history[j]? = some s')
    (hreg : reg s' = r) (hknown : j < view r) : j ≤ i := by
  by_contra hlt
  refine (load_eq_some h).2.1.2 s' ?_ hreg
  refine List.mem_of_getElem? (i := j - (i + 1)) ?_
  rw [List.getElem?_drop, show i + 1 + (j - (i + 1)) = j by omega, List.getElem?_take, if_pos hknown]
  exact hj

/-- What is loaded is known of its register. -/
theorem load_known (h : load history view r acquire i = some (s, view')) : i < view' r := by
  obtain ⟨-, hmay, rfl⟩ := load_eq_some h
  unfold View.after
  rw [if_pos (.inl hmay.1.symm)]
  exact lt_of_lt_of_le (Nat.lt_succ_self i) (le_max_right _ _)

/-- **Acquire**: what the writer did before a release store is known after an acquire load of it. -/
theorem load_acquire (h : load history view r true i = some (s, view')) (hrel : release s = true) (r' : R) :
    i < view' r' := by
  obtain ⟨-, -, rfl⟩ := load_eq_some h
  unfold View.after
  rw [if_pos (.inr hrel)]
  exact lt_of_lt_of_le (Nat.lt_succ_self i) (le_max_right _ _)

end RelAcq
