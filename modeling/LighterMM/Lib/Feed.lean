import Mathlib

/-!
# Snapshot-and-delta feeds

A `Feed` tells how a message sets a store (a snapshot) and how one changes it (a delta), and which
number orders the messages. A message without a number is always fresh; one with a number is fresh if
it is above the last number that was taken.

* `Feed.fresh`: the fresh messages of a list, in order; `Feed.last`: the last number among them.
* `Feed.replay`: the store that a snapshot and the fresh messages after it make.
* `concat_stale`, `concat_fresh`, `replay_concat`: one more message.
-/

/-- A feed of messages `M` for a store `B`. -/
structure Feed (M B : Type*) where
  number : M → Option ℕ
  set : M → B
  change : B → M → B

namespace Feed

variable {M B : Type*} (F : Feed M B)

/-- A message is stale if its number is not above the last one. -/
def stale (last : Option ℕ) (m : M) : Bool :=
  match F.number m, last with
  | some k, some l => decide (k ≤ l)
  | _, _ => false

/-- The last number, after a message was taken. -/
def next (last : Option ℕ) (m : M) : Option ℕ := (F.number m).or last

/-- The fresh messages of a list. -/
def fresh : Option ℕ → List M → List M
  | _, [] => []
  | last, m :: ms => if F.stale last m then fresh last ms else m :: fresh (F.next last m) ms

/-- The last number after the fresh messages of a list. -/
def last : Option ℕ → List M → Option ℕ
  | l, [] => l
  | l, m :: ms => if F.stale l m then last l ms else last (F.next l m) ms

/-- The store that a snapshot and the messages after it make. -/
def replay (s : M) (ms : List M) : B := ms.foldl F.change (F.set s)

variable {F} {l : Option ℕ} {ms : List M} {m : M}

theorem cons_stale {a : M} (h : F.stale l a = true) :
    F.fresh l (a :: ms) = F.fresh l ms ∧ F.last l (a :: ms) = F.last l ms := ⟨if_pos h, if_pos h⟩

theorem cons_fresh {a : M} (h : F.stale l a = false) :
    F.fresh l (a :: ms) = a :: F.fresh (F.next l a) ms ∧ F.last l (a :: ms) = F.last (F.next l a) ms :=
  ⟨if_neg (Bool.eq_false_iff.mp h), if_neg (Bool.eq_false_iff.mp h)⟩

/-- A stale message at the end changes nothing. -/
theorem concat_stale (h : F.stale (F.last l ms) m = true) :
    F.fresh l (ms ++ [m]) = F.fresh l ms ∧ F.last l (ms ++ [m]) = F.last l ms := by
  induction ms generalizing l with
  | nil => exact cons_stale h
  | cons a ms ih =>
    cases ha : F.stale l a with
    | true =>
      rw [(cons_stale ha).2] at h
      rw [List.cons_append, (cons_stale ha).1, (cons_stale ha).2, (cons_stale ha).1, (cons_stale ha).2]
      exact ih h
    | false =>
      rw [(cons_fresh ha).2] at h
      rw [List.cons_append, (cons_fresh ha).1, (cons_fresh ha).2, (cons_fresh ha).1, (cons_fresh ha).2]
      exact ⟨congrArg _ (ih h).1, (ih h).2⟩

/-- A fresh message at the end is taken. -/
theorem concat_fresh (h : F.stale (F.last l ms) m = false) :
    F.fresh l (ms ++ [m]) = F.fresh l ms ++ [m] ∧ F.last l (ms ++ [m]) = F.next (F.last l ms) m := by
  induction ms generalizing l with
  | nil => exact cons_fresh h
  | cons a ms ih =>
    cases ha : F.stale l a with
    | true =>
      rw [(cons_stale ha).2] at h
      rw [List.cons_append, (cons_stale ha).1, (cons_stale ha).2, (cons_stale ha).1, (cons_stale ha).2]
      exact ih h
    | false =>
      rw [(cons_fresh ha).2] at h
      rw [List.cons_append, (cons_fresh ha).1, (cons_fresh ha).2, (cons_fresh ha).1, (cons_fresh ha).2]
      exact ⟨congrArg _ (ih h).1, (ih h).2⟩

theorem replay_concat (s : M) : F.replay s (ms ++ [m]) = F.change (F.replay s ms) m := by
  unfold replay
  rw [List.foldl_append]
  rfl

end Feed
