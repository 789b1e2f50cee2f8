import Mathlib

/-!
# Sets that remember the last `cap` insertions

A `FifoSet` is a set together with the queue of its elements, oldest first. An insertion into a full
set drops the oldest elements.

* `FifoSet.insert cap a`: the insertion and what it drops (`trim`).
* `Remembers cap l s`: `s` holds the last `cap` entries of the history `l`, without repetition.
  `Remembers.insert`: a fresh insertion keeps it.
* `Spaced cap l`: between two occurrences of an element in `l` there are at least `cap` others. A history
  of fresh insertions is spaced (`Spaced.concat`).
-/

structure FifoSet (α : Type*) where
  members : Finset α
  order : List α
  deriving DecidableEq

namespace FifoSet

variable {α : Type*} [DecidableEq α]

def empty : FifoSet α := ⟨∅, []⟩

/-- Pops the front until at most `cap` elements are left; also returns what was popped. -/
def trim (cap : ℕ) : Finset α → List α → FifoSet α × List α
  | m, [] => (⟨m, []⟩, [])
  | m, a :: rest =>
    if cap < (a :: rest).length then
      let r := trim cap (m.erase a) rest
      (r.1, a :: r.2)
    else (⟨m, a :: rest⟩, [])

/-- Inserts a new element at the back; also returns what fell out. -/
def insert (cap : ℕ) (s : FifoSet α) (a : α) : FifoSet α × List α :=
  if a ∈ s.members then (s, []) else trim cap (Insert.insert a s.members) (s.order ++ [a])

/-- The set holds the same elements as its queue, which repeats none. -/
structure Consistent (s : FifoSet α) : Prop where
  nodup : s.order.Nodup
  members : s.members = s.order.toFinset

/-- The queue is the last `cap` entries of the history. -/
structure Remembers (cap : ℕ) (l : List α) (s : FifoSet α) : Prop extends Consistent s where
  suffix : s.order <:+ l
  length : s.order.length = min cap l.length

/-- Two occurrences of an element have at least `cap` other elements in between. -/
def Spaced (cap : ℕ) (l : List α) : Prop :=
  ∀ l₁ l₂ l₃ a, l = l₁ ++ a :: l₂ ++ a :: l₃ → cap ≤ (l₂.toFinset.erase a).card

variable {cap : ℕ} {l : List α} {s : FifoSet α} {a : α}

theorem trim_eq (cap : ℕ) (m : Finset α) (q : List α) :
    trim cap m q = (⟨m \ (q.take (q.length - cap)).toFinset, q.drop (q.length - cap)⟩,
      q.take (q.length - cap)) := by
  induction q generalizing m with
  | nil => simp [trim]
  | cons a q ih =>
    unfold trim
    split
    · rename_i hlt
      have hsub : (a :: q).length - cap = (q.length - cap) + 1 := by
        rw [List.length_cons] at hlt ⊢
        omega
      rw [ih, hsub, List.take_succ_cons, List.drop_succ_cons, List.toFinset_cons]
      simp only [Prod.mk.injEq, FifoSet.mk.injEq, and_true]
      ext x
      simp only [Finset.mem_sdiff, Finset.mem_erase, Finset.mem_insert, not_or]
      tauto
    · rename_i hle
      have hsub : (a :: q).length - cap = 0 := by omega
      rw [hsub]
      simp

theorem insert_fresh (ha : a ∉ s.members) :
    s.insert cap a =
      (⟨Insert.insert a s.members \ ((s.order ++ [a]).take (s.order.length + 1 - cap)).toFinset,
        (s.order ++ [a]).drop (s.order.length + 1 - cap)⟩,
      (s.order ++ [a]).take (s.order.length + 1 - cap)) := by
  rw [insert, if_neg ha, trim_eq, List.length_append, List.length_singleton]

/-- An insertion adds nothing else. -/
theorem mem_insert {b : α} (h : b ∈ (s.insert cap a).1.members) : b = a ∨ b ∈ s.members := by
  by_cases ha : a ∈ s.members
  · rw [insert, if_pos ha] at h
    exact .inr h
  · rw [insert_fresh ha] at h
    exact Finset.mem_insert.mp (Finset.mem_sdiff.mp h).1

theorem Consistent.empty : Consistent (empty : FifoSet α) := ⟨List.nodup_nil, rfl⟩

theorem Consistent.mem (h : s.Consistent) : a ∈ s.members ↔ a ∈ s.order := by
  rw [h.members, List.mem_toFinset]

theorem Consistent.insert (h : s.Consistent) (cap : ℕ) (a : α) : (s.insert cap a).1.Consistent := by
  by_cases ha : a ∈ s.members
  · rw [FifoSet.insert, if_pos ha]
    exact h
  · rw [insert_fresh ha]
    have hnd : (s.order ++ [a]).Nodup := by
      rw [← List.concat_eq_append, List.nodup_concat]
      exact ⟨fun hm => ha (h.mem.mpr hm), h.nodup⟩
    refine ⟨hnd.sublist (List.drop_sublist _ _), ?_⟩
    -- The popped front and the rest have no element in common.
    have hsplit := List.take_append_drop (s.order.length + 1 - cap) (s.order ++ [a])
    have hdisj := hnd
    rw [← hsplit, List.nodup_append] at hdisj
    have hall : Insert.insert a s.members = (s.order ++ [a]).toFinset := by
      rw [h.members]
      ext x
      simp
    dsimp only
    rw [hall]
    nth_rewrite 1 [← hsplit]
    rw [List.toFinset_append, Finset.union_sdiff_left]
    refine Finset.sdiff_eq_self_of_disjoint (Finset.disjoint_left.mpr fun x hx hx' => ?_)
    exact hdisj.2.2 x (List.mem_toFinset.mp hx') x (List.mem_toFinset.mp hx) rfl

theorem Remembers.empty (cap : ℕ) : Remembers cap [] (empty : FifoSet α) where
  toConsistent := .empty
  suffix := List.suffix_refl _
  length := by simp [FifoSet.empty]

/-- **A fresh insertion is remembered**, and the oldest entry past the cap is not. -/
theorem Remembers.insert (h : Remembers cap l s) (ha : a ∉ s.members) :
    Remembers cap (l ++ [a]) (s.insert cap a).1 where
  toConsistent := h.toConsistent.insert cap a
  suffix := by
    rw [insert_fresh ha]
    obtain ⟨pre, hpre⟩ := h.suffix
    exact (List.drop_suffix _ _).trans ⟨pre, by rw [← hpre, List.append_assoc]⟩
  length := by
    rw [insert_fresh ha]
    have := h.length
    simp only [List.length_drop, List.length_append, List.length_singleton]
    omega

/-- An element of the history that is no longer remembered lies `cap` other elements back. -/
theorem Remembers.gap {l₁ l₂ : List α} (h : Remembers cap (l₁ ++ a :: l₂) s) (ha : a ∉ s.members) :
    cap ≤ (l₂.toFinset.erase a).card := by
  have hnot : a ∉ s.order := fun hm => ha (h.mem.mpr hm)
  have hsuf : s.order <:+ l₂ := by
    rcases List.suffix_or_suffix_of_suffix h.suffix (List.suffix_append l₁ (a :: l₂)) with hs | hs
    · rcases List.suffix_cons_iff.mp hs with he | hs
      · exact absurd (by rw [he]; exact List.mem_cons_self) hnot
      · exact hs
    · exact absurd (hs.subset List.mem_cons_self) hnot
  have hlen : cap ≤ s.order.length := by
    have hle := hsuf.length_le
    have hmin := h.length
    rw [List.length_append, List.length_cons] at hmin
    omega
  calc cap ≤ s.order.length := hlen
    _ = s.order.toFinset.card := (List.toFinset_card_of_nodup h.nodup).symm
    _ ≤ (l₂.toFinset.erase a).card := by
      refine Finset.card_le_card fun x hx => Finset.mem_erase.mpr ⟨?_, ?_⟩
      · rintro rfl
        exact hnot (List.mem_toFinset.mp hx)
      · exact List.mem_toFinset.mpr (hsuf.subset (List.mem_toFinset.mp hx))

theorem Spaced.nil (cap : ℕ) : Spaced cap ([] : List α) := by
  intro l₁ l₂ l₃ a h
  simp at h

/-- A history of fresh insertions is spaced. -/
theorem Spaced.concat (h : Spaced cap l) (hr : Remembers cap l s) (ha : a ∉ s.members) :
    Spaced cap (l ++ [a]) := by
  intro l₁ l₂ l₃ b he
  rcases List.eq_nil_or_concat l₃ with rfl | ⟨l₃, c, rfl⟩
  · obtain ⟨rfl, hb⟩ := List.append_inj' he rfl
    cases hb
    exact hr.gap ha
  · refine h l₁ l₂ l₃ b ?_
    rw [List.concat_eq_append, ← List.cons_append, ← List.append_assoc] at he
    exact (List.append_inj' he rfl).1

end FifoSet
