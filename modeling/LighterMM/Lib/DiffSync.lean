import Mathlib

/-!
# Snapshots and chained diffs

A `DiffFeed` numbers what each message changes: a message brings the store from after `prev` to `last`, and
its own changes are `first` to `last`. A snapshot of number `base` is brought up to date by contiguous
messages: the first one contains `base`, and each later one continues the one before it.

* `DiffFeed.Contiguous`: such a list of messages.
* `DiffFeed.Synced`: a store is the snapshot with the contiguous end of the messages received, and the
  messages before it end below the snapshot.
* `Synced.skip`, `Synced.first`, `Synced.next`: one more message.
-/

/-- A feed of messages `M` for a store `B`. -/
structure DiffFeed (M B : Type*) where
  first : M → ℤ
  last : M → ℤ
  prev : M → ℤ
  change : B → M → B

namespace DiffFeed

variable {M B : Type*} (F : DiffFeed M B)

/-- Messages that bring a snapshot of number `base` up to date. -/
structure Contiguous (base : ℤ) (ms : List M) : Prop where
  contains : ∀ m ∈ ms.head?, F.first m ≤ base ∧ base ≤ F.last m
  chain : ms.IsChain fun m m' => F.prev m' = F.last m

/-- After the messages `received` the store is `b`: the snapshot `b₀` with the messages `applied`. -/
structure Synced (base : ℤ) (b₀ : B) (received applied : List M) (b : B) : Prop where
  split : ∃ skipped, received = skipped ++ applied ∧ ∀ m ∈ skipped, F.last m < base
  contiguous : F.Contiguous base applied
  store : b = applied.foldl F.change b₀

variable {F} {base : ℤ} {b₀ b : B} {received applied : List M} {m : M}

theorem Synced.nil : F.Synced base b₀ [] [] b₀ :=
  ⟨⟨[], rfl, List.forall_mem_nil _⟩, ⟨by simp, .nil⟩, rfl⟩

/-- A message from before the snapshot. -/
theorem Synced.skip (h : F.Synced base b₀ received [] b) (hm : F.last m < base) :
    F.Synced base b₀ (received ++ [m]) [] b := by
  obtain ⟨skipped, hsplit, hskipped⟩ := h.split
  refine ⟨⟨received ++ [m], (List.append_nil _).symm, fun m' hm' => ?_⟩, h.contiguous, h.store⟩
  rcases List.mem_append.mp hm' with hm' | hm'
  · rw [hsplit, List.append_nil] at hm'
    exact hskipped m' hm'
  · rw [List.mem_singleton.mp hm']
    exact hm

/-- The message that contains the snapshot. -/
theorem Synced.first (h : F.Synced base b₀ received [] b) (hfirst : F.first m ≤ base) (hlast : base ≤ F.last m) :
    F.Synced base b₀ (received ++ [m]) [m] (F.change b m) := by
  obtain ⟨skipped, hsplit, hskipped⟩ := h.split
  refine ⟨⟨skipped, by rw [hsplit, List.append_nil], hskipped⟩, ⟨fun m' hm' => ?_, .singleton m⟩, ?_⟩
  · cases hm'
    exact ⟨hfirst, hlast⟩
  · rw [h.store]
    rfl

/-- A message that continues the last one. -/
theorem Synced.next (h : F.Synced base b₀ received applied b) (hne : applied ≠ [])
    (hm : ∀ m' ∈ applied.getLast?, F.prev m = F.last m') :
    F.Synced base b₀ (received ++ [m]) (applied ++ [m]) (F.change b m) := by
  obtain ⟨skipped, hsplit, hskipped⟩ := h.split
  refine ⟨⟨skipped, by rw [hsplit, List.append_assoc], hskipped⟩, ⟨fun m' hm' => ?_, ?_⟩, ?_⟩
  · rw [List.head?_append_of_ne_nil _ hne] at hm'
    exact h.contiguous.contains m' hm'
  · exact List.isChain_append.mpr ⟨h.contiguous.chain, .singleton m, fun m₁ hm₁ m₂ hm₂ => by
      cases hm₂
      exact hm m₁ hm₁⟩
  · rw [h.store, List.foldl_append]
    rfl

end DiffFeed
