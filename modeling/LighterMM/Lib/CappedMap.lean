import Mathlib

/-!
# A map that is cut down to its most wanted entries

`prune keep m a` keeps the entries of a map whose keys are wanted, and of the others the `m` with the largest
keys. What it keeps is said key by key (`lookup_prune_iff`): a key keeps its value if it is wanted, or fewer
than `m` unwanted keys are larger. The rest is gone, so the map has at most `m` entries more than wanted ones
(`length_prune_le`).
-/

namespace CappedMap

variable {α β : Type*} [LinearOrder α] {es : List (Sigma fun _ : α => β)} {a : AList fun _ : α => β}
  {k : α} {v : β} {m : ℕ}

/-- The entries of a list, inserted in order. -/
def insertAll (es : List (Sigma fun _ : α => β)) (a : AList fun _ : α => β) : AList fun _ : α => β :=
  es.foldl (fun a e => a.insert e.1 e.2) a

/-- The `m` entries with the largest keys. -/
def largest (m : ℕ) (es : List (Sigma fun _ : α => β)) : List (Sigma fun _ : α => β) :=
  (es.insertionSort fun e e' => e.1 ≤ e'.1).reverse.take m

def prune (keep : α → Prop) [DecidablePred keep] (m : ℕ) (a : AList fun _ : α => β) : AList fun _ : α => β :=
  insertAll (largest m (a.entries.filter fun e => ¬keep e.1))
    (insertAll (a.entries.filter fun e => keep e.1) ∅)

/-! ## Insertions -/

theorem lookup_insertAll_of_notMem (h : ∀ e ∈ es, e.1 ≠ k) : (insertAll es a).lookup k = a.lookup k := by
  induction es generalizing a with
  | nil => rfl
  | cons e es ih =>
    have hne : k ≠ e.1 := (h e List.mem_cons_self).symm
    have hrest := ih (a := a.insert e.1 e.2) fun e' he' => h e' (List.mem_cons_of_mem _ he')
    exact hrest.trans (AList.lookup_insert_ne hne)

theorem lookup_insertAll_of_mem (hnd : es.NodupKeys) (h : ⟨k, v⟩ ∈ es) :
    (insertAll es a).lookup k = some v := by
  induction es generalizing a with
  | nil => exact absurd h List.not_mem_nil
  | cons e es ih =>
    rw [List.nodupKeys_cons] at hnd
    rcases List.mem_cons.mp h with rfl | h
    · have hfresh : ∀ e ∈ es, e.1 ≠ k := by
        intro e he hk
        have hmem := List.mem_keys_of_mem he
        rw [hk] at hmem
        exact hnd.1 hmem
      exact (lookup_insertAll_of_notMem hfresh).trans (AList.lookup_insert _)
    · exact ih hnd.2 h

/-- Distinct keys: a key has the value inserted, or the old one. -/
theorem lookup_insertAll_iff (hnd : es.NodupKeys) :
    (insertAll es a).lookup k = some v ↔ ⟨k, v⟩ ∈ es ∨ (∀ e ∈ es, e.1 ≠ k) ∧ a.lookup k = some v := by
  by_cases hk : ∀ e ∈ es, e.1 ≠ k
  · rw [lookup_insertAll_of_notMem hk]
    have hv : (⟨k, v⟩ : Sigma fun _ : α => β) ∉ es := fun h => hk _ h rfl
    exact ⟨fun h => .inr ⟨hk, h⟩, fun h => (h.resolve_left hv).2⟩
  · push Not at hk
    obtain ⟨⟨k', v'⟩, he, rfl⟩ := hk
    rw [lookup_insertAll_of_mem hnd he, Option.some.injEq]
    constructor
    · rintro rfl
      exact .inl he
    · rintro (h | ⟨h, -⟩)
      · exact hnd.eq_of_mk_mem he h
      · exact absurd rfl (h _ he)

theorem length_insertAll_le (es : List (Sigma fun _ : α => β)) (a : AList fun _ : α => β) :
    (insertAll es a).entries.length ≤ a.entries.length + es.length := by
  induction es generalizing a with
  | nil => exact le_refl _
  | cons e es ih =>
    have hins : (a.insert e.1 e.2).entries.length ≤ a.entries.length + 1 := by
      rw [AList.entries_insert, List.length_cons]
      exact Nat.succ_le_succ (List.kerase_sublist _ _).length_le
    have hrest := ih (a.insert e.1 e.2)
    rw [List.length_cons]
    exact hrest.trans (by omega)

/-! ## The largest keys -/

/-- In a strictly descending list the first `m` are those with fewer than `m` above. -/
theorem mem_take_iff_countP {γ : Type*} {f : γ → α} {l : List γ} {x : γ}
    (h : l.Pairwise fun y z => f z < f y) :
    x ∈ l.take m ↔ x ∈ l ∧ (l.countP fun y => decide (f x < f y)) < m := by
  induction l generalizing m with
  | nil => simp
  | cons y l ih =>
    obtain ⟨hy, hl⟩ := List.pairwise_cons.mp h
    cases m with
    | zero => simp
    | succ m =>
      rw [List.take_succ_cons, List.mem_cons, List.mem_cons, ih hl, List.countP_cons]
      by_cases hxy : x = y
      · subst hxy
        have hnone : (l.countP fun y => decide (f x < f y)) = 0 :=
          List.countP_eq_zero.mpr fun z hz => by simpa using (hy z hz).le
        simp [hnone]
      · simp only [hxy, false_or]
        refine and_congr_right fun hx => ?_
        rw [if_pos (decide_eq_true (hy x hx))]
        omega

theorem mem_largest_iff (hnd : es.NodupKeys) {e : Sigma fun _ : α => β} :
    e ∈ largest m es ↔ e ∈ es ∧ (es.countP fun e' => decide (e.1 < e'.1)) < m := by
  have hperm := (List.perm_insertionSort (fun e e' : Sigma fun _ : α => β => e.1 ≤ e'.1) es).symm
  have hdesc : (es.insertionSort fun e e' => e.1 ≤ e'.1).reverse.Pairwise fun e e' => e'.1 < e.1 := by
    have hsorted := List.pairwise_insertionSort (fun e e' : Sigma fun _ : α => β => e.1 ≤ e'.1) es
    have hne := List.nodupKeys_iff_pairwise.mp ((List.perm_nodupKeys hperm).mp hnd)
    exact List.pairwise_reverse.mpr ((hsorted.and hne).imp fun h => lt_of_le_of_ne h.1 h.2)
  have hall := hperm.trans (List.reverse_perm _).symm
  rw [largest, mem_take_iff_countP (f := Sigma.fst) hdesc, hall.mem_iff, hall.countP_eq]

/-! ## Pruning -/

variable {keep : α → Prop} [DecidablePred keep]

/-- **What pruning keeps.** -/
theorem lookup_prune_iff :
    (prune keep m a).lookup k = some v ↔ a.lookup k = some v ∧
      (keep k ∨ ((a.entries.filter fun e => ¬keep e.1).countP fun e => decide (k < e.1)) < m) := by
  have hnd : ∀ p : (Sigma fun _ : α => β) → Bool, (a.entries.filter p).NodupKeys := fun p =>
    List.NodupKeys.sublist List.filter_sublist a.nodupKeys
  have hndLargest : (largest m (a.entries.filter fun e => ¬keep e.1)).NodupKeys := by
    have hsub := List.take_sublist m
      ((a.entries.filter fun e => ¬keep e.1).insertionSort fun e e' => e.1 ≤ e'.1).reverse
    refine List.NodupKeys.sublist hsub ?_
    refine (List.perm_nodupKeys ?_).mp (hnd fun e => ¬keep e.1)
    exact ((List.reverse_perm _).trans (List.perm_insertionSort _ _)).symm
  rw [prune, lookup_insertAll_iff hndLargest, lookup_insertAll_iff (hnd _), mem_largest_iff (hnd _)]
  have hlookup : a.lookup k = some v ↔ (⟨k, v⟩ : Sigma fun _ : α => β) ∈ a.entries := AList.mem_lookup_iff
  simp only [List.mem_filter, AList.lookup_empty, decide_eq_true_eq, hlookup, reduceCtorEq, and_false,
    or_false]
  constructor
  · rintro (⟨⟨hmem, -⟩, hcount⟩ | ⟨-, hmem, hkeep⟩)
    · exact ⟨hmem, .inr hcount⟩
    · exact ⟨hmem, .inl hkeep⟩
  · rintro ⟨hmem, hkept⟩
    by_cases hkeep : keep k
    · refine .inr ⟨fun e he hk => ?_, hmem, hkeep⟩
      have hout := ((mem_largest_iff (hnd _)).mp he).1
      have hn := (List.mem_filter.mp hout).2
      rw [decide_eq_true_eq, hk] at hn
      exact hn hkeep
    · exact .inl ⟨⟨hmem, hkeep⟩, hkept.resolve_left hkeep⟩

theorem length_prune_le (keep : α → Prop) [DecidablePred keep] (m : ℕ) (a : AList fun _ : α => β) :
    (prune keep m a).entries.length ≤ (a.entries.filter fun e => keep e.1).length + m := by
  have htop : (largest m (a.entries.filter fun e => ¬keep e.1)).length ≤ m := List.length_take_le _ _
  have hkept := length_insertAll_le (a.entries.filter fun e => keep e.1) ∅
  rw [AList.empty_entries, List.length_nil, Nat.zero_add] at hkept
  exact (length_insertAll_le _ _).trans (Nat.add_le_add hkept htop)

/-- Wanted keys that are listed. -/
theorem length_filter_mem_le (a : AList fun _ : α => β) (l : List α) :
    (a.entries.filter fun e => e.1 ∈ l).length ≤ l.length := by
  have hnd : (a.entries.filter fun e => e.1 ∈ l).NodupKeys :=
    List.NodupKeys.sublist List.filter_sublist a.nodupKeys
  have hsub : (a.entries.filter fun e => e.1 ∈ l).keys ⊆ l := by
    intro k hk
    obtain ⟨e, he, rfl⟩ := List.mem_map.mp hk
    exact of_decide_eq_true (List.mem_filter.mp he).2
  have hle := (List.Nodup.subperm hnd hsub).length_le
  rwa [List.keys, List.length_map] at hle

end CappedMap
