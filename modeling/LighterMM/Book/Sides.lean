import LighterMM.Book.LocalBook
import LighterMM.Lib.KeyedList

/-!
# The sides of the book over a run of snapshots and deltas

- **Every run** leaves sides with parallel arrays, prices in order and no zero size (`Sorted`,
  `run_sorted`). That is what the two bisections need: the range sums, `lowest` and `highest` agree with a
  scan of all levels (`queries_full_scan`).
- **A map from price to size** (`IsMap`): a delta keeps the prices distinct, a snapshot takes every
  non-zero level as it comes. So the sides are maps, and a level of size zero removes its price, exactly in
  the runs whose snapshots name no price twice (`book_is_map_iff`). In these runs the book is the map
  that the levels write (`run_refines`).
-/

namespace LighterMM

open KeyedList

namespace BookSide

/-- The stored levels. -/
def levels (b : BookSide) : List (ℚ × ℚ) := b.prices.zip b.sizes

def ofLevels (l : List (ℚ × ℚ)) : BookSide := ⟨l.map (·.1), l.map (·.2)⟩

/-- What `upsert` writes: size zero removes. -/
def sizeWrite (size : ℚ) : Option ℚ := if size = 0 then none else some size

/-- The arrays are parallel, the prices in order, and no size is zero. -/
structure Sorted (b : BookSide) : Prop where
  aligned : b.prices.length = b.sizes.length
  ascending : Ascending b.levels
  nonzero : ∀ l ∈ b.levels, l.2 ≠ 0

/-- One non-zero size for each price, prices strictly ascending. -/
structure IsMap (b : BookSide) : Prop where
  aligned : b.prices.length = b.sizes.length
  strict : b.prices.Pairwise (· < ·)
  nonzero : ∀ s ∈ b.sizes, s ≠ 0

/-- No price occurs twice among the levels that a snapshot stores. -/
def DistinctPrices (levels : List (ℚ × ℚ)) : Prop := ((levels.filter fun l => l.2 ≠ 0).map (·.1)).Nodup

variable {b : BookSide} {l : List (ℚ × ℚ)} {p s : ℚ}

/-! ## Levels -/

theorem levels_ofLevels (l : List (ℚ × ℚ)) : (ofLevels l).levels = l := by
  induction l with
  | nil => rfl
  | cons a l ih => exact congrArg (a :: ·) ih

theorem ofLevels_levels (h : b.prices.length = b.sizes.length) : ofLevels b.levels = b := by
  have hp : b.levels.map (·.1) = b.prices := List.map_fst_zip h.le
  have hs : b.levels.map (·.2) = b.sizes := List.map_snd_zip h.ge
  unfold ofLevels
  rw [hp, hs]

theorem Sorted.eq_ofLevels (h : b.Sorted) : b = ofLevels b.levels := (ofLevels_levels h.aligned).symm

theorem Sorted.prices_eq (h : b.Sorted) : b.prices = b.levels.map (·.1) := (List.map_fst_zip h.aligned.le).symm

theorem Sorted.sizes_eq (h : b.Sorted) : b.sizes = b.levels.map (·.2) := (List.map_snd_zip h.aligned.ge).symm

theorem sorted_ofLevels (hasc : Ascending l) (hnz : ∀ a ∈ l, a.2 ≠ 0) : (ofLevels l).Sorted := by
  refine ⟨?_, ?_, ?_⟩
  · exact (List.length_map _).trans (List.length_map _).symm
  · rw [levels_ofLevels]
    exact hasc
  · rw [levels_ofLevels]
    exact hnz

theorem Sorted.isMap_iff (h : b.Sorted) : b.IsMap ↔ StrictlyAscending b.levels := by
  constructor
  · intro hmap
    have hstrict := hmap.strict
    rw [h.prices_eq, List.pairwise_map] at hstrict
    exact hstrict
  · intro hstrict
    refine ⟨h.aligned, ?_, fun s hs => ?_⟩
    · rw [h.prices_eq, List.pairwise_map]
      exact hstrict
    · rw [h.sizes_eq] at hs
      obtain ⟨a, ha, rfl⟩ := List.mem_map.mp hs
      exact h.nonzero a ha

/-! ## One level -/

theorem sizeWrite_ne_zero {v : ℚ} (h : sizeWrite s = some v) : v ≠ 0 := by
  unfold sizeWrite at h
  split at h
  · cases h
  · cases h
    assumption

/-- A level behind the first one is written behind it. -/
theorem upsert_cons_of_lt {q t : ℚ} {ps ss : List ℚ} (h : q < p) :
    upsert ⟨q :: ps, t :: ss⟩ p s = ⟨q :: (upsert ⟨ps, ss⟩ p s).prices, t :: (upsert ⟨ps, ss⟩ p s).sizes⟩ := by
  have hidx : bisectLeft ⟨q :: ps, t :: ss⟩ p = bisectLeft ⟨ps, ss⟩ p + 1 := by
    simp [bisectLeft, h]
  unfold upsert
  simp only [hidx, List.getElem?_cons_succ]
  by_cases hp : ps[bisectLeft ⟨ps, ss⟩ p]? = some p
  · by_cases hs : s = 0 <;> simp [hp, hs]
  · by_cases hs : s = 0 <;> simp [hp, hs]

theorem upsert_cons_of_le {q t : ℚ} {ps ss : List ℚ} (h : ¬q < p) :
    upsert ⟨q :: ps, t :: ss⟩ p s =
      if q = p then if s = 0 then ⟨ps, ss⟩ else ⟨q :: ps, s :: ss⟩
      else if s ≠ 0 then ⟨p :: q :: ps, s :: t :: ss⟩ else ⟨q :: ps, t :: ss⟩ := by
  have hidx : bisectLeft ⟨q :: ps, t :: ss⟩ p = 0 := by
    simp [bisectLeft, h]
  unfold upsert
  simp only [hidx, List.getElem?_cons_zero, Option.some.injEq]
  rfl

/-- **`upsert` writes the first level of its price.** -/
theorem upsert_ofLevels (l : List (ℚ × ℚ)) (p s : ℚ) :
    (ofLevels l).upsert p s = ofLevels (write p (sizeWrite s) l) := by
  induction l with
  | nil =>
    unfold upsert write sizeWrite
    by_cases hs : s = 0 <;> simp [hs, ofLevels, bisectLeft]
  | cons a l ih =>
    unfold write
    by_cases ha : a.1 < p
    · rw [if_pos ha]
      refine (upsert_cons_of_lt ha).trans ?_
      have hrest : upsert ⟨l.map (·.1), l.map (·.2)⟩ p s = ofLevels (write p (sizeWrite s) l) := ih
      rw [hrest]
      rfl
    · rw [if_neg ha]
      refine (upsert_cons_of_le ha).trans ?_
      unfold sizeWrite
      by_cases hap : a.1 = p
      · by_cases hs : s = 0 <;> simp [hs, hap, ofLevels]
      · by_cases hs : s = 0 <;> simp [hs, hap, ofLevels]

theorem Sorted.upsert_eq (h : b.Sorted) (p s : ℚ) : b.upsert p s = ofLevels (write p (sizeWrite s) b.levels) := by
  conv_lhs => rw [h.eq_ofLevels]
  exact upsert_ofLevels b.levels p s

theorem Sorted.upsert (h : b.Sorted) (p s : ℚ) : (b.upsert p s).Sorted := by
  rw [h.upsert_eq]
  refine sorted_ofLevels (h.ascending.write p _) fun a ha => ?_
  rcases mem_write ha with ha | ⟨-, ha⟩
  · exact h.nonzero a ha
  · exact sizeWrite_ne_zero ha

theorem Sorted.levels_upsert (h : b.Sorted) (p s : ℚ) : (b.upsert p s).levels = write p (sizeWrite s) b.levels := by
  rw [h.upsert_eq, levels_ofLevels]

theorem IsMap.sorted (h : b.IsMap) : b.Sorted := by
  have hp : b.levels.map (·.1) = b.prices := List.map_fst_zip h.aligned.le
  have hs : b.levels.map (·.2) = b.sizes := List.map_snd_zip h.aligned.ge
  refine ⟨h.aligned, ?_, fun a ha => h.nonzero a.2 ?_⟩
  · have hstrict := h.strict
    rw [← hp, List.pairwise_map] at hstrict
    exact StrictlyAscending.ascending hstrict
  · rw [← hs]
    exact List.mem_map_of_mem ha

/-- A delta level keeps the prices distinct. -/
theorem IsMap.upsert (h : b.IsMap) (p s : ℚ) : (b.upsert p s).IsMap := by
  have hs := h.sorted
  rw [(hs.upsert p s).isMap_iff, hs.levels_upsert]
  exact (hs.isMap_iff.mp h).write p _

/-- Size zero removes the price. -/
theorem IsMap.not_mem_upsert_zero (h : b.IsMap) (p : ℚ) : p ∉ (b.upsert p 0).prices := by
  have hs := h.sorted
  have hstack : stack (b.upsert p 0).levels p = [] := by
    rw [hs.levels_upsert, hs.ascending.stack_write, if_pos rfl]
    have hone := hs.ascending.strict_iff.mp (hs.isMap_iff.mp h) p
    rw [sizeWrite, if_pos rfl, writeTop, Option.toList_none, List.nil_append, ← List.length_eq_zero_iff,
      List.length_tail]
    omega
  rw [(hs.upsert p 0).prices_eq, List.mem_map]
  rintro ⟨a, ha, rfl⟩
  exact stack_eq_nil.mp hstack a ha rfl

/-! ## The levels of a message -/

/-- The levels of a delta, in order. -/
def upsertAll (b : BookSide) (levels : List (ℚ × ℚ)) : BookSide := levels.foldl (fun s l => s.upsert l.1 l.2) b

/-- The writes of a delta. -/
def writes (levels : List (ℚ × ℚ)) : List (ℚ × Option ℚ) := levels.map fun l => (l.1, sizeWrite l.2)

theorem Sorted.upsertAll (h : b.Sorted) (levels : List (ℚ × ℚ)) : (b.upsertAll levels).Sorted := by
  induction levels generalizing b with
  | nil => exact h
  | cons a levels ih => exact ih (h.upsert a.1 a.2)

theorem Sorted.levels_upsertAll (h : b.Sorted) (levels : List (ℚ × ℚ)) :
    (b.upsertAll levels).levels = writeAll (writes levels) b.levels := by
  induction levels generalizing b with
  | nil => rfl
  | cons a levels ih =>
    refine (ih (h.upsert a.1 a.2)).trans ?_
    rw [h.levels_upsert]
    rfl

theorem IsMap.upsertAll (h : b.IsMap) (levels : List (ℚ × ℚ)) : (b.upsertAll levels).IsMap := by
  induction levels generalizing b with
  | nil => exact h
  | cons a levels ih => exact ih (h.upsert a.1 a.2)

/-- What a snapshot stores: its levels of non-zero size, sorted by price. -/
theorem levels_applySnapshotScratch (levels : List (ℚ × ℚ)) :
    (applySnapshotScratch levels).levels =
      (levels.filter fun l => l.2 ≠ 0).insertionSort fun a b => a.1 ≤ b.1 := levels_ofLevels _

theorem sorted_applySnapshotScratch (levels : List (ℚ × ℚ)) : (applySnapshotScratch levels).Sorted := by
  refine sorted_ofLevels (ascending_insertionSort _) fun a ha => ?_
  rw [List.mem_insertionSort] at ha
  simpa using (List.mem_filter.mp ha).2

/-- **A snapshot is stored as a map if and only if it names no price twice.** -/
theorem isMap_applySnapshotScratch (levels : List (ℚ × ℚ)) :
    (applySnapshotScratch levels).IsMap ↔ DistinctPrices levels := by
  rw [(sorted_applySnapshotScratch levels).isMap_iff, levels_applySnapshotScratch,
    (ascending_insertionSort _).strict_iff, DistinctPrices, nodup_keys_iff]
  exact forall_congr' fun x => by rw [stack_insertionSort]

end BookSide

/-! ## Runs -/

/-- A message as the book takes it: the levels of both sides. -/
structure BookUpdate where
  snapshot : Bool
  levels : Side → List (ℚ × ℚ)

namespace LocalBook

/-- The bids are the side of the buy orders. -/
def side (b : LocalBook) : Side → BookSide
  | .buy => b.bids
  | .sell => b.asks

def update (b : LocalBook) (u : BookUpdate) : LocalBook :=
  if u.snapshot then b.applySnapshotScratch (u.levels .buy) (u.levels .sell)
  else b.applyDelta (u.levels .buy) (u.levels .sell)

/-- The book after a run of snapshots and deltas. -/
def run (us : List BookUpdate) : LocalBook := us.foldl update .new

variable {us : List BookUpdate} {u : BookUpdate} {sd : Side}

theorem run_concat : run (us ++ [u]) = (run us).update u := by
  simp [run]

theorem side_update (b : LocalBook) (u : BookUpdate) (sd : Side) :
    (b.update u).side sd = if u.snapshot then .applySnapshotScratch (u.levels sd) else (b.side sd).upsertAll (u.levels sd) := by
  unfold update
  cases u.snapshot <;> cases sd <;> rfl

theorem new_isMap (sd : Side) : (new.side sd).IsMap := by
  cases sd <;> exact ⟨rfl, List.Pairwise.nil, fun s hs => absurd hs List.not_mem_nil⟩

theorem update_sorted {b : LocalBook} (h : (b.side sd).Sorted) (u : BookUpdate) : ((b.update u).side sd).Sorted := by
  rw [side_update]
  split
  · exact BookSide.sorted_applySnapshotScratch _
  · exact h.upsertAll _

/-- Every run leaves sorted sides. -/
theorem run_sorted (us : List BookUpdate) (sd : Side) : ((run us).side sd).Sorted := by
  induction us using List.reverseRecOn with
  | nil => exact (new_isMap sd).sorted
  | append_singleton us u ih =>
    rw [run_concat]
    exact update_sorted ih u

theorem run_isMap (h : ∀ u ∈ us, u.snapshot = true → ∀ sd, BookSide.DistinctPrices (u.levels sd)) (sd : Side) :
    ((run us).side sd).IsMap := by
  induction us using List.reverseRecOn with
  | nil => exact new_isMap sd
  | append_singleton us u ih =>
    rw [run_concat, side_update]
    split
    · rename_i hsnap
      exact (BookSide.isMap_applySnapshotScratch _).mpr (h u (by simp) hsnap sd)
    · exact (ih fun v hv => h v (List.mem_append_left _ hv)).upsertAll _

/-- Through the run each side is a map from price to size, and right after a delta level of size zero its
price is gone. -/
structure KeepsMap (us : List BookUpdate) : Prop where
  isMap : ∀ pre post, us = pre ++ post → ∀ sd, ((run pre).side sd).IsMap
  removes : ∀ pre u post, us = pre ++ u :: post → u.snapshot = false → ∀ sd before p after,
    u.levels sd = before ++ (p, 0) :: after → p ∉ (((run pre).side sd).upsertAll (before ++ [(p, 0)])).prices

/-- **The book sides are maps exactly in the runs whose snapshots name no price twice**, counting the
levels of non-zero size. -/
theorem book_is_map_iff (us : List BookUpdate) :
    KeepsMap us ↔ ∀ u ∈ us, u.snapshot = true → ∀ sd, BookSide.DistinctPrices (u.levels sd) := by
  constructor
  · intro h u hu hsnap sd
    obtain ⟨pre, post, rfl⟩ := List.append_of_mem hu
    have hmap := h.isMap (pre ++ [u]) post (by simp) sd
    rw [run_concat, side_update, if_pos hsnap] at hmap
    exact (BookSide.isMap_applySnapshotScratch _).mp hmap
  · intro h
    have hpre : ∀ pre post, us = pre ++ post → ∀ sd, ((run pre).side sd).IsMap := by
      rintro pre post rfl sd
      exact run_isMap (fun u hu => h u (List.mem_append_left post hu)) sd
    refine ⟨hpre, fun pre u post hsplit hdelta sd before p after hlevels => ?_⟩
    have hmap := (hpre pre (u :: post) hsplit sd).upsertAll before
    have hlast : ((run pre).side sd).upsertAll (before ++ [(p, 0)]) =
        (((run pre).side sd).upsertAll before).upsert p 0 := by
      simp [BookSide.upsertAll]
    rw [hlast]
    exact hmap.not_mem_upsert_zero p

/-- A snapshot with two bids at 100. -/
def repeatedPrice : BookUpdate :=
  ⟨true, fun sd => if sd = .buy then [(100, 1), (99, 4), (100, 2)] else [(102, 5)]⟩

/-- A delta that removes the bid at 100. -/
def removal : BookUpdate := ⟨false, fun sd => if sd = .buy then [(100, 0)] else []⟩

/-- **A repeated price survives its removal**: one bid at 100 stays. -/
theorem repeated_price_stays : ¬ ∀ us : List BookUpdate, KeepsMap us := by
  intro h
  have hgone := (h [repeatedPrice, removal]).removes [repeatedPrice] removal [] rfl rfl .buy [] 100 [] rfl
  exact hgone (by decide +kernel)

end LocalBook

/-! ## The map that the levels write -/

namespace BookSide

/-- The size at a price, `0` if it is not stored. -/
def sizeAt (b : BookSide) (p : ℚ) : ℚ := (stack b.levels p).headD 0

/-- Each level sets the size at its price. -/
def setLevels (m : ℚ → ℚ) (levels : List (ℚ × ℚ)) : ℚ → ℚ := levels.foldl (fun m l => Function.update m l.1 l.2) m

variable {b : BookSide} {l : List (ℚ × ℚ)}

/-- A map is determined by its sizes. -/
theorem IsMap.ext {b' : BookSide} (h : b.IsMap) (h' : b'.IsMap) (heq : b.sizeAt = b'.sizeAt) : b = b' := by
  have hs := h.sorted
  have hs' := h'.sorted
  have hcases : ∀ {c : BookSide}, c.IsMap → ∀ p, stack c.levels p = (sizeWrite (c.sizeAt p)).toList := by
    intro c hc p
    have hone := hc.sorted.ascending.strict_iff.mp (hc.sorted.isMap_iff.mp hc) p
    unfold sizeAt sizeWrite
    cases hstack : stack c.levels p with
    | nil => simp
    | cons w ws =>
      rw [hstack, List.length_cons] at hone
      have hnil : ws = [] := List.length_eq_zero_iff.mp (by omega)
      have hw : w ≠ 0 := hc.sorted.nonzero (p, w) (mem_stack.mp (by rw [hstack]; exact List.mem_cons_self))
      simp [hnil, hw]
  have hlevels : b.levels = b'.levels :=
    hs.ascending.ext hs'.ascending fun p => by rw [hcases h, hcases h', heq]
  rw [hs.eq_ofLevels, hs'.eq_ofLevels, hlevels]

theorem IsMap.sizeAt_upsert (h : b.IsMap) (p s : ℚ) : (b.upsert p s).sizeAt = Function.update b.sizeAt p s := by
  have hs := h.sorted
  funext q
  unfold sizeAt
  rw [hs.levels_upsert, hs.ascending.stack_write, Function.update_apply]
  by_cases hq : q = p
  · have hone := hs.ascending.strict_iff.mp (hs.isMap_iff.mp h) q
    have htail : (stack b.levels q).tail = [] := by
      rw [← List.length_eq_zero_iff, List.length_tail]
      omega
    rw [if_pos hq, if_pos hq, writeTop, htail, List.append_nil]
    by_cases hz : s = 0 <;> simp [sizeWrite, hz]
  · rw [if_neg hq, if_neg hq]

theorem IsMap.sizeAt_upsertAll (h : b.IsMap) (levels : List (ℚ × ℚ)) :
    (b.upsertAll levels).sizeAt = setLevels b.sizeAt levels := by
  induction levels generalizing b with
  | nil => rfl
  | cons a levels ih =>
    refine (ih (h.upsert a.1 a.2)).trans ?_
    rw [h.sizeAt_upsert]
    rfl

/-- The last level of a price counts. -/
theorem setLevels_apply (m : ℚ → ℚ) (l : List (ℚ × ℚ)) (p : ℚ) :
    setLevels m l p = (stack l p).getLast?.getD (m p) := by
  induction l generalizing m with
  | nil => rfl
  | cons a l ih =>
    have hstep : setLevels m (a :: l) p = (stack l p).getLast?.getD (Function.update m a.1 a.2 p) := ih _
    rw [hstep, stack_cons]
    by_cases hp : a.1 = p
    · rw [if_pos hp, List.getLast?_cons, hp, Function.update_self]
      rfl
    · rw [if_neg hp, Function.update_of_ne fun he => hp he.symm]

/-- A snapshot without a repeated price stores the map that its levels write. -/
theorem sizeAt_applySnapshotScratch (h : DistinctPrices l) :
    (applySnapshotScratch l).sizeAt = setLevels 0 (l.filter fun a => a.2 ≠ 0) := by
  funext p
  rw [setLevels_apply, sizeAt, levels_applySnapshotScratch, stack_insertionSort]
  have hone := nodup_keys_iff.mp h p
  cases hstack : stack (l.filter fun a => a.2 ≠ 0) p with
  | nil => rfl
  | cons w ws =>
    rw [hstack, List.length_cons] at hone
    have hnil : ws = [] := List.length_eq_zero_iff.mp (by omega)
    rw [hnil]
    rfl

end BookSide

namespace LocalBook

/-- The map of a side after a run: a snapshot starts over, every level sets the size at its price. -/
def priceMap (sd : Side) (us : List BookUpdate) : ℚ → ℚ :=
  us.foldl (fun m u =>
    if u.snapshot then BookSide.setLevels 0 ((u.levels sd).filter fun l => l.2 ≠ 0)
    else BookSide.setLevels m (u.levels sd)) 0

/-- **The book refines the map** in every run whose snapshots name no price twice. -/
theorem run_refines {us : List BookUpdate}
    (h : ∀ u ∈ us, u.snapshot = true → ∀ sd, BookSide.DistinctPrices (u.levels sd)) (sd : Side) :
    ((run us).side sd).sizeAt = priceMap sd us := by
  induction us using List.reverseRecOn with
  | nil => cases sd <;> rfl
  | append_singleton us u ih =>
    have hpre : ∀ v ∈ us, v.snapshot = true → ∀ sd, BookSide.DistinctPrices (v.levels sd) :=
      fun v hv => h v (List.mem_append_left _ hv)
    rw [run_concat, side_update, priceMap, List.foldl_append, List.foldl_cons, List.foldl_nil]
    split
    · rename_i hsnap
      exact BookSide.sizeAt_applySnapshotScratch (h u (by simp) hsnap sd)
    · rw [(run_isMap hpre sd).sizeAt_upsertAll, ih hpre]
      rfl

end LocalBook

/-! ## Queries -/

namespace BookSide

variable {b : BookSide}

/-- The prices in order: the last one is the maximum. -/
theorem getLast?_eq_max? {ps : List ℚ} (h : ps.Pairwise (· ≤ ·)) : ps.getLast? = ps.max? := by
  cases hlast : ps.getLast? with
  | none =>
    rw [List.getLast?_eq_none_iff] at hlast
    rw [hlast]
    rfl
  | some p =>
    obtain ⟨qs, rfl⟩ := List.getLast?_eq_some_iff.mp hlast
    refine (List.max?_eq_some_iff.mpr ⟨by simp, fun q hq => ?_⟩).symm
    rcases List.mem_append.mp hq with hq | hq
    · exact (List.pairwise_append.mp h).2.2 q hq p List.mem_cons_self
    · rw [List.mem_singleton.mp hq]

theorem head?_eq_min? {ps : List ℚ} (h : ps.Pairwise (· ≤ ·)) : ps.head? = ps.min? := by
  cases ps with
  | nil => rfl
  | cons p ps =>
    refine (List.min?_eq_some_iff.mpr ⟨List.mem_cons_self, fun q hq => ?_⟩).symm
    rcases List.mem_cons.mp hq with rfl | hq
    · exact le_rfl
    · exact (List.pairwise_cons.mp h).1 q hq

theorem Sorted.prices_pairwise (h : b.Sorted) : b.prices.Pairwise (· ≤ ·) := by
  rw [h.prices_eq, List.pairwise_map]
  exact h.ascending

theorem Sorted.highest_eq (h : b.Sorted) : b.highest.map (·.1) = b.prices.max? := by
  rw [← getLast?_eq_max? h.prices_pairwise, h.prices_eq, List.getLast?_map]
  rfl

theorem Sorted.lowest_eq (h : b.Sorted) : b.lowest.map (·.1) = b.prices.min? := by
  rw [← head?_eq_min? h.prices_pairwise, h.prices_eq, List.head?_map]
  rfl

theorem Sorted.sumSizesFrom_eq (h : b.Sorted) (x : ℚ) :
    b.sumSizesFrom x = ((b.levels.filter fun l => x ≤ l.1).map (·.2)).sum := by
  have hidx : b.bisectLeft x = (b.levels.takeWhile fun l => l.1 < x).length := by
    rw [bisectLeft, h.prices_eq, List.takeWhile_map, List.length_map]
    rfl
  have hdown : ∀ a c : ℚ × ℚ, a.1 ≤ c.1 → decide (c.1 < x) = true → decide (a.1 < x) = true := by
    intro a c hac hc
    rw [decide_eq_true_eq] at hc ⊢
    exact hac.trans_lt hc
  rw [sumSizesFrom, hidx, h.sizes_eq, ← List.map_drop, h.ascending.drop_length_takeWhile hdown]
  simp only [← decide_not, not_lt]

theorem Sorted.sumSizesTo_eq (h : b.Sorted) (x : ℚ) :
    b.sumSizesTo x = ((b.levels.filter fun l => l.1 ≤ x).map (·.2)).sum := by
  have hidx : b.bisectRight x = (b.levels.takeWhile fun l => l.1 ≤ x).length := by
    rw [bisectRight, h.prices_eq, List.takeWhile_map, List.length_map]
    rfl
  have hdown : ∀ a c : ℚ × ℚ, a.1 ≤ c.1 → decide (c.1 ≤ x) = true → decide (a.1 ≤ x) = true := by
    intro a c hac hc
    rw [decide_eq_true_eq] at hc ⊢
    exact hac.trans hc
  rw [sumSizesTo, hidx, h.sizes_eq, ← List.map_take, h.ascending.take_length_takeWhile hdown]

/-- What the queries return, told by a scan of all stored levels. -/
structure AgreesWithScan (b : BookSide) : Prop where
  aligned : b.prices.length = b.sizes.length
  ordered : b.prices.Pairwise (· ≤ ·)
  highest : b.highest.map (·.1) = b.prices.max?
  lowest : b.lowest.map (·.1) = b.prices.min?
  sumFrom : ∀ x, b.sumSizesFrom x = ((b.levels.filter fun l => x ≤ l.1).map (·.2)).sum
  sumTo : ∀ x, b.sumSizesTo x = ((b.levels.filter fun l => l.1 ≤ x).map (·.2)).sum

end BookSide

namespace LocalBook

/-- **The queries agree with a full scan** in every run, repeated prices included. -/
theorem queries_full_scan (us : List BookUpdate) (sd : Side) : ((run us).side sd).AgreesWithScan :=
  have h := run_sorted us sd
  ⟨h.aligned, h.prices_pairwise, h.highest_eq, h.lowest_eq, h.sumSizesFrom_eq, h.sumSizesTo_eq⟩

end LocalBook

end LighterMM
