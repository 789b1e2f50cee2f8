import Mathlib

/-!
# Lists of keyed values, ascending by key

A list of pairs holds for each key a stack of values, the first one on top (`stack`), and an ascending
list is determined by its stacks (`Ascending.ext`). So what an operation on the list does is said stack by
stack:

- **Writing** (`stack_write`): `write x v` replaces the top of the stack of `x` by `v`, or removes it if
  `v` is `none`, and leaves the other stacks.
- **Sorting** (`stack_insertionSort`): a stable sort by key keeps every stack.
- A list is strictly ascending if and only if its stacks hold one value at most (`strict_iff`).

The prefix below a bound and the rest from it are the list's elements on that side
(`drop_length_takeWhile`, `take_length_takeWhile`), which is what a bisection finds.
-/

namespace KeyedList

variable {α β : Type*} [LinearOrder α] {l l' : List (α × β)} {a b : α × β} {x y : α} {v : Option β}

def Ascending (l : List (α × β)) : Prop := l.Pairwise fun a b => a.1 ≤ b.1

def StrictlyAscending (l : List (α × β)) : Prop := l.Pairwise fun a b => a.1 < b.1

/-- The values of a key, in order. -/
def stack (l : List (α × β)) (x : α) : List β := (l.filter (·.1 = x)).map (·.2)

/-- Sets the first value of a key, or removes it. -/
def write (x : α) (v : Option β) : List (α × β) → List (α × β)
  | [] => (v.map (x, ·)).toList
  | a :: l =>
    if a.1 < x then a :: write x v l
    else (v.map (x, ·)).toList ++ if a.1 = x then l else a :: l

/-- Sets the top of a stack, or removes it. -/
def writeTop (s : List β) (v : Option β) : List β := v.toList ++ s.tail

theorem Ascending.tail (h : Ascending (a :: l)) : Ascending l := (List.pairwise_cons.mp h).2

theorem Ascending.head_le (h : Ascending (a :: l)) (hb : b ∈ l) : a.1 ≤ b.1 := (List.pairwise_cons.mp h).1 b hb

theorem StrictlyAscending.ascending (h : StrictlyAscending l) : Ascending l := h.imp fun hlt => hlt.le

/-! ## Stacks -/

@[simp] theorem stack_nil : stack ([] : List (α × β)) x = [] := rfl

theorem stack_cons : stack (a :: l) x = if a.1 = x then a.2 :: stack l x else stack l x := by
  unfold stack
  rw [List.filter_cons]
  by_cases h : a.1 = x <;> simp [h]

@[simp] theorem stack_append : stack (l ++ l') x = stack l x ++ stack l' x := by
  simp [stack]

theorem mem_stack {w : β} : w ∈ stack l x ↔ (x, w) ∈ l := by
  simp [stack]

theorem stack_eq_nil : stack l x = [] ↔ ∀ a ∈ l, a.1 ≠ x := by
  simp [stack, List.filter_eq_nil_iff]

/-- Nothing is left of a key behind a larger one. -/
theorem Ascending.stack_of_head_gt (h : Ascending (a :: l)) (hx : x < a.1) : stack (a :: l) x = [] := by
  rw [stack_eq_nil]
  intro b hb
  rcases List.mem_cons.mp hb with rfl | hb
  · exact hx.ne'
  · exact (hx.trans_le (h.head_le hb)).ne'

theorem stack_map_value {v : Option β} : stack (v.map (x, ·)).toList y = if y = x then v.toList else [] := by
  cases v with
  | none => simp
  | some w =>
    rw [Option.map_some, Option.toList_some, stack_cons, stack_nil, Option.toList_some]
    simp only [eq_comm]

/-! ## Extensionality -/

/-- The first value of the first key. -/
theorem stack_head : stack (a :: l) a.1 = a.2 :: stack l a.1 := by
  rw [stack_cons, if_pos rfl]

theorem Ascending.le_of_stack (h : Ascending (a :: l)) (hb : stack (a :: l) x ≠ []) : a.1 ≤ x := by
  by_contra hlt
  exact hb (h.stack_of_head_gt (not_le.mp hlt))

/-- **An ascending list is determined by its stacks.** -/
theorem Ascending.ext (h : Ascending l) (h' : Ascending l') (heq : ∀ x, stack l x = stack l' x) : l = l' := by
  induction l generalizing l' with
  | nil =>
    cases l' with
    | nil => rfl
    | cons b l' =>
      have hb := heq b.1
      rw [stack_nil, stack_head] at hb
      cases hb
  | cons a l ih =>
    cases l' with
    | nil =>
      have ha := heq a.1
      rw [stack_nil, stack_head] at ha
      cases ha
    | cons b l' =>
      have hab : a.1 = b.1 := by
        refine le_antisymm (h.le_of_stack ?_) (h'.le_of_stack ?_)
        · rw [heq, stack_head]
          exact List.cons_ne_nil _ _
        · rw [← heq, stack_head]
          exact List.cons_ne_nil _ _
      have hhead := heq a.1
      rw [stack_head, hab, stack_head] at hhead
      obtain ⟨hval, -⟩ := List.cons.inj hhead
      obtain rfl : a = b := Prod.ext hab hval
      refine congrArg (a :: ·) (ih h.tail h'.tail fun x => ?_)
      have hx := heq x
      rw [stack_cons, stack_cons] at hx
      by_cases hax : a.1 = x
      · rw [if_pos hax, if_pos hax] at hx
        exact (List.cons.inj hx).2
      · rwa [if_neg hax, if_neg hax] at hx

/-- A list is strictly ascending if no key occurs twice. -/
theorem Ascending.strict_iff (h : Ascending l) : StrictlyAscending l ↔ ∀ x, (stack l x).length ≤ 1 := by
  induction l with
  | nil => exact iff_of_true List.Pairwise.nil fun x => Nat.zero_le 1
  | cons a l ih =>
    unfold StrictlyAscending at ih ⊢
    rw [List.pairwise_cons, ih h.tail]
    constructor
    · rintro ⟨hlt, hl⟩ x
      rw [stack_cons]
      by_cases hx : a.1 = x
      · have hnil : stack l x = [] := stack_eq_nil.mpr fun b hb => by
          rw [← hx]
          exact (hlt b hb).ne'
        rw [if_pos hx, hnil]
        exact le_rfl
      · rw [if_neg hx]
        exact hl x
    · intro hl
      refine ⟨fun b hb => (h.head_le hb).lt_of_ne fun hab => ?_, fun x => ?_⟩
      · have hone := hl a.1
        rw [stack_head, List.length_cons] at hone
        have hpos : 0 < (stack l a.1).length := by
          rw [List.length_pos_iff]
          exact List.ne_nil_of_mem (mem_stack.mpr (by rw [hab]; exact hb))
        omega
      · have hx := hl x
        rw [stack_cons] at hx
        split at hx
        · rw [List.length_cons] at hx
          omega
        · exact hx

theorem length_stack : (stack l x).length = (l.map (·.1)).count x := by
  induction l with
  | nil => rfl
  | cons a l ih =>
    rw [stack_cons, List.map_cons, List.count_cons, ← ih]
    by_cases h : a.1 = x <;> simp [h]

/-- No key occurs twice. -/
theorem nodup_keys_iff : (l.map (·.1)).Nodup ↔ ∀ x, (stack l x).length ≤ 1 := by
  rw [List.nodup_iff_count_le_one]
  exact forall_congr' fun x => by rw [length_stack]

/-! ## Writing -/

theorem mem_write (h : b ∈ write x v l) : b ∈ l ∨ b.1 = x ∧ v = some b.2 := by
  have hnew : b ∈ (v.map (x, ·)).toList → b.1 = x ∧ v = some b.2 := by
    cases v with
    | none => exact fun h => absurd h List.not_mem_nil
    | some w =>
      intro h
      rw [Option.map_some, Option.toList_some, List.mem_singleton] at h
      exact ⟨by rw [h], by rw [h]⟩
  induction l with
  | nil => exact .inr (hnew h)
  | cons a l ih =>
    unfold write at h
    split at h
    · rcases List.mem_cons.mp h with rfl | h
      · exact .inl List.mem_cons_self
      · exact (ih h).imp_left (List.mem_cons_of_mem a)
    · rcases List.mem_append.mp h with h | h
      · exact .inr (hnew h)
      · left
        split at h
        · exact List.mem_cons_of_mem a h
        · exact h

theorem Ascending.write (h : Ascending l) (x : α) (v : Option β) : Ascending (write x v l) := by
  have hnew : ∀ rest : List (α × β), Ascending rest → (∀ b ∈ rest, x ≤ b.1) →
      Ascending ((v.map (x, ·)).toList ++ rest) := by
    intro rest hrest hle
    cases v with
    | none => exact hrest
    | some w => exact List.pairwise_cons.mpr ⟨hle, hrest⟩
  induction l with
  | nil =>
    have hnil := hnew [] List.Pairwise.nil fun b hb => absurd hb List.not_mem_nil
    rwa [List.append_nil] at hnil
  | cons a l ih =>
    unfold KeyedList.write
    by_cases hax : a.1 < x
    · rw [if_pos hax]
      refine List.pairwise_cons.mpr ⟨fun b hb => ?_, ih h.tail⟩
      rcases mem_write hb with hb | ⟨hb, -⟩
      · exact h.head_le hb
      · rw [hb]
        exact hax.le
    · rw [if_neg hax]
      rw [not_lt] at hax
      by_cases heq : a.1 = x
      · rw [if_pos heq]
        exact hnew l h.tail fun b hb => hax.trans (h.head_le hb)
      · rw [if_neg heq]
        refine hnew (a :: l) h fun b hb => ?_
        rcases List.mem_cons.mp hb with rfl | hb
        · exact hax
        · exact hax.trans (h.head_le hb)

/-- A write changes the stack of its key, at the top. -/
theorem Ascending.stack_write (h : Ascending l) (x : α) (v : Option β) (y : α) :
    stack (KeyedList.write x v l) y = if y = x then writeTop (stack l y) v else stack l y := by
  induction l with
  | nil =>
    rw [KeyedList.write, stack_map_value, stack_nil, writeTop, List.tail_nil, List.append_nil]
  | cons a l ih =>
    unfold KeyedList.write
    by_cases hax : a.1 < x
    · rw [if_pos hax, stack_cons, ih h.tail, stack_cons]
      by_cases hy : y = x
      · have hay : a.1 ≠ y := by
          rw [hy]
          exact hax.ne
        rw [if_neg hay, if_neg hay]
      · rw [if_neg hy, if_neg hy]
    · rw [if_neg hax, stack_append, stack_map_value]
      by_cases hy : y = x
      · rw [if_pos hy, if_pos hy, writeTop]
        by_cases heq : a.1 = x
        · rw [if_pos heq, hy, ← heq, stack_head, List.tail_cons]
        · have hlt : y < a.1 := by
            rw [hy]
            exact lt_of_le_of_ne (not_lt.mp hax) fun he => heq he.symm
          rw [if_neg heq, h.stack_of_head_gt hlt, List.tail_nil]
      · rw [if_neg hy, if_neg hy, List.nil_append]
        by_cases heq : a.1 = x
        · have hay : a.1 ≠ y := by
            rw [heq]
            exact fun he => hy he.symm
          rw [if_pos heq, stack_cons, if_neg hay]
        · rw [if_neg heq]

theorem length_writeTop_le {s : List β} (h : s.length ≤ 1) : (writeTop s v).length ≤ 1 := by
  unfold writeTop
  rw [List.length_append, List.length_tail]
  cases v <;> simp only [Option.toList_none, Option.toList_some, List.length_nil, List.length_singleton] <;> omega

/-- A write keeps the keys distinct. -/
theorem StrictlyAscending.write (h : StrictlyAscending l) (x : α) (v : Option β) :
    StrictlyAscending (write x v l) := by
  have hasc := h.ascending
  rw [(hasc.write x v).strict_iff]
  intro y
  have hone := hasc.strict_iff.mp h y
  rw [hasc.stack_write]
  split
  · exact length_writeTop_le hone
  · exact hone

/-! ## A sequence of writes -/

def writeAll (ws : List (α × Option β)) (l : List (α × β)) : List (α × β) :=
  ws.foldl (fun l w => write w.1 w.2 l) l

theorem Ascending.writeAll (h : Ascending l) (ws : List (α × Option β)) : Ascending (writeAll ws l) := by
  induction ws generalizing l with
  | nil => exact h
  | cons w ws ih => exact ih (h.write w.1 w.2)

theorem StrictlyAscending.writeAll (h : StrictlyAscending l) (ws : List (α × Option β)) :
    StrictlyAscending (writeAll ws l) := by
  induction ws generalizing l with
  | nil => exact h
  | cons w ws ih => exact ih (h.write w.1 w.2)

/-- The writes to a key change its stack, one after the other. -/
theorem Ascending.stack_writeAll (h : Ascending l) (ws : List (α × Option β)) (y : α) :
    stack (KeyedList.writeAll ws l) y = (stack ws y).foldl writeTop (stack l y) := by
  induction ws generalizing l with
  | nil => rfl
  | cons w ws ih =>
    refine (ih (h.write w.1 w.2)).trans ?_
    rw [h.stack_write, stack_cons]
    by_cases hy : w.1 = y
    · rw [if_pos hy.symm, if_pos hy, List.foldl_cons]
    · rw [if_neg fun he => hy he.symm, if_neg hy]

/-! ### What is left -/

/-- Below the top only removals count. -/
theorem lt_length_foldl_writeTop {k : ℕ} (hk : 0 < k) (ws : List (Option β)) (s : List β) :
    k < (ws.foldl writeTop s).length ↔ ws.countP (·.isNone) + k < s.length := by
  induction ws using List.reverseRecOn generalizing k with
  | nil => simp
  | append_singleton ws w ih =>
    rw [List.foldl_append, List.foldl_cons, List.foldl_nil, writeTop, List.length_append, List.length_tail,
      List.countP_append]
    cases w with
    | none =>
      have hmore := ih (k := k + 1) (Nat.succ_pos k)
      simp only [Option.toList_none, List.length_nil, List.countP_singleton, Option.isNone_none, if_true]
      omega
    | some v =>
      have hsame := ih hk
      simp only [Option.toList_some, List.length_singleton, List.countP_singleton, Option.isNone_some,
        Bool.false_eq_true, if_false]
      omega

/-- **Writes leave a value** exactly if the last one sets one, or there are more values than removals. -/
theorem foldl_writeTop_ne_nil_iff (ws : List (Option β)) (s : List β) :
    ws.foldl writeTop s ≠ [] ↔ (∃ v, ws.getLast? = some (some v)) ∨ ws.countP (·.isNone) < s.length := by
  induction ws using List.reverseRecOn with
  | nil => simp [List.length_pos_iff]
  | append_singleton ws w _ =>
    rw [List.foldl_append, List.foldl_cons, List.foldl_nil, List.getLast?_concat, List.countP_append]
    cases w with
    | none =>
      have hmore := lt_length_foldl_writeTop Nat.one_pos ws s
      simp only [writeTop, Option.toList_none, List.nil_append, Option.some.injEq, reduceCtorEq, exists_false,
        false_or, List.countP_singleton, Option.isNone_none, if_true]
      rw [← hmore, ← List.length_pos_iff, List.length_tail]
      omega
    | some v => exact iff_of_true (List.cons_ne_nil _ _) (.inl ⟨v, rfl⟩)

/-- A list has an element if some stack has a value. -/
theorem ne_nil_iff_stack : l ≠ [] ↔ ∃ x, stack l x ≠ [] := by
  constructor
  · intro h
    obtain ⟨a, ha⟩ := List.exists_mem_of_ne_nil l h
    exact ⟨a.1, List.ne_nil_of_mem (mem_stack.mpr ha)⟩
  · rintro ⟨x, hx⟩ rfl
    exact hx stack_nil

/-! ### One write more

Two stacks that a removal leaves different stay different until the shorter one is empty and is written
once more. -/

/-- Two stacks that differ by one value below the top. -/
theorem foldl_writeTop_longer {ws : List (Option β)} {s s' : List β} (hlen : s'.length = s.length + 1)
    (htail : s.tail = s'.tail.tail) :
    ws.foldl writeTop s = ws.foldl writeTop s' ↔ ws ≠ [] ∧ s.length ≤ ws.dropLast.countP (·.isNone) := by
  induction ws generalizing s s' with
  | nil =>
    refine iff_of_false (fun heq => ?_) fun h => h.1 rfl
    have : s.length = s'.length := congrArg List.length heq
    omega
  | cons v ws ih =>
    cases s with
    | nil =>
      have hs' : s'.tail = [] := by
        rw [← List.length_eq_zero_iff, List.length_tail, hlen]
        rfl
      refine iff_of_true ?_ ⟨List.cons_ne_nil _ _, Nat.zero_le _⟩
      rw [List.foldl_cons, List.foldl_cons, writeTop, writeTop, hs', List.tail_nil]
    | cons b s =>
      rw [List.length_cons] at hlen ⊢
      rw [List.tail_cons] at htail
      rw [List.foldl_cons, List.foldl_cons, ih]
      · cases ws with
        | nil => simp
        | cons w ws =>
          rw [List.dropLast_cons_cons, List.countP_cons]
          cases v with
          | none => simp [writeTop]
          | some v => simp [writeTop]
      · unfold writeTop
        rw [List.length_append, List.length_append, List.length_tail, List.length_tail, hlen, List.length_cons]
        omega
      · cases v with
        | none => simp [writeTop, htail]
        | some v => simp [writeTop, htail]

/-- **A write before others is not seen** exactly if it changes nothing, or others follow and, where it
removes one of several values, they remove the rest. -/
theorem foldl_writeTop_eq_iff (ws : List (Option β)) (v : Option β) (s : List β) :
    ws.foldl writeTop (writeTop s v) = ws.foldl writeTop s ↔
      v = s.head? ∨ ws ≠ [] ∧ (v ≠ none ∨ s.length ≤ 1 + ws.dropLast.countP (·.isNone)) := by
  cases s with
  | nil =>
    cases v with
    | none => exact iff_of_true rfl (.inl rfl)
    | some v =>
      have hlonger : ws.foldl writeTop ([] : List β) = ws.foldl writeTop [v] ↔
          ws ≠ [] ∧ ([] : List β).length ≤ ws.dropLast.countP (·.isNone) := foldl_writeTop_longer rfl rfl
      rw [eq_comm]
      refine hlonger.trans ?_
      simp
  | cons b s =>
    cases v with
    | none =>
      have hlonger : ws.foldl writeTop s = ws.foldl writeTop (b :: s) ↔
          ws ≠ [] ∧ s.length ≤ ws.dropLast.countP (·.isNone) := foldl_writeTop_longer rfl rfl
      refine hlonger.trans ?_
      rw [List.length_cons, Nat.add_comm s.length]
      simp
    | some v =>
      cases ws with
      | nil => simp [writeTop]
      | cons w ws =>
        refine iff_of_true ?_ (.inr ⟨List.cons_ne_nil _ _, .inl (Option.some_ne_none v)⟩)
        simp [writeTop]

/-! ## Sorting -/

/-- A sort by key is stable: it keeps every stack. -/
theorem stack_insertionSort (l : List (α × β)) (x : α) :
    stack (l.insertionSort fun a b => a.1 ≤ b.1) x = stack l x := by
  induction l with
  | nil => rfl
  | cons a l ih =>
    rw [List.insertionSort_cons, stack_cons, ← ih]
    generalize (l.insertionSort fun a b => a.1 ≤ b.1) = s
    induction s with
    | nil => rw [List.orderedInsert_nil, stack_cons]
    | cons b s ihs =>
      rw [List.orderedInsert_cons]
      split
      · rw [stack_cons]
      · rename_i hab
        rw [stack_cons, ihs, stack_cons (a := b)]
        by_cases hb : b.1 = x
        · have ha : a.1 ≠ x := fun ha => hab (ha.trans hb.symm).le
          rw [if_pos hb, if_neg ha, if_neg ha, if_pos hb]
        · rw [if_neg hb, if_neg hb]

theorem ascending_insertionSort (l : List (α × β)) : Ascending (l.insertionSort fun a b => a.1 ≤ b.1) := by
  have : Std.Total fun a b : α × β => a.1 ≤ b.1 := ⟨fun a b => le_total a.1 b.1⟩
  have : IsTrans (α × β) fun a b => a.1 ≤ b.1 := ⟨fun a b c hab hbc => hab.trans hbc⟩
  exact List.pairwise_insertionSort _ l

/-! ## Bounds -/

variable {p : α × β → Bool}

/-- From the first pair past a bound on, every pair is. -/
theorem Ascending.drop_length_takeWhile (h : Ascending l) (hp : ∀ a b, a.1 ≤ b.1 → p b = true → p a = true) :
    l.drop (l.takeWhile p).length = l.filter fun a => !p a := by
  induction l with
  | nil => rfl
  | cons a l ih =>
    by_cases ha : p a = true
    · rw [List.takeWhile_cons_of_pos ha, List.length_cons, List.drop_succ_cons, ih h.tail,
        List.filter_cons_of_neg (by simp [ha])]
    · rw [List.takeWhile_cons_of_neg ha, List.length_nil, List.drop_zero, eq_comm, List.filter_eq_self]
      intro b hb
      have hb' : p b ≠ true := by
        rcases List.mem_cons.mp hb with rfl | hb
        · exact ha
        · exact fun hpb => ha (hp _ _ (h.head_le hb) hpb)
      simp [hb']

theorem Ascending.take_length_takeWhile (h : Ascending l) (hp : ∀ a b, a.1 ≤ b.1 → p b = true → p a = true) :
    l.take (l.takeWhile p).length = l.filter p := by
  induction l with
  | nil => rfl
  | cons a l ih =>
    by_cases ha : p a = true
    · rw [List.takeWhile_cons_of_pos ha, List.length_cons, List.take_succ_cons, ih h.tail,
        List.filter_cons_of_pos ha]
    · rw [List.takeWhile_cons_of_neg ha, List.length_nil, List.take_zero, eq_comm, List.filter_eq_nil_iff]
      intro b hb
      rcases List.mem_cons.mp hb with rfl | hb
      · exact ha
      · exact fun hpb => ha (hp _ _ (h.head_le hb) hpb)

end KeyedList
