import LighterMM.Binance.DepthSync
import LighterMM.Book.Sides
import LighterMM.Hot.BookFeed

/-!
# Levels whose text is not a number

`de_f64_flex` reads such a text as `0`, so the level of an order book message becomes a level at price
zero or a removal. The depth stream of the other exchange drops it (`parseLevels_unreadable`).

`unreadable_absent_iff` says when the book comes out as if the level were not there: in a snapshot, if it
reads with size zero; in a delta, if the side already holds what is read (`Harmless`) or the message goes
on to overwrite it.
-/

namespace LighterMM

open KeyedList

variable (parse : String → NumText)

/-! ## Deserialisation -/

/-- `de_f64_flex`: a number or a numeric string; a string that is not a number counts as `0`. -/
def deF64Flex : Json → Option ℚ
  | .str s => some (parseF64 (parse s))
  | j => j.asF64

def PriceLevel.decode (j : Json) : Option PriceLevel :=
  match j.record ["price", "size"] with
  | some [some price, some size] => do
    let price ← deF64Flex parse price
    let size ← deF64Flex parse size
    pure { price, size }
  | _ => none

/-- An `order_book` message whose levels are not read yet. -/
structure RawBookMsg where
  subscribed : Bool
  offset : Option ℕ
  nonce : Option ℤ
  beginNonce : Option ℤ
  /-- The `bids` and the `asks` of the payload. -/
  levels : Side → List Json
  payloadOffset : Option ℕ
  payloadNonce : Option ℤ
  payloadBeginNonce : Option ℤ

namespace RawBookMsg

/-- A level of another kind fails the whole message. -/
def read (m : RawBookMsg) : Option OrderBookMsg := do
  let bids ← (m.levels .buy).mapM (PriceLevel.decode parse)
  let asks ← (m.levels .sell).mapM (PriceLevel.decode parse)
  pure { subscribed := m.subscribed, offset := m.offset, nonce := m.nonce, beginNonce := m.beginNonce
         orderBook := { bids, asks, offset := m.payloadOffset, nonce := m.payloadNonce,
                        beginNonce := m.payloadBeginNonce } }

/-- The message with other levels on one side. -/
def withLevels (m : RawBookMsg) (sd : Side) (levels : List Json) : RawBookMsg :=
  { m with levels := Function.update m.levels sd levels }

end RawBookMsg

/-- The value is a text that is not a number. -/
def NotANumber (j : Json) : Prop := ∃ s, j = .str s ∧ parse s = none

/-- The price or the size of the level is not a number. -/
def Unreadable (j : Json) : Prop :=
  ∃ price size, j.record ["price", "size"] = some [some price, some size] ∧
    (NotANumber parse price ∨ NotANumber parse size)

/-- The levels that are read. -/
def readLevels (levels : List Json) : List (ℚ × ℚ) := bookLevels (levels.filterMap (PriceLevel.decode parse))

/-- The message goes through the book if it is read. -/
def applyRaw (b : LocalBook) (m : RawBookMsg) : LocalBook :=
  match m.read parse with
  | some msg => HotTask.applyMsg b msg
  | none => b

/-- The book after the messages of a connection. -/
def received (msgs : List OrderBookMsg) : LocalBook := msgs.foldl HotTask.applyMsg .new

/-- The sizes that a side stores at a price once it has taken the levels `before`. -/
def heldAt (b : BookSide) (before : List (ℚ × ℚ)) (price : ℚ) : List ℚ :=
  (stack (BookSide.writes before) price).foldl writeTop (stack b.levels price)

/-- A level that reads as `price` and `size` leaves no trace: a snapshot drops size zero; a delta finds the
size there already, or the levels `after` write the price again (and empty it, where the level removes
one of several sizes). -/
def Unseen (asSnapshot : Bool) (held : List ℚ) (price size : ℚ) (after : List (ℚ × ℚ)) : Prop :=
  if asSnapshot then size = 0
  else BookSide.sizeWrite size = held.head? ∨
    stack (BookSide.writes after) price ≠ [] ∧ (BookSide.sizeWrite size ≠ none ∨
      held.length ≤ 1 + (stack (BookSide.writes after) price).dropLast.countP (·.isNone))

/-! ## One level of a side -/

namespace BookSide

variable {b : BookSide}

theorem Sorted.eq_iff {b' : BookSide} (h : b.Sorted) (h' : b'.Sorted) :
    b = b' ↔ ∀ x, stack b.levels x = stack b'.levels x := by
  constructor
  · rintro rfl x
    rfl
  · intro heq
    rw [h.eq_ofLevels, h'.eq_ofLevels, h.ascending.ext h'.ascending heq]

theorem Sorted.stack_upsertAll (h : b.Sorted) (levels : List (ℚ × ℚ)) (x : ℚ) :
    stack (b.upsertAll levels).levels x = (stack (writes levels) x).foldl writeTop (stack b.levels x) := by
  rw [h.levels_upsertAll, h.ascending.stack_writeAll]

/-- A delta with the level and without it. -/
theorem Sorted.upsertAll_skip_iff (h : b.Sorted) (before after : List (ℚ × ℚ)) (p s : ℚ) :
    b.upsertAll (before ++ (p, s) :: after) = b.upsertAll (before ++ after) ↔
      Unseen false (heldAt b before p) p s after := by
  have hwith : ∀ x, stack (writes (before ++ (p, s) :: after)) x =
      stack (writes before) x ++ if p = x then sizeWrite s :: stack (writes after) x else stack (writes after) x := by
    intro x
    rw [writes, List.map_append, List.map_cons, stack_append, stack_cons]
    rfl
  have hwithout : ∀ x, stack (writes (before ++ after)) x = stack (writes before) x ++ stack (writes after) x := by
    intro x
    rw [writes, List.map_append, stack_append]
    rfl
  rw [(h.upsertAll _).eq_iff (h.upsertAll _)]
  have hat : stack (b.upsertAll (before ++ (p, s) :: after)).levels p = stack (b.upsertAll (before ++ after)).levels p ↔
      Unseen false (heldAt b before p) p s after := by
    rw [h.stack_upsertAll, h.stack_upsertAll, hwith, hwithout, if_pos rfl, List.foldl_append, List.foldl_append,
      List.foldl_cons, foldl_writeTop_eq_iff]
    rfl
  rw [← hat]
  refine ⟨fun hall => hall p, fun hp x => ?_⟩
  by_cases hx : p = x
  · rw [← hx]
    exact hp
  · rw [h.stack_upsertAll, h.stack_upsertAll, hwith, hwithout, if_neg hx]

theorem snapshot_skip_iff (before after : List (ℚ × ℚ)) (p s : ℚ) :
    applySnapshotScratch (before ++ (p, s) :: after) = applySnapshotScratch (before ++ after) ↔ s = 0 := by
  constructor
  · intro heq
    by_contra hs
    have hlevels := congrArg (fun c => (levels c).length) heq
    simp only [levels_applySnapshotScratch, List.length_insertionSort, List.filter_append, List.length_append] at hlevels
    rw [List.filter_cons_of_pos (by simpa using hs), List.length_cons] at hlevels
    omega
  · rintro rfl
    unfold applySnapshotScratch
    rw [List.filter_append, List.filter_append, List.filter_cons_of_neg (by simp)]

end BookSide

/-! ## Messages -/

variable {parse}

/-- A list is read level by level. -/
theorem mapM_decode_eq_some {levels : List Json} {out : List PriceLevel} :
    levels.mapM (PriceLevel.decode parse) = some out ↔
      (∀ l ∈ levels, (PriceLevel.decode parse l).isSome) ∧ out = levels.filterMap (PriceLevel.decode parse) := by
  induction levels generalizing out with
  | nil =>
    rw [List.mapM_nil]
    exact ⟨fun h => ⟨fun l hl => absurd hl List.not_mem_nil, (Option.some.inj h).symm⟩, fun h => by rw [h.2]; rfl⟩
  | cons l levels ih =>
    rw [List.mapM_cons]
    cases hl : PriceLevel.decode parse l with
    | none =>
      refine iff_of_false (by simp) fun h => ?_
      have hsome := h.1 l List.mem_cons_self
      rw [hl] at hsome
      cases hsome
    | some lv =>
      rw [List.filterMap_cons_some hl, List.forall_mem_cons, hl]
      cases hrest : levels.mapM (PriceLevel.decode parse) with
      | none =>
        refine iff_of_false (by simp) fun h => ?_
        have hsome := ih.mpr ⟨h.1.2, rfl⟩
        rw [hrest] at hsome
        cases hsome
      | some lvs =>
        obtain ⟨hall, rfl⟩ := ih.mp hrest
        exact ⟨fun h => ⟨⟨rfl, hall⟩, (Option.some.inj h).symm⟩, fun h => by rw [h.2]; rfl⟩

namespace RawBookMsg

variable (parse) in
/-- The message with the levels that are read. -/
def toMsg (m : RawBookMsg) : OrderBookMsg where
  subscribed := m.subscribed
  offset := m.offset
  nonce := m.nonce
  beginNonce := m.beginNonce
  orderBook :=
    { bids := (m.levels .buy).filterMap (PriceLevel.decode parse)
      asks := (m.levels .sell).filterMap (PriceLevel.decode parse)
      offset := m.payloadOffset
      nonce := m.payloadNonce
      beginNonce := m.payloadBeginNonce }

theorem withLevels_self (m : RawBookMsg) (sd : Side) (levels : List Json) :
    (m.withLevels sd levels).levels sd = levels := Function.update_self _ _ _

theorem withLevels_ne (m : RawBookMsg) {sd sd' : Side} (h : sd' ≠ sd) (levels : List Json) :
    (m.withLevels sd levels).levels sd' = m.levels sd' := Function.update_of_ne h _ _

/-- A message is read if all its levels are. -/
theorem read_eq_some {m : RawBookMsg} {msg : OrderBookMsg} :
    m.read parse = some msg ↔
      (∀ sd, ∀ l ∈ m.levels sd, (PriceLevel.decode parse l).isSome) ∧ msg = m.toMsg parse := by
  have hsides : (∀ sd, ∀ l ∈ m.levels sd, (PriceLevel.decode parse l).isSome) ↔
      (∀ l ∈ m.levels .buy, (PriceLevel.decode parse l).isSome) ∧
        ∀ l ∈ m.levels .sell, (PriceLevel.decode parse l).isSome :=
    ⟨fun h => ⟨h .buy, h .sell⟩, fun h sd => by cases sd; exacts [h.1, h.2]⟩
  rw [hsides]
  unfold read
  simp only [bind, Option.bind_eq_some_iff, mapM_decode_eq_some]
  constructor
  · rintro ⟨_, ⟨hbuy, rfl⟩, _, ⟨hsell, rfl⟩, hmsg⟩
    exact ⟨⟨hbuy, hsell⟩, (Option.some.inj hmsg).symm⟩
  · rintro ⟨⟨hbuy, hsell⟩, rfl⟩
    exact ⟨_, ⟨hbuy, rfl⟩, _, ⟨hsell, rfl⟩, rfl⟩

/-- Without one of its levels a message is still read. -/
theorem read_skip {m : RawBookMsg} {sd : Side} {before after : List Json} {l : Json}
    (h : ((m.withLevels sd (before ++ l :: after)).read parse).isSome) :
    (m.withLevels sd (before ++ l :: after)).read parse = some ((m.withLevels sd (before ++ l :: after)).toMsg parse) ∧
      (m.withLevels sd (before ++ after)).read parse = some ((m.withLevels sd (before ++ after)).toMsg parse) := by
  obtain ⟨msg, hmsg⟩ := Option.isSome_iff_exists.mp h
  obtain ⟨hall, rfl⟩ := read_eq_some.mp hmsg
  refine ⟨hmsg, read_eq_some.mpr ⟨fun sd' l' hl' => hall sd' l' ?_, rfl⟩⟩
  by_cases hsd : sd' = sd
  · subst hsd
    rw [withLevels_self] at hl' ⊢
    rcases List.mem_append.mp hl' with hl' | hl'
    · exact List.mem_append_left _ hl'
    · exact List.mem_append_right _ (List.mem_cons_of_mem l hl')
  · rwa [withLevels_ne m hsd] at hl' ⊢

/-- The levels of one side decide what a message does to the book beside the levels of the other. -/
theorem applyMsg_eq_iff (b : LocalBook) (m : RawBookMsg) (sd : Side) (levels levels' : List Json) :
    HotTask.applyMsg b ((m.withLevels sd levels).toMsg parse) = HotTask.applyMsg b ((m.withLevels sd levels').toMsg parse) ↔
      if m.subscribed || !b.initialized then
        BookSide.applySnapshotScratch (readLevels parse levels) = .applySnapshotScratch (readLevels parse levels')
      else (b.side sd).upsertAll (readLevels parse levels) = (b.side sd).upsertAll (readLevels parse levels') := by
  have hsub : ∀ ls, ((m.withLevels sd ls).toMsg parse).isSnapshot = m.subscribed := fun _ => rfl
  unfold HotTask.applyMsg
  simp only [hsub]
  split
  · cases sd <;> simp [LocalBook.applySnapshotScratch, toMsg, withLevels, OrderBookMsg.effectiveOffset,
      OrderBookMsg.effectiveNonce, readLevels, bookLevels]
  · cases sd <;> simp [LocalBook.applyDelta, toMsg, withLevels, OrderBookMsg.effectiveOffset,
      OrderBookMsg.effectiveNonce, readLevels, bookLevels, BookSide.upsertAll, LocalBook.side]

end RawBookMsg

/-! ## The book of a connection -/

/-- A message as an update of the book `b`. -/
def OrderBookMsg.toUpdate (msg : OrderBookMsg) (b : LocalBook) : BookUpdate where
  snapshot := msg.isSnapshot || !b.initialized
  levels
    | .buy => bookLevels msg.orderBook.bids
    | .sell => bookLevels msg.orderBook.asks

theorem applyMsg_side (b : LocalBook) (msg : OrderBookMsg) (sd : Side) :
    (HotTask.applyMsg b msg).side sd = (b.update (msg.toUpdate b)).side sd := by
  unfold HotTask.applyMsg
  simp only
  rw [LocalBook.side_update]
  unfold OrderBookMsg.toUpdate
  by_cases h : (msg.isSnapshot || !b.initialized) = true
  · rw [if_pos h, if_pos h]
    cases sd <;> rfl
  · rw [if_neg h, if_neg h]
    cases sd <;> rfl

theorem received_sorted (msgs : List OrderBookMsg) (sd : Side) : ((received msgs).side sd).Sorted := by
  induction msgs using List.reverseRecOn with
  | nil => exact (LocalBook.new_isMap sd).sorted
  | append_singleton msgs msg ih =>
    have hstep : received (msgs ++ [msg]) = HotTask.applyMsg (received msgs) msg := by
      simp [received]
    rw [hstep, applyMsg_side]
    exact LocalBook.update_sorted ih _

/-- A text that is not a number is read as zero. -/
theorem Unreadable.reads_zero {l : Json} {lv : PriceLevel} (h : Unreadable parse l)
    (hlv : PriceLevel.decode parse l = some lv) : lv.price = 0 ∨ lv.size = 0 := by
  obtain ⟨price, size, hrec, hnan⟩ := h
  rw [PriceLevel.decode, hrec] at hlv
  obtain ⟨p, hp, hlv⟩ := Option.bind_eq_some_iff.mp hlv
  obtain ⟨s, hs, hlv⟩ := Option.bind_eq_some_iff.mp hlv
  cases hlv
  have hzero : ∀ {j : Json} {x : ℚ}, NotANumber parse j → deF64Flex parse j = some x → x = 0 := by
    rintro _ x ⟨s, rfl, hs⟩ hx
    rw [deF64Flex, hs] at hx
    exact (Option.some.inj hx).symm
  exact hnan.imp (fun h => hzero h hp) fun h => hzero h hs

variable (parse) in
/-- The level leaves the book as if it were absent. -/
def AsIfAbsent (b : LocalBook) (m : RawBookMsg) (sd : Side) (before : List Json) (l : Json) (after : List Json) :
    Prop :=
  applyRaw parse b (m.withLevels sd (before ++ l :: after)) = applyRaw parse b (m.withLevels sd (before ++ after))

/-- **When an unreadable level changes nothing.** In every message that is read, and for the book of every
connection, a level whose price or size is not a number is read with a zero in its place. The book comes
out as without it if and only if the level so read leaves no trace. -/
theorem unreadable_absent_iff (msgs : List OrderBookMsg) (m : RawBookMsg) (sd : Side) (before after : List Json)
    {l : Json} {lv : PriceLevel} (hl : Unreadable parse l) (hlv : PriceLevel.decode parse l = some lv)
    (hread : ((m.withLevels sd (before ++ l :: after)).read parse).isSome) :
    (lv.price = 0 ∨ lv.size = 0) ∧
      (AsIfAbsent parse (received msgs) m sd before l after ↔
        Unseen (m.subscribed || !(received msgs).initialized)
          (heldAt ((received msgs).side sd) (readLevels parse before) lv.price) lv.price lv.size
          (readLevels parse after)) := by
  refine ⟨hl.reads_zero hlv, ?_⟩
  obtain ⟨hwith, hwithout⟩ := RawBookMsg.read_skip hread
  have hlevels : readLevels parse (before ++ l :: after) =
      readLevels parse before ++ (lv.price, lv.size) :: readLevels parse after := by
    simp [readLevels, bookLevels, hlv]
  have hlevels' : readLevels parse (before ++ after) = readLevels parse before ++ readLevels parse after := by
    simp [readLevels, bookLevels]
  unfold AsIfAbsent applyRaw
  simp only [hwith, hwithout]
  rw [RawBookMsg.applyMsg_eq_iff, hlevels, hlevels']
  by_cases hsnap : (m.subscribed || !(received msgs).initialized) = true
  · rw [if_pos hsnap, BookSide.snapshot_skip_iff, Unseen, if_pos hsnap]
  · rw [if_neg hsnap, (received_sorted msgs sd).upsertAll_skip_iff]
    unfold Unseen
    rw [if_neg hsnap, if_neg Bool.false_ne_true]

/-! ## A book with one bid -/

/-- A parser that knows two numbers. -/
def twoNumbers (s : String) : NumText := if s = "100" then some 100 else if s = "2" then some 2 else none

def levelOf (price size : String) : Json := .obj [("price", .str price), ("size", .str size)]

/-- A snapshot of one bid at 100. -/
def oneBid : OrderBookMsg where
  subscribed := true
  offset := none
  nonce := none
  beginNonce := none
  orderBook := ⟨[⟨100, 2⟩], [], none, none, none⟩

/-- A delta without levels. -/
def emptyDelta : RawBookMsg := ⟨false, none, none, none, fun _ => [], none, none, none⟩

/-- A size that is not a number is overwritten by a later level of the price. -/
theorem unreadable_absent_iff_overwritten :
    ((100 : ℚ) = 0 ∨ (0 : ℚ) = 0) ∧
      (AsIfAbsent twoNumbers (received [oneBid]) emptyDelta .buy [] (levelOf "100" "x") [levelOf "100" "2"] ↔
        Unseen false [2] 100 0 [(100, 2)]) :=
  unreadable_absent_iff [oneBid] emptyDelta .buy [] [levelOf "100" "2"]
    ⟨.str "100", .str "x", rfl, .inr ⟨"x", rfl, by decide⟩⟩
    (show PriceLevel.decode twoNumbers (levelOf "100" "x") = some ⟨100, 0⟩ by rfl) (by rfl)

/-- **A size that is not a number deletes a level.** -/
theorem unreadable_size_deletes :
    ¬ ∀ (parse : String → NumText) (msgs : List OrderBookMsg) (m : RawBookMsg) (sd : Side) (before after : List Json)
      (l : Json), Unreadable parse l → ((m.withLevels sd (before ++ l :: after)).read parse).isSome →
      AsIfAbsent parse (received msgs) m sd before l after := by
  intro h
  have habsent := h twoNumbers [oneBid] emptyDelta .buy [] [] (levelOf "100" "x")
    ⟨.str "100", .str "x", rfl, .inr ⟨"x", rfl, by decide⟩⟩ (by rfl)
  have hprices := congrArg (fun b => b.bids.prices) habsent
  exact absurd hprices (by decide +kernel)

/-- **A price that is not a number creates a level at zero.** -/
example : (applyRaw twoNumbers (received [oneBid]) (emptyDelta.withLevels .buy [levelOf "x" "2"])).bids.prices =
    [0, 100] := by decide +kernel

/-! ## The other feed -/

/-- **The depth stream drops such a level.** -/
theorem parseLevels_unreadable {price size : String} (h : parse price = none ∨ parse size = none)
    (before after more : List Json) :
    parseLevels parse (some (.arr (before ++ .arr (.str price :: .str size :: more) :: after))) =
      parseLevels parse (some (.arr (before ++ after))) := by
  have hnone : parseLevel parse (.arr (.str price :: .str size :: more)) = none := by
    unfold parseLevel
    rcases h with h | h
    · simp [Json.asArray, Json.asStr, h]
    · cases hp : parse price <;> simp [Json.asArray, Json.asStr, h, hp]
  simp [parseLevels, hnone]

end LighterMM
