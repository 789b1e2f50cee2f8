import LighterMM.Binance.Obi
import LighterMM.Lib.DiffSync
import LighterMM.Lib.Json
import LighterMM.Lighter.Messages

/-!
# Snapshot sync of the depth stream (`binance/depth_client.rs`)

A resync round resets the book, applies a snapshot, runs the buffered events through `classifyEvent`, and
goes on with the live events, until one of them asks for the next round. `parse` is the text parser of
numbers.

`round_contiguous` says what a round leaves: the snapshot with a contiguous list of events, whatever the
events are.
-/

namespace LighterMM

/-- What to do with one diff event. -/
inductive EventAction where
  | drop
  /-- The first event that brackets the snapshot. -/
  | applyFirst
  | apply
  /-- An unsynced event past the snapshot, or a break of the continuity. -/
  | resync
  deriving DecidableEq, Repr

def classifyEvent (synced : Bool) (lastUpdateId prevU bigU u pu : ℤ) : EventAction :=
  if !synced then
    if u < lastUpdateId then .drop
    else if bigU ≤ lastUpdateId then .applyFirst
    else .resync
  else if pu = prevU then .apply
  else .resync

example : classifyEvent false 100 0 95 105 0 = .applyFirst ∧ classifyEvent false 100 0 101 110 0 = .resync ∧
    classifyEvent true 100 105 106 110 105 = .apply := by decide

/-- `v.get(key).and_then(as_i64).unwrap_or(0)`. -/
def i64Field (v : Json) (key : String) : ℤ := ((v.get key).bind Json.asI64).getD 0

variable (parse : String → NumText)

/-- The price and the size of a level. -/
def parseLevel (lvl : Json) : Option (ℚ × ℚ) :=
  match lvl.asArray with
  | some (p :: q :: _) =>
    match p.asStr.bind parse, q.asStr.bind parse with
    | some p, some q => some (p, q)
    | _, _ => none
  | _ => none

def parseLevels : Option Json → List (ℚ × ℚ)
  | some (.arr levels) => levels.filterMap (parseLevel parse)
  | _ => []

/-- A message with the numbers of a diff event; the others are skipped. -/
def isDepthEvent (v : Json) : Bool := (v.get "U").isSome && (v.get "u").isSome

namespace BinanceObi

/-- `step`: what to do with an event. -/
def step (o : BinanceObi) (synced : Bool) (event : Json) : EventAction :=
  classifyEvent synced o.lastUpdateId o.prevU (i64Field event "U") (i64Field event "u") (i64Field event "pu")

def applyEvent (o : BinanceObi) (event : Json) : BinanceObi :=
  o.applyDiff (parseLevels parse (event.get "b")) (parseLevels parse (event.get "a")) (i64Field event "u")

end BinanceObi

/-- What a round does with the events, in order. -/
inductive RoundEffect where
  /-- An event of the buffer is applied. -/
  | buffered (event : Json)
  /-- A live event is applied. -/
  | live (event : Json)
  | published (alpha : ℚ) (nowMs : ℕ)

/-- A resync round: `synced` is `none` once the round has ended. -/
structure DepthRound where
  obi : BinanceObi
  synced : Option Bool
  effects : List RoundEffect

namespace DepthRound

/-- One iteration of the loop of `apply_snapshot_and_drain`. -/
def onBuffered (rd : DepthRound) (event : Json) : DepthRound :=
  match rd.synced with
  | none => rd
  | some synced =>
    match rd.obi.step synced event with
    | .drop => rd
    | .applyFirst => ⟨rd.obi.applyEvent parse event, some true, rd.effects ++ [.buffered event]⟩
    | .apply => ⟨rd.obi.applyEvent parse event, some synced, rd.effects ++ [.buffered event]⟩
    | .resync => { rd with synced := none }

/-- `apply_snapshot_and_drain`. -/
def applySnapshotAndDrain (o : BinanceObi) (snapshot : Json) (buffer : List Json) : DepthRound :=
  let lastUpdateId := i64Field snapshot "lastUpdateId"
  let bids := parseLevels parse (snapshot.get "bids")
  let asks := parseLevels parse (snapshot.get "asks")
  buffer.foldl (onBuffered parse) ⟨o.applySnapshot bids asks lastUpdateId, some false, []⟩

/-- A live event is applied, and the alpha updated. -/
def applyLive (sqrt : ℚ → ℚ) (rd : DepthRound) (synced : Bool) (event : Json) (nowMs : ℕ) : DepthRound :=
  let r := (rd.obi.applyEvent parse event).updateAlpha sqrt nowMs
  ⟨r.1, some synced, rd.effects ++ .live event :: (r.2.map fun alpha => .published alpha nowMs).toList⟩

/-- One iteration of the live loop, on a text message that is JSON; `nowMs` is the clock of `update`. -/
def onLive (sqrt : ℚ → ℚ) (rd : DepthRound) (event : Json) (nowMs : ℕ) : DepthRound :=
  match rd.synced with
  | none => rd
  | some synced =>
    if !isDepthEvent event then rd
    else
      match rd.obi.step synced event with
      | .drop => rd
      | .applyFirst => rd.applyLive parse sqrt true event nowMs
      | .apply => rd.applyLive parse sqrt synced event nowMs
      | .resync => { rd with synced := none }

/-- A resync round of `session`. -/
def round (sqrt : ℚ → ℚ) (o : BinanceObi) (snapshot : Json) (buffer : List Json) (live : List (Json × ℕ)) :
    DepthRound :=
  live.foldl (fun rd e => rd.onLive parse sqrt e.1 e.2) (applySnapshotAndDrain parse o.reset snapshot buffer)

/-- The events applied, in order. -/
def applied (rd : DepthRound) : List Json :=
  rd.effects.filterMap fun
    | .buffered event => some event
    | .live event => some event
    | .published .. => none

/-- The alphas published, with their times. -/
def publications (rd : DepthRound) : List (ℚ × ℕ) :=
  rd.effects.filterMap fun
    | .published alpha nowMs => some (alpha, nowMs)
    | _ => none

end DepthRound

/-! ## What a round leaves -/

/-- The book as a feed of diff events. -/
def depthFeed : DiffFeed Json LocalBook where
  first event := i64Field event "U"
  last event := i64Field event "u"
  prev event := i64Field event "pu"
  change b event := b.applyDelta (parseLevels parse (event.get "b")) (parseLevels parse (event.get "a"))

def snapshotBook (snapshot : Json) : LocalBook :=
  LocalBook.new.applySnapshotScratch (parseLevels parse (snapshot.get "bids"))
    (parseLevels parse (snapshot.get "asks"))

/-- An event that cannot come after the events applied: it starts past the snapshot, or it does not continue
the last one. -/
def Breaks (lastUpdateId : ℤ) (applied : List Json) (event : Json) : Prop :=
  match applied.getLast? with
  | none => lastUpdateId < i64Field event "U" ∧ lastUpdateId ≤ i64Field event "u"
  | some e => i64Field event "pu" ≠ i64Field e "u"

namespace DepthRound

/-- The round has taken the events received, up to one that ended it: the book is the snapshot with the
events applied, and these are contiguous. -/
structure Follows (snapshot : Json) (received : List Json) (rd : DepthRound) : Prop where
  lastUpdateId : rd.obi.lastUpdateId = i64Field snapshot "lastUpdateId"
  taken : ∃ taken rest, received = taken ++ rest ∧
    (depthFeed parse).Synced (i64Field snapshot "lastUpdateId") (snapshotBook parse snapshot) taken rd.applied
      rd.obi.book ∧
    (rd.synced ≠ none → rest = []) ∧
    (rd.synced = none → ∃ event ∈ rest.head?, Breaks (i64Field snapshot "lastUpdateId") rd.applied event)
  synced : ∀ b, rd.synced = some b → (b = true ↔ rd.applied ≠ [])
  cursor : ∀ event ∈ rd.applied.getLast?, rd.obi.prevU = i64Field event "u"

/-- Each alpha is published right after a live event was applied. -/
def AfterLive (effects : List RoundEffect) : Prop :=
  ∀ pre alpha nowMs post, effects = pre ++ .published alpha nowMs :: post →
    ∃ pre' event, pre = pre' ++ [.live event]

/-- An alpha is published right after an event of the live stream was applied, and the shared alpha is what
was published since its reset. -/
structure Publishes (live : List Json) (rd : DepthRound) : Prop where
  after : AfterLive rd.effects
  live : ∀ event, RoundEffect.live event ∈ rd.effects → event ∈ live
  shared : rd.obi.shared = rd.publications.foldl (fun s p => s.update p.1 p.2) .new

variable {parse} {sqrt : ℚ → ℚ} {snapshot event : Json} {received live : List Json} {rd : DepthRound} {synced : Bool}
  {nowMs : ℕ}

/-- **The sync rules**: when an event is dropped, applied, or ends the round. -/
theorem step_cases (o : BinanceObi) (synced : Bool) (event : Json) :
    (o.step synced event = .drop ∧ synced = false ∧ i64Field event "u" < o.lastUpdateId) ∨
    (o.step synced event = .applyFirst ∧ synced = false ∧ i64Field event "U" ≤ o.lastUpdateId ∧
      o.lastUpdateId ≤ i64Field event "u") ∨
    (o.step synced event = .apply ∧ synced = true ∧ i64Field event "pu" = o.prevU) ∨
    (o.step synced event = .resync ∧ ((synced = false ∧ o.lastUpdateId < i64Field event "U" ∧
        o.lastUpdateId ≤ i64Field event "u") ∨ (synced = true ∧ i64Field event "pu" ≠ o.prevU))) := by
  unfold BinanceObi.step classifyEvent
  cases synced with
  | false =>
    by_cases hu : i64Field event "u" < o.lastUpdateId
    · simp [hu]
    · by_cases hU : i64Field event "U" ≤ o.lastUpdateId
      · simp [hu, hU, not_lt.mp hu]
      · simp [hu, hU, not_le.mp hU, not_lt.mp hu]
  | true => by_cases hpu : i64Field event "pu" = o.prevU <;> simp [hpu]

/-! ### The book -/

/-- A round that has ended takes no more events. -/
theorem Follows.ended (h : rd.Follows parse snapshot received) (hs : rd.synced = none) :
    rd.Follows parse snapshot (received ++ [event]) := by
  obtain ⟨taken, rest, hsplit, hsync, -, hbreak⟩ := h.taken
  obtain ⟨e, he, hbreaks⟩ := hbreak hs
  refine ⟨h.lastUpdateId, ⟨taken, rest ++ [event], by rw [hsplit, List.append_assoc], hsync,
    fun hne => absurd hs hne, fun _ => ⟨e, ?_, hbreaks⟩⟩, h.synced, h.cursor⟩
  rw [List.head?_append_of_ne_nil]
  · exact he
  · rintro rfl
    cases he

/-- All events so far are taken. -/
theorem Follows.running (h : rd.Follows parse snapshot received) (hs : rd.synced = some synced) :
    (depthFeed parse).Synced (i64Field snapshot "lastUpdateId") (snapshotBook parse snapshot) received
      rd.applied rd.obi.book := by
  obtain ⟨taken, rest, hsplit, hsync, hrest, -⟩ := h.taken
  rw [hrest (by rw [hs]; exact Option.some_ne_none _), List.append_nil] at hsplit
  rw [hsplit]
  exact hsync

/-- An unsynced round has applied nothing. -/
theorem Follows.unsynced (h : rd.Follows parse snapshot received) (hs : rd.synced = some false) :
    rd.applied = [] := by
  by_contra hne
  exact Bool.false_ne_true ((h.synced false hs).mpr hne)

theorem Follows.drop (h : rd.Follows parse snapshot received) (hs : rd.synced = some false)
    (hu : i64Field event "u" < rd.obi.lastUpdateId) : rd.Follows parse snapshot (received ++ [event]) := by
  have hnil := h.unsynced hs
  have hrun := h.running hs
  rw [h.lastUpdateId] at hu
  refine ⟨h.lastUpdateId, ⟨received ++ [event], [], (List.append_nil _).symm, ?_, fun _ => rfl, fun hnone => ?_⟩,
    h.synced, h.cursor⟩
  · rw [hnil] at hrun ⊢
    exact hrun.skip hu
  · rw [hs] at hnone
    cases hnone

/-- The event ends the round. -/
theorem Follows.resync (h : rd.Follows parse snapshot received) (hs : rd.synced = some synced)
    (hbreak : (synced = false ∧ rd.obi.lastUpdateId < i64Field event "U" ∧
      rd.obi.lastUpdateId ≤ i64Field event "u") ∨ (synced = true ∧ i64Field event "pu" ≠ rd.obi.prevU)) :
    Follows parse snapshot (received ++ [event]) { rd with synced := none } := by
  refine ⟨h.lastUpdateId, ⟨received, [event], rfl, h.running hs, fun hne => absurd rfl hne,
    fun _ => ⟨event, rfl, ?_⟩⟩, fun b hb => (Option.some_ne_none b hb.symm).elim, h.cursor⟩
  show Breaks _ rd.applied event
  unfold Breaks
  rcases hbreak with ⟨rfl, hpast⟩ | ⟨rfl, hpu⟩
  · rw [h.unsynced hs]
    rw [h.lastUpdateId] at hpast
    exact hpast
  · have hne : rd.applied ≠ [] := (h.synced true hs).mp rfl
    rw [List.getLast?_eq_some_getLast hne]
    have hcur := h.cursor _ (List.getLast?_eq_some_getLast hne)
    rw [hcur] at hpu
    exact hpu

/-- The event is applied. -/
theorem Follows.apply {rd' : DepthRound} (h : rd.Follows parse snapshot received) (hs : rd.synced = some synced)
    (hstep : rd.obi.step synced event = .applyFirst ∨ rd.obi.step synced event = .apply)
    (hbook : rd'.obi.book = (rd.obi.applyEvent parse event).book) (hu : rd'.obi.prevU = i64Field event "u")
    (hid : rd'.obi.lastUpdateId = rd.obi.lastUpdateId) (hsynced : rd'.synced = some true)
    (happlied : rd'.applied = rd.applied ++ [event]) : rd'.Follows parse snapshot (received ++ [event]) := by
  have hrun := h.running hs
  have hsync : (depthFeed parse).Synced (i64Field snapshot "lastUpdateId") (snapshotBook parse snapshot)
      (received ++ [event]) (rd.applied ++ [event]) rd'.obi.book := by
    rw [hbook]
    rcases step_cases rd.obi synced event with ⟨hact, -⟩ | ⟨-, rfl, hU, hle⟩ | ⟨-, rfl, hpu⟩ | ⟨hact, -⟩
    · rw [hact] at hstep
      rcases hstep with h | h <;> cases h
    · rw [h.lastUpdateId] at hU hle
      rw [h.unsynced hs] at hrun ⊢
      exact hrun.first hU hle
    · refine hrun.next ((h.synced true hs).mp rfl) fun e he => ?_
      exact hpu.trans (h.cursor e he)
    · rw [hact] at hstep
      rcases hstep with h | h <;> cases h
  refine ⟨hid.trans h.lastUpdateId, ⟨received ++ [event], [], (List.append_nil _).symm, ?_, fun _ => rfl,
    fun hnone => ?_⟩, fun b hb => ?_, fun e he => ?_⟩
  · rw [happlied]
    exact hsync
  · rw [hsynced] at hnone
    cases hnone
  · rw [hsynced] at hb
    cases hb
    exact iff_of_true rfl (by rw [happlied]; exact List.concat_ne_nil _ _)
  · rw [happlied, List.getLast?_concat] at he
    cases he
    exact hu

theorem applied_append {o : BinanceObi} {b : Option Bool} (effects new : List RoundEffect) :
    applied ⟨o, b, effects ++ new⟩ = applied ⟨o, b, effects⟩ ++ applied ⟨o, b, new⟩ := List.filterMap_append

theorem onBuffered_follows (h : rd.Follows parse snapshot received) :
    (rd.onBuffered parse event).Follows parse snapshot (received ++ [event]) := by
  unfold onBuffered
  cases hs : rd.synced with
  | none => exact h.ended hs
  | some synced =>
    rcases step_cases rd.obi synced event with ⟨hact, rfl, hu⟩ | ⟨hact, -⟩ | ⟨hact, rfl, -⟩ | ⟨hact, hbreak⟩ <;>
      simp only [hact]
    · exact h.drop hs hu
    · exact h.apply hs (.inl hact) rfl rfl rfl rfl (applied_append _ _)
    · exact h.apply hs (.inr hact) rfl rfl rfl rfl (applied_append _ _)
    · exact h.resync hs hbreak

theorem applyLive_follows (h : rd.Follows parse snapshot received) (hs : rd.synced = some synced)
    (hstep : rd.obi.step synced event = .applyFirst ∨ rd.obi.step synced event = .apply) :
    (rd.applyLive parse sqrt true event nowMs).Follows parse snapshot (received ++ [event]) := by
  obtain ⟨hbook, hu, hid, -⟩ := (rd.obi.applyEvent parse event).updateAlpha_frame sqrt nowMs
  refine h.apply hs hstep hbook hu hid rfl ?_
  refine (applied_append _ _).trans ?_
  cases ((rd.obi.applyEvent parse event).updateAlpha sqrt nowMs).2 <;> rfl

theorem onLive_follows (h : rd.Follows parse snapshot received) (hevent : isDepthEvent event = true) :
    (rd.onLive parse sqrt event nowMs).Follows parse snapshot (received ++ [event]) := by
  unfold onLive
  cases hs : rd.synced with
  | none => exact h.ended hs
  | some synced =>
    simp only [hevent, Bool.not_true, Bool.false_eq_true, if_false]
    rcases step_cases rd.obi synced event with ⟨hact, rfl, hu⟩ | ⟨hact, -⟩ | ⟨hact, rfl, -⟩ | ⟨hact, hbreak⟩ <;>
      simp only [hact]
    · exact h.drop hs hu
    · exact applyLive_follows h hs (.inl hact)
    · exact applyLive_follows h hs (.inr hact)
    · exact h.resync hs hbreak

/-- A message without the numbers of an event is skipped. -/
theorem onLive_skip (hevent : isDepthEvent event = false) : rd.onLive parse sqrt event nowMs = rd := by
  unfold onLive
  rw [hevent]
  split <;> rfl

/-! ### The alpha -/

theorem AfterLive.append {effects new : List RoundEffect} (h : AfterLive effects) (hnew : AfterLive new) :
    AfterLive (effects ++ new) := by
  intro pre alpha nowMs post heq
  rcases List.append_eq_append_iff.mp heq with ⟨c, rfl, hc⟩ | ⟨c, rfl, hc⟩
  · obtain ⟨c', event, rfl⟩ := hnew c alpha nowMs post hc
    exact ⟨effects ++ c', event, by rw [List.append_assoc]⟩
  · cases c with
    | nil =>
      obtain ⟨c', event, hnil⟩ := hnew [] alpha nowMs post hc.symm
      exact absurd hnil.symm (List.concat_ne_nil _ _)
    | cons x c =>
      obtain ⟨rfl, -⟩ := List.cons.inj hc
      exact h pre alpha nowMs c rfl

theorem afterLive_nil : AfterLive [] := by
  intro pre alpha nowMs post h
  exact absurd h.symm (List.append_ne_nil_of_right_ne_nil _ (List.cons_ne_nil _ _))

theorem afterLive_buffered (event : Json) : AfterLive [.buffered event] := by
  intro pre alpha nowMs post h
  cases pre with
  | nil => cases h
  | cons x pre =>
    obtain ⟨-, h⟩ := List.cons.inj h
    exact absurd h.symm (List.append_ne_nil_of_right_ne_nil _ (List.cons_ne_nil _ _))

/-- A live event, and the alpha that it publishes, if any. -/
theorem afterLive_live (event : Json) (alpha : Option ℚ) (nowMs : ℕ) :
    AfterLive (.live event :: (alpha.map fun alpha => RoundEffect.published alpha nowMs).toList) := by
  intro pre alpha' nowMs' post h
  cases pre with
  | nil => cases h
  | cons x pre =>
    obtain ⟨rfl, htail⟩ := List.cons.inj h
    cases alpha with
    | none => exact absurd htail.symm (List.append_ne_nil_of_right_ne_nil _ (List.cons_ne_nil _ _))
    | some a =>
      cases pre with
      | nil => exact ⟨[], event, rfl⟩
      | cons y pre =>
        obtain ⟨-, hnil⟩ := List.cons.inj htail
        exact absurd hnil.symm (List.append_ne_nil_of_right_ne_nil _ (List.cons_ne_nil _ _))

theorem Publishes.mono {live' : List Json} (h : rd.Publishes live) (hsub : live ⊆ live') : rd.Publishes live' :=
  ⟨h.after, fun e he => hsub (h.live e he), h.shared⟩

theorem onBuffered_publishes (h : rd.Publishes live) : (rd.onBuffered parse event).Publishes live := by
  have hadd : ∀ b, Publishes live ⟨rd.obi.applyEvent parse event, b, rd.effects ++ [.buffered event]⟩ := by
    intro b
    refine ⟨h.after.append (afterLive_buffered event), fun e he => h.live e ?_, h.shared.trans ?_⟩
    · rcases List.mem_append.mp he with he | he
      · exact he
      · cases List.mem_singleton.mp he
    · rw [publications, publications, List.filterMap_append]
      exact congrArg _ (List.append_nil _).symm
  unfold onBuffered
  cases hs : rd.synced with
  | none => exact h
  | some synced =>
    simp only
    cases rd.obi.step synced event with
    | drop => exact h
    | applyFirst => exact hadd _
    | apply => exact hadd _
    | resync => exact ⟨h.after, h.live, h.shared⟩

theorem applyLive_publishes (h : rd.Publishes live) (b : Bool) :
    (rd.applyLive parse sqrt b event nowMs).Publishes (live ++ [event]) := by
  obtain ⟨-, -, -, hshared⟩ := (rd.obi.applyEvent parse event).updateAlpha_frame sqrt nowMs
  refine ⟨h.after.append (afterLive_live event _ nowMs), fun e he => ?_, ?_⟩
  · rcases List.mem_append.mp he with he | he
    · exact List.mem_append_left _ (h.live e he)
    · rcases List.mem_cons.mp he with he | he
      · cases he
        exact List.mem_append_right _ (List.mem_singleton_self _)
      · rw [Option.mem_toList, Option.map_eq_some_iff] at he
        obtain ⟨alpha, -, halpha⟩ := he
        cases halpha
  · refine hshared.trans ?_
    have hold : (rd.obi.applyEvent parse event).shared = rd.obi.shared := rfl
    rw [hold, h.shared, publications, publications]
    show _ = ((rd.effects ++ _).filterMap _).foldl _ _
    rw [List.filterMap_append, List.foldl_append]
    cases ((rd.obi.applyEvent parse event).updateAlpha sqrt nowMs).2 <;> rfl

theorem onLive_publishes (h : rd.Publishes live) :
    (rd.onLive parse sqrt event nowMs).Publishes (live ++ [event]) := by
  have hkept : rd.Publishes (live ++ [event]) := h.mono (List.subset_append_left _ _)
  unfold onLive
  cases hs : rd.synced with
  | none => exact hkept
  | some synced =>
    simp only
    split
    · exact hkept
    · cases rd.obi.step synced event with
      | drop => exact hkept
      | applyFirst => exact applyLive_publishes h true
      | apply => exact applyLive_publishes h synced
      | resync => exact ⟨hkept.after, hkept.live, hkept.shared⟩

/-! ### Rounds -/

theorem drain_spec (o : BinanceObi) (snapshot : Json) (buffer : List Json) :
    (applySnapshotAndDrain parse o.reset snapshot buffer).Follows parse snapshot buffer ∧
      (applySnapshotAndDrain parse o.reset snapshot buffer).Publishes [] := by
  induction buffer using List.reverseRecOn with
  | nil =>
    refine ⟨⟨rfl, ⟨[], [], rfl, .nil, fun _ => rfl, fun hnone => by cases hnone⟩, fun b hb => ?_,
      fun e he => by cases he⟩, ⟨afterLive_nil, fun e he => (List.not_mem_nil he).elim, rfl⟩⟩
    cases hb
    exact iff_of_false Bool.false_ne_true fun hne => hne rfl
  | append_singleton buffer event ih =>
    unfold applySnapshotAndDrain at ih ⊢
    rw [List.foldl_append]
    exact ⟨onBuffered_follows ih.1, onBuffered_publishes ih.2⟩

/-- **The sync rounds of the depth stream.** After a round with any snapshot, any buffered events and any
live ones, the book is the snapshot with a contiguous list of the events received, and the cursor is the
number of the last one; an event that breaks it ended the round. An alpha is published only right after
a live event was applied. -/
theorem round_contiguous (parse : String → NumText) (sqrt : ℚ → ℚ) (o : BinanceObi) (snapshot : Json)
    (buffer : List Json) (live : List (Json × ℕ)) :
    (round parse sqrt o snapshot buffer live).Follows parse snapshot
        (buffer ++ (live.map Prod.fst).filter isDepthEvent) ∧
      (round parse sqrt o snapshot buffer live).Publishes (live.map Prod.fst) := by
  induction live using List.reverseRecOn with
  | nil =>
    rw [List.map_nil, List.filter_nil, List.append_nil]
    exact drain_spec o snapshot buffer
  | append_singleton live e ih =>
    unfold round at ih ⊢
    rw [List.foldl_append, List.map_append, List.filter_append]
    refine ⟨?_, onLive_publishes ih.2⟩
    by_cases hevent : isDepthEvent e.1 = true
    · rw [List.map_singleton, List.filter_cons_of_pos hevent, List.filter_nil, ← List.append_assoc]
      exact onLive_follows ih.1 hevent
    · rw [List.map_singleton, List.filter_cons_of_neg hevent, List.filter_nil, List.append_nil]
      rw [List.foldl_cons, List.foldl_nil, onLive_skip (Bool.eq_false_iff.mpr hevent)]
      exact ih.1

end DepthRound

end LighterMM
