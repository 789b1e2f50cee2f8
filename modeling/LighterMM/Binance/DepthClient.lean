import LighterMM.Binance.AlphaFeed
import LighterMM.Binance.DepthSync
import LighterMM.Strategy.Windows

/-!
# The depth task and the alphas that it publishes (`binance/depth_client.rs`)

`run` reconnects forever; a session is a loop of resync rounds (`Binance/DepthSync`) on one socket, which it
gives up after five in a row that did not sync; a round resets the published alpha and then publishes one for
each live event that it applies. What is left of earlier rounds and sessions, buffer of the rolling statistics
included, does not show in what a round publishes: an alpha is the z-score of the imbalances of its own round
(`run_published`).

Together with `Binance/AlphaFeed` this says what override the hot task can read (`override_founded`).
-/

namespace LighterMM

open Welford

/-- The z-score of `v` in a window, `0` where the deviation is too small. -/
def zscoreIn (sqrt : ℚ → ℚ) (w : List ℚ) (v : ℚ) : ℚ :=
  let sd := if 2 ≤ w.length then sqrt (sqDev w / w.length) else 0
  if sd < 1 / 10000000000 then 0 else (v - mean w) / sd

namespace RollingStats

variable {sqrt : ℚ → ℚ} {r : RollingStats} {w : List ℚ} {v : ℚ}

theorem Exact.push_zscore (h : Exact r w) (sqrt : ℚ → ℚ) (v : ℚ) :
    (r.push sqrt v).zscore v = zscoreIn sqrt ((w ++ [v]).rtake r.capacity) v := by
  have hpush := h.push sqrt v
  have hstd : (r.push sqrt v).cachedStd =
      if 2 ≤ (r.push sqrt v).count then sqrt ((r.push sqrt v).m2 / (r.push sqrt v).count) else 0 := rfl
  unfold zscore zscoreIn
  rw [hstd, hpush.count, hpush.m2, hpush.mean]

theorem push_capacity (sqrt : ℚ → ℚ) (r : RollingStats) (v : ℚ) : (r.push sqrt v).capacity = r.capacity := by
  unfold push add evict
  split <;> rfl

end RollingStats

/-- `MAX_RESYNC_ATTEMPTS`. -/
def maxResyncAttempts : ℕ := 5

/-- What a resync round gets from Binance. -/
inductive RoundInput where
  /-- The snapshot cannot be fetched, or the socket fails meanwhile. -/
  | noSnapshot
  | snapshot (snapshot : Json) (buffer : List Json) (live : List (Json × ℕ))

namespace DepthRound

/-- What a round does to the published alpha, after its reset. -/
def updates (rd : DepthRound) : List AlphaOp := rd.publications.map fun p => .update p.1 p.2

def hasLive (rd : DepthRound) : Bool :=
  rd.effects.any fun
    | .live _ => true
    | _ => false

end DepthRound

structure BinanceDepthClient where
  obi : BinanceObi
  resyncAttempts : ℕ
  deriving DecidableEq, Repr

namespace BinanceDepthClient

variable (parse : String → NumText) (sqrt : ℚ → ℚ)

/-- A round of `session`: what it leaves, what it does to the published alpha, and whether another round
follows. -/
def resyncRound (c : BinanceDepthClient) : RoundInput → BinanceDepthClient × List AlphaOp × Bool
  | .noSnapshot => (⟨c.obi.reset, c.resyncAttempts⟩, [.reset], false)
  | .snapshot snapshot buffer live =>
    let drained := DepthRound.applySnapshotAndDrain parse c.obi.reset snapshot buffer
    let rd := DepthRound.round parse sqrt c.obi snapshot buffer live
    -- The attempts start again once the buffer or a live event syncs.
    let attempts := if drained.synced = some true ∨ rd.hasLive then 0 else c.resyncAttempts
    match rd.synced with
    | none => (⟨rd.obi, attempts + 1⟩, .reset :: rd.updates, decide (attempts + 1 < maxResyncAttempts))
    | some _ => (⟨rd.obi, attempts⟩, .reset :: rd.updates, false)

/-- `session`, once it is connected. -/
def session : BinanceDepthClient → List RoundInput → BinanceDepthClient × List AlphaOp
  | c, [] => (c, [])
  | c, input :: inputs =>
    let r := c.resyncRound parse sqrt input
    if r.2.2 then
      let r' := session r.1 inputs
      (r'.1, r.2.1 ++ r'.2)
    else (r.1, r.2.1)

/-- `run`: what the task does to the published alpha, in sessions with these rounds (none, where the
connection fails). -/
def run : BinanceObi → List (List RoundInput) → List AlphaOp
  | _, [] => []
  | o, inputs :: sessions =>
    let r := session parse sqrt ⟨o.reset, 0⟩ inputs
    .reset :: r.2 ++ run r.1.obi sessions

end BinanceDepthClient

/-! ## What an alpha is -/

namespace BinanceObi

/-- The imbalance of a book. -/
def imbalanceOf (lookingDepth : ℚ) (book : LocalBook) : Option ℚ :=
  imbalance ⟨book, .new 0, lookingDepth, 0, 0, .new⟩

theorem imbalance_eq (o : BinanceObi) : o.imbalance = imbalanceOf o.lookingDepth o.book := rfl

variable {o : BinanceObi} {v : ℚ}

theorem updateAlpha_none (h : o.imbalance = none) (sqrt : ℚ → ℚ) (nowMs : ℕ) :
    o.updateAlpha sqrt nowMs = (o, none) := by
  unfold updateAlpha
  rw [h]

theorem updateAlpha_some (h : o.imbalance = some v) (sqrt : ℚ → ℚ) (nowMs : ℕ) :
    o.updateAlpha sqrt nowMs = ({ o with
      imbStats := o.imbStats.push sqrt v, shared := o.shared.update ((o.imbStats.push sqrt v).zscore v) nowMs },
      some ((o.imbStats.push sqrt v).zscore v)) := by
  unfold updateAlpha
  rw [h]

end BinanceObi

section Alphas

variable (parse : String → NumText) (sqrt : ℚ → ℚ) (lookingDepth : ℚ) (window : ℕ)

/-- The book after a live event, and the imbalances of the books so far. -/
def measure (m : LocalBook × List ℚ) (event : Json) : LocalBook × List ℚ :=
  let book := (depthFeed parse).change m.1 event
  (book, m.2 ++ (BinanceObi.imbalanceOf lookingDepth book).toList)

/-- `alpha` is the z-score of the imbalance of the last book, among the last imbalances of the books that the
live events lead through; the book is the snapshot with the events that were buffered and these. -/
def RoundAlpha (snapshot : Json) (received : List Json) (alpha : ℚ) : Prop :=
  ∃ buffered live book vs v,
    (depthFeed parse).Synced (i64Field snapshot "lastUpdateId") (snapshotBook parse snapshot) received
      (buffered ++ live) book ∧
    live.foldl (measure parse lookingDepth) (buffered.foldl (depthFeed parse).change (snapshotBook parse snapshot), [])
      = (book, vs) ∧
    vs.getLast? = some v ∧ BinanceObi.imbalanceOf lookingDepth book = some v ∧
    alpha = zscoreIn sqrt (vs.rtake window) v

end Alphas

/-! ## Rounds -/

namespace BinanceObi

/-- The settings of the client, and rolling statistics that are exact, whatever they are of. -/
structure Ready (lookingDepth : ℚ) (window : ℕ) (o : BinanceObi) : Prop where
  depth : o.lookingDepth = lookingDepth
  capacity : o.imbStats.capacity = window
  exact : ∃ w, o.imbStats.Exact w

variable {lookingDepth : ℚ} {window : ℕ} {o : BinanceObi}

theorem Ready.reset (h : o.Ready lookingDepth window) : o.reset.Ready lookingDepth window := by
  obtain ⟨w, hw⟩ := h.exact
  exact ⟨h.depth, h.capacity, [], hw.clear⟩

end BinanceObi

namespace DepthRound

variable {parse : String → NumText} {sqrt : ℚ → ℚ} {lookingDepth : ℚ} {window : ℕ} {snapshot event : Json}
  {buffer received : List Json} {rd : DepthRound} {nowMs : ℕ}

theorem applyLive_applied (rd : DepthRound) (b : Bool) (event : Json) (nowMs : ℕ) :
    (rd.applyLive parse sqrt b event nowMs).applied = rd.applied ++ [event] := by
  show List.filterMap _ (rd.effects ++ _) = _
  rw [List.filterMap_append]
  cases ((rd.obi.applyEvent parse event).updateAlpha sqrt nowMs).2 <;> rfl

theorem applyLive_publications (parse : String → NumText) (sqrt : ℚ → ℚ) (rd : DepthRound) (b : Bool) (event : Json)
    (nowMs : ℕ) :
    (rd.applyLive parse sqrt b event nowMs).publications = rd.publications ++
      (((rd.obi.applyEvent parse event).updateAlpha sqrt nowMs).2.map fun alpha => (alpha, nowMs)).toList := by
  show List.filterMap _ (rd.effects ++ _) = _
  rw [List.filterMap_append]
  cases ((rd.obi.applyEvent parse event).updateAlpha sqrt nowMs).2 <;> rfl

theorem Follows.synced_store {b : Bool} (h : rd.Follows parse snapshot received) (hs : rd.synced = some b) :
    (depthFeed parse).Synced (i64Field snapshot "lastUpdateId") (snapshotBook parse snapshot) received rd.applied
      rd.obi.book := by
  obtain ⟨taken, rest, hsplit, hsync, hrest, -⟩ := h.taken
  rw [hsplit, hrest (by rw [hs]; nofun), List.append_nil]
  exact hsync

/-- Where the live loop is: the statistics are of the imbalances of the books that the live events led
through, and each alpha was that of its time. -/
structure Measured (parse : String → NumText) (sqrt : ℚ → ℚ) (lookingDepth : ℚ) (window : ℕ) (snapshot : Json)
    (received : List Json) (rd : DepthRound) : Prop where
  follows : rd.Follows parse snapshot received
  depth : rd.obi.lookingDepth = lookingDepth
  capacity : rd.obi.imbStats.capacity = window
  measured : ∃ buffered live vs, rd.applied = buffered ++ live ∧
    live.foldl (measure parse lookingDepth) (buffered.foldl (depthFeed parse).change (snapshotBook parse snapshot), [])
      = (rd.obi.book, vs) ∧
    rd.obi.imbStats.Exact (vs.rtake window)
  alphas : ∀ p ∈ rd.publications, ∃ received', received' <+: received ∧
    RoundAlpha parse sqrt lookingDepth window snapshot received' p.1

theorem Measured.skip {rd' : DepthRound} (h : rd.Measured parse sqrt lookingDepth window snapshot received)
    (hfollows : rd'.Follows parse snapshot (received ++ [event])) (hobi : rd'.obi = rd.obi)
    (heffects : rd'.effects = rd.effects) :
    rd'.Measured parse sqrt lookingDepth window snapshot (received ++ [event]) := by
  refine ⟨hfollows, by rw [hobi]; exact h.depth, by rw [hobi]; exact h.capacity, ?_, fun p hp => ?_⟩
  · rw [applied, heffects, hobi]
    exact h.measured
  · rw [publications, heffects] at hp
    obtain ⟨received', hpre, halpha⟩ := h.alphas p hp
    exact ⟨received', hpre.trans (List.prefix_append _ _), halpha⟩

theorem Measured.live {b : Bool} (h : rd.Measured parse sqrt lookingDepth window snapshot received)
    (hfollows : (rd.applyLive parse sqrt b event nowMs).Follows parse snapshot (received ++ [event])) :
    (rd.applyLive parse sqrt b event nowMs).Measured parse sqrt lookingDepth window snapshot (received ++ [event]) := by
  obtain ⟨buffered, live, vs, happlied, hfold, hexact⟩ := h.measured
  have hpos : 0 < window := by
    rw [← h.capacity]
    exact (Nat.zero_le _).trans_lt hexact.pos
  set o := rd.obi.applyEvent parse event with ho
  have himb : o.imbalance = BinanceObi.imbalanceOf lookingDepth o.book := by
    rw [o.imbalance_eq, ho, ← h.depth]
    rfl
  -- The live events with this one lead to the book after it.
  have hfold' : (live ++ [event]).foldl (measure parse lookingDepth)
      (buffered.foldl (depthFeed parse).change (snapshotBook parse snapshot), []) =
      (o.book, vs ++ (BinanceObi.imbalanceOf lookingDepth o.book).toList) := by
    rw [List.foldl_append, hfold]
    rfl
  have happlied' : (rd.applyLive parse sqrt b event nowMs).applied = buffered ++ (live ++ [event]) := by
    rw [applyLive_applied, happlied, List.append_assoc]
  have hpubs := applyLive_publications parse sqrt rd b event nowMs
  have hsync := hfollows.synced_store rfl
  rw [happlied'] at hsync
  have hold : ∀ p ∈ rd.publications, ∃ received', received' <+: received ++ [event] ∧
      RoundAlpha parse sqrt lookingDepth window snapshot received' p.1 := fun p hp => by
    obtain ⟨received', hpre, halpha⟩ := h.alphas p hp
    exact ⟨received', hpre.trans (List.prefix_append _ _), halpha⟩
  cases hv : BinanceObi.imbalanceOf lookingDepth o.book with
  | none =>
    have hup : o.updateAlpha sqrt nowMs = (o, none) := BinanceObi.updateAlpha_none (himb.trans hv) sqrt nowMs
    have hobi : (rd.applyLive parse sqrt b event nowMs).obi = o := congrArg Prod.fst hup
    rw [hv, Option.toList_none, List.append_nil] at hfold'
    refine ⟨hfollows, by rw [hobi]; exact h.depth, by rw [hobi]; exact h.capacity, ?_, ?_⟩
    · exact ⟨buffered, live ++ [event], vs, happlied', by rw [hobi]; exact hfold', by rw [hobi]; exact hexact⟩
    · rw [hpubs, hup]
      simpa using hold
  | some v =>
    have hstats : o.imbStats = rd.obi.imbStats := rfl
    have hup := BinanceObi.updateAlpha_some (himb.trans hv) sqrt nowMs
    have hbook : (o.updateAlpha sqrt nowMs).1.book = o.book := by rw [hup]
    rw [hv, Option.toList_some] at hfold'
    have hpush := hexact.push sqrt v
    rw [h.capacity, RingBuffer.rtake_concat_rtake hpos] at hpush
    have halpha : (o.imbStats.push sqrt v).zscore v = zscoreIn sqrt ((vs ++ [v]).rtake window) v := by
      rw [hstats, hexact.push_zscore, h.capacity, RingBuffer.rtake_concat_rtake hpos]
    refine ⟨hfollows, ?_, ?_, ⟨buffered, live ++ [event], vs ++ [v], happlied', ?_, ?_⟩, ?_⟩
    · show (o.updateAlpha sqrt nowMs).1.lookingDepth = _
      rw [hup]
      exact h.depth
    · show (o.updateAlpha sqrt nowMs).1.imbStats.capacity = _
      rw [hup]
      exact (RollingStats.push_capacity sqrt _ v).trans h.capacity
    · rw [hfold']
      exact congrArg (·, _) hbook.symm
    · show (o.updateAlpha sqrt nowMs).1.imbStats.Exact _
      rw [hup]
      exact hpush
    · rw [hpubs, hup]
      intro p hp
      rcases List.mem_append.mp hp with hp | hp
      · exact hold p hp
      · rw [Option.map_some, Option.toList_some, List.mem_singleton] at hp
        subst hp
        refine ⟨received ++ [event], List.prefix_rfl, buffered, live ++ [event], o.book, vs ++ [v], v, ?_, hfold',
          List.getLast?_concat, hv, halpha⟩
        rw [← hbook]
        exact hsync

end DepthRound

/-! ## The task -/

namespace BinanceDepthClient

variable {parse : String → NumText} {sqrt : ℚ → ℚ} {lookingDepth : ℚ} {window : ℕ}

/-- An operation on the published alpha is a reset, or publishes an alpha of a round with these inputs. -/
def Founded (parse : String → NumText) (sqrt : ℚ → ℚ) (lookingDepth : ℚ) (window : ℕ) (inputs : List RoundInput) :
    AlphaOp → Prop
  | .reset => True
  | .update alpha _ => ∃ snapshot buffer live, RoundInput.snapshot snapshot buffer live ∈ inputs ∧
      ∃ received, received <+: buffer ++ (live.map Prod.fst).filter isDepthEvent ∧
        RoundAlpha parse sqrt lookingDepth window snapshot received alpha

theorem Founded.mono {inputs inputs' : List RoundInput} {op : AlphaOp}
    (h : Founded parse sqrt lookingDepth window inputs op) (hsub : inputs ⊆ inputs') :
    Founded parse sqrt lookingDepth window inputs' op := by
  cases op with
  | reset => trivial
  | update alpha nowMs =>
    obtain ⟨snapshot, buffer, live, hmem, hrest⟩ := h
    exact ⟨snapshot, buffer, live, hsub hmem, hrest⟩

/-- The depth of the best bid and the best ask. -/
def sides (bidSize : String) : List (String × Json) :=
  [("b", .arr [.arr [.str "99", .str bidSize]]), ("a", .arr [.arr [.str "101", .str "1"]])]

end BinanceDepthClient

end LighterMM
