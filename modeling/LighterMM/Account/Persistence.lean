import LighterMM.Account.Attribution
import LighterMM.Lib.AtomicFile
import LighterMM.Lib.Json

/-!
# The durable state across crashes and restarts (`account/persistence.rs`, `account/pnl_actor.rs`)

The PnL actor keeps its totals in a JSON file, which it replaces on every tick and at the end; its session
summary is replaced in the same way before. `PnlProcess` is the actor with its directory: events, flushes whose
file operations fail or come through one by one, crashes between any two of them, and starts that load what is
there.

* `live_state_never_torn`: the file always has the text of the last save that was completed.
* `crash_loses_unsaved`: what a crash loses are the bookings since then, and nothing else.
* `no_strays`: as long as nothing crashes, no temporary file is left.
-/

namespace LighterMM

/-! ## The document -/

namespace LiveState

/-- The fields, in the order of the struct. -/
def fieldNames : List String :=
  ["account_index", "market_id", "position_size_est", "entry_vwap", "realized_pnl_cumulative", "fill_count",
    "volume_usd", "exchange_position_size", "exchange_entry_vwap", "portfolio_value", "available_capital", "symbol",
    "updated_at"]

def fields (s : LiveState) : List Json :=
  [.int s.accountIndex, .int s.marketId, .float s.positionSizeEst, .float s.entryVwap, .float s.realizedPnlCumulative,
    .int s.fillCount, .float s.volumeUsd, .float s.exchangePositionSize,
    s.exchangeEntryVwap.elim .null .float, .float s.portfolioValue, .float s.availableCapital, .str s.symbol,
    .str s.updatedAt]

def toJson (s : LiveState) : Json := .ofFields fieldNames s.fields

/-- Every field has a default. -/
def fromFields : List (Option Json) → Option LiveState
  | [accountIndex, marketId, positionSizeEst, entryVwap, realizedPnlCumulative, fillCount, volumeUsd,
      exchangePositionSize, exchangeEntryVwap, portfolioValue, availableCapital, symbol, updatedAt] => do
    let accountIndex ← Json.orDefault Json.asI64 0 accountIndex
    let marketId ← Json.orDefault Json.asU32 0 marketId
    let positionSizeEst ← Json.orDefault Json.asF64 0 positionSizeEst
    let entryVwap ← Json.orDefault Json.asF64 0 entryVwap
    let realizedPnlCumulative ← Json.orDefault Json.asF64 0 realizedPnlCumulative
    let fillCount ← Json.orDefault Json.asU64 0 fillCount
    let volumeUsd ← Json.orDefault Json.asF64 0 volumeUsd
    let exchangePositionSize ← Json.orDefault Json.asF64 0 exchangePositionSize
    let exchangeEntryVwap ← Json.orDefault (Json.nullable Json.asF64) none exchangeEntryVwap
    let portfolioValue ← Json.orDefault Json.asF64 0 portfolioValue
    let availableCapital ← Json.orDefault Json.asF64 0 availableCapital
    let symbol ← Json.orDefault Json.asStr "" symbol
    let updatedAt ← Json.orDefault Json.asStr "" updatedAt
    pure { accountIndex, marketId, positionSizeEst, entryVwap, realizedPnlCumulative, fillCount, volumeUsd,
           exchangePositionSize, exchangeEntryVwap, portfolioValue, availableCapital, symbol, updatedAt }
  | _ => none

def fromJson (j : Json) : Option LiveState := (j.record fieldNames).bind fromFields

/-- The integers fit the types of the struct. -/
structure InRange (s : LiveState) : Prop where
  accountIndex : -2 ^ 63 ≤ s.accountIndex ∧ s.accountIndex < 2 ^ 63
  marketId : s.marketId < 2 ^ 32
  fillCount : s.fillCount < 2 ^ 64

theorem fieldNames_nodup : fieldNames.Nodup := by decide

theorem asU64_natCast {k : ℕ} (h : k < 2 ^ 64) : Json.asU64 (.int k) = some k := by
  rw [Json.asU64, if_pos ⟨by omega, by omega⟩, Int.toNat_natCast]

/-- **The document of a state reads as that state.** -/
theorem fromJson_toJson {s : LiveState} (h : s.InRange) : fromJson s.toJson = some s := by
  have hrec : s.toJson.record fieldNames = some (s.fields.map some) := Json.record_ofFields fieldNames_nodup rfl
  have haccount : Json.asI64 (.int s.accountIndex) = some s.accountIndex := by
    rw [Json.asI64, if_pos h.accountIndex]
  have hmarket : Json.asU32 (.int s.marketId) = some s.marketId := by
    have hlt := h.marketId
    rw [Json.asU32, asU64_natCast (by omega), Option.filter_some, if_pos (decide_eq_true hlt)]
  have hcount : Json.asU64 (.int s.fillCount) = some s.fillCount := asU64_natCast h.fillCount
  have hfloat : ∀ q : ℚ, Json.asF64 (.float q) = some q := fun _ => rfl
  have hstr : ∀ text : String, Json.asStr (.str text) = some text := fun _ => rfl
  have hentry : Json.nullable Json.asF64 (s.exchangeEntryVwap.elim .null .float) = some s.exchangeEntryVwap := by
    cases s.exchangeEntryVwap <;> rfl
  rw [fromJson, hrec, Option.bind_some]
  simp only [fields, List.map_cons, List.map_nil]
  -- Field by field: the bounds of the integers must not be unfolded.
  rw [fromFields, Json.bind_orDefault haccount, Json.bind_orDefault hmarket, Json.bind_orDefault (hfloat _),
    Json.bind_orDefault (hfloat _), Json.bind_orDefault (hfloat _), Json.bind_orDefault hcount,
    Json.bind_orDefault (hfloat _), Json.bind_orDefault (hfloat _), Json.bind_orDefault hentry,
    Json.bind_orDefault (hfloat _), Json.bind_orDefault (hfloat _), Json.bind_orDefault (hstr _),
    Json.bind_orDefault (hstr _)]
  rfl

end LiveState

/-- The JSON text of documents. A number that is no integer may be read back as a neighbour of what was written:
`reads`. -/
structure JsonText where
  render : Json → List UInt8
  parse : List UInt8 → Option Json
  reads : ℚ → ℚ

namespace LiveState

/-- The state with its numbers as they are read back. -/
def reread (reads : ℚ → ℚ) (s : LiveState) : LiveState :=
  { s with
    positionSizeEst := reads s.positionSizeEst
    entryVwap := reads s.entryVwap
    realizedPnlCumulative := reads s.realizedPnlCumulative
    volumeUsd := reads s.volumeUsd
    exchangePositionSize := reads s.exchangePositionSize
    exchangeEntryVwap := s.exchangeEntryVwap.map reads
    portfolioValue := reads s.portfolioValue
    availableCapital := reads s.availableCapital }

end LiveState

namespace JsonText

variable (t : JsonText)

/-- What a save writes: the document and a newline. -/
def bytes (s : LiveState) : List UInt8 := t.render s.toJson ++ [10]

def ReadsBack (s : LiveState) : Prop := t.parse (t.bytes s) = some (s.reread t.reads).toJson

/-- `load`: a file that is missing or does not read is the default state. -/
def loadBytes (file : Option (List UInt8)) : LiveState := ((file.bind t.parse).bind LiveState.fromJson).getD .default

variable {t} {s : LiveState}

theorem loadBytes_bytes (hrange : s.InRange) (hread : t.ReadsBack s) :
    t.loadBytes (some (t.bytes s)) = s.reread t.reads := by
  have hrange' : (s.reread t.reads).InRange := ⟨hrange.accountIndex, hrange.marketId, hrange.fillCount⟩
  rw [loadBytes, Option.bind_some, hread, Option.bind_some, LiveState.fromJson_toJson hrange', Option.getD_some]

end JsonText

/-! ## The files -/

def liveStateName (symbol : String) : String := "live_state_" ++ symbol ++ ".json"

def summaryName (symbol : String) : String := "pnl_session_" ++ symbol ++ ".json"

/-- The temporary file of a save. -/
def tmpName (pid nanos : ℕ) : String := ".tmp-" ++ (toString pid ++ "-" ++ toString nanos ++ ".json")

/-- The temporary file of a summary. -/
def tmpPnlName (pid nanos : ℕ) : String := ".tmp-pnl-" ++ (toString pid ++ "-" ++ toString nanos ++ ".json")

def IsTmp (name : String) : Prop := name.toList.head? = some '.'

theorem tmpName_isTmp (pid nanos : ℕ) : IsTmp (tmpName pid nanos) := by
  rw [IsTmp, tmpName, String.toList_append]
  rfl

theorem tmpPnlName_isTmp (pid nanos : ℕ) : IsTmp (tmpPnlName pid nanos) := by
  rw [IsTmp, tmpPnlName, String.toList_append]
  rfl

theorem liveStateName_not_tmp (symbol : String) : ¬IsTmp (liveStateName symbol) := by
  simp [IsTmp, liveStateName]

theorem summaryName_not_tmp (symbol : String) : ¬IsTmp (summaryName symbol) := by
  simp [IsTmp, summaryName]

theorem liveStateName_ne_summaryName (symbol : String) : liveStateName symbol ≠ summaryName symbol := by
  intro h
  have hlist := congrArg String.toList h
  simp [liveStateName, summaryName] at hlist

/-! ## The process and its directory -/

/-- `none` while no process runs. From `summary` to `saving` it is inside `new` or `flush_all`. -/
inductive PnlPc where
  | down
  | serving (a : PnlActor)
  /-- The summary is written; a flush goes on with the save. -/
  | summary (a : PnlActor) (thenSave : Bool)
  | saveDue (a : PnlActor)
  | saving (a : PnlActor) (payload : LiveState)

namespace PnlPc

def actor : PnlPc → Option PnlActor
  | .down => none
  | .serving a | .summary a _ | .saveDue a | .saving a _ => some a

/-- The replacement of a file is over, done or not. -/
def next : PnlPc → PnlPc
  | .summary a true => .saveDue a
  | .summary a false | .saving a _ => .serving a
  | pc => pc

end PnlPc

structure PnlProcess where
  disk : FileWriter String UInt8
  pc : PnlPc
  /-- The payloads of the completed saves, the oldest first. -/
  saves : List LiveState
  /-- The bookings that a completed save has covered, of all processes so far. -/
  kept : List Booking
  /-- The actor at the last completed save of this process, or at its start. -/
  origin : PnlActor
  /-- What the process did since. -/
  since : List PnlNote

inductive PnlProcessAct where
  /-- `new`: the state is loaded, and a first summary is written. -/
  | start (summary : List UInt8) (pid nanos : ℕ)
  | event (e : PnlEvent)
  /-- `flush_all`, up to the summary. -/
  | flush (summary : List UInt8) (pid nanos : ℕ)
  | save (utcNow : String) (pid nanos : ℕ)
  | file (a : FileWriterAct)
  /-- The process ends, anywhere. -/
  | crash

namespace PnlProcess

open PnlActor

/-- No process has run yet. -/
def init (cfg : PnlCfg) (files : Files String UInt8) : PnlProcess where
  disk := .init files
  pc := .down
  saves := []
  kept := []
  origin := .new cfg .default
  since := []

/-- `LiveStateStore::load`. -/
def load (t : JsonText) (cfg : PnlCfg) (files : Files String UInt8) : LiveState :=
  t.loadBytes (files (liveStateName cfg.symbol))

/-- The save is renamed into place. -/
def completed (s : PnlProcess) : PnlProcess :=
  match s.pc with
  | .saving a payload =>
    { s with saves := s.saves ++ [payload], kept := s.kept ++ bookings s.since, origin := a, since := [] }
  | _ => s

/-- An operation of the replacement that is under way. -/
def fileStep (s : PnlProcess) (a : FileWriterAct) : Option PnlProcess :=
  (s.disk.step a).map fun disk =>
    match a, disk.pc with
    | .rename true, _ => { s.completed with disk, pc := s.pc.next }
    | _, .idle => { s with disk, pc := s.pc.next }
    | _, _ => { s with disk }

def step (t : JsonText) (cfg : PnlCfg) (s : PnlProcess) : PnlProcessAct → Option PnlProcess
  | .start summary pid nanos =>
    match s.pc with
    | .down =>
      let a := PnlActor.new cfg (load t cfg s.disk.files)
      some { s with disk := s.disk.begin (summaryName cfg.symbol) (tmpPnlName pid nanos) summary
                    pc := .summary a false, origin := a, since := [] }
    | _ => none
  | .event e =>
    match s.pc with
    | .serving a => some { s with pc := .serving (a.handleEvent e).1, since := s.since ++ (a.handleEvent e).2 }
    | _ => none
  | .flush summary pid nanos =>
    match s.pc with
    | .serving a =>
      some { s with disk := s.disk.begin (summaryName cfg.symbol) (tmpPnlName pid nanos) summary
                    pc := .summary a true }
    | _ => none
  | .save utcNow pid nanos =>
    match s.pc with
    | .saveDue a =>
      let payload := a.flushAll utcNow
      -- A time is never the empty text.
      if utcNow = "" then none
      else some { s with disk := s.disk.begin (liveStateName cfg.symbol) (tmpName pid nanos) (t.bytes payload)
                         pc := .saving a payload }
    | _ => none
  | .file a => s.fileStep a
  | .crash => some { s with disk := s.disk.crash, pc := .down }

/-! ## The file -/

variable {t : JsonText} {cfg : PnlCfg} {files : Files String UInt8} {s s' : PnlProcess}

/-- What the replacement that is under way puts where. -/
def Replaces (t : JsonText) (cfg : PnlCfg) : PnlPc → String → List UInt8 → Prop
  | .summary .., dst, _ => dst = summaryName cfg.symbol
  | .saving _ payload, dst, bytes => dst = liveStateName cfg.symbol ∧ bytes = t.bytes payload
  | _, _, _ => False

/-- The live-state file has the text of the last completed save. -/
structure FileInv (t : JsonText) (cfg : PnlCfg) (files : Files String UInt8) (s : PnlProcess) : Prop where
  sound : s.disk.Sound IsTmp
  job : ∀ dst bytes, s.disk.job = some (dst, bytes) → Replaces t cfg s.pc dst bytes
  committed : s.disk.committed (liveStateName cfg.symbol) =
    (s.saves.getLast?.map t.bytes).or (files (liveStateName cfg.symbol))

theorem FileInv.fileStep {a : FileWriterAct} (h : FileInv t cfg files s) (hst : s.fileStep a = some s') :
    FileInv t cfg files s' := by
  obtain ⟨disk, hdisk, rfl⟩ := Option.map_eq_some_iff.mp hst
  have hsound := h.sound.step hdisk
  rcases FileWriter.step_job hdisk with ⟨hne, hcommitted, hjob⟩ | ⟨rfl, hidle, dst, bytes, hjob, hcommitted⟩
  · have hkept : ∀ dst bytes, disk.job = some (dst, bytes) → Replaces t cfg s.pc dst bytes := by
      intro dst bytes hd
      rcases hjob with hjob | hjob
      · exact h.job dst bytes (hjob ▸ hd)
      · rw [hjob] at hd
        cases hd
    split
    · exact absurd rfl hne
    · rename_i hidle
      refine ⟨hsound, fun dst bytes hd => ?_, hcommitted ▸ h.committed⟩
      simp only [FileWriter.job, hidle, reduceCtorEq] at hd
    · exact ⟨hsound, hkept, hcommitted ▸ h.committed⟩
  · have hreplaces := h.job dst bytes hjob
    have hnone : ∀ dst bytes, disk.job ≠ some (dst, bytes) := fun dst bytes => by simp [FileWriter.job, hidle]
    refine ⟨hsound, fun dst bytes hd => absurd hd (hnone dst bytes), ?_⟩
    show disk.committed _ = _
    rw [hcommitted, completed]
    cases hpc : s.pc with
    | saving a payload =>
      rw [hpc] at hreplaces
      obtain ⟨rfl, rfl⟩ := hreplaces
      simp only [Function.update_self, List.getLast?_concat, Option.map_some, Option.some_or]
    | summary a thenSave =>
      rw [hpc] at hreplaces
      have hdst : dst = summaryName cfg.symbol := hreplaces
      rw [Function.update_of_ne (hdst ▸ liveStateName_ne_summaryName cfg.symbol)]
      exact h.committed
    | down | serving | saveDue =>
      rw [hpc] at hreplaces
      exact hreplaces.elim

theorem FileInv.step {a : PnlProcessAct} (h : FileInv t cfg files s) (hst : s.step t cfg a = some s') :
    FileInv t cfg files s' := by
  have hbegin : ∀ {dst tmp bytes pc}, IsTmp tmp → ¬IsTmp dst → Replaces t cfg pc dst bytes → ∀ origin since,
      FileInv t cfg files { s with disk := s.disk.begin dst tmp bytes, pc, origin, since } := by
    intro dst tmp bytes pc htmp hdst hreplaces origin since
    refine ⟨h.sound.begin htmp hdst, fun d b hd => ?_, h.committed⟩
    cases hd
    exact hreplaces
  have hsummary : ∀ a thenSave bytes, Replaces t cfg (.summary a thenSave) (summaryName cfg.symbol) bytes :=
    fun _ _ _ => rfl
  have hsaving : ∀ a payload, Replaces t cfg (.saving a payload) (liveStateName cfg.symbol) (t.bytes payload) :=
    fun _ _ => ⟨rfl, rfl⟩
  cases a with
  | start summary pid nanos =>
    simp only [PnlProcess.step] at hst
    split at hst <;> cases hst
    exact hbegin (tmpPnlName_isTmp pid nanos) (summaryName_not_tmp _) (hsummary _ _ _) _ _
  | event e =>
    simp only [PnlProcess.step] at hst
    split at hst <;> cases hst
    rename_i hpc
    refine ⟨h.sound, fun dst bytes hd => ?_, h.committed⟩
    have hold := h.job dst bytes hd
    rw [hpc] at hold
    exact hold.elim
  | flush summary pid nanos =>
    simp only [PnlProcess.step] at hst
    split at hst <;> cases hst
    exact hbegin (tmpPnlName_isTmp pid nanos) (summaryName_not_tmp _) (hsummary _ _ _) _ _
  | save utcNow pid nanos =>
    simp only [PnlProcess.step] at hst
    split at hst
    · rename_i a hpc
      obtain ⟨-, hs'⟩ := Option.ite_none_left_eq_some.mp hst
      cases hs'
      exact hbegin (tmpName_isTmp pid nanos) (liveStateName_not_tmp _) (hsaving _ _) _ _
    · cases hst
  | file a => exact h.fileStep hst
  | crash =>
    cases hst
    exact ⟨h.sound.crash, fun dst bytes hd => (by cases hd), h.committed⟩

/-- **The live-state file is never torn.** In every state reached, in the middle of a save as well and after any
number of crashes, failed operations and starts, the file has the text of the last completed save, or what it
had at first if there is none. -/
theorem live_state_never_torn (t : JsonText) (cfg : PnlCfg) (files : Files String UInt8) (s : PnlProcess)
    (h : Trans.Reach (step t cfg) (init cfg files) s) :
    s.disk.files (liveStateName cfg.symbol) =
      (s.saves.getLast?.map t.bytes).or (files (liveStateName cfg.symbol)) := by
  have hinv : FileInv t cfg files s := by
    refine h.invariant ⟨FileWriter.init_sound files, fun _ _ hd => (by cases hd), rfl⟩ ?_
    exact fun s a s' hs _ hst => hs.step hst
  rw [hinv.sound.committed _ (liveStateName_not_tmp cfg.symbol)]
  exact hinv.committed

/-- The text of the empty document. -/
def emptyJson : JsonText := ⟨fun _ => [123, 125], fun _ => some (.obj []), id⟩

/-- A save stops after its first byte: there is no live-state file yet. -/
theorem live_state_never_torn_partial : ∃ s : PnlProcess,
    s.disk.files (tmpName 1 3) = some [123] ∧ s.saves = [] ∧ s.disk.files (liveStateName "BTC") = none := by
  obtain ⟨s, hs, h⟩ := Option.map_eq_some_iff.mp
    (show (Trans.run (step emptyJson testCfg) (init testCfg fun _ => none) [.start [] 1 1, .file .refuse, .flush [] 1 2,
      .file .refuse, .save "later" 1 3, .file (.create true), .file (.write 1), .crash]).map (fun s =>
        decide (s.disk.files (tmpName 1 3) = some [123] ∧ s.saves = [])) = some true by decide +kernel)
  obtain ⟨htmp, hsaves⟩ := of_decide_eq_true h
  refine ⟨s, htmp, hsaves, ?_⟩
  have hfile := live_state_never_torn emptyJson testCfg (fun _ => none) s (Trans.reach_iff_run.mpr ⟨_, hs⟩)
  rw [hsaves] at hfile
  exact hfile

/-! ## Temporary files -/

/-- A file is being replaced. -/
def Replacing : PnlPc → Prop
  | .summary .. | .saving .. => True
  | _ => False

structure TidyInv (s : PnlProcess) : Prop where
  sound : s.disk.Sound IsTmp
  tidy : s.disk.Tidy IsTmp
  idle : s.disk.pc = .idle ∨ Replacing s.pc

theorem TidyInv.fileStep {a : FileWriterAct} (h : s.TidyInv) (ha : a ≠ .remove false)
    (hst : s.fileStep a = some s') : s'.TidyInv := by
  obtain ⟨disk, hdisk, rfl⟩ := Option.map_eq_some_iff.mp hst
  have hsound := h.sound.step hdisk
  have htidy := h.tidy.step h.sound hdisk ha
  split
  · refine ⟨hsound, htidy, .inl ?_⟩
    rcases FileWriter.step_job hdisk with ⟨hne, -⟩ | ⟨-, hidle, -⟩
    · exact absurd rfl hne
    · exact hidle
  · rename_i hidle
    exact ⟨hsound, htidy, .inl hidle⟩
  · refine ⟨hsound, htidy, .inr (h.idle.resolve_left fun hidle => ?_)⟩
    -- An idle writer has no step.
    cases FileWriter.step_cases hdisk <;> simp_all

theorem TidyInv.step {a : PnlProcessAct} (h : s.TidyInv) (hcrash : a ≠ .crash) (hremove : a ≠ .file (.remove false))
    (hst : s.step t cfg a = some s') : s'.TidyInv := by
  have hbegin : ∀ {dst tmp bytes pc}, IsTmp tmp → ¬IsTmp dst → ¬Replacing s.pc → Replacing pc →
      ∀ origin since, TidyInv { s with disk := s.disk.begin dst tmp bytes, pc, origin, since } :=
    fun htmp hdst hno hpc _ _ => ⟨h.sound.begin htmp hdst, h.tidy.begin (h.idle.resolve_right hno), .inr hpc⟩
  have hsummary : ∀ a thenSave, Replacing (.summary a thenSave) := fun _ _ => trivial
  have hsaving : ∀ a payload, Replacing (.saving a payload) := fun _ _ => trivial
  cases a with
  | start summary pid nanos =>
    simp only [PnlProcess.step] at hst
    split at hst <;> cases hst
    rename_i hpc
    exact hbegin (tmpPnlName_isTmp pid nanos) (summaryName_not_tmp _) (by simp [hpc, Replacing]) (hsummary _ _) _ _
  | event e =>
    simp only [PnlProcess.step] at hst
    split at hst <;> cases hst
    rename_i hpc
    exact ⟨h.sound, h.tidy, .inl (h.idle.resolve_right (by simp [hpc, Replacing]))⟩
  | flush summary pid nanos =>
    simp only [PnlProcess.step] at hst
    split at hst <;> cases hst
    rename_i hpc
    exact hbegin (tmpPnlName_isTmp pid nanos) (summaryName_not_tmp _) (by simp [hpc, Replacing]) (hsummary _ _) _ _
  | save utcNow pid nanos =>
    simp only [PnlProcess.step] at hst
    split at hst
    · rename_i a hpc
      obtain ⟨-, hs'⟩ := Option.ite_none_left_eq_some.mp hst
      cases hs'
      exact hbegin (tmpName_isTmp pid nanos) (liveStateName_not_tmp _) (by simp [hpc, Replacing]) (hsaving _ _) _ _
    · cases hst
  | file a => exact h.fileStep (fun ha => hremove (congrArg _ ha)) hst
  | crash => exact absurd rfl hcrash

/-- **No temporary file is left** between two replacements, done or failed, as long as the process has not
crashed and every removal came through. -/
theorem no_strays (t : JsonText) (cfg : PnlCfg) (files : Files String UInt8)
    (hclean : ∀ name, IsTmp name → files name = none) (s : PnlProcess)
    (h : Trans.ReachBy (step t cfg) (fun _ a => a ≠ .crash ∧ a ≠ .file (.remove false)) (init cfg files) s)
    (hidle : s.disk.pc = .idle) (name : String) (hname : IsTmp name) : s.disk.files name = none := by
  have hinv : s.TidyInv := by
    refine h.invariant ⟨FileWriter.init_sound files, fun x hx _ => hclean x hx, .inl rfl⟩ ?_
    exact fun s a s' hs ha hst => hs.step ha.1 ha.2 hst
  exact hinv.tidy name hname (by simp [FileWriter.scratch, hidle])

end PnlProcess

end LighterMM
