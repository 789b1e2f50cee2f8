import LighterMM.Account.Crashes

/-!
# The trade log beside the live state

`TradeLogger` buffers a row for each fill that the PnL actor books. `flush_all` appends the buffered rows to the
CSV file first, and saves the live state last, so a crash in between leaves rows of fills that the next start does
not restore, and never restored fills without a row (`saves_are_logged`). An append that fails or is cut short is
not repeated: its rows are dropped.

A file whose first record is not the header is moved aside at a start. One that a start has left behind never is
again: from then on the file only grows (`log_append_only`).
-/

namespace LighterMM

/-- `HEADER`. -/
def tradeLogHeader : List String :=
  ["timestamp", "symbol", "side", "price", "size", "level", "position_after", "realized_pnl", "available_capital",
    "portfolio_value", "simulated", "notional_usd", "fee_usd", "entry_vwap_after", "realized_pnl_cumulative",
    "mid_at_fill", "spread_capture_bps", "inventory_after_usd", "client_order_index", "exchange_order_index",
    "fill_source"]

/-- The reader and the writer of CSV records. -/
structure CsvText where
  writeRecord : List String → List UInt8
  firstRecord : List UInt8 → Option (List String)

namespace CsvText

def header (c : CsvText) : List UInt8 := c.writeRecord tradeLogHeader

/-- A text that starts with the written header has it as its first record. -/
def ReadsHeader (c : CsvText) : Prop := ∀ rest, c.firstRecord (c.header ++ rest) = some tradeLogHeader

end CsvText

/-- A row, as the 21 cells that `format_row` makes of a booking and of the market at that moment. -/
structure LogRow where
  booking : Booking
  cells : List String

structure TradeLog where
  process : PnlProcess
  /-- The rows that wait for a flush. -/
  buffer : List LogRow
  /-- The CSV file, empty as well if there is none. -/
  file : List UInt8
  /-- The files that were moved aside, the oldest first. -/
  aside : List (List UInt8)
  /-- The appends of all processes so far, and how many bytes of each one reached the file. -/
  appends : List (List LogRow × ℕ)
  /-- The rows of all processes so far. -/
  booked : List LogRow

/-- What a step of the process meets in the trade log. -/
structure LogInput where
  /-- The rename of a file without the header succeeds. -/
  moved : Bool
  cells : Booking → List String
  /-- How many bytes of the append reach the file. -/
  written : ℕ

inductive TradeLogAct where
  | act (a : PnlProcessAct) (x : LogInput)
  /-- The process ends in the middle of an append. -/
  | diesAppending (written : ℕ)

namespace TradeLog

open PnlActor

def init (cfg : PnlCfg) (files : Files String UInt8) (file : List UInt8) : TradeLog :=
  ⟨.init cfg files, [], file, [], [], []⟩

/-- The rows of the appends, written or not. -/
def flushed (s : TradeLog) : List LogRow := s.appends.flatMap Prod.fst

section

variable (c : CsvText)

/-- The text of rows. -/
def rowsText (rows : List LogRow) : List UInt8 := rows.flatMap fun r => c.writeRecord r.cells

/-- What the appends put into the file. -/
def appended (appends : List (List LogRow × ℕ)) : List UInt8 :=
  appends.flatMap fun p => (rowsText c p.1).take p.2

/-- `ensure_header`. -/
def ensureHeader (s : TradeLog) (moved : Bool) : TradeLog :=
  if s.file ≠ [] ∧ c.firstRecord s.file = some tradeLogHeader then s
  else { s with file := c.header, aside := s.aside ++ if s.file ≠ [] ∧ moved = true then [s.file] else [] }

/-- `log_fill`, for every fill that an event books. -/
def logFills (s : TradeLog) (x : LogInput) (bs : List Booking) : TradeLog :=
  let rows := bs.map fun b => ⟨b, x.cells b⟩
  { s with buffer := s.buffer ++ rows, booked := s.booked ++ rows }

/-- `flush`. -/
def flush (s : TradeLog) (written : ℕ) : TradeLog :=
  if s.buffer = [] then s
  else { s with buffer := [], file := s.file ++ (rowsText c s.buffer).take written
                appends := s.appends ++ [(s.buffer, written)] }

/-- What a step of the process does to the trade log. -/
def log (s : TradeLog) (x : LogInput) : PnlProcessAct → TradeLog
  | .start .. => { s.ensureHeader c x.moved with buffer := [] }
  | .event e =>
    match s.process.pc with
    | .serving a => s.logFills x (bookings (a.handleEvent e).2)
    | _ => s
  | .flush .. => s.flush c x.written
  | .crash => { s with buffer := [] }
  | .save .. | .file _ => s

def step (t : JsonText) (cfg : PnlCfg) (s : TradeLog) : TradeLogAct → Option TradeLog
  | .act a x => (s.process.step t cfg a).map fun process => { s.log c x a with process }
  | .diesAppending written =>
    match s.process.pc with
    | .serving _ => (s.process.step t cfg .crash).map fun process => { s.flush c written with process, buffer := [] }
    | _ => none

end

variable {c : CsvText} {t : JsonText} {cfg : PnlCfg} {files : Files String UInt8} {file : List UInt8}
  {s s' : TradeLog} {a : TradeLogAct}

theorem step_process (hst : s.step c t cfg a = some s') : ∃ a', s.process.step t cfg a' = some s'.process := by
  cases a with
  | act a x =>
    obtain ⟨process, hp, rfl⟩ := Option.map_eq_some_iff.mp hst
    exact ⟨a, hp⟩
  | diesAppending written =>
    simp only [step] at hst
    split at hst
    · obtain ⟨process, hp, rfl⟩ := Option.map_eq_some_iff.mp hst
      exact ⟨.crash, hp⟩
    · cases hst

/-- The process runs as it does without the log. -/
theorem process_reach (h : Trans.Reach (step c t cfg) (init cfg files file) s) :
    Trans.Reach (PnlProcess.step t cfg) (.init cfg files) s.process := by
  induction h with
  | refl => exact .refl
  | step a _ _ hst ih =>
    obtain ⟨a', hp⟩ := step_process hst
    exact ih.step a' trivial hp

@[simp] theorem flush_buffer (s : TradeLog) (written : ℕ) : (s.flush c written).buffer = [] := by
  unfold flush
  split
  · assumption
  · rfl

/-- A flush moves the buffer to the rows that were flushed. -/
theorem flush_flushed (s : TradeLog) (written : ℕ) : (s.flush c written).flushed = s.flushed ++ s.buffer := by
  unfold flush
  split
  · rename_i hnil
    rw [hnil, List.append_nil]
  · exact List.flatMap_append.trans (congrArg _ (List.append_nil _))

theorem flush_booked (s : TradeLog) (written : ℕ) : (s.flush c written).booked = s.booked :=
  (apply_ite TradeLog.booked _ _ _).trans (ite_self _)

theorem ensureHeader_frame (s : TradeLog) (moved : Bool) : (s.ensureHeader c moved).appends = s.appends ∧
    (s.ensureHeader c moved).booked = s.booked := by
  unfold ensureHeader
  split <;> exact ⟨rfl, rfl⟩

/-! ## Fills and rows -/

/-- The process is between the append and the end of the save. -/
def Saving : PnlPc → Prop
  | .summary _ true | .saveDue _ | .saving .. => True
  | _ => False

theorem saving_next {pc : PnlPc} (h : Saving pc.next) : Saving pc := by
  cases pc with
  | summary a thenSave => cases thenSave <;> exact h
  | saving => trivial
  | down | serving | saveDue => exact h

/-- Fills, rows and saves are in the same order, and the rows of the fills that no completed save has covered are
the last ones. -/
structure RowsInv (s : TradeLog) : Prop where
  booked : ∃ earlier, s.booked = earlier ++ s.buffer ∧ s.flushed.Sublist earlier
  logged : ∃ old late, s.flushed.map LogRow.booking = old ++ late ∧ s.process.kept.Sublist old ∧
    ∀ a, s.process.pc.actor = some a → bookings s.process.since = late ++ s.buffer.map LogRow.booking
  saving : Saving s.process.pc → s.buffer = []

theorem init_rows : RowsInv (init cfg files file) := by
  refine ⟨⟨[], rfl, .refl _⟩, ⟨[], [], rfl, .refl _, fun a ha => ?_⟩, fun _ => rfl⟩
  cases ha

/-- The process ends, or one starts: the rows that were not flushed are gone. -/
theorem RowsInv.restart (h : RowsInv s) (hbuffer : s'.buffer = []) (happends : s'.appends = s.appends)
    (hbooked : s'.booked = s.booked) (hkept : s'.process.kept = s.process.kept)
    (hsince : ∀ a, s'.process.pc.actor = some a → s'.process.since = []) : RowsInv s' := by
  obtain ⟨earlier, hearlier, hsub⟩ := h.booked
  obtain ⟨old, late, hlogged, hold, -⟩ := h.logged
  have hflushed : s'.flushed = s.flushed := congrArg (List.flatMap Prod.fst) happends
  refine ⟨⟨s.booked, ?_, ?_⟩, ⟨old ++ late, [], ?_, ?_, fun a ha => ?_⟩, fun _ => hbuffer⟩
  · rw [hbuffer, hbooked, List.append_nil]
  · rw [hflushed, hearlier]
    exact hsub.trans (List.sublist_append_left _ _)
  · rw [hflushed, hlogged, List.append_nil]
  · rw [hkept]
    exact hold.trans (List.sublist_append_left _ _)
  · rw [hsince a ha, hbuffer]
    rfl

theorem RowsInv.flush (h : RowsInv s) (written : ℕ) (process : PnlProcess) (hkept : process.kept = s.process.kept)
    (hsince : process.since = s.process.since)
    (hactor : ∀ a, process.pc.actor = some a → s.process.pc.actor = some a) :
    RowsInv { s.flush c written with process } := by
  obtain ⟨earlier, hearlier, hsub⟩ := h.booked
  obtain ⟨old, late, hlogged, hold, hlate⟩ := h.logged
  have hflushed := flush_flushed (c := c) s written
  refine ⟨⟨s.booked, ?_, ?_⟩, ⟨old, late ++ s.buffer.map LogRow.booking, ?_, ?_, fun a ha => ?_⟩,
    fun _ => flush_buffer s written⟩
  · show (s.flush c written).booked = s.booked ++ (s.flush c written).buffer
    rw [flush_buffer, flush_booked, List.append_nil]
  · show (s.flush c written).flushed.Sublist _
    rw [hflushed, hearlier]
    exact hsub.append (.refl _)
  · show (s.flush c written).flushed.map LogRow.booking = _
    rw [hflushed, List.map_append, hlogged, List.append_assoc]
  · show process.kept.Sublist _
    rw [hkept]
    exact hold
  · show bookings process.since = _ ++ (s.flush c written).buffer.map LogRow.booking
    rw [flush_buffer, hsince, hlate a (hactor a ha), List.map_nil, List.append_nil]

theorem RowsInv.logFills (h : RowsInv s) (x : LogInput) {a : PnlActor} (ha : s.process.pc = .serving a)
    (e : PnlEvent) : RowsInv { s.logFills x (bookings (a.handleEvent e).2) with
      process := { s.process with pc := .serving (a.handleEvent e).1
                                  since := s.process.since ++ (a.handleEvent e).2 } } := by
  obtain ⟨earlier, hearlier, hsub⟩ := h.booked
  obtain ⟨old, late, hlogged, hold, hlate⟩ := h.logged
  refine ⟨⟨earlier, ?_, hsub⟩, ⟨old, late, hlogged, hold, fun b hb => ?_⟩, nofun⟩
  · show s.booked ++ _ = earlier ++ (s.buffer ++ _)
    rw [hearlier, List.append_assoc]
  · show bookings (s.process.since ++ _) = late ++ (s.buffer ++ _).map LogRow.booking
    have hid : ((bookings (a.handleEvent e).2).map fun b => (⟨b, x.cells b⟩ : LogRow)).map LogRow.booking =
        bookings (a.handleEvent e).2 := by
      rw [List.map_map]
      exact List.map_id _
    rw [bookings_append, hlate a (by rw [ha]; rfl), List.map_append, hid, List.append_assoc]

theorem RowsInv.fileStep (h : RowsInv s) {a : FileWriterAct} {process : PnlProcess}
    (hst : s.process.fileStep a = some process) : RowsInv { s with process } := by
  obtain ⟨disk, -, rfl⟩ := Option.map_eq_some_iff.mp hst
  obtain ⟨old, late, hlogged, hold, hlate⟩ := h.logged
  have hactor : ∀ b, s.process.pc.next.actor = some b → s.process.pc.actor = some b := fun b hb => by
    cases hpc : s.process.pc with
    | summary a thenSave =>
      rw [hpc] at hb
      cases thenSave <;> exact hb
    | down | serving | saveDue | saving =>
      rw [hpc] at hb
      exact hb
  have hover : RowsInv { s with process := { s.process with disk, pc := s.process.pc.next } } :=
    ⟨h.booked, ⟨old, late, hlogged, hold, fun b hb => hlate b (hactor b hb)⟩,
      fun hs => h.saving (saving_next hs)⟩
  split
  · unfold PnlProcess.completed
    split
    · -- The save covers the fills so far, and all of them have been flushed.
      rename_i b payload hpc
      have hbuffer : s.buffer = [] := h.saving (by rw [hpc]; trivial)
      have hsince := hlate b (by rw [hpc]; rfl)
      rw [hbuffer, List.map_nil, List.append_nil] at hsince
      refine ⟨h.booked, ⟨old ++ late, [], hlogged.trans (List.append_nil _).symm, ?_, fun _ _ => ?_⟩,
        fun _ => hbuffer⟩
      · show (s.process.kept ++ bookings s.process.since).Sublist _
        rw [hsince]
        exact hold.append (.refl _)
      · show bookings [] = [] ++ s.buffer.map LogRow.booking
        rw [hbuffer]
        rfl
    · exact hover
  · exact hover
  · exact ⟨h.booked, ⟨old, late, hlogged, hold, hlate⟩, h.saving⟩

theorem RowsInv.step (h : RowsInv s) (hst : s.step c t cfg a = some s') : RowsInv s' := by
  cases a with
  | act a x =>
    obtain ⟨process, hp, rfl⟩ := Option.map_eq_some_iff.mp hst
    cases a with
    | start summary pid nanos =>
      obtain ⟨happends, hbooked⟩ := s.ensureHeader_frame (c := c) x.moved
      simp only [PnlProcess.step] at hp
      split at hp <;> cases hp
      exact h.restart rfl happends hbooked rfl fun _ _ => rfl
    | event e =>
      simp only [PnlProcess.step] at hp
      split at hp <;> cases hp
      rename_i b hpc
      rw [log, hpc]
      exact h.logFills x hpc e
    | flush summary pid nanos =>
      simp only [PnlProcess.step] at hp
      split at hp <;> cases hp
      rename_i b hpc
      exact h.flush x.written _ rfl rfl fun _ ha => by rw [hpc]; exact ha
    | save utcNow pid nanos =>
      simp only [PnlProcess.step] at hp
      split at hp
      · rename_i b hpc
        obtain ⟨-, hp'⟩ := Option.ite_none_left_eq_some.mp hp
        cases hp'
        obtain ⟨old, late, hlogged, hold, hlate⟩ := h.logged
        refine ⟨h.booked, ⟨old, late, hlogged, hold, fun a ha => hlate a ?_⟩, fun _ => h.saving ?_⟩
        · rw [hpc]
          exact ha
        · rw [hpc]
          trivial
      · cases hp
    | file a => exact h.fileStep hp
    | crash =>
      cases hp
      exact h.restart rfl rfl rfl rfl fun _ ha => by cases ha
  | diesAppending written =>
    simp only [TradeLog.step] at hst
    split at hst
    · obtain ⟨process, hp, rfl⟩ := Option.map_eq_some_iff.mp hst
      cases hp
      have hflush : RowsInv { s.flush c written with process := s.process } := h.flush written _ rfl rfl fun _ ha => ha
      exact hflush.restart rfl rfl rfl rfl fun _ ha => by cases ha
    · cases hst

/-- **No fill is restored without its row.** In every state reached, through failed appends, failed saves, crashes
and starts: the fills that completed saves cover are among the flushed rows, which are among the booked ones, each
in the order of booking and at most once. So the next start restores no more fills than the first one and the
flushed rows together. The fills that a running actor has yet to save are the last flushed rows and then the rows
that wait. -/
theorem saves_are_logged (h : Trans.Reach (step c t cfg) (init cfg files file) s) :
    s.process.kept.Sublist (s.flushed.map LogRow.booking) ∧ s.flushed.Sublist s.booked ∧
      (∀ a, s.process.pc.actor = some a → ∃ late, late <:+ s.flushed.map LogRow.booking ∧
        bookings s.process.since = late ++ s.buffer.map LogRow.booking) ∧
      (s.process.Readable t → (PnlActor.new cfg (PnlProcess.load t cfg s.process.disk.files)).fillCount ≤
        (PnlActor.new cfg (PnlProcess.load t cfg files)).fillCount + s.flushed.length) := by
  have hrows : RowsInv s := h.invariant init_rows fun _ _ _ hs _ hst => hs.step hst
  obtain ⟨earlier, hearlier, hsub⟩ := hrows.booked
  obtain ⟨old, late, hlogged, hold, hlate⟩ := hrows.logged
  have hkept : s.process.kept.Sublist (s.flushed.map LogRow.booking) := by
    rw [hlogged]
    exact hold.trans (List.sublist_append_left _ _)
  refine ⟨hkept, ?_, fun a ha => ⟨late, ⟨old, hlogged.symm⟩, hlate a ha⟩, fun hread => ?_⟩
  · rw [hearlier]
    exact hsub.trans (List.sublist_append_left _ _)
  · have hcount := (PnlProcess.crash_loses_unsaved t cfg files s.process (process_reach h) hread).1
    have hlen := hkept.length_le
    rw [List.length_map] at hlen
    exact hcount.le.trans (Nat.add_le_add_left hlen _)

/-! ## The file -/

/-- What the first start leaves of the file that it finds. -/
def firstFile (c : CsvText) (file : List UInt8) : List UInt8 :=
  if file ≠ [] ∧ c.firstRecord file = some tradeLogHeader then file else c.header

/-- An append that reached the file whole. -/
def Complete (c : CsvText) (p : List LogRow × ℕ) : Prop := (rowsText c p.1).length ≤ p.2

theorem appended_complete {appends : List (List LogRow × ℕ)} (h : ∀ p ∈ appends, Complete c p) :
    appended c appends = rowsText c (appends.flatMap Prod.fst) := by
  induction appends with
  | nil => rfl
  | cons p ps ih =>
    have hrest := ih fun q hq => h q (List.mem_cons_of_mem _ hq)
    have hwhole := List.take_of_length_le (h p List.mem_cons_self)
    unfold appended at hrest ⊢
    rw [List.flatMap_cons, hrest, hwhole]
    exact List.flatMap_append.symm

/-- A file that begins with the written header stays as it is at a start. -/
theorem ensureHeader_of_prefix (hc : c.ReadsHeader) (h : c.header <+: s.file) (moved : Bool) :
    (s.ensureHeader c moved).file = s.file ∧ (s.ensureHeader c moved).aside = s.aside := by
  obtain ⟨rest, hrest⟩ := h
  have hfirst : c.firstRecord s.file = some tradeLogHeader := hrest ▸ hc rest
  unfold ensureHeader
  split
  · exact ⟨rfl, rfl⟩
  · rename_i hno
    have hnil : s.file = [] := by
      by_contra hne
      exact hno ⟨hne, hfirst⟩
    obtain ⟨hheader, -⟩ := List.append_eq_nil_iff.mp (hrest.trans hnil)
    refine ⟨hheader.trans hnil.symm, ?_⟩
    simp only [hnil, ne_eq, not_true_eq_false, false_and, if_false, List.append_nil]

/-- What a step may do to a file that begins with the header. -/
structure Grows (c : CsvText) (s s' : TradeLog) : Prop where
  file : ∃ more, s'.appends = s.appends ++ more ∧ s'.file = s.file ++ appended c more
  aside : s'.aside = s.aside

theorem Grows.of_eq (happends : s'.appends = s.appends) (hfile : s'.file = s.file) (haside : s'.aside = s.aside) :
    Grows c s s' :=
  ⟨⟨[], happends.trans (List.append_nil _).symm, hfile.trans (List.append_nil _).symm⟩, haside⟩

theorem Grows.trans {s'' : TradeLog} (h : Grows c s s') (h' : Grows c s' s'') : Grows c s s'' := by
  obtain ⟨more, happends, hfile⟩ := h.file
  obtain ⟨more', happends', hfile'⟩ := h'.file
  refine ⟨⟨more ++ more', ?_, ?_⟩, h'.aside.trans h.aside⟩
  · rw [happends', happends, List.append_assoc]
  · rw [hfile', hfile, List.append_assoc]
    exact congrArg _ List.flatMap_append.symm

theorem Grows.headed (h : Grows c s s') (hs : c.header <+: s.file) : c.header <+: s'.file := by
  obtain ⟨more, -, hfile⟩ := h.file
  rw [hfile]
  exact hs.trans (List.prefix_append _ _)

theorem flush_grows (s : TradeLog) (written : ℕ) : Grows c s (s.flush c written) := by
  unfold flush
  split
  · exact .of_eq rfl rfl rfl
  · exact ⟨⟨[(s.buffer, written)], rfl, congrArg (s.file ++ ·) (List.append_nil _).symm⟩, rfl⟩

theorem log_grows (hc : c.ReadsHeader) (hs : c.header <+: s.file) (x : LogInput) (a : PnlProcessAct) :
    Grows c s (s.log c x a) := by
  cases a with
  | start summary pid nanos =>
    obtain ⟨hfile, haside⟩ := ensureHeader_of_prefix hc hs x.moved
    exact .of_eq (s.ensureHeader_frame x.moved).1 hfile haside
  | event e =>
    unfold log
    simp only
    split <;> exact .of_eq rfl rfl rfl
  | flush summary pid nanos => exact flush_grows s x.written
  | save utcNow pid nanos => exact .of_eq rfl rfl rfl
  | file a => exact .of_eq rfl rfl rfl
  | crash => exact .of_eq rfl rfl rfl

theorem step_grows (hc : c.ReadsHeader) (hs : c.header <+: s.file) (hst : s.step c t cfg a = some s') :
    Grows c s s' := by
  cases a with
  | act a x =>
    obtain ⟨process, -, rfl⟩ := Option.map_eq_some_iff.mp hst
    obtain ⟨hfile, haside⟩ := log_grows hc hs x a
    exact ⟨hfile, haside⟩
  | diesAppending written =>
    simp only [TradeLog.step] at hst
    split at hst
    · obtain ⟨process, -, rfl⟩ := Option.map_eq_some_iff.mp hst
      obtain ⟨hfile, haside⟩ := flush_grows (c := c) s written
      exact ⟨hfile, haside⟩
    · cases hst

/-- Either no process has run yet, or the file is what the first start has left and the appends. -/
def FileInv (c : CsvText) (file : List UInt8) (s : TradeLog) : Prop :=
  (s.process.pc = .down ∧ s.appends = [] ∧ s.file = file) ∨
    (c.header <+: s.file ∧ s.file = firstFile c file ++ appended c s.appends)

theorem firstFile_prefix (hfile : c.firstRecord file = some tradeLogHeader → c.header <+: file) :
    c.header <+: firstFile c file := by
  unfold firstFile
  split
  · rename_i h
    exact hfile h.2
  · exact List.prefix_rfl

theorem ensureHeader_file (s : TradeLog) (moved : Bool) : (s.ensureHeader c moved).file = firstFile c s.file := by
  unfold ensureHeader firstFile
  split <;> rfl

theorem FileInv.grows (h : c.header <+: s.file ∧ s.file = firstFile c file ++ appended c s.appends)
    (hg : Grows c s s') : c.header <+: s'.file ∧ s'.file = firstFile c file ++ appended c s'.appends := by
  refine ⟨hg.headed h.1, ?_⟩
  obtain ⟨more, happends, hmore⟩ := hg.file
  rw [hmore, h.2, happends, List.append_assoc]
  exact congrArg _ List.flatMap_append.symm

theorem FileInv.step (hc : c.ReadsHeader) (hfile : c.firstRecord file = some tradeLogHeader → c.header <+: file)
    (h : FileInv c file s) (hst : s.step c t cfg a = some s') : FileInv c file s' := by
  rcases h with ⟨hdown, happends, hold⟩ | h
  · -- The first start, or nothing.
    cases a with
    | act a x =>
      obtain ⟨process, hp, rfl⟩ := Option.map_eq_some_iff.mp hst
      cases a with
      | start summary pid nanos =>
        have hleft : (s.ensureHeader c x.moved).file = firstFile c file := by rw [ensureHeader_file, hold]
        have hnone : (s.ensureHeader c x.moved).appends = [] := (s.ensureHeader_frame x.moved).1.trans happends
        refine .inr ⟨?_, ?_⟩
        · show c.header <+: (s.ensureHeader c x.moved).file
          rw [hleft]
          exact firstFile_prefix hfile
        · show (s.ensureHeader c x.moved).file = _ ++ appended c (s.ensureHeader c x.moved).appends
          rw [hleft, hnone]
          exact (List.append_nil _).symm
      | event | flush | save => simp only [PnlProcess.step, hdown, reduceCtorEq] at hp
      | file a =>
        obtain ⟨disk, -, rfl⟩ := Option.map_eq_some_iff.mp hp
        refine .inl ⟨?_, happends, hold⟩
        have hnext : s.process.pc.next = .down := by rw [hdown]; rfl
        split
        · exact hnext
        · exact hnext
        · exact hdown
      | crash =>
        cases hp
        exact .inl ⟨rfl, happends, hold⟩
    | diesAppending written => simp only [TradeLog.step, hdown, reduceCtorEq] at hst
  · exact .inr (FileInv.grows h (step_grows hc h.1 hst))

/-- **The trade log is append-only.** In every state with a process running, and in every one after it: no start
moves the file aside or writes it anew. It is what the first start has left and then the appends, so if these
reached it whole, it has the rows that were flushed, in order and each of them once. -/
theorem log_append_only (hc : c.ReadsHeader) (hfile : c.firstRecord file = some tradeLogHeader → c.header <+: file)
    (h : Trans.Reach (step c t cfg) (init cfg files file) s) (hruns : s.process.pc.actor.isSome = true)
    (h' : Trans.Reach (step c t cfg) s s') :
    s'.aside = s.aside ∧ s.file <+: s'.file ∧ s'.file = firstFile c file ++ appended c s'.appends ∧
      ((∀ p ∈ s'.appends, Complete c p) → s'.file = firstFile c file ++ rowsText c s'.flushed) := by
  have hinv : FileInv c file s := h.invariant (.inl ⟨rfl, rfl, rfl⟩) fun _ _ _ hs _ hst => hs.step hc hfile hst
  have hbegun : c.header <+: s.file ∧ s.file = firstFile c file ++ appended c s.appends := by
    rcases hinv with ⟨hdown, -⟩ | hbegun
    · rw [hdown] at hruns
      cases hruns
    · exact hbegun
  have hgrows : Grows c s s' := by
    refine h'.invariant (I := Grows c s) (.of_eq rfl rfl rfl) fun u a u' hu _ hst => ?_
    exact hu.trans (step_grows hc (hu.headed hbegun.1) hst)
  have htext := (FileInv.grows hbegun hgrows).2
  refine ⟨hgrows.aside, ?_, htext, fun hcomplete => ?_⟩
  · obtain ⟨more, -, hmore⟩ := hgrows.file
    exact ⟨_, hmore.symm⟩
  · rw [htext, appended_complete hcomplete]
    rfl

/-- Cells that need no quotes, joined by commas. -/
def plainRecord (cells : List String) : List UInt8 :=
  List.intercalate [44] (cells.map fun cell : String => cell.toUTF8.data.toList) ++ [10]

def plainCsv : CsvText where
  writeRecord := plainRecord
  firstRecord bytes := if (plainRecord tradeLogHeader).isPrefixOf bytes then some tradeLogHeader else none

theorem isPrefixOf_append (header rest : List UInt8) : header.isPrefixOf (header ++ rest) = true :=
  List.isPrefixOf_iff_prefix.mpr (List.prefix_append _ _)

theorem plainCsv_readsHeader : plainCsv.ReadsHeader := by
  intro rest
  unfold CsvText.header plainCsv
  simp only [isPrefixOf_append, if_true]

/-- Two fills are flushed, and the process dies before the second one is saved. -/
def diesAfterAppend : List TradeLogAct :=
  PnlProcess.diesSaving.map fun a => .act a ⟨true, fun _ => .replicate 21 "0", 100⟩

theorem saves_are_logged_dies : ∃ s : TradeLog, s.process.kept.length = 1 ∧ s.flushed.length = 2 ∧
    s.process.kept.Sublist (s.flushed.map LogRow.booking) ∧
    (PnlActor.new testCfg (PnlProcess.load PnlProcess.savedJson testCfg s.process.disk.files)).fillCount ≤
      (PnlActor.new testCfg (PnlProcess.load PnlProcess.savedJson testCfg fun _ => none)).fillCount + 2 := by
  obtain ⟨s, hs, h⟩ := Option.map_eq_some_iff.mp
    (show (Trans.run (step plainCsv PnlProcess.savedJson testCfg) (init testCfg (fun _ => none) [])
      diesAfterAppend).map (fun s => decide (s.process.saves = [PnlProcess.savedState] ∧ s.process.kept.length = 1 ∧
        s.flushed.length = 2)) = some true by decide +kernel)
  obtain ⟨hsaves, hkept, hflushed⟩ := of_decide_eq_true h
  have hread : s.process.Readable PnlProcess.savedJson := fun p hp => by
    rw [hsaves] at hp
    rw [List.mem_singleton.mp hp]
    exact PnlProcess.savedState_readsBack
  obtain ⟨hsub, -, -, hcount⟩ := saves_are_logged (Trans.reach_iff_run.mpr ⟨_, hs⟩)
  exact ⟨s, hkept, hflushed, hsub, hflushed ▸ hcount hread⟩

theorem log_append_only_dies : ∃ s s' : TradeLog, s.appends = [] ∧ s'.flushed.length = 2 ∧ s'.aside = s.aside ∧
    s.file <+: s'.file ∧ s'.file = plainCsv.header ++ rowsText plainCsv s'.flushed := by
  obtain ⟨s, hs, h⟩ := Option.bind_eq_some_iff.mp
    (show ((Trans.run (step plainCsv PnlProcess.savedJson testCfg) (init testCfg (fun _ => none) [])
      (diesAfterAppend.take 2)).bind fun s => (Trans.run (step plainCsv PnlProcess.savedJson testCfg) s
        (diesAfterAppend.drop 2)).map fun s' => decide (s.process.pc.actor.isSome = true ∧ s.appends.length = 0 ∧
          s'.flushed.length = 2 ∧ ∀ p ∈ s'.appends, (rowsText plainCsv p.1).length ≤ p.2)) = some true by
      decide +kernel)
  obtain ⟨s', hs', h⟩ := Option.map_eq_some_iff.mp h
  obtain ⟨hruns, hnone, hflushed, hcomplete⟩ := of_decide_eq_true h
  have hempty : plainCsv.firstRecord [] = none := by decide +kernel
  obtain ⟨haside, hfile, -, htext⟩ := log_append_only plainCsv_readsHeader
    (fun hfirst => absurd (hempty.symm.trans hfirst) nofun) (Trans.reach_iff_run.mpr ⟨_, hs⟩) hruns
    (Trans.reach_iff_run.mpr ⟨_, hs'⟩)
  exact ⟨s, s', List.length_eq_zero_iff.mp hnone, hflushed, haside, hfile, htext hcomplete⟩

end TradeLog

end LighterMM
