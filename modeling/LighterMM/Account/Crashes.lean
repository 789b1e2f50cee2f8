import LighterMM.Account.Persistence

/-!
# What a crash loses

The totals of the PnL actor, across any number of processes: the totals that a start restores are those of the
first start and of every booking that a completed save covered, so a crash loses the bookings since the last
completed save of its process, and nothing else (`crash_loses_unsaved`). The count of fills is exact; the sums
are so as far as the numbers of the file are read back as they were written.
-/

namespace LighterMM

/-- Fills, notional and realized PnL. -/
abbrev Tally := ℕ × ℚ × ℚ

def PnlActor.tally (a : PnlActor) : Tally := (a.fillCount, a.notionalUsdc, a.strategyRealizedPnlUsdc)

def LiveState.tally (s : LiveState) : Tally := (s.fillCount, s.volumeUsd, s.realizedPnlCumulative)

def Booking.tally (b : Booking) : Tally := (1, b.fill.notionalUsd, if b.attributed then b.realizedDelta else 0)

/-- The totals of bookings. -/
def tallyOf (bs : List Booking) : Tally := (bs.map Booking.tally).sum

theorem tallyOf_append (bs bs' : List Booking) : tallyOf (bs ++ bs') = tallyOf bs + tallyOf bs' := by
  rw [tallyOf, List.map_append, List.sum_append]
  rfl

theorem tallyOf_eq (bs : List Booking) : tallyOf bs = (bs.length, (bs.map (·.fill.notionalUsd)).sum,
    (bs.map fun b => if b.attributed then b.realizedDelta else 0).sum) := by
  induction bs with
  | nil => rfl
  | cons b bs ih =>
    have hcons : tallyOf (b :: bs) = b.tally + tallyOf bs := List.sum_cons
    rw [hcons, ih]
    simp only [Booking.tally, Prod.mk_add_mk, List.length_cons, List.map_cons, List.sum_cons, Nat.add_comm]

namespace PnlActor

variable {s₀ a : PnlActor} {log : List PnlNote}

theorem Totals.tally (h : Totals s₀ log a) : a.tally = s₀.tally + tallyOf (bookings log) := by
  rw [tallyOf_eq, PnlActor.tally, PnlActor.tally, h.fillCount, h.notional, h.realized]
  rfl

/-- A state of another account or market, or one that was never saved, restores nothing. -/
theorem new_tally {cfg : PnlCfg} {s : LiveState} (haccount : s.accountIndex = cfg.accountIndex)
    (hmarket : s.marketId = cfg.marketId) (htime : s.updatedAt ≠ "") : (new cfg s).tally = s.tally := by
  have hrestore : s.accountIndex = cfg.accountIndex ∧ s.marketId = cfg.marketId ∧ s.updatedAt ≠ "" :=
    ⟨haccount, hmarket, htime⟩
  simp only [PnlActor.tally, new, if_pos hrestore]
  rfl

end PnlActor

namespace PnlProcess

open PnlActor

variable {t : JsonText} {cfg : PnlCfg} {files : Files String UInt8} {s s' : PnlProcess}

/-- Every completed save is read back. -/
def Readable (t : JsonText) (s : PnlProcess) : Prop := ∀ p ∈ s.saves, p.InRange ∧ t.ReadsBack p

/-- The state is one that an actor of this configuration saved. -/
structure Ours (cfg : PnlCfg) (p : LiveState) : Prop where
  account : p.accountIndex = cfg.accountIndex
  market : p.marketId = cfg.marketId
  time : p.updatedAt ≠ ""

theorem flushAll_ours {a : PnlActor} {utcNow : String} (hcfg : a.cfg = cfg) (htime : utcNow ≠ "") :
    Ours cfg (a.flushAll utcNow) :=
  ⟨congrArg PnlCfg.accountIndex hcfg, congrArg PnlCfg.marketId hcfg, htime⟩

section

variable {M : Type} [AddCommMonoid M]

/-- The books of all processes so far, as far as `f` shows of them. -/
structure BooksInv (f : Tally →+ M) (t : JsonText) (cfg : PnlCfg) (files : Files String UInt8) (s : PnlProcess) :
    Prop where
  actor : ∀ a, s.pc.actor = some a → Totals s.origin s.since a ∧ PendingOk a ∧ s.origin.cfg = cfg
  origin : ∀ a, s.pc.actor = some a →
    f s.origin.tally = f (PnlActor.new cfg (load t cfg files)).tally + f (tallyOf s.kept)
  saving : ∀ a p, s.pc = .saving a p → p.tally = a.tally ∧ Ours cfg p
  none_saved : s.saves = [] → s.kept = []
  last_saved : ∀ p, s.saves.getLast? = some p → Ours cfg p ∧
    f p.tally = f (PnlActor.new cfg (load t cfg files)).tally + f (tallyOf s.kept)

/-- What a start restores. -/
theorem BooksInv.restored {f : Tally →+ M} (hf : ∀ p : LiveState, f (p.reread t.reads).tally = f p.tally)
    (h : BooksInv f t cfg files s) (hread : s.Readable t)
    (hfile : s.disk.files (liveStateName cfg.symbol) =
      (s.saves.getLast?.map t.bytes).or (files (liveStateName cfg.symbol))) :
    f (PnlActor.new cfg (load t cfg s.disk.files)).tally =
      f (PnlActor.new cfg (load t cfg files)).tally + f (tallyOf s.kept) := by
  cases hlast : s.saves.getLast? with
  | none =>
    have hnil : s.saves = [] := List.getLast?_eq_none_iff.mp hlast
    rw [hlast] at hfile
    rw [load, hfile, h.none_saved hnil, Option.map_none, Option.none_or, ← load]
    exact (add_zero _).symm.trans (congrArg _ f.map_zero.symm)
  | some p =>
    obtain ⟨hours, htally⟩ := h.last_saved p hlast
    obtain ⟨hrange, hback⟩ := hread p (List.mem_of_getLast? hlast)
    have hload : load t cfg s.disk.files = p.reread t.reads := by
      rw [load, hfile, hlast, Option.map_some, Option.some_or, JsonText.loadBytes_bytes hrange hback]
    have hnew : (PnlActor.new cfg (p.reread t.reads)).tally = (p.reread t.reads).tally :=
      PnlActor.new_tally hours.account hours.market hours.time
    rw [hload, hnew, hf]
    exact htally

theorem BooksInv.fileStep {f : Tally →+ M} {a : FileWriterAct} (h : BooksInv f t cfg files s)
    (hst : s.fileStep a = some s') : BooksInv f t cfg files s' := by
  obtain ⟨disk, -, rfl⟩ := Option.map_eq_some_iff.mp hst
  have hnext : ∀ pc : PnlPc, pc.next.actor = pc.actor := fun pc => by
    cases pc with
    | summary a thenSave => cases thenSave <;> rfl
    | _ => rfl
  have hover : ∀ (pc : PnlPc) a p, pc.next ≠ .saving a p := fun pc a p => by
    cases pc with
    | summary a thenSave => cases thenSave <;> exact fun hc => by cases hc
    | _ => exact fun hc => by cases hc
  split
  · -- The replacement is done.
    unfold completed
    split
    · rename_i a payload hpc
      obtain ⟨htally, hours⟩ := h.saving a payload hpc
      have ha : s.pc.actor = some a := by rw [hpc]; rfl
      obtain ⟨htotals, hok, hcfg⟩ := h.actor a ha
      have hbooks : f a.tally = f (PnlActor.new cfg (load t cfg files)).tally +
          f (tallyOf (s.kept ++ bookings s.since)) := by
        rw [htotals.tally, f.map_add, h.origin a ha, tallyOf_append, f.map_add, add_assoc]
      refine ⟨fun b hb => ?_, fun b _ => hbooks, fun b p hb => absurd hb (hover _ _ _), fun hnil => ?_,
        fun p hp => ?_⟩
      · rw [hnext, ha] at hb
        cases hb
        exact ⟨.refl _, hok, htotals.cfg.trans hcfg⟩
      · exact absurd hnil (List.append_ne_nil_of_right_ne_nil _ (List.cons_ne_nil _ _))
      · obtain rfl : payload = p := Option.some.inj (List.getLast?_concat.symm.trans hp)
        exact ⟨hours, htally ▸ hbooks⟩
    · exact ⟨fun a ha => h.actor a (hnext s.pc ▸ ha), fun a ha => h.origin a (hnext s.pc ▸ ha),
        fun a p hp => absurd hp (hover _ _ _), h.none_saved, h.last_saved⟩
  · exact ⟨fun a ha => h.actor a (hnext s.pc ▸ ha), fun a ha => h.origin a (hnext s.pc ▸ ha),
      fun a p hp => absurd hp (hover _ _ _), h.none_saved, h.last_saved⟩
  · exact ⟨h.actor, h.origin, h.saving, h.none_saved, h.last_saved⟩

theorem BooksInv.step {f : Tally →+ M} (hf : ∀ p : LiveState, f (p.reread t.reads).tally = f p.tally)
    {a : PnlProcessAct} (h : BooksInv f t cfg files s) (hread : s.Readable t)
    (hfile : s.disk.files (liveStateName cfg.symbol) =
      (s.saves.getLast?.map t.bytes).or (files (liveStateName cfg.symbol)))
    (hst : s.step t cfg a = some s') : BooksInv f t cfg files s' := by
  cases a with
  | start summary pid nanos =>
    simp only [PnlProcess.step] at hst
    split at hst <;> cases hst
    refine ⟨fun a ha => ?_, fun _ _ => h.restored hf hread hfile, fun _ _ hp => (by cases hp), h.none_saved,
      h.last_saved⟩
    cases ha
    exact ⟨.refl _, .new _ _, rfl⟩
  | event e =>
    simp only [PnlProcess.step] at hst
    split at hst <;> cases hst
    rename_i a hpc
    have ha : s.pc.actor = some a := by rw [hpc]; rfl
    obtain ⟨htotals, hok, hcfg⟩ := h.actor a ha
    have hsteps := handleEvent_steps e hok
    refine ⟨fun b hb => ?_, fun _ _ => h.origin a ha, fun _ _ hp => (by cases hp), h.none_saved, h.last_saved⟩
    cases hb
    exact ⟨htotals.steps hsteps, hok.steps hsteps, hcfg⟩
  | flush summary pid nanos =>
    simp only [PnlProcess.step] at hst
    split at hst <;> cases hst
    rename_i a hpc
    have ha : s.pc.actor = some a := by rw [hpc]; rfl
    refine ⟨fun b hb => ?_, fun _ _ => h.origin a ha, fun _ _ hp => (by cases hp), h.none_saved, h.last_saved⟩
    cases hb
    exact h.actor a ha
  | save utcNow pid nanos =>
    simp only [PnlProcess.step] at hst
    split at hst
    · rename_i a hpc
      obtain ⟨htime, hs'⟩ := Option.ite_none_left_eq_some.mp hst
      cases hs'
      have ha : s.pc.actor = some a := by rw [hpc]; rfl
      obtain ⟨htotals, hok, hcfg⟩ := h.actor a ha
      refine ⟨fun b hb => ?_, fun _ _ => h.origin a ha, fun b p hp => ?_, h.none_saved, h.last_saved⟩
      · cases hb
        exact ⟨htotals, hok, hcfg⟩
      · cases hp
        exact ⟨rfl, flushAll_ours (htotals.cfg.trans hcfg) htime⟩
    · cases hst
  | file a => exact h.fileStep hst
  | crash =>
    cases hst
    exact ⟨fun _ ha => (by cases ha), fun _ ha => (by cases ha), fun _ _ hp => (by cases hp), h.none_saved,
      h.last_saved⟩

theorem init_books (f : Tally →+ M) : BooksInv f t cfg files (init cfg files) :=
  ⟨fun _ ha => (by cases ha), fun _ ha => (by cases ha), fun _ _ hp => (by cases hp), fun _ => rfl,
    fun _ hp => (by cases hp)⟩

/-- No step takes a save back. -/
theorem saves_grow {a : PnlProcessAct} (hst : s.step t cfg a = some s') : s.saves <+: s'.saves := by
  cases a with
  | file a =>
    obtain ⟨disk, -, rfl⟩ := Option.map_eq_some_iff.mp hst
    split
    · unfold completed
      split
      · exact List.prefix_append _ _
      · exact List.prefix_rfl
    · exact List.prefix_rfl
    · exact List.prefix_rfl
  | save utcNow pid nanos =>
    simp only [PnlProcess.step] at hst
    split at hst
    · obtain ⟨-, hs'⟩ := Option.ite_none_left_eq_some.mp hst
      cases hs'
      exact List.prefix_rfl
    · cases hst
  | crash =>
    cases hst
    exact List.prefix_rfl
  | start | event | flush =>
    simp only [PnlProcess.step] at hst
    split at hst <;> cases hst
    exact List.prefix_rfl

theorem books_of_reach {f : Tally →+ M} (hf : ∀ p : LiveState, f (p.reread t.reads).tally = f p.tally)
    (h : Trans.Reach (step t cfg) (init cfg files) s) (hread : s.Readable t) : BooksInv f t cfg files s := by
  induction h with
  | refl => exact init_books f
  | step a hreach _ hst ih =>
    have hread' := fun p hp => hread p ((saves_grow hst).subset hp)
    exact (ih hread').step hf hread' (live_state_never_torn t cfg files _ hreach) hst

end

/-- **A crash loses the bookings since the last completed save, and nothing else.** After any sequence of events,
flushes, failed file operations, crashes and starts, whose completed saves are read back: a start restores the
fills that the first start restored and those of all completed saves, and the running actor has counted these and
its own since then. If the numbers are read back exactly, the same is true of notional and realized PnL. -/
theorem crash_loses_unsaved (t : JsonText) (cfg : PnlCfg) (files : Files String UInt8) (s : PnlProcess)
    (h : Trans.Reach (step t cfg) (init cfg files) s) (hread : s.Readable t) :
    let first := PnlActor.new cfg (load t cfg files)
    let restored := PnlActor.new cfg (load t cfg s.disk.files)
    restored.fillCount = first.fillCount + s.kept.length ∧
      (∀ a, s.pc.actor = some a → a.fillCount = restored.fillCount + (bookings s.since).length) ∧
      ((∀ q, t.reads q = q) → restored.tally = first.tally + tallyOf s.kept ∧
        ∀ a, s.pc.actor = some a → a.tally = restored.tally + tallyOf (bookings s.since)) := by
  intro first restored
  have hfile := live_state_never_torn t cfg files s h
  -- The count of fills is the first component.
  have hcount := books_of_reach (f := AddMonoidHom.fst ℕ (ℚ × ℚ)) (fun _ => rfl) h hread
  have hlen : ∀ bs, AddMonoidHom.fst ℕ (ℚ × ℚ) (tallyOf bs) = bs.length := fun bs => by rw [tallyOf_eq]; rfl
  have hrestored : restored.fillCount = first.fillCount + s.kept.length := by
    have hr := hcount.restored (fun _ => rfl) hread hfile
    rw [hlen] at hr
    exact hr
  refine ⟨hrestored, fun a ha => ?_, fun hexact => ?_⟩
  · have horigin := hcount.origin a ha
    rw [hlen] at horigin
    rw [(hcount.actor a ha).1.fillCount, hrestored]
    exact congrArg (· + _) horigin
  · have hf : ∀ p : LiveState, AddMonoidHom.id Tally (p.reread t.reads).tally = AddMonoidHom.id Tally p.tally :=
      fun p => by simp only [AddMonoidHom.id_apply, LiveState.tally, LiveState.reread, hexact]
    have hbooks := books_of_reach hf h hread
    have hr : restored.tally = first.tally + tallyOf s.kept := hbooks.restored hf hread hfile
    refine ⟨hr, fun a ha => ?_⟩
    rw [(hbooks.actor a ha).1.tally, hr]
    exact congrArg (· + _) (hbooks.origin a ha)

/-- The state that the run below saves, and its text. -/
def savedState : LiveState := ⟨7, 1, -(1 / 2), 101, 5 / 4, 1, 101 / 2, 0, none, 0, 0, "BTC", "later"⟩

def savedText : List UInt8 :=
  ["\x7b\n  \"account_index\": 7,\n  \"market_id\": 1,\n  \"position_size_est\": -0.5,\n  \"entry_vwap\": 101.0,\n",
    "  \"realized_pnl_cumulative\": 1.25,\n  \"fill_count\": 1,\n  \"volume_usd\": 50.5,\n",
    "  \"exchange_position_size\": 0.0,\n  \"exchange_entry_vwap\": null,\n  \"portfolio_value\": 0.0,\n",
    "  \"available_capital\": 0.0,\n  \"symbol\": \"BTC\",\n  \"updated_at\": \"later\"\n\x7d"].flatMap
      fun line => line.toUTF8.data.toList

/-- The writer and the reader of that text. -/
def savedJson : JsonText where
  render _ := savedText
  parse bytes := if bytes = savedText ++ [10] then some savedState.toJson else none
  reads := id

theorem savedState_readsBack : savedState.InRange ∧ savedJson.ReadsBack savedState := by
  refine ⟨⟨by norm_num [savedState], by norm_num [savedState], by norm_num [savedState]⟩, ?_⟩
  simp only [JsonText.ReadsBack, JsonText.bytes, savedJson, if_true]
  rfl

/-- A fill is saved; after the second one, the process dies in the middle of a save. The summaries fail. -/
def diesSaving : List PnlProcessAct :=
  [.start [] 1 1, .file .refuse, .event (.registerClientIds [42]),
    .event (.accountAll none [testTrade 1 42 .sell 101 (1 / 2) (some (5 / 4))]), .flush [] 1 2, .file .refuse,
    .save "later" 1 3, .file (.create true), .file (.write 1000), .file (.rename true),
    .event (.accountAll none [testTrade 2 42 .buy 100 (1 / 2) none]), .flush [] 1 4, .file .refuse,
    .save "latest" 1 5, .file (.create true), .file (.write 20), .crash]

theorem crash_loses_unsaved_dies : ∃ s : PnlProcess, s.saves = [savedState] ∧ s.since.length = 1 ∧
    (PnlActor.new testCfg (load savedJson testCfg s.disk.files)).fillCount =
      (PnlActor.new testCfg (load savedJson testCfg fun _ => none)).fillCount + 1 := by
  obtain ⟨s, hs, h⟩ := Option.map_eq_some_iff.mp
    (show (Trans.run (step savedJson testCfg) (init testCfg fun _ => none) diesSaving).map (fun s =>
      decide (s.saves = [savedState] ∧ s.kept.length = 1 ∧ s.since.length = 1)) = some true by decide +kernel)
  obtain ⟨hsaves, hkept, hsince⟩ := of_decide_eq_true h
  have hread : s.Readable savedJson := fun p hp => by
    rw [hsaves] at hp
    rw [List.mem_singleton.mp hp]
    exact savedState_readsBack
  refine ⟨s, hsaves, hsince, ?_⟩
  rw [← hkept]
  exact (crash_loses_unsaved savedJson testCfg _ s (Trans.reach_iff_run.mpr ⟨_, hs⟩) hread).1

end PnlProcess

end LighterMM
