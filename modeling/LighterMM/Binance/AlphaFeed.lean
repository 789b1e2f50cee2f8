import LighterMM.Binance.Obi
import LighterMM.Lib.RelAcq
import LighterMM.Lib.Trans

/-!
# The published alpha, read without a lock (`SharedAlpha` of `shared.rs`)

The depth task stores three registers for each update and each reset; the hot task loads them in
`usable_alpha`: the sample count, the time of the last update, the alpha. A call can mix the registers of
different operations, and a load can return an old value.

* The writer stores one register at a time; `ops` are its operations so far, `new` counts as the first one.
* The reader loads one register at a time; it chooses the operation whose store it returns, among those that
  release and acquire allow (`Lib/RelAcq`).
* `reads` are the finished calls, with the number of the operation that each load returned.

The count is never newer than the time, and the time never newer than the alpha, within a call and from one
call to the next (`usable_alpha_sound`); so a call that no reset overlaps agrees with one that reads the
three registers at once (`usable_alpha_atomic`).
-/

namespace LighterMM

open RelAcq

inductive AlphaReg where
  | alphaBits
  | lastUpdateMs
  | sampleCount
  deriving DecidableEq, Repr

/-- A store, with its value. -/
inductive AlphaStore where
  | alphaBits (alpha : ℚ)
  | lastUpdateMs (ms : ℕ) (release : Bool)
  | sampleCount (n : ℕ)
  deriving DecidableEq, Repr

namespace AlphaStore

def reg : AlphaStore → AlphaReg
  | .alphaBits _ => .alphaBits
  | .lastUpdateMs _ _ => .lastUpdateMs
  | .sampleCount _ => .sampleCount

def release : AlphaStore → Bool
  | .alphaBits _ => false
  | .lastUpdateMs _ rel => rel
  | .sampleCount _ => true

end AlphaStore

instance : Stores AlphaStore AlphaReg := ⟨AlphaStore.reg, AlphaStore.release⟩

namespace SharedAlpha

def warmedUp (s : SharedAlpha) (minSamples : ℕ) : Bool := decide (minSamples ≤ s.sampleCount)

def isStale (s : SharedAlpha) (staleMs nowMs : ℕ) : Bool :=
  s.lastUpdateMs == 0 || decide (staleMs < nowMs - s.lastUpdateMs)

/-- `usable_alpha`, if it read the three registers at once. -/
def usableAlpha (s : SharedAlpha) (minSamples staleMs nowMs : ℕ) : Option ℚ :=
  if s.warmedUp minSamples && !s.isStale staleMs nowMs then some s.alpha else none

end SharedAlpha

/-- An operation of the depth task. -/
inductive AlphaOp where
  | update (alpha : ℚ) (nowMs : ℕ)
  | reset
  deriving DecidableEq, Repr

namespace AlphaOp

def apply (s : SharedAlpha) : AlphaOp → SharedAlpha
  | .update alpha nowMs => s.update alpha nowMs
  | .reset => s.reset

/-- The stores of an operation, in order. -/
def stores (s : SharedAlpha) : AlphaOp → List AlphaStore
  | .update alpha nowMs => [.alphaBits alpha, .lastUpdateMs nowMs true, .sampleCount (s.sampleCount + 1)]
  | .reset => [.alphaBits 0, .lastUpdateMs 0 false, .sampleCount 0]

def isUpdate : AlphaOp → Bool
  | .update .. => true
  | .reset => false

theorem stores_eq (s : SharedAlpha) (op : AlphaOp) :
    op.stores s = [.alphaBits (op.apply s).alpha, .lastUpdateMs (op.apply s).lastUpdateMs op.isUpdate,
      .sampleCount (op.apply s).sampleCount] := by
  cases op with
  | update => rfl
  | reset => rfl

end AlphaOp

/-- The registers after operation `k`. -/
def alphaAt (ops : List AlphaOp) (k : ℕ) : SharedAlpha := (ops.take (k + 1)).foldl AlphaOp.apply .new

/-- What the operations store, from the registers `s` on. -/
def alphaHistory : SharedAlpha → List AlphaOp → List AlphaStore
  | _, [] => []
  | s, op :: ops => op.stores s ++ alphaHistory (op.apply s) ops

/-- What a call of `usable_alpha` loaded: the numbers of the operations, the clock and the result. -/
inductive AlphaRead where
  | cold (count : ℕ)
  | stale (count stamp nowMs : ℕ)
  | usable (count stamp value nowMs : ℕ) (alpha : ℚ)
  deriving DecidableEq, Repr

namespace AlphaRead

def count : AlphaRead → ℕ
  | .cold c | .stale c _ _ | .usable c _ _ _ _ => c

def stamp : AlphaRead → Option ℕ
  | .cold _ => none
  | .stale _ t _ | .usable _ t _ _ _ => some t

def value : AlphaRead → Option ℕ
  | .usable _ _ j _ _ => some j
  | _ => none

def result : AlphaRead → Option ℚ
  | .usable _ _ _ _ alpha => some alpha
  | _ => none

end AlphaRead

/-- Where the hot task is in `usable_alpha`. -/
inductive UsablePc where
  | idle
  /-- `warmed_up` was true. -/
  | warm (count : ℕ)
  /-- `is_stale` was false. -/
  | fresh (count stamp nowMs : ℕ)
  deriving DecidableEq, Repr

structure AlphaFeed where
  ops : List AlphaOp
  /-- How many stores the depth task has made. -/
  stored : ℕ
  view : View AlphaReg
  pc : UsablePc
  reads : List AlphaRead

inductive AlphaAct where
  | begin (op : AlphaOp)
  | store
  | loadCount (k : ℕ)
  | loadStamp (k nowMs : ℕ)
  | loadAlpha (k : ℕ)

namespace AlphaFeed

/-- `new`, before the tasks are spawned. -/
def start : AlphaFeed := ⟨[.reset], 3, fun _ => 3, .idle, []⟩

/-- The stores made so far. -/
def history (s : AlphaFeed) : List AlphaStore := (alphaHistory .new s.ops).take s.stored

def step (minSamples staleMs : ℕ) (s : AlphaFeed) : AlphaAct → Option AlphaFeed
  | .begin op => if s.stored = 3 * s.ops.length then some { s with ops := s.ops ++ [op] } else none
  | .store => if s.stored < 3 * s.ops.length then some { s with stored := s.stored + 1 } else none
  | .loadCount k =>
    match s.pc, load s.history s.view .sampleCount true (3 * k + 2) with
    | .idle, some (.sampleCount n, view) =>
      some (if minSamples ≤ n then { s with view, pc := .warm k }
        else { s with view, pc := .idle, reads := s.reads ++ [.cold k] })
    | _, _ => none
  | .loadStamp k nowMs =>
    match s.pc, load s.history s.view .lastUpdateMs true (3 * k + 1) with
    | .warm count, some (.lastUpdateMs last _, view) =>
      some (if last = 0 ∨ staleMs < nowMs - last then
          { s with view, pc := .idle, reads := s.reads ++ [.stale count k nowMs] }
        else { s with view, pc := .fresh count k nowMs })
    | _, _ => none
  | .loadAlpha k =>
    match s.pc, load s.history s.view .alphaBits false (3 * k) with
    | .fresh count stamp nowMs, some (.alphaBits alpha, view) =>
      some { s with view, pc := .idle, reads := s.reads ++ [.usable count stamp k nowMs alpha] }
    | _, _ => none

variable {minSamples staleMs : ℕ} {s s' : AlphaFeed}

end AlphaFeed

/-! ## The history of the stores -/

variable {ops : List AlphaOp} {k : ℕ}

theorem alphaAt_append {more : List AlphaOp} (hk : k < ops.length) : alphaAt (ops ++ more) k = alphaAt ops k := by
  unfold alphaAt
  rw [List.take_append_of_le_length hk]

theorem alphaAt_eq {op : AlphaOp} (hop : ops[k]? = some op) :
    alphaAt ops k = op.apply ((ops.take k).foldl AlphaOp.apply .new) := by
  unfold alphaAt
  rw [List.take_add_one, hop, List.foldl_append]
  rfl

/-- The stores from those of operation `k` on. -/
theorem alphaHistory_drop (s : SharedAlpha) (ops : List AlphaOp) (k : ℕ) :
    (alphaHistory s ops).drop (3 * k) = alphaHistory ((ops.take k).foldl AlphaOp.apply s) (ops.drop k) := by
  induction k generalizing s ops with
  | zero => rfl
  | succ k ih =>
    cases ops with
    | nil => rfl
    | cons op ops =>
      rw [alphaHistory, op.stores_eq, show 3 * (k + 1) = 3 * k + 3 by omega]
      exact ih (op.apply s) ops

/-- The three stores of operation `k`. -/
theorem alphaHistory_get {op : AlphaOp} (hop : ops[k]? = some op) :
    (alphaHistory .new ops)[3 * k]? = some (.alphaBits (alphaAt ops k).alpha) ∧
      (alphaHistory .new ops)[3 * k + 1]? = some (.lastUpdateMs (alphaAt ops k).lastUpdateMs op.isUpdate) ∧
      (alphaHistory .new ops)[3 * k + 2]? = some (.sampleCount (alphaAt ops k).sampleCount) := by
  have hdrop := alphaHistory_drop .new ops k
  rw [(List.drop_eq_getElem_cons (List.getElem?_eq_some_iff.mp hop).1), alphaHistory,
    (List.getElem?_eq_some_iff.mp hop).2, op.stores_eq, ← alphaAt_eq hop] at hdrop
  refine ⟨?_, ?_, ?_⟩
  · rw [← Nat.add_zero (3 * k), ← List.getElem?_drop, hdrop]
    rfl
  · rw [← List.getElem?_drop, hdrop]
    rfl
  · rw [← List.getElem?_drop, hdrop]
    rfl

/-! ## What a call of `usable_alpha` sees -/

theorem AlphaOp.isUpdate_of_ms {op : AlphaOp} {s : SharedAlpha} (h : (op.apply s).lastUpdateMs ≠ 0) :
    op.isUpdate = true := by
  cases op with
  | update => rfl
  | reset => exact absurd rfl h

/-- The answer of a call, read off the registers after the operations that its loads returned. -/
def AlphaRead.Founded (minSamples staleMs : ℕ) (ops : List AlphaOp) : AlphaRead → Prop
  | .cold c => c < ops.length ∧ (alphaAt ops c).warmedUp minSamples = false
  | .stale c t nowMs => c ≤ t ∧ t < ops.length ∧ (alphaAt ops c).warmedUp minSamples = true ∧
      (alphaAt ops t).isStale staleMs nowMs = true
  | .usable c t j nowMs alpha => c ≤ t ∧ t ≤ j ∧ j < ops.length ∧ (alphaAt ops c).warmedUp minSamples = true ∧
      (alphaAt ops t).isStale staleMs nowMs = false ∧ alpha = (alphaAt ops j).alpha

/-- No load of `e'` returned an older store than the same load of `e`. -/
structure AlphaRead.Before (e e' : AlphaRead) : Prop where
  count : e.count ≤ e'.count
  stamp : ∀ t ∈ e.stamp, ∀ t' ∈ e'.stamp, t ≤ t'
  value : ∀ j ∈ e.value, ∀ j' ∈ e'.value, j ≤ j'

/-- The reader knows the stores that `e` loaded. -/
structure AlphaRead.Known (view : View AlphaReg) (e : AlphaRead) : Prop where
  count : ∀ r, 3 * e.count + 2 < view r
  stamp : ∀ t ∈ e.stamp, 3 * t + 1 < view .lastUpdateMs
  value : ∀ j ∈ e.value, 3 * j < view .alphaBits

theorem AlphaRead.Founded.append {minSamples staleMs : ℕ} {e : AlphaRead} (more : List AlphaOp)
    (h : e.Founded minSamples staleMs ops) : e.Founded minSamples staleMs (ops ++ more) := by
  have hlen : ops.length ≤ (ops ++ more).length := by rw [List.length_append]; exact Nat.le_add_right _ _
  cases e with
  | cold c =>
    obtain ⟨hc, hcold⟩ := h
    exact ⟨hc.trans_le hlen, by rw [alphaAt_append hc]; exact hcold⟩
  | stale c t nowMs =>
    obtain ⟨hct, ht, hwarm, hstale⟩ := h
    refine ⟨hct, ht.trans_le hlen, ?_, ?_⟩
    · rw [alphaAt_append (hct.trans_lt ht)]
      exact hwarm
    · rw [alphaAt_append ht]
      exact hstale
  | usable c t j nowMs alpha =>
    obtain ⟨hct, htj, hj, hwarm, hfresh, halpha⟩ := h
    refine ⟨hct, htj, hj.trans_le hlen, ?_, ?_, ?_⟩
    · rw [alphaAt_append (hct.trans_lt (htj.trans_lt hj))]
      exact hwarm
    · rw [alphaAt_append (htj.trans_lt hj)]
      exact hfresh
    · rw [alphaAt_append hj]
      exact halpha

theorem AlphaRead.Known.mono {view view' : View AlphaReg} {e : AlphaRead} (h : e.Known view)
    (hle : ∀ r, view r ≤ view' r) : e.Known view' :=
  ⟨fun r => (h.count r).trans_le (hle r), fun t ht => (h.stamp t ht).trans_le (hle _),
    fun j hj => (h.value j hj).trans_le (hle _)⟩

namespace AlphaFeed

variable {minSamples staleMs : ℕ} {s s' : AlphaFeed} {st : AlphaStore} {view : View AlphaReg} {r : AlphaReg}
  {acquire : Bool} {i : ℕ}

/-- The number of the store to `r` in operation `k`. -/
def storeNo (k : ℕ) : AlphaReg → ℕ
  | .alphaBits => 3 * k
  | .lastUpdateMs => 3 * k + 1
  | .sampleCount => 3 * k + 2

/-- The stores are those of the operations begun. -/
structure Memory (s : AlphaFeed) : Prop where
  stored_le : s.stored ≤ 3 * s.ops.length
  view_le : ∀ r, s.view r ≤ s.stored

theorem history_get (h : s.history[i]? = some st) : i < s.stored ∧ (alphaHistory .new s.ops)[i]? = some st := by
  unfold history at h
  rw [List.getElem?_take] at h
  split at h
  · rename_i hlt
    exact ⟨hlt, h⟩
  · cases h

/-- Loads do not go back: what is known of a register bounds what it is loaded from. -/
theorem Memory.load_le (hm : s.Memory) (h : load s.history s.view r acquire (storeNo k r) = some (st, view))
    {k' : ℕ} (hknown : storeNo k' r < s.view r) : k' ≤ k := by
  have hlt : storeNo k' r < s.stored := hknown.trans_le (hm.view_le r)
  have hop : k' < s.ops.length := by
    have := hlt.trans_le hm.stored_le
    cases r <;> (simp only [storeNo] at this; omega)
  obtain ⟨halpha, hstamp, hcount⟩ := alphaHistory_get (List.getElem?_eq_getElem hop)
  have hget : ∃ st', s.history[storeNo k' r]? = some st' ∧ reg st' = r := by
    unfold history
    simp only [List.getElem?_take, if_pos hlt]
    cases r with
    | alphaBits => exact ⟨_, halpha, rfl⟩
    | lastUpdateMs => exact ⟨_, hstamp, rfl⟩
    | sampleCount => exact ⟨_, hcount, rfl⟩
  obtain ⟨st', hst', hreg⟩ := hget
  have := load_ge h hst' hreg hknown
  cases r <;> (simp only [storeNo] at this; omega)

theorem Memory.load_count (hm : s.Memory)
    (h : load s.history s.view .sampleCount true (3 * k + 2) = some (st, view)) :
    k < s.ops.length ∧ st = .sampleCount (alphaAt s.ops k).sampleCount ∧ ∀ r, 3 * k + 2 < view r := by
  obtain ⟨hlt, hget⟩ := history_get (load_eq_some h).1
  have hk : k < s.ops.length := by
    have := hm.stored_le
    omega
  rw [(alphaHistory_get (List.getElem?_eq_getElem hk)).2.2] at hget
  cases hget
  exact ⟨hk, rfl, load_acquire h rfl⟩

theorem Memory.load_stamp (hm : s.Memory)
    (h : load s.history s.view .lastUpdateMs true (3 * k + 1) = some (st, view)) :
    k < s.ops.length ∧ (∃ rel, st = .lastUpdateMs (alphaAt s.ops k).lastUpdateMs rel) ∧
      3 * k + 1 < view .lastUpdateMs ∧ ((alphaAt s.ops k).lastUpdateMs ≠ 0 → ∀ r, 3 * k + 1 < view r) := by
  obtain ⟨hlt, hget⟩ := history_get (load_eq_some h).1
  have hk : k < s.ops.length := by
    have := hm.stored_le
    omega
  rw [(alphaHistory_get (List.getElem?_eq_getElem hk)).2.1] at hget
  cases hget
  refine ⟨hk, ⟨_, rfl⟩, load_known h, fun hms => load_acquire h ?_⟩
  rw [alphaAt_eq (List.getElem?_eq_getElem hk)] at hms
  exact AlphaOp.isUpdate_of_ms hms

theorem Memory.load_alpha (hm : s.Memory)
    (h : load s.history s.view .alphaBits false (3 * k) = some (st, view)) :
    k < s.ops.length ∧ st = .alphaBits (alphaAt s.ops k).alpha ∧ 3 * k < view .alphaBits := by
  obtain ⟨hlt, hget⟩ := history_get (load_eq_some h).1
  have hk : k < s.ops.length := by
    have := hm.stored_le
    omega
  rw [(alphaHistory_get (List.getElem?_eq_getElem hk)).1] at hget
  cases hget
  exact ⟨hk, rfl, load_known h⟩

/-- `warmed_up` was true, of the registers after operation `c`. -/
structure Warm (minSamples : ℕ) (s : AlphaFeed) (c : ℕ) : Prop where
  lt : c < s.ops.length
  warm : (alphaAt s.ops c).warmedUp minSamples = true
  known : ∀ r, 3 * c + 2 < s.view r
  ahead : ∀ e ∈ s.reads, e.count ≤ c

/-- `is_stale` was false, of the registers after operation `t`. -/
structure Fresh (staleMs : ℕ) (s : AlphaFeed) (c t nowMs : ℕ) : Prop where
  le : c ≤ t
  lt : t < s.ops.length
  fresh : (alphaAt s.ops t).isStale staleMs nowMs = false
  known : ∀ r, 3 * t + 1 < s.view r
  ahead : ∀ e ∈ s.reads, ∀ t' ∈ e.stamp, t' ≤ t

structure Inv (minSamples staleMs : ℕ) (s : AlphaFeed) : Prop where
  memory : s.Memory
  reads : ∀ e ∈ s.reads, e.Founded minSamples staleMs s.ops ∧ e.Known s.view
  ordered : s.reads.Pairwise AlphaRead.Before
  warm : ∀ c, s.pc = .warm c → s.Warm minSamples c
  fresh : ∀ c t nowMs, s.pc = .fresh c t nowMs → s.Warm minSamples c ∧ s.Fresh staleMs c t nowMs

theorem start_inv (minSamples staleMs : ℕ) : start.Inv minSamples staleMs where
  memory := ⟨le_rfl, fun _ => le_rfl⟩
  reads := nofun
  ordered := .nil
  warm := nofun
  fresh := nofun

/-- The loads so far of the call under way go on with a view that knows more. -/
theorem Warm.mono {c : ℕ} (h : s.Warm minSamples c) (hview : ∀ r, s.view r ≤ view r) (pc : UsablePc) :
    ({ s with view, pc } : AlphaFeed).Warm minSamples c :=
  ⟨h.lt, h.warm, fun r => (h.known r).trans_le (hview r), h.ahead⟩

/-- A call ends with `e`. -/
theorem Inv.finish (h : s.Inv minSamples staleMs) (hmem : ({ s with view } : AlphaFeed).Memory)
    (hview : ∀ r, s.view r ≤ view r) {e : AlphaRead} (hfound : e.Founded minSamples staleMs s.ops)
    (hknown : e.Known view) (hbefore : ∀ e' ∈ s.reads, e'.Before e) :
    ({ s with view, pc := .idle, reads := s.reads ++ [e] } : AlphaFeed).Inv minSamples staleMs := by
  refine ⟨⟨hmem.stored_le, hmem.view_le⟩, fun e' he' => ?_, ?_, nofun, nofun⟩
  · rcases List.mem_append.mp he' with he' | he'
    · exact ⟨(h.reads e' he').1, (h.reads e' he').2.mono hview⟩
    · rw [List.mem_singleton.mp he']
      exact ⟨hfound, hknown⟩
  · refine List.pairwise_append.mpr ⟨h.ordered, List.pairwise_singleton _ _, fun e' he' e'' he'' => ?_⟩
    rw [List.mem_singleton.mp he'']
    exact hbefore e' he'

theorem Memory.after_load (hm : s.Memory) {r : AlphaReg} {i : ℕ}
    (h : load s.history s.view r acquire i = some (st, view)) : ({ s with view } : AlphaFeed).Memory := by
  refine ⟨hm.stored_le, fun r' => ?_⟩
  obtain ⟨hget, -, rfl⟩ := load_eq_some h
  have hlt : i < s.stored := (history_get hget).1
  show s.view.after acquire st i r' ≤ s.stored
  unfold View.after
  split
  · exact max_le (hm.view_le r') hlt
  · exact hm.view_le r'

theorem Inv.begin (h : s.Inv minSamples staleMs) (op : AlphaOp) :
    ({ s with ops := s.ops ++ [op] } : AlphaFeed).Inv minSamples staleMs := by
  have hlen : s.ops.length ≤ (s.ops ++ [op]).length := by rw [List.length_append]; exact Nat.le_add_right _ _
  have hwarm (c : ℕ) (hc : s.Warm minSamples c) : ({ s with ops := s.ops ++ [op] } : AlphaFeed).Warm minSamples c :=
    ⟨hc.lt.trans_le hlen, by rw [alphaAt_append hc.lt]; exact hc.warm, hc.known, hc.ahead⟩
  refine ⟨⟨h.memory.stored_le.trans (Nat.mul_le_mul_left 3 hlen), h.memory.view_le⟩, fun e he => ?_, h.ordered,
    fun c hc => hwarm c (h.warm c hc), fun c t nowMs hc => ?_⟩
  · exact ⟨(h.reads e he).1.append [op], (h.reads e he).2⟩
  · obtain ⟨hw, hf⟩ := h.fresh c t nowMs hc
    exact ⟨hwarm c hw, hf.le, hf.lt.trans_le hlen, by rw [alphaAt_append hf.lt]; exact hf.fresh, hf.known, hf.ahead⟩

theorem Inv.loadCount (h : s.Inv minSamples staleMs) {n : ℕ}
    (hload : load s.history s.view .sampleCount true (3 * k + 2) = some (.sampleCount n, view)) :
    (if minSamples ≤ n then { s with view, pc := .warm k }
      else { s with view, pc := .idle, reads := s.reads ++ [.cold k] } : AlphaFeed).Inv minSamples staleMs := by
  obtain ⟨hk, hst, hknown⟩ := h.memory.load_count hload
  have hn : n = (alphaAt s.ops k).sampleCount := AlphaStore.sampleCount.inj hst
  have hmem := h.memory.after_load hload
  have hview := load_mono hload
  have hahead : ∀ e ∈ s.reads, e.count ≤ k := fun e he => h.memory.load_le hload ((h.reads e he).2.count _)
  split
  · rename_i hwarm
    refine ⟨⟨hmem.stored_le, hmem.view_le⟩, fun e he => ⟨(h.reads e he).1, (h.reads e he).2.mono hview⟩, h.ordered,
      fun c hc => ?_, nofun⟩
    cases hc
    exact ⟨hk, decide_eq_true (hn ▸ hwarm), hknown, hahead⟩
  · rename_i hcold
    exact h.finish hmem hview ⟨hk, decide_eq_false (hn ▸ hcold)⟩ ⟨hknown, nofun, nofun⟩
      fun e he => ⟨hahead e he, nofun, nofun⟩

theorem Inv.loadStamp (h : s.Inv minSamples staleMs) {c nowMs last : ℕ} {rel : Bool} (hpc : s.pc = .warm c)
    (hload : load s.history s.view .lastUpdateMs true (3 * k + 1) = some (.lastUpdateMs last rel, view)) :
    (if last = 0 ∨ staleMs < nowMs - last then
        { s with view, pc := .idle, reads := s.reads ++ [.stale c k nowMs] }
      else { s with view, pc := .fresh c k nowMs } : AlphaFeed).Inv minSamples staleMs := by
  obtain ⟨hk, ⟨_, hst⟩, hknown, hknown'⟩ := h.memory.load_stamp hload
  have hlast : last = (alphaAt s.ops k).lastUpdateMs := (AlphaStore.lastUpdateMs.inj hst).1
  have hmem := h.memory.after_load hload
  have hview := load_mono hload
  have hwarm := h.warm c hpc
  have hck : c ≤ k := by
    refine h.memory.load_le hload ?_
    have := hwarm.known .lastUpdateMs
    show 3 * c + 1 < _
    omega
  have hahead : ∀ e ∈ s.reads, ∀ t ∈ e.stamp, t ≤ k := fun e he t ht =>
    h.memory.load_le hload ((h.reads e he).2.stamp t ht)
  split
  · rename_i hstale
    refine h.finish hmem hview ⟨hck, hk, hwarm.warm, ?_⟩ ⟨fun r => (hwarm.known r).trans_le (hview r), ?_, nofun⟩
      fun e he => ⟨hwarm.ahead e he, ?_, nofun⟩
    · rw [hlast] at hstale
      simpa [SharedAlpha.isStale] using hstale
    · intro t ht
      cases ht
      exact hknown
    · intro t ht t' ht'
      cases ht'
      exact hahead e he t ht
  · rename_i hfresh
    rw [hlast] at hfresh
    refine ⟨⟨hmem.stored_le, hmem.view_le⟩, fun e he => ⟨(h.reads e he).1, (h.reads e he).2.mono hview⟩, h.ordered,
      nofun, fun c' t nowMs' hc => ?_⟩
    cases hc
    refine ⟨hwarm.mono hview _, hck, hk, ?_, hknown' fun hms => hfresh (.inl hms), hahead⟩
    simpa [SharedAlpha.isStale] using hfresh

theorem Inv.loadAlpha (h : s.Inv minSamples staleMs) {c t nowMs : ℕ} {alpha : ℚ} (hpc : s.pc = .fresh c t nowMs)
    (hload : load s.history s.view .alphaBits false (3 * k) = some (.alphaBits alpha, view)) :
    ({ s with view, pc := .idle, reads := s.reads ++ [.usable c t k nowMs alpha] } : AlphaFeed).Inv minSamples
      staleMs := by
  obtain ⟨hk, hst, hknown⟩ := h.memory.load_alpha hload
  have hview := load_mono hload
  obtain ⟨hwarm, hfresh⟩ := h.fresh c t nowMs hpc
  have htk : t ≤ k := by
    refine h.memory.load_le hload ?_
    have := hfresh.known .alphaBits
    show 3 * t < _
    omega
  refine h.finish (h.memory.after_load hload) hview
    ⟨hfresh.le, htk, hk, hwarm.warm, hfresh.fresh, AlphaStore.alphaBits.inj hst⟩
    ⟨fun r => (hwarm.known r).trans_le (hview r), ?_, ?_⟩ fun e he => ⟨hwarm.ahead e he, ?_, ?_⟩
  · intro t' ht'
    cases ht'
    exact (hfresh.known _).trans_le (hview _)
  · intro j hj
    cases hj
    exact hknown
  · intro t' ht' t'' ht''
    cases ht''
    exact hfresh.ahead e he t' ht'
  · intro j hj j' hj'
    cases hj'
    exact h.memory.load_le hload ((h.reads e he).2.value j hj)

theorem Inv.step {a : AlphaAct} (h : s.Inv minSamples staleMs) (hst : step minSamples staleMs s a = some s') :
    s'.Inv minSamples staleMs := by
  cases a with
  | begin op =>
    simp only [AlphaFeed.step] at hst
    split at hst
    · cases hst
      exact h.begin op
    · cases hst
  | store =>
    simp only [AlphaFeed.step] at hst
    split at hst
    · rename_i hlt
      cases hst
      refine ⟨⟨hlt, fun r => (h.memory.view_le r).trans (Nat.le_succ _)⟩, h.reads, h.ordered, fun c hc => ?_,
        fun c t nowMs hc => ?_⟩
      · obtain ⟨h1, h2, h3, h4⟩ := h.warm c hc
        exact ⟨h1, h2, h3, h4⟩
      · obtain ⟨⟨h1, h2, h3, h4⟩, h5, h6, h7, h8, h9⟩ := h.fresh c t nowMs hc
        exact ⟨⟨h1, h2, h3, h4⟩, h5, h6, h7, h8, h9⟩
    · cases hst
  | loadCount k =>
    simp only [AlphaFeed.step] at hst
    split at hst
    · rename_i hpc hload
      cases hst
      exact hpc ▸ h.loadCount hload
    · cases hst
  | loadStamp k nowMs =>
    simp only [AlphaFeed.step] at hst
    split at hst
    · rename_i c last rel view hpc hload
      cases hst
      exact h.loadStamp hpc hload
    · cases hst
  | loadAlpha k =>
    simp only [AlphaFeed.step] at hst
    split at hst
    · rename_i c t nowMs alpha view hpc hload
      cases hst
      exact h.loadAlpha hpc hload
    · cases hst

theorem inv_of_reach (h : Trans.Reach (step minSamples staleMs) start s) : s.Inv minSamples staleMs :=
  h.invariant (start_inv minSamples staleMs) fun _ _ _ hs _ hst => hs.step hst

/-- Two updates and a call; a reset that a second call overlaps; a cold call, an update and a warm call. -/
def resetBetweenCalls : List AlphaAct :=
  [.begin (.update 5 10), .store, .store, .store, .begin (.update 6 20), .store, .store, .store,
    .loadCount 1, .loadStamp 2 25, .loadAlpha 2, .loadCount 2, .begin .reset, .store, .loadStamp 2 26, .loadAlpha 3,
    .store, .store, .loadCount 3, .begin (.update 7 30), .store, .store, .store, .loadCount 4, .loadStamp 4 35,
    .loadAlpha 4]

/-- The second call returns the zero of the reset under way. -/
theorem resetBetweenCalls_reads : ∃ s, Trans.Reach (step 1 100) start s ∧
    s.ops = [.reset, .update 5 10, .update 6 20, .reset, .update 7 30] ∧
    s.reads = [.usable 1 2 2 25 6, .usable 2 2 3 26 0, .cold 3, .usable 4 4 4 35 7] := by
  obtain ⟨s, hrun, hs⟩ := Option.map_eq_some_iff.mp (show ((Trans.run (step 1 100) start resetBetweenCalls).map
    fun s => (s.ops, s.reads)) = some ([.reset, .update 5 10, .update 6 20, .reset, .update 7 30],
      [.usable 1 2 2 25 6, .usable 2 2 3 26 0, .cold 3, .usable 4 4 4 35 7]) by decide +kernel)
  exact ⟨s, Trans.reach_iff_run.mpr ⟨_, hrun⟩, congrArg Prod.fst hs, congrArg Prod.snd hs⟩

/-- **What `usable_alpha` answers.** Whatever the depth task publishes and however its stores and the loads
interleave: a call without a result saw a count that is not warm, or a time that is stale; one with a result
saw a warm count, a fresh time that is not older, and an alpha that is not older than the time. No load of a
later call goes back behind the same load of an earlier one. -/
theorem usable_alpha_sound (h : Trans.Reach (step minSamples staleMs) start s) :
    (∀ e ∈ s.reads, e.Founded minSamples staleMs s.ops) ∧ s.reads.Pairwise AlphaRead.Before :=
  ⟨fun e he => ((inv_of_reach h).reads e he).1, (inv_of_reach h).ordered⟩

/-- Updates add to the sample count. -/
theorem alphaAt_updates {c j : ℕ} (hcj : c ≤ j) (hj : j < ops.length)
    (hquiet : ∀ k, c < k → k ≤ j → ops[k]? ≠ some .reset) :
    (alphaAt ops j).sampleCount = (alphaAt ops c).sampleCount + (j - c) := by
  induction j, hcj using Nat.le_induction with
  | base => omega
  | succ j hcj ih =>
    have hprev := ih (by omega) fun k hk hkj => hquiet k hk (hkj.trans (Nat.le_succ j))
    have hop : ops[j + 1]? = some ops[j + 1] := List.getElem?_eq_getElem hj
    rw [alphaAt_eq hop]
    cases hcase : ops[j + 1] with
    | reset => exact absurd (hcase ▸ hop) (hquiet (j + 1) (by omega) le_rfl)
    | update alpha nowMs =>
      show (alphaAt ops j).sampleCount + 1 = _
      omega

/-- **A call agrees with an atomic one.** If no reset was made after the count that it loaded and up to the
alpha, and the clock did not go back between the time and the alpha, its result is that of `usable_alpha` on
the registers as they were after one operation, the one that published the alpha. -/
theorem usable_alpha_atomic (h : Trans.Reach (step minSamples staleMs) start s) {c t j nowMs : ℕ} {alpha : ℚ}
    (he : .usable c t j nowMs alpha ∈ s.reads) (hquiet : ∀ k, c < k → k ≤ j → s.ops[k]? ≠ some .reset)
    (hclock : (alphaAt s.ops t).lastUpdateMs ≤ (alphaAt s.ops j).lastUpdateMs) :
    (alphaAt s.ops j).usableAlpha minSamples staleMs nowMs = some alpha := by
  obtain ⟨hct, htj, hj, hwarm, hfresh, halpha⟩ := (usable_alpha_sound h).1 _ he
  have hcount := alphaAt_updates (hct.trans htj) hj hquiet
  have hwarm' : (alphaAt s.ops j).warmedUp minSamples = true := by
    have := of_decide_eq_true hwarm
    exact decide_eq_true (by omega)
  have hfresh' : (alphaAt s.ops j).isStale staleMs nowMs = false := by
    simp only [SharedAlpha.isStale, Bool.or_eq_false_iff, beq_eq_false_iff_ne, decide_eq_false_iff_not] at hfresh ⊢
    omega
  unfold SharedAlpha.usableAlpha
  rw [hwarm', hfresh', halpha]
  rfl

/-- The first call, which loaded an old count. -/
theorem usable_alpha_atomic_called : ∃ s, Trans.Reach (step 1 100) start s ∧
    (alphaAt s.ops 2).usableAlpha 1 100 25 = some 6 := by
  obtain ⟨s, hreach, hops, hreads⟩ := resetBetweenCalls_reads
  refine ⟨s, hreach, usable_alpha_atomic (c := 1) (t := 2) (j := 2) hreach (by simp [hreads]) ?_ le_rfl⟩
  rw [hops]
  intro k hk hk2
  obtain rfl : k = 2 := by omega
  decide

/-- **No alpha leaks over a reset**: once a load of the count or of the time has returned the store of a
reset, every later result is of an operation after it. -/
theorem usable_alpha_after_reset (h : Trans.Reach (step minSamples staleMs) start s) :
    s.reads.Pairwise fun e e' => ∀ k, s.ops[k]? = some .reset → k = e.count ∨ e.stamp = some k →
      ∀ c t j nowMs alpha, e' = .usable c t j nowMs alpha → k < t ∧ k < j := by
  obtain ⟨hfound, hordered⟩ := usable_alpha_sound h
  refine hordered.imp_of_mem fun {e e'} he he' hbefore k hreset hsaw c t j nowMs alpha heq => ?_
  subst heq
  obtain ⟨hct, htj, hj, -, hfresh, -⟩ := hfound _ he'
  have hkt : k ≤ t := by
    rcases hsaw with rfl | hstamp
    · exact hbefore.count.trans hct
    · exact hbefore.stamp k hstamp t rfl
  -- The time that the later call loaded is that of an update.
  have hne : k ≠ t := by
    rintro rfl
    rw [alphaAt_eq hreset] at hfresh
    cases hfresh
  omega

/-- The third call saw the reset, the fourth one an alpha from after it. -/
theorem usable_alpha_after_reset_cold : ∃ s, Trans.Reach (step 1 100) start s ∧ s.reads[2]? = some (.cold 3) ∧
    s.ops[3]? = some .reset ∧ ∃ t j, s.reads[3]? = some (.usable 4 t j 35 7) ∧ 3 < t ∧ 3 < j := by
  obtain ⟨s, hreach, hops, hreads⟩ := resetBetweenCalls_reads
  have hpair := usable_alpha_after_reset hreach
  rw [hreads, hops] at hpair
  have hlast := List.rel_of_pairwise_cons (hpair.drop (i := 2)) (List.mem_singleton_self _)
  exact ⟨s, hreach, by rw [hreads]; rfl, by rw [hops]; rfl, 4, 4, by rw [hreads]; rfl,
    hlast 3 rfl (.inl rfl) 4 4 4 35 7 rfl⟩

end AlphaFeed

end LighterMM
