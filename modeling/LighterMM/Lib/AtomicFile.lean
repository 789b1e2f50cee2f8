import Mathlib

/-!
# Replacing a file atomically

A writer replaces a file by writing a temporary one and renaming it over the destination. Each operation may
fail, a write may stop anywhere, and the process may end between any two operations.

* `FileWriter.Sound`: a file that is not a temporary one has what the last completed replacement gave it, so a
  reader never sees a part of a replacement.
* `FileWriter.Tidy`: without a crash and with every removal done, an idle writer leaves no temporary file.
-/

/-- The files of a directory by name. -/
abbrev Files (N B : Type*) := N → Option (List B)

/-- Where a replacement is. -/
inductive FileWriterPc (N B : Type*) where
  | idle
  | creating (dst tmp : N) (bytes : List B)
  /-- The temporary file holds `written`; `rest` is still to be written. -/
  | writing (dst tmp : N) (written rest : List B)
  /-- An operation failed: the temporary file is removed. -/
  | cleaning (tmp : N)

inductive FileWriterAct where
  /-- The directory could not be made: nothing was touched. -/
  | refuse
  | create (ok : Bool)
  | write (k : ℕ)
  | writeFailed
  | rename (ok : Bool)
  | remove (ok : Bool)

/-- A directory with its writer. `committed` is what the completed replacements have made of the files. -/
structure FileWriter (N B : Type*) where
  files : Files N B
  committed : Files N B
  pc : FileWriterPc N B

namespace FileWriter

variable {N B : Type*} [DecidableEq N]

/-- The writer of a directory that is there already. -/
def init (files : Files N B) : FileWriter N B := ⟨files, files, .idle⟩

def begin (w : FileWriter N B) (dst tmp : N) (bytes : List B) : FileWriter N B :=
  { w with pc := .creating dst tmp bytes }

/-- The process ends; what is on the disk stays. -/
def crash (w : FileWriter N B) : FileWriter N B := { w with pc := .idle }

def step (w : FileWriter N B) : FileWriterAct → Option (FileWriter N B)
  | .refuse =>
    match w.pc with
    | .creating .. => some { w with pc := .idle }
    | _ => none
  | .create ok =>
    match w.pc with
    | .creating dst tmp bytes =>
      if ok then some { w with files := Function.update w.files tmp (some []), pc := .writing dst tmp [] bytes }
      else some { w with pc := .cleaning tmp }
    | _ => none
  | .write k =>
    match w.pc with
    | .writing dst tmp written rest =>
      some { w with files := Function.update w.files tmp (some (written ++ rest.take k))
                    pc := .writing dst tmp (written ++ rest.take k) (rest.drop k) }
    | _ => none
  | .writeFailed =>
    match w.pc with
    | .writing _ tmp _ _ => some { w with pc := .cleaning tmp }
    | _ => none
  | .rename ok =>
    match w.pc with
    | .writing dst tmp written [] =>
      if ok then
        some { files := Function.update (Function.update w.files dst (w.files tmp)) tmp none
               committed := Function.update w.committed dst (some written), pc := .idle }
      else some { w with pc := .cleaning tmp }
    | _ => none
  | .remove ok =>
    match w.pc with
    | .cleaning tmp =>
      some { w with files := if ok then Function.update w.files tmp none else w.files, pc := .idle }
    | _ => none

/-- The replacement that is under way. -/
def job (w : FileWriter N B) : Option (N × List B) :=
  match w.pc with
  | .creating dst _ bytes => some (dst, bytes)
  | .writing dst _ written rest => some (dst, written ++ rest)
  | _ => none

/-- The ways through a step. -/
inductive Case (w : FileWriter N B) : FileWriterAct → FileWriter N B → Prop
  | refuse {dst tmp : N} {bytes : List B} (hpc : w.pc = .creating dst tmp bytes) : Case w .refuse { w with pc := .idle }
  | created {dst tmp : N} {bytes : List B} (hpc : w.pc = .creating dst tmp bytes) :
    Case w (.create true) { w with files := Function.update w.files tmp (some []), pc := .writing dst tmp [] bytes }
  | notCreated {dst tmp : N} {bytes : List B} (hpc : w.pc = .creating dst tmp bytes) :
    Case w (.create false) { w with pc := .cleaning tmp }
  | write (k : ℕ) {dst tmp : N} {written rest : List B} (hpc : w.pc = .writing dst tmp written rest) :
    Case w (.write k) { w with files := Function.update w.files tmp (some (written ++ rest.take k))
                               pc := .writing dst tmp (written ++ rest.take k) (rest.drop k) }
  | writeFailed {dst tmp : N} {written rest : List B} (hpc : w.pc = .writing dst tmp written rest) :
    Case w .writeFailed { w with pc := .cleaning tmp }
  | renamed {dst tmp : N} {written : List B} (hpc : w.pc = .writing dst tmp written []) :
    Case w (.rename true)
      { files := Function.update (Function.update w.files dst (w.files tmp)) tmp none
        committed := Function.update w.committed dst (some written), pc := .idle }
  | notRenamed {dst tmp : N} {written : List B} (hpc : w.pc = .writing dst tmp written []) :
    Case w (.rename false) { w with pc := .cleaning tmp }
  | remove (ok : Bool) {tmp : N} (hpc : w.pc = .cleaning tmp) :
    Case w (.remove ok) { w with files := if ok then Function.update w.files tmp none else w.files, pc := .idle }

variable {w w' : FileWriter N B} {a : FileWriterAct} {temp : N → Prop}

theorem step_cases (h : w.step a = some w') : Case w a w' := by
  cases a with
  | refuse =>
    simp only [step] at h
    split at h <;> cases h
    rename_i hpc
    exact .refuse hpc
  | create ok =>
    simp only [step] at h
    split at h
    · rename_i hpc
      cases ok <;> cases h
      · exact .notCreated hpc
      · exact .created hpc
    · cases h
  | write k =>
    simp only [step] at h
    split at h <;> cases h
    rename_i hpc
    exact .write k hpc
  | writeFailed =>
    simp only [step] at h
    split at h <;> cases h
    rename_i hpc
    exact .writeFailed hpc
  | rename ok =>
    simp only [step] at h
    split at h
    · rename_i hpc
      cases ok <;> cases h
      · exact .notRenamed hpc
      · exact .renamed hpc
    · cases h
  | remove ok =>
    simp only [step] at h
    split at h <;> cases h
    rename_i hpc
    exact .remove ok hpc

/-! ## No reader sees a part -/

/-- What the writer knows of its temporary file, by the place in the code. -/
def PcOk (temp : N → Prop) (files : Files N B) : FileWriterPc N B → Prop
  | .idle => True
  | .creating dst tmp _ => temp tmp ∧ ¬temp dst
  | .writing dst tmp written _ => temp tmp ∧ ¬temp dst ∧ files tmp = some written
  | .cleaning tmp => temp tmp

/-- The files but for the temporary ones are the committed ones. -/
structure Sound (temp : N → Prop) (w : FileWriter N B) : Prop where
  committed : ∀ x, ¬temp x → w.files x = w.committed x
  pc : PcOk temp w.files w.pc

omit [DecidableEq N] in
theorem init_sound (files : Files N B) : (init files).Sound temp := ⟨fun _ _ => rfl, trivial⟩

omit [DecidableEq N] in
theorem Sound.begin {dst tmp : N} {bytes : List B} (h : w.Sound temp) (htmp : temp tmp) (hdst : ¬temp dst) :
    (w.begin dst tmp bytes).Sound temp := ⟨h.committed, htmp, hdst⟩

omit [DecidableEq N] in
theorem Sound.crash (h : w.Sound temp) : w.crash.Sound temp := ⟨h.committed, trivial⟩

/-- A write to a temporary file. -/
theorem Sound.touch {tmp : N} {contents : Option (List B)} {pc : FileWriterPc N B} (h : w.Sound temp) (htmp : temp tmp)
    (hpc : PcOk temp (Function.update w.files tmp contents) pc) :
    Sound temp { w with files := Function.update w.files tmp contents, pc } := by
  refine ⟨fun x hx => ?_, hpc⟩
  have hne : x ≠ tmp := fun he => hx (he ▸ htmp)
  show Function.update w.files tmp contents x = w.committed x
  rw [Function.update_of_ne hne]
  exact h.committed x hx

/-- **A replacement is atomic.** -/
theorem Sound.step (h : w.Sound temp) (hst : w.step a = some w') : w'.Sound temp := by
  have hok := h.pc
  cases step_cases hst with
  | refuse => exact h.crash
  | created hpc =>
    rw [hpc] at hok
    exact h.touch hok.1 ⟨hok.1, hok.2, Function.update_self ..⟩
  | notCreated hpc =>
    rw [hpc] at hok
    exact ⟨h.committed, hok.1⟩
  | write k hpc =>
    rw [hpc] at hok
    exact h.touch hok.1 ⟨hok.1, hok.2.1, Function.update_self ..⟩
  | writeFailed hpc | notRenamed hpc =>
    rw [hpc] at hok
    exact ⟨h.committed, hok.1⟩
  | @renamed dst tmp written hpc =>
    rw [hpc] at hok
    obtain ⟨htmp, -, hfile⟩ := hok
    refine ⟨fun x hx => ?_, trivial⟩
    have hne : x ≠ tmp := fun he => hx (he ▸ htmp)
    show Function.update (Function.update w.files dst (w.files tmp)) tmp none x =
      Function.update w.committed dst (some written) x
    rw [Function.update_of_ne hne, hfile]
    by_cases hd : x = dst
    · rw [hd, Function.update_self, Function.update_self]
    · rw [Function.update_of_ne hd, Function.update_of_ne hd]
      exact h.committed x hx
  | remove ok hpc =>
    rw [hpc] at hok
    cases ok with
    | true => exact h.touch hok trivial
    | false => exact h.crash

/-- A step goes on with the replacement, gives it up, or completes it by renaming. -/
theorem step_job (hst : w.step a = some w') :
    (a ≠ .rename true ∧ w'.committed = w.committed ∧ (w'.job = w.job ∨ w'.job = none)) ∨
      a = .rename true ∧ w'.pc = .idle ∧ ∃ dst bytes, w.job = some (dst, bytes) ∧
        w'.committed = Function.update w.committed dst (some bytes) := by
  cases step_cases hst with
  | refuse | notCreated | writeFailed | notRenamed | remove => exact .inl ⟨by simp, rfl, .inr rfl⟩
  | created hpc => exact .inl ⟨by simp, rfl, .inl (by simp only [job, hpc, List.nil_append])⟩
  | write k hpc =>
    exact .inl ⟨by simp, rfl, .inl (by simp only [job, hpc, List.append_assoc, List.take_append_drop])⟩
  | @renamed dst tmp written hpc =>
    exact .inr ⟨rfl, rfl, dst, written, by simp only [job, hpc, List.append_nil], rfl⟩

/-! ## Nothing is left behind -/

/-- The temporary file that the writer is about. -/
def scratch (w : FileWriter N B) : Option N :=
  match w.pc with
  | .writing _ tmp _ _ | .cleaning tmp => some tmp
  | _ => none

/-- No temporary file but the one that the writer is about. -/
def Tidy (temp : N → Prop) (w : FileWriter N B) : Prop := ∀ x, temp x → w.scratch ≠ some x → w.files x = none

omit [DecidableEq N] in
theorem Tidy.begin {dst tmp : N} {bytes : List B} (h : w.Tidy temp) (hidle : w.pc = .idle) :
    (w.begin dst tmp bytes).Tidy temp :=
  fun x hx _ => h x hx (by simp [scratch, hidle])

theorem Tidy.step (h : w.Tidy temp) (hsound : w.Sound temp) (hst : w.step a = some w') (ha : a ≠ .remove false) :
    w'.Tidy temp := by
  have hok := hsound.pc
  intro x hx hs
  cases step_cases hst with
  | refuse hpc | notCreated hpc => exact h x hx (by simp [scratch, hpc])
  | writeFailed hpc | notRenamed hpc => exact h x hx (by simpa [scratch, hpc] using hs)
  | created hpc =>
    have hne : x ≠ _ := fun he => hs (congrArg some he.symm)
    show Function.update w.files _ _ x = none
    rw [Function.update_of_ne hne]
    exact h x hx (by simp [scratch, hpc])
  | write k hpc =>
    have hne : x ≠ _ := fun he => hs (congrArg some he.symm)
    show Function.update w.files _ _ x = none
    rw [Function.update_of_ne hne]
    exact h x hx (by simpa [scratch, hpc] using hs)
  | @renamed dst tmp written hpc =>
    rw [hpc] at hok
    have hdst : x ≠ dst := fun he => hok.2.1 (he ▸ hx)
    show Function.update (Function.update w.files dst (w.files tmp)) tmp none x = none
    by_cases htmp : x = tmp
    · rw [htmp, Function.update_self]
    · rw [Function.update_of_ne htmp, Function.update_of_ne hdst]
      exact h x hx (by simpa [scratch, hpc] using Ne.symm htmp)
  | @remove ok tmp hpc =>
    cases ok with
    | false => exact absurd rfl ha
    | true =>
      show Function.update w.files tmp none x = none
      by_cases htmp : x = tmp
      · rw [htmp, Function.update_self]
      · rw [Function.update_of_ne htmp]
        exact h x hx (by simpa [scratch, hpc] using Ne.symm htmp)

end FileWriter
