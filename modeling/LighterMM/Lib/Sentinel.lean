import Mathlib

/-!
# An optional value in one word, with a sentinel

A word holds a value or the sentinel, which stands for no value. Reading back is exact but for a value whose
own word is the sentinel (`Shadowed`): it is read as no value (`unpack_pack_iff`). There is at most one
(`Shadowed.eq`).
-/

/-- A code of values as words that can be read back, and the word that stands for no value. -/
structure Sentinel (α ω : Type*) where
  encode : α → ω
  decode : ω → α
  sentinel : ω
  decode_encode : ∀ a, decode (encode a) = a

namespace Sentinel

variable {α ω : Type*} (s : Sentinel α ω) {a b : α} {o : Option α}

def pack (o : Option α) : ω := (o.map s.encode).getD s.sentinel

def unpack [DecidableEq ω] (v : ω) : Option α := if v = s.sentinel then none else some (s.decode v)

/-- The word of the value is taken. -/
def Shadowed (a : α) : Prop := s.encode a = s.sentinel

variable {s}

theorem Shadowed.eq (ha : s.Shadowed a) (hb : s.Shadowed b) : a = b :=
  calc a = s.decode (s.encode a) := (s.decode_encode a).symm
    _ = s.decode (s.encode b) := congrArg s.decode (ha.trans hb.symm)
    _ = b := s.decode_encode b

variable [DecidableEq ω]

/-- A shadowed value is read back as none. -/
theorem Shadowed.unpack_pack (h : s.Shadowed a) : s.unpack (s.pack (some a)) = none := if_pos h

/-- **What is written is read back** unless it is shadowed. -/
theorem unpack_pack_iff : s.unpack (s.pack o) = o ↔ ∀ a, o = some a → ¬ s.Shadowed a := by
  cases o with
  | none => exact iff_of_true (if_pos rfl) fun a h => nomatch h
  | some a =>
    constructor
    · intro hback b hb hshadow
      cases hb
      rw [hshadow.unpack_pack] at hback
      cases hback
    · intro h
      have hword : s.pack (some a) ≠ s.sentinel := h a rfl
      rw [unpack, if_neg hword]
      exact congrArg some (s.decode_encode a)

end Sentinel
