import Mathlib

/-!
# Ring buffers

A buffer that is overwritten in a circle. Read from the write position on, `buf.rotate pos` is the buffer
from its oldest cell to its newest, so the last `n` values written are `window buf pos n`.

A write drops the oldest cell and appends the value (`rotate_write`): below the buffer's length a window
gains the value (`window_write`), and a full window is its oldest cell and the rest (`window_full`).
-/

namespace RingBuffer

variable {α : Type*} {buf : List α} {pos n : ℕ} {v : α}

/-- The position after `pos`, from the end back to the start. -/
def next (cap pos : ℕ) : ℕ := if cap ≤ pos + 1 then 0 else pos + 1

/-- The last `n` values written, the oldest first. -/
def window (buf : List α) (pos n : ℕ) : List α := (buf.rotate pos).rtake n

theorem next_lt {cap : ℕ} (h : 0 < cap) : next cap pos < cap := by
  unfold next
  split <;> omega

theorem rotate_next (h : pos < buf.length) : buf.rotate (next buf.length pos) = buf.rotate (pos + 1) := by
  unfold next
  split
  · have hlen : pos + 1 = buf.length := by omega
    rw [hlen, List.rotate_length, List.rotate_zero]
  · rfl

theorem rotate_write (h : pos < buf.length) :
    (buf.set pos v).rotate (next buf.length pos) = (buf.rotate pos).tail ++ [v] := by
  have hset : (buf.set pos v).length = buf.length := List.length_set
  have hnext : (buf.set pos v).rotate (next buf.length pos) = (buf.set pos v).rotate (pos + 1) := by
    rw [← hset]
    exact rotate_next (hset.symm ▸ h)
  have hhead : buf.drop pos = buf[pos] :: buf.drop (pos + 1) := List.drop_eq_getElem_cons h
  have htake : (buf.set pos v).take (pos + 1) = buf.take pos ++ [v] := by
    rw [List.take_succ_eq_append_getElem (hset.symm ▸ h), List.take_set_of_le (le_refl pos),
      List.getElem_set_self]
  have hdrop : (buf.set pos v).drop (pos + 1) = buf.drop (pos + 1) :=
    List.drop_set_of_lt (Nat.lt_succ_self pos)
  rw [hnext, List.rotate_eq_drop_append_take (hset.symm ▸ h), htake, hdrop,
    List.rotate_eq_drop_append_take h.le, hhead, List.cons_append, List.tail_cons, List.append_assoc]

@[simp] theorem window_zero : window buf pos 0 = [] := List.rtake_zero _

theorem window_write (h : pos < buf.length) (hn : n < buf.length) :
    window (buf.set pos v) (next buf.length pos) (n + 1) = window buf pos n ++ [v] := by
  have htail : ((buf.rotate pos).tail).rtake n = (buf.rotate pos).rtake n := by
    simp only [List.rtake, List.length_tail, List.length_rotate, List.drop_tail]
    congr 1
    omega
  rw [window, window, rotate_write h, List.rtake_concat_succ, htail]

theorem window_full (h : pos < buf.length) (hn : n + 1 = buf.length) :
    window buf pos (n + 1) = buf[pos] :: window buf pos n := by
  have hcons : buf.rotate pos = buf[pos] :: (buf.drop (pos + 1) ++ buf.take pos) := by
    rw [List.rotate_eq_drop_append_take h.le, List.drop_eq_getElem_cons h, List.cons_append]
  have hlen : (buf.rotate pos).length = n + 1 := by rw [List.length_rotate, hn]
  rw [window, window, List.rtake, List.rtake, hlen, Nat.sub_self, List.drop_zero, Nat.add_sub_cancel_left,
    hcons, List.drop_one, List.tail_cons]

/-- The last `n` of a list that has one value more. -/
theorem rtake_concat {l : List α} (hn : 0 < n) (x : α) :
    (l ++ [x]).rtake n = (if n ≤ (l.rtake n).length then (l.rtake n).tail else l.rtake n) ++ [x] := by
  obtain ⟨m, rfl⟩ : ∃ m, n = m + 1 := ⟨n - 1, by omega⟩
  rw [List.rtake_concat_succ]
  congr 1
  simp only [List.rtake, List.length_drop]
  split
  · rw [List.tail_drop]
    congr 1
    omega
  · rw [show l.length - m = 0 by omega, show l.length - (m + 1) = 0 by omega]

/-- A window that has moved on by one value, seen from the whole list. -/
theorem rtake_concat_rtake {l : List α} (hn : 0 < n) (x : α) :
    (l.rtake n ++ [x]).rtake n = (l ++ [x]).rtake n := by
  obtain ⟨m, rfl⟩ : ∃ m, n = m + 1 := ⟨n - 1, by omega⟩
  rw [List.rtake_concat_succ, List.rtake_concat_succ]
  congr 1
  simp only [List.rtake, List.length_drop, List.drop_drop]
  congr 1
  omega

end RingBuffer
