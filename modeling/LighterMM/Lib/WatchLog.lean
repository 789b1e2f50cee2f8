import LighterMM.Lib.Trans

/-!
# What a receiver sees of a single-slot channel

A `Watch` keeps its newest value only. `WatchLog` is the channel with its history: the values sent, and the
positions of those that the receiver has taken. `Ordered` is kept by both ends: the receiver takes values in
the order in which they were sent, none of them twice, and the newest value waits or was taken.
-/

/-- A channel, the values sent and the positions in `sent` of the values taken. -/
structure WatchLog (α : Type*) where
  channel : Watch α
  sent : List α
  taken : List ℕ

namespace WatchLog

variable {α : Type*} {l : WatchLog α}

def init (v : α) : WatchLog α := ⟨.init v, [], []⟩

def send (l : WatchLog α) (v : α) : WatchLog α := { l with channel := l.channel.send v, sent := l.sent ++ [v] }

/-- The receiver takes what is pending. -/
def take (l : WatchLog α) : WatchLog α :=
  { l with channel := l.channel.markSeen, taken := l.taken ++ [l.sent.length - 1] }

structure Ordered (l : WatchLog α) : Prop where
  increasing : l.taken.Pairwise (· < ·)
  bounded : ∀ i ∈ l.taken, i < l.sent.length
  newest : ∀ v, l.channel.pending = some v → l.sent.getLast? = some v ∧ ∀ i ∈ l.taken, i + 1 < l.sent.length
  served : l.channel.pending = none → l.sent = [] ∨ l.taken.getLast? = some (l.sent.length - 1)

theorem init_ordered (v : α) : (init v).Ordered :=
  ⟨.nil, List.forall_mem_nil _, fun _ h => (by cases h), fun _ => .inl rfl⟩

theorem Ordered.send (h : l.Ordered) (v : α) : (l.send v).Ordered where
  increasing := h.increasing
  bounded i hi := by
    have hlt := h.bounded i hi
    simp only [WatchLog.send, List.length_append, List.length_singleton]
    omega
  newest u hu := by
    cases hu
    refine ⟨List.getLast?_concat, fun i hi => ?_⟩
    have hlt := h.bounded i hi
    simp only [WatchLog.send, List.length_append, List.length_singleton]
    omega
  served hnone := by cases hnone

theorem Ordered.take {v : α} (h : l.Ordered) (hpending : l.channel.pending = some v) : l.take.Ordered := by
  obtain ⟨hlast, hbefore⟩ := h.newest v hpending
  have hlen : 0 < l.sent.length := List.length_pos_of_mem (List.mem_of_getLast? hlast)
  refine ⟨?_, fun i hi => ?_, fun _ hu => ?_, fun _ => .inr List.getLast?_concat⟩
  · refine List.pairwise_append.mpr ⟨h.increasing, List.pairwise_singleton _ _, fun i hi j hj => ?_⟩
    have hlt := hbefore i hi
    rw [List.mem_singleton.mp hj]
    omega
  · rcases List.mem_append.mp hi with hi | hi
    · exact h.bounded i hi
    · rw [List.mem_singleton.mp hi]
      show l.sent.length - 1 < l.sent.length
      omega
  · cases hu

/-- What the receiver takes is the value sent last. -/
theorem Ordered.pending_get {v : α} (h : l.Ordered) (hpending : l.channel.pending = some v) :
    l.sent[l.sent.length - 1]? = some v := by
  rw [← List.getLast?_eq_getElem?]
  exact (h.newest v hpending).1

end WatchLog
